import Workflow.Yaml.Cursor
import Workflow.Yaml.Tag
import Workflow.Yaml.Token

/-!
# Anchors, tags and directives in YAML text

The readers begin after the indicator and give a token and the cursor after it.
-/

set_option autoImplicit false

namespace Workflow.Yaml

def followsName (cs : List Char) : Bool :=
  atGap cs || (match cs with
    | c :: _ => "?:,]\x7d%@`".toList.contains c
    | [] => true)

def readName (c : Cursor) : Option (String × Cursor) :=
  let (name, after) := c.takeWhile isNameChar
  if name.isEmpty || !followsName after.rest then none else some (String.ofList name, after)

def isTagChar (wide : Bool) (c : Char) : Bool :=
  isNameChar c || ";/?:@&=+$.!~*'()%".toList.contains c || (wide && ",[]".toList.contains c)

def escapedBytes : Nat → List Char → Option (List UInt8)
  | 0, _ => some []
  | n + 1, '%' :: a :: b :: cs => do
    let byte ← digitsIn? 16 [a, b]
    return byte.toUInt8 :: (← escapedBytes n cs)
  | _ + 1, _ => none

def encodedLength? (byte : Nat) : Option Nat :=
  if byte < 0x80 then some 1
  else if byte / 0x20 = 0x6 then some 2
  else if byte / 0x10 = 0xE then some 3
  else if byte / 0x08 = 0x1E then some 4
  else none

/-- The bytes of one character written by percent escapes. Only the marks of the first byte and of
those that continue it are looked at. -/
def escapedChar? (cs : List Char) : Option (List UInt8) := do
  let first ← (← escapedBytes 1 cs).head?
  let bytes ← escapedBytes (← encodedLength? first.toNat) cs
  if (bytes.drop 1).all (·.toNat / 0x40 = 2) then some bytes else none

def tagBytes? : List Char → Option (List UInt8)
  | [] => some []
  | c :: cs =>
    if c == '%' then
      (escapedChar? (c :: cs)).bind fun bytes =>
        (tagBytes? (cs.drop (3 * bytes.length - 1))).map (bytes ++ ·)
    else (tagBytes? cs).map (c.toNat.toUInt8 :: ·)
  termination_by cs => cs.length
  decreasing_by all_goals simp only [List.length_cons, List.length_drop]; omega

def readTagText (wide : Bool) (c : Cursor) : Option (List UInt8 × Cursor) :=
  let (text, after) := c.takeWhile (isTagChar wide)
  (tagBytes? text).map (·, after)

/-- What counts of the bytes of a tag: those before a zero. -/
def beforeZero (bytes : List UInt8) : List UInt8 := bytes.takeWhile (· ≠ 0)

def readHandle (c : Cursor) : Option (List Char × Bool × Cursor) :=
  match c.rest with
  | '!' :: _ =>
    let (name, after) := (c.forward 1).takeWhile isNameChar
    match after.rest with
    | '!' :: _ => some ('!' :: name ++ ['!'], true, after.forward 1)
    | _ => some ('!' :: name, false, after)
  | _ => none

/-- A tag, from its exclamation mark on. A text in angle brackets is taken as it stands; otherwise a
handle with two marks is kept apart from the rest, and any other text belongs to the handle `!`. The
mark alone is a tag of its own. -/
def readTagParts (c : Cursor) : Option (List Char × List UInt8 × Cursor) :=
  match c.rest with
  | '!' :: '<' :: _ => do
    let (text, after) ← readTagText true (c.forward 2)
    match text, after.rest with
    | _ :: _, '>' :: _ => some ([], beforeZero text, after.forward 1)
    | _, _ => none
  | _ => do
    let (handle, closed, after) ← readHandle c
    if closed then
      let (text, after) ← readTagText false after
      if text.isEmpty then none else some (handle, beforeZero text, after)
    else
      let (text, after) ← readTagText false after
      let suffix := beforeZero (bytesOf (String.ofList (handle.drop 1)) ++ text)
      some (if suffix.isEmpty then ([], bytesOf "!", after) else (['!'], suffix, after))

def readTag (inFlow : Bool) (c : Cursor) : Option (Token × Cursor) := do
  let (handle, suffix, after) ← readTagParts c
  if atGap after.rest || (inFlow && after.rest.head? == some ',') then
    some (.tag (String.ofList handle) suffix, after)
  else none

def readVersionPart (c : Cursor) : Option (Nat × Cursor) :=
  let (digits, after) := c.takeWhile Char.isDigit
  if digits.length ≤ 9 then (digitsIn? 10 digits).map (·, after) else none

def readDirective (c : Cursor) : Option (Token × Cursor) := do
  let (name, after) := c.takeWhile isNameChar
  if !atGap after.rest then none
  else if name == "YAML".toList then
    let (major, after) ← readVersionPart after.skipBlanks
    match after.rest with
    | '.' :: _ =>
      let (minor, after) ← readVersionPart (after.forward 1)
      return (.versionDirective major minor, ← after.finishLine?)
    | _ => none
  else if name == "TAG".toList then
    let (handle, closed, after) ← readHandle after.skipBlanks
    if !closed && handle != ['!'] then none
    else if after.skipBlanks.position.column = after.column then none
    else
      let (stem, after) ← readTagText true after.skipBlanks
      if stem.isEmpty || !atGap after.rest then none
      else
        let directive := .tagDirective (String.ofList handle) (beforeZero stem)
        return (directive, ← after.finishLine?)
  else none

end Workflow.Yaml
