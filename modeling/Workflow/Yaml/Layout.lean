import Workflow.Yaml.Property
import Workflow.Yaml.Scalar

/-!
# The layout of YAML text

Reading tokens keeps the columns of the open blocks, and for every open flow collection, and outside
of them, the token that may turn out to be a key. A token may be a key if it stands where keys are
allowed; it is one if a colon follows on the same line within 1024 bytes, and then the tokens for
the key, and for a new block, are put in before it. A token at the column of its block has to be a
key.
-/

set_option autoImplicit false

namespace Workflow.Yaml

/-- A token that may turn out to be a key: how many tokens came before it, where it is, and whether
it has to be one. -/
structure PossibleKey where
  index : Nat
  position : Position
  required : Bool

/-- The tokens so far, last first, and what decides about the following ones. -/
structure Layout where
  tokens : List Token := []
  count : Nat := 0
  /-- The columns of the open blocks, innermost first. -/
  columns : List Nat := []
  /-- The possible keys of the open flow collections, innermost first, and last the one outside. -/
  keys : List (Option PossibleKey) := [none]
  keyAllowed : Bool := true

namespace Layout

def inFlow (l : Layout) : Bool := l.keys.length > 1

def indent (l : Layout) : Nat :=
  match l.columns with
  | [] => 0
  | n :: _ => n + 1

def emit (l : Layout) (t : Token) : Layout :=
  { l with tokens := t :: l.tokens, count := l.count + 1 }

def emitBefore (l : Layout) (index : Nat) (t : Token) : Layout :=
  { l with tokens := l.tokens.insertIdx (l.count - index) t, count := l.count + 1 }

def allowKey (l : Layout) (allowed : Bool) : Layout := { l with keyAllowed := allowed }

def closeBlocks (l : Layout) (column : Option Nat) : Layout :=
  if l.inFlow then l
  else
    let isInside := fun n => match column with
      | some c => c < n
      | none => true
    let closed := l.columns.takeWhile isInside
    { l with
      tokens := closed.map (fun _ => .blockEnd) ++ l.tokens
      count := l.count + closed.length
      columns := l.columns.drop closed.length }

def openBlock (l : Layout) (column index : Nat) (t : Token) : Layout :=
  if !l.inFlow && l.indent ≤ column then
    { l.emitBefore index t with columns := column :: l.columns }
  else l

def dropKey? (l : Layout) : Option Layout :=
  match l.keys with
  | some k :: rest => if k.required then none else some { l with keys := none :: rest }
  | _ => some l

def noteKey? (l : Layout) (p : Position) : Option Layout :=
  if l.keyAllowed then do
    let l ← l.dropKey?
    let key : PossibleKey := ⟨l.count, p, !l.inFlow && l.indent == p.column + 1⟩
    return { l with keys := some key :: l.keys.drop 1 }
  else some l

def isStale (p : Position) (k : PossibleKey) : Bool :=
  k.position.line < p.line || k.position.bytes + 1024 < p.bytes

def dropStale? (l : Layout) (p : Position) : Option Layout :=
  let stale := l.keys.filterMap fun k => k.filter (isStale p)
  if stale.any (·.required) then none
  else some { l with keys := l.keys.map fun k => k.filter (!isStale p ·) }

def openFlow (l : Layout) : Layout := { l with keys := none :: l.keys }

def closeFlow (l : Layout) : Layout := if l.inFlow then { l with keys := l.keys.drop 1 } else l

/-- Whether a key is allowed at the next token, and the cursor there: blanks, comments and line
breaks are passed. Outside of flow collections a line break allows a key, and tabs are blanks only
where no key is allowed. A mark of the byte order is passed at the start of a line. -/
def skipToToken (keyAllowed inFlow : Bool) (p : Position) : List Char → Bool × Cursor
  | [] => (keyAllowed, ⟨p, []⟩)
  | c :: cs =>
    if (p.column == 0 && c == '\ufeff') || c == ' ' || (c == '\t' && (inFlow || !keyAllowed)) then
      skipToToken keyAllowed inFlow (p.next c) cs
    else if c == '#' then
      let comment := cs.takeWhile (!isBreak ·)
      skipToToken keyAllowed inFlow ((p.next c).past comment) (cs.drop comment.length)
    else if isBreak c then
      let n := breakTail c cs
      skipToToken (keyAllowed || !inFlow) inFlow p.newline (cs.drop n)
    else (keyAllowed, ⟨p, c :: cs⟩)
  termination_by cs => cs.length
  decreasing_by all_goals simp only [List.length_cons, List.length_drop]; omega

abbrev Next := Option (Layout × Cursor)

def outside (l : Layout) : Option Layout := do
  return (← (l.closeBlocks none).dropKey?).allowKey false

def readFlowStart (l : Layout) (c : Cursor) (t : Token) : Next := do
  let l ← l.noteKey? c.position
  return (l.openFlow.allowKey true |>.emit t, c.forward 1)

def readFlowEnd (l : Layout) (c : Cursor) (t : Token) : Next := do
  let l ← l.dropKey?
  return (l.closeFlow.allowKey false |>.emit t, c.forward 1)

def readFlowEntry (l : Layout) (c : Cursor) : Next := do
  let l ← l.dropKey?
  return (l.allowKey true |>.emit .flowEntry, c.forward 1)

def readBlockEntry (l : Layout) (c : Cursor) : Next := do
  if !l.inFlow && !l.keyAllowed then none
  else
    let l ← (l.openBlock c.column l.count .blockSequenceStart).dropKey?
    return (l.allowKey true |>.emit .blockEntry, c.forward 1)

def readKey (l : Layout) (c : Cursor) : Next := do
  if !l.inFlow && !l.keyAllowed then none
  else
    let l ← (l.openBlock c.column l.count .blockMappingStart).dropKey?
    return (l.allowKey (!l.inFlow) |>.emit .key, c.forward 1)

/-- A colon before a value. If there is a possible key it is one. -/
def readValue (l : Layout) (c : Cursor) : Next :=
  match l.keys with
  | some k :: rest =>
    let l := (l.emitBefore k.index .key).openBlock k.position.column k.index .blockMappingStart
    some ({ l with keys := none :: rest, keyAllowed := false }.emit .value, c.forward 1)
  | _ =>
    if !l.inFlow && !l.keyAllowed then none
    else
      let l := l.openBlock c.column l.count .blockMappingStart
      some (l.allowKey (!l.inFlow) |>.emit .value, c.forward 1)

def readProperty (l : Layout) (c : Cursor) (read : Cursor → Option (Token × Cursor)) : Next := do
  let l ← l.noteKey? c.position
  let (t, c) ← read c
  return (l.allowKey false |>.emit t, c)

def readNamed (make : String → Token) (c : Cursor) : Option (Token × Cursor) :=
  (readName (c.forward 1)).map fun (name, c) => (make name, c)

def readBlockScalar (l : Layout) (c : Cursor) (folded : Bool) : Next := do
  let l ← l.dropKey?
  let r ← readBlock folded l.indent (c.forward 1)
  let style := if folded then .folded else .literal
  return (l.allowKey true |>.emit (.scalar r.text style), r.cursor)

def readQuotedScalar (l : Layout) (c : Cursor)
    (read : Position → List Char → Option Read) : Next := do
  let l ← l.noteKey? c.position
  let r ← read (c.position.past (c.rest.take 1)) (c.rest.drop 1)
  return (l.allowKey false |>.emit (.scalar r.text .quoted), r.cursor)

def readPlainScalar (l : Layout) (c : Cursor) : Next := do
  let l ← l.noteKey? c.position
  let r ← readPlain l.inFlow l.indent [] {} c.position c.rest
  return (l.allowKey r.broken |>.emit (.scalar r.text .plain), r.cursor)

/-- Whether a plain scalar may start with a character, which is no space. Hyphens may if no blank
follows, and outside of flow collections question marks and colons if no gap follows. -/
def startsPlain (inFlow : Bool) (c : Char) (cs : List Char) : Bool :=
  if c == '-' then !(match cs with
    | d :: _ => isBlank d
    | [] => false)
  else if c == '?' || c == ':' then !inFlow && !atGap cs
  else !"\t#&*!|>'\"%@`,[]\x7b\x7d".toList.contains c

def readToken (l : Layout) (cursor : Cursor) (c : Char) (cs : List Char) : Next :=
  if cursor.column == 0 && c == '%' then do
    let l ← l.outside
    let (t, next) ← readDirective (cursor.forward 1)
    return (l.emit t, next)
  else if atDocumentMark cursor.position (c :: cs) then do
    let l ← l.outside
    return (l.emit (if c == '-' then .documentStart else .documentEnd), cursor.forward 3)
  else if c == '[' then l.readFlowStart cursor .flowSequenceStart
  else if c == '{' then l.readFlowStart cursor .flowMappingStart
  else if c == ']' then l.readFlowEnd cursor .flowSequenceEnd
  else if c == '}' then l.readFlowEnd cursor .flowMappingEnd
  else if c == ',' then l.readFlowEntry cursor
  else if c == '-' && atGap cs then l.readBlockEntry cursor
  else if c == '?' && (l.inFlow || atGap cs) then l.readKey cursor
  else if c == ':' && (l.inFlow || atGap cs) then l.readValue cursor
  else if c == '*' then l.readProperty cursor (readNamed .alias)
  else if c == '&' then l.readProperty cursor (readNamed .anchor)
  else if c == '!' then l.readProperty cursor (readTag l.inFlow)
  else if c == '|' && !l.inFlow then l.readBlockScalar cursor false
  else if c == '>' && !l.inFlow then l.readBlockScalar cursor true
  else if c == '\'' then l.readQuotedScalar cursor (readSingle [] {})
  else if c == '"' then l.readQuotedScalar cursor (readDouble [] {})
  else if startsPlain l.inFlow c cs then l.readPlainScalar cursor
  else none

def readTokens : (bound : Nat) → Layout → Cursor → Option (List Token)
  | 0, _, _ => none
  | bound + 1, l, c => do
    let (keyAllowed, start) := skipToToken l.keyAllowed l.inFlow c.position c.rest
    let l ← (l.allowKey keyAllowed).dropStale? start.position
    let l := l.closeBlocks (some start.column)
    match start.rest with
    | [] => return (← (l.closeBlocks none).dropKey?).tokens.reverse
    | a :: cs =>
      let (l, next) ← l.readToken start a cs
      readTokens bound l next

end Layout

/-- The tokens of a text, if its characters are allowed and all of it can be read. Every token that
is read has a character of its own, which bounds their number. -/
def Token.ofText? (text : String) : Option (List Token) :=
  let cs := text.toList
  if cs.all isAllowed then Layout.readTokens (cs.length + 1) {} ⟨{}, cs⟩ else none

end Workflow.Yaml
