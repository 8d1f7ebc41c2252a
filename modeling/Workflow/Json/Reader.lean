import Workflow.Json.Basic
import Workflow.Text.Digits

/-!
# Reading document text

The reader takes one value with blanks around it and refuses everything else, also a value inside of
too many arrays and objects. A field that is written twice keeps its first place and its last value.
Every step returns a text shorter than the one it was given, which is why the reader ends.
-/

set_option autoImplicit false

namespace Workflow.Json

abbrev Rest (cs : List Char) := { r : List Char // r.length < cs.length }

/-- A result together with the text after it, if that is shorter than `cs`. -/
def within {α : Type} (cs : List Char) (x : α) (r : List Char) : Option (α × Rest cs) :=
  if h : r.length < cs.length then some (x, ⟨r, h⟩) else none

def isBlank (c : Char) : Bool := c = ' ' ∨ c = '\t' ∨ c = '\n' ∨ c = '\r'

def skipBlanks (cs : List Char) : List Char := cs.dropWhile isBlank

theorem length_lt_of_skipBlanks {cs r : List Char} {c : Char} (h : skipBlanks cs = c :: r) :
    r.length < cs.length := by
  have hle : (skipBlanks cs).length ≤ cs.length := (List.dropWhile_sublist _).length_le
  rw [h, List.length_cons] at hle
  exact hle

def unescape? (c : Char) : Option Char :=
  if c = '"' ∨ c = '\\' ∨ c = '/' then some c
  else if c = 'b' then some '\x08'
  else if c = 'f' then some '\x0c'
  else if c = 'n' then some '\n'
  else if c = 'r' then some '\r'
  else if c = 't' then some '\t'
  else none

def pairedUnits? (high low : Nat) : Option Char :=
  if 0xD800 ≤ high ∧ high < 0xDC00 ∧ 0xDC00 ≤ low ∧ low < 0xE000 then
    some (Char.ofNat (0x10000 + (high - 0xD800) * 0x400 + (low - 0xDC00)))
  else none

/-- The characters up to the closing quote, and what follows it. A code unit that is half of a pair
needs its other half. -/
def readQuoted : List Char → Option (List Char × List Char)
  | [] => none
  | '"' :: rest => some ([], rest)
  | '\\' :: 'u' :: a :: b :: c :: d :: rest =>
    (digitsIn? 16 [a, b, c, d]).bind fun unit =>
      if unit < 0xD800 ∨ 0xE000 ≤ unit then
        (readQuoted rest).map fun (s, r) => (Char.ofNat unit :: s, r)
      else match rest with
        | '\\' :: 'u' :: e :: f :: g :: h :: rest =>
          (digitsIn? 16 [e, f, g, h]).bind fun low =>
            (pairedUnits? unit low).bind fun x =>
              (readQuoted rest).map fun (s, r) => (x :: s, r)
        | _ => none
  | '\\' :: c :: rest =>
    (unescape? c).bind fun x => (readQuoted rest).map fun (s, r) => (x :: s, r)
  | c :: rest =>
    if c = '\\' ∨ c.toNat < 0x20 then none
    else (readQuoted rest).map fun (s, r) => (c :: s, r)

def isNumberChar (c : Char) : Bool :=
  c.isDigit ∨ c = '-' ∨ c = '+' ∨ c = '.' ∨ c = 'e' ∨ c = 'E'

def maxDepth : Nat := 127

mutual

def readValue (depth : Nat) (cs : List Char) : Option (Json × Rest cs) :=
  match h : skipBlanks cs with
  | '"' :: rest => (readQuoted rest).bind fun (s, r) => within cs (.string (String.ofList s)) r
  | '[' :: rest =>
    have := length_lt_of_skipBlanks h
    if depth = 0 then none
    else match skipBlanks rest with
    | ']' :: r => within cs (.array []) r
    | _ => (readItems (depth - 1) rest).bind fun (items, r) => within cs (.array items) r.1
  | '{' :: rest =>
    have := length_lt_of_skipBlanks h
    if depth = 0 then none
    else match skipBlanks rest with
    | '}' :: r => within cs (.object []) r
    | _ => (readFields (depth - 1) [] rest).bind fun (fields, r) => within cs (.object fields) r.1
  | 't' :: 'r' :: 'u' :: 'e' :: rest => within cs (.bool true) rest
  | 'f' :: 'a' :: 'l' :: 's' :: 'e' :: rest => within cs (.bool false) rest
  | 'n' :: 'u' :: 'l' :: 'l' :: rest => within cs .null rest
  | text =>
    let (digits, rest) := text.span isNumberChar
    (Number.read? digits).bind fun n => within cs (.number n) rest
  termination_by (cs.length, 0)

def readItems (depth : Nat) (cs : List Char) : Option (List Json × Rest cs) :=
  (readValue depth cs).bind fun (v, ⟨r, _⟩) =>
    match h : skipBlanks r with
    | ',' :: rest =>
      have := length_lt_of_skipBlanks h
      (readItems depth rest).bind fun (items, r) => within cs (v :: items) r.1
    | ']' :: rest => within cs [v] rest
    | _ => none
  termination_by (cs.length, 1)

def readFields (depth : Nat) (acc : Fields) (cs : List Char) : Option (Fields × Rest cs) :=
  match skipBlanks cs with
  | '"' :: rest =>
    (readQuoted rest).bind fun (key, r) =>
      match skipBlanks r with
      | ':' :: r =>
        (within cs () r).bind fun ((), ⟨r, _⟩) =>
          (readValue depth r).bind fun (v, ⟨r, _⟩) =>
            let acc := Fields.insert (String.ofList key) v acc
            match h : skipBlanks r with
            | ',' :: rest =>
              have := length_lt_of_skipBlanks h
              (readFields depth acc rest).bind fun (fields, r) => within cs fields r.1
            | '}' :: rest => within cs acc rest
            | _ => none
      | _ => none
  | _ => none
  termination_by (cs.length, 1)

end

def read? (s : String) : Option Json :=
  (readValue maxDepth s.toList).bind fun (v, r) => if skipBlanks r.1 = [] then some v else none

end Workflow.Json
