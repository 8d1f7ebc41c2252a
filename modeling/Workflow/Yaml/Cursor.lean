import Workflow.Text.Digits

/-!
# Positions in YAML text

A cursor is the rest of a text with the place where it begins. Columns count characters, while the
length of a key is measured in bytes. Line breaks are carriage returns, line feeds, the two
together, next lines, line separators and paragraph separators; all but the last two count as a line
feed.
-/

set_option autoImplicit false

namespace Workflow.Yaml

/-- A place in a text: the lines before it, and the characters and the bytes before it on its
line. -/
structure Position where
  line : Nat := 0
  column : Nat := 0
  bytes : Nat := 0
  deriving Repr

structure Cursor where
  position : Position
  rest : List Char
  deriving Repr

namespace Position

def next (p : Position) (c : Char) : Position :=
  { p with column := p.column + 1, bytes := p.bytes + c.utf8Size }

def past (p : Position) (cs : List Char) : Position := cs.foldl next p

def newline (p : Position) : Position := ⟨p.line + 1, 0, 0⟩

end Position

def isAllowed (c : Char) : Bool :=
  let n := c.toNat
  n == 0x09 || n == 0x0A || n == 0x0D || (0x20 ≤ n && n ≤ 0x7E) || n == 0x85 ||
    (0xA0 ≤ n && n ≤ 0xFFFD) || 0x10000 ≤ n

def isBlank (c : Char) : Bool := c == ' ' || c == '\t'

def isBreak (c : Char) : Bool :=
  c == '\r' || c == '\n' || c == '\u0085' || c == '\u2028' || c == '\u2029'

def breakValue (c : Char) : Char := if c == '\u2028' || c == '\u2029' then c else '\n'

def breakTail (c : Char) (cs : List Char) : Nat :=
  if c == '\r' && cs.head? == some '\n' then 1 else 0

def atGap : List Char → Bool
  | [] => true
  | c :: _ => isBlank c || isBreak c

/-- Whether a line that starts here marks the start or the end of a document. -/
def atDocumentMark (p : Position) (cs : List Char) : Bool :=
  p.column == 0 && (match cs with
    | '-' :: '-' :: '-' :: rest => atGap rest
    | '.' :: '.' :: '.' :: rest => atGap rest
    | _ => false)

def isNameChar (c : Char) : Bool := c.isAlphanum || c == '_' || c == '-'

namespace Cursor

def column (c : Cursor) : Nat := c.position.column

def forward (c : Cursor) (n : Nat) : Cursor :=
  ⟨c.position.past (c.rest.take n), c.rest.drop n⟩

def takeWhile (c : Cursor) (p : Char → Bool) : List Char × Cursor :=
  let taken := c.rest.takeWhile p
  (taken, c.forward taken.length)

def skipBlanks (c : Cursor) : Cursor := (c.takeWhile isBlank).2

def skipComment (c : Cursor) : Cursor :=
  if c.rest.head? = some '#' then (c.takeWhile (!isBreak ·)).2 else c

def skipBreak (c : Cursor) : List Char × Cursor :=
  match c.rest with
  | [] => ([], c)
  | b :: rest =>
    if isBreak b then
      let n := breakTail b rest
      ([breakValue b], ⟨c.position.newline, rest.drop n⟩)
    else ([], c)

/-- The cursor on the next line, if nothing but blanks and a comment is left on this one. -/
def finishLine? (c : Cursor) : Option Cursor :=
  let c := c.skipBlanks.skipComment
  match c.rest with
  | [] => some c
  | b :: _ => if isBreak b then some c.skipBreak.2 else none

end Cursor

end Workflow.Yaml
