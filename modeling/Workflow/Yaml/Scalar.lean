import Workflow.Yaml.Cursor

/-!
# Scalars in YAML text

Plain and quoted scalars may span lines: blanks around a line break are dropped, one break becomes a
blank, and further breaks are kept. Block scalars are read line by line at one indentation, which is
given or found from the first line that is not empty. Each reader gives the text of the scalar and
the cursor after it.
-/

set_option autoImplicit false

namespace Workflow.Yaml

/-- What lies between two pieces of a scalar: blanks of the line, or a first line break and further
ones. An escaped break is a gap that is broken but has no first break. The characters are kept last
first. -/
structure Gap where
  blanks : List Char := []
  broken : Bool := false
  first : Option Char := none
  further : List Char := []

namespace Gap

def isEmpty (g : Gap) : Bool := !g.broken && g.blanks.isEmpty

def addBlank (g : Gap) (c : Char) : Gap :=
  if g.broken then g else { g with blanks := c :: g.blanks }

def addBreak (g : Gap) (c : Char) : Gap :=
  if g.broken then { g with further := breakValue c :: g.further }
  else { broken := true, first := some (breakValue c) }

def reversedText (g : Gap) : List Char :=
  if g.broken then
    match g.first with
    | some '\n' => if g.further.isEmpty then [' '] else g.further
    | some c => g.further ++ [c]
    | none => g.further
  else g.blanks

end Gap

/-- A scalar that has been read: its text, the cursor after it, and whether a line break was passed
after its last character. -/
structure Read where
  text : String
  cursor : Cursor
  broken : Bool := false

def Read.ofReversed (acc : List Char) (p : Position) (rest : List Char) (broken : Bool) : Read :=
  ⟨String.ofList acc.reverse, ⟨p, rest⟩, broken⟩

def isFlowIndicator (c : Char) : Bool :=
  c == ',' || c == '[' || c == ']' || c == '{' || c == '}'

def endsPlain (inFlow : Bool) (c : Char) (next : List Char) : Bool :=
  (c == ':' && atGap next) || (inFlow && isFlowIndicator c)

def isStrayColon (inFlow : Bool) (c : Char) (next : List Char) : Bool :=
  inFlow && c == ':' && (match next with
    | d :: _ => isFlowIndicator d || d == '?'
    | [] => false)

/-- The rest of a plain scalar. Its lines have at least `indent` columns before them, except in flow
style, and no tabs there. -/
def readPlain (inFlow : Bool) (indent : Nat) (acc : List Char) (gap : Gap) (p : Position) :
    List Char → Option Read
  | [] => some (.ofReversed acc p [] gap.broken)
  | c :: cs =>
    if isBlank c then
      if gap.broken && p.column < indent && c == '\t' then none
      else readPlain inFlow indent acc (gap.addBlank c) (p.next c) cs
    else if isBreak c then
      let n := breakTail c cs
      readPlain inFlow indent acc (gap.addBreak c) p.newline (cs.drop n)
    else if !gap.isEmpty &&
        ((!inFlow && p.column < indent) || atDocumentMark p (c :: cs) || c == '#') then
      some (.ofReversed acc p (c :: cs) gap.broken)
    else if isStrayColon inFlow c cs then none
    else if endsPlain inFlow c cs then some (.ofReversed acc p (c :: cs) gap.broken)
    else readPlain inFlow indent (c :: gap.reversedText ++ acc) {} (p.next c) cs
  termination_by cs => cs.length
  decreasing_by all_goals simp only [List.length_cons, List.length_drop]; omega

def readSingle (acc : List Char) (gap : Gap) (p : Position) : List Char → Option Read
  | [] => none
  | c :: cs =>
    if isBlank c then readSingle acc (gap.addBlank c) (p.next c) cs
    else if isBreak c then
      let n := breakTail c cs
      readSingle acc (gap.addBreak c) p.newline (cs.drop n)
    else if atDocumentMark p (c :: cs) then none
    else
      let acc := gap.reversedText ++ acc
      if c == '\'' then
        match cs with
        | '\'' :: rest => readSingle ('\'' :: acc) {} ((p.next c).next c) rest
        | rest => some (.ofReversed acc (p.next c) rest false)
      else readSingle (c :: acc) {} (p.next c) cs
  termination_by cs => cs.length
  decreasing_by all_goals simp_all only [List.length_cons, List.length_drop]; omega

def ofCodePoint? (n : Nat) : Option Char := if n.isValidChar then some (Char.ofNat n) else none

def escape? : List Char → Option (Char × Nat)
  | [] => none
  | c :: cs =>
    let hex (n : Nat) : Option (Char × Nat) :=
      if (cs.take n).length < n then none
      else (digitsIn? 16 (cs.take n)).bind fun v => (ofCodePoint? v).map (·, n + 1)
    if c == '0' then some ('\x00', 1)
    else if c == 'a' then some ('\x07', 1)
    else if c == 'b' then some ('\x08', 1)
    else if c == 't' || c == '\t' then some ('\t', 1)
    else if c == 'n' then some ('\n', 1)
    else if c == 'v' then some ('\x0b', 1)
    else if c == 'f' then some ('\x0c', 1)
    else if c == 'r' then some ('\r', 1)
    else if c == 'e' then some ('\x1b', 1)
    else if c == ' ' || c == '"' || c == '/' || c == '\\' then some (c, 1)
    else if c == 'N' then some ('\u0085', 1)
    else if c == '_' then some ('\u00a0', 1)
    else if c == 'L' then some ('\u2028', 1)
    else if c == 'P' then some ('\u2029', 1)
    else if c == 'x' then hex 2
    else if c == 'u' then hex 4
    else if c == 'U' then hex 8
    else none

def readDouble (acc : List Char) (gap : Gap) (p : Position) : List Char → Option Read
  | [] => none
  | c :: cs =>
    if isBlank c then readDouble acc (gap.addBlank c) (p.next c) cs
    else if isBreak c then
      let n := breakTail c cs
      readDouble acc (gap.addBreak c) p.newline (cs.drop n)
    else if atDocumentMark p (c :: cs) then none
    else
      let acc := gap.reversedText ++ acc
      if c == '"' then some (.ofReversed acc (p.next c) cs false)
      else if c == '\\' then
        match cs with
        | [] => none
        | d :: rest =>
          if isBreak d then
            let n := breakTail d rest
            readDouble acc { broken := true } p.newline (rest.drop n)
          else
            (escape? (d :: rest)).bind fun (x, n) =>
              readDouble (x :: acc) {} ((p.next c).past ((d :: rest).take n))
                (rest.drop (n - 1))
      else readDouble (c :: acc) {} (p.next c) cs
  termination_by cs => cs.length
  decreasing_by all_goals simp_all only [List.length_cons, List.length_drop]; omega

inductive Chomping where
  | strip
  | clip
  | keep
  deriving DecidableEq, Repr

def chomping? (c : Char) : Option Chomping :=
  if c == '+' then some .keep else if c == '-' then some .strip else none

def increment? (c : Char) : Option Nat := if c.isDigit then some (c.toNat - '0'.toNat) else none

def readIndicators (c : Cursor) : Option (Chomping × Option Nat × Cursor) :=
  let checked (chomping : Chomping) (n : Nat) (c : Cursor) :=
    if n = 0 then none else some (chomping, some n, c)
  match c.rest with
  | a :: rest =>
    match chomping? a with
    | some chomping =>
      match rest.head?.bind increment? with
      | some n => checked chomping n (c.forward 2)
      | none => some (chomping, none, c.forward 1)
    | none =>
      match increment? a with
      | some n =>
        match rest.head?.bind chomping? with
        | some chomping => checked chomping n (c.forward 2)
        | none => checked .clip n (c.forward 1)
      | none => some (.clip, none, c)
  | [] => some (.clip, none, c)

/-- The indentation and the empty lines before a line with text. Blanks are passed up to `indent`
columns, or all of them while it is unknown; a tab among them is refused. The line breaks passed,
last first, the greatest column reached, and the cursor are given. -/
def readEmptyLines (indent : Option Nat) (breaks : List Char) (greatest : Nat) (p : Position) :
    List Char → Option (List Char × Nat × Cursor)
  | [] => some (breaks, max greatest p.column, ⟨p, []⟩)
  | c :: cs =>
    let inIndent := match indent with
      | some n => p.column < n
      | none => true
    if inIndent && c == ' ' then readEmptyLines indent breaks greatest (p.next c) cs
    else if inIndent && c == '\t' then none
    else if isBreak c then
      let n := breakTail c cs
      readEmptyLines indent (breakValue c :: breaks) (max greatest p.column) p.newline
        (cs.drop n)
    else some (breaks, max greatest p.column, ⟨p, c :: cs⟩)
  termination_by cs => cs.length
  decreasing_by all_goals simp only [List.length_cons, List.length_drop]; omega

/-- What has been read of a block scalar: its text, the break after its last line and the empty
lines after that, all last first, and whether its last line began with a blank. -/
structure BlockText where
  acc : List Char := []
  lineBreak : List Char := []
  emptyLines : List Char := []
  blankFirst : Bool := false

namespace BlockText

/-- The text before a further line that begins with the given character. Folding replaces a single
break between two lines that do not begin with a blank. -/
def join (folded : Bool) (t : BlockText) (c : Char) : List Char :=
  if folded && t.lineBreak == ['\n'] && !t.blankFirst && !isBlank c then
    if t.emptyLines.isEmpty then ' ' :: t.acc else t.emptyLines ++ t.acc
  else t.emptyLines ++ t.lineBreak ++ t.acc

def finish (t : BlockText) : Chomping → List Char
  | .strip => t.acc
  | .clip => t.lineBreak ++ t.acc
  | .keep => t.emptyLines ++ t.lineBreak ++ t.acc

end BlockText

def readLines (folded : Bool) (chomping : Chomping) (indent : Nat) (t : BlockText) (c : Cursor) :
    Option Read :=
  match c.rest with
  | [] => some (.ofReversed (t.finish chomping) c.position [] false)
  | a :: rest =>
    if c.column ≠ indent then
      some (.ofReversed (t.finish chomping) c.position (a :: rest) false)
    else
      let (line, afterLine) := c.takeWhile (!isBreak ·)
      let (lineBreak, afterBreak) := afterLine.skipBreak
      (readEmptyLines (some indent) [] 0 afterBreak.position afterBreak.rest).bind
        fun (emptyLines, _, next) =>
          if next.rest.length < c.rest.length then
            readLines folded chomping indent
              { acc := line.reverse ++ t.join folded a, lineBreak, emptyLines,
                blankFirst := isBlank a } next
          else none
  termination_by c.rest.length

def readBlock (folded : Bool) (parent : Nat) (c : Cursor) : Option Read := do
  let (chomping, increment, c) ← readIndicators c
  let c ← c.finishLine?
  let given := increment.map fun n => if parent = 0 then n else parent - 1 + n
  let (emptyLines, greatest, c) ← readEmptyLines given [] 0 c.position c.rest
  let indent := given.getD (max greatest (max parent 1))
  readLines folded chomping indent { emptyLines } c

end Workflow.Yaml
