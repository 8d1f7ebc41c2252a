import Workflow.Json.Basic
import Workflow.Yaml.Document

/-!
# Values in YAML documents

A plain scalar is read as null, a truth value, an integer or a float if its text is one of theirs,
and as a string otherwise. A scalar tagged as one of these is read as that in any style, but then
its text has to fit. All other scalars are strings. Reading goes on from an alias to the node it
means, a bounded number of times, and enters a bounded number of nested collections.
-/

set_option autoImplicit false

-- Powers are those of the core library, whatever else is in scope.
attribute [local instance (1100)] instPowNat

namespace Workflow.Yaml

def isNullText (text : String) : Bool := ["null", "Null", "NULL", "~"].contains text

def boolText? (text : String) : Option Bool :=
  if ["true", "True", "TRUE"].contains text then some true
  else if ["false", "False", "FALSE"].contains text then some false
  else none

def isPadded (cs : List Char) : Bool :=
  match cs with
  | '0' :: rest => !rest.isEmpty && rest.all Char.isDigit
  | _ => false

def magnitude? (cs : List Char) : Option Nat :=
  match cs with
  | '0' :: 'x' :: ds => digitsIn? 16 ds
  | '0' :: 'o' :: ds => digitsIn? 8 ds
  | '0' :: 'b' :: ds => digitsIn? 2 ds
  | ds => if isPadded ds then none else digitsIn? 10 ds

def natural? : List Char → Option Nat
  | '+' :: cs => magnitude? cs
  | cs => magnitude? cs

def integerBits : Nat := 128

/-- The integer that a text writes. Beyond `integerBits` bits, with a sign if it is negative, a text
does not write one. -/
def integer? (cs : List Char) : Option Int := do
  let v ← match cs with
    | '-' :: cs => (magnitude? cs).map fun n => -(n : Int)
    | cs => (natural? cs).map fun n => (n : Int)
  if -(2 ^ (integerBits - 1)) ≤ v ∧ v < 2 ^ integerBits then some v else none

def floatText? (cs : List Char) : Option Json :=
  let (plus, rest) := match cs with
    | '+' :: cs => (true, cs)
    | cs => (false, cs)
  let text := String.ofList rest
  if plus && (rest.head? = some '+' || rest.head? = some '-') then none
  else if [".inf", ".Inf", ".INF"].contains text then some .null
  else if !plus && ["-.inf", "-.Inf", "-.INF", ".nan", ".NaN", ".NAN"].contains text then
    some .null
  else (Binary64.read? rest).map fun x => .number (.float x)

def integerValue? (v : Int) : Option Json :=
  if Number.minInt ≤ v ∧ v ≤ Number.maxInt then some (.int v) else none

def plainValue? (text : String) : Option Json :=
  let cs := text.toList
  if cs.isEmpty || isNullText text then some .null
  else match boolText? text with
    | some b => some (.bool b)
    | none => match integer? cs with
      | some v => integerValue? v
      | none =>
        let digits := match cs with
          | '-' :: ds => ds
          | '+' :: ds => ds
          | ds => ds
        if isPadded digits then some (.string text)
        else some ((floatText? cs).getD (.string text))

namespace Scalar

def isBlank (s : Scalar) : Bool := s.style = .plain && s.text.isEmpty

def isPlainNull (s : Scalar) : Bool := s.style = .plain && (s.text.isEmpty || isNullText s.text)

/-- The value of a scalar. Named tags have none, and unnamed ones count as no tag. -/
def value? (s : Scalar) : Option Json :=
  match s.tag with
  | none | some .unnamed =>
    if s.style = .plain then plainValue? s.text else some (.string s.text)
  | some (.named _) => none
  | some .null => if isNullText s.text then some .null else none
  | some .bool => (boolText? s.text).map .bool
  | some .int => (integer? s.text.toList).bind integerValue?
  | some .float => floatText? s.text.toList
  | some .other => some (.string s.text)

/-- Whether a field that may be absent is absent where the scalar stands. Only a null may be tagged
as one. -/
def isAbsent? (s : Scalar) : Option Bool :=
  if s.style ≠ .plain then some false
  else match s.tag with
    | none => some s.isPlainNull
    | some .null => if isNullText s.text then some true else none
    | some _ => some false

/-- Whether the scalar may be read as the type of a tag: a plain one always, a literal one with that
tag. -/
def admits (s : Scalar) (tag : Tag) : Bool :=
  s.style = .plain || (s.style = .literal && s.tag = some tag)

end Scalar

abbrev Reading := StateT Nat Option

namespace Document

def maxDepth : Nat := 128

def follow (d : Document) (node : Node) : Reading Node := do
  match node with
  | .alias n =>
    let left ← get
    if left = 0 then failure
    else
      set (left - 1)
      d.target? n
  | node => return node

def text (d : Document) (node : Node) : Reading String := do
  match ← d.follow node with
  | .scalar _ s => return s.text
  | _ => failure

/-- The free value of a node, inside of at most `depth` collections. Keys are the texts of
scalars, and a key that comes again replaces the value of the first one. -/
def json (d : Document) : (depth : Nat) → Node → Reading Json
  | 0, node => do
    match ← d.follow node with
    | .scalar _ s => s.value?
    | _ => failure
  | depth + 1, node => do
    match ← d.follow node with
    | .scalar _ s => s.value?
    | .sequence _ tag items =>
      if (Tag.localName? tag).isSome then failure else return .array (← items.mapM (json d depth))
    | .mapping _ tag entries =>
      if (Tag.localName? tag).isSome then failure
      else
        let fields ← entries.mapM fun (key, value) => do
          return (← d.text key, ← json d depth value)
        return .object (Fields.collect fields)
    | .alias _ => failure

end Document

end Workflow.Yaml
