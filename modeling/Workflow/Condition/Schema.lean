import Workflow.Condition.Expression
import Workflow.Json.Basic

/-!
# Compiled conditions

The schema of compiled conditions writes every operator as an object with one field: a comparison or
a connective holds its two operands, a negation its one. Inequality is the negation of an equality.
A leaf becomes a truth value, a string, a number, or a reference to the variable of that name.
-/

set_option autoImplicit false

namespace Workflow

def variableReference (name : String) : String := "@variables('" ++ name ++ "')"

def signedWord? (cs : List Char) : Option Int :=
  let (negative, digits) := match cs with
    | '-' :: ds => (true, ds)
    | '+' :: ds => (false, ds)
    | ds => (false, ds)
  let n : Int := digitsValue digits
  let v := if negative then -n else n
  if digits ≠ [] ∧ digits.all Char.isDigit ∧ Number.minInt ≤ v ∧ v < -Number.minInt then some v
  else none

def wideNumber? (cs : List Char) : Option Number :=
  let digits := match cs with
    | '-' :: ds => ds
    | ds => ds
  if digits ≠ [] ∧ digits.all Char.isDigit then Number.read? cs else none

def leafNumber? (cs : List Char) : Option Number :=
  if cs.contains '.' then (Binary64.read? cs).map .float
  else match signedWord? cs with
    | some v => some (.int v)
    | none => wideNumber? cs

/-- The compiled form of a leaf. A quote anywhere makes it a string, which loses all its quotes. -/
def lowerLeaf (text : String) : Json :=
  if text = "true" then .bool true
  else if text = "false" then .bool false
  else if text.toList.contains '"' then .string (String.ofList (text.toList.filter (· ≠ '"')))
  else match leafNumber? text.toList with
    | some n => .number n
    | none => .string (variableReference text)

namespace Expression

def lower : Expression → Json
  | .leaf text => lowerLeaf text
  | .negation e => .object [(negationKeyword, e.lower)]
  | .comparison op l r =>
    match op.schemaName? with
    | some name => .object [(name, .array [l.lower, r.lower])]
    | none => .object [(negationKeyword, .object [("equals", .array [l.lower, r.lower])])]
  | .connective op l r => .object [(op.keyword, .array [l.lower, r.lower])]

end Expression

end Workflow
