import Workflow.Condition.Postfix
import Workflow.Condition.Schema

/-!
# Conditions

A condition is its source text together with the tree it was read as. Two conditions are equal when
both agree; conditions that differ in blanks alone have the same tree.
-/

set_option autoImplicit false

namespace Workflow

structure Condition where
  source : String
  expression : Expression
  deriving DecidableEq, Repr

namespace Condition

def ofText (source : String) : Except ConditionError Condition :=
  (Expression.parse source).map fun e => ⟨source, e⟩

def lower (c : Condition) : Json := c.expression.lower

def compile (source : String) : Except ConditionError Json := (ofText source).map lower

end Condition

end Workflow
