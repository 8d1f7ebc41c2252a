import Workflow.Condition.Basic
import Workflow.Graph.Basic

/-!
# Composite actions

Four kinds of actions hold further actions: a branch on a condition, a loop over items, a scope, and
a loop until an expression holds. Where the payload keeps a place for the nested actions, they are
exported in that place.
-/

set_option autoImplicit false

namespace Workflow.Node

def defaultLimit : Nat := 60

def loopTimeout : String := "PT1H"

/-- A branch on a condition. The place of the first branch is kept even if there is none. -/
def branch (source : IdSource) (name : String) (condition : Condition)
    (whenTrue whenFalse : Option Graph) : StateM Supply Node := do
  let n ← create source name "If" [("expression", condition.lower), ("actions", .object [])]
  let slots : List (Slot Node) :=
    (whenTrue.map fun g => ⟨["actions"], .graph g⟩).toList ++
    (whenFalse.map fun g => ⟨["else", "actions"], .graph g⟩).toList
  return { n with slots }

def forEach (source : IdSource) (name items : String) (actions : Graph) : StateM Supply Node := do
  let n ← create source name "Foreach" [("foreach", .string items)]
  return n.nest ["actions"] (.graph actions)

def scope (source : IdSource) (name : String) (actions : Nested Node) : StateM Supply Node := do
  let n ← create source name "Scope" []
  return n.nest ["actions"] actions

def loop (source : IdSource) (name expression : String) (limit : Nat) (actions : Graph) :
    StateM Supply Node := do
  let n ← create source name "Until" [("actions", .null), ("expression", .string expression),
    ("limit", .object [("count", .int limit), ("timeout", .string loopTimeout)])]
  return n.nest ["actions"] (.graph actions)

end Workflow.Node
