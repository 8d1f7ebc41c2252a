import Workflow.Action.Composite
import Workflow.Flow.Definition
import Workflow.Flow.Document
import Workflow.Graph.Copy

/-!
# Building flows from definitions

The actions of a list are built one after the other; each is built in full, with what is nested in
it, before it is put in. Nested lists become graphs that are not roots, so they cannot hold variable
declarations. All identities come from one source, those of nested actions before that of the action
around them. A build that fails has still drawn the identities it came to.
-/

set_option autoImplicit false

namespace Workflow

/-- A step of a build: it draws identities and may fail. -/
abbrev Building := ExceptT FlowError (StateM Supply)

namespace Building

def ofCondition (source : String) : Building Condition :=
  match Condition.ofText source with
  | .ok c => return c
  | .error e => throw (.condition e)

def ofInsertion (r : Except GraphError (String × Graph)) : Building Graph :=
  match r with
  | .ok (_, g) => return g
  | .error e => throw (.graph e)

def required {α : Type} (field : Option α) (e : FlowError) : Building α :=
  match field with
  | some x => return x
  | none => throw e

end Building

namespace ActionDefinition

open Building

def insertInto (g : Graph) (d : ActionDefinition) (n : Node) : Except GraphError (String × Graph) :=
  if d.top then g.addTop n
  else match d.after with
    | some name => g.addAfter n name d.mode
    | none => g.append n d.mode

mutual

def build (source : IdSource) : ActionDefinition → Building Node
  | ⟨name, kind, inputs, _, _, _, condition, items, expression, limit, actions, otherwise, raw⟩ =>
    if kind = "If" then do
      let c ← ofCondition (← required condition (.missingCondition name))
      let whenTrue ← if actions.isEmpty then pure none
        else some <$> fill source (Graph.empty false source) actions
      let whenFalse ← buildOptional source otherwise
      Node.branch source name c whenTrue whenFalse
    else if kind = "Foreach" then do
      let items ← required items (.missingItems name)
      let g ← fill source (Graph.empty false source) actions
      Node.forEach source name items g
    else if kind = "Scope" then do
      match raw with
      | some v => Node.scope source name (.raw (Raw.ofJson v))
      | none =>
        let g ← fill source (Graph.empty false source) actions
        Node.scope source name (.graph g)
    else if kind = "Until" then do
      let expression ← required expression (.missingExpression name)
      let g ← fill source (Graph.empty false source) actions
      Node.loop source name expression (limit.getD Node.defaultLimit) g
    else
      Node.create source name kind (inputs.map fun v => ("inputs", v)).toList

def fill (source : IdSource) (g : Graph) : List ActionDefinition → Building Graph
  | [] => return g
  | d :: rest => do
    let n ← build source d
    let g ← ofInsertion (d.insertInto g n)
    fill source g rest

def buildOptional (source : IdSource) : Option (List ActionDefinition) → Building (Option Graph)
  | none => return none
  | some actions => some <$> fill source (Graph.empty false source) actions

end

end ActionDefinition

namespace FlowDefinition

def setTriggers (f : Flow) : Fields → Except FlowError Flow
  | [] => .ok f
  | (name, payload) :: rest => do setTriggers (← f.setTrigger name payload) rest

def build (source : IdSource) (d : FlowDefinition) : Building Flow := do
  let f ← match setTriggers (Flow.empty source) d.triggers with
    | .ok f => pure f
    | .error e => throw e
  let g ← ActionDefinition.fill source f.actions d.actions
  return { f with actions := g }

end FlowDefinition

end Workflow
