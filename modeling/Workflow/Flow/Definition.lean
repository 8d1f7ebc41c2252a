import Workflow.Action.State
import Workflow.Json.Basic

/-!
# Definitions of flows

A definition lists actions in the order in which they are put into the flow. Without `after` or
`top` an action runs after the one listed before it. The fields for conditions, items, limits and
nested actions are read only by the kinds that use them.
-/

set_option autoImplicit false

namespace Workflow

structure ActionDefinition where
  name : String
  kind : String
  inputs : Option Json := none
  after : Option String := none
  mode : RunMode := .normal
  top : Bool := false
  condition : Option String := none
  items : Option String := none
  expression : Option String := none
  limit : Option Nat := none
  actions : List ActionDefinition := []
  otherwise : Option (List ActionDefinition) := none
  /-- Ready-made actions of a scope, used instead of `actions`. -/
  raw : Option Json := none

structure FlowDefinition where
  name : String
  description : String := ""
  triggers : Fields := []
  actions : List ActionDefinition := []

def ActionDefinition.maxLimit : Nat := 4294967295

def ActionDefinition.fieldNames : List String :=
  ["name", "type", "inputs", "after", "mode", "top", "condition", "foreach", "expression", "limit",
    "actions", "else", "raw"]

def FlowDefinition.fieldNames : List String := ["name", "description", "triggers", "actions"]

def Json.ofOptionalString (s : Option String) : Json := (s.map .string).getD .null

mutual

def ActionDefinition.toJson : ActionDefinition → Json
  | ⟨name, kind, inputs, after, mode, top, condition, items, expression, limit, actions, otherwise,
      raw⟩ =>
    .object [("name", .string name), ("type", .string kind), ("inputs", inputs.getD .null),
      ("after", .ofOptionalString after), ("mode", .string mode.name), ("top", .bool top),
      ("condition", .ofOptionalString condition), ("foreach", .ofOptionalString items),
      ("expression", .ofOptionalString expression),
      ("limit", (limit.map fun n => Json.int n).getD .null),
      ("actions", .array (definitionsToJson actions)), ("else", optionalToJson otherwise),
      ("raw", raw.getD .null)]

def definitionsToJson : List ActionDefinition → List Json
  | [] => []
  | d :: rest => d.toJson :: definitionsToJson rest

def optionalToJson : Option (List ActionDefinition) → Json
  | none => .null
  | some actions => .array (definitionsToJson actions)

end

def FlowDefinition.toJson (d : FlowDefinition) : Json :=
  .object [("name", .string d.name), ("description", .string d.description),
    ("triggers", .object d.triggers), ("actions", .array (definitionsToJson d.actions))]

end Workflow
