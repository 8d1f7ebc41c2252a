import Workflow.Graph.Insert

/-!
# Exported actions

An exported action begins with three fields of its own, `metadata`, `type` and `runAfter`; fields of
the payload with these names are left out. The rest of the payload follows in its order, and the
nested sequences are put in under their paths, one after the other. A graph is exported as the
object that collects its actions under their names.
-/

set_option autoImplicit false

namespace Workflow

def reservedKeys : List String := ["metadata", "type", "runAfter"]

namespace Node

def runAfterFields (n : Node) : Fields :=
  n.runAfter.map fun (name, states) => (name, .array (states.map fun s => .string s.name))

def header (n : Node) : Fields :=
  [("metadata", .object [("operationMetadataId", .string n.id)]), ("type", .string n.kind),
    ("runAfter", .object n.runAfterFields)]

/-- The fields of an action without what is nested in it. -/
def ownFields (n : Node) : Fields :=
  n.header ++ n.payload.filter fun (key, _) => !reservedKeys.contains key

end Node

mutual

def Node.toFields : Node → Fields
  | ⟨id, name, kind, payload, slots, runAfter, isAttached⟩ =>
    insertSlots slots (Node.ownFields ⟨id, name, kind, payload, slots, runAfter, isAttached⟩)

def insertSlots : List (Slot Node) → Fields → Fields
  | [], fields => fields
  | ⟨path, actions⟩ :: rest, fields =>
    insertSlots rest (Fields.insertAt (.object (nestedFields actions)) path fields)

def nestedFields : Nested Node → Fields
  | .raw actions => actions.toFields
  | .graph ⟨nodes, _, _, _, _, _, _⟩ => graphFields nodes

def graphFields : List Node → Fields
  | [] => []
  | _ :: members => Fields.collect (memberFields members)

/-- The exported members in a row, each with its name. -/
def memberFields : List Node → Fields
  | [] => []
  | n :: rest => (n.name, .object n.toFields) :: memberFields rest

end

def Node.toJson (n : Node) : Json := .object n.toFields

def Graph.toFields (g : Graph) : Fields := graphFields g.nodes

def Graph.toJson (g : Graph) : Json := .object g.toFields

end Workflow
