import Workflow.Flow.Definition
import Workflow.Flow.Error
import Workflow.Yaml.Value

/-!
# Definitions from YAML

A definition is a mapping of its fields by name. Fields with a default may be missing but not null,
optional fields may be null, a field must not come again, and what unknown names stand for is not
looked at. A list or a mapping may be left blank. Any scalar is a text, whatever a free value would
make of it.
-/

set_option autoImplicit false

namespace Workflow

namespace Yaml.Document

def bool (d : Document) (node : Node) : Reading Bool := do
  match ← d.follow node with
  | .scalar _ s => if s.admits .bool then boolText? s.text else failure
  | _ => failure

def limit (d : Document) (node : Node) : Reading Nat := do
  match ← d.follow node with
  | .scalar _ s =>
    match natural? s.text.toList with
    | some n => if s.admits .int && n ≤ ActionDefinition.maxLimit then return n else failure
    | none => failure
  | _ => failure

/-- The mode of a node: a text, or a local tag at a null. -/
def mode (d : Document) (node : Node) : Reading RunMode := do
  match ← d.follow node with
  | .scalar _ s =>
    match Tag.localName? s.tag with
    | some name => if s.isPlainNull then RunMode.ofName? name else failure
    | none => RunMode.ofName? s.text
  | _ => failure

def items (d : Document) (depth : Nat) (node : Node) : Reading (List Node) := do
  match ← d.follow node with
  | .sequence _ _ items => if depth = 0 then failure else return items
  | .scalar _ s => if s.isBlank then return [] else failure
  | _ => failure

def object (d : Document) (depth : Nat) (node : Node) : Reading Fields := do
  match ← d.follow node with
  | .mapping _ _ entries =>
    if depth = 0 then failure
    else
      let fields ← entries.mapM fun (key, value) => do
        return (← d.text key, ← d.json (depth - 1) value)
      return Fields.collect fields
  | .scalar _ s => if s.isBlank then return [] else failure
  | _ => failure

/-- The fields of a mapping by name. None of the given names may come again. -/
def fieldsByName (d : Document) (names : List String) (node : Node) :
    Reading (List (String × Node)) := do
  match ← d.follow node with
  | .mapping _ _ entries =>
    let fields ← entries.mapM fun (key, value) => do return (← d.text key, value)
    let keys := fields.map Prod.fst
    if names.any fun name => 1 < keys.count name then failure else return fields
  | _ => failure

def required {α : Type} (read : Node → Reading α) (key : String) (fields : List (String × Node)) :
    Reading α :=
  match fields.lookup key with
  | some node => read node
  | none => failure

def withDefault {α : Type} (read : Node → Reading α) (default : α) (key : String)
    (fields : List (String × Node)) : Reading α :=
  match fields.lookup key with
  | some node => read node
  | none => return default

def optional {α : Type} (d : Document) (read : Node → Reading α) (key : String)
    (fields : List (String × Node)) : Reading (Option α) := do
  match fields.lookup key with
  | none => return none
  | some node =>
    let node ← d.follow node
    let isAbsent ← match node with
      | .scalar _ s => s.isAbsent?
      | _ => some false
    if isAbsent then return none else return some (← read node)

end Yaml.Document

open Yaml

def ActionDefinition.ofNode (d : Document) : (depth : Nat) → Yaml.Node → Reading ActionDefinition
  | 0, _ => failure
  | depth + 1, node => do
    let fields ← d.fieldsByName ActionDefinition.fieldNames node
    let nested := fun (node : Yaml.Node) => do (← d.items depth node).mapM (ofNode d (depth - 1))
    return {
      name := ← Document.required d.text "name" fields
      kind := ← Document.required d.text "type" fields
      inputs := ← d.optional (d.json depth) "inputs" fields
      after := ← d.optional d.text "after" fields
      mode := ← Document.withDefault d.mode .normal "mode" fields
      top := ← Document.withDefault d.bool false "top" fields
      condition := ← d.optional d.text "condition" fields
      items := ← d.optional d.text "foreach" fields
      expression := ← d.optional d.text "expression" fields
      limit := ← d.optional d.limit "limit" fields
      actions := ← Document.withDefault nested [] "actions" fields
      otherwise := ← d.optional nested "else" fields
      raw := ← d.optional (d.json depth) "raw" fields }
  termination_by depth => depth

namespace FlowDefinition

def ofDocument (d : Document) : Reading FlowDefinition := do
  let fields ← d.fieldsByName fieldNames d.root
  let inner := Document.maxDepth - 1
  let actions := fun (node : Yaml.Node) => do
    (← d.items inner node).mapM (ActionDefinition.ofNode d (inner - 1))
  return {
    name := ← Document.required d.text "name" fields
    description := ← Document.withDefault d.text "" "description" fields
    triggers := ← Document.withDefault (d.object inner) [] "triggers" fields
    actions := ← Document.withDefault actions [] "actions" fields }

def ofYaml (text : String) : Except FlowError FlowDefinition :=
  let definition? := do
    let d ← Document.ofText? text
    (ofDocument d).run' d.allowance
  match definition? with
  | some definition => .ok definition
  | none => .error .malformedYaml

end FlowDefinition

end Workflow
