import Workflow.Flow.Error
import Workflow.Graph.Fields
import Workflow.Json.Text

/-!
# Flow documents

A flow has triggers, which are exported as they are given, and a root graph of actions. Its document
adds the schema, a version and the parameters that every flow has.
-/

set_option autoImplicit false

namespace Workflow

structure Flow where
  triggers : Fields
  actions : Graph

namespace Flow

def schema : String :=
  "https://schema.management.azure.com/providers/Microsoft.Logic/schemas/2016-06-01/workflowdefinition.json#"

def contentVersion : String := "1.0.0.0"

def parameters : Json :=
  .object [
    ("$connections", .object [("defaultValue", .object []), ("type", .string "Object")]),
    ("$authentication", .object [("defaultValue", .object []), ("type", .string "SecureObject")])]

def empty (source : IdSource) : Flow := ⟨[], Graph.empty true source⟩

def setTrigger (f : Flow) (name : String) (payload : Json) : Except FlowError Flow :=
  if Fields.contains name f.triggers then .error (.duplicateTrigger name)
  else .ok { f with triggers := f.triggers ++ [(name, payload)] }

def append (f : Flow) (n : Node) (after : Option String) (mode : RunMode) :
    Except GraphError (String × Flow) :=
  (match after with
    | some name => f.actions.addAfter n name mode
    | none => f.actions.append n mode).map fun (name, g) => (name, { f with actions := g })

def addTop (f : Flow) (n : Node) : Except GraphError (String × Flow) :=
  (f.actions.addTop n).map fun (name, g) => (name, { f with actions := g })

def toJson (f : Flow) : Json :=
  .object [("$schema", .string schema), ("contentVersion", .string contentVersion),
    ("parameters", parameters), ("triggers", .object f.triggers), ("actions", f.actions.toJson)]

def render (indented : Bool) (f : Flow) : String := f.toJson.render indented

end Flow

end Workflow
