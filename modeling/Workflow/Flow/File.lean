import Workflow.Flow.Definition.OfYaml

/-!
# Definitions in files

A file holds the YAML text of a definition in UTF-8.
-/

set_option autoImplicit false

namespace Workflow.FlowDefinition

/-- The definition in a file: its bytes, or nothing if it cannot be opened. -/
def ofFile (contents : Option ByteArray) : Except FlowError FlowDefinition :=
  match contents.bind String.fromUTF8? with
  | some text => ofYaml text
  | none => .error .unreadableFile

end Workflow.FlowDefinition
