import Workflow.Condition.Error
import Workflow.Graph.Insert

/-!
# Why a flow is refused
-/

set_option autoImplicit false

namespace Workflow

inductive FlowError where
  | condition (cause : ConditionError)
  | graph (cause : GraphError)
  | missingCondition (action : String)
  | missingItems (action : String)
  | missingExpression (action : String)
  | duplicateTrigger (name : String)
  | unreadableFile
  | malformedYaml
  | malformedJson
  deriving DecidableEq, Repr

namespace FlowError

def message : FlowError → String
  | condition e => "Condition error: " ++ e.message
  | graph e => "Validation error: " ++ e.message
  | missingCondition a => "Definition error: If action '" ++ a ++ "' missing condition"
  | missingItems a => "Definition error: Foreach action '" ++ a ++ "' missing foreach"
  | missingExpression a => "Definition error: Until action '" ++ a ++ "' missing expression"
  | duplicateTrigger name => "Trigger '" ++ name ++ "' already exists in flow"
  | unreadableFile => "The file cannot be read as text"
  | malformedYaml => "The text is not the YAML of a flow definition"
  | malformedJson => "The value is not a flow definition"

def causeMessage? : FlowError → Option String
  | condition e => some e.message
  | graph e => some e.message
  | _ => none

end FlowError

end Workflow
