import Workflow.Flow.Build
import Workflow.Flow.File

/-!
# Commands

The two commands print the compiled form of a condition, and the document of the flow that a file
defines. What a command does is an outcome: an exit code and the texts for the two output channels.
-/

set_option autoImplicit false

namespace Workflow

structure Outcome where
  exitCode : Nat
  output : String
  errors : String
  deriving DecidableEq, Repr

namespace Outcome

def success (line : String) : Outcome := ⟨0, line ++ "\n", ""⟩

def indentLines (text : String) : String :=
  let indentation := "    ".toList
  String.ofList (indentation ++ text.toList.flatMap fun c =>
    if c = '\n' then '\n' :: indentation else [c])

/-- A command that failed, with a message and perhaps the message of the error behind it, which is
indented. -/
def failure (message : String) (cause : Option String) : Outcome :=
  let behind := match cause with
    | some inner => "\nCaused by:\n" ++ indentLines inner ++ "\n"
    | none => ""
  ⟨1, "", "Error: " ++ message ++ "\n" ++ behind⟩

end Outcome

namespace Command

def compileCondition (indented : Bool) (text : String) : Outcome :=
  match Condition.compile text with
  | .ok v => .success (v.render indented)
  | .error e => .failure e.message none

def buildFlow (indented : Bool) (source : IdSource) (contents : Option ByteArray) : Outcome :=
  let flow := do
    let d ← FlowDefinition.ofFile contents
    ((d.build source).run {}).1
  match flow with
  | .ok f => .success (f.render indented)
  | .error e => .failure e.message e.causeMessage?

end Command

end Workflow
