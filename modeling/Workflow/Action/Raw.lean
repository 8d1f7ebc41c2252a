import Workflow.Json.Basic

/-!
# Ready-made actions

A mapping from names to actions that are already in their exported form. It is used as it stands if
every entry is complete and runs only after entries named so far, its own name included; otherwise
nothing of it is used.
-/

set_option autoImplicit false

namespace Workflow

structure Raw where
  definition : Fields
  deriving Repr

namespace Raw

def ofJson (v : Json) : Raw := ⟨v.fields⟩

def requiredKeys : List String := ["type", "inputs", "metadata"]

def dependencies (action : Fields) : List String :=
  match Fields.get? "runAfter" action with
  | some (.object after) => Fields.keys after
  | _ => []

def isEntry (known : List String) : Json → Bool
  | .object action =>
    requiredKeys.all (fun key => Fields.contains key action)
      && (dependencies action).all known.contains
  | _ => false

/-- Whether all entries are in order, each one after the names known before it and its own. -/
def areEntries (known : List String) : Fields → Bool
  | [] => true
  | (name, action) :: rest =>
    isEntry (name :: known) action && areEntries (name :: known) rest

def isValid (r : Raw) : Bool := !r.definition.isEmpty && areEntries [] r.definition

/-- The mapping if it is valid, and otherwise the empty one. -/
def toFields (r : Raw) : Fields := if r.isValid then r.definition else []

end Raw

end Workflow
