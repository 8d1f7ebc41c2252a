import Workflow.Graph.Basic

/-!
# Putting actions into a graph

An action is checked before it is put in: first its identity, then whether it is attached already,
then the action it is to run after, and last whether its kind is allowed. A refused action leaves
the graph as it was. An accepted one gets the first free name and becomes the last one.
-/

set_option autoImplicit false

namespace Workflow

inductive GraphError where
  | duplicateIdentity (name : String)
  | alreadyHasParent (name : String)
  | unknownReference (name : String)
  | restrictedKind (name kind : String)
  deriving DecidableEq, Repr

def GraphError.message : GraphError → String
  | .duplicateIdentity name => "Action '" ++ name ++ "' already exists in actions"
  | .alreadyHasParent name => "Action '" ++ name ++ "' already has a parent"
  | .unknownReference name => "Action '" ++ name ++ "' is not in actions"
  | .restrictedKind name kind =>
    "Action '" ++ name ++ "' of type " ++ kind ++ " cannot be set into non-root actions"

namespace Graph

def hasIdentity (g : Graph) (id : String) : Bool := g.members.any (·.id = id)

/-- Checks an action, and resolves the name of the action it is to run after. -/
def check (g : Graph) (n : Node) (reference : Option String) : Except GraphError Nat := do
  if g.hasIdentity n.id then throw (.duplicateIdentity n.name)
  if n.isAttached then throw (.alreadyHasParent n.name)
  let parent ← match reference with
    | none => pure sentinel
    | some name =>
      match g.indexOf? name with
      | some i => pure i
      | none => throw (.unknownReference name)
  if !g.isRoot && n.kind = declarationKind then throw (.restrictedKind n.name n.kind)
  return parent

/-- The first free name. The numbers behind it are taken as unbounded, where a counter of 32 bits
would end. -/
def freeName (g : Graph) (name : String) : String := firstFree g.registry.names name

/-- An action as it stands in the graph: under its first free name and below a position. -/
def placed (g : Graph) (n : Node) (parent : Nat) (states : List State) : Node :=
  Node.attach { n with name := g.freeName n.name } ((g.actionAt? parent).map (·.name)) states

def link (g : Graph) (n : Node) (parent : Nat) (states : List State) : Graph :=
  { g with
    nodes := g.nodes ++ [g.placed n parent states]
    parents := g.parents ++ [parent]
    children := (g.children ++ [[]]).modify parent (· ++ [g.nodes.length])
    registry := g.registry.insert (g.freeName n.name) g.nodes.length
    lastAppended := g.nodes.length }

def linked (g : Graph) (n : Node) (parent : Nat) (states : List State) : String × Graph :=
  (g.freeName n.name, g.link n parent states)

def addTop (g : Graph) (n : Node) : Except GraphError (String × Graph) :=
  (g.check n none).map fun _ => g.linked n sentinel []

def addAfter (g : Graph) (n : Node) (name : String) (mode : RunMode) :
    Except GraphError (String × Graph) :=
  (g.check n (some name)).map fun parent => g.linked n parent mode.states

def append (g : Graph) (n : Node) (mode : RunMode) : Except GraphError (String × Graph) :=
  (g.check n none).map fun _ => g.linked n g.lastAppended mode.states

end Graph

end Workflow
