import Workflow.Action.Identity
import Workflow.Action.Raw
import Workflow.Action.State
import Workflow.Graph.FreeName
import Workflow.Graph.Registry

/-!
# Graphs of actions

A graph holds its actions in the order in which they were put in, behind a sentinel at position zero
that is never exported. Each action hangs under the sentinel, at the top, or under an earlier action,
after which it runs. A graph keeps for every position the position above it and those directly below
it, and for every name its position. An action may hold further sequences of actions, each under a
path of keys: a graph of its own, or ready-made actions.

An action knows after which one it runs, and whether it was put into a graph. That is kept when the
action is taken out again, so that it cannot be put into a second graph.
-/

set_option autoImplicit false

namespace Workflow

/-- Members in the order of their insertion, the sentinel first. Position by position, `parents`
tells under which member each one hangs and `children` which ones hang under it. Copies of the
members draw their identities from `source`. Only a root may hold variable declarations. -/
structure GraphOf (α : Type) where
  nodes : List α
  parents : List Nat
  children : List (List Nat)
  registry : Registry
  lastAppended : Nat
  isRoot : Bool
  source : IdSource

inductive Nested (α : Type) where
  | graph (graph : GraphOf α)
  | raw (actions : Raw)

structure Slot (α : Type) where
  path : List String
  actions : Nested α

/-- An action: what identifies it, what it exports, what is nested in it, after which action it runs
and with which states of that one, and whether it was put into a graph. -/
structure Node where
  id : String
  name : String
  kind : String
  payload : Fields
  slots : List (Slot Node)
  runAfter : List (String × List State)
  isAttached : Bool

abbrev Graph := GraphOf Node

def declarationKind : String := "InitializeVariable"

def reservedName : String := "root"

def sentinel : Nat := 0

namespace Node

def detached (id name kind : String) (payload : Fields) : Node :=
  ⟨id, name, kind, payload, [], [], false⟩

def root : Node := detached "" reservedName "" []

def create (source : IdSource) (name kind : String) (payload : Fields) : StateM Supply Node := do
  return detached (← source.draw) name kind payload

def nest (n : Node) (path : List String) (actions : Nested Node) : Node :=
  { n with slots := n.slots ++ [⟨path, actions⟩] }

def attach (n : Node) (parent : Option String) (states : List State) : Node :=
  { n with runAfter := (parent.map fun name => (name, states)).toList, isAttached := true }

/-- The states of the action before this one after which it runs; normal ones if there is none. -/
def gate (n : Node) : List State :=
  match n.runAfter with
  | (_, states) :: _ => states
  | [] => RunMode.normal.states

end Node

namespace Graph

def empty (isRoot : Bool) (source : IdSource) : Graph where
  nodes := [Node.root]
  parents := [sentinel]
  children := [[]]
  registry := .single reservedName sentinel
  lastAppended := sentinel
  isRoot := isRoot
  source := source

def members (g : Graph) : List Node := g.nodes.tail

def size (g : Graph) : Nat := g.members.length

def names (g : Graph) : List String := g.members.map (·.name)

def indexOf? (g : Graph) (name : String) : Option Nat :=
  (g.registry.get? name).filter (· ≠ sentinel)

def nodeAt? (g : Graph) (i : Nat) : Option Node := g.nodes[i]?

/-- The action at a position; the sentinel is none. -/
def actionAt? (g : Graph) (i : Nat) : Option Node := if i = sentinel then none else g.nodeAt? i

def get? (g : Graph) (name : String) : Option Node := (g.indexOf? name).bind g.nodeAt?

def contains (g : Graph) (name : String) : Bool := (g.indexOf? name).isSome

def last? (g : Graph) : Option Node := g.actionAt? g.lastAppended

def parentOf? (g : Graph) (name : String) : Option Node :=
  (g.indexOf? name).bind fun i => g.parents[i]?.bind g.actionAt?

def namesUnder (g : Graph) (i : Nat) : List String :=
  (g.children[i]?.getD []).filterMap fun c => (g.nodeAt? c).map (·.name)

def childrenOf (g : Graph) (name : String) : List String :=
  match g.indexOf? name with
  | some i => g.namesUnder i
  | none => []

def topNames (g : Graph) : List String := g.namesUnder sentinel

def updatePayload (g : Graph) (name : String) (f : Fields → Fields) : Graph :=
  match g.indexOf? name with
  | some i => { g with nodes := g.nodes.modify i fun n => { n with payload := f n.payload } }
  | none => g

end Graph

structure Entry (α : Type) where
  node : α
  parent : Nat

def Graph.entries (g : Graph) : List (Entry Node) :=
  (g.nodes.zip g.parents).tail.map fun (node, parent) => ⟨node, parent⟩

end Workflow
