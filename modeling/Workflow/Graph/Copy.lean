import Workflow.Graph.Insert

/-!
# Copies

A copy has fresh identities at every depth and is equal to what was copied in all else; a copied
action by itself is detached. An action draws its identity before the actions nested in it, and the
members of a graph draw from the source of that graph.

A graph is copied by putting copies of its members one after the other into an empty graph, and two
graphs are joined by putting copies of the members of the second one into a copy of the first one.
There, what was at the top of the second one runs after the last action of the first one, and an
action whose name is taken gets the first free one.
-/

set_option autoImplicit false

namespace Workflow

/-- The graph whose last action is the one with the name of the last action of `original`. -/
def Graph.resumeAt (g original : Graph) : Graph :=
  { g with lastAppended :=
      ((original.nodeAt? original.lastAppended).bind fun n => g.registry.get? n.name).getD sentinel }

/-- The states by which the image of an action below `parent` is gated, where the action itself hangs
under `origin`. What was at the top runs in the normal mode, and all else keeps its gate. -/
def Node.gateBelow (n : Node) (origin parent : Nat) : List State :=
  if parent = sentinel then []
  else if origin = sentinel then RunMode.normal.states
  else n.gate

mutual

def Node.copy (source : IdSource) : Node → StateM Supply Node
  | ⟨_, name, kind, payload, slots, _, _⟩ => do
    let id ← source.draw
    let slots ← copySlots slots
    return ⟨id, name, kind, payload, slots, [], false⟩

def copySlots : List (Slot Node) → StateM Supply (List (Slot Node))
  | [] => return []
  | ⟨path, actions⟩ :: rest => do
    let actions ← copyNested actions
    let rest ← copySlots rest
    return ⟨path, actions⟩ :: rest

def copyNested : Nested Node → StateM Supply (Nested Node)
  | .raw actions => return .raw actions
  | .graph ⟨nodes, parents, children, registry, lastAppended, isRoot, source⟩ => do
    let g ← graft parents sentinel (Graph.empty isRoot source) nodes
    return .graph (g.resumeAt ⟨nodes, parents, children, registry, lastAppended, isRoot, source⟩)

/-- Puts copies of the members of another graph in, below the images of their parents there. The
image of its sentinel is `anchor`. -/
def graft (parents : List Nat) (anchor : Nat) (g : Graph) : List Node → StateM Supply Graph
  | [] => return g
  | _ :: members => graftFrom parents anchor [anchor] g members

/-- The same for the members that are left, where `images` are the positions of the images so far. -/
def graftFrom (parents : List Nat) (anchor : Nat) (images : List Nat) (g : Graph) :
    List Node → StateM Supply Graph
  | [] => return g
  | n :: rest => do
    let origin := parents.getD images.length sentinel
    let parent := images.getD origin anchor
    let c ← n.copy g.source
    let joined := g.link c parent (n.gateBelow origin parent)
    graftFrom parents anchor (images ++ [g.nodes.length]) joined rest

end

namespace Graph

def copy (g : Graph) : StateM Supply Graph := do
  let c ← graft g.parents sentinel (empty g.isRoot g.source) g.nodes
  return c.resumeAt g

def merge (a b : Graph) : StateM Supply Graph := do
  let base ← a.copy
  graft b.parents base.lastAppended { base with isRoot := base.isRoot || b.isRoot } b.nodes

/-- The actions of a graph followed by one more, all copied. Identities are drawn even if the action
is refused. -/
def mergeNode (g : Graph) (n : Node) : ExceptT GraphError (StateM Supply) Graph := do
  let base ← g.copy
  let c ← n.copy base.source
  ExceptT.mk (pure ((base.append c .normal).map (·.2)))

end Graph

end Workflow
