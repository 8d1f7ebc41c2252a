import Mathlib.Logic.Relation
import Workflow.Proofs.Graph.Fields
import Workflow.Proofs.Graph.Nested

/-!
# Actions at every depth

A graph has its own actions, and those of the graphs that are nested in them, at any depth. They are
listed with the paths under which they are exported: the actions of a sequence in their order, and
each one behind all that are nested in it.
-/

set_option autoImplicit false

namespace Workflow

namespace Graph

/-- A graph has an action in which another graph is nested. -/
def Carries (g inner : Graph) : Prop := ∃ n ∈ g.members, ∃ path, ⟨path, .graph inner⟩ ∈ n.slots

/-- The same at any depth. -/
def Nests : Graph → Graph → Prop := Relation.TransGen Carries

end Graph

theorem Node.sizeOf_lt_of_nested {n m : Node} {path : List String} {g : Graph}
    (hslot : ⟨path, .graph g⟩ ∈ n.slots) (hm : m ∈ g.members) : sizeOf m < sizeOf n := by
  obtain ⟨id, name, kind, payload, slots, runAfter, isAttached⟩ := n
  obtain ⟨nodes, parents, children, registry, lastAppended, isRoot, source⟩ := g
  have hslots := List.sizeOf_lt_of_mem hslot
  have hmembers : sizeOf m < sizeOf nodes := List.sizeOf_lt_of_mem (List.mem_of_mem_tail hm)
  simp only [Slot.mk.sizeOf_spec, Nested.graph.sizeOf_spec, GraphOf.mk.sizeOf_spec] at hslots
  simp only [mk.sizeOf_spec]
  omega

/-- What holds of an action if it holds of all in its nested graphs holds of every action. -/
theorem Node.induct {P : Node → Prop}
    (step : ∀ n, (∀ path g, ⟨path, .graph g⟩ ∈ n.slots → ∀ m ∈ Graph.members g, P m) → P n)
    (n : Node) : P n :=
  step n fun _ _ hslot m hm =>
    have := sizeOf_lt_of_nested hslot hm
    induct step m
termination_by sizeOf n

/-- An action at some depth, and the keys that lead to it in what is exported. -/
structure Site where
  path : List String
  action : Node

def Site.below (path : List String) (x : Site) : Site := { x with path := path ++ x.path }

mutual

def Node.sites : Node → List Site
  | ⟨id, name, kind, payload, slots, runAfter, isAttached⟩ =>
    slotSites slots ++ [⟨[], ⟨id, name, kind, payload, slots, runAfter, isAttached⟩⟩]

def slotSites : List (Slot Node) → List Site
  | [] => []
  | ⟨path, actions⟩ :: rest => (nestedSites actions).map (Site.below path) ++ slotSites rest

def nestedSites : Nested Node → List Site
  | .raw _ => []
  | .graph ⟨nodes, _, _, _, _, _, _⟩ => graphSites nodes

def graphSites : List Node → List Site
  | [] => []
  | _ :: members => memberSites members

def memberSites : List Node → List Site
  | [] => []
  | n :: rest => n.sites.map (Site.below [n.name]) ++ memberSites rest

end

def Graph.sites (g : Graph) : List Site := graphSites g.nodes

def Node.postorder (n : Node) : List Node := n.sites.map (·.action)

def Nested.postorder (actions : Nested Node) : List Node := (nestedSites actions).map (·.action)

def Graph.postorder (g : Graph) : List Node := g.sites.map (·.action)

/-- The identities of the action and of all that are nested in it. -/
def Node.identities (n : Node) : List String := n.postorder.map (·.id)

def Nested.identities (actions : Nested Node) : List String := actions.postorder.map (·.id)

def Graph.identities (g : Graph) : List String := g.postorder.map (·.id)

theorem slotSites_eq (slots : List (Slot Node)) :
    slotSites slots =
      slots.flatMap fun slot => (nestedSites slot.actions).map (Site.below slot.path) := by
  induction slots with
  | nil => rw [slotSites, List.flatMap_nil]
  | cons slot rest ih => rw [slotSites, ih, List.flatMap_cons]

theorem memberSites_eq (ns : List Node) :
    memberSites ns = ns.flatMap fun n => n.sites.map (Site.below [n.name]) := by
  induction ns with
  | nil => rw [memberSites, List.flatMap_nil]
  | cons n rest ih => rw [memberSites, ih, List.flatMap_cons]

theorem actions_below (path : List String) (sites : List Site) :
    (sites.map (Site.below path)).map (·.action) = sites.map (·.action) := by
  rw [List.map_map]
  rfl

theorem Node.sites_eq (n : Node) : n.sites = slotSites n.slots ++ [⟨[], n⟩] := by
  cases n
  rw [sites]

theorem Node.postorder_eq (n : Node) :
    n.postorder = n.slots.flatMap (fun slot => slot.actions.postorder) ++ [n] := by
  simp only [postorder, sites_eq, slotSites_eq, List.map_append, List.map_flatMap, actions_below,
    List.map_singleton, Nested.postorder]

theorem Nested.postorder_graph (g : Graph) : Nested.postorder (.graph g) = g.postorder := rfl

theorem Node.identities_eq (n : Node) :
    n.identities = n.slots.flatMap (fun slot => slot.actions.identities) ++ [n.id] := by
  rw [identities, postorder_eq, List.map_append, List.map_flatMap, List.map_singleton]
  rfl

namespace Graph

theorem sites_eq (g : Graph) : g.sites = memberSites g.members := by
  unfold sites members
  cases g.nodes <;> rfl

theorem postorder_eq (g : Graph) : g.postorder = g.members.flatMap Node.postorder := by
  simp only [postorder, sites_eq, memberSites_eq, List.map_flatMap, actions_below]
  rfl

theorem members_link {g : Graph} (h : g.nodes ≠ []) (n : Node) (p : Nat) (states : List State) :
    (g.link n p states).members = g.members ++ [g.placed n p states] := by
  rw [members, link_nodes, List.tail_append_of_ne_nil h]
  rfl

/-- An action that is put in is the last one of all, behind those that are nested in it. -/
theorem postorder_link {g : Graph} (h : g.nodes ≠ []) (n : Node) (p : Nat) (states : List State) :
    (g.link n p states).postorder = g.postorder ++
      (n.slots.flatMap (fun slot => slot.actions.postorder) ++ [g.placed n p states]) := by
  rw [postorder_eq, postorder_eq, members_link h, List.flatMap_append, List.flatMap_singleton,
    Node.postorder_eq]
  rfl

theorem identities_eq (g : Graph) : g.identities = g.members.flatMap Node.identities := by
  rw [identities, postorder_eq, List.map_flatMap]
  rfl

theorem identities_link {g : Graph} (h : g.nodes ≠ []) (n : Node) (p : Nat) (states : List State) :
    (g.link n p states).identities = g.identities ++ n.identities := by
  rw [identities_eq, identities_eq, members_link h, List.flatMap_append, List.flatMap_singleton,
    Node.identities_eq, Node.identities_eq]
  rfl

end Graph

end Workflow
