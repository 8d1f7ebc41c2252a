import Workflow.Proofs.Graph.Depth

/-!
# Where actions are exported

An action is legible if what is nested in it is exported under paths that part from each other and
begin with none of the keys of its header. If all actions in a graph are legible, each one is found
in the export under the path of its site, at whatever depth it is.
-/

set_option autoImplicit false

namespace Workflow

section Slots
variable {slots : List (Slot Node)} {slot : Slot Node}

theorem insertSlots_lookup_of_apart {path : List String}
    (h : ∀ slot ∈ slots, Apart slot.path path) (fields : Fields) :
    (Json.object (insertSlots slots fields)).lookup path = (Json.object fields).lookup path := by
  induction slots generalizing fields with
  | nil => rw [insertSlots]
  | cons slot rest ih =>
    obtain ⟨p, actions⟩ := slot
    have hp : Apart p path := h ⟨p, actions⟩ List.mem_cons_self
    rw [insertSlots, ih fun slot hslot => h slot (List.mem_cons_of_mem _ hslot),
      Fields.lookup_insertAt_of_apart _ hp]

/-- Sequences under paths that part from each other do not meet. -/
theorem insertSlots_lookup (hpath : slot.path ≠ [])
    (hapart : slots.Pairwise fun a b => Apart a.path b.path) (hslot : slot ∈ slots)
    (fields : Fields) : (Json.object (insertSlots slots fields)).lookup slot.path =
      some (.object (nestedFields slot.actions)) := by
  induction slots generalizing fields with
  | nil => cases hslot
  | cons first rest ih =>
    obtain ⟨hfirst, hrest⟩ := List.pairwise_cons.mp hapart
    obtain ⟨p, actions⟩ := first
    rw [insertSlots]
    rcases List.mem_cons.mp hslot with rfl | hslot
    · rw [insertSlots_lookup_of_apart fun other hother => (hfirst other hother).symm,
        Fields.lookup_insertAt _ hpath]
    · exact ih hrest hslot _

end Slots

structure Node.IsLegible (n : Node) : Prop where
  unreserved : n.IsUnreserved
  nonempty : ∀ slot ∈ n.slots, slot.path ≠ []
  apart : n.slots.Pairwise fun a b => Apart a.path b.path

namespace Node
variable {n : Node}

/-- The keys that lead from an action to its identity. -/
def identityPath : List String := ["metadata", "operationMetadataId"]

theorem lookup_identity (h : n.IsUnreserved) :
    n.toJson.lookup identityPath = some (.string n.id) := by
  rw [toJson, toFields_eq h]
  rfl

theorem IsLegible.lookup_slot (h : n.IsLegible) {slot : Slot Node} (hslot : slot ∈ n.slots) :
    n.toJson.lookup slot.path = some (.object (nestedFields slot.actions)) := by
  rw [toJson, toFields_eq_insertSlots]
  exact insertSlots_lookup (h.nonempty slot hslot) h.apart hslot _

end Node

namespace Graph
variable {g : Graph}

theorem get?_memberFields {ns : List Node} (h : (ns.map (·.name)).Nodup) {n : Node} (hn : n ∈ ns) :
    Fields.get? n.name (memberFields ns) = some n.toJson := by
  induction ns with
  | nil => cases hn
  | cons m ns ih =>
    obtain ⟨hm, hns⟩ := List.nodup_cons.mp h
    rw [memberFields, Fields.get?]
    rcases List.mem_cons.mp hn with rfl | hn
    · rw [if_pos rfl, Node.toJson]
    · have hne : m.name ≠ n.name := by
        intro hname
        exact hm (List.mem_map.mpr ⟨n, hn, hname.symm⟩)
      rw [if_neg hne]
      exact ih hns hn

theorem WellFormed.lookup_member (h : g.WellFormed) {n : Node} (hn : n ∈ g.members)
    (path : List String) : g.toJson.lookup (n.name :: path) = n.toJson.lookup path := by
  have hnames : g.names.Nodup := (List.nodup_cons.mp h.names_nodup).2
  rw [toJson, Json.lookup, h.toFields_eq, get?_memberFields hnames hn, Option.bind_some]

theorem WellFormed.lookup_sites (h : g.WellFormed)
    (hmembers : ∀ m ∈ g.members, ∀ x ∈ m.sites, m.toJson.lookup x.path = some x.action.toJson) :
    ∀ x ∈ g.sites, g.toJson.lookup x.path = some x.action.toJson := by
  intro x hx
  rw [sites_eq, memberSites_eq] at hx
  obtain ⟨m, hm, hx⟩ := List.mem_flatMap.mp hx
  obtain ⟨y, hy, rfl⟩ := List.mem_map.mp hx
  change g.toJson.lookup (m.name :: y.path) = _
  rw [h.lookup_member hm]
  exact hmembers m hm y hy

end Graph

theorem Node.postorder_of_slot {n m : Node} {path : List String} {g : Graph}
    (hslot : ⟨path, .graph g⟩ ∈ n.slots) (hm : m ∈ g.members) {x : Node} (hx : x ∈ m.postorder) :
    x ∈ n.postorder := by
  rw [postorder_eq, List.mem_append]
  refine .inl (List.mem_flatMap.mpr ⟨_, hslot, ?_⟩)
  rw [Nested.postorder_graph, Graph.postorder_eq]
  exact List.mem_flatMap.mpr ⟨m, hm, hx⟩

theorem Node.self_mem_postorder (n : Node) : n ∈ n.postorder := by
  rw [postorder_eq]
  exact List.mem_append_right _ List.mem_cons_self

/-- The induction is on what is nested in the action, one case for each slot. -/
theorem Node.Made.lookup_sites {n : Node} (hn : n.Made) (hlegible : ∀ x ∈ n.postorder, x.IsLegible) :
    ∀ x ∈ n.sites, n.toJson.lookup x.path = some x.action.toJson := by
  induction n using Node.induct with
  | step n ih =>
    intro x hx
    rw [sites_eq, slotSites_eq, List.mem_append, List.mem_flatMap, List.mem_singleton] at hx
    rcases hx with ⟨⟨path, actions⟩, hslot, hx⟩ | rfl
    · obtain ⟨y, hy, rfl⟩ := List.mem_map.mp hx
      cases actions with
      | raw r => cases hy
      | graph g =>
        have hg : Graph.Reachable Made g := hn.nested _ hslot
        have hmembers := fun m hm => ih path g hslot m hm (.member hg hm) fun z hz =>
          hlegible z (postorder_of_slot hslot hm hz)
        have hlookup := (hlegible n n.self_mem_postorder).lookup_slot hslot
        change n.toJson.lookup (path ++ y.path) = _
        rw [Json.lookup_append, hlookup, Option.bind_some]
        exact hg.wellFormed.lookup_sites hmembers y hy
    · rfl

/-- Every action in a graph is exported at its site. -/
theorem Graph.Reachable.lookup_sites {g : Graph} (hg : g.Reachable Node.Made)
    (hlegible : ∀ x ∈ g.postorder, x.IsLegible) :
    ∀ x ∈ g.sites, g.toJson.lookup x.path = some x.action.toJson := by
  refine hg.wellFormed.lookup_sites fun m hm => (Node.Made.member hg hm).lookup_sites fun x hx => ?_
  apply hlegible x
  rw [postorder_eq]
  exact List.mem_flatMap.mpr ⟨m, hm, hx⟩

end Workflow
