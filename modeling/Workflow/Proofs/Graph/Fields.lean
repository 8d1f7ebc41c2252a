import Workflow.Graph.Fields
import Workflow.Proofs.Graph.Reachable
import Workflow.Proofs.Json.Path

/-!
# What actions and graphs export

An exported action begins with its header, and nothing that is put in behind it touches the header,
unless something nested has a path that begins with one of its keys. A well-formed graph exports
its actions in their order, and takes new names from those it has.
-/

set_option autoImplicit false

namespace Workflow

namespace Fields

theorem insert_append {key : String} {header fields : Fields} (h : key ∉ header.keys) (v : Json) :
    insert key v (header ++ fields) = header ++ insert key v fields := by
  induction header with
  | nil => rfl
  | cons entry header ih =>
    obtain ⟨k, w⟩ := entry
    simp only [keys, List.map_cons, List.mem_cons, not_or] at h
    rw [List.cons_append, insert, if_neg (Ne.symm h.1), ih h.2, List.cons_append]

theorem collect_append (entries : Fields) (key : String) (v : Json) :
    collect (entries ++ [(key, v)]) = insert key v (collect entries) := by
  rw [collect, List.foldl_append]
  rfl

/-- Entries with different keys stay as they are. -/
theorem collect_eq_self {entries : Fields} (h : entries.keys.Nodup) : collect entries = entries := by
  induction entries using List.reverseRecOn with
  | nil => rfl
  | append_singleton entries entry ih =>
    obtain ⟨key, v⟩ := entry
    rw [keys, List.map_append, List.map_singleton, ← List.concat_eq_append, List.nodup_concat] at h
    have hlast := @insert_append key entries [] h.1 v
    rw [List.append_nil] at hlast
    rw [collect_append, ih h.2, hlast, insert]

theorem mem_of_mem_insert {entry : String × Json} {key : String} {v : Json} {fields : Fields}
    (h : entry ∈ insert key v fields) : entry = (key, v) ∨ entry ∈ fields := by
  induction fields with
  | nil => exact .inl (List.mem_singleton.mp h)
  | cons first fields ih =>
    obtain ⟨k, w⟩ := first
    rw [insert] at h
    split at h
    · rcases List.mem_cons.mp h with heq | hmem
      · exact .inl heq
      · exact .inr (List.mem_cons_of_mem _ hmem)
    · rcases List.mem_cons.mp h with rfl | hmem
      · exact .inr List.mem_cons_self
      · exact (ih hmem).imp_right (List.mem_cons_of_mem _)

theorem mem_of_mem_collect {entry : String × Json} {entries : Fields} (h : entry ∈ collect entries) :
    entry ∈ entries := by
  induction entries using List.reverseRecOn with
  | nil => exact h
  | append_singleton entries last ih =>
    obtain ⟨key, v⟩ := last
    rw [collect_append] at h
    rcases mem_of_mem_insert h with rfl | hmem
    · exact List.mem_append_right _ List.mem_cons_self
    · exact List.mem_append_left _ (ih hmem)

/-- A value under a path whose first key does not stand in the header goes behind it. -/
theorem insertAt_append {path : List String} {header fields : Fields}
    (h : ∀ key ∈ path.head?, key ∉ header.keys) (v : Json) :
    insertAt v path (header ++ fields) = header ++ insertAt v path fields := by
  match path with
  | [] => rfl
  | [key] =>
    rw [insertAt, insertAt]
    exact insert_append (h key rfl) v
  | key :: next :: path =>
    have hkey := h key rfl
    rw [insertAt, insertAt, get?_append hkey, insert_append hkey]

end Fields

namespace Node

theorem insertSlots_append {slots : List (Slot Node)} {header fields : Fields}
    (h : ∀ slot ∈ slots, ∀ key ∈ slot.path.head?, key ∉ header.keys) :
    insertSlots slots (header ++ fields) = header ++ insertSlots slots fields := by
  induction slots generalizing fields with
  | nil => simp [insertSlots]
  | cons slot rest ih =>
    obtain ⟨path, actions⟩ := slot
    have hpath := h ⟨path, actions⟩ List.mem_cons_self
    have hrest := fun slot hslot => h slot (List.mem_cons_of_mem _ hslot)
    rw [insertSlots, insertSlots, Fields.insertAt_append hpath, ih hrest]

/-- What an action exports after its header, where nothing nested in it meets the header. -/
def ownBody (n : Node) : Fields :=
  insertSlots n.slots (n.payload.filter fun (key, _) => !reservedKeys.contains key)

def IsUnreserved (n : Node) : Prop :=
  ∀ slot ∈ n.slots, ∀ key ∈ slot.path.head?, key ∉ reservedKeys

theorem toFields_eq_insertSlots (n : Node) : n.toFields = insertSlots n.slots n.ownFields := by
  cases n
  rw [toFields]

theorem toFields_eq {n : Node} (h : n.IsUnreserved) : n.toFields = n.header ++ n.ownBody := by
  have hslots := @insertSlots_append n.slots n.header
    (n.payload.filter fun (key, _) => !reservedKeys.contains key) h
  rw [toFields_eq_insertSlots, ownBody, ← hslots]
  rfl

end Node

theorem memberFields_eq (ns : List Node) :
    memberFields ns = ns.map fun n => (n.name, n.toJson) := by
  induction ns with
  | nil => rw [memberFields, List.map_nil]
  | cons n ns ih => rw [memberFields, ih, List.map_cons, Node.toJson]

theorem keys_memberFields (ns : List Node) : (memberFields ns).keys = ns.map (·.name) := by
  rw [memberFields_eq, Fields.keys, List.map_map]
  rfl

/-- No action takes the place of another one in the export if their names are different. -/
theorem graphFields_cons {root : Node} {ns : List Node} (h : (ns.map (·.name)).Nodup) :
    graphFields (root :: ns) = memberFields ns := by
  rw [← keys_memberFields] at h
  rw [graphFields, Fields.collect_eq_self h]

theorem memberFields_append (ns ms : List Node) :
    memberFields (ns ++ ms) = memberFields ns ++ memberFields ms := by
  rw [memberFields_eq, memberFields_eq, memberFields_eq, List.map_append]

namespace Graph
variable {g : Graph}

theorem WellFormed.toFields_eq (h : g.WellFormed) : g.toFields = memberFields g.members := by
  rw [toFields, h.nodes_eq, graphFields_cons (List.nodup_cons.mp h.names_nodup).2]

theorem WellFormed.link_members (h : g.WellFormed) (n : Node) (p : Nat) (states : List State) :
    (g.link n p states).members = g.members ++ [g.placed n p states] := by
  rw [members, link_nodes, h.nodes_eq, List.cons_append, List.tail_cons]

theorem WellFormed.names_link (h : g.WellFormed) (n : Node) (p : Nat) (states : List State) :
    (g.link n p states).names = g.names ++ [g.freeName n.name] := by
  rw [names, h.link_members, List.map_append, List.map_singleton, placed_name, names]

theorem WellFormed.freeName_eq (h : g.WellFormed) (name : String) :
    g.freeName name = firstFree (reservedName :: g.names) name := by
  have hfree := firstFree_isFirst g.registry.names name
  refine (hfree.congr fun x => ?_).unique (firstFree_isFirst _ name)
  rw [h.mem_registry_names, h.nodes_eq]
  rfl

theorem WellFormed.lastName (h : g.WellFormed) :
    (g.actionAt? g.lastAppended).map (·.name) = g.names.getLast? := by
  rw [h.lastAppended_eq_size, names, List.getLast?_map, actionAt?, size]
  cases hmembers : g.members using List.reverseRecOn with
  | nil => rfl
  | append_singleton ms m =>
    have hlast : g.nodeAt? (ms.length + 1) = some m := by
      rw [nodeAt?, h.nodes_eq, hmembers]
      simp
    simp [sentinel, hlast]

end Graph

end Workflow
