import Workflow.Proofs.Graph.Site

/-!
# What stands where in an exported action

An exported action is its header and its payload, into which the nested sequences are put one after
the other. Each one changes the entry of the first key of its path and no other, and a key that is
new goes to the end. So no entry is lost, and the order of the keys is known beforehand. The header
stands as it is where no path begins with one of its keys. Nothing checks that of the paths: where
one does, it is the nested sequence that is shown.
-/

set_option autoImplicit false

namespace Workflow

/-- The keys with which the paths of the sequences begin. -/
def openingKeys (slots : List (Slot Node)) : List String := slots.filterMap (·.path.head?)

theorem openingKeys_cons (key : String) (path : List String) (actions : Nested Node)
    (rest : List (Slot Node)) :
    openingKeys (⟨key :: path, actions⟩ :: rest) = key :: openingKeys rest := rfl

theorem keys_insertSlots (slots : List (Slot Node)) (fields : Fields) :
    (insertSlots slots fields).keys =
      fields.keys ++ ((openingKeys slots).filter (· ∉ fields.keys)).eraseDups := by
  induction slots generalizing fields with
  | nil => simp [insertSlots, openingKeys]
  | cons slot rest ih =>
    obtain ⟨path, actions⟩ := slot
    rw [insertSlots, ih]
    cases path with
    | nil => rfl
    | cons key path =>
      rw [openingKeys_cons, Fields.keys_insertAt]
      by_cases hkey : key ∈ fields.keys
      · rw [if_pos hkey, List.filter_cons_of_neg (by simpa using hkey)]
      · rw [if_neg hkey, List.filter_cons_of_pos (by simpa using hkey), List.eraseDups_cons,
          List.append_assoc, List.singleton_append, List.filter_filter]
        congr 4
        funext other
        by_cases hother : other = key <;> simp [hother]

/-- What no path begins with stays as it is. -/
theorem filter_insertSlots {slots : List (Slot Node)} {p : String → Bool}
    (hp : ∀ key ∈ openingKeys slots, p key = false) (fields : Fields) :
    (insertSlots slots fields).filter (fun entry => p entry.1) =
      fields.filter fun entry => p entry.1 := by
  induction slots generalizing fields with
  | nil => rw [insertSlots]
  | cons slot rest ih =>
    obtain ⟨path, actions⟩ := slot
    rw [insertSlots]
    cases path with
    | nil => exact ih hp fields
    | cons key path =>
      rw [openingKeys_cons, List.forall_mem_cons] at hp
      obtain ⟨u, hu⟩ := Fields.exists_insertAt (.object (nestedFields actions)) key path fields
      rw [ih hp.2, hu, Fields.filter_insert hp.1]

namespace Node
variable {n : Node}

theorem keys_ownFields (n : Node) :
    n.ownFields.keys = reservedKeys ++ n.payload.keys.filter (· ∉ reservedKeys) := by
  rw [ownFields, Fields.keys, List.map_append, Fields.keys, List.filter_map]
  congr 2
  apply List.filter_congr
  intro entry _
  simp

theorem keys_toFields (h : n.IsUnreserved) :
    n.toFields.keys = reservedKeys ++ n.payload.keys.filter (· ∉ reservedKeys) ++
      ((openingKeys n.slots).filter (· ∉ n.payload.keys)).eraseDups := by
  have hopening : (openingKeys n.slots).filter (· ∉ n.ownFields.keys) =
      (openingKeys n.slots).filter (· ∉ n.payload.keys) := by
    apply List.filter_congr
    intro key hkey
    obtain ⟨slot, hslot, hhead⟩ := List.mem_filterMap.mp hkey
    have hreserved : key ∉ reservedKeys := h slot hslot key hhead
    simp [keys_ownFields, hreserved]
  rw [toFields_eq_insertSlots, keys_insertSlots, hopening, keys_ownFields]

/-- Under keys of its own, the payload is exported as it is. -/
theorem filter_toFields (n : Node) :
    n.toFields.filter (fun entry => entry.1 ∉ reservedKeys ++ openingKeys n.slots) =
      n.payload.filter fun entry => entry.1 ∉ reservedKeys ++ openingKeys n.slots := by
  have hslots : ∀ key ∈ openingKeys n.slots,
      decide (key ∉ reservedKeys ++ openingKeys n.slots) = false := by
    intro key hkey
    simp [hkey]
  have hheader : n.header.filter (fun entry => entry.1 ∉ reservedKeys ++ openingKeys n.slots) =
      [] := rfl
  rw [toFields_eq_insertSlots]
  apply (filter_insertSlots hslots n.ownFields).trans
  rw [ownFields, List.filter_append, hheader, List.nil_append, List.filter_filter]
  apply List.filter_congr
  intro entry _
  by_cases hreserved : entry.1 ∈ reservedKeys <;> simp [hreserved]

section Entries
variable {key : String} (hreserved : key ∉ reservedKeys) (hopening : key ∉ openingKeys n.slots)
include hreserved hopening

theorem mem_toFields (v : Json) : (key, v) ∈ n.toFields ↔ (key, v) ∈ n.payload := by
  have hmem : (key, v) ∈ n.toFields.filter _ ↔ (key, v) ∈ n.payload.filter _ :=
    iff_of_eq (congrArg ((key, v) ∈ ·) n.filter_toFields)
  simpa [List.mem_filter, hreserved, hopening] using hmem

theorem get?_toFields : Fields.get? key n.toFields = Fields.get? key n.payload := by
  have hkept : ∀ fields : Fields, Fields.get? key (fields.filter fun entry =>
      entry.1 ∉ reservedKeys ++ openingKeys n.slots) = Fields.get? key fields := by
    apply Fields.get?_filter (p := fun other => other ∉ reservedKeys ++ openingKeys n.slots)
    simp [hreserved, hopening]
  rw [← hkept n.toFields, n.filter_toFields, hkept]

end Entries

/-- An export loses nothing where no path begins with a key of the header. Its keys are those of the
header, those of the payload in their order and then the new ones, in the order in which paths first
begin with them. The payload is unchanged under its own keys, and each nested sequence is found under
its path, if no two of the paths meet. -/
theorem toFields_complete (hreserved : n.IsUnreserved) (hpath : ∀ slot ∈ n.slots, slot.path ≠ []) :
    n.toFields.keys = reservedKeys ++ n.payload.keys.filter (· ∉ reservedKeys) ++
        ((openingKeys n.slots).filter (· ∉ n.payload.keys)).eraseDups ∧
    (∀ key, key ∉ reservedKeys → key ∉ openingKeys n.slots →
      n.toJson.lookup [key] = (Json.object n.payload).lookup [key] ∧
        ∀ v, (key, v) ∈ n.toFields ↔ (key, v) ∈ n.payload) ∧
    (n.slots.Pairwise (fun a b => Apart a.path b.path) → ∀ slot ∈ n.slots,
      n.toJson.lookup slot.path = some (.object (nestedFields slot.actions))) := by
  refine ⟨keys_toFields hreserved, ?_, ?_⟩
  · intro key hkey hopening
    refine ⟨?_, mem_toFields hkey hopening⟩
    rw [toJson, Fields.lookup_singleton, Fields.lookup_singleton, get?_toFields hkey hopening]
  · intro hapart slot hslot
    have hlegible : n.IsLegible := ⟨hreserved, hpath, hapart⟩
    exact hlegible.lookup_slot hslot

/-- A loop with a place for its actions, a type in its payload that is not its own, and further
actions under a key that is new. -/
def retryWithFallback : Node :=
  ((detached "id-1" "Retry" "Until"
    [("actions", .null), ("type", .string "Scope"), ("expression", .string "@true")]).nest
      ["fallback", "actions"] (.graph Graph.twoSteps)).nest ["actions"] (.graph Graph.twoSteps)

theorem retryWithFallback_complete :
    retryWithFallback.IsUnreserved ∧ (∀ slot ∈ retryWithFallback.slots, slot.path ≠ []) ∧
      retryWithFallback.toFields.keys =
        ["metadata", "type", "runAfter", "actions", "expression", "fallback"] ∧
      retryWithFallback.toJson.lookup ["expression"] = some (.string "@true") ∧
      retryWithFallback.toJson.lookup ["fallback", "actions"] = some Graph.twoSteps.toJson ∧
      retryWithFallback.toJson.lookup ["actions"] = some Graph.twoSteps.toJson := by
  have hreserved : retryWithFallback.IsUnreserved := by
    unfold IsUnreserved
    decide
  have hpath : ∀ slot ∈ retryWithFallback.slots, slot.path ≠ [] := by decide
  have hapart : retryWithFallback.slots.Pairwise fun a b => Apart a.path b.path := by decide
  obtain ⟨hkeys, hpayload, hslots⟩ := toFields_complete hreserved hpath
  refine ⟨hreserved, hpath, hkeys, ?_, ?_, ?_⟩
  · exact (hpayload "expression" (by decide) (by decide)).1
  · exact hslots hapart ⟨["fallback", "actions"], .graph Graph.twoSteps⟩ (.head _)
  · exact hslots hapart ⟨["actions"], .graph Graph.twoSteps⟩ (.tail _ (.head _))

end Node

/-- No object stands under a key of the value. -/
def Json.IsFlat (v : Json) : Prop := ∀ key inner, v.lookup [key] ≠ some (.object inner)

/-- The fields of sequences hold objects alone. -/
def Fields.IsSequence (fields : Fields) : Prop := ∀ entry ∈ fields, ∃ action, entry.2 = .object action

namespace Fields
variable {key : String} {own : Json} {inner fields : Fields} {path : List String}

theorem IsSequence.eq_nil (h : inner.IsSequence) (hflat : (Json.object inner).IsFlat) :
    inner = [] := by
  cases inner with
  | nil => rfl
  | cons entry rest =>
    obtain ⟨key, v⟩ := entry
    obtain ⟨action, rfl⟩ : ∃ action, v = .object action := h _ List.mem_cons_self
    apply absurd _ (hflat key action)
    rw [lookup_singleton, get?, if_pos rfl]

theorem get?_insertAt_of_head (h : path.head? ≠ some key) (v : Json) (fields : Fields) :
    get? key (insertAt v path fields) = get? key fields := by
  cases path with
  | nil => rfl
  | cons first path =>
    obtain ⟨u, hu⟩ := exists_insertAt v first path fields
    have hne : first ≠ key := fun heq => h (congrArg some heq)
    rw [hu, get?_insert, if_neg hne]

theorem exists_object_insertAt (inner : Fields) (key : String) (path : List String)
    (fields : Fields) :
    ∃ o, get? key (insertAt (.object inner) (key :: path) fields) = some (.object o) := by
  cases path with
  | nil => exact ⟨_, by rw [insertAt, get?_insert, if_pos rfl]⟩
  | cons next path => exact ⟨_, by rw [insertAt, get?_insert, if_pos rfl]⟩

/-- A sequence that is put under a path leaves an object with an object in it under the first key,
unless it has no entries and the path ends there. -/
theorem get?_insertAt_flat (hown : own.IsFlat) (hinner : inner.IsSequence) (key : String)
    (path : List String) (fields : Fields) :
    get? key (insertAt (.object inner) (key :: path) fields) = some own ↔
      own = .object [] ∧ path = [] ∧ inner = [] := by
  cases path with
  | nil =>
    rw [insertAt, get?_insert, if_pos rfl]
    constructor
    · intro h
      obtain rfl := Option.some.inj h
      have hnil := hinner.eq_nil hown
      exact ⟨congrArg _ hnil, rfl, hnil⟩
    · rintro ⟨rfl, -, rfl⟩
      rfl
  | cons next path =>
    rw [insertAt, get?_insert, if_pos rfl]
    constructor
    · intro h
      obtain rfl := Option.some.inj h
      obtain ⟨o, ho⟩ := exists_object_insertAt inner next path _
      exact absurd ((lookup_singleton _ next).trans ho) (hown next o)
    · rintro ⟨-, hnil, -⟩
      cases hnil

end Fields

theorem Raw.isSequence (r : Raw) : Fields.IsSequence r.toFields := by
  have hentries : ∀ {fields : Fields} (known : List String), Raw.areEntries known fields = true →
      fields.IsSequence := by
    intro fields
    induction fields with
    | nil => exact fun _ _ _ hentry => absurd hentry List.not_mem_nil
    | cons entry rest ih =>
      intro known h
      obtain ⟨name, v⟩ := entry
      rw [Raw.areEntries, Bool.and_eq_true] at h
      refine List.forall_mem_cons.mpr ⟨?_, ih _ h.2⟩
      cases v with
      | object action => exact ⟨action, rfl⟩
      | _ => cases h.1
  rw [Raw.toFields]
  split
  · next hvalid =>
    rw [Raw.isValid, Bool.and_eq_true] at hvalid
    exact hentries [] hvalid.2
  · exact fun _ hentry => absurd hentry List.not_mem_nil

theorem nestedFields_isSequence (actions : Nested Node) :
    Fields.IsSequence (nestedFields actions) := by
  cases actions with
  | raw r =>
    rw [nestedFields]
    exact r.isSequence
  | graph g =>
    obtain ⟨nodes, parents, children, registry, lastAppended, isRoot, source⟩ := g
    rw [nestedFields]
    cases nodes with
    | nil => exact fun _ hentry => absurd hentry List.not_mem_nil
    | cons root members =>
      intro entry hentry
      have hmember := Fields.mem_of_mem_collect hentry
      rw [memberFields_eq] at hmember
      obtain ⟨n, -, rfl⟩ := List.mem_map.mp hmember
      exact ⟨n.toFields, rfl⟩

/-- Of the sequences whose paths begin with a key, the one that is put in last. -/
def lastUnder? (key : String) (slots : List (Slot Node)) : Option (Slot Node) :=
  slots.reverse.find? fun slot => slot.path.head? = some key

theorem lastUnder?_eq_none {key : String} {slots : List (Slot Node)} :
    lastUnder? key slots = none ↔ ∀ slot ∈ slots, slot.path.head? ≠ some key := by
  simp [lastUnder?]

theorem insertSlots_concat (slots : List (Slot Node)) (slot : Slot Node) (fields : Fields) :
    insertSlots (slots ++ [slot]) fields =
      Fields.insertAt (.object (nestedFields slot.actions)) slot.path (insertSlots slots fields) := by
  induction slots generalizing fields with
  | nil =>
    obtain ⟨path, actions⟩ := slot
    rw [List.nil_append, insertSlots, insertSlots, insertSlots]
  | cons first slots ih =>
    obtain ⟨path, actions⟩ := first
    rw [List.cons_append, insertSlots, insertSlots, ih]

/-- Only the last sequence under a key tells whether what stood there stands there again. -/
theorem get?_insertSlots_flat {key : String} {own : Json} {fields : Fields} (hown : own.IsFlat)
    (hfields : Fields.get? key fields = some own) (slots : List (Slot Node)) :
    Fields.get? key (insertSlots slots fields) = some own ↔
      ∀ slot ∈ lastUnder? key slots,
        own = .object [] ∧ slot.path = [key] ∧ nestedFields slot.actions = [] := by
  induction slots using List.reverseRecOn with
  | nil => simp [insertSlots, lastUnder?, hfields]
  | append_singleton slots slot ih =>
    obtain ⟨path, actions⟩ := slot
    have hlast : lastUnder? key (slots ++ [⟨path, actions⟩]) =
        if path.head? = some key then some ⟨path, actions⟩ else lastUnder? key slots := by
      by_cases hhead : path.head? = some key <;> simp [lastUnder?, hhead]
    rw [insertSlots_concat, hlast]
    by_cases hhead : path.head? = some key
    · obtain ⟨rest, rfl⟩ := List.head?_eq_some_iff.mp hhead
      rw [Fields.get?_insertAt_flat hown (nestedFields_isSequence actions), if_pos hhead]
      simp
    · rw [Fields.get?_insertAt_of_head hhead, if_neg hhead]
      exact ih

namespace Node

theorem isFlat_metadata (n : Node) :
    (Json.object [("operationMetadataId", .string n.id)]).IsFlat := by
  intro key inner h
  rw [Fields.lookup_singleton, Fields.get?, Fields.get?] at h
  split at h
  · cases h
  · cases h

theorem isFlat_runAfterFields (n : Node) : (Json.object n.runAfterFields).IsFlat := by
  intro key inner
  rw [Fields.lookup_singleton, runAfterFields]
  induction n.runAfter with
  | nil =>
    intro h
    cases h
  | cons gate rest ih =>
    obtain ⟨above, states⟩ := gate
    rw [List.map_cons, Fields.get?]
    split
    · intro h
      cases h
    · exact ih

/-- The header is shown as it is exactly if no path of a nested sequence begins with one of its keys.
The one exception is an action that runs after nothing: a sequence without entries looks the same. -/
theorem shows_header_iff (n : Node) :
    (n.toJson.lookup ["metadata"] = some (.object [("operationMetadataId", .string n.id)]) ↔
      ∀ slot ∈ n.slots, slot.path.head? ≠ some "metadata") ∧
    (n.toJson.lookup ["type"] = some (.string n.kind) ↔
      ∀ slot ∈ n.slots, slot.path.head? ≠ some "type") ∧
    (n.toJson.lookup ["runAfter"] = some (.object n.runAfterFields) ↔
      ∀ slot ∈ lastUnder? "runAfter" n.slots,
        n.runAfter = [] ∧ slot.path = ["runAfter"] ∧ nestedFields slot.actions = []) := by
  simp only [toJson, Fields.lookup_singleton, toFields_eq_insertSlots]
  refine ⟨?_, ?_, ?_⟩
  · rw [get?_insertSlots_flat n.isFlat_metadata rfl, ← lastUnder?_eq_none]
    simp [Option.eq_none_iff_forall_ne_some]
  · have hflat : (Json.string n.kind).IsFlat := by
      intro key inner h
      cases h
    rw [get?_insertSlots_flat hflat rfl, ← lastUnder?_eq_none]
    simp [Option.eq_none_iff_forall_ne_some]
  · rw [get?_insertSlots_flat n.isFlat_runAfterFields rfl]
    simp [runAfterFields]

/-- A sequence without actions under `type` is shown in the place of the kind. -/
theorem nestedType_shown :
    let step := detached "id-1" "Step" "Compose" []
    let n := step.nest ["type"] (.graph (Graph.empty false (.sequential 0 "id")))
    n.Made ∧ n.toJson.lookup ["type"] = some (.object []) ∧
      n.toJson.lookup ["type"] ≠ some (.string n.kind) := by
  intro step n
  have hn : n.Made := (Made.fresh ..).nestGraph _ (.empty ..)
  have hshown : n.toJson.lookup ["type"] = some (.object []) := rfl
  refine ⟨hn, hshown, ?_⟩
  intro hkind
  rw [hshown] at hkind
  cases hkind

end Node

end Workflow
