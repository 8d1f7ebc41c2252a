import Workflow.Proofs.Graph.Fields
import Workflow.Proofs.Graph.Nested

/-!
# The forest of a graph

What runs after what can be asked in three ways: by what is exported of the actions, by the action
above an action, and by the actions below one. In every graph that can be made the three agree, and
they describe a forest in which what is above comes earlier: going up ends at the top, and going
down from the top comes to every action once. All actions are exported, since no two have one name.
-/

set_option autoImplicit false

namespace Workflow

theorem filterMap_getElem?_range {α : Type} (xs : List α) :
    ((List.range xs.length).filterMap fun i => xs[i]?) = xs := by
  induction xs with
  | nil => rfl
  | cons x xs ih => simpa [List.range_succ_eq_map, List.filterMap_map, Function.comp_def] using ih

namespace Graph
variable {g : Graph}

def parentName? (g : Graph) (name : String) : Option String := (g.parentOf? name).map (·.name)

/-- The action that stands a number of steps above another one. -/
def ancestor? (g : Graph) : Nat → String → Option String
  | 0, name => some name
  | k + 1, name => (g.parentName? name).bind (g.ancestor? k)

/-- The actions that are come to from the top after a number of steps down. -/
def generation (g : Graph) : Nat → List String
  | 0 => g.topNames
  | k + 1 => (g.generation k).flatMap g.childrenOf

def generations (g : Graph) (k : Nat) : List String := (List.range k).flatMap g.generation

namespace WellFormed
variable {i p : Nat} {n : Node} {name : String}

theorem parentName?_eq (h : g.WellFormed) (hi : i ≠ sentinel) (hn : g.nodes[i]? = some n)
    (hp : g.parents[i]? = some p) : g.parentName? n.name = (g.actionAt? p).map (·.name) := by
  have hindex : g.indexOf? n.name = some i := (h.indexOf?_eq_some_iff _ i).mpr ⟨hi, n, hn, rfl⟩
  rw [parentName?, parentOf?, hindex, Option.bind_some, hp, Option.bind_some]

/-- An action stands at the top, or below an action at an earlier position. -/
theorem parentName?_cases (h : g.WellFormed) (hi : i ≠ sentinel) (hn : g.nodes[i]? = some n) :
    (g.parents[i]? = some sentinel ∧ g.parentName? n.name = none) ∨
      ∃ p q, p ≠ sentinel ∧ p < i ∧ g.parents[i]? = some p ∧ g.nodes[p]? = some q ∧
        g.parentName? n.name = some q.name := by
  have hlt := (List.getElem?_eq_some_iff.mp hn).1
  obtain ⟨p, hp⟩ := h.exists_parent hlt
  have hparent := h.parentName?_eq hi hn hp
  have hpi := h.parent_lt i p hi hp
  by_cases hroot : p = sentinel
  · subst hroot
    exact .inl ⟨hp, hparent⟩
  · have hq := List.getElem?_eq_getElem (Nat.lt_trans hpi hlt)
    refine .inr ⟨p, _, hroot, hpi, hp, hq, ?_⟩
    rw [hparent, actionAt?, if_neg hroot, nodeAt?, hq, Option.map_some]

theorem mem_names_iff :
    name ∈ g.names ↔ ∃ i n, i ≠ sentinel ∧ g.nodes[i]? = some n ∧ n.name = name := by
  simp only [names, List.mem_map, mem_members_iff]
  constructor
  · rintro ⟨n, ⟨i, hi, hn⟩, hname⟩
    exact ⟨i, n, hi, hn, hname⟩
  · rintro ⟨i, n, hi, hn, hname⟩
    exact ⟨n, ⟨i, hi, hn⟩, hname⟩

theorem mem_names_of_parentName? (h : g.WellFormed) {above : String}
    (hname : g.parentName? name = some above) : name ∈ g.names := by
  cases hindex : g.indexOf? name with
  | none =>
    rw [parentName?, parentOf?, hindex] at hname
    cases hname
  | some i =>
    obtain ⟨hi, n, hn, hnn⟩ := (h.indexOf?_eq_some_iff name i).mp hindex
    exact mem_names_iff.mpr ⟨i, n, hi, hn, hnn⟩

theorem names_eq (h : g.WellFormed) :
    g.names = (List.range g.nodes.length).filterMap fun i => (g.actionAt? i).map (·.name) := by
  have hmembers := congrArg (List.map (·.name)) (filterMap_getElem?_range g.members)
  rw [List.map_filterMap] at hmembers
  rw [h.length_eq_size, List.range_succ_eq_map, List.filterMap_cons_none rfl, List.filterMap_map,
    names, ← hmembers, size]
  congr 1
  funext i
  simp [actionAt?, nodeAt?, h.nodes_eq, sentinel]

/-- A test of names that tells the actions below a position from the others picks them in order. -/
theorem filter_names (h : g.WellFormed) {p : Nat} (hp : p < g.nodes.length) {test : String → Bool}
    (htest : ∀ i n, i ≠ sentinel → g.nodes[i]? = some n →
      (test n.name = true ↔ g.parents[i]? = some p)) : g.names.filter test = g.namesUnder p := by
  have hchildren : g.children[p]?.getD [] = childrenIn g.parents p := by
    rw [h.children, childTable_getElem? (by rwa [h.length]), Option.getD_some]
  rw [namesUnder, hchildren, childrenIn, List.filterMap_filter, h.names_eq, List.filter_filterMap,
    h.length]
  apply List.filterMap_congr
  intro i hi
  by_cases hroot : i = sentinel
  · simp [hroot, actionAt?]
  · have hn := List.getElem?_eq_getElem (List.mem_range.mp hi)
    have hiff := htest i _ hroot hn
    by_cases hpi : g.parents[i]? = some p
    · simp [actionAt?, nodeAt?, hroot, hn, hpi, hiff.mpr hpi]
    · simp [actionAt?, nodeAt?, hroot, hn, hpi, Bool.eq_false_iff.mpr (mt hiff.mp hpi)]

theorem topNames_eq (h : g.WellFormed) :
    g.topNames = g.names.filter fun name => g.parentName? name = none := by
  refine (h.filter_names (p := sentinel) h.length_pos fun i n hi hn => ?_).symm
  rcases h.parentName?_cases hi hn with ⟨hp, hparent⟩ | ⟨p, q, hroot, -, hp, -, hparent⟩
  · simp [hp, hparent]
  · simp [hp, hparent, hroot]

theorem childrenOf_eq (h : g.WellFormed) (above : String) :
    g.childrenOf above = g.names.filter fun name => g.parentName? name = some above := by
  cases hindex : g.indexOf? above with
  | none =>
    have hnone : ∀ name ∈ g.names, ¬ g.parentName? name = some above := by
      intro name hname hparent
      obtain ⟨i, n, hi, hn, rfl⟩ := mem_names_iff.mp hname
      rcases h.parentName?_cases hi hn with ⟨-, hnone⟩ | ⟨p, q, hroot, -, -, hq, hsome⟩
      · rw [hparent] at hnone
        cases hnone
      · rw [hparent, Option.some.injEq] at hsome
        have hp := (h.indexOf?_eq_some_iff above p).mpr ⟨hroot, q, hq, hsome.symm⟩
        rw [hindex] at hp
        cases hp
    rw [childrenOf, hindex, List.filter_eq_nil_iff.mpr (by simpa using hnone)]
  | some p =>
    obtain ⟨hroot, q, hq, rfl⟩ := (h.indexOf?_eq_some_iff above p).mp hindex
    have hlt := (List.getElem?_eq_some_iff.mp hq).1
    rw [childrenOf, hindex]
    refine (h.filter_names hlt fun i n hi hn => ?_).symm
    rcases h.parentName?_cases hi hn with ⟨hp, hparent⟩ | ⟨r, x, -, -, hp, hx, hparent⟩
    · simp [hp, hparent, Ne.symm hroot]
    · have hiff : x.name = q.name ↔ r = p := by
        refine ⟨fun hname => h.name_inj hx hq hname, ?_⟩
        rintro rfl
        rw [Option.some.inj (hx.symm.trans hq)]
      simp [hp, hparent, hiff]

/-- Going up from an action ends at the top, before the positions are used up. -/
theorem exists_top_ancestor (h : g.WellFormed) :
    ∀ i n, i ≠ sentinel → g.nodes[i]? = some n →
      ∃ k top, k < i ∧ g.ancestor? k n.name = some top ∧ top ∈ g.topNames := by
  intro i
  induction i using Nat.strongRecOn with
  | ind i ih =>
    intro n hi hn
    rcases h.parentName?_cases hi hn with ⟨-, hparent⟩ | ⟨p, q, hroot, hpi, -, hq, hparent⟩
    · refine ⟨0, n.name, Nat.pos_of_ne_zero hi, rfl, ?_⟩
      rw [h.topNames_eq, List.mem_filter]
      exact ⟨mem_names_iff.mpr ⟨i, n, hi, hn, rfl⟩, by simpa using hparent⟩
    · obtain ⟨k, top, hk, hancestor, htop⟩ := ih p hpi q hroot hq
      refine ⟨k + 1, top, by omega, ?_, htop⟩
      rw [ancestor?, hparent, Option.bind_some, hancestor]

theorem count_names (h : g.WellFormed) (hname : name ∈ g.names) : g.names.count name = 1 :=
  List.count_eq_one_of_mem (List.nodup_cons.mp h.names_nodup).2 hname

theorem count_childrenOf (h : g.WellFormed) (above : String) :
    (g.childrenOf above).count name = if g.parentName? name = some above then 1 else 0 := by
  rw [h.childrenOf_eq]
  split
  · next hparent =>
    rw [List.count_filter (by simpa using hparent),
      h.count_names (h.mem_names_of_parentName? hparent)]
  · next hparent =>
    apply List.count_eq_zero_of_not_mem
    simp [hparent]

/-- An action is among those below some others as often as the action above it is among these. -/
theorem count_flatMap_childrenOf (h : g.WellFormed) (above : List String) :
    (above.flatMap g.childrenOf).count name = (g.parentName? name).elim 0 (above.count ·) := by
  induction above with
  | nil => cases g.parentName? name <;> rfl
  | cons p above ih =>
    rw [List.flatMap_cons, List.count_append, h.count_childrenOf, ih]
    cases g.parentName? name with
    | none => rfl
    | some q =>
      simp only [Option.elim_some, List.count_cons, Option.some.injEq, beq_iff_eq, @eq_comm _ p q]
      omega

end WellFormed

theorem generations_succ (g : Graph) (k : Nat) :
    g.generations (k + 1) = g.topNames ++ (g.generations k).flatMap g.childrenOf := by
  rw [generations, generations, List.range_succ_eq_map, List.flatMap_cons, List.flatMap_map,
    List.flatMap_assoc]
  rfl

namespace WellFormed

/-- After as many steps down as its position tells, an action has been come to once. -/
theorem count_generations (h : g.WellFormed) :
    ∀ i n, i ≠ sentinel → g.nodes[i]? = some n →
      ∀ k, i ≤ k → (g.generations k).count n.name = 1 := by
  intro i
  induction i using Nat.strongRecOn with
  | ind i ih =>
    intro n hi hn k hk
    obtain ⟨k, rfl⟩ := Nat.exists_eq_succ_of_ne_zero (Nat.ne_of_gt (Nat.lt_of_lt_of_le
      (Nat.pos_of_ne_zero hi) hk))
    rw [generations_succ, List.count_append, h.count_flatMap_childrenOf, h.topNames_eq]
    have hone := h.count_names (mem_names_iff.mpr ⟨i, n, hi, hn, rfl⟩)
    rcases h.parentName?_cases hi hn with ⟨-, hparent⟩ | ⟨p, q, hroot, hpi, -, hq, hparent⟩
    · rw [List.count_filter (by simpa using hparent), hone, hparent, Option.elim_none]
    · have htop : n.name ∉ g.names.filter fun name => g.parentName? name = none := by
        simp [hparent]
      rw [List.count_eq_zero_of_not_mem htop, hparent, Option.elim_some,
        ih p hpi q hroot hq k (by omega)]

theorem generations_subset (h : g.WellFormed) (k : Nat) : g.generations k ⊆ g.names := by
  intro name hname
  cases k with
  | zero => cases hname
  | succ k =>
    rw [generations_succ, h.topNames_eq] at hname
    rcases List.mem_append.mp hname with htop | hbelow
    · exact (List.mem_filter.mp htop).1
    · obtain ⟨above, -, hchild⟩ := List.mem_flatMap.mp hbelow
      rw [h.childrenOf_eq] at hchild
      exact (List.mem_filter.mp hchild).1

theorem generations_perm (h : g.WellFormed) {k : Nat} (hk : g.size ≤ k) :
    (g.generations k).Perm g.names := by
  rw [List.perm_iff_count]
  intro name
  by_cases hname : name ∈ g.names
  · rw [h.count_names hname]
    obtain ⟨i, n, hi, hn, rfl⟩ := mem_names_iff.mp hname
    exact h.count_generations i n hi hn k (Nat.le_trans (h.le_size hn) hk)
  · rw [List.count_eq_zero_of_not_mem hname,
      List.count_eq_zero_of_not_mem fun hmem => hname (h.generations_subset k hmem)]

/-- One more generation would hold an action twice. -/
theorem generation_size (h : g.WellFormed) : g.generation g.size = [] := by
  have hall := (h.generations_perm (Nat.le_refl g.size)).length_eq
  have hmore := (h.generations_perm (Nat.le_succ g.size)).length_eq
  rw [generations, List.range_succ, List.flatMap_append, List.length_append, List.flatMap_singleton,
    ← generations, hall] at hmore
  exact List.length_eq_zero_iff.mp (Nat.add_eq_left.mp hmore)

theorem toFields_getElem? (h : g.WellFormed) {i : Nat} {name : String} {v : Json} :
    g.toFields[i]? = some (name, v) ↔
      ∃ n, g.nodes[i + 1]? = some n ∧ n.name = name ∧ n.toJson = v := by
  rw [h.toFields_eq, memberFields_eq, List.getElem?_map, h.nodes_eq, List.getElem?_cons_succ,
    Option.map_eq_some_iff]
  simp only [Prod.mk.injEq]

/-- The gate of an action is exported under the name of the action above it. -/
theorem keys_runAfterFields (h : g.WellFormed) {i : Nat} {n : Node} (hi : i ≠ sentinel)
    (hn : g.nodes[i]? = some n) : n.runAfterFields.keys = (g.parentName? n.name).toList := by
  obtain ⟨p, hp⟩ := h.exists_parent (List.getElem?_eq_some_iff.mp hn).1
  rw [h.parentName?_eq hi hn hp]
  obtain ⟨-, ⟨hroot, hrun⟩ | ⟨hroot, q, mode, hq, hrun⟩⟩ := h.gated i n p hi hn hp
  · simp [Node.runAfterFields, hrun, actionAt?, hroot, Fields.keys]
  · simp [Node.runAfterFields, hrun, actionAt?, hroot, nodeAt?, hq, Fields.keys]

end WellFormed

/-- The exports of a graph, what is above an action in it and what is below one describe the same
forest, which holds all of its actions. -/
structure IsForest (g : Graph) : Prop where
  length : g.toFields.length = g.size
  keys : g.toFields.keys = g.names
  names_nodup : g.names.Nodup
  reserved_not_mem : reservedName ∉ g.names
  /-- An entry runs after nothing or after one entry before it, which is the action above it. -/
  runAfter : ∀ (i : Nat) (name : String) (v : Json), g.toFields[i]? = some (name, v) →
    ∃ after : Fields, v.lookup ["runAfter"] = some (.object after) ∧
      after.keys = (g.parentName? name).toList ∧
      ∀ above ∈ after.keys, ∃ j w, j < i ∧ g.toFields[j]? = some (above, w)
  childrenOf : ∀ above,
    g.childrenOf above = g.names.filter fun name => g.parentName? name = some above
  topNames : g.topNames = g.names.filter fun name => g.parentName? name = none
  /-- Going down from the top ends, and has come to every action once. -/
  generations : (g.generations g.size).Perm g.names ∧ g.generation g.size = []
  ancestors : ∀ name ∈ g.names,
    ∃ k top, k < g.size ∧ g.ancestor? k name = some top ∧ top ∈ g.topNames

theorem Reachable.isForest {P : Node → Prop} (h : g.Reachable P)
    (hslots : ∀ n ∈ g.members, n.IsUnreserved) : g.IsForest := by
  have hw := h.wellFormed
  have hnames := List.nodup_cons.mp hw.names_nodup
  constructor
  case length => rw [hw.toFields_eq, memberFields_eq, List.length_map, size]
  case keys => rw [hw.toFields_eq, keys_memberFields, names]
  case names_nodup => exact hnames.2
  case reserved_not_mem => exact hnames.1
  case runAfter =>
    intro i name v hv
    obtain ⟨n, hn, rfl, rfl⟩ := hw.toFields_getElem?.mp hv
    have hi : i + 1 ≠ sentinel := Nat.succ_ne_zero i
    have hkeys := hw.keys_runAfterFields hi hn
    refine ⟨n.runAfterFields, ?_, hkeys, ?_⟩
    · have hfields := Node.toFields_eq (hslots n (mem_members_iff.mpr ⟨i + 1, hi, hn⟩))
      rw [Node.toJson, Json.lookup, hfields]
      rfl
    · intro above habove
      rw [hkeys, Option.mem_toList] at habove
      rcases hw.parentName?_cases hi hn with ⟨-, hparent⟩ | ⟨p, q, hroot, hpi, -, hq, hparent⟩
      · rw [hparent] at habove
        cases habove
      · obtain ⟨j, rfl⟩ := Nat.exists_eq_succ_of_ne_zero hroot
        obtain rfl := Option.some.inj (hparent.symm.trans habove)
        exact ⟨j, q.toJson, Nat.succ_lt_succ_iff.mp hpi,
          hw.toFields_getElem?.mpr ⟨q, hq, rfl, rfl⟩⟩
  case childrenOf => exact hw.childrenOf_eq
  case topNames => exact hw.topNames_eq
  case generations => exact ⟨hw.generations_perm (Nat.le_refl _), hw.generation_size⟩
  case ancestors =>
    intro name hname
    obtain ⟨i, n, hi, hn, rfl⟩ := WellFormed.mem_names_iff.mp hname
    obtain ⟨k, top, hk, hancestor, htop⟩ := hw.exists_top_ancestor i n hi hn
    exact ⟨k, top, Nat.lt_of_lt_of_le hk (hw.le_size hn), hancestor, htop⟩

theorem twoSteps_scopeAndStep_isForest :
    ((twoSteps.merge scopeAndStep).run {}).1.Reachable Node.Made ∧
      (∀ n ∈ ((twoSteps.merge scopeAndStep).run {}).1.members, n.IsUnreserved) ∧
      ((twoSteps.merge scopeAndStep).run {}).1.generation 2 = ["Scope"] ∧
      ((twoSteps.merge scopeAndStep).run {}).1.IsForest := by
  have h := twoSteps_reachable.merge {} scopeAndStep_reachable
  have hslots : ∀ n ∈ ((twoSteps.merge scopeAndStep).run {}).1.members, n.IsUnreserved := by
    unfold Node.IsUnreserved
    decide
  exact ⟨h, hslots, by decide, Reachable.isForest h hslots⟩

end Graph

end Workflow
