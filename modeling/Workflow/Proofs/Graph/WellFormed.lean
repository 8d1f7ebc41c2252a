import Mathlib.Data.List.Induction
import Mathlib.Data.List.Nodup
import Workflow.Graph.Copy
import Workflow.Proofs.FreeName

/-!
# Well-formed graphs

The members of a graph and the positions under which they hang determine all else that a graph
keeps: the positions below a member and the positions of names are tables made from them, and the
last member is the one put in last. A graph in which that is so, in which members hang under earlier
ones and are gated accordingly, is well-formed. Putting in one more action keeps it so, whatever the
action is.
-/

set_option autoImplicit false

namespace Workflow

theorem getElem?_concat_iff {α : Type} {xs : List α} {x y : α} {i : Nat} :
    (xs ++ [x])[i]? = some y ↔ xs[i]? = some y ∨ (i = xs.length ∧ x = y) := by
  rw [List.getElem?_append]
  by_cases hlt : i < xs.length
  · have hne : i ≠ xs.length := Nat.ne_of_lt hlt
    simp [hlt, hne]
  · rw [if_neg hlt, List.getElem?_singleton, List.getElem?_eq_none (Nat.le_of_not_lt hlt)]
    by_cases heq : i = xs.length
    · simp [heq]
    · have hsub : i - xs.length ≠ 0 := by omega
      simp [heq, hsub]

/-- The positions directly below a position, as a list of parents tells. -/
def childrenIn (parents : List Nat) (p : Nat) : List Nat :=
  (List.range parents.length).filter fun i => i ≠ sentinel ∧ parents[i]? = some p

def childTable (parents : List Nat) : List (List Nat) :=
  (List.range parents.length).map (childrenIn parents)

def nameTable (names : List String) : Registry := ⟨names.zipIdx.reverse⟩

theorem mem_childrenIn {parents : List Nat} {p i : Nat} :
    i ∈ childrenIn parents p ↔ i ≠ sentinel ∧ parents[i]? = some p := by
  simp only [childrenIn, List.mem_filter, List.mem_range, decide_eq_true_eq]
  constructor
  · exact fun h => h.2
  · intro h
    exact ⟨(List.getElem?_eq_some_iff.mp h.2).1, h⟩

theorem childrenIn_sorted (parents : List Nat) (p : Nat) :
    (childrenIn parents p).Pairwise (· < ·) :=
  List.pairwise_lt_range.filter _

theorem childrenIn_append {parents : List Nat} (hne : parents ≠ []) (p q : Nat) :
    childrenIn (parents ++ [p]) q =
      childrenIn parents q ++ if p = q then [parents.length] else [] := by
  have hpos : parents.length ≠ sentinel := by
    intro h
    exact hne (List.length_eq_zero_iff.mp h)
  have hlast : (parents ++ [p])[parents.length]? = some p := by simp
  have hold : (List.range parents.length).filter
        (fun i => i ≠ sentinel ∧ (parents ++ [p])[i]? = some q) = childrenIn parents q := by
    apply List.filter_congr
    intro i hi
    rw [List.getElem?_append_left (List.mem_range.mp hi)]
  unfold childrenIn at hold ⊢
  rw [List.length_append, List.length_singleton, List.range_succ, List.filter_append, hold,
    List.filter_singleton, hlast]
  by_cases hpq : p = q <;> simp [hpq, hpos]

theorem childrenIn_eq_nil {parents : List Nat} {q : Nat}
    (h : ∀ (i r : Nat), parents[i]? = some r → r ≠ q) : childrenIn parents q = [] := by
  apply List.eq_nil_iff_forall_not_mem.mpr
  intro i hi
  exact h i q (mem_childrenIn.mp hi).2 rfl

theorem childTable_getElem? {parents : List Nat} {p : Nat} (hp : p < parents.length) :
    (childTable parents)[p]? = some (childrenIn parents p) := by
  simp [childTable, hp]

theorem childTable_append {parents : List Nat} {p : Nat} (hp : p < parents.length)
    (hlt : ∀ (i q : Nat), parents[i]? = some q → q < parents.length) :
    childTable (parents ++ [p]) = (childTable parents ++ [[]]).modify p (· ++ [parents.length]) := by
  have hne : parents ≠ [] := by
    rintro rfl
    exact absurd hp (Nat.not_lt_zero _)
  have hnew : childrenIn parents parents.length = [] := by
    apply childrenIn_eq_nil
    intro i r hr
    have := hlt i r hr
    omega
  have htable : childTable parents ++ [[]] =
      (List.range (parents.length + 1)).map (childrenIn parents) := by
    rw [List.range_succ, List.map_append, List.map_singleton, hnew]
    rfl
  apply List.ext_getElem?
  intro q
  rw [htable, List.getElem?_modify]
  simp only [childTable, List.length_append, List.length_singleton, List.getElem?_map]
  cases hrange : (List.range (parents.length + 1))[q]? with
  | none => rfl
  | some r =>
    have hqr : q = r := by
      obtain ⟨_, hq⟩ := List.getElem?_eq_some_iff.mp hrange
      simpa using hq
    subst hqr
    simp only [Option.map_some, childrenIn_append hne]
    by_cases hpq : p = q <;> simp [hpq]

theorem nameTable_append (names : List String) (name : String) :
    nameTable (names ++ [name]) = (nameTable names).insert name names.length := by
  simp [nameTable, Registry.insert, List.zipIdx_append]

theorem mem_nameTable_names (names : List String) (name : String) :
    name ∈ (nameTable names).names ↔ name ∈ names := by
  simp [nameTable, Registry.names, List.map_reverse]

theorem Registry.get?_insert (r : Registry) (name other : String) (i : Nat) :
    (r.insert name i).get? other = if other = name then some i else r.get? other := by
  simp only [Registry.get?, Registry.insert, List.lookup_cons]
  split
  · next h => rw [if_pos (beq_iff_eq.mp h)]
  · next h => rw [if_neg (beq_eq_false_iff_ne.mp h)]

/-- In a registry of distinct names every name has its position, and no other name has one. -/
theorem nameTable_get? {names : List String} (h : names.Nodup) (name : String) (i : Nat) :
    (nameTable names).get? name = some i ↔ names[i]? = some name := by
  induction names using List.reverseRecOn with
  | nil => simp [nameTable, Registry.get?]
  | append_singleton names x ih =>
    obtain ⟨hold, -, hx⟩ := List.nodup_append.mp h
    rw [nameTable_append, Registry.get?_insert, getElem?_concat_iff]
    by_cases hname : name = x
    · subst hname
      have hnot : names[i]? ≠ some name := by
        intro hi
        exact hx name (List.mem_of_getElem? hi) name (List.mem_singleton_self _) rfl
      simp only [if_pos, hnot, false_or, Option.some.injEq, and_true]
      exact eq_comm
    · rw [if_neg hname, ih hold]
      have hne : ¬ x = name := fun hx => hname hx.symm
      simp [hne]

namespace Graph

theorem mem_members_iff {g : Graph} {n : Node} :
    n ∈ g.members ↔ ∃ i, i ≠ sentinel ∧ g.nodes[i]? = some n := by
  rw [members, List.mem_iff_getElem?]
  constructor
  · rintro ⟨i, hi⟩
    rw [List.getElem?_tail] at hi
    exact ⟨i + 1, Nat.succ_ne_zero i, hi⟩
  · rintro ⟨i, hi, hn⟩
    obtain ⟨i, rfl⟩ := Nat.exists_eq_succ_of_ne_zero hi
    exact ⟨i, by rwa [List.getElem?_tail]⟩

theorem entries_getElem? {g : Graph} {i p : Nat} {n : Node} (hn : g.nodes[i + 1]? = some n)
    (hp : g.parents[i + 1]? = some p) : g.entries[i]? = some ⟨n, p⟩ := by
  have hzip : (g.nodes.zip g.parents)[i + 1]? = some (n, p) :=
    List.getElem?_zip_eq_some.mpr ⟨hn, hp⟩
  rw [entries, List.getElem?_map, List.getElem?_tail, hzip]
  rfl

theorem names_getElem? (g : Graph) (i : Nat) : g.names[i]? = g.nodes[i + 1]?.map (·.name) := by
  rw [names, members, List.getElem?_map, List.getElem?_tail]

/-- An action that hangs under a position is attached and gated by what stands there: by nothing at
the top, and otherwise by that action under its name and with the states of a run mode. -/
def Gated (g : Graph) (n : Node) (p : Nat) : Prop :=
  n.isAttached = true ∧
    ((p = sentinel ∧ n.runAfter = []) ∨
      (p ≠ sentinel ∧ ∃ q mode, g.nodes[p]? = some q ∧
        n.runAfter = [(q.name, RunMode.states mode)]))

structure WellFormed (g : Graph) : Prop where
  root : g.nodes[sentinel]? = some Node.root
  length : g.parents.length = g.nodes.length
  parent_root : g.parents[sentinel]? = some sentinel
  parent_lt : ∀ i p, i ≠ sentinel → g.parents[i]? = some p → p < i
  children : g.children = childTable g.parents
  nodup : (g.nodes.map (·.name)).Nodup
  registry : g.registry = nameTable (g.nodes.map (·.name))
  last : g.lastAppended + 1 = g.nodes.length
  gated : ∀ i n p, i ≠ sentinel → g.nodes[i]? = some n → g.parents[i]? = some p → g.Gated n p

theorem empty_wellFormed (isRoot : Bool) (source : IdSource) : (empty isRoot source).WellFormed where
  root := rfl
  length := rfl
  parent_root := rfl
  parent_lt := by
    intro i p hi hp
    cases i with
    | zero => exact absurd rfl hi
    | succ i => simp [empty] at hp
  children := rfl
  nodup := List.nodup_singleton _
  registry := rfl
  last := rfl
  gated := by
    intro i n p hi hn hp
    cases i with
    | zero => exact absurd rfl hi
    | succ i => simp [empty] at hp

namespace WellFormed
variable {g : Graph}

theorem parent_lt_length (h : g.WellFormed) {i p : Nat} (hp : g.parents[i]? = some p) :
    p < g.parents.length := by
  have hi := (List.getElem?_eq_some_iff.mp hp).1
  by_cases hroot : i = sentinel
  · subst hroot
    rw [h.parent_root, Option.some.injEq] at hp
    subst hp
    exact hi
  · exact Nat.lt_trans (h.parent_lt i p hroot hp) hi

theorem length_pos (h : g.WellFormed) : 0 < g.nodes.length :=
  (List.getElem?_eq_some_iff.mp h.root).1

theorem last_lt (h : g.WellFormed) : g.lastAppended < g.nodes.length := by
  have := h.last
  omega

theorem exists_parent (h : g.WellFormed) {i : Nat} (hi : i < g.nodes.length) :
    ∃ p, g.parents[i]? = some p := by
  rw [← h.length] at hi
  exact ⟨_, List.getElem?_eq_getElem hi⟩

theorem length_eq_size (h : g.WellFormed) : g.nodes.length = g.size + 1 := by
  have := h.length_pos
  simp only [size, members, List.length_tail]
  omega

theorem entries_length (h : g.WellFormed) : g.entries.length = g.size := by
  have hlength := h.length
  have hsize := h.length_eq_size
  simp only [entries, List.length_map, List.length_tail, List.length_zip]
  omega

theorem le_size (h : g.WellFormed) {i : Nat} {n : Node} (hn : g.nodes[i]? = some n) :
    i ≤ g.size := by
  have hi := (List.getElem?_eq_some_iff.mp hn).1
  rw [h.length_eq_size] at hi
  exact Nat.le_of_lt_succ hi

theorem lastAppended_eq_size (h : g.WellFormed) : g.lastAppended = g.size := by
  have hlast := h.last
  rw [h.length_eq_size] at hlast
  exact Nat.succ.inj hlast

/-- Names tell positions apart, that of the sentinel included. -/
theorem name_inj (h : g.WellFormed) {i j : Nat} {n m : Node} (hn : g.nodes[i]? = some n)
    (hm : g.nodes[j]? = some m) (hname : n.name = m.name) : i = j := by
  have hi := (List.getElem?_eq_some_iff.mp hn).1
  apply (List.getElem?_inj (by rwa [List.length_map]) h.nodup).mp
  rw [List.getElem?_map, List.getElem?_map, hn, hm, Option.map_some, Option.map_some, hname]

theorem mem_registry_names (h : g.WellFormed) (name : String) :
    name ∈ g.registry.names ↔ name ∈ g.nodes.map (·.name) := by
  rw [h.registry, mem_nameTable_names]

theorem freeName_not_mem (h : g.WellFormed) (name : String) :
    g.freeName name ∉ g.nodes.map (·.name) := by
  rw [← h.mem_registry_names]
  exact firstFree_not_mem _ _

theorem registry_get? (h : g.WellFormed) (name : String) (i : Nat) :
    g.registry.get? name = some i ↔ ∃ n, g.nodes[i]? = some n ∧ n.name = name := by
  rw [h.registry, nameTable_get? h.nodup, List.getElem?_map, Option.map_eq_some_iff]

theorem indexOf?_eq_some_iff (h : g.WellFormed) (name : String) (i : Nat) :
    g.indexOf? name = some i ↔ i ≠ sentinel ∧ ∃ n, g.nodes[i]? = some n ∧ n.name = name := by
  rw [indexOf?, Option.filter_eq_some_iff, h.registry_get?, decide_eq_true_eq]
  exact And.comm

theorem exists_indexOf? (h : g.WellFormed) (name : String) :
    (∃ p, g.indexOf? name = some p) ↔ name ∈ g.names := by
  simp only [h.indexOf?_eq_some_iff, names, List.mem_map, mem_members_iff]
  constructor
  · rintro ⟨p, hp, m, hm, hname⟩
    exact ⟨m, ⟨p, hp, hm⟩, hname⟩
  · rintro ⟨m, ⟨p, hp, hm⟩, hname⟩
    exact ⟨p, hp, m, hm, hname⟩

end WellFormed

section Link
variable (g : Graph) (n : Node) (p : Nat) (states : List State)

@[simp] theorem link_nodes : (g.link n p states).nodes = g.nodes ++ [g.placed n p states] := rfl

@[simp] theorem link_parents : (g.link n p states).parents = g.parents ++ [p] := rfl

@[simp] theorem placed_name : (g.placed n p states).name = g.freeName n.name := rfl

theorem link_names : (g.link n p states).nodes.map (·.name) =
    g.nodes.map (·.name) ++ [g.freeName n.name] := by
  rw [link_nodes, List.map_append, List.map_singleton, placed_name]

end Link

theorem Gated.link {g : Graph} {n : Node} {p : Nat} (h : g.Gated n p) (m : Node) (q : Nat)
    (states : List State) : (g.link m q states).Gated n p := by
  obtain ⟨hatt, htop | ⟨hp, x, mode, hx, hrun⟩⟩ := h
  · exact ⟨hatt, Or.inl htop⟩
  · refine ⟨hatt, Or.inr ⟨hp, x, mode, ?_, hrun⟩⟩
    rw [link_nodes, getElem?_concat_iff]
    exact Or.inl hx

theorem placed_gated {g : Graph} {p : Nat} {states : List State} (n : Node)
    (hp : p < g.nodes.length) (hs : p ≠ sentinel → ∃ mode, states = RunMode.states mode) :
    g.Gated (g.placed n p states) p := by
  refine ⟨rfl, ?_⟩
  by_cases hroot : p = sentinel
  · refine Or.inl ⟨hroot, ?_⟩
    simp [placed, Node.attach, actionAt?, hroot]
  · obtain ⟨mode, rfl⟩ := hs hroot
    refine Or.inr ⟨hroot, g.nodes[p], mode, List.getElem?_eq_getElem hp, ?_⟩
    simp [placed, Node.attach, actionAt?, nodeAt?, hroot, hp]

theorem WellFormed.link {g : Graph} (h : g.WellFormed) (n : Node) {p : Nat} {states : List State}
    (hp : p < g.nodes.length) (hs : p ≠ sentinel → ∃ mode, states = RunMode.states mode) :
    (g.link n p states).WellFormed where
  root := by
    rw [link_nodes, getElem?_concat_iff]
    exact Or.inl h.root
  length := by simp [h.length]
  parent_root := by
    rw [link_parents, getElem?_concat_iff]
    exact Or.inl h.parent_root
  parent_lt := by
    intro i q hi hq
    rw [link_parents, getElem?_concat_iff] at hq
    rcases hq with hq | ⟨rfl, rfl⟩
    · exact h.parent_lt i q hi hq
    · rwa [h.length]
  children := by
    have hp' : p < g.parents.length := by rwa [h.length]
    rw [link_parents, childTable_append hp' fun _ _ => h.parent_lt_length, h.length, ← h.children]
    rfl
  nodup := by
    rw [link_names]
    have hfree := h.freeName_not_mem n.name
    exact List.nodup_append.mpr ⟨h.nodup, List.nodup_singleton _, by
      intro a ha b hb hab
      rw [List.mem_singleton] at hb
      rw [hab, hb] at ha
      exact hfree ha⟩
  registry := by
    rw [link_names, nameTable_append, ← h.registry, List.length_map]
    rfl
  last := by simp [Graph.link]
  gated := by
    intro i m q hi hm hq
    rw [link_nodes, getElem?_concat_iff] at hm
    rw [link_parents, getElem?_concat_iff] at hq
    rcases hm with hm | ⟨him, rfl⟩
    · have hilt := (List.getElem?_eq_some_iff.mp hm).1
      rcases hq with hq | ⟨hiq, -⟩
      · exact (h.gated i m q hi hm hq).link n p states
      · rw [h.length] at hiq
        omega
    · rcases hq with hq | ⟨-, rfl⟩
      · have hilt := (List.getElem?_eq_some_iff.mp hq).1
        rw [h.length] at hilt
        omega
      · exact (placed_gated n hp hs).link n p states

/-- A change of members keeps the name of each one, and after which one it runs. -/
structure KeepsPlaces (f : Nat → Node → Node) : Prop where
  root : f sentinel Node.root = Node.root
  name : ∀ i n, (f i n).name = n.name
  runAfter : ∀ i n, (f i n).runAfter = n.runAfter
  isAttached : ∀ i n, (f i n).isAttached = n.isAttached

theorem KeepsPlaces.names {f : Nat → Node → Node} (hf : KeepsPlaces f) {nodes nodes' : List Node}
    (hnodes : ∀ i : Nat, nodes'[i]? = nodes[i]?.map (f i)) :
    nodes'.map (·.name) = nodes.map (·.name) := by
  apply List.ext_getElem?
  intro i
  rw [List.getElem?_map, List.getElem?_map, hnodes, Option.map_map]
  congr 1
  funext n
  exact hf.name i n

theorem WellFormed.change {g g' : Graph} (h : g.WellFormed) {f : Nat → Node → Node}
    (hf : KeepsPlaces f) (hnodes : ∀ i : Nat, g'.nodes[i]? = g.nodes[i]?.map (f i))
    (hparents : g'.parents = g.parents) (hchildren : g'.children = g.children)
    (hregistry : g'.registry = g.registry) (hlast : g'.lastAppended = g.lastAppended) :
    g'.WellFormed := by
  have hnames := hf.names hnodes
  have hlength : g'.nodes.length = g.nodes.length := by
    simpa using congrArg List.length hnames
  constructor
  case root => rw [hnodes, h.root, Option.map_some, hf.root]
  case length => rw [hparents, hlength, h.length]
  case parent_root => rw [hparents, h.parent_root]
  case parent_lt =>
    rw [hparents]
    exact h.parent_lt
  case children => rw [hchildren, hparents, h.children]
  case nodup =>
    rw [hnames]
    exact h.nodup
  case registry => rw [hregistry, hnames, h.registry]
  case last => rw [hlast, hlength, h.last]
  case gated =>
    intro i n p hi hn hp
    rw [hparents] at hp
    rw [hnodes, Option.map_eq_some_iff] at hn
    obtain ⟨m, hm, rfl⟩ := hn
    obtain ⟨hatt, hgate⟩ := h.gated i m p hi hm hp
    refine ⟨(hf.isAttached i m).trans hatt, ?_⟩
    rw [hf.runAfter]
    rcases hgate with htop | ⟨hne, q, mode, hq, hrun⟩
    · exact Or.inl htop
    · refine Or.inr ⟨hne, f p q, mode, ?_, ?_⟩
      · rw [hnodes, hq, Option.map_some]
      · rw [hf.name, hrun]

end Graph

end Workflow
