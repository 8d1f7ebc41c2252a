import Workflow.Proofs.Graph.WellFormed

/-!
# Copies of members put into a graph

Members of a well-formed graph `b` are copied and put into a well-formed graph one after the other.
After `k` of them the graph begins as it did, and behind that stand the images of the first `k`
members: each one a copy under its first free name, below the image of the position under which the
member hangs. What is nested in the members is not looked at here.
-/

set_option autoImplicit false

namespace Workflow

def IsCopy (n c : Node) : Prop := ∃ source s, c = ((n.copy source).run s).1

theorem Node.copy_run (source : IdSource) (n : Node) (s : Supply) :
    (n.copy source).run s =
      (⟨source.spell (s.count source.key), n.name, n.kind, n.payload,
        ((copySlots n.slots).run (s.advance source.key)).1, [], false⟩,
        ((copySlots n.slots).run (s.advance source.key)).2) := by
  cases n
  rfl

theorem IsCopy.eq {n c : Node} (h : IsCopy n c) :
    ∃ id slots, c = ⟨id, n.name, n.kind, n.payload, slots, [], false⟩ := by
  obtain ⟨source, s, rfl⟩ := h
  exact ⟨_, _, congrArg Prod.fst (Node.copy_run source n s)⟩

theorem IsCopy.name {n c : Node} (h : IsCopy n c) : c.name = n.name := by
  obtain ⟨id, slots, rfl⟩ := h.eq
  rfl

namespace Graph

/-- At a position stands a copy of `n` under its first free name, hanging under `p`. -/
def Shows (g : Graph) (i : Nat) (n : Node) (p : Nat) (states : List State) : Prop :=
  ∃ c name, IsCopy n c ∧ IsFirstFree ((g.nodes.take i).map (·.name)) n.name name ∧
    g.parents[i]? = some p ∧
    g.nodes[i]? = some (Node.attach { c with name } ((g.actionAt? p).map (·.name)) states)

theorem Shows.parent {g : Graph} {i p : Nat} {n : Node} {states : List State}
    (h : g.Shows i n p states) : g.parents[i]? = some p := by
  obtain ⟨_, _, _, _, hparent, _⟩ := h
  exact hparent

theorem actionAt?_link {g : Graph} {p : Nat} (hp : p < g.nodes.length) (n : Node) (q : Nat)
    (states : List State) : (g.link n q states).actionAt? p = g.actionAt? p := by
  simp only [actionAt?, nodeAt?, link_nodes, List.getElem?_append_left hp]

theorem Shows.link {g : Graph} {i p : Nat} {n : Node} {states : List State}
    (h : g.Shows i n p states) (hp : p < g.nodes.length) (m : Node) (q : Nat)
    (states' : List State) : (g.link m q states').Shows i n p states := by
  obtain ⟨c, name, hc, hfree, hparent, hnode⟩ := h
  have hi := (List.getElem?_eq_some_iff.mp hnode).1
  refine ⟨c, name, hc, ?_, ?_, ?_⟩
  · rwa [link_nodes, List.take_append_of_le_length (Nat.le_of_lt hi)]
  · rw [link_parents, getElem?_concat_iff]
    exact Or.inl hparent
  · rw [actionAt?_link hp, link_nodes, getElem?_concat_iff]
    exact Or.inl hnode

theorem WellFormed.link_shows {g : Graph} (h : g.WellFormed) {n c : Node} (hc : IsCopy n c) {p : Nat}
    (hp : p < g.nodes.length) (states : List State) :
    (g.link c p states).Shows g.nodes.length n p states := by
  refine ⟨c, g.freeName c.name, hc, ?_, ?_, ?_⟩
  · rw [link_nodes, List.take_left, ← hc.name]
    exact (firstFree_isFirst _ _).congr h.mem_registry_names
  · rw [link_parents, ← h.length]
    exact List.getElem?_concat_length
  · rw [actionAt?_link hp, link_nodes]
    exact List.getElem?_concat_length

/-- The position of the image of a member; the sentinel's is the anchor. -/
def imageAt (base : Graph) (anchor j : Nat) : Nat :=
  if j = sentinel then anchor else base.size + j

/-- The state of a graph that was `base` and got copies of the first `k` members of `b`. -/
structure Spliced (base : Graph) (anchor : Nat) (b : Graph) (k : Nat) (g : Graph) : Prop where
  wellFormed : g.WellFormed
  isRoot : g.isRoot = base.isRoot
  source : g.source = base.source
  length : g.nodes.length = base.nodes.length + k
  kept : ∀ i, i < base.nodes.length → g.nodes[i]? = base.nodes[i]?
  kept_parents : ∀ i, i < base.nodes.length → g.parents[i]? = base.parents[i]?
  image : ∀ j n p, j ≠ sentinel → j ≤ k → b.nodes[j]? = some n → b.parents[j]? = some p →
    g.Shows (base.size + j) n (base.imageAt anchor p) (n.gateBelow p (base.imageAt anchor p))

variable {base b : Graph} {anchor : Nat}

theorem spliced_zero (anchor : Nat) (b : Graph) (hbase : base.WellFormed) :
    Spliced base anchor b 0 base where
  wellFormed := hbase
  isRoot := rfl
  source := rfl
  length := rfl
  kept := fun _ _ => rfl
  kept_parents := fun _ _ => rfl
  image := fun _ _ _ hj hk _ _ => absurd (Nat.le_zero.mp hk) hj

theorem Spliced.imageAt_lt {k : Nat} {g : Graph} (h : Spliced base anchor b k g)
    (hbase : base.WellFormed) (hanchor : anchor < base.nodes.length) {p : Nat} (hp : p ≤ k) :
    base.imageAt anchor p < g.nodes.length := by
  have hlen := h.length
  have hsize := hbase.length_eq_size
  unfold imageAt
  split <;> omega

theorem Spliced.position_cases {k : Nat} {g : Graph} (h : Spliced base anchor b k g)
    (hbase : base.WellFormed) {i : Nat} (hi : i < g.nodes.length) :
    i < base.nodes.length ∨ ∃ j, j ≠ sentinel ∧ j ≤ k ∧ i = base.size + j := by
  have hlen := h.length
  have hsize := hbase.length_eq_size
  by_cases hib : i < base.nodes.length
  · exact Or.inl hib
  · have hpos : i - base.size ≠ 0 := by omega
    exact Or.inr ⟨i - base.size, hpos, by omega, by omega⟩

theorem WellFormed.gateBelow_eq (hb : b.WellFormed) {j p : Nat} {n : Node} (hj : j ≠ sentinel)
    (hn : b.nodes[j]? = some n) (hp : b.parents[j]? = some p) {parent : Nat}
    (hparent : parent ≠ sentinel) : ∃ mode, n.gateBelow p parent = RunMode.states mode := by
  unfold Node.gateBelow
  rw [if_neg hparent]
  by_cases hroot : p = sentinel
  · exact ⟨.normal, if_pos hroot⟩
  · rw [if_neg hroot]
    obtain ⟨-, ⟨htop, -⟩ | ⟨-, q, mode, -, hrun⟩⟩ := hb.gated j n p hj hn hp
    · exact absurd htop hroot
    · exact ⟨mode, by simp [Node.gate, hrun]⟩

theorem Spliced.step {k : Nat} {g : Graph} (h : Spliced base anchor b k g)
    (hbase : base.WellFormed) (hb : b.WellFormed) (hanchor : anchor < base.nodes.length)
    {n c : Node} {p : Nat} (hn : b.nodes[k + 1]? = some n) (hp : b.parents[k + 1]? = some p)
    (hc : IsCopy n c) :
    Spliced base anchor b (k + 1) (g.link c (base.imageAt anchor p)
      (n.gateBelow p (base.imageAt anchor p))) := by
  have hle : ∀ j q, j ≠ sentinel → j ≤ k + 1 → b.parents[j]? = some q →
      base.imageAt anchor q < g.nodes.length := by
    intro j q hj hjk hq
    have := hb.parent_lt j q hj hq
    exact h.imageAt_lt hbase hanchor (by omega)
  have hlt := hle (k + 1) p (Nat.succ_ne_zero k) (Nat.le_refl _) hp
  have hlen := h.length
  constructor
  case wellFormed =>
    exact h.wellFormed.link c hlt fun hne => hb.gateBelow_eq (Nat.succ_ne_zero k) hn hp hne
  case isRoot => exact h.isRoot
  case source => exact h.source
  case length =>
    rw [link_nodes, List.length_append, List.length_singleton, hlen]
    omega
  case kept =>
    intro i hi
    rw [link_nodes, List.getElem?_append_left (by omega), h.kept i hi]
  case kept_parents =>
    intro i hi
    have hpl := h.wellFormed.length
    rw [link_parents, List.getElem?_append_left (by omega), h.kept_parents i hi]
  case image =>
    intro j m q hj hjk hm hq
    by_cases hjl : j ≤ k
    · exact (h.image j m q hj hjl hm hq).link (hle j q hj hjk hq) _ _ _
    · have hje : j = k + 1 := by omega
      subst hje
      obtain rfl : n = m := Option.some.inj (hn.symm.trans hm)
      obtain rfl : p = q := Option.some.inj (hp.symm.trans hq)
      have hsize := hbase.length_eq_size
      have hpos : base.size + (k + 1) = g.nodes.length := by omega
      rw [hpos]
      exact h.wellFormed.link_shows hc hlt _

def images (base : Graph) (anchor k : Nat) : List Nat :=
  anchor :: List.range' base.nodes.length k

theorem images_length (base : Graph) (anchor k : Nat) :
    (base.images anchor k).length = k + 1 := by
  simp [images]

theorem images_succ (base : Graph) (anchor k : Nat) :
    base.images anchor k ++ [base.nodes.length + k] = base.images anchor (k + 1) := by
  simp [images, List.range'_concat]

theorem images_getD (hbase : base.WellFormed) {k p : Nat} (hp : p ≤ k) :
    (base.images anchor k).getD p anchor = base.imageAt anchor p := by
  cases p with
  | zero => rfl
  | succ p =>
    have hlen : p < (List.range' base.nodes.length k).length := by
      rw [List.length_range']
      exact hp
    have hne : p + 1 ≠ sentinel := Nat.succ_ne_zero p
    rw [images, List.getD_cons_succ, List.getD_eq_getElem?_getD, List.getElem?_eq_getElem hlen,
      Option.getD_some, List.getElem_range', imageAt, if_neg hne, hbase.length_eq_size]
    omega

/-- All members behind the first `k` are put in one after the other. -/
theorem Spliced.run (hbase : base.WellFormed) (hb : b.WellFormed)
    (hanchor : anchor < base.nodes.length) (rest : List Node) :
    ∀ {k : Nat} {g : Graph} (s : Supply), Spliced base anchor b k g →
      b.nodes.drop (k + 1) = rest →
      Spliced base anchor b (k + rest.length)
        ((graftFrom b.parents anchor (base.images anchor k) g rest).run s).1 := by
  induction rest with
  | nil =>
    intro k g s h _
    exact h
  | cons n rest ih =>
    intro k g s h hdrop
    have hn : b.nodes[k + 1]? = some n := by
      have := congrArg List.head? hdrop
      rwa [List.head?_drop, List.head?_cons] at this
    obtain ⟨p, hp⟩ := hb.exists_parent (List.getElem?_eq_some_iff.mp hn).1
    have hpk : p ≤ k := Nat.le_of_lt_succ (hb.parent_lt _ p (Nat.succ_ne_zero k) hp)
    have horigin : b.parents.getD (base.images anchor k).length sentinel = p := by
      rw [images_length, List.getD_eq_getElem?_getD, hp, Option.getD_some]
    have hstep := h.step hbase hb hanchor hn hp ⟨g.source, s, rfl⟩
    have hrest : b.nodes.drop (k + 1 + 1) = rest := by
      rw [← List.drop_drop, hdrop, List.drop_succ_cons, List.drop_zero]
    have hrun := ih ((n.copy g.source).run s).2 hstep hrest
    rw [← images_succ, ← h.length, ← images_getD hbase hpk, ← horigin] at hrun
    rw [List.length_cons, Nat.add_comm rest.length 1, ← Nat.add_assoc]
    exact hrun

theorem graft_spliced (hbase : base.WellFormed) (hb : b.WellFormed)
    (hanchor : anchor < base.nodes.length) (s : Supply) :
    Spliced base anchor b b.size ((graft b.parents anchor base b.nodes).run s).1 := by
  cases hnodes : b.nodes with
  | nil =>
    have := hb.length_pos
    simp [hnodes] at this
  | cons root members =>
    have hdrop : b.nodes.drop 1 = members := by rw [hnodes, List.drop_succ_cons, List.drop_zero]
    have hsize : b.size = members.length := by rw [size, Graph.members, hnodes, List.tail_cons]
    have hrun := Spliced.run hbase hb hanchor members s (spliced_zero anchor b hbase) hdrop
    rw [Nat.zero_add, ← hsize] at hrun
    exact hrun

/-- Members whose names do not occur before keep them. -/
theorem Spliced.name_eq {k : Nat} {g : Graph} (h : Spliced base anchor b k g)
    (hbase : base.WellFormed) (hb : b.WellFormed)
    (hnew : ∀ n ∈ b.members, n.name ∉ base.nodes.map (·.name)) :
    ∀ j n, j ≠ sentinel → j ≤ k → b.nodes[j]? = some n →
      ∃ x, g.nodes[base.size + j]? = some x ∧ x.name = n.name := by
  intro j
  induction j using Nat.strongRecOn with
  | ind j ih =>
    intro n hj hjk hn
    obtain ⟨p, hp⟩ := hb.exists_parent (List.getElem?_eq_some_iff.mp hn).1
    obtain ⟨c, name, hc, hfree, hparent, hnode⟩ := h.image j n p hj hjk hn hp
    refine ⟨_, hnode, hfree.eq_self ?_⟩
    intro hmem
    obtain ⟨x, hx, hxn⟩ := List.mem_map.mp hmem
    obtain ⟨i, hi⟩ := List.mem_iff_getElem?.mp hx
    rw [List.getElem?_take, Option.ite_none_right_eq_some] at hi
    obtain ⟨hij, hi⟩ := hi
    have hlt := (List.getElem?_eq_some_iff.mp hi).1
    rcases h.position_cases hbase hlt with hib | ⟨d, hd, hdk, rfl⟩
    · rw [h.kept i hib] at hi
      have hold := List.mem_map_of_mem (f := (·.name)) (List.mem_of_getElem? hi)
      rw [hxn] at hold
      exact hnew n (mem_members_iff.mpr ⟨j, hj, hn⟩) hold
    · -- the name is that of an earlier image, so of an earlier member
      have hdj : d < j := by omega
      have hdb := List.getElem?_eq_getElem (Nat.lt_trans hdj (List.getElem?_eq_some_iff.mp hn).1)
      obtain ⟨y, hy, hyn⟩ := ih d hdj _ hd hdk hdb
      obtain rfl : x = y := Option.some.inj (hi.symm.trans hy)
      exact Nat.ne_of_lt hdj (hb.name_inj hdb hn (hyn.symm.trans hxn))

end Graph

end Workflow
