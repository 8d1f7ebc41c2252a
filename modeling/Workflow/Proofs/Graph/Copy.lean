import Workflow.Proofs.Graph.Splice

/-!
# Copies of graphs

A copy of a well-formed graph is well-formed. It has the same names in the same order, and behind
each name stands a copy of the action with that name, below the same position and with the same
gate; so the action put in last is the same one too.
-/

set_option autoImplicit false

namespace Workflow.Graph
variable {g c : Graph}

/-- What a copy of a graph agrees in with it. Identities, and what is nested in the actions, are left
to what holds of copies of actions. -/
structure Duplicated (g c : Graph) : Prop where
  wellFormed : c.WellFormed
  isRoot : c.isRoot = g.isRoot
  source : c.source = g.source
  length : c.nodes.length = g.nodes.length
  parents : c.parents = g.parents
  node : ∀ j n, j ≠ sentinel → g.nodes[j]? = some n →
    ∃ x, IsCopy n x ∧
      c.nodes[j]? = some { x with runAfter := n.runAfter, isAttached := n.isAttached }

theorem WellFormed.name_ne_reserved (h : g.WellFormed) {n : Node} (hn : n ∈ g.members) :
    n.name ≠ reservedName := by
  intro hname
  obtain ⟨i, hi, hni⟩ := mem_members_iff.mp hn
  exact hi (h.name_inj hni h.root hname)

theorem imageAt_empty (isRoot : Bool) (source : IdSource) (p : Nat) :
    (empty isRoot source).imageAt sentinel p = p := by
  unfold imageAt
  split
  · next h => exact h.symm
  · exact Nat.zero_add p

section Whole
variable (hg : g.WellFormed) (h : Spliced (empty g.isRoot g.source) sentinel g g.size c)
include hg h

theorem Spliced.copy_shows {j p : Nat} {n : Node} (hj : j ≠ sentinel) (hn : g.nodes[j]? = some n)
    (hp : g.parents[j]? = some p) : c.Shows j n p (n.gateBelow p p) := by
  have hshow := h.image j n p hj (hg.le_size hn) hn hp
  rwa [imageAt_empty, show (empty g.isRoot g.source).size = 0 from rfl, Nat.zero_add] at hshow

/-- The sentinel is the only one there, and its name is that of no member. -/
theorem Spliced.copy_name {j : Nat} {n : Node} (hj : j ≠ sentinel) (hn : g.nodes[j]? = some n) :
    ∃ x, c.nodes[j]? = some x ∧ x.name = n.name := by
  have hempty := empty_wellFormed g.isRoot g.source
  have hnew : ∀ m ∈ g.members, m.name ∉ (empty g.isRoot g.source).nodes.map (·.name) := by
    intro m hm hmem
    exact hg.name_ne_reserved hm (List.mem_singleton.mp hmem)
  obtain ⟨x, hx, hxn⟩ := h.name_eq hempty hg hnew j n hj (hg.le_size hn) hn
  rw [show (empty g.isRoot g.source).size = 0 from rfl, Nat.zero_add] at hx
  exact ⟨x, hx, hxn⟩

theorem Spliced.copy_length : c.nodes.length = g.nodes.length := by
  rw [h.length, hg.length_eq_size]
  exact Nat.add_comm _ _

theorem Spliced.copy_parents : c.parents = g.parents := by
  have hlength := h.copy_length hg
  have hcp := h.wellFormed.length
  have hgp := hg.length
  apply List.ext_getElem?
  intro j
  by_cases hroot : j = sentinel
  · rw [hroot, h.wellFormed.parent_root, hg.parent_root]
  by_cases hj : j < g.nodes.length
  · obtain ⟨p, hp⟩ := hg.exists_parent hj
    rw [(h.copy_shows hg hroot (List.getElem?_eq_getElem hj) hp).parent, hp]
  · rw [List.getElem?_eq_none (by omega), List.getElem?_eq_none (by omega)]

/-- What stands above a member has kept its name, so the gate is the same. -/
theorem Spliced.copy_runAfter {j p : Nat} {n : Node} (hj : j ≠ sentinel)
    (hn : g.nodes[j]? = some n) (hp : g.parents[j]? = some p) :
    (((c.actionAt? p).map (·.name)).map fun above => (above, n.gateBelow p p)).toList =
      n.runAfter := by
  obtain ⟨-, ⟨hroot, hrun⟩ | ⟨hroot, q, mode, hq, hrun⟩⟩ := hg.gated j n p hj hn hp
  · simp [actionAt?, hroot, hrun]
  · obtain ⟨x, hx, hxn⟩ := h.copy_name hg hroot hq
    simp [actionAt?, nodeAt?, hroot, hx, hxn, hrun, Node.gateBelow, Node.gate]

theorem Spliced.duplicated : Duplicated g c := by
  refine ⟨h.wellFormed, h.isRoot, h.source, h.copy_length hg, h.copy_parents hg, ?_⟩
  intro j n hj hn
  obtain ⟨p, hp⟩ := hg.exists_parent (List.getElem?_eq_some_iff.mp hn).1
  obtain ⟨x, name, hx, -, -, hnode⟩ := h.copy_shows hg hj hn hp
  obtain ⟨y, hy, hyn⟩ := h.copy_name hg hj hn
  obtain rfl := Option.some.inj (hnode.symm.trans hy)
  obtain rfl : x.name = name := hx.name.trans hyn.symm
  obtain ⟨hatt, -⟩ := hg.gated j n p hj hn hp
  refine ⟨x, hx, ?_⟩
  rw [hnode, Node.attach, h.copy_runAfter hg hj hn hp, hatt]

end Whole

theorem Duplicated.root (hg : g.WellFormed) (h : Duplicated g c) :
    c.nodes[sentinel]? = g.nodes[sentinel]? := by
  rw [h.wellFormed.root, hg.root]

/-- What copies of actions agree in with them, duplicates agree in at all positions. -/
theorem Duplicated.map_nodes (hg : g.WellFormed) (h : Duplicated g c) {β : Type} {o : Node → β}
    (ho : ∀ n ∈ g.members, ∀ x, IsCopy n x →
      o { x with runAfter := n.runAfter, isAttached := n.isAttached } = o n) :
    c.nodes.map o = g.nodes.map o := by
  apply List.ext_getElem?
  intro j
  rw [List.getElem?_map, List.getElem?_map]
  by_cases hroot : j = sentinel
  · rw [hroot, h.root hg]
  cases hn : g.nodes[j]? with
  | none =>
    rw [List.getElem?_eq_none_iff, ← h.length] at hn
    rw [List.getElem?_eq_none hn]
  | some n =>
    obtain ⟨x, hx, hcx⟩ := h.node j n hroot hn
    rw [hcx, Option.map_some, Option.map_some, ho n (mem_members_iff.mpr ⟨j, hroot, hn⟩) x hx]

theorem Duplicated.names (hg : g.WellFormed) (h : Duplicated g c) :
    c.nodes.map (·.name) = g.nodes.map (·.name) :=
  h.map_nodes hg fun _ _ _ hx => hx.name

theorem Duplicated.size (h : Duplicated g c) : c.size = g.size := by
  rw [Graph.size, Graph.size, members, members, List.length_tail, List.length_tail, h.length]

theorem Duplicated.lastAppended (hg : g.WellFormed) (h : Duplicated g c) :
    c.lastAppended = g.lastAppended := by
  have hc := h.wellFormed.last
  rw [h.length, ← hg.last] at hc
  exact Nat.succ.inj hc

/-- The name of the last action leads to the last action of a duplicate. -/
theorem Duplicated.resumeAt (hg : g.WellFormed) (h : Duplicated g c) : c.resumeAt g = c := by
  have hlt := hg.last_lt
  have hn := List.getElem?_eq_getElem hlt
  have hget : c.registry.get? g.nodes[g.lastAppended].name = some c.lastAppended := by
    rw [h.wellFormed.registry, nameTable_get? h.wellFormed.nodup, h.names hg, h.lastAppended hg,
      List.getElem?_map, hn, Option.map_some]
  unfold Graph.resumeAt
  rw [nodeAt?, hn, Option.bind_some, hget, Option.getD_some]

theorem copy_run (g : Graph) (s : Supply) : g.copy.run s =
    (((graft g.parents sentinel (empty g.isRoot g.source) g.nodes).run s).1.resumeAt g,
      ((graft g.parents sentinel (empty g.isRoot g.source) g.nodes).run s).2) := rfl

theorem copy_duplicated (hg : g.WellFormed) (s : Supply) : Duplicated g (g.copy.run s).1 := by
  have hempty := empty_wellFormed g.isRoot g.source
  have hpos : sentinel < (empty g.isRoot g.source).nodes.length := hempty.length_pos
  have h := (graft_spliced hempty hg hpos s).duplicated hg
  rw [copy_run, h.resumeAt hg]
  exact h

theorem WellFormed.withRoot (h : g.WellFormed) (isRoot : Bool) :
    WellFormed { g with isRoot := isRoot } where
  root := h.root
  length := h.length
  parent_root := h.parent_root
  parent_lt := h.parent_lt
  children := h.children
  nodup := h.nodup
  registry := h.registry
  last := h.last
  gated := h.gated

theorem merge_run (a b : Graph) (s : Supply) : (a.merge b).run s =
    (graft b.parents (a.copy.run s).1.lastAppended
      { (a.copy.run s).1 with isRoot := (a.copy.run s).1.isRoot || b.isRoot } b.nodes).run
      (a.copy.run s).2 := rfl

/-- A join puts images of the members of `b` into a duplicate of `a`. -/
theorem merge_spliced {a b : Graph} (ha : a.WellFormed) (hb : b.WellFormed) (s : Supply) :
    ∃ base, Duplicated a base ∧
      Spliced { base with isRoot := base.isRoot || b.isRoot } base.lastAppended b b.size
        ((a.merge b).run s).1 := by
  have hdup := copy_duplicated ha s
  refine ⟨(a.copy.run s).1, hdup, ?_⟩
  have hbase := hdup.wellFormed.withRoot ((a.copy.run s).1.isRoot || b.isRoot)
  rw [merge_run]
  exact graft_spliced hbase hb hdup.wellFormed.last_lt _

end Workflow.Graph
