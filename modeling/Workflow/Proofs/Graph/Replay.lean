import Workflow.Proofs.Graph.Continuation
import Workflow.Proofs.Graph.Identity

/-!
# Graphs put together again

Copies and joins are made without the checks that an action passes when it is put in. Still no graph
comes of them that could not be made by putting in its actions one after the other, each one as it
was before it was put in anywhere: at the top, or after the action above it in the mode that its gate
tells. All are accepted under the names they have, and the graph that is made is the same again.
-/

set_option autoImplicit false

namespace Workflow

namespace RunMode

def ofStates? (states : List State) : Option RunMode := all.find? (·.states = states)

theorem ofStates?_states (mode : RunMode) : ofStates? mode.states = some mode := by
  cases mode <;> rfl

end RunMode

namespace Graph
variable {g h : Graph} {source : IdSource}

/-- How an action of the graph is put in again. -/
def reinsertion? (g : Graph) (e : Entry Node) : Option Insertion :=
  if e.parent = sentinel then some (.top e.node.released)
  else do
    let above ← g.nodeAt? e.parent
    let mode ← RunMode.ofStates? e.node.gate
    return .after e.node.released above.name mode

/-- How all actions of the graph are put in again, in their order. -/
def reinsertions? (g : Graph) : Option (List Insertion) := g.entries.mapM g.reinsertion?

theorem WellFormed.ext (hg : g.WellFormed) (hh : h.WellFormed) (hnodes : h.nodes = g.nodes)
    (hparents : h.parents = g.parents) (hroot : h.isRoot = g.isRoot) :
    h = { g with source := h.source } := by
  have hchildren : h.children = g.children := by rw [hh.children, hg.children, hparents]
  have hregistry : h.registry = g.registry := by rw [hh.registry, hg.registry, hnodes]
  have hlast : h.lastAppended = g.lastAppended := by
    have hhlast := hh.last
    rw [hnodes, ← hg.last] at hhlast
    exact Nat.succ.inj hhlast
  obtain ⟨nodes, parents, children, registry, lastAppended, isRoot, source⟩ := h
  dsimp only at hnodes hparents hroot hchildren hregistry hlast
  rw [hnodes, hparents, hroot, hchildren, hregistry, hlast]

/-- The members are listed as they stand in the graph. -/
theorem WellFormed.entries_nodes (hg : g.WellFormed) : g.entries.map (·.node) = g.members := by
  rw [entries, List.map_map, List.map_tail, members]
  congr 1
  exact List.map_fst_zip (Nat.le_of_eq hg.length.symm)

theorem id_inj (hnodup : (g.members.map (·.id)).Nodup) {i j : Nat} {n m : Node} (hi : i ≠ sentinel)
    (hj : j ≠ sentinel) (hn : g.nodes[i]? = some n) (hm : g.nodes[j]? = some m)
    (hid : n.id = m.id) : i = j := by
  obtain ⟨i, rfl⟩ := Nat.exists_eq_succ_of_ne_zero hi
  obtain ⟨j, rfl⟩ := Nat.exists_eq_succ_of_ne_zero hj
  rw [← List.getElem?_tail] at hn hm
  have hlt := (List.getElem?_eq_some_iff.mp hn).1
  congr 1
  apply (List.getElem?_inj (by rwa [List.length_map]) hnodup).mp
  rw [members, List.getElem?_map, List.getElem?_map, hn, hm, Option.map_some, Option.map_some, hid]

/-- The graph `h` is what `g` was with its first `k` members. -/
structure Begins (g : Graph) (source : IdSource) (k : Nat) (h : Graph) : Prop where
  wellFormed : h.WellFormed
  nodes : h.nodes = g.nodes.take (k + 1)
  parents : h.parents = g.parents.take (k + 1)
  isRoot : h.isRoot = g.isRoot
  source : h.source = source

theorem begins_zero (hg : g.WellFormed) (source : IdSource) :
    Begins g source 0 (empty g.isRoot source) where
  wellFormed := empty_wellFormed g.isRoot source
  nodes := by
    rw [hg.nodes_eq]
    rfl
  parents := by
    have hroot := hg.parent_root
    cases hparents : g.parents with
    | nil => simp [hparents] at hroot
    | cons p rest =>
      rw [hparents] at hroot
      obtain rfl : p = sentinel := Option.some.inj hroot
      rfl
  isRoot := rfl
  source := rfl

namespace Begins
variable {k p : Nat} {n : Node}

theorem node (hh : Begins g source k h) {i : Nat} (hi : i ≤ k) : h.nodes[i]? = g.nodes[i]? := by
  rw [hh.nodes, List.getElem?_take_of_lt (Nat.lt_succ_of_le hi)]

theorem le_of_node (hh : Begins g source k h) {i : Nat} {m : Node} (hm : h.nodes[i]? = some m) :
    i ≤ k := by
  rw [hh.nodes, List.getElem?_take, Option.ite_none_right_eq_some] at hm
  exact Nat.le_of_lt_succ hm.1

/-- The name of the next member is still free. -/
theorem freeName (hh : Begins g source k h) (hg : g.WellFormed) (hn : g.nodes[k + 1]? = some n) :
    h.freeName n.name = n.name := by
  refine (firstFree_isFirst _ _).eq_self fun hmem => ?_
  rw [hh.wellFormed.mem_registry_names] at hmem
  obtain ⟨m, hm, hname⟩ := List.mem_map.mp hmem
  obtain ⟨i, hi⟩ := List.mem_iff_getElem?.mp hm
  have hik := hh.le_of_node hi
  rw [hh.node hik] at hi
  have := hg.name_inj hi hn hname
  omega

/-- Put in again, an action stands as it did, if it is gated as it was. -/
theorem placed (hh : Begins g source k h) (hg : g.WellFormed) (hn : g.nodes[k + 1]? = some n)
    (hatt : n.isAttached = true) {states : List State}
    (hrun : n.runAfter = (((h.actionAt? p).map (·.name)).map fun above => (above, states)).toList) :
    h.placed n.released p states = n := by
  have hname := hh.freeName hg hn
  obtain ⟨id, name, kind, payload, slots, runAfter, isAttached⟩ := n
  dsimp only at hname hrun hatt
  rw [Graph.placed, Node.attach, Node.released, hname, ← hrun, hatt]

theorem hasIdentity (hh : Begins g source k h) (hnodup : (g.members.map (·.id)).Nodup)
    (hn : g.nodes[k + 1]? = some n) : h.hasIdentity n.id = false := by
  apply Bool.eq_false_iff.mpr
  intro hid
  obtain ⟨i, m, hi, hm, hid⟩ := hasIdentity_iff.mp hid
  have hik := hh.le_of_node hm
  rw [hh.node hik] at hm
  have := id_inj hnodup hi (Nat.succ_ne_zero k) hm hn hid
  omega

theorem link (hh : Begins g source k h) (hn : g.nodes[k + 1]? = some n)
    (hp : g.parents[k + 1]? = some p) {states : List State}
    (hwell : (h.link n.released p states).WellFormed) (hplaced : h.placed n.released p states = n) :
    Begins g source (k + 1) (h.link n.released p states) where
  wellFormed := hwell
  nodes := by
    rw [link_nodes, hplaced, hh.nodes, List.take_add_one (i := k + 1), hn, Option.toList_some]
  parents := by
    rw [link_parents, hh.parents, List.take_add_one (i := k + 1), hp, Option.toList_some]
  isRoot := hh.isRoot
  source := hh.source

/-- The next member is put in again under its name. -/
theorem step (hh : Begins g source k h) (hg : g.WellFormed)
    (hnodup : (g.members.map (·.id)).Nodup)
    (hkinds : g.isRoot = false → ∀ m ∈ g.members, m.kind ≠ declarationKind)
    (hn : g.nodes[k + 1]? = some n) (hp : g.parents[k + 1]? = some p) :
    ∃ c h', g.reinsertion? ⟨n, p⟩ = some c ∧ h.insert c = .ok (n.name, h') ∧
      Begins g source (k + 1) h' := by
  have hne : k + 1 ≠ sentinel := Nat.succ_ne_zero k
  have hpk : p ≤ k := Nat.le_of_lt_succ (hg.parent_lt _ p hne hp)
  have hkind : h.isRoot = true ∨ n.kind ≠ declarationKind := by
    cases hroot : g.isRoot with
    | true => exact .inl (hh.isRoot.trans hroot)
    | false => exact .inr (hkinds hroot n (mem_members_iff.mpr ⟨_, hne, hn⟩))
  -- an accepted action with the gate of the member gives the next beginning
  have haccept : ∀ c : Insertion, c.node = n.released → h.resolve? c.reference = some p →
      c.target h p = p → h.placed n.released p c.states = n →
      ∃ h', h.insert c = .ok (n.name, h') ∧ Begins g source (k + 1) h' := by
    intro c hnode hresolve htarget hplaced
    have hins : h.insert c = .ok (n.name, h.link n.released p c.states) := by
      refine insert_ok_iff.mpr ⟨?_, ?_, ?_, p, hresolve, ?_, ?_⟩
      · rw [hnode]
        exact hh.hasIdentity hnodup (n := n) hn
      · rw [hnode]
        rfl
      · rw [hnode]
        exact hkind
      · rw [hnode]
        exact (hh.freeName hg hn).symm
      · rw [hnode, htarget]
    exact ⟨_, hins, hh.link hn hp (hh.wellFormed.insert hins) hplaced⟩
  obtain ⟨hatt, ⟨rfl, hrun⟩ | ⟨hroot, above, mode, habove, hrun⟩⟩ := hg.gated _ n p hne hn hp
  · have hplaced : h.placed n.released sentinel [] = n :=
      hh.placed hg hn hatt (by simp [hrun, actionAt?])
    obtain ⟨h', hins, hnext⟩ := haccept (.top n.released) rfl rfl rfl hplaced
    exact ⟨_, h', if_pos rfl, hins, hnext⟩
  · have hhabove : h.nodes[p]? = some above := (hh.node hpk).trans habove
    have hplaced : h.placed n.released p mode.states = n :=
      hh.placed hg hn hatt (by simp [hrun, actionAt?, nodeAt?, hroot, hhabove])
    have hindex : h.indexOf? above.name = some p :=
      (hh.wellFormed.indexOf?_eq_some_iff _ p).mpr ⟨hroot, above, hhabove, rfl⟩
    obtain ⟨h', hins, hnext⟩ := haccept (.after n.released above.name mode) rfl hindex rfl hplaced
    refine ⟨_, h', ?_, hins, hnext⟩
    simp [reinsertion?, hroot, nodeAt?, habove, Node.gate, hrun, RunMode.ofStates?_states]

end Begins

/-- The members behind the first `k` are put in again, one after the other. -/
theorem Begins.run (hg : g.WellFormed) (hnodup : (g.members.map (·.id)).Nodup)
    (hkinds : g.isRoot = false → ∀ m ∈ g.members, m.kind ≠ declarationKind)
    (rest : List (Entry Node)) : ∀ {k : Nat} {h : Graph}, Begins g source k h → k ≤ g.size →
      g.entries.drop k = rest → ∃ steps, rest.mapM g.reinsertion? = some steps ∧
        h.attemptAll steps =
          (rest.map fun e => Except.ok e.node.name, { g with source := source }) := by
  induction rest with
  | nil =>
    intro k h hh hk hdrop
    have hksize : k = g.size := by
      have hlength := List.drop_eq_nil_iff.mp hdrop
      rw [hg.entries_length] at hlength
      exact Nat.le_antisymm hk hlength
    have hnodes : h.nodes = g.nodes := by
      rw [hh.nodes, hksize, ← hg.length_eq_size, List.take_length]
    have hparents : h.parents = g.parents := by
      rw [hh.parents, hksize, ← hg.length_eq_size, ← hg.length, List.take_length]
    refine ⟨[], rfl, ?_⟩
    rw [hg.ext hh.wellFormed hnodes hparents hh.isRoot, hh.source]
    rfl
  | cons e rest ih =>
    intro k h hh hk hdrop
    have hentry : g.entries[k]? = some e := by
      have := congrArg List.head? hdrop
      rwa [List.head?_drop, List.head?_cons] at this
    have hklt : k < g.size := by
      rw [← hg.entries_length]
      exact (List.getElem?_eq_some_iff.mp hentry).1
    have hlt : k + 1 < g.nodes.length := by
      rw [hg.length_eq_size]
      exact Nat.succ_lt_succ hklt
    obtain ⟨p, hp⟩ := hg.exists_parent hlt
    have hn := List.getElem?_eq_getElem hlt
    obtain rfl := Option.some.inj (hentry.symm.trans (entries_getElem? hn hp))
    obtain ⟨c, h', hc, hins, hnext⟩ := hh.step hg hnodup hkinds hn hp
    have hrest : g.entries.drop (k + 1) = rest := by
      rw [← List.drop_drop, hdrop, List.drop_succ_cons, List.drop_zero]
    obtain ⟨steps, hsteps, hrun⟩ := ih hnext hklt hrest
    refine ⟨c :: steps, ?_, ?_⟩
    · simp [List.mapM_cons, hc, hsteps]
    · have hattempt : h.attempt c = (.ok g.nodes[k + 1].name, h') := by rw [attempt, hins]
      rw [attemptAll_cons, hattempt, hrun, List.map_cons]

/-- Every graph is made again, over any source, by putting in its actions one after the other, if
its own source never repeats a draw. -/
theorem Reachable.replayed {P : Node → Prop} (hg : g.Reachable P)
    (hsource : Function.Injective g.source.spell) (source : IdSource) :
    ∃ steps, g.reinsertions? = some steps ∧
      (Graph.empty g.isRoot source).attemptAll steps =
        (g.names.map Except.ok, { g with source := source }) := by
  have hw := hg.wellFormed
  obtain ⟨steps, hsteps, hrun⟩ := Begins.run hw (hg.members_nodup hsource)
    (fun hroot => hg.not_declaration hroot) g.entries (begins_zero hw source) (Nat.zero_le _) rfl
  refine ⟨steps, hsteps, ?_⟩
  rw [hrun, names, ← hw.entries_nodes, List.map_map, List.map_map]
  rfl

theorem twoSteps_scopeAndStep_replayed :
    ((twoSteps.merge scopeAndStep).run {}).1.Reachable Node.Made ∧
      Function.Injective ((twoSteps.merge scopeAndStep).run {}).1.source.spell ∧
      (((twoSteps.merge scopeAndStep).run {}).1.reinsertions?.map fun steps =>
          steps.map Insertion.reference) =
        some [none, some "Step", some "Step_1", some "Scope"] ∧
      ∃ steps, ((twoSteps.merge scopeAndStep).run {}).1.reinsertions? = some steps ∧
        (Graph.empty true (.sequential 7 "again")).attemptAll steps =
          (((twoSteps.merge scopeAndStep).run {}).1.names.map Except.ok,
            { ((twoSteps.merge scopeAndStep).run {}).1 with source := .sequential 7 "again" }) := by
  have hg := twoSteps_reachable.merge {} scopeAndStep_reachable
  have hsource := IdSource.sequential_injective 0 "id"
  exact ⟨hg, hsource, rfl, Reachable.replayed hg hsource (.sequential 7 "again")⟩

end Graph

end Workflow
