import Workflow.Proofs.Graph.Depth
import Workflow.Proofs.Supply

/-!
# Identities of copies

A copy of an action draws one identity, and so does a copy of every action that is nested in it. A
graph holds a source from which all these draws are made, its own and those for the graphs nested
in it, if it shares that source with them. Then copying and joining draw exactly one identity for
each action at every depth, and no identity comes up twice. Without a shared source that still holds
of the actions of one graph.
-/

set_option autoImplicit false

namespace Workflow
variable {source : IdSource} {s s₁ s' : Supply}

namespace Graph

theorem graftFrom_run_cons (parents : List Nat) (anchor : Nat) (images : List Nat) (g : Graph)
    (n : Node) (rest : List Node) (s : Supply) :
    ∃ p states, (graftFrom parents anchor images g (n :: rest)).run s =
      (graftFrom parents anchor (images ++ [g.nodes.length])
        (g.link ((n.copy g.source).run s).1 p states) rest).run ((n.copy g.source).run s).2 :=
  ⟨_, _, rfl⟩

theorem graft_run (parents : List Nat) (anchor : Nat) (base b : Graph) (s : Supply) :
    (graft parents anchor base b.nodes).run s =
      (graftFrom parents anchor [anchor] base b.members).run s := by
  unfold graft members
  cases b.nodes <;> rfl

theorem copy_run_eq (g : Graph) (s : Supply) : g.copy.run s =
    (((graftFrom g.parents sentinel [sentinel] (empty g.isRoot g.source) g.members).run s).1.resumeAt
        g,
      ((graftFrom g.parents sentinel [sentinel] (empty g.isRoot g.source) g.members).run s).2) := by
  rw [copy_run, graft_run]

theorem merge_run_eq (a b : Graph) (s : Supply) : (a.merge b).run s =
    (graftFrom b.parents (a.copy.run s).1.lastAppended [(a.copy.run s).1.lastAppended]
      { (a.copy.run s).1 with isRoot := (a.copy.run s).1.isRoot || b.isRoot } b.members).run
      (a.copy.run s).2 := by
  rw [merge_run, graft_run]

theorem mergeNode_supply (g : Graph) (n : Node) (s : Supply) : ((g.mergeNode n).run.run s).2 =
    ((n.copy (g.copy.run s).1.source).run (g.copy.run s).2).2 := rfl

/-- What copies of members are put into keeps its source, and its sentinel. -/
theorem graftFrom_keeps {rest : List Node} {parents : List Nat} {anchor : Nat} {images : List Nat}
    {g : Graph} (hg : g.nodes ≠ []) (s : Supply) :
    ((graftFrom parents anchor images g rest).run s).1.source = g.source ∧
      ((graftFrom parents anchor images g rest).run s).1.nodes ≠ [] := by
  induction rest generalizing images g s with
  | nil => exact ⟨rfl, hg⟩
  | cons n rest ih =>
    obtain ⟨p, states, hrun⟩ := graftFrom_run_cons parents anchor images g n rest s
    rw [hrun]
    exact ih (List.append_ne_nil_of_left_ne_nil hg _) _

theorem copy_keeps (g : Graph) (s : Supply) :
    (g.copy.run s).1.source = g.source ∧ (g.copy.run s).1.nodes ≠ [] := by
  rw [copy_run_eq]
  exact graftFrom_keeps (g := empty g.isRoot g.source) (List.cons_ne_nil _ _) s

end Graph

/-- A copy of the action never puts back what was drawn. -/
def Node.CopiesForward (n : Node) : Prop :=
  ∀ (source : IdSource) (s : Supply), s.Precedes ((n.copy source).run s).2

namespace Graph

theorem graftFrom_forward {rest : List Node} (hrest : ∀ n ∈ rest, n.CopiesForward)
    (parents : List Nat) (anchor : Nat) (images : List Nat) (g : Graph) (s : Supply) :
    s.Precedes ((graftFrom parents anchor images g rest).run s).2 := by
  induction rest generalizing images g s with
  | nil => exact .refl s
  | cons n rest ih =>
    obtain ⟨p, states, hrun⟩ := graftFrom_run_cons parents anchor images g n rest s
    rw [hrun]
    have hn := hrest n List.mem_cons_self g.source s
    exact hn.trans (ih (fun m hm => hrest m (List.mem_cons_of_mem n hm)) _ _ _)

theorem copy_forward_of {g : Graph} (h : ∀ n ∈ g.members, n.CopiesForward) (s : Supply) :
    s.Precedes (g.copy.run s).2 := by
  rw [copy_run_eq]
  exact graftFrom_forward h _ _ _ _ s

end Graph

theorem copySlots_forward {slots : List (Slot Node)}
    (h : ∀ path g, ⟨path, .graph g⟩ ∈ slots → ∀ m ∈ Graph.members g, m.CopiesForward) (s : Supply) :
    s.Precedes ((copySlots slots).run s).2 := by
  induction slots generalizing s with
  | nil => exact .refl s
  | cons slot rest ih =>
    obtain ⟨path, actions⟩ := slot
    have hrest := fun s => ih (fun path g hslot => h path g (List.mem_cons_of_mem _ hslot)) s
    rw [copySlots_cons]
    cases actions with
    | raw r => exact hrest s
    | graph g =>
      have hg := Graph.copy_forward_of (h path g List.mem_cons_self) s
      exact hg.trans (hrest _)

theorem Node.copiesForward (n : Node) : n.CopiesForward := by
  induction n using Node.induct with
  | step n ih =>
    intro source s
    rw [Node.copy_run]
    exact (s.precedes_advance source.key).trans (copySlots_forward ih _)

theorem Graph.copy_forward (g : Graph) (s : Supply) : s.Precedes (g.copy.run s).2 :=
  copy_forward_of (fun n _ => n.copiesForward) s

namespace Graph

/-- The members of another graph get identities that are drawn in their order. -/
theorem graftFrom_members (parents : List Nat) (anchor : Nat) (images : List Nat) {g : Graph}
    (hg : g.nodes ≠ []) (rest : List Node) (s : Supply) :
    ∃ ids, ids.Sublist (g.source.drawn s ((graftFrom parents anchor images g rest).run s).2) ∧
      ((graftFrom parents anchor images g rest).run s).1.members.map (·.id) =
        g.members.map (·.id) ++ ids := by
  induction rest generalizing images g s with
  | nil => exact ⟨[], List.nil_sublist _, (List.append_nil _).symm⟩
  | cons n rest ih =>
    obtain ⟨p, states, hrun⟩ := graftFrom_run_cons parents anchor images g n rest s
    rw [hrun]
    have hjoined : (g.link ((n.copy g.source).run s).1 p states).nodes ≠ [] :=
      List.append_ne_nil_of_left_ne_nil hg _
    obtain ⟨ids, hids, hmembers⟩ := ih (images ++ [g.nodes.length]) hjoined
      ((n.copy g.source).run s).2
    have hid : ((n.copy g.source).run s).1.id = g.source.spell (s.count g.source.key) := by
      rw [Node.copy_run]
    refine ⟨g.source.spell (s.count g.source.key) :: ids, ?_, ?_⟩
    · have hn : (s.advance g.source.key).Precedes ((n.copy g.source).run s).2 := by
        rw [Node.copy_run]
        exact copySlots_forward (fun _ _ _ m _ => m.copiesForward) _
      have hrest : ((n.copy g.source).run s).2.Precedes ((graftFrom parents anchor
          (images ++ [g.nodes.length]) (g.link ((n.copy g.source).run s).1 p states) rest).run
            ((n.copy g.source).run s).2).2 :=
        graftFrom_forward (fun m _ => m.copiesForward) _ _ _ _ _
      rw [← IdSource.drawn_append (s.precedes_advance _) (hn.trans hrest), IdSource.drawn_advance,
        ← IdSource.drawn_append hn hrest]
      exact ((List.nil_sublist _).append hids).cons_cons _
    · rw [hmembers, members_link hg, List.map_append, List.append_assoc, List.map_singleton,
        ← hid]
      rfl

theorem copy_members (g : Graph) (s : Supply) :
    ((g.copy.run s).1.members.map (·.id)).Sublist (g.source.drawn s (g.copy.run s).2) := by
  rw [copy_run_eq]
  obtain ⟨ids, hids, hmembers⟩ := graftFrom_members g.parents sentinel [sentinel]
    (g := empty g.isRoot g.source) (List.cons_ne_nil _ _) g.members s
  have hcopy : (((graftFrom g.parents sentinel [sentinel] (empty g.isRoot g.source) g.members).run
      s).1.resumeAt g).members.map (·.id) = ids := hmembers
  rw [hcopy]
  exact hids

theorem merge_members (a b : Graph) (s : Supply) :
    (((a.merge b).run s).1.members.map (·.id)).Sublist
      (a.source.drawn s ((a.merge b).run s).2) := by
  obtain ⟨hsource, hnodes⟩ := a.copy_keeps s
  obtain ⟨ids, hids, hmembers⟩ := graftFrom_members b.parents (a.copy.run s).1.lastAppended
    [(a.copy.run s).1.lastAppended]
    (g := { (a.copy.run s).1 with isRoot := (a.copy.run s).1.isRoot || b.isRoot }) hnodes b.members
    (a.copy.run s).2
  have hforward : (a.copy.run s).2.Precedes ((a.merge b).run s).2 := by
    rw [merge_run_eq]
    exact graftFrom_forward (fun m _ => m.copiesForward) _ _ _ _ _
  rw [← merge_run_eq] at hids hmembers
  rw [hmembers, ← IdSource.drawn_append (a.copy_forward s) hforward]
  dsimp only at hids
  rw [hsource] at hids
  exact (a.copy_members s).append hids

theorem merge_source (a b : Graph) (s : Supply) : ((a.merge b).run s).1.source = a.source := by
  obtain ⟨hsource, hnodes⟩ := a.copy_keeps s
  rw [merge_run_eq]
  exact (graftFrom_keeps
    (g := { (a.copy.run s).1 with isRoot := (a.copy.run s).1.isRoot || b.isRoot })
    hnodes _).1.trans hsource

theorem updatePayload_members (g : Graph) (name : String) (f : Fields → Fields) :
    (g.updatePayload name f).members.map (·.id) = g.members.map (·.id) := by
  have hnodes : (g.updatePayload name f).nodes.map (·.id) = g.nodes.map (·.id) := by
    apply List.ext_getElem?
    intro i
    rw [List.getElem?_map, List.getElem?_map, updatePayload_nodes, Option.map_map]
    congr 1
    funext n
    rw [Function.comp_apply]
    split <;> rfl
  rw [members, members, List.map_tail, List.map_tail, hnodes]

theorem WellFormed.insert_members {g g' : Graph} (h : g.WellFormed) {c : Insertion} {name : String}
    (hc : g.insert c = .ok (name, g')) (hnodup : (g.members.map (·.id)).Nodup) :
    (g'.members.map (·.id)).Nodup := by
  obtain ⟨hfresh, -, -, p, -, -, rfl⟩ := insert_ok_iff.mp hc
  rw [h.link_members, List.map_append, List.map_singleton]
  refine hnodup.append (List.nodup_singleton _) ?_
  intro id hid hnew
  obtain ⟨n, hn, rfl⟩ := List.mem_map.mp hid
  exact hasIdentity_eq_false_iff.mp hfresh n hn (List.mem_singleton.mp hnew)

/-- No two actions of a graph have one identity, if its source never repeats a draw: an action that
is put in is compared with all others, and copies are not drawn again. -/
theorem Reachable.members_nodup {P : Node → Prop} {g : Graph} (h : g.Reachable P)
    (hsource : Function.Injective g.source.spell) : (g.members.map (·.id)).Nodup := by
  induction h with
  | empty => exact List.nodup_nil
  | insert hg _ hc ih =>
    obtain ⟨-, -, -, p, -, -, hg'⟩ := insert_ok_iff.mp hc
    rw [hg'] at hsource
    exact hg.wellFormed.insert_members hc (ih hsource)
  | edit name f _ ih =>
    rw [updatePayload_members]
    refine ih ?_
    unfold updatePayload at hsource
    split at hsource <;> exact hsource
  | @copy g s _ _ =>
    rw [(g.copy_keeps s).1] at hsource
    exact (g.copy_members s).nodup (IdSource.drawn_nodup hsource _ _)
  | @merge a b s _ _ _ _ =>
    rw [merge_source] at hsource
    exact (merge_members a b s).nodup (IdSource.drawn_nodup hsource _ _)
  | @mergeNode g g' n s hg _ hm _ =>
    obtain ⟨c, name, -, hc⟩ := mergeNode_ok hm
    obtain ⟨-, -, -, p, -, -, hg'⟩ := insert_ok_iff.mp hc
    have hgs : g'.source = g.source := by
      rw [hg']
      exact (g.copy_keeps s).1
    rw [hgs] at hsource
    exact (copy_duplicated hg.wellFormed s).wellFormed.insert_members hc
      ((g.copy_members s).nodup (IdSource.drawn_nodup hsource _ _))

end Graph

/-- A graph shares its source with all that are nested in it, at any depth. -/
structure Graph.Shares (g : Graph) (source : IdSource) : Prop where
  own : g.source = source
  nested : ∀ inner, g.Nests inner → inner.source = source

/-- All graphs that are nested in an action, at any depth, hold the source. -/
def Node.Shares (n : Node) (source : IdSource) : Prop :=
  ∀ path g, ⟨path, .graph g⟩ ∈ n.slots → Graph.Shares g source

theorem Graph.Shares.member {g : Graph} (h : g.Shares source) {n : Node} (hn : n ∈ g.members) :
    n.Shares source := by
  intro path inner hslot
  have hcarries : g.Carries inner := ⟨n, hn, path, hslot⟩
  exact ⟨h.nested inner (.single hcarries),
    fun deeper hdeeper => h.nested deeper (.head hcarries hdeeper)⟩

theorem Graph.shares_of {g : Graph} (hown : g.source = source)
    (hmembers : ∀ n ∈ g.members, n.Shares source) : g.Shares source := by
  refine ⟨hown, fun inner hinner => ?_⟩
  obtain ⟨first, ⟨n, hn, path, hslot⟩, hrest⟩ := Relation.TransGen.head'_iff.mp hinner
  have hfirst := hmembers n hn path first hslot
  rcases Relation.reflTransGen_iff_eq_or_transGen.mp hrest with rfl | hnests
  · exact hfirst.own
  · exact hfirst.nested inner hnests

/-- From one supply to another a number of copies get identities, each one a draw of its own, and
nothing else is drawn. -/
structure Renewed (source : IdSource) (copies : Nat) (s : Supply) (ids : List String) (s' : Supply) :
    Prop where
  drawn : ids.Perm (source.drawn s s')
  count : s'.count source.key = s.count source.key + copies
  others : ∀ key, key ≠ source.key → s'.count key = s.count key

namespace Renewed
variable {j k : Nat} {ids ids' : List String}

theorem nil (source : IdSource) (s : Supply) : Renewed source 0 s [] s where
  drawn := by rw [IdSource.drawn_self]
  count := rfl
  others := fun _ _ => rfl

theorem advance (source : IdSource) (s : Supply) :
    Renewed source 1 s [source.spell (s.count source.key)] (s.advance source.key) where
  drawn := by rw [IdSource.drawn_advance]
  count := s.count_advance source.key
  others := fun _ hkey => s.count_advance_of_ne hkey

theorem precedes (h : Renewed source k s ids s') : s.Precedes s' := by
  intro key
  by_cases hkey : key = source.key
  · rw [hkey, h.count]
    exact Nat.le_add_right _ _
  · exact Nat.le_of_eq (h.others key hkey).symm

theorem append (h : Renewed source j s ids s₁) (h' : Renewed source k s₁ ids' s') :
    Renewed source (j + k) s (ids ++ ids') s' where
  drawn := by
    rw [← IdSource.drawn_append h.precedes h'.precedes]
    exact h.drawn.append h'.drawn
  count := by rw [h'.count, h.count, Nat.add_assoc]
  others := fun key hkey => (h'.others key hkey).trans (h.others key hkey)

/-- The order in which the copies are listed does not matter. -/
theorem perm (h : Renewed source k s ids s') (hperm : ids'.Perm ids) : Renewed source k s ids' s' :=
  { h with drawn := hperm.trans h.drawn }

theorem length (h : Renewed source k s ids s') : ids.length = k := by
  have hcount := h.count
  rw [h.drawn.length_eq, IdSource.drawn_length]
  omega

end Renewed

/-- A copy of the action renews its identity and those of all that are nested in it, if they share
the source. -/
def Node.Renews (source : IdSource) (n : Node) : Prop :=
  n.Shares source → ∀ s, Renewed source n.identities.length s ((n.copy source).run s).1.identities
    ((n.copy source).run s).2

namespace Graph

theorem graftFrom_renewed {rest : List Node} (hrest : ∀ n ∈ rest, n.Shares source ∧ n.Renews source)
    (parents : List Nat) (anchor : Nat) (images : List Nat) {g : Graph} (hg : g.nodes ≠ [])
    (hsource : g.source = source) (s : Supply) :
    ∃ ids, ((graftFrom parents anchor images g rest).run s).1.identities = g.identities ++ ids ∧
      Renewed source (rest.flatMap Node.identities).length s ids
        ((graftFrom parents anchor images g rest).run s).2 := by
  induction rest generalizing images g s with
  | nil => exact ⟨[], (List.append_nil _).symm, .nil source s⟩
  | cons n rest ih =>
    obtain ⟨p, states, hrun⟩ := graftFrom_run_cons parents anchor images g n rest s
    rw [hsource] at hrun
    rw [hrun]
    have hjoined : (g.link ((n.copy source).run s).1 p states).nodes ≠ [] :=
      List.append_ne_nil_of_left_ne_nil hg _
    obtain ⟨ids, hids, hrenewed⟩ := ih (fun m hm => hrest m (List.mem_cons_of_mem n hm))
      (images ++ [g.nodes.length]) hjoined hsource ((n.copy source).run s).2
    obtain ⟨hshares, hn⟩ := hrest n List.mem_cons_self
    refine ⟨((n.copy source).run s).1.identities ++ ids, ?_, ?_⟩
    · rw [hids, identities_link hg, List.append_assoc]
    · rw [List.flatMap_cons, List.length_append]
      exact (hn hshares s).append hrenewed

theorem copy_renewed_of {g : Graph} (h : ∀ n ∈ g.members, n.Renews source)
    (hg : g.Shares source) (s : Supply) :
    Renewed source g.identities.length s (g.copy.run s).1.identities (g.copy.run s).2 := by
  obtain ⟨ids, hids, hrenewed⟩ := graftFrom_renewed (fun n hn => ⟨hg.member hn, h n hn⟩) g.parents
    sentinel [sentinel] (g := empty g.isRoot g.source) (List.cons_ne_nil _ _) hg.own s
  have hcopy : (g.copy.run s).1.identities = ids := by
    rw [copy_run_eq]
    exact hids
  rw [hcopy, identities_eq, copy_run_eq]
  exact hrenewed

end Graph

theorem copySlots_renewed {slots : List (Slot Node)}
    (h : ∀ path g, ⟨path, .graph g⟩ ∈ slots →
      Graph.Shares g source ∧ ∀ m ∈ Graph.members g, m.Renews source) (s : Supply) :
    Renewed source (slots.flatMap fun slot => slot.actions.identities).length s
      (((copySlots slots).run s).1.flatMap fun slot => slot.actions.identities)
      ((copySlots slots).run s).2 := by
  induction slots generalizing s with
  | nil => exact .nil source s
  | cons slot rest ih =>
    obtain ⟨path, actions⟩ := slot
    have hrest := fun s => ih (fun path g hslot => h path g (List.mem_cons_of_mem _ hslot)) s
    rw [copySlots_cons, List.flatMap_cons, List.flatMap_cons, List.length_append]
    cases actions with
    | raw r => exact (Renewed.nil source s).append (hrest s)
    | graph g =>
      obtain ⟨hshares, hmembers⟩ := h path g List.mem_cons_self
      have hg : Renewed source (Nested.identities (.graph g)).length s
          (Nested.identities (.graph ((Graph.copy g).run s).1)) ((Graph.copy g).run s).2 :=
        Graph.copy_renewed_of hmembers hshares s
      exact hg.append (hrest _)

theorem Node.renews (source : IdSource) (n : Node) : n.Renews source := by
  induction n using Node.induct with
  | step n ih =>
    intro hshares s
    have hslots := copySlots_renewed (fun path g hslot => ⟨hshares path g hslot, ih path g hslot⟩)
      (s.advance source.key)
    have hrenewed := (Renewed.advance source s).append hslots
    rw [Node.copy_run, Node.identities_eq, Node.identities_eq, List.length_append, Nat.add_comm]
    -- the identity is drawn first and listed last
    exact hrenewed.perm List.perm_append_comm

namespace Graph
variable {a b : Graph}

theorem Shares.copy_renewed (ha : a.Shares source) (s : Supply) :
    Renewed source a.identities.length s (a.copy.run s).1.identities (a.copy.run s).2 :=
  copy_renewed_of (fun n _ => n.renews source) ha s

theorem Shares.merge_renewed (ha : a.Shares source) (hb : b.Shares source) (s : Supply) :
    Renewed source (a.identities.length + b.identities.length) s
      ((a.merge b).run s).1.identities ((a.merge b).run s).2 := by
  obtain ⟨hsource, hnodes⟩ := a.copy_keeps s
  obtain ⟨ids, hids, hrenewed⟩ := graftFrom_renewed (fun n hn => ⟨hb.member hn, n.renews source⟩)
    b.parents (a.copy.run s).1.lastAppended [(a.copy.run s).1.lastAppended]
    (g := { (a.copy.run s).1 with isRoot := (a.copy.run s).1.isRoot || b.isRoot }) hnodes
    (hsource.trans ha.own) (a.copy.run s).2
  rw [← merge_run_eq] at hids hrenewed
  rw [hids, b.identities_eq]
  exact (ha.copy_renewed s).append hrenewed

theorem Shares.mergeNode_renewed (ha : a.Shares source) {n : Node} (hn : n.Shares source)
    {m : Graph} {s : Supply} (hm : ((a.mergeNode n).run.run s).1 = .ok m) :
    Renewed source (a.identities.length + n.identities.length) s m.identities
      ((a.mergeNode n).run.run s).2 := by
  obtain ⟨hsource, hnodes⟩ := a.copy_keeps s
  obtain ⟨name, hins⟩ := mergeNode_insert hm
  obtain ⟨-, -, -, p, -, -, rfl⟩ := insert_ok_iff.mp hins
  rw [mergeNode_supply, identities_link hnodes, hsource, ha.own]
  exact (ha.copy_renewed s).append (n.renews source hn _)

end Graph

/-- Between two supplies there was one draw for each of a number of copies and no other draw. The
identities of the copies differ from each other and from all that were drawn before. -/
structure Fresh (source : IdSource) (copies : Nat) (s : Supply) (ids : List String) (s' : Supply) :
    Prop where
  nodup : ids.Nodup
  new : ∀ k, k < s.count source.key → source.spell k ∉ ids
  length : ids.length = copies
  count : s'.count source.key = s.count source.key + copies
  others : ∀ key, key ≠ source.key → s'.count key = s.count key

theorem Renewed.fresh {copies : Nat} {ids : List String} (h : Renewed source copies s ids s')
    (hsource : Function.Injective source.spell) : Fresh source copies s ids s' where
  nodup := h.drawn.nodup_iff.mpr (IdSource.drawn_nodup hsource s s')
  new := fun _ hk hmem => IdSource.spell_not_mem_drawn hsource hk (h.drawn.mem_iff.mp hmem)
  length := h.length
  count := h.count
  others := h.others

namespace Graph

/-- Copies, joins and copies with one more action draw one identity for each action at every depth,
and never one that was drawn before. -/
theorem copies_fresh {key : Nat} {stem : String} {a b : Graph}
    (ha : a.Shares (.sequential key stem)) (hb : b.Shares (.sequential key stem)) (s : Supply) :
    Fresh (.sequential key stem) a.identities.length s (a.copy.run s).1.identities
        (a.copy.run s).2 ∧
      Fresh (.sequential key stem) (a.identities.length + b.identities.length) s
        ((a.merge b).run s).1.identities ((a.merge b).run s).2 ∧
      ∀ n ∈ b.members, ∀ m, ((a.mergeNode n).run.run s).1 = .ok m →
        Fresh (.sequential key stem) (a.identities.length + n.identities.length) s m.identities
          ((a.mergeNode n).run.run s).2 := by
  have hsource := IdSource.sequential_injective key stem
  refine ⟨(ha.copy_renewed s).fresh hsource, (ha.merge_renewed hb s).fresh hsource, ?_⟩
  intro n hn m hm
  exact (ha.mergeNode_renewed (hb.member hn) hm).fresh hsource

def numberedSteps : Graph :=
  let step := Node.detached "id-1" "Step" "Compose" []
  let again := Node.detached "id-2" "Step" "Compose" []
  ((empty false (.sequential 0 "id")).link step sentinel []).link again 1 RunMode.normal.states

def numberedScope : Graph :=
  let scope := (Node.detached "id-3" "Scope" "Scope" []).nest ["actions"] (.graph numberedSteps)
  (empty true (.sequential 0 "id")).link scope sentinel []

theorem numberedSteps_shares : numberedSteps.Shares (.sequential 0 "id") := by
  refine shares_of rfl fun n hn path g hslot => ?_
  rcases List.mem_cons.mp hn with rfl | hn
  · cases hslot
  · rw [List.mem_singleton.mp hn] at hslot
    cases hslot

theorem numberedScope_shares : numberedScope.Shares (.sequential 0 "id") := by
  refine shares_of rfl fun n hn path g hslot => ?_
  rw [List.mem_singleton.mp hn] at hslot
  cases List.mem_singleton.mp hslot
  exact numberedSteps_shares

theorem numberedScope_copies_fresh :
    numberedScope.Shares (.sequential 0 "id") ∧ numberedSteps.Shares (.sequential 0 "id") ∧
      ((numberedScope.merge numberedSteps).run ⟨[(0, 3)]⟩).1.identities =
        ["id-5", "id-6", "id-4", "id-7", "id-8"] ∧
      Fresh (.sequential 0 "id") 5 ⟨[(0, 3)]⟩
        ((numberedScope.merge numberedSteps).run ⟨[(0, 3)]⟩).1.identities
        ((numberedScope.merge numberedSteps).run ⟨[(0, 3)]⟩).2 :=
  ⟨numberedScope_shares, numberedSteps_shares, rfl,
    (copies_fresh numberedScope_shares numberedSteps_shares ⟨[(0, 3)]⟩).2.1⟩

end Graph

end Workflow
