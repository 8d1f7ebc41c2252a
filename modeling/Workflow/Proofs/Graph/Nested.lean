import Workflow.Proofs.Graph.Reachable

/-!
# What is nested in reachable graphs

A property of actions that survives copying, editing payloads and being put into a graph holds of
all actions of a reachable graph, if it holds of those that were put in. So what is nested in actions
are reachable graphs at every depth: copying an action copies the graphs that are nested in it. And
no declaration of a variable comes into a graph that is not a root, since putting it in is refused.
-/

set_option autoImplicit false

namespace Workflow

/-- Properties of actions that no operation on graphs destroys. -/
structure Stable (Q : Node → Prop) : Prop where
  copy : ∀ {n c : Node}, IsCopy n c → Q n → Q c
  edit : ∀ {n : Node} (payload : Fields), Q n → Q { n with payload := payload }
  place : ∀ {n : Node} (name : String) (runAfter : List (String × List State)) (isAttached : Bool),
    Q n → Q { n with name := name, runAfter := runAfter, isAttached := isAttached }

namespace Graph
variable {P Q : Node → Prop}

theorem Spliced.stable {base b g : Graph} {anchor : Nat} (hQ : Stable Q) (hbase : base.WellFormed)
    (hb : b.WellFormed) (h : Spliced base anchor b b.size g)
    (hbaseQ : ∀ n ∈ base.members, Q n) (hbQ : ∀ n ∈ b.members, Q n) : ∀ n ∈ g.members, Q n := by
  intro x hx
  obtain ⟨i, hi, hxi⟩ := mem_members_iff.mp hx
  have hlt := (List.getElem?_eq_some_iff.mp hxi).1
  rcases h.position_cases hbase hlt with hib | ⟨j, hj, hjb, rfl⟩
  · rw [h.kept i hib] at hxi
    exact hbaseQ x (mem_members_iff.mpr ⟨i, hi, hxi⟩)
  · have hbsize := hb.length_eq_size
    have hjlt : j < b.nodes.length := by omega
    have hn := List.getElem?_eq_getElem hjlt
    obtain ⟨p, hp⟩ := hb.exists_parent hjlt
    obtain ⟨c, name, hc, -, -, hnode⟩ := h.image j _ p hj hjb hn hp
    obtain rfl := Option.some.inj (hnode.symm.trans hxi)
    exact hQ.place (n := c) _ _ _ (hQ.copy hc (hbQ _ (mem_members_iff.mpr ⟨j, hj, hn⟩)))

theorem Duplicated.stable {g c : Graph} (hQ : Stable Q) (h : Duplicated g c)
    (hg : ∀ n ∈ g.members, Q n) : ∀ n ∈ c.members, Q n := by
  intro x hx
  obtain ⟨i, hi, hxi⟩ := mem_members_iff.mp hx
  have hlt := (List.getElem?_eq_some_iff.mp hxi).1
  rw [h.length] at hlt
  have hn := List.getElem?_eq_getElem hlt
  obtain ⟨y, hy, hcy⟩ := h.node i _ hi hn
  obtain rfl := Option.some.inj (hcy.symm.trans hxi)
  exact hQ.place _ _ _ (hQ.copy hy (hg _ (mem_members_iff.mpr ⟨i, hi, hn⟩)))

theorem WellFormed.insert_stable {g g' : Graph} (hQ : Stable Q) (h : g.WellFormed) {c : Insertion}
    {name : String} (hc : g.insert c = .ok (name, g')) (hg : ∀ n ∈ g.members, Q n)
    (hn : Q c.node) : ∀ n ∈ g'.members, Q n := by
  intro x hx
  obtain ⟨p, -, -, -, rfl⟩ := h.insert_ok hc
  obtain ⟨i, hi, hxi⟩ := mem_members_iff.mp hx
  rw [link_nodes, getElem?_concat_iff] at hxi
  rcases hxi with hxi | ⟨-, rfl⟩
  · exact hg x (mem_members_iff.mpr ⟨i, hi, hxi⟩)
  · exact hQ.place (n := c.node) _ _ _ hn

theorem updatePayload_stable {g : Graph} (hQ : Stable Q) (name : String) (f : Fields → Fields)
    (hg : ∀ n ∈ g.members, Q n) : ∀ n ∈ (g.updatePayload name f).members, Q n := by
  intro x hx
  obtain ⟨i, hi, hxi⟩ := mem_members_iff.mp hx
  rw [updatePayload_nodes, Option.map_eq_some_iff] at hxi
  obtain ⟨n, hn, rfl⟩ := hxi
  have hq := hg n (mem_members_iff.mpr ⟨i, hi, hn⟩)
  split
  · exact hQ.edit _ hq
  · exact hq

/-- A stable property of all actions that are put in is one of all actions of the graph. -/
theorem Reachable.forall_members {g : Graph} (hQ : Stable Q) (hP : ∀ n, P n → Q n)
    (h : g.Reachable P) : ∀ n ∈ g.members, Q n := by
  induction h with
  | empty => exact fun n hn => absurd hn List.not_mem_nil
  | insert hg hn hc ih => exact hg.wellFormed.insert_stable hQ hc ih (hP _ hn)
  | edit name f _ ih => exact updatePayload_stable hQ name f ih
  | copy s hg ih => exact (copy_duplicated hg.wellFormed s).stable hQ ih
  | merge s ha hb iha ihb =>
    obtain ⟨base, hdup, h⟩ := merge_spliced ha.wellFormed hb.wellFormed s
    have hbase := hdup.stable hQ iha
    exact h.stable hQ (hdup.wellFormed.withRoot _) hb.wellFormed (fun n hn => hbase n hn) ihb
  | mergeNode s hg hn hm ih =>
    obtain ⟨c, name, hc, hins⟩ := mergeNode_ok hm
    have hdup := copy_duplicated hg.wellFormed s
    exact hdup.wellFormed.insert_stable hQ hins (hdup.stable hQ ih) (hQ.copy hc (hP _ hn))

end Graph

/-- A stable property of all actions that can be made is shown for fresh ones and for those with one
more nested sequence. -/
theorem Node.Made.induct {Q : Node → Prop} (hQ : Stable Q)
    (fresh : ∀ id name kind payload, Q (Node.detached id name kind payload))
    (nestRaw : ∀ {n : Node} (path : List String) (actions : Raw),
      Q n → Q (n.nest path (.raw actions)))
    (nestGraph : ∀ {n : Node} {g : Graph} (path : List String),
      Q n → g.Reachable Node.Made → g.Reachable Q → Q (n.nest path (.graph g)))
    {n : Node} (h : n.Made) : Q n := by
  -- graphs of actions that can be made are graphs of actions with the property
  exact @Node.Made.rec (fun n _ => Q n) (fun g _ => g.Reachable Q)
    fresh (fun payload _ ih => hQ.edit payload ih) (fun path actions _ ih => nestRaw path actions ih)
    (fun path _ hg ih ihg => nestGraph path ih hg ihg)
    (fun _ hmem ihg => ihg.forall_members hQ (fun _ hq => hq) _ hmem)
    (fun source s _ ih => hQ.copy ⟨source, s, rfl⟩ ih)
    Graph.Reachable.empty (fun _ _ hc ih ihn => ih.insert ihn hc) (fun name f _ ih => ih.edit name f)
    (fun s _ ih => ih.copy s) (fun s _ _ iha ihb => iha.merge s ihb)
    (fun s _ _ hm ih ihn => ih.mergeNode s ihn hm) n h

def Nested.Made : Nested Node → Prop
  | .graph g => Graph.Reachable Node.Made g
  | .raw _ => True

theorem copyNested_graph (g : Graph) (s : Supply) :
    (copyNested (.graph g)).run s = (.graph (g.copy.run s).1, (g.copy.run s).2) := rfl

theorem copySlots_cons (slot : Slot Node) (rest : List (Slot Node)) (s : Supply) :
    (copySlots (slot :: rest)).run s =
      (⟨slot.path, ((copyNested slot.actions).run s).1⟩ ::
        ((copySlots rest).run ((copyNested slot.actions).run s).2).1,
        ((copySlots rest).run ((copyNested slot.actions).run s).2).2) := rfl

theorem mem_copySlots {slots : List (Slot Node)} {s : Supply} {x : Slot Node}
    (h : x ∈ ((copySlots slots).run s).1) :
    ∃ slot ∈ slots, ∃ s', x = ⟨slot.path, ((copyNested slot.actions).run s').1⟩ := by
  induction slots generalizing s with
  | nil => exact absurd h List.not_mem_nil
  | cons slot rest ih =>
    rw [copySlots_cons] at h
    rcases List.mem_cons.mp h with rfl | hx
    · exact ⟨slot, List.mem_cons_self, s, rfl⟩
    · obtain ⟨slot', hmem, s', rfl⟩ := ih hx
      exact ⟨slot', List.mem_cons_of_mem slot hmem, s', rfl⟩

theorem Nested.Made.copy {a : Nested Node} (h : a.Made) (s : Supply) :
    ((copyNested a).run s).1.Made := by
  cases a with
  | raw actions => exact trivial
  | graph g =>
    rw [copyNested_graph]
    exact Graph.Reachable.copy s h

theorem Node.Made.nested {n : Node} (h : n.Made) : ∀ slot ∈ n.slots, slot.actions.Made := by
  apply Node.Made.induct (Q := fun n => ∀ slot ∈ n.slots, slot.actions.Made) _ _ _ _ h
  · constructor
    case copy =>
      rintro n c ⟨source, s, rfl⟩ hn slot hslot
      rw [Node.copy_run] at hslot
      obtain ⟨original, hmem, s', rfl⟩ := mem_copySlots hslot
      exact (hn original hmem).copy s'
    case edit => exact fun _ hn => hn
    case place => exact fun _ _ _ hn => hn
  · exact fun _ _ _ _ slot hslot => absurd hslot List.not_mem_nil
  · intro n path actions hn slot hslot
    rcases List.mem_append.mp hslot with hslot | hslot
    · exact hn slot hslot
    · rw [List.mem_singleton.mp hslot]
      exact trivial
  · intro n g path hn hg _ slot hslot
    rcases List.mem_append.mp hslot with hslot | hslot
    · exact hn slot hslot
    · rw [List.mem_singleton.mp hslot]
      exact hg

theorem stable_not_declaration : Stable fun n => n.kind ≠ declarationKind where
  copy := by
    intro n c hc hn
    obtain ⟨id, slots, rfl⟩ := hc.eq
    exact hn
  edit := fun _ hn => hn
  place := fun _ _ _ hn => hn

namespace Graph
variable {P : Node → Prop} {g : Graph}

/-- A graph that is not a root holds no declaration, whatever actions were put in. -/
theorem Reachable.not_declaration (h : g.Reachable P) (hroot : g.isRoot = false) :
    ∀ n ∈ g.members, n.kind ≠ declarationKind := by
  induction h with
  | empty isRoot source => exact fun n hn => absurd hn List.not_mem_nil
  | insert hg _ hins ih =>
    obtain ⟨-, -, hallowed, -⟩ := insert_ok_iff.mp hins
    rw [insert_isRoot hins] at hroot
    have hkind := hallowed.resolve_left (by rw [hroot]; exact Bool.false_ne_true)
    exact hg.wellFormed.insert_stable stable_not_declaration hins (ih hroot) hkind
  | edit name f hg ih =>
    refine updatePayload_stable stable_not_declaration name f (ih ?_)
    rw [← hroot, Graph.updatePayload]
    split <;> rfl
  | copy s hg ih =>
    have hdup := copy_duplicated hg.wellFormed s
    exact hdup.stable stable_not_declaration (ih (hdup.isRoot.symm.trans hroot))
  | merge s ha hb iha ihb =>
    obtain ⟨base, hdup, hsplice⟩ := merge_spliced ha.wellFormed hb.wellFormed s
    -- a join is a root if either graph is, so neither was one
    have hflags := hsplice.isRoot.symm.trans hroot
    simp only [Bool.or_eq_false_iff] at hflags
    have hbase := hdup.stable stable_not_declaration (iha (hdup.isRoot.symm.trans hflags.1))
    exact hsplice.stable stable_not_declaration (hdup.wellFormed.withRoot _) hb.wellFormed
      (fun n hn => hbase n hn) (ihb hflags.2)
  | mergeNode s hg _ hm ih =>
    obtain ⟨c, name, -, hins⟩ := mergeNode_ok hm
    have hdup := copy_duplicated hg.wellFormed s
    obtain ⟨-, -, hallowed, -⟩ := insert_ok_iff.mp hins
    rw [insert_isRoot hins] at hroot
    have hkind := hallowed.resolve_left (by rw [hroot]; exact Bool.false_ne_true)
    exact hdup.wellFormed.insert_stable stable_not_declaration hins
      (hdup.stable stable_not_declaration (ih (hdup.isRoot.symm.trans hroot))) hkind

def scopeAndStep : Graph :=
  let scope := (Node.detached "scope-1" "Scope" "Scope" []).nest ["actions"] (.graph twoSteps)
  let step := Node.detached "step-3" "Step" "Compose" []
  ((empty false (.sequential 1 "id")).link scope sentinel []).link step 1
    RunMode.onlyIfFailed.states

theorem scopeAndStep_reachable : scopeAndStep.Reachable Node.Made := by
  have hscope := (Node.Made.fresh "scope-1" "Scope" "Scope" []).nestGraph ["actions"]
    twoSteps_reachable
  have hfirst := (Reachable.empty false (.sequential 1 "id")).insert (c := .top _) hscope rfl
  exact hfirst.insert
    (c := .append (Node.detached "step-3" "Step" "Compose" []) .onlyIfFailed)
    (Node.Made.fresh ..) rfl

end Graph

end Workflow
