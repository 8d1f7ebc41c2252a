import Workflow.Proofs.Graph.Growth
import Workflow.Proofs.Graph.Identity
import Workflow.Proofs.Graph.Merge

/-!
# Actions at the end of a graph

To append an action is to put it in after the action that was appended last, by the name of that
one, and at the top if there is none yet. A graph followed by a copy of one more action is the join
of the graph with a graph of this action alone. A copy does not depend on identities, so the copy of
a copy is what a copy is; and it is new to the graph and hangs nowhere, so it is not refused for
that. One name makes a difference: an action with the name of the sentinel gets another name in a
graph of its own, and the join starts from that one.
-/

set_option autoImplicit false

namespace Workflow

theorem Node.anonymous_gateBelow (n : Node) (origin parent : Nat) :
    n.anonymous.gateBelow origin parent = n.gateBelow origin parent := by
  unfold Node.gateBelow Node.gate
  rw [Node.anonymous_runAfter]

/-- A copy does not depend on the identities in what is copied. -/
def Node.CopiesAnonymous (n : Node) : Prop :=
  ∀ (source : IdSource) (s : Supply), (n.anonymous.copy source).run s = (n.copy source).run s

namespace Graph

theorem graftFrom_anonymous {rest : List Node} (hrest : ∀ n ∈ rest, n.CopiesAnonymous)
    (parents : List Nat) (anchor : Nat) (images : List Nat) (g : Graph) (s : Supply) :
    (graftFrom parents anchor images g (rest.map Node.anonymous)).run s =
      (graftFrom parents anchor images g rest).run s := by
  induction rest generalizing images g s with
  | nil => rfl
  | cons n rest ih =>
    have hn := hrest n List.mem_cons_self g.source s
    have hrest := ih fun m hm => hrest m (List.mem_cons_of_mem n hm)
    rw [List.map_cons]
    unfold graftFrom
    simp only [StateT.run_bind, Node.anonymous_gateBelow]
    rw [hn]
    exact hrest _ _ _

theorem copy_anonymous_of {g : Graph} (h : ∀ n ∈ g.members, n.CopiesAnonymous) (s : Supply) :
    g.anonymous.copy.run s = g.copy.run s := by
  have hmembers : g.anonymous.members = g.members.map Node.anonymous := List.map_tail.symm
  have hgraft := graftFrom_anonymous h g.parents sentinel [sentinel] (empty g.isRoot g.source) s
  have hresume (c : Graph) : c.resumeAt g.anonymous = c.resumeAt g := by
    simp only [resumeAt, nodeAt?, anonymous, List.getElem?_map]
    cases g.nodes[g.lastAppended]? with
    | none => rfl
    | some n => rw [Option.map_some, Option.bind_some, Option.bind_some, Node.anonymous_name]
  rw [copy_run_eq, copy_run_eq, hmembers, hresume]
  exact congrArg (fun r => (r.1.resumeAt g, r.2)) hgraft

end Graph

theorem copySlots_anonymous_of {slots : List (Slot Node)}
    (h : ∀ path g, ⟨path, .graph g⟩ ∈ slots → ∀ m ∈ Graph.members g, m.CopiesAnonymous)
    (s : Supply) : (copySlots (anonymousSlots slots)).run s = (copySlots slots).run s := by
  induction slots generalizing s with
  | nil => rfl
  | cons slot rest ih =>
    obtain ⟨path, actions⟩ := slot
    have hrest := ih fun path g hslot => h path g (List.mem_cons_of_mem _ hslot)
    have hactions : (copyNested (anonymousNested actions)).run s = (copyNested actions).run s := by
      cases actions with
      | raw r => rfl
      | graph g =>
        have hg := Graph.copy_anonymous_of (h path g List.mem_cons_self) s
        rw [anonymousNested_graph, copyNested_graph, copyNested_graph, hg]
    rw [anonymousSlots, copySlots_cons, copySlots_cons, hactions, hrest]

theorem Node.copiesAnonymous (n : Node) : n.CopiesAnonymous := by
  induction n using Node.induct with
  | step n ih =>
    intro source s
    have hslots := copySlots_anonymous_of ih (s.advance source.key)
    rw [Node.copy_run, Node.copy_run, Node.anonymous_eq]
    dsimp only
    rw [hslots]

/-- What is copied once more gives the same copies. -/
theorem Node.Made.copy_copy {n x : Node} (hn : n.Made) (hx : IsCopy n x) (source : IdSource)
    (s : Supply) : (x.copy source).run s = (n.copy source).run s := by
  rw [← x.copiesAnonymous, Node.Made.copy_anonymous n hn x hx, n.released.copiesAnonymous,
    Node.copy_run, Node.copy_run]
  rfl

namespace Graph
variable {g : Graph}

theorem check_after {name : String} {p : Nat} (hname : g.indexOf? name = some p) (n : Node) :
    g.check n (some name) = (g.check n none).map fun _ => p := by
  rw [check_eq, check_eq]
  simp only [resolve?, hname]
  split_ifs <;> rfl

theorem append_eq_addAfter {name : String} (hname : g.indexOf? name = some g.lastAppended)
    (n : Node) (mode : RunMode) : g.append n mode = g.addAfter n name mode := by
  rw [append, addAfter, check_after hname]
  cases g.check n none <;> rfl

/-- An action at the top is not gated, whatever the states. -/
theorem link_sentinel (n : Node) (states states' : List State) :
    g.link n sentinel states = g.link n sentinel states' := rfl

theorem append_eq_addTop (hlast : g.lastAppended = sentinel) (n : Node) (mode : RunMode) :
    g.append n mode = g.addTop n := by
  rw [append, addTop, linked, linked, hlast, link_sentinel n mode.states []]

theorem WellFormed.exists_last (h : g.WellFormed) (hsize : g.size ≠ 0) :
    ∃ last, g.last? = some last ∧ g.indexOf? last.name = some g.lastAppended := by
  have hroot : g.lastAppended ≠ sentinel := by
    rw [h.lastAppended_eq_size]
    exact hsize
  have hnode := List.getElem?_eq_getElem h.last_lt
  refine ⟨_, (actionAt?_of_ne hroot).trans hnode, ?_⟩
  exact (h.indexOf?_eq_some_iff _ _).mpr ⟨hroot, _, hnode, rfl⟩

/-- To append an action is to put it in after the action that was appended last, with the same
result or the same error, and to put it in at the top of a graph without actions. -/
theorem Reachable.append_outcome {P : Node → Prop} (h : g.Reachable P) (n : Node) (mode : RunMode) :
    (g.size ≠ 0 →
      ∃ last, g.last? = some last ∧ g.append n mode = g.addAfter n last.name mode) ∧
    (g.size = 0 → g.append n mode = g.addTop n) := by
  have hw := h.wellFormed
  constructor
  · intro hsize
    obtain ⟨last, hlast, hindex⟩ := hw.exists_last hsize
    exact ⟨last, hlast, append_eq_addAfter hindex n mode⟩
  · intro hsize
    exact append_eq_addTop (hw.lastAppended_eq_size.trans hsize) n mode

/-- The last action of a join is one that was renamed on the way. -/
theorem twoSteps_scopeAndStep_append :
    let g := ((twoSteps.merge scopeAndStep).run {}).1
    let step := Node.detached "step-4" "Step" "Compose" []
    g.Reachable Node.Made ∧ g.names = ["Step", "Step_1", "Scope", "Step_2"] ∧
      g.append step .force = g.addAfter step "Step_2" .force := by
  intro g step
  have h : g.Reachable Node.Made := twoSteps_reachable.merge {} scopeAndStep_reachable
  obtain ⟨last, hlast, happend⟩ := (Reachable.append_outcome h step .force).1 (Nat.succ_ne_zero 3)
  have hname : last.name = "Step_2" := by
    have hsome := congrArg (Option.map (·.name)) hlast
    exact (Option.some.inj hsome).symm
  rw [hname] at happend
  exact ⟨h, rfl, happend⟩

/-- The copy of an action that is drawn after those of the actions of a graph, and the supply behind
it. -/
def copyBehind (g : Graph) (n : Node) (s : Supply) : Node × Supply :=
  (n.copy g.source).run (g.copy.run s).2

theorem copyBehind_eq (g : Graph) (n : Node) (s : Supply) : ∃ slots,
    (g.copyBehind n s).1 = ⟨g.source.spell ((g.copy.run s).2.count g.source.key), n.name, n.kind,
      n.payload, slots, [], false⟩ :=
  ⟨_, congrArg Prod.fst (Node.copy_run g.source n _)⟩

/-- A copy of a graph with a copy of an action at its end, which asks for a name. -/
def extended (g : Graph) (n : Node) (name : String) (s : Supply) : Graph :=
  (g.copy.run s).1.link { (g.copyBehind n s).1 with name := name } (g.copy.run s).1.lastAppended
    RunMode.normal.states

/-- Of an action that is new and put in nowhere, only the kind is left to be checked. -/
theorem check_new {n : Node} (hid : g.hasIdentity n.id = false) (hdetached : n.isAttached = false) :
    g.check n none = if g.isRoot = false ∧ n.kind = declarationKind then
      .error (.restrictedKind n.name n.kind) else .ok sentinel := by
  rw [check_eq, hid, hdetached]
  simp [resolve?]

/-- The identity of the copy was not drawn for any action of the copied graph. -/
theorem copy_hasIdentity (hsource : Function.Injective g.source.spell) (n : Node) (s : Supply) :
    (g.copy.run s).1.hasIdentity (g.copyBehind n s).1.id = false := by
  obtain ⟨slots, hc⟩ := g.copyBehind_eq n s
  rw [hasIdentity_eq_false_iff, hc]
  intro m hm hid
  have hdrawn := (g.copy_members s).subset (List.mem_map_of_mem hm)
  rw [hid] at hdrawn
  exact IdSource.spell_count_not_mem_drawn hsource s _ hdrawn

theorem WellFormed.mergeNode_eq (hg : g.WellFormed) (hsource : Function.Injective g.source.spell)
    (n : Node) (s : Supply) : (g.mergeNode n).run.run s =
      (if g.isRoot = false ∧ n.kind = declarationKind then .error (.restrictedKind n.name n.kind)
        else .ok (g.extended n n.name s), (g.copyBehind n s).2) := by
  have hfresh := g.copy_hasIdentity hsource n s
  obtain ⟨slots, hc⟩ := g.copyBehind_eq n s
  have hcheck := check_new hfresh (by rw [hc])
  have hname : { (g.copyBehind n s).1 with name := n.name } = (g.copyBehind n s).1 := by rw [hc]
  have hrun : (g.mergeNode n).run.run s =
      (((g.copy.run s).1.append (g.copyBehind n s).1 .normal).map (·.2), (g.copyBehind n s).2) := by
    rw [copyBehind, ← (g.copy_keeps s).1]
    rfl
  rw [hrun, append, hcheck, (copy_duplicated hg s).isRoot, extended, hname, hc]
  split <;> rfl

/-- The graph of one action, at the top and under its first free name. -/
def single (isRoot : Bool) (source : IdSource) (n : Node) : Graph :=
  (empty isRoot source).link n sentinel []

theorem addTop_single {isRoot : Bool} {n x : Node} (hx : IsCopy n x) (source : IdSource)
    (hallowed : isRoot = true ∨ n.kind ≠ declarationKind) : (empty isRoot source).addTop x =
      .ok (firstFree [reservedName] n.name, single isRoot source x) := by
  obtain ⟨id, slots, rfl⟩ := hx.eq
  exact insert_ok_iff (c := .top _).mpr ⟨rfl, rfl, hallowed, sentinel, rfl, rfl, rfl⟩

theorem WellFormed.merge_single (hg : g.WellFormed) {n x : Node} (hn : n.Made) (hx : IsCopy n x)
    (source : IdSource) (s : Supply) : (g.merge (single g.isRoot source x)).run s =
      (g.extended n (firstFree [reservedName] n.name) s, (g.copyBehind n s).2) := by
  have hdup := copy_duplicated hg s
  let member := (empty g.isRoot source).placed x sentinel []
  have hbase : { (g.copy.run s).1 with isRoot := (g.copy.run s).1.isRoot || g.isRoot } =
      (g.copy.run s).1 := by
    rw [hdup.isRoot, Bool.or_self, ← hdup.isRoot]
  have hcopy : (member.copy g.source).run (g.copy.run s).2 =
      ({ (g.copyBehind n s).1 with name := firstFree [reservedName] n.name },
        (g.copyBehind n s).2) := by
    rw [copyBehind, ← Node.Made.copy_copy hn hx, ← hx.name, Node.copy_run, Node.copy_run]
    rfl
  -- the one action is put in below the last one of the graph
  have hrun : (g.merge (single g.isRoot source x)).run s =
      ((g.copy.run s).1.link ((member.copy g.source).run (g.copy.run s).2).1
        (g.copy.run s).1.lastAppended (member.gateBelow sentinel (g.copy.run s).1.lastAppended),
        ((member.copy g.source).run (g.copy.run s).2).2) := by
    rw [merge_run_eq, ← hdup.source]
    change (graftFrom [sentinel, sentinel] _ _ { (g.copy.run s).1 with
      isRoot := (g.copy.run s).1.isRoot || g.isRoot } [member]).run _ = _
    rw [hbase]
    rfl
  rw [hrun, hcopy, extended, Node.gateBelow]
  by_cases hlast : (g.copy.run s).1.lastAppended = sentinel
  · rw [if_pos hlast, hlast, link_sentinel _ [] RunMode.normal.states]
  · rw [if_neg hlast, if_pos rfl]

/-- The graph where the last action has another name. -/
def renameLast (g : Graph) (name : String) : Graph :=
  { g with
    nodes := g.nodes.modify g.lastAppended fun n => { n with name := name }
    registry := Registry.insert ⟨g.registry.pairs.tail⟩ name g.lastAppended }

theorem link_renamed (g : Graph) (n : Node) (name : String) (p : Nat) (states : List State) :
    g.link { n with name := name } p states =
      (g.link n p states).renameLast (g.freeName name) := by
  have hlast : g.nodes.length < (g.nodes ++ [g.placed n p states]).length := by simp
  have hnodes : (g.nodes ++ [g.placed n p states]).modify g.nodes.length
      (fun m => { m with name := g.freeName name }) =
        g.nodes ++ [g.placed { n with name := name } p states] := by
    rw [List.modify_eq_take_cons_drop hlast]
    simp [placed, Node.attach]
  have hposition : (g.link n p states).lastAppended = g.nodes.length := rfl
  rw [renameLast, link_nodes, hposition, hnodes]
  rfl

theorem Duplicated.freeName {c : Graph} (hg : g.WellFormed) (h : Duplicated g c) (name : String) :
    c.freeName name = g.freeName name := by
  rw [Graph.freeName, Graph.freeName, h.wellFormed.registry, h.names hg, ← hg.registry]

section Extended
variable (hg : g.WellFormed) (n : Node) (name : String) (s : Supply)
include hg

theorem WellFormed.extended_lastName :
    (g.extended n name s).last?.map (·.name) = some (g.freeName name) := by
  have hdup := copy_duplicated hg s
  rw [extended, hdup.wellFormed.link_last?, Option.map_some, placed_name, hdup.freeName hg]

theorem WellFormed.extended_renamed (other : String) :
    g.extended n other s = (g.extended n name s).renameLast (g.freeName other) := by
  have hdup := copy_duplicated hg s
  rw [← hdup.freeName hg, extended, extended, ← link_renamed]

theorem WellFormed.extended_eq_iff {other : String} :
    g.extended n other s = g.extended n name s ↔ g.freeName other = g.freeName name := by
  constructor
  · intro heq
    have hother := hg.extended_lastName n other s
    rw [heq, hg.extended_lastName] at hother
    exact (Option.some.inj hother).symm
  · intro heq
    rw [hg.extended_renamed n name s other, heq, ← hg.extended_renamed]

end Extended

/-- A graph with a copy of one more action is what its join with the graph of a copy of this action
is, and both draw the same identities. Only an action with the name of the sentinel, where its first
candidate is taken, gets another name in the join, and nothing else is different. The copy itself is
never refused but for its kind. -/
theorem Reachable.mergeNode_outcome {P : Node → Prop} (h : g.Reachable P)
    (hsource : Function.Injective g.source.spell) {n : Node} (hn : n.Made) (s : Supply) :
    (∀ e, ((g.mergeNode n).run.run s).1 = .error e ↔
      (g.isRoot = false ∧ n.kind = declarationKind) ∧ e = .restrictedKind n.name n.kind) ∧
    ∀ m, ((g.mergeNode n).run.run s).1 = .ok m → ∀ source x, IsCopy n x →
      ∃ name alone joined, (Graph.empty g.isRoot source).addTop x = .ok (name, alone) ∧
        (g.merge alone).run s = (joined, ((g.mergeNode n).run.run s).2) ∧
        (joined = m ↔ n.name ≠ reservedName ∨ candidate reservedName 1 ∉ g.names) ∧
        ∃ own other, IsFirstFree (reservedName :: g.names) n.name own ∧
          IsFirstFree (reservedName :: g.names) name other ∧
          m.last?.map (·.name) = some own ∧ joined = m.renameLast other := by
  have hg := h.wellFormed
  rw [hg.mergeNode_eq hsource]
  constructor
  · intro e
    by_cases hkind : g.isRoot = false ∧ n.kind = declarationKind
    · simp [hkind, eq_comm]
    · simp [hkind]
  · intro m hm source x hx
    have hkind : ¬ (g.isRoot = false ∧ n.kind = declarationKind) := by
      intro hkind
      rw [if_pos hkind] at hm
      cases hm
    rw [if_neg hkind, Except.ok.injEq] at hm
    subst hm
    have hadd := addTop_single hx source (not_restricted_iff.mp hkind)
    refine ⟨_, _, _, hadd, hg.merge_single hn hx source s, ?_, _, _, ?_, ?_,
      hg.extended_lastName n n.name s, hg.extended_renamed n n.name s _⟩
    · rw [hg.extended_eq_iff, hg.freeName_eq, hg.freeName_eq]
      exact firstFree_twice_iff reservedName g.names n.name
    · rw [hg.freeName_eq]
      exact firstFree_isFirst _ _
    · rw [hg.freeName_eq]
      exact firstFree_isFirst _ _

/-- The first action of a graph once more: it is attached, and its name and that of the copy are
taken. -/
theorem twoSteps_mergeNode_outcome :
    let n := { Node.detached "step-1" "Step" "Compose" [] with isAttached := true }
    let x := ((n.copy twoSteps.source).run {}).1
    twoSteps.Reachable Node.Made ∧ Function.Injective twoSteps.source.spell ∧ n ∈ twoSteps.members ∧
      ∃ m name alone, ((twoSteps.mergeNode n).run.run {}).1 = .ok m ∧
        m.names = ["Step", "Step_1", "Step_2"] ∧
        (empty twoSteps.isRoot twoSteps.source).addTop x = .ok (name, alone) ∧
        ((twoSteps.merge alone).run {}).1 = m := by
  intro n x
  have hsource : Function.Injective twoSteps.source.spell := IdSource.sequential_injective 0 "id"
  have hmem : n ∈ twoSteps.members := List.mem_cons_self
  have hn := Node.Made.member twoSteps_reachable hmem
  obtain ⟨-, hjoin⟩ := Reachable.mergeNode_outcome twoSteps_reachable hsource hn {}
  obtain ⟨name, alone, joined, hadd, hmerge, hsame, -⟩ :=
    hjoin _ rfl twoSteps.source x ⟨twoSteps.source, {}, rfl⟩
  have hname : n.name ≠ reservedName := by decide
  refine ⟨twoSteps_reachable, hsource, hmem, _, name, alone, rfl, rfl, hadd, ?_⟩
  rw [hmerge, hsame.mpr (.inl hname)]

def rootStep : Graph :=
  (empty false (.sequential 0 "id")).link (Node.detached "id-1" reservedName "Compose" []) sentinel []

/-- An action with the name of the sentinel, which another one had before it. In the graph of its own
the copy has the first candidate for this name, and the join goes on from there. -/
theorem rootStep_join_ne :
    let n := Node.detached "id-2" reservedName "Compose" []
    let x := ((n.copy (.sequential 0 "id")).run ⟨[(0, 2)]⟩).1
    let s : Supply := ⟨[(0, 3)]⟩
    rootStep.Reachable Node.Made ∧ Function.Injective rootStep.source.spell ∧ n.Made ∧
      rootStep.names = ["root_1"] ∧
      ∃ m alone, ((rootStep.mergeNode n).run.run s).1 = .ok m ∧ m.names = ["root_1", "root_2"] ∧
        (empty rootStep.isRoot rootStep.source).addTop x = .ok ("root_1", alone) ∧
        ((rootStep.merge alone).run s).1.names = ["root_1", "root_1_1"] := by
  intro n x s
  have h : rootStep.Reachable Node.Made :=
    (Reachable.empty false (.sequential 0 "id")).insert
      (c := .top (Node.detached "id-1" reservedName "Compose" [])) (Node.Made.fresh ..) rfl
  have hsource : Function.Injective rootStep.source.spell := IdSource.sequential_injective 0 "id"
  have hkind : ¬ (rootStep.isRoot = false ∧ n.kind = declarationKind) := by decide
  have hrun := h.wellFormed.mergeNode_eq hsource n s
  rw [if_neg hkind] at hrun
  have hadd := addTop_single (n := n) (x := x) ⟨_, _, rfl⟩ rootStep.source
    (not_restricted_iff.mp hkind)
  exact ⟨h, hsource, .fresh .., rfl, _, _, congrArg Prod.fst hrun, rfl, hadd, rfl⟩

end Graph

end Workflow
