import Workflow.Graph.Fields
import Workflow.Proofs.Graph.Anonymous

/-!
# What is put into a graph and into its copy

The same actions are put into a graph and into a copy of it, one after the other, and refused ones
are left out. Both graphs give the same results all the way and stay equal apart from the identities
at the positions that were copied. Two graphs that are equal in that sense cannot be told apart by
names, references or what the actions are.
-/

set_option autoImplicit false

namespace Workflow

def Node.blankBelow (k i : Nat) (n : Node) : Node := if i < k then n.anonymous else n

namespace Graph

/-- Puts an action where it is to go. A refused one leaves the graph as it was. -/
def attempt (g : Graph) (x : Insertion) : Except GraphError String × Graph :=
  match g.insert x with
  | .ok (name, joined) => (.ok name, joined)
  | .error e => (.error e, g)

def attemptAll (g : Graph) : List Insertion → List (Except GraphError String) × Graph
  | [] => ([], g)
  | x :: rest =>
    let (result, next) := g.attempt x
    let (results, final) := next.attemptAll rest
    (result :: results, final)

theorem attemptAll_cons (g : Graph) (x : Insertion) (rest : List Insertion) :
    g.attemptAll (x :: rest) = ((g.attempt x).1 :: ((g.attempt x).2.attemptAll rest).1,
      ((g.attempt x).2.attemptAll rest).2) := rfl

theorem attempt_eq (g : Graph) (x : Insertion) :
    g.attempt x = match g.check x.node x.reference with
      | .ok p => (.ok (g.freeName x.node.name), g.link x.node (x.target g p) x.states)
      | .error e => (.error e, g) := by
  rw [attempt, insert_eq]
  cases g.check x.node x.reference <;> rfl

theorem attempt_getElem? {g : Graph} (x : Insertion) {i : Nat} (hi : i < g.nodes.length) :
    (g.attempt x).2.nodes[i]? = g.nodes[i]? := by
  rw [attempt_eq]
  cases g.check x.node x.reference with
  | error e => rfl
  | ok p => exact List.getElem?_append_left hi

/-- The graph with blank identities at the first `k` positions, at every depth. -/
def blanked (g : Graph) (k : Nat) : Graph :=
  { g with nodes := g.nodes.mapIdx (Node.blankBelow k) }

section Blanked
variable (g : Graph) (k : Nat) {β : Type} {o : Node → β} (ho : ∀ n : Node, o n.anonymous = o n)
include ho

theorem observe_blankBelow (i : Nat) (n : Node) : o (n.blankBelow k i) = o n := by
  unfold Node.blankBelow
  split
  · exact ho n
  · rfl

theorem blanked_nodeAt? (i : Nat) : ((g.blanked k).nodeAt? i).map o = (g.nodeAt? i).map o := by
  rw [nodeAt?, nodeAt?, blanked, List.getElem?_mapIdx, Option.map_map]
  congr 1
  funext n
  exact observe_blankBelow k ho i n

theorem blanked_actionAt? (i : Nat) :
    ((g.blanked k).actionAt? i).map o = (g.actionAt? i).map o := by
  unfold actionAt?
  split
  · rfl
  · exact g.blanked_nodeAt? k ho i

theorem blanked_get? (name : String) : ((g.blanked k).get? name).map o = (g.get? name).map o := by
  change ((g.indexOf? name).bind (g.blanked k).nodeAt?).map o = _
  unfold get?
  cases g.indexOf? name with
  | none => rfl
  | some i => exact g.blanked_nodeAt? k ho i

theorem blanked_parentOf? (name : String) :
    ((g.blanked k).parentOf? name).map o = (g.parentOf? name).map o := by
  change ((g.indexOf? name).bind fun i => g.parents[i]?.bind (g.blanked k).actionAt?).map o = _
  unfold parentOf?
  cases g.indexOf? name with
  | none => rfl
  | some i =>
    cases hp : g.parents[i]? with
    | none => simp only [Option.bind_some, hp, Option.bind_none]
    | some p => simpa only [Option.bind_some, hp] using g.blanked_actionAt? k ho p

end Blanked

theorem blanked_names (g : Graph) (k : Nat) : (g.blanked k).names = g.names := by
  have hnodes : (g.blanked k).nodes.map (·.name) = g.nodes.map (·.name) := by
    apply List.ext_getElem?
    intro i
    rw [List.getElem?_map, List.getElem?_map]
    exact g.blanked_nodeAt? k Node.anonymous_name i
  simpa only [names, members, List.map_tail] using congrArg List.tail hnodes

theorem blanked_namesUnder (g : Graph) (k i : Nat) :
    (g.blanked k).namesUnder i = g.namesUnder i := by
  unfold namesUnder
  congr 1
  funext c
  exact g.blanked_nodeAt? k Node.anonymous_name c

theorem blanked_childrenOf (g : Graph) (k : Nat) (name : String) :
    (g.blanked k).childrenOf name = g.childrenOf name := by
  have hindex : (g.blanked k).indexOf? name = g.indexOf? name := rfl
  unfold childrenOf
  rw [hindex]
  cases g.indexOf? name with
  | none => rfl
  | some i => exact g.blanked_namesUnder k i

theorem link_blanked {g : Graph} {k : Nat} (hk : k ≤ g.nodes.length) (n : Node) (p : Nat)
    (states : List State) : (g.link n p states).blanked k = (g.blanked k).link n p states := by
  have hlength : (g.blanked k).nodes.length = g.nodes.length := List.length_mapIdx
  have hplaced : (g.blanked k).placed n p states = g.placed n p states := by
    rw [placed, placed, g.blanked_actionAt? k Node.anonymous_name p]
    rfl
  have hnodes : (g.link n p states).nodes.mapIdx (Node.blankBelow k) =
      (g.blanked k).nodes ++ [(g.blanked k).placed n p states] := by
    rw [link_nodes, List.mapIdx_concat, hplaced, Node.blankBelow, if_neg (Nat.not_lt.mpr hk)]
    rfl
  unfold link at hnodes ⊢
  rw [hlength, ← hnodes]
  rfl

/-- Two graphs that are equal apart from the identities at the first `k` positions. -/
structure Twins (k : Nat) (g c : Graph) : Prop where
  le : k ≤ g.nodes.length
  blanked : c.blanked k = g.blanked k

def FreshBelow (k : Nat) (g : Graph) (id : String) : Prop :=
  ∀ i n, i ≠ sentinel → i < k → g.nodes[i]? = some n → n.id ≠ id

theorem hasIdentity_iff {g : Graph} {id : String} :
    g.hasIdentity id = true ↔ ∃ i n, i ≠ sentinel ∧ g.nodes[i]? = some n ∧ n.id = id := by
  simp only [hasIdentity, List.any_eq_true, decide_eq_true_eq, mem_members_iff]
  constructor
  · rintro ⟨n, ⟨i, hi, hn⟩, hid⟩
    exact ⟨i, n, hi, hn, hid⟩
  · rintro ⟨i, n, hi, hn, hid⟩
    exact ⟨n, ⟨i, hi, hn⟩, hid⟩

theorem freshBelow_of_hasIdentity {g : Graph} {id : String} (h : g.hasIdentity id = false) (k : Nat) :
    FreshBelow k g id := by
  intro i n hi _ hn hid
  have htrue := hasIdentity_iff.mpr ⟨i, n, hi, hn, hid⟩
  rw [h] at htrue
  cases htrue

theorem FreshBelow.attempt {k : Nat} {g : Graph} {id : String} (h : FreshBelow k g id)
    (hk : k ≤ g.nodes.length) (x : Insertion) : FreshBelow k (g.attempt x).2 id := by
  intro i n hi hik hn
  rw [attempt_getElem? x (Nat.lt_of_lt_of_le hik hk)] at hn
  exact h i n hi hik hn

namespace Twins
variable {k : Nat} {g c : Graph}

theorem symm (h : Twins k g c) : Twins k c g := by
  have hlength := congrArg (fun graph : Graph => graph.nodes.length) h.blanked
  simp only [Graph.blanked, List.length_mapIdx] at hlength
  exact ⟨hlength ▸ h.le, h.blanked.symm⟩

theorem getElem? (h : Twins k g c) {i : Nat} (hi : k ≤ i) : c.nodes[i]? = g.nodes[i]? := by
  have hnodes := congrArg (fun graph : Graph => graph.nodes[i]?) h.blanked
  have hsame : Node.blankBelow k i = id := funext fun n => if_neg (Nat.not_lt.mpr hi)
  simpa only [Graph.blanked, List.getElem?_mapIdx, hsame, Option.map_id, id] using hnodes

theorem registry (h : Twins k g c) : c.registry = g.registry := by
  have heq := congrArg (fun graph : Graph => graph.registry) h.blanked
  exact heq

theorem lastAppended (h : Twins k g c) : c.lastAppended = g.lastAppended := by
  have heq := congrArg (fun graph : Graph => graph.lastAppended) h.blanked
  exact heq

theorem isRoot (h : Twins k g c) : c.isRoot = g.isRoot := by
  have heq := congrArg (fun graph : Graph => graph.isRoot) h.blanked
  exact heq

theorem hasIdentity_of (h : Twins k g c) {id : String} (hg : FreshBelow k g id)
    (hid : g.hasIdentity id = true) : c.hasIdentity id = true := by
  obtain ⟨i, n, hi, hn, hid⟩ := hasIdentity_iff.mp hid
  have hki : k ≤ i := Nat.le_of_not_lt fun hik => hg i n hi hik hn hid
  exact hasIdentity_iff.mpr ⟨i, n, hi, (h.getElem? hki).trans hn, hid⟩

theorem check (h : Twins k g c) {n : Node} (hg : FreshBelow k g n.id) (hc : FreshBelow k c n.id)
    (reference : Option String) : c.check n reference = g.check n reference := by
  have hid : c.hasIdentity n.id = g.hasIdentity n.id :=
    Bool.eq_iff_iff.mpr ⟨h.symm.hasIdentity_of hc, h.hasIdentity_of hg⟩
  have hresolve : c.resolve? reference = g.resolve? reference := by
    cases reference with
    | none => rfl
    | some name => rw [resolve?, resolve?, indexOf?, indexOf?, h.registry]
  rw [check_eq, check_eq, hid, hresolve, h.isRoot]

theorem link (h : Twins k g c) (n : Node) (p : Nat) (states : List State) :
    Twins k (g.link n p states) (c.link n p states) := by
  constructor
  · rw [link_nodes, List.length_append]
    exact Nat.le_add_right_of_le h.le
  · rw [link_blanked h.symm.le, link_blanked h.le, h.blanked]

/-- One action gives the same result on twins, and they stay twins. -/
theorem attempt (h : Twins k g c) (x : Insertion) (hg : FreshBelow k g x.node.id)
    (hc : FreshBelow k c x.node.id) :
    (c.attempt x).1 = (g.attempt x).1 ∧ Twins k (g.attempt x).2 (c.attempt x).2 := by
  rw [attempt_eq, attempt_eq, h.check hg hc]
  cases g.check x.node x.reference with
  | error e => exact ⟨rfl, h⟩
  | ok p =>
    have hname : c.freeName x.node.name = g.freeName x.node.name := by
      rw [freeName, freeName, h.registry]
    have htarget : x.target c p = x.target g p := by
      cases x with
      | append n mode => exact h.lastAppended
      | _ => rfl
    dsimp only
    rw [hname, htarget]
    exact ⟨rfl, h.link _ _ _⟩

theorem attemptAll (h : Twins k g c) (xs : List Insertion)
    (hg : ∀ x ∈ xs, FreshBelow k g x.node.id) (hc : ∀ x ∈ xs, FreshBelow k c x.node.id) :
    (c.attemptAll xs).1 = (g.attemptAll xs).1 ∧ Twins k (g.attemptAll xs).2 (c.attemptAll xs).2 := by
  -- new actions go behind the first `k` positions, so what is fresh there stays fresh
  induction xs generalizing g c with
  | nil => exact ⟨rfl, h⟩
  | cons x rest ih =>
    obtain ⟨hresult, htwins⟩ := h.attempt x (hg x List.mem_cons_self) (hc x List.mem_cons_self)
    obtain ⟨hresults, hfinal⟩ := ih htwins
      (fun y hy => (hg y (List.mem_cons_of_mem x hy)).attempt h.le x)
      (fun y hy => (hc y (List.mem_cons_of_mem x hy)).attempt h.symm.le x)
    rw [attemptAll_cons, attemptAll_cons]
    exact ⟨by rw [hresult, hresults], hfinal⟩

end Twins

/-- Two graphs in which the same actions stand under the same names, with exports that are equal
apart from identities at the first `k` positions. -/
structure Indistinct (k : Nat) (g c : Graph) : Prop where
  names : c.names = g.names
  parentOf? : ∀ name, (c.parentOf? name).map (·.name) = (g.parentOf? name).map (·.name)
  childrenOf : ∀ name, c.childrenOf name = g.childrenOf name
  topNames : c.topNames = g.topNames
  runAfter : ∀ name, (c.get? name).map (·.runAfter) = (g.get? name).map (·.runAfter)
  kind : ∀ name, (c.get? name).map (·.kind) = (g.get? name).map (·.kind)
  payload : ∀ name, (c.get? name).map (·.payload) = (g.get? name).map (·.payload)
  last? : c.last?.map (·.name) = g.last?.map (·.name)
  isRoot : c.isRoot = g.isRoot
  exports : (c.blanked k).toFields = (g.blanked k).toFields

namespace Twins
variable {k : Nat} {g c : Graph} {β : Type} {o : Node → β}

theorem get? (h : Twins k g c) (ho : ∀ n : Node, o n.anonymous = o n) (name : String) :
    (c.get? name).map o = (g.get? name).map o := by
  rw [← c.blanked_get? k ho, h.blanked, g.blanked_get? k ho]

theorem parentOf? (h : Twins k g c) (ho : ∀ n : Node, o n.anonymous = o n) (name : String) :
    (c.parentOf? name).map o = (g.parentOf? name).map o := by
  rw [← c.blanked_parentOf? k ho, h.blanked, g.blanked_parentOf? k ho]

theorem last? (h : Twins k g c) (ho : ∀ n : Node, o n.anonymous = o n) :
    c.last?.map o = g.last?.map o := by
  rw [Graph.last?, Graph.last?, h.lastAppended, ← c.blanked_actionAt? k ho, h.blanked,
    g.blanked_actionAt? k ho]

theorem indistinct (h : Twins k g c) : Indistinct k g c where
  names := by rw [← c.blanked_names k, h.blanked, g.blanked_names k]
  parentOf? := h.parentOf? Node.anonymous_name
  childrenOf := by
    intro name
    rw [← c.blanked_childrenOf k, h.blanked, g.blanked_childrenOf k]
  topNames := by
    rw [topNames, topNames, ← c.blanked_namesUnder k, h.blanked, g.blanked_namesUnder k]
  runAfter := h.get? Node.anonymous_runAfter
  kind := h.get? Node.anonymous_kind
  payload := h.get? Node.anonymous_payload
  last? := h.last? Node.anonymous_name
  isRoot := h.isRoot
  exports := by rw [h.blanked]

end Twins

theorem blanked_length (g : Graph) : g.blanked g.nodes.length = g.anonymous := by
  have hnodes : g.nodes.mapIdx (Node.blankBelow g.nodes.length) = g.nodes.map Node.anonymous := by
    apply List.ext_getElem?
    intro i
    rw [List.getElem?_mapIdx, List.getElem?_map]
    cases hn : g.nodes[i]? with
    | none => rfl
    | some n =>
      have hi := (List.getElem?_eq_some_iff.mp hn).1
      rw [Option.map_some, Option.map_some, Node.blankBelow, if_pos hi]
  rw [blanked, anonymous, hnodes]

theorem Reachable.copy_twins {g : Graph} (h : g.Reachable Node.Made) (s : Supply) :
    Twins g.nodes.length g (g.copy.run s).1 := by
  have hlength := (copy_duplicated h.wellFormed s).length
  refine ⟨Nat.le_refl _, ?_⟩
  rw [← hlength, blanked_length, h.copy_anonymous s, hlength, blanked_length]

/-- Whatever is put into a graph and into a copy of it, with identities that neither of them has,
gives the same results, and leaves graphs that cannot be told apart but by the identities of the
actions that were copied. -/
theorem Reachable.copy_indistinct {g : Graph} (h : g.Reachable Node.Made) (s : Supply)
    (xs : List Insertion)
    (hnew : ∀ x ∈ xs, g.hasIdentity x.node.id = false ∧
      (g.copy.run s).1.hasIdentity x.node.id = false) :
    ((g.copy.run s).1.attemptAll xs).1 = (g.attemptAll xs).1 ∧
      Indistinct g.nodes.length (g.attemptAll xs).2 ((g.copy.run s).1.attemptAll xs).2 := by
  obtain ⟨hresults, htwins⟩ := (h.copy_twins s).attemptAll xs
    (fun x hx => freshBelow_of_hasIdentity (hnew x hx).1 _)
    (fun x hx => freshBelow_of_hasIdentity (hnew x hx).2 _)
  exact ⟨hresults, htwins.indistinct⟩

def threeSteps : List Insertion :=
  [.append (Node.detached "step-4" "Step" "Compose" []) .force,
    .after (Node.detached "step-5" "Step" "Compose" []) "Elsewhere" .normal,
    .after (Node.detached "step-6" "Last" "Compose" []) "Step_1" .onlyIfFailed]

theorem scopeAndStep_threeSteps_indistinct :
    scopeAndStep.Reachable Node.Made ∧
      (scopeAndStep.attemptAll threeSteps).1 =
        [.ok "Step_1", .error (.unknownReference "Elsewhere"), .ok "Last"] ∧
      ((scopeAndStep.copy.run {}).1.attemptAll threeSteps).1 =
        (scopeAndStep.attemptAll threeSteps).1 ∧
      Indistinct 3 (scopeAndStep.attemptAll threeSteps).2
        ((scopeAndStep.copy.run {}).1.attemptAll threeSteps).2 :=
  ⟨scopeAndStep_reachable, rfl,
    Reachable.copy_indistinct scopeAndStep_reachable {} threeSteps (by decide)⟩

end Graph

end Workflow
