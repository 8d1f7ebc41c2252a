import Workflow.Graph.Fields
import Workflow.Proofs.Graph.Anonymous

/-!
# Joins of graphs

A join of two graphs is described position by position. It begins with the actions of the first
graph as they stand there. Behind them stand images of the actions of the second one, in order: the
same actions apart from identities, under the first names that are free when they are put in. What
was inside the second graph keeps its place and its gate, under the new name of the action above it,
and what was at its top runs after the last action of the first graph.
-/

set_option autoImplicit false

namespace Workflow

def Node.nestedExports (n : Node) : List (List String × Fields) :=
  n.slots.map fun slot => (slot.path, nestedFields slot.actions)

/-- An action of the same content: of the same kind and payload, and with the same nested exports
apart from identities. -/
structure Node.SameContent (n x : Node) : Prop where
  kind : x.kind = n.kind
  payload : x.payload = n.payload
  nested : x.anonymous.nestedExports = n.anonymous.nestedExports

theorem Node.Made.sameContent {n c : Node} (h : n.Made) (hc : IsCopy n c) : n.SameContent c := by
  have heq := Node.Made.copy_anonymous n h c hc
  rw [Node.anonymous_eq, Node.anonymous_eq, Node.mk.injEq] at heq
  obtain ⟨-, -, hkind, hpayload, hslots, -, -⟩ := heq
  refine ⟨hkind, hpayload, ?_⟩
  rw [Node.nestedExports, Node.nestedExports, Node.anonymous_eq, Node.anonymous_eq]
  exact congrArg (List.map _) hslots

theorem Node.SameContent.placed {n c : Node} (h : n.SameContent c) (name : String)
    (runAfter : List (String × List State)) (isAttached : Bool) :
    n.SameContent { c with name := name, runAfter := runAfter, isAttached := isAttached } := by
  refine ⟨h.kind, h.payload, ?_⟩
  rw [← h.nested, Node.anonymous_eq, Node.anonymous_eq]
  rfl

namespace Graph

/-- What a join of `a` and `b` is. The image of the action of `b` at `j` stands at `a.size + j`. -/
structure Joined (a b m : Graph) : Prop where
  size : m.size = a.size + b.size
  /-- The actions of `a` keep their positions and all else but their identities. -/
  kept : ∀ i n, i ≠ sentinel → a.nodes[i]? = some n →
    m.parents[i]? = a.parents[i]? ∧
      ∃ x, m.nodes[i]? = some x ∧ x.name = n.name ∧ n.SameContent x ∧ x.runAfter = n.runAfter
  /-- The actions of `b` have images of the same content, in order. The name of an image is the
  first one that no member before it has, the sentinel included. -/
  image : ∀ j n, j ≠ sentinel → b.nodes[j]? = some n →
    ∃ x, m.nodes[a.size + j]? = some x ∧ n.SameContent x ∧
      IsFirstFree ((m.nodes.take (a.size + j)).map (·.name)) n.name x.name
  /-- Below the image of the action above it, under its name there and with the states it had. -/
  inner : ∀ j n p, j ≠ sentinel → p ≠ sentinel → b.nodes[j]? = some n → b.parents[j]? = some p →
    m.parents[a.size + j]? = some (a.size + p) ∧
      ∃ x q above states, m.nodes[a.size + j]? = some x ∧ m.nodes[a.size + p]? = some q ∧
        n.runAfter = [(above, states)] ∧ x.runAfter = [(q.name, states)]
  /-- The top of `b` runs after the last action of `a`. -/
  top : ∀ j, j ≠ sentinel → b.parents[j]? = some sentinel → a.size ≠ 0 →
    m.parents[a.size + j]? = some a.lastAppended ∧
      ∃ x q, m.nodes[a.size + j]? = some x ∧ m.nodes[a.lastAppended]? = some q ∧
        x.runAfter = [(q.name, [.succeeded])]
  /-- It stays at the top if `a` has no action. -/
  top_empty : ∀ j, j ≠ sentinel → b.parents[j]? = some sentinel → a.size = 0 →
    m.parents[a.size + j]? = some sentinel ∧
      ∃ x, m.nodes[a.size + j]? = some x ∧ x.runAfter = []
  isRoot : m.isRoot = (a.isRoot || b.isRoot)
  lastAppended : m.lastAppended =
    if b.size = 0 then a.lastAppended else a.size + b.lastAppended

theorem actionAt?_of_ne {g : Graph} {i : Nat} (hi : i ≠ sentinel) :
    g.actionAt? i = g.nodes[i]? := if_neg hi

theorem Shows.runAfter_top {g : Graph} {i : Nat} {n x : Node} {states : List State}
    (h : g.Shows i n sentinel states) (hx : g.nodes[i]? = some x) : x.runAfter = [] := by
  obtain ⟨c, name, -, -, -, hnode⟩ := h
  rw [← Option.some.inj (hnode.symm.trans hx)]
  rfl

theorem Shows.runAfter_below {g : Graph} {i p : Nat} {n x q : Node} {states : List State}
    (h : g.Shows i n p states) (hp : p ≠ sentinel) (hq : g.nodes[p]? = some q)
    (hx : g.nodes[i]? = some x) : x.runAfter = [(q.name, states)] := by
  obtain ⟨c, name, -, -, -, hnode⟩ := h
  rw [actionAt?_of_ne hp, hq] at hnode
  rw [← Option.some.inj (hnode.symm.trans hx)]
  rfl

section Parts
variable {a b base m : Graph} (ha : a.Reachable Node.Made) (hdup : Duplicated a base)
variable (h : Spliced { base with isRoot := base.isRoot || b.isRoot } base.lastAppended b b.size m)
include ha hdup h

theorem Spliced.joined_size : m.size = a.size + b.size := by
  have hlength : m.nodes.length = a.nodes.length + b.size := by rw [h.length, ← hdup.length]
  have hmsize := h.wellFormed.length_eq_size
  have hasize := ha.wellFormed.length_eq_size
  omega

theorem Spliced.joined_kept {i : Nat} {n : Node} (hi : i ≠ sentinel) (hn : a.nodes[i]? = some n) :
    m.parents[i]? = a.parents[i]? ∧
      ∃ x, m.nodes[i]? = some x ∧ x.name = n.name ∧ n.SameContent x ∧ x.runAfter = n.runAfter := by
  have hlt : i < base.nodes.length := by
    rw [hdup.length]
    exact (List.getElem?_eq_some_iff.mp hn).1
  obtain ⟨c, hc, hcn⟩ := hdup.node i n hi hn
  have hmade := Node.Made.member ha (mem_members_iff.mpr ⟨i, hi, hn⟩)
  refine ⟨?_, _, (h.kept i hlt).trans hcn, hc.name, (hmade.sameContent hc).placed .., rfl⟩
  rw [h.kept_parents i hlt, ← hdup.parents]

variable (hb : b.Reachable Node.Made)
include hb

theorem Spliced.joined_shows {j p : Nat} {n : Node} (hj : j ≠ sentinel)
    (hn : b.nodes[j]? = some n) (hp : b.parents[j]? = some p) :
    m.Shows (a.size + j) n (a.imageAt a.lastAppended p)
      (n.gateBelow p (a.imageAt a.lastAppended p)) := by
  have hshow := h.image j n p hj (hb.wellFormed.le_size hn) hn hp
  have hsize : Graph.size { base with isRoot := base.isRoot || b.isRoot } = a.size := hdup.size
  rwa [imageAt, hsize, hdup.lastAppended ha.wellFormed] at hshow

theorem Spliced.joined_image {j : Nat} {n : Node} (hj : j ≠ sentinel) (hn : b.nodes[j]? = some n) :
    ∃ x, m.nodes[a.size + j]? = some x ∧ n.SameContent x ∧
      IsFirstFree ((m.nodes.take (a.size + j)).map (·.name)) n.name x.name := by
  obtain ⟨p, hp⟩ := hb.wellFormed.exists_parent (List.getElem?_eq_some_iff.mp hn).1
  obtain ⟨c, name, hc, hfree, -, hnode⟩ := h.joined_shows ha hdup hb hj hn hp
  have hmade := Node.Made.member hb (mem_members_iff.mpr ⟨j, hj, hn⟩)
  exact ⟨_, hnode, (hmade.sameContent hc).placed .., hfree⟩

theorem Spliced.joined_inner {j p : Nat} {n : Node} (hj : j ≠ sentinel) (hp : p ≠ sentinel)
    (hn : b.nodes[j]? = some n) (hjp : b.parents[j]? = some p) :
    m.parents[a.size + j]? = some (a.size + p) ∧
      ∃ x q above states, m.nodes[a.size + j]? = some x ∧ m.nodes[a.size + p]? = some q ∧
        n.runAfter = [(above, states)] ∧ x.runAfter = [(q.name, states)] := by
  have hshow := h.joined_shows ha hdup hb hj hn hjp
  obtain ⟨-, ⟨htop, -⟩ | ⟨-, above, mode, habove, hrun⟩⟩ := hb.wellFormed.gated j n p hj hn hjp
  · exact absurd htop hp
  have hplace : a.imageAt a.lastAppended p = a.size + p := if_neg hp
  have hne : a.size + p ≠ sentinel := fun h0 => hp (Nat.eq_zero_of_add_eq_zero_left h0)
  have hgate : n.gateBelow p (a.size + p) = mode.states := by
    simp [Node.gateBelow, Node.gate, hne, hp, hrun]
  rw [hplace, hgate] at hshow
  obtain ⟨x, hx, -⟩ := h.joined_image ha hdup hb hj hn
  obtain ⟨q, hq, -⟩ := h.joined_image ha hdup hb hp habove
  exact ⟨hshow.parent, x, q, above.name, mode.states, hx, hq, hrun, hshow.runAfter_below hne hq hx⟩

theorem Spliced.joined_top {j : Nat} (hj : j ≠ sentinel) (hjp : b.parents[j]? = some sentinel) :
    m.parents[a.size + j]? = some a.lastAppended ∧ ∃ x, m.nodes[a.size + j]? = some x ∧
      (a.size = 0 → x.runAfter = []) ∧
      (a.size ≠ 0 → ∃ q, m.nodes[a.lastAppended]? = some q ∧
        x.runAfter = [(q.name, [.succeeded])]) := by
  have hlast := ha.wellFormed.lastAppended_eq_size
  have hjb := (List.getElem?_eq_some_iff.mp hjp).1
  rw [hb.wellFormed.length] at hjb
  have hn := List.getElem?_eq_getElem hjb
  have hshow := h.joined_shows ha hdup hb hj hn hjp
  have hplace : a.imageAt a.lastAppended sentinel = a.lastAppended := if_pos rfl
  rw [hplace] at hshow
  obtain ⟨x, hx, -⟩ := h.joined_image ha hdup hb hj hn
  refine ⟨hshow.parent, x, hx, ?_, ?_⟩
  · intro hempty
    rw [show a.lastAppended = sentinel from hlast.trans hempty] at hshow
    exact hshow.runAfter_top hx
  · intro hne
    have hne' : a.lastAppended ≠ sentinel := fun h0 => hne (hlast.symm.trans h0)
    have hgate : b.nodes[j].gateBelow sentinel a.lastAppended = [.succeeded] := by
      simp [Node.gateBelow, hne', RunMode.states]
    rw [hgate] at hshow
    have hlt : a.lastAppended < m.nodes.length := by
      have hmsize := h.joined_size ha hdup
      have hmlength := h.wellFormed.length_eq_size
      omega
    have hq := List.getElem?_eq_getElem hlt
    exact ⟨_, hq, hshow.runAfter_below hne' hq hx⟩

theorem Spliced.joined : Joined a b m where
  size := h.joined_size ha hdup
  kept := fun _ _ hi hn => h.joined_kept ha hdup hi hn
  image := fun _ _ hj hn => h.joined_image ha hdup hb hj hn
  inner := fun _ _ _ hj hp hn hjp => h.joined_inner ha hdup hb hj hp hn hjp
  top := by
    intro j hj hjp hne
    obtain ⟨hparent, x, hx, -, hrun⟩ := h.joined_top ha hdup hb hj hjp
    obtain ⟨q, hq, hrun⟩ := hrun hne
    exact ⟨hparent, x, q, hx, hq, hrun⟩
  top_empty := by
    intro j hj hjp hempty
    obtain ⟨hparent, x, hx, hrun, -⟩ := h.joined_top ha hdup hb hj hjp
    rw [show a.lastAppended = sentinel from ha.wellFormed.lastAppended_eq_size.trans hempty]
      at hparent
    exact ⟨hparent, x, hx, hrun hempty⟩
  isRoot := by rw [h.isRoot, ← hdup.isRoot]
  lastAppended := by
    rw [h.wellFormed.lastAppended_eq_size, h.joined_size ha hdup,
      ha.wellFormed.lastAppended_eq_size, hb.wellFormed.lastAppended_eq_size]
    split <;> omega

end Parts

theorem Reachable.merge_joined {a b : Graph} (ha : a.Reachable Node.Made)
    (hb : b.Reachable Node.Made) (s : Supply) : Joined a b ((a.merge b).run s).1 := by
  obtain ⟨base, hdup, h⟩ := merge_spliced ha.wellFormed hb.wellFormed s
  exact h.joined ha hdup hb

theorem twoSteps_scopeAndStep_joined :
    twoSteps.Reachable Node.Made ∧ scopeAndStep.Reachable Node.Made ∧
      ((twoSteps.merge scopeAndStep).run {}).1.names = ["Step", "Step_1", "Scope", "Step_2"] ∧
      Joined twoSteps scopeAndStep ((twoSteps.merge scopeAndStep).run {}).1 :=
  ⟨twoSteps_reachable, scopeAndStep_reachable, by decide,
    Reachable.merge_joined twoSteps_reachable scopeAndStep_reachable {}⟩

end Graph

end Workflow
