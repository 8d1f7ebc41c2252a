import Workflow.Proofs.Graph.Continuation
import Workflow.Proofs.Graph.Forest

/-!
# How a graph grows

Four things are asked of an action that is to be put into a graph, one after the other. If one is
missing, the action is refused for the first that is, and nothing changes. Otherwise the graph gains
this one action, at the end and under its first free name. What was there before keeps all that can
be asked of it, but for the list of what is below the action under which the new one goes.
-/

set_option autoImplicit false

namespace Workflow

/-- Something that is asked for, and the error where it is missing. -/
structure Requirement where
  holds : Prop
  error : GraphError

/-- The error is that of a requirement that is missing while all before it are met. -/
def Requirement.FirstMissing (rs : List Requirement) (e : GraphError) : Prop :=
  ∃ before r after, rs = before ++ r :: after ∧ (∀ q ∈ before, q.holds) ∧ ¬ r.holds ∧ r.error = e

namespace Requirement
variable {r : Requirement} {rs : List Requirement} {e : GraphError}

theorem not_firstMissing_nil : ¬ FirstMissing [] e := by
  rintro ⟨before, r, after, hsplit, -⟩
  cases before <;> cases hsplit

theorem firstMissing_cons :
    FirstMissing (r :: rs) e ↔ (¬ r.holds ∧ r.error = e) ∨ (r.holds ∧ FirstMissing rs e) := by
  constructor
  · rintro ⟨before, q, after, hsplit, hbefore, hq⟩
    cases before with
    | nil =>
      obtain ⟨rfl, -⟩ := List.cons.inj hsplit
      exact .inl hq
    | cons p before =>
      obtain ⟨rfl, hrest⟩ := List.cons.inj hsplit
      obtain ⟨hr, hbefore⟩ := List.forall_mem_cons.mp hbefore
      exact .inr ⟨hr, before, q, after, hrest, hbefore, hq⟩
  · rintro (hr | ⟨hr, before, q, after, rfl, hbefore, hq⟩)
    · exact ⟨[], r, rs, rfl, nofun, hr⟩
    · exact ⟨r :: before, q, after, rfl, List.forall_mem_cons.mpr ⟨hr, hbefore⟩, hq⟩

end Requirement

namespace Insertion

/-- The name of the action under which the new one goes; there is none at the top. -/
def anchor? (g : Graph) : Insertion → Option String
  | top _ => none
  | after _ name _ => some name
  | append _ _ => g.last?.map (·.name)

/-- The action as a member of the graph, under a name. -/
def member (c : Insertion) (g : Graph) (name : String) : Node :=
  { c.node with
    name := name
    runAfter := ((c.anchor? g).map fun above => (above, c.states)).toList
    isAttached := true }

end Insertion

namespace Graph
variable {g g' : Graph} {c : Insertion} {name : String}

/-- What is asked of an action that is put in, in the order in which it is asked. -/
def requirements (g : Graph) (c : Insertion) : List Requirement :=
  [⟨∀ m ∈ g.members, m.id ≠ c.node.id, .duplicateIdentity c.node.name⟩,
    ⟨c.node.isAttached = false, .alreadyHasParent c.node.name⟩,
    ⟨∀ above ∈ c.reference, above ∈ g.names, .unknownReference (c.reference.getD "")⟩,
    ⟨g.isRoot = true ∨ c.node.kind ≠ declarationKind, .restrictedKind c.node.name c.node.kind⟩]

theorem WellFormed.exists_insert_iff (h : g.WellFormed) :
    (∃ name g', g.insert c = .ok (name, g')) ↔ ∀ r ∈ g.requirements c, r.holds := by
  have hreference := h.exists_resolve? c.reference
  simp only [requirements, List.forall_mem_cons, List.not_mem_nil, false_imp_iff, implies_true,
    and_true, ← hasIdentity_eq_false_iff, ← hreference]
  constructor
  · rintro ⟨name, g', hins⟩
    obtain ⟨hid, hdetached, hkind, p, hp, -⟩ := insert_ok_iff.mp hins
    exact ⟨hid, hdetached, ⟨p, hp⟩, hkind⟩
  · rintro ⟨hid, hdetached, ⟨p, hp⟩, hkind⟩
    exact ⟨_, _, insert_ok_iff.mpr ⟨hid, hdetached, hkind, p, hp, rfl, rfl⟩⟩

theorem WellFormed.check_error_iff (h : g.WellFormed) {e : GraphError} :
    g.check c.node c.reference = .error e ↔ Requirement.FirstMissing (g.requirements c) e := by
  have hreference := h.exists_resolve? c.reference
  simp only [requirements, Requirement.firstMissing_cons, Requirement.not_firstMissing_nil,
    ← hasIdentity_eq_false_iff, ← hreference]
  rw [check_eq]
  by_cases hid : g.hasIdentity c.node.id = true
  · simp [hid]
  by_cases hattached : c.node.isAttached = true
  · simp [hid, hattached]
  cases hp : g.resolve? c.reference with
  | none => simp [hid, hattached]
  | some p =>
    by_cases hkind : g.isRoot = false ∧ c.node.kind = declarationKind
    · simp [hid, hattached, hkind]
    · have hallowed := not_restricted_iff.mp hkind
      simp [hid, hattached, hkind, hallowed]

theorem attempt_ok_iff : g.attempt c = (.ok name, g') ↔ g.insert c = .ok (name, g') := by
  rw [attempt]
  cases g.insert c with
  | ok r => simp [Prod.ext_iff]
  | error e => simp

theorem attempt_error_iff {e : GraphError} :
    g.attempt c = (.error e, g') ↔ g.check c.node c.reference = .error e ∧ g = g' := by
  rw [attempt_eq]
  cases g.check c.node c.reference with
  | ok p => simp
  | error e => simp

namespace WellFormed

theorem get?_eq (h : g.WellFormed) {i : Nat} {n : Node} (hi : i ≠ sentinel)
    (hn : g.nodes[i]? = some n) : g.get? n.name = some n := by
  have hindex := (h.indexOf?_eq_some_iff n.name i).mpr ⟨hi, n, hn, rfl⟩
  rw [get?, hindex, Option.bind_some, nodeAt?, hn]

/-- An action goes below a position of the graph, where the one stands that it names. -/
theorem target_anchor (h : g.WellFormed) {p : Nat} (hp : g.resolve? c.reference = some p) :
    c.target g p < g.nodes.length ∧
      (g.actionAt? (c.target g p)).map (·.name) = c.anchor? g := by
  cases c with
  | top n => exact ⟨h.length_pos, rfl⟩
  | append n mode => exact ⟨h.last_lt, rfl⟩
  | after n above mode =>
    obtain ⟨hroot, m, hm, rfl⟩ := (h.indexOf?_eq_some_iff above p).mp hp
    refine ⟨(List.getElem?_eq_some_iff.mp hm).1, ?_⟩
    simp [Insertion.target, Insertion.anchor?, actionAt?, nodeAt?, hroot, hm]

end WellFormed

section Link
variable {n : Node} {p : Nat} {states : List State} (h : g.WellFormed)
include h

theorem WellFormed.link_new (n : Node) (p : Nat) (states : List State) :
    g.nodes.length ≠ sentinel ∧
      (g.link n p states).nodes[g.nodes.length]? = some (g.placed n p states) ∧
      (g.link n p states).parents[g.nodes.length]? = some p :=
  ⟨Nat.ne_of_gt h.length_pos, getElem?_concat_iff.mpr (.inr ⟨rfl, rfl⟩),
    getElem?_concat_iff.mpr (.inr ⟨h.length.symm, rfl⟩)⟩

theorem WellFormed.link_last? (n : Node) (p : Nat) (states : List State) :
    (g.link n p states).last? = some (g.placed n p states) := by
  obtain ⟨hi, hn, -⟩ := h.link_new n p states
  exact (if_neg hi).trans hn

variable (hw : (g.link n p states).WellFormed)
include hw

theorem WellFormed.link_get?_old {other : String} (hother : other ∈ g.names) :
    (g.link n p states).get? other = g.get? other := by
  obtain ⟨i, m, hi, hm, rfl⟩ := WellFormed.mem_names_iff.mp hother
  rw [h.get?_eq hi hm, hw.get?_eq hi (getElem?_concat_iff.mpr (.inl hm))]

theorem WellFormed.link_parentName?_new (hp : p < g.nodes.length) :
    (g.link n p states).parentName? (g.freeName n.name) = (g.actionAt? p).map (·.name) := by
  obtain ⟨hi, hn, hparent⟩ := h.link_new n p states
  rw [← placed_name g n p states, hw.parentName?_eq hi hn hparent, actionAt?_link hp]

theorem WellFormed.link_parentName?_old {other : String} (hother : other ∈ g.names) :
    (g.link n p states).parentName? other = g.parentName? other := by
  obtain ⟨i, m, hi, hm, rfl⟩ := WellFormed.mem_names_iff.mp hother
  obtain ⟨r, hr⟩ := h.exists_parent (List.getElem?_eq_some_iff.mp hm).1
  have hlt : r < g.nodes.length := h.length ▸ h.parent_lt_length hr
  rw [h.parentName?_eq hi hm hr, hw.parentName?_eq hi (getElem?_concat_iff.mpr (.inl hm))
    (getElem?_concat_iff.mpr (.inl hr)), actionAt?_link hlt]

/-- The names below one, or at the top, are the same and in the same order, and the new one comes
last among those below the name under which it goes. -/
theorem WellFormed.link_filter_names (hp : p < g.nodes.length) (above : Option String) :
    ((g.link n p states).names.filter fun x => (g.link n p states).parentName? x = above) =
      (g.names.filter fun x => g.parentName? x = above) ++
        if (g.actionAt? p).map (·.name) = above then [g.freeName n.name] else [] := by
  have hold : g.names.filter (fun x => (g.link n p states).parentName? x = above) =
      g.names.filter fun x => g.parentName? x = above := by
    apply List.filter_congr
    intro other hother
    rw [h.link_parentName?_old hw hother]
  rw [h.names_link, List.filter_append, hold, List.filter_singleton,
    h.link_parentName?_new hw hp, Bool.cond_decide]

end Link

/-- What a graph has gained by putting in an action, and what it has kept. -/
structure Gains (g : Graph) (c : Insertion) (name : String) (g' : Graph) : Prop where
  isFirstFree : IsFirstFree (reservedName :: g.names) c.node.name name
  members : g'.members = g.members ++ [c.member g name]
  get?_new : g'.get? name = some (c.member g name)
  get?_old : ∀ other ∈ g.names, g'.get? other = g.get? other
  parentName?_new : g'.parentName? name = c.anchor? g
  parentName?_old : ∀ other ∈ g.names, g'.parentName? other = g.parentName? other
  childrenOf : ∀ above, g'.childrenOf above =
    g.childrenOf above ++ if c.anchor? g = some above then [name] else []
  topNames : g'.topNames = g.topNames ++ if c.anchor? g = none then [name] else []
  last? : g'.last? = some (c.member g name)
  isRoot : g'.isRoot = g.isRoot
  source : g'.source = g.source

theorem WellFormed.gains (h : g.WellFormed) (hins : g.insert c = .ok (name, g')) :
    Gains g c name g' := by
  have hw := h.insert hins
  obtain ⟨-, -, -, q, hq, rfl, rfl⟩ := insert_ok_iff.mp hins
  obtain ⟨hp, hanchor⟩ := h.target_anchor hq
  obtain ⟨hi, hn, -⟩ := h.link_new c.node (c.target g q) c.states
  have hplaced : g.placed c.node (c.target g q) c.states = c.member g (g.freeName c.node.name) := by
    rw [placed, hanchor]
    rfl
  rw [hplaced] at hn
  constructor
  case isFirstFree => exact h.freeName_eq _ ▸ firstFree_isFirst _ _
  case members => rw [h.link_members, hplaced]
  case get?_new => exact hw.get?_eq hi hn
  case get?_old => exact fun other hother => h.link_get?_old hw hother
  case parentName?_new => rw [h.link_parentName?_new hw hp, hanchor]
  case parentName?_old => exact fun other hother => h.link_parentName?_old hw hother
  case childrenOf =>
    intro above
    rw [h.childrenOf_eq, hw.childrenOf_eq, h.link_filter_names hw hp, hanchor]
  case topNames => rw [h.topNames_eq, hw.topNames_eq, h.link_filter_names hw hp, hanchor]
  case last? => rw [h.link_last?, hplaced]
  case isRoot => rfl
  case source => rfl

/-- In a graph that can be made, an action is put in exactly if it meets all requirements. It is
refused with the error of the first one that is missing, and the graph stays as it was; otherwise
the graph gains the action, and nothing else. -/
theorem Reachable.attempt_outcome {P : Node → Prop} (h : g.Reachable P) (c : Insertion) :
    ((∃ name g', g.attempt c = (.ok name, g')) ↔ ∀ r ∈ g.requirements c, r.holds) ∧
    (∀ e g', g.attempt c = (.error e, g') ↔
      Requirement.FirstMissing (g.requirements c) e ∧ g' = g) ∧
    ∀ name g', g.attempt c = (.ok name, g') → Gains g c name g' := by
  have hw := h.wellFormed
  refine ⟨?_, ?_, ?_⟩
  · simp only [attempt_ok_iff]
    exact hw.exists_insert_iff
  · intro e g'
    rw [attempt_error_iff, hw.check_error_iff, eq_comm]
  · intro name g' hok
    exact hw.gains (attempt_ok_iff.mp hok)

/-- An action that goes after a renamed one and is renamed itself, one with an identity that is
there already, and one that is to go after the sentinel. -/
theorem twoSteps_attempts :
    let step := Node.detached "step-3" "Step" "Compose" []
    let again := Node.detached "step-1" "Other" "Compose" []
    twoSteps.Reachable Node.Made ∧
      (∃ g', twoSteps.attempt (.after step "Step_1" .force) = (.ok "Step_2", g') ∧
        Gains twoSteps (.after step "Step_1" .force) "Step_2" g') ∧
      twoSteps.attempt (.after again reservedName .normal) =
        (.error (.duplicateIdentity "Other"), twoSteps) ∧
      twoSteps.attempt (.after step reservedName .normal) =
        (.error (.unknownReference "root"), twoSteps) := by
  intro step again
  refine ⟨twoSteps_reachable, ?_, ?_, ?_⟩
  · obtain ⟨-, -, hgains⟩ :=
      Reachable.attempt_outcome twoSteps_reachable (.after step "Step_1" .force)
    exact ⟨_, rfl, hgains _ _ rfl⟩
  · obtain ⟨-, hrefused, -⟩ :=
      Reachable.attempt_outcome twoSteps_reachable (.after again reservedName .normal)
    have htaken : ¬ ∀ m ∈ twoSteps.members, m.id ≠ again.id := by decide
    exact (hrefused _ _).mpr ⟨⟨[], _, _, rfl, nofun, htaken, rfl⟩, rfl⟩
  · obtain ⟨-, hrefused, -⟩ :=
      Reachable.attempt_outcome twoSteps_reachable (.after step reservedName .normal)
    have hnew : ∀ m ∈ twoSteps.members, m.id ≠ step.id := by decide
    have hunknown : ¬ ∀ above ∈ some reservedName, above ∈ twoSteps.names := by decide
    refine (hrefused _ _).mpr ⟨⟨[_, _], _, _, rfl, ?_, hunknown, rfl⟩, rfl⟩
    exact List.forall_mem_cons.mpr ⟨hnew, List.forall_mem_singleton.mpr rfl⟩

end Graph

end Workflow
