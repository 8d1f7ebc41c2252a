import Workflow.Proofs.Graph.WellFormed

/-!
# Insertions

The three ways to put an action into a graph differ only in where it goes. Each one either refuses
the action or links it below a position of the graph, gated by a run mode unless it goes to the top.
-/

set_option autoImplicit false

namespace Workflow

inductive Insertion where
  | top (node : Node)
  | after (node : Node) (name : String) (mode : RunMode)
  | append (node : Node) (mode : RunMode)

namespace Insertion

def node : Insertion → Node
  | top n => n
  | after n _ _ => n
  | append n _ => n

def reference : Insertion → Option String
  | after _ name _ => some name
  | _ => none

def target (g : Graph) (checked : Nat) : Insertion → Nat
  | top _ => sentinel
  | after _ _ _ => checked
  | append _ _ => g.lastAppended

def states : Insertion → List State
  | top _ => []
  | after _ _ mode => mode.states
  | append _ mode => mode.states

end Insertion

namespace Graph

def insert (g : Graph) : Insertion → Except GraphError (String × Graph)
  | .top n => g.addTop n
  | .after n name mode => g.addAfter n name mode
  | .append n mode => g.append n mode

theorem hasIdentity_eq_false_iff {g : Graph} {id : String} :
    g.hasIdentity id = false ↔ ∀ m ∈ g.members, m.id ≠ id := by
  simp [hasIdentity]

/-- Only declarations are restricted, and only to roots. -/
theorem not_restricted_iff {g : Graph} {n : Node} :
    ¬ (g.isRoot = false ∧ n.kind = declarationKind) ↔
      g.isRoot = true ∨ n.kind ≠ declarationKind := by
  rw [not_and_or, Bool.not_eq_false]

def resolve? (g : Graph) : Option String → Option Nat
  | none => some sentinel
  | some name => g.indexOf? name

theorem WellFormed.exists_resolve? {g : Graph} (h : g.WellFormed) (reference : Option String) :
    (∃ p, g.resolve? reference = some p) ↔ ∀ name ∈ reference, name ∈ g.names := by
  cases reference with
  | none => simp [resolve?]
  | some name => simp [resolve?, h.exists_indexOf?]

theorem check_eq (g : Graph) (n : Node) (reference : Option String) :
    g.check n reference =
      if g.hasIdentity n.id = true then .error (.duplicateIdentity n.name)
      else if n.isAttached = true then .error (.alreadyHasParent n.name)
      else match g.resolve? reference with
        | none => .error (.unknownReference (reference.getD ""))
        | some p =>
          if (!g.isRoot && n.kind = declarationKind) = true then
            .error (.restrictedKind n.name n.kind)
          else .ok p := by
  unfold check
  by_cases hid : g.hasIdentity n.id = true
  · simp only [hid, if_true]
    rfl
  by_cases hatt : n.isAttached = true
  · simp only [hid, hatt, if_true]
    rfl
  by_cases hkind : (!g.isRoot && n.kind = declarationKind) = true
  · cases reference with
    | none => simp [hid, hatt, hkind, resolve?]; rfl
    | some name => cases hname : g.indexOf? name <;> simp [hid, hatt, hkind, resolve?, hname] <;> rfl
  · cases reference with
    | none => simp [hid, hatt, hkind, resolve?]; rfl
    | some name => cases hname : g.indexOf? name <;> simp [hid, hatt, hkind, resolve?, hname] <;> rfl

theorem insert_eq (g : Graph) (c : Insertion) :
    g.insert c = (g.check c.node c.reference).map fun p => g.linked c.node (c.target g p) c.states := by
  cases c <;> rfl

theorem resolve?_of_check_ok {g : Graph} {n : Node} {reference : Option String} {p : Nat}
    (h : g.check n reference = .ok p) : g.resolve? reference = some p := by
  rw [check_eq] at h
  split at h
  · cases h
  · split at h
    · cases h
    · split at h
      · cases h
      · next q hq =>
        split at h
        · cases h
        · rw [hq, Except.ok.inj h]

/-- Exactly the actions that are new, put in nowhere, allowed in the graph and after an action of it
are accepted. -/
theorem insert_ok_iff {g g' : Graph} {c : Insertion} {name : String} :
    g.insert c = .ok (name, g') ↔
      g.hasIdentity c.node.id = false ∧ c.node.isAttached = false ∧
        (g.isRoot = true ∨ c.node.kind ≠ declarationKind) ∧
        ∃ p, g.resolve? c.reference = some p ∧
          name = g.freeName c.node.name ∧ g' = g.link c.node (c.target g p) c.states := by
  rw [insert_eq, check_eq]
  by_cases hid : g.hasIdentity c.node.id = true
  · simp [hid, Except.map]
  by_cases hatt : c.node.isAttached = true
  · simp [hid, hatt, Except.map]
  cases hp : g.resolve? c.reference with
  | none => simp [hid, hatt, Except.map]
  | some p =>
    by_cases hkind : g.isRoot = false ∧ c.node.kind = declarationKind
    · simp [hid, hatt, hkind, Except.map]
    · have hallowed := not_restricted_iff.mp hkind
      simp [hid, hatt, hkind, hallowed, Except.map, linked, @eq_comm _ name, @eq_comm _ g']

theorem insert_isRoot {g g' : Graph} {c : Insertion} {name : String}
    (h : g.insert c = .ok (name, g')) : g'.isRoot = g.isRoot := by
  obtain ⟨-, -, -, p, -, -, rfl⟩ := insert_ok_iff.mp h
  rfl

/-- An action that is put in goes under its first free name, below a position of the graph, and with
the states of a run mode unless it goes to the top. -/
theorem WellFormed.insert_ok {g g' : Graph} (h : g.WellFormed) {c : Insertion} {name : String}
    (hc : g.insert c = .ok (name, g')) :
    ∃ p, p < g.nodes.length ∧ (p ≠ sentinel → ∃ mode, c.states = RunMode.states mode) ∧
      name = g.freeName c.node.name ∧ g' = g.link c.node p c.states := by
  rw [insert_eq] at hc
  cases hcheck : g.check c.node c.reference with
  | error e => simp [hcheck, Except.map] at hc
  | ok p =>
    simp only [hcheck, Except.map, linked, Except.ok.injEq, Prod.mk.injEq] at hc
    refine ⟨c.target g p, ?_, ?_, hc.1.symm, hc.2.symm⟩
    · cases c with
      | top n => exact h.length_pos
      | append n mode => exact h.last_lt
      | after n name mode =>
        have hname := resolve?_of_check_ok hcheck
        obtain ⟨-, m, hm, -⟩ := (h.indexOf?_eq_some_iff name p).mp hname
        exact (List.getElem?_eq_some_iff.mp hm).1
    · cases c with
      | top n => exact fun hne => absurd rfl hne
      | append n mode => exact fun _ => ⟨mode, rfl⟩
      | after n name mode => exact fun _ => ⟨mode, rfl⟩

theorem WellFormed.insert {g g' : Graph} (h : g.WellFormed) {c : Insertion} {name : String}
    (hc : g.insert c = .ok (name, g')) : g'.WellFormed := by
  obtain ⟨p, hp, hs, -, rfl⟩ := h.insert_ok hc
  exact h.link c.node hp hs

theorem updatePayload_nodes (g : Graph) (name : String) (f : Fields → Fields) (i : Nat) :
    (g.updatePayload name f).nodes[i]? = g.nodes[i]?.map fun n =>
      if g.indexOf? name = some i then { n with payload := f n.payload } else n := by
  unfold updatePayload
  cases h : g.indexOf? name with
  | none => simp
  | some j => by_cases hij : j = i <;> simp [hij]

theorem WellFormed.updatePayload {g : Graph} (h : g.WellFormed) (name : String)
    (f : Fields → Fields) : (g.updatePayload name f).WellFormed := by
  have hroot : g.indexOf? name ≠ some sentinel := by
    intro hi
    exact ((h.indexOf?_eq_some_iff name sentinel).mp hi).1 rfl
  apply h.change (f := fun i n =>
    if g.indexOf? name = some i then { n with payload := f n.payload } else n)
  case hf =>
    constructor
    case root => exact if_neg hroot
    all_goals
      intro i n
      split <;> rfl
  case hnodes => exact g.updatePayload_nodes name f
  all_goals
    unfold Graph.updatePayload
    split <;> rfl

end Graph

end Workflow
