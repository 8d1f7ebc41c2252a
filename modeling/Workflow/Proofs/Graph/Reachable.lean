import Workflow.Proofs.Graph.Copy
import Workflow.Proofs.Graph.Insertion

/-!
# Reachable graphs

A graph is reachable if it is made from empty ones by putting in actions, by editing payloads, by
copying and by joining. All reachable graphs are well-formed, whatever actions were put in. That
fixes what a graph keeps beside its members: which positions hang under which, what position a name
has, which member is the last one, and how every member is gated.
-/

set_option autoImplicit false

namespace Workflow

/-- Graphs made by operations on graphs, where the actions that are put in are allowed by `P`. A raw
copy of a graph is the graph itself. Identities come from any sources, in any state of the supply. -/
inductive Graph.Reachable (P : Node → Prop) : Graph → Prop where
  | empty (isRoot : Bool) (source : IdSource) : Reachable P (Graph.empty isRoot source)
  | insert {g g' : Graph} {c : Insertion} {name : String} :
    Reachable P g → P c.node → g.insert c = .ok (name, g') → Reachable P g'
  | edit {g : Graph} (name : String) (f : Fields → Fields) :
    Reachable P g → Reachable P (g.updatePayload name f)
  | copy {g : Graph} (s : Supply) : Reachable P g → Reachable P (g.copy.run s).1
  | merge {a b : Graph} (s : Supply) :
    Reachable P a → Reachable P b → Reachable P ((a.merge b).run s).1
  | mergeNode {g g' : Graph} {n : Node} (s : Supply) :
    Reachable P g → P n → ((g.mergeNode n).run.run s).1 = .ok g' → Reachable P g'

/-- Actions made by operations on actions and graphs: what is nested in them are ready-made actions
and reachable graphs of such actions. -/
inductive Node.Made : Node → Prop where
  | fresh (id name kind : String) (payload : Fields) : Made (Node.detached id name kind payload)
  | edit {n : Node} (payload : Fields) : Made n → Made { n with payload := payload }
  | nestRaw {n : Node} (path : List String) (actions : Raw) :
    Made n → Made (n.nest path (.raw actions))
  | nestGraph {n : Node} {g : Graph} (path : List String) :
    Made n → Graph.Reachable Made g → Made (n.nest path (.graph g))
  | member {n : Node} {g : Graph} : Graph.Reachable Made g → n ∈ g.members → Made n
  | copy {n : Node} (source : IdSource) (s : Supply) : Made n → Made ((n.copy source).run s).1

namespace Graph
variable {P : Node → Prop} {g : Graph}

theorem mergeNode_run (g : Graph) (n : Node) (s : Supply) : ((g.mergeNode n).run.run s).1 =
    ((g.copy.run s).1.insert (.append
      ((n.copy (g.copy.run s).1.source).run (g.copy.run s).2).1 .normal)).map (·.2) := rfl

theorem mergeNode_insert {g g' : Graph} {n : Node} {s : Supply}
    (h : ((g.mergeNode n).run.run s).1 = .ok g') :
    ∃ name, (g.copy.run s).1.insert (.append
      ((n.copy (g.copy.run s).1.source).run (g.copy.run s).2).1 .normal) = .ok (name, g') := by
  rw [mergeNode_run] at h
  cases hc : (g.copy.run s).1.insert (.append
      ((n.copy (g.copy.run s).1.source).run (g.copy.run s).2).1 .normal) with
  | error e =>
    rw [hc] at h
    cases h
  | ok r =>
    rw [hc] at h
    obtain rfl := Except.ok.inj h
    exact ⟨r.1, rfl⟩

theorem mergeNode_ok {g g' : Graph} {n : Node} {s : Supply}
    (h : ((g.mergeNode n).run.run s).1 = .ok g') :
    ∃ c name, IsCopy n c ∧ (g.copy.run s).1.insert (.append c .normal) = .ok (name, g') := by
  obtain ⟨name, hc⟩ := mergeNode_insert h
  exact ⟨_, name, ⟨_, _, rfl⟩, hc⟩

theorem Reachable.wellFormed (h : g.Reachable P) : g.WellFormed := by
  induction h with
  | empty isRoot source => exact empty_wellFormed isRoot source
  | insert _ _ hc ih => exact ih.insert hc
  | edit name f _ ih => exact ih.updatePayload name f
  | copy s _ ih => exact (copy_duplicated ih s).wellFormed
  | merge s _ _ iha ihb =>
    obtain ⟨base, -, h⟩ := merge_spliced iha ihb s
    exact h.wellFormed
  | mergeNode s _ _ hm ih =>
    obtain ⟨c, name, -, hc⟩ := mergeNode_ok hm
    exact (copy_duplicated ih s).wellFormed.insert hc

/-- What a graph keeps about its members fits together. The actions stand at the positions other
than that of the sentinel, in the order in which they were put in. -/
structure Consistent (g : Graph) : Prop where
  parents_length : g.parents.length = g.nodes.length
  children_length : g.children.length = g.nodes.length
  parent_lt : ∀ i, i ≠ sentinel → i < g.nodes.length → ∃ p, g.parents[i]? = some p ∧ p < i
  children_sorted : ∀ (p : Nat) (cs : List Nat), g.children[p]? = some cs → cs.Pairwise (· < ·)
  mem_children : ∀ (p : Nat) (cs : List Nat), g.children[p]? = some cs →
    ∀ i, i ∈ cs ↔ i ≠ sentinel ∧ g.parents[i]? = some p
  names_nodup : g.names.Nodup
  reserved_not_mem : reservedName ∉ g.names
  /-- The registry holds the sentinel and the actions under their names, and nothing else. -/
  registry : ∀ name i, g.registry.get? name = some i ↔
    (i = sentinel ∧ name = reservedName) ∨
      (i ≠ sentinel ∧ ∃ n, g.nodes[i]? = some n ∧ n.name = name)
  /-- The last action is the one put in last, and the sentinel if there is none. -/
  lastAppended : g.lastAppended = g.size
  /-- An action is attached. At the top it runs after nothing, and otherwise after the action under
  which it hangs, by its present name and with the states of a run mode. -/
  gated : ∀ i n p, i ≠ sentinel → g.nodes[i]? = some n → g.parents[i]? = some p →
    n.isAttached = true ∧ (p = sentinel → n.runAfter = []) ∧
      (p ≠ sentinel → ∃ q mode, g.nodes[p]? = some q ∧
        n.runAfter = [(q.name, RunMode.states mode)])

theorem WellFormed.nodes_eq (h : g.WellFormed) : g.nodes = Node.root :: g.members := by
  have hroot := h.root
  cases hnodes : g.nodes with
  | nil => simp [hnodes] at hroot
  | cons n rest =>
    rw [hnodes] at hroot
    rw [members, hnodes, List.tail_cons, Option.some.inj hroot]

theorem WellFormed.names_nodup (h : g.WellFormed) : (reservedName :: g.names).Nodup := by
  have hnodup := h.nodup
  rwa [h.nodes_eq] at hnodup

theorem WellFormed.children_getElem? (h : g.WellFormed) {p : Nat} {cs : List Nat}
    (hcs : g.children[p]? = some cs) : cs = childrenIn g.parents p := by
  have hp := (List.getElem?_eq_some_iff.mp hcs).1
  rw [h.children, childTable, List.length_map, List.length_range] at hp
  rw [h.children, childTable_getElem? hp] at hcs
  exact (Option.some.inj hcs).symm

/-- The invariant of graphs, over all ways of making one and whatever actions are put in. -/
theorem Reachable.consistent (h : g.Reachable P) : g.Consistent := by
  have hw := h.wellFormed
  constructor
  case parents_length => exact hw.length
  case children_length => rw [hw.children, childTable, List.length_map, List.length_range, hw.length]
  case parent_lt =>
    intro i hi hlt
    obtain ⟨p, hp⟩ := hw.exists_parent hlt
    exact ⟨p, hp, hw.parent_lt i p hi hp⟩
  case children_sorted =>
    intro p cs hcs
    rw [hw.children_getElem? hcs]
    exact childrenIn_sorted g.parents p
  case mem_children =>
    intro p cs hcs i
    rw [hw.children_getElem? hcs]
    exact mem_childrenIn
  case names_nodup => exact (List.nodup_cons.mp hw.names_nodup).2
  case reserved_not_mem => exact (List.nodup_cons.mp hw.names_nodup).1
  case registry =>
    intro name i
    rw [hw.registry_get?]
    by_cases hi : i = sentinel
    · subst hi
      simp [hw.root, Node.root, Node.detached, eq_comm]
    · simp [hi]
  case lastAppended => exact hw.lastAppended_eq_size
  case gated =>
    intro i n p hi hn hp
    obtain ⟨hatt, ⟨htop, hrun⟩ | ⟨hp, hrun⟩⟩ := hw.gated i n p hi hn hp
    · exact ⟨hatt, fun _ => hrun, fun hne => absurd htop hne⟩
    · exact ⟨hatt, fun htop => absurd htop hp, fun _ => hrun⟩

def twoSteps : Graph :=
  let step := Node.detached "step-1" "Step" "Compose" []
  let again := Node.detached "step-2" "Step" "Compose" []
  ((empty true (.sequential 0 "id")).link step sentinel RunMode.normal.states).link again 1
    RunMode.force.states

theorem twoSteps_reachable : twoSteps.Reachable Node.Made := by
  have hfirst := (Reachable.empty true (.sequential 0 "id")).insert
    (c := .append (Node.detached "step-1" "Step" "Compose" []) .normal) (Node.Made.fresh ..) rfl
  exact hfirst.insert
    (c := .append (Node.detached "step-2" "Step" "Compose" []) .force) (Node.Made.fresh ..) rfl

theorem twoSteps_twice_consistent :
    ((twoSteps.merge twoSteps).run {}).1.Reachable Node.Made ∧
      ((twoSteps.merge twoSteps).run {}).1.names = ["Step", "Step_1", "Step_2", "Step_1_1"] ∧
      ((twoSteps.merge twoSteps).run {}).1.Consistent :=
  have h := twoSteps_reachable.merge {} twoSteps_reachable
  ⟨h, by decide, Reachable.consistent h⟩

end Graph

end Workflow
