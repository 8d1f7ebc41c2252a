import Workflow.Proofs.Graph.Nested

/-!
# Equality apart from identities

Two actions are equal apart from identities if they become equal when all identities in them, at
every depth, are made blank. A copy of an action is equal in this sense to the action as it was
before it was put in anywhere, and a copy of a graph is equal to the graph.
-/

set_option autoImplicit false

namespace Workflow

mutual

/-- The action with blank identities at every depth. -/
def Node.anonymous : Node → Node
  | ⟨_, name, kind, payload, slots, runAfter, isAttached⟩ =>
    ⟨"", name, kind, payload, anonymousSlots slots, runAfter, isAttached⟩

def anonymousSlots : List (Slot Node) → List (Slot Node)
  | [] => []
  | ⟨path, actions⟩ :: rest => ⟨path, anonymousNested actions⟩ :: anonymousSlots rest

def anonymousNested : Nested Node → Nested Node
  | .raw actions => .raw actions
  | .graph ⟨nodes, parents, children, registry, lastAppended, isRoot, source⟩ =>
    .graph ⟨anonymousNodes nodes, parents, children, registry, lastAppended, isRoot, source⟩

def anonymousNodes : List Node → List Node
  | [] => []
  | n :: rest => n.anonymous :: anonymousNodes rest

end

theorem anonymousNodes_eq_map (nodes : List Node) : anonymousNodes nodes = nodes.map Node.anonymous := by
  induction nodes with
  | nil => rfl
  | cons n rest ih => rw [anonymousNodes, ih, List.map_cons]

def Graph.anonymous (g : Graph) : Graph := { g with nodes := g.nodes.map Node.anonymous }

theorem anonymousNested_graph (g : Graph) : anonymousNested (.graph g) = .graph g.anonymous := by
  rw [Graph.anonymous, ← anonymousNodes_eq_map]
  rfl

namespace Node
variable (n : Node)

theorem anonymous_eq : n.anonymous = { n with id := "", slots := anonymousSlots n.slots } := by
  cases n
  rfl

@[simp] theorem anonymous_name : n.anonymous.name = n.name := by rw [anonymous_eq]

@[simp] theorem anonymous_kind : n.anonymous.kind = n.kind := by rw [anonymous_eq]

@[simp] theorem anonymous_payload : n.anonymous.payload = n.payload := by rw [anonymous_eq]

@[simp] theorem anonymous_runAfter : n.anonymous.runAfter = n.runAfter := by rw [anonymous_eq]

def released : Node := { n with runAfter := [], isAttached := false }

end Node

namespace Graph

/-- Copies of a well-formed graph are equal to it apart from identities, if copies of its actions
are. -/
theorem Duplicated.anonymous {g c : Graph} (hg : g.WellFormed) (h : Duplicated g c)
    (hcopy : ∀ n ∈ g.members, ∀ x, IsCopy n x → x.anonymous = n.released.anonymous) :
    c.anonymous = g.anonymous := by
  have hnodes : c.nodes.map Node.anonymous = g.nodes.map Node.anonymous := by
    apply h.map_nodes hg
    intro n hn x hx
    have heq := hcopy n hn x hx
    simp only [Node.anonymous_eq, Node.released, Node.mk.injEq] at heq
    rw [Node.anonymous_eq, Node.anonymous_eq]
    simp [heq]
  have hchildren : c.children = g.children := by
    rw [h.wellFormed.children, hg.children, h.parents]
  have hregistry : c.registry = g.registry := by
    rw [h.wellFormed.registry, hg.registry, h.names hg]
  unfold Graph.anonymous
  rw [hnodes, h.parents, hchildren, hregistry, h.lastAppended hg, h.isRoot, h.source]

end Graph

mutual

theorem Node.Made.copy_anonymous : (n : Node) → n.Made → ∀ c, IsCopy n c →
    c.anonymous = n.released.anonymous
  | ⟨id, name, kind, payload, slots, runAfter, isAttached⟩, h, c, hc => by
    obtain ⟨source, s, rfl⟩ := hc
    have hslots := copySlots_anonymous slots h.nested (s.advance source.key)
    rw [Node.copy_run, Node.released, Node.anonymous_eq, Node.anonymous_eq, hslots]

theorem copySlots_anonymous : (slots : List (Slot Node)) → (∀ slot ∈ slots, slot.actions.Made) →
    ∀ s, anonymousSlots ((copySlots slots).run s).1 = anonymousSlots slots
  | [], _, _ => rfl
  | ⟨path, actions⟩ :: rest, h, s => by
    have hactions := copyNested_anonymous actions (h _ List.mem_cons_self) s
    have hrest := copySlots_anonymous rest (fun slot hslot => h slot (List.mem_cons_of_mem _ hslot))
      ((copyNested actions).run s).2
    rw [copySlots_cons]
    dsimp only
    rw [anonymousSlots, anonymousSlots, hactions, hrest]

theorem copyNested_anonymous : (a : Nested Node) → a.Made →
    ∀ s, anonymousNested ((copyNested a).run s).1 = anonymousNested a
  | .raw actions, _, _ => rfl
  | .graph ⟨nodes, parents, children, registry, lastAppended, isRoot, source⟩, h, s => by
    have hg := Graph.Reachable.wellFormed h
    have hcopy := (Graph.copy_duplicated hg s).anonymous hg fun n hn =>
      copies_anonymous nodes n (List.mem_of_mem_tail hn) (Node.Made.member h hn)
    rw [copyNested_graph, anonymousNested_graph, hcopy, anonymousNested_graph]

theorem copies_anonymous : (nodes : List Node) → ∀ n ∈ nodes, n.Made →
    ∀ c, IsCopy n c → c.anonymous = n.released.anonymous
  | [], _, hn, _, _, _ => absurd hn List.not_mem_nil
  | m :: rest, n, hn, h, c, hc => by
    rcases List.mem_cons.mp hn with heq | hn
    · rw [heq] at h hc ⊢
      exact Node.Made.copy_anonymous m h c hc
    · exact copies_anonymous rest n hn h c hc

end

/-- A copy of a graph is equal to it apart from identities. -/
theorem Graph.Reachable.copy_anonymous {g : Graph} (h : g.Reachable Node.Made) (s : Supply) :
    (g.copy.run s).1.anonymous = g.anonymous :=
  (copy_duplicated h.wellFormed s).anonymous h.wellFormed fun n hn =>
    Node.Made.copy_anonymous n (Node.Made.member h hn)

end Workflow
