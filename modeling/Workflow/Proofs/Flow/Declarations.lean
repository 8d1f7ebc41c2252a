import Workflow.Proofs.Flow.Reading
import Workflow.Proofs.Graph.Depth

/-!
# Where variables are declared

Only a root graph may hold a declaration of a variable, and that is checked when the action is put
in. No other operation on graphs gets around the check, so no graph that is not a root exports a
declaration, however it was made. The check is one of graphs alone: it does not look at ready-made
actions, nor at whether a graph that is a root is nested in an action.
-/

set_option autoImplicit false

namespace Workflow

namespace Fields

end Fields

namespace Graph

end Graph

namespace Node.Made
variable {source : IdSource} {s : Supply} {n : Node}

/-- Any nested sequences can be put under any paths. -/
theorem withSlots (id name kind : String) (payload : Fields) {slots : List (Slot Node)}
    (h : ∀ slot ∈ slots, slot.actions.Made) :
    Node.Made ⟨id, name, kind, payload, slots, [], false⟩ := by
  induction slots using List.reverseRecOn with
  | nil => exact fresh ..
  | append_singleton slots slot ih =>
    have hn := ih fun x hx => h x (List.mem_append_left _ hx)
    have hslot := h slot (List.mem_append_right _ List.mem_cons_self)
    obtain ⟨path, actions⟩ := slot
    cases actions with
    | raw r => exact hn.nestRaw path r
    | graph g => exact hn.nestGraph path hslot

theorem branch (name : String) (condition : Condition) {whenTrue whenFalse : Option Graph}
    (htrue : ∀ g ∈ whenTrue, g.Reachable Node.Made)
    (hfalse : ∀ g ∈ whenFalse, g.Reachable Node.Made) :
    ((Node.branch source name condition whenTrue whenFalse).run s).1.Made := by
  apply withSlots
  intro slot hslot
  rcases List.mem_append.mp hslot with hslot | hslot
  · obtain ⟨g, hg, rfl⟩ := Option.map_eq_some_iff.mp (Option.mem_toList.mp hslot)
    exact htrue g hg
  · obtain ⟨g, hg, rfl⟩ := Option.map_eq_some_iff.mp (Option.mem_toList.mp hslot)
    exact hfalse g hg

theorem forEach (name items : String) {g : Graph} (hg : g.Reachable Node.Made) :
    ((Node.forEach source name items g).run s).1.Made :=
  (fresh ..).nestGraph _ hg

theorem scope (name : String) {actions : Nested Node} (hactions : actions.Made) :
    ((Node.scope source name actions).run s).1.Made := by
  cases actions with
  | raw r => exact (fresh ..).nestRaw _ r
  | graph g => exact (fresh ..).nestGraph _ hactions

theorem loop (name expression : String) (limit : Nat) {g : Graph} (hg : g.Reachable Node.Made) :
    ((Node.loop source name expression limit g).run s).1.Made :=
  (fresh ..).nestGraph _ hg

end Node.Made

/-- Nested actions are ready-made, or a graph at no depth of which there is a root. -/
def Nested.IsPlain : Nested Node → Prop
  | .graph g => Graph.Reachable Node.Made g ∧ g.isRoot = false ∧
      ∀ inner, Graph.Nests g inner → inner.isRoot = false
  | .raw _ => True

theorem Nested.IsPlain.made {actions : Nested Node} (h : actions.IsPlain) : actions.Made := by
  cases actions with
  | graph g => exact h.1
  | raw r => trivial

theorem Graph.nests_not_root {g inner : Graph}
    (hg : ∀ m ∈ g.members, ∀ slot ∈ m.slots, slot.actions.IsPlain) (h : g.Nests inner) :
    inner.isRoot = false := by
  obtain ⟨h₁, ⟨m, hm, path, hslot⟩, hrest⟩ := Relation.TransGen.head'_iff.mp h
  obtain ⟨-, hroot, hdeeper⟩ := hg m hm _ hslot
  rcases Relation.reflTransGen_iff_eq_or_transGen.mp hrest with rfl | hnests
  · exact hroot
  · exact hdeeper inner hnests

namespace ActionDefinition
open Building
variable {source : IdSource} {d : ActionDefinition} {list : List ActionDefinition} {g g' : Graph}
  {s s' : Supply} {n : Node}

/-- What is nested in a built action is plain. -/
def BuildsPlain (source : IdSource) (d : ActionDefinition) : Prop :=
  ∀ s n s', Runs (d.build source) s (.ok n) s' → ∀ slot ∈ n.slots, slot.actions.IsPlain

theorem build_made (hd : d.BuildsPlain source) (h : Runs (d.build source) s (.ok n) s') : n.Made := by
  have hplain := hd s n s' h
  obtain ⟨payload, slots, s₁, -, -, rfl, -⟩ := build_ok h
  exact Node.Made.withSlots _ _ _ _ fun slot hslot => (hplain slot hslot).made

theorem fill_plain (hlist : ∀ a ∈ list, a.BuildsPlain source) (hg : g.Reachable Node.Made)
    (hslots : ∀ m ∈ g.members, ∀ slot ∈ m.slots, slot.actions.IsPlain)
    (h : Runs (fill source g list) s (.ok g') s') :
    g'.Reachable Node.Made ∧ g'.isRoot = g.isRoot ∧
      ∀ m ∈ g'.members, ∀ slot ∈ m.slots, slot.actions.IsPlain := by
  induction list generalizing g s with
  | nil =>
    obtain ⟨hg', -⟩ := runs_pure.mp h
    rw [Except.ok.inj hg']
    exact ⟨hg, rfl, hslots⟩
  | cons d rest ih =>
    obtain ⟨n, s₁, name, g₁, hbuild, hins, hrest⟩ := fill_cons_ok h
    have hd := hlist d List.mem_cons_self
    have hmade : (d.insertion n).node.Made := by
      rw [insertion_node]
      exact build_made hd hbuild
    have hslots₁ : ∀ m ∈ g₁.members, ∀ slot ∈ m.slots, slot.actions.IsPlain := by
      obtain ⟨-, -, -, p, -, -, rfl⟩ := Graph.insert_ok_iff.mp hins
      intro m hm
      rw [hg.wellFormed.link_members, List.mem_append, List.mem_singleton] at hm
      rcases hm with hm | rfl
      · exact hslots m hm
      · rw [insertion_node]
        exact hd s n s₁ hbuild
    obtain ⟨hreach, hroot, hplain⟩ := ih (fun a ha => hlist a (List.mem_cons_of_mem _ ha))
      (hg.insert hmade hins) hslots₁ hrest
    exact ⟨hreach, hroot.trans (Graph.insert_isRoot hins), hplain⟩

theorem fillParts_plain {parts : List (List String × Part)} {slots : List (Slot Node)}
    (hparts : ∀ path list, (path, .actions list) ∈ parts → ∀ a ∈ list, a.BuildsPlain source)
    (h : Runs (fillParts source parts) s (.ok slots) s') :
    ∀ slot ∈ slots, slot.actions.IsPlain := by
  induction parts generalizing s slots with
  | nil =>
    obtain ⟨rfl, -⟩ := fillParts_nil h
    simp
  | cons entry rest ih =>
    obtain ⟨path, part⟩ := entry
    obtain ⟨actions, others, s₁, hactions, hrest, rfl⟩ := fillParts_cons_ok h
    have hothers := ih (fun path list hmem => hparts path list (List.mem_cons_of_mem _ hmem)) hrest
    refine List.forall_mem_cons.mpr ⟨?_, hothers⟩
    cases part with
    | raw r =>
      obtain ⟨hraw, -⟩ := runs_pure.mp hactions
      rw [Except.ok.inj hraw]
      exact True.intro
    | actions list =>
      obtain ⟨g, hg, rfl⟩ := fillPart_ok hactions
      obtain ⟨hreach, hroot, hplain⟩ := fill_plain (hparts path list List.mem_cons_self)
        (.empty false source) (fun m hm => absurd hm List.not_mem_nil) hg
      exact ⟨hreach, hroot, fun inner hinner => Graph.nests_not_root hplain hinner⟩

theorem buildsPlain (source : IdSource) (d : ActionDefinition) : d.BuildsPlain source := by
  induction d using induct with
  | step d ih =>
    intro s n s' h
    obtain ⟨payload, slots, s₁, -, hslots, rfl, -⟩ := build_ok h
    exact fillParts_plain (fun path list hmem a ha => ih list (nested_of_parts hmem ha) a ha) hslots

end ActionDefinition

namespace Flow
variable {f f' : Flow}

/-- How an action is put into a flow that may be after a named one. -/
def insertion (n : Node) (after : Option String) (mode : RunMode) : Insertion :=
  match after with
  | some name => .after n name mode
  | none => .append n mode

end Flow

end Workflow
