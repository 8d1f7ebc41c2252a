import Workflow.Proofs.Dependency
import Workflow.Proofs.Graph.Forest

/-!
# Exports as ready-made actions

What a graph exports can be used again as ready-made actions, if each action has inputs and there is
at least one. For the order of the exports is that of the graph, where an action hangs under an
earlier one and waits for this one alone, by the name under which it is exported.
-/

set_option autoImplicit false

namespace Workflow

namespace Node
variable {n : Node}

theorem follows_iff (h : n.IsUnreserved) (name : String) :
    n.toJson.Follows name ↔ name ∈ n.runAfterFields.keys := by
  have hafter : n.toJson.lookup ["runAfter"] = some (.object n.runAfterFields) := by
    rw [toJson, toFields_eq h]
    rfl
  simp [Json.Follows, hafter]

/-- An action is exported with its type and its identity; whether it has inputs is up to its payload
and what is nested in it. -/
theorem isAction_iff (h : n.IsUnreserved) :
    n.toJson.IsAction ↔ (n.toJson.lookup ["inputs"]).isSome = true := by
  have hkeys : ∀ key ∈ reservedKeys, key ∈ n.toFields.keys := by
    intro key hkey
    rw [toFields_eq h, Fields.keys, List.map_append]
    exact List.mem_append_left _ hkey
  have htype := hkeys "type" (by decide)
  have hmetadata := hkeys "metadata" (by decide)
  rw [toJson, Fields.lookup_singleton, Json.IsAction, ← Fields.contains, Fields.contains_iff]
  simp [htype, hmetadata]

end Node

namespace Graph
variable {g : Graph}

/-- There are actions, and all have inputs. -/
def IsFilled (g : Graph) : Prop :=
  g.size ≠ 0 ∧ ∀ entry ∈ g.toFields, (entry.2.lookup ["inputs"]).isSome = true

namespace WellFormed

/-- What an action waits for is exported before it. -/
theorem toFields_isOrdered (h : g.WellFormed) (hslots : ∀ n ∈ g.members, n.IsUnreserved) :
    g.toFields.IsOrdered := by
  intro i name v hv other hfollows
  obtain ⟨n, hn, rfl, rfl⟩ := h.toFields_getElem?.mp hv
  have hi : i + 1 ≠ sentinel := Nat.succ_ne_zero i
  have hmem : n ∈ g.members := mem_members_iff.mpr ⟨i + 1, hi, hn⟩
  rw [Node.follows_iff (hslots n hmem), h.keys_runAfterFields hi hn, Option.mem_toList] at hfollows
  rcases h.parentName?_cases hi hn with ⟨-, hparent⟩ | ⟨p, q, hroot, hpi, -, hq, hparent⟩
  · rw [hparent] at hfollows
    cases hfollows
  · obtain ⟨j, rfl⟩ := Nat.exists_eq_succ_of_ne_zero hroot
    obtain rfl := Option.some.inj (hparent.symm.trans hfollows)
    have hentry : (g.toFields.take i)[j]? = some (q.name, q.toJson) := by
      rw [List.getElem?_take_of_lt (Nat.succ_lt_succ_iff.mp hpi)]
      exact h.toFields_getElem?.mpr ⟨q, hq, rfl, rfl⟩
    exact .inr (List.mem_map_of_mem (List.mem_of_getElem? hentry))

theorem toFields_isValid_iff (h : g.WellFormed) (hslots : ∀ n ∈ g.members, n.IsUnreserved) :
    (Raw.mk g.toFields).isValid = true ↔ g.IsFilled := by
  rw [Raw.isValid_iff, IsFilled, and_iff_left (h.toFields_isOrdered hslots)]
  refine and_congr ?_ ?_
  · rw [h.toFields_eq, memberFields_eq, size, ne_eq, List.map_eq_nil_iff, ne_eq,
      List.length_eq_zero_iff]
  · rw [h.toFields_eq, memberFields_eq, List.forall_mem_map, List.forall_mem_map]
    exact forall₂_congr fun n hn => Node.isAction_iff (hslots n hn)

end WellFormed

/-- Taken as ready-made actions, the exports of a graph are accepted exactly if there are any and
all have inputs. Then they are exported as they are, and otherwise nothing is. -/
theorem Reachable.toFields_accepted {P : Node → Prop} (h : g.Reachable P)
    (hslots : ∀ n ∈ g.members, n.IsUnreserved) :
    ((Raw.mk g.toFields).isValid = true ↔ g.IsFilled) ∧
    (g.IsFilled → (Raw.mk g.toFields).toFields = g.toFields) ∧
    (¬ g.IsFilled → (Raw.mk g.toFields).toFields = []) := by
  have hvalid := h.wellFormed.toFields_isValid_iff hslots
  refine ⟨hvalid, ?_, ?_⟩
  · intro hfilled
    exact Raw.toFields_of_isValid (hvalid.mpr hfilled)
  · intro hfilled
    exact if_neg fun haccepted => hfilled (hvalid.mp haccepted)

/-- Two steps with inputs, the second one under a new name and run after the first one. -/
def filledSteps : Graph :=
  let fill := Fields.insert "inputs" (.string "x")
  (twoSteps.updatePayload "Step" fill).updatePayload "Step_1" fill

theorem filledSteps_reachable : filledSteps.Reachable Node.Made :=
  (twoSteps_reachable.edit "Step" _).edit "Step_1" _

theorem filledSteps_twice_accepted :
    let g := ((filledSteps.merge filledSteps).run {}).1
    g.Reachable Node.Made ∧ (∀ n ∈ g.members, n.IsUnreserved) ∧
      g.toFields.keys = ["Step", "Step_1", "Step_2", "Step_1_1"] ∧
      (Raw.mk g.toFields).isValid = true ∧ (Raw.mk g.toFields).toFields = g.toFields := by
  intro g
  have hg : g.Reachable Node.Made := filledSteps_reachable.merge {} filledSteps_reachable
  have hslots : ∀ n ∈ g.members, n.IsUnreserved := by
    unfold Node.IsUnreserved
    decide
  have hfilled : g.IsFilled := by
    unfold IsFilled
    decide
  obtain ⟨hvalid, hkept, -⟩ := Reachable.toFields_accepted hg hslots
  exact ⟨hg, hslots, by decide, hvalid.mpr hfilled, hkept hfilled⟩

end Graph

end Workflow
