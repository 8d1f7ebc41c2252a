import Mathlib.Data.List.Basic
import Mathlib.Logic.Relation
import Workflow.Action.Raw
import Workflow.Proofs.Json.Path

/-!
# What runs after what in ready-made actions

Ready-made actions are accepted exactly if all of them are complete and none runs after an entry
that stands behind it. So no action waits for itself over others. That an action names itself is
allowed: such an action never runs, and neither does what waits for it. All others can run.
-/

set_option autoImplicit false

namespace Workflow

/-- An object with the three fields that every action has. -/
def Json.IsAction (v : Json) : Prop :=
  ∃ action : Fields, v = .object action ∧
    "type" ∈ action.keys ∧ "inputs" ∈ action.keys ∧ "metadata" ∈ action.keys

/-- Among the actions after which this one runs is one with that name. -/
def Json.Follows (v : Json) (name : String) : Prop :=
  ∃ after : Fields, v.lookup ["runAfter"] = some (.object after) ∧ name ∈ after.keys

namespace Fields

/-- Every entry runs after entries before it, or after itself. -/
def IsOrdered (actions : Fields) : Prop :=
  ∀ (i : Nat) (name : String) (v : Json), actions[i]? = some (name, v) →
    ∀ other, v.Follows other → other = name ∨ other ∈ keys (actions.take i)

/-- The action with the first name runs after the one with the other name. -/
def DependsOn (actions : Fields) (name other : String) : Prop :=
  ∃ v, actions.get? name = some v ∧ v.Follows other

/-- An action can run as soon as all have run on which it depends. -/
inductive CanRun (actions : Fields) : String → Prop where
  | step {name : String} : name ∈ actions.keys →
    (∀ other, actions.DependsOn name other → CanRun actions other) → CanRun actions name

variable {actions : Fields} {name other : String}

theorem getElem?_idxOf_keys {v : Json} (h : actions.get? name = some v) :
    actions[actions.keys.idxOf name]? = some (name, v) := by
  induction actions with
  | nil => cases h
  | cons entry rest ih =>
    obtain ⟨k, w⟩ := entry
    rw [get?] at h
    by_cases hk : k = name
    · rw [if_pos hk, Option.some.injEq] at h
      rw [keys, List.map_cons, List.idxOf_cons_eq _ hk, hk, h]
      rfl
    · rw [if_neg hk] at h
      rw [keys, List.map_cons, List.idxOf_cons_ne _ hk, List.getElem?_cons_succ]
      exact ih h

namespace IsOrdered

/-- A dependency on another action leads to an earlier place. -/
theorem dependsOn (h : actions.IsOrdered) (hdep : actions.DependsOn name other) :
    other = name ∨
      (other ∈ actions.keys ∧ actions.keys.idxOf other < actions.keys.idxOf name) := by
  obtain ⟨v, hv, hfollows⟩ := hdep
  rcases h _ name v (getElem?_idxOf_keys hv) other hfollows with hself | hbefore
  · exact .inl hself
  · rw [keys, List.map_take] at hbefore
    have hmem := List.mem_of_mem_take hbefore
    exact .inr ⟨hmem, (List.mem_take_iff_idxOf_lt hmem).mp hbefore⟩

theorem not_transGen_self (h : actions.IsOrdered) :
    ¬ Relation.TransGen (fun a b => a ≠ b ∧ actions.DependsOn a b) name name := by
  have hearlier : ∀ a b, Relation.TransGen (fun a b => a ≠ b ∧ actions.DependsOn a b) a b →
      actions.keys.idxOf b < actions.keys.idxOf a := by
    intro a b hab
    induction hab with
    | single hstep =>
      obtain ⟨hne, hdep⟩ := hstep
      exact ((h.dependsOn hdep).resolve_left hne.symm).2
    | tail _ hstep ih =>
      obtain ⟨hne, hdep⟩ := hstep
      exact Nat.lt_trans ((h.dependsOn hdep).resolve_left hne.symm).2 ih
  exact fun hcycle => Nat.lt_irrefl _ (hearlier name name hcycle)

end IsOrdered

theorem CanRun.not_dependsOn_self (h : actions.CanRun name) : ¬ actions.DependsOn name name := by
  induction h with
  | step _ _ ih => exact fun hself => ih _ hself hself

theorem CanRun.of_reflTransGen (h : actions.CanRun name)
    (hreach : Relation.ReflTransGen actions.DependsOn name other) : actions.CanRun other := by
  induction hreach with
  | refl => exact h
  | tail _ hdep ih =>
    cases ih with
    | step _ hbelow => exact hbelow _ hdep

/-- Only an action that names itself can hold up others. The induction is on the place of the
action, since what it waits for stands before it. -/
theorem IsOrdered.canRun_iff (h : actions.IsOrdered) (hname : name ∈ actions.keys) :
    actions.CanRun name ↔
      ∀ other, Relation.ReflTransGen actions.DependsOn name other →
        ¬ actions.DependsOn other other := by
  constructor
  · exact fun hrun other hreach => (hrun.of_reflTransGen hreach).not_dependsOn_self
  · intro hfree
    induction hi : actions.keys.idxOf name using Nat.strongRecOn generalizing name with
    | ind i ih =>
      subst hi
      refine .step hname fun other hdep => ?_
      rcases h.dependsOn hdep with rfl | ⟨hmem, hlt⟩
      · exact absurd hdep (hfree _ .refl)
      · exact ih _ hlt hmem (fun last hreach => hfree last (.head hdep hreach)) rfl

end Fields

namespace Raw
variable {known : List String}

theorem mem_dependencies_iff {action : Fields} {name : String} :
    name ∈ dependencies action ↔ (Json.object action).Follows name := by
  rw [Json.Follows, Fields.lookup_singleton, dependencies]
  cases hafter : Fields.get? "runAfter" action with
  | none => simp
  | some v => cases v <;> simp

/-- What one round of the check asks of an entry. -/
theorem isEntry_iff {v : Json} :
    isEntry known v = true ↔ v.IsAction ∧ ∀ name, v.Follows name → name ∈ known := by
  cases v with
  | object action =>
    simp [isEntry, requiredKeys, Json.IsAction, ← mem_dependencies_iff, Fields.contains_iff]
  | _ => simp [isEntry, Json.IsAction]

/-- An entry adds its name to those that are known. -/
theorem known_step {entry : String × Json} {rest : Fields} {i : Nat} {name : String} :
    name ∈ known ∨ name ∈ Fields.keys ((entry :: rest).take (i + 1)) ↔
      name ∈ entry.1 :: known ∨ name ∈ Fields.keys (rest.take i) := by
  simp only [List.take_succ_cons, Fields.keys, List.map_cons, List.mem_cons]
  tauto

theorem keys_take_succ {fields : Fields} {i : Nat} {name : String} {v : Json}
    (h : fields[i]? = some (name, v)) :
    Fields.keys (fields.take (i + 1)) = Fields.keys (fields.take i) ++ [name] := by
  rw [List.take_add_one, h, Fields.keys, List.map_append]
  rfl

/-- The rounds in a row: an entry is checked with the names known from the beginning, those of the
entries before it and its own. -/
theorem areEntries_iff {fields : Fields} :
    areEntries known fields = true ↔
      ∀ (i : Nat) (name : String) (v : Json), fields[i]? = some (name, v) → v.IsAction ∧
        ∀ other, v.Follows other → other ∈ known ∨ other ∈ Fields.keys (fields.take (i + 1)) := by
  induction fields generalizing known with
  | nil => simp [areEntries]
  | cons entry rest ih =>
    obtain ⟨name, v⟩ := entry
    rw [areEntries, Bool.and_eq_true, isEntry_iff, ih]
    simp only [known_step]
    constructor
    · rintro ⟨hfirst, hrest⟩ i other w hentry
      cases i with
      | zero =>
        obtain ⟨rfl, rfl⟩ := Prod.mk.inj (Option.some.inj hentry)
        exact ⟨hfirst.1, fun dep hdep => .inl (hfirst.2 dep hdep)⟩
      | succ i => exact hrest i other w hentry
    · intro h
      refine ⟨?_, fun i other w hentry => h (i + 1) other w hentry⟩
      obtain ⟨haction, hknown⟩ := h 0 name v rfl
      refine ⟨haction, fun dep hdep => (hknown dep hdep).resolve_right List.not_mem_nil⟩

theorem isValid_iff (r : Raw) :
    r.isValid = true ↔ r.definition ≠ [] ∧ (∀ entry ∈ r.definition, entry.2.IsAction) ∧
      r.definition.IsOrdered := by
  rw [isValid, Bool.and_eq_true, Bool.not_eq_true', List.isEmpty_eq_false_iff, areEntries_iff]
  refine and_congr_right fun _ => ?_
  constructor
  · intro h
    constructor
    · rintro ⟨name, v⟩ hentry
      obtain ⟨i, hi⟩ := List.mem_iff_getElem?.mp hentry
      exact (h i name v hi).1
    · intro i name v hi other hfollows
      have hknown := ((h i name v hi).2 other hfollows).resolve_left List.not_mem_nil
      rw [keys_take_succ hi, List.mem_append, List.mem_singleton] at hknown
      exact hknown.symm
  · rintro ⟨hactions, hordered⟩ i name v hi
    refine ⟨hactions _ (List.mem_of_getElem? hi), fun other hfollows => .inr ?_⟩
    rw [keys_take_succ hi, List.mem_append, List.mem_singleton]
    exact (hordered i name v hi other hfollows).symm

theorem toFields_of_isValid {r : Raw} (h : r.isValid = true) : r.toFields = r.definition := if_pos h

theorem toFields_isOrdered (r : Raw) : r.toFields.IsOrdered := by
  by_cases h : r.isValid = true
  · rw [toFields_of_isValid h]
    exact ((isValid_iff r).mp h).2.2
  · rw [toFields, if_neg h]
    intro i name v hi
    cases hi

/-- What is accepted is exported as it is. In an export no action waits for itself over others, and
an action can run exactly if neither it nor anything it waits for names itself. -/
theorem accepted_runs (r : Raw) :
    (r.isValid = true ↔ r.definition ≠ [] ∧ (∀ entry ∈ r.definition, entry.2.IsAction) ∧
      r.definition.IsOrdered) ∧
    (r.isValid = true → r.toFields = r.definition) ∧
    (∀ name, ¬ Relation.TransGen (fun a b => a ≠ b ∧ r.toFields.DependsOn a b) name name) ∧
    ∀ name ∈ r.toFields.keys, (r.toFields.CanRun name ↔
      ∀ other, Relation.ReflTransGen r.toFields.DependsOn name other →
        ¬ r.toFields.DependsOn other other) := by
  have hordered := r.toFields_isOrdered
  exact ⟨r.isValid_iff, toFields_of_isValid, fun _ => hordered.not_transGen_self,
    fun _ hname => hordered.canRun_iff hname⟩

/-- An action that waits for itself. -/
def selfFollowing : Raw where
  definition := [("Step", .object [("type", .string "Compose"), ("inputs", .string "x"),
    ("metadata", .object []), ("runAfter", .object [("Step", .array [.string "Succeeded"])])])]

/-- The action is accepted although it names no earlier entry, and in the export it never runs. -/
theorem selfFollowing_accepted :
    selfFollowing.isValid = true ∧
    (∃ i name v other, selfFollowing.definition[i]? = some (name, v) ∧ v.Follows other ∧
      other ∉ Fields.keys (selfFollowing.definition.take i)) ∧
    (∃ name, Relation.TransGen selfFollowing.toFields.DependsOn name name) ∧
    ∃ name ∈ selfFollowing.toFields.keys, ¬ selfFollowing.toFields.CanRun name := by
  have hself : selfFollowing.toFields.DependsOn "Step" "Step" :=
    ⟨_, rfl, _, rfl, List.mem_singleton_self _⟩
  refine ⟨rfl, ?_, ⟨"Step", .single hself⟩, "Step", List.mem_singleton_self _, ?_⟩
  · obtain ⟨v, hv, hfollows⟩ := hself
    exact ⟨0, "Step", v, "Step", Fields.getElem?_idxOf_keys hv, hfollows, List.not_mem_nil⟩
  · exact fun hrun => hrun.not_dependsOn_self hself

end Raw

end Workflow
