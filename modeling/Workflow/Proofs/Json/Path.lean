import Workflow.Json.Basic

/-!
# Values under paths

Looking up a path follows its keys one after the other. A value that is put under a path is found
there, and every path that parts from it leads where it led before.
-/

set_option autoImplicit false

namespace Workflow

namespace Fields

theorem get?_append {key : String} {header fields : Fields} (h : key ∉ header.keys) :
    get? key (header ++ fields) = get? key fields := by
  induction header with
  | nil => rfl
  | cons entry header ih =>
    obtain ⟨k, v⟩ := entry
    simp only [keys, List.map_cons, List.mem_cons, not_or] at h
    rw [List.cons_append, get?, if_neg (Ne.symm h.1)]
    exact ih h.2

theorem get?_of_not_mem {key : String} {fields : Fields} (h : key ∉ fields.keys) :
    get? key fields = none := by
  have hend : get? key (fields ++ []) = none := get?_append h
  rwa [List.append_nil] at hend

theorem contains_iff {key : String} {fields : Fields} :
    contains key fields = true ↔ key ∈ fields.keys := by
  induction fields with
  | nil => simp [contains, get?, keys]
  | cons entry fields ih =>
    obtain ⟨k, v⟩ := entry
    simp only [contains, keys] at ih
    by_cases hk : k = key
    · simp [contains, get?, keys, hk]
    · simp [contains, get?, keys, hk, Ne.symm hk, ih]

theorem get?_insert (key other : String) (v : Json) (fields : Fields) :
    get? other (insert key v fields) = if key = other then some v else get? other fields := by
  induction fields with
  | nil => rfl
  | cons entry fields ih =>
    obtain ⟨k, w⟩ := entry
    by_cases hk : k = key
    · subst hk
      by_cases ho : k = other <;> simp [insert, get?, ho]
    · by_cases ho : k = other
      · subst ho
        simp [insert, get?, hk, Ne.symm hk]
      · simp [insert, get?, hk, ho, ih]

theorem keys_insert (key : String) (v : Json) (fields : Fields) :
    (insert key v fields).keys =
      if key ∈ fields.keys then fields.keys else fields.keys ++ [key] := by
  induction fields with
  | nil => rfl
  | cons entry fields ih =>
    obtain ⟨k, w⟩ := entry
    simp only [keys] at ih ⊢
    by_cases hk : k = key
    · simp [insert, hk]
    · by_cases hmem : key ∈ fields.map Prod.fst
      · simp [insert, hk, ih, hmem]
      · simp [insert, hk, Ne.symm hk, ih, hmem]

section Filter
variable {key : String} {p : String → Bool}

theorem filter_insert (h : p key = false) (v : Json) (fields : Fields) :
    (insert key v fields).filter (fun entry => p entry.1) =
      fields.filter fun entry => p entry.1 := by
  induction fields with
  | nil => simp [insert, h]
  | cons entry fields ih =>
    obtain ⟨k, w⟩ := entry
    by_cases hk : k = key
    · simp [insert, hk, h]
    · rw [insert, if_neg hk, List.filter_cons, List.filter_cons, ih]

theorem get?_filter (h : p key = true) (fields : Fields) :
    get? key (fields.filter fun entry => p entry.1) = get? key fields := by
  induction fields with
  | nil => rfl
  | cons entry fields ih =>
    obtain ⟨k, w⟩ := entry
    by_cases hk : k = key
    · simp [get?, hk, h]
    · cases hp : p k <;> simp [get?, hk, hp, ih]

end Filter

end Fields

/-- Neither path leads on from the end of the other. -/
def Apart (p q : List String) : Prop := ¬ p <+: q ∧ ¬ q <+: p

instance : DecidableRel Apart := fun p q => inferInstanceAs (Decidable (¬ p <+: q ∧ ¬ q <+: p))

theorem Apart.symm {p q : List String} (h : Apart p q) : Apart q p := ⟨h.2, h.1⟩

theorem Apart.tail {key : String} {p q : List String} (h : Apart (key :: p) (key :: q)) :
    Apart p q := by
  rwa [Apart, List.prefix_cons_inj, List.prefix_cons_inj] at h

namespace Json

theorem lookup_append (v : Json) (p q : List String) :
    v.lookup (p ++ q) = (v.lookup p).bind fun inner => inner.lookup q := by
  induction p generalizing v with
  | nil => rfl
  | cons key p ih =>
    cases v with
    | object fields =>
      rw [List.cons_append, lookup, lookup, Option.bind_assoc]
      congr 1
      funext inner
      exact ih inner
    | _ => rfl

/-- A path leads through the fields of a value only. -/
theorem lookup_fields (v : Json) {path : List String} (hpath : path ≠ []) :
    (object v.fields).lookup path = v.lookup path := by
  cases path with
  | nil => exact absurd rfl hpath
  | cons key path => cases v <;> rfl

end Json

namespace Fields

theorem lookup_singleton (fields : Fields) (key : String) :
    (Json.object fields).lookup [key] = get? key fields := by
  rw [Json.lookup]
  cases get? key fields <;> rfl

/-- A value that is put under a path changes the entry of the first key alone. -/
theorem exists_insertAt (v : Json) (key : String) (path : List String) (fields : Fields) :
    ∃ u, insertAt v (key :: path) fields = insert key u fields := by
  cases path with
  | nil => exact ⟨_, rfl⟩
  | cons next path => exact ⟨_, rfl⟩

theorem keys_insertAt (v : Json) (key : String) (path : List String) (fields : Fields) :
    (insertAt v (key :: path) fields).keys =
      if key ∈ fields.keys then fields.keys else fields.keys ++ [key] := by
  obtain ⟨u, hu⟩ := exists_insertAt v key path fields
  rw [hu, keys_insert]

/-- What is put under a path is found there. -/
theorem lookup_insertAt (v : Json) {path : List String} (hpath : path ≠ []) (fields : Fields) :
    (Json.object (insertAt v path fields)).lookup path = some v := by
  induction path generalizing fields with
  | nil => exact absurd rfl hpath
  | cons key path ih =>
    cases path with
    | nil =>
      rw [insertAt, Json.lookup, get?_insert, if_pos rfl]
      rfl
    | cons next path =>
      rw [insertAt, Json.lookup, get?_insert, if_pos rfl, Option.bind_some]
      exact ih (List.cons_ne_nil next path) _

/-- Where another path led, it leads still. -/
theorem lookup_insertAt_of_apart (v : Json) {p q : List String} (h : Apart p q) (fields : Fields) :
    (Json.object (insertAt v p fields)).lookup q = (Json.object fields).lookup q := by
  induction p generalizing q fields with
  | nil => rfl
  | cons key p ih =>
    cases q with
    | nil => exact absurd List.nil_prefix h.2
    | cons other q =>
      by_cases hkey : key = other
      · subst hkey
        have hrest := h.tail
        have hq : q ≠ [] := by
          rintro rfl
          exact hrest.2 List.nil_prefix
        cases p with
        | nil => exact absurd List.nil_prefix hrest.1
        | cons next p =>
          rw [insertAt, Json.lookup, Json.lookup, get?_insert, if_pos rfl, Option.bind_some,
            ih hrest, Json.lookup_fields _ hq]
          cases get? key fields with
          | some inner => rfl
          | none =>
            obtain ⟨last, q, rfl⟩ := List.exists_cons_of_ne_nil hq
            rfl
      · cases p with
        | nil => rw [insertAt, Json.lookup, Json.lookup, get?_insert, if_neg hkey]
        | cons next p => rw [insertAt, Json.lookup, Json.lookup, get?_insert, if_neg hkey]

end Fields

end Workflow
