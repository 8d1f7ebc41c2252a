import Mathlib.Data.List.Nodup
import Mathlib.Data.List.Perm.Subperm
import Workflow.Graph.FreeName

/-!
# The first free name is free

Candidates for a name differ from each other. So one of them is free, and the search stops at the
least one.
-/

set_option autoImplicit false

namespace Workflow

/-- What the search promises: a candidate that is not taken, all earlier ones being taken. -/
def IsFirstFree (taken : List String) (name got : String) : Prop :=
  ∃ k, got = candidate name k ∧ got ∉ taken ∧ ∀ j, j < k → candidate name j ∈ taken

theorem candidate_succ_length (name : String) (k : Nat) :
    name.length < (candidate name (k + 1)).length := by
  simp only [candidate, String.length_append]
  have h : "_".length = 1 := by decide
  omega

theorem candidate_injective (name : String) {i j : Nat} (h : candidate name i = candidate name j) :
    i = j := by
  cases i with
  | zero =>
    cases j with
    | zero => rfl
    | succ j =>
      have hlen := candidate_succ_length name j
      rw [← h] at hlen
      exact absurd hlen (Nat.lt_irrefl _)
  | succ i =>
    cases j with
    | zero =>
      have hlen := candidate_succ_length name i
      rw [h] at hlen
      exact absurd hlen (Nat.lt_irrefl _)
    | succ j =>
      have hlist := congrArg String.toList h
      simp only [candidate, String.toList_append] at hlist
      have hdigits := congrArg (fun ds => Nat.ofDigitChars 10 ds 0) (List.append_cancel_left hlist)
      simpa [Nat.toString_eq_ofList_toDigits] using hdigits

theorem underscore_not_mem_toString (k : Nat) : '_' ∉ (toString k).toList := by
  intro hmem
  rw [Nat.toString_eq_ofList_toDigits, String.toList_ofList] at hmem
  have hdigit := Nat.isDigit_of_mem_toDigits (by decide) (Nat.le_refl 10) hmem
  exact absurd hdigit (by decide)

/-- A candidate for a name is followed by one number, and one for a numbered candidate by two. -/
theorem candidate_ne_candidate_candidate (name : String) (i k j : Nat) :
    candidate name i ≠ candidate (candidate name (k + 1)) (j + 1) := by
  intro heq
  cases i with
  | zero =>
    have hfirst := candidate_succ_length name k
    have hsecond := candidate_succ_length (candidate name (k + 1)) j
    have hlength := congrArg String.length heq
    rw [candidate] at hlength
    omega
  | succ i =>
    have hlist := congrArg String.toList heq
    simp only [candidate, String.toList_append, List.append_assoc, List.append_cancel_left_eq]
      at hlist
    apply underscore_not_mem_toString (i + 1)
    rw [hlist]
    simp

/-- More candidates than taken names cannot all be taken. -/
theorem exists_candidate_free (taken : List String) (name : String) :
    ∃ k, k < taken.length + 1 ∧ candidate name k ∉ taken := by
  by_contra hall
  simp only [not_exists, not_and, not_not] at hall
  have hnodup : ((List.range (taken.length + 1)).map (candidate name)).Nodup :=
    List.Nodup.map (fun _ _ => candidate_injective name) List.nodup_range
  have hsub : (List.range (taken.length + 1)).map (candidate name) ⊆ taken := by
    intro x hx
    obtain ⟨k, hk, rfl⟩ := List.mem_map.mp hx
    exact hall k (List.mem_range.mp hk)
  have hlen := (List.subperm_of_subset hnodup hsub).length_le
  rw [List.length_map, List.length_range] at hlen
  omega

theorem firstFree_isFirst (taken : List String) (name : String) :
    IsFirstFree taken name (firstFree taken name) := by
  obtain ⟨k, hk, hfree⟩ := exists_candidate_free taken name
  cases hfind : (List.range (taken.length + 1)).find?
      fun k => !taken.contains (candidate name k) with
  | none =>
    have hnone := List.find?_eq_none.mp hfind k (List.mem_range.mpr hk)
    simp [hfree] at hnone
  | some m =>
    have hm : firstFree taken name = candidate name m := by
      simp only [firstFree, hfind, Option.getD_some]
    rw [List.find?_range_eq_some] at hfind
    obtain ⟨hfreem, -, hbefore⟩ := hfind
    refine ⟨m, hm, ?_, ?_⟩
    · simpa [hm] using hfreem
    · intro j hj
      simpa using hbefore j hj

theorem firstFree_not_mem (taken : List String) (name : String) :
    firstFree taken name ∉ taken := by
  obtain ⟨_, _, hfree, _⟩ := firstFree_isFirst taken name
  exact hfree

theorem IsFirstFree.unique {taken : List String} {name a b : String}
    (ha : IsFirstFree taken name a) (hb : IsFirstFree taken name b) : a = b := by
  obtain ⟨i, rfl, hi, hbefore⟩ := ha
  obtain ⟨j, rfl, hj, hbefore'⟩ := hb
  rcases Nat.lt_trichotomy i j with hlt | heq | hgt
  · exact absurd (hbefore' i hlt) hi
  · rw [heq]
  · exact absurd (hbefore j hgt) hj

theorem IsFirstFree.eq_self {taken : List String} {name got : String}
    (h : IsFirstFree taken name got) (hfree : name ∉ taken) : got = name :=
  h.unique ⟨0, rfl, hfree, fun _ hj => absurd hj (Nat.not_lt_zero _)⟩

theorem firstFree_eq_self_iff {taken : List String} {name : String} :
    firstFree taken name = name ↔ name ∉ taken := by
  constructor
  · intro h hmem
    rw [← h] at hmem
    exact firstFree_not_mem taken name hmem
  · exact (firstFree_isFirst taken name).eq_self

theorem candidate_one_not_mem_cons {taken : List String} {name : String}
    (h : candidate name 1 ∉ taken) : candidate name 1 ∉ name :: taken := by
  intro hmem
  rcases List.mem_cons.mp hmem with heq | hmem
  · exact absurd (candidate_injective name (j := 0) heq) Nat.one_ne_zero
  · exact h hmem

theorem firstFree_cons_self {taken : List String} {name : String} (h : candidate name 1 ∉ taken) :
    firstFree (name :: taken) name = candidate name 1 := by
  apply (firstFree_isFirst _ _).unique
  refine ⟨1, rfl, candidate_one_not_mem_cons h, ?_⟩
  intro j hj
  rw [Nat.lt_one_iff.mp hj]
  exact List.mem_cons_self

/-- A search that starts from a taken candidate does not find what the search for the name finds. -/
theorem firstFree_candidate_ne {taken : List String} {name : String} {k : Nat}
    (h : candidate name (k + 1) ∈ taken) :
    firstFree taken (candidate name (k + 1)) ≠ firstFree taken name := by
  obtain ⟨i, hi, -, -⟩ := firstFree_isFirst taken name
  obtain ⟨j, hj, hfree, -⟩ := firstFree_isFirst taken (candidate name (k + 1))
  cases j with
  | zero =>
    rw [hj] at hfree
    exact absurd h hfree
  | succ j =>
    rw [hi, hj]
    exact (candidate_ne_candidate_candidate name i k j).symm

/-- To look for a free name where only `top` is taken, and then from there on, gives what is found at
once, unless the name is `top` and its first candidate is taken as well. -/
theorem firstFree_twice_iff (top : String) (taken : List String) (name : String) :
    firstFree (top :: taken) (firstFree [top] name) = firstFree (top :: taken) name ↔
      name ≠ top ∨ candidate top 1 ∉ taken := by
  by_cases hname : name = top
  · subst hname
    rw [firstFree_cons_self List.not_mem_nil]
    by_cases htaken : candidate name 1 ∈ taken
    · have hne := firstFree_candidate_ne (List.mem_cons_of_mem name htaken)
      simp [hne, htaken]
    · have hsame := firstFree_eq_self_iff.mpr (candidate_one_not_mem_cons htaken)
      rw [hsame, firstFree_cons_self htaken]
      simp [htaken]
  · have hsame : firstFree [top] name = name :=
      firstFree_eq_self_iff.mpr fun hmem => hname (List.mem_singleton.mp hmem)
    simp [hsame, hname]

/-- Only which names are taken matters, not in which order they are given. -/
theorem IsFirstFree.congr {taken taken' : List String} {name got : String}
    (h : IsFirstFree taken name got) (hmem : ∀ x, x ∈ taken ↔ x ∈ taken') :
    IsFirstFree taken' name got := by
  obtain ⟨k, hk, hfree, hbefore⟩ := h
  exact ⟨k, hk, fun hx => hfree ((hmem got).mpr hx), fun j hj => (hmem _).mp (hbefore j hj)⟩

end Workflow
