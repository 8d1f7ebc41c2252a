import Mathlib.Data.List.Dedup
import Mathlib.Order.Bounds.Defs
import Workflow.Graph.Insert
import Workflow.Proofs.FreeName

/-!
# The search for a free name ends

A name that is taken is given up for the next candidate, as long as it takes. That no bound is
needed follows from the candidates being different: each rename uses up a name of the registry. So
the search ends, and with the name that a bounded search finds.
-/

set_option autoImplicit false

namespace Workflow

/-- The number of names that have a position. -/
def Registry.size (r : Registry) : Nat := r.names.dedup.length

theorem Registry.get?_eq_none_iff {r : Registry} {name : String} :
    r.get? name = none ↔ name ∉ r.names := by
  rw [get?, names, List.lookup_eq_none_iff, List.mem_map]
  constructor
  · rintro h ⟨entry, hentry, rfl⟩
    simpa using h entry hentry
  · intro h entry hentry
    exact bne_iff_ne.mpr fun heq => h ⟨entry, hentry, heq.symm⟩

/-- Where a search stands: the name that is tried, and the number of the next one. -/
structure Search where
  tried : String
  counter : Nat

namespace Search

def start (name : String) : Search := ⟨name, 1⟩

def next (name : String) (s : Search) : Search :=
  ⟨name ++ "_" ++ toString s.counter, s.counter + 1⟩

/-- From where it stands, the search ends after a number of renames and with a name. -/
inductive Ends (r : Registry) (name : String) : Search → Nat → String → Prop where
  | free {s : Search} : r.get? s.tried = none → Ends r name s 0 s.tried
  | taken {s : Search} {k : Nat} {got : String} :
    r.get? s.tried ≠ none → Ends r name (s.next name) k got → Ends r name s (k + 1) got

variable {r : Registry} {name got : String}

theorem ends_zero {s : Search} : Ends r name s 0 got ↔ got = s.tried ∧ r.get? got = none := by
  constructor
  · rintro ⟨hfree⟩
    exact ⟨rfl, hfree⟩
  · rintro ⟨rfl, hfree⟩
    exact .free hfree

theorem ends_succ {s : Search} {k : Nat} :
    Ends r name s (k + 1) got ↔ r.get? s.tried ≠ none ∧ Ends r name (s.next name) k got := by
  constructor
  · rintro ⟨⟩
    exact ⟨‹_›, ‹_›⟩
  · rintro ⟨htaken, hends⟩
    exact .taken htaken hends

/-- Whether a name is taken decides how the search goes on. -/
theorem Ends.unique {s : Search} {j k : Nat} {other : String} (h : Ends r name s j got)
    (h' : Ends r name s k other) : j = k ∧ got = other := by
  induction h generalizing k with
  | free hfree =>
    cases h' with
    | free => exact ⟨rfl, rfl⟩
    | taken htaken => exact absurd hfree htaken
  | taken htaken _ ih =>
    cases h' with
    | free hfree => exact absurd hfree htaken
    | taken _ hends =>
      obtain ⟨rfl, hsame⟩ := ih hends
      exact ⟨rfl, hsame⟩

/-- The search that has come to a candidate goes on through those behind it. -/
theorem ends_iff {j k : Nat} :
    Ends r name ⟨candidate name j, j + 1⟩ k got ↔
      got = candidate name (j + k) ∧ got ∉ r.names ∧
        ∀ i, i < k → candidate name (j + i) ∈ r.names := by
  induction k generalizing j with
  | zero => simp [ends_zero, Registry.get?_eq_none_iff]
  | succ k ih =>
    have hnext : next name ⟨candidate name j, j + 1⟩ = ⟨candidate name (j + 1), j + 1 + 1⟩ := rfl
    rw [ends_succ, hnext, ih, ne_eq, Registry.get?_eq_none_iff, not_not, Nat.forall_lt_succ_left]
    simp only [Nat.add_zero, Nat.add_assoc, Nat.add_comm 1]
    exact and_left_comm.trans (and_congr_right fun _ => and_left_comm)

theorem ends_start_iff {k : Nat} :
    Ends r name (start name) k got ↔
      got = candidate name k ∧ got ∉ r.names ∧ ∀ i, i < k → candidate name i ∈ r.names := by
  have hstart : start name = ⟨candidate name 0, 0 + 1⟩ := rfl
  simp only [hstart, ends_iff, Nat.zero_add]

/-- Different candidates are taken by different names. -/
theorem le_size {k : Nat} (h : ∀ i, i < k → candidate name i ∈ r.names) : k ≤ r.size := by
  obtain ⟨m, hm, hfree⟩ := exists_candidate_free r.names.dedup name
  have hkm : ¬ m < k := fun hlt => hfree (List.mem_dedup.mpr (h m hlt))
  exact Nat.le_trans (Nat.le_of_not_lt hkm) (Nat.le_of_lt_succ hm)

theorem isLeast_of_ends {k : Nat} (h : Ends r name (start name) k got) (htaken : name ∈ r.names) :
    got = name ++ "_" ++ toString k ∧
      IsLeast {j | 1 ≤ j ∧ r.get? (name ++ "_" ++ toString j) = none} k := by
  obtain ⟨rfl, hfree, hbefore⟩ := ends_start_iff.mp h
  cases k with
  | zero => exact absurd htaken hfree
  | succ k =>
    refine ⟨rfl, ⟨Nat.succ_pos k, Registry.get?_eq_none_iff.mpr hfree⟩, ?_⟩
    rintro j ⟨hj, hfreej⟩
    obtain ⟨j, rfl⟩ := Nat.exists_eq_succ_of_ne_zero (Nat.ne_of_gt hj)
    apply Nat.le_of_not_lt
    exact fun hlt => Registry.get?_eq_none_iff.mp hfreej (hbefore (j + 1) hlt)

end Search

/-- The search for a free name ends in one way, after no more renames than there are names. It finds
the name itself if it is free, otherwise the one with the least number that is. -/
theorem Graph.freeName_search (g : Graph) (name : String) :
    ∃ k, (∀ j got, Search.Ends g.registry name (Search.start name) j got ↔
        j = k ∧ got = g.freeName name) ∧
      k ≤ g.registry.size ∧
      g.registry.get? (g.freeName name) = none ∧
      (g.registry.get? name = none → k = 0 ∧ g.freeName name = name) ∧
      (g.registry.get? name ≠ none → g.freeName name = name ++ "_" ++ toString k ∧
        IsLeast {j | 1 ≤ j ∧ g.registry.get? (name ++ "_" ++ toString j) = none} k) := by
  obtain ⟨k, hk, hfree, hbefore⟩ := firstFree_isFirst g.registry.names name
  have hends : Search.Ends g.registry name (Search.start name) k (g.freeName name) :=
    Search.ends_start_iff.mpr ⟨hk, hfree, hbefore⟩
  refine ⟨k, ?_, Search.le_size hbefore, Registry.get?_eq_none_iff.mpr hfree, ?_, ?_⟩
  · intro j got
    constructor
    · intro hj
      exact hj.unique hends
    · rintro ⟨rfl, rfl⟩
      exact hends
  · intro hname
    have hname := Registry.get?_eq_none_iff.mp hname
    have hzero : ¬ 0 < k := fun hlt => hname (hbefore 0 hlt)
    exact ⟨Nat.eq_zero_of_not_pos hzero, firstFree_eq_self_iff.mpr hname⟩
  · intro hname
    rw [ne_eq, Registry.get?_eq_none_iff, not_not] at hname
    exact Search.isLeast_of_ends hends hname

end Workflow
