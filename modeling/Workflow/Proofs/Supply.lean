import Mathlib.Data.List.Nodup
import Workflow.Action.Identity

/-!
# Identities drawn from a supply

A draw counts its source up by one and leaves all other sources as they are. The identities drawn
from a source between two supplies are those of the numbers between its counts, in order. If the
source never repeats a draw, they are distinct, and none of them was drawn before.
-/

set_option autoImplicit false

namespace Workflow

namespace Supply

theorem count_advance_eq (s : Supply) (key other : Nat) :
    (s.advance key).count other = if other = key then s.count key + 1 else s.count other := by
  obtain ⟨counts⟩ := s
  unfold advance count
  induction counts with
  | nil =>
    by_cases h : key = other
    · simp [advanceIn, countIn, h]
    · simp [advanceIn, countIn, h, Ne.symm h]
  | cons entry rest ih =>
    obtain ⟨k, n⟩ := entry
    by_cases hk : k = key
    · subst hk
      by_cases h : k = other
      · simp [advanceIn, countIn, h]
      · simp [advanceIn, countIn, h, Ne.symm h]
    · by_cases h : other = key
      · subst h
        simpa [advanceIn, countIn, hk] using ih
      · simp only [if_neg h] at ih ⊢
        simp [advanceIn, countIn, hk, ih]

@[simp] theorem count_advance (s : Supply) (key : Nat) :
    (s.advance key).count key = s.count key + 1 := by
  rw [count_advance_eq, if_pos rfl]

theorem count_advance_of_ne (s : Supply) {key other : Nat} (h : other ≠ key) :
    (s.advance key).count other = s.count other := by
  rw [count_advance_eq, if_neg h]

/-- Nothing that was drawn is put back. -/
def Precedes (s s' : Supply) : Prop := ∀ key, s.count key ≤ s'.count key

theorem Precedes.refl (s : Supply) : s.Precedes s := fun _ => Nat.le_refl _

theorem Precedes.trans {s s₁ s' : Supply} (h : s.Precedes s₁) (h' : s₁.Precedes s') :
    s.Precedes s' := fun key => Nat.le_trans (h key) (h' key)

theorem precedes_advance (s : Supply) (key : Nat) : s.Precedes (s.advance key) := by
  intro other
  rw [count_advance_eq]
  split
  · next h =>
    rw [h]
    exact Nat.le_succ _
  · exact Nat.le_refl _

end Supply

namespace IdSource
variable {source : IdSource} {s s₁ s' : Supply}

theorem sequential_injective (key : Nat) (stem : String) :
    Function.Injective (sequential key stem).spell := by
  intro m n h
  have hlist := congrArg String.toList h
  simp only [sequential, String.toList_append] at hlist
  have hdigits := congrArg (fun ds => Nat.ofDigitChars 10 ds 0) (List.append_cancel_left hlist)
  simpa [Nat.toString_eq_ofList_toDigits] using hdigits

/-- The identities drawn from the source between two supplies, in order. -/
def drawn (source : IdSource) (s s' : Supply) : List String :=
  (List.range' (s.count source.key) (s'.count source.key - s.count source.key)).map source.spell

@[simp] theorem drawn_length (source : IdSource) (s s' : Supply) :
    (source.drawn s s').length = s'.count source.key - s.count source.key := by
  rw [drawn, List.length_map, List.length_range']

@[simp] theorem drawn_self (source : IdSource) (s : Supply) : source.drawn s s = [] := by
  rw [drawn, Nat.sub_self, List.range'_zero, List.map_nil]

theorem drawn_advance (source : IdSource) (s : Supply) :
    source.drawn s (s.advance source.key) = [source.spell (s.count source.key)] := by
  rw [drawn, Supply.count_advance, Nat.add_sub_cancel_left]
  rfl

theorem drawn_append (h : s.Precedes s₁) (h' : s₁.Precedes s') :
    source.drawn s s₁ ++ source.drawn s₁ s' = source.drawn s s' := by
  have hle := h source.key
  have hle' := h' source.key
  have hsub : s'.count source.key - s.count source.key =
      (s₁.count source.key - s.count source.key) + (s'.count source.key - s₁.count source.key) := by
    omega
  have hmiddle : s.count source.key + 1 * (s₁.count source.key - s.count source.key) =
      s₁.count source.key := by
    omega
  rw [drawn, drawn, drawn, hsub, ← List.range'_append, hmiddle, List.map_append]

theorem drawn_nodup (hsource : Function.Injective source.spell) (s s' : Supply) :
    (source.drawn s s').Nodup :=
  List.Nodup.map hsource List.nodup_range'

/-- What was drawn before is not drawn again. -/
theorem spell_not_mem_drawn (hsource : Function.Injective source.spell) {k : Nat}
    (hk : k < s.count source.key) : source.spell k ∉ source.drawn s s' := by
  intro hmem
  obtain ⟨i, hi, heq⟩ := List.mem_map.mp hmem
  have hle := (List.mem_range'_1.mp hi).1
  have := hsource heq
  omega

/-- What is drawn next was not drawn yet. -/
theorem spell_count_not_mem_drawn (hsource : Function.Injective source.spell) (s s' : Supply) :
    source.spell (s'.count source.key) ∉ source.drawn s s' := by
  intro hmem
  obtain ⟨i, hi, heq⟩ := List.mem_map.mp hmem
  obtain ⟨hle, hlt⟩ := List.mem_range'_1.mp hi
  have := hsource heq
  omega

/-- A source of which nothing is drawn yet is numbered from zero on. -/
theorem drawn_of_fresh (h : s.count source.key = 0) :
    source.drawn s s' = (List.range (s'.count source.key)).map source.spell := by
  rw [drawn, h, Nat.sub_zero, List.range_eq_range']

end IdSource

end Workflow
