import Mathlib.Data.List.TakeDrop
import Mathlib.Data.List.TakeWhile
import Workflow.Condition.Schema
import Workflow.Json.Text

/-!
# Integers in conditions

Digits with or without a minus sign are compiled to the integer that they spell, if it fits 64 bits
with or without a sign, and that is written in decimal again. Zeros in front do not matter where the
integer fits 64 bits with a sign. Above that they do: there the digits are read by the grammar of
documents, which has no needless zeros, and what it does not read is taken for the name of a
variable.
-/

set_option autoImplicit false

namespace Workflow

/-- One or more decimal digits. -/
structure IsNumeral (digits : List Char) : Prop where
  nonempty : digits ≠ []
  digits : ∀ c ∈ digits, c.isDigit = true

/-- The text of digits behind an optional minus sign. -/
def signed (negative : Bool) (digits : List Char) : List Char :=
  if negative then '-' :: digits else digits

def signedValue (negative : Bool) (digits : List Char) : Int :=
  if negative then -(digitsValue digits : Int) else digitsValue digits

theorem Number.render_int (v : Int) : String.ofList (Number.int v).render = toString v := by
  cases v with
  | ofNat n => rfl
  | negSucc n =>
    rw [Number.render, String.ofList_cons]
    rfl

namespace IsNumeral
variable {digits : List Char} {negative : Bool} {text : String}

theorem all (h : IsNumeral digits) : digits.all Char.isDigit = true := List.all_eq_true.mpr h.digits

theorem exists_cons (h : IsNumeral digits) :
    ∃ c rest, digits = c :: rest ∧ c ≠ '-' ∧ c ≠ '+' := by
  obtain ⟨c, rest, rfl⟩ := List.exists_cons_of_ne_nil h.nonempty
  have hc := h.digits c List.mem_cons_self
  refine ⟨c, rest, rfl, ?_, ?_⟩
  all_goals
    rintro rfl
    exact absurd hc (by decide)

theorem not_mem_signed (h : IsNumeral digits) {c : Char} (hsign : c ≠ '-')
    (hc : c.isDigit = false) : c ∉ signed negative digits := by
  intro hmem
  have hdigit : c ∈ digits := by
    cases negative with
    | false => exact hmem
    | true => exact (List.mem_cons.mp hmem).resolve_left hsign
  rw [h.digits c hdigit] at hc
  cases hc

theorem signedWord?_eq (h : IsNumeral digits) : signedWord? (signed negative digits) =
    if Number.minInt ≤ signedValue negative digits ∧ signedValue negative digits < -Number.minInt
    then some (signedValue negative digits) else none := by
  have hall := h.all
  obtain ⟨c, rest, rfl, hminus, hplus⟩ := h.exists_cons
  cases negative with
  | true => simp [signedWord?, signed, signedValue, hall]
  | false => simp [signedWord?, signed, signedValue, hminus, hplus, hall]

/-- Digits alone are read as an integer if it fits 64 bits and has no needless zeros. -/
theorem wideNumber?_eq (h : IsNumeral digits) (hfits : (digitsValue digits : Int) ≤ Number.maxInt) :
    wideNumber? digits =
      if digits.head? = some '0' ∧ digits.length ≠ 1 then none
      else some (.int (digitsValue digits)) := by
  have hspan : spanDigits digits = (digits, []) := by
    rw [spanDigits, List.span_eq_takeWhile_dropWhile, List.takeWhile_eq_self_iff.mpr h.digits,
      List.dropWhile_eq_nil_iff.mpr h.digits]
  have hwide : wideNumber? digits = Number.readUnsigned false digits := by
    have hall := h.all
    obtain ⟨c, rest, rfl, hminus, -⟩ := h.exists_cons
    simp [wideNumber?, Number.read?, hminus, hall]
  rw [hwide, Number.readUnsigned, hspan]
  by_cases hpadded : digits.head? = some '0' ∧ digits.length ≠ 1
  · simp [Number.isWhole, hpadded]
  · have hwhole : Number.isWhole digits = true := by
      simpa [Number.isWhole, h.nonempty, h.all, ← imp_iff_not_or] using hpadded
    simp [hwhole, Number.ofDigits, hfits, hpadded]

/-- Digits and a sign are no truth value, no string and no number with a point. -/
theorem lower_eq (h : IsNumeral digits) (htext : text.toList = signed negative digits) :
    (Expression.leaf text).lower =
      match (signedWord? text.toList).map Number.int |>.or (wideNumber? text.toList) with
      | some n => .number n
      | none => .string (variableReference text) := by
  have hword : ∀ word : String, 'e' ∈ word.toList → text ≠ word := by
    rintro word hword rfl
    rw [htext] at hword
    exact h.not_mem_signed (by decide) (by decide) hword
  have hlacks : ∀ c : Char, c ≠ '-' → c.isDigit = false → text.toList.contains c = false := by
    intro c hsign hc
    have hmem : c ∉ signed negative digits := h.not_mem_signed hsign hc
    rwa [← htext, ← List.contains_iff_mem, Bool.not_eq_true] at hmem
  have hquote : text.toList.contains '"' = false := hlacks _ (by decide) (by decide)
  have hpoint : text.toList.contains '.' = false := hlacks _ (by decide) (by decide)
  rw [Expression.lower, lowerLeaf, if_neg (hword "true" (by decide)),
    if_neg (hword "false" (by decide)), hquote, leafNumber?, hpoint]
  cases signedWord? text.toList <;> rfl

/-- A signed integer that does not fit 64 bits with a sign, but without one, has no sign. -/
theorem sign_of_wide (hwide : 9223372036854775808 ≤ signedValue negative digits) :
    negative = false := by
  cases negative with
  | false => rfl
  | true =>
    simp only [signedValue, if_true] at hwide
    omega

theorem length_ne_one_of_wide (hwide : 9223372036854775808 ≤ signedValue false digits)
    (hzero : digits.head? = some '0') : digits.length ≠ 1 := by
  intro hlength
  obtain ⟨c, rfl⟩ := List.length_eq_one_iff.mp hlength
  obtain rfl : c = '0' := Option.some.inj hzero
  exact absurd hwide (by decide)

end IsNumeral

/-- A signed integer that fits 64 bits is compiled to itself, and is written in decimal then. Only
one that needs all the bits is taken for the name of a variable if there are zeros in front. -/
theorem Expression.lower_integer {digits : List Char} {negative : Bool} {text : String}
    (h : IsNumeral digits) (htext : text.toList = signed negative digits)
    (hmin : -9223372036854775808 ≤ signedValue negative digits)
    (hmax : signedValue negative digits < 18446744073709551616) :
    (signedValue negative digits < 9223372036854775808 ∨ digits.head? ≠ some '0' →
      (leaf text).lower = .number (.int (signedValue negative digits)) ∧
      (leaf text).lower.compact = toString (signedValue negative digits)) ∧
    (9223372036854775808 ≤ signedValue negative digits → digits.head? = some '0' →
      (leaf text).lower = .string (variableReference text)) := by
  have hlower := h.lower_eq htext
  rw [htext, h.signedWord?_eq] at hlower
  by_cases hsmall : signedValue negative digits < 9223372036854775808
  · have hfits : Number.minInt ≤ signedValue negative digits ∧
        signedValue negative digits < -Number.minInt := ⟨hmin, hsmall⟩
    rw [if_pos hfits] at hlower
    refine ⟨fun _ => ?_, fun hwide => absurd hsmall (by omega)⟩
    exact ⟨hlower, by rw [hlower]; exact Number.render_int _⟩
  · have hwide : 9223372036854775808 ≤ signedValue negative digits := Int.not_lt.mp hsmall
    obtain rfl := IsNumeral.sign_of_wide hwide
    have hfits : (digitsValue digits : Int) ≤ Number.maxInt := Int.lt_add_one_iff.mp hmax
    rw [if_neg (fun hfits => hsmall hfits.2), signed, if_neg nofun, h.wideNumber?_eq hfits]
      at hlower
    refine ⟨fun hleast => ?_, fun _ hzero => ?_⟩
    · rw [if_neg (fun hpadded => (hleast.resolve_left hsmall) hpadded.1)] at hlower
      exact ⟨hlower, by rw [hlower]; exact Number.render_int _⟩
    · rw [if_pos ⟨hzero, IsNumeral.length_ne_one_of_wide hwide hzero⟩] at hlower
      exact hlower

/-- The largest integer, and the smallest one behind zeros. -/
theorem Expression.widestIntegers_kept :
    (leaf "18446744073709551615").lower = .number (.int 18446744073709551615) ∧
    (leaf "18446744073709551615").lower.compact = "18446744073709551615" ∧
    (leaf "-0009223372036854775808").lower = .number (.int (-9223372036854775808)) ∧
    (leaf "-0009223372036854775808").lower.compact = "-9223372036854775808" := by
  have hlargest : IsNumeral "18446744073709551615".toList :=
    ⟨by decide, List.all_eq_true.mp rfl⟩
  have hsmallest : IsNumeral "0009223372036854775808".toList :=
    ⟨by decide, List.all_eq_true.mp rfl⟩
  have hplain : "18446744073709551615".toList =
      signed false "18446744073709551615".toList := rfl
  have hpadded : "-0009223372036854775808".toList =
      signed true "0009223372036854775808".toList := by decide
  obtain ⟨hvalue, hprinted⟩ :=
    (lower_integer hlargest hplain (by decide) (by decide)).1 (.inr (by decide))
  obtain ⟨hvalue', hprinted'⟩ :=
    (lower_integer hsmallest hpadded (by decide) (by decide)).1 (.inl (by decide))
  exact ⟨hvalue, hprinted, hvalue', hprinted'⟩

/-- The first integer that needs all the bits is kept, and the last one that does not need them is
kept with a zero in front of it. The first one with a zero in front of it is taken for a name. -/
theorem Expression.paddedInteger_misread :
    IsNumeral "09223372036854775808".toList ∧
    signedValue false "09223372036854775808".toList = 9223372036854775808 ∧
    (leaf "9223372036854775808").lower = .number (.int 9223372036854775808) ∧
    (leaf "09223372036854775807").lower = .number (.int 9223372036854775807) ∧
    (leaf "09223372036854775808").lower = .string "@variables('09223372036854775808')" :=
  ⟨⟨by decide, List.all_eq_true.mp rfl⟩, by decide, rfl, rfl, rfl⟩

end Workflow
