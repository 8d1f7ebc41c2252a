/-!
# Finite binary64 numbers

A finite binary64 number is a sign and a magnitude `significand · 2 ^ scale`, counted in units of
`2 ^ (-1074)`, the least positive magnitude. All arithmetic here is exact arithmetic on natural
numbers followed by one rounding, so nothing depends on a machine float.

Infinities and NaN are not values of this type: an operation whose result has no finite value
gives `none`.
-/

set_option autoImplicit false

-- Powers are those of the core library, whatever else is in scope.
attribute [local instance (1100)] instPowNat

namespace Workflow

/-- A finite binary64 number: `± significand · 2 ^ scale` units of `2 ^ (-1074)`. -/
structure Binary64 where
  negative : Bool
  significand : Nat
  scale : Nat
  deriving DecidableEq, Repr

namespace Binary64

def unitBits : Nat := 1074

def fractionBits : Nat := 52

def maxScale : Nat := 2045

def units (x : Binary64) : Nat := x.significand * 2 ^ x.scale

def roundDiv (n d : Nat) : Nat :=
  let q := n / d
  let r := n % d
  if 2 * r < d ∨ (2 * r = d ∧ q % 2 = 0) then q else q + 1

/-- The number nearest to `± num / den`, a tie going to the even significand; `none` if that is not
finite. -/
def ofRatio (negative : Bool) (num den : Nat) : Option Binary64 :=
  let n := num * 2 ^ unitBits
  let s := (n / den).log2 - fractionBits
  let m := roundDiv n (den * 2 ^ s)
  let x : Binary64 :=
    if m = 2 ^ (fractionBits + 1) then ⟨negative, 2 ^ fractionBits, s + 1⟩ else ⟨negative, m, s⟩
  if x.scale ≤ maxScale then some x else none

def zero (negative : Bool) : Binary64 := ⟨negative, 0, 0⟩

def neg (x : Binary64) : Binary64 := { x with negative := !x.negative }

def ofNat (n : Nat) : Option Binary64 := ofRatio false n 1

def mul (x y : Binary64) : Option Binary64 :=
  ofRatio (x.negative != y.negative) (x.units * y.units) (2 ^ (2 * unitBits))

def div (x y : Binary64) : Option Binary64 :=
  ofRatio (x.negative != y.negative) x.units y.units

/-- The number nearest to `± digits · 10 ^ exponent`. An exponent far outside the range of the
format decides the result without its power being computed. -/
def ofDecimal (negative : Bool) (digits : Nat) (exponent : Int) : Option Binary64 :=
  let magnitude := (Nat.toDigits 10 digits).length + exponent
  if digits = 0 ∨ magnitude < -330 then some (zero negative)
  else if magnitude > 310 then none
  else if exponent < 0 then ofRatio negative digits (10 ^ exponent.natAbs)
  else ofRatio negative (digits * 10 ^ exponent.natAbs) 1

end Binary64

end Workflow
