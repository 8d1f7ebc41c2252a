import Workflow.Binary64.Decimal

/-!
# Numbers of documents

A number is an integer, kept exactly, or a finite binary64 number. The reader of number text keeps
an integer that fits 64 bits and approximates every other number: it takes the longest prefix of
the digits that fits 64 bits, rounds it once to binary64 and scales it by powers of ten, rounding
each time. The result of the approximation is the documented one, not the nearest number.
-/

set_option autoImplicit false

-- Powers are those of the core library, whatever else is in scope.
attribute [local instance (1100)] instPowNat

namespace Workflow

inductive Number where
  | int (value : Int)
  | float (value : Binary64)
  deriving DecidableEq, Repr

namespace Number

def minInt : Int := -9223372036854775808

def maxInt : Int := 18446744073709551615

def render : Number → List Char
  | .int (.ofNat n) => Nat.toDigits 10 n
  | .int (.negSucc n) => '-' :: Nat.toDigits 10 (n + 1)
  | .float x => x.render

/-- Digits taken into a significand while it stays in range, and how many were taken. The first
digit that does not fit ends the taking. -/
def takeDigits (significand : Nat) : List Char → Nat × Nat
  | [] => (significand, 0)
  | d :: ds =>
    let next := significand * 10 + (d.toNat - '0'.toNat)
    if (next : Int) ≤ maxInt then
      let (result, taken) := takeDigits next ds
      (result, taken + 1)
    else (significand, 0)

def maxStep : Nat := 308

def scaleUp (x : Binary64) (k : Nat) : Option Binary64 :=
  if k ≤ maxStep then (Binary64.ofNat (10 ^ k)).bind x.mul
  else if x.significand = 0 then some x
  else none

def scaleDown (x : Binary64) (k : Nat) : Option Binary64 :=
  if k ≤ maxStep then (Binary64.ofNat (10 ^ k)).bind x.div
  else if x.significand = 0 then some x
  else (Binary64.ofNat (10 ^ maxStep)).bind fun p =>
    (x.div p).bind fun y => scaleDown y (k - maxStep)
  termination_by k
  decreasing_by simp only [maxStep] at *; omega

def approximate (negative : Bool) (whole fraction : List Char) (exponent : Int) :
    Option Number := do
  let (significand, taken) := takeDigits 0 whole
  let dropped := whole.length - taken
  let (significand, after) := takeDigits significand fraction
  let e := exponent + dropped - after
  let x ← Binary64.ofNat significand
  let y ← if e < 0 then scaleDown x e.natAbs else scaleUp x e.natAbs
  pure (.float (if negative then y.neg else y))

/-- The number written by digits alone. Negative zero and negative numbers out of range are not
integers. -/
def ofDigits (negative : Bool) (digits : List Char) : Option Number :=
  let n := digitsValue digits
  if (n : Int) ≤ maxInt then
    if !negative then some (.int n)
    else if n ≠ 0 ∧ minInt ≤ -(n : Int) then some (.int (-(n : Int)))
    else (Binary64.ofNat n).map fun x => .float x.neg
  else approximate negative digits [] 0

def isWhole (ds : List Char) : Bool :=
  ds ≠ [] ∧ ds.all Char.isDigit ∧ (ds.head? = some '0' → ds.length = 1)

def readUnsigned (negative : Bool) (cs : List Char) : Option Number :=
  let (whole, rest) := spanDigits cs
  if !isWhole whole then none
  else match rest with
    | [] => ofDigits negative whole
    | '.' :: rest => do
      let (fraction, rest) := spanDigits rest
      if fraction = [] then none
      else approximate negative whole fraction (← Binary64.readExponent rest)
    | rest => do approximate negative whole [] (← Binary64.readExponent rest)

/-- The number that a whole text writes, by the grammar of documents: an optional minus sign, digits
without needless zeros, and optionally a fraction and an exponent. -/
def read? : List Char → Option Number
  | '-' :: cs => readUnsigned true cs
  | cs => readUnsigned false cs

end Number

end Workflow
