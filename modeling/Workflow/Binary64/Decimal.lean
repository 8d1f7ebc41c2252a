import Workflow.Binary64.Basic

/-!
# Decimal text of binary64 numbers

Reading takes an optional sign, digits with at most one point and at least one digit, and an
optional exponent, and rounds the exact decimal once. Writing takes the fewest digits that read
back; of two candidates with equally many digits it takes the nearer one, and the even one at equal
distances. Which exponents are written positionally is one `Layout` value.
-/

set_option autoImplicit false

-- Powers are those of the core library, whatever else is in scope.
attribute [local instance (1100)] instPowNat

namespace Workflow

def digitsValue (ds : List Char) : Nat := Nat.ofDigitChars 10 ds 0

def spanDigits (cs : List Char) : List Char × List Char := cs.span Char.isDigit

namespace Binary64

def readExponent : List Char → Option Int
  | [] => some 0
  | mark :: cs =>
    if mark = 'e' ∨ mark = 'E' then
      match cs with
      | '-' :: ds => if ds ≠ [] ∧ ds.all Char.isDigit then some (-(digitsValue ds : Int)) else none
      | '+' :: ds => if ds ≠ [] ∧ ds.all Char.isDigit then some (digitsValue ds) else none
      | ds => if ds ≠ [] ∧ ds.all Char.isDigit then some (digitsValue ds) else none
    else none

def readUnsigned (negative : Bool) (cs : List Char) : Option Binary64 :=
  let (whole, rest) := spanDigits cs
  let (fraction, rest) := match rest with
    | '.' :: rest => spanDigits rest
    | rest => ([], rest)
  if whole = [] ∧ fraction = [] then none
  else do
    let exponent ← readExponent rest
    ofDecimal negative (digitsValue (whole ++ fraction)) (exponent - fraction.length)

def read? : List Char → Option Binary64
  | '-' :: cs => readUnsigned true cs
  | '+' :: cs => readUnsigned false cs
  | cs => readUnsigned false cs

structure Decimal where
  digits : Nat
  exponent : Int
  deriving DecidableEq, Repr

/-- Four times the magnitude in units, with the bounds of the reals that round to it. The lower gap
is half as wide at a power of two. -/
def quarters (x : Binary64) : Nat × Nat × Nat :=
  let gap := 2 ^ x.scale
  let v := 4 * x.units
  (v - (if x.significand = 2 ^ fractionBits ∧ x.scale ≠ 0 then gap else 2 * gap), v, v + 2 * gap)

/-- Whether a decimal reads back as `x`, said on exact integers: the ends of the interval count
when the significand is even. -/
def readsBack (x : Binary64) (d : Decimal) : Bool :=
  let (lo, _, hi) := x.quarters
  let up := 10 ^ d.exponent.toNat
  let down := 10 ^ (-d.exponent).toNat
  let p := d.digits * up * 4 * 2 ^ unitBits
  if x.significand % 2 = 0 then lo * down ≤ p ∧ p ≤ hi * down
  else lo * down < p ∧ p < hi * down

def distance (x : Binary64) (d : Decimal) : Nat :=
  let up := 10 ^ d.exponent.toNat
  let down := 10 ^ (-d.exponent).toNat
  let p := d.digits * up * 2 ^ unitBits
  let v := x.units * down
  (p - v) + (v - p)

/-- How many decimal places are enough to show a digit of every nonzero number. -/
def places : Nat := 350

def leadingExponent (x : Binary64) : Int :=
  ((Nat.toDigits 10 (x.units * 10 ^ places / 2 ^ unitBits)).length : Int) - 1 - places

def neighbours (x : Binary64) (exponent : Int) : Decimal × Decimal :=
  let up := 10 ^ exponent.toNat
  let down := 10 ^ (-exponent).toNat
  let c := x.units * down / (up * 2 ^ unitBits)
  (⟨c, exponent⟩, ⟨c + 1, exponent⟩)

def nearer (x : Binary64) (below above : Decimal) : Decimal :=
  if x.distance below < x.distance above then below
  else if x.distance above < x.distance below then above
  else if below.digits % 2 = 0 then below
  else above

def withDigits (x : Binary64) (n : Nat) : Option Decimal :=
  let (below, above) := x.neighbours (x.leadingExponent - n + 1)
  match x.readsBack below, x.readsBack above with
  | true, true => some (x.nearer below above)
  | true, false => some below
  | false, true => some above
  | false, false => none

/-- The shortest decimal that reads back as a nonzero number; seventeen digits always do. -/
def shortest (x : Binary64) : Decimal :=
  match (List.range 17).findSome? fun n => x.withDigits (n + 1) with
  | some d => d
  | none => (x.neighbours (x.leadingExponent - 16)).1

def Decimal.scientific (d : Decimal) : List Char × Int :=
  let ds := Nat.toDigits 10 d.digits
  let kept := (ds.reverse.dropWhile (· = '0')).reverse
  (kept, ds.length - 1 + d.exponent)

structure Layout where
  least : Int
  greatest : Int

/-- Numbers from `0.00001` up to below `10 ^ 16` are written positionally, all others with a signed
exponent and one digit before the point. -/
def layout : Layout := ⟨-5, 15⟩

def renderPositional (ds : List Char) (e : Int) : List Char :=
  if e < 0 then
    ['0', '.'] ++ List.replicate ((-e).toNat - 1) '0' ++ ds
  else
    let n := e.toNat + 1
    let whole := ds.take n ++ List.replicate (n - ds.length) '0'
    let fraction := ds.drop n
    whole ++ '.' :: (if fraction = [] then ['0'] else fraction)

def renderExponent (ds : List Char) (e : Int) : List Char :=
  let mantissa := match ds with
    | [] => ['0']
    | [d] => [d]
    | d :: rest => d :: '.' :: rest
  mantissa ++ 'e' :: (if e < 0 then '-' else '+') :: Nat.toDigits 10 e.natAbs

def render (x : Binary64) : List Char :=
  let magnitude :=
    if x.significand = 0 then ['0', '.', '0']
    else
      let (ds, e) := x.shortest.scientific
      if layout.least ≤ e ∧ e ≤ layout.greatest then renderPositional ds e else renderExponent ds e
  if x.negative then '-' :: magnitude else magnitude

end Binary64

end Workflow
