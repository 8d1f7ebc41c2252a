/-!
# Identities of actions

An identity is a text. It is drawn from a source, which spells the number of the draw; the numbers
drawn so far from every source are kept in a supply. Two sources with one key share their count. A
source never repeats a draw when its spelling is injective; the sequential sources are of that kind,
and the scattered ones are up to `2 ^ freeBits` draws.
-/

set_option autoImplicit false

-- Powers are those of the core library, whatever else is in scope.
attribute [local instance (1100)] instPowNat

namespace Workflow

/-- A source of identities: the key under which its draws are counted, and the spelling of the
draws from zero on. -/
structure IdSource where
  key : Nat
  spell : Nat → String

/-- The numbers of draws made so far, by key. They are taken as unbounded: a count never comes round
to zero, as one of 64 bits does after all of its values. -/
structure Supply where
  counts : List (Nat × Nat) := []
  deriving Repr

namespace Supply

def countIn (key : Nat) : List (Nat × Nat) → Nat
  | [] => 0
  | (k, n) :: rest => if k = key then n else countIn key rest

def advanceIn (key : Nat) : List (Nat × Nat) → List (Nat × Nat)
  | [] => [(key, 1)]
  | (k, n) :: rest => if k = key then (k, n + 1) :: rest else (k, n) :: advanceIn key rest

def count (s : Supply) (key : Nat) : Nat := countIn key s.counts

def advance (s : Supply) (key : Nat) : Supply := ⟨advanceIn key s.counts⟩

end Supply

namespace IdSource

def draw (source : IdSource) : StateM Supply String := fun s =>
  (source.spell (s.count source.key), s.advance source.key)

def sequential (key : Nat) (stem : String) : IdSource :=
  ⟨key, fun n => stem ++ "-" ++ toString (n + 1)⟩

def hexDigits : Nat → Nat → List Char
  | 0, _ => []
  | width + 1, n => hexDigits width (n / 16) ++ [Nat.digitChar (n % 16)]

def freeBits : Nat := 122

def uuid (bits : Nat) : String :=
  let high := hexDigits 12 (bits >>> 74)
  let middle := hexDigits 3 (bits >>> 62)
  let variant := hexDigits 4 (0x8000 + (bits >>> 48) % 0x4000)
  String.ofList (high.take 8 ++ '-' :: high.drop 8 ++ '-' :: '4' :: middle ++ '-' :: variant ++
    '-' :: hexDigits 12 bits)

/-- An odd stride, so that multiples of it differ modulo `2 ^ freeBits` until all residues are
used. -/
def stride : Nat := 0x2f0b4c47d0fe9a8c5de1b3d9cf05a37

def scattered (key seed : Nat) : IdSource :=
  ⟨key, fun n => uuid ((seed + n * stride) % 2 ^ freeBits)⟩

end IdSource

end Workflow
