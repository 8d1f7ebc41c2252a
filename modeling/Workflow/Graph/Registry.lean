/-!
# Registries

A registry tells the position of a name. A later entry for a name replaces an earlier one.
-/

set_option autoImplicit false

namespace Workflow

/-- Names and their positions, the latest entry first. -/
structure Registry where
  pairs : List (String × Nat)
  deriving DecidableEq, Repr

namespace Registry

def single (name : String) (position : Nat) : Registry := ⟨[(name, position)]⟩

def get? (r : Registry) (name : String) : Option Nat := r.pairs.lookup name

def insert (r : Registry) (name : String) (position : Nat) : Registry :=
  ⟨(name, position) :: r.pairs⟩

def names (r : Registry) : List String := r.pairs.map (·.1)

end Registry

end Workflow
