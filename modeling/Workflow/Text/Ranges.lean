/-!
# Character classes by ranges

A class of characters beyond ASCII is a list of closed ranges of code points in ascending order.
-/

set_option autoImplicit false

namespace Workflow

def inRanges (n : Nat) : List (Nat × Nat) → Bool
  | [] => false
  | (lo, hi) :: rest => if n < lo then false else n ≤ hi || inRanges n rest

end Workflow
