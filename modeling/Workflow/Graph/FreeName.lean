/-!
# The first free name

A name that is taken is followed by `_1`, `_2` and so on. Among as many candidates as there are
taken names and one more, one is free, because the candidates differ from each other; so the search
is bounded.
-/

set_option autoImplicit false

namespace Workflow

/-- The candidates for a name, in the order in which they are tried. -/
def candidate (name : String) : Nat → String
  | 0 => name
  | k + 1 => name ++ "_" ++ toString (k + 1)

def firstFree (taken : List String) (name : String) : String :=
  let free := (List.range (taken.length + 1)).find? fun k => !taken.contains (candidate name k)
  candidate name (free.getD 0)

end Workflow
