/-! Sets of characters written as ascending ranges of code points. -/

namespace HslTree

/-- Ranges of code points, both ends included, in ascending order. -/
abbrev CharSet := List (Nat × Nat)

def CharSet.contains : CharSet → Char → Bool
  | [], _ => false
  | (first, last) :: rest, c =>
    -- All further ranges start behind this one.
    if c.toNat < first then false else c.toNat ≤ last || CharSet.contains rest c

end HslTree
