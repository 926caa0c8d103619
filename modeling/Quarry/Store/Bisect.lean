/-!
# Bisection

Where a predicate on indices stops to hold, found by halving. If it holds up to some index and not
from there on, that index is found. Otherwise the halving decides.
-/

namespace Quarry

/-- Looks at `size` indices from `base` on. -/
def bisect (holds : Nat → Bool) (base size : Nat) : Nat :=
  if 1 < size then
    let half := size / 2
    bisect holds (if holds (base + half) then base + half else base) (size - half)
  else if size = 1 ∧ holds base then base + 1
  else base
  termination_by size

end Quarry
