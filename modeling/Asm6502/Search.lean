/-!
# Searching ordered arrays

## Main definitions

- `Search.first`: the first place in an array from which on a property holds, found by halving.
-/

namespace Asm6502.Search

variable {α : Type}

/-- The first index from `lo` up to `hi` whose element satisfies `p`, and `hi` if there is none,
provided that once `p` holds it holds from there on. -/
def firstBetween (xs : Array α) (p : α → Bool) (lo hi : Nat) (bound : hi ≤ xs.size) : Nat :=
  if h : lo < hi then
    let mid := (lo + hi) / 2
    have : mid < xs.size := by omega
    if p xs[mid] then firstBetween xs p lo mid (by omega)
    else firstBetween xs p (mid + 1) hi bound
  else lo
termination_by hi - lo

/-- The first index whose element satisfies `p`, and the size of the array if there is none,
provided that once `p` holds it holds from there on. -/
def first (xs : Array α) (p : α → Bool) : Nat :=
  firstBetween xs p 0 xs.size (Nat.le_refl _)

end Asm6502.Search
