/-!
# Faults

A query reads tables through indices that other tables hold. Every such access is checked, and an
index outside its table ends the whole computation with a `Fault`.

## Main definitions

- `Fault`, `Checked`: the failure, and computations that may end with it.
- `Checked.entry`, `Checked.slice`: the element of an array, and a piece of a list.
-/

namespace Asm6502

/-- An access outside the bounds of a table. -/
inductive Fault where
  | index (i : Int) (size : Nat)
  | slice (start stop : Int) (size : Nat)
  deriving DecidableEq, Repr

abbrev Checked := Except Fault

namespace Checked

/-- The element at index `i`. In front of the array there is as little as behind it. -/
def entry {α : Type} (xs : Array α) (i : Int) : Checked α :=
  if h : 0 ≤ i ∧ i < xs.size then .ok xs[i.toNat]
  else .error (.index i xs.size)

/-- The elements from index `start` up to, and without, index `stop`. -/
def slice {α : Type} (xs : List α) (start stop : Int) : Checked (List α) :=
  if 0 ≤ start ∧ start ≤ stop ∧ stop ≤ xs.length then
    .ok ((xs.drop start.toNat).take (stop - start).toNat)
  else .error (.slice start stop xs.length)

theorem entry_eq_ok_iff {α : Type} {xs : Array α} {i : Nat} {x : α} :
    entry xs i = .ok x ↔ xs[i]? = some x := by
  unfold entry
  by_cases hi : i < xs.size <;> simp [hi]

example : entry #['a'] (-1) = .error (.index (-1) 1) := rfl

theorem slice_eq_ok {α : Type} {xs : List α} {start stop : Int} (h₀ : 0 ≤ start)
    (h₁ : start ≤ stop) (h₂ : stop ≤ xs.length) :
    slice xs start stop = .ok ((xs.drop start.toNat).take (stop - start).toNat) := by
  simp [slice, h₀, h₁, h₂]

end Checked

end Asm6502
