/-!
# Tables

A table maps keys to values. Entries keep the order in which their keys were first entered.

## Main definitions

- `Table`: the entries.
- `Table.find?`, `Table.insert`, `Table.erase`: reading, entering and removing a value.
-/

namespace Asm6502

/-- The entries of a table, each key once. -/
abbrev Table (κ ν : Type) := List (κ × ν)

namespace Table

variable {κ ν : Type} [DecidableEq κ]

def find? : Table κ ν → κ → Option ν
  | [], _ => none
  | (k', v) :: t, k => if k = k' then some v else find? t k

/-- The table with the value of `k` set to `v`. -/
def insert : Table κ ν → κ → ν → Table κ ν
  | [], k, v => [(k, v)]
  | (k', v') :: t, k, v => if k = k' then (k, v) :: t else (k', v') :: insert t k v

def erase (t : Table κ ν) (k : κ) : Table κ ν :=
  t.filter fun entry => entry.1 ≠ k

def keys (t : Table κ ν) : List κ :=
  t.map Prod.fst

@[simp] theorem find?_insert_self (t : Table κ ν) (k : κ) (v : ν) :
    find? (insert t k v) k = some v := by
  fun_induction insert t k v <;> simp_all [find?]

theorem find?_insert_of_ne {k k' : κ} (h : k' ≠ k) (t : Table κ ν) (v : ν) :
    find? (insert t k v) k' = find? t k' := by
  fun_induction insert t k v <;> simp_all [find?]

@[simp] theorem find?_erase_self (t : Table κ ν) (k : κ) : find? (erase t k) k = none := by
  induction t with
  | nil => rfl
  | cons e t ih => by_cases h : e.1 = k <;> simp_all [erase, find?, eq_comm]

theorem find?_erase_of_ne {k k' : κ} (h : k' ≠ k) (t : Table κ ν) :
    find? (erase t k) k' = find? t k' := by
  induction t with
  | nil => rfl
  | cons e t ih => by_cases hk : e.1 = k <;> simp_all [erase, find?]

end Table

end Asm6502
