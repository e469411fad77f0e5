import Asm6502.Proofs.Gathering

/-!
# The tables of an index

Recording a statement enters it into the tables of definitions and references. What these hold in
the end can be read off the list of statements.

## Main definitions

- `Statement.defines`: whether a statement defines a symbol.

## Main statements

- `SymbolIndex.references_parse`: the references are the indices of the inclusions.
- `SymbolIndex.find?_definitions_parse`: a symbol is defined by the last statement that defines it.
-/

namespace Asm6502

/-- Whether the statement, over the tokens `ts`, defines the symbol `name`. -/
def Statement.defines (ts : List Token) (name : Text) (s : Statement) : Bool :=
  match s.role with
  | .definition _ n => (ts[n]?.map Token.text).getD [] == name
  | _ => false

/-- The last index at which a property holds. -/
theorem getLast?_findIdxs_eq_some_iff {α : Type} {p : α → Bool} {xs : List α} {i : Nat} :
    (xs.findIdxs p).getLast? = some i ↔
      ∃ x, xs[i]? = some x ∧ p x = true ∧
        ∀ (j : Nat) (y : α), i < j → xs[j]? = some y → p y = false := by
  have mem (j : Nat) : j ∈ xs.findIdxs p ↔ ∃ x, xs[j]? = some x ∧ p x = true := by
    simp [List.getElem?_eq_some_iff]
  have ordered : (xs.findIdxs p).Pairwise (· < ·) := List.pairwise_findIdxs
  generalize xs.findIdxs p = found at mem ordered
  constructor
  · intro hlast
    obtain ⟨front, rfl⟩ := List.getLast?_eq_some_iff.1 hlast
    obtain ⟨x, hx, hp⟩ := (mem i).1 (List.mem_append_right front (List.mem_singleton_self i))
    refine ⟨x, hx, hp, fun j y hij hy => ?_⟩
    -- an index behind the last one found would have been found in front of it
    by_contra hq
    rcases List.mem_append.1 ((mem j).2 ⟨y, hy, by simpa using hq⟩) with hj | hj
    · have := (List.pairwise_append.1 ordered).2.2 j hj i (List.mem_singleton_self i)
      omega
    · have := List.mem_singleton.1 hj
      omega
  · rintro ⟨x, hx, hp, last⟩
    have hmem : i ∈ found := (mem i).2 ⟨x, hx, hp⟩
    rcases List.eq_nil_or_concat found with rfl | ⟨front, j, rfl⟩
    · simp at hmem
    rw [List.concat_eq_append] at hmem ordered mem ⊢
    rw [List.getLast?_concat]
    rcases List.mem_append.1 hmem with hi | hi
    · have hlt := (List.pairwise_append.1 ordered).2.2 i hi j (List.mem_singleton_self j)
      obtain ⟨y, hy, hq⟩ := (mem j).1 (List.mem_append_right front List.mem_cons_self)
      simp [last j y hlt hy] at hq
    · rw [List.mem_singleton.1 hi]

namespace Accumulator

theorem references_record (a : Accumulator) (s : Statement) :
    (a.record s).references.toList =
      a.references.toList ++ if s.isInclusion then [a.statements.size] else [] := by
  cases hrole : s.role <;> simp [record, Statement.isInclusion, hrole, define]

theorem find?_record (a : Accumulator) (s : Statement) (name : Text) :
    (a.record s).definitions.find? name =
      if s.defines a.tokens.toList name then some a.statements.size
      else a.definitions.find? name := by
  cases hrole : s.role with
  | comment => simp [record, Statement.defines, hrole]
  | inclusion n => simp [record, Statement.defines, hrole]
  | definition kind n =>
    have hinsert : (a.record s).definitions =
        a.definitions.insert (a.tokenText n) a.statements.size := by
      simp [record, hrole, define, tokenText]
    have hdefines : s.defines a.tokens.toList name = (a.tokenText n == name) := by
      simp [Statement.defines, hrole, tokenText]
    rw [hinsert, hdefines]
    by_cases h : a.tokenText n = name
    · subst h
      simp
    · rw [Table.find?_insert_of_ne (Ne.symm h), if_neg (by simpa using h)]

theorem references_foldl_record (a : Accumulator) (ss : List Statement) :
    (ss.foldl record a).references.toList =
      a.references.toList ++ ss.findIdxs Statement.isInclusion a.statements.size := by
  induction ss generalizing a with
  | nil => simp
  | cons s ss ih =>
    rw [List.foldl_cons, ih, references_record, statements_record, Array.size_push,
      List.findIdxs_cons, List.append_assoc]
    split <;> rfl

theorem find?_foldl_record (a : Accumulator) (ss : List Statement) (name : Text) :
    (ss.foldl record a).definitions.find? name =
      (ss.findIdxs (Statement.defines a.tokens.toList name) a.statements.size).getLast?.or
        (a.definitions.find? name) := by
  induction ss generalizing a with
  | nil => simp
  | cons s ss ih =>
    rw [List.foldl_cons, ih, find?_record, statements_record, Array.size_push, tokens_record,
      List.findIdxs_cons]
    split
    · rw [List.getLast?_cons]
      cases List.getLast? _ <;> rfl
    · rfl

end Accumulator

namespace SymbolIndex

theorem references_parse (d : Dialect) (source : Bytes) :
    (parse d source).references.toList =
      (parse d source).statements.toList.findIdxs Statement.isInclusion := by
  rw [statements_parse, tokens_parse]
  simp [parse, gather_eq, Accumulator.references_foldl_record]

theorem find?_definitions_parse (d : Dialect) (source : Bytes) (name : Text) :
    (parse d source).definitions.find? name =
      ((parse d source).statements.toList.findIdxs
        (Statement.defines (parse d source).tokens.toList name)).getLast? := by
  rw [statements_parse, tokens_parse]
  simp [parse, gather_eq, Accumulator.find?_foldl_record, Table.find?]

end SymbolIndex

end Asm6502
