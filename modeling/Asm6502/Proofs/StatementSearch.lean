import Asm6502.Proofs.PositionSearch

/-!
# The statement around a token

The statement that a token belongs to is found by halving, through the ends of the runs. This finds
what a look at one statement after the other would find: no run starts before the ones in front of
it have ended, although tokens that say nothing may lie between them.

## Main definitions

- `Statement.Contains`: the run of a statement holds a token.

## Main statements

- `SymbolIndex.contains_iff_eq_first`: only one statement can hold a token.
- `SymbolIndex.statementAt_eq_ok_some_iff`: the statement that is found is the one with the token.
-/

namespace Asm6502

/-- The token at index `i` belongs to the run of the statement. -/
def Statement.Contains (s : Statement) (i : Nat) : Prop :=
  s.start ≤ i ∧ i < s.start + s.count

instance (s : Statement) (i : Nat) : Decidable (s.Contains i) :=
  inferInstanceAs (Decidable (_ ∧ _))

namespace SymbolIndex

variable {d : Dialect} {source : Bytes} {i k : Nat} {s : Statement}

/-- A statement starts where all those in front of it have ended. -/
theorem pairwise_statements_parse (d : Dialect) (source : Bytes) :
    (parse d source).statements.toList.Pairwise fun s s' => s.start + s.count ≤ s'.start := by
  rw [statements_parse]
  exact (Statement.pairwise_ofTokens d _).imp And.right

/-- Halving tells the statements that end behind a token from those that do not. -/
theorem first_ends_le_iff (hs : (parse d source).statements[k]? = some s) :
    Search.first (parse d source).statements (fun s => i < s.start + s.count) ≤ k ↔
      i < s.start + s.count := by
  rw [Search.first_le_iff ?_ hs, decide_eq_true_eq]
  refine (pairwise_statements_parse d source).imp fun {s s'} hle => ?_
  simp only [decide_eq_true_eq]
  omega

/-- Of all statements only the first one that ends behind a token can hold it. -/
theorem contains_iff_eq_first (hs : (parse d source).statements[k]? = some s) :
    s.Contains i ↔
      k = Search.first (parse d source).statements (fun s => i < s.start + s.count) ∧
        s.start ≤ i := by
  have hends := first_ends_le_iff (i := i) hs
  generalize hn : Search.first (parse d source).statements (fun s => i < s.start + s.count) = n
    at hends
  constructor
  · rintro ⟨hstart, hstop⟩
    refine ⟨?_, hstart⟩
    by_contra hne
    -- a statement in front of this one would end behind a token that this one starts with or after
    obtain ⟨hk, rfl⟩ := Array.getElem?_eq_some_iff.1 hs
    have hlt : n < k := by omega
    have hprevious : i < _ :=
      (first_ends_le_iff (Array.getElem?_eq_getElem (hlt.trans hk))).1 hn.le
    have hle := List.pairwise_iff_getElem.1 (pairwise_statements_parse d source) n k
      (hlt.trans hk) hk hlt
    rw [Array.getElem_toList, Array.getElem_toList] at hle
    omega
  · rintro ⟨rfl, hstart⟩
    exact ⟨hstart, hends.1 le_rfl⟩

/-- No two statements hold one token. -/
theorem eq_of_contains {j : Nat} {s' : Statement} (hs : (parse d source).statements[j]? = some s)
    (hs' : (parse d source).statements[k]? = some s') (h : s.Contains i) (h' : s'.Contains i) :
    j = k :=
  ((contains_iff_eq_first hs).1 h).1.trans ((contains_iff_eq_first hs').1 h').1.symm

/-- What is found is the statement that holds the token. -/
theorem statementAt_eq_ok_some_iff :
    (parse d source).statementAt i = .ok (some s) ↔
      ∃ j : Nat, (parse d source).statements[j]? = some s ∧ s.Contains i := by
  have hfirst {j : Nat} {s : Statement} (hs : (parse d source).statements[j]? = some s) :=
    contains_iff_eq_first (i := i) hs
  unfold statementAt
  generalize Search.first (parse d source).statements (fun s => i < s.start + s.count) = n
    at hfirst ⊢
  dsimp only
  split
  · -- all statements end at the token or in front of it
    rename_i hn
    refine iff_of_false nofun ?_
    rintro ⟨j, hs, hcontains⟩
    obtain ⟨rfl, -⟩ := (hfirst hs).1 hcontains
    simp [hn] at hs
  · rw [Checked.bind_eq_ok_iff]
    constructor
    · rintro ⟨s', hentry, hs'⟩
      have hget := Checked.entry_eq_ok_iff.1 hentry
      split at hs'
      · rename_i hstart
        obtain rfl : s' = s := Option.some.inj (Except.ok.inj hs')
        exact ⟨n, hget, (hfirst hget).2 ⟨rfl, hstart⟩⟩
      · cases hs'
    · rintro ⟨j, hs, hcontains⟩
      obtain ⟨rfl, hstart⟩ := (hfirst hs).1 hcontains
      exact ⟨s, Checked.entry_eq_ok_iff.2 hs, by rw [if_pos hstart]; rfl⟩

theorem find?_contains_eq_some_iff :
    (parse d source).statements.toList.find? (·.Contains i) = some s ↔
      ∃ j : Nat, (parse d source).statements[j]? = some s ∧ s.Contains i := by
  constructor
  · intro hfind
    obtain ⟨j, hj⟩ := Array.mem_iff_getElem?.1
      (Array.mem_toList_iff.1 (List.mem_of_find?_eq_some hfind))
    exact ⟨j, hj, by simpa using List.find?_some hfind⟩
  · rintro ⟨j, hs, hcontains⟩
    obtain ⟨hj, rfl⟩ := Array.getElem?_eq_some_iff.1 hs
    refine List.find?_eq_some_iff_getElem.2
      ⟨decide_eq_true hcontains, j, hj, by simp, fun m hm => ?_⟩
    have hlt : m < (parse d source).statements.size := hm.trans hj
    simp only [Array.getElem_toList, Bool.not_eq_true', decide_eq_false_iff_not]
    intro hcontains'
    exact hm.ne (eq_of_contains (Array.getElem?_eq_getElem hlt) hs hcontains' hcontains)

/-- Halving finds what a look at one statement after the other finds. -/
theorem statementAt_eq_find? (d : Dialect) (source : Bytes) (i : Nat) :
    (parse d source).statementAt i =
      .ok ((parse d source).statements.toList.find? (·.Contains i)) := by
  obtain ⟨s?, hok, -⟩ := succeeds_statementAt (parse d source) i
  rw [hok]
  refine congrArg Except.ok (Option.ext fun s => ?_)
  rw [find?_contains_eq_some_iff, ← statementAt_eq_ok_some_iff, hok, Except.ok.injEq]

/-- The statement around a token is the one that a look at one statement after the other finds.
There is at most one with the token in its run, and none is found only if there is none. -/
theorem statementAt_agrees_with_scan (d : Dialect) (source : Bytes) (i : Nat) :
    let ix := parse d source
    ix.statementAt i = .ok (ix.statements.toList.find? (·.Contains i)) ∧
    (∀ s, ix.statementAt i = .ok (some s) ↔
      ∃ j : Nat, ix.statements[j]? = some s ∧ s.Contains i ∧
        ∀ (k : Nat) (s' : Statement), ix.statements[k]? = some s' → s'.Contains i → k = j) ∧
    (ix.statementAt i = .ok none ↔ ∀ s ∈ ix.statements, ¬ s.Contains i) := by
  intro ix
  refine ⟨statementAt_eq_find? d source i, fun s => ?_, ?_⟩
  · rw [statementAt_eq_ok_some_iff]
    constructor
    · rintro ⟨j, hs, hcontains⟩
      refine ⟨j, hs, hcontains, fun k s' hs' hcontains' => ?_⟩
      exact eq_of_contains hs' hs hcontains' hcontains
    · rintro ⟨j, hs, hcontains, -⟩
      exact ⟨j, hs, hcontains⟩
  · rw [statementAt_eq_find?, Except.ok.injEq, List.find?_eq_none]
    simp [ix]

/-- A constant, the comment that closes its run, an instruction, which is no statement, and a
label. -/
theorem statementAt_agrees_with_scan_instruction :
    let source : Bytes := [0x78, 0x3D, 0x31, 0x3B, 0x0A, 0x6E, 0x6F, 0x70, 0x0A, 0x61]
    let ix := parse .acme source
    let comment : Statement := ⟨.comment, 3, 1⟩
    ix.statements.toList =
        [⟨.definition .constant 0, 0, 3⟩, comment, ⟨.definition .label 7, 7, 1⟩] ∧
      ix.statementAt 2 = .ok (some ⟨.definition .constant 0, 0, 3⟩) ∧
      ix.statementAt 3 = .ok (some comment) ∧ comment.Contains 3 ∧
      ix.statementAt 5 = .ok none ∧
      ix.statementAt 7 = .ok (some ⟨.definition .label 7, 7, 1⟩) := by
  intro source ix comment
  have hlexemes : lexemes .acme source =
      [.token .identifier [.char 'x'], .token .operator [.char '='], .token .number [.char '1'],
        .token .comment [.char ';'], .token .lineBreak [.char '\n'],
        .token .identifier [.char 'n', .char 'o', .char 'p'], .token .lineBreak [.char '\n'],
        .token .identifier [.char 'a']] := by
    cbv
  have hstatements : ix.statements.toList =
      [⟨.definition .constant 0, 0, 3⟩, comment, ⟨.definition .label 7, 7, 1⟩] := by
    simp only [ix, statements_parse, tokens_parse, hlexemes]
    decide
  have found (i : Nat) := (statementAt_agrees_with_scan .acme source i).1
  have hcomment : ix.statementAt 3 = .ok (some comment) := by
    rw [found, hstatements]
    rfl
  obtain ⟨j, -, hcontains, -⟩ := ((statementAt_agrees_with_scan .acme source 3).2.1 _).1 hcomment
  refine ⟨hstatements, ?_, hcomment, hcontains, ?_, ?_⟩
  all_goals
    rw [found, hstatements]
    rfl

end SymbolIndex

end Asm6502
