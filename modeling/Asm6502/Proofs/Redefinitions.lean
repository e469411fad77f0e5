import Asm6502.Proofs.ExactTables
import Asm6502.Proofs.TokenPlaces

/-!
# Redefinitions

A symbol that is defined again is warned of, unless both definitions are of a constant. What is to
be warned of is noted while the statements are gathered, against a table of definitions that every
definition overwrites, and it is sifted only at the end. The warnings can be read off the finished
list of statements: each definition is held against the last one in front of it.

## Main definitions

- `Statement.redefinition?`: what a statement redefines, by a look at the statements in front of it.
- `SymbolIndex.Redefines`: a definition, and the last one of the same symbol in front of it.
- `SymbolIndex.Reports`: the warning about two definitions.

## Main statements

- `Accumulator.redefinitions_record`, `Accumulator.redefinitions_foldl_record`: what one statement
  and all statements add to the redefinitions.
- `SymbolIndex.mem_redefinitions_iff`: the redefinitions noted for a text.
- `SymbolIndex.Redefines.exists_warning`: what is warned of.
-/

namespace Asm6502

namespace Statement

/-- The symbol that the statement, over the tokens `ts`, defines. -/
def symbol? (ts : List Token) (s : Statement) : Option Text :=
  match s.role with
  | .definition _ n => some ((ts[n]?.map Token.text).getD [])
  | _ => none

theorem symbol?_eq_some_iff {ts : List Token} {s : Statement} {name : Text} :
    s.symbol? ts = some name ↔ s.defines ts name = true := by
  cases hrole : s.role <;> simp [symbol?, defines, hrole]

/-- The redefinition that the statement at index `k` makes, if a statement in front of it defines
the same symbol. Of several the last one counts. -/
def redefinition? (ts : List Token) (ss : List Statement) (k : Nat) : Option Redefinition :=
  (ss[k]?.bind (symbol? ts)).bind fun name =>
    ((ss.take k).findIdxs (defines ts name)).getLast?.map (⟨name, ·, k⟩)

end Statement

/-- The elements with an image, each beside its image. -/
theorem forall₂_filter_filterMap {α β : Type} {R : α → β → Prop} {f : α → Option β} {xs : List α}
    (h : ∀ a ∈ xs, ∀ b, f a = some b → R a b) :
    List.Forall₂ R (xs.filter fun a => (f a).isSome) (xs.filterMap f) := by
  induction xs with
  | nil => exact .nil
  | cons a xs ih =>
    have ih := ih fun x hx => h x (List.mem_cons_of_mem a hx)
    cases hfa : f a with
    | none => simpa [hfa] using ih
    | some b => simpa [hfa] using ⟨h a List.mem_cons_self b hfa, ih⟩

/-! ## Noting redefinitions -/

namespace Accumulator

theorem redefinitions_record (a : Accumulator) (s : Statement) :
    (a.record s).redefinitions.toList = a.redefinitions.toList ++
      ((s.symbol? a.tokens.toList).bind fun name =>
        (a.definitions.find? name).map (Redefinition.mk name · a.statements.size)).toList := by
  cases hrole : s.role with
  | definition kind n =>
    have hsymbol : s.symbol? a.tokens.toList = some (a.tokenText n) := by
      simp [Statement.symbol?, hrole, tokenText]
    rw [hsymbol, Option.bind_some]
    cases hfind : a.definitions.find? (a.tokenText n) <;>
      simp_all [record, define, tokenText]
  | _ => simp [record, Statement.symbol?, hrole]

/-- Each statement is held against the table as it was when the statement was recorded, and so
against the statements in front of it. -/
theorem redefinitions_foldl_record (d : Dialect) (ts : List Token) (ss : List Statement) :
    (ss.foldl record { dialect := d, tokens := ts.toArray }).redefinitions.toList =
      (List.range ss.length).filterMap (Statement.redefinition? ts ss) := by
  -- from behind, so that the table is the one that the last statement meets
  induction ss using List.reverseRecOn with
  | nil => rfl
  | append_singleton ss s ih =>
    have hsize : (ss.foldl record { dialect := d, tokens := ts.toArray }).statements.size =
        ss.length := by
      rw [← Array.length_toList, statements_foldl_record]
      simp
    have earlier : ∀ k ∈ List.range ss.length,
        Statement.redefinition? ts (ss ++ [s]) k = Statement.redefinition? ts ss k := by
      intro k hk
      have hlt := List.mem_range.1 hk
      simp only [Statement.redefinition?, List.getElem?_append_left hlt,
        List.take_append_of_le_length hlt.le]
    have current : [ss.length].filterMap (Statement.redefinition? ts (ss ++ [s])) =
        ((s.symbol? ts).bind fun name => (ss.findIdxs (Statement.defines ts name)).getLast?.map
          (⟨name, ·, ss.length⟩)).toList := by
      rw [List.filterMap_cons, List.filterMap_nil, Statement.redefinition?]
      simp only [List.getElem?_concat_length, Option.bind_some, List.take_left]
      split <;> simp_all
    rw [List.foldl_append, List.foldl_cons, List.foldl_nil, redefinitions_record, ih, hsize,
      List.length_append, List.length_singleton, List.range_succ, List.filterMap_append,
      List.filterMap_congr earlier, current]
    simp [find?_foldl_record, Table.find?]

end Accumulator

namespace SymbolIndex

variable {ix : SymbolIndex} {d : Dialect} {source : Bytes} {j k : Nat} {s s' : Statement}

/-- The statement `s'` at index `k` defines a symbol again. Of the statements in front of it, `s` at
index `j` is the last one that defines this symbol. -/
structure Redefines (ix : SymbolIndex) (j k : Nat) (s s' : Statement) : Prop where
  earlier : j < k
  previous : ix.statements[j]? = some s
  current : ix.statements[k]? = some s'
  definitions : s.isDefinition = true ∧ s'.isDefinition = true
  sameName : ix.statementName s = ix.statementName s'
  latest : ∀ (i : Nat) (r : Statement), j < i → i < k → ix.statements[i]? = some r →
    r.isDefinition = true → ix.statementName r ≠ ix.statementName s'

theorem redefinition?_eq_some_iff {r : Redefinition} :
    Statement.redefinition? ix.tokens.toList ix.statements.toList k = some r ↔
      r.current = k ∧ ∃ s s', ix.Redefines r.previous k s s' ∧ ix.statementName s' = r.name := by
  obtain ⟨name, j, k'⟩ := r
  simp only [Statement.redefinition?, Option.bind_eq_some_iff, Option.map_eq_some_iff,
    Statement.symbol?_eq_some_iff, getLast?_findIdxs_eq_some_iff, defines_iff,
    ← Bool.not_eq_true, List.getElem?_take, Array.getElem?_toList, Redefinition.mk.injEq]
  constructor
  · rintro ⟨name', ⟨s', hs', hdef', hname'⟩, j', ⟨s, hs, ⟨hdef, hname⟩, last⟩, rfl, rfl, rfl⟩
    split at hs
    · rename_i hlt
      refine ⟨rfl, s, s', ⟨hlt, hs, hs', ⟨hdef, hdef'⟩, hname.trans hname'.symm, ?_⟩, hname'⟩
      intro i r hji hik hr hdefr hnamer
      exact last i r hji (by rw [if_pos hik, hr]) ⟨hdefr, hnamer.trans hname'⟩
    · cases hs
  · rintro ⟨rfl, s, s', h, rfl⟩
    refine ⟨_, ⟨s', h.current, h.definitions.2, rfl⟩, j, ⟨s, ?_, ⟨h.definitions.1, h.sameName⟩, ?_⟩,
      rfl, rfl, rfl⟩
    · rw [if_pos h.earlier, h.previous]
    · intro i r hji hr hdefines
      split at hr
      · rename_i hik
        exact h.latest i r hji hik hr hdefines.1 hdefines.2
      · cases hr

theorem redefinitions_parse (d : Dialect) (source : Bytes) :
    (gather d source).redefinitions.toList =
      (List.range (parse d source).statements.size).filterMap
        (Statement.redefinition? (parse d source).tokens.toList
          (parse d source).statements.toList) := by
  rw [gather_eq, Accumulator.redefinitions_foldl_record, ← tokens_parse, ← statements_parse,
    Array.length_toList]

/-- What is noted can be read off the statements. -/
theorem mem_redefinitions_iff {r : Redefinition} :
    r ∈ (gather d source).redefinitions.toList ↔
      ∃ s s', (parse d source).Redefines r.previous r.current s s' ∧
        (parse d source).statementName s' = r.name := by
  simp only [redefinitions_parse, List.mem_filterMap, List.mem_range, redefinition?_eq_some_iff]
  constructor
  · rintro ⟨k, -, rfl, h⟩
    exact h
  · rintro ⟨s, s', h, hname⟩
    exact ⟨r.current, (Array.getElem?_eq_some_iff.1 h.current).1, rfl, s, s', h, hname⟩

theorem pairwise_redefinitions (d : Dialect) (source : Bytes) :
    (gather d source).redefinitions.toList.Pairwise fun r r' => r.current < r'.current := by
  rw [redefinitions_parse, List.pairwise_filterMap]
  refine List.pairwise_lt_range.imp fun {k k'} hlt r hr r' hr' => ?_
  rw [(redefinition?_eq_some_iff.1 hr).1, (redefinition?_eq_some_iff.1 hr').1]
  exact hlt

/-! ## Warnings -/

/-- The warning is about the definition at index `k` of a symbol that was last defined at index `j`.
It lies on the name of the one, and tells the row of the name of the other, counted from one. -/
def Reports (ix : SymbolIndex) (w : Diagnostic) (j k : Nat) : Prop :=
  w.severity = .warning ∧ ∃ s s' t t', ix.statements[j]? = some s ∧ ix.statements[k]? = some s' ∧
    ix.nameToken s = .ok t ∧ ix.nameToken s' = .ok t' ∧ ix.spanOf t' = .ok w.span ∧
    w.message = Text.ofString "Symbol \"" ++ t'.text ++
      Text.ofString ("\" redefined, previous definition on line " ++ toString (t.position.line + 1))

/-- A redefinition is warned of, unless a constant is set anew. -/
theorem Redefines.exists_warning (h : (parse d source).Redefines j k s s') :
    ∃ w, (parse d source).Reports w j k ∧
      redefinitionWarning? (parse d source).tokens (parse d source).statements
        ⟨(parse d source).statementName s', j, k⟩ =
          if s.definitionKind? = some .constant ∧ s'.definitionKind? = some .constant then none
          else some w := by
  obtain ⟨kind, n, t, hrole, ht, -, -⟩ := exists_identifier_of_isDefinition
    (Array.mem_toList_iff.2 (Array.mem_of_getElem? h.previous)) h.definitions.1
  obtain ⟨kind', n', t', hrole', ht', -, hname'⟩ := exists_identifier_of_isDefinition
    (Array.mem_toList_iff.2 (Array.mem_of_getElem? h.current)) h.definitions.2
  have hn : s.name? = some n := by simp [Statement.name?, hrole]
  have hn' : s'.name? = some n' := by simp [Statement.name?, hrole']
  refine ⟨.redefinition t'.text t.position.line t'.span,
    ⟨rfl, s, s', t, t', h.previous, h.current, ?_, ?_, ?_, rfl⟩, ?_⟩
  · rw [nameToken, hn]
    exact Checked.entry_eq_ok_iff.2 ht
  · rw [nameToken, hn']
    exact Checked.entry_eq_ok_iff.2 ht'
  · exact spanOf_eq_span (mem_tokens_of_getElem? ht')
  · simp [redefinitionWarning?, h.previous, h.current, hn, hn', ht, ht', hname']

theorem Redefines.isSome_redefinitionWarning?_iff (h : (parse d source).Redefines j k s s') :
    (redefinitionWarning? (parse d source).tokens (parse d source).statements
      ⟨(parse d source).statementName s', j, k⟩).isSome = true ↔
        ¬ (s.definitionKind? = some .constant ∧ s'.definitionKind? = some .constant) := by
  obtain ⟨w, -, hwarning⟩ := h.exists_warning
  rw [hwarning]
  split <;> simp_all

theorem reports_of_redefinitionWarning? {r : Redefinition} {w : Diagnostic}
    (hr : r ∈ (gather d source).redefinitions.toList)
    (hw : redefinitionWarning? (parse d source).tokens (parse d source).statements r = some w) :
    (parse d source).Reports w r.previous r.current := by
  obtain ⟨name, j, k⟩ := r
  obtain ⟨s, s', h, rfl⟩ := mem_redefinitions_iff.1 hr
  obtain ⟨w', reports, hwarning⟩ := h.exists_warning
  rw [hwarning] at hw
  split at hw
  · cases hw
  · obtain rfl := Option.some.inj hw
    exact reports

/-- The warnings among the remarks on a text are those about redefinitions. -/
theorem warnings_parse (d : Dialect) (source : Bytes) :
    (parse d source).diagnostics.filter (·.severity = .warning) =
      (gather d source).redefinitions.toList.filterMap
        (redefinitionWarning? (parse d source).tokens (parse d source).statements) := by
  have hremarks : (parse d source).diagnostics =
      (Lexeme.unclosedSpans .origin (lexemes d source)).map .unterminatedString ++
        (gather d source).redefinitions.toList.filterMap
          (redefinitionWarning? (parse d source).tokens (parse d source).statements) := rfl
  have herrors : ((Lexeme.unclosedSpans .origin (lexemes d source)).map
      Diagnostic.unterminatedString).filter (·.severity = .warning) = [] := by
    simp [List.filter_eq_nil_iff, Diagnostic.unterminatedString]
  rw [hremarks, List.filter_append, herrors, List.nil_append, List.filter_eq_self]
  intro w hw
  obtain ⟨r, hr, hw⟩ := List.mem_filterMap.1 hw
  exact decide_eq_true (reports_of_redefinitionWarning? hr hw).1

/-- The warnings about redefinitions are exact. In the order of the statements there is one for each
definition with a definition of the same symbol in front of it, unless it and the last such
definition are both of constants. It lies on the name, and tells the row of that last one. -/
theorem redefinition_warnings_exact (d : Dialect) (source : Bytes) :
    let ix := parse d source
    ∃ pairs : List (Nat × Nat),
      pairs.Pairwise (fun p q => p.2 < q.2) ∧
      (∀ j k, (j, k) ∈ pairs ↔ ∃ s s', ix.Redefines j k s s' ∧
        ¬ (s.definitionKind? = some .constant ∧ s'.definitionKind? = some .constant)) ∧
      List.Forall₂ (fun p w => ix.Reports w p.1 p.2) pairs
        (ix.diagnostics.filter (·.severity = .warning)) := by
  intro ix
  refine ⟨((gather d source).redefinitions.toList.filter fun r =>
    (redefinitionWarning? ix.tokens ix.statements r).isSome).map fun r => (r.previous, r.current),
    ?_, fun j k => ?_, ?_⟩
  · exact List.pairwise_map.2 ((pairwise_redefinitions d source).filter _)
  · simp only [List.mem_map, List.mem_filter, mem_redefinitions_iff, Prod.mk.injEq]
    constructor
    · rintro ⟨⟨name, j', k'⟩, ⟨⟨s, s', h, rfl⟩, hsome⟩, rfl, rfl⟩
      exact ⟨s, s', h, h.isSome_redefinitionWarning?_iff.1 hsome⟩
    · rintro ⟨s, s', h, hconstants⟩
      exact ⟨⟨ix.statementName s', j, k⟩,
        ⟨⟨s, s', h, rfl⟩, h.isSome_redefinitionWarning?_iff.2 hconstants⟩, rfl, rfl⟩
  · rw [warnings_parse, List.forall₂_map_left_iff]
    exact forall₂_filter_filterMap fun r hr w hw => reports_of_redefinitionWarning? hr hw

/-- A constant that becomes a label and then a constant again is warned of both times; setting it
once more is not. -/
example :
    let source : Bytes :=
      [0x61, 0x3D, 0x31, 0x0A, 0x61, 0x0A, 0x61, 0x3D, 0x32, 0x0A, 0x61, 0x3D, 0x33]
    (parse .acme source).diagnostics =
      [.redefinition [.char 'a'] 0 ⟨⟨1, 0⟩, ⟨1, 1⟩⟩,
        .redefinition [.char 'a'] 1 ⟨⟨2, 0⟩, ⟨2, 1⟩⟩] := by
  intro source
  have hlexemes : lexemes .acme source =
      [.token .identifier [.char 'a'], .token .operator [.char '='], .token .number [.char '1'],
        .token .lineBreak [.char '\n'], .token .identifier [.char 'a'],
        .token .lineBreak [.char '\n'], .token .identifier [.char 'a'],
        .token .operator [.char '='], .token .number [.char '2'], .token .lineBreak [.char '\n'],
        .token .identifier [.char 'a'], .token .operator [.char '='],
        .token .number [.char '3']] := by
    cbv
  simp only [parse, gather, hlexemes]
  rfl

end SymbolIndex

end Asm6502
