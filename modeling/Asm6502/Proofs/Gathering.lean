import Asm6502.Index.Basic
import Asm6502.Proofs.StatementRuns
import Mathlib

/-!
# Gathering statements

The accumulator classifies each run as soon as it is closed. The same statements come out in two
passes over the finished list of tokens.

## Main definitions

- `Accumulator.Recorded`: the statements of some tokens have been recorded.
- `Accumulator.Holds`: what the accumulator holds once some tokens have arrived.
- `Accumulator.Admits`: the runs that the classifier does not turn down.

## Main statements

- `Accumulator.Holds.emit`, `Accumulator.Holds.foldl_emit`: one more token, and all of them.
- `SymbolIndex.gather_eq`: gathering is recording the statements of the two passes.
- `SymbolIndex.tokens_parse`, `SymbolIndex.statements_parse`: the tokens and statements of an index.
-/

namespace Asm6502

namespace Accumulator

/-! ## Recording -/

/-- The accumulator between two runs, with the tokens `ts`. -/
def withTokens (a : Accumulator) (ts : List Token) : Accumulator :=
  { a with tokens := ts.toArray, runStart := 0, runCount := 0 }

theorem withTokens_self {a : Accumulator} {ts : List Token} (tokens : a.tokens.toList = ts)
    (runCount : a.runCount = 0) (runStart : a.runStart = 0) : a.withTokens ts = a := by
  cases a
  simp_all [withTokens, ← tokens]

/-- The tokens `ts` spell the symbol that the statement defines, if it defines one, as those of the
accumulator do. -/
def SpelledAlike (a : Accumulator) (ts : List Token) (s : Statement) : Prop :=
  ∀ kind n, s.role = .definition kind n → ts[n]?.map Token.text = a.tokens[n]?.map Token.text

/-- Recording a statement looks at no token but the name of the symbol that it defines. -/
theorem withTokens_record {a : Accumulator} {s : Statement} {ts : List Token}
    (h : a.SpelledAlike ts s) : (a.record s).withTokens ts = (a.withTokens ts).record s := by
  cases hrole : s.role with
  | comment => simp [record, hrole, withTokens]
  | inclusion n => simp [record, hrole, withTokens]
  | definition kind n => simp [record, hrole, withTokens, define, tokenText, h kind n hrole]

@[simp] theorem tokens_record (a : Accumulator) (s : Statement) :
    (a.record s).tokens = a.tokens := by
  cases hrole : s.role <;> simp [record, hrole, define]

@[simp] theorem dialect_record (a : Accumulator) (s : Statement) :
    (a.record s).dialect = a.dialect := by
  cases hrole : s.role <;> simp [record, hrole, define]

@[simp] theorem runCount_record (a : Accumulator) (s : Statement) :
    (a.record s).runCount = a.runCount := by
  cases hrole : s.role <;> simp [record, hrole, define]

/-- What no single statement changes stays as it is. -/
theorem foldl_record_eq {α : Type} {f : Accumulator → α} (h : ∀ a s, f (record a s) = f a)
    (a : Accumulator) (ss : List Statement) : f (ss.foldl record a) = f a := by
  induction ss generalizing a with
  | nil => rfl
  | cons s ss ih => rw [List.foldl_cons, ih, h]

@[simp] theorem tokens_foldl_record (a : Accumulator) (ss : List Statement) :
    (ss.foldl record a).tokens = a.tokens :=
  foldl_record_eq tokens_record a ss

@[simp] theorem dialect_foldl_record (a : Accumulator) (ss : List Statement) :
    (ss.foldl record a).dialect = a.dialect :=
  foldl_record_eq dialect_record a ss

@[simp] theorem runCount_foldl_record (a : Accumulator) (ss : List Statement) :
    (ss.foldl record a).runCount = a.runCount :=
  foldl_record_eq runCount_record a ss

theorem withTokens_foldl_record {a : Accumulator} {ss : List Statement} {ts : List Token}
    (h : ∀ s ∈ ss, a.SpelledAlike ts s) :
    (ss.foldl record a).withTokens ts = ss.foldl record (a.withTokens ts) := by
  induction ss generalizing a with
  | nil => rfl
  | cons s ss ih =>
    rw [List.foldl_cons, List.foldl_cons, ← withTokens_record (h s List.mem_cons_self), ih]
    intro s' hs'
    rw [SpelledAlike, tokens_record]
    exact h s' (List.mem_cons_of_mem s hs')

/-- The classifier does not turn down the `count` tokens from `start` on. -/
def Admits (a : Accumulator) (start count : Nat) : Prop :=
  ¬(count < 1 ∨ a.tokens.size < start + count)

/-- The classifier does not turn down the open run. -/
def AdmitsRun (a : Accumulator) : Prop :=
  0 < a.runCount → a.Admits a.runStart a.runCount

/-- A run that lies within the tokens is classified. -/
theorem classify_eq {a : Accumulator} {front run back : List Token} (hrun : run ≠ [])
    (h : a.tokens.toList = front ++ run ++ back) :
    a.classify front.length run.length =
      (Statement.ofRun? a.dialect front.length run).toList.foldl record a := by
  have hpos : 0 < run.length := List.length_pos_of_ne_nil hrun
  have hsize : a.tokens.size = front.length + run.length + back.length := by
    rw [← Array.length_toList, h, List.length_append, List.length_append]
  have admits : a.Admits front.length run.length := by
    rw [Admits]
    omega
  have hextract : (a.tokens.extract front.length (front.length + run.length)).toList = run := by
    rw [Array.toList_extract, h]
    simp
  rw [classify, if_neg admits, hextract]
  cases Statement.ofRun? a.dialect front.length run <;> rfl

/-! ## What has been gathered -/

/-- The statements of the tokens `closed`, as the two passes find them, have been recorded. It does
not matter which tokens follow. -/
structure Recorded (d : Dialect) (closed : List Token) (a : Accumulator) : Prop where
  dialect : a.dialect = d
  withTokens_eq : ∀ more, a.withTokens (closed ++ more) =
    (Statement.ofTokens d closed).foldl record { dialect := d, tokens := (closed ++ more).toArray }

variable {d : Dialect} {closed run back : List Token} {a : Accumulator}

/-- More pieces are recorded. -/
theorem Recorded.foldl_record (h : Recorded d closed a) (ps : List (List Token))
    (tokens : a.tokens.toList = closed ++ ps.flatten ++ back)
    (cut : Statement.pieces (closed ++ ps.flatten) = Statement.pieces closed ++ ps) :
    Recorded d (closed ++ ps.flatten)
      ((Statement.ofPieces d closed.length ps).foldl record a) := by
  refine ⟨by simp [h.dialect], fun more => ?_⟩
  rw [withTokens_foldl_record, List.append_assoc, h.withTokens_eq, Statement.ofTokens,
    Statement.ofTokens, cut, Statement.ofPieces_append, List.foldl_append, Statement.flatten_pieces,
    Nat.zero_add]
  intro s hs kind n hrole
  have hlt : n < (closed ++ ps.flatten).length := by
    rw [List.length_append]
    exact Statement.name_lt_of_mem_ofPieces hs (by simp [Statement.name?, hrole])
  rw [List.getElem?_append_left hlt, ← Array.getElem?_toList, tokens, List.getElem?_append_left hlt]

/-- The open run is recorded. -/
theorem Recorded.record_run (h : Recorded d closed a)
    (tokens : a.tokens.toList = closed ++ run ++ back)
    (closed_end : ∀ t ∈ closed.getLast?, t.inRun = false) :
    Recorded d (closed ++ run)
      ((Statement.ofPieces d closed.length (Statement.pieces run)).foldl record a) := by
  have flat : closed ++ (Statement.pieces run).flatten = closed ++ run := by
    rw [Statement.flatten_pieces]
  rw [← flat] at tokens ⊢
  exact h.foldl_record _ tokens (by rw [flat, Statement.pieces_append closed_end])

/-- A token that belongs to no run is recorded. -/
theorem Recorded.record_closing {t : Token} (h : Recorded d closed a)
    (tokens : a.tokens.toList = closed ++ [t]) (closing : t.inRun = false) :
    Recorded d (closed ++ [t])
      ((Statement.ofRun? d closed.length [t]).toList.foldl record a) := by
  have tokens' : a.tokens.toList = closed ++ [[t]].flatten ++ [] := by simpa using tokens
  have done := h.foldl_record [[t]] tokens' (Statement.pieces_append_cons closing closed [])
  simpa [Statement.ofPieces] using done

/-- What the accumulator holds once the tokens `closed ++ run` have arrived: the statements of
`closed` have been recorded, and `run` is still open. -/
structure Holds (d : Dialect) (closed run : List Token) (a : Accumulator) : Prop where
  recorded : Recorded d closed a
  tokens : a.tokens.toList = closed ++ run
  runCount : a.runCount = run.length
  runStart : run ≠ [] → a.runStart = closed.length
  open_run : ∀ t ∈ run, t.inRun = true
  closed_end : ∀ t ∈ closed.getLast?, t.inRun = false

theorem holds_empty (d : Dialect) : Holds d [] [] { dialect := d } := by
  refine ⟨⟨rfl, ?_⟩, ?_, ?_, ?_, ?_, ?_⟩ <;>
    simp [withTokens, Statement.ofTokens, Statement.pieces, Statement.ofPieces]

/-- A token that belongs to a run makes it longer. -/
theorem Holds.extend (h : Holds d closed run a) {t : Token} (ht : t.inRun = true) :
    Holds d closed (run ++ [t]) (a.emit t) := by
  have hemit : a.emit t =
      { a with
        tokens := a.tokens.push t
        runStart := if a.runCount = 0 then a.tokens.size else a.runStart
        runCount := a.runCount + 1 } := by
    cases hkind : t.kind <;> simp [Accumulator.emit, Token.inRun, hkind] at ht ⊢
  rw [hemit]
  refine ⟨⟨h.recorded.dialect, h.recorded.withTokens_eq⟩, by simp [h.tokens], by simp [h.runCount],
    fun _ => ?_, ?_, h.closed_end⟩
  · simp only [h.runCount, List.length_eq_zero_iff]
    split
    · rename_i hrun
      rw [← Array.length_toList, h.tokens, hrun, List.append_nil]
    · rename_i hrun
      exact h.runStart hrun
  · intro x hx
    rcases List.mem_append.1 hx with hx | hx
    · exact h.open_run x hx
    · rwa [List.mem_singleton.1 hx]

/-- Closing the open run records it. The accumulator may have more tokens by then, which belong to
what comes next. -/
theorem Holds.flush (h : Holds d closed run a) {b : Accumulator}
    (hb : b = { a with tokens := (closed ++ run ++ back).toArray }) :
    Recorded d (closed ++ run) b.flush ∧ b.flush.tokens.toList = closed ++ run ++ back ∧
      b.flush.runCount = 0 ∧ b.flush.runStart = 0 := by
  have recorded : Recorded d closed b := hb ▸ ⟨h.recorded.dialect, h.recorded.withTokens_eq⟩
  have tokens : b.tokens.toList = closed ++ run ++ back := by simp [hb]
  have runCount : b.runCount = run.length := by simp [hb, h.runCount]
  have runStart : run ≠ [] → b.runStart = closed.length := by simpa [hb] using h.runStart
  have hflush : b.flush =
      { (Statement.ofPieces d closed.length (Statement.pieces run)).foldl record b with
        runStart := 0, runCount := 0 } := by
    rw [Statement.pieces_run h.open_run, Accumulator.flush, runCount]
    by_cases hrun : run = []
    · simp [hrun, Statement.ofPieces]
    · rw [if_pos (List.length_pos_of_ne_nil hrun), if_neg hrun, runStart hrun,
        classify_eq hrun tokens, recorded.dialect]
      simp [Statement.ofPieces]
  have done := recorded.record_run tokens h.closed_end
  rw [hflush]
  exact ⟨⟨done.dialect, done.withTokens_eq⟩, by simpa using tokens, rfl, rfl⟩

/-- A token that belongs to no run closes the run in front of it. -/
theorem Holds.close (h : Holds d closed run a) {t : Token} (ht : t.inRun = false) :
    Holds d (closed ++ run ++ [t]) [] (a.emit t) := by
  have hpush : a.tokens.push t = (closed ++ run ++ [t]).toArray := by
    rw [← h.tokens, ← Array.toList_push, Array.toArray_toList]
  have hsize : a.tokens.size = (closed ++ run).length := by
    rw [← Array.length_toList, h.tokens]
  -- the token is already among the tokens when the run in front of it is closed
  have hflush := h.flush (b := { a with tokens := a.tokens.push t }) (by rw [hpush])
  generalize hb : Accumulator.flush { a with tokens := a.tokens.push t } = b at hflush
  obtain ⟨recorded, tokens, runCount, -⟩ := hflush
  have hemit : a.emit t =
      (Statement.ofRun? d (closed ++ run).length [t]).toList.foldl record b := by
    cases hkind : t.kind with
    | lineBreak => simp [Accumulator.emit, hkind, hb, Statement.ofRun?]
    | comment =>
      have hclassify : a.emit t = b.classify (closed ++ run).length [t].length := by
        simp [Accumulator.emit, hkind, hb, hsize]
      have htokens : b.tokens.toList = closed ++ run ++ [t] ++ [] := by rw [tokens, List.append_nil]
      rw [hclassify, classify_eq (by simp) htokens, recorded.dialect]
    | _ => simp [Token.inRun, hkind] at ht
  rw [hemit]
  exact ⟨recorded.record_closing tokens ht, by rw [tokens_foldl_record, tokens, List.append_nil],
    by rw [runCount_foldl_record, runCount, List.length_nil], by simp, by simp, by simpa using ht⟩

/-- One more token. -/
theorem Holds.emit (h : Holds d closed run a) (t : Token) :
    ∃ closed' run', closed' ++ run' = closed ++ run ++ [t] ∧ Holds d closed' run' (a.emit t) := by
  cases ht : t.inRun with
  | true => exact ⟨closed, run ++ [t], by simp, h.extend ht⟩
  | false => exact ⟨closed ++ run ++ [t], [], by simp, h.close ht⟩

/-- All tokens, one after the other. -/
theorem Holds.foldl_emit (h : Holds d closed run a) (ts : List Token) :
    ∃ closed' run', closed' ++ run' = closed ++ run ++ ts ∧
      Holds d closed' run' (ts.foldl Accumulator.emit a) := by
  induction ts generalizing closed run a with
  | nil => exact ⟨closed, run, by simp, h⟩
  | cons t ts ih =>
    obtain ⟨closed', run', he, h'⟩ := h.emit t
    obtain ⟨closed'', run'', he', h''⟩ := ih h'
    exact ⟨closed'', run'', by simp [he', he], h''⟩

/-- The open run is admitted, also when more tokens have arrived. -/
theorem Holds.admitsRun (h : Holds d closed run a) {tokens : Array Token}
    (more : a.tokens.size ≤ tokens.size) : AdmitsRun { a with tokens } := by
  intro pos
  have hrun : run ≠ [] := by
    rintro rfl
    exact absurd h.runCount pos.ne'
  have hsize : a.tokens.size = a.runStart + a.runCount := by
    rw [← Array.length_toList, h.tokens, List.length_append, h.runStart hrun, h.runCount]
  rw [Admits]
  dsimp only at pos ⊢
  omega

@[simp] theorem tokens_classify (a : Accumulator) (start count : Nat) :
    (a.classify start count).tokens = a.tokens := by
  unfold classify
  split
  · rfl
  · split
    · exact tokens_record a _
    · rfl

@[simp] theorem tokens_flush (a : Accumulator) : a.flush.tokens = a.tokens := by
  unfold flush
  split
  · exact tokens_classify a _ _
  · rfl

@[simp] theorem statements_record (a : Accumulator) (s : Statement) :
    (a.record s).statements = a.statements.push s := by
  cases hrole : s.role <;> simp [record, hrole, define]

theorem statements_foldl_record (a : Accumulator) (ss : List Statement) :
    (ss.foldl record a).statements.toList = a.statements.toList ++ ss := by
  induction ss generalizing a with
  | nil => simp
  | cons s ss ih => simp [ih]

end Accumulator

namespace SymbolIndex

/-- Gathering as the tokens arrive and in two passes come to the same. -/
theorem gather_eq (d : Dialect) (source : Bytes) :
    gather d source =
      (Statement.ofTokens d (Lexeme.tokens 0 .origin true (lexemes d source))).foldl
        Accumulator.record
        { dialect := d, tokens := (Lexeme.tokens 0 .origin true (lexemes d source)).toArray } := by
  obtain ⟨closed, run, hts, h⟩ := (Accumulator.holds_empty d).foldl_emit
    (Lexeme.tokens 0 .origin true (lexemes d source))
  rw [List.nil_append, List.nil_append] at hts
  have hself (a : Accumulator) (ha : a.tokens.toList = closed ++ run) :
      a = { a with tokens := (closed ++ run ++ []).toArray } := by
    simp [← ha]
  -- at the end of the text the last run is closed with nothing behind it
  obtain ⟨recorded, tokens, runCount, runStart⟩ := h.flush (hself _ h.tokens)
  have done := recorded.withTokens_eq []
  rw [List.append_nil, hts] at tokens done
  rw [Accumulator.withTokens_self tokens runCount runStart] at done
  exact done

theorem tokens_parse (d : Dialect) (source : Bytes) :
    (parse d source).tokens.toList = Lexeme.tokens 0 .origin true (lexemes d source) := by
  simp [parse, gather_eq]

theorem statements_parse (d : Dialect) (source : Bytes) :
    (parse d source).statements.toList = Statement.ofTokens d (parse d source).tokens.toList := by
  rw [tokens_parse]
  simp [parse, gather_eq, Accumulator.statements_foldl_record]

/-- The statements are those of the two passes over all tokens. They are exactly the comments and
the runs that say something, they follow each other without overlapping, and no line break is part
of any. Each time a token arrives, and at the end, what is handed to the classifier is admitted. -/
theorem statements_parse_eq_ofTokens (d : Dialect) (source : Bytes) :
    let ts := (parse d source).tokens.toList
    let ss := (parse d source).statements.toList
    ss = Statement.ofTokens d ts ∧
    (∀ s, s ∈ ss ↔
      (∃ t, ts[s.start]? = some t ∧ t.kind = .comment ∧ s.role = .comment ∧ s.count = 1) ∨
      (Statement.IsRun ts s.start s.count ∧
        Statement.ofRun? d s.start ((ts.drop s.start).take s.count) = some s)) ∧
    ss.Pairwise (fun s s' => s.start < s'.start ∧ s.start + s.count ≤ s'.start) ∧
    (∀ s ∈ ss, ∀ t ∈ (ts.drop s.start).take s.count, t.kind ≠ .lineBreak) ∧
    (∀ front t back, ts = front ++ t :: back →
      let a := front.foldl Accumulator.emit { dialect := d }
      let b := { a with tokens := a.tokens.push t }
      b.AdmitsRun ∧ b.flush.Admits a.tokens.size 1) ∧
    (ts.foldl Accumulator.emit { dialect := d }).AdmitsRun := by
  intro ts ss
  have hss : ss = Statement.ofTokens d ts := statements_parse d source
  refine ⟨hss, fun s => hss ▸ Statement.mem_ofTokens_iff, ?_, ?_, ?_, ?_⟩
  · rw [hss]
    exact Statement.pairwise_ofTokens d ts
  · rw [hss]
    exact fun s hs t ht => Statement.ne_lineBreak_of_mem_ofTokens hs ht
  · intro front t back _ a b
    obtain ⟨closed, run, -, h⟩ := (Accumulator.holds_empty d).foldl_emit front
    refine ⟨h.admitsRun (by simp [a]), ?_⟩
    simp [Accumulator.Admits, b]
  · obtain ⟨closed, run, -, h⟩ := (Accumulator.holds_empty d).foldl_emit ts
    exact h.admitsRun (Nat.le_refl _)

/-- The comment closes the run of a constant, and the end of the text that of an inclusion. -/
theorem statements_parse_constant_comment_inclusion :
    let source : Bytes :=
      [0x78, 0x3D, 0x31, 0x3B, 0x63, 0x0A, 0x21, 0x73, 0x72, 0x63, 0x22, 0x66, 0x22]
    let front : List Token :=
      [⟨.identifier, 0, ⟨0, 0⟩, [.char 'x'], true⟩, ⟨.operator, 1, ⟨0, 1⟩, [.char '='], false⟩,
        ⟨.number, 2, ⟨0, 2⟩, [.char '1'], false⟩]
    let comment : Token := ⟨.comment, 3, ⟨0, 3⟩, [.char ';', .char 'c'], false⟩
    let back : List Token :=
      [⟨.lineBreak, 5, ⟨0, 5⟩, [.char '\n'], false⟩,
        ⟨.directive, 6, ⟨1, 0⟩, [.char '!', .char 's', .char 'r', .char 'c'], true⟩,
        ⟨.string, 11, ⟨1, 5⟩, [.char 'f'], false⟩]
    let a := front.foldl Accumulator.emit { dialect := .acme }
    (parse .acme source).tokens.toList = front ++ comment :: back ∧
      (parse .acme source).statements.toList =
        [⟨.definition .constant 0, 0, 3⟩, ⟨.comment, 3, 1⟩, ⟨.inclusion 6, 5, 2⟩] ∧
      Accumulator.AdmitsRun { a with tokens := a.tokens.push comment } := by
  intro source front comment back a
  have hlexemes : lexemes .acme source =
      [.token .identifier [.char 'x'], .token .operator [.char '='], .token .number [.char '1'],
        .token .comment [.char ';', .char 'c'], .token .lineBreak [.char '\n'],
        .token .directive [.char '!', .char 's', .char 'r', .char 'c'], .skipped [.char '"'],
        .token .string [.char 'f'], .skipped [.char '"']] := by
    cbv
  have htokens : (parse .acme source).tokens.toList = front ++ comment :: back := by
    rw [tokens_parse, hlexemes]
    rfl
  obtain ⟨hstatements, -, -, -, admits, -⟩ := statements_parse_eq_ofTokens .acme source
  refine ⟨htokens, ?_, (admits front comment back htokens).1⟩
  rw [hstatements, htokens]
  decide

end SymbolIndex

end Asm6502
