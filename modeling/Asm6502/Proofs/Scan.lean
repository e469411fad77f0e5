import Asm6502.Proofs.Opening

/-!
# Whole scans

A scan is a chain of productions, each of which starts where the one before it left off. What holds
of the lexemes of every production holds of all lexemes of a scan.

## Main definitions

- `Lexeme.Scans`: chains of productions.
- `Lexeme.CleanCuts`: lexemes between which every line end stays whole.

## Main statements

- `Lexeme.texts_scan`: the lexemes of a text are the whole text.
- `Lexeme.Scans.exists_production`: the production that a lexeme comes from.
- `Lexeme.ne_nil_of_mem_scan`, `Lexeme.quiet_of_mem_scan`: tokens are never empty, and what belongs
  to none is not significant.
- `Lexeme.cleanCut_of_scan`: no line end is taken apart between two lexemes.
- `Lexeme.next_append`: what a character opens is the same if nothing that it depends on changes.
- `Lexeme.scan_append_lineFeed`: the lines in front of a line feed are scanned as if alone.
-/

namespace Asm6502.Lexeme

@[simp] theorem texts_nil : texts [] = [] := rfl

@[simp] theorem texts_cons (l : Lexeme) (ls : List Lexeme) :
    texts (l :: ls) = l.text ++ texts ls := rfl

@[simp] theorem texts_append (ls ls' : List Lexeme) :
    texts (ls ++ ls') = texts ls ++ texts ls' := by
  simp [texts]

@[simp] theorem kind?_token (k : TokenKind) (t : Text) : (token k t).kind? = some k := rfl

@[simp] theorem kind?_skipped (t : Text) : (skipped t).kind? = none := rfl

@[simp] theorem kind?_unclosed_eq_none {t : Text} : (unclosed t).kind? = none ↔ t = [] := by
  cases t <;> simp [kind?]

theorem eq_token_of_kind? {l : Lexeme} {k : TokenKind} (h : l.kind? = some k) (hk : k ≠ .string) :
    ∃ text, l = token k text := by
  cases l with
  | token k' text =>
    obtain rfl : k' = k := Option.some.inj h
    exact ⟨text, rfl⟩
  | skipped text => cases h
  | unclosed content =>
    cases content with
    | nil => cases h
    | cons g content => exact absurd (Option.some.inj h).symm hk

/-- A chain of productions from the start of a text to its end. -/
inductive Scans (d : Dialect) : Bool → Text → List Lexeme → Prop where
  | nil (fresh : Bool) : Scans d fresh [] []
  | step {fresh : Bool} {t back : Text} {here ls : List Lexeme} (opens : Opens d fresh t here back)
      (scans : Scans d (here.foldl Lexeme.fresh fresh) back ls) : Scans d fresh t (here ++ ls)

theorem Opens.texts_ne_nil {d : Dialect} {fresh : Bool} {t back : Text} {here : List Lexeme}
    (h : Opens d fresh t here back) : texts here ≠ [] := by
  cases h <;> simp [text]

/-- A scan goes on where the lexemes of its first character leave off. -/
theorem drop_texts_next {d : Dialect} {fresh : Bool} {c : Glyph} {rest back : Text}
    (h : c :: rest = texts (next d fresh c rest) ++ back) :
    rest.drop ((texts (next d fresh c rest)).length - 1) = back := by
  obtain ⟨_, opens⟩ := exists_opens d fresh c rest
  obtain ⟨g, run, hrun⟩ := List.exists_cons_of_ne_nil opens.texts_ne_nil
  rw [hrun, List.cons_append] at h
  rw [hrun, (List.cons.inj h).2, List.length_cons, Nat.add_sub_cancel, List.drop_left]

theorem scans_scan (d : Dialect) (fresh : Bool) (t : Text) : Scans d fresh t (scan d fresh t) := by
  fun_induction scan d fresh t with
  | case1 fresh => exact .nil fresh
  | case2 fresh c rest here ih =>
    obtain ⟨back, opens⟩ := exists_opens d fresh c rest
    exact .step opens (drop_texts_next opens.texts_append ▸ ih)

variable {d : Dialect} {fresh : Bool} {t : Text} {ls : List Lexeme}

theorem Scans.texts_eq (h : Scans d fresh t ls) : texts ls = t := by
  induction h with
  | nil => rfl
  | step opens _ ih => rw [texts_append, ih, ← opens.texts_append]

/-- The lexemes of a text are the whole text. -/
@[simp] theorem texts_scan (d : Dialect) (fresh : Bool) (t : Text) : texts (scan d fresh t) = t :=
  (scans_scan d fresh t).texts_eq

/-! ## Single lexemes -/

/-- What holds of the lexemes of every production holds of all lexemes of a scan. -/
theorem Scans.forall_mem {P : Lexeme → Prop}
    (opening : ∀ {fresh t here back}, Opens d fresh t here back → ∀ l ∈ here, P l)
    (h : Scans d fresh t ls) : ∀ l ∈ ls, P l := by
  induction h with
  | nil => simp
  | step opens _ ih =>
    intro l hl
    rcases List.mem_append.1 hl with hl | hl
    · exact opening opens l hl
    · exact ih l hl

/-- Every lexeme of a scan comes from one of its productions, perhaps together with others. -/
theorem Scans.exists_production {before after : List Lexeme} {l : Lexeme}
    (h : Scans d fresh t (before ++ l :: after)) : ∃ outer inner behind later text back,
      before = outer ++ inner ∧ after = behind ++ later ∧
      Opens d (outer.foldl Lexeme.fresh fresh) text (inner ++ l :: behind) back := by
  generalize hls : before ++ l :: after = ls at h
  induction h generalizing before with
  | nil => simp at hls
  | @step fresh t back here ls opens scans ih =>
    -- the first production holds the lexeme, or it lies behind
    have hcut : (∃ behind, here = before ++ l :: behind ∧ after = behind ++ ls) ∨
        ∃ u, before = here ++ u ∧ u ++ l :: after = ls := by
      rcases List.append_eq_append_iff.1 hls with ⟨u, hhere, hu⟩ | ⟨u, hbefore, hu⟩
      · rcases List.cons_eq_append_iff.1 hu with ⟨rfl, hls⟩ | ⟨behind, rfl, hafter⟩
        · exact .inr ⟨[], by simpa using hhere.symm, hls.symm⟩
        · exact .inl ⟨behind, hhere, hafter⟩
      · exact .inr ⟨u, hbefore, hu.symm⟩
    rcases hcut with ⟨behind, rfl, rfl⟩ | ⟨u, rfl, hu⟩
    · exact ⟨[], before, behind, ls, t, back, rfl, rfl, opens⟩
    · obtain ⟨outer, inner, behind, later, text, back', rfl, rfl, opens'⟩ := ih hu
      refine ⟨here ++ outer, inner, behind, later, text, back', by simp, rfl, ?_⟩
      rwa [List.foldl_append]

theorem Opens.ne_nil_of_kind {back : Text} {here : List Lexeme} (h : Opens d fresh t here back) :
    ∀ l ∈ here, l.kind? ≠ none → l.text ≠ [] := by
  cases h <;> simp_all [text]

/-- Tokens are never empty. -/
theorem ne_nil_of_mem_scan {l : Lexeme} (h : l ∈ scan d fresh t) (hl : l.kind? ≠ none) :
    l.text ≠ [] :=
  (scans_scan d fresh t).forall_mem Opens.ne_nil_of_kind l h hl

theorem Opens.quiet_of_kind {back : Text} {here : List Lexeme} (h : Opens d fresh t here back) :
    ∀ l ∈ here, l.kind? = none → ∀ g ∈ l.text, g.isSignificant = false := by
  have quote {q : Glyph} (hq : q = .char '\'' ∨ q = .char '"') : q.isSignificant = false := by
    rcases hq with rfl | rfl <;> decide
  cases h with
  | byteOperator g back half => rcases half with rfl | rfl <;> simp [text] <;> decide
  | anonymousLabel | operand => simp [text]; decide
  | emptyString q back hq => simp [text, quote hq]
  | string q content back hq => simp [text, quote hq]
  | unclosed q content hq => simp +contextual [text, quote hq]
  | other c back quiet => simpa [text] using quiet
  | _ => simp

/-- What belongs to no token is not significant. -/
theorem quiet_of_mem_scan {l : Lexeme} (h : l ∈ scan d fresh t) (hl : l.kind? = none) :
    ∀ g ∈ l.text, g.isSignificant = false :=
  (scans_scan d fresh t).forall_mem Opens.quiet_of_kind l h hl

theorem Opens.not_isBreak_of_kind {back : Text} {here : List Lexeme}
    (h : Opens d fresh t here back) :
    ∀ l ∈ here, l.kind? ≠ some .lineBreak → l.kind? ≠ some .string →
      ∀ g ∈ l.text, g.isBreak = false := by
  have symbols {run back : Text} (longest : Text.Longest d.isSymbol run back) :
      ∀ g ∈ run, g.isBreak = false :=
    longest.not_isBreak (by cases d <;> decide) (by cases d <;> decide)
  cases h with
  | pairBreak | lineBreak | anonymousLabel | operator => simp [text, Glyph.isBreak]
  | comment c run back longest lead =>
    have := longest.not_isBreak rfl rfl
    rcases lead with rfl | ⟨rfl, -⟩ | ⟨rfl, -⟩ <;> simpa [text, Glyph.isBreak] using this
  | byteOperator g back half => rcases half with rfl | rfl <;> simp [text, Glyph.isBreak]
  | preprocessor run back longest =>
    simpa [text, Glyph.isBreak] using longest.not_isBreak rfl rfl
  | reference c run back longest nonempty sigil =>
    have := symbols longest
    rcases sigil with ⟨rfl, -⟩ | ⟨rfl, -⟩ | ⟨rfl, -⟩ <;> simpa [text, Glyph.isBreak] using this
  | operand run back longest | dotDirective run back longest =>
    simpa [text, Glyph.isBreak] using symbols longest
  | name c run back longest lead =>
    have := symbols longest
    rcases lead with rfl | hc | ⟨rfl, -⟩ | ⟨rfl, -⟩
    · simpa [text, Glyph.isBreak] using this
    · have hc : c.isBreak = false := Glyph.not_isBreak_of (by decide) (by decide) hc
      simpa [text, hc] using this
    · simpa [text, Glyph.isBreak] using this
    · simpa [text, Glyph.isBreak] using this
  | directive c run back longest lead =>
    have hc : c.isBreak = false :=
      Glyph.not_isBreak_of (by cases d <;> decide) (by cases d <;> decide) lead
    simpa [text, hc] using symbols longest
  | emptyString q back quote | string q content back quote =>
    rcases quote with rfl | rfl <;> simp [text, Glyph.isBreak]
  | unclosed q content quote =>
    cases content <;> rcases quote with rfl | rfl <;> simp [text, kind?, Glyph.isBreak]
  | decimal c run back longest lead =>
    have hc : c.isBreak = false := Glyph.not_isBreak_of (by decide) (by decide) lead
    simpa [text, hc] using longest.not_isBreak (by decide) (by decide)
  | hexadecimal run back longest | binary run back longest =>
    simpa [text, Glyph.isBreak] using longest.not_isBreak (by decide) (by decide)
  | other c back quiet =>
    simp only [Glyph.isSignificant, Bool.or_eq_false_iff] at quiet
    simp [text, quiet]

/-! ## Cuts between lexemes -/

/-- No line end is taken apart behind one of the lexemes, of which `back` follows the last. -/
def CleanCuts (back : Text) : List Lexeme → Prop
  | [] => True
  | l :: ls => l.text.CleanCut (texts ls ++ back) ∧ CleanCuts back ls

theorem CleanCuts.append {back : Text} {ls ls' : List Lexeme}
    (h : CleanCuts (texts ls' ++ back) ls) (h' : CleanCuts back ls') :
    CleanCuts back (ls ++ ls') := by
  induction ls with
  | nil => exact h'
  | cons l ls ih =>
    refine ⟨?_, ih h.2⟩
    have e : texts (ls ++ ls') ++ back = texts ls ++ (texts ls' ++ back) := by simp
    exact e ▸ h.1

theorem CleanCuts.cleanCut {back : Text} {ls ls' : List Lexeme} (h : CleanCuts back (ls ++ ls')) :
    (texts ls).CleanCut (texts ls' ++ back) := by
  induction ls with
  | nil => exact Text.cleanCut_of_notMem (by simp) _
  | cons l ls ih =>
    rintro ⟨hlast, hhead⟩
    rw [texts_cons, List.getLast?_append] at hlast
    cases hls : texts ls with
    | nil =>
      refine h.1 ⟨by simpa [hls] using hlast, ?_⟩
      have e : texts (ls ++ ls') ++ back = texts ls' ++ back := by simp [hls]
      exact (congrArg List.head? e).trans hhead
    | cons g run =>
      refine ih h.2 ⟨?_, hhead⟩
      simpa [hls, List.getLast?_cons] using hlast

theorem cleanCuts_of_forall {ls : List Lexeme} (h : ∀ l ∈ ls, ∀ g ∈ l.text, g.isBreak = false)
    (back : Text) : CleanCuts back ls := by
  induction ls with
  | nil => trivial
  | cons l ls ih =>
    refine ⟨Text.cleanCut_of_notMem (fun hmem => ?_) _,
      ih fun x hx => h x (List.mem_cons_of_mem l hx)⟩
    simpa [Glyph.isBreak] using h l List.mem_cons_self _ hmem

theorem Opens.cleanCuts {back : Text} {here : List Lexeme} (h : Opens d fresh t here back) :
    CleanCuts back here := by
  have plain := h.not_isBreak_of_kind
  cases h with
  | pairBreak => exact ⟨by rintro ⟨hlast, -⟩; simp [text] at hlast, trivial⟩
  | lineBreak c back isBreak alone => exact ⟨alone, trivial⟩
  | string q content back quote =>
    have hq : q ≠ .char '\n' := by rcases quote with rfl | rfl <;> simp
    refine ⟨?_, Text.cleanCut_of_head? (by simpa [text] using hq) _, ?_, trivial⟩ <;>
      refine Text.cleanCut_of_notMem ?_ _ <;>
      rcases quote with rfl | rfl <;> simp [text]
  | unclosed q content quote =>
    refine ⟨Text.cleanCut_of_notMem ?_ _, Text.cleanCut_of_head? (by simp) _, trivial⟩
    rcases quote with rfl | rfl <;> simp [text]
  | _ => exact cleanCuts_of_forall (by simpa using plain) _

theorem Scans.cleanCuts (h : Scans d fresh t ls) : CleanCuts [] ls := by
  induction h with
  | nil => trivial
  | step opens scans ih =>
    refine CleanCuts.append ?_ ih
    rw [List.append_nil, scans.texts_eq]
    exact opens.cleanCuts

/-- No line end is taken apart between two lexemes. -/
theorem cleanCut_of_scan {front back : List Lexeme} (h : scan d fresh t = front ++ back) :
    (texts front).CleanCut (texts back) := by
  have := (scans_scan d fresh t).cleanCuts
  rw [h] at this
  simpa using this.cleanCut

/-! ## Lines that stand alone -/

section LineFeed

variable (rest more : Text) {p : Glyph → Bool}

theorem any_head?_append_lineFeed (hp : p (.char '\n') = false) :
    (rest ++ .char '\n' :: more).head?.any p = rest.head?.any p := by
  cases rest <;> simp [hp]

theorem takeWhile_append_lineFeed (hp : p (.char '\n') = false) :
    (rest ++ .char '\n' :: more).takeWhile p = rest.takeWhile p := by
  induction rest with
  | nil => simp [hp]
  | cons g rest ih => cases hg : p g <;> simp [hg, ih]

end LineFeed

/-- A string literal ends at its quote, whatever comes behind. -/
theorem stringLiteral_append {q : Glyph} {rest : Text} (more : Text)
    (closed : ∀ content, unclosed content ∉ stringLiteral q rest) :
    stringLiteral q (rest ++ more) = stringLiteral q rest := by
  simp only [stringLiteral] at closed ⊢
  by_cases h : (rest.takeWhile (· != q)).length < rest.length
  · have content : (rest ++ more).takeWhile (· != q) = rest.takeWhile (· != q) := by
      rw [List.takeWhile_append, if_neg (by omega)]
    rw [content, if_pos h, if_pos (by rw [List.length_append]; omega)]
  · rw [if_neg h] at closed
    exact absurd (by simp) (closed (rest.takeWhile (· != q)))

theorem texts_name (d : Dialect) (fresh : Bool) (c : Glyph) (rest : Text) :
    texts (name d fresh c rest) = c :: rest.takeWhile d.isSymbol := by
  cases fresh <;> simp [name, apply_ite texts, text]

/-- The outcome of a test stays the same if that of each branch does. -/
theorem ite_eq_of_ite_eq {α : Type} {P : Prop} [Decidable P] {x x' y y' z : α}
    (h : (if P then x else y) = z) (hx : P → x = z → x' = z) (hy : y = z → y' = z) :
    (if P then x' else y') = z := by
  split at h
  · rename_i hP
    rw [if_pos hP, hx hP h]
  · rename_i hP
    rw [if_neg hP, hy h]

/-- More text changes nothing about what a character opens, if it changes neither what follows the
character nor the run that the lexemes cover, and no literal is left open. Tests and runs that a
line feed satisfies do not occur. -/
theorem next_append {c : Glyph} {rest more : Text}
    (head : ∀ p : Glyph → Bool, p (.char '\n') = false →
      (rest ++ more).head?.any p = rest.head?.any p)
    (pair : c.is '\r' = true →
      (rest ++ more).head?.any (·.is '\n') = rest.head?.any (·.is '\n'))
    (run : ∀ p : Glyph → Bool, p (.char '\n') = false →
      texts (next d fresh c rest) = c :: rest.takeWhile p →
        (rest ++ more).takeWhile p = rest.takeWhile p)
    (closed : ∀ content, unclosed content ∉ next d fresh c rest) :
    next d fresh c (rest ++ more) = next d fresh c rest := by
  have symbol : d.isSymbol (.char '\n') = false := by cases d <;> decide
  have opensName : d.opensName c (rest ++ more).head? = d.opensName c rest.head? := by
    simp only [Dialect.opensName, head _ symbol]
  have two {p : Glyph → Bool} (h : rest.head?.any p = true) :
      (rest ++ more).take 1 = rest.take 1 := by
    cases rest <;> simp_all
  generalize hnext : next d fresh c rest = here at run closed ⊢
  have runToken {p : Glyph → Bool} {k : TokenKind} (hp : p (.char '\n') = false)
      (htoken : [token k (c :: rest.takeWhile p)] = here) :
      (rest ++ more).takeWhile p = rest.takeWhile p :=
    run p hp (by simp [← htoken, text])
  simp only [next, restOfLine, opensName, head (·.is '=') rfl, head (·.is '/') rfl,
    head (fun g => g.is '<' || g.is '>') rfl, head (·.is '+') rfl, head (·.isHex) rfl,
    head (·.isBinary) rfl] at hnext ⊢
  refine ite_eq_of_ite_eq hnext (fun _ hnext => ?_) fun hnext => ?_
  · refine (congrArg (fun t => [token .lineBreak t]) ?_).trans hnext
    refine ite_congr ?_ (fun follows => ?_) fun _ => rfl
    · cases hreturn : c.is '\r' with
      | false => rfl
      | true => rw [pair hreturn]
    · rw [two (Bool.and_eq_true_iff.1 follows).2]
  refine ite_eq_of_ite_eq hnext (fun comment hnext => ?_) fun hnext => ?_
  · rw [runToken rfl hnext, hnext]
  refine ite_eq_of_ite_eq hnext (fun half hnext => ?_) fun hnext => ?_
  · rw [two (Bool.and_eq_true_iff.1 half).2, hnext]
  refine ite_eq_of_ite_eq hnext (fun preprocessor hnext => ?_) fun hnext => ?_
  · rw [runToken rfl hnext, hnext]
  refine ite_eq_of_ite_eq hnext (fun label hnext => ?_) fun hnext => ?_
  · rw [two (Bool.and_eq_true_iff.1 (Bool.and_eq_true_iff.1 label).1).2, hnext]
  refine ite_eq_of_ite_eq hnext (fun _ hnext => ?_) fun hnext => ?_
  · subst hnext
    simp only [name, run _ symbol (texts_name d fresh c rest), head _ symbol]
  refine ite_eq_of_ite_eq hnext (fun directive hnext => ?_) fun hnext => ?_
  · rw [runToken symbol hnext, hnext]
  refine ite_eq_of_ite_eq hnext (fun quote hnext => ?_) fun hnext => ?_
  · subst hnext
    exact stringLiteral_append more closed
  refine ite_eq_of_ite_eq hnext (fun decimal hnext => ?_) fun hnext => ?_
  · rw [runToken rfl hnext, hnext]
  refine ite_eq_of_ite_eq hnext (fun hexadecimal hnext => ?_) fun hnext => ?_
  · rw [runToken rfl hnext, hnext]
  refine ite_eq_of_ite_eq hnext (fun binary hnext => ?_) fun hnext => hnext
  rw [runToken rfl hnext, hnext]

/-- A line feed behind the text changes nothing about what its first character opens. -/
theorem next_append_lineFeed {c : Glyph} {rest : Text} (more : Text)
    (closed : ∀ content, unclosed content ∉ next d fresh c rest)
    (noReturn : (c :: rest).getLast? ≠ some (.char '\r')) :
    next d fresh c (rest ++ .char '\n' :: more) = next d fresh c rest := by
  refine next_append (fun p hp => any_head?_append_lineFeed rest more hp) (fun hreturn => ?_)
    (fun p hp _ => takeWhile_append_lineFeed rest more hp) closed
  obtain rfl := Glyph.is_iff.1 hreturn
  cases rest with
  | nil => simp at noReturn
  | cons g rest => rfl

/-- The lines in front of a line feed are scanned as if they stood alone, and so are the lines
behind it, unless a string literal reaches across or the line feed is half of a pair. -/
theorem scan_append_lineFeed (more : Text)
    (closed : ∀ content, unclosed content ∉ scan d fresh t)
    (noReturn : t.getLast? ≠ some (.char '\r')) :
    scan d fresh (t ++ .char '\n' :: more) =
      scan d fresh t ++ token .lineBreak [.char '\n'] :: scan d true more := by
  fun_induction scan d fresh t with
  | case1 fresh =>
    rw [List.nil_append, scan]
    rfl
  | case2 fresh c rest here ih =>
    obtain ⟨back, opens⟩ := exists_opens d fresh c rest
    have split : c :: rest = texts here ++ back := opens.texts_append
    have hback : rest.drop ((texts here).length - 1) = back := drop_texts_next split
    rw [hback] at closed ih ⊢
    have same : next d fresh c (rest ++ .char '\n' :: more) = here :=
      next_append_lineFeed more (fun x hx => closed x (List.mem_append_left _ hx)) noReturn
    have hmore : (rest ++ .char '\n' :: more).drop ((texts here).length - 1) =
        back ++ .char '\n' :: more := by
      rw [← same]
      refine drop_texts_next ?_
      rw [same, ← List.append_assoc, ← split, List.cons_append]
    have noReturn' : back.getLast? ≠ some (.char '\r') := by
      intro hlast
      rw [split, List.getLast?_append, hlast] at noReturn
      exact noReturn rfl
    rw [List.cons_append, scan, same, hmore,
      ih (fun x hx => closed x (List.mem_append_right _ hx)) noReturn', List.append_assoc]

end Asm6502.Lexeme
