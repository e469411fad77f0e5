import Asm6502.Proofs.SymbolTables
import Asm6502.Proofs.TokenPlaces

/-!
# Reading line by line

Where a line feed joins two texts, each of them is read as if it stood alone. What is known about
the second one is only moved: its tokens by the bytes and lines in front of it, its statements by
the tokens, and the entries of the tables by the statements.

## Main definitions

- `Token.moved`, `Statement.moved`: tokens and statements that stand further behind.

## Main statements

- `Lexeme.tokens_moved`, `Statement.ofPieces_moved`: moving commutes with both passes.
- `SymbolIndex.lexemes_append_lineFeed`, `SymbolIndex.tokens_append_lineFeed`: the lexemes and the
  tokens of two texts joined by a line feed. The index of the whole follows from them.
-/

namespace Asm6502

namespace Token

/-- The token `bytes` bytes and `lines` lines further behind. -/
def moved (bytes lines : Nat) (t : Token) : Token :=
  { t with offset := t.offset + bytes, position := t.position.down lines }

variable (bytes lines : Nat) (t : Token)

@[simp] theorem kind_moved : (t.moved bytes lines).kind = t.kind := rfl

@[simp] theorem text_moved : (t.moved bytes lines).text = t.text := rfl

@[simp] theorem inRun_moved : (t.moved bytes lines).inRun = t.inRun := rfl

end Token

namespace Lexeme

theorem tokens_moved (bytes lines offset : Nat) (p : Position) (fresh : Bool) (ls : List Lexeme) :
    tokens (offset + bytes) (p.down lines) fresh ls =
      (tokens offset p fresh ls).map (Token.moved bytes lines) := by
  induction ls generalizing offset p fresh with
  | nil => rfl
  | cons l ls ih =>
    have htoken : token? (offset + bytes) (p.down lines) fresh l =
        (token? offset p fresh l).map (Token.moved bytes lines) := by
      simp [token?, Token.moved, Function.comp_def]
    rw [tokens_cons, tokens_cons, htoken, Position.advance_down, Nat.add_right_comm, ih,
      List.map_append, Option.toList_map]

end Lexeme

/-- What the role says of names `n` tokens further behind. -/
def Role.moved (n : Nat) : Role → Role
  | .comment => .comment
  | .definition kind name => .definition kind (name + n)
  | .inclusion name => .inclusion (name + n)

namespace Statement

/-- The statement `n` tokens further behind. -/
def moved (n : Nat) (s : Statement) : Statement :=
  ⟨s.role.moved n, s.start + n, s.count⟩

@[simp] theorem isInclusion_moved (n : Nat) (s : Statement) :
    (s.moved n).isInclusion = s.isInclusion := by
  cases hrole : s.role <;> simp [isInclusion, moved, Role.moved, hrole]

theorem role_add {r : Rule} (h : r ∈ rules) (k n : Nat) : r.role (k + n) = (r.role k).moved n := by
  simp only [rules, List.mem_cons, List.not_mem_nil, or_false] at h
  rcases h with rfl | rfl | rfl | rfl | rfl | rfl | rfl | rfl | rfl <;> rfl

section Moved

variable (d : Dialect) (start n bytes lines : Nat)

theorem nameRole?_moved (first : Token) (others : List Token) :
    nameRole? d (start + n) (first.moved bytes lines) (others.map (Token.moved bytes lines)) =
      (nameRole? d start first others).map (Role.moved n) := by
  have hequals : (others.map (Token.moved bytes lines)).head?.any (·.text == [.char '=']) =
      others.head?.any (·.text == [.char '=']) := by
    cases others <;> rfl
  simp only [nameRole?, Token.text_moved, hequals, List.isEmpty_map]
  split
  · rfl
  split
  · rfl
  split <;> rfl

theorem directiveRole?_moved (first : Token) (others : List Token) :
    directiveRole? d (start + n) (first.moved bytes lines) (others.map (Token.moved bytes lines)) =
      (directiveRole? d start first others).map (Role.moved n) := by
  cases others with
  | nil => rfl
  | cons parameter others =>
    have hrule : rule? d (first.moved bytes lines) (parameter.moved bytes lines) =
        rule? d first parameter := rfl
    simp only [directiveRole?, List.map_cons, List.head?_cons, Option.bind_some, hrule]
    cases h : rule? d first parameter with
    | none => rfl
    | some r =>
      have hr : r ∈ rules := List.mem_of_find?_eq_some h
      simp [Nat.add_right_comm start n 1, role_add hr]

/-- What a run says does not depend on where it stands. -/
theorem ofRun?_moved (run : List Token) :
    ofRun? d (start + n) (run.map (Token.moved bytes lines)) =
      (ofRun? d start run).map (moved n) := by
  cases run with
  | nil => rfl
  | cons first others =>
    cases hkind : first.kind <;>
      simp [ofRun?, hkind, nameRole?_moved, directiveRole?_moved, moved, Role.moved,
        Function.comp_def]

theorem ofPieces_moved (ps : List (List Token)) :
    ofPieces d (start + n) (ps.map (List.map (Token.moved bytes lines))) =
      (ofPieces d start ps).map (moved n) := by
  induction ps generalizing start with
  | nil => rfl
  | cons p ps ih =>
    rw [List.map_cons, ofPieces, ofPieces, ofRun?_moved, List.length_map, Nat.add_right_comm, ih,
      List.map_append, Option.toList_map]

end Moved

/-- A line break makes no statement, and what stands behind it is classified as if alone. -/
theorem ofTokens_append_moved {b : Token} (hb : b.kind = .lineBreak) (d : Dialect)
    (ts more : List Token) (bytes lines : Nat) :
    ofTokens d (ts ++ b :: more.map (Token.moved bytes lines)) =
      ofTokens d ts ++ (ofTokens d more).map (moved (ts.length + 1)) := by
  have hin : b.inRun = false := by simp [Token.inRun, hb]
  have hnone : ofRun? d ts.length [b] = none := by rw [ofRun?_singleton hin, if_neg (by simp [hb])]
  have hmore := ofPieces_moved d 0 (ts.length + 1) bytes lines (pieces more)
  rw [Nat.zero_add] at hmore
  rw [ofTokens_append_cons hin, hnone, pieces_map (Token.inRun_moved bytes lines), hmore]
  simp [ofTokens]

/-! ## Indices of moved statements -/

theorem findIdxs_congr {p q : Statement → Bool} {ss : List Statement} (h : ∀ s ∈ ss, p s = q s)
    (k : Nat) : ss.findIdxs p k = ss.findIdxs q k := by
  induction ss generalizing k with
  | nil => rfl
  | cons s ss ih =>
    rw [List.findIdxs_cons, List.findIdxs_cons, h s List.mem_cons_self,
      ih fun s' hs' => h s' (List.mem_cons_of_mem s hs')]

theorem findIdxs_append_moved {p q r : Statement → Bool} {ss more : List Statement} {n : Nat}
    (hss : ∀ s ∈ ss, p s = q s) (hmore : ∀ s, p (s.moved n) = r s) :
    (ss ++ more.map (moved n)).findIdxs p =
      ss.findIdxs q ++ (more.findIdxs r).map (· + ss.length) := by
  have hcomp : p ∘ moved n = r := funext hmore
  rw [List.findIdxs_append, findIdxs_congr hss, List.findIdxs_map, hcomp, Nat.zero_add,
    ← List.findIdxs_start]

theorem defines_append {ts : List Token} {s : Statement}
    (h : ∀ n, s.name? = some n → n < ts.length) (name : Text) (more : List Token) :
    s.defines (ts ++ more) name = s.defines ts name := by
  cases hrole : s.role with
  | definition kind n =>
    have hn : n < ts.length := h n (by simp [name?, hrole])
    simp [defines, hrole, List.getElem?_append_left hn]
  | _ => simp [defines, hrole]

theorem defines_moved (s : Statement) (name : Text) (ts more : List Token) (b : Token)
    (bytes lines : Nat) :
    (s.moved (ts.length + 1)).defines (ts ++ b :: more.map (Token.moved bytes lines)) name =
      s.defines more name := by
  cases hrole : s.role with
  | definition kind n =>
    have hn : (ts ++ b :: more.map (Token.moved bytes lines))[n + (ts.length + 1)]? =
        more[n]?.map (Token.moved bytes lines) := by
      have hindex : n + (ts.length + 1) - ts.length = n + 1 := by omega
      rw [List.getElem?_append_right (by omega), hindex, List.getElem?_cons_succ, List.getElem?_map]
    simp [defines, moved, Role.moved, hrole, hn, Function.comp_def]
  | _ => simp [defines, moved, Role.moved, hrole]

end Statement

namespace SymbolIndex

variable {d : Dialect} {s : Bytes}

/-! ## The lexemes of two texts -/

theorem exists_span_of_unclosed {ls : List Lexeme} {content : Text}
    (h : .unclosed content ∈ ls) (p : Position) : ∃ span, span ∈ Lexeme.unclosedSpans p ls := by
  induction ls generalizing p with
  | nil => simp at h
  | cons l ls ih =>
    rcases List.mem_cons.1 h with rfl | h
    · exact ⟨_, List.mem_cons_self⟩
    · obtain ⟨span, hspan⟩ := ih h (p.advance l.text)
      refine ⟨span, ?_⟩
      cases l with
      | unclosed => exact List.mem_cons_of_mem _ hspan
      | _ => exact hspan

/-- A text without remarks about unclosed strings has none. -/
theorem unclosed_notMem_lexemes
    (h : ∀ span, Diagnostic.unterminatedString span ∉ (parse d s).diagnostics) (content : Text) :
    .unclosed content ∉ lexemes d s := by
  intro hmem
  obtain ⟨span, hspan⟩ := exists_span_of_unclosed hmem .origin
  exact h span (List.mem_append_left _ (List.mem_map_of_mem hspan))

theorem getLast?_decode_ne_return (h : s.getLast? ≠ some 0x0D) :
    (Text.decode s).getLast? ≠ some (.char '\r') := by
  intro hlast
  obtain ⟨front, hfront⟩ := List.getLast?_eq_some_iff.1 hlast
  have hreturn : Text.bytes [.char '\r'] = [0x0D] := by decide
  apply h
  rw [← Text.bytes_decode s, hfront, Text.bytes_append, hreturn, List.getLast?_concat]

theorem decode_append_lineFeed (s t : Bytes) :
    Text.decode (s ++ 0x0A :: t) = Text.decode s ++ .char '\n' :: Text.decode t := by
  rw [Text.decode_append_cons (by decide), Text.decode_cons_of_lt (by decide)]
  rfl

theorem lexemes_append_lineFeed
    (closed : ∀ span, Diagnostic.unterminatedString span ∉ (parse d s).diagnostics)
    (noReturn : s.getLast? ≠ some 0x0D) (t : Bytes) :
    lexemes d (s ++ 0x0A :: t) =
      lexemes d s ++ .token .lineBreak [.char '\n'] :: lexemes d t := by
  rw [lexemes, decode_append_lineFeed]
  exact Lexeme.scan_append_lineFeed _ (unclosed_notMem_lexemes closed)
    (getLast?_decode_ne_return noReturn)

/-! ## The index of two texts -/

theorem walk_lexemes (d : Dialect) (s : Bytes) :
    Lexeme.walk .origin (lexemes d s) = Position.behind s := by
  have htexts : Lexeme.texts (lexemes d s) = Text.decode s := Lexeme.texts_scan d true _
  have hwalk : Lexeme.walk .origin (lexemes d s) = Position.origin.advance (Text.decode s) := by
    rw [← htexts]
    exact Lexeme.walk_eq_advance (List.append_nil _).symm _
  rw [hwalk, Position.advance_origin_decode]

theorem tokens_append_lineFeed
    (closed : ∀ span, Diagnostic.unterminatedString span ∉ (parse d s).diagnostics)
    (noReturn : s.getLast? ≠ some 0x0D) (t : Bytes) :
    (parse d (s ++ 0x0A :: t)).tokens.toList =
      (parse d s).tokens.toList ++ ⟨.lineBreak, s.length, Position.behind s, [.char '\n'], false⟩ ::
        (parse d t).tokens.toList.map (Token.moved (s.length + 1) (Position.lineEnds s + 1)) := by
  have hsize : (Lexeme.texts (lexemes d s)).size = s.length := by
    rw [lexemes, Lexeme.texts_scan, Text.size_decode]
  have hposition : (Position.behind s).advance [.char '\n'] =
      Position.origin.down (Position.lineEnds s + 1) := by
    simp [Position.advance_cons, Position.behind, Position.nextLine, Position.down, Position.origin,
      Glyph.isBreak]
  have hbreak (fresh : Bool) :
      Lexeme.token? s.length (Position.behind s) fresh (.token .lineBreak [.char '\n']) =
        some ⟨.lineBreak, s.length, Position.behind s, [.char '\n'], false⟩ := by
    simp [Lexeme.token?, Lexeme.text]
  simp only [tokens_parse]
  rw [lexemes_append_lineFeed closed noReturn, Lexeme.tokens_append, Lexeme.tokens_cons,
    walk_lexemes, hsize, Nat.zero_add, hbreak, ← Lexeme.tokens_moved, ← hposition, Nat.zero_add]
  rfl

/-- The index of two texts joined by a line feed, of which the first closes all its strings and does
not end with half of a line end. -/
theorem parse_append_lineFeed (d : Dialect) (s t : Bytes)
    (closed : ∀ span, Diagnostic.unterminatedString span ∉ (parse d s).diagnostics)
    (noReturn : s.getLast? ≠ some 0x0D) :
    let whole := parse d (s ++ 0x0A :: t)
    let front := parse d s
    let back := parse d t
    whole.tokens.toList =
      front.tokens.toList ++ ⟨.lineBreak, s.length, Position.behind s, [.char '\n'], false⟩ ::
        back.tokens.toList.map (Token.moved (s.length + 1) (Position.lineEnds s + 1)) ∧
    whole.statements.toList =
      front.statements.toList ++
        back.statements.toList.map (Statement.moved (front.tokens.size + 1)) ∧
    whole.references.toList =
      front.references.toList ++ back.references.toList.map (· + front.statements.size) ∧
    ∀ name, whole.definitions.find? name =
      ((back.definitions.find? name).map (· + front.statements.size)).or
        (front.definitions.find? name) := by
  intro whole front back
  have tokens := tokens_append_lineFeed closed noReturn t
  have statements : whole.statements.toList =
      front.statements.toList ++
        back.statements.toList.map (Statement.moved (front.tokens.size + 1)) := by
    simp only [whole, front, back, statements_parse, tokens]
    rw [Statement.ofTokens_append_moved rfl, Array.length_toList]
  refine ⟨tokens, statements, ?_, fun name => ?_⟩
  · simp only [whole, front, back, references_parse]
    rw [statements, Statement.findIdxs_append_moved (fun _ _ => rfl)
      (Statement.isInclusion_moved (front.tokens.size + 1)), Array.length_toList]
  · -- a statement is named by a token of its own run, which the other text does not touch
    have hfront : ∀ x ∈ front.statements.toList,
        x.defines whole.tokens.toList name = x.defines front.tokens.toList name := by
      intro x hx
      rw [tokens]
      refine Statement.defines_append (fun n hn => ?_) name _
      rw [statements_parse] at hx
      simpa using Statement.name_lt_of_mem_ofPieces hx hn
    have hback (x : Statement) :
        (x.moved (front.tokens.size + 1)).defines whole.tokens.toList name =
          x.defines back.tokens.toList name := by
      rw [tokens, ← Array.length_toList, Statement.defines_moved]
    simp only [whole, front, back, find?_definitions_parse]
    rw [statements, Statement.findIdxs_append_moved hfront hback, List.getLast?_append,
      List.getLast?_map, Array.length_toList]

/-- A constant is set anew behind the line feed, and a file is included. -/
theorem parse_append_lineFeed_constants :
    let s : Bytes := [0x61, 0x3D, 0x31]
    let t : Bytes := [0x61, 0x3D, 0x32, 0x0A, 0x21, 0x73, 0x72, 0x63, 0x22, 0x66, 0x22]
    let whole := parse .acme (s ++ 0x0A :: t)
    (parse .acme s).diagnostics = [] ∧ whole.statements.toList =
        [⟨.definition .constant 0, 0, 3⟩, ⟨.definition .constant 4, 4, 3⟩, ⟨.inclusion 9, 8, 2⟩] ∧
      whole.references.toList = [2] ∧ whole.definitions.find? [.char 'a'] = some 1 := by
  intro s t whole
  have hs : lexemes .acme s =
      [.token .identifier [.char 'a'], .token .operator [.char '='],
        .token .number [.char '1']] := by
    cbv
  have ht : lexemes .acme t =
      [.token .identifier [.char 'a'], .token .operator [.char '='], .token .number [.char '2'],
        .token .lineBreak [.char '\n'],
        .token .directive [.char '!', .char 's', .char 'r', .char 'c'], .skipped [.char '"'],
        .token .string [.char 'f'], .skipped [.char '"']] := by
    cbv
  have diagnostics : (parse .acme s).diagnostics = [] := by
    simp only [parse, gather_eq, hs]
    decide
  obtain ⟨-, statements, references, definitions⟩ :=
    parse_append_lineFeed .acme s t (by simp [diagnostics]) (by decide)
  refine ⟨diagnostics, statements.trans ?_, references.trans ?_, (definitions _).trans ?_⟩
  · simp only [← Array.length_toList, statements_parse, tokens_parse, hs, ht]
    decide
  · simp only [← Array.length_toList, references_parse, statements_parse, tokens_parse, hs, ht]
    decide
  · simp only [← Array.length_toList, find?_definitions_parse, statements_parse, tokens_parse, hs,
      ht]
    decide

end SymbolIndex

end Asm6502
