import Asm6502.Proofs.DefinitionSites

/-!
# The sigils of references

The sigil of a reference is a token of its own. The name that it belongs to is the very next token,
and follows it directly. A question that is asked at the sigil is therefore a question about that
name, and has the same answer as at the name itself.

## Main definitions

- `Token.IsSigilOf`: the sigil stands directly in front of the name.
- `SymbolIndex.SameAnswers`: the questions about symbols have the same answers at two positions.

## Main statements

- `Lexeme.Opens.of_reference`: the production of a sigil.
- `SymbolIndex.exists_isSigilOf`: the name behind a sigil.
- `SymbolIndex.sameAnswers_of_symbolAt`: positions with the same symbol have the same answers.
-/

namespace Asm6502

/-- The sigil `t` stands directly in front of the name `u`. It is a plus sign that opens its line,
in TMPx a number sign, or in Kick Assembler an exclamation mark that does not open its line. -/
structure Token.IsSigilOf (d : Dialect) (t u : Token) : Prop where
  sigil : t.text = [.char '+'] ∧ t.first = true ∨ t.text = [.char '#'] ∧ d = .tmpx ∨
    t.text = [.char '!'] ∧ d = .kick ∧ t.first = false
  identifier : u.kind = .identifier
  offset : u.offset = t.offset + 1
  position : u.position = t.position.right 1

namespace Lexeme

variable {d : Dialect} {fresh : Bool}

/-- A sigil is read together with the name behind it. -/
theorem Opens.of_reference {t text back : Text} {inner behind : List Lexeme}
    (h : Opens d fresh t (inner ++ token .reference text :: behind) back) :
    inner = [] ∧ (∃ name, behind = [token .identifier name]) ∧
      (text = [.char '+'] ∧ fresh = true ∨ text = [.char '#'] ∧ d = .tmpx ∨
        text = [.char '!'] ∧ d = .kick ∧ fresh = false) := by
  generalize hhere : inner ++ token .reference text :: behind = here at h
  cases h with
  | reference c run back longest nonempty sigil =>
    obtain ⟨rfl, rfl, rfl⟩ : inner = [] ∧ text = [c] ∧ behind = [token .identifier run] := by
      rcases inner with _ | ⟨x, _ | ⟨y, inner⟩⟩ <;> simp_all
    refine ⟨rfl, ⟨run, rfl⟩, ?_⟩
    simpa using sigil
  | _ => rcases inner with _ | ⟨x, _ | ⟨y, _ | ⟨z, inner⟩⟩⟩ <;> simp at hhere

end Lexeme

namespace SymbolIndex

variable {d : Dialect} {source : Bytes} {i : Nat} {t u : Token}

/-- The next token behind a sigil is the name that it belongs to. -/
theorem exists_isSigilOf (ht : (parse d source).tokens[i]? = some t) (hkind : t.kind = .reference) :
    ∃ u, (parse d source).tokens[i + 1]? = some u ∧ t.IsSigilOf d u := by
  rw [← Array.getElem?_toList, tokens_parse] at ht ⊢
  obtain ⟨front, l, after, hls, hlength, htoken⟩ := Lexeme.exists_of_getElem?_tokens ht
  obtain ⟨k, hk, rfl⟩ := Option.map_eq_some_iff.1 htoken
  obtain rfl : k = .reference := hkind
  obtain ⟨text, rfl⟩ := Lexeme.eq_token_of_kind? hk (by decide)
  have scans := Lexeme.scans_scan d true (Text.decode source)
  rw [← lexemes, hls] at scans
  obtain ⟨outer, inner, behind, later, _, _, rfl, rfl, opens⟩ := scans.exists_production
  obtain ⟨rfl, ⟨name, rfl⟩, sigil⟩ := opens.of_reference
  rw [List.append_nil] at hls hlength
  -- the name is in the same production, so no lexeme comes between
  have hnext : (Lexeme.tokens 0 .origin true (lexemes d source))[i + 1]? =
      some ⟨.identifier, 0 + (Lexeme.texts outer).size + text.size,
        (Lexeme.walk .origin outer).advance text, name, false⟩ := by
    rw [hls, Lexeme.tokens_append, List.getElem?_append_right (by omega), hlength,
      Nat.add_sub_cancel_left]
    rfl
  have plain : text.size = 1 ∧ ∀ p : Position, p.advance text = p.right 1 := by
    rcases sigil with ⟨rfl, -⟩ | ⟨rfl, -⟩ | ⟨rfl, -⟩ <;> exact ⟨rfl, fun _ => rfl⟩
  refine ⟨_, hnext, ?_, rfl, ?_, ?_⟩
  · simpa [Lexeme.text] using sigil
  · simp [plain.1]
  · simp [plain.2]

/-! ## Questions about symbols -/

/-- The questions about symbols have answers at both positions, and these are the same. -/
structure SameAnswers (ix : SymbolIndex) (p q : Position) : Prop where
  hover : ∃ hover?, ix.hoverAt p = .ok hover? ∧ ix.hoverAt q = .ok hover?
  definition : ∀ uri, ∃ l?, ix.definitionAt uri p = .ok l? ∧ ix.definitionAt uri q = .ok l?
  references : ∀ uri withDeclarations, ∃ ls, ix.referencesAt uri p withDeclarations = .ok ls ∧
    ix.referencesAt uri q withDeclarations = .ok ls

variable {p q pos : Position} {name : Text} {j : Nat}

/-- Where a symbol is defined depends on nothing but its name. -/
theorem definitionAt_congr (hp : (parse d source).symbolAt p = .ok (some (name, j)))
    (hq : (parse d source).symbolAt q = .ok (some (name, j))) (uri : String) :
    (parse d source).definitionAt uri p = (parse d source).definitionAt uri q := by
  have noFile {t : Token} (hkind : t.kind = .identifier ∨ t.kind = .reference) :
      t.kind ≠ .string := by
    rcases hkind with hkind | hkind <;> simp [hkind]
  obtain ⟨⟨i, t, hat, ht, hkind⟩, -⟩ := exists_token_of_symbolAt hp
  obtain ⟨⟨i', t', hat', ht', hkind'⟩, -⟩ := exists_token_of_symbolAt hq
  simp only [definitionAt, hat, hat', Checked.ok_bind, Checked.entry_eq_ok_iff.2 ht,
    Checked.entry_eq_ok_iff.2 ht', if_neg (noFile hkind), if_neg (noFile hkind'), hp, hq]

theorem sameAnswers_of_symbolAt (hp : (parse d source).symbolAt p = .ok (some (name, j)))
    (hq : (parse d source).symbolAt q = .ok (some (name, j))) :
    (parse d source).SameAnswers p q where
  hover := by
    obtain ⟨text, htext, -⟩ := (sound_parse d source).describeSymbol name
    obtain ⟨-, u, hu, -⟩ := exists_token_of_symbolAt hp
    exact ⟨_, hoverAt_eq hp hu htext, hoverAt_eq hq hu htext⟩
  definition uri := by
    obtain ⟨l?, hl, -⟩ := (sound_parse d source).definitionAt uri p
    refine ⟨l?, hl, ?_⟩
    rw [← definitionAt_congr hp hq, hl]
  references uri withDeclarations := by
    obtain ⟨ls, hls, -⟩ := (sound_parse d source).referencesAt uri p withDeclarations
    refine ⟨ls, hls, ?_⟩
    rw [← hls, referencesAt, referencesAt, hp, hq]

theorem symbolAt_sigil (ht : (parse d source).tokens[i]? = some t) (hkind : t.kind = .reference)
    (hu : (parse d source).tokens[i + 1]? = some u) (hname : u.kind = .identifier) :
    (parse d source).symbolAt t.position = .ok (some (u.text, i + 1)) := by
  have hat := tokenAt_position ht (by simp [hkind])
  have hlt : i + 1 < (parse d source).tokens.size := (Array.getElem?_eq_some_iff.1 hu).1
  have hentry : Checked.entry (parse d source).tokens (i + 1) = .ok u :=
    Checked.entry_eq_ok_iff (i := i + 1) |>.2 hu
  simp [symbolAt, hat, Checked.entry_eq_ok_iff.2 ht, hentry, hkind, hlt, hname]

/-- A sigil covers the position that it starts at, and no other. -/
theorem covers_sigil_iff (hkind : t.kind = .reference) (h : t.IsSigilOf d u) :
    t.Covers pos ↔ pos = t.position := by
  have hspan : t.span = ⟨t.position, t.position.right 1⟩ := by
    rw [Token.span]
    rcases h.sigil with ⟨htext, -⟩ | ⟨htext, -⟩ | ⟨htext, -⟩ <;> rw [htext] <;> rfl
  simp only [Token.Covers, hspan, Position.right, hkind]
  constructor
  · rintro ⟨-, hline, hle, hlt⟩
    have hchar : pos.char = t.position.char := by omega
    calc pos = ⟨pos.line, pos.char⟩ := rfl
      _ = ⟨t.position.line, t.position.char⟩ := by rw [hline, hchar]
  · rintro rfl
    simp

/-- The sigil of a reference is one character. The next token is a name, which follows it directly
on the same line, and all questions that are asked at the sigil have the answers that they have at
the start of the name. -/
theorem sigil_stands_for_name (d : Dialect) (source : Bytes) (i : Nat) (t : Token)
    (ht : (parse d source).tokens[i]? = some t) (hkind : t.kind = .reference) :
    let ix := parse d source
    ∃ u, ix.tokens[i + 1]? = some u ∧ t.IsSigilOf d u ∧ t.length = 1 ∧ u.offset = t.stop ∧
      u.position.line = t.position.line ∧
      (∀ pos, ix.tokenAt pos = .ok (some i) ↔ pos = t.position) ∧
      ix.tokenAt u.position = .ok (some (i + 1)) ∧ ix.SameAnswers t.position u.position := by
  intro ix
  obtain ⟨u, hu, sigil⟩ := exists_isSigilOf ht hkind
  have hlength : t.length = 1 := by
    rw [Token.length]
    rcases sigil.sigil with ⟨htext, -⟩ | ⟨htext, -⟩ | ⟨htext, -⟩ <;> rw [htext] <;> rfl
  refine ⟨u, hu, sigil, hlength, ?_, ?_, fun pos => ?_, ?_, ?_⟩
  · rw [Token.stop, hlength, sigil.offset]
  · rw [sigil.position]
    rfl
  · rw [tokenAt_eq_some_iff, ← covers_sigil_iff hkind sigil]
    constructor
    · rintro ⟨s, hs, hcovers⟩
      obtain rfl : t = s := Option.some.inj (ht.symm.trans hs)
      exact hcovers
    · exact fun hcovers => ⟨t, ht, hcovers⟩
  · exact tokenAt_position hu (by simp [sigil.identifier])
  · exact sameAnswers_of_symbolAt (symbolAt_sigil ht hkind hu sigil.identifier)
      (symbolAt_position hu sigil.identifier)

/-- The exclamation mark in front of a name, and the name. -/
theorem sigil_stands_for_name_marked_label :
    let ix := parse .kick markedLabel
    let t : Token := ⟨.reference, 7, ⟨1, 4⟩, [.char '!'], false⟩
    let u : Token := ⟨.identifier, 8, ⟨1, 5⟩, [.char 'a'], false⟩
    ix.tokens[3]? = some t ∧ t.kind = .reference ∧ ix.tokens[4]? = some u ∧ t.IsSigilOf .kick u ∧
      (∀ pos, ix.tokenAt pos = .ok (some 3) ↔ pos = ⟨1, 4⟩) ∧ ix.SameAnswers ⟨1, 4⟩ ⟨1, 5⟩ := by
  intro ix t u
  have token (i : Nat) : ix.tokens[i]? = ix.tokens.toList[i]? := Array.getElem?_toList.symm
  have ht : ix.tokens[3]? = some t := by
    rw [token, tokens_markedLabel]
    rfl
  have hu : ix.tokens[4]? = some u := by
    rw [token, tokens_markedLabel]
    rfl
  obtain ⟨u', hu', sigil, -, -, -, only, -, same⟩ :=
    sigil_stands_for_name .kick markedLabel 3 t ht rfl
  obtain rfl : u = u' := Option.some.inj (hu.symm.trans hu')
  exact ⟨ht, rfl, hu, sigil, only, same⟩

end SymbolIndex

end Asm6502
