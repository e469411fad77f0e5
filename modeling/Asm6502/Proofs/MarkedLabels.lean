import Asm6502.Proofs.Occurrences

/-!
# Labels with a mark

In Kick Assembler a name may have an exclamation mark in front only where it opens its line. What
opens a line also opens a run of tokens, and a run that opens with a name which is no mnemonic
defines that name. So every name with a mark is the name of a definition, and it is found with the
mark as well as without it.

## Main statements

- `Lexeme.getLast?_tokens_of_fresh`: the last token in front of a fresh line is a line break.
- `Statement.mem_ofTokens_of_front`: the statement of the run that a token opens.
- `SymbolIndex.exists_definition_of_first`: a name that opens its line is defined by it.
- `Lexeme.Opens.of_marked`: the production of a name with a mark.
-/

namespace Asm6502

/-! ## Fresh lines -/

namespace Lexeme

/-- As long as a line has no token, the last one in front of it is a line break. -/
theorem getLast?_tokens_of_fresh {ls : List Lexeme} (h : ls.foldl Lexeme.fresh true = true)
    (offset : Nat) (p : Position) :
    ∀ t ∈ (tokens offset p true ls).getLast?, t.kind = .lineBreak := by
  induction ls using List.reverseRecOn with
  | nil => simp [tokens]
  | append_singleton ls l ih =>
    rw [List.foldl_append, List.foldl_cons, List.foldl_nil, Lexeme.fresh] at h
    rw [tokens_append, tokens_cons, tokens, List.append_nil, token?]
    cases hk : l.kind? with
    | none =>
      rw [hk] at h
      simpa using ih h
    | some k =>
      obtain rfl : k = .lineBreak := by simpa [hk] using h
      simp

end Lexeme

namespace Statement

/-- A token opens a run if there is nothing in front of it, or a token that is in no run. -/
theorem mem_ofTokens_of_front {d : Dialect} {front back : List Token} {t : Token} {s : Statement}
    (hfront : ∀ u ∈ front.getLast?, u.inRun = false) (ht : t.inRun = true)
    (hs : ofRun? d front.length (t :: back.takeWhile Token.inRun) = some s) :
    s ∈ ofTokens d (front ++ t :: back) := by
  have hback : ∀ u ∈ (back.dropWhile Token.inRun).head?, u.inRun = false := by
    intro u hu
    have stops := List.head?_dropWhile_not Token.inRun back
    rw [Option.mem_def.1 hu] at stops
    exact stops
  have hpieces := pieces_of_isRun (List.cons_ne_nil t (back.takeWhile Token.inRun))
    (List.forall_mem_cons.2 ⟨ht, List.all_eq_true.1 List.all_takeWhile⟩) hfront hback
  rw [List.append_assoc, List.cons_append, List.takeWhile_append_dropWhile] at hpieces
  exact mem_ofPieces.2 ⟨_, _, _, hpieces, by simpa using hs⟩

/-- A run that opens with a name defines it, unless the name is a mnemonic. -/
theorem exists_ofRun?_of_name {d : Dialect} {first : Token} (hd : d ≠ .llvm)
    (hkind : first.kind = .identifier) (hmnemonic : d.isMnemonic first.text = false) (start : Nat)
    (others : List Token) : ∃ kind, ofRun? d start (first :: others) =
      some ⟨.definition kind start, start, others.length + 1⟩ := by
  have hrole : ∃ kind, nameRole? d start first others = some (.definition kind start) := by
    simp only [nameRole?, hmnemonic, Bool.false_eq_true, if_false]
    split
    · exact ⟨.constant, rfl⟩
    · exact ⟨.label, if_pos (by simp [hd])⟩
  obtain ⟨kind, hrole⟩ := hrole
  exact ⟨kind, by simp [ofRun?, hkind, hrole]⟩

end Statement

namespace SymbolIndex

variable {d : Dialect} {source : Bytes} {i : Nat} {t : Token}

/-- The tokens in front of one that opens its line end with a line break. -/
theorem exists_front_of_first (ht : (parse d source).tokens[i]? = some t)
    (hfirst : t.first = true) : ∃ front back, (parse d source).tokens.toList = front ++ t :: back ∧
      front.length = i ∧ ∀ u ∈ front.getLast?, u.kind = .lineBreak := by
  rw [← Array.getElem?_toList] at ht
  rw [tokens_parse] at ht ⊢
  obtain ⟨front, l, back, hls, hlength, htoken⟩ := Lexeme.exists_of_getElem?_tokens ht
  have hfresh : front.foldl Lexeme.fresh true = true := by
    obtain ⟨k, -, rfl⟩ := Option.map_eq_some_iff.1 htoken
    exact (Bool.and_eq_true_iff.1 hfirst).1
  have hts := Lexeme.tokens_append 0 .origin true front (l :: back)
  rw [← hls, Lexeme.tokens_cons, htoken] at hts
  exact ⟨_, _, hts, hlength, Lexeme.getLast?_tokens_of_fresh hfresh 0 .origin⟩

/-- A name that opens its line is defined by the line, unless it is a mnemonic. LLVM is left out,
since there a label has to stand alone. -/
theorem exists_definition_of_first (hd : d ≠ .llvm) (ht : (parse d source).tokens[i]? = some t)
    (hkind : t.kind = .identifier) (hfirst : t.first = true)
    (hmnemonic : d.isMnemonic t.text = false) :
    ∃ s ∈ (parse d source).statements.toList,
      s.start = i ∧ ∃ kind, s.role = .definition kind i := by
  obtain ⟨front, back, hts, rfl, hfront⟩ := exists_front_of_first ht hfirst
  obtain ⟨kind, hs⟩ := Statement.exists_ofRun?_of_name hd hkind hmnemonic front.length
    (back.takeWhile Token.inRun)
  have hmem := Statement.mem_ofTokens_of_front (fun u hu => by simp [Token.inRun, hfront u hu])
    (by simp [Token.inRun, hkind]) hs
  rw [← hts, ← statements_parse] at hmem
  exact ⟨_, hmem, rfl, kind, rfl⟩

end SymbolIndex

/-! ## Marks -/

/-- No mnemonic starts with a mark. -/
theorem Dialect.not_isMnemonic_marked (d : Dialect) (run : Text) :
    d.isMnemonic (.char '!' :: run) = false := by
  have unmarked : ∀ name ∈ nmosMnemonics ++ cmosMnemonics ++ undocumentedMnemonics,
      name.toList.head? ≠ some '!' := by
    decide +kernel
  rw [isMnemonic, ← Bool.not_eq_true, List.contains_iff_mem]
  intro hmem
  refine unmarked (Text.lowercase (Text.shown (.char '!' :: run))) ?_ ?_
  · cases d <;> simp only [instructionSet, List.mem_append] at hmem ⊢ <;> grind
  · simp only [Text.lowercase, Text.shown, String.toList_ofList, List.map_cons, List.head?_cons]
    rfl

/-- A name that has a mark in front opens its line, unless the mark is all there is. -/
theorem Lexeme.Opens.of_marked {d : Dialect} {fresh : Bool} {t run back : Text}
    {inner behind : List Lexeme}
    (h : Opens d fresh t (inner ++ token .identifier (.char '!' :: run) :: behind) back)
    (hrun : run ≠ []) : inner = [] ∧ fresh = true := by
  generalize hhere : inner ++ token .identifier (.char '!' :: run) :: behind = here at h
  -- behind a sigil there are only characters of names
  have unmarked {name back : Text} (longest : Text.Longest d.isSymbol name back) :
      name ≠ .char '!' :: run := by
    rintro rfl
    have := longest.all (.char '!') List.mem_cons_self
    simp [d.not_isSymbol_mark] at this
  cases h with
  | reference c name back longest =>
    have := unmarked longest
    rcases inner with _ | ⟨x, _ | ⟨y, inner⟩⟩ <;> simp_all
  | operand name back longest =>
    have := unmarked longest
    rcases inner with _ | ⟨x, _ | ⟨y, inner⟩⟩ <;> simp_all
  | name c name back longest lead =>
    obtain ⟨rfl, rfl, rfl⟩ : inner = [] ∧ c = .char '!' ∧ name = run := by
      rcases inner with _ | ⟨x, inner⟩ <;> simp_all
    rcases lead with hc | hc | ⟨hc, -⟩ | ⟨-, -, opens⟩
    · simp at hc
    · exact absurd hc (by decide)
    · simp at hc
    · exact ⟨rfl, opens hrun⟩
  | _ => rcases inner with _ | ⟨x, _ | ⟨y, _ | ⟨z, inner⟩⟩⟩ <;> simp at hhere

namespace SymbolIndex

variable {source : Bytes} {i : Nat} {t : Token} {run : Text}

theorem first_of_marked {d : Dialect} (ht : (parse d source).tokens[i]? = some t)
    (hkind : t.kind = .identifier) (htext : t.text = .char '!' :: run) (hrun : run ≠ []) :
    t.first = true := by
  rw [← Array.getElem?_toList, tokens_parse] at ht
  obtain ⟨front, l, after, hls, -, htoken⟩ := Lexeme.exists_of_getElem?_tokens ht
  obtain ⟨k, hk, rfl⟩ := Option.map_eq_some_iff.1 htoken
  obtain rfl : k = .identifier := hkind
  obtain ⟨text, rfl⟩ := Lexeme.eq_token_of_kind? hk (by decide)
  obtain rfl : text = .char '!' :: run := htext
  have scans := Lexeme.scans_scan d true (Text.decode source)
  rw [← lexemes, hls] at scans
  obtain ⟨outer, inner, behind, later, _, _, rfl, rfl, opens⟩ := scans.exists_production
  obtain ⟨rfl, hfresh⟩ := opens.of_marked hrun
  simpa using hfresh

/-- In Kick Assembler every name with a mark in front opens its line, and the line defines it.
Looking it up gives its last definition. Without the mark it stands for that definition as well,
unless the name is also defined without a mark. -/
theorem marked_name_defined (source : Bytes) (i : Nat) (t : Token) (run : Text)
    (ht : (parse .kick source).tokens[i]? = some t) (hkind : t.kind = .identifier)
    (htext : t.text = .char '!' :: run) (hrun : run ≠ []) :
    let ix := parse .kick source
    t.first = true ∧
    (∃ s ∈ ix.statements.toList, s.start = i ∧ ∃ kind, s.role = .definition kind i) ∧
    (∃ j s, ix.IsLastDefinition t.text j s ∧ ix.lookup t.text = .ok (some s)) ∧
    ∃ j s, ix.resolve run = .ok (some s) ∧
      (ix.IsLastDefinition run j s ∨
        run ∉ Table.keys ix.definitions ∧ ix.IsLastDefinition t.text j s) := by
  intro ix
  have hfirst := first_of_marked ht hkind htext hrun
  have hmnemonic : Dialect.kick.isMnemonic t.text = false :=
    htext ▸ Dialect.not_isMnemonic_marked .kick run
  obtain ⟨s, hs, hstart, kind, hrole⟩ :=
    exists_definition_of_first (by decide) ht hkind hfirst hmnemonic
  have hdefined : t.text ∈ Table.keys ix.definitions := by
    refine mem_keys_definitions_iff.2 ⟨s, hs, ?_, statementName_eq ?_ ht⟩
    · simp [Statement.isDefinition, Statement.definitionKind?, hrole]
    · simp [Statement.name?, hrole]
  obtain ⟨j, last, hlast, hlookup⟩ :=
    (lookup_eq .kick source t.text).resolve_right fun h => h.1 hdefined
  refine ⟨hfirst, ⟨s, hs, hstart, kind, hrole⟩, ⟨j, last, hlast, hlookup⟩, ?_⟩
  rcases lookup_eq .kick source run with ⟨j', s', hlast', hplain⟩ | ⟨hplain, hnone⟩
  · exact ⟨j', s', by simp [resolve, ix, hplain, pure, Except.pure], .inl hlast'⟩
  · have hdialect : ix.dialect = .kick := rfl
    refine ⟨j, last, ?_, .inr ⟨hplain, hlast⟩⟩
    rw [htext] at hlookup
    simp [resolve, ix, hnone, hdialect, hlookup]

/-- The label with a mark stands in the first line, and its name alone in the second. -/
theorem marked_name_defined_label :
    let ix := parse .kick markedLabel
    let t : Token := ⟨.identifier, 0, ⟨0, 0⟩, [.char '!', .char 'a'], true⟩
    ix.tokens[0]? = some t ∧
    (∃ s ∈ ix.statements.toList, s.start = 0 ∧ ∃ kind, s.role = .definition kind 0) ∧
    (∃ s, ix.lookup [.char '!', .char 'a'] = .ok (some s)) ∧
    ∃ s, ix.resolve [.char 'a'] = .ok (some s) := by
  intro ix t
  have ht : ix.tokens[0]? = some t := by
    rw [← Array.getElem?_toList, tokens_markedLabel]
    rfl
  obtain ⟨-, defined, ⟨-, s, -, marked⟩, -, s', plain, -⟩ :=
    marked_name_defined markedLabel 0 t [.char 'a'] ht rfl rfl (by simp)
  exact ⟨ht, defined, ⟨s, marked⟩, s', plain⟩

end SymbolIndex

end Asm6502
