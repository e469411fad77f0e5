import Asm6502.Proofs.Occurrences

/-!
# Where symbols are defined

Three questions can be asked about a symbol: where it is defined, where it occurs, and what there is
to say about it. They agree on the definition that is meant.

## Main definitions

- `SymbolIndex.Names`: the token that names a definition.
- `SymbolIndex.Describes`: the text that tells of a definition.

## Main statements

- `SymbolIndex.exists_names_of_resolve`: what a name refers to is a definition with a spelling of
  that name.
- `SymbolIndex.exists_symbol_of_definitionAt`, `SymbolIndex.definitionAt_eq`: the place of a
  definition is that of its name.
- `SymbolIndex.hoverAt_eq`: what is said about a symbol.
-/

namespace Asm6502

open Checked (bind_eq_ok_iff)

theorem Hover.definition_eq (kind : DefinitionKind) (name : Text) (row : Int) (line : Text) :
    Hover.definition kind name row line =
      Text.ofString s!"{kind.name} `" ++ name ++
        Text.ofString s!"`\n\nDefined on line {row + 1}:\n\n```\n" ++ line ++
        Text.ofString "\n```" := by
  simp [Hover.definition, Hover.code, Text.ofString, toString]

namespace SymbolIndex

variable {ix : SymbolIndex} {d : Dialect} {source : Bytes} {pos : Position} {name : Text}
  {s : Statement} {t : Token} {n j : Nat}

/-! ## Names of definitions -/

/-- The symbol that the statement defines is named by the identifier `t`, which is the token at
index `n`, and no statement behind it defines this symbol again. -/
structure Names (ix : SymbolIndex) (s : Statement) (n : Nat) (t : Token) : Prop where
  role : ∃ kind, s.role = .definition kind n
  token : ix.tokens[n]? = some t
  identifier : t.kind = .identifier
  lookup : ix.lookup t.text = .ok (some s)

theorem Names.name?_eq (h : ix.Names s n t) : s.name? = some n := by
  obtain ⟨kind, hrole⟩ := h.role
  simp [Statement.name?, hrole]

theorem Names.nameToken (h : ix.Names s n t) : ix.nameToken s = .ok t := by
  rw [SymbolIndex.nameToken, h.name?_eq]
  exact Checked.entry_eq_ok_iff.2 h.token

theorem Names.statementName (h : ix.Names s n t) : ix.statementName s = t.text :=
  statementName_eq h.name?_eq h.token

theorem Names.resolve (h : ix.Names s n t) : ix.resolve t.text = .ok (some s) := by
  rw [SymbolIndex.resolve, h.lookup]
  rfl

theorem isDefinition_of_lookup (h : (parse d source).lookup name = .ok (some s)) :
    s ∈ (parse d source).statements.toList ∧ s.isDefinition = true ∧
      (parse d source).statementName s = name := by
  rcases lookup_eq d source name with ⟨i, s', ⟨hs, hdef, hname, -⟩, hlookup⟩ | ⟨-, hlookup⟩
  · obtain rfl : s = s' := by simpa using h.symm.trans hlookup
    exact ⟨Array.mem_toList_iff.2 (Array.mem_of_getElem? hs), hdef, hname⟩
  · cases h.symm.trans hlookup

theorem exists_names_of_lookup (h : (parse d source).lookup name = .ok (some s)) :
    ∃ n t, (parse d source).Names s n t ∧ t.text = name := by
  obtain ⟨hs, hdef, hname⟩ := isDefinition_of_lookup h
  obtain ⟨kind, n, t, hrole, ht, hkind, htext⟩ := exists_identifier_of_isDefinition hs hdef
  obtain rfl : t.text = name := htext.symm.trans hname
  exact ⟨n, t, ⟨⟨kind, hrole⟩, ht, hkind, h⟩, rfl⟩

/-- What a name refers to is defined under one of the spellings of that name. -/
theorem exists_names_of_resolve (h : (parse d source).resolve name = .ok (some s)) :
    ∃ n t names, (parse d source).Names s n t ∧
      (parse d source).spellings name = .ok names ∧ t.text ∈ names := by
  obtain ⟨s?, hlookup, h⟩ := bind_eq_ok_iff.1 h
  cases s? with
  | some s' =>
    obtain rfl : s' = s := by simpa [pure, Except.pure] using h
    obtain ⟨n, t, names, rfl⟩ := exists_names_of_lookup hlookup
    obtain ⟨spellings, hspellings, -⟩ := (sound_parse d source).spellings t.text
    exact ⟨n, t, spellings, names, hspellings, mem_spellings hspellings⟩
  | none =>
    dsimp only at h
    split at h
    · rename_i hd
      obtain rfl : d = .kick := hd
      obtain ⟨n, t, names, htext⟩ := exists_names_of_lookup h
      -- the name has no mark of its own, since there would be two in front of the definition
      have hname : name.unmarked = name := by
        obtain ⟨before, l, after, -, -, -, shape⟩ :=
          exists_shaped_lexeme (mem_tokens_of_getElem? names.token)
        rw [names.identifier] at shape
        simpa [htext] using shape.unmarked_unmarked
      refine ⟨n, t, [name, .char '!' :: name], names, ?_, by simp [htext]⟩
      rw [spellings_parse, hname, if_pos ⟨rfl, (isSome_lookup_iff h).1 rfl⟩]
    · cases h

/-! ## Definitions -/

/-- The place of a definition is asked for at a symbol, unless it is that of a file. -/
theorem exists_symbol_of_definitionAt {uri : String} {l : Location}
    (h : ix.definitionAt uri pos = .ok (some l))
    (hstring : ∀ i t, ix.tokenAt pos = .ok (some i) → ix.tokens[i]? = some t → t.kind ≠ .string) :
    ∃ name j s t, ix.symbolAt pos = .ok (some (name, j)) ∧ ix.resolve name = .ok (some s) ∧
      ix.nameToken s = .ok t ∧ ∃ span, ix.spanOf t = .ok span ∧ l = ⟨uri, span⟩ := by
  obtain ⟨i?, hat, h⟩ := bind_eq_ok_iff.1 h
  cases i? with
  | none => cases h
  | some i =>
    obtain ⟨t, ht, h⟩ := bind_eq_ok_iff.1 h
    rw [if_neg (hstring i t hat (Checked.entry_eq_ok_iff.1 ht))] at h
    obtain ⟨symbol?, hsymbol, h⟩ := bind_eq_ok_iff.1 h
    cases symbol? with
    | none => cases h
    | some symbol =>
      obtain ⟨s?, hresolve, h⟩ := bind_eq_ok_iff.1 h
      cases s? with
      | none => cases h
      | some s =>
        obtain ⟨t, hname, h⟩ := bind_eq_ok_iff.1 h
        obtain ⟨span, hspan, h⟩ := bind_eq_ok_iff.1 h
        obtain rfl : ⟨uri, span⟩ = l := by simpa [pure, Except.pure] using h
        exact ⟨symbol.1, symbol.2, s, t, hsymbol, hresolve, hname, span, hspan, rfl⟩

/-- The place of a definition is that of its name. -/
theorem definitionAt_eq (hsymbol : (parse d source).symbolAt pos = .ok (some (name, j)))
    (hresolve : (parse d source).resolve name = .ok (some s))
    (names : (parse d source).Names s n t) (uri : String) :
    (parse d source).definitionAt uri pos = .ok (some ⟨uri, t.span⟩) := by
  obtain ⟨⟨i, u, hat, hu, hkind⟩, -⟩ := exists_token_of_symbolAt hsymbol
  have hstring : u.kind ≠ .string := by
    rcases hkind with hkind | hkind <;> simp [hkind]
  have hspan := spanOf_eq_span (mem_tokens_of_getElem? names.token)
  simp [definitionAt, hat, Checked.entry_eq_ok_iff.2 hu, hstring, hsymbol, hresolve,
    names.nameToken, hspan]

/-! ## Hover texts -/

/-- The statement defines a symbol whose name lies at `span`, and `text` tells of it: what is
defined, the name, the line, counted from one, and what that line reads. -/
def Describes (ix : SymbolIndex) (s : Statement) (span : Span) (text : Text) : Prop :=
  ∃ kind n t line, s.role = .definition kind n ∧ ix.tokens[n]? = some t ∧
    ix.spanOf t = .ok span ∧ ix.lineText n = .ok line ∧
    text = Text.ofString s!"{kind.name} `" ++ t.text ++
      Text.ofString s!"`\n\nDefined on line {span.start.line + 1}:\n\n```\n" ++ Text.trim line ++
      Text.ofString "\n```"

theorem exists_describes (names : (parse d source).Names s n t) :
    ∃ text, (parse d source).describeDefinition s = .ok text ∧
      (parse d source).Describes s t.span text := by
  obtain ⟨kind, hrole⟩ := names.role
  obtain ⟨line, hline⟩ := (sound_parse d source).line n (Array.getElem?_eq_some_iff.1 names.token).1
  refine ⟨_, ?_, kind, n, t, line, hrole, names.token,
    spanOf_eq_span (mem_tokens_of_getElem? names.token), hline, rfl⟩
  have hline : (parse d source).lineText (((some n).map Int.ofNat).getD (-1)) = .ok line := hline
  rw [describeDefinition, names.nameToken, names.name?_eq, Checked.ok_bind, hline, Checked.ok_bind,
    names.statementName, Hover.definition_eq]
  simp only [Statement.definitionKind?, hrole]
  rfl

/-- What is said at a symbol is what there is to say about its name. -/
theorem hoverAt_eq {u : Token} {text : Text}
    (hsymbol : (parse d source).symbolAt pos = .ok (some (name, j)))
    (hu : (parse d source).tokens[j]? = some u)
    (htext : (parse d source).describeSymbol name = .ok text) :
    (parse d source).hoverAt pos = .ok (some ⟨text, u.span⟩) := by
  obtain ⟨⟨i, v, hat, hv, hkind⟩, -⟩ := exists_token_of_symbolAt hsymbol
  have hspan := spanOf_eq_span (mem_tokens_of_getElem? hu)
  have hspan' := spanOf_eq_span (mem_tokens_of_getElem? hv)
  simp [hoverAt, hat, Checked.entry_eq_ok_iff.2 hv, Checked.entry_eq_ok_iff.2 hu, hkind, hsymbol,
    htext, hspan, hspan']

/-- What is said about a name that is no mnemonic is what there is to say about its definition. -/
theorem describeSymbol_eq {text : Text} (hmnemonic : d.isMnemonic name = false)
    (hresolve : (parse d source).resolve name = .ok (some s))
    (htext : (parse d source).describeDefinition s = .ok text) :
    (parse d source).describeSymbol name = .ok text := by
  have hdialect : (parse d source).dialect = d := rfl
  simp [describeSymbol, hdialect, hmnemonic, hresolve, htext]

/-- If the definition of a symbol is found at a place, it is found there again, the place is one of
the references to the symbol, and what is said about the symbol tells of that definition. Only
mnemonics are told of as such. -/
theorem questions_agree (d : Dialect) (source : Bytes) (uri : String) (pos : Position)
    (l : Location) (found : (parse d source).definitionAt uri pos = .ok (some l))
    (noFile : ∀ i t, (parse d source).tokenAt pos = .ok (some i) →
      (parse d source).tokens[i]? = some t → t.kind ≠ .string) :
    let ix := parse d source
    ix.definitionAt uri l.span.start = .ok (some l) ∧
    (∃ ls, ix.referencesAt uri pos true = .ok ls ∧ l ∈ ls) ∧
    ∃ name j u s text, ix.symbolAt pos = .ok (some (name, j)) ∧ ix.tokens[j]? = some u ∧
      ix.resolve name = .ok (some s) ∧ ix.Describes s l.span text ∧
      (d.isMnemonic name = false → ix.hoverAt pos = .ok (some ⟨text, u.span⟩)) ∧
      (d.isMnemonic (ix.statementName s) = false →
        ix.hoverAt l.span.start = .ok (some ⟨text, l.span⟩)) := by
  intro ix
  obtain ⟨name, j, s, t', hsymbol, hresolve, hname, span, hspan, rfl⟩ :=
    exists_symbol_of_definitionAt found noFile
  obtain ⟨n, t, spellings, names, hspellings, hmem⟩ := exists_names_of_resolve hresolve
  obtain rfl : t = t' := Except.ok.inj (names.nameToken.symm.trans hname)
  have ht := mem_tokens_of_getElem? names.token
  obtain rfl : t.span = span := Except.ok.inj ((spanOf_eq_span ht).symm.trans hspan)
  obtain ⟨-, u, hu, -, -⟩ := exists_token_of_symbolAt hsymbol
  obtain ⟨text, htext, describes⟩ := exists_describes names
  -- at its name the definition is found under that name
  have hsite := symbolAt_position names.token names.identifier
  have hspells : t.spells spellings = true := Token.spells_iff.2 ⟨names.identifier, hmem⟩
  refine ⟨definitionAt_eq hsite names.resolve names uri,
    ⟨_, referencesAt_eq hsymbol hspellings uri,
      List.mem_map_of_mem (List.mem_filter.2 ⟨ht, hspells⟩)⟩,
    name, j, u, s, text, hsymbol, hu, hresolve, describes, fun hmnemonic => ?_,
    fun hmnemonic => ?_⟩
  · exact hoverAt_eq hsymbol hu (describeSymbol_eq hmnemonic hresolve htext)
  · rw [names.statementName] at hmnemonic
    exact hoverAt_eq hsite names.token (describeSymbol_eq hmnemonic names.resolve htext)

/-- The question is asked at the mark of a reference to a label that is defined with a mark. -/
theorem questions_agree_marked_label :
    let ix := parse .kick markedLabel
    let l : Location := ⟨"u", ⟨0, 0⟩, ⟨0, 2⟩⟩
    ix.definitionAt "u" ⟨1, 4⟩ = .ok (some l) ∧ ix.definitionAt "u" ⟨0, 0⟩ = .ok (some l) ∧
      (∃ ls, ix.referencesAt "u" ⟨1, 4⟩ true = .ok ls ∧ l ∈ ls) ∧
      ix.hoverAt ⟨1, 4⟩ = .ok (some ⟨Text.ofString
        "Label `!a`\n\nDefined on line 1:\n\n```\n!a\n```", ⟨1, 5⟩, ⟨1, 6⟩⟩) := by
  intro ix l
  let name : Text := [.char '!', .char 'a']
  have token (i : Nat) : ix.tokens[i]? = ix.tokens.toList[i]? := Array.getElem?_toList.symm
  have hresolve : ix.resolve [.char 'a'] = .ok (some ⟨.definition .label 0, 0, 1⟩) := by
    simp only [ix, parse, gather, lexemes_markedLabel]
    rfl
  have names : ix.Names ⟨.definition .label 0, 0, 1⟩ 0 ⟨.identifier, 0, ⟨0, 0⟩, name, true⟩ := by
    refine ⟨⟨.label, rfl⟩, by rw [token, tokens_markedLabel]; rfl, rfl, ?_⟩
    simp only [ix, parse, gather, lexemes_markedLabel]
    rfl
  have hline : ix.lineText (0 : Nat) = .ok name := by
    rw [lineText_eq names.token]
    cbv
  have found := definitionAt_eq symbolAt_markedLabel hresolve names "u"
  have noFile (i : Nat) (t : Token) (hat : ix.tokenAt ⟨1, 4⟩ = .ok (some i))
      (ht : ix.tokens[i]? = some t) : t.kind ≠ .string := by
    obtain rfl : 3 = i := by simpa using tokenAt_markedLabel.symm.trans hat
    obtain rfl : ⟨.reference, 7, ⟨1, 4⟩, [.char '!'], false⟩ = t := by
      simpa [token, ix, tokens_markedLabel] using ht
    decide
  obtain ⟨again, listed, name', j, u, s, text, hsymbol, hu, hresolve', describes, hover, -⟩ :=
    questions_agree .kick markedLabel "u" ⟨1, 4⟩ l found noFile
  obtain ⟨rfl, rfl⟩ : [.char 'a'] = name' ∧ 4 = j := by
    simpa using symbolAt_markedLabel.symm.trans hsymbol
  obtain rfl : ⟨.definition .label 0, 0, 1⟩ = s := by simpa using hresolve.symm.trans hresolve'
  obtain rfl : ⟨.identifier, 8, ⟨1, 5⟩, [.char 'a'], false⟩ = u := by
    simpa [token, ix, tokens_markedLabel] using hu
  obtain ⟨kind, n, t, line, hrole, ht, -, hline', rfl⟩ := describes
  obtain ⟨rfl, rfl⟩ : .label = kind ∧ 0 = n := by simpa using hrole
  obtain rfl : ⟨.identifier, 0, ⟨0, 0⟩, name, true⟩ = t :=
    Option.some.inj (names.token.symm.trans ht)
  obtain rfl : line = name := Except.ok.inj (hline'.symm.trans hline)
  refine ⟨found, again, listed, ?_⟩
  rw [hover (by cbv)]
  cbv

end SymbolIndex

end Asm6502
