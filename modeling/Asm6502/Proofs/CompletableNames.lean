import Asm6502.Proofs.WordEdits

/-!
# Names that can be completed

The characters of a word are fewer than those of a name: a word is ASCII, and in LLVM a name may
have dots and dollar signs inside. A name is completed from a part of it that is a word. From any
other part it is completed only if it also starts with the word that the part ends with.

## Main definitions

- `Completion.Stops`: the characters outside every word.
- `Dialect.IsPlain`: the beginnings of names that are words.

## Main statements

- `Completion.word_append_of_stops`: what is in front of a blank does not matter.
- `SymbolIndex.word_eq_self_iff`: the beginnings of names that are taken as a whole.
- `SymbolIndex.mem_labels_iff`: when a name is suggested.
-/

namespace Asm6502

namespace Completion

/-! ## Where a word starts -/

/-- The character is outside every word. -/
def Stops (g : Glyph) : Prop :=
  isWordPart g = false ∧ isSigil g = false

theorem not_isWordPart_of_isSigil {g : Glyph} (h : isSigil g = true) : isWordPart g = false := by
  rcases isSigil_iff.1 h with rfl | rfl | rfl <;> rfl

theorem IsWord.word_eq {w : Text} (h : IsWord w) : word w = w := by
  cases h with
  | plain parts =>
    have parts' : ∀ g ∈ w.reverse, isWordPart g = true := by simpa using parts
    simp [word, List.takeWhile_eq_self_iff.2 parts', List.dropWhile_eq_nil_iff.2 parts']
  | @marked sigil run mark parts =>
    have parts' : ∀ g ∈ run.reverse, isWordPart g = true := by simpa using parts
    have other := not_isWordPart_of_isSigil mark
    simp [word, List.takeWhile_append_of_pos parts', List.dropWhile_append_of_pos parts', other,
      mark]

/-- What is in front of a character outside every word does not matter. -/
theorem word_append_of_stops {front : Text} {g : Glyph} (hlast : front.getLast? = some g)
    (stops : Stops g) (w : Text) : word (front ++ w) = word w := by
  obtain ⟨init, rfl⟩ := List.getLast?_eq_some_iff.1 hlast
  obtain ⟨hpart, hsigil⟩ := stops
  by_cases parts : ∀ g ∈ w.reverse, isWordPart g = true
  · simp [word, List.takeWhile_append_of_pos parts, List.dropWhile_append_of_pos parts, hpart,
      hsigil, List.takeWhile_eq_self_iff.2 parts, List.dropWhile_eq_nil_iff.2 parts]
  · -- the word starts inside `w`
    obtain ⟨x, rest, hdrop⟩ :=
      List.exists_cons_of_ne_nil (mt List.dropWhile_eq_nil_iff.1 parts)
    have htake : (w.reverse.takeWhile isWordPart).length ≠ w.reverse.length := by
      have hlength := congrArg List.length (@List.takeWhile_append_dropWhile _ isWordPart w.reverse)
      rw [List.length_append, hdrop, List.length_cons] at hlength
      omega
    simp only [word, List.reverse_append, List.takeWhile_append, htake, List.dropWhile_append,
      hdrop]
    rfl

theorem word_eq_nil_of_stops {w : Text} {g : Glyph} (hlast : w.getLast? = some g)
    (stops : Stops g) : word w = [] := by
  rw [← List.append_nil w, word_append_of_stops hlast stops]
  rfl

theorem stops_of_not_isAscii {g : Glyph} (h : g.isAscii = false) : Stops g := by
  constructor
  · grind [isAscii_of_isWordPart]
  · grind [isAscii_of_isSigil]

theorem stops_of_isBlank {g : Glyph} (h : g.satisfies Text.isBlank = true) : Stops g := by
  cases g with
  | char c =>
    simp only [Glyph.satisfies, Text.isBlank, Bool.or_eq_true, Bool.and_eq_true, decide_eq_true_eq,
      beq_iff_eq] at h
    refine ⟨Bool.eq_false_iff.2 fun hpart => ?_, Bool.eq_false_iff.2 fun hsigil => ?_⟩
    · have := toNat_of_isWordPart hpart
      omega
    · rcases isSigil_iff.1 hsigil with hc | hc | hc <;> cases hc <;> simp at h
  | stray b => exact ⟨rfl, rfl⟩

end Completion

/-! ## Characters of names -/

/-- ASCII characters only, and none of those that only LLVM has in names, but for a dot in front. -/
def Dialect.IsPlain (d : Dialect) (w : Text) : Prop :=
  (∀ g ∈ w, g.isAscii = true) ∧ (d = .llvm → .char '.' ∉ w.tail ∧ .char '$' ∉ w)

theorem Dialect.isWordPart_of_isSymbol {d : Dialect} {g : Glyph} (h : d.isSymbol g = true)
    (hascii : g.isAscii = true) :
    Completion.isWordPart g = true ∨ d = .llvm ∧ (g = .char '.' ∨ g = .char '$') := by
  cases g with
  | char c =>
    have hc : c.toNat < 0x80 := by simpa [Glyph.isAscii, Glyph.satisfies] using hascii
    have hletter : Text.isLetter c = c.isAlpha := if_pos hc
    have hdigit : Text.isDigit c = c.isDigit := if_pos hc
    simp only [isSymbol, Glyph.is, Glyph.satisfies, hletter, hdigit] at h
    simp only [Completion.isWordPart, Glyph.satisfies, Char.isAlphanum]
    grind
  | stray b => cases hascii

theorem Completion.IsWord.isPlain {w : Text} (h : IsWord w) (d : Dialect) : d.IsPlain w := by
  refine ⟨fun g hg => h.isAscii hg, fun _ => ?_⟩
  cases h with
  | plain parts =>
    exact ⟨fun hdot => absurd (parts _ (List.mem_of_mem_tail hdot)) (by decide),
      fun hdollar => absurd (parts _ hdollar) (by decide)⟩
  | marked mark parts =>
    refine ⟨fun hdot => absurd (parts _ hdot) (by decide), fun hdollar => ?_⟩
    rcases List.mem_cons.1 hdollar with rfl | hdollar
    · cases mark
    · exact absurd (parts _ hdollar) (by decide)

theorem Completion.isWordPart_of_mem_instructionSet {d : Dialect} {name : String}
    (h : name ∈ d.instructionSet) {g : Glyph} (hg : g ∈ Text.ofString name) : isWordPart g = true := by
  have all : ∀ name ∈ nmosMnemonics ++ cmosMnemonics ++ undocumentedMnemonics,
      ∀ g ∈ Text.ofString name, isWordPart g = true := by decide +kernel
  refine all name ?_ g hg
  cases d <;> simp only [Dialect.instructionSet, List.mem_append] at h ⊢ <;> grind

theorem Text.startsWith_append (s t : Text) : (s ++ t).startsWith s = true := by
  simp [startsWith]

namespace SymbolIndex

open Completion

variable {d : Dialect} {source : Bytes} {w rest : Text}

/-- A name is a run of symbol characters, in some dialects behind a sigil. -/
theorem exists_symbols_of_mem_keys {name : Text}
    (h : name ∈ Table.keys (parse d source).definitions) :
    ∃ run : Text, (∀ g ∈ run, d.isSymbol g = true) ∧
      (name = run ∨ d ≠ .llvm ∧ ∃ sigil, isSigil sigil = true ∧ name = sigil :: run) := by
  obtain ⟨s, hs, hdef, rfl⟩ := mem_keys_definitions_iff.1 h
  obtain ⟨kind, n, t, -, ht, hkind, hname⟩ := exists_identifier_of_isDefinition hs hdef
  obtain ⟨before, l, after, -, -, -, shape⟩ := exists_shaped_lexeme (mem_tokens_of_getElem? ht)
  rw [hkind] at shape
  obtain ⟨run, longest, ⟨htext, -⟩ | ⟨htext, hd⟩ | ⟨htext, hd⟩⟩ := shape
  · exact ⟨run, longest.all, .inl (hname.trans htext)⟩
  · refine ⟨run, longest.all, .inr ⟨?_, .char '.', rfl, hname.trans htext⟩⟩
    rcases hd with rfl | ⟨rfl, -⟩ <;> decide
  · exact ⟨run, longest.all, .inr ⟨by simp [hd], .char '!', rfl, hname.trans htext⟩⟩

/-- Of a name in plain characters every beginning is a word. -/
theorem isWord_of_isPlain (h : w ++ rest ∈ Table.keys (parse d source).definitions)
    (plain : d.IsPlain w) : IsWord w := by
  obtain ⟨run, symbols, hname⟩ := exists_symbols_of_mem_keys h
  obtain ⟨ascii, special⟩ := plain
  cases w with
  | nil => exact .plain (by simp)
  | cons g w =>
    -- behind the first character there are parts of words only
    have parts (inside : ∀ x ∈ w, x ∈ run) : ∀ x ∈ w, isWordPart x = true := by
      intro x hx
      have hword := Dialect.isWordPart_of_isSymbol (symbols x (inside x hx))
        (ascii x (List.mem_cons_of_mem g hx))
      refine hword.resolve_right ?_
      rintro ⟨hd, rfl | rfl⟩
      · exact (special hd).1 hx
      · exact (special hd).2 (List.mem_cons_of_mem g hx)
    rcases hname with rfl | ⟨hd, sigil, mark, hname⟩
    · have tail := parts fun x hx => by simp [hx]
      rcases Dialect.isWordPart_of_isSymbol (symbols g (by simp)) (ascii g (by simp)) with
        head | ⟨hd, rfl | rfl⟩
      · exact .plain (List.forall_mem_cons.2 ⟨head, tail⟩)
      · exact .marked rfl tail
      · exact absurd List.mem_cons_self (special hd).2
    · obtain ⟨rfl, rfl⟩ := List.cons.inj hname
      exact .marked mark (parts fun x hx => by simp [hx])

/-- A beginning of a name is taken as a whole if it is plain. -/
theorem word_eq_self_iff (h : w ++ rest ∈ Table.keys (parse d source).definitions) :
    word w = w ↔ d.IsPlain w := by
  refine ⟨fun hword => ?_, fun plain => (isWord_of_isPlain h plain).word_eq⟩
  obtain ⟨-, -, isWord⟩ := exists_append_word w
  exact (hword ▸ isWord).isPlain d

/-- A name is suggested if it starts with the word that is looked at, which need not be all that was
written of it. -/
theorem mem_labels_iff (h : w ++ rest ∈ Table.keys (parse d source).definitions) (hrest : rest ≠ [])
    {list : List Suggestion} (hlist : suggestions (parse d source) (word w) = .ok list) :
    w ++ rest ∈ list.map Suggestion.label ↔
      word w ≠ [] ∧ (w ++ rest).startsWith (word w) = true := by
  by_cases nonempty : word w = []
  · have none (s : Suggestion) : s ∉ list := fun hs => ((mem_of_suggestions hlist).1 hs).1 nonempty
    simp [nonempty, none]
  rw [mem_map_label_iff fun s => (mem_of_suggestions hlist).trans (and_iff_right nonempty),
    and_iff_right nonempty]
  constructor
  · rintro (known | known | ⟨-, -, starts⟩)
    · exact known.startsWith
    · -- a mnemonic is a word, and so is every part of it
      obtain ⟨-, name, hname, hlabel, -⟩ := known
      have parts : ∀ g ∈ w, isWordPart g = true := fun g hg =>
        isWordPart_of_mem_instructionSet hname (hlabel ▸ List.mem_append_left rest hg)
      rw [(IsWord.plain parts).word_eq]
      exact Text.startsWith_append w rest
    · exact starts
  · intro starts
    refine .inr (.inr ⟨h, fun heq => ?_, starts⟩)
    obtain ⟨front, hfront, -⟩ := exists_append_word w
    have hw := congrArg List.length hfront
    have hlength := congrArg List.length heq
    have := List.length_pos_iff.2 hrest
    simp only [List.length_append] at hw hlength
    omega

/-- A text that is one name defines the name. -/
theorem mem_keys_of_lexemes_eq {name : Text} (h : lexemes d source = [.token .identifier name])
    (other : d.isMnemonic name = false) : name ∈ Table.keys (parse d source).definitions := by
  let t : Token := ⟨.identifier, 0, .origin, name, true⟩
  have htokens : (parse d source).tokens.toList = [t] := by
    rw [tokens_parse, h]
    rfl
  have ht : (parse d source).tokens[0]? = some t := by
    rw [← Array.getElem?_toList, htokens]
    rfl
  refine mem_keys_definitions_iff.2
    ⟨⟨.definition .label 0, 0, 1⟩, ?_, rfl, statementName_eq rfl ht⟩
  rw [statements_parse, htokens, Statement.mem_ofTokens_iff]
  refine .inr ⟨⟨[], [t], [], rfl, rfl, rfl, ?_⟩, ?_⟩
  · simp [t, Token.inRun]
  · simp [t, Statement.ofRun?, Statement.nameRole?, other]

/-- What is written of a name behind a blank completes to the name if it is plain. In general it
does exactly if the name starts with the word at its end, which is all of it only if it is plain.
Nothing is suggested behind a character beyond ASCII and behind a dollar sign. -/
theorem completed_from_beginning (d : Dialect) (source : Bytes) (front w rest : Text)
    (blank : Glyph) (defined : w ++ rest ∈ Table.keys (parse d source).definitions)
    (begun : w ≠ []) (unfinished : rest ≠ []) (hlast : front.getLast? = some blank)
    (hblank : blank.satisfies Text.isBlank = true) :
    ∃ list : List Suggestion, suggestions (parse d source) (word (front ++ w)) = .ok list ∧
      (d.IsPlain w → w ++ rest ∈ list.map Suggestion.label) ∧
      (w ++ rest ∈ list.map Suggestion.label ↔
        word w ≠ [] ∧ (w ++ rest).startsWith (word w) = true) ∧
      (word (front ++ w) = w ↔ d.IsPlain w) ∧
      ∀ g, w.getLast? = some g → g.isAscii = false ∨ g = .char '$' → list = [] := by
  rw [word_append_of_stops hlast (stops_of_isBlank hblank)]
  obtain ⟨list, hlist, -⟩ := (sound_parse d source).suggestions (word w)
  have labels := mem_labels_iff defined unfinished hlist
  refine ⟨list, hlist, fun plain => ?_, labels, word_eq_self_iff defined, fun g hg beyond => ?_⟩
  · rw [labels, (word_eq_self_iff defined).2 plain]
    exact ⟨begun, Text.startsWith_append w rest⟩
  · have stops : Stops g := by
      rcases beyond with beyond | rfl
      · exact stops_of_not_isAscii beyond
      · exact ⟨rfl, rfl⟩
    rw [word_eq_nil_of_stops hg stops] at hlist
    exact (Except.ok.inj hlist).symm

/-- The name `aé` is completed from its first letter. -/
theorem completed_from_beginning_plain_letter :
    let source : Bytes := [0x61, 0xC3, 0xA9]
    let name : Text := [.char 'a', .char 'é']
    name ∈ Table.keys (parse .acme source).definitions ∧
    ∃ list : List Suggestion,
      suggestions (parse .acme source) (word [.char ' ', .char 'a']) = .ok list ∧
        name ∈ list.map Suggestion.label := by
  intro source name
  have defined : name ∈ Table.keys (parse .acme source).definitions :=
    mem_keys_of_lexemes_eq (by cbv) (by decide)
  obtain ⟨list, hlist, plain, -⟩ := completed_from_beginning .acme source [.char ' '] [.char 'a']
    [.char 'é'] (.char ' ') defined (by simp) (by simp) rfl rfl
  exact ⟨defined, list, hlist, plain ⟨by decide, by simp⟩⟩

/-- A name is not completed behind a letter beyond ASCII. Nor is it behind a dollar sign of LLVM. -/
theorem not_completed_from_letter :
    [.char 'é', .char 'a'] ∈ Table.keys (parse .acme [0xC3, 0xA9, 0x61]).definitions ∧
    suggestions (parse .acme [0xC3, 0xA9, 0x61]) (word [.char ' ', .char 'é']) = .ok [] ∧
    [.char 'a', .char '$', .char 'b'] ∈ Table.keys (parse .llvm [0x61, 0x24, 0x62]).definitions ∧
    suggestions (parse .llvm [0x61, 0x24, 0x62]) (word [.char ' ', .char 'a', .char '$']) =
      .ok [] :=
  ⟨mem_keys_of_lexemes_eq (by cbv) (by decide), rfl,
    mem_keys_of_lexemes_eq (by cbv) (by decide), rfl⟩

end SymbolIndex

end Asm6502
