import Asm6502.Proofs.FaultFree

/-!
# Suggestions

A word is completed from several sources, one after the other: the keywords, in LLVM its directives,
the mnemonics and the symbols. The first suggestion with a label keeps out all later ones, and in
the end the suggestions are sorted by their labels. The symbols come from a table, whose order does
not show in the outcome.

## Main definitions

- `Text.ReadsBack`: a text that its bytes determine.
- `Suggestion.Before`: the order of suggestions.
- `Completion.IsKeyword`, `Completion.IsInstruction`, `Completion.IsSymbol`: the sources of a label.
- `Completion.Suggests`: what is suggested for a word.

## Main statements

- `Completion.mem_foldl_suggest_iff`: the first suggestion with a label is the one that is kept.
- `Completion.ensures_keywords`, `Completion.ensures_instructions`,
  `SymbolIndex.ensures_symbols`: what each source offers.
- `SymbolIndex.ensures_suggestionsFrom`: what is suggested does not depend on the order of the table.
- `SymbolIndex.exists_suggestions`: the list of suggestions for a word.
-/

namespace Asm6502

namespace Text

/-- The text is what its bytes decode to. -/
def ReadsBack (t : Text) : Prop :=
  decode t.bytes = t

theorem ReadsBack.eq_of_bytes_eq {s t : Text} (hs : s.ReadsBack) (ht : t.ReadsBack)
    (h : s.bytes = t.bytes) : s = t :=
  hs.symm.trans ((congrArg decode h).trans ht)

theorem ReadsBack.cons_char {t : Text} (h : t.ReadsBack) (c : Char) :
    ReadsBack (.char c :: t) := by
  rw [ReadsBack, bytes_cons, Glyph.bytes, decode_utf8EncodeChar_append, h]

theorem decode_ne_nil {source : Bytes} (h : source ≠ []) : decode source ≠ [] := by
  intro hnil
  exact h (by rw [← bytes_decode source, hnil, bytes_nil])

end Text

/-! ## Order -/

/-- The label of the one suggestion precedes that of the other. -/
def Suggestion.Before (a b : Suggestion) : Prop :=
  a.label.precedes b.label = true

theorem Suggestion.before_iff {a b : Suggestion} :
    a.Before b ↔ a.label.bytes < b.label.bytes := by
  simp [Before, Text.precedes]

instance : Std.Irrefl Suggestion.Before where
  irrefl _ h := List.lt_irrefl _ (Suggestion.before_iff.1 h)

instance : Std.Antisymm Suggestion.Before where
  antisymm _ _ h h' :=
    absurd (Suggestion.before_iff.1 h') (List.lt_asymm (Suggestion.before_iff.1 h))

open Checked (Ensures ensures_pure ensures_entry_zero)

namespace Completion

variable {offered found : List Suggestion} {s : Suggestion}

/-- Sorting puts suggestions with different labels in strict order. -/
theorem pairwise_before_mergeSort (reads : ∀ s ∈ found, s.label.ReadsBack)
    (distinct : found.Pairwise fun a b => a.label ≠ b.label) :
    (found.mergeSort fun a b => !b.label.precedes a.label).Pairwise Suggestion.Before := by
  have perm := List.mergeSort_perm found fun a b => !b.label.precedes a.label
  have sorted : (found.mergeSort fun a b => !b.label.precedes a.label).Pairwise
      fun a b => (!b.label.precedes a.label) = true := by
    apply List.pairwise_mergeSort
    · intro a b c hab hbc
      simp only [Text.precedes, Bool.not_eq_true', decide_eq_false_iff_not, List.not_lt] at *
      exact List.le_trans hab hbc
    · intro a b
      simpa [Text.precedes, List.not_lt] using List.le_total a.label.bytes b.label.bytes
  refine (sorted.and ((perm.pairwise_iff Ne.symm).2 distinct)).imp_of_mem ?_
  rintro a b ha hb ⟨hsorted, hlabel⟩
  have hle : a.label.bytes ≤ b.label.bytes := by simpa [Text.precedes, List.not_lt] using hsorted
  have hne : a.label.bytes ≠ b.label.bytes := fun heq => hlabel
    ((reads a (perm.mem_iff.1 ha)).eq_of_bytes_eq (reads b (perm.mem_iff.1 hb)) heq)
  rw [Suggestion.before_iff]
  by_contra hlt
  exact hne (List.le_antisymm hle (List.not_lt.1 hlt))

/-! ## The first suggestion with a label -/

/-- Of the suggestions with a label the first one is kept. -/
theorem mem_foldl_suggest_iff :
    s ∈ offered.foldl suggest [] ↔ offered.find? (·.label == s.label) = some s := by
  -- from behind, so that the last suggestion meets what is kept of the others
  induction offered using List.reverseRecOn generalizing s with
  | nil => simp
  | append_singleton offered last ih =>
    have taken : (offered.foldl suggest []).any (·.label == last.label) = true ↔
        offered.find? (·.label == last.label) ≠ none := by
      rw [List.any_eq_true, Option.ne_none_iff_exists']
      constructor
      · rintro ⟨a, ha, hlabel⟩
        rw [← beq_iff_eq.1 hlabel]
        exact ⟨a, ih.1 ha⟩
      · rintro ⟨a, ha⟩
        have hlabel : a.label = last.label := by simpa using List.find?_some ha
        exact ⟨a, ih.2 (hlabel ▸ ha), beq_iff_eq.2 hlabel⟩
    rw [List.foldl_concat, suggest, List.find?_append]
    cases hfind : offered.find? (·.label == s.label) with
    | some a =>
      have hs : s ∈ offered.foldl suggest [] ↔ a = s := by rw [ih, hfind, Option.some.injEq]
      have hlast : last = s → (offered.foldl suggest []).any (·.label == last.label) = true := by
        rintro rfl
        exact taken.2 (by simp [hfind])
      split <;> grind
    | none =>
      have hs : s ∉ offered.foldl suggest [] := by simp [ih, hfind]
      split
      · rename_i hany
        have hlabel : last.label ≠ s.label := by
          intro heq
          exact taken.1 hany (heq ▸ hfind)
        simp [hs, hlabel]
      · simp only [List.mem_append, hs, false_or, List.mem_singleton, Option.none_or]
        grind

theorem pairwise_foldl_suggest (offered : List Suggestion) :
    (offered.foldl suggest []).Pairwise fun a b => a.label ≠ b.label := by
  induction offered using List.reverseRecOn with
  | nil => exact .nil
  | append_singleton offered last ih =>
    rw [List.foldl_concat, suggest]
    split
    · exact ih
    · refine List.pairwise_append.2 ⟨ih, List.pairwise_singleton _ _, ?_⟩
      intro a ha b hb
      grind

/-- Where no label is offered twice, the first suggestion with a label is the only one. -/
theorem find?_label_eq_some_iff (single : ∀ a ∈ offered, ∀ b ∈ offered, a.label = b.label → a = b) :
    offered.find? (·.label == s.label) = some s ↔ s ∈ offered := by
  constructor
  · exact List.mem_of_find?_eq_some
  · intro hs
    cases hfind : offered.find? (·.label == s.label) with
    | none => simpa using List.find?_eq_none.1 hfind s hs
    | some a =>
      have hlabel : a.label = s.label := by simpa using List.find?_some hfind
      exact congrArg some (single a (List.mem_of_find?_eq_some hfind) s hs hlabel)

/-- A source whose suggestions are all of one kind. -/
theorem find?_label_of_kind {P : Text → Prop} {kind : SuggestionKind}
    (h : ∀ a : Suggestion, a ∈ offered ↔ P a.label ∧ a.kind = kind) :
    (offered.find? (·.label == s.label) = some s ↔ P s.label ∧ s.kind = kind) ∧
      (offered.find? (·.label == s.label) = none ↔ ¬ P s.label) := by
  constructor
  · rw [find?_label_eq_some_iff, h]
    intro a ha b hb hlabel
    cases a
    cases b
    simp_all
  · rw [List.find?_eq_none]
    constructor
    · intro hnone hlabel
      exact hnone ⟨s.label, kind⟩ ((h _).2 ⟨hlabel, rfl⟩) (beq_self_eq_true _)
    · intro hlabel a ha heq
      exact hlabel (beq_iff_eq.1 heq ▸ ((h a).1 ha).1)

/-! ## Sources -/

/-- The label is a keyword that starts with `word`, or in LLVM a directive that does. -/
def IsKeyword (d : Dialect) (word label : Text) : Prop :=
  label ∈ Keyword.search word ∨
    d = .llvm ∧ word.head? = some (.char '.') ∧
      ∃ name ∈ llvmDirectives, label = .char '.' :: Text.ofString name ∧
        label.startsWith word = true

/-- The label is a mnemonic that starts with the lower-case form of `word`, which has no sigil. -/
def IsInstruction (d : Dialect) (word label : Text) : Prop :=
  (∀ g ∈ word.head?, isSigil g = false) ∧
    ∃ name ∈ d.instructionSet, label = Text.ofString name ∧
      label.startsWith (Text.ofString (Text.lowercase word.shown)) = true

/-- The label is a symbol that starts with `word` and goes on. -/
def IsSymbol (ix : SymbolIndex) (word label : Text) : Prop :=
  label ∈ Table.keys ix.definitions ∧ label ≠ word ∧ label.startsWith word = true

/-- The suggestion is that of a symbol, with the kind of its definition. -/
def OffersSymbol (ix : SymbolIndex) (word : Text) (s : Suggestion) : Prop :=
  ∃ i definition, ix.definitions.find? s.label = some i ∧ ix.statements[i]? = some definition ∧
    (s.label ≠ word ∧ s.label.startsWith word = true) ∧ s.kind = .symbol definition.definitionKind?

/-- What is suggested for `word`. A label with several sources is suggested as a keyword before
anything else, and as an instruction before a symbol. -/
inductive Suggests (ix : SymbolIndex) (word : Text) : Suggestion → Prop where
  | keyword {label : Text} (known : IsKeyword ix.dialect word label) :
      Suggests ix word ⟨label, .directive⟩
  | instruction {label : Text} (other : ¬ IsKeyword ix.dialect word label)
      (known : IsInstruction ix.dialect word label) : Suggests ix word ⟨label, .instruction⟩
  | symbol {label : Text} {i : Nat} {definition : Statement}
      (other : ¬ IsKeyword ix.dialect word label ∧ ¬ IsInstruction ix.dialect word label)
      (entered : ix.definitions.find? label = some i)
      (defined : ix.statements[i]? = some definition)
      (longer : label ≠ word ∧ label.startsWith word = true) :
      Suggests ix word ⟨label, .symbol definition.definitionKind?⟩

variable {d : Dialect} {word label : Text}

theorem mem_foldl_offer_iff {query : Text} {entries found : List Text} :
    label ∈ entries.foldl (Keyword.offer query) found ↔
      label ∈ found ∨ label ∈ entries ∧ label.startsWith query = true := by
  induction entries generalizing found with
  | nil => simp
  | cons entry entries ih =>
    rw [List.foldl_cons, ih]
    grind [Keyword.offer]

theorem mem_search_iff : label ∈ Keyword.search word ↔
    ∃ sigil more, word = sigil :: more ∧ ∃ item ∈ (Keyword.sources sigil).flatten,
      label = sigil :: Text.ofString item ∧ label.startsWith word = true := by
  cases word with
  | nil => simp [Keyword.search]
  | cons sigil more =>
    rw [Keyword.search, ← List.foldl_map, mem_foldl_offer_iff]
    grind

theorem IsKeyword.startsWith (h : IsKeyword d word label) : label.startsWith word = true := by
  rcases h with h | ⟨-, -, name, -, -, h⟩
  · obtain ⟨sigil, more, rfl, item, -, -, h⟩ := mem_search_iff.1 h
    exact h
  · exact h

theorem ensures_ownDirectives (d : Dialect) (nonempty : word ≠ []) :
    Ensures (ownDirectives d word) fun special => ∀ label, label ∈ special ↔
      d = .llvm ∧ word.head? = some (.char '.') ∧
        ∃ name ∈ llvmDirectives, label = .char '.' :: Text.ofString name := by
  unfold ownDirectives
  by_cases hd : d = .llvm
  · subst hd
    refine (ensures_entry_zero nonempty).bind fun first hfirst => ensures_pure fun label => ?_
    rw [← Text.any_head?_is_iff, hfirst, Option.any_some]
    cases first.is '.' <;> simp [Dialect.catalog, eq_comm]
  · rw [if_pos hd]
    exact ensures_pure fun label => by simp [hd]

theorem ensures_keywords (d : Dialect) (nonempty : word ≠ []) :
    Ensures (keywords d word) fun found => ∀ s, s ∈ found ↔
      IsKeyword d word s.label ∧ s.kind = .directive := by
  refine (ensures_ownDirectives d nonempty).bind fun special hspecial => ensures_pure fun s => ?_
  unfold IsKeyword
  simp only [List.mem_map, List.mem_append, List.mem_filter]
  constructor
  · rintro ⟨label, hlabel, rfl⟩
    grind
  · rintro ⟨hlabel, hkind⟩
    refine ⟨s.label, ?_, by cases s; simp_all⟩
    grind

theorem ensures_instructions (d : Dialect) (nonempty : word ≠ []) :
    Ensures (instructions d word) fun found => ∀ s, s ∈ found ↔
      IsInstruction d word s.label ∧ s.kind = .instruction := by
  refine (ensures_entry_zero nonempty).bind fun first hfirst => ensures_pure fun s => ?_
  unfold IsInstruction
  rw [hfirst]
  cases hsigil : isSigil first with
  | true => simp [hsigil]
  | false =>
    simp only [Bool.false_eq_true, if_false, List.mem_map, List.mem_filter,
      Dialect.mem_mnemonics_iff]
    cases s
    grind

theorem readsBack_of_isKeyword (h : IsKeyword d word label) : label.ReadsBack := by
  rcases h with h | ⟨-, -, name, -, rfl, -⟩
  · obtain ⟨sigil, more, -, item, hitem, rfl, -⟩ := mem_search_iff.1 h
    cases sigil with
    | char c => exact Text.ReadsBack.cons_char (Text.decode_bytes_ofString item) c
    | stray b => simp [Keyword.sources] at hitem
  · exact Text.ReadsBack.cons_char (Text.decode_bytes_ofString name) '.'

theorem readsBack_of_isInstruction (h : IsInstruction d word label) : label.ReadsBack := by
  obtain ⟨-, name, -, rfl, -⟩ := h
  exact Text.decode_bytes_ofString name

/-- Only keywords and instructions are shown as keywords. -/
theorem Suggests.code_eq_iff {ix : SymbolIndex} (h : Suggests ix word s) :
    s.kind.code = 14 ↔
      IsKeyword ix.dialect word s.label ∨ IsInstruction ix.dialect word s.label := by
  cases h with
  | keyword known => exact iff_of_true rfl (.inl known)
  | instruction other known => exact iff_of_true rfl (.inr known)
  | symbol other entered defined longer =>
    refine iff_of_false ?_ (not_or.2 other)
    rename_i definition
    rcases definition.definitionKind? with _ | _ | _ | _ | _ <;> simp [SuggestionKind.code]

end Completion

namespace SymbolIndex

open Completion

variable {d : Dialect} {source : Bytes} {name word label : Text} {definitions : Table Text Nat}
  {s : Suggestion}

theorem readsBack_of_mem_tokens {t : Token} (h : t ∈ (parse d source).tokens.toList) :
    t.text.ReadsBack := by
  obtain ⟨front, back, hsource, -⟩ := exists_cut h
  exact Text.decode_bytes_of_append (hsource.trans (List.append_assoc ..).symm)

theorem readsBack_of_mem_keys (h : name ∈ Table.keys (parse d source).definitions) :
    name.ReadsBack := by
  obtain ⟨s, hs, hdef, rfl⟩ := mem_keys_definitions_iff.1 h
  obtain ⟨kind, n, t, -, ht, -, hname⟩ := exists_identifier_of_isDefinition hs hdef
  rw [hname]
  exact readsBack_of_mem_tokens (mem_tokens_of_getElem? ht)

theorem readsBack_of_suggests (h : Suggests (parse d source) word s) : s.label.ReadsBack := by
  cases h with
  | keyword known => exact readsBack_of_isKeyword known
  | instruction other known => exact readsBack_of_isInstruction known
  | symbol other entered defined longer =>
    exact readsBack_of_mem_keys (Table.mem_keys_iff.2 ⟨_, entered⟩)

/-- A label is suggested as something exactly if one of the sources has it. -/
theorem exists_suggests_iff :
    (∃ kind, Suggests (parse d source) word ⟨label, kind⟩) ↔
      IsKeyword d word label ∨ IsInstruction d word label ∨
        IsSymbol (parse d source) word label := by
  constructor
  · rintro ⟨kind, known | ⟨other, known⟩ | ⟨other, entered, defined, longer⟩⟩
    · exact .inl known
    · exact .inr (.inl known)
    · exact .inr (.inr ⟨Table.mem_keys_iff.2 ⟨_, entered⟩, longer⟩)
  · intro h
    by_cases keyword : IsKeyword d word label
    · exact ⟨_, .keyword keyword⟩
    by_cases instruction : IsInstruction d word label
    · exact ⟨_, .instruction keyword instruction⟩
    obtain ⟨hkey, longer⟩ := (h.resolve_left keyword).resolve_left instruction
    obtain ⟨i, entered⟩ := Table.mem_keys_iff.1 hkey
    obtain ⟨definition, last⟩ := find?_definitions_eq_some_iff.1 entered
    exact ⟨_, .symbol ⟨keyword, instruction⟩ entered last.1 longer⟩

theorem mem_map_label_iff {list : List Suggestion}
    (members : ∀ s, s ∈ list ↔ Suggests (parse d source) word s) :
    label ∈ list.map Suggestion.label ↔
      IsKeyword d word label ∨ IsInstruction d word label ∨
        IsSymbol (parse d source) word label := by
  rw [← exists_suggests_iff, List.mem_map]
  constructor
  · rintro ⟨s, hs, rfl⟩
    exact ⟨s.kind, (members s).1 hs⟩
  · rintro ⟨kind, hs⟩
    exact ⟨_, (members _).2 hs, rfl⟩

/-! ## Any order of the table -/

/-- In any order the entries of the table are what a look-up finds. -/
theorem mem_iff_find?_of_perm (perm : definitions.Perm (parse d source).definitions) {i : Nat} :
    (name, i) ∈ definitions ↔ (parse d source).definitions.find? name = some i := by
  rw [perm.mem_iff]
  exact ⟨Table.find?_eq_some_of_mem (nodup_keys_definitions d source), Table.mem_of_find?⟩

/-- In any order the table offers the same symbols. -/
theorem ensures_symbols (perm : definitions.Perm (parse d source).definitions) (word : Text) :
    Ensures (symbols (parse d source).statements definitions word) fun found => ∀ s, s ∈ found ↔
      OffersSymbol (parse d source) word s := by
  have defined {name : Text} {i : Nat} (hentry : (name, i) ∈ definitions) :
      ∃ definition, (parse d source).statements[i]? = some definition := by
    obtain ⟨definition, last⟩ := find?_definitions_eq_some_iff.1
      ((mem_iff_find?_of_perm perm).1 hentry)
    exact ⟨definition, last.1⟩
  let suggestion (entry : Text × Nat) : Suggestion :=
    ⟨entry.1, .symbol ((parse d source).statements[entry.2]?.bind Statement.definitionKind?)⟩
  refine ⟨_, Checked.mapM_eq_ok (g := suggestion) ?_, fun s => ?_⟩
  · rintro ⟨name, i⟩ hentry
    obtain ⟨definition, hdefinition⟩ := defined (List.mem_of_mem_filter hentry)
    simp [Checked.entry_eq_ok_iff.2 hdefinition, suggestion, hdefinition]
  rw [List.mem_map]
  constructor
  · rintro ⟨⟨name, i⟩, hentry, rfl⟩
    obtain ⟨hmem, hwanted⟩ := List.mem_filter.1 hentry
    obtain ⟨definition, hdefinition⟩ := defined hmem
    refine ⟨i, definition, (mem_iff_find?_of_perm perm).1 hmem, hdefinition, ?_,
      by simp [suggestion, hdefinition]⟩
    simpa [suggestion, and_comm] using hwanted
  · rintro ⟨i, definition, hfind, hdefinition, hwanted, hkind⟩
    refine ⟨(s.label, i), List.mem_filter.2 ⟨(mem_iff_find?_of_perm perm).2 hfind, ?_⟩, ?_⟩
    · simpa [and_comm] using hwanted
    · cases s
      simp_all [suggestion]

/-- The first of the offers for a label is what is suggested. -/
theorem mem_foldl_suggest_append_iff {keywords instructions symbols : List Suggestion}
    (hkeywords : ∀ s, s ∈ keywords ↔ IsKeyword d word s.label ∧ s.kind = .directive)
    (hinstructions : ∀ s, s ∈ instructions ↔
      IsInstruction d word s.label ∧ s.kind = .instruction)
    (hsymbols : ∀ s, s ∈ symbols ↔ OffersSymbol (parse d source) word s) :
    s ∈ (keywords ++ instructions ++ symbols).foldl suggest [] ↔
      Suggests (parse d source) word s := by
  obtain ⟨keyword, noKeyword⟩ := find?_label_of_kind (s := s) hkeywords
  obtain ⟨instruction, noInstruction⟩ := find?_label_of_kind (s := s) hinstructions
  have symbol := @find?_label_eq_some_iff symbols s fun a ha b hb hlabel => by
    rw [hsymbols] at ha hb
    cases a
    cases b
    grind [OffersSymbol]
  rw [mem_foldl_suggest_iff, List.find?_append, List.find?_append, Option.or_eq_some_iff,
    Option.or_eq_some_iff, Option.or_eq_none_iff, keyword, noKeyword, instruction,
    noInstruction, symbol, hsymbols]
  constructor
  · rintro ((⟨known, hkind⟩ | ⟨other, known, hkind⟩) |
      ⟨other, i, definition, hfind, hdefinition, longer, hkind⟩)
    · cases s
      cases hkind
      exact .keyword known
    · cases s
      cases hkind
      exact .instruction other known
    · cases s
      cases hkind
      exact .symbol other hfind hdefinition longer
  · rintro (known | ⟨other, known⟩ | ⟨other, hfind, hdefinition, longer⟩)
    · exact .inl (.inl ⟨known, rfl⟩)
    · exact .inl (.inr ⟨other, known, rfl⟩)
    · exact .inr ⟨other, _, _, hfind, hdefinition, longer, rfl⟩

theorem ensures_suggestionsFrom (perm : definitions.Perm (parse d source).definitions)
    (nonempty : word ≠ []) :
    Ensures (suggestionsFrom (parse d source) definitions word) fun list =>
      list.Pairwise Suggestion.Before ∧ ∀ s, s ∈ list ↔ Suggests (parse d source) word s := by
  unfold suggestionsFrom
  rw [if_neg (by simpa using nonempty)]
  refine (ensures_keywords d nonempty).bind fun keywords hkeywords => ?_
  refine (ensures_instructions d nonempty).bind fun instructions hinstructions => ?_
  refine (ensures_symbols perm word).bind fun symbols hsymbols => ensures_pure ?_
  have members (s : Suggestion) :=
    mem_foldl_suggest_append_iff (s := s) hkeywords hinstructions hsymbols
  refine ⟨pairwise_before_mergeSort (fun s hs => ?_) (pairwise_foldl_suggest _), fun s => ?_⟩
  · exact readsBack_of_suggests ((members s).1 hs)
  · rw [List.mem_mergeSort, members]

/-- The list of suggestions for a word, whatever the order of the table. -/
theorem exists_suggestions (d : Dialect) (source : Bytes) (nonempty : word ≠ []) :
    ∃ list : List Suggestion,
      (∀ definitions : Table Text Nat, definitions.Perm (parse d source).definitions →
        suggestionsFrom (parse d source) definitions word = .ok list) ∧
      list.Pairwise Suggestion.Before ∧
      ∀ s, s ∈ list ↔ Suggests (parse d source) word s := by
  obtain ⟨list, -, ordered, members⟩ :=
    ensures_suggestionsFrom (List.Perm.refl (parse d source).definitions) nonempty
  refine ⟨list, fun definitions perm => ?_, ordered, members⟩
  obtain ⟨list', hlist', ordered', members'⟩ := ensures_suggestionsFrom perm nonempty
  -- both lists are ascending, so only their members have to be compared
  rw [hlist', ordered'.eq_of_mem_iff ordered fun s => by rw [members, members']]

/-- A word has suggestions if it is not empty, and they are the ones that it should have. -/
theorem mem_of_suggestions {list : List Suggestion}
    (h : suggestions (parse d source) word = .ok list) :
    s ∈ list ↔ word ≠ [] ∧ Suggests (parse d source) word s := by
  by_cases nonempty : word = []
  · subst nonempty
    obtain rfl : [] = list := Except.ok.inj h
    simp
  · obtain ⟨list', anyOrder, -, members⟩ := exists_suggestions d source nonempty
    obtain rfl : list' = list := Except.ok.inj ((anyOrder _ (List.Perm.refl _)).symm.trans h)
    rw [members, and_iff_right nonempty]

/-- Suggestions are exact. In every order of the table a word has the same list of suggestions. It
ascends strictly by label, and its labels are those of the sources. What is both a keyword or an
instruction and a symbol is shown as a keyword. -/
theorem suggestions_exact (d : Dialect) (source word : Bytes) (nonempty : word ≠ []) :
    let ix := parse d source
    let w := Text.decode word
    ∃ list : List Suggestion,
      (∀ definitions : Table Text Nat, definitions.Perm ix.definitions →
        suggestionsFrom ix definitions w = .ok list) ∧
      suggestions ix w = .ok list ∧
      list.Pairwise (fun a b => a.label.precedes b.label = true) ∧
      (∀ s, s ∈ list ↔ Suggests ix w s) ∧
      (∀ label, label ∈ list.map Suggestion.label ↔
        IsKeyword d w label ∨ IsInstruction d w label ∨ IsSymbol ix w label) ∧
      ∀ s ∈ list, s.kind.code = 14 ↔ IsKeyword d w s.label ∨ IsInstruction d w s.label := by
  intro ix w
  obtain ⟨list, anyOrder, ordered, members⟩ :=
    exists_suggestions d source (Text.decode_ne_nil nonempty)
  exact ⟨list, anyOrder, anyOrder _ (List.Perm.refl _), ordered, members,
    fun label => mem_map_label_iff members, fun s hs => ((members s).1 hs).code_eq_iff⟩

/-- In ACME two labels that open with a dot are completed. The one is a keyword of other dialects as
well, and is shown as such. A word in upper case is completed to an instruction. -/
theorem suggestions_exact_keyword_label :
    let source : Bytes := [0x2E, 0x62, 0x79, 0x0A, 0x2E, 0x62, 0x78]
    let ix := parse .acme source
    let keyword : Text := [.char '.', .char 'b', .char 'y']
    let symbol : Text := [.char '.', .char 'b', .char 'x']
    keyword ∈ Table.keys ix.definitions ∧
    ∃ list : List Suggestion,
      (∀ definitions : Table Text Nat, definitions.Perm ix.definitions →
        suggestionsFrom ix definitions [.char '.', .char 'b'] = .ok list) ∧
      keyword ∈ list.map Suggestion.label ∧ (∀ s ∈ list, s.label = keyword → s.kind.code = 14) ∧
      symbol ∈ list.map Suggestion.label ∧
    ∃ list' : List Suggestion, suggestions ix [.char 'L', .char 'D'] = .ok list' ∧
      ⟨Text.ofString "lda", .instruction⟩ ∈ list' := by
  intro source ix keyword symbol
  have hlexemes : lexemes .acme source =
      [.token .identifier keyword, .token .lineBreak [.char '\n'], .token .identifier symbol] := by
    cbv
  have hstatements : ix.statements.toList =
      [⟨.definition .label 0, 0, 1⟩, ⟨.definition .label 2, 2, 1⟩] := by
    simp only [ix, statements_parse, tokens_parse, hlexemes]
    decide
  have hnamed (n : Nat) (t : Token) (ht : ix.tokens[n]? = some t)
      (hs : ⟨.definition .label n, n, 1⟩ ∈ ix.statements.toList) :
      t.text ∈ Table.keys ix.definitions :=
    mem_keys_definitions_iff.2 ⟨_, hs, rfl, statementName_eq rfl ht⟩
  have hkeyword : keyword ∈ Table.keys ix.definitions :=
    hnamed 0 ⟨.identifier, 0, ⟨0, 0⟩, keyword, true⟩
      (by rw [← Array.getElem?_toList, tokens_parse, hlexemes]; rfl) (by simp [hstatements])
  have hsymbol : symbol ∈ Table.keys ix.definitions :=
    hnamed 2 ⟨.identifier, 4, ⟨1, 0⟩, symbol, true⟩
      (by rw [← Array.getElem?_toList, tokens_parse, hlexemes]; rfl) (by simp [hstatements])
  have hdecode : Text.decode [0x2E, 0x62] = [.char '.', .char 'b'] := by cbv
  obtain ⟨list, anyOrder, -, -, -, labels, codes⟩ :=
    suggestions_exact .acme source [0x2E, 0x62] (by decide)
  rw [hdecode] at anyOrder labels codes
  have known : IsKeyword .acme [.char '.', .char 'b'] keyword :=
    .inl (mem_search_iff.2 ⟨_, _, rfl, "by", by decide, by decide, by decide⟩)
  have hdecode' : Text.decode [0x4C, 0x44] = [.char 'L', .char 'D'] := by cbv
  obtain ⟨list', -, hlist', -, members, -⟩ :=
    suggestions_exact .acme source [0x4C, 0x44] (by decide)
  rw [hdecode'] at hlist' members
  have instruction : IsInstruction .acme [.char 'L', .char 'D'] (Text.ofString "lda") :=
    ⟨by decide, "lda", by decide, rfl, by cbv⟩
  have noKeyword : ¬ IsKeyword .acme [.char 'L', .char 'D'] (Text.ofString "lda") := fun h =>
    absurd h.startsWith (by decide)
  refine ⟨hkeyword, list, anyOrder, (labels keyword).2 (.inl known), ?_,
    (labels symbol).2 (.inr (.inr ⟨hsymbol, by decide, by decide⟩)), list', hlist',
    (members _).2 (.instruction noKeyword instruction)⟩
  intro s hs hlabel
  exact (codes s hs).2 (hlabel ▸ .inl known)

end SymbolIndex

end Asm6502
