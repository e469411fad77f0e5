import Asm6502.Proofs.DefinitionSites
import Asm6502.Proofs.OutlineAgreement

/-!
# The uses of a symbol

The references to a symbol may be asked for without its declarations. What is left out then is found
in the table of definitions, which keeps the last definition of a name only. The highlights, on the
other hand, mark the name of every definition as a declaration. The two agree on a symbol exactly if
it is defined no more than once; otherwise the earlier definitions stay among the uses.

## Main definitions

- `SymbolIndex.DefinesOnce`: a name without a second definition.
- `SymbolIndex.spelled`: the identifiers that spell a symbol.

## Main statements

- `SymbolIndex.mem_declarations_iff`: the declarations that are left out.
- `SymbolIndex.mem_declaredSpans_iff`: the declarations that are highlighted.
- `SymbolIndex.declared_iff_definesOnce`: when these are the same.
- `SymbolIndex.referencesAt_eq_spelled`: the references with declarations and without.
-/

namespace Asm6502

namespace SymbolIndex

variable {d : Dialect} {source : Bytes} {names : List Text} {declared : List Nat} {n i j : Nat}
  {s s' : Statement} {t u : Token}

/-- No two statements define the name. -/
def DefinesOnce (ix : SymbolIndex) (name : Text) : Prop :=
  ∀ s ∈ ix.statements.toList, ∀ s' ∈ ix.statements.toList, s.isDefinition = true →
    s'.isDefinition = true → ix.statementName s = name → ix.statementName s' = name → s = s'

/-- The identifiers that spell one of the names, each with its index. -/
def spelled (ix : SymbolIndex) (names : List Text) : List (Token × Nat) :=
  ix.tokens.toList.zipIdx.filter (·.1.spells names)

theorem mem_spelled_iff {ix : SymbolIndex} {item : Token × Nat} :
    item ∈ ix.spelled names ↔ ix.tokens[item.2]? = some item.1 ∧ item.1.kind = .identifier ∧
      item.1.text ∈ names := by
  rw [spelled, List.mem_filter, Token.spells_iff, List.mem_zipIdx_iff_getElem?]
  simp

/-! ## Two notions of a declaration -/

/-- The declarations of some names are the names of their last definitions. -/
theorem mem_declarations_iff (h : (parse d source).declarations names = .ok declared) :
    n ∈ declared ↔ ∃ s t, (parse d source).Names s n t ∧ t.text ∈ names := by
  have looked (name : Text) : ∃ s?, (parse d source).lookup name = .ok s? := by
    obtain ⟨s?, hlookup, -⟩ := (sound_parse d source).lookup name
    exact ⟨s?, hlookup⟩
  choose found hfound using looked
  obtain rfl : (names.map found).filterMap (·.bind Statement.name?) = declared := by
    rw [declarations, Checked.mapM_eq_ok fun name _ => hfound name] at h
    exact Except.ok.inj h
  simp only [List.filterMap_map, List.mem_filterMap, Function.comp_apply, Option.bind_eq_some_iff]
  constructor
  · rintro ⟨name, hname, s, hs, hn⟩
    obtain ⟨m, t, hnames, rfl⟩ := exists_names_of_lookup ((hfound name).trans (congrArg _ hs))
    obtain rfl : m = n := Option.some.inj (hnames.name?_eq.symm.trans hn)
    exact ⟨s, t, hnames, hname⟩
  · rintro ⟨s, t, hnames, htext⟩
    have hs : found t.text = some s := Except.ok.inj ((hfound t.text).symm.trans hnames.lookup)
    exact ⟨t.text, htext, s, hs, hnames.name?_eq⟩

/-- No two definitions have their name in one place. -/
theorem eq_of_name? (hs : s ∈ (parse d source).statements.toList) (hdef : s.isDefinition = true)
    (hs' : s' ∈ (parse d source).statements.toList) (hdef' : s'.isDefinition = true)
    (hname : s.name? = s'.name?) : s = s' := by
  obtain ⟨n, -, hn, hle, hlt, -⟩ := exists_name_of_isDefinition hs hdef
  obtain ⟨m, -, hm, hle', hlt', -⟩ := exists_name_of_isDefinition hs' hdef'
  obtain rfl : n = m := Option.some.inj (hn.symm.trans (hname.trans hm))
  obtain ⟨j, hj⟩ := Array.mem_iff_getElem?.1 (Array.mem_toList_iff.1 hs)
  obtain ⟨k, hk⟩ := Array.mem_iff_getElem?.1 (Array.mem_toList_iff.1 hs')
  obtain rfl : j = k := eq_of_contains hj hk ⟨hle, hlt⟩ ⟨hle', hlt'⟩
  exact Option.some.inj (hj.symm.trans hk)

/-- A declaration is the name of a definition. -/
theorem mem_declaredNames_of_mem (h : (parse d source).declarations names = .ok declared)
    (hn : n ∈ declared) : n ∈ (parse d source).declaredNames := by
  obtain ⟨s, t, names, -⟩ := (mem_declarations_iff h).1 hn
  obtain ⟨hs, hdef, -⟩ := isDefinition_of_lookup names.lookup
  exact mem_declaredNames_iff.2 ⟨s, Array.mem_toList_iff.1 hs, hdef, names.name?_eq⟩

/-- The only definition of a name is the one that looking the name up gives. -/
theorem DefinesOnce.lookup_eq {name : Text} (once : (parse d source).DefinesOnce name)
    (hs : s ∈ (parse d source).statements.toList) (hdef : s.isDefinition = true)
    (hname : (parse d source).statementName s = name) :
    (parse d source).lookup name = .ok (some s) := by
  obtain ⟨s?, hlookup, -⟩ := (sound_parse d source).lookup name
  have hdefined : name ∈ Table.keys (parse d source).definitions :=
    mem_keys_definitions_iff.2 ⟨s, hs, hdef, hname⟩
  obtain ⟨last, rfl⟩ := Option.isSome_iff_exists.1 ((isSome_lookup_iff hlookup).2 hdefined)
  obtain ⟨hlast, hdef', hname'⟩ := isDefinition_of_lookup hlookup
  rw [hlookup, once s hs last hlast hdef hdef' hname hname']

/-- The declarations are the names of all definitions exactly if no name is defined twice. -/
theorem declared_iff_definesOnce (h : (parse d source).declarations names = .ok declared) :
    (∀ item ∈ (parse d source).spelled names,
      item.2 ∈ declared ↔ item.2 ∈ (parse d source).declaredNames) ↔
      ∀ name ∈ names, (parse d source).DefinesOnce name := by
  constructor
  · intro all name hname
    -- every definition is the last one of its name, since its own name is among the declarations
    have last {s : Statement} (hs : s ∈ (parse d source).statements.toList)
        (hdef : s.isDefinition = true) (hsname : (parse d source).statementName s = name) :
        (parse d source).lookup name = .ok (some s) := by
      obtain ⟨kind, n, t, hrole, ht, hkind, htext⟩ := exists_identifier_of_isDefinition hs hdef
      have hn : s.name? = some n := by simp [Statement.name?, hrole]
      obtain rfl : t.text = name := htext.symm.trans hsname
      have hitem : (t, n) ∈ (parse d source).spelled names := mem_spelled_iff.2 ⟨ht, hkind, hname⟩
      obtain ⟨s', u, hnames, -⟩ := (mem_declarations_iff h).1 ((all _ hitem).2
        (mem_declaredNames_iff.2 ⟨s, Array.mem_toList_iff.1 hs, hdef, hn⟩))
      obtain rfl : t = u := Option.some.inj (ht.symm.trans hnames.token)
      obtain ⟨hs', hdef', -⟩ := isDefinition_of_lookup hnames.lookup
      obtain rfl := eq_of_name? hs hdef hs' hdef' (hn.trans hnames.name?_eq.symm)
      exact hnames.lookup
    intro s hs s' hs' hdef hdef' hsname hsname'
    have same := (last hs hdef hsname).symm.trans (last hs' hdef' hsname')
    exact Option.some.inj (Except.ok.inj same)
  · intro once item hitem
    obtain ⟨ht, -, htext⟩ := mem_spelled_iff.1 hitem
    refine ⟨mem_declaredNames_of_mem h, fun hn => ?_⟩
    obtain ⟨s, hs, hdef, hname⟩ := mem_declaredNames_iff.1 hn
    obtain ⟨m, u, hnames, -⟩ := exists_names_of_lookup
      ((once _ htext).lookup_eq (Array.mem_toList_iff.2 hs) hdef (statementName_eq hname ht))
    obtain rfl : m = item.2 := Option.some.inj (hnames.name?_eq.symm.trans hname)
    obtain rfl : item.1 = u := Option.some.inj (ht.symm.trans hnames.token)
    exact (mem_declarations_iff h).2 ⟨s, item.1, hnames, htext⟩

/-! ## Places -/

theorem eq_of_span_eq (ht : (parse d source).tokens[i]? = some t) (hkind : t.kind = .identifier)
    (hu : (parse d source).tokens[j]? = some u) (hkind' : u.kind = .identifier)
    (h : t.span = u.span) : i = j := by
  have hi := tokenAt_position ht (by simp [hkind])
  have hj := tokenAt_position hu (by simp [hkind'])
  have hposition : t.position = u.position := congrArg Span.start h
  rw [hposition, hj] at hi
  exact (Option.some.inj (Except.ok.inj hi)).symm

section Highlighted

variable {hs : List Highlight}

/-- A name is highlighted as a declaration exactly if it is that of a definition. -/
theorem mem_declaredSpans_iff (shown : List.Forall₂ (Highlight.Shows (parse d source))
      ((parse d source).tokens.toList.zipIdx.filter (·.1.isShown)) hs)
    (ht : (parse d source).tokens[i]? = some t) (hkind : t.kind = .identifier) :
    t.span ∈ (hs.filter (·.declares)).map Highlight.span ↔ i ∈ (parse d source).declaredNames := by
  have hspans : t.span ∈ (hs.filter (·.declares)).map Highlight.span ↔
      ∃ n ∈ (parse d source).declaredNames,
        (parse d source).tokens[n]?.map Token.span = some t.span := by
    rw [← List.mem_map_of_injective (Option.some_injective _), declarations_eq shown, List.mem_map]
  rw [hspans]
  constructor
  · rintro ⟨n, hn, hspan⟩
    obtain ⟨u, hu, hkind'⟩ := exists_identifier_of_mem_declaredNames hn
    rw [hu, Option.map_some, Option.some.injEq] at hspan
    rwa [← eq_of_span_eq hu hkind' ht hkind hspan]
  · intro hi
    exact ⟨i, hi, by rw [ht, Option.map_some]⟩

/-- The names that are not highlighted as declarations are those of no definition. -/
theorem filter_declaredSpans (shown : List.Forall₂ (Highlight.Shows (parse d source))
      ((parse d source).tokens.toList.zipIdx.filter (·.1.isShown)) hs) (uri : String) :
    ((((parse d source).spelled names).map (⟨uri, ·.1.span⟩) : List Location).filter
        fun l => !((hs.filter (·.declares)).map Highlight.span).contains l.span) =
      (((parse d source).spelled names).filter
        (!(parse d source).declaredNames.contains ·.2)).map (⟨uri, ·.1.span⟩) := by
  rw [List.filter_map]
  refine congrArg (List.map _) (List.filter_congr fun item hitem => ?_)
  obtain ⟨ht, hkind, -⟩ := mem_spelled_iff.1 hitem
  rw [Bool.eq_iff_iff]
  simp [mem_declaredSpans_iff shown ht hkind]

end Highlighted

/-! ## References and uses -/

/-- No two names have the same place, so that of a name tells whether the name was kept. -/
theorem mem_map_filter_spelled_iff (uri : String) {p : Token × Nat → Bool} {item : Token × Nat}
    (hitem : item ∈ (parse d source).spelled names) :
    (⟨uri, item.1.span⟩ : Location) ∈
      (((parse d source).spelled names).filter p).map (⟨uri, ·.1.span⟩) ↔ p item = true := by
  constructor
  · intro hmem
    obtain ⟨other, hother, hspan⟩ := List.mem_map.1 hmem
    obtain ⟨hother, hp⟩ := List.mem_filter.1 hother
    obtain ⟨ht, hkind, -⟩ := mem_spelled_iff.1 hitem
    obtain ⟨hu, hkind', -⟩ := mem_spelled_iff.1 hother
    have hindex := eq_of_span_eq hu hkind' ht hkind (congrArg Location.span hspan)
    have htoken : other.1 = item.1 := Option.some.inj (hu.symm.trans (hindex ▸ ht))
    rwa [← Prod.ext htoken hindex]
  · intro hp
    exact List.mem_map.2 ⟨item, List.mem_filter.2 ⟨hitem, hp⟩, rfl⟩

theorem map_filter_spelled_eq_iff (uri : String) {p q : Token × Nat → Bool} :
    (((parse d source).spelled names).filter p).map (fun item => (⟨uri, item.1.span⟩ : Location)) =
      (((parse d source).spelled names).filter q).map (⟨uri, ·.1.span⟩) ↔
      ∀ item ∈ (parse d source).spelled names, p item = q item := by
  constructor
  · intro same item hitem
    rw [Bool.eq_iff_iff, ← mem_map_filter_spelled_iff uri hitem, same,
      mem_map_filter_spelled_iff uri hitem]
  · intro agree
    exact congrArg (List.map _) (List.filter_congr agree)

theorem referencesAt_eq_spelled {pos : Position} {name : Text}
    (hsymbol : (parse d source).symbolAt pos = .ok (some (name, j)))
    (hnames : (parse d source).spellings name = .ok names)
    (hdeclared : (parse d source).declarations names = .ok declared) (uri : String) :
    (parse d source).referencesAt uri pos true =
        .ok (((parse d source).spelled names).map (⟨uri, ·.1.span⟩)) ∧
      (parse d source).referencesAt uri pos false =
        .ok ((((parse d source).spelled names).filter (!declared.contains ·.2)).map
          (⟨uri, ·.1.span⟩)) := by
  have references := referencesAt_eq_filter hsymbol hnames hdeclared uri
  refine ⟨?_, ?_⟩
  · simpa [spelled] using references true
  · simpa [spelled, List.filter_filter, Bool.and_comm] using references false

/-- Without declarations, the references to a symbol are those with declarations, in the same order,
except for the last definition under each of its spellings. Nothing but declarations is left out,
and all of them are exactly if the symbol is defined no more than once under each spelling. -/
theorem uses_leave_out_last_definitions (d : Dialect) (source : Bytes) (uri : String)
    (pos : Position) (name : Text) (j : Nat)
    (hsymbol : (parse d source).symbolAt pos = .ok (some (name, j))) :
    let ix := parse d source
    ∃ names ls us hs, ix.spellings name = .ok names ∧ ix.referencesAt uri pos true = .ok ls ∧
      ix.referencesAt uri pos false = .ok us ∧ ix.highlights = .ok hs ∧ us.Sublist ls ∧
      (∀ l ∈ ls, l ∉ us ↔ ∃ s n t, ix.Names s n t ∧ l.span = t.span) ∧
      (ls.filter fun l => !((hs.filter (·.declares)).map Highlight.span).contains l.span).Sublist
        us ∧
      ((us = ls.filter fun l => !((hs.filter (·.declares)).map Highlight.span).contains l.span) ↔
        ∀ name ∈ names, ix.DefinesOnce name) := by
  intro ix
  obtain ⟨names, hnames, -⟩ := (sound_parse d source).spellings name
  obtain ⟨declared, hdeclared, -⟩ := (sound_parse d source).declarations names
  obtain ⟨hs, hhs, shown⟩ := (sound_parse d source).ensures_highlights
  -- with declarations, without the last ones, without any: three selections from one list of names
  obtain ⟨hall, huses⟩ := referencesAt_eq_spelled hsymbol hnames hdeclared uri
  refine ⟨names, _, _, hs, hnames, hall, huses, hhs, List.filter_sublist.map _, ?_, ?_, ?_⟩
  · intro l hl
    obtain ⟨item, hitem, rfl⟩ := List.mem_map.1 hl
    obtain ⟨ht, hkind, htext⟩ := mem_spelled_iff.1 hitem
    rw [mem_map_filter_spelled_iff uri hitem, Bool.not_eq_true', Bool.not_eq_false,
      List.contains_iff_mem, mem_declarations_iff hdeclared]
    constructor
    · rintro ⟨s, t, names, -⟩
      exact ⟨s, item.2, t, names, congrArg Token.span (Option.some.inj (ht.symm.trans names.token))⟩
    · rintro ⟨s, n, t, names, hspan⟩
      obtain rfl := eq_of_span_eq ht hkind names.token names.identifier hspan
      obtain rfl : item.1 = t := Option.some.inj (ht.symm.trans names.token)
      exact ⟨s, item.1, names, htext⟩
  · rw [filter_declaredSpans shown]
    refine (List.monotone_filter_right _ fun item hitem => ?_).map _
    simpa using mt (mem_declaredNames_of_mem hdeclared) (by simpa using hitem)
  · rw [filter_declaredSpans shown, map_filter_spelled_eq_iff,
      ← declared_iff_definesOnce hdeclared]
    refine forall₂_congr fun item _ => ?_
    rw [Bool.eq_iff_iff]
    simp [not_iff_not]

/-- Of the references to a label with a mark, its only definition is left out. -/
theorem uses_leave_out_marked_label :
    let ix := parse .kick markedLabel
    ix.symbolAt ⟨1, 4⟩ = .ok (some ([.char 'a'], 4)) ∧ (∀ name, ix.DefinesOnce name) ∧
      ∃ ls, ix.referencesAt "u" ⟨1, 4⟩ true = .ok ls ∧
        ix.referencesAt "u" ⟨1, 4⟩ false =
          .ok (ls.filter fun l => !([⟨⟨0, 0⟩, ⟨0, 2⟩⟩] : List Span).contains l.span) := by
  intro ix
  have once (name : Text) : ix.DefinesOnce name := by
    have hstatements : ix.statements.toList = [⟨.definition .label 0, 0, 1⟩] := by
      simp only [ix, statements_parse, tokens_markedLabel]
      decide
    intro s hs s' hs' _ _ _ _
    rw [hstatements, List.mem_singleton] at hs hs'
    rw [hs, hs']
  obtain ⟨names, ls, us, hs, -, hall, huses, hhs, -, -, -, exact_iff⟩ :=
    uses_leave_out_last_definitions .kick markedLabel "u" ⟨1, 4⟩ _ _ symbolAt_markedLabel
  have hdeclared : (hs.filter (·.declares)).map Highlight.span = [⟨⟨0, 0⟩, ⟨0, 2⟩⟩] := by
    simp only [parse, gather, lexemes_markedLabel] at hhs
    rw [← Except.ok.inj hhs]
    rfl
  refine ⟨symbolAt_markedLabel, once, ls, hall, ?_⟩
  rw [← hdeclared, ← exact_iff.2 fun name _ => once name]
  exact huses

/-- The symbol `a` is defined twice, as a constant, and then used. -/
def twoConstants : Bytes :=
  (Text.ofString "a = 1\na = 2\n lda a").bytes

theorem lexemes_twoConstants : lexemes .acme twoConstants =
    [.token .identifier [.char 'a'], .skipped [.char ' '], .token .operator [.char '='],
      .skipped [.char ' '], .token .number [.char '1'], .token .lineBreak [.char '\n'],
      .token .identifier [.char 'a'], .skipped [.char ' '], .token .operator [.char '='],
      .skipped [.char ' '], .token .number [.char '2'], .token .lineBreak [.char '\n'],
      .skipped [.char ' '], .token .identifier [.char 'l', .char 'd', .char 'a'],
      .skipped [.char ' '], .token .identifier [.char 'a']] := by
  rw [lexemes, twoConstants, Text.decode_bytes_ofString]
  cbv

/-- The first of two definitions is highlighted as a declaration, and stays among the uses. -/
theorem first_definition_among_uses :
    let ix := parse .acme twoConstants
    ix.symbolAt ⟨0, 0⟩ = .ok (some ([.char 'a'], 0)) ∧
      ix.referencesAt "u" ⟨0, 0⟩ false =
        .ok [⟨"u", ⟨0, 0⟩, ⟨0, 1⟩⟩, ⟨"u", ⟨2, 5⟩, ⟨2, 6⟩⟩] ∧
      ∃ hs, ix.highlights = .ok hs ∧
        ⟨⟨0, 0⟩, ⟨0, 1⟩⟩ ∈ (hs.filter (·.declares)).map Highlight.span := by
  intro ix
  have ht : ix.tokens[0]? = some ⟨.identifier, 0, ⟨0, 0⟩, [.char 'a'], true⟩ := by
    rw [← Array.getElem?_toList, tokens_parse, lexemes_twoConstants]
    rfl
  have hsymbol := symbolAt_position ht rfl
  refine ⟨hsymbol, ?_, ?_⟩
  · have hnames : ix.spellings [.char 'a'] = .ok [[.char 'a']] := by
      rw [spellings_parse, if_neg (by simp)]
    have hdeclared : ix.declarations [[.char 'a']] = .ok [4] := by
      simp only [ix, parse, gather, lexemes_twoConstants]
      rfl
    rw [(referencesAt_eq_spelled hsymbol hnames hdeclared "u").2, spelled, tokens_parse,
      lexemes_twoConstants]
    rfl
  · obtain ⟨hs, hhs, shown⟩ := (sound_parse .acme twoConstants).ensures_highlights
    refine ⟨hs, hhs, (mem_declaredSpans_iff shown ht rfl).2 ?_⟩
    rw [declaredNames, statements_parse, tokens_parse, lexemes_twoConstants]
    decide

end SymbolIndex

end Asm6502
