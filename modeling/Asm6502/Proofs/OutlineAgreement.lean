import Asm6502.Proofs.StatementSearch

/-!
# Outlines and highlights

The outline lists the statements that define a symbol, and the highlights mark the tokens that name
one. Both lead to the same stretches of the document, in the same order.

## Main definitions

- `OutlineItem.Lists`: what an item of the outline says about a statement.
- `Highlight.span`: the stretch of the document that is highlighted.

## Main statements

- `SymbolIndex.ensures_outline`: the outline has one item for each definition.
- `SymbolIndex.pairwise_declaredNames_parse`: definitions are named in the order of the document.
- `SymbolIndex.selections_eq`, `SymbolIndex.declarations_eq`: what the outline selects, and what is
  highlighted as a declaration, are the names of the definitions.
-/

namespace Asm6502

open Checked (Ensures ensures_pure ensures_mapM ensures_entry ensures_entry_pred)

/-- The item lists the definition `s`. Its stretch reaches from the first token of the statement to
the last one, and the token that names the symbol is selected. -/
structure OutlineItem.Lists (ix : SymbolIndex) (s : Statement) (item : OutlineItem) : Prop where
  name : item.name = ix.statementName s
  kind : s.definitionKind? = some item.kind
  start : ∃ t, ix.tokens[s.start]? = some t ∧ item.span.start = t.position
  stop : ∃ t, ix.tokens[s.start + s.count - 1]? = some t ∧ item.span.stop = t.span.stop
  selection : ∃ n t, s.name? = some n ∧ ix.tokens[n]? = some t ∧ item.selection = t.span

/-- The stretch of the document that is highlighted. -/
def Highlight.span (h : Highlight) : Span :=
  ⟨h.position, h.position.right h.length⟩

theorem pairwise_of_forall₂ {α β : Type} {R : α → β → Prop} {P : α → α → Prop} {Q : β → β → Prop}
    {as : List α} {bs : List β} (h : List.Forall₂ R as bs) (ordered : as.Pairwise P)
    (step : ∀ a b a' b', R a b → R a' b' → P a a' → Q b b') : bs.Pairwise Q := by
  have same := h.length_eq
  rw [List.pairwise_iff_getElem] at ordered ⊢
  intro i j hi hj hlt
  have hi' : i < as.length := by omega
  have hj' : j < as.length := by omega
  exact step _ _ _ _ (h.get hi' hi) (h.get hj' hj) (ordered i j hi' hj' hlt)

/-! ## Numbers of highlights -/

namespace Highlight

/-- Whatever the numbers of a highlight stand for, they are cut down to 32 bits. -/
theorem numbers_eq_map (previous : Position) (h : Highlight) :
    h.numbers previous = (h.differences previous).map UInt32.ofInt := by
  have natural (n : Nat) : UInt32.ofInt n = UInt32.ofNat n := by
    have hmod : ((n : Int) % 2 ^ 32).toNat = n % 2 ^ 32 := by omega
    rw [UInt32.ofInt, hmod, UInt32.ofNat_mod_size]
  have kind : UInt32.ofNat h.kind.code.toNat = h.kind.code := by simp
  simp only [numbers, differences, List.map_cons, List.map_nil, natural, kind]
  cases h.declares <;> rfl

theorem encodeFrom_eq_map (previous : Position) (hs : List Highlight) :
    encodeFrom previous hs = (differencesFrom previous hs).map UInt32.ofInt := by
  induction hs generalizing previous with
  | nil => rfl
  | cons h hs ih => rw [encodeFrom, differencesFrom, List.map_append, numbers_eq_map, ih]

end Highlight

/-! ## Texts on one line -/

theorem SymbolIndex.firstLine_of_forall {t : Text} (h : ∀ g ∈ t, g.isBreak = false) :
    firstLine t = t :=
  List.takeWhile_eq_self_iff.2 fun g hg => by simp [h g hg]

theorem Token.span_of_forall {t : Token} (h : ∀ g ∈ t.text, g.isBreak = false) :
    t.span = ⟨t.position, t.position.right t.text.units⟩ := by
  rw [span, Position.advance_of_forall h]

namespace SymbolIndex

variable {d : Dialect} {source : Bytes}

/-- A name does not reach over a line end. -/
theorem not_isBreak_of_identifier {t : Token} (ht : t ∈ (parse d source).tokens.toList)
    (hkind : t.kind = .identifier) : ∀ g ∈ t.text, g.isBreak = false := by
  rw [tokens_parse] at ht
  obtain ⟨before, l, after, hls, htoken⟩ := Lexeme.mem_tokens_iff.1 ht
  obtain ⟨k, hk, rfl⟩ := Option.map_eq_some_iff.1 htoken
  obtain rfl : k = .identifier := hkind
  have hmem : l ∈ lexemes d source := by simp [hls]
  exact (Lexeme.scans_scan d true _).forall_mem Lexeme.Opens.not_isBreak_of_kind l hmem
    (by simp [hk]) (by simp [hk])

/-! ## Tokens and statements in order -/

section Order

variable {i j : Nat} {t t' : Token}

theorem stop_le_position_of_lt (ht : (parse d source).tokens[i]? = some t)
    (ht' : (parse d source).tokens[j]? = some t') (hlt : i < j) : t.span.stop ≤ t'.position := by
  obtain ⟨hi, rfl⟩ := Array.getElem?_eq_some_iff.1 ht
  obtain ⟨hj, rfl⟩ := Array.getElem?_eq_some_iff.1 ht'
  exact List.pairwise_iff_getElem.1 (pairwise_span_parse d source) i j hi hj hlt

theorem position_le_of_le (ht : (parse d source).tokens[i]? = some t)
    (ht' : (parse d source).tokens[j]? = some t') (hle : i ≤ j) : t.position ≤ t'.position := by
  rcases hle.eq_or_lt with rfl | hlt
  · obtain rfl : t = t' := Option.some.inj (ht.symm.trans ht')
    exact le_rfl
  · exact (t.position.le_advance t.text).trans (stop_le_position_of_lt ht ht' hlt)

theorem stop_le_of_le (ht : (parse d source).tokens[i]? = some t)
    (ht' : (parse d source).tokens[j]? = some t') (hle : i ≤ j) : t.span.stop ≤ t'.span.stop := by
  rcases hle.eq_or_lt with rfl | hlt
  · obtain rfl : t = t' := Option.some.inj (ht.symm.trans ht')
    exact le_rfl
  · exact (stop_le_position_of_lt ht ht' hlt).trans (t'.position.le_advance t'.text)

end Order

variable {s : Statement}

/-- A definition is named by an identifier that belongs to the statement. -/
theorem exists_name_of_isDefinition (hs : s ∈ (parse d source).statements.toList)
    (hdef : s.isDefinition = true) :
    ∃ n t, s.name? = some n ∧ s.start ≤ n ∧ n < s.start + s.count ∧
      (parse d source).tokens[n]? = some t ∧ t.kind = .identifier := by
  obtain ⟨-, -, hcomment | ⟨i, t, hi, ht, named⟩⟩ := exists_name_of_mem_statements hs
  · simp [Statement.isDefinition, Statement.definitionKind?, hcomment] at hdef
  · exact ⟨s.start + i, t, named.name?_eq, by omega, by omega, ht, named.identifier hdef⟩

/-- Definitions are named in the order of the document. -/
theorem pairwise_declaredNames_parse (d : Dialect) (source : Bytes) :
    (parse d source).declaredNames.Pairwise (· < ·) := by
  refine List.pairwise_filterMap.2 ((pairwise_statements_parse d source).imp_of_mem ?_)
  intro s s' hs hs' hle n hn n' hn'
  simp only [Option.ite_none_right_eq_some] at hn hn'
  obtain ⟨m, -, hm, -, hlt, -⟩ := exists_name_of_isDefinition hs hn.1
  obtain ⟨m', -, hm', hle', -⟩ := exists_name_of_isDefinition hs' hn'.1
  obtain rfl : m = n := Option.some.inj (hm.symm.trans hn.2)
  obtain rfl : m' = n' := Option.some.inj (hm'.symm.trans hn'.2)
  omega

/-! ## The outline -/

theorem map_fst_definingStatements (ix : SymbolIndex) :
    ix.definingStatements.map Prod.fst = ix.statements.toList.filter (·.isDefinition) := by
  rw [definingStatements, List.map_filterMap, ← List.filterMap_eq_filter]
  refine List.filterMap_congr fun s _ => ?_
  cases hkind : s.definitionKind? <;> simp [Option.guard, Statement.isDefinition, hkind]

theorem ensures_spanOf {i : Nat} {t : Token} (ht : (parse d source).tokens[i]? = some t) :
    Ensures ((parse d source).spanOf t) (· = t.span) :=
  ⟨t.span, spanOf_eq_span (mem_tokens_of_getElem? ht), rfl⟩

theorem ensures_outlineItem (hs : s ∈ (parse d source).statements.toList) {kind : DefinitionKind}
    (hkind : s.definitionKind? = some kind) :
    Ensures ((parse d source).outlineItem s kind) (OutlineItem.Lists (parse d source) s) := by
  have hdef : s.isDefinition = true := by simp [Statement.isDefinition, hkind]
  obtain ⟨hpos, hle⟩ := (sound_parse d source).extent s (Array.mem_toList_iff.1 hs)
  obtain ⟨n, t, hname, -, -, ht, -⟩ := exists_name_of_isDefinition hs hdef
  have named : (parse d source).nameToken s = .ok t := by
    rw [nameToken, hname]
    exact Checked.entry_eq_ok_iff.2 ht
  unfold outlineItem
  refine (ensures_entry (by omega)).bind fun first hfirst => ?_
  refine (ensures_spanOf hfirst).bind fun _ hstart => ?_
  refine (ensures_entry_pred (n := s.start + s.count - 1) (by omega) (by omega)).bind
    fun last hlast => ?_
  refine (ensures_spanOf hlast).bind fun _ hstop => ?_
  rw [named, Checked.ok_bind]
  refine (ensures_spanOf ht).bind fun _ hselection => ensures_pure ?_
  exact ⟨rfl, hkind, ⟨first, hfirst, hstart ▸ rfl⟩, ⟨last, hlast, hstop ▸ rfl⟩,
    n, t, hname, ht, hselection⟩

/-- The outline has one item for each definition, in the order of the statements. -/
theorem ensures_outline (d : Dialect) (source : Bytes) :
    Ensures (parse d source).outline (List.Forall₂ (OutlineItem.Lists (parse d source))
      ((parse d source).statements.toList.filter (·.isDefinition))) := by
  have each : ∀ item ∈ (parse d source).definingStatements,
      Ensures ((parse d source).outlineItem item.1 item.2)
        (OutlineItem.Lists (parse d source) item.1) := by
    intro item hitem
    obtain ⟨s, hs, hmap⟩ := List.mem_filterMap.1 hitem
    obtain ⟨kind, hkind, rfl⟩ := Option.map_eq_some_iff.1 hmap
    exact ensures_outlineItem hs hkind
  obtain ⟨items, hitems, listed⟩ := ensures_mapM each
  refine ⟨items, hitems, ?_⟩
  rw [← map_fst_definingStatements, List.forall₂_map_left_iff]
  exact listed

section Lists

variable {item item' : OutlineItem} {s' : Statement}

/-- The name lies within the statement. -/
theorem selection_within (hs : s ∈ (parse d source).statements.toList)
    (h : item.Lists (parse d source) s) :
    item.span.start ≤ item.selection.start ∧ item.selection.start ≤ item.selection.stop ∧
      item.selection.stop ≤ item.span.stop := by
  have hdef : s.isDefinition = true := by simp [Statement.isDefinition, h.kind]
  obtain ⟨first, hfirst, hstart⟩ := h.start
  obtain ⟨last, hlast, hstop⟩ := h.stop
  obtain ⟨n, t, hname, ht, hselection⟩ := h.selection
  obtain ⟨m, -, hm, hle, hlt, -⟩ := exists_name_of_isDefinition hs hdef
  obtain rfl : m = n := Option.some.inj (hm.symm.trans hname)
  rw [hstart, hstop, hselection]
  exact ⟨position_le_of_le hfirst ht hle, t.position.le_advance t.text,
    stop_le_of_le ht hlast (by omega)⟩

theorem stop_le_start_of_lists (hs : s ∈ (parse d source).statements.toList)
    (h : item.Lists (parse d source) s) (h' : item'.Lists (parse d source) s')
    (hle : s.start + s.count ≤ s'.start) : item.span.stop ≤ item'.span.start := by
  have hpos := ((sound_parse d source).extent s (Array.mem_toList_iff.1 hs)).1
  obtain ⟨last, hlast, hstop⟩ := h.stop
  obtain ⟨first, hfirst, hstart⟩ := h'.start
  rw [hstop, hstart]
  exact stop_le_position_of_lt hlast hfirst (by omega)

end Lists

/-! ## Names of definitions -/

section Agreement

variable {items : List OutlineItem} {hs : List Highlight}

/-- What the outline selects are the names of the definitions. -/
theorem selections_eq {ix : SymbolIndex} (listed : List.Forall₂ (OutlineItem.Lists ix)
      (ix.statements.toList.filter (·.isDefinition)) items) :
    (items.map (·.selection)).map some =
      ix.declaredNames.map fun n => ix.tokens[n]?.map Token.span := by
  have names : ix.declaredNames =
      (ix.statements.toList.filter (·.isDefinition)).filterMap (·.name?) := by
    rw [List.filterMap_filter]
    rfl
  rw [names]
  generalize ix.statements.toList.filter (·.isDefinition) = definitions at listed
  induction listed with
  | nil => rfl
  | cons h _ ih =>
    obtain ⟨n, t, hname, ht, hselection⟩ := h.selection
    simp [hname, ht, hselection, ih]

/-- There is something to show of every name. -/
theorem isShown_of_identifier {t : Token} (ht : t ∈ (parse d source).tokens.toList)
    (hkind : t.kind = .identifier) : t.isShown = true := by
  obtain ⟨-, -, -, -, -, hne, -⟩ := exists_cut ht
  simp [Token.isShown, hkind, firstLine_of_forall (not_isBreak_of_identifier ht hkind), hne]

theorem exists_identifier_of_mem_declaredNames {n : Nat}
    (hn : n ∈ (parse d source).declaredNames) :
    ∃ t, (parse d source).tokens[n]? = some t ∧ t.kind = .identifier := by
  obtain ⟨s, hs, hdef, hname⟩ := mem_declaredNames_iff.1 hn
  obtain ⟨m, t, hm, -, -, ht, hkind⟩ :=
    exists_name_of_isDefinition (Array.mem_toList_iff.2 hs) hdef
  obtain rfl : m = n := Option.some.inj (hm.symm.trans hname)
  exact ⟨t, ht, hkind⟩

/-- Among the tokens that are shown, those that name a definition come in the order of the
definitions. -/
theorem map_snd_declared (d : Dialect) (source : Bytes) :
    (((parse d source).tokens.toList.zipIdx.filter (·.1.isShown)).filter fun item =>
      (parse d source).declaredNames.contains item.2).map Prod.snd =
        (parse d source).declaredNames := by
  have ordered : (parse d source).tokens.toList.zipIdx.Pairwise fun x y => x.2 < y.2 := by
    rw [← List.pairwise_map, List.zipIdx_map_snd]
    exact List.pairwise_lt_range'
  -- both lists are ascending, so only their members have to be compared
  refine List.Pairwise.eq_of_mem_iff (List.pairwise_map.2 ((ordered.filter _).filter _))
    (pairwise_declaredNames_parse d source) fun n => ?_
  constructor
  · intro hn
    obtain ⟨item, hitem, rfl⟩ := List.mem_map.1 hn
    exact List.contains_iff_mem.1 (List.mem_filter.1 hitem).2
  · intro hn
    obtain ⟨t, ht, hkind⟩ := exists_identifier_of_mem_declaredNames hn
    have hitem : (t, n) ∈ (parse d source).tokens.toList.zipIdx :=
      List.mem_zipIdx_iff_getElem?.2 (by simpa using ht)
    have shown := isShown_of_identifier (mem_tokens_of_getElem? ht) hkind
    exact List.mem_map.2 ⟨(t, n), by simp [hitem, shown, hn], rfl⟩

/-- A name is highlighted over its whole length. -/
theorem span_of_shows {item : Token × Nat} {h : Highlight}
    (ht : (parse d source).tokens[item.2]? = some item.1)
    (hn : item.2 ∈ (parse d source).declaredNames) (shows : h.Shows (parse d source) item) :
    h.span = item.1.span := by
  obtain ⟨t, ht', hkind⟩ := exists_identifier_of_mem_declaredNames hn
  obtain rfl : item.1 = t := Option.some.inj (ht.symm.trans ht')
  have line := not_isBreak_of_identifier (mem_tokens_of_getElem? ht) hkind
  rw [Highlight.span, Token.span_of_forall line, shows.position, shows.length,
    firstLine_of_forall line]

/-- What is highlighted as a declaration are the names of the definitions. -/
theorem declarations_eq (shown : List.Forall₂ (Highlight.Shows (parse d source))
      ((parse d source).tokens.toList.zipIdx.filter (·.1.isShown)) hs) :
    ((hs.filter (·.declares)).map Highlight.span).map some =
      (parse d source).declaredNames.map fun n => (parse d source).tokens[n]?.map Token.span := by
  have agree ⦃item : Token × Nat⦄ ⦃h : Highlight⦄ (shows : h.Shows (parse d source) item) :
      (parse d source).declaredNames.contains item.2 = true ↔ h.declares = true := by
    rw [List.contains_iff_mem, mem_declaredNames_iff, shows.declares]
  have declared := List.rel_filter
    (p := fun item : Token × Nat => (parse d source).declaredNames.contains item.2)
    (q := Highlight.declares) agree shown
  have places : ∀ item ∈ ((parse d source).tokens.toList.zipIdx.filter (·.1.isShown)).filter
      fun item => (parse d source).declaredNames.contains item.2,
      (parse d source).tokens[item.2]? = some item.1 ∧
        item.2 ∈ (parse d source).declaredNames := by
    intro item hitem
    obtain ⟨hitem, hn⟩ := List.mem_filter.1 hitem
    have ht := List.mem_zipIdx_iff_getElem?.1 (List.mem_filter.1 hitem).1
    exact ⟨by simpa using ht, List.contains_iff_mem.1 hn⟩
  rw [← map_snd_declared, List.map_map, List.map_map, ← List.forall₂_eq_eq_eq,
    List.forall₂_map_left_iff, List.forall₂_map_right_iff]
  -- the spans agree for names only: other tokens may be shown on their first line alone
  refine (((List.forall₂_and_left _ _).2 ⟨places, declared⟩).imp ?_).flip
  rintro item h ⟨⟨ht, hn⟩, shows⟩
  simp [flip, ht, span_of_shows ht hn shows]

/-- The highlights of a source of less than 2^32 bytes are in order, and fit into 32 bits. -/
theorem inOrder_of_shows (hsize : source.length < 2 ^ 32)
    (shown : List.Forall₂ (Highlight.Shows (parse d source))
      ((parse d source).tokens.toList.zipIdx.filter (·.1.isShown)) hs) :
    Highlight.InOrder .origin hs := by
  have ordered := (pairwise_before_of_shows shown).imp Highlight.Before.le
  refine Highlight.inOrder_of_pairwise ⟨by decide, by decide⟩ (fun h hh => ?_) ordered
    fun h hh => ?_
  · obtain ⟨t, ht, -, hposition, hlength⟩ := exists_token_of_shows shown hh
    obtain ⟨fits, length⟩ := fits_of_mem_tokens hsize ht
    exact ⟨hposition ▸ fits, hlength ▸ length⟩
  · obtain ⟨t, ht, -, hposition, -⟩ := exists_token_of_shows shown hh
    rw [tokens_parse] at ht
    exact hposition ▸ Lexeme.le_position_of_mem_tokens ht

/-- The outline and the highlights agree. The outline lists the definitions in order, each with the
stretch of its statement, in which its name is selected; these stretches do not overlap. The names
that it selects are the stretches that are highlighted as declarations. -/
theorem outline_agrees_with_highlights (d : Dialect) (source : Bytes) :
    let ix := parse d source
    ∃ items hs, ix.outline = .ok items ∧ ix.highlights = .ok hs ∧
      List.Forall₂ (OutlineItem.Lists ix) (ix.statements.toList.filter (·.isDefinition)) items ∧
      (∀ item ∈ items, item.span.start ≤ item.selection.start ∧
        item.selection.start ≤ item.selection.stop ∧ item.selection.stop ≤ item.span.stop) ∧
      items.Pairwise (fun item item' => item.span.stop ≤ item'.span.start) ∧
      items.map (·.selection) = (hs.filter (·.declares)).map Highlight.span ∧
      Highlight.encode hs = (Highlight.differencesFrom .origin hs).map UInt32.ofInt ∧
      (source.length < 2 ^ 32 → Highlight.decode? (Highlight.encode hs) = some hs) := by
  intro ix
  obtain ⟨items, hitems, listed⟩ := ensures_outline d source
  obtain ⟨hs, hhs, shown⟩ := (sound_parse d source).ensures_highlights
  have members := (List.forall₂_and_left _ _).2 ⟨fun s hmem => (List.mem_filter.1 hmem).1, listed⟩
  have ordered := (pairwise_statements_parse d source).filter (·.isDefinition)
  refine ⟨items, hs, hitems, hhs, listed, fun item hitem => ?_, ?_, ?_, ?_, ?_⟩
  · obtain ⟨i, hi, rfl⟩ := List.getElem_of_mem hitem
    obtain ⟨hmem, h⟩ := members.get (members.length_eq ▸ hi) hi
    exact selection_within hmem h
  · exact pairwise_of_forall₂ members ordered fun _ _ _ _ ⟨hmem, h⟩ ⟨_, h'⟩ =>
      stop_le_start_of_lists hmem h h'
  · have same := (selections_eq listed).trans (declarations_eq shown).symm
    exact List.map_injective_iff.2 (Option.some_injective _) same
  · exact Highlight.encodeFrom_eq_map .origin hs
  · exact fun hsize => (inOrder_of_shows hsize shown).decodeFrom?_encodeFrom

/-- A constant that is named behind its directive, and whose value has nothing to show on its first
line, and a label. -/
theorem outline_agrees_with_highlights_constant_label :
    let source : Bytes :=
      [0x2E, 0x63, 0x6F, 0x6E, 0x73, 0x74, 0x20, 0x61, 0x3D, 0x27, 0x0A, 0x27, 0x0A, 0x62, 0x3A]
    let hs : List Highlight :=
      [⟨⟨0, 0⟩, 6, .directive, false⟩, ⟨⟨0, 7⟩, 1, .symbol, true⟩,
        ⟨⟨0, 8⟩, 1, .operator, false⟩, ⟨⟨2, 0⟩, 1, .symbol, true⟩]
    source.length < 2 ^ 32 ∧ (parse .kick source).highlights = .ok hs ∧
      Highlight.decode? (Highlight.encode hs) = some hs ∧
      ∃ items, (parse .kick source).outline = .ok items ∧
        items.map (·.selection) = [⟨⟨0, 7⟩, ⟨0, 8⟩⟩, ⟨⟨2, 0⟩, ⟨2, 1⟩⟩] ∧
        items.Pairwise (fun item item' => item.span.stop ≤ item'.span.start) ∧
        ∃ item ∈ items, item.selection = ⟨⟨0, 7⟩, ⟨0, 8⟩⟩ ∧ item.span.start ≤ ⟨0, 7⟩ ∧
          ⟨0, 8⟩ ≤ item.span.stop := by
  intro source hs
  have hlexemes : lexemes .kick source =
      [.token .directive [.char '.', .char 'c', .char 'o', .char 'n', .char 's', .char 't'],
        .skipped [.char ' '], .token .identifier [.char 'a'], .token .operator [.char '='],
        .skipped [.char '\''], .token .string [.char '\n'], .skipped [.char '\''],
        .token .lineBreak [.char '\n'], .token .identifier [.char 'b'], .skipped [.char ':']] := by
    cbv
  have hsize : source.length < 2 ^ 32 := by decide
  have hhs : (parse .kick source).highlights = .ok hs := by
    simp only [parse, gather, hlexemes]
    rfl
  obtain ⟨items, hs', hitems, hhs', -, within, ordered, same, -, decoded⟩ :=
    outline_agrees_with_highlights .kick source
  obtain rfl : hs' = hs := Except.ok.inj (hhs'.symm.trans hhs)
  have hmem : ⟨⟨0, 7⟩, ⟨0, 8⟩⟩ ∈ items.map (·.selection) := by
    rw [same]
    decide
  obtain ⟨item, hitem, hselection⟩ := List.mem_map.1 hmem
  obtain ⟨hstart, -, hstop⟩ := within item hitem
  rw [hselection] at hstart hstop
  exact ⟨hsize, hhs, decoded hsize, items, hitems, same, ordered, item, hitem, hselection, hstart,
    hstop⟩

end Agreement

end SymbolIndex

end Asm6502
