import Asm6502.Proofs.ExactTables
import Asm6502.Proofs.TokenShapes
import Asm6502.Query.Completion
import Asm6502.Query.Highlight
import Asm6502.Query.Hover
import Asm6502.Query.Outline

/-!
# Queries without faults

A query reads tables through indices that other tables hold. In a sound index all of these are
within bounds, so no query meets a fault, whatever the position it asks about. The index of every
text is sound.

## Main definitions

- `Checked.Ensures`: a computation without fault whose value has a property.
- `SymbolIndex.Sound`: the indices that tables hold are within bounds.

## Main statements

- `SymbolIndex.sound_parse`: the index of a text is sound.
- `SymbolIndex.Sound.hoverAt`, `SymbolIndex.Sound.definitionAt`, `SymbolIndex.Sound.referencesAt`,
  `SymbolIndex.Sound.outline`, `SymbolIndex.Sound.completeAt`, `SymbolIndex.Sound.highlights`: the
  queries about a sound index.
-/

namespace Asm6502

namespace Checked

variable {α β : Type} {x : Checked α} {P : α → Prop} {R : β → Prop}

/-- The computation meets no fault, and its value satisfies `P`. -/
def Ensures (x : Checked α) (P : α → Prop) : Prop :=
  ∃ a, x = .ok a ∧ P a

/-- The computation meets no fault. -/
abbrev Succeeds (x : Checked α) : Prop :=
  Ensures x fun _ => True

theorem ensures_pure {a : α} (h : P a) : Ensures (pure a) P :=
  ⟨a, rfl, h⟩

theorem succeeds_pure (a : α) : Succeeds (pure a) :=
  ensures_pure trivial

theorem Ensures.succeeds (h : Ensures x P) : Succeeds x := by
  obtain ⟨a, ha, -⟩ := h
  exact ⟨a, ha, trivial⟩

@[simp] theorem ok_bind (a : α) (f : α → Checked β) : (Except.ok a : Checked α) >>= f = f a := rfl

theorem bind_eq_ok_iff {f : α → Checked β} {b : β} :
    x >>= f = .ok b ↔ ∃ a, x = .ok a ∧ f a = .ok b := by
  cases x with
  | error e => exact iff_of_false nofun (by simp)
  | ok a => simp

theorem Ensures.bind {f : α → Checked β} (h : Ensures x P) (hf : ∀ a, P a → Ensures (f a) R) :
    Ensures (x >>= f) R := by
  obtain ⟨a, rfl, ha⟩ := h
  exact hf a ha

theorem Ensures.map {f : α → β} (h : Ensures x P) (hf : ∀ a, P a → R (f a)) :
    Ensures (f <$> x) R := by
  obtain ⟨a, rfl, ha⟩ := h
  exact ⟨f a, rfl, hf a ha⟩

theorem ensures_mapM {f : α → Checked β} {S : α → β → Prop} {xs : List α}
    (h : ∀ a ∈ xs, Ensures (f a) (S a)) : Ensures (xs.mapM f) (List.Forall₂ S xs) := by
  induction xs with
  | nil => exact ensures_pure .nil
  | cons a as ih =>
    rw [List.mapM_cons]
    refine (h a List.mem_cons_self).bind fun b hb => ?_
    exact (ih fun a' ha' => h a' (List.mem_cons_of_mem a ha')).bind fun _ hbs =>
      ensures_pure (.cons hb hbs)

theorem succeeds_mapM {f : α → Checked β} {xs : List α} (h : ∀ a ∈ xs, Succeeds (f a)) :
    Succeeds (xs.mapM f) :=
  (ensures_mapM h).succeeds

theorem mapM_eq_ok {f : α → Checked β} {g : α → β} {xs : List α}
    (h : ∀ a ∈ xs, f a = .ok (g a)) : xs.mapM f = .ok (xs.map g) := by
  induction xs with
  | nil => rfl
  | cons a xs ih =>
    rw [List.mapM_cons, h a List.mem_cons_self, ih fun x hx => h x (List.mem_cons_of_mem a hx)]
    rfl

theorem ensures_entry {xs : Array α} {i : Nat} (h : i < xs.size) :
    Ensures (entry xs i) fun a => xs[i]? = some a := by
  have hi : xs[i]? = some xs[i] := Array.getElem?_eq_getElem h
  exact ⟨xs[i], entry_eq_ok_iff.2 hi, hi⟩

theorem entry_pred (xs : Array α) {i : Int} {n : Nat} (hi : i = n + 1) :
    entry xs (i - 1) = entry xs n := by
  rw [hi, Int.add_sub_cancel]

theorem ensures_entry_pred {xs : Array α} {i : Int} {n : Nat} (hi : i = n + 1)
    (h : n < xs.size) : Ensures (entry xs (i - 1)) fun a => xs[n]? = some a := by
  rw [entry_pred xs hi]
  exact ensures_entry h

theorem ensures_entry_zero {xs : List α} (h : xs ≠ []) :
    Ensures (entry xs.toArray 0) fun a => xs.head? = some a := by
  obtain ⟨a, more, rfl⟩ := List.exists_cons_of_ne_nil h
  exact ⟨a, entry_eq_ok_iff (i := 0) |>.2 rfl, rfl⟩

end Checked

open Checked (Ensures Succeeds ensures_pure succeeds_pure succeeds_mapM ensures_entry
  ensures_entry_pred ensures_entry_zero)

namespace Table

variable {κ ν : Type} [DecidableEq κ]

theorem mem_of_find? {t : Table κ ν} {k : κ} {v : ν} (h : find? t k = some v) : (k, v) ∈ t := by
  induction t with
  | nil => simp [find?] at h
  | cons e t ih =>
    rw [find?] at h
    split at h
    · rename_i hk
      obtain rfl : e.2 = v := Option.some.inj h
      simp [hk]
    · exact List.mem_cons_of_mem e (ih h)

theorem find?_eq_some_of_mem {t : Table κ ν} (nodup : (keys t).Nodup) {e : κ × ν} (h : e ∈ t) :
    find? t e.1 = some e.2 := by
  induction t with
  | nil => simp at h
  | cons e' t ih =>
    rw [keys, List.map_cons, List.nodup_cons] at nodup
    rw [find?]
    rcases List.mem_cons.1 h with rfl | h
    · simp
    · -- the key cannot be that of the first entry as well
      have hne : e.1 ≠ e'.1 := fun heq => nodup.1 (heq ▸ List.mem_map_of_mem h)
      simpa [hne] using ih nodup.2 h

end Table

namespace Search

variable {α : Type} {xs : Array α} {p : α → Bool}

theorem firstBetween_le {lo hi : Nat} {bound : hi ≤ xs.size} (h : lo ≤ hi) :
    firstBetween xs p lo hi bound ≤ hi := by
  fun_induction firstBetween xs p lo hi bound with
  | case1 lo hi bound hlt mid hmid hp ih =>
    have := ih (by omega)
    omega
  | case2 lo hi bound hlt mid hmid hp ih => exact ih (by omega)
  | case3 lo hi bound hlt => exact h

theorem first_le (xs : Array α) (p : α → Bool) : first xs p ≤ xs.size :=
  firstBetween_le (Nat.zero_le _)

end Search

namespace SymbolIndex

/-- All indices that the tables hold are within bounds, and so are the ranges of the tokens. -/
structure Sound (ix : SymbolIndex) : Prop where
  span : ∀ t ∈ ix.tokens, ∃ span, ix.spanOf t = .ok span
  line : ∀ i : Nat, i < ix.tokens.size → ∃ line, ix.lineText i = .ok line
  extent : ∀ s ∈ ix.statements, 0 < s.count ∧ s.start + s.count ≤ ix.tokens.size
  name : ∀ s ∈ ix.statements, s.isDefinition = true →
    ∃ n, s.name? = some n ∧ n < ix.tokens.size
  definition : ∀ entry ∈ ix.definitions,
    ∃ s, ix.statements[entry.2]? = some s ∧ s.isDefinition = true
  /-- A preprocessor line holds a word. -/
  keyword : ∀ t ∈ ix.tokens, t.kind = .preprocessor → ∃ word more, Text.fields t.text = word :: more

theorem succeeds_statementAt (ix : SymbolIndex) (i : Nat) : Succeeds (ix.statementAt i) := by
  unfold statementAt
  have le := Search.first_le ix.statements fun s => i < s.start + s.count
  dsimp only
  generalize Search.first ix.statements (fun s => i < s.start + s.count) = j at le
  split
  · exact succeeds_pure _
  · exact (ensures_entry (by omega)).bind fun s _ => succeeds_pure _

theorem succeeds_namesFile (ix : SymbolIndex) (i : Nat) : Succeeds (ix.namesFile i) :=
  (succeeds_statementAt ix i).bind fun _ _ => succeeds_pure _

namespace Sound

variable {ix : SymbolIndex}

/-! ## Navigation -/

theorem spanOf (h : ix.Sound) {t : Token} (ht : t ∈ ix.tokens) :
    Succeeds (ix.spanOf t) := by
  obtain ⟨span, hspan⟩ := h.span t ht
  exact ⟨span, hspan, trivial⟩

theorem tokenAt (h : ix.Sound) (pos : Position) :
    Ensures (ix.tokenAt pos) fun i? => ∀ i ∈ i?, i < ix.tokens.size := by
  unfold SymbolIndex.tokenAt
  have behind := Search.first_le ix.tokens (·.position.isAfter pos)
  dsimp only
  generalize Search.first ix.tokens (·.position.isAfter pos) = n at behind
  split
  · exact ensures_pure (by simp)
  · refine (ensures_entry_pred (n := n - 1) (by omega) (by omega)).bind fun t ht => ?_
    split
    · exact ensures_pure (by simp)
    · refine (h.spanOf (Array.mem_of_getElem? ht)).bind fun span _ => ?_
      split
      · exact ensures_pure (by simp)
      · refine ensures_pure ?_
        rintro _ ⟨⟩
        omega

theorem symbolAt (h : ix.Sound) (pos : Position) :
    Ensures (ix.symbolAt pos) fun symbol? => ∀ symbol ∈ symbol?, symbol.2 < ix.tokens.size := by
  unfold SymbolIndex.symbolAt
  refine (h.tokenAt pos).bind fun i? hi => ?_
  cases i? with
  | none => exact ensures_pure (by simp)
  | some i =>
    have hi : i < ix.tokens.size := hi i rfl
    refine (ensures_entry hi).bind fun t ht => ?_
    -- a mark in front of a name stands for the name, unless the text ends with it
    have hj : (if t.kind = .reference ∧ i + 1 < ix.tokens.size then i + 1 else i) <
        ix.tokens.size := by
      split
      · rename_i hnext
        exact hnext.2
      · exact hi
    refine (ensures_entry hj).bind fun t' ht' => ensures_pure ?_
    split
    · rintro _ ⟨⟩
      exact hj
    · simp

theorem lookup (h : ix.Sound) (name : Text) :
    Ensures (ix.lookup name) fun s? => ∀ s ∈ s?, s ∈ ix.statements ∧ s.isDefinition = true := by
  unfold SymbolIndex.lookup
  split
  · rename_i i hfind
    obtain ⟨s, hs, hdef⟩ := h.definition (name, i) (Table.mem_of_find? hfind)
    refine (ensures_entry (Array.getElem?_eq_some_iff.1 hs).1).map fun s' hs' => ?_
    obtain rfl : s = s' := Option.some.inj (hs.symm.trans hs')
    rintro _ ⟨⟩
    exact ⟨Array.mem_of_getElem? hs, hdef⟩
  · exact ensures_pure (by simp)

theorem resolve (h : ix.Sound) (name : Text) :
    Ensures (ix.resolve name) fun s? => ∀ s ∈ s?, s ∈ ix.statements ∧ s.isDefinition = true := by
  unfold SymbolIndex.resolve
  refine (h.lookup name).bind fun s? hs => ?_
  cases s? with
  | some s => exact ensures_pure hs
  | none =>
    dsimp only
    split
    · exact h.lookup _
    · exact ensures_pure (by simp)

theorem nameToken (h : ix.Sound) {s : Statement} (hs : s ∈ ix.statements)
    (hdef : s.isDefinition = true) : Ensures (ix.nameToken s) fun t => t ∈ ix.tokens := by
  obtain ⟨n, hname, hn⟩ := h.name s hs hdef
  unfold SymbolIndex.nameToken
  rw [hname]
  obtain ⟨t, ht, hget⟩ := ensures_entry hn
  exact ⟨t, ht, Array.mem_of_getElem? hget⟩

/-! ## Locations -/

theorem definitionAt (h : ix.Sound) (uri : String) (pos : Position) :
    Succeeds (ix.definitionAt uri pos) := by
  unfold SymbolIndex.definitionAt
  refine (h.tokenAt pos).bind fun i? hi => ?_
  cases i? with
  | none => exact succeeds_pure _
  | some i =>
    refine (ensures_entry (hi i rfl)).bind fun t _ => ?_
    split
    · refine (succeeds_namesFile ix i).bind fun names _ => ?_
      split <;> exact succeeds_pure _
    · refine (h.symbolAt pos).bind fun symbol? _ => ?_
      cases symbol? with
      | none => exact succeeds_pure _
      | some symbol =>
        refine (h.resolve symbol.1).bind fun s? hs => ?_
        cases s? with
        | none => exact succeeds_pure _
        | some s =>
          obtain ⟨hs, hdef⟩ := hs s rfl
          refine (h.nameToken hs hdef).bind fun t ht => ?_
          exact (h.spanOf ht).bind fun _ _ => succeeds_pure _

theorem spellings (h : ix.Sound) (name : Text) : Succeeds (ix.spellings name) := by
  unfold SymbolIndex.spellings
  split
  · exact succeeds_pure _
  · exact (h.lookup _).bind fun _ _ => succeeds_pure _

theorem declarations (h : ix.Sound) (names : List Text) :
    Succeeds (ix.declarations names) := by
  unfold SymbolIndex.declarations
  refine (succeeds_mapM fun name _ => ?_).bind fun _ _ => succeeds_pure _
  exact (h.lookup name).succeeds

theorem lt_size_of_mem_occurrences {name : Text} {i : Nat} (hi : i ∈ ix.occurrences name) :
    i < ix.tokens.size := by
  rw [SymbolIndex.occurrences, List.mem_filter, List.mem_range] at hi
  exact hi.1

theorem referencesAt (h : ix.Sound) (uri : String) (pos : Position) (withDeclarations : Bool) :
    Succeeds (ix.referencesAt uri pos withDeclarations) := by
  unfold SymbolIndex.referencesAt
  refine (h.symbolAt pos).bind fun symbol? _ => ?_
  cases symbol? with
  | none => exact succeeds_pure _
  | some symbol =>
    refine (h.spellings symbol.1).bind fun names _ => ?_
    refine (h.declarations names).bind fun declared _ => ?_
    refine succeeds_mapM fun i hi => ?_
    have hmem : i ∈ names.flatMap ix.occurrences :=
      List.mem_mergeSort.1 (List.mem_of_mem_filter hi)
    obtain ⟨name, -, hi⟩ := List.mem_flatMap.1 hmem
    refine (ensures_entry (lt_size_of_mem_occurrences hi)).bind fun t ht => ?_
    exact (h.spanOf (Array.mem_of_getElem? ht)).bind fun _ _ => succeeds_pure _

/-! ## Hover texts -/

theorem describeDefinition (h : ix.Sound) {s : Statement} (hs : s ∈ ix.statements)
    (hdef : s.isDefinition = true) : Succeeds (ix.describeDefinition s) := by
  unfold SymbolIndex.describeDefinition
  refine (h.nameToken hs hdef).bind fun t _ => ?_
  obtain ⟨n, hname, hn⟩ := h.name s hs hdef
  obtain ⟨line, hline⟩ := h.line n hn
  have hline : ix.lineText ((s.name?.map Int.ofNat).getD (-1)) = .ok line := by
    rw [hname]
    exact hline
  rw [hline]
  exact succeeds_pure _

theorem describeSymbol (h : ix.Sound) (name : Text) :
    Succeeds (ix.describeSymbol name) := by
  unfold SymbolIndex.describeSymbol
  split
  · exact succeeds_pure _
  · refine (h.resolve name).bind fun s? hs => ?_
    cases s? with
    | none => exact succeeds_pure _
    | some s => exact h.describeDefinition (hs s rfl).1 (hs s rfl).2

theorem describeToken (h : ix.Sound) (i : Nat) {t : Token} (ht : t ∈ ix.tokens) :
    Succeeds (ix.describeToken i t) := by
  unfold SymbolIndex.describeToken
  split
  · exact succeeds_pure _
  · rename_i hkind
    obtain ⟨word, more, hfields⟩ := h.keyword t ht hkind
    refine (ensures_entry_zero ?_).bind fun _ _ => succeeds_pure _
    simp [hfields]
  · exact succeeds_pure _
  · exact (succeeds_namesFile ix i).bind fun _ _ => succeeds_pure _
  · exact succeeds_pure _

theorem hoverAt (h : ix.Sound) (pos : Position) : Succeeds (ix.hoverAt pos) := by
  unfold SymbolIndex.hoverAt
  refine (h.tokenAt pos).bind fun i? hi => ?_
  cases i? with
  | none => exact succeeds_pure _
  | some i =>
    refine (ensures_entry (hi i rfl)).bind fun t ht => ?_
    have ht : t ∈ ix.tokens := Array.mem_of_getElem? ht
    refine (h.spanOf ht).bind fun span _ => ?_
    split
    · refine (h.symbolAt pos).bind fun symbol? hsymbol => ?_
      cases symbol? with
      | none => exact succeeds_pure _
      | some symbol =>
        refine (ensures_entry (hsymbol symbol rfl)).bind fun t' ht' => ?_
        refine (h.spanOf (Array.mem_of_getElem? ht')).bind fun _ _ => ?_
        exact (h.describeSymbol symbol.1).bind fun _ _ => succeeds_pure _
    · exact (h.describeToken i ht).bind fun _ _ => succeeds_pure _

/-! ## Lists -/

theorem outlineItem (h : ix.Sound) {s : Statement} (hs : s ∈ ix.statements)
    (hdef : s.isDefinition = true) (kind : DefinitionKind) :
    Succeeds (ix.outlineItem s kind) := by
  obtain ⟨hpos, hle⟩ := h.extent s hs
  unfold SymbolIndex.outlineItem
  refine (ensures_entry (by omega)).bind fun first hfirst => ?_
  refine (h.spanOf (Array.mem_of_getElem? hfirst)).bind fun _ _ => ?_
  refine (ensures_entry_pred (n := s.start + s.count - 1) (by omega) (by omega)).bind
    fun last hlast => ?_
  refine (h.spanOf (Array.mem_of_getElem? hlast)).bind fun _ _ => ?_
  refine (h.nameToken hs hdef).bind fun t ht => ?_
  exact (h.spanOf ht).bind fun _ _ => succeeds_pure _

theorem outline (h : ix.Sound) : Succeeds ix.outline := by
  refine succeeds_mapM fun item hitem => ?_
  obtain ⟨s, hs, hkind⟩ := List.mem_filterMap.1 hitem
  obtain ⟨kind, hdef, rfl⟩ := Option.map_eq_some_iff.1 hkind
  exact h.outlineItem (Array.mem_toList_iff.1 hs) (by simp [Statement.isDefinition, hdef]) kind

theorem suggestions (h : ix.Sound) (word : Text) : Succeeds (Completion.suggestions ix word) := by
  have keywords (nonempty : word ≠ []) : Succeeds (Completion.keywords ix.dialect word) := by
    have own : Succeeds (Completion.ownDirectives ix.dialect word) := by
      unfold Completion.ownDirectives
      split
      · exact succeeds_pure _
      · exact (ensures_entry_zero nonempty).bind fun _ _ => succeeds_pure _
    exact own.bind fun _ _ => succeeds_pure _
  have instructions (nonempty : word ≠ []) : Succeeds (Completion.instructions ix.dialect word) :=
    (ensures_entry_zero nonempty).bind fun _ _ => succeeds_pure _
  have symbols : Succeeds (Completion.symbols ix.statements ix.definitions word) := by
    refine succeeds_mapM fun entry hentry => ?_
    obtain ⟨s, hs, -⟩ := h.definition entry (List.mem_of_mem_filter hentry)
    exact (ensures_entry (Array.getElem?_eq_some_iff.1 hs).1).bind fun _ _ => succeeds_pure _
  unfold Completion.suggestions Completion.suggestionsFrom
  split
  · exact succeeds_pure _
  · rename_i h
    have nonempty : word ≠ [] := by simpa using h
    refine (keywords nonempty).bind fun _ _ => ?_
    refine (instructions nonempty).bind fun _ _ => ?_
    exact symbols.bind fun _ _ => succeeds_pure _

theorem completeAt (h : ix.Sound) (pos : Position) : Succeeds (ix.completeAt pos) :=
  (h.suggestions _).bind fun _ _ => succeeds_pure _

theorem highlightKind? (h : ix.Sound) (t : Token) :
    Ensures (ix.highlightKind? t) fun kind? => kind? = none ↔ t.kind = .lineBreak := by
  have name : Succeeds (ix.nameHighlight t.text) := by
    unfold SymbolIndex.nameHighlight
    split
    · exact succeeds_pure _
    · exact (h.resolve t.text).bind fun _ _ => succeeds_pure _
  unfold SymbolIndex.highlightKind?
  cases t.kind with
  | identifier => exact name.map fun _ _ => by simp
  | _ => exact ensures_pure (by simp)

theorem highlight? (h : ix.Sound) (declared : List Nat) (t : Token) (i : Nat) :
    Succeeds (ix.highlight? declared t i) := by
  unfold SymbolIndex.highlight?
  refine (h.highlightKind? t).bind fun kind? _ => ?_
  cases kind? <;> exact succeeds_pure _

theorem highlights (h : ix.Sound) : Succeeds ix.highlights := by
  refine (succeeds_mapM fun item _ => ?_).bind fun _ _ => succeeds_pure _
  exact h.highlight? _ item.1 item.2

end Sound

/-! ## The index of a text -/

/-- The line of a directive for the preprocessor opens with its keyword. -/
theorem exists_keyword {d : Dialect} {front text back : Text}
    (h : TokenKind.preprocessor.Shape d front text back) :
    ∃ word more, Text.fields text = word :: more := by
  obtain ⟨-, -, more, rfl, -⟩ := h
  have hsharp : (Glyph.char '#').satisfies Text.isBlank = false := by decide
  obtain ⟨word, words, hsplit⟩ :=
    List.exists_cons_of_ne_nil (List.splitOnP_ne_nil (Glyph.satisfies Text.isBlank) more)
  refine ⟨.char '#' :: word, words.filter (!·.isEmpty), ?_⟩
  simp [Text.fields, List.splitOnP_cons_eq_if_modifyHead, hsharp, hsplit]

theorem sound_parse (d : Dialect) (source : Bytes) : (parse d source).Sound where
  span t ht := ⟨t.span, spanOf_eq_span (Array.mem_toList_iff.2 ht)⟩
  line i hi := ⟨_, lineText_eq (Array.getElem?_eq_getElem hi)⟩
  extent s hs := by
    obtain ⟨hle, hpos, -⟩ := exists_name_of_mem_statements (Array.mem_toList_iff.2 hs)
    exact ⟨hpos, hle⟩
  name s hs hdef := by
    obtain ⟨-, -, hrole | ⟨i, t, -, ht, named⟩⟩ :=
      exists_name_of_mem_statements (Array.mem_toList_iff.2 hs)
    · simp [Statement.isDefinition, Statement.definitionKind?, hrole] at hdef
    · exact ⟨s.start + i, named.name?_eq, (Array.getElem?_eq_some_iff.1 ht).1⟩
  definition entry hentry := by
    have hfind : (parse d source).definitions.find? entry.1 = some entry.2 :=
      Table.find?_eq_some_of_mem (nodup_keys_definitions d source) hentry
    obtain ⟨s, hs, hdef, -⟩ := find?_definitions_eq_some_iff.1 hfind
    exact ⟨s, hs, hdef⟩
  keyword t ht hkind := by
    obtain ⟨before, l, after, -, -, -, shape⟩ := exists_shaped_lexeme (Array.mem_toList_iff.2 ht)
    rw [hkind] at shape
    exact exists_keyword shape

end SymbolIndex

end Asm6502
