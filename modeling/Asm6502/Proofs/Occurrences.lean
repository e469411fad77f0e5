import Asm6502.Proofs.PositionSearch

/-!
# The occurrences of a symbol

A question about the references to a symbol lists the identifiers that spell it. Asked again at any
place of the list, it gives the same list, so these lists divide the identifiers of a text among its
symbols.

## Main definitions

- `Text.unmarked`: a name without the mark in front of it.
- `Token.spells`: an identifier that spells one of several names.

## Main statements

- `SymbolIndex.spellings_parse`, `SymbolIndex.spellings_eq_of_mem`: the spellings of a symbol do not
  depend on which of them is given.
- `SymbolIndex.referencesAt_eq`: the references to a symbol, in order.
-/

namespace Asm6502

open Checked (bind_eq_ok_iff)

/-! ## The symbol under a position -/

namespace SymbolIndex

variable {ix : SymbolIndex} {d : Dialect} {source : Bytes} {pos : Position} {i j : Nat}
  {name : Text} {t : Token}

/-- A symbol is an identifier, and the token under the position is this or the mark in front. -/
theorem exists_token_of_symbolAt (h : ix.symbolAt pos = .ok (some (name, j))) :
    (∃ i t, ix.tokenAt pos = .ok (some i) ∧ ix.tokens[i]? = some t ∧
      (t.kind = .identifier ∨ t.kind = .reference)) ∧
    ∃ t, ix.tokens[j]? = some t ∧ t.kind = .identifier ∧ t.text = name := by
  obtain ⟨i?, hat, h⟩ := bind_eq_ok_iff.1 h
  cases i? with
  | none => cases h
  | some i =>
    obtain ⟨s, hs, h⟩ := bind_eq_ok_iff.1 h
    obtain ⟨t, ht, h⟩ := bind_eq_ok_iff.1 h
    rw [Checked.entry_eq_ok_iff] at hs ht
    obtain ⟨hkind, rfl, rfl⟩ : t.kind = .identifier ∧ t.text = name ∧
        (if s.kind = .reference ∧ i + 1 < ix.tokens.size then i + 1 else i) = j := by
      have hsome := Except.ok.inj h
      split at hsome
      · rename_i hkind
        simpa [hkind] using hsome
      · cases hsome
    refine ⟨⟨i, s, hat, hs, ?_⟩, t, ht, hkind, rfl⟩
    by_cases hmark : s.kind = .reference
    · exact .inr hmark
    · -- without a mark the symbol is the token under the position itself
      rw [if_neg (by simp [hmark])] at ht
      obtain rfl : s = t := Option.some.inj (hs.symm.trans ht)
      exact .inl hkind

theorem symbolAt_position (ht : (parse d source).tokens[i]? = some t)
    (hkind : t.kind = .identifier) :
    (parse d source).symbolAt t.position = .ok (some (t.text, i)) := by
  have hat := tokenAt_position ht (by simp [hkind])
  simp [symbolAt, hat, Checked.entry_eq_ok_iff.2 ht, hkind]

end SymbolIndex

/-! ## Spellings -/

namespace Text

/-- A name without the exclamation mark in front of it. -/
def unmarked (name : Text) : Text :=
  if name.head?.any (·.is '!') then name.drop 1 else name

@[simp] theorem unmarked_cons_mark (name : Text) : unmarked (.char '!' :: name) = name := rfl

theorem eq_unmarked_or (name : Text) :
    name = unmarked name ∨ name = .char '!' :: unmarked name := by
  unfold unmarked
  split
  · rename_i hmark
    obtain ⟨more, rfl⟩ := List.head?_eq_some_iff.1 (any_head?_is_iff.1 hmark)
    exact .inr rfl
  · exact .inl rfl

end Text

theorem Dialect.not_isSymbol_mark (d : Dialect) : d.isSymbol (.char '!') = false := by
  cases d <;> decide

/-- There is at most one mark in front of a name. -/
theorem TokenKind.Shape.unmarked_unmarked {front text back : Text}
    (h : TokenKind.identifier.Shape .kick front text back) :
    text.unmarked.unmarked = text.unmarked := by
  obtain ⟨run, longest, h⟩ := h
  -- a mark is no part of the run
  have hrun : run.unmarked = run := by
    rcases run.eq_unmarked_or with heq | heq
    · exact heq.symm
    · have hmark := longest.all (.char '!') (by rw [heq]; exact List.mem_cons_self)
      simp [Dialect.not_isSymbol_mark] at hmark
  rcases h with ⟨rfl, -⟩ | ⟨-, hd | ⟨hd, -⟩⟩ | ⟨rfl, -⟩
  · rw [hrun, hrun]
  · cases hd
  · cases hd
  · rw [Text.unmarked_cons_mark, hrun]

namespace SymbolIndex

variable {d : Dialect} {source : Bytes} {name : Text}

theorem isSome_lookup_iff {s? : Option Statement} (h : (parse d source).lookup name = .ok s?) :
    s?.isSome = true ↔ name ∈ Table.keys (parse d source).definitions := by
  rcases lookup_eq d source name with ⟨i, s, last, hlookup⟩ | ⟨hnone, hlookup⟩
  · obtain rfl : s? = some s := Except.ok.inj (h.symm.trans hlookup)
    exact iff_of_true rfl (Table.mem_keys_iff.2 ⟨i, find?_definitions_eq_some_iff.2 ⟨s, last⟩⟩)
  · obtain rfl : s? = none := Except.ok.inj (h.symm.trans hlookup)
    exact iff_of_false (by simp) hnone

/-- A symbol that is defined with a mark is spelled with and without it, any other one as it is. -/
theorem spellings_parse (d : Dialect) (source : Bytes) (name : Text) :
    (parse d source).spellings name =
      .ok (if d = .kick ∧ .char '!' :: name.unmarked ∈ Table.keys (parse d source).definitions then
        [name.unmarked, .char '!' :: name.unmarked] else [name]) := by
  by_cases hd : d = .kick
  · subst hd
    obtain ⟨s?, hlookup, -⟩ := (sound_parse .kick source).lookup (.char '!' :: name.unmarked)
    have hspellings : (parse .kick source).spellings name =
        .ok (if s?.isSome then [name.unmarked, .char '!' :: name.unmarked] else [name]) := by
      change (parse .kick source).lookup (.char '!' :: name.unmarked) >>= _ = _
      rw [hlookup]
      rfl
    rw [hspellings]
    simp only [isSome_lookup_iff hlookup, true_and]
  · have hdialect : (parse d source).dialect ≠ .kick := hd
    rw [spellings, if_pos hdialect, if_neg (by simp [hd])]
    rfl

variable {names : List Text}

theorem mem_spellings (h : (parse d source).spellings name = .ok names) : name ∈ names := by
  rw [spellings_parse, Except.ok.injEq] at h
  split at h
  · rw [← h, List.mem_pair]
    exact name.eq_unmarked_or
  · simp [← h]

theorem nodup_spellings (h : (parse d source).spellings name = .ok names) : names.Nodup := by
  rw [spellings_parse, Except.ok.injEq] at h
  split at h <;> simp [← h]

/-- The spellings of a symbol do not depend on which of them is given. -/
theorem spellings_eq_of_mem {t : Token} (ht : t ∈ (parse d source).tokens.toList)
    (hkind : t.kind = .identifier) (h : (parse d source).spellings t.text = .ok names)
    (hmem : name ∈ names) : (parse d source).spellings name = .ok names := by
  rw [spellings_parse, Except.ok.injEq] at h
  split at h
  · rename_i hmarked
    obtain ⟨rfl, hkeys⟩ := hmarked
    obtain ⟨before, l, after, -, -, -, shape⟩ := exists_shaped_lexeme ht
    rw [hkind] at shape
    have hname : name.unmarked = t.text.unmarked := by
      rw [← h, List.mem_pair] at hmem
      rcases hmem with rfl | rfl
      · exact shape.unmarked_unmarked
      · rfl
    rw [spellings_parse, hname, if_pos ⟨rfl, hkeys⟩, h]
  · obtain rfl : name = t.text := by simpa [← h] using hmem
    rename_i hplain
    rw [spellings_parse, if_neg hplain, h]

end SymbolIndex

/-! ## Occurrences -/

/-- Whether the token is an identifier that spells one of the names. -/
def Token.spells (t : Token) (names : List Text) : Bool :=
  t.kind == .identifier && names.contains t.text

theorem Token.spells_iff {t : Token} {names : List Text} :
    t.spells names = true ↔ t.kind = .identifier ∧ t.text ∈ names := by
  simp [spells]

namespace SymbolIndex

variable {ix : SymbolIndex} {names : List Text}

theorem mem_occurrences_iff {name : Text} {i : Nat} :
    i ∈ ix.occurrences name ↔
      ∃ t, ix.tokens[i]? = some t ∧ t.kind = .identifier ∧ t.text = name := by
  simp only [occurrences, List.mem_filter, List.mem_range, Option.any_eq_true, Bool.and_eq_true,
    beq_iff_eq]
  constructor
  · rintro ⟨-, t, ht, hspelled⟩
    exact ⟨t, ht, hspelled⟩
  · rintro ⟨t, ht, hspelled⟩
    exact ⟨(Array.getElem?_eq_some_iff.1 ht).1, t, ht, hspelled⟩

/-- The occurrences of several names, put in order, are those of any of them. -/
theorem mergeSort_occurrences (nodup : names.Nodup) :
    (names.flatMap ix.occurrences).mergeSort =
      (List.range ix.tokens.size).filter fun i => ix.tokens[i]?.any (·.spells names) := by
  have hnodup : (names.flatMap ix.occurrences).Nodup := by
    refine List.nodup_flatMap.2 ⟨fun name _ => List.nodup_range.filter _, nodup.imp ?_⟩
    intro name name' hne i hi hi'
    obtain ⟨t, ht, -, rfl⟩ := mem_occurrences_iff.1 hi
    obtain ⟨t', ht', -, rfl⟩ := mem_occurrences_iff.1 hi'
    obtain rfl : t = t' := Option.some.inj (ht.symm.trans ht')
    exact hne rfl
  have hmem (i : Nat) : i ∈ names.flatMap ix.occurrences ↔
      i ∈ (List.range ix.tokens.size).filter fun i => ix.tokens[i]?.any (·.spells names) := by
    simp only [List.mem_flatMap, mem_occurrences_iff, List.mem_filter, List.mem_range,
      Option.any_eq_true, Token.spells_iff]
    constructor
    · rintro ⟨_, hname, t, ht, hkind, rfl⟩
      exact ⟨(Array.getElem?_eq_some_iff.1 ht).1, t, ht, hkind, hname⟩
    · rintro ⟨-, t, ht, hkind, hname⟩
      exact ⟨t.text, hname, t, ht, hkind, rfl⟩
  have sorted : ((names.flatMap ix.occurrences).mergeSort).Pairwise
      fun i j => decide (i ≤ j) = true :=
    List.pairwise_mergeSort (by grind) (by grind) _
  refine List.Perm.eq_of_pairwise (fun i j _ _ hij hji => ?_) (sorted.imp of_decide_eq_true)
    ((List.pairwise_le_range).filter _) ?_
  · exact Nat.le_antisymm hij hji
  · exact (List.mergeSort_perm _ _).trans
      ((List.perm_ext_iff_of_nodup hnodup (List.nodup_range.filter _)).2 hmem)

end SymbolIndex

/-- Going through some of the indices of an array is going through the elements there. -/
theorem Checked.mapM_filter_range {α β : Type} {xs : Array α} {p : Nat → Bool}
    {f : Nat → Checked β} {g : α → β} (h : ∀ i x, xs[i]? = some x → f i = .ok (g x)) :
    ((List.range xs.size).filter p).mapM f =
      .ok ((xs.toList.zipIdx.filter (p ·.2)).map (g ·.1)) := by
  have hrange : List.range xs.size = xs.toList.zipIdx.map Prod.snd := by
    rw [List.zipIdx_map_snd, List.range_eq_range', Array.length_toList]
  rw [hrange, List.filter_map, List.mapM_map]
  refine Checked.mapM_eq_ok fun item hitem => h item.2 item.1 ?_
  simpa using List.mem_zipIdx_iff_getElem?.1 (List.mem_filter.1 hitem).1

/-! ## References -/

namespace SymbolIndex

variable {d : Dialect} {source : Bytes} {pos : Position} {j : Nat} {name : Text} {names : List Text}

/-- The references to a symbol are the identifiers that spell it, in order. Without declarations,
some of them are left out. -/
theorem referencesAt_eq_filter (hsymbol : (parse d source).symbolAt pos = .ok (some (name, j)))
    (hnames : (parse d source).spellings name = .ok names) {declared : List Nat}
    (hdeclared : (parse d source).declarations names = .ok declared) (uri : String)
    (withDeclarations : Bool) :
    (parse d source).referencesAt uri pos withDeclarations =
      .ok (((parse d source).tokens.toList.zipIdx.filter fun item =>
        item.1.spells names && (withDeclarations || !declared.contains item.2)).map
          (⟨uri, ·.1.span⟩)) := by
  have locate (i : Nat) (t : Token) (ht : (parse d source).tokens[i]? = some t) :
      (do return ⟨uri, ← (parse d source).spanOf (← Checked.entry (parse d source).tokens i)⟩ :
        Checked Location) = .ok ⟨uri, t.span⟩ := by
    rw [Checked.entry_eq_ok_iff.2 ht, Checked.ok_bind, spanOf_eq_span (mem_tokens_of_getElem? ht)]
    rfl
  unfold referencesAt
  rw [hsymbol]
  simp only [Checked.ok_bind, hnames, hdeclared]
  rw [mergeSort_occurrences (nodup_spellings hnames), List.filter_filter,
    Checked.mapM_filter_range locate]
  refine congrArg (Except.ok <| List.map _ ·) (List.filter_congr fun item hitem => ?_)
  have ht : (parse d source).tokens[item.2]? = some item.1 := by
    simpa using List.mem_zipIdx_iff_getElem?.1 hitem
  rw [ht, Option.any_some, Bool.and_comm]

theorem referencesAt_eq (hsymbol : (parse d source).symbolAt pos = .ok (some (name, j)))
    (hnames : (parse d source).spellings name = .ok names) (uri : String) :
    (parse d source).referencesAt uri pos true =
      .ok (((parse d source).tokens.toList.filter (·.spells names)).map (⟨uri, ·.span⟩)) := by
  obtain ⟨declared, hdeclared, -⟩ := (sound_parse d source).declarations names
  have hfst : (parse d source).tokens.toList =
      (parse d source).tokens.toList.zipIdx.map Prod.fst := (List.zipIdx_map_fst 0 _).symm
  rw [referencesAt_eq_filter hsymbol hnames hdeclared, hfst, List.filter_map, List.map_map, ← hfst]
  simp only [Bool.true_or, Bool.and_true]
  rfl

/-- The references to the symbol under a position are in order and hold the symbol itself. At any of
them the same references are found. -/
theorem referencesAt_divides (d : Dialect) (source : Bytes) (uri : String) (pos : Position)
    (name : Text) (j : Nat)
    (hsymbol : (parse d source).symbolAt pos = .ok (some (name, j))) :
    let ix := parse d source
    ∃ ls, ix.referencesAt uri pos true = .ok ls ∧
      ls.Nodup ∧ ls.Pairwise (fun l l' => l.span.start < l'.span.start) ∧
      (∃ t, ix.tokens[j]? = some t ∧ t.text = name ∧ ix.spanOf t = .ok t.span ∧
        ⟨uri, t.span⟩ ∈ ls) ∧
      ∀ l ∈ ls, ix.referencesAt uri l.span.start true = .ok ls := by
  intro ix
  obtain ⟨-, t, ht, hkind, rfl⟩ := exists_token_of_symbolAt hsymbol
  obtain ⟨names, hnames, -⟩ := (sound_parse d source).spellings t.text
  have hmem := mem_tokens_of_getElem? ht
  have ordered : (((parse d source).tokens.toList.filter (·.spells names)).map
      fun t => (⟨uri, t.span⟩ : Location)).Pairwise fun l l' => l.span.start < l'.span.start :=
    List.pairwise_map.2 ((pairwise_position_parse d source).filter _)
  have itself : t.spells names = true := Token.spells_iff.2 ⟨hkind, mem_spellings hnames⟩
  refine ⟨_, referencesAt_eq hsymbol hnames uri, ordered.imp fun hlt heq => ?_, ordered,
    ⟨t, ht, rfl, spanOf_eq_span hmem, List.mem_map_of_mem (List.mem_filter.2 ⟨hmem, itself⟩)⟩, ?_⟩
  · exact hlt.ne (congrArg (·.span.start) heq)
  · intro l hl
    obtain ⟨t', ht', rfl⟩ := List.mem_map.1 hl
    obtain ⟨hmem', hspells⟩ := List.mem_filter.1 ht'
    obtain ⟨hkind', hname⟩ := Token.spells_iff.1 hspells
    obtain ⟨i, hi⟩ := Array.mem_iff_getElem?.1 (Array.mem_toList_iff.1 hmem')
    exact referencesAt_eq (symbolAt_position hi hkind')
      (spellings_eq_of_mem hmem hkind hnames hname) uri

/-- A label that is defined with a mark, and a jump to it, where its name stands behind the mark of a
reference. -/
def markedLabel : Bytes :=
  [0x21, 0x61, 0x0A, 0x6A, 0x6D, 0x70, 0x20, 0x21, 0x61]

theorem lexemes_markedLabel : lexemes .kick markedLabel =
    [.token .identifier [.char '!', .char 'a'], .token .lineBreak [.char '\n'],
      .token .identifier [.char 'j', .char 'm', .char 'p'], .skipped [.char ' '],
      .token .reference [.char '!'], .token .identifier [.char 'a']] := by
  cbv

theorem tokens_markedLabel : (parse .kick markedLabel).tokens.toList =
    [⟨.identifier, 0, ⟨0, 0⟩, [.char '!', .char 'a'], true⟩,
      ⟨.lineBreak, 2, ⟨0, 2⟩, [.char '\n'], false⟩,
      ⟨.identifier, 3, ⟨1, 0⟩, [.char 'j', .char 'm', .char 'p'], true⟩,
      ⟨.reference, 7, ⟨1, 4⟩, [.char '!'], false⟩,
      ⟨.identifier, 8, ⟨1, 5⟩, [.char 'a'], false⟩] := by
  rw [tokens_parse, lexemes_markedLabel]
  rfl

theorem tokenAt_markedLabel : (parse .kick markedLabel).tokenAt ⟨1, 4⟩ = .ok (some 3) := by
  rw [tokenAt_eq_findIdx?, tokens_markedLabel]
  rfl

theorem symbolAt_markedLabel :
    (parse .kick markedLabel).symbolAt ⟨1, 4⟩ = .ok (some ([.char 'a'], 4)) := by
  have hsize : (parse .kick markedLabel).tokens.size = 5 := congrArg List.length tokens_markedLabel
  have token (i : Nat) (t : Token)
      (h : (parse .kick markedLabel).tokens.toList[i]? = some t) :
      Checked.entry (parse .kick markedLabel).tokens i = .ok t :=
    Checked.entry_eq_ok_iff.2 (Array.getElem?_toList ▸ h)
  have hmark := token 3 ⟨.reference, 7, ⟨1, 4⟩, [.char '!'], false⟩ (by rw [tokens_markedLabel]; rfl)
  have hname := token 4 ⟨.identifier, 8, ⟨1, 5⟩, [.char 'a'], false⟩
    (by rw [tokens_markedLabel]; rfl)
  simp only [Nat.cast_ofNat] at hmark hname
  simp [symbolAt, tokenAt_markedLabel, hmark, hname, hsize]

/-- The question is asked at the mark of the reference, and again at the definition. -/
theorem referencesAt_divides_marked_label :
    let ix := parse .kick markedLabel
    let ls : List Location := [⟨"u", ⟨0, 0⟩, ⟨0, 2⟩⟩, ⟨"u", ⟨1, 5⟩, ⟨1, 6⟩⟩]
    ix.symbolAt ⟨1, 4⟩ = .ok (some ([.char 'a'], 4)) ∧
      ix.referencesAt "u" ⟨1, 4⟩ true = .ok ls ∧
      ls.Nodup ∧ ls.Pairwise (fun l l' => l.span.start < l'.span.start) ∧
      ix.referencesAt "u" ⟨0, 0⟩ true = .ok ls := by
  intro ix ls
  have hkeys : Table.keys ix.definitions = [[.char '!', .char 'a']] := by
    simp only [ix, parse, gather, lexemes_markedLabel]
    rfl
  have hnames : ix.spellings [.char 'a'] = .ok [[.char 'a'], [.char '!', .char 'a']] := by
    rw [spellings_parse, hkeys]
    rfl
  have hls : ix.referencesAt "u" ⟨1, 4⟩ true = .ok ls := by
    rw [referencesAt_eq symbolAt_markedLabel hnames, tokens_markedLabel]
    rfl
  obtain ⟨ls', hls', nodup, ordered, -, again⟩ :=
    referencesAt_divides .kick markedLabel "u" ⟨1, 4⟩ _ _ symbolAt_markedLabel
  obtain rfl : ls' = ls := Except.ok.inj (hls'.symm.trans hls)
  exact ⟨symbolAt_markedLabel, hls, nodup, ordered,
    again ⟨"u", ⟨0, 0⟩, ⟨0, 2⟩⟩ List.mem_cons_self⟩

end SymbolIndex

end Asm6502
