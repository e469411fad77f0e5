import Asm6502.Proofs.CompletableNames
import Asm6502.Proofs.NumberLiterals

/-!
# Reading within bounds

A token is kept with its text, and a text is taken apart by its characters. Where only the bytes of
the source are at hand, the same pieces are cut out of them at indices that have to be computed. All
of these cuts are within bounds, whatever the source is, and they give the same pieces. So whatever
is asked, nothing is read that is not there, neither in the tables nor in the source.

## Main definitions

- `SymbolIndex.cutText`, `SymbolIndex.cutFirstLine`, `SymbolIndex.cutLine`: pieces of the source.
- `Position.walk`, `SymbolIndex.cutSpan`: the end of a token, found byte by byte.
- `Literal.cutValue?`, `Keyword.cutSearch`, `Instruction.cutDescription?`: what is cut out of a
  literal, a word and a mnemonic.
- `SymbolIndex.ReadsInBounds`: no question reads outside of the tables and the source.

## Main statements

- `SymbolIndex.cutText_eq`, `SymbolIndex.cutSpan_eq`, `SymbolIndex.cutFirstLine_eq`,
  `SymbolIndex.cutLine_eq`, `Literal.cutValue?_eq`, `Keyword.cutSearch_eq`,
  `Instruction.cutDescription?_eq`: the cuts give the same pieces.
-/

namespace Asm6502

open Checked (Ensures Succeeds)

/-! ## Cuts -/

namespace Checked

variable {α : Type}

/-- A cut that reaches a little to both sides of the place where two pieces meet. -/
theorem slice_append {front back : List α} {m n : Nat} (hm : m ≤ front.length)
    (hn : n ≤ back.length) :
    slice (front ++ back) ((front.length : Int) - m) (front.length + n) =
      .ok ((front.reverse.take m).reverse ++ back.take n) := by
  have hstart : ((front.length : Int) - m).toNat = front.length - m := by omega
  have hcount : ((front.length : Int) + n - (front.length - m)).toNat = m + n := by omega
  have hdrop : (front.drop (front.length - m)).length = m := by
    rw [List.length_drop]
    omega
  rw [slice_eq_ok (by omega) (by omega) (by rw [List.length_append]; omega), hstart, hcount,
    List.drop_append_of_le_length (by omega), List.take_append, hdrop, Nat.add_sub_cancel_left,
    List.take_of_length_le (by omega), List.take_reverse, List.reverse_reverse]

theorem take_findIdx (xs : List α) (p : α → Bool) :
    xs.take (xs.findIdx p) = xs.takeWhile (!p ·) := by
  simp [List.takeWhile_eq_take_findIdx_not]

/-- The cut around an index that goes as far as `p` fails, to both sides. -/
theorem slice_around {xs : List α} {k : Nat} (hk : k ≤ xs.length) (p : α → Bool) :
    slice xs ((k : Int) - (xs.take k).reverse.findIdx p) (k + (xs.drop k).findIdx p) =
      .ok (((xs.take k).reverse.takeWhile (!p ·)).reverse ++ (xs.drop k).takeWhile (!p ·)) := by
  have hlength : (xs.take k).length = k := List.length_take_of_le hk
  have hm : (xs.take k).reverse.findIdx p ≤ (xs.take k).length := by
    rw [← List.length_reverse]
    exact List.findIdx_le_length
  have hn : (xs.drop k).findIdx p ≤ (xs.drop k).length := List.findIdx_le_length
  have hslice := slice_append hm hn
  rwa [hlength, List.take_append_drop, take_findIdx, take_findIdx] at hslice

end Checked

namespace Text

theorem bytes_ofString {s : String} (h : ∀ c ∈ s.toList, c.toNat < 0x80) :
    (ofString s).bytes = s.toList.map fun c => UInt8.ofNat c.toNat := by
  unfold ofString
  generalize s.toList = cs at h
  induction cs with
  | nil => rfl
  | cons c cs ih =>
    rw [List.map_cons, bytes_cons, bytes_char (h c List.mem_cons_self),
      ih fun e he => h e (List.mem_cons_of_mem c he)]
    rfl

theorem shown_decode_ne {x : Bytes} {c : Char} (hc : c.toNat < 0x80)
    (hx : x.head? ≠ some (UInt8.ofNat c.toNat)) {cs : List Char} :
    (decode x).shown.toList ≠ c :: cs := by
  intro h
  rw [shown, String.toList_ofList] at h
  obtain ⟨g, t, hdecode, hg, -⟩ := List.map_eq_cons_iff.1 h
  have hreplaced : c ≠ '\uFFFD' := by
    rintro rfl
    exact absurd hc (by decide)
  refine hx ((head?_decode_eq_some_iff hc).1 ?_)
  rw [hdecode, (Literal.shown_eq_iff hreplaced).1 hg]
  rfl

/-- The first line of a text, byte by byte. -/
theorem bytes_firstLine {t : Text} (h : ∀ g ∈ t, g.Proper) :
    (SymbolIndex.firstLine t).bytes = t.bytes.takeWhile (!SymbolIndex.isBreakByte ·) := by
  induction t with
  | nil => rfl
  | cons g t ih =>
    cases hg : g.isBreak with
    | true =>
      have hline : SymbolIndex.firstLine (g :: t) = [] := by simp [SymbolIndex.firstLine, hg]
      rw [hline]
      rcases Glyph.isBreak_iff.1 hg with rfl | rfl <;> rfl
    | false =>
      have hline : SymbolIndex.firstLine (g :: t) = g :: SymbolIndex.firstLine t := by
        simp [SymbolIndex.firstLine, hg]
      have hbytes : ∀ b ∈ g.bytes, (!SymbolIndex.isBreakByte b) = true := by
        intro b hb
        exact Position.not_isBreakByte
          (forall_bytes_of_not_isBreak (h g List.mem_cons_self) hg b hb)
      rw [hline, bytes_cons, bytes_cons, List.takeWhile_append_of_pos hbytes,
        ih fun x hx => h x (List.mem_cons_of_mem g hx)]

theorem decode_drop_of_append {text : Bytes} {i : Nat} (front : Text) {back : Text}
    (h : decode (text.drop i) = front ++ back) : decode (text.drop (i + front.size)) = back := by
  rw [← List.drop_drop, drop_size_of_decode h, decode_bytes_of_append_right h]

end Text

/-! ## Positions -/

namespace Position

/-- Whether the character at the index is a carriage return that a line feed follows. -/
def pairedAt (text : Bytes) (i : Nat) (g : Glyph) : Checked Bool := do
  if g.is '\r' ∧ i + 1 < text.length then
    return (← Checked.entry text.toArray ((i + 1 : Nat) : Int)) == 0x0A
  return false

/-- The position behind the bytes from the index on, the first of which is at `p`. -/
def walk (text : Bytes) (i : Nat) (p : Position) : Checked Position := do
  if i < text.length then
    match Text.decode (← Checked.slice text i text.length) with
    | [] => return p
    | g :: _ =>
      if ← pairedAt text i g then walk text (i + 2) p.nextLine
      else walk text (i + g.width) (if g.isBreak then p.nextLine else p.right g.units)
  else return p
termination_by text.length - i
decreasing_by
  · omega
  · have := g.width_pos
    omega

variable {text : Bytes} {i : Nat} {t : Text}

theorem pairedAt_eq_true (h : Text.decode (text.drop i) = .char '\r' :: .char '\n' :: t) :
    pairedAt text i (.char '\r') = .ok true := by
  have htail := Text.decode_drop_of_append [.char '\r'] h
  have hfeed : text[i + 1]? = some 0x0A := by
    rw [← List.head?_drop]
    exact (Text.head?_decode_eq_some_iff (c := '\n') (by decide)).1 (congrArg List.head? htail)
  obtain ⟨hi, -⟩ := List.getElem?_eq_some_iff.1 hfeed
  have hentry : Checked.entry text.toArray ((i + 1 : Nat) : Int) = .ok 0x0A :=
    Checked.entry_eq_ok_iff.2 (by rw [List.getElem?_toArray, hfeed])
  rw [pairedAt, if_pos ⟨rfl, hi⟩, hentry]
  rfl

theorem pairedAt_eq_false {g : Glyph} (h : Text.decode (text.drop i) = g :: t)
    (hpair : ¬ (g = .char '\r' ∧ t.head? = some (.char '\n'))) :
    pairedAt text i g = .ok false := by
  unfold pairedAt
  split
  · rename_i hreturn
    obtain ⟨hg, hi⟩ := hreturn
    obtain rfl := Glyph.is_iff.1 hg
    have hentry : Checked.entry text.toArray ((i + 1 : Nat) : Int) = .ok text[i + 1] :=
      Checked.entry_eq_ok_iff.2 (by simp [hi])
    have htail := Text.decode_drop_of_append [.char '\r'] h
    have hfeed : text[i + 1] ≠ 0x0A := by
      intro hbyte
      refine hpair ⟨rfl, ?_⟩
      rw [← htail, Text.head?_decode_eq_some_iff (by decide), List.head?_drop]
      exact List.getElem?_eq_some_iff.2 ⟨hi, hbyte⟩
    rw [hentry, Checked.ok_bind, beq_false_of_ne hfeed]
    rfl
  · rfl

/-- The walk over the bytes is the walk over the characters. -/
theorem walk_eq (text : Bytes) (i : Nat) (p : Position) :
    walk text i p = .ok (p.advance (Text.decode (text.drop i))) := by
  induction hleft : text.length - i using Nat.strong_induction_on generalizing i p with
  | _ left ih =>
    unfold walk
    by_cases hi : i < text.length
    · have hdrop : text.drop i ≠ [] := by simp [hi]
      obtain ⟨g, t, hdecode⟩ := List.exists_cons_of_ne_nil (Text.decode_ne_nil hdrop)
      have hwidth := g.width_pos
      rw [if_pos hi, Checked.slice_drop hi.le, Checked.ok_bind, hdecode]
      by_cases hpair : g = .char '\r' ∧ t.head? = some (.char '\n')
      · obtain ⟨rfl, hhead⟩ := hpair
        obtain ⟨t, rfl⟩ := List.head?_eq_some_iff.1 hhead
        have htail : Text.decode (text.drop (i + 2)) = t :=
          Text.decode_drop_of_append [.char '\r', .char '\n'] hdecode
        simp only [pairedAt_eq_true hdecode, Checked.ok_bind, if_true]
        rw [ih _ (by omega) (i + 2) p.nextLine rfl, htail]
        rfl
      · have htail : Text.decode (text.drop (i + g.width)) = t :=
          Text.decode_drop_of_append [g] hdecode
        simp only [pairedAt_eq_false hdecode hpair, Checked.ok_bind]
        rw [if_neg Bool.false_ne_true, ih _ (by omega) _ _ rfl, htail, advance_cons hpair]
    · rw [if_neg hi, List.drop_of_length_le (by omega), Text.decode_nil]
      rfl

end Position

/-! ## Literals -/

namespace Literal

/-- The value of the literal with the given bytes. A sigil is cut off. -/
def cutValue? (x : Bytes) : Checked (Option Int) := do
  let value? (base : Nat) (digits : Bytes) : Option Int :=
    (Number.parse base (Text.decode digits).shown.toList).toOption
  if x.head? = some 0x24 then return value? 16 (← Checked.slice x 1 x.length)
  if x.head? = some 0x25 then return value? 2 (← Checked.slice x 1 x.length)
  return value? 10 x

theorem cutValue?_cons {b : UInt8} {base : Nat} (h : b = 0x24 ∧ base = 16 ∨ b = 0x25 ∧ base = 2)
    (more : Bytes) :
    cutValue? (b :: more) =
      .ok (Number.parse base (Text.decode more).shown.toList).toOption := by
  have hslice : Checked.slice (b :: more) 1 (b :: more).length = .ok more :=
    Checked.slice_drop (Nat.le_add_left 1 more.length)
  unfold cutValue?
  rw [hslice]
  rcases h with ⟨rfl, rfl⟩ | ⟨rfl, rfl⟩ <;> rfl

theorem cutValue?_eq (x : Bytes) : cutValue? x = .ok (value? (Text.decode x)) := by
  by_cases hdollar : x.head? = some 0x24
  · obtain ⟨more, rfl⟩ := List.head?_eq_some_iff.1 hdollar
    rw [cutValue?_cons (.inl ⟨rfl, rfl⟩), Text.decode_cons_of_lt (by decide)]
    simp [value?, Text.shown, Glyph.shown]
  by_cases hpercent : x.head? = some 0x25
  · obtain ⟨more, rfl⟩ := List.head?_eq_some_iff.1 hpercent
    rw [cutValue?_cons (.inr ⟨rfl, rfl⟩), Text.decode_cons_of_lt (by decide)]
    simp [value?, Text.shown, Glyph.shown]
  · unfold cutValue? value?
    rw [if_neg hdollar, if_neg hpercent]
    split
    · rename_i digits heq
      exact absurd heq (Text.shown_decode_ne (by decide) hdollar)
    · rename_i digits heq
      exact absurd heq (Text.shown_decode_ne (by decide) hpercent)
    · rfl

end Literal

/-! ## Keywords -/

namespace Keyword

/-- The keywords that start with the given bytes. The first byte selects the catalogs, and is the
sigil of what is found in them. -/
def cutSearch (query : Bytes) : Checked (List Text) := do
  if query.length < 1 then return []
  let first ← Checked.entry query.toArray 0
  let catalogs := sources (.char (Char.ofNat first.toNat))
  if catalogs = [] then return []
  let sigil ← Checked.slice query 0 1
  return catalogs.flatten.foldl (fun found item =>
    offer (Text.decode query) found (Text.decode sigil ++ Text.ofString item)) []

theorem sources_eq_nil {g : Glyph} (h : ∀ c : Char, c.toNat < 0x80 → g ≠ .char c) :
    sources g = [] := by
  have notIs (c : Char) (hc : c.toNat < 0x80) : g.is c = false := by
    rw [← Bool.not_eq_true, Glyph.is_iff]
    exact h c hc
  simp [sources, notIs]

theorem cutSearch_eq (query : Bytes) : cutSearch query = .ok (search (Text.decode query)) := by
  cases query with
  | nil =>
    rw [Text.decode_nil]
    rfl
  | cons b more =>
    have hfirst : Checked.entry (b :: more).toArray 0 = .ok b :=
      Checked.entry_eq_ok_iff (i := 0) |>.2 rfl
    have hsigil : Checked.slice (b :: more) 0 1 = .ok [b] :=
      Checked.slice_take (n := 1) (by simp)
    rw [cutSearch, if_neg (by simp), hfirst, Checked.ok_bind, hsigil]
    simp only [Checked.ok_bind]
    by_cases hb : b.toNat < 0x80
    · rw [Text.decode_cons_of_lt hb, Text.decode_cons_of_lt hb, Text.decode_nil, search]
      split
      · rename_i hnil
        rw [hnil]
        rfl
      · rfl
    · -- a byte outside of ASCII is no sigil, and neither is the character that it opens
      have hlarge : ∀ c : Char, c.toNat < 0x80 → Glyph.char (Char.ofNat b.toNat) ≠ .char c := by
        rintro c hc heq
        have hbyte := b.toNat_lt
        have hvalue : (Char.ofNat b.toNat).toNat = b.toNat :=
          Text.val_ofNat (by unfold Nat.isValidChar; omega)
        rw [Glyph.char.inj heq] at hvalue
        omega
      obtain ⟨g, t, hdecode⟩ := List.exists_cons_of_ne_nil
        (Text.decode_ne_nil (List.cons_ne_nil b more))
      have hg : ∀ c : Char, c.toNat < 0x80 → g ≠ .char c := by
        rintro c hc rfl
        have hhead := (Text.head?_decode_eq_some_iff (x := b :: more) hc).1 (by rw [hdecode]; rfl)
        obtain rfl : b = UInt8.ofNat c.toNat := by simpa using hhead
        exact hb (by rwa [Text.toNat_ofNat_of_lt (by omega)])
      rw [hdecode, search, sources_eq_nil hlarge, sources_eq_nil hg]
      rfl

end Keyword

/-! ## Mnemonics -/

namespace Instruction

/-- What an instruction does to the bit that the last of the four bytes of its mnemonic names. -/
def cutDescription? (key : Bytes) : Checked (Option String) := do
  let char (b : UInt8) : Char := Char.ofNat b.toNat
  if key.length ≠ 4 then return none
  let family ← Checked.slice key 0 3
  let bit ← Checked.entry key.toArray 3
  return bitDescription? (String.ofList (family.map char)) (char bit).toString

theorem cutDescription?_eq {key : String} (h : ∀ c ∈ key.toList, c.toNat < 0x80) :
    cutDescription? (Text.ofString key).bytes = .ok (familyDescription? key) := by
  rw [Text.bytes_ofString h]
  unfold cutDescription? familyDescription?
  generalize key.toList = cs at h
  have back (c : Char) (hc : c ∈ cs) : Char.ofNat (UInt8.ofNat c.toNat).toNat = c := by
    have hlt := h c hc
    rw [Text.toNat_ofNat_of_lt (by omega), Char.ofNat_toNat]
  by_cases hlength : cs.length = 4
  · obtain ⟨a, b, c, bit, rfl⟩ := List.length_eq_four.1 hlength
    have hslice : Checked.slice ([a, b, c, bit].map fun e => UInt8.ofNat e.toNat) 0 3 =
        .ok ([a, b, c].map fun e => UInt8.ofNat e.toNat) :=
      Checked.slice_take (n := 3) (by simp)
    have hentry : Checked.entry ([a, b, c, bit].map fun e => UInt8.ofNat e.toNat).toArray 3 =
        .ok (UInt8.ofNat bit.toNat) := rfl
    rw [if_neg (by simp), hslice, hentry]
    simp only [Checked.ok_bind, List.map_cons, List.map_nil, back a (by simp), back b (by simp),
      back c (by simp), back bit (by simp)]
    rfl
  · rw [if_pos (by rwa [List.length_map])]
    split
    · exact absurd rfl hlength
    · rfl

end Instruction

namespace SymbolIndex

/-! ## The source -/

/-- The bytes that the range of a token covers. -/
def cutText (ix : SymbolIndex) (t : Token) : Checked Bytes :=
  Checked.slice ix.source t.offset t.stop

/-- Where a token starts, and where the walk over its bytes ends. -/
def cutSpan (ix : SymbolIndex) (t : Token) : Checked Span := do
  let text ← ix.cutText t
  return ⟨t.position, ← Position.walk text 0 t.position⟩

/-- The bytes of a token up to the first line end in it. -/
def cutFirstLine (ix : SymbolIndex) (t : Token) : Checked Bytes := do
  let text ← ix.cutText t
  Checked.slice text 0 (text.findIdx isBreakByte)

/-- The bytes around the start of a token that no line end separates from it. -/
def cutLine (ix : SymbolIndex) (i : Int) : Checked Bytes :=
  match ix.token? i with
  | none => pure []
  | some t => do
    let before ← Checked.slice ix.source 0 t.offset
    let behind ← Checked.slice ix.source t.offset ix.source.length
    let start := (t.offset : Int) - before.reverse.findIdx isBreakByte
    Checked.slice ix.source start (t.offset + behind.findIdx isBreakByte)

variable {d : Dialect} {source : Bytes} {t : Token}

theorem cutText_eq (h : t ∈ (parse d source).tokens) :
    (parse d source).cutText t = .ok t.text.bytes :=
  slice_eq_bytes (Array.mem_toList_iff.2 h)

theorem cutSpan_eq (h : t ∈ (parse d source).tokens) :
    (parse d source).cutSpan t = .ok t.span := by
  have hdecode := decode_bytes_text (Array.mem_toList_iff.2 h)
  rw [cutSpan, cutText_eq h, Checked.ok_bind, Position.walk_eq, List.drop_zero, hdecode]
  rfl

theorem cutFirstLine_eq (h : t ∈ (parse d source).tokens) :
    (parse d source).cutFirstLine t = .ok (firstLine t.text).bytes := by
  have proper := proper_text (Array.mem_toList_iff.2 h)
  rw [cutFirstLine, cutText_eq h, Checked.ok_bind, Checked.slice_take List.findIdx_le_length,
    Checked.take_findIdx, Text.bytes_firstLine proper]

theorem cutLine_eq (d : Dialect) (source : Bytes) (i : Int) :
    Ensures ((parse d source).cutLine i) fun line =>
      (parse d source).lineText i = .ok (Text.decode line) := by
  unfold cutLine lineText
  cases htoken : (parse d source).token? i with
  | none => exact ⟨[], rfl, congrArg Except.ok Text.decode_nil.symm⟩
  | some t =>
    have hmem : t ∈ (parse d source).tokens.toList := by
      unfold token? at htoken
      split at htoken
      · cases htoken
      · exact mem_tokens_of_getElem? htoken
    have hoffset : t.offset ≤ source.length :=
      Nat.le_trans (Nat.le_add_right _ _) (stop_le_length hmem)
    have hsource : (parse d source).source = source := rfl
    simp only [hsource, Checked.slice_take hoffset, Checked.slice_drop hoffset, Checked.ok_bind]
    exact ⟨_, Checked.slice_around hoffset isBreakByte, rfl⟩

/-! ## Questions -/

/-- Whatever is asked, nothing is read outside of the tables and the source. -/
structure ReadsInBounds (ix : SymbolIndex) : Prop where
  tokenAt : ∀ pos, Succeeds (ix.tokenAt pos)
  symbolAt : ∀ pos, Succeeds (ix.symbolAt pos)
  spanOf : ∀ t ∈ ix.tokens, Succeeds (ix.spanOf t)
  lineText : ∀ i, Succeeds (ix.lineText i)
  statementAt : ∀ i, Succeeds (ix.statementAt i)
  hoverAt : ∀ pos, Succeeds (ix.hoverAt pos)
  definitionAt : ∀ uri pos, Succeeds (ix.definitionAt uri pos)
  referencesAt : ∀ uri pos withDeclarations, Succeeds (ix.referencesAt uri pos withDeclarations)
  outline : Succeeds ix.outline
  highlights : Succeeds ix.highlights
  suggestions : ∀ word, Succeeds (Completion.suggestions ix word)
  completeAt : ∀ pos, Succeeds (ix.completeAt pos)
  /-- The text of a token is cut out of the source. -/
  text : ∀ t ∈ ix.tokens, ix.cutText t = .ok t.text.bytes
  /-- Where a token ends is found byte by byte. -/
  span : ∀ t ∈ ix.tokens, ix.cutSpan t = ix.spanOf t
  /-- What is highlighted is cut out of the text of the token. -/
  firstLine : ∀ t ∈ ix.tokens, ix.cutFirstLine t = .ok (firstLine t.text).bytes
  /-- The line of a definition is cut out of the source. -/
  line : ∀ i, Ensures (ix.cutLine i) fun line => ix.lineText i = .ok (Text.decode line)
  /-- The digits are cut out of a literal. -/
  digits : ∀ t ∈ ix.tokens, Literal.cutValue? t.text.bytes = .ok (Literal.value? t.text)
  /-- The sigil is cut out of a word that keywords are searched for. -/
  search : ∀ word, Keyword.cutSearch word = .ok (Keyword.search (Text.decode word))
  /-- The bit is cut out of a mnemonic. -/
  bit : ∀ name, ix.dialect.isMnemonic name = true →
    let key := Text.lowercase name.shown
    Instruction.cutDescription? (Text.ofString key).bytes = .ok (Instruction.familyDescription? key)

/-- No question about a text reads outside of what there is, for whatever position, name or word it
is asked. -/
theorem reads_within_bounds (d : Dialect) (source : Bytes) : (parse d source).ReadsInBounds where
  tokenAt pos := ((sound_parse d source).tokenAt pos).succeeds
  symbolAt pos := ((sound_parse d source).symbolAt pos).succeeds
  spanOf t ht := (sound_parse d source).spanOf ht
  lineText i := by
    obtain ⟨line, -, hline⟩ := cutLine_eq d source i
    exact ⟨_, hline, trivial⟩
  statementAt i := succeeds_statementAt _ i
  hoverAt pos := (sound_parse d source).hoverAt pos
  definitionAt uri pos := (sound_parse d source).definitionAt uri pos
  referencesAt uri pos withDeclarations :=
    (sound_parse d source).referencesAt uri pos withDeclarations
  outline := (sound_parse d source).outline
  highlights := (sound_parse d source).highlights
  suggestions word := (sound_parse d source).suggestions word
  completeAt pos := (sound_parse d source).completeAt pos
  text t ht := cutText_eq ht
  span t ht := by rw [cutSpan_eq ht, spanOf_eq_span (Array.mem_toList_iff.2 ht)]
  firstLine t ht := cutFirstLine_eq ht
  line i := cutLine_eq d source i
  digits t ht := by rw [Literal.cutValue?_eq, decode_bytes_text (Array.mem_toList_iff.2 ht)]
  search word := Keyword.cutSearch_eq word
  bit name hname := by
    refine Instruction.cutDescription?_eq fun c hc => ?_
    have hkey : Text.lowercase name.shown ∈ d.instructionSet := List.contains_iff_mem.1 hname
    have hword : Completion.isWordPart (.char c) = true :=
      Completion.isWordPart_of_mem_instructionSet hkey (List.mem_map_of_mem hc)
    have := Completion.toNat_of_isWordPart hword
    omega

/-- A mnemonic that names a bit, a position in front of the text, and what there is nothing to read
for: the empty word has no first character, a run without tokens no last one. -/
theorem reads_within_bounds_bit :
    let ix := parse .acme [0x42, 0x42, 0x52, 0x33]
    let name : Text := [.char 'B', .char 'B', .char 'R', .char '3']
    let t : Token := ⟨.identifier, 0, ⟨0, 0⟩, name, true⟩
    ix.tokens = #[t] ∧ ix.cutText t = .ok [0x42, 0x42, 0x52, 0x33] ∧
      ix.cutSpan t = .ok ⟨⟨0, 0⟩, ⟨0, 4⟩⟩ ∧ Succeeds (ix.hoverAt ⟨-1, -1⟩) ∧
      Completion.instructions .acme [] = .error (.index 0 0) ∧
      Succeeds (Completion.suggestions ix []) ∧
      ix.outlineItem ⟨.comment, 0, 0⟩ .label = .error (.index (-1) 1) ∧ Succeeds ix.outline ∧
      ix.dialect.isMnemonic name = true ∧
      Instruction.cutDescription? [0x62, 0x62, 0x72, 0x33] =
        .ok (some "Branch on Bit 3 Reset. (65C02)") := by
  intro ix name t
  have hlexemes : lexemes .acme [0x42, 0x42, 0x52, 0x33] = [.token .identifier name] := by cbv
  have hlist : ix.tokens.toList = [t] := by
    rw [tokens_parse, hlexemes]
    rfl
  have htokens : ix.tokens = #[t] := Array.toList_inj.1 hlist
  have hmem : t ∈ ix.tokens := by simp [htokens]
  have hspan : ix.spanOf t = .ok ⟨⟨0, 0⟩, ⟨0, 4⟩⟩ := spanOf_eq_span (Array.mem_toList_iff.2 hmem)
  have hitem : ix.outlineItem ⟨.comment, 0, 0⟩ .label = .error (.index (-1) 1) := by
    have hfirst : Checked.entry ix.tokens (0 : Nat) = .ok t :=
      Checked.entry_eq_ok_iff.2 (by rw [htokens]; rfl)
    have hlast : Checked.entry ix.tokens (((0 : Nat) : Int) + (0 : Nat) - 1) =
        .error (.index (-1) 1) := by
      rw [htokens]
      rfl
    simp only [outlineItem, hfirst, hlast, Checked.ok_bind, hspan]
    rfl
  have hname : ix.dialect.isMnemonic name = true := by cbv
  have hkey : Text.lowercase name.shown = "bbr3" := by cbv
  have reads := reads_within_bounds .acme [0x42, 0x42, 0x52, 0x33]
  refine ⟨htokens, reads.text t hmem, (reads.span t hmem).trans hspan, reads.hoverAt ⟨-1, -1⟩, rfl,
    reads.suggestions [], hitem, reads.outline, hname, ?_⟩
  have hbit := reads.bit name hname
  rw [hkey] at hbit
  exact hbit

end SymbolIndex

end Asm6502
