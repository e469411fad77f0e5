import Asm6502.Proofs.FaultFree

/-!
# Highlights as numbers

The numbers of the highlights of a document are read back by adding up what each highlight says
relative to the one before it. No number wraps around on the way, and the stretches that come out
follow each other without overlapping.

## Main definitions

- `Highlight.decode?`: reading highlights back from numbers.
- `Highlight.differencesFrom`: the numbers of highlights before they are cut down to 32 bits.
- `Highlight.InOrder`: highlights that follow each other.
- `Token.isShown`, `Highlight.Shows`: which tokens are highlighted, and how.

## Main statements

- `Highlight.InOrder.decodeFrom?_encodeFrom`, `Highlight.InOrder.map_toNat_encodeFrom`: highlights in
  order are read back, and nothing wraps around.
- `Position.right_firstLine_le_advance`: what is highlighted of a text does not reach beyond it.
- `SymbolIndex.kind_eq_keyword_iff_of_shows`, `SymbolIndex.kind_eq_function_iff_of_shows`: when a
  name is shown as a keyword or as a function.
- `SymbolIndex.Sound.ensures_highlights`: exactly the tokens with something to show are highlighted.
-/

namespace Asm6502

open Checked (Ensures ensures_pure ensures_mapM bind_eq_ok_iff)

/-! ## Reading numbers back -/

/-- The position `lines` lines and `chars` columns further on. The columns count from `p` if that is
on the same line, and from the start of the line otherwise. -/
def Position.forward (p : Position) (lines chars : Nat) : Position :=
  if lines = 0 then p.right chars else ⟨p.line + lines, chars⟩

/-- The kind at a place of the legend. -/
def HighlightKind.ofCode? (n : UInt32) : Option HighlightKind :=
  all[n.toNat]?

@[simp] theorem HighlightKind.ofCode?_code (k : HighlightKind) : ofCode? k.code = some k := by
  cases k <;> rfl

namespace Highlight

/-- The modifiers that the legend has a name for. -/
def declares? (modifiers : UInt32) : Option Bool :=
  if modifiers = 0 then some false else if modifiers = 1 then some true else none

/-- The highlights that some numbers describe, of which the first follows a highlight at
`previous`. -/
def decodeFrom? (previous : Position) : List UInt32 → Option (List Highlight)
  | [] => some []
  | line :: char :: length :: kind :: modifiers :: rest => do
    let position := previous.forward line.toNat char.toNat
    let kind ← HighlightKind.ofCode? kind
    let declares ← declares? modifiers
    let behind ← decodeFrom? position rest
    return ⟨position, length.toNat, kind, declares⟩ :: behind
  | _ => none

/-- The highlights that some numbers describe. -/
def decode? (numbers : List UInt32) : Option (List Highlight) :=
  decodeFrom? .origin numbers

/-- What the numbers of a highlight that follows one at `previous` stand for. -/
def differences (previous : Position) (h : Highlight) : List Int :=
  [h.position.line - previous.line,
    if h.position.line = previous.line then h.position.char - previous.char else h.position.char,
    h.length, h.kind.code.toNat, if h.declares then 1 else 0]

/-- What the numbers of highlights that follow one at `previous` stand for. -/
def differencesFrom (previous : Position) : List Highlight → List Int
  | [] => []
  | h :: hs => h.differences previous ++ differencesFrom h.position hs

end Highlight

/-! ## One highlight -/

/-- Neither the line nor the column needs more than 32 bits. -/
structure Position.Fits (p : Position) : Prop where
  line : 0 ≤ p.line ∧ p.line < 2 ^ 32
  char : 0 ≤ p.char ∧ p.char < 2 ^ 32

theorem Position.le_iff {p q : Position} :
    p ≤ q ↔ p.line < q.line ∨ p.line = q.line ∧ p.char ≤ q.char :=
  Iff.rfl

theorem Position.forward_eq {p q : Position} {lines chars : Nat}
    (hlines : (lines : Int) = q.line - p.line)
    (hchars : (chars : Int) = if q.line = p.line then q.char - p.char else q.char) :
    p.forward lines chars = q := by
  cases q with
  | mk line char =>
    simp only [forward, right] at hlines hchars ⊢
    by_cases same : line = p.line
    · rw [if_pos same] at hchars
      rw [if_pos (by omega), hchars, same, add_sub_cancel]
    · rw [if_neg same] at hchars
      rw [if_neg (by omega), hchars, hlines, add_sub_cancel]

theorem toNat_ofInt_of_lt {n : Int} (hn : 0 ≤ n) (h : n < 2 ^ 32) :
    ((UInt32.ofInt n).toNat : Int) = n := by
  have hmod : n % 2 ^ 32 = n := Int.emod_eq_of_lt hn h
  have hnat : n.toNat < UInt32.size := by
    simp only [UInt32.size]
    omega
  rw [UInt32.ofInt, hmod, UInt32.toNat_ofNat_of_lt' hnat, Int.toNat_of_nonneg hn]

namespace Highlight

/-- The highlight is described by numbers of 32 bits. -/
structure Fits (h : Highlight) : Prop where
  position : h.position.Fits
  length : h.length < 2 ^ 32

variable {previous : Position} {h : Highlight}

/-- Nothing wraps around in the numbers of a highlight behind the previous one. -/
theorem map_toNat_numbers (hp : previous.Fits) (hh : h.Fits) (hle : previous ≤ h.position) :
    (h.numbers previous).map (fun n => (n.toNat : Int)) = h.differences previous := by
  obtain ⟨hpline, hpchar⟩ := hp
  obtain ⟨⟨hline, hchar⟩, hlength⟩ := hh
  rw [Position.le_iff] at hle
  have line : ((UInt32.ofInt (h.position.line - previous.line)).toNat : Int) =
      h.position.line - previous.line := toNat_ofInt_of_lt (by omega) (by omega)
  have char : ((UInt32.ofInt (if h.position.line = previous.line then
      h.position.char - previous.char else h.position.char)).toNat : Int) =
      if h.position.line = previous.line then h.position.char - previous.char
      else h.position.char := by
    refine toNat_ofInt_of_lt ?_ ?_ <;> split <;> omega
  have length : (UInt32.ofNat h.length).toNat = h.length := UInt32.toNat_ofNat_of_lt' hlength
  simp only [numbers, differences, List.map_cons, List.map_nil, line, char, length]
  cases h.declares <;> rfl

@[simp] theorem declares?_ite (b : Bool) : declares? (if b then 1 else 0) = some b := by
  cases b <;> rfl

/-- A highlight is read back. -/
theorem decodeFrom?_numbers_append (hp : previous.Fits) (hh : h.Fits) (hle : previous ≤ h.position)
    (rest : List UInt32) :
    decodeFrom? previous (h.numbers previous ++ rest) =
      (decodeFrom? h.position rest).map (h :: ·) := by
  obtain ⟨line, char, length, -⟩ : _ ∧ _ ∧ _ ∧ _ := by
    simpa only [numbers, differences, List.map_cons, List.cons.injEq] using
      map_toNat_numbers hp hh hle
  have position := Position.forward_eq line char
  have length : (UInt32.ofNat h.length).toNat = h.length := by exact_mod_cast length
  simp only [numbers, List.cons_append, List.nil_append, decodeFrom?, position, length,
    HighlightKind.ofCode?_code, declares?_ite]
  cases decodeFrom? h.position rest <;> rfl

/-! ## Highlights in order -/

/-- The highlights follow each other in order behind one at `previous`, and 32 bits are enough for
each of their numbers. -/
inductive InOrder : Position → List Highlight → Prop where
  | nil (previous : Position) : InOrder previous []
  | cons {previous : Position} {h : Highlight} {hs : List Highlight} (previousFits : previous.Fits)
      (fits : h.Fits) (le : previous ≤ h.position) (behind : InOrder h.position hs) :
      InOrder previous (h :: hs)

variable {hs : List Highlight}

theorem inOrder_of_pairwise (hp : previous.Fits) (hhs : ∀ h ∈ hs, h.Fits)
    (ordered : hs.Pairwise fun h h' => h.position ≤ h'.position)
    (behind : ∀ h ∈ hs, previous ≤ h.position) : InOrder previous hs := by
  induction hs generalizing previous with
  | nil => exact .nil previous
  | cons h hs ih =>
    obtain ⟨first, ordered⟩ := List.pairwise_cons.1 ordered
    have fits := hhs h List.mem_cons_self
    refine .cons hp fits (behind h List.mem_cons_self) ?_
    exact ih fits.position (fun x hx => hhs x (List.mem_cons_of_mem h hx)) ordered first

/-- Highlights in order are read back. -/
theorem InOrder.decodeFrom?_encodeFrom (ordered : InOrder previous hs) :
    decodeFrom? previous (encodeFrom previous hs) = some hs := by
  induction ordered with
  | nil => rfl
  | cons previousFits fits le _ ih =>
    rw [encodeFrom, decodeFrom?_numbers_append previousFits fits le, ih, Option.map_some]

/-- Nothing wraps around in the numbers of highlights in order. -/
theorem InOrder.map_toNat_encodeFrom (ordered : InOrder previous hs) :
    (encodeFrom previous hs).map (fun n => (n.toNat : Int)) = differencesFrom previous hs := by
  induction ordered with
  | nil => rfl
  | cons previousFits fits le _ ih =>
    rw [encodeFrom, List.map_append, map_toNat_numbers previousFits fits le, ih, differencesFrom]

end Highlight

/-! ## Positions along a text -/

namespace Position

instance : Preorder Position where
  le_refl p := .inr ⟨rfl, le_rfl⟩
  le_trans p q r h h' := by
    rw [le_iff] at *
    omega

theorem le_nextLine (p : Position) : p ≤ p.nextLine :=
  .inl (Int.lt_succ p.line)

theorem le_right (p : Position) (units : Nat) : p ≤ p.right units :=
  .inr ⟨rfl, by simp [right]⟩

theorem right_right (p : Position) (m n : Nat) : (p.right m).right n = p.right (m + n) := by
  simp [right, Int.add_assoc]

/-- A text does not lead back. -/
theorem le_advance (p : Position) (t : Text) : p ≤ p.advance t := by
  fun_induction advance p t with
  | case1 p => exact le_rfl
  | case2 p t ih => exact (le_nextLine p).trans ih
  | case3 p g t _ ih =>
    refine le_trans ?_ ih
    split
    · exact le_nextLine p
    · exact le_right p _

/-- What is shown of a text does not reach beyond it. -/
theorem right_firstLine_le_advance (p : Position) (t : Text) :
    p.right (SymbolIndex.firstLine t).units ≤ p.advance t := by
  induction t generalizing p with
  | nil => simp [SymbolIndex.firstLine, Text.units, right]
  | cons g t ih =>
    cases hg : g.isBreak with
    | true =>
      have hline : SymbolIndex.firstLine (g :: t) = [] := by simp [SymbolIndex.firstLine, hg]
      calc p.right (SymbolIndex.firstLine (g :: t)).units
        _ = p := by simp [hline, Text.units, right]
        _ ≤ p.advance (g :: t) := le_advance p _
    | false =>
      have hline : SymbolIndex.firstLine (g :: t) = g :: SymbolIndex.firstLine t := by
        simp [SymbolIndex.firstLine, hg]
      have hg' : ¬ (g = .char '\r' ∧ t.head? = some (.char '\n')) := by
        rintro ⟨rfl, -⟩
        simp [Glyph.isBreak] at hg
      calc p.right (SymbolIndex.firstLine (g :: t)).units
        _ = (p.right g.units).right (SymbolIndex.firstLine t).units := by
          rw [hline, right_right]
          rfl
        _ ≤ (p.right g.units).advance t := ih _
        _ = p.advance (g :: t) := by simp [advance_cons hg', hg]

end Position

theorem Glyph.units_pos (g : Glyph) : 0 < g.units := by
  cases g with
  | char c =>
    rw [units]
    split <;> omega
  | stray b => exact Nat.one_pos

theorem Glyph.units_le_width (g : Glyph) : g.units ≤ g.width := by
  cases g with
  | char c =>
    simp only [units, width]
    split
    · exact Char.utf8Size_pos c
    · rename_i hlarge
      have hval : ∀ n : UInt32, n.toNat < 0x10000 → ¬ c.val ≤ n := by
        intro n hn hle
        have := UInt32.le_iff_toNat_le.1 hle
        exact hlarge (Nat.lt_of_le_of_lt this hn)
      rw [Char.utf8Size, if_neg (hval _ (by decide)), if_neg (hval _ (by decide)),
        if_neg (hval _ (by decide))]
      decide
  | stray b => exact le_rfl

theorem Text.units_le_size (t : Text) : t.units ≤ t.size := by
  induction t with
  | nil => exact le_rfl
  | cons g t ih => exact Nat.add_le_add g.units_le_width ih

theorem Text.units_eq_zero_iff {t : Text} : t.units = 0 ↔ t = [] := by
  cases t with
  | nil => exact iff_of_true rfl rfl
  | cons g t =>
    have hpos : 0 < Text.units (g :: t) := Nat.add_pos_left g.units_pos _
    exact iff_of_false hpos.ne' (List.cons_ne_nil g t)

/-- Lines and columns grow no faster than the text does. -/
theorem Position.bounds_advance {p : Position} (hline : 0 ≤ p.line) (hchar : 0 ≤ p.char)
    (t : Text) :
    (0 ≤ (p.advance t).line ∧ (p.advance t).line ≤ p.line + t.size) ∧
      0 ≤ (p.advance t).char ∧ (p.advance t).char ≤ p.char + t.size := by
  fun_induction advance p t with
  | case1 p => simp [hline, hchar]
  | case2 p t ih =>
    have behind := ih (by simp only [nextLine]; omega) le_rfl
    have hreturn := (Glyph.char '\r').width_pos
    simp only [nextLine, Text.size_cons] at behind ⊢
    omega
  | case3 p g t _ ih =>
    have hpos := g.width_pos
    have hunits := g.units_le_width
    rw [Text.size_cons]
    split at ih
    · have behind := ih (by simp only [nextLine]; omega) le_rfl
      rename_i hg
      simp only [hg, if_true, nextLine] at behind ⊢
      omega
    · have behind := ih hline (by simp only [right]; omega)
      rename_i hg
      simp only [hg, Bool.false_eq_true, if_false, right] at behind ⊢
      omega

/-! ## Tokens in order -/

namespace Lexeme

variable {offset : Nat} {p : Position} {fresh : Bool} {ls : List Lexeme}

theorem le_position_of_mem_tokens {t : Token} (h : t ∈ tokens offset p fresh ls) :
    p ≤ t.position := by
  induction ls generalizing offset p fresh with
  | nil => simp [tokens] at h
  | cons l ls ih =>
    rw [tokens_cons, List.mem_append, Option.mem_toList] at h
    rcases h with h | h
    · obtain ⟨k, -, rfl⟩ := Option.map_eq_some_iff.1 h
      exact le_rfl
    · exact (p.le_advance l.text).trans (ih h)

/-- Each token starts where the ones in front of it have ended, or behind. -/
theorem pairwise_span_tokens (offset : Nat) (p : Position) (fresh : Bool) (ls : List Lexeme) :
    (tokens offset p fresh ls).Pairwise fun s t => s.span.stop ≤ t.position := by
  induction ls generalizing offset p fresh with
  | nil => exact .nil
  | cons l ls ih =>
    rw [tokens_cons]
    refine List.pairwise_append.2 ⟨?_, ih _ _ _, fun s hs t ht => ?_⟩
    · cases token? offset p fresh l <;> simp
    · obtain ⟨k, -, rfl⟩ := Option.map_eq_some_iff.1 (Option.mem_toList.1 hs)
      exact le_position_of_mem_tokens ht

end Lexeme

/-! ## The highlights of an index -/

/-- Whether there is something of the token to show. -/
def Token.isShown (t : Token) : Bool :=
  t.kind != .lineBreak && !(SymbolIndex.firstLine t.text).isEmpty

/-- The highlight shows the first line of the token, which is the one at the given index, and says
whether a definition is named by it. -/
structure Highlight.Shows (ix : SymbolIndex) (item : Token × Nat) (h : Highlight) : Prop where
  position : h.position = item.1.position
  length : h.length = (SymbolIndex.firstLine item.1.text).units
  kind : ix.highlightKind? item.1 = .ok (some h.kind)
  declares : h.declares = true ↔
    ∃ s ∈ ix.statements, s.isDefinition = true ∧ s.name? = some item.2

/-- Where a token is shown, and over how many columns. -/
def Token.place (t : Token) : Position × Nat :=
  (t.position, (SymbolIndex.firstLine t.text).units)

/-- Where a highlight starts, and over how many columns it reaches. -/
def Highlight.place (h : Highlight) : Position × Nat :=
  (h.position, h.length)

/-- The highlight `h` lies in front of `h'`, and does not reach into it. -/
def Highlight.Before (h h' : Highlight) : Prop :=
  h.position.line < h'.position.line ∨
    h.position.line = h'.position.line ∧ h.position.char < h'.position.char ∧
      h.position.char + h.length ≤ h'.position.char

theorem Highlight.Before.le {h h' : Highlight} (before : h.Before h') : h.position ≤ h'.position :=
  before.imp_right fun same => ⟨same.1, same.2.1.le⟩

theorem Highlight.before_of_right_le {h h' : Highlight} (hlength : 0 < h.length)
    (hle : h.position.right h.length ≤ h'.position) : h.Before h' := by
  simp only [Position.le_iff, Position.right] at hle
  simp only [Before]
  omega

namespace SymbolIndex

variable {ix : SymbolIndex}

/-- A name is shown as what it stands for: a mnemonic, a macro, or any other symbol. -/
theorem nameHighlight_eq_ok_iff {name : Text} {kind : HighlightKind} :
    ix.nameHighlight name = .ok kind ↔
      ix.dialect.isMnemonic name = true ∧ kind = .keyword ∨
      ix.dialect.isMnemonic name = false ∧ ∃ s?, ix.resolve name = .ok s? ∧
        ((∃ s, s? = some s ∧ s.definitionKind? = some .macroDef) ∧ kind = .function ∨
          (∀ s, s? = some s → s.definitionKind? ≠ some .macroDef) ∧ kind = .symbol) := by
  unfold nameHighlight
  cases ix.dialect.isMnemonic name with
  | true => simp [pure, Except.pure, eq_comm]
  | false =>
    have hany (s? : Option Statement) : s?.any (·.definitionKind? = some .macroDef) = true ↔
        ∃ s, s? = some s ∧ s.definitionKind? = some .macroDef := by
      simp [Option.any_eq_true]
    simp only [Bool.false_eq_true, if_false, bind_eq_ok_iff, false_and, false_or, true_and, hany]
    refine exists_congr fun s? => and_congr_right fun _ => ?_
    change Except.ok _ = Except.ok kind ↔ _
    rw [Except.ok.injEq]
    split <;> grind

variable {item : Token × Nat} {h : Highlight}

theorem nameHighlight_of_shows (shows : h.Shows ix item) :
    item.1.kind = .identifier ∧ ix.nameHighlight item.1.text = .ok h.kind ∨
      item.1.kind ≠ .identifier ∧ h.kind ≠ .keyword ∧ h.kind ≠ .function := by
  have hshown := shows.kind
  unfold highlightKind? at hshown
  cases hkind : item.1.kind with
  | identifier =>
    rw [hkind] at hshown
    cases hname : ix.nameHighlight item.1.text with
    | error e => simp [hname] at hshown
    | ok kind => simpa [hname] using hshown
  | lineBreak =>
    rw [hkind] at hshown
    cases hshown
  | _ =>
    rw [hkind] at hshown
    rw [← Option.some.inj (Except.ok.inj hshown)]
    exact .inr (by decide)

/-- The mnemonics are what is shown as keywords. -/
theorem kind_eq_keyword_iff_of_shows (shows : h.Shows ix item) :
    h.kind = .keyword ↔
      item.1.kind = .identifier ∧ ix.dialect.isMnemonic item.1.text = true := by
  rcases nameHighlight_of_shows shows with ⟨hkind, hname⟩ | ⟨hkind, hother⟩
  · rw [nameHighlight_eq_ok_iff] at hname
    grind
  · simp [hkind, hother]

/-- The names of macros are what is shown as functions, unless they are mnemonics. -/
theorem kind_eq_function_iff_of_shows (shows : h.Shows ix item) :
    h.kind = .function ↔
      item.1.kind = .identifier ∧ ix.dialect.isMnemonic item.1.text = false ∧
        ∃ s, ix.resolve item.1.text = .ok (some s) ∧ s.definitionKind? = some .macroDef := by
  rcases nameHighlight_of_shows shows with ⟨hkind, hname⟩ | ⟨hkind, hother⟩
  · rw [nameHighlight_eq_ok_iff] at hname
    grind
  · simp [hkind, hother]

theorem mem_declaredNames_iff {i : Nat} :
    i ∈ ix.declaredNames ↔ ∃ s ∈ ix.statements, s.isDefinition = true ∧ s.name? = some i := by
  simp [declaredNames]

theorem Sound.ensures_highlight? (sound : ix.Sound) (item : Token × Nat) :
    Ensures (ix.highlight? ix.declaredNames item.1 item.2) fun
      | none => item.1.isShown = false
      | some h => item.1.isShown = true ∧ h.Shows ix item := by
  obtain ⟨kind?, hkind, hbreak⟩ := sound.highlightKind? item.1
  rw [SymbolIndex.highlight?, hkind]
  cases kind? with
  | none => exact ⟨none, rfl, by simp [Token.isShown, hbreak.1 rfl]⟩
  | some kind =>
    refine ⟨_, rfl, ?_⟩
    split
    · rename_i hlength
      have hline := Text.units_eq_zero_iff.1 hlength
      simp [Token.isShown, hline]
    · rename_i hlength
      have hline := mt Text.units_eq_zero_iff.2 hlength
      have hkind' : item.1.kind ≠ .lineBreak := mt hbreak.2 (by simp)
      refine ⟨by simp [Token.isShown, hline, hkind'], rfl, rfl, hkind, ?_⟩
      rw [List.contains_iff_mem, mem_declaredNames_iff]

theorem Sound.ensures_highlights (sound : ix.Sound) :
    Ensures ix.highlights
      (List.Forall₂ (Highlight.Shows ix) (ix.tokens.toList.zipIdx.filter (·.1.isShown))) := by
  refine (ensures_mapM fun item _ => sound.ensures_highlight? item).bind fun hs? shown =>
    ensures_pure ?_
  generalize ix.tokens.toList.zipIdx = items at shown ⊢
  induction shown with
  | nil => exact .nil
  | @cons item h? _ _ hitem _ ih =>
    cases h? with
    | none => simpa [hitem] using ih
    | some h => simpa [hitem.1] using ⟨hitem.2, ih⟩

variable {d : Dialect} {source : Bytes}

/-- In a source of less than 2^32 bytes no number is out of range. -/
theorem fits_of_mem_tokens (hsize : source.length < 2 ^ 32) {t : Token}
    (ht : t ∈ (parse d source).tokens.toList) :
    t.position.Fits ∧ (firstLine t.text).units < 2 ^ 32 := by
  have hstop := stop_le_length ht
  obtain ⟨front, back, -, hoffset, hposition, -⟩ := exists_cut ht
  obtain ⟨hline, hchar⟩ := Position.bounds_advance (p := .origin) le_rfl le_rfl front
  have hfirst : (firstLine t.text).size ≤ t.text.size := by
    have hsplit := List.takeWhile_append_dropWhile (p := (!·.isBreak)) (l := t.text)
    rw [← congrArg Text.size hsplit, Text.size_append, firstLine]
    exact Nat.le_add_right _ _
  have hunits := (firstLine t.text).units_le_size
  rw [Token.stop, Token.length] at hstop
  rw [← hposition, ← hoffset] at hline hchar
  simp only [Position.origin, zero_add] at hline hchar
  exact ⟨⟨by omega, by omega⟩, by omega⟩

/-- The highlights are where the tokens are that have something to show. -/
theorem map_place_of_shows {hs : List Highlight}
    (shown : List.Forall₂ (Highlight.Shows ix) (ix.tokens.toList.zipIdx.filter (·.1.isShown)) hs) :
    hs.map Highlight.place = (ix.tokens.toList.filter Token.isShown).map Token.place := by
  have hitems : (ix.tokens.toList.zipIdx.filter (·.1.isShown)).map Prod.fst =
      ix.tokens.toList.filter Token.isShown := by
    have hfilter := List.filter_map (p := Token.isShown) (f := Prod.fst)
      (l := ix.tokens.toList.zipIdx)
    rw [List.zipIdx_map_fst] at hfilter
    exact hfilter.symm
  rw [← hitems, List.map_map, ← List.forall₂_eq_eq_eq, List.forall₂_map_left_iff,
    List.forall₂_map_right_iff]
  exact shown.flip.imp fun _ _ h => Prod.ext h.position h.length

theorem exists_token_of_shows {hs : List Highlight}
    (shown : List.Forall₂ (Highlight.Shows ix) (ix.tokens.toList.zipIdx.filter (·.1.isShown)) hs)
    {h : Highlight} (hh : h ∈ hs) :
    ∃ t ∈ ix.tokens.toList, t.isShown = true ∧ t.position = h.position ∧
      (firstLine t.text).units = h.length := by
  have hmem : h.place ∈ hs.map Highlight.place := List.mem_map_of_mem hh
  rw [map_place_of_shows shown, List.mem_map] at hmem
  obtain ⟨t, ht, hplace⟩ := hmem
  exact ⟨t, (List.mem_filter.1 ht).1, (List.mem_filter.1 ht).2, Prod.mk.inj hplace⟩

theorem pairwise_span_parse (d : Dialect) (source : Bytes) :
    (parse d source).tokens.toList.Pairwise fun s t => s.span.stop ≤ t.position := by
  rw [tokens_parse]
  exact Lexeme.pairwise_span_tokens 0 .origin true _

theorem pairwise_before_of_shows {hs : List Highlight}
    (shown : List.Forall₂ (Highlight.Shows (parse d source))
      ((parse d source).tokens.toList.zipIdx.filter (·.1.isShown)) hs) :
    hs.Pairwise Highlight.Before := by
  have places : (hs.map Highlight.place).Pairwise fun x y => x.1.right x.2 ≤ y.1 := by
    rw [map_place_of_shows shown, List.pairwise_map]
    refine ((pairwise_span_parse d source).filter _).imp fun {s t} hle => ?_
    exact (Position.right_firstLine_le_advance s.position s.text).trans hle
  refine (List.pairwise_map.1 places).imp_of_mem fun {h h'} hh _ hle => ?_
  obtain ⟨t, -, hshown, -, hlength⟩ := exists_token_of_shows shown hh
  refine Highlight.before_of_right_le ?_ hle
  rw [← hlength, Nat.pos_iff_ne_zero, Ne, Text.units_eq_zero_iff]
  simpa using (Bool.and_eq_true_iff.1 hshown).2

/-- The highlights of a source of less than 2^32 bytes are read back from their numbers, none of
which has wrapped around. They are those of the tokens that have something to show, in order, and
they follow each other without overlapping. -/
theorem highlights_read_back (d : Dialect) (source : Bytes) (hsize : source.length < 2 ^ 32) :
    let ix := parse d source
    ∃ hs, ix.highlights = .ok hs ∧
      List.Forall₂ (Highlight.Shows ix) (ix.tokens.toList.zipIdx.filter (·.1.isShown)) hs ∧
      Highlight.decode? (Highlight.encode hs) = some hs ∧
      (Highlight.encode hs).map (fun n => (n.toNat : Int)) = Highlight.differencesFrom .origin hs ∧
      hs.Pairwise Highlight.Before := by
  intro ix
  obtain ⟨hs, hok, shown⟩ := (sound_parse d source).ensures_highlights
  have before := pairwise_before_of_shows shown
  have fits (h : Highlight) (hh : h ∈ hs) : h.Fits := by
    obtain ⟨t, ht, -, hposition, hlength⟩ := exists_token_of_shows shown hh
    obtain ⟨fits, length⟩ := fits_of_mem_tokens hsize ht
    exact ⟨hposition ▸ fits, hlength ▸ length⟩
  have origin : Position.origin.Fits := ⟨by decide, by decide⟩
  have behind (h : Highlight) (hh : h ∈ hs) : .origin ≤ h.position := by
    obtain ⟨hline, hchar⟩ := (fits h hh).position
    simp only [Position.le_iff, Position.origin]
    omega
  have ordered : Highlight.InOrder .origin hs :=
    Highlight.inOrder_of_pairwise origin fits (before.imp Highlight.Before.le) behind
  exact ⟨hs, hok, shown, ordered.decodeFrom?_encodeFrom, ordered.map_toNat_encodeFrom, before⟩

/-- A definition, a mnemonic, a string that reaches over a line end, and an equals sign behind
it. -/
theorem highlights_read_back_clipped_string :
    let source : Bytes := [0x61, 0x20, 0x41, 0x64, 0x63, 0x20, 0x22, 0x62, 0x0A, 0x63, 0x22, 0x3D]
    let hs : List Highlight :=
      [⟨⟨0, 0⟩, 1, .symbol, true⟩, ⟨⟨0, 2⟩, 3, .keyword, false⟩, ⟨⟨0, 7⟩, 1, .string, false⟩,
        ⟨⟨1, 2⟩, 1, .operator, false⟩]
    source.length < 2 ^ 32 ∧ (parse .acme source).highlights = .ok hs ∧
      Highlight.encode hs =
        [0, 0, 1, 2, 1, 0, 2, 3, 3, 0, 0, 5, 1, 4, 0, 1, 2, 1, 6, 0] ∧
      List.Forall₂ (Highlight.Shows (parse .acme source))
        ((parse .acme source).tokens.toList.zipIdx.filter (·.1.isShown)) hs ∧
      Highlight.decode? (Highlight.encode hs) = some hs ∧ hs.Pairwise Highlight.Before := by
  intro source hs
  have hsize : source.length < 2 ^ 32 := by decide
  have hlexemes : lexemes .acme source =
      [.token .identifier [.char 'a'], .skipped [.char ' '],
        .token .identifier [.char 'A', .char 'd', .char 'c'], .skipped [.char ' '],
        .skipped [.char '"'], .token .string [.char 'b', .char '\n', .char 'c'],
        .skipped [.char '"'], .token .operator [.char '=']] := by
    cbv
  have hok : (parse .acme source).highlights = .ok hs := by
    simp only [parse, gather, hlexemes]
    rfl
  obtain ⟨hs', hok', shown, decoded, -, before⟩ := highlights_read_back .acme source hsize
  obtain rfl : hs' = hs := Except.ok.inj (hok'.symm.trans hok)
  exact ⟨hsize, hok, by decide, shown, decoded, before⟩

end SymbolIndex

end Asm6502
