import Asm6502.Proofs.PositionSearch

/-!
# The values of number literals

A literal stands for the number that its digits make by their positions. Reading it succeeds exactly
if this number fits into 64 bits with a sign, however many digits there are, and each of the ways in
which a number is written reads back as that number.

## Main definitions

- `Number.positional`: the number that digits make in a base.
- `Literal.base`, `Literal.digits`, `Literal.meaning`: what a literal stands for.

## Main statements

- `Number.parse_eq`: digits are read if the number they make fits.
- `Number.positional_toDigits`: the digits of a number make that number.
- `Literal.value?_eq`: the value of a literal.
-/

namespace Asm6502

namespace Number

/-! ## Digits and positions -/

/-- The value of a digit is its place among the digits. Case does not matter. -/
def place (c : Char) : Nat :=
  "0123456789abcdef".toList.idxOf c.toLower

/-- The number that digits make by their positions, of which the last one counts once. -/
def positional (base : Nat) (digits : List Char) : Nat :=
  Nat.ofDigits base (digits.reverse.map place)

/-- The character is read as a digit of the base. -/
structure IsDigit (base : Nat) (c : Char) : Prop where
  value : digitValue? c = some (place c)
  lt : place c < base

instance (base : Nat) (c : Char) : Decidable (IsDigit base c) :=
  decidable_of_iff (digitValue? c = some (place c) ∧ place c < base)
    ⟨fun h => ⟨h.1, h.2⟩, fun h => ⟨h.value, h.lt⟩⟩

theorem IsDigit.mono {base base' : Nat} {c : Char} (h : IsDigit base c) (hle : base ≤ base') :
    IsDigit base' c :=
  ⟨h.value, h.lt.trans_le hle⟩

/-- A range of characters can be gone through one by one. -/
theorem forall_of_forall_range' {P : Char → Prop} (lo n : Nat)
    (h : ∀ k ∈ List.range' lo n, P (Char.ofNat k)) {c : Char}
    (hc : lo ≤ c.toNat ∧ c.toNat < lo + n) : P c :=
  Char.ofNat_toNat c ▸ h c.toNat (List.mem_range'_1.2 hc)

theorem isDigit_of_isDigit {c : Char} (h : c.isDigit = true) : IsDigit 10 c := by
  simp only [Char.isDigit, Bool.and_eq_true, decide_eq_true_eq, UInt32.le_iff_toNat_le] at h
  exact forall_of_forall_range' 48 10 (by decide) ⟨h.1, Nat.lt_succ_of_le h.2⟩

theorem isDigit_of_isDecimal {g : Glyph} (h : g.isDecimal = true) : IsDigit 10 g.shown := by
  cases g with
  | char c => exact isDigit_of_isDigit h
  | stray b => cases h

theorem isDigit_of_isHex {g : Glyph} (h : g.isHex = true) : IsDigit 16 g.shown := by
  cases g with
  | stray b => cases h
  | char c =>
    simp only [Glyph.isHex, Glyph.satisfies, Bool.or_eq_true, Bool.and_eq_true, decide_eq_true_eq,
      Char.le_def, UInt32.le_iff_toNat_le] at h
    rcases h with (h | h) | h
    · exact (isDigit_of_isDigit h).mono (by decide)
    · exact forall_of_forall_range' 97 6 (by decide) ⟨h.1, Nat.lt_succ_of_le h.2⟩
    · exact forall_of_forall_range' 65 6 (by decide) ⟨h.1, Nat.lt_succ_of_le h.2⟩

theorem isDigit_of_isBinary {g : Glyph} (h : g.isBinary = true) : IsDigit 2 g.shown := by
  simp only [Glyph.isBinary, Bool.or_eq_true, Glyph.is_iff] at h
  rcases h with rfl | rfl <;> decide

theorem positional_cons (base : Nat) (c : Char) (cs : List Char) :
    positional base (c :: cs) = place c * base ^ cs.length + positional base cs := by
  simp only [positional, List.reverse_cons, List.map_append, Nat.ofDigits_append, List.map_cons,
    List.map_nil, Nat.ofDigits_singleton, List.length_map, List.length_reverse]
  ring

theorem positional_concat (base : Nat) (cs : List Char) (c : Char) :
    positional base (cs ++ [c]) = base * positional base cs + place c := by
  simp only [positional, List.reverse_append, List.reverse_singleton, List.singleton_append,
    List.map_cons, Nat.ofDigits_cons]
  ring

/-! ## Reading digits -/

variable {base : Nat} {cs : List Char}

/-- Reading stops as soon as the number no longer fits, which it then does not in the end either,
since more digits never make it smaller. -/
theorem parseDigits_eq (hbase : 0 < base) (h : ∀ c ∈ cs, IsDigit base c) {n : Nat}
    (hn : n < 2 ^ 64) : parseDigits base n cs =
      if n * base ^ cs.length + positional base cs < 2 ^ 64 then
        .ok (n * base ^ cs.length + positional base cs)
      else .error .outOfRange := by
  induction cs generalizing n with
  | nil =>
    have hvalue : n * base ^ ([] : List Char).length + positional base [] = n := by
      simp [positional]
    rw [hvalue, if_pos hn, parseDigits]
  | cons c cs ih =>
    obtain ⟨hvalue, hlt⟩ := h c List.mem_cons_self
    have step : n * base ^ (c :: cs).length + positional base (c :: cs) =
        (n * base + place c) * base ^ cs.length + positional base cs := by
      rw [positional_cons, List.length_cons]
      ring
    rw [step, parseDigits, hvalue]
    simp only [if_neg (Nat.not_le.2 hlt)]
    split
    · have hle : n * base + place c ≤ (n * base + place c) * base ^ cs.length :=
        Nat.le_mul_of_pos_right _ (Nat.pow_pos hbase)
      rw [if_neg (by omega)]
    · exact ih (fun x hx => h x (List.mem_cons_of_mem c hx)) (by omega)

/-- Digits are read if the number that they make fits into 64 bits with a sign. -/
theorem parse_eq (hbase : 0 < base) (hne : cs ≠ []) (h : ∀ c ∈ cs, IsDigit base c) :
    parse base cs =
      if positional base cs < 2 ^ 63 then .ok (positional base cs : Int)
      else .error .outOfRange := by
  -- no digit is a sign
  have minus : ∀ rest, cs = '-' :: rest → False := by
    rintro rest rfl
    exact absurd (h '-' List.mem_cons_self).value (by decide)
  have plus : ∀ rest, cs = '+' :: rest → False := by
    rintro rest rfl
    exact absurd (h '+' List.mem_cons_self).value (by decide)
  have hread := parseDigits_eq hbase h (show 0 < 2 ^ 64 by decide)
  rw [Nat.zero_mul, Nat.zero_add] at hread
  rw [parse, hread, if_neg (by simpa using hne)]
  · by_cases hfits : positional base cs < 2 ^ 64
    · rw [if_pos hfits]
      rfl
    · rw [if_neg hfits, if_neg (by omega)]
  · exact minus
  · exact plus

/-! ## Writing digits -/

theorem exists_lt_of_mem_toDigits (hbase : 1 < base) (n : Nat) :
    ∀ c ∈ Nat.toDigits base n, ∃ v < base, c = v.digitChar := by
  induction n using Nat.strongRecOn with
  | ind n ih =>
    rw [Nat.toDigits_eq_if hbase]
    split
    · rename_i hlt
      simpa using ⟨n, hlt, rfl⟩
    · rename_i hle
      have hlast : n % base < base := Nat.mod_lt n (by omega)
      have hfront := ih (n / base) (Nat.div_lt_self (by omega) hbase)
      intro c hc
      rcases List.mem_append.1 hc with hc | hc
      · exact hfront c hc
      · exact ⟨n % base, hlast, by simpa using hc⟩

/-- The digits of a number make that number, however each of them is written. -/
theorem positional_toDigits {f : Char → Char} (hbase : 1 < base)
    (hf : ∀ v < base, place (f v.digitChar) = v) (n : Nat) :
    positional base ((Nat.toDigits base n).map f) = n := by
  induction n using Nat.strongRecOn with
  | ind n ih =>
    rw [Nat.toDigits_eq_if hbase]
    split
    · rename_i hlt
      simp [positional, hf n hlt]
    · rename_i hle
      have hlast : n % base < base := Nat.mod_lt n (by omega)
      rw [List.map_append, List.map_singleton, positional_concat,
        ih (n / base) (Nat.div_lt_self (by omega) hbase), hf _ hlast, Nat.div_add_mod]

end Number

/-! ## Literals -/

namespace Literal

open Number (IsDigit place positional)

/-- The base of a literal, which the sign in front of it tells. -/
def base (t : Text) : Nat :=
  if t.head? = some (.char '$') then 16 else if t.head? = some (.char '%') then 2 else 10

/-- The digits of a literal, without the sign in front. -/
def digits (t : Text) : List Char :=
  (if base t = 10 then t else t.tail).map Glyph.shown

/-- The number that a literal stands for. -/
def meaning (t : Text) : Nat :=
  positional (base t) (digits t)

/-- There are digits, and all of them belong to the base. -/
def WellFormed (t : Text) : Prop :=
  digits t ≠ [] ∧ ∀ c ∈ digits t, IsDigit (base t) c

theorem base_pos (t : Text) : 0 < base t := by
  unfold base
  split
  · decide
  · split <;> decide

theorem shown_eq_iff {g : Glyph} {c : Char} (h : c ≠ '\uFFFD') : g.shown = c ↔ g = .char c := by
  cases g with
  | char c' => simp [Glyph.shown]
  | stray b => simpa [Glyph.shown] using h.symm

theorem base_eq_ten {g : Glyph} (dollar : g ≠ .char '$') (percent : g ≠ .char '%') (t : Text) :
    base (g :: t) = 10 := by
  simp [base, dollar, percent]

/-- The sign in front of a literal decides in which base its digits are read. -/
theorem value?_eq_parse (t : Text) :
    value? t = (Number.parse (base t) (digits t)).toOption := by
  cases t with
  | nil => rfl
  | cons g t =>
    by_cases dollar : g = .char '$'
    · subst dollar
      simp [value?, Text.shown, Glyph.shown, base, digits]
    by_cases percent : g = .char '%'
    · subst percent
      simp [value?, Text.shown, Glyph.shown, base, digits]
    have hshown : (Text.shown (g :: t)).toList = g.shown :: t.map Glyph.shown := by
      simp [Text.shown]
    rw [digits, base_eq_ten dollar percent, if_pos rfl, value?, hshown]
    congr 1
    split
    · rename_i heq
      exact absurd ((shown_eq_iff (by decide)).1 (List.cons.inj heq).1) dollar
    · rename_i heq
      exact absurd ((shown_eq_iff (by decide)).1 (List.cons.inj heq).1) percent
    · rfl

/-- A literal has a value if the number that it stands for fits into 64 bits with a sign. -/
theorem WellFormed.value?_eq {t : Text} (h : WellFormed t) :
    value? t = if meaning t < 2 ^ 63 then some (meaning t : Int) else none := by
  rw [value?_eq_parse, Number.parse_eq (base_pos t) h.1 h.2, meaning]
  split <;> rfl

/-- The characters of number tokens are digits of the base that the token is read in. -/
theorem wellFormed_of_shape {d : Dialect} {front text back : Text}
    (h : TokenKind.number.Shape d front text back) : WellFormed text := by
  rcases h with ⟨hne, longest⟩ | ⟨ds, hne, ⟨rfl, longest⟩ | ⟨rfl, longest⟩⟩
  · obtain ⟨g, rest, rfl⟩ := List.exists_cons_of_ne_nil hne
    have hbase : base (g :: rest) = 10 := by
      have hg := longest.all g List.mem_cons_self
      refine base_eq_ten ?_ ?_ rest <;> rintro rfl <;> cases hg
    rw [WellFormed, digits, hbase, if_pos rfl]
    refine ⟨by simp, List.forall_mem_map.2 fun x hx => ?_⟩
    exact Number.isDigit_of_isDecimal (longest.all x hx)
  · exact ⟨by simpa [digits, base] using hne,
      List.forall_mem_map.2 fun x hx => Number.isDigit_of_isHex (longest.all x hx)⟩
  · exact ⟨by simpa [digits, base] using hne,
      List.forall_mem_map.2 fun x hx => Number.isDigit_of_isBinary (longest.all x hx)⟩

/-! ## Written numbers -/

/-- The string writes the number `n` in the base `b`, with capital letters if with any. -/
structure Writes (s : String) (b n : Nat) : Prop where
  base_eq : base (Text.ofString s) = b
  wellFormed : WellFormed (Text.ofString s)
  meaning_eq : meaning (Text.ofString s) = n
  capital : ∀ c ∈ s.toList, c.isLower = false

theorem Writes.value?_eq {s : String} {b n : Nat} (h : Writes s b n) (hn : n < 2 ^ 63) :
    value? (Text.ofString s) = some (n : Int) := by
  rw [h.wellFormed.value?_eq, h.meaning_eq, if_pos hn]

/-- The digits of a number in some base, each written with `f`, behind the sign of the base. -/
theorem writes_of_toDigits {s : String} {sign : List Char} {b n : Nat} {f : Char → Char}
    (hlist : s.toList = sign ++ (Nat.toDigits b n).map f) (hsign : ∀ c ∈ sign, c.isLower = false)
    (hbase : 1 < b) (hs : base (Text.ofString s) = b)
    (hdigits : digits (Text.ofString s) = (Nat.toDigits b n).map f)
    (hf : ∀ v < b, IsDigit b (f v.digitChar) ∧ place (f v.digitChar) = v ∧
      (f v.digitChar).isLower = false) : Writes s b n := by
  have written : ∀ c ∈ (Nat.toDigits b n).map f, IsDigit b c ∧ c.isLower = false := by
    refine List.forall_mem_map.2 fun c hc => ?_
    obtain ⟨v, hv, rfl⟩ := Number.exists_lt_of_mem_toDigits hbase n c hc
    exact ⟨(hf v hv).1, (hf v hv).2.2⟩
  refine ⟨hs, ⟨?_, ?_⟩, ?_, ?_⟩
  · rw [hdigits]
    simp
  · rw [hs, hdigits]
    exact fun c hc => (written c hc).1
  · rw [meaning, hs, hdigits, Number.positional_toDigits hbase fun v hv => (hf v hv).2.1]
  · rw [hlist]
    exact List.forall_mem_append.2 ⟨hsign, fun c hc => (written c hc).2⟩

theorem signed_natCast (write : Nat → String) (n : Nat) : signed write n = write n := by
  rw [signed, if_neg (by omega), Int.natAbs_natCast]

theorem writes_decimal (n : Nat) : Writes (decimal n) 10 n := by
  have hlist : (decimal n).toList = [] ++ (Nat.toDigits 10 n).map id := by
    simp [decimal, signed_natCast, Nat.repr_eq_ofList_toDigits]
  have hbase : base (Text.ofString (decimal n)) = 10 := by
    -- the first character is a digit, and so no sign
    obtain ⟨c, cs, hcs⟩ := List.exists_cons_of_ne_nil (Nat.toDigits_ne_nil (n := n) (b := 10))
    have hdigit : c.isDigit = true :=
      Nat.isDigit_of_mem_toDigits (by decide) (by decide) (hcs ▸ List.mem_cons_self)
    rw [Text.ofString, hlist, List.nil_append, List.map_id, hcs, List.map_cons]
    refine base_eq_ten ?_ ?_ _ <;> rintro ⟨⟩ <;> cases hdigit
  refine writes_of_toDigits hlist (by simp) (by decide) hbase ?_ (by decide)
  rw [digits, hbase, if_pos rfl, Text.ofString, hlist]
  simp [Glyph.shown, Function.comp_def]

theorem writes_hexadecimal (n : Nat) : Writes (hexadecimal n) 16 n := by
  have hlist : (hexadecimal n).toList = ['$'] ++ (Nat.toDigits 16 n).map Char.toUpper := by
    simp [hexadecimal, signed_natCast, Text.upperHex]
  refine writes_of_toDigits hlist (by simp) (by decide) ?_ ?_ (by decide) <;>
    simp [Text.ofString, hlist, digits, base, Glyph.shown, Function.comp_def]

theorem writes_binary (n : Nat) : Writes (binary n) 2 n := by
  have hlist : (binary n).toList = ['%'] ++ (Nat.toDigits 2 n).map id := by
    simp [binary, signed_natCast, Text.binary]
  refine writes_of_toDigits hlist (by simp) (by decide) ?_ ?_ (by decide) <;>
    simp [Text.ofString, hlist, digits, base, Glyph.shown, Function.comp_def]

end Literal

/-! ## The numbers of a text -/

theorem Text.ofString_append (s t : String) : ofString (s ++ t) = ofString s ++ ofString t := by
  simp [ofString]

theorem Hover.number_eq (text : Text) (n : Int) :
    Hover.number text n = Text.ofString "Integer Literal `" ++ text ++ Text.ofString
      s!"`\n\n`{Literal.decimal n}` | `{Literal.hexadecimal n}` | `{Literal.binary n}`" := by
  simp [Hover.number, Hover.code, Text.ofString, List.intercalate, toString]

namespace SymbolIndex

variable {d : Dialect} {source : Bytes} {t : Token}

/-- What is said about a number is its value, in the three ways to write it. -/
theorem hoverAt_number {pos : Position} (ht : t ∈ (parse d source).tokens.toList)
    (hkind : t.kind = .number) (hcovers : t.Covers pos) :
    (parse d source).hoverAt pos =
      .ok ((Literal.value? t.text).map fun n => ⟨Hover.number t.text n, t.span⟩) := by
  obtain ⟨i, hi⟩ := Array.mem_iff_getElem?.1 (Array.mem_toList_iff.1 ht)
  have hat := tokenAt_eq_some_iff.2 ⟨t, hi, hcovers⟩
  simp [hoverAt, hat, Checked.entry_eq_ok_iff.2 hi, spanOf_eq_span ht, hkind, describeToken, pure,
    Except.pure, Function.comp_def]

/-- A number token has a value exactly if the number that its digits make in its base is less than
2^63, and then this is the value. What is said about the token is how the value is written in
decimal, in hexadecimal and in binary, each of which is read back as the same value. -/
theorem number_value_exact (d : Dialect) (source : Bytes) (t : Token)
    (ht : t ∈ (parse d source).tokens.toList) (hkind : t.kind = .number) :
    let n := Literal.meaning t.text
    Literal.WellFormed t.text ∧
    Literal.value? t.text = (if n < 2 ^ 63 then some (n : Int) else none) ∧
    (∀ pos, t.Covers pos → (parse d source).hoverAt pos =
      .ok (if n < 2 ^ 63 then
        some ⟨Text.ofString "Integer Literal `" ++ t.text ++ Text.ofString
          s!"`\n\n`{Literal.decimal n}` | `{Literal.hexadecimal n}` | `{Literal.binary n}`", t.span⟩
        else none)) ∧
    (n < 2 ^ 63 →
      ∀ form ∈ [(Literal.decimal n, 10), (Literal.hexadecimal n, 16), (Literal.binary n, 2)],
        Literal.base (Text.ofString form.1) = form.2 ∧ (∀ c ∈ form.1.toList, c.isLower = false) ∧
        Literal.value? (Text.ofString form.1) = some (n : Int)) := by
  intro n
  obtain ⟨_, _, _, -, -, -, shape⟩ := exists_shaped_lexeme ht
  rw [hkind] at shape
  have wellFormed := Literal.wellFormed_of_shape shape
  refine ⟨wellFormed, wellFormed.value?_eq, fun pos hcovers => ?_, fun hn => ?_⟩
  · rw [hoverAt_number ht hkind hcovers, wellFormed.value?_eq, ← Hover.number_eq]
    split <;> rfl
  · have written {s : String} {b : Nat} (h : Literal.Writes s b n) :
        Literal.base (Text.ofString s) = b ∧ (∀ c ∈ s.toList, c.isLower = false) ∧
          Literal.value? (Text.ofString s) = some (n : Int) :=
      ⟨h.base_eq, h.capital, h.value?_eq hn⟩
    simp only [List.forall_mem_cons]
    exact ⟨written (Literal.writes_decimal n), written (Literal.writes_hexadecimal n),
      written (Literal.writes_binary n), by simp⟩

/-- The largest number that fits, in hexadecimal, and the next one in decimal. -/
def boundaryNumbers : String :=
  "$7fFFffFFffFFffFF 9223372036854775808"

theorem lexemes_boundaryNumbers : lexemes .acme (Text.ofString boundaryNumbers).bytes =
    [.token .number (Text.ofString "$7fFFffFFffFFffFF"), .skipped [.char ' '],
      .token .number (Text.ofString "9223372036854775808")] := by
  rw [lexemes, Text.decode_bytes_ofString]
  cbv

/-- What is said about the largest number, and that nothing is said about the next one. -/
theorem number_value_exact_boundary :
    let ix := parse .acme (Text.ofString boundaryNumbers).bytes
    let fits : Token := ⟨.number, 0, ⟨0, 0⟩, Text.ofString "$7fFFffFFffFFffFF", true⟩
    let beyond : Token := ⟨.number, 18, ⟨0, 18⟩, Text.ofString "9223372036854775808", false⟩
    ix.tokens.toList = [fits, beyond] ∧ fits.kind = .number ∧ beyond.kind = .number ∧
      Literal.value? fits.text = some (2 ^ 63 - 1) ∧
      ix.hoverAt ⟨0, 16⟩ = .ok (some ⟨Text.ofString ("Integer Literal `$7fFFffFFffFFffFF`\n\n" ++
        "`9223372036854775807` | `$7FFFFFFFFFFFFFFF` | " ++
        "`%111111111111111111111111111111111111111111111111111111111111111`"),
        ⟨0, 0⟩, ⟨0, 17⟩⟩) ∧
      Literal.value? (Text.ofString (Literal.binary (2 ^ 63 - 1))) = some (2 ^ 63 - 1) ∧
      Literal.value? beyond.text = none ∧ beyond.Covers ⟨0, 36⟩ ∧
      ix.hoverAt ⟨0, 36⟩ = .ok none := by
  intro ix fits beyond
  have htokens : ix.tokens.toList = [fits, beyond] := by
    rw [tokens_parse, lexemes_boundaryNumbers]
    rfl
  obtain ⟨-, hfits, told, written⟩ :=
    number_value_exact .acme _ fits (htokens ▸ List.mem_cons_self) rfl
  obtain ⟨-, hbeyond, hover, -⟩ :=
    number_value_exact .acme _ beyond (htokens ▸ List.mem_cons_of_mem _ List.mem_cons_self) rfl
  have hlargest : Literal.meaning fits.text = 2 ^ 63 - 1 := by cbv
  have hnext : Literal.meaning beyond.text = 2 ^ 63 := by cbv
  rw [hlargest] at hfits told written
  rw [hnext] at hbeyond hover
  have hbinary := (written (by decide) _
    (List.mem_cons_of_mem _ (List.mem_cons_of_mem _ List.mem_cons_self))).2.2
  have hcovers : beyond.Covers ⟨0, 36⟩ := by decide
  refine ⟨htokens, rfl, rfl, hfits, ?_, hbinary, hbeyond, hcovers, hover _ hcovers⟩
  have hdecimal : Literal.decimal ((2 ^ 63 - 1 : Nat) : Int) = "9223372036854775807" := by cbv
  have hhexadecimal : Literal.hexadecimal ((2 ^ 63 - 1 : Nat) : Int) = "$7FFFFFFFFFFFFFFF" := by cbv
  have hbinary : Literal.binary ((2 ^ 63 - 1 : Nat) : Int) =
      "%111111111111111111111111111111111111111111111111111111111111111" := by cbv
  rw [told ⟨0, 16⟩ (by decide), if_pos (by decide), hdecimal, hhexadecimal, hbinary,
    ← Text.ofString_append, ← Text.ofString_append]
  rfl

end SymbolIndex

end Asm6502
