import Asm6502.Proofs.Suggestions

/-!
# Searching for keywords

A query is searched for in the catalogs that its first byte selects. Each entry is held against the
query and against what has been found so far. A query that gets longer finds what is left of the
earlier outcome by filtering, in the same order, although each search leaves out repetitions on its
own.

## Main definitions

- `Keyword.selected`: the names that the first byte of a query selects.
- `Keyword.found`: the bytes of the keywords that a search finds.

## Main statements

- `Keyword.filter_foldl_offer`: filtering what has been found commutes with going through entries.
- `Keyword.found_append`, `Keyword.mem_found_iff`: what a query finds, in terms of its bytes.
-/

namespace Asm6502.Keyword

/-! ## Going through entries -/

section Offers

variable {short long : Text} {found : List Text}

/-- One more entry is found by the longer query if it is found by the shorter one and passes the
filter. It was found before under both queries or under neither. -/
theorem filter_offer (h : ∀ t : Text, t.startsWith long = true → t.startsWith short = true)
    (entry : Text) :
    (offer short found entry).filter (·.startsWith long) =
      offer long (found.filter (·.startsWith long)) entry := by
  have hentry := h entry
  unfold offer
  by_cases hlong : entry.startsWith long = true
  · by_cases hmem : entry ∈ found
    · simp [hlong, hmem]
    · simp [hlong, hmem, hentry hlong]
  · split <;> simp [hlong]

theorem filter_foldl_offer (h : ∀ t : Text, t.startsWith long = true → t.startsWith short = true)
    (entries : List Text) :
    (entries.foldl (offer short) found).filter (·.startsWith long) =
      entries.foldl (offer long) (found.filter (·.startsWith long)) := by
  induction entries generalizing found with
  | nil => rfl
  | cons entry entries ih => rw [List.foldl_cons, List.foldl_cons, ih, filter_offer h]

theorem nodup_offer (h : found.Nodup) (query entry : Text) : (offer query found entry).Nodup := by
  unfold offer
  split
  · exact h
  · rename_i hnew
    have hnot : entry ∉ found := by simp_all
    exact List.nodup_append.2 ⟨h, List.nodup_singleton entry, by grind⟩

theorem nodup_foldl_offer (h : found.Nodup) (query : Text) (entries : List Text) :
    (entries.foldl (offer query) found).Nodup := by
  induction entries generalizing found with
  | nil => exact h
  | cons entry entries ih => exact ih (nodup_offer h query entry)

end Offers

theorem search_cons (sigil : Glyph) (more : Text) :
    search (sigil :: more) = ((sources sigil).flatten.map (sigil :: Text.ofString ·)).foldl
      (offer (sigil :: more)) [] := by
  rw [search, List.foldl_map]

theorem nodup_search (query : Text) : (search query).Nodup := by
  cases query with
  | nil => exact List.nodup_nil
  | cons sigil more =>
    rw [search_cons]
    exact nodup_foldl_offer List.nodup_nil _ _

/-- Two queries with one sigil go through the same entries. -/
theorem search_cons_of_startsWith {sigil : Glyph} {short long : Text}
    (h : Text.startsWith (sigil :: long) (sigil :: short) = true) :
    search (sigil :: long) = (search (sigil :: short)).filter (·.startsWith (sigil :: long)) := by
  have passes (t : Text) (ht : t.startsWith (sigil :: long) = true) :
      t.startsWith (sigil :: short) = true :=
    List.isPrefixOf_iff_prefix.2
      ((List.isPrefixOf_iff_prefix.1 h).trans (List.isPrefixOf_iff_prefix.1 ht))
  rw [search_cons, search_cons, filter_foldl_offer passes, List.filter_nil]

/-! ## The first byte -/

/-- The names that the first byte of a query selects, those of Kick Assembler in front of those of
TMPx. -/
def selected (sigil : UInt8) : List String :=
  if sigil = '!'.toUInt8 then Dialect.acme.catalog.directives
  else if sigil = '.'.toUInt8 then
    Dialect.kick.catalog.directives ++ Dialect.tmpx.catalog.directives
  else if sigil = '#'.toUInt8 then Dialect.kick.catalog.preprocessor
  else []

/-- The bytes of the keywords that are found for a query. -/
def found (query : Bytes) : List Bytes :=
  (search (Text.decode query)).map Text.bytes

section FirstByte

variable {sigil : UInt8} {q : Bytes} {g : Glyph} {t : Text}

theorem is_iff_of_decode (h : Text.decode (sigil :: q) = g :: t) {c : Char} (hc : c.toNat < 0x80) :
    g.is c = true ↔ sigil = c.toUInt8 := by
  have hhead := Text.head?_decode_eq_some_iff (x := sigil :: q) hc
  rw [h, List.head?_cons, List.head?_cons, Option.some.injEq, Option.some.injEq] at hhead
  rw [Glyph.is, beq_iff_eq, hhead]
  rfl

theorem flatten_sources_of_decode (h : Text.decode (sigil :: q) = g :: t) :
    (sources g).flatten = selected sigil := by
  have bang := is_iff_of_decode h (c := '!') (by decide)
  have dot := is_iff_of_decode h (c := '.') (by decide)
  have hash := is_iff_of_decode h (c := '#') (by decide)
  unfold sources selected
  simp only [bang, dot, hash]
  split_ifs <;> simp [Dialect.catalog]

/-- What is selected is selected by an ASCII character. -/
theorem lt_of_mem_selected {name : String} (h : name ∈ selected sigil) : sigil.toNat < 0x80 := by
  unfold selected at h
  split_ifs at h with bang dot hash
  · rw [bang]; decide
  · rw [dot]; decide
  · rw [hash]; decide
  · simp at h

/-- Where nothing is selected, nothing is found. -/
theorem found_of_selected_eq_nil (h : selected sigil = []) (q : Bytes) :
    found (sigil :: q) = [] := by
  have nonempty := Text.decode_ne_nil (List.cons_ne_nil sigil q)
  obtain ⟨g, t, hdecode⟩ := List.exists_cons_of_ne_nil nonempty
  rw [found, hdecode, search_cons, flatten_sources_of_decode hdecode, h]
  rfl

theorem selected_eq_nil (h : ¬ sigil.toNat < 0x80) : selected sigil = [] :=
  List.eq_nil_iff_forall_not_mem.2 fun _ hname => h (lt_of_mem_selected hname)

theorem bytes_entry (h : sigil.toNat < 0x80) (name : String) :
    Text.bytes (.char (Char.ofNat sigil.toNat) :: Text.ofString name) =
      sigil :: (Text.ofString name).bytes := by
  rw [Text.bytes_cons, Glyph.bytes, Text.utf8EncodeChar_ofNat h, List.singleton_append]

theorem startsWith_decode (t : Text) (query : Bytes) :
    t.startsWith (Text.decode query) = query.isPrefixOf t.bytes := by
  rw [Text.startsWith, Text.bytes_decode]

theorem mem_found_iff {keyword : Bytes} : keyword ∈ found (sigil :: q) ↔
    (∃ name ∈ selected sigil, keyword = sigil :: (Text.ofString name).bytes) ∧
      sigil :: q <+: keyword := by
  by_cases ascii : sigil.toNat < 0x80
  · have hdecode := Text.decode_cons_of_lt ascii q
    have hsources := flatten_sources_of_decode hdecode
    rw [found, List.mem_map]
    constructor
    · rintro ⟨label, hlabel, rfl⟩
      obtain ⟨g, more, hquery, name, hname, rfl, hstarts⟩ := Completion.mem_search_iff.1 hlabel
      obtain ⟨rfl, -⟩ := List.cons.inj (hdecode.symm.trans hquery)
      rw [startsWith_decode, List.isPrefixOf_iff_prefix] at hstarts
      exact ⟨⟨name, hsources ▸ hname, bytes_entry ascii name⟩, hstarts⟩
    · rintro ⟨⟨name, hname, rfl⟩, hprefix⟩
      refine ⟨_, Completion.mem_search_iff.2 ⟨_, _, hdecode, name, hsources ▸ hname, rfl, ?_⟩,
        bytes_entry ascii name⟩
      rw [startsWith_decode, bytes_entry ascii, List.isPrefixOf_iff_prefix]
      exact hprefix
  · simp [found_of_selected_eq_nil, selected_eq_nil ascii]

/-- A longer query finds those of the keywords that start with it. -/
theorem found_append (sigil : UInt8) (q x : Bytes) :
    found (sigil :: q ++ x) = (found (sigil :: q)).filter ((sigil :: q ++ x).isPrefixOf ·) := by
  rw [List.cons_append]
  by_cases ascii : sigil.toNat < 0x80
  · -- an ASCII byte is a character of its own, whatever stands behind it
    have short := Text.decode_cons_of_lt ascii q
    have long := Text.decode_cons_of_lt ascii (q ++ x)
    have starts :
        (Text.decode (sigil :: (q ++ x))).startsWith (Text.decode (sigil :: q)) = true := by
      rw [startsWith_decode, Text.bytes_decode, List.isPrefixOf_iff_prefix]
      exact List.prefix_append (sigil :: q) x
    rw [long, short] at starts
    have narrowed := search_cons_of_startsWith starts
    rw [← long, ← short] at narrowed
    simp only [startsWith_decode] at narrowed
    rw [found, found, narrowed, List.filter_map]
    rfl
  · rw [found_of_selected_eq_nil (selected_eq_nil ascii),
      found_of_selected_eq_nil (selected_eq_nil ascii), List.filter_nil]

end FirstByte

theorem nodup_found (query : Bytes) : (found query).Nodup := by
  refine (nodup_search _).map_on fun s hs t ht h => ?_
  have readsBack {label : Text} (hlabel : label ∈ search (Text.decode query)) : label.ReadsBack :=
    Completion.readsBack_of_isKeyword (d := .unknown) (.inl hlabel)
  exact (readsBack hs).eq_of_bytes_eq (readsBack ht) h

/-- Typing on narrows down what is found. For a query that starts with `sigil`, whatever bytes it
consists of, more bytes behind it leave those of the keywords that start with all of them, in the
same order. No keyword is found twice, and those found are the ones that start with the query among
the entries of the selected catalogs, sigil included. -/
theorem typing_on_narrows (sigil : UInt8) (q x : Bytes) :
    found (sigil :: q ++ x) = (found (sigil :: q)).filter ((sigil :: q ++ x).isPrefixOf ·) ∧
    (∀ query, (found query).Nodup) ∧
    ∀ keyword, keyword ∈ found (sigil :: q) ↔
      (∃ name ∈ selected sigil, keyword = sigil :: (Text.ofString name).bytes) ∧
        sigil :: q <+: keyword :=
  ⟨found_append sigil q x, nodup_found, fun _ => mem_found_iff⟩

/-- The two catalogs behind a dot share names, so that there are repetitions to leave out. -/
example : "byte" ∈ kickDirectives ∧ "byte" ∈ tmpxDirectives := by decide

end Asm6502.Keyword
