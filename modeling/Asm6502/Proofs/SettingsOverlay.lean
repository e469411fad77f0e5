import Mathlib
import Asm6502.Proofs.Decoding
import Asm6502.Settings

/-!
# Settings under documents

A document is laid over the settings in force: what it spells out counts, and what it leaves out
stays. The extensions that it lists are folded to lower case and entered one after the other, and a
table of entries has no order of its own. Where two extensions differ in case only, the one that is
entered last wins, so the outcome is a matter of order exactly if they name different dialects.

## Main definitions

- `Settings.lastNamed`: the name that the last entry for an extension gives.
- `Settings.Unambiguous`: extensions that differ in case only go with one name.
- `Settings.MayBecome`: what a document can make of settings, its entries taken in any order.
- `Settings.Alike`: settings that no look-up tells apart.
- `Settings.Mentions`: the members of a document.

## Main statements

- `Settings.find?_addExtensions`: what is found behind a number of entries.
- `Settings.lastNamed_eq_some_iff`, `Settings.addExtensions_eq_self`: unambiguous entries.
- `Json.Decoder.get_of_record`: what the members of an object leave alone stays.
-/

namespace Asm6502

/-! ## Tables and records -/

theorem Table.insert_of_find? {κ ν : Type} [DecidableEq κ] {t : Table κ ν} {k : κ} {v : ν}
    (h : t.find? k = some v) : t.insert k v = t := by
  fun_induction Table.insert t k v with
  | case1 => simp [Table.find?] at h
  | case2 t k' v' => grind [Table.find?]
  | case3 k' v' t hne ih => grind [Table.find?]

namespace Json.Decoder

variable {σ α : Type} {parts : List (String × Decoder σ)}

theorem sameName_self (name : String) : sameName name name = true := by
  simp [sameName]

/-- A member is read by a part of the record that has its name, but for case. -/
theorem exists_part_of_select? {name : String} {value : Decoder σ}
    (h : select? parts name = some value) :
    ∃ p ∈ parts, sameName p.1 name = true ∧ p.2 = value := by
  obtain ⟨p, hp, rfl⟩ := Option.map_eq_some_iff.1 h
  rw [Option.orElse_eq_orElse, Option.orElse_eq_or, Option.or_eq_some_iff] at hp
  rcases hp with hexact | ⟨-, hfolded⟩
  · have hname : p.1 = name := by simpa using List.find?_some hexact
    exact ⟨p, List.mem_of_find?_eq_some hexact, hname ▸ sameName_self p.1, rfl⟩
  · have hname := List.find?_some hfolded
    exact ⟨p, List.mem_of_find?_eq_some hfolded, hname, rfl⟩

/-- What no member of an object touches is as it was. -/
theorem get_of_record {get : σ → α} {members : List (String × Json)} {old s : σ}
    (h : record parts old (.object members) = some s)
    (keep : ∀ m ∈ members, ∀ p ∈ parts, sameName p.1 m.1 = true →
      ∀ a b, p.2 a m.2 = some b → get b = get a) : get s = get old := by
  induction members generalizing old with
  | nil =>
    obtain rfl : old = s := Option.some.inj h
    rfl
  | cons m members ih =>
    obtain ⟨s₁, hfirst, hrest⟩ := Option.bind_eq_some_iff.1 h
    have behind : get s = get s₁ := ih hrest fun m' hm' => keep m' (List.mem_cons_of_mem m hm')
    rw [behind]
    cases hselect : select? parts m.1 with
    | none =>
      obtain rfl : old = s₁ := by simpa [hselect] using hfirst
      rfl
    | some value =>
      obtain ⟨p, hp, hname, rfl⟩ := exists_part_of_select? hselect
      exact keep m List.mem_cons_self p hp hname old s₁ (by simpa [hselect] using hfirst)

end Json.Decoder

namespace Settings

variable {s top : Settings} {document : Bytes} {t : Table String String}
  {entries entries' : List (String × String)} {e : String}

/-! ## Entries -/

/-- The name that the last of the entries for the extension `e` gives. -/
def lastNamed (entries : List (String × String)) (e : String) : Option String :=
  (entries.filter fun entry => Text.lowercase entry.1 = e).getLast?.map Prod.snd

theorem addExtensions_cons (t : Table String String) (entry : String × String)
    (entries : List (String × String)) : addExtensions t (entry :: entries) =
      addExtensions (t.insert (Text.lowercase entry.1) entry.2) entries := rfl

theorem addExtensions_concat (t : Table String String) (entries : List (String × String))
    (entry : String × String) : addExtensions t (entries ++ [entry]) =
      (addExtensions t entries).insert (Text.lowercase entry.1) entry.2 := by
  simp [addExtensions]

/-- The last entry for an extension counts, and the table only if there is none. -/
theorem find?_addExtensions (t : Table String String) (entries : List (String × String))
    (e : String) : (addExtensions t entries).find? e = (lastNamed entries e).or (t.find? e) := by
  induction entries using List.reverseRecOn with
  | nil => rfl
  | append_singleton entries entry ih =>
    rw [addExtensions_concat]
    by_cases h : Text.lowercase entry.1 = e
    · subst h
      simp [lastNamed]
    · rw [Table.find?_insert_of_ne (Ne.symm h), ih]
      simp [lastNamed, h]

/-- Extensions that differ in case only go with one name. -/
def Unambiguous (entries : List (String × String)) : Prop :=
  ∀ p ∈ entries, ∀ q ∈ entries, Text.lowercase p.1 = Text.lowercase q.1 → p.2 = q.2

instance (entries : List (String × String)) : Decidable (Unambiguous entries) :=
  inferInstanceAs (Decidable (∀ p ∈ entries, ∀ q ∈ entries,
    Text.lowercase p.1 = Text.lowercase q.1 → p.2 = q.2))

theorem unambiguous_of_nodup (h : (entries.map fun entry => Text.lowercase entry.1).Nodup) :
    Unambiguous entries := by
  intro p hp q hq hfolded
  rw [List.inj_on_of_nodup_map h hp hq hfolded]

/-- The last entry for an extension gives the name that any entry for it gives. -/
theorem lastNamed_eq_some_iff (h : Unambiguous entries) {name : String} :
    lastNamed entries e = some name ↔
      ∃ entry ∈ entries, Text.lowercase entry.1 = e ∧ entry.2 = name := by
  simp only [lastNamed, Option.map_eq_some_iff]
  constructor
  · rintro ⟨entry, hlast, rfl⟩
    have hmem := List.mem_of_getLast? hlast
    rw [List.mem_filter, decide_eq_true_eq] at hmem
    exact ⟨entry, hmem.1, hmem.2, rfl⟩
  · rintro ⟨entry, hentry, rfl, rfl⟩
    have hmem : entry ∈ entries.filter fun x => Text.lowercase x.1 = Text.lowercase entry.1 :=
      List.mem_filter.2 ⟨hentry, decide_eq_true rfl⟩
    obtain ⟨last, hlast⟩ := Option.ne_none_iff_exists'.1
      (mt List.getLast?_eq_none_iff.1 (List.ne_nil_of_mem hmem))
    have hlast' := List.mem_of_getLast? hlast
    rw [List.mem_filter, decide_eq_true_eq] at hlast'
    exact ⟨last, hlast, h last hlast'.1 entry hentry hlast'.2⟩

theorem lastNamed_eq_none (h : ∀ entry ∈ entries, Text.lowercase entry.1 ≠ e) :
    lastNamed entries e = none := by
  have hnone : entries.filter (fun entry => Text.lowercase entry.1 = e) = [] := by
    simpa [List.filter_eq_nil_iff] using h
  rw [lastNamed, hnone]
  rfl

/-- The order of unambiguous entries does not matter. -/
theorem lastNamed_perm (perm : entries.Perm entries') (h : Unambiguous entries) (e : String) :
    lastNamed entries e = lastNamed entries' e := by
  have h' : Unambiguous entries' := fun p hp q hq =>
    h p (perm.mem_iff.2 hp) q (perm.mem_iff.2 hq)
  ext name
  rw [lastNamed_eq_some_iff h, lastNamed_eq_some_iff h']
  simp only [perm.mem_iff]

/-- An entry that comes last wins. -/
theorem find?_addExtensions_concat (t : Table String String) (entries : List (String × String))
    (entry : String × String) :
    (addExtensions t (entries ++ [entry])).find? (Text.lowercase entry.1) = some entry.2 := by
  rw [addExtensions_concat, Table.find?_insert_self]

/-- Entries that a table holds already leave it as it is. -/
theorem addExtensions_eq_self
    (h : ∀ entry ∈ entries, t.find? (Text.lowercase entry.1) = some entry.2) :
    addExtensions t entries = t := by
  induction entries with
  | nil => rfl
  | cons entry entries ih =>
    have first : t.insert (Text.lowercase entry.1) entry.2 = t :=
      Table.insert_of_find? (h entry List.mem_cons_self)
    have rest := ih fun entry' hentry' => h entry' (List.mem_cons_of_mem entry hentry')
    rw [addExtensions_cons, first, rest]

theorem addExtensions_addExtensions (h : Unambiguous entries) (t : Table String String) :
    addExtensions (addExtensions t entries) entries = addExtensions t entries := by
  refine addExtensions_eq_self fun entry hentry => ?_
  have hnamed : lastNamed entries (Text.lowercase entry.1) = some entry.2 :=
    (lastNamed_eq_some_iff h).2 ⟨entry, hentry, rfl, rfl⟩
  rw [find?_addExtensions, hnamed, Option.some_or]

/-! ## Any order -/

/-- The settings `s'` are what a document can make of `s`. The extensions that it lists are entered
in any order. -/
def MayBecome (s : Settings) (document : Bytes) (s' : Settings) : Prop :=
  ∃ top entries, ofDocument? document = some top ∧ entries.Perm top.extensions ∧
    s' = s.overlay { top with extensions := entries }

/-- No look-up tells the settings apart. -/
structure Alike (s s' : Settings) : Prop where
  defaultDialect : s.defaultDialect = s'.defaultDialect
  extension : ∀ e, s.extensions.find? e = s'.extensions.find? e
  logAddress : s.logAddress = s'.logAddress

theorem Alike.dialectFor {s' : Settings} (h : s.Alike s') (uri : String) :
    s.dialectFor uri = s'.dialectFor uri := by
  simp only [Settings.dialectFor, fallback, h.defaultDialect, h.extension]

theorem mayBecome_merge {s' : Settings} (h : s.merge document = some s') :
    s.MayBecome document s' := by
  obtain ⟨top, htop, rfl⟩ := Option.map_eq_some_iff.1 h
  exact ⟨top, top.extensions, htop, .refl _, rfl⟩

/-- Whatever the order, the same settings come about if the entries are unambiguous. -/
theorem alike_of_mayBecome (htop : ofDocument? document = some top)
    (h : Unambiguous top.extensions) {s₁ s₂ : Settings} (h₁ : s.MayBecome document s₁)
    (h₂ : s.MayBecome document s₂) : s₁.Alike s₂ := by
  obtain ⟨top₁, entries₁, htop₁, perm₁, rfl⟩ := h₁
  obtain ⟨top₂, entries₂, htop₂, perm₂, rfl⟩ := h₂
  obtain rfl : top = top₁ := Option.some.inj (htop.symm.trans htop₁)
  obtain rfl : top = top₂ := Option.some.inj (htop.symm.trans htop₂)
  refine ⟨rfl, fun e => ?_, rfl⟩
  simp only [overlay, find?_addExtensions]
  rw [← lastNamed_perm perm₁.symm h e, ← lastNamed_perm perm₂.symm h e]

/-- Each entry may be the one that is entered last. -/
theorem exists_mayBecome_of_mem (htop : ofDocument? document = some top) {entry : String × String}
    (hentry : entry ∈ top.extensions) (s : Settings) :
    ∃ s', s.MayBecome document s' ∧
      s'.extensions.find? (Text.lowercase entry.1) = some entry.2 := by
  have perm : (List.erase top.extensions entry ++ [entry]).Perm top.extensions :=
    (List.perm_append_singleton _ _).trans (List.perm_cons_erase hentry).symm
  exact ⟨_, ⟨top, _, htop, perm, rfl⟩, find?_addExtensions_concat _ _ _⟩

/-- Merging a document leaves the same default dialect and log address in whatever order its entries
are entered. It leaves the same extensions in every order exactly if extensions that differ in case
only go with one name, and then every text gets the same dialect. -/
theorem merge_in_any_order (s : Settings) (document : Bytes) (top : Settings)
    (decodes : ofDocument? document = some top) :
    (∃ s', s.merge document = some s' ∧ s.MayBecome document s') ∧
    (∀ s₁ s₂, s.MayBecome document s₁ → s.MayBecome document s₂ →
      s₁.defaultDialect = s₂.defaultDialect ∧ s₁.logAddress = s₂.logAddress) ∧
    ((∀ s₁ s₂, s.MayBecome document s₁ → s.MayBecome document s₂ →
      ∀ e, s₁.extensions.find? e = s₂.extensions.find? e) ↔ Unambiguous top.extensions) ∧
    (Unambiguous top.extensions → ∀ s₁ s₂, s.MayBecome document s₁ → s.MayBecome document s₂ →
      ∀ uri, s₁.dialectFor uri = s₂.dialectFor uri) := by
  have merged : s.merge document = some (s.overlay top) := by simp [merge, decodes]
  refine ⟨⟨_, merged, mayBecome_merge merged⟩, ?_, ⟨fun same p hp q hq hfolded => ?_, ?_⟩, ?_⟩
  · rintro s₁ s₂ ⟨top₁, entries₁, htop₁, -, rfl⟩ ⟨top₂, entries₂, htop₂, -, rfl⟩
    obtain rfl : top₁ = top₂ := Option.some.inj (htop₁.symm.trans htop₂)
    exact ⟨rfl, rfl⟩
  · -- each of the two entries comes last in some order
    obtain ⟨s₁, h₁, hp⟩ := exists_mayBecome_of_mem decodes hp s
    obtain ⟨s₂, h₂, hq⟩ := exists_mayBecome_of_mem decodes hq s
    rw [hfolded, same s₁ s₂ h₁ h₂, hq] at hp
    exact (Option.some.inj hp).symm
  · exact fun h s₁ s₂ h₁ h₂ => (alike_of_mayBecome decodes h h₁ h₂).extension
  · exact fun h s₁ s₂ h₁ h₂ => (alike_of_mayBecome decodes h h₁ h₂).dialectFor

/-- Two extensions that differ in case only, with one name. -/
def oneName : Bytes :=
  Text.bytes (Text.ofString
    "\x7b\"extensions\":\x7b\".INC\":\"tmpx\",\".Inc\":\"tmpx\"\x7d\x7d")

theorem merge_in_any_order_one_name :
    let top : Settings := { extensions := [(".INC", "tmpx"), (".Inc", "tmpx")] }
    ofDocument? oneName = some top ∧ Unambiguous top.extensions ∧
      ∃ s', builtin.MayBecome oneName s' ∧
        ∀ s₁, builtin.MayBecome oneName s₁ → s₁.dialectFor "a.inc" = .tmpx := by
  intro top
  have decodes : ofDocument? oneName = some top := by
    rw [ofDocument?, oneName, Text.decode_bytes_ofString]
    cbv
  have unambiguous : Unambiguous top.extensions := by
    simp [Unambiguous, top]
  have merged : builtin.merge oneName = some (builtin.overlay top) := by simp [merge, decodes]
  have dialect : (builtin.overlay { extensions := [(".INC", "tmpx"), (".Inc", "tmpx")] }).dialectFor
      "a.inc" = .tmpx := by
    cbv
  obtain ⟨⟨s', hs', becomes⟩, -, -, same⟩ := merge_in_any_order builtin oneName top decodes
  obtain rfl : builtin.overlay top = s' := Option.some.inj (merged.symm.trans hs')
  exact ⟨decodes, unambiguous, _, becomes,
    fun s₁ h₁ => (same unambiguous s₁ _ h₁ becomes "a.inc").trans dialect⟩

/-- Two extensions that differ in case only, with two names. -/
def twoNames : Bytes :=
  Text.bytes (Text.ofString
    "\x7b\"extensions\":\x7b\".A\":\"kick\",\".a\":\"tmpx\"\x7d\x7d")

/-- Of the two names the one that is entered last wins. -/
theorem merge_depends_on_order :
    ∃ s₁ s₂, builtin.MayBecome twoNames s₁ ∧ builtin.MayBecome twoNames s₂ ∧
      s₁.dialectFor "x.a" = .kick ∧ s₂.dialectFor "x.a" = .tmpx := by
  have decodes : ofDocument? twoNames =
      some { extensions := [(".A", "kick"), (".a", "tmpx")] } := by
    rw [ofDocument?, twoNames, Text.decode_bytes_ofString]
    cbv
  refine ⟨_, _, ⟨_, [(".a", "tmpx"), (".A", "kick")], decodes, .swap _ _ _, rfl⟩,
    ⟨_, _, decodes, .refl _, rfl⟩, ?_, ?_⟩ <;> cbv

/-! ## Laying a document over settings -/

/-- The dialect that goes by the given name, or the one for texts without a known extension. -/
def named (s : Settings) (name? : Option String) : Dialect :=
  (name?.bind fun name => Dialect.ofName? (Text.ofString name)).getD s.fallback

theorem dialectFor_eq_named (s : Settings) (uri : String) :
    s.dialectFor uri = s.named (s.extensions.find? (extensionOf uri)) := rfl

/-- The document is an object with a member called `name`, but for case. -/
def Mentions (document : Bytes) (name : String) : Prop :=
  ∃ members, Json.parse (Text.decode document) = some (.object members) ∧
    ∃ m ∈ members, Json.Decoder.sameName name m.1 = true

/-- What is read off settings is as it is without any document, if the one member that changes it is
not mentioned. -/
theorem get_of_not_mentions {α : Type} (get : Settings → α) {name : String}
    (htop : ofDocument? document = some top) (absent : ¬ Mentions document name)
    (dialect : name = "defaultDialect" ∨ ∀ s v, get { s with defaultDialect := v } = get s)
    (extensions : name = "extensions" ∨ ∀ s v, get { s with extensions := v } = get s)
    (address : name = "logAddress" ∨ ∀ s v, get { s with logAddress := v } = get s) :
    get top = get {} := by
  obtain ⟨json, hjson, hdecoder⟩ := Option.bind_eq_some_iff.1 htop
  cases json with
  | null =>
    obtain rfl : ({} : Settings) = top := Option.some.inj hdecoder
    rfl
  | object members =>
    refine Json.Decoder.get_of_record hdecoder fun m hm p hp hname a b hb => ?_
    have other : name ≠ p.1 := by
      rintro rfl
      exact absent ⟨members, hjson, m, hm, hname⟩
    simp only [List.mem_cons, List.not_mem_nil, or_false] at hp
    rcases hp with rfl | rfl | rfl <;> obtain ⟨value, -, rfl⟩ := Option.map_eq_some_iff.1 hb
    · exact dialect.resolve_left other a value
    · exact extensions.resolve_left other a value
    · exact address.resolve_left other a value
  | _ => cases hdecoder

theorem defaultDialect_of_not_mentions (htop : ofDocument? document = some top)
    (absent : ¬ Mentions document "defaultDialect") : top.defaultDialect = "" :=
  get_of_not_mentions Settings.defaultDialect htop absent (.inl rfl) (.inr fun _ _ => rfl)
    (.inr fun _ _ => rfl)

theorem logAddress_of_not_mentions (htop : ofDocument? document = some top)
    (absent : ¬ Mentions document "logAddress") : top.logAddress = "" :=
  get_of_not_mentions Settings.logAddress htop absent (.inr fun _ _ => rfl) (.inr fun _ _ => rfl)
    (.inl rfl)

theorem overlay_overlay (h : Unambiguous top.extensions) (s : Settings) :
    (s.overlay top).overlay top = s.overlay top := by
  simp only [overlay, addExtensions_addExtensions h, Settings.mk.injEq, true_and]
  split <;> simp_all

/-- A document whose extensions differ in more than case is laid over the settings, in whatever
order its entries are entered. An extension that it lists goes with the name given there, and any
other with the name it had. A name that is no dialect's counts as none, and then the default
decides. What the document leaves empty or out stays. Merging it again changes nothing, and a
document that does not decode is not merged at all. -/
theorem merge_overlays (s : Settings) (document : Bytes) :
    (∀ top, ofDocument? document = some top →
      (top.extensions.map fun entry => Text.lowercase entry.1).Nodup →
      ∃ s', s.merge document = some s' ∧ (∀ s₁, s.MayBecome document s₁ → s₁.Alike s') ∧
        (∀ uri, (∀ entry ∈ top.extensions, Text.lowercase entry.1 = extensionOf uri →
            s'.dialectFor uri = s'.named (some entry.2)) ∧
          ((∀ entry ∈ top.extensions, Text.lowercase entry.1 ≠ extensionOf uri) →
            s'.dialectFor uri = s'.named (s.extensions.find? (extensionOf uri)))) ∧
        (top.defaultDialect = "" ∨ ¬ Mentions document "defaultDialect" →
          s'.defaultDialect = s.defaultDialect) ∧
        (top.defaultDialect ≠ "" → s'.defaultDialect = top.defaultDialect) ∧
        (top.logAddress = "" ∨ ¬ Mentions document "logAddress" → s'.logAddress = s.logAddress) ∧
        (top.logAddress ≠ "" → s'.logAddress = top.logAddress) ∧
        s'.merge document = some s') ∧
    (ofDocument? document = none →
      (s.merge document).getD s = s ∧ ∀ s', ¬ s.MayBecome document s') := by
  refine ⟨fun top decodes distinct => ?_, fun fails => ⟨by simp [merge, fails], ?_⟩⟩
  · have unambiguous := unambiguous_of_nodup distinct
    have merged (s : Settings) : s.merge document = some (s.overlay top) := by
      simp [merge, decodes]
    refine ⟨s.overlay top, merged s,
      fun s₁ h₁ => alike_of_mayBecome decodes unambiguous h₁ (mayBecome_merge (merged s)),
      fun uri => ⟨fun entry hentry hfolded => ?_, fun unlisted => ?_⟩,
      fun h => if_pos (h.elim id (defaultDialect_of_not_mentions decodes)), fun h => if_neg h,
      fun h => if_pos (h.elim id (logAddress_of_not_mentions decodes)), fun h => if_neg h, ?_⟩
    · have listed : lastNamed top.extensions (extensionOf uri) = some entry.2 :=
        (lastNamed_eq_some_iff unambiguous).2 ⟨entry, hentry, hfolded, rfl⟩
      rw [dialectFor_eq_named, overlay, find?_addExtensions, listed, Option.some_or]
    · rw [dialectFor_eq_named, overlay, find?_addExtensions, lastNamed_eq_none unlisted,
        Option.none_or]
    · rw [merged, overlay_overlay unambiguous]
  · rintro s' ⟨top, entries, decodes, -⟩
    simp [fails] at decodes

/-- A new default, a new extension, and one that is taken from its dialect by a name that is
none. -/
def shadowing : Bytes :=
  Text.bytes (Text.ofString
    ("\x7b\"defaultDialect\":\"kickass\"," ++
      "\"extensions\":\x7b\".INC\":\"tmpx\",\".a\":\"none\"\x7d\x7d"))

/-- An object that is never closed. -/
def brokenOff : Bytes := Text.bytes (Text.ofString "\x7b")

theorem merge_overlays_shadowing :
    let top : Settings := ⟨"kickass", [(".INC", "tmpx"), (".a", "none")], ""⟩
    ofDocument? shadowing = some top ∧
      (∃ s', builtin.merge shadowing = some s' ∧ s'.defaultDialect = "kickass" ∧
        s'.logAddress = ":8006" ∧ s'.dialectFor "m.Inc" = .tmpx ∧ s'.dialectFor "lib.a" = .kick ∧
        s'.dialectFor "boot.s" = .llvm ∧ s'.dialectFor "readme" = .kick ∧
        s'.merge shadowing = some s') ∧
      ofDocument? brokenOff = none ∧ (builtin.merge brokenOff).getD builtin = builtin := by
  intro top
  have decodes : ofDocument? shadowing = some top := by
    rw [ofDocument?, shadowing, Text.decode_bytes_ofString]
    cbv
  have fails : ofDocument? brokenOff = none := by
    rw [ofDocument?, brokenOff, Text.decode_bytes_ofString]
    cbv
  have inc : Text.lowercase ".INC" = ".inc" := by cbv
  have a : Text.lowercase ".a" = ".a" := by cbv
  have distinct : (top.extensions.map fun entry => Text.lowercase entry.1).Nodup := by
    simp [top, inc, a]
  have tmpx : Dialect.ofName? (Text.ofString "tmpx") = some .tmpx := by cbv
  have unknown : Dialect.ofName? (Text.ofString "none") = none := by cbv
  have llvm : Dialect.ofName? (Text.ofString "llvm") = some .llvm := by cbv
  have kick : Dialect.ofName? (Text.ofString "kickass") = some .kick := by cbv
  obtain ⟨s', merged, -, dialects, -, default, address, -, again⟩ :=
    (merge_overlays builtin shadowing).1 top decodes distinct
  have fallback : s'.fallback = .kick := by simp [Settings.fallback, default, top, kick]
  refine ⟨decodes, ⟨s', merged, default (by simp [top]), address (.inl rfl), ?_, ?_, ?_, ?_, again⟩,
    fails, ((merge_overlays builtin brokenOff).2 fails).1⟩
  · have e : extensionOf "m.Inc" = ".inc" := by cbv
    rw [(dialects "m.Inc").1 (".INC", "tmpx") (by simp [top]) (by rw [e, inc])]
    simp [named, tmpx]
  · have e : extensionOf "lib.a" = ".a" := by cbv
    rw [(dialects "lib.a").1 (".a", "none") (by simp [top]) (by rw [e, a])]
    simp [named, unknown, fallback]
  · have e : extensionOf "boot.s" = ".s" := by cbv
    rw [(dialects "boot.s").2 (by simp [top, e, inc, a]), e]
    simp [named, builtin, Table.find?, llvm]
  · have e : extensionOf "readme" = "" := by cbv
    rw [(dialects "readme").2 (by simp [top, e, inc, a]), e]
    simp [named, builtin, Table.find?, fallback]

end Settings

end Asm6502
