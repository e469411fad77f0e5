import Asm6502.Index.Navigation
import Asm6502.Proofs.SymbolTables
import Mathlib

/-!
# The tables are exact

The table of definitions has one entry for every symbol that is defined, and the list of references
one for every inclusion. A statement is named by a token of its own run, whose kind is the one that
its role asks for.

## Main statements

- `Table.nodup_keys_insert`, `Table.mem_keys_iff`: the keys of a table.
- `Statement.exists_name_of_mem_ofTokens`: the tokens that name statements.
- `SymbolIndex.find?_definitions_eq_some_iff`: a symbol maps to its last definition.
- `SymbolIndex.lookup_eq`: looking a symbol up never fails.
- `SymbolIndex.exists_identifier_of_isDefinition`: the token that names a definition.
-/

namespace Asm6502

namespace Table

variable {κ ν : Type} [DecidableEq κ]

theorem mem_keys_iff {t : Table κ ν} {k : κ} : k ∈ keys t ↔ ∃ v, find? t k = some v := by
  induction t with
  | nil => simp [keys, find?]
  | cons e t ih =>
    rw [keys, List.map_cons, List.mem_cons, find?]
    split
    · rename_i h
      simp [h]
    · rename_i h
      rw [← ih, keys]
      simp [h]

theorem keys_insert (t : Table κ ν) (k : κ) (v : ν) :
    keys (insert t k v) = if k ∈ keys t then keys t else keys t ++ [k] := by
  fun_induction insert t k v with
  | case1 k v => simp [keys]
  | case2 v' t k v => simp [keys]
  | case3 k' v' t k v hne ih =>
    simp only [keys, List.map_cons, List.mem_cons, hne, false_or] at ih ⊢
    rw [ih]
    split <;> simp [*]

theorem nodup_keys_insert {t : Table κ ν} (h : (keys t).Nodup) (k : κ) (v : ν) :
    (keys (insert t k v)).Nodup := by
  rw [keys_insert]
  split
  · exact h
  · rename_i hk
    refine List.nodup_append.2 ⟨h, List.nodup_singleton k, fun a ha b hb => ?_⟩
    rw [List.mem_singleton.1 hb]
    rintro rfl
    exact hk ha

end Table

namespace Statement

/-! ## Name tokens -/

/-- A rule asks for the kind of token that fits what it makes. -/
theorem parameter_of_rule_mem {r : Rule} (h : r ∈ rules) :
    (∃ kind, r.role = .definition kind ∧ r.parameter = .identifier) ∨
      r.role = .inclusion ∧ r.parameter = .string := by
  simp only [rules, List.mem_cons, List.not_mem_nil, or_false] at h
  rcases h with rfl | rfl | rfl | rfl | rfl | rfl | rfl | rfl | rfl <;> simp

/-- The `i`-th token of the run names the statement. The name of a definition is an identifier, and
no mnemonic if it opens the run; that of an inclusion is a string. -/
structure NamedBy (d : Dialect) (s : Statement) (i : Nat) (t : Token) : Prop where
  name?_eq : s.name? = some (s.start + i)
  identifier : s.isDefinition = true → t.kind = .identifier
  notMnemonic : s.isDefinition = true → i = 0 → d.isMnemonic t.text = false
  string : s.isInclusion = true → t.kind = .string

/-- A run that says something is a comment, or it holds the token that names the statement. -/
theorem exists_namedBy_of_ofRun? {d : Dialect} {start : Nat} {run : List Token} {s : Statement}
    (h : ofRun? d start run = some s) :
    s.role = .comment ∨ ∃ i t, run[i]? = some t ∧ NamedBy d s i t := by
  cases run with
  | nil => simp [ofRun?] at h
  | cons first others =>
    obtain ⟨role, hrole, rfl⟩ := Option.map_eq_some_iff.1 h
    split at hrole
    · exact .inl (Option.some.inj hrole).symm
    · rename_i hkind
      have mnemonic : d.isMnemonic first.text = false := by
        rw [← Bool.not_eq_true]
        intro hm
        simp [nameRole?, hm] at hrole
      obtain ⟨kind, rfl⟩ := eq_of_nameRole? hrole
      exact .inr ⟨0, first, rfl, rfl, fun _ => hkind, fun _ _ => mnemonic, by simp [isInclusion]⟩
    · obtain ⟨parameter, hparameter, hrule⟩ := Option.bind_eq_some_iff.1 hrole
      obtain ⟨r, hr, rfl⟩ := Option.map_eq_some_iff.1 hrule
      have hkind : r.parameter = parameter.kind := by
        have := List.find?_some hr
        simp only [Bool.and_eq_true, beq_iff_eq] at this
        exact this.2
      refine .inr ⟨1, parameter, by simpa [List.head?_eq_getElem?] using hparameter, ?_⟩
      rcases parameter_of_rule_mem (List.mem_of_find?_eq_some hr) with
        ⟨kind, hrole, hparam⟩ | ⟨hrole, hparam⟩
      · exact ⟨by simp [name?, hrole], fun _ => hkind.symm.trans hparam, by simp,
          by simp [isInclusion, hrole]⟩
      · exact ⟨by simp [name?, hrole], by simp [isDefinition, definitionKind?, hrole], by simp,
          fun _ => hkind.symm.trans hparam⟩
    · simp at hrole

/-- A statement is a comment, or a token of its own run names it. -/
theorem exists_name_of_mem_ofTokens {d : Dialect} {ts : List Token} {s : Statement}
    (h : s ∈ ofTokens d ts) :
    s.start + s.count ≤ ts.length ∧ 0 < s.count ∧
      (s.role = .comment ∨
        ∃ i t, i < s.count ∧ ts[s.start + i]? = some t ∧ NamedBy d s i t) := by
  obtain ⟨front, p, back, hps, hs⟩ := mem_ofPieces.1 h
  rw [Nat.zero_add] at hs
  obtain ⟨hstart, hcount⟩ := extent_of_ofRun? hs
  have hts : ts = front.flatten ++ (p ++ back.flatten) := by
    rw [← flatten_pieces ts, hps]
    simp
  have hp : p ≠ [] := List.ne_nil_of_mem_splitBy (show p ∈ pieces ts by simp [hps])
  refine ⟨?_, hcount ▸ List.length_pos_of_ne_nil hp, ?_⟩
  · rw [hstart, hcount, hts, List.length_append, List.length_append]
    omega
  · refine (exists_namedBy_of_ofRun? hs).imp id ?_
    rintro ⟨i, t, hi, named⟩
    have hlt : i < p.length := (List.getElem?_eq_some_iff.1 hi).1
    refine ⟨i, t, hcount ▸ hlt, ?_, named⟩
    rw [hts, hstart, List.getElem?_append_right (Nat.le_add_right _ _), Nat.add_sub_cancel_left,
      List.getElem?_append_left hlt, hi]

end Statement

namespace Accumulator

theorem nodup_keys_record {a : Accumulator} (h : (Table.keys a.definitions).Nodup)
    (s : Statement) : (Table.keys (a.record s).definitions).Nodup := by
  cases hrole : s.role with
  | definition kind n =>
    have hinsert : (a.record s).definitions =
        a.definitions.insert (a.tokenText n) a.statements.size := by
      simp [record, hrole, define, tokenText]
    rw [hinsert]
    exact Table.nodup_keys_insert h _ _
  | _ => simpa [record, hrole] using h

theorem nodup_keys_foldl_record {a : Accumulator} (h : (Table.keys a.definitions).Nodup)
    (ss : List Statement) : (Table.keys (ss.foldl record a).definitions).Nodup := by
  induction ss generalizing a with
  | nil => exact h
  | cons s ss ih => exact ih (nodup_keys_record h s)

end Accumulator

namespace SymbolIndex

theorem nodup_keys_definitions (d : Dialect) (source : Bytes) :
    (Table.keys (parse d source).definitions).Nodup := by
  simp only [parse, gather_eq]
  exact Accumulator.nodup_keys_foldl_record (by simp [Table.keys]) _

/-! ## Definitions -/

@[simp] theorem token?_natCast (ix : SymbolIndex) (n : Nat) : ix.token? n = ix.tokens[n]? := by
  simp [token?]

theorem statementName_eq {ix : SymbolIndex} {s : Statement} {n : Nat} {t : Token}
    (hname : s.name? = some n) (ht : ix.tokens[n]? = some t) : ix.statementName s = t.text := by
  simp [statementName, hname, tokenText, ht]

theorem defines_iff {ix : SymbolIndex} {s : Statement} {name : Text} :
    s.defines ix.tokens.toList name = true ↔ s.isDefinition = true ∧ ix.statementName s = name := by
  cases hrole : s.role with
  | definition kind n =>
    simp [Statement.defines, Statement.isDefinition, Statement.definitionKind?, Statement.name?,
      statementName, tokenText, hrole]
  | _ => simp [Statement.defines, Statement.isDefinition, Statement.definitionKind?, hrole]

theorem mem_findIdxs_defines_iff {ix : SymbolIndex} {name : Text} {i : Nat} :
    i ∈ ix.statements.toList.findIdxs (Statement.defines ix.tokens.toList name) ↔
      ∃ s, ix.statements[i]? = some s ∧ s.isDefinition = true ∧ ix.statementName s = name := by
  simp [← defines_iff, Array.getElem?_eq_some_iff]

/-- The statement at index `i` defines `name`, and none behind it does. -/
def IsLastDefinition (ix : SymbolIndex) (name : Text) (i : Nat) (s : Statement) : Prop :=
  ix.statements[i]? = some s ∧ s.isDefinition = true ∧ ix.statementName s = name ∧
    ∀ j s', i < j → ix.statements[j]? = some s' → s'.isDefinition = true →
      ix.statementName s' ≠ name

variable {d : Dialect} {source : Bytes} {name : Text}

theorem find?_definitions_eq_some_iff {i : Nat} :
    (parse d source).definitions.find? name = some i ↔
      ∃ s, (parse d source).IsLastDefinition name i s := by
  rw [find?_definitions_parse, getLast?_findIdxs_eq_some_iff]
  simp only [IsLastDefinition, ← Bool.not_eq_true, defines_iff, Array.getElem?_toList, not_and,
    and_assoc, ne_eq]

theorem mem_keys_definitions_iff :
    name ∈ Table.keys (parse d source).definitions ↔
      ∃ s ∈ (parse d source).statements.toList,
        s.isDefinition = true ∧ (parse d source).statementName s = name := by
  rw [Table.mem_keys_iff, find?_definitions_parse]
  generalize parse d source = ix
  constructor
  · rintro ⟨i, hi⟩
    obtain ⟨s, hs, hdefines⟩ := mem_findIdxs_defines_iff.1 (List.mem_of_getLast? hi)
    exact ⟨s, Array.mem_toList_iff.2 (Array.mem_of_getElem? hs), hdefines⟩
  · rintro ⟨s, hs, hdefines⟩
    obtain ⟨i, hi⟩ := Array.mem_iff_getElem?.1 (Array.mem_toList_iff.1 hs)
    have hmem := mem_findIdxs_defines_iff.2 ⟨s, hi, hdefines⟩
    exact ⟨_, List.getLast?_eq_some_getLast (List.ne_nil_of_mem hmem)⟩

/-- Looking up a symbol gives its last definition. -/
theorem lookup_eq (d : Dialect) (source : Bytes) (name : Text) :
    (∃ i s, (parse d source).IsLastDefinition name i s ∧
      (parse d source).lookup name = .ok (some s)) ∨
    (name ∉ Table.keys (parse d source).definitions ∧ (parse d source).lookup name = .ok none) := by
  cases hfind : (parse d source).definitions.find? name with
  | none =>
    refine .inr ⟨fun hmem => ?_, by simp [lookup, hfind]; rfl⟩
    obtain ⟨i, hi⟩ := Table.mem_keys_iff.1 hmem
    simp [hfind] at hi
  | some i =>
    obtain ⟨s, last⟩ := find?_definitions_eq_some_iff.1 hfind
    have hentry : Checked.entry (parse d source).statements i = .ok s :=
      Checked.entry_eq_ok_iff.2 last.1
    exact .inl ⟨i, s, last, by simp [lookup, hfind, hentry]⟩

/-! ## References -/

theorem mem_references_iff {i : Nat} :
    i ∈ (parse d source).references.toList ↔
      ∃ s, (parse d source).statements[i]? = some s ∧ s.isInclusion = true := by
  rw [references_parse]
  simp [Array.getElem?_eq_some_iff]

/-! ## Names -/

theorem exists_name_of_mem_statements {s : Statement} (h : s ∈ (parse d source).statements.toList) :
    s.start + s.count ≤ (parse d source).tokens.size ∧ 0 < s.count ∧
      (s.role = .comment ∨ ∃ i t, i < s.count ∧
        (parse d source).tokens[s.start + i]? = some t ∧ s.NamedBy d i t) := by
  rw [statements_parse] at h
  simpa using Statement.exists_name_of_mem_ofTokens h

/-- A definition is named by an identifier. -/
theorem exists_identifier_of_isDefinition {s : Statement}
    (hs : s ∈ (parse d source).statements.toList) (hdef : s.isDefinition = true) :
    ∃ kind n t, s.role = .definition kind n ∧ (parse d source).tokens[n]? = some t ∧
      t.kind = .identifier ∧ (parse d source).statementName s = t.text := by
  obtain ⟨-, -, hcomment | ⟨i, t, -, ht, named⟩⟩ := exists_name_of_mem_statements hs
  · simp [Statement.isDefinition, Statement.definitionKind?, hcomment] at hdef
  · cases hrole : s.role with
    | definition kind n =>
      obtain rfl : n = s.start + i := by simpa [Statement.name?, hrole] using named.name?_eq
      exact ⟨kind, _, t, rfl, ht, named.identifier hdef, statementName_eq named.name?_eq ht⟩
    | _ => simp [Statement.isDefinition, Statement.definitionKind?, hrole] at hdef

/-- The tables of an index are exact. The table of definitions has the names of the definitions as
its keys, each of which maps to the last definition of that name, and looking a name up finds it.
The references are the inclusions in order. A definition is named by an identifier of its run, which
is no mnemonic if the run opens with it, and an inclusion by a string of its run. -/
theorem tables_exact (d : Dialect) (source : Bytes) :
    let ix := parse d source
    (Table.keys ix.definitions).Nodup ∧
    (∀ name, name ∈ Table.keys ix.definitions ↔
      ∃ s ∈ ix.statements.toList, s.isDefinition = true ∧ ix.statementName s = name) ∧
    (∀ name i, ix.definitions.find? name = some i ↔ ∃ s, ix.IsLastDefinition name i s) ∧
    (∀ name, (∃ i s, ix.IsLastDefinition name i s ∧ ix.lookup name = .ok (some s)) ∨
      name ∉ Table.keys ix.definitions ∧ ix.lookup name = .ok none) ∧
    ix.references.toList.Pairwise (· < ·) ∧
    (∀ i, i ∈ ix.references.toList ↔
      ∃ s, ix.statements[i]? = some s ∧ s.isInclusion = true) ∧
    (∀ s ∈ ix.statements.toList, s.isDefinition = true →
      ∃ i t, i < s.count ∧ s.name? = some (s.start + i) ∧ ix.tokens[s.start + i]? = some t ∧
        ix.statementName s = t.text ∧ t.kind = .identifier ∧
        (i = 0 → d.isMnemonic t.text = false)) ∧
    (∀ s ∈ ix.statements.toList, s.isInclusion = true →
      ∃ i t, i < s.count ∧ s.name? = some (s.start + i) ∧ ix.tokens[s.start + i]? = some t ∧
        t.kind = .string) := by
  intro ix
  refine ⟨nodup_keys_definitions d source, fun name => mem_keys_definitions_iff,
    fun name i => find?_definitions_eq_some_iff, lookup_eq d source, ?_,
    fun i => mem_references_iff, fun s hs hdef => ?_, fun s hs hinc => ?_⟩
  · rw [references_parse]
    exact List.pairwise_findIdxs
  · obtain ⟨-, -, hrole | ⟨i, t, hi, ht, named⟩⟩ := exists_name_of_mem_statements hs
    · simp [Statement.isDefinition, Statement.definitionKind?, hrole] at hdef
    · exact ⟨i, t, hi, named.name?_eq, ht, statementName_eq named.name?_eq ht,
        named.identifier hdef, named.notMnemonic hdef⟩
  · obtain ⟨-, -, hrole | ⟨i, t, hi, ht, named⟩⟩ := exists_name_of_mem_statements hs
    · simp [Statement.isInclusion, hrole] at hinc
    · exact ⟨i, t, hi, named.name?_eq, ht, named.string hinc⟩

/-- A label that is set anew as a constant, behind the inclusion of a file. -/
theorem tables_exact_label_inclusion_constant :
    let source : Bytes :=
      [0x61, 0x0A, 0x21, 0x73, 0x72, 0x63, 0x22, 0x66, 0x22, 0x0A, 0x61, 0x3D, 0x32]
    let ix := parse .acme source
    let constant : Statement := ⟨.definition .constant 5, 5, 3⟩
    ix.statements.toList = [⟨.definition .label 0, 0, 1⟩, ⟨.inclusion 3, 2, 2⟩, constant] ∧
      ix.definitions.find? [.char 'a'] = some 2 ∧
      ix.lookup [.char 'a'] = .ok (some constant) ∧
      1 ∈ ix.references.toList ∧
      (∃ (i : Nat) (t : Token), i < 3 ∧ some 5 = some (5 + i) ∧ ix.tokens[5 + i]? = some t ∧
        ix.statementName constant = t.text ∧ t.kind = .identifier ∧
        (i = 0 → Dialect.acme.isMnemonic t.text = false)) ∧
      ∃ (i : Nat) (t : Token), i < 2 ∧ some 3 = some (2 + i) ∧ ix.tokens[2 + i]? = some t ∧
        t.kind = .string := by
  intro source ix constant
  have hlexemes : lexemes .acme source =
      [.token .identifier [.char 'a'], .token .lineBreak [.char '\n'],
        .token .directive [.char '!', .char 's', .char 'r', .char 'c'], .skipped [.char '"'],
        .token .string [.char 'f'], .skipped [.char '"'], .token .lineBreak [.char '\n'],
        .token .identifier [.char 'a'], .token .operator [.char '='],
        .token .number [.char '2']] := by
    cbv
  have hstatements : ix.statements.toList =
      [⟨.definition .label 0, 0, 1⟩, ⟨.inclusion 3, 2, 2⟩, constant] := by
    simp only [ix, statements_parse, tokens_parse, hlexemes]
    decide
  obtain ⟨-, -, find, lookup, -, references, definitions, inclusions⟩ := tables_exact .acme source
  have entry (j : Nat) : ix.statements[j]? =
      ([⟨.definition .label 0, 0, 1⟩, ⟨.inclusion 3, 2, 2⟩, constant] : List Statement)[j]? := by
    rw [← Array.getElem?_toList, hstatements]
  have htoken : ix.tokens[5]? = some ⟨.identifier, 10, ⟨2, 0⟩, [.char 'a'], true⟩ := by
    simp only [ix, ← Array.getElem?_toList, tokens_parse, hlexemes]
    rfl
  have last : ix.IsLastDefinition [.char 'a'] 2 constant := by
    refine ⟨entry 2, rfl, statementName_eq rfl htoken, fun j s hj hs => ?_⟩
    rw [entry, List.getElem?_eq_none hj] at hs
    cases hs
  have hfind : ix.definitions.find? [.char 'a'] = some 2 := (find _ 2).2 ⟨constant, last⟩
  refine ⟨hstatements, hfind, ?_, (references 1).2 ⟨_, entry 1, rfl⟩,
    definitions constant (by simp [ix, hstatements]) rfl,
    inclusions ⟨.inclusion 3, 2, 2⟩ (by simp [ix, hstatements]) rfl⟩
  rcases lookup [.char 'a'] with ⟨i, s, last', hlookup⟩ | ⟨hnone, -⟩
  · obtain rfl : i = 2 := Option.some.inj (((find _ i).2 ⟨s, last'⟩).symm.trans hfind)
    obtain rfl : s = constant := Option.some.inj (last'.1.symm.trans last.1)
    exact hlookup
  · exact absurd (Table.mem_keys_iff.2 ⟨2, hfind⟩) hnone

end SymbolIndex

end Asm6502
