import Asm6502.Proofs.UnitOutcomes

/-!
# Calls on a section reader

A reader is asked for unit headers, for numbers of two bytes and for offsets, in any order. It only
moves on, and never beyond its section. A number that is not there leaves it where it is. The width
of offsets is remembered from the last unit whose length was read, even if the rest of that unit is
missing, while a length that is itself incomplete changes nothing.

## Main definitions

- `SectionReader.Call`, `SectionReader.call`, `SectionReader.after`: the calls on a reader.
- `SectionReader.Onward`: what every call does to the place of a reader.
- `SectionReader.ReadsNumber`: a call that reads a stored number.
- `SectionReader.LastLength`: the format of the last unit whose length was read.

## Main statements

- `SectionReader.onward_after`: where calls may lead.
- `SectionReader.format_after_iff`: the format that calls leave behind.
-/

namespace Asm6502

namespace SectionReader

/-! ## Calls -/

/-- What a reader can be asked for. -/
inductive Call where
  | header
  | half
  | offset
  deriving DecidableEq, Repr

/-- The answer to a call. -/
inductive Reply where
  | header (header : UnitHeader) (error : Option SectionError)
  | number (outcome : Except SectionError Nat)

/-- The answer to a call for a number. The reader stays where it is if the number is not there. -/
def answer (r : SectionReader) : Except SectionError (Nat × SectionReader) → Reply × SectionReader
  | .ok (n, next) => (.number (.ok n), next)
  | .error e => (.number (.error e), r)

/-- The answer to a call and the reader behind it. -/
def call (r : SectionReader) : Call → Reply × SectionReader
  | .header =>
    let outcome := r.readHeader
    (.header outcome.header outcome.error, outcome.reader)
  | .half => r.answer r.readHalf
  | .offset => r.answer r.readOffset

/-- The reader behind some calls. -/
def after (r : SectionReader) (calls : List Call) : SectionReader :=
  calls.foldl (fun r c => (r.call c).2) r

theorem after_append (r : SectionReader) (calls more : List Call) :
    r.after (calls ++ more) = (r.after calls).after more :=
  List.foldl_append

theorem after_concat (r : SectionReader) (calls : List Call) (c : Call) :
    r.after (calls ++ [c]) = ((r.after calls).call c).2 :=
  after_append r calls [c]

/-- The call is for the number that is stored in the next `width` bytes. It fails exactly if the
section ends before, and then the reader stays as it is. -/
def ReadsNumber (r : SectionReader) (c : Call) (width : Nat) : Prop :=
  (r.position + width ≤ r.data.length → ∃ n < 256 ^ width,
    (r.data.drop r.position).take width = r.order.bytes width n ∧
    r.call c = (.number (.ok n), { r with position := r.position + width })) ∧
  (r.data.length < r.position + width → r.call c = (.number (.error .truncated), r))

variable {r r' r'' : SectionReader}

theorem readsNumber_of_call {c : Call} {width : Nat} (h : r.call c = r.answer (r.read width)) :
    r.ReadsNumber c width := by
  constructor
  · intro fits
    refine ⟨r.order.numberAt r.data r.position width, r.order.numberAt_lt _ _ _, ?_, ?_⟩
    · have hlength : ((r.data.drop r.position).take width).length = width := by
        rw [List.length_take, List.length_drop]
        omega
      have hbytes := r.order.bytes_number ((r.data.drop r.position).take width)
      rw [hlength] at hbytes
      exact hbytes.symm
    · rw [h, read_of_le fits]
      rfl
  · intro short
    rw [h, read_of_lt short]
    rfl

/-! ## Where calls lead -/

/-- The reader has moved on within the same section. -/
structure Onward (r r' : SectionReader) : Prop where
  data_eq : r'.data = r.data
  order_eq : r'.order = r.order
  le : r.position ≤ r'.position
  within : r.position ≤ r.data.length → r'.position ≤ r.data.length

theorem Onward.refl (r : SectionReader) : r.Onward r :=
  ⟨rfl, rfl, Nat.le_refl _, id⟩

theorem Onward.trans (h : r.Onward r') (h' : r'.Onward r'') : r.Onward r'' where
  data_eq := h'.data_eq.trans h.data_eq
  order_eq := h'.order_eq.trans h.order_eq
  le := h.le.trans h'.le
  within hle := h.data_eq ▸ h'.within (h.data_eq ▸ h.within hle)

theorem onward_of_le {n : Nat} {format : OffsetFormat} (h : r.position + n ≤ r.data.length) :
    r.Onward { r with position := r.position + n, format } :=
  ⟨rfl, rfl, Nat.le_add_right _ _, fun _ => h⟩

theorem onward_answer_read (r : SectionReader) (width : Nat) :
    r.Onward (r.answer (r.read width)).2 := by
  by_cases fits : r.position + width ≤ r.data.length
  · rw [read_of_le fits]
    exact onward_of_le fits
  · rw [read_of_lt (Nat.lt_of_not_le fits)]
    exact .refl r

/-- Where there is no whole length, the reader may move over the escape, but its format stays. -/
theorem readLength_of_forall_not (h : ∀ format n, ¬ r.LengthField format n) :
    ∃ format e r', r.readLength = ((format, .error e), r') ∧ r'.format = r.format ∧
      r.Onward r' := by
  by_cases word : r.position + 4 ≤ r.data.length
  · -- the escape is there, and the length behind it is not
    have escape : r.order.numberAt r.data r.position 4 = wideEscape := by
      by_contra plain
      exact h .narrow _ (.narrow word rfl plain)
    have short : r.data.length < r.position + 4 + 8 := by
      by_contra complete
      exact h .wide _ (.wide (by omega) escape rfl)
    refine ⟨.wide, .truncated, { r with position := r.position + 4 }, ?_, rfl, onward_of_le word⟩
    unfold readLength
    rw [read_of_le word]
    dsimp only
    rw [if_pos escape, read_of_lt short]
  · refine ⟨.narrow, .truncated, r, ?_, rfl, .refl r⟩
    rw [readLength, read_of_lt (Nat.lt_of_not_le word)]

/-- A whole length gives the reader its format, whatever becomes of the rest of the header. -/
theorem reader_readHeader_of_lengthField {format : OffsetFormat} {n : Nat}
    (h : r.LengthField format n) :
    r.readHeader.reader.format = format ∧ r.Onward r.readHeader.reader := by
  have length : r.Onward (r.behindLength format) := onward_of_le h.complete_position
  unfold readHeader
  rw [readLength_eq_ok_iff.2 ⟨h, rfl⟩]
  dsimp only
  split
  · exact ⟨rfl, length⟩
  · rw [readHalf]
    by_cases fits : (r.behindLength format).position + 2 ≤ (r.behindLength format).data.length
    · rw [read_of_le fits]
      exact ⟨rfl, length.trans (onward_of_le fits)⟩
    · rw [read_of_lt (Nat.lt_of_not_le fits)]
      exact ⟨rfl, length⟩

theorem reader_readHeader_of_forall_not (h : ∀ format n, ¬ r.LengthField format n) :
    r.readHeader.reader.format = r.format ∧ r.Onward r.readHeader.reader := by
  obtain ⟨format, e, r', hlength, kept, onward⟩ := readLength_of_forall_not h
  rw [readHeader, hlength]
  exact ⟨kept, onward⟩

theorem onward_call (r : SectionReader) (c : Call) : r.Onward (r.call c).2 := by
  cases c with
  | header =>
    by_cases found : ∃ format n, r.LengthField format n
    · obtain ⟨format, n, length⟩ := found
      exact (reader_readHeader_of_lengthField length).2
    · push Not at found
      exact (reader_readHeader_of_forall_not found).2
  | half => exact onward_answer_read r 2
  | offset => exact onward_answer_read r r.format.width

theorem onward_after (r : SectionReader) (calls : List Call) : r.Onward (r.after calls) := by
  induction calls generalizing r with
  | nil => exact .refl r
  | cons c calls ih => exact (onward_call r c).trans (ih _)

/-! ## The format that calls leave behind -/

/-- The last of the calls for a header that met a whole length met one of the given format. -/
def LastLength (r : SectionReader) (calls : List Call) (format : OffsetFormat) : Prop :=
  ∃ before later, calls = before ++ .header :: later ∧
    (∃ n, (r.after before).LengthField format n) ∧
    ∀ u v, later = u ++ .header :: v →
      ∀ other n, ¬ (r.after (before ++ .header :: u)).LengthField other n

/-- A call that splits a history is the last one, or it stands in front of the last one. -/
theorem concat_eq_append_cons_iff {calls before later : List Call} {c x : Call} :
    calls ++ [c] = before ++ x :: later ↔ later = [] ∧ calls = before ∧ c = x ∨
      ∃ inner, later = inner ++ [c] ∧ calls = before ++ x :: inner := by
  constructor
  · intro h
    rcases later.eq_nil_or_concat' with rfl | ⟨inner, y, rfl⟩
    · exact .inl ⟨rfl, List.append_singleton_inj.1 h⟩
    · rw [← List.cons_append, ← List.append_assoc] at h
      obtain ⟨rfl, rfl⟩ := List.append_singleton_inj.1 h
      exact .inr ⟨inner, rfl, rfl⟩
  · rintro (⟨rfl, rfl, rfl⟩ | ⟨inner, rfl, rfl⟩)
    · rfl
    · rw [List.append_assoc, List.cons_append]

/-- The last call counts if it meets a length, and otherwise the calls in front of it do. -/
theorem lastLength_concat {calls : List Call} {c : Call} {format : OffsetFormat} :
    r.LastLength (calls ++ [c]) format ↔
      (c = .header ∧ ∃ n, (r.after calls).LengthField format n) ∨
      (c = .header → ∀ other n, ¬ (r.after calls).LengthField other n) ∧
        r.LastLength calls format := by
  constructor
  · rintro ⟨before, later, hcalls, found, last⟩
    obtain ⟨-, rfl, rfl⟩ | ⟨later, rfl, rfl⟩ := concat_eq_append_cons_iff.1 hcalls
    · exact .inl ⟨rfl, found⟩
    · refine .inr ⟨?_, before, later, rfl, found, fun u v h => last u (v ++ [c]) (by simp [h])⟩
      rintro rfl
      exact last later [] rfl
  · rintro (⟨rfl, found⟩ | ⟨unmet, before, later, rfl, found, last⟩)
    · exact ⟨calls, [], rfl, found, by simp⟩
    · refine ⟨before, later ++ [c], by simp, found, fun u v h => ?_⟩
      obtain ⟨-, rfl, rfl⟩ | ⟨v, -, rfl⟩ := concat_eq_append_cons_iff.1 h
      · exact unmet rfl
      · exact last u v rfl

/-- A call that meets no whole length keeps the format. -/
theorem format_call {c : Call} (h : c = .header → ∀ format n, ¬ r.LengthField format n) :
    (r.call c).2.format = r.format := by
  have read (width : Nat) : (r.answer (r.read width)).2.format = r.format := by
    by_cases fits : r.position + width ≤ r.data.length
    · rw [read_of_le fits]
      rfl
    · rw [read_of_lt (Nat.lt_of_not_le fits)]
      rfl
  cases c with
  | header => exact (reader_readHeader_of_forall_not (h rfl)).1
  | half => exact read 2
  | offset => exact read r.format.width

/-- A format other than that of the start comes from the last length that was met. -/
theorem format_after_iff {format : OffsetFormat} (h : r.format ≠ format) (calls : List Call) :
    (r.after calls).format = format ↔ r.LastLength calls format := by
  induction calls using List.reverseRecOn with
  | nil => exact iff_of_false h fun ⟨before, later, hcalls, _⟩ => by simp at hcalls
  | append_singleton calls c ih =>
    rw [after_concat, lastLength_concat]
    by_cases found : c = .header ∧ ∃ format n, (r.after calls).LengthField format n
    · obtain ⟨rfl, other, n, length⟩ := found
      have hformat : ((r.after calls).call .header).2.format = other :=
        (reader_readHeader_of_lengthField length).1
      rw [hformat]
      constructor
      · rintro rfl
        exact .inl ⟨rfl, n, length⟩
      · rintro (⟨-, m, length'⟩ | ⟨unmet, -⟩)
        · exact hformat.symm.trans (reader_readHeader_of_lengthField length').1
        · exact absurd length (unmet rfl other n)
    · have unmet : c = .header → ∀ format n, ¬ (r.after calls).LengthField format n :=
        fun hc format n length => found ⟨hc, format, n, length⟩
      rw [format_call unmet, ih]
      constructor
      · exact fun last => .inr ⟨unmet, last⟩
      · rintro (⟨rfl, n, length⟩ | ⟨-, last⟩)
        · exact absurd length (unmet rfl format n)
        · exact last

/-- What a reader does over any calls. From call to call it only moves on, up to the end of the
section. A number is the one that is stored at its place, the reader moves behind it, and if it is
not there the reader stays as it is. The width of an offset is eight bytes if the last of the calls
for a header that met a whole length, however that call ended, met one behind the escape, and four
bytes otherwise. -/
theorem calls_exact (data : Bytes) (order : ByteOrder) (calls : List Call) :
    let fresh : SectionReader := { data, order }
    let r := fresh.after calls
    r.data = data ∧ r.order = order ∧ r.position ≤ data.length ∧
    (∀ more, r.position ≤ (fresh.after (calls ++ more)).position) ∧
    r.ReadsNumber .half 2 ∧
    r.ReadsNumber .offset r.format.width ∧
    (r.format.width = 8 ↔ fresh.LastLength calls .wide) ∧
    (r.format.width = 4 ↔ ¬ fresh.LastLength calls .wide) := by
  intro fresh r
  have onward : fresh.Onward r := onward_after fresh calls
  have wide : r.format = .wide ↔ fresh.LastLength calls .wide :=
    format_after_iff (fun h => OffsetFormat.noConfusion h) calls
  refine ⟨onward.data_eq, onward.order_eq, onward.within (Nat.zero_le _), fun more => ?_,
    readsNumber_of_call rfl, readsNumber_of_call rfl, ?_, ?_⟩
  · rw [after_append]
    exact (onward_after r more).le
  · rw [← wide]
    cases r.format <;> decide
  · rw [← wide]
    cases r.format <;> decide

/-- Behind the escape the length may be incomplete, and then offsets stay narrow. If it is complete
they become wide, although the version is missing. -/
example :
    let escape : Bytes := [0xFF, 0xFF, 0xFF, 0xFF]
    let incomplete : SectionReader := { data := escape ++ [1, 0, 0, 0, 2], order := .little }
    let complete : SectionReader := { data := escape ++ List.replicate 8 0, order := .little }
    (incomplete.after [.header, .offset]).position = 8 ∧
      (complete.after [.header]).position = 12 ∧ (complete.after [.header]).format = .wide := by
  decide

end SectionReader

end Asm6502
