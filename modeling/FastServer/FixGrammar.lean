/-
# Which fields `deserialize` reads

A field is meant to be a tag as `serialize` writes it, `=` and a value.  `deserialize` takes
whatever `std::stoi` makes a number of: blanks and a plus sign in front, zeros, and anything
behind the digits.
-/
import FastServer.FixRoundTrip
import FastServer.LastWrite

namespace FIX42Protocol

open Framing

/-! ## Fields of a text -/

/-- The terminated pieces of a text. -/
def fieldStrings (raw : Bytes) : List Bytes := (pieces soh raw).1

/-- A piece that `deserialize` reads as a field of this tag: the text before the first `=` is
a number for `std::stoi`. -/
def ReadsAs (tag : Tag) (value field_str : Bytes) : Prop :=
  ∃ text, equals ∉ text ∧ stoi text = some tag ∧ field_str = text ++ equals :: value

/-- The field as `serialize` writes it. -/
def Canonical (tag : Tag) (value field_str : Bytes) : Prop := field_str = fieldText (tag, value)

/-- `deserialize` finds what the grammar says: a tag has the value of its last canonical field,
and the call succeeds if there is such a field. -/
structure FollowsGrammar (raw : Bytes) : Prop where
  found : ∀ tag value, (deserialize raw).2.fields.get? tag = some value ↔
    LastWrite (Canonical tag) (fieldStrings raw) value
  succeeds : (deserialize raw).1 = true ↔
    ∃ tag value, LastWrite (Canonical tag) (fieldStrings raw) value

/-- A field that is not canonical and the last one of its tag repeats the value of the last
canonical field of the tag, which is there. -/
def Harmless (raw : Bytes) : Prop :=
  ∀ before field_str after tag value, fieldStrings raw = before ++ field_str :: after →
    ReadsAs tag value field_str → ¬ Canonical tag value field_str →
    (∀ str ∈ after, ∀ value', ¬ ReadsAs tag value' str) → LastWrite (Canonical tag) before value

/-! ## One piece -/

/-- A piece is one field at most. -/
theorem ReadsAs.unique {tag tag' : Tag} {value value' str : Bytes} (h : ReadsAs tag value str)
    (h' : ReadsAs tag' value' str) : tag = tag' ∧ value = value' := by
  obtain ⟨text, htext, hread, rfl⟩ := h
  obtain ⟨text', htext', hread', heq⟩ := h'
  obtain ⟨rfl, rfl⟩ := piece_inj htext htext' heq
  exact ⟨Option.some.inj (hread.symm.trans hread'), rfl⟩

/-- What `serialize` writes is read. -/
theorem Canonical.readsAs {tag : Tag} {value str : Bytes} (h : Canonical tag value str) :
    ReadsAs tag value str :=
  ⟨decimalInt tag.val, (notMem_decimalInt tag.val).1, stoi_decimalInt tag, h⟩

/-- **One turn of the loop of `deserialize`** assigns the field, or does nothing. -/
theorem readField_cases (fields : Fields) (str : Bytes) :
    (∃ tag value, ReadsAs tag value str ∧ readField fields str = fields.set tag value) ∨
      (∀ tag value, ¬ ReadsAs tag value str) ∧ readField fields str = fields := by
  cases hcut : cutAt equals str with
  | more =>
    right
    refine ⟨?_, by simp only [readField, hcut]⟩
    rintro tag value ⟨text, htext, -, rfl⟩
    rw [cutAt_piece htext] at hcut
    simp at hcut
  | bad => exact absurd hcut (cutAt_ne_bad str)
  | message text value =>
    obtain ⟨htext, rfl⟩ := of_cutAt hcut
    cases hread : stoi text with
    | none =>
      right
      refine ⟨?_, by simp only [readField, hcut, hread]⟩
      rintro tag value' ⟨text', htext', hread', heq⟩
      obtain ⟨rfl, -⟩ := piece_inj htext htext' heq
      rw [hread] at hread'
      simp at hread'
    | some tag =>
      left
      exact ⟨tag, value, ⟨text, htext, hread, rfl⟩, by simp only [readField, hcut, hread]⟩

/-! ## All pieces -/

/-- **What `deserialize` finds** under a tag is the value of the last piece that it reads as a field
of the tag. -/
theorem get?_deserialize (raw : Bytes) (tag : Tag) (value : Bytes) :
    (deserialize raw).2.fields.get? tag = some value ↔
      LastWrite (ReadsAs tag) (fieldStrings raw) value := by
  have hturn : ∀ (fields : Fields) (str : Bytes),
      (∃ value, ReadsAs tag value str ∧ (readField fields str).get? tag = some value) ∨
        (∀ value, ¬ ReadsAs tag value str) ∧
          (readField fields str).get? tag = fields.get? tag := by
    intro fields str
    rcases readField_cases fields str with ⟨tag', value', hstr, hset⟩ | ⟨hnone, hsame⟩
    · rw [hset, Fields.get?_set]
      by_cases htag : tag = tag'
      · subst htag
        exact Or.inl ⟨value', hstr, if_pos rfl⟩
      · exact Or.inr ⟨fun value h => htag (h.unique hstr).1, if_neg htag⟩
    · exact Or.inr ⟨hnone tag, by rw [hsame]⟩
  exact @foldl_eq_some_iff Bytes Bytes Fields (ReadsAs tag) (fieldStrings raw) value readField
    (fun fields => fields.get? tag) Fields.empty hturn
    (fun str value value' h h' => (h.unique h').2) rfl

/-- It succeeds if it finds a field. -/
theorem deserialize_succeeds_iff (raw : Bytes) :
    (deserialize raw).1 = true ↔
      ∃ tag value, (deserialize raw).2.fields.get? tag = some value := by
  have hfst : (deserialize raw).1 = !(deserialize raw).2.fields.entries.isEmpty := rfl
  rw [hfst, Bool.not_eq_true', List.isEmpty_eq_false_iff_exists_mem]
  constructor
  · rintro ⟨⟨tag, value⟩, hmem⟩
    exact ⟨tag, value, SortedMap.mem_entries_iff.mp hmem⟩
  · rintro ⟨tag, value, hfound⟩
    exact ⟨(tag, value), SortedMap.mem_entries_iff.mpr hfound⟩

/-- Where harmless fields are all that is read besides canonical ones, the last field that is
read has the value of the last canonical one. -/
theorem Harmless.lastWrite {raw : Bytes} (h : Harmless raw) {tag : Tag} {value : Bytes}
    (hread : LastWrite (ReadsAs tag) (fieldStrings raw) value) :
    LastWrite (Canonical tag) (fieldStrings raw) value := by
  obtain ⟨before, str, after, hstrs, hstr, hafter⟩ := hread
  have hnone : ∀ str' ∈ after, ∀ value', ¬ Canonical tag value' str' :=
    fun str' hmem value' hcanonical => hafter str' hmem value' hcanonical.readsAs
  rw [hstrs, List.append_cons, lastWrite_append_iff hnone, lastWrite_concat_iff]
  by_cases hcanonical : Canonical tag value str
  · exact Or.inl hcanonical
  · right
    refine ⟨?_, h before str after tag value hstrs hstr hcanonical hafter⟩
    intro value' hvalue'
    obtain ⟨-, rfl⟩ := hstr.unique hvalue'.readsAs
    exact hcanonical hvalue'

/-- **`deserialize` follows its grammar if and only if** what it reads besides canonical fields
is harmless. -/
theorem followsGrammar_iff (raw : Bytes) : FollowsGrammar raw ↔ Harmless raw := by
  constructor
  · intro h before str after tag value hstrs hstr hcanonical hafter
    have hlast : LastWrite (ReadsAs tag) (fieldStrings raw) value :=
      ⟨before, str, after, hstrs, hstr, hafter⟩
    have hfound := (h.found tag value).mp ((get?_deserialize raw tag value).mpr hlast)
    -- neither the piece nor what follows it is a canonical field of the tag
    have hnone : ∀ str' ∈ after, ∀ value', ¬ Canonical tag value' str' :=
      fun str' hmem value' hvalue' => hafter str' hmem value' hvalue'.readsAs
    rw [hstrs, List.append_cons, lastWrite_append_iff hnone, lastWrite_concat_iff] at hfound
    exact (hfound.resolve_left hcanonical).2
  · intro h
    have hfound : ∀ tag value, (deserialize raw).2.fields.get? tag = some value ↔
        LastWrite (Canonical tag) (fieldStrings raw) value := by
      intro tag value
      rw [get?_deserialize]
      constructor
      · exact h.lastWrite
      · intro hcanonical
        obtain ⟨str, hmem, hstr⟩ := hcanonical.exists_mem
        obtain ⟨value', hread⟩ := exists_lastWrite ⟨str, hmem, value, hstr.readsAs⟩
        have hsame := hcanonical.unique
          (fun str value value' h h' => (h.readsAs.unique h'.readsAs).2) (h.lastWrite hread)
        rw [hsame]
        exact hread
    refine ⟨hfound, ?_⟩
    rw [deserialize_succeeds_iff]
    simp only [hfound]

/-- Three fields: a type, one whose tag has a letter behind it, and one whose tag starts with a
blank, a plus sign and a zero. -/
def lenientText : Bytes :=
  (ascii "35=A" ++ [soh]) ++ (ascii "35x=B" ++ [soh]) ++ (ascii " +034=9" ++ [soh])

/-- **Invalid fields are not ignored.** -/
theorem not_followsGrammar_lenientText :
    (deserialize lenientText).2.fields.get? FIXField.msgType = some (ascii "B") ∧
      (deserialize lenientText).2.fields.get? FIXField.msgSeqNum = some (ascii "9") ∧
      ¬ FollowsGrammar lenientText := by
  have hread : (deserialize lenientText).2.fields.get? FIXField.msgType = some (ascii "B") ∧
      (deserialize lenientText).2.fields.get? FIXField.msgSeqNum = some (ascii "9") := by
    decide +kernel
  refine ⟨hread.1, hread.2, ?_⟩
  intro h
  obtain ⟨str, hmem, hstr⟩ := ((h.found _ _).mp hread.1).exists_mem
  have hnone : ∀ str ∈ fieldStrings lenientText,
      str ≠ fieldText (FIXField.msgType, ascii "B") := by decide +kernel
  exact hnone str hmem hstr

end FIX42Protocol
