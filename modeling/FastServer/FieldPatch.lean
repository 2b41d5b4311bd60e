/-
# A field that is patched in place

`replaceFieldValue` of `encoder.cpp` with the ranges of its `memmove` and `memcpy` checked: a
copy that left the buffer, or the new text, would have no result.  It does what the unchecked
function does, so that in a document of fields one value changes and nothing else.
-/
import FastServer.ArrayCopy
import FastServer.FixEncoder

open FIX42Protocol ArrayCopy TextPatch

namespace FixEncoder

/-! ## Checked copies -/

/-- `strlen` of the text at the front of `cells`. -/
def strlen (cells : Bytes) : ℕ := (cells.takeWhile (· ≠ 0)).length

/-- The part of `replaceFieldValue` that moves the bytes from `fieldEnd` on. -/
def moveTailChecked (buffer : Bytes) (fieldEnd : ℕ) (lengthDiff : ℤ) : Option Bytes :=
  let originalSize := buffer.length
  let delta := lengthDiff.natAbs
  if lengthDiff ≠ 0 then
    if lengthDiff > 0 then
      moveRange (ArrayCopy.resize 0 buffer (originalSize + delta)) (fieldEnd + delta) fieldEnd
        (originalSize - fieldEnd)
    else
      (moveRange buffer (fieldEnd - delta) fieldEnd (originalSize - fieldEnd)).map fun buffer =>
        ArrayCopy.resize 0 buffer (originalSize - delta)
  else some buffer

/-- `replaceFieldValue`; `newValue` are the cells behind the pointer.  Both loops look at a cell
only while they are inside the buffer. -/
def replaceFieldValueChecked (e : FixEncoder) (fieldStart : ℕ) (newValue : Bytes) :
    Option (Except String FixEncoder) :=
  let equalPos := seek e.buffer equals fieldStart
  if e.buffer.length ≤ equalPos then some (.error "Invalid field format")
  else
    let equalPos := equalPos + 1
    let fieldEnd := seek e.buffer soh equalPos
    if e.buffer.length ≤ fieldEnd then some (.error "Invalid field format")
    else
      let oldValueLength := fieldEnd - equalPos
      let newValueLength := strlen newValue
      (moveTailChecked e.buffer fieldEnd ((newValueLength : ℤ) - oldValueLength)).bind fun buffer =>
        (readRange newValue 0 newValueLength).bind fun cells =>
          (writeRange buffer equalPos cells).map fun buffer => .ok { e with buffer }

/-! ## No copy leaves the buffer -/

theorem writeRange_eq_overwrite {buffer cells : Bytes} {pos : ℕ}
    (h : pos + cells.length ≤ buffer.length) :
    writeRange buffer pos cells = some (overwrite buffer pos cells) := if_pos h

theorem moveRange_eq_memmove {buffer : Bytes} {dest src len : ℕ} (hsrc : src + len ≤ buffer.length)
    (hdest : dest + len ≤ buffer.length) :
    moveRange buffer dest src len = some (memmove buffer dest src len) := by
  have hcells : ((buffer.drop src).take len).length = len := by
    rw [List.length_take, List.length_drop]
    omega
  rw [moveRange, readRange, if_pos hsrc, Option.bind_some, writeRange_eq_overwrite, memmove]
  rwa [hcells]

/-- **The tail moves inside the buffer**, which is long enough for the new value after it. -/
theorem moveTailChecked_eq {buffer : Bytes} {fieldEnd old room : ℕ}
    (hend : fieldEnd ≤ buffer.length) (hold : old ≤ fieldEnd) :
    moveTailChecked buffer fieldEnd ((room : ℤ) - old)
      = some (moveTail buffer fieldEnd ((room : ℤ) - old)) ∧
    fieldEnd - old + room ≤ (moveTail buffer fieldEnd ((room : ℤ) - old)).length := by
  have hsplit : buffer = buffer.take (fieldEnd - old)
      ++ ((buffer.drop (fieldEnd - old)).take old ++ buffer.drop fieldEnd) := by
    have hdrop : buffer.drop fieldEnd = (buffer.drop (fieldEnd - old)).drop old := by
      rw [List.drop_drop, Nat.sub_add_cancel hold]
    rw [hdrop, List.take_append_drop, List.take_append_drop]
  refine ⟨?_, ?_⟩
  · unfold moveTailChecked moveTail
    dsimp only
    split_ifs with hdiff hgrows
    · have hresized : (ArrayCopy.resize 0 buffer (buffer.length + ((room : ℤ) - old).natAbs)).length
          = buffer.length + ((room : ℤ) - old).natAbs := by
        rw [resize_of_le (Nat.le_add_right _ _), List.length_append, List.length_replicate]
        omega
      rw [moveRange_eq_memmove (by omega) (by omega)]
      rfl
    · rw [moveRange_eq_memmove (by omega) (by omega)]
      rfl
    · rfl
  · have hfront : (buffer.take (fieldEnd - old)).length = fieldEnd - old :=
      List.length_take_of_le (by omega)
    have hvalue : ((buffer.drop (fieldEnd - old)).take old).length = old := by
      rw [List.length_take, List.length_drop]
      omega
    obtain ⟨gap, hgap, hmoved⟩ := moveTail_eq (buffer.take (fieldEnd - old))
      ((buffer.drop (fieldEnd - old)).take old) (buffer.drop fieldEnd) room
    rw [← hsplit, hfront, hvalue, Nat.sub_add_cancel hold] at hmoved
    rw [hmoved, List.length_append, List.length_append, hfront, hgap]
    exact Nat.le_add_right _ _

/-- **All ranges are inside**, for every buffer, position and text. -/
theorem replaceFieldValueChecked_eq (e : FixEncoder) (fieldStart : ℕ) {value : Bytes}
    (h : 0 ∉ value) (behind : Bytes) :
    e.replaceFieldValueChecked fieldStart (value ++ 0 :: behind)
      = some (e.replaceFieldValue fieldStart value) := by
  have hvalue : (value ++ 0 :: behind).takeWhile (· ≠ 0) = value :=
    (Framing.takeWhile_piece h behind).1
  unfold replaceFieldValueChecked replaceFieldValue
  dsimp only
  split_ifs with hequal hsoh
  · rfl
  · rfl
  · have hbehind : seek e.buffer equals fieldStart + 1
        ≤ seek e.buffer soh (seek e.buffer equals fieldStart + 1) := Nat.le_add_right _ _
    obtain ⟨hmoved, hroom⟩ := @moveTailChecked_eq e.buffer _ _ value.length (le_of_not_ge hsoh)
      (Nat.sub_le _ (seek e.buffer equals fieldStart + 1))
    rw [Nat.sub_sub_self hbehind] at hroom
    have hread : readRange ([] ++ (value ++ 0 :: behind)) ([] : Bytes).length value.length
        = some value := readRange_append
    rw [List.nil_append, List.length_nil] at hread
    rw [strlen, hvalue, hmoved, Option.bind_some, hread, Option.bind_some,
      writeRange_eq_overwrite hroom]
    rfl

/-! ## Documents of fields -/

/-- A field of a document. -/
structure PatchField where
  tag : Bytes
  value : Bytes
  tag_free : equals ∉ tag
  value_free : soh ∉ value

/-- A new value that is given as a text. -/
structure PatchValue where
  text : Bytes
  text_free : soh ∉ text
  nul_free : 0 ∉ text

/-- The tag, the value and what ends it. -/
def PatchField.toBytes (field : PatchField) : Bytes :=
  field.tag ++ equals :: (field.value ++ [soh])

/-- The field with another value. -/
def PatchField.withValue (field : PatchField) (new : PatchValue) : PatchField :=
  { field with value := new.text, value_free := new.text_free }

/-- A document: its fields one behind the other. -/
def document (fields : List PatchField) : Bytes := fields.flatMap PatchField.toBytes

/-- A field stands between those before it and those behind it. -/
theorem document_append (before after : List PatchField) (field : PatchField) :
    document (before ++ field :: after)
      = document before ++ (field.tag ++ equals :: (field.value ++ soh :: document after)) := by
  rw [document, List.flatMap_append, List.flatMap_cons, PatchField.toBytes]
  simp only [List.append_assoc, List.cons_append, List.nil_append]
  rfl

/-- **A patch of a document** gives the field its new value: what stands before the value and
behind it is as it was, and the length differs by the difference of the values. -/
theorem replaceFieldValueChecked_document (e : FixEncoder) (before after : List PatchField)
    (field : PatchField) (new : PatchValue) (behind : Bytes) :
    ({ e with buffer := document (before ++ field :: after) } :
        FixEncoder).replaceFieldValueChecked (document before).length (new.text ++ 0 :: behind)
      = some (.ok { e with buffer := document (before ++ field.withValue new :: after) }) ∧
    document (before ++ field :: after)
      = (document before ++ field.tag ++ [equals]) ++ field.value ++ (soh :: document after) ∧
    document (before ++ field.withValue new :: after)
      = (document before ++ field.tag ++ [equals]) ++ new.text ++ (soh :: document after) ∧
    ((document (before ++ field.withValue new :: after)).length : ℤ)
      = (document (before ++ field :: after)).length + (new.text.length - field.value.length) := by
  have hold := document_append before after field
  have hnew := document_append before after (field.withValue new)
  refine ⟨?_, ?_, ?_, ?_⟩
  · rw [replaceFieldValueChecked_eq _ _ new.nul_free,
      replaceFieldValue_eq new.text hold field.tag_free field.value_free, hnew]
    rfl
  · rw [hold]
    simp only [List.append_assoc, List.cons_append, List.nil_append]
  · rw [hnew]
    simp only [List.append_assoc, List.cons_append, List.nil_append]
    rfl
  · rw [hold, hnew]
    simp only [List.length_append, List.length_cons, PatchField.withValue]
    omega

/-- A field with a value of three bytes. -/
def textField : PatchField := ⟨ascii "58", ascii "ABC", by decide, by decide⟩

/-- A shorter value, one as long, and a longer one. -/
def newValues : List PatchValue :=
  [⟨ascii "X", by decide, by decide⟩, ⟨ascii "XYZ", by decide, by decide⟩,
    ⟨ascii "LONGER", by decide, by decide⟩]

example : ∀ new ∈ newValues,
    ((({ buffer := document [textField, textField], bodyLengthPos := 0, fieldCount := 2,
          hasBodyLength := false, hasChecksum := false } :
        FixEncoder).replaceFieldValueChecked 0 (new.text ++ [0])).bind Except.toOption).map buffer
      = some (document [textField.withValue new, textField]) := by decide +kernel

end FixEncoder
