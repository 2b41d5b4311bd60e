/-
# The FIX encoder

`FixEncoder` of `encoder.cpp`.  `addHeader` leaves five zeros where the body length will
stand, `addField` appends, and `finalize` patches the length in, appends a check sum field
of three zeros and patches the sum in.  A patch of another width moves what stands behind
it; the positions `finalize` took before are not moved along.
-/
import FastServer.FixRoundTrip

open FIX42Protocol

/-! ## Text that is patched in place -/

namespace TextPatch

/-- `memcpy` of `cells` to `buffer.data() + pos`. -/
def overwrite (buffer : Bytes) (pos : ℕ) (cells : Bytes) : Bytes :=
  buffer.take pos ++ cells ++ buffer.drop (pos + cells.length)

/-- `memmove` of `len` bytes inside the buffer. -/
def memmove (buffer : Bytes) (dest src len : ℕ) : Bytes :=
  overwrite buffer dest ((buffer.drop src).take len)

/-- `buffer.resize(size)`; new bytes are zero. -/
def resize (buffer : Bytes) (size : ℕ) : Bytes :=
  buffer.take size ++ List.replicate (size - buffer.length) 0

/-- The first position from `pos` on that holds `b`, or the end of the buffer. -/
def seek (buffer : Bytes) (b : UInt8) (pos : ℕ) : ℕ :=
  pos + ((buffer.drop pos).takeWhile (· ≠ b)).length

/-- What stands in front of the window and behind it stays. -/
theorem overwrite_window {front old new rest : Bytes} (h : old.length = new.length) :
    overwrite (front ++ old ++ rest) front.length new = front ++ new ++ rest := by
  have hdrop : (front ++ old ++ rest).drop (front.length + new.length) = rest := by
    rw [← h, ← List.length_append, List.drop_left]
  rw [overwrite, hdrop, List.append_assoc front old, List.take_left]

/-- A byte is found behind a stretch that does not hold it. -/
theorem seek_eq {b : UInt8} {stretch : Bytes} (front rest : Bytes) (h : b ∉ stretch) :
    seek (front ++ (stretch ++ b :: rest)) b front.length
      = front.length + stretch.length := by
  rw [seek, List.drop_left, (Framing.takeWhile_piece h rest).1]

/-- A byte that does not follow is not found. -/
theorem seek_of_notMem {b : UInt8} {rest : Bytes} (front : Bytes) (h : b ∉ rest) :
    seek (front ++ rest) b front.length = (front ++ rest).length := by
  rw [seek, List.drop_left, (Framing.takeWhile_of_notMem h).1, List.length_append]

end TextPatch

/-! ## The encoder -/

/-- `FixEncoder`. -/
structure FixEncoder where
  buffer : Bytes
  bodyLengthPos : ℕ
  fieldCount : ℕ
  hasBodyLength : Bool
  hasChecksum : Bool

/-- The value of an `addField` call: a number, a text, or a floating-point number by what
`snprintf` prints for it. -/
inductive FieldValue
  | integer (value : ℤ)
  | text (value : Bytes)
  | floating (printed : Bytes)

/-- The text of a value; a floating-point number has a buffer of 32 characters. -/
def FieldValue.toText : FieldValue → Bytes
  | .integer value => decimalInt value
  | .text value => value
  | .floating printed => printed.take 31

namespace FixEncoder

open TextPatch

/-- `reset`. -/
def reset (e : FixEncoder) : FixEncoder :=
  { e with buffer := [], fieldCount := 0, hasBodyLength := false, hasChecksum := false }

/-- One field and its separator, as `addFieldInternal` writes it. -/
def line (tag : Tag) (value : Bytes) : Bytes := fieldText (tag, value) ++ [soh]

/-- `addFieldInternal`. -/
def addFieldInternal (e : FixEncoder) (tag : Tag) (value : Bytes) : FixEncoder :=
  { e with buffer := e.buffer ++ line tag value, fieldCount := e.fieldCount + 1 }

/-- `addHeader`. -/
def addHeader (e : FixEncoder) (beginString msgType : Bytes) : FixEncoder :=
  let e := e.reset
  let e := e.addFieldInternal FIXField.beginString beginString
  let e := { e with bodyLengthPos := e.buffer.length }
  let e := e.addFieldInternal FIXField.bodyLength (ascii "00000")
  let e := { e with hasBodyLength := true }
  e.addFieldInternal FIXField.msgType msgType

/-- `addField`. -/
def addField (e : FixEncoder) (field : Tag × FieldValue) : FixEncoder :=
  e.addFieldInternal field.1 field.2.toText

/-- The part of `replaceFieldValue` that moves the bytes from `fieldEnd` on, so that the value
in front of them grows by `lengthDiff`. -/
def moveTail (buffer : Bytes) (fieldEnd : ℕ) (lengthDiff : ℤ) : Bytes :=
  let originalSize := buffer.length
  let delta := lengthDiff.natAbs
  if lengthDiff ≠ 0 then
    if lengthDiff > 0 then
      memmove (resize buffer (originalSize + delta)) (fieldEnd + delta) fieldEnd
        (originalSize - fieldEnd)
    else
      resize (memmove buffer (fieldEnd - delta) fieldEnd (originalSize - fieldEnd))
        (originalSize - delta)
  else buffer

/-- `replaceFieldValue`. -/
def replaceFieldValue (e : FixEncoder) (fieldStart : ℕ) (newValue : Bytes) :
    Except String FixEncoder :=
  let equalPos := seek e.buffer equals fieldStart
  if e.buffer.length ≤ equalPos then .error "Invalid field format"
  else
    let equalPos := equalPos + 1
    let fieldEnd := seek e.buffer soh equalPos
    if e.buffer.length ≤ fieldEnd then .error "Invalid field format"
    else
      let oldValueLength := fieldEnd - equalPos
      let buffer := moveTail e.buffer fieldEnd ((newValue.length : ℤ) - oldValueLength)
      .ok { e with buffer := overwrite buffer equalPos newValue }

/-- `calculateChecksum`: the sum of the bytes from `start` to `stop`, as a `uint32_t`,
modulo 256. -/
def calculateChecksum (e : FixEncoder) (start stop : ℕ) : ℕ :=
  byteSum ((e.buffer.drop start).take (stop - start))

/-- `finalize`; `lenBuffer` holds 15 characters. -/
def finalize (e : FixEncoder) : Except String FixEncoder :=
  if ¬ e.hasBodyLength then .error "Missing required BodyLength field"
  else
    let bodyStart := seek e.buffer soh 0 + 1
    let checksumPos := e.buffer.length
    let bodyLength := checksumPos - bodyStart
    let lenBuffer := (decimal bodyLength).take 15
    (e.replaceFieldValue e.bodyLengthPos lenBuffer).bind fun e =>
      let e := { e.addFieldInternal FIXField.checkSum (ascii "000") with hasChecksum := true }
      let checksum := e.calculateChecksum bodyStart checksumPos
      e.replaceFieldValue checksumPos (List.leftpad 3 48 (decimal checksum))

/-- The encoder after `addHeader`, the `addField` calls and `finalize`. -/
def encode (e : FixEncoder) (beginString msgType : Bytes) (fields : List (Tag × FieldValue)) :
    Except String FixEncoder :=
  (fields.foldl addField (e.addHeader beginString msgType)).finalize

/-! ## What a patch does -/

/-- The bytes behind the value keep their order, and the value gets the room it needs. -/
theorem moveTail_eq (front old rest : Bytes) (room : ℕ) :
    ∃ gap : Bytes, gap.length = room ∧
      moveTail (front ++ (old ++ rest)) (front.length + old.length)
        ((room : ℤ) - old.length) = front ++ gap ++ rest := by
  have hlen : (front ++ (old ++ rest)).length = front.length + old.length + rest.length := by
    rw [List.length_append, List.length_append, Nat.add_assoc]
  have hcount : (front ++ (old ++ rest)).length - (front.length + old.length) = rest.length := by
    omega
  have htail : (front ++ (old ++ rest)).drop (front.length + old.length) = rest := by
    rw [List.drop_length_add_append, List.drop_left]
  rcases lt_trichotomy room old.length with hlt | heq | hgt
  · -- the value shrinks: the tail moves first, then the end is cut off
    have hdelta : ((room : ℤ) - old.length).natAbs = old.length - room := by omega
    have hdest : front.length + old.length - (old.length - room) = front.length + room := by omega
    have hgap : ((old ++ rest).take room).length = room := by
      rw [List.length_take, List.length_append]
      omega
    have hmoved : (front ++ (old ++ rest)).take (front.length + room)
        = front ++ (old ++ rest).take room := List.take_length_add_append room
    have hsize : (front ++ (old ++ rest)).length - (old.length - room)
        = (front ++ (old ++ rest).take room ++ rest).length := by
      rw [hlen, List.length_append, List.length_append, hgap]
      omega
    have hnone : ∀ s t : Bytes, s.length - (s ++ t).length = 0 := by
      intro s t
      rw [List.length_append]
      omega
    refine ⟨(old ++ rest).take room, hgap, ?_⟩
    unfold moveTail
    rw [hdelta, if_pos (by omega), if_neg (by omega), hcount, memmove, htail, List.take_length,
      overwrite, hdest, hmoved, resize, hsize, List.take_left, hnone, List.replicate_zero,
      List.append_nil]
  · refine ⟨old, heq.symm, ?_⟩
    rw [heq, moveTail, sub_self, if_neg (not_not.mpr rfl), List.append_assoc]
  · -- the value grows: the buffer is extended first, then the tail moves to its end
    have hdelta : ((room : ℤ) - old.length).natAbs = room - old.length := by omega
    have hdest : front.length + old.length + (room - old.length) = front.length + room := by omega
    have hgap : ((old ++ (rest ++ List.replicate (room - old.length) 0)).take room).length
        = room := by
      rw [List.length_take, List.length_append, List.length_append, List.length_replicate]
      omega
    have hresize : resize (front ++ (old ++ rest))
          ((front ++ (old ++ rest)).length + (room - old.length))
        = front ++ (old ++ (rest ++ List.replicate (room - old.length) 0)) := by
      rw [resize, List.take_of_length_le (Nat.le_add_right _ _), Nat.add_sub_cancel_left,
        List.append_assoc, List.append_assoc]
    have htail' : (front ++ (old ++ (rest ++ List.replicate (room - old.length) 0))).drop
        (front.length + old.length) = rest ++ List.replicate (room - old.length) 0 := by
      rw [List.drop_length_add_append, List.drop_left]
    have hend : (front ++ (old ++ (rest ++ List.replicate (room - old.length) 0))).drop
        (front.length + room + rest.length) = [] := by
      apply List.drop_of_length_le
      simp only [List.length_append, List.length_replicate]
      omega
    refine ⟨(old ++ (rest ++ List.replicate (room - old.length) 0)).take room, hgap, ?_⟩
    unfold moveTail
    rw [hdelta, if_pos (by omega), if_pos (by omega), hcount, hresize, memmove, htail',
      List.take_left, overwrite, hdest, hend, List.take_length_add_append, List.append_nil]

/-- **A patch** replaces the first value behind the position and nothing else. -/
theorem replaceFieldValue_eq {e : FixEncoder} {front stretch old rest : Bytes} (new : Bytes)
    (hbuffer : e.buffer = front ++ (stretch ++ equals :: (old ++ soh :: rest)))
    (hstretch : equals ∉ stretch) (hold : soh ∉ old) :
    e.replaceFieldValue front.length new
      = .ok { e with buffer := front ++ (stretch ++ equals :: (new ++ soh :: rest)) } := by
  have hequal : seek e.buffer equals front.length = front.length + stretch.length := by
    rw [hbuffer, seek_eq _ _ hstretch]
  have hfront : e.buffer = (front ++ stretch ++ [equals]) ++ (old ++ soh :: rest) := by
    rw [hbuffer]
    simp only [List.append_assoc, List.singleton_append]
  have hvalue : (front ++ stretch ++ [equals]).length = front.length + stretch.length + 1 := by
    simp only [List.length_append, List.length_singleton]
  have hend : seek e.buffer soh (front.length + stretch.length + 1)
      = (front ++ stretch ++ [equals]).length + old.length := by
    rw [hfront, ← hvalue, seek_eq _ _ hold]
  have hlen : e.buffer.length
      = (front ++ stretch ++ [equals]).length + old.length + 1 + rest.length := by
    rw [hfront]
    simp only [List.length_append, List.length_cons]
    omega
  have hold' : (front ++ stretch ++ [equals]).length + old.length
      - (front.length + stretch.length + 1) = old.length := by
    rw [hvalue, Nat.add_sub_cancel_left]
  obtain ⟨gap, hgap, hmoved⟩ := moveTail_eq (front ++ stretch ++ [equals]) old (soh :: rest)
    new.length
  unfold replaceFieldValue
  rw [hequal, if_neg (by omega)]
  dsimp only
  rw [hend, if_neg (by omega), hold', hfront, hmoved, ← hvalue, overwrite_window hgap]
  simp only [List.append_assoc, List.singleton_append]
  rfl

/-- A patch that is made finds a value behind the position; without one it throws. -/
theorem replaceFieldValue_cases (e : FixEncoder) {start : ℕ} (hstart : start ≤ e.buffer.length)
    (new : Bytes) :
    (∃ stretch old rest : Bytes,
      e.buffer.drop start = stretch ++ equals :: (old ++ soh :: rest) ∧
      e.replaceFieldValue start new
        = .ok { e with buffer := e.buffer.take start
                  ++ (stretch ++ equals :: (new ++ soh :: rest)) }) ∨
    ((∀ stretch value : Bytes, e.buffer.drop start = stretch ++ equals :: value →
        equals ∉ stretch → soh ∉ value) ∧
      e.replaceFieldValue start new = .error "Invalid field format") := by
  have hsplit : e.buffer = e.buffer.take start ++ e.buffer.drop start :=
    (List.take_append_drop start _).symm
  have hlen : (e.buffer.take start).length = start := List.length_take_of_le hstart
  by_cases hequal : equals ∈ e.buffer.drop start
  · obtain ⟨stretch, value, hvalue, hstretch⟩ := List.eq_append_cons_of_mem hequal
    by_cases hsoh : soh ∈ value
    · obtain ⟨old, rest, rfl, hold⟩ := List.eq_append_cons_of_mem hsoh
      refine Or.inl ⟨stretch, old, rest, hvalue, ?_⟩
      have hpatch := replaceFieldValue_eq new (hsplit.trans (by rw [hvalue])) hstretch hold
      rwa [hlen] at hpatch
    · refine Or.inr ⟨?_, ?_⟩
      · intro stretch' value' hvalue' hstretch'
        rw [hvalue] at hvalue'
        rwa [← (Framing.piece_inj hstretch hstretch' hvalue').2]
      · have hfound : seek e.buffer equals start = start + stretch.length := by
          have h := seek_eq (e.buffer.take start) value hstretch
          rwa [← hvalue, ← hsplit, hlen] at h
        have hfront : e.buffer = (e.buffer.take start ++ (stretch ++ [equals])) ++ value := by
          rw [List.append_assoc, List.append_assoc, List.singleton_append, ← hvalue, ← hsplit]
        have hvalueStart : (e.buffer.take start ++ (stretch ++ [equals])).length
            = start + stretch.length + 1 := by
          rw [List.length_append, List.length_append, hlen, List.length_singleton, Nat.add_assoc]
        have hend : seek e.buffer soh (start + stretch.length + 1) = e.buffer.length := by
          have h := seek_of_notMem (e.buffer.take start ++ (stretch ++ [equals])) hsoh
          rwa [← hfront, hvalueStart] at h
        have hinside : start + stretch.length < e.buffer.length := by
          have h := congrArg List.length hfront
          rw [List.length_append, hvalueStart] at h
          omega
        unfold replaceFieldValue
        rw [hfound, if_neg (by omega)]
        dsimp only
        rw [hend, if_pos le_rfl]
  · refine Or.inr ⟨fun stretch value hvalue _ => ?_, ?_⟩
    · exact absurd (hvalue ▸ List.mem_append_right _ List.mem_cons_self) hequal
    · have hend : seek e.buffer equals start = e.buffer.length := by
        have h := seek_of_notMem (e.buffer.take start) hequal
        rwa [← hsplit, hlen] at h
      unfold replaceFieldValue
      rw [hend, if_pos le_rfl]

/-! ## The document before the check sum is patched in -/

/-- Field 8. -/
def head (beginString : Bytes) : Bytes := line FIXField.beginString beginString

/-- Field 35 and the added fields. -/
def body (msgType : Bytes) (fields : List (Tag × FieldValue)) : Bytes :=
  line FIXField.msgType msgType ++ fields.flatMap fun field => line field.1 field.2.toText

/-- The text `finalize` puts in field 9. -/
def lengthText (body : Bytes) : Bytes := (decimal (8 + body.length)).take 15

/-- The buffer before the check sum is patched in. -/
def draft (head body : Bytes) : Bytes :=
  head ++ (line FIXField.bodyLength (lengthText body)
    ++ (body ++ line FIXField.checkSum (ascii "000")))

theorem line_bodyLength (value : Bytes) :
    line FIXField.bodyLength value = ascii "9" ++ equals :: (value ++ [soh]) := by
  have htag : decimalInt FIXField.bodyLength.val ++ [equals] = ascii "9" ++ [equals] := by decide
  rw [line, fieldText_eq htag, List.append_assoc, List.append_assoc, List.singleton_append]

theorem line_checkSum (value : Bytes) :
    line FIXField.checkSum value = ascii "10" ++ equals :: (value ++ [soh]) := by
  have htag : decimalInt FIXField.checkSum.val ++ [equals] = ascii "10" ++ [equals] := by decide
  rw [line, fieldText_eq htag, List.append_assoc, List.append_assoc, List.singleton_append]

/-- What the `addField` calls leave in the encoder. -/
theorem foldl_addField (e : FixEncoder) (fields : List (Tag × FieldValue)) :
    fields.foldl addField e
      = { e with
          buffer := e.buffer ++ fields.flatMap fun field => line field.1 field.2.toText
          fieldCount := e.fieldCount + fields.length } := by
  induction fields generalizing e with
  | nil => simp
  | cons field fields ih =>
    rw [List.foldl_cons, ih, addField, addFieldInternal]
    simp only [List.flatMap_cons, List.append_assoc, List.length_cons]
    congr 1
    omega

/-- What `addHeader` and the `addField` calls leave in the encoder. -/
theorem buffer_foldl_addHeader (e : FixEncoder) (beginString msgType : Bytes)
    (fields : List (Tag × FieldValue)) :
    fields.foldl addField (e.addHeader beginString msgType)
      = { buffer := head beginString
            ++ (line FIXField.bodyLength (ascii "00000") ++ body msgType fields)
          bodyLengthPos := (head beginString).length
          fieldCount := 3 + fields.length
          hasBodyLength := true
          hasChecksum := false } := by
  rw [foldl_addField]
  simp only [addHeader, reset, addFieldInternal, head, body, List.nil_append, List.append_assoc]

/-- The encoder that the second patch of `finalize` meets. -/
def drafted (beginString msgType : Bytes) (fields : List (Tag × FieldValue)) : FixEncoder where
  buffer := draft (head beginString) (body msgType fields)
  bodyLengthPos := (head beginString).length
  fieldCount := 4 + fields.length
  hasBodyLength := true
  hasChecksum := true

/-- What is left to do is the second patch; its position was taken before the first one. -/
theorem encode_eq (e : FixEncoder) {beginString : Bytes} (hbegin : soh ∉ beginString)
    (msgType : Bytes) (fields : List (Tag × FieldValue)) :
    e.encode beginString msgType fields
      = (drafted beginString msgType fields).replaceFieldValue
          ((head beginString).length + (8 + (body msgType fields).length))
          (List.leftpad 3 48 (decimal (byteSum
            (((draft (head beginString) (body msgType fields)).drop
              (head beginString).length).take (8 + (body msgType fields).length))))) := by
  have hfirst : seek (head beginString
        ++ (line FIXField.bodyLength (ascii "00000") ++ body msgType fields)) soh 0 + 1
      = (head beginString).length := by
    have hfound := seek_eq [] (line FIXField.bodyLength (ascii "00000") ++ body msgType fields)
      (@soh_notMem_fieldText (FIXField.beginString, beginString) hbegin)
    rw [List.nil_append, List.length_nil, Nat.zero_add] at hfound
    rw [head, line, List.append_assoc, List.singleton_append, hfound, List.length_append]
    rfl
  have hlength : (head beginString
        ++ (line FIXField.bodyLength (ascii "00000") ++ body msgType fields)).length
      = (head beginString).length + (8 + (body msgType fields).length) := by
    rw [List.length_append, List.length_append]
    congr 2
  -- the length is patched into the five zeros
  have hzeros : (fields.foldl addField (e.addHeader beginString msgType)).buffer
      = head beginString
        ++ (ascii "9" ++ equals :: (ascii "00000" ++ soh :: body msgType fields)) := by
    rw [buffer_foldl_addHeader, line_bodyLength]
    simp only [List.append_assoc, List.cons_append, List.nil_append]
  have hpatch := replaceFieldValue_eq (lengthText (body msgType fields)) hzeros (by decide)
    (by decide)
  rw [buffer_foldl_addHeader] at hpatch
  have hdraft : head beginString ++ (ascii "9" ++ equals :: (lengthText (body msgType fields)
        ++ soh :: body msgType fields)) ++ line FIXField.checkSum (ascii "000")
      = draft (head beginString) (body msgType fields) := by
    rw [draft, line_bodyLength]
    simp only [List.append_assoc, List.cons_append, List.nil_append]
  rw [encode, finalize, buffer_foldl_addHeader]
  dsimp only
  rw [if_neg (by decide), hfirst, hlength, Nat.add_sub_cancel_left, ← lengthText, hpatch]
  dsimp only [Except.bind, addFieldInternal]
  rw [hdraft, calculateChecksum, Nat.add_sub_cancel_left, drafted, Nat.add_right_comm]

/-! ## Digits of the length -/

theorem length_decimal_le_iff {n k : ℕ} (hk : 0 < k) : (decimal n).length ≤ k ↔ n < 10 ^ k := by
  rw [decimal, List.length_map]
  exact Nat.length_toDigits_le_iff (by decide) hk

/-- The body has at least the four bytes of an empty field 35. -/
theorem le_length_body (msgType : Bytes) (fields : List (Tag × FieldValue)) :
    4 ≤ (body msgType fields).length := by
  have htag : decimalInt FIXField.msgType.val ++ [equals] = ascii "35=" := by decide
  have hthree : (ascii "35=").length = 3 := by decide
  rw [body, line, fieldText_eq htag]
  simp only [List.length_append, List.length_singleton, hthree]
  omega

/-- The digits of the length fit in front of the remembered position. -/
theorem length_lengthText_le {text : Bytes} (htext : 4 ≤ text.length) :
    (lengthText text).length ≤ 5 + text.length := by
  have hpow : text.length < 10 ^ text.length := Nat.lt_pow_self (by decide)
  have hdigits : (decimal (8 + text.length)).length ≤ 5 + text.length := by
    rw [length_decimal_le_iff (by omega), Nat.pow_add]
    omega
  rw [lengthText, List.length_take]
  omega

/-- Eight bytes more are another number, even if it is cut off after 15 digits. -/
theorem lengthText_ne (text : Bytes) : lengthText text ≠ decimal text.length := by
  intro h
  unfold lengthText at h
  have hcut : (decimal text.length).length ≤ 15 := by
    rw [← h, List.length_take]
    omega
  have hsmall : text.length < 10 ^ 15 := (length_decimal_le_iff (by decide)).mp hcut
  by_cases hfit : (decimal (8 + text.length)).length ≤ 15
  · rw [List.take_of_length_le hfit] at h
    have hread := congrArg readDigits h
    rw [readDigits_decimal, readDigits_decimal] at hread
    omega
  · -- one digit too many: what is left is a tenth of the number
    have hlarge : 10 ^ 15 ≤ 8 + text.length := by
      rwa [length_decimal_le_iff (by decide), not_lt] at hfit
    have htenth : (decimal ((8 + text.length) / 10)).length ≤ 15 :=
      (length_decimal_le_iff (by decide)).mpr (by omega)
    rw [decimal_of_le (by omega)] at h hfit
    rw [List.length_append, List.length_singleton] at hfit
    rw [List.take_left' (by omega)] at h
    have hread := congrArg readDigits h
    rw [readDigits_decimal, readDigits_decimal] at hread
    omega

/-! ## The message -/

/-- The message that is asked for: field 9 counts the bytes between field 9 and field 10, and
field 10 is the sum of all bytes before it modulo 256. -/
def message (head body : Bytes) : Bytes :=
  let text := head ++ (line FIXField.bodyLength (decimal body.length) ++ body)
  text ++ line FIXField.checkSum (threeDigits ((text.map UInt8.toNat).sum % 256))

/-- `finalize` does not throw and leaves that message. -/
def Writes (e : FixEncoder) (beginString msgType : Bytes) (fields : List (Tag × FieldValue)) :
    Prop :=
  ∃ e', e.encode beginString msgType fields = .ok e' ∧
    e'.buffer = message (head beginString) (body msgType fields)

/-- The draft up to the remembered position: field 8, field 9 and more. -/
theorem take_draft (head : Bytes) {text : Bytes} (htext : 4 ≤ text.length) :
    ∃ more, (draft head text).take (head.length + (8 + text.length))
      = head ++ (ascii "9" ++ equals :: (lengthText text ++ soh :: more)) := by
  have hdigits := length_lengthText_le htext
  have hnine : (ascii "9" ++ equals :: (lengthText text ++ [soh])).length
      = 3 + (lengthText text).length := by
    have hone : (ascii "9").length = 1 := by decide
    rw [List.length_append, List.length_cons, List.length_append, List.length_singleton, hone]
    omega
  obtain ⟨k, hk⟩ := Nat.exists_eq_add_of_le
    (show 3 + (lengthText text).length ≤ 8 + text.length by omega)
  refine ⟨(text ++ line FIXField.checkSum (ascii "000")).take k, ?_⟩
  rw [draft, line_bodyLength, List.take_length_add_append, hk, ← hnine,
    List.take_length_add_append]
  simp only [List.append_assoc, List.cons_append, List.nil_append]

theorem length_draft (head text : Bytes) :
    (draft head text).length = head.length + (lengthText text).length + text.length + 10 := by
  have hnine : (ascii "9").length = 1 := by decide
  have hsum : (line FIXField.checkSum (ascii "000")).length = 7 := by decide
  rw [draft, line_bodyLength]
  simp only [List.length_append, List.length_cons, List.length_nil, hnine, hsum]
  omega

/-- The remembered position is inside the draft. -/
theorem position_le_drafted (beginString msgType : Bytes) (fields : List (Tag × FieldValue)) :
    (head beginString).length + (8 + (body msgType fields).length)
      ≤ (drafted beginString msgType fields).buffer.length := by
  have htext := le_length_body msgType fields
  rw [drafted, length_draft]
  omega

/-- **The length is always wrong**: it counts field 9 as well. -/
theorem not_writes (e : FixEncoder) {beginString : Bytes} (hbegin : soh ∉ beginString)
    (msgType : Bytes) (fields : List (Tag × FieldValue)) :
    ¬ e.Writes beginString msgType fields := by
  rintro ⟨e', hok, hbuffer⟩
  have htext := le_length_body msgType fields
  have hinside := position_le_drafted beginString msgType fields
  rw [encode_eq e hbegin] at hok
  rcases replaceFieldValue_cases _ hinside _ with ⟨stretch, old, rest, -, hpatch⟩ | ⟨-, hthrow⟩
  · rw [hpatch] at hok
    injection hok with hok
    obtain ⟨more, htake⟩ := take_draft (head beginString) htext
    -- both texts start with field 8 and `9=`; then one has a length, the other has another
    rw [← hok] at hbuffer
    dsimp only [drafted] at hbuffer
    rw [htake, message, line_bodyLength] at hbuffer
    simp only [List.append_assoc, List.cons_append, List.nil_append] at hbuffer
    have hvalues := (List.cons.inj (List.append_cancel_left
      (List.append_cancel_left hbuffer))).2
    refine lengthText_ne _ (Framing.piece_inj ?_ (soh_notMem_decimal _) hvalues).1
    exact fun hmem => soh_notMem_decimal _ (List.mem_of_mem_take hmem)
  · rw [hthrow] at hok
    cases hok

/-- An encoder before its first message. -/
def unused : FixEncoder := ⟨[], 0, 0, false, false⟩

/-- The same for a message without added fields. -/
theorem not_writes_logon : ¬ unused.Writes (ascii "FIX.4.4") (ascii "A") [] :=
  not_writes unused (by decide) (ascii "A") []

/-- The fields of the new order that `main` encodes. -/
def newOrder : List (Tag × FieldValue) :=
  [(FIXField.senderCompID, .text (ascii "CLIENT")), (FIXField.targetCompID, .text (ascii "BROKER")),
    (FIXField.msgSeqNum, .integer 123), (FIXField.sendingTime, .text (ascii "20230726-12:34:56")),
    (FIXField.symbol, .text (ascii "IBM")), (FIXField.side, .integer 1),
    (⟨60, by decide⟩, .text (ascii "20230726-12:34:56")),
    (FIXField.clOrdID, .text (ascii "ORDER123")), (FIXField.orderQty, .integer 100),
    (FIXField.ordType, .integer 2), (FIXField.price, .floating (ascii "150.50"))]

/-- The new order of `main`: 120 bytes stand between field 9 and field 10, and field 9 says
128; the bytes before field 10 add up to 48, and field 10 says 120. -/
theorem not_writes_newOrder : ¬ unused.Writes (ascii "FIX.4.4") (ascii "D") newOrder := by
  rintro ⟨e', hok, hbuffer⟩
  have htext : ((unused.encode (ascii "FIX.4.4") (ascii "D") newOrder).toOption.map buffer)
      = some (message (head (ascii "FIX.4.4")) (body (ascii "D") newOrder)) := by
    rw [hok, ← hbuffer]
    rfl
  revert htext
  decide +kernel

/-! ## Whether `finalize` throws -/

/-- The draft in front of the `=` of field 10. -/
theorem draft_eq (head text : Bytes) :
    ∃ front : Bytes, draft head text = front ++ equals :: (ascii "000" ++ [soh]) ∧
      front.length = head.length + (lengthText text).length + text.length + 5 := by
  refine ⟨head ++ (line FIXField.bodyLength (lengthText text) ++ (text ++ ascii "10")), ?_, ?_⟩
  · rw [draft, line_checkSum]
    simp only [List.append_assoc]
  · have hnine : (ascii "9").length = 1 := by decide
    have hten : (ascii "10").length = 2 := by decide
    rw [line_bodyLength]
    simp only [List.length_append, List.length_cons, List.length_nil, hnine, hten]
    omega

/-- **`finalize` throws** exactly when the length has two digits: the remembered position is
then behind the `=` of field 10. -/
theorem encode_isOk_iff (e : FixEncoder) {beginString : Bytes} (hbegin : soh ∉ beginString)
    (msgType : Bytes) (fields : List (Tag × FieldValue)) :
    (∃ e', e.encode beginString msgType fields = .ok e') ↔
      100 ≤ 8 + (body msgType fields).length := by
  have htext := le_length_body msgType fields
  have hinside := position_le_drafted beginString msgType fields
  obtain ⟨front, hdraft, hfront⟩ := draft_eq (head beginString) (body msgType fields)
  have hlength : (lengthText (body msgType fields)).length
      = min 15 (decimal (8 + (body msgType fields).length)).length := List.length_take
  have hone : (decimal (8 + (body msgType fields).length)).length ≤ 1 ↔ _ :=
    length_decimal_le_iff (by decide)
  have htwo : (decimal (8 + (body msgType fields).length)).length ≤ 2 ↔ _ :=
    length_decimal_le_iff (by decide)
  rw [encode_eq e hbegin]
  rcases replaceFieldValue_cases _ hinside _ with
    ⟨stretch, old, rest, hdrop, hpatch⟩ | ⟨hnone, hthrow⟩
  · rw [hpatch]
    refine ⟨fun _ => ?_, fun _ => ⟨_, rfl⟩⟩
    by_contra hshort
    -- nothing but the three zeros is left to search
    have hpos : (head beginString).length + (8 + (body msgType fields).length)
        = front.length + 1 := by omega
    rw [drafted, hpos, hdraft, List.drop_length_add_append] at hdrop
    have hmem : equals ∈ (ascii "000" ++ [soh]) := by
      have h : equals ∈ stretch ++ equals :: (old ++ soh :: rest) :=
        List.mem_append_right _ List.mem_cons_self
      rwa [← hdrop] at h
    exact absurd hmem (by decide)
  · rw [hthrow]
    refine iff_of_false (fun ⟨e', h⟩ => by cases h) fun hlong => ?_
    -- the `=` of field 10 is found at the latest, and the separator of field 10 behind it
    have hpos : (head beginString).length + (8 + (body msgType fields).length)
        ≤ front.length := by omega
    rw [drafted, hdraft, List.drop_append_of_le_length hpos] at hnone
    obtain ⟨stretch, value, hvalue, hstretch⟩ := List.eq_append_cons_of_mem
      (show equals ∈ front.drop ((head beginString).length + (8 + (body msgType fields).length))
        ++ equals :: (ascii "000" ++ [soh]) from List.mem_append_right _ List.mem_cons_self)
    have hsoh := hnone stretch value hvalue hstretch
    rw [← List.cons_append, ← List.append_assoc] at hvalue
    rcases List.eq_nil_or_concat value with rfl | ⟨value, b, rfl⟩
    · exact absurd (List.append_inj_right' hvalue rfl) (by decide)
    · rw [List.concat_eq_append, ← List.cons_append, ← List.append_assoc] at hvalue
      have hb : soh = b := List.singleton_inj.mp (List.append_inj_right' hvalue rfl)
      rw [List.concat_eq_append, hb] at hsoh
      exact hsoh (List.mem_append_right _ (List.mem_singleton_self b))

end FixEncoder
