/-
# Which messages `validateMessage` accepts

The check sum is computed of the text before the first `10=`, wherever that is, and the
value of field 9 is not looked at.
-/
import FastServer.FixRoundTrip

namespace FIX42Protocol

open Framing

/-! ## The first occurrence of a pattern -/

section Search

variable {pat s t : Bytes} {sep : UInt8}

theorem textBefore_eq_nil (h : pat <+: s) : textBefore pat s = [] := by
  cases s with
  | nil => rfl
  | cons b s => simp [textBefore, h]

theorem textBefore_cons {b : UInt8} (h : ¬ pat <+: b :: s) :
    textBefore pat (b :: s) = b :: textBefore pat s := by
  simp [textBefore, h]

/-- The text before an occurrence stands in front. -/
theorem textBefore_isPrefix (pat s : Bytes) : textBefore pat s <+: s := by
  induction s with
  | nil => exact List.prefix_rfl
  | cons b s ih =>
    by_cases h : pat <+: b :: s
    · simp [textBefore_eq_nil h]
    · rw [textBefore_cons h]
      simpa using ih

/-- Without an occurrence it is the whole text. -/
theorem textBefore_of_notInfix (h : ¬ pat <:+: s) : textBefore pat s = s := by
  induction s with
  | nil => rfl
  | cons b s ih =>
    rw [List.infix_cons_iff, not_or] at h
    rw [textBefore_cons h.1, ih h.2]

/-- What stands behind an occurrence does not matter. -/
theorem textBefore_append_of_infix (h : pat <:+: s) (t : Bytes) :
    textBefore pat (s ++ t) = textBefore pat s := by
  induction s with
  | nil =>
    obtain rfl := List.infix_nil.mp h
    rw [textBefore_eq_nil (List.nil_prefix), textBefore_eq_nil (List.nil_prefix)]
  | cons b s ih =>
    by_cases hfront : pat <+: b :: s
    · rw [textBefore_eq_nil hfront,
        textBefore_eq_nil (hfront.trans (List.prefix_append _ _))]
    · have hlater : pat <:+: s := (List.infix_cons_iff.mp h).resolve_left hfront
      have hfront' : ¬ pat <+: b :: (s ++ t) := by
        intro hprefix
        apply hfront
        apply List.prefix_of_prefix_length_le hprefix (List.prefix_append (b :: s) t)
        exact h.length_le
      rw [List.cons_append, textBefore_cons hfront', textBefore_cons hfront, ih hlater]

/-- A pattern does not reach over a separator. -/
theorem prefix_append_sep_iff (hsep : sep ∉ pat) : pat <+: s ++ sep :: t ↔ pat <+: s := by
  constructor
  · intro h
    by_cases hlen : pat.length ≤ s.length
    · exact List.prefix_of_prefix_length_le h (List.prefix_append _ _) hlen
    · have hfront : s ++ [sep] <+: s ++ sep :: t := ⟨t, by simp⟩
      have hall : s ++ [sep] <+: pat := by
        apply List.prefix_of_prefix_length_le hfront h
        simp
        omega
      exact absurd (hall.subset (by simp)) hsep
  · intro h
    exact h.trans (List.prefix_append _ _)

/-- It occurs on one side of it. -/
theorem infix_append_sep (hsep : sep ∉ pat) (h : pat <:+: s ++ sep :: t) :
    pat <:+: s ∨ pat <:+: t := by
  induction s with
  | nil =>
    rcases List.infix_cons_iff.mp h with hfront | hlater
    · rw [← List.nil_append (sep :: t), prefix_append_sep_iff hsep] at hfront
      exact Or.inl hfront.isInfix
    · exact Or.inr hlater
  | cons b s ih =>
    rw [List.cons_append, List.infix_cons_iff, ← List.cons_append,
      prefix_append_sep_iff hsep] at h
    rcases h with hfront | hlater
    · exact Or.inl hfront.isInfix
    · exact (ih hlater).imp_left fun hs => hs.trans (List.suffix_cons b s).isInfix

/-- The search goes on behind a separator. -/
theorem textBefore_append_of_notInfix (hsep : sep ∉ pat) (h : ¬ pat <:+: s) (t : Bytes) :
    textBefore pat (s ++ sep :: t) = s ++ sep :: textBefore pat t := by
  induction s with
  | nil =>
    have hne : pat ≠ [] := by
      rintro rfl
      exact h List.nil_infix
    have hfront : ¬ pat <+: sep :: t := by
      rw [← List.nil_append (sep :: t), prefix_append_sep_iff hsep]
      simpa using hne
    rw [List.nil_append, textBefore_cons hfront, List.nil_append]
  | cons b s ih =>
    rw [List.infix_cons_iff, not_or] at h
    have hfront : ¬ pat <+: b :: (s ++ sep :: t) := by
      rw [← List.cons_append, prefix_append_sep_iff hsep]
      exact h.1
    rw [List.cons_append, textBefore_cons hfront, ih h.2, List.cons_append]

/-- The text from the first occurrence of `pat` on, or nothing. -/
def fromFirst (pat s : Bytes) : Bytes := s.drop (textBefore pat s).length

theorem textBefore_append_fromFirst (pat s : Bytes) : textBefore pat s ++ fromFirst pat s = s := by
  obtain ⟨t, ht⟩ := textBefore_isPrefix pat s
  have hdrop : fromFirst pat s = t := by
    unfold fromFirst
    generalize textBefore pat s = front at ht ⊢
    rw [← ht, List.drop_left]
  rw [hdrop, ht]

/-- What is left from the first occurrence on starts with the pattern. -/
theorem prefix_fromFirst (h : fromFirst pat s ≠ []) : pat <+: fromFirst pat s := by
  induction s with
  | nil => exact absurd List.drop_nil h
  | cons b s ih =>
    by_cases hfront : pat <+: b :: s
    · rw [fromFirst, textBefore_eq_nil hfront]
      exact hfront
    · rw [fromFirst, textBefore_cons hfront] at h ⊢
      exact ih h

theorem fromFirst_of_notInfix (h : ¬ pat <:+: s) : fromFirst pat s = [] := by
  simp [fromFirst, textBefore_of_notInfix h]

/-- Nothing is left exactly where the pattern does not occur. -/
theorem fromFirst_eq_nil_iff (hpat : pat ≠ []) : fromFirst pat s = [] ↔ ¬ pat <:+: s := by
  refine ⟨fun h => ?_, fromFirst_of_notInfix⟩
  induction s with
  | nil => exact fun hinfix => hpat (List.infix_nil.mp hinfix)
  | cons b s ih =>
    by_cases hfront : pat <+: b :: s
    · rw [fromFirst, textBefore_eq_nil hfront] at h
      exact absurd h (List.cons_ne_nil _ _)
    · rw [fromFirst, textBefore_cons hfront] at h
      rw [List.infix_cons_iff, not_or]
      exact ⟨hfront, ih h⟩

theorem fromFirst_append_of_notInfix (hsep : sep ∉ pat) (h : ¬ pat <:+: s) (t : Bytes) :
    fromFirst pat (s ++ sep :: t) = fromFirst pat t := by
  unfold fromFirst
  rw [textBefore_append_of_notInfix hsep h, List.length_append, ← List.drop_drop, List.drop_left,
    List.length_cons, List.drop_succ_cons]

end Search

/-! ## Check sums -/

/-- The sum of a text and what follows it. -/
theorem byteSum_append (s t : Bytes) : byteSum (s ++ t) = (byteSum s + byteSum t) % 256 := by
  rw [byteSum_eq, byteSum_eq, byteSum_eq, List.map_append, List.sum_append]
  omega

/-- Three digits are the digits of a number below 1000. -/
theorem readDigits_threeDigits {n : ℕ} (h : n < 1000) : readDigits (threeDigits n) = n := by
  have hdigit : ∀ d < 10, (digit d).toNat - 48 = d := by decide
  have h100 := hdigit (n / 100 % 10) (Nat.mod_lt _ (by decide))
  have h10 := hdigit (n / 10 % 10) (Nat.mod_lt _ (by decide))
  have h1 := hdigit (n % 10) (Nat.mod_lt _ (by decide))
  simp only [readDigits, threeDigits, List.foldl_cons, List.foldl_nil, h100, h10, h1]
  omega

theorem byteSum_lt (s : Bytes) : byteSum s < 1000 := by
  have h : byteSum s < 256 := Nat.mod_lt _ (by decide)
  omega

theorem calculateChecksum_eq_threeDigits (s : Bytes) :
    calculateChecksum s = threeDigits (byteSum s) :=
  leftpad_three (byteSum_lt s)

/-- The check sums of two texts agree if their sums do. -/
theorem calculateChecksum_inj {s t : Bytes} :
    calculateChecksum s = calculateChecksum t ↔ byteSum s = byteSum t := by
  rw [calculateChecksum_eq_threeDigits, calculateChecksum_eq_threeDigits]
  constructor
  · intro h
    have hread := congrArg readDigits h
    rwa [readDigits_threeDigits (byteSum_lt s), readDigits_threeDigits (byteSum_lt t)] at hread
  · intro h
    rw [h]

/-! ## The check sum of a list of fields -/

/-- What `validateMessage` searches for: the tag of the check sum and `=`. -/
def checkSumTag : Bytes := ascii "10="

theorem soh_notMem_checkSumTag : soh ∉ checkSumTag := by decide

/-- What stands in the fields from the first `10=` on sums up to a multiple of 256. -/
def Unmistaken (es : List (Tag × Bytes)) : Prop :=
  byteSum (fromFirst checkSumTag (fieldsText es)) = 0

instance : DecidablePred Unmistaken := fun es =>
  inferInstanceAs (Decidable (byteSum (fromFirst checkSumTag (fieldsText es)) = 0))

/-- **The text before the first `10=`** has the check sum of the fields if the rest of it sums up
to a multiple of 256. -/
theorem calculateChecksum_textBefore_iff (es : List (Tag × Bytes)) :
    calculateChecksum (fieldsText es) = calculateChecksum (textBefore checkSumTag (fieldsText es)) ↔
      Unmistaken es := by
  have hsplit := textBefore_append_fromFirst checkSumTag (fieldsText es)
  have hsum := byteSum_append (textBefore checkSumTag (fieldsText es))
    (fromFirst checkSumTag (fieldsText es))
  have hfront : byteSum (textBefore checkSumTag (fieldsText es)) < 256 :=
    Nat.mod_lt _ (by decide)
  have hback : byteSum (fromFirst checkSumTag (fieldsText es)) < 256 := Nat.mod_lt _ (by decide)
  rw [hsplit] at hsum
  rw [calculateChecksum_inj, hsum, Unmistaken]
  omega

/-- A text of fields is empty or ends with a separator. -/
theorem fieldsText_cases (es : List (Tag × Bytes)) :
    fieldsText es = [] ∨ ∃ s, fieldsText es = s ++ [soh] := by
  rcases List.eq_nil_or_concat es with rfl | ⟨es, field, rfl⟩
  · exact Or.inl rfl
  · right
    refine ⟨fieldsText es ++ fieldText field, ?_⟩
    simp [fieldsText]

/-- A field 10 at the end is found if there is no `10=` before it. -/
theorem textBefore_checkSum (es : List (Tag × Bytes)) (value : Bytes) :
    textBefore checkSumTag (fieldsText (es ++ [(FIXField.checkSum, value)])) =
      textBefore checkSumTag (fieldsText es) := by
  have htag : decimalInt FIXField.checkSum.val ++ [equals] = checkSumTag := by decide
  have hlast : fieldsText [(FIXField.checkSum, value)] = checkSumTag ++ (value ++ [soh]) := by
    simp [fieldsText, fieldText_eq htag]
  have hfront : textBefore checkSumTag (checkSumTag ++ (value ++ [soh])) = [] :=
    textBefore_eq_nil (List.prefix_append _ _)
  rw [fieldsText_append, hlast]
  by_cases hinfix : checkSumTag <:+: fieldsText es
  · exact textBefore_append_of_infix hinfix _
  · rw [textBefore_of_notInfix hinfix]
    rcases fieldsText_cases es with hnil | ⟨s, hs⟩
    · rw [hnil, List.nil_append, hfront]
    · have hinfix' : ¬ checkSumTag <:+: s := by
        intro h
        exact hinfix (hs ▸ h.trans (List.prefix_append _ _).isInfix)
      rw [hs, List.append_assoc, List.singleton_append,
        textBefore_append_of_notInfix soh_notMem_checkSumTag hinfix', hfront]

/-! ## Where `10=` can stand -/

/-- In a field it stands at the end of the tag or in the value. -/
theorem checkSumTag_infix_fieldText_iff (field : Tag × Bytes) :
    checkSumTag <:+: fieldText field ↔
      ascii "10" <:+ decimalInt field.1.val ∨ checkSumTag <:+: field.2 := by
  have htag : checkSumTag = ascii "10" ++ [equals] := by decide
  have hfield := (notMem_decimalInt field.1.val).1
  constructor
  · rintro ⟨front, back, h⟩
    have h : front ++ ascii "10" ++ equals :: back =
        decimalInt field.1.val ++ equals :: field.2 := by
      rw [← fieldText, ← h, htag]
      simp
    by_cases hfront : equals ∈ front
    · -- the first `=` of the field is before the occurrence
      right
      obtain ⟨x, y, rfl, hx⟩ := List.eq_append_cons_of_mem hfront
      have h : x ++ equals :: (y ++ ascii "10" ++ equals :: back) =
          decimalInt field.1.val ++ equals :: field.2 := by
        rw [← h]
        simp
      obtain ⟨-, hvalue⟩ := piece_inj hx hfield h
      exact ⟨y, back, by rw [← hvalue, htag]; simp⟩
    · left
      have hx : equals ∉ front ++ ascii "10" := by
        rw [List.mem_append, not_or]
        exact ⟨hfront, by decide⟩
      obtain ⟨hname, -⟩ := piece_inj hx hfield h
      exact ⟨front, hname⟩
  · rintro (⟨front, hfront⟩ | ⟨front, back, hvalue⟩)
    · refine ⟨front, field.2, ?_⟩
      rw [fieldText, ← hfront, htag]
      simp
    · refine ⟨decimalInt field.1.val ++ equals :: front, back, ?_⟩
      rw [fieldText, ← hvalue]
      simp

theorem fieldsText_cons (field : Tag × Bytes) (es : List (Tag × Bytes)) :
    fieldsText (field :: es) = fieldText field ++ soh :: fieldsText es := by
  simp [fieldsText]

/-- In the text of fields it stands in one of them. -/
theorem checkSumTag_infix_fieldsText {es : List (Tag × Bytes)}
    (h : checkSumTag <:+: fieldsText es) :
    ∃ field ∈ es, checkSumTag <:+: fieldText field := by
  induction es with
  | nil => exact absurd (List.infix_nil.mp h) (by decide)
  | cons field es ih =>
    rw [fieldsText_cons] at h
    rcases infix_append_sep soh_notMem_checkSumTag h with hfirst | hlater
    · exact ⟨field, List.mem_cons_self, hfirst⟩
    · obtain ⟨field', hmem, hinfix⟩ := ih hlater
      exact ⟨field', List.mem_cons_of_mem _ hmem, hinfix⟩

/-- **No mistake is possible** if no tag ends in 10 and no value contains `10=`. -/
theorem unmistaken_of_clear {es : List (Tag × Bytes)}
    (h : ∀ field ∈ es, ¬ ascii "10" <:+ decimalInt field.1.val ∧ ¬ checkSumTag <:+: field.2) :
    Unmistaken es := by
  have hnone : ¬ checkSumTag <:+: fieldsText es := by
    intro hinfix
    obtain ⟨field, hmem, hfield⟩ := checkSumTag_infix_fieldsText hinfix
    rcases (checkSumTag_infix_fieldText_iff field).mp hfield with htag | hvalue
    · exact (h field hmem).1 htag
    · exact (h field hmem).2 hvalue
  rw [Unmistaken, fromFirst_of_notInfix hnone]
  rfl

/-- A field in front without `10=` in it does not matter. -/
theorem unmistaken_cons_iff {field : Tag × Bytes} (h : ¬ checkSumTag <:+: fieldText field)
    (es : List (Tag × Bytes)) : Unmistaken (field :: es) ↔ Unmistaken es := by
  unfold Unmistaken
  rw [fieldsText_cons, fromFirst_append_of_notInfix soh_notMem_checkSumTag h]

/-! ## Messages of the peer -/

/-- What a peer session sends: its identities are those of the other end, and no value has a
separator in it. -/
structure Legitimate (ids : CompIDs) (msg : Message) : Prop where
  msgType : (msg.fields.get? FIXField.msgType).isSome
  msgSeqNum : (msg.fields.get? FIXField.msgSeqNum).isSome
  sendingTime : (msg.fields.get? FIXField.sendingTime).isSome
  sender : msg.fields.get? FIXField.senderCompID = some ids.target_comp_id
  target : msg.fields.get? FIXField.targetCompID = some ids.sender_comp_id
  values : ∀ field ∈ msg.fields.entries, soh ∉ field.2

/-- The fields that are read back, with any tag. -/
theorem get?_readFields (msg : Message) (tag : Tag) :
    (readFields msg).get? tag =
      if tag = FIXField.checkSum then some (calculateChecksum (serializeHeader msg))
      else if tag = FIXField.bodyLength then some (decimal (serializeBody msg).length)
      else if tag = FIXField.beginString then some (ascii "FIX.4.2")
      else msg.fields.get? tag := by
  rw [readFields, Fields.get?_set, Fields.get?_set, Fields.get?_set]

/-- The fields of the body are those of the message. -/
theorem get?_readFields_of_ne {msg : Message} {tag : Tag}
    (h : tag ≠ FIXField.beginString ∧ tag ≠ FIXField.bodyLength ∧ tag ≠ FIXField.checkSum) :
    (readFields msg).get? tag = msg.fields.get? tag := by
  rw [get?_readFields, if_neg h.2.2, if_neg h.2.1, if_neg h.1]

/-- Fields 8 and 9 contain no `10=`. -/
theorem unmistaken_header_iff (n : ℕ) (es : List (Tag × Bytes)) :
    Unmistaken ((FIXField.beginString, ascii "FIX.4.2") :: (FIXField.bodyLength, decimal n) :: es) ↔
      Unmistaken es := by
  have hbegin : ¬ checkSumTag <:+: fieldText (FIXField.beginString, ascii "FIX.4.2") := by
    decide +kernel
  have hlength : ¬ checkSumTag <:+: fieldText (FIXField.bodyLength, decimal n) := by
    rw [checkSumTag_infix_fieldText_iff]
    have htag : ¬ ascii "10" <:+ decimalInt FIXField.bodyLength.val := by decide +kernel
    rintro (hsuffix | hvalue)
    · exact htag hsuffix
    · have hequals : equals ∈ decimal n := hvalue.subset (by decide)
      exact absurd (isDigit_of_mem_decimal hequals) (by decide)
  rw [unmistaken_cons_iff hbegin, unmistaken_cons_iff hlength]

/-- The conditions of `validateMessage`. -/
theorem validateMessage_iff {ids : CompIDs} {msg : Message} :
    validateMessage ids msg = true ↔
      (∀ tag ∈ requiredFields, (msg.fields.get? tag).isSome) ∧
      msg.fields.get? FIXField.beginString = some (ascii "FIX.4.2") ∧
      msg.fields.get? FIXField.senderCompID = some ids.target_comp_id ∧
      msg.fields.get? FIXField.targetCompID = some ids.sender_comp_id ∧
      msg.fields.get? FIXField.checkSum =
        some (calculateChecksum (textBefore checkSumTag msg.raw_data)) := by
  simp only [validateMessage, Bool.and_eq_true, List.all_eq_true, decide_eq_true_eq, and_assoc]
  rfl

/-- **What is accepted of the messages a peer sends** are those whose fields, from the first `10=`
in them on, sum up to a multiple of 256. -/
theorem validates_serialize_iff {ids : CompIDs} {msg : Message} (h : Legitimate ids msg) :
    validateMessage ids (deserialize (serialize msg)).2 = true ↔
      Unmistaken (msg.fields.entries.filter isBodyField) := by
  have hfields := fields_deserialize_serialize h.values
  have hraw : (deserialize (serialize msg)).2.raw_data = serialize msg := rfl
  have hbefore : textBefore checkSumTag (serialize msg) =
      textBefore checkSumTag (serializeHeader msg) := by
    rw [serialize_eq_fieldsText, serializeHeader_eq_fieldsText, writtenFields,
      ← List.cons_append, ← List.cons_append, textBefore_checkSum]
  have hsum : (readFields msg).get? FIXField.checkSum =
      some (calculateChecksum (serializeHeader msg)) := by
    rw [readFields, Fields.get?_set_self]
  rw [validateMessage_iff, hfields, hraw, hbefore, hsum, Option.some_inj,
    ← unmistaken_header_iff (serializeBody msg).length, ← calculateChecksum_textBefore_iff,
    ← serializeHeader_eq_fieldsText]
  constructor
  · rintro ⟨-, -, -, -, heq⟩
    exact heq
  · intro heq
    refine ⟨?_, ?_, ?_, ?_, heq⟩
    · intro tag htag
      simp only [requiredFields, List.mem_cons, List.not_mem_nil, or_false] at htag
      rcases htag with rfl | rfl | rfl | rfl | rfl | rfl | rfl | rfl
      · rw [get?_readFields]
        rfl
      · rw [get?_readFields]
        rfl
      · rw [get?_readFields_of_ne (by decide)]
        exact h.msgType
      · rw [get?_readFields_of_ne (by decide), h.sender]
        rfl
      · rw [get?_readFields_of_ne (by decide), h.target]
        rfl
      · rw [get?_readFields_of_ne (by decide)]
        exact h.msgSeqNum
      · rw [get?_readFields_of_ne (by decide)]
        exact h.sendingTime
      · rw [hsum]
        rfl
    · rw [get?_readFields]
      rfl
    · rw [get?_readFields_of_ne (by decide), h.sender]
    · rw [get?_readFields_of_ne (by decide), h.target]

/-- The two ends of a session. -/
def sampleIDs : CompIDs := ⟨ascii "US", ascii "PEER"⟩

/-- An order of the peer. -/
def sampleOrder : Message :=
  ⟨((((Fields.empty.set FIXField.msgType (ascii "D")).set FIXField.msgSeqNum (ascii "2")).set
    FIXField.sendingTime (ascii "20240102-09:30:00")).set FIXField.senderCompID (ascii "PEER")).set
    FIXField.targetCompID (ascii "US"), []⟩

/-- An order with a minimum quantity, field 110. -/
def minQtyOrder : Message := ⟨sampleOrder.fields.set ⟨110, by decide⟩ (ascii "5"), []⟩

theorem legitimate_sampleOrder : Legitimate sampleIDs sampleOrder :=
  ⟨by decide +kernel, by decide +kernel, by decide +kernel, by decide +kernel, by decide +kernel,
    by decide +kernel⟩

/-- The order is accepted. -/
theorem validates_serialize_sampleOrder :
    validateMessage sampleIDs (deserialize (serialize sampleOrder)).2 = true :=
  (validates_serialize_iff legitimate_sampleOrder).mpr (by decide +kernel)

/-- **A legitimate order is rejected**: the check sum is computed of the text before the `10=` of
`110=5`. -/
theorem not_validates_minQtyOrder :
    Legitimate sampleIDs minQtyOrder ∧
      validateMessage sampleIDs (deserialize (serialize minQtyOrder)).2 = false := by
  have hlegitimate : Legitimate sampleIDs minQtyOrder :=
    ⟨by decide +kernel, by decide +kernel, by decide +kernel, by decide +kernel,
      by decide +kernel, by decide +kernel⟩
  exact ⟨hlegitimate, by decide +kernel⟩

/-! ## Intact messages -/

/-- The value of the last field 9 is the number of bytes behind it. -/
def LengthRight (es : List (Tag × Bytes)) : Prop :=
  ∃ before value after, es = before ++ (FIXField.bodyLength, value) :: after ∧
    (∀ field ∈ after, field.1 ≠ FIXField.bodyLength) ∧
    value ≠ [] ∧ (∀ b ∈ value, isDigit b = true) ∧ readDigits value = (fieldsText after).length

/-- A text that consists of the fields `es` and a field 10 at the end, with the right length
in its last field 9. -/
structure Framed (raw : Bytes) (es : List (Tag × Bytes)) (value : Bytes) : Prop where
  text : raw = fieldsText (es ++ [(FIXField.checkSum, value)])
  separated : ∀ field ∈ es, soh ∉ field.2
  last : soh ∉ value
  length : LengthRight es

/-- An intact message: the value of the field 10 at the end is the sum of all bytes before that
field modulo 256, in three digits. -/
def Intact (raw : Bytes) : Prop :=
  ∃ es, Framed raw es (threeDigits (((fieldsText es).map UInt8.toNat).sum % 256))

/-- What `deserialize` and `validateMessage` accept. -/
def Accepted (ids : CompIDs) (raw : Bytes) : Prop :=
  (deserialize raw).1 = true ∧ validateMessage ids (deserialize raw).2 = true

instance (ids : CompIDs) : DecidablePred (Accepted ids) := fun raw =>
  inferInstanceAs (Decidable ((deserialize raw).1 = true ∧
    validateMessage ids (deserialize raw).2 = true))

/-- No value has a separator in it. -/
theorem Framed.separated_append {raw value : Bytes} {es : List (Tag × Bytes)}
    (h : Framed raw es value) :
    ∀ field ∈ es ++ [(FIXField.checkSum, value)], soh ∉ field.2 := by
  intro field hfield
  rcases List.mem_append.mp hfield with hmem | hmem
  · exact h.separated field hmem
  · obtain rfl := List.mem_singleton.mp hmem
    exact h.last

/-- Field 10 at the end is the one that is read. -/
theorem Framed.get?_checkSum {raw value : Bytes} {es : List (Tag × Bytes)}
    (h : Framed raw es value) :
    (deserialize raw).2.fields.get? FIXField.checkSum = some value := by
  rw [h.text, deserialize_fieldsText h.separated_append, SortedMap.get?_assignAll,
    List.filter_append]
  simp

/-- The value of that field is the check sum of the text before the first `10=`. -/
theorem Framed.value_eq {ids : CompIDs} {raw value : Bytes} {es : List (Tag × Bytes)}
    (h : Framed raw es value) (haccepted : Accepted ids raw) :
    value = calculateChecksum (textBefore checkSumTag (fieldsText es)) := by
  obtain ⟨-, -, -, -, hsum⟩ := validateMessage_iff.mp haccepted.2
  have hraw : (deserialize raw).2.raw_data = raw := rfl
  rw [h.get?_checkSum, hraw, h.text, textBefore_checkSum] at hsum
  exact Option.some.inj hsum

/-- **An accepted text is intact if and only if** it consists of fields up to a field 10, with the
right length in field 9, and what stands in the fields from the first `10=` on sums up to a
multiple of 256. -/
theorem intact_iff {ids : CompIDs} {raw : Bytes} (h : Accepted ids raw) :
    Intact raw ↔ ∃ es value, Framed raw es value ∧ Unmistaken es := by
  constructor
  · rintro ⟨es, hframed⟩
    have hvalue := hframed.value_eq h
    rw [← calculateChecksum_eq, calculateChecksum_textBefore_iff] at hvalue
    exact ⟨es, _, hframed, hvalue⟩
  · rintro ⟨es, value, hframed, hsum⟩
    have hvalue := hframed.value_eq h
    rw [← (calculateChecksum_textBefore_iff es).mpr hsum, calculateChecksum_eq] at hvalue
    subst hvalue
    exact ⟨es, hframed⟩

/-- **What `serialize` writes** is framed. -/
theorem framed_serialize {msg : Message} (h : ∀ field ∈ msg.fields.entries, soh ∉ field.2) :
    Framed (serialize msg) ((FIXField.beginString, ascii "FIX.4.2")
      :: (FIXField.bodyLength, decimal (serializeBody msg).length)
      :: msg.fields.entries.filter isBodyField) (calculateChecksum (serializeHeader msg)) := by
  have hall := soh_notMem_writtenFields h
  unfold writtenFields at hall
  rw [← List.cons_append, ← List.cons_append] at hall
  refine ⟨?_, ?_, ?_, ?_⟩
  · rw [serialize_eq_fieldsText]
    rfl
  · intro field hfield
    exact hall field (List.mem_append_left _ hfield)
  · exact hall (FIXField.checkSum, _) (List.mem_append_right _ List.mem_cons_self)
  · refine ⟨[(FIXField.beginString, ascii "FIX.4.2")], _, _, rfl, ?_, decimal_ne_nil _, ?_, ?_⟩
    · intro field hfield heq
      have hbody := of_decide_eq_true (List.mem_filter.mp hfield).2
      exact hbody.2.1 heq
    · intro b hb
      exact isDigit_of_mem_decimal hb
    · rw [readDigits_decimal]
      rfl

/-! ## Accepted and not intact -/

/-- Field 9 is read too. -/
theorem Framed.exists_bodyLength {raw value : Bytes} {es : List (Tag × Bytes)}
    (h : Framed raw es value) :
    ∃ length ∈ (deserialize raw).2.fields.get? FIXField.bodyLength,
      readDigits length ≤ raw.length := by
  obtain ⟨before, length, after, hes, hafter, -, -, hlength⟩ := h.length
  have hne : FIXField.checkSum ≠ FIXField.bodyLength := by decide
  have hnone : after.filter (fun field => field.1 = FIXField.bodyLength) = [] := by
    simpa using hafter
  have hfound : (deserialize raw).2.fields.get? FIXField.bodyLength = some length := by
    rw [h.text, deserialize_fieldsText h.separated_append, SortedMap.get?_assignAll, hes]
    simp [List.filter_append, hnone, hne]
  refine ⟨length, hfound, ?_⟩
  rw [hlength, h.text, hes]
  simp only [fieldsText, List.flatMap_append, List.flatMap_cons, List.length_append]
  omega

/-- An intact message ends with a check sum. -/
theorem Intact.exists_checkSum {raw : Bytes} (h : Intact raw) :
    ∃ front digits : Bytes, raw = front ++ (checkSumTag ++ digits ++ [soh]) ∧
      digits.length = 3 := by
  obtain ⟨es, hframed⟩ := h
  have htag : decimalInt FIXField.checkSum.val ++ [equals] = checkSumTag := by decide
  refine ⟨fieldsText es, threeDigits (((fieldsText es).map UInt8.toNat).sum % 256), ?_, rfl⟩
  rw [hframed.text, fieldsText_append, fieldsText, fieldsText, List.flatMap_singleton,
    fieldText_eq htag]

/-- The order with 999 for its length, and the check sum of that. -/
def wrongLength : Bytes :=
  let es := (FIXField.beginString, ascii "FIX.4.2") :: (FIXField.bodyLength, ascii "999")
    :: sampleOrder.fields.entries
  fieldsText (es ++ [(FIXField.checkSum, calculateChecksum (fieldsText es))])

/-- The order with a price behind its check sum. -/
def trailingPrice : Bytes := serialize sampleOrder ++ fieldText (FIXField.price, ascii "1") ++ [soh]

/-- **Two messages that are accepted and not intact.** -/
theorem not_intact_wrongLength_trailingPrice :
    (Accepted sampleIDs wrongLength ∧ ¬ Intact wrongLength) ∧
      Accepted sampleIDs trailingPrice ∧ ¬ Intact trailingPrice := by
  refine ⟨⟨by decide +kernel, ?_⟩, by decide +kernel, ?_⟩
  · rintro ⟨es, hframed⟩
    obtain ⟨length, hfound, hle⟩ := hframed.exists_bodyLength
    have hread : (deserialize wrongLength).2.fields.get? FIXField.bodyLength = some (ascii "999") ∧
        wrongLength.length < readDigits (ascii "999") := by decide +kernel
    obtain rfl := Option.some.inj (hread.1.symm.trans hfound)
    omega
  · intro hintact
    obtain ⟨front, digits, hraw, hdigits⟩ := hintact.exists_checkSum
    have hlength : trailingPrice.length = front.length + 7 := by
      rw [hraw]
      simp [hdigits, checkSumTag, ascii]
    have hend : (trailingPrice.drop (trailingPrice.length - 7)).take 3 = checkSumTag := by
      rw [hlength, Nat.add_sub_cancel, hraw, List.drop_left, List.append_assoc]
      exact List.take_left' rfl
    exact absurd hend (by decide +kernel)

/-- The order as `serialize` writes it is intact. -/
theorem intact_sampleOrder : Intact (serialize sampleOrder) := by
  have haccepted : Accepted sampleIDs (serialize sampleOrder) := by decide +kernel
  exact (intact_iff haccepted).mpr
    ⟨_, _, framed_serialize (by decide +kernel), by decide +kernel⟩

end FIX42Protocol
