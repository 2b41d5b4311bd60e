/-
# The order of the fields of a sent message

FIX wants fields 8, 9 and 35 in front and field 10 at the end.  `serialize` writes 8 and 9 on
its own, and then the other fields in the order of the map: field 34, which every message has,
comes before field 35.
-/
import FastServer.FixSession
import FastServer.FixValidation

namespace FIX42Protocol

open Framing

/-! ## The standard order -/

/-- The text starts with fields of these tags, in this order. -/
def BeginsWith (tags : List Tag) (text : Bytes) : Prop :=
  ∃ es rest, es.map Prod.fst = tags ∧ (∀ field ∈ es, soh ∉ field.2) ∧
    text = fieldsText es ++ rest

/-- The text is one of fields, and the last one has the tag. -/
def EndsWith (tag : Tag) (text : Bytes) : Prop :=
  ∃ es value, text = fieldsText (es ++ [(tag, value)])

/-- The order of the standard header and trailer. -/
def StandardOrder (text : Bytes) : Prop :=
  BeginsWith [FIXField.beginString, FIXField.bodyLength, FIXField.msgType] text ∧
    EndsWith FIXField.checkSum text

/-- A text starts with the tag of its first field. -/
theorem tag_eq_of_beginsWith {tag : Tag} {tags : List Tag} {field : Tag × Bytes} {rest : Bytes}
    (h : BeginsWith (tag :: tags) (fieldText field ++ soh :: rest)) : field.1 = tag := by
  obtain ⟨es, rest', htags, -, htext⟩ := h
  cases es with
  | nil => exact absurd htags.symm (List.cons_ne_nil _ _)
  | cons field' es =>
    rw [List.map_cons, List.cons.injEq] at htags
    rw [fieldsText_cons, fieldText, fieldText, List.append_assoc, List.append_assoc,
      List.append_assoc, List.cons_append, List.cons_append] at htext
    have hnumber := (piece_inj (notMem_decimalInt _).1 (notMem_decimalInt _).1 htext).1
    have htag := congrArg stoi hnumber
    rw [stoi_decimalInt, stoi_decimalInt] at htag
    exact (Option.some.inj htag).trans htags.1

/-- Behind the first field, a text starts with the other tags. -/
theorem beginsWith_of_cons {tag : Tag} {tags : List Tag} {field : Tag × Bytes} {rest : Bytes}
    (hvalue : soh ∉ field.2) (h : BeginsWith (tag :: tags) (fieldText field ++ soh :: rest)) :
    BeginsWith tags rest := by
  obtain ⟨es, rest', htags, hsoh, htext⟩ := h
  cases es with
  | nil => exact absurd htags.symm (List.cons_ne_nil _ _)
  | cons field' es =>
    rw [List.map_cons, List.cons.injEq] at htags
    rw [fieldsText_cons, List.append_assoc, List.cons_append] at htext
    have hfield' := soh_notMem_fieldText (hsoh field' List.mem_cons_self)
    refine ⟨es, rest', htags.2, fun x hx => hsoh x (List.mem_cons_of_mem _ hx), ?_⟩
    exact (piece_inj (soh_notMem_fieldText hvalue) hfield' htext).2

/-! ## What `serialize` writes -/

/-- Fields 8 and 9, the fields of the map, field 10. -/
theorem serialize_eq (msg : Message) :
    serialize msg = fieldText (FIXField.beginString, ascii "FIX.4.2")
      ++ soh :: (fieldText (FIXField.bodyLength, decimal (serializeBody msg).length)
        ++ soh :: fieldsText (msg.fields.entries.filter isBodyField
          ++ [(FIXField.checkSum, calculateChecksum (serializeHeader msg))])) := by
  rw [serialize_eq_fieldsText, writtenFields, fieldsText_cons, fieldsText_cons]

/-- **What is right**: fields 8 and 9 are in front and field 10 is at the end. -/
theorem order_serialize (msg : Message) :
    BeginsWith [FIXField.beginString, FIXField.bodyLength] (serialize msg) ∧
      EndsWith FIXField.checkSum (serialize msg) := by
  constructor
  · refine ⟨[(FIXField.beginString, ascii "FIX.4.2"),
      (FIXField.bodyLength, decimal (serializeBody msg).length)],
      fieldsText (msg.fields.entries.filter isBodyField
        ++ [(FIXField.checkSum, calculateChecksum (serializeHeader msg))]), rfl, ?_, ?_⟩
    · simp only [List.mem_cons, List.not_mem_nil, or_false]
      rintro field (rfl | rfl)
      · show soh ∉ ascii "FIX.4.2"
        decide
      · exact soh_notMem_decimal _
    · rw [serialize_eq_fieldsText, writtenFields, ← fieldsText_append]
      rfl
  · refine ⟨(FIXField.beginString, ascii "FIX.4.2")
      :: (FIXField.bodyLength, decimal (serializeBody msg).length)
      :: msg.fields.entries.filter isBodyField, calculateChecksum (serializeHeader msg), ?_⟩
    rw [serialize_eq_fieldsText, writtenFields]
    rfl

/-- The first field of the body has the smallest tag. -/
theorem exists_first_field {msg : Message} {tag : Tag} {value : Bytes}
    (hget : msg.fields.get? tag = some value) (hbody : isBodyField (tag, value) = true) :
    ∃ field rest, msg.fields.entries.filter isBodyField = field :: rest ∧
      field.1.val ≤ tag.val := by
  have hmem : (tag, value) ∈ msg.fields.entries.filter isBodyField :=
    List.mem_filter.mpr ⟨SortedMap.mem_entries_of_get? hget, hbody⟩
  have hsorted := msg.fields.sorted.filter isBodyField
  cases hfields : msg.fields.entries.filter isBodyField with
  | nil =>
    rw [hfields] at hmem
    exact absurd hmem List.not_mem_nil
  | cons field rest =>
    rw [hfields] at hmem hsorted
    refine ⟨field, rest, rfl, ?_⟩
    rcases List.mem_cons.mp hmem with heq | hlater
    · rw [← heq]
    · exact le_of_lt ((List.pairwise_cons.mp hsorted).1 _ hlater)

/-- **A message with field 34** is not in the standard order. -/
theorem not_beginsWith_of_msgSeqNum {msg : Message}
    (h : (msg.fields.get? FIXField.msgSeqNum).isSome) :
    ¬ BeginsWith [FIXField.beginString, FIXField.bodyLength, FIXField.msgType]
      (serialize msg) := by
  intro hbegins
  obtain ⟨value, hvalue⟩ := Option.isSome_iff_exists.mp h
  obtain ⟨field, rest, hfields, hle⟩ := exists_first_field hvalue rfl
  rw [serialize_eq] at hbegins
  have hbehind := beginsWith_of_cons (show soh ∉ ascii "FIX.4.2" by decide) hbegins
  have hbody := beginsWith_of_cons (soh_notMem_decimal _) hbehind
  rw [hfields, List.cons_append, fieldsText_cons] at hbody
  rw [tag_eq_of_beginsWith hbody] at hle
  exact absurd hle (by decide)

/-! ## Messages of the session -/

/-- The fields that a sender sets after `createBaseMessage`. -/
def Message.extend (msg : Message) (es : List (Tag × Bytes)) : Message :=
  ⟨es.foldl (fun fields e => fields.set e.1 e.2) msg.fields, msg.raw_data⟩

/-- No field is lost when others are set. -/
theorem isSome_get?_extend {msg : Message} {tag : Tag} (h : (msg.fields.get? tag).isSome)
    (es : List (Tag × Bytes)) : ((msg.extend es).fields.get? tag).isSome := by
  show ((es.foldl (fun fields e => fields.set e.1 e.2) msg.fields).get? tag).isSome
  generalize msg.fields = fields at h
  induction es generalizing fields with
  | nil => exact h
  | cons e es ih =>
    apply ih
    rw [Fields.get?_set]
    split_ifs
    · rfl
    · exact h

/-- Every message has a number. -/
theorem isSome_msgSeqNum_createBaseMessage (cfg : Config) (msg_type : MessageType) (seq_num : ℕ)
    (sending_time : Bytes) :
    ((createBaseMessage cfg msg_type seq_num sending_time).fields.get?
      FIXField.msgSeqNum).isSome := by
  rw [createBaseMessage, Fields.get?_set_of_ne _ (by decide), Fields.get?_set_of_ne _ (by decide),
    Fields.get?_set_self]
  rfl

/-- **No message of a session is in the standard order**, whatever its type and the fields that
are set after `createBaseMessage`. -/
theorem not_standardOrder_extend (cfg : Config) (msg_type : MessageType) (seq_num : ℕ)
    (sending_time : Bytes) (es : List (Tag × Bytes)) :
    ¬ StandardOrder
      (serialize ((createBaseMessage cfg msg_type seq_num sending_time).extend es)) := by
  rintro ⟨hbegins, -⟩
  apply not_beginsWith_of_msgSeqNum _ hbegins
  apply isSome_get?_extend
  exact isSome_msgSeqNum_createBaseMessage cfg msg_type seq_num sending_time

/-- The logon of the client. -/
def firstLogon : Outbound := ⟨.logon, 1, ascii "20240101-00:00:00.000", []⟩

/-- **Field 34 comes third** in the logon of the client, where field 35 should be. -/
theorem not_standardOrder_firstLogon :
    BeginsWith [FIXField.beginString, FIXField.bodyLength, FIXField.msgSeqNum, FIXField.msgType]
        (serialize (firstLogon.message clientConfig)) ∧
      ¬ StandardOrder (serialize (firstLogon.message clientConfig)) := by
  constructor
  · refine ⟨[(FIXField.beginString, ascii "FIX.4.2"), (FIXField.bodyLength, ascii "68"),
      (FIXField.msgSeqNum, ascii "1"), (FIXField.msgType, ascii "A")],
      (serialize (firstLogon.message clientConfig)).drop 25, rfl, by decide, ?_⟩
    decide +kernel
  · rintro ⟨hbegins, -⟩
    exact not_beginsWith_of_msgSeqNum (by decide +kernel) hbegins

end FIX42Protocol
