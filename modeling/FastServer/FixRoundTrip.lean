/-
# A message written and read back

`deserialize` inverts `serialize`, up to the three fields that `serialize` writes
itself: no value contains the separator, no tag contains `=`, so every piece of the
text is a field of the message.
-/
import FastServer.FixMessage

namespace FIX42Protocol

open Framing

/-! ## The check sum -/

/-- The sum of the bytes, as it is computed: `2^32` is a multiple of 256. -/
theorem byteSum_eq (msg : Bytes) : byteSum msg = (msg.map UInt8.toNat).sum % 256 := by
  have hfold : ∀ (msg : Bytes) (k : ℕ),
      msg.foldl (fun sum c => (sum + c.toNat) % 2 ^ 32) k % 256
        = (k + (msg.map UInt8.toNat).sum) % 256 := by
    intro msg
    induction msg with
    | nil => intro k; rfl
    | cons c msg ih =>
      intro k
      rw [List.foldl_cons, ih, List.map_cons, List.sum_cons]
      omega
  rw [byteSum, hfold, Nat.zero_add]

/-- **The check sum** is the sum of the bytes modulo 256, in three digits. -/
theorem calculateChecksum_eq (msg : Bytes) :
    calculateChecksum msg = threeDigits ((msg.map UInt8.toNat).sum % 256) := by
  rw [calculateChecksum, byteSum_eq, leftpad_three]
  omega

/-! ## One field -/

/-- A sign and digits are neither `=` nor the separator. -/
theorem notMem_decimalInt (z : ℤ) : equals ∉ decimalInt z ∧ soh ∉ decimalInt z := by
  constructor
  · intro h
    rcases mem_decimalInt h with h | h
    · exact absurd h (by decide)
    · exact absurd h (by decide)
  · intro h
    rcases mem_decimalInt h with h | h
    · exact absurd h (by decide)
    · exact absurd h (by decide)

/-- A number made of digits only does not contain the separator. -/
theorem soh_notMem_decimal (n : ℕ) : soh ∉ decimal n :=
  soh_notMem_of_isDigit fun _ => isDigit_of_mem_decimal

theorem soh_notMem_threeDigits (n : ℕ) : soh ∉ threeDigits n := by
  have hdigit : ∀ d < 10, soh ≠ digit d := by decide
  intro h
  simp only [threeDigits, List.mem_cons, List.not_mem_nil, or_false] at h
  rcases h with h | h | h
  · exact hdigit _ (Nat.mod_lt _ (by decide)) h
  · exact hdigit _ (Nat.mod_lt _ (by decide)) h
  · exact hdigit _ (Nat.mod_lt _ (by decide)) h

/-- The text of a field does not contain a separator, if its value does not: a tag has only a
sign and digits. -/
theorem sep_notMem_fieldText {sep : UInt8} (hsep : sep ≠ equals) (htag : ∀ z, sep ∉ decimalInt z)
    {field : Tag × Bytes} (h : sep ∉ field.2) : sep ∉ fieldText field := by
  rw [fieldText, List.mem_append, List.mem_cons]
  rintro (hmem | heq | hmem)
  · exact htag _ hmem
  · exact hsep heq
  · exact h hmem

theorem soh_notMem_fieldText {field : Tag × Bytes} (h : soh ∉ field.2) :
    soh ∉ fieldText field :=
  sep_notMem_fieldText (by decide) (fun z => (notMem_decimalInt z).2) h

/-- **A text of fields**, each with a separator behind it, is cut into them. -/
theorem pieces_fieldText {sep : UInt8} (hsep : sep ≠ equals) (htag : ∀ z, sep ∉ decimalInt z)
    {es : List (Tag × Bytes)} (h : ∀ field ∈ es, sep ∉ field.2) :
    pieces sep (es.flatMap fun field => fieldText field ++ [sep]) = (es.map fieldText, []) := by
  have hmap : (es.flatMap fun field => fieldText field ++ [sep])
      = (es.map fieldText).flatMap fun text => text ++ [sep] := by
    rw [List.flatMap_map]
  rw [hmap]
  refine pieces_flatMap fun text htext => ?_
  obtain ⟨field, hfield, rfl⟩ := List.mem_map.mp htext
  exact sep_notMem_fieldText hsep htag (h field hfield)

/-- `std::stoi` reads every tag that `std::to_string` writes, negative ones too. -/
theorem stoi_decimalInt (tag : Tag) : stoi (decimalInt tag.val) = some tag := by
  rw [stoi, readInt_decimalInt, Option.bind_some, dif_pos tag.property]
  rfl

/-- The first `=` of a field is the one behind the tag, so the value may contain others, and it
may be empty. -/
theorem cutAt_fieldText (field : Tag × Bytes) :
    cutAt equals (fieldText field) = .message (decimalInt field.1.val) field.2 :=
  cutAt_piece (notMem_decimalInt field.1.val).1 field.2

/-- **A field is read back.** -/
theorem readField_fieldText (fields : Fields) (field : Tag × Bytes) :
    readField fields (fieldText field) = fields.set field.1 field.2 := by
  simp only [readField, cutAt_fieldText, stoi_decimalInt]

/-! ## The whole text -/

/-- The text of a list of fields. -/
def fieldsText (es : List (Tag × Bytes)) : Bytes := es.flatMap fun field => fieldText field ++ [soh]

/-- **A text of fields** is read as the assignment of one after the other. -/
theorem deserialize_fieldsText {es : List (Tag × Bytes)} (h : ∀ field ∈ es, soh ∉ field.2) :
    (deserialize (fieldsText es)).2.fields = Fields.empty.assignAll [] es := by
  have hpieces : pieces soh (fieldsText es) = (es.map fieldText, []) :=
    pieces_fieldText (by decide) (fun z => (notMem_decimalInt z).2) h
  have hread : ∀ (es : List (Tag × Bytes)) (fields : Fields),
      (es.map fieldText).foldl readField fields = fields.assignAll [] es := by
    intro es
    induction es with
    | nil => intro fields; rfl
    | cons field es ih =>
      intro fields
      rw [List.map_cons, List.foldl_cons, readField_fieldText, ih]
      rfl
  show (pieces soh (fieldsText es)).1.foldl readField Fields.empty = _
  rw [hpieces]
  exact hread es Fields.empty

/-- The fields that `serialize` writes. -/
def writtenFields (msg : Message) : List (Tag × Bytes) :=
  (FIXField.beginString, ascii "FIX.4.2")
    :: (FIXField.bodyLength, decimal (serializeBody msg).length)
    :: (msg.fields.entries.filter isBodyField
      ++ [(FIXField.checkSum, calculateChecksum (serializeHeader msg))])

theorem fieldsText_append (es es' : List (Tag × Bytes)) :
    fieldsText (es ++ es') = fieldsText es ++ fieldsText es' := List.flatMap_append

/-- The fields before field 10. -/
theorem serializeHeader_eq_fieldsText (msg : Message) :
    serializeHeader msg = fieldsText ((FIXField.beginString, ascii "FIX.4.2")
      :: (FIXField.bodyLength, decimal (serializeBody msg).length)
      :: msg.fields.entries.filter isBodyField) := by
  rw [serializeHeader, serializeBody]
  simp [fieldsText]

theorem serialize_eq_fieldsText (msg : Message) : serialize msg = fieldsText (writtenFields msg) := by
  have hlast : ∀ checksum, fieldText (FIXField.checkSum, checksum) ++ [soh]
      = fieldsText [(FIXField.checkSum, checksum)] := by
    intro checksum
    rw [fieldsText, List.flatMap_singleton]
  rw [serialize, hlast, writtenFields, ← List.cons_append, ← List.cons_append, fieldsText_append,
    ← serializeHeader_eq_fieldsText]

/-- The values written contain no separator, if those of the message do not. -/
theorem soh_notMem_writtenFields {msg : Message}
    (h : ∀ field ∈ msg.fields.entries, soh ∉ field.2) :
    ∀ field ∈ writtenFields msg, soh ∉ field.2 := by
  intro field hfield
  simp only [writtenFields, List.mem_cons, List.mem_append, List.not_mem_nil, or_false] at hfield
  rcases hfield with rfl | rfl | hfield | rfl
  · decide
  · exact soh_notMem_decimal _
  · exact h field (List.mem_of_mem_filter hfield)
  · rw [calculateChecksum_eq]
    exact soh_notMem_threeDigits _

/-- The fields that come out: those of the message, with three set anew. -/
def readFields (msg : Message) : Fields :=
  ((msg.fields.set FIXField.beginString (ascii "FIX.4.2")).set FIXField.bodyLength
    (decimal (serializeBody msg).length)).set FIXField.checkSum
    (calculateChecksum (serializeHeader msg))

/-- The pairs of one tag in a list, from its first pair on. -/
theorem filter_cons_tag (tag : Tag) (value : Bytes) (es : List (Tag × Bytes)) :
    ((tag, value) :: es).filter (fun e => e.1 = tag)
      = (tag, value) :: es.filter (fun e => e.1 = tag) :=
  List.filter_cons_of_pos (decide_eq_true rfl)

theorem filter_cons_tag_of_ne {tag tag' : Tag} (h : tag' ≠ tag) (value : Bytes)
    (es : List (Tag × Bytes)) :
    ((tag', value) :: es).filter (fun e => e.1 = tag) = es.filter (fun e => e.1 = tag) :=
  List.filter_cons_of_neg (by simpa using h)

/-- The body keeps the fields of the tags that `serialize` copies. -/
theorem filter_body {msg : Message} {tag : Tag}
    (h : tag ≠ FIXField.beginString ∧ tag ≠ FIXField.bodyLength ∧ tag ≠ FIXField.checkSum) :
    (msg.fields.entries.filter isBodyField).filter (fun e => e.1 = tag)
      = msg.fields.entries.filter (fun e => e.1 = tag) := by
  rw [List.filter_filter]
  refine List.filter_congr fun e _ => ?_
  by_cases htag : e.1 = tag
  · rw [isBodyField, htag]
    simp [h]
  · simp [htag]

/-- The body drops the fields of the tags that `serialize` writes itself. -/
theorem filter_body_eq_nil {msg : Message} {tag : Tag}
    (h : tag = FIXField.beginString ∨ tag = FIXField.bodyLength ∨ tag = FIXField.checkSum) :
    (msg.fields.entries.filter isBodyField).filter (fun e => e.1 = tag) = [] := by
  rw [List.filter_eq_nil_iff]
  intro e he htag
  have hbody := (List.mem_filter.mp he).2
  rw [isBodyField, of_decide_eq_true htag] at hbody
  have hne := of_decide_eq_true hbody
  tauto

/-- **The fields that were written** are the fields of the message with three set anew. -/
theorem assignAll_writtenFields (msg : Message) :
    Fields.empty.assignAll [] (writtenFields msg) = readFields msg := by
  have h89 : FIXField.beginString ≠ FIXField.bodyLength := by decide
  have h810 : FIXField.beginString ≠ FIXField.checkSum := by decide
  have h910 : FIXField.bodyLength ≠ FIXField.checkSum := by decide
  -- of several assignments to a tag the last one counts, so each tag is looked at alone
  refine SortedMap.ext_get? fun tag => ?_
  rw [SortedMap.get?_assignAll, writtenFields, readFields]
  by_cases hbegin : tag = FIXField.beginString
  · subst hbegin
    rw [filter_cons_tag, filter_cons_tag_of_ne h89.symm, List.filter_append,
      filter_body_eq_nil (Or.inl rfl), filter_cons_tag_of_ne h810.symm,
      Fields.get?_set_of_ne _ h810, Fields.get?_set_of_ne _ h89, Fields.get?_set_self]
    rfl
  by_cases hlength : tag = FIXField.bodyLength
  · subst hlength
    rw [filter_cons_tag_of_ne h89, filter_cons_tag, List.filter_append,
      filter_body_eq_nil (Or.inr (Or.inl rfl)), filter_cons_tag_of_ne h910.symm,
      Fields.get?_set_of_ne _ h910, Fields.get?_set_self]
    rfl
  by_cases hsum : tag = FIXField.checkSum
  · subst hsum
    rw [filter_cons_tag_of_ne h810, filter_cons_tag_of_ne h910, List.filter_append,
      filter_body_eq_nil (Or.inr (Or.inr rfl)), filter_cons_tag, Fields.get?_set_self]
    rfl
  · -- the last assignment to a tag of the body is the only one
    have hfound : (Fields.empty.assignAll [] msg.fields.entries).get? tag
        = msg.fields.get? tag := by rw [Fields.empty, SortedMap.assignAll_entries]
    rw [SortedMap.get?_assignAll] at hfound
    rw [filter_cons_tag_of_ne (Ne.symm hbegin), filter_cons_tag_of_ne (Ne.symm hlength),
      List.filter_append, filter_body ⟨hbegin, hlength, hsum⟩,
      filter_cons_tag_of_ne (Ne.symm hsum), List.filter_nil, List.append_nil, hfound,
      Fields.get?_set_of_ne _ hsum, Fields.get?_set_of_ne _ hlength,
      Fields.get?_set_of_ne _ hbegin]

/-- **What is read back** of the text of a message, if no value contains the separator. -/
theorem fields_deserialize_serialize {msg : Message}
    (h : ∀ field ∈ msg.fields.entries, soh ∉ field.2) :
    (deserialize (serialize msg)).2.fields = readFields msg := by
  rw [serialize_eq_fieldsText, deserialize_fieldsText (soh_notMem_writtenFields h),
    assignAll_writtenFields]

/-- A field whose tag and `=` are known text. -/
theorem fieldText_eq {tag : Tag} {text : Bytes} (h : decimalInt tag.val ++ [equals] = text)
    (value : Bytes) : fieldText (tag, value) = text ++ value := by
  rw [← h, fieldText, List.append_assoc, List.singleton_append]

/-- The text of a message up to its check sum, spelled out. -/
theorem serializeHeader_eq (msg : Message) :
    serializeHeader msg = ascii "8=FIX.4.2" ++ [soh]
      ++ (ascii "9=" ++ decimal (serializeBody msg).length ++ [soh]) ++ serializeBody msg := by
  have hbegin : fieldText (FIXField.beginString, ascii "FIX.4.2") = ascii "8=FIX.4.2" := by decide
  have hlength : decimalInt FIXField.bodyLength.val ++ [equals] = ascii "9=" := by decide
  rw [serializeHeader, hbegin, fieldText_eq hlength]

/-- **The round trip.**  If no value contains the separator, `deserialize` succeeds on the
text of a message and finds the fields of the message, except that field 8 is `FIX.4.2`,
field 9 is the number of bytes between field 9 and field 10, and field 10 is the sum of
all bytes before it modulo 256, in three digits. -/
theorem deserialize_serialize {msg : Message} (h : ∀ field ∈ msg.fields.entries, soh ∉ field.2) :
    ∃ body : Bytes, ∃ sum : ℕ,
      serialize msg
        = ascii "8=FIX.4.2" ++ [soh] ++ (ascii "9=" ++ decimal body.length ++ [soh]) ++ body
          ++ (ascii "10=" ++ threeDigits sum ++ [soh]) ∧
      sum = ((ascii "8=FIX.4.2" ++ [soh] ++ (ascii "9=" ++ decimal body.length ++ [soh])
        ++ body).map UInt8.toNat).sum % 256 ∧
      deserialize (serialize msg)
        = (true, ⟨((msg.fields.set FIXField.beginString (ascii "FIX.4.2")).set
            FIXField.bodyLength (decimal body.length)).set FIXField.checkSum (threeDigits sum),
          serialize msg⟩) := by
  refine ⟨serializeBody msg, ((serializeHeader msg).map UInt8.toNat).sum % 256, ?_, ?_, ?_⟩
  · have hsum : decimalInt FIXField.checkSum.val ++ [equals] = ascii "10=" := by decide
    rw [← serializeHeader_eq, ← calculateChecksum_eq, serialize, fieldText_eq hsum]
  · rw [serializeHeader_eq]
  · have hfields := fields_deserialize_serialize h
    -- `deserialize` succeeds if it finds any field, and field 10 is always there
    have hnonempty : (readFields msg).entries ≠ [] := by
      intro hnil
      have hfound : (readFields msg).get? FIXField.checkSum ≠ none := by
        rw [readFields, Fields.get?_set_self]
        exact Option.some_ne_none _
      exact hfound (SortedMap.get?_eq_none_iff.mpr fun e he => absurd (hnil ▸ he) List.not_mem_nil)
    rw [← calculateChecksum_eq]
    refine Prod.ext ?_ ?_
    · show (!(deserialize (serialize msg)).2.fields.entries.isEmpty) = true
      rw [hfields]
      simpa using hnonempty
    · show Message.mk (deserialize (serialize msg)).2.fields (serialize msg) = _
      rw [hfields]
      rfl

/-- A message with a negative tag, an empty value and a value that contains `=`. -/
def sample : Message :=
  ⟨((Fields.empty.set ⟨-7, by decide⟩ []).set FIXField.text (ascii "a=b")).set
    FIXField.checkSum (ascii "dropped"), []⟩

/-- The round trip of that message. -/
theorem deserialize_serialize_sample :
    ∃ body : Bytes, ∃ sum : ℕ,
      serialize sample
        = ascii "8=FIX.4.2" ++ [soh] ++ (ascii "9=" ++ decimal body.length ++ [soh]) ++ body
          ++ (ascii "10=" ++ threeDigits sum ++ [soh]) ∧
      sum = ((ascii "8=FIX.4.2" ++ [soh] ++ (ascii "9=" ++ decimal body.length ++ [soh])
        ++ body).map UInt8.toNat).sum % 256 ∧
      deserialize (serialize sample)
        = (true, ⟨((sample.fields.set FIXField.beginString (ascii "FIX.4.2")).set
            FIXField.bodyLength (decimal body.length)).set FIXField.checkSum (threeDigits sum),
          serialize sample⟩) :=
  deserialize_serialize (by decide +kernel)

end FIX42Protocol
