/-
# The message of `fix42_b.cpp`

`FixMessage`: an unordered map of fields that is written with `|` behind each field.  The
length and the check sum of the body are computed with `int`, the check sum over plain `char`,
which is signed: a body with bytes from `0x80` on may get a negative check sum.
-/
import FastServer.FixRoundTrip
import FastServer.MachineInt
import FastServer.RunningRemainder

open FIX42Protocol Framing

namespace FixPipe

/-- The byte behind each field. -/
def pipe : UInt8 := 124

/-- `FixMessage`: its fields, and the order in which the map iterates over them. -/
structure FixMessage where
  fields : Fields
  order : List (Tag × Bytes)
  perm : order.Perm fields.entries

namespace FixMessage

/-- `setField`; the map may iterate in any order afterwards. -/
def setField (msg : FixMessage) (tag : Tag) (value : Bytes) (order : List (Tag × Bytes))
    (perm : order.Perm (msg.fields.set tag value).entries) : FixMessage :=
  ⟨msg.fields.set tag value, order, perm⟩

/-! ## Writing -/

/-- The value of a `char`, which has a sign. -/
def charValue (c : UInt8) : ℤ := c.toInt8.toInt

/-- The body that `serialize` builds. -/
def body (msg : FixMessage) : Bytes := msg.order.flatMap fun field => fieldText field ++ [pipe]

/-- The check sum that `serialize` computes. -/
def checksum (body : Bytes) : ℤ :=
  body.foldl (fun checksum c => (checksum + charValue c).tmod 256) 0

/-- `serialize`; `setw(3)` with `setfill('0')` puts zeros in front of a sign too. -/
def serialize (msg : FixMessage) : Bytes :=
  ascii "8=FIX.4.2|9=" ++ decimalInt (toI32 msg.body.length) ++ [pipe] ++ msg.body ++ ascii "10="
    ++ List.leftpad 3 48 (decimalInt (checksum msg.body)) ++ [pipe]

/-! ## Reading -/

/-- The tokens of `std::getline`: a last one may have no `|` behind it. -/
def tokens (fixMsg : Bytes) : List Bytes :=
  let p := pieces pipe fixMsg
  if p.2 = [] then p.1 else p.1 ++ [p.2]

/-- One token; `std::stoi` may throw. -/
def readToken (fields : Fields) (token : Bytes) : Option Fields :=
  match cutAt equals token with
  | .message tag value => (stoi tag).map fun tag => fields.set tag value
  | _ => some fields

/-- `parse`. -/
def parse (fixMsg : Bytes) : Option Fields := (tokens fixMsg).foldlM readToken Fields.empty

/-! ## What is expected -/

/-- The values are free of `|`, and the tags are none of those that `serialize` writes. -/
def Plain (msg : FixMessage) : Prop :=
  ∀ field ∈ msg.order, pipe ∉ field.2 ∧ field.1 ≠ FIXField.beginString ∧
    field.1 ≠ FIXField.bodyLength ∧ field.1 ≠ FIXField.checkSum

instance (msg : FixMessage) : Decidable msg.Plain :=
  inferInstanceAs (Decidable (∀ field ∈ msg.order, _))

/-- A message that is built of such fields is such a message. -/
theorem Plain.setField {msg : FixMessage} (h : msg.Plain) {tag : Tag} {value : Bytes}
    (hvalue : pipe ∉ value) (htag : tag ≠ FIXField.beginString ∧ tag ≠ FIXField.bodyLength ∧
      tag ≠ FIXField.checkSum) {order : List (Tag × Bytes)}
    (perm : order.Perm (msg.fields.set tag value).entries) :
    (msg.setField tag value order perm).Plain := by
  rintro ⟨tag', value'⟩ hfield
  have hmem := perm.mem_iff.mp hfield
  rw [SortedMap.mem_entries_iff, Fields.get?_set] at hmem
  split_ifs at hmem with heq
  · obtain rfl := Option.some.inj hmem
    exact ⟨hvalue, heq ▸ htag⟩
  · exact h _ (msg.perm.mem_iff.mpr (SortedMap.mem_entries_iff.mpr hmem))

/-- The fields of the message and the three that `serialize` writes. -/
def written (msg : FixMessage) (length sum : Bytes) : Fields :=
  ((msg.fields.set FIXField.beginString (ascii "FIX.4.2")).set FIXField.bodyLength length).set
    FIXField.checkSum sum

/-- The message is read back: 9 is the length of the body, and 10 the sum of its bytes modulo
256 in three digits. -/
def RoundTrips (msg : FixMessage) : Prop :=
  parse msg.serialize = some (msg.written (decimal msg.body.length)
    (threeDigits ((msg.body.map UInt8.toNat).sum % 256)))

/-- The length of the body is an `int`, and the partial sums of its bytes, with their signs,
come to the multiple of 256 below the whole sum from below, not from above. -/
def Fits (body : Bytes) : Prop :=
  body.length < 2 ^ 31 ∧
    RunningRemainder.EndsBelow 256 ((body.map charValue).sum / 256) (body.map charValue)

instance (body : Bytes) : Decidable (Fits body) := inferInstanceAs (Decidable (_ ∧ _))

/-! ## The check sum -/

theorem charValue_cases (c : UInt8) : (-128 ≤ charValue c ∧ charValue c < 128) ∧
    (charValue c = c.toNat ∨ charValue c = c.toNat - 256) := by
  revert c
  decide +kernel

/-- A byte below `0x80` has its own value. -/
theorem charValue_of_lt {c : UInt8} (h : c < 128) : charValue c = c.toNat := by
  revert c
  decide +kernel

theorem checksum_eq_remainder (body : Bytes) :
    checksum body = RunningRemainder.remainder 256 (body.map charValue) := by
  rw [checksum, RunningRemainder.remainder, List.foldl_map]

theorem charValue_bounds (body : Bytes) :
    ∀ z ∈ body.map charValue, -(256 : ℤ) ≤ z ∧ z ≤ 256 := by
  intro z hz
  obtain ⟨c, -, rfl⟩ := List.mem_map.mp hz
  have hc := (charValue_cases c).1
  omega

/-- The sums with and without signs differ by a multiple of 256. -/
theorem sum_charValue_emod (body : Bytes) :
    (body.map charValue).sum % 256 = ((body.map UInt8.toNat).sum : ℤ) % 256 := by
  induction body with
  | nil => rfl
  | cons c body ih =>
    have hc := (charValue_cases c).2
    rw [List.map_cons, List.map_cons, List.sum_cons, List.sum_cons, Nat.cast_add]
    omega

/-- **The sign of the check sum.** -/
theorem checksum_nonneg_iff (body : Bytes) : 0 ≤ checksum body ↔
    RunningRemainder.EndsBelow 256 ((body.map charValue).sum / 256) (body.map charValue) := by
  rw [checksum_eq_remainder]
  exact RunningRemainder.remainder_nonneg_iff (by decide) (charValue_bounds body)

/-- A check sum that is not negative is the sum of the bytes. -/
theorem checksum_eq {body : Bytes} (h : 0 ≤ checksum body) :
    checksum body = ((body.map UInt8.toNat).sum % 256 : ℕ) := by
  rw [checksum_eq_remainder] at h ⊢
  rw [RunningRemainder.remainder_eq_emod (by decide) (charValue_bounds body) h,
    sum_charValue_emod, Int.natCast_emod]
  rfl

/-- Without bytes from `0x80` on the check sum is not negative. -/
theorem checksum_nonneg_of_ascii {body : Bytes} (h : ∀ c ∈ body, c < 128) : 0 ≤ checksum body := by
  rw [checksum_eq_remainder]
  apply RunningRemainder.remainder_nonneg
  intro z hz
  obtain ⟨c, hc, rfl⟩ := List.mem_map.mp hz
  rw [charValue_of_lt (h c hc)]
  exact Int.natCast_nonneg _

/-- **The text of the check sum** is the expected one if it has no sign. -/
theorem leftpad_checksum_iff (body : Bytes) :
    List.leftpad 3 48 (decimalInt (checksum body))
        = threeDigits ((body.map UInt8.toNat).sum % 256) ↔ 0 ≤ checksum body := by
  constructor
  · intro h
    by_contra hneg
    have hminus : (45 : UInt8) ∈ List.leftpad 3 48 (decimalInt (checksum body)) := by
      rw [decimalInt, if_pos (not_le.mp hneg), List.leftpad]
      simp
    rw [h] at hminus
    have hdigit : ∀ d < 10, (45 : UInt8) ≠ digit d := by decide
    simp only [threeDigits, List.mem_cons, List.not_mem_nil, or_false] at hminus
    rcases hminus with h | h | h
    · exact hdigit _ (Nat.mod_lt _ (by decide)) h
    · exact hdigit _ (Nat.mod_lt _ (by decide)) h
    · exact hdigit _ (Nat.mod_lt _ (by decide)) h
  · intro h
    rw [checksum_eq h, decimalInt, if_neg (not_lt.mpr (Int.natCast_nonneg _)), Int.natAbs_natCast,
      leftpad_three]
    exact (Nat.mod_lt _ (by decide)).trans (by decide)

/-- The text of the length is the expected one if the length is an `int`. -/
theorem decimalInt_length_iff (n : ℕ) : decimalInt (toI32 n) = decimal n ↔ n < 2 ^ 31 := by
  have hnat : decimalInt (n : ℤ) = decimal n := by
    rw [decimalInt, if_neg (not_lt.mpr (Int.natCast_nonneg n)), Int.natAbs_natCast]
  constructor
  · intro h
    have hsame : some (toI32 n) = some (n : ℤ) := by
      rw [← readInt_decimalInt (toI32 n), h, ← hnat, readInt_decimalInt]
    have hlt := toI32_lt n
    rw [Option.some.inj hsame] at hlt
    omega
  · intro h
    rw [toI32_of_range (by omega) (by omega), hnat]

/-! ## The round trip -/

/-- A sign and digits are not `|`. -/
theorem pipe_notMem_decimalInt (z : ℤ) : pipe ∉ decimalInt z := by
  intro h
  rcases mem_decimalInt h with h | h
  · exact absurd h (by decide)
  · exact absurd h (by decide)

/-- **A text of fields** is read as the assignment of one after the other. -/
theorem parse_fields {es : List (Tag × Bytes)} (h : ∀ field ∈ es, pipe ∉ field.2) :
    parse (es.flatMap fun field => fieldText field ++ [pipe])
      = some (Fields.empty.assignAll [] es) := by
  have hpieces := pieces_fieldText (by decide) pipe_notMem_decimalInt h
  have hread : ∀ (es : List (Tag × Bytes)) (fields : Fields),
      (es.map fieldText).foldlM readToken fields = some (fields.assignAll [] es) := by
    intro es
    induction es with
    | nil => intro fields; rfl
    | cons field es ih =>
      intro fields
      have hfirst : readToken fields (fieldText field) = some (fields.set field.1 field.2) := by
        simp only [readToken, cutAt_fieldText, stoi_decimalInt, Option.map_some]
      rw [List.map_cons, List.foldlM_cons, hfirst]
      exact ih _
  rw [parse, tokens, hpieces]
  exact hread es Fields.empty

/-- The fields that `serialize` writes. -/
def writtenFields (msg : FixMessage) (length sum : Bytes) : List (Tag × Bytes) :=
  (FIXField.beginString, ascii "FIX.4.2") :: (FIXField.bodyLength, length)
    :: (msg.order ++ [(FIXField.checkSum, sum)])

/-- The text is that of its fields. -/
theorem serialize_eq (msg : FixMessage) : msg.serialize
    = (msg.writtenFields (decimalInt (toI32 msg.body.length))
        (List.leftpad 3 48 (decimalInt (checksum msg.body)))).flatMap fun field =>
      fieldText field ++ [pipe] := by
  have hbegin : fieldText (FIXField.beginString, ascii "FIX.4.2") ++ [pipe]
      = ascii "8=FIX.4.2|" := by decide
  have hlength : decimalInt FIXField.bodyLength.val ++ [equals] = ascii "9=" := by decide
  have hsum : decimalInt FIXField.checkSum.val ++ [equals] = ascii "10=" := by decide
  have hfront : ascii "8=FIX.4.2|9=" = ascii "8=FIX.4.2|" ++ ascii "9=" := by decide
  rw [writtenFields, List.flatMap_cons, List.flatMap_cons, List.flatMap_append,
    List.flatMap_singleton, hbegin, fieldText_eq hlength, fieldText_eq hsum, ← body, serialize,
    hfront]
  simp only [List.append_assoc]

/-- The tags that are written differ. -/
theorem nodup_writtenFields {msg : FixMessage} (h : msg.Plain) (length sum : Bytes) :
    ((msg.writtenFields length sum).map Prod.fst).Nodup := by
  have hnodup : (msg.order.map Prod.fst).Nodup :=
    (msg.perm.map Prod.fst).nodup_iff.mpr msg.fields.nodup_keys
  have hkeys : ∀ tag ∈ msg.order.map Prod.fst, tag ≠ FIXField.beginString ∧
      tag ≠ FIXField.bodyLength ∧ tag ≠ FIXField.checkSum := by
    intro tag htag
    obtain ⟨field, hfield, rfl⟩ := List.mem_map.mp htag
    exact (h field hfield).2
  have h89 : FIXField.beginString ≠ FIXField.bodyLength := by decide
  have h810 : FIXField.beginString ≠ FIXField.checkSum := by decide
  have h910 : FIXField.bodyLength ≠ FIXField.checkSum := by decide
  simp only [writtenFields, List.map_cons, List.map_append, List.map_nil, List.nodup_cons,
    List.nodup_append, List.mem_cons, List.mem_append, List.not_mem_nil, or_false]
  grind

/-- **Whatever the order**, the fields of the message are read, and three more. -/
theorem assignAll_writtenFields {msg : FixMessage} (h : msg.Plain) (length sum : Bytes) :
    Fields.empty.assignAll [] (msg.writtenFields length sum) = msg.written length sum := by
  have hkeys : ∀ tag value, (tag, value) ∈ msg.order ↔ msg.fields.get? tag = some value := by
    intro tag value
    rw [msg.perm.mem_iff, SortedMap.mem_entries_iff]
  have h89 : FIXField.beginString ≠ FIXField.bodyLength := by decide
  have h810 : FIXField.beginString ≠ FIXField.checkSum := by decide
  have h910 : FIXField.bodyLength ≠ FIXField.checkSum := by decide
  refine SortedMap.ext_get? fun tag => Option.ext fun value => ?_
  rw [Fields.empty, SortedMap.get?_assignAll_iff [] (nodup_writtenFields h length sum), written,
    Fields.get?_set, Fields.get?_set, Fields.get?_set]
  have hplain := h (tag, value)
  simp only [writtenFields, List.mem_cons, List.mem_append, List.not_mem_nil, or_false,
    Prod.mk.injEq, hkeys] at hplain ⊢
  split_ifs with hsum hlength hbegin
  · grind
  · grind
  · grind
  · grind

theorem written_inj {msg : FixMessage} {length length' sum sum' : Bytes} :
    msg.written length sum = msg.written length' sum' ↔ length = length' ∧ sum = sum' := by
  have h910 : FIXField.bodyLength ≠ FIXField.checkSum := by decide
  have hlength : ∀ length sum, (msg.written length sum).get? FIXField.bodyLength = some length := by
    intro length sum
    rw [written, Fields.get?_set_of_ne _ h910, Fields.get?_set_self]
  have hsum : ∀ length sum, (msg.written length sum).get? FIXField.checkSum = some sum :=
    fun length sum => Fields.get?_set_self _ _ _
  constructor
  · intro h
    refine ⟨Option.some.inj ?_, Option.some.inj ?_⟩
    · rw [← hlength length sum, h, hlength]
    · rw [← hsum length sum, h, hsum]
  · rintro ⟨rfl, rfl⟩
    rfl

/-- **What `parse` returns** for the text of a message. -/
theorem parse_eq {msg : FixMessage} (h : msg.Plain) : parse msg.serialize
    = some (msg.written (decimalInt (toI32 msg.body.length))
      (List.leftpad 3 48 (decimalInt (checksum msg.body)))) := by
  rw [serialize_eq, parse_fields, assignAll_writtenFields h]
  intro field hfield
  rw [writtenFields, List.mem_cons, List.mem_cons, List.mem_append, List.mem_singleton] at hfield
  rcases hfield with rfl | rfl | hfield | rfl
  · show pipe ∉ ascii "FIX.4.2"
    decide +kernel
  · dsimp only
    exact pipe_notMem_decimalInt (toI32 msg.body.length)
  · exact (h field hfield).1
  · intro hmem
    rcases List.mem_append.mp hmem with hmem | hmem
    · exact absurd (List.eq_of_mem_replicate hmem) (by decide)
    · exact pipe_notMem_decimalInt _ hmem

/-- The message is read back if both numbers are written as expected. -/
theorem roundTrips_iff_numbers {msg : FixMessage} (h : msg.Plain) : msg.RoundTrips ↔
    msg.body.length < 2 ^ 31 ∧ 0 ≤ checksum msg.body := by
  rw [RoundTrips, parse_eq h, Option.some_inj, written_inj, decimalInt_length_iff,
    leftpad_checksum_iff]

/-- **Without bytes from `0x80` on** a message is read back. -/
theorem roundTrips_of_ascii {msg : FixMessage} (h : msg.Plain)
    (hascii : ∀ field ∈ msg.order, ∀ c ∈ field.2, c < 128) (hlength : msg.body.length < 2 ^ 31) :
    msg.RoundTrips := by
  refine (roundTrips_iff_numbers h).mpr ⟨hlength, checksum_nonneg_of_ascii ?_⟩
  have hdigit : ∀ c : UInt8, c = 45 ∨ isDigit c = true → c < 128 := by decide +kernel
  intro c hc
  obtain ⟨field, hfield, hc⟩ := List.mem_flatMap.mp hc
  rw [fieldText, List.mem_append, List.mem_append, List.mem_cons, List.mem_singleton] at hc
  rcases hc with (hc | rfl | hc) | rfl
  · exact hdigit c (mem_decimalInt hc)
  · decide
  · exact hascii field hfield c hc
  · decide

/-- **When a message is read back.** -/
theorem roundTrips_iff_fits {msg : FixMessage} (h : msg.Plain) :
    msg.RoundTrips ↔ Fits msg.body := by
  rw [roundTrips_iff_numbers h, checksum_nonneg_iff, Fits]

/-- A message with two fields that iterate in another order, one of them with bytes from `0x80`
on. -/
def accented : FixMessage where
  fields := (Fields.empty.set FIXField.symbol (ascii "A")).set FIXField.text [0xE4, 0xB8, 0xAD]
  order := [(FIXField.text, [0xE4, 0xB8, 0xAD]), (FIXField.symbol, ascii "A")]
  perm := by decide

theorem roundTrips_iff_fits_accented :
    accented.Plain ∧ (accented.RoundTrips ↔ Fits accented.body) :=
  ⟨by decide, roundTrips_iff_fits (by decide)⟩

/-- A message whose check sum gets a sign. -/
def twice : FixMessage where
  fields := Fields.empty.set FIXField.text [0xE4, 0xB8, 0xAD, 0xE4, 0xB8, 0xAD]
  order := [(FIXField.text, [0xE4, 0xB8, 0xAD, 0xE4, 0xB8, 0xAD])]
  perm := by decide

/-- Field 10 of that message is `-72` instead of `184`. -/
theorem not_roundTrips_twice : twice.Plain ∧ ¬ twice.RoundTrips ∧
    (parse twice.serialize).bind (fun fields => fields.get? FIXField.checkSum)
      = some (ascii "-72") ∧
    threeDigits ((twice.body.map UInt8.toNat).sum % 256) = ascii "184" := by
  have hread : (parse twice.serialize).bind (fun fields => fields.get? FIXField.checkSum)
      = some (ascii "-72") := by decide +kernel
  refine ⟨by decide, ?_, hread, by decide +kernel⟩
  intro h
  rw [h, Option.bind_some, written, Fields.get?_set_self] at hread
  exact absurd hread (by decide +kernel)

end FixMessage

end FixPipe
