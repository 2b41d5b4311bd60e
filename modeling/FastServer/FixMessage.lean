/-
# FIX messages

The message of the FIX 4.2 session: a map from tags to values.  `serialize` writes the
fields in the order of the map, between a header and a check sum of its own;
`deserialize` cuts the text at the separators and reads each piece as a field;
`validateMessage` looks at the fields a session needs, and at the check sum.
-/
import FastServer.Decimal
import FastServer.Framing
import FastServer.SortedContainer

namespace FIX42Protocol

/-- A `std::string`. -/
abbrev Bytes := List UInt8

/-- The separator behind every field. -/
def soh : UInt8 := 1

/-- No number contains the separator. -/
theorem soh_notMem_of_isDigit {text : Bytes} (h : ∀ b ∈ text, isDigit b = true) : soh ∉ text :=
  fun hmem => absurd (h soh hmem) (by decide)

/-- The byte between a tag and its value. -/
def equals : UInt8 := 61

/-! ## Tags and fields -/

/-- A tag: a 32-bit `int`. -/
def Tag := {z : ℤ // -2 ^ 31 ≤ z ∧ z < 2 ^ 31}
deriving DecidableEq

/-- The order of `std::map<int, std::string>`. -/
def Tag.before (a b : Tag) : Prop := a.val < b.val

instance : DecidableRel Tag.before := fun a b => inferInstanceAs (Decidable (a.val < b.val))

instance : IsStrictTotalOrder Tag Tag.before where
  trichotomous _ _ hab hba := Subtype.ext (le_antisymm (not_lt.mp hba) (not_lt.mp hab))
  irrefl tag := lt_irrefl tag.val
  trans _ _ _ := lt_trans

/-- The fields of a message, in the order of their tags. -/
abbrev Fields := SortedMap Tag.before Bytes

/-- A cleared map. -/
def Fields.empty : Fields := SortedMap.empty

/-- `fields[tag] = value`. -/
def Fields.set (fields : Fields) (tag : Tag) (value : Bytes) : Fields :=
  fields.upsert tag [] fun _ => value

/-- One assignment after the other. -/
theorem Fields.foldl_set (fields : Fields) (es : List (Tag × Bytes)) :
    es.foldl (fun fields e => fields.set e.1 e.2) fields = fields.assignAll [] es := rfl

@[simp] theorem Fields.get?_set_self (fields : Fields) (tag : Tag) (value : Bytes) :
    (fields.set tag value).get? tag = some value :=
  SortedMap.get?_upsert_self fields tag [] _

theorem Fields.get?_set_of_ne (fields : Fields) {tag tag' : Tag} (h : tag' ≠ tag) (value : Bytes) :
    (fields.set tag value).get? tag' = fields.get? tag' :=
  SortedMap.get?_upsert_of_ne fields h [] _

/-- What is found after an assignment. -/
theorem Fields.get?_set (fields : Fields) (tag tag' : Tag) (value : Bytes) :
    (fields.set tag value).get? tag' = if tag' = tag then some value else fields.get? tag' := by
  split_ifs with h
  · rw [h, Fields.get?_set_self]
  · exact Fields.get?_set_of_ne fields h value

namespace FIXField

def beginString : Tag := ⟨8, by decide⟩
def bodyLength : Tag := ⟨9, by decide⟩
def msgType : Tag := ⟨35, by decide⟩
def senderCompID : Tag := ⟨49, by decide⟩
def targetCompID : Tag := ⟨56, by decide⟩
def msgSeqNum : Tag := ⟨34, by decide⟩
def sendingTime : Tag := ⟨52, by decide⟩
def checkSum : Tag := ⟨10, by decide⟩
def heartBtInt : Tag := ⟨108, by decide⟩
def resetSeqNumFlag : Tag := ⟨141, by decide⟩
def testReqID : Tag := ⟨112, by decide⟩
def text : Tag := ⟨58, by decide⟩
def clOrdID : Tag := ⟨11, by decide⟩
def symbol : Tag := ⟨55, by decide⟩
def side : Tag := ⟨54, by decide⟩
def ordType : Tag := ⟨40, by decide⟩
def price : Tag := ⟨44, by decide⟩
def orderQty : Tag := ⟨38, by decide⟩
def timeInForce : Tag := ⟨59, by decide⟩
def origClOrdID : Tag := ⟨41, by decide⟩
def execType : Tag := ⟨150, by decide⟩
def execID : Tag := ⟨17, by decide⟩

end FIXField

/-- A message: its fields, and the text it was read from. -/
structure Message where
  fields : Fields
  raw_data : Bytes

/-! ## Writing -/

/-- The sum of the bytes, as a `uint32_t`, modulo 256. -/
def byteSum (msg : Bytes) : ℕ := msg.foldl (fun sum c => (sum + c.toNat) % 2 ^ 32) 0 % 256

/-- `setw(3)` and `setfill('0')` of the sum. -/
def calculateChecksum (msg : Bytes) : Bytes := List.leftpad 3 48 (decimal (byteSum msg))

/-- One field as text. -/
def fieldText (field : Tag × Bytes) : Bytes := decimalInt field.1.val ++ equals :: field.2

/-- The fields `serialize` copies: the others it writes itself. -/
def isBodyField (field : Tag × Bytes) : Bool :=
  field.1 ≠ FIXField.beginString ∧ field.1 ≠ FIXField.bodyLength ∧ field.1 ≠ FIXField.checkSum

/-- The fields of the body, as text. -/
def serializeBody (msg : Message) : Bytes :=
  (msg.fields.entries.filter isBodyField).flatMap fun field => fieldText field ++ [soh]

/-- The text of a message up to its check sum. -/
def serializeHeader (msg : Message) : Bytes :=
  fieldText (FIXField.beginString, ascii "FIX.4.2") ++ [soh]
    ++ (fieldText (FIXField.bodyLength, decimal (serializeBody msg).length) ++ [soh])
    ++ serializeBody msg

/-- The text of a message. -/
def serialize (msg : Message) : Bytes :=
  serializeHeader msg
    ++ (fieldText (FIXField.checkSum, calculateChecksum (serializeHeader msg)) ++ [soh])

/-! ## Reading -/

/-- `std::stoi`: a number that does not fit an `int` throws. -/
def stoi (text : Bytes) : Option Tag :=
  (readInt text).bind fun z => if h : -2 ^ 31 ≤ z ∧ z < 2 ^ 31 then some ⟨z, h⟩ else none

/-- One piece of text is read as a field: what has no `=`, or no number before it, is
ignored. -/
def readField (fields : Fields) (field_str : Bytes) : Fields :=
  match Framing.cutAt equals field_str with
  | .message tag value =>
      match stoi tag with
      | some tag => fields.set tag value
      | none => fields
  | _ => fields

/-- The message read from a text, and whether it has any field. -/
def deserialize (raw_msg : Bytes) : Bool × Message :=
  let fields := (Framing.pieces soh raw_msg).1.foldl readField Fields.empty
  (!fields.entries.isEmpty, ⟨fields, raw_msg⟩)

/-! ## Validation -/

/-- The identities of the two ends of a session. -/
structure CompIDs where
  sender_comp_id : Bytes
  target_comp_id : Bytes

/-- The text before the first occurrence of `pat`, or all of it: `substr(0, find(pat))`. -/
def textBefore (pat : Bytes) : Bytes → Bytes
  | [] => []
  | b :: rest => if pat.isPrefixOf (b :: rest) then [] else b :: textBefore pat rest

/-- The fields a session needs. -/
def requiredFields : List Tag :=
  [FIXField.beginString, FIXField.bodyLength, FIXField.msgType, FIXField.senderCompID,
    FIXField.targetCompID, FIXField.msgSeqNum, FIXField.sendingTime, FIXField.checkSum]

/-- Whether the session `ids` accepts the message. -/
def validateMessage (ids : CompIDs) (msg : Message) : Bool :=
  (requiredFields.all fun tag => (msg.fields.get? tag).isSome)
    && msg.fields.get? FIXField.beginString = some (ascii "FIX.4.2")
    && (msg.fields.get? FIXField.senderCompID = some ids.target_comp_id
      && msg.fields.get? FIXField.targetCompID = some ids.sender_comp_id)
    && msg.fields.get? FIXField.checkSum
      = some (calculateChecksum (textBefore (ascii "10=") msg.raw_data))

end FIX42Protocol
