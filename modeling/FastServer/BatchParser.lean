/-
# The batch parser

The `FixParser` of `parser.cpp` that gets a whole buffer.  A message is looked for behind an
`SOH`, so the first one of a buffer is never found; the length it must have counts field 9 and
field 10 as well, so what is accepted has a wrong `BodyLength`.
-/
import FastServer.FixRoundTrip
import FastServer.StreamParser

namespace FixParser.Batch

open FIX42Protocol

/-! ## The parser -/

/-- The next place behind an `SOH` where `8=` stands. -/
def findNextMessageStart : Bytes → Option Bytes
  | [] => none
  | b :: s =>
      if b = soh then
        if s.length ≤ 2 then none
        else if ascii "8=" <+: s then some s
        else findNextMessageStart s
      else findNextMessageStart s

/-- What `parseMessage` holds while it reads the fields. -/
structure Head where
  msg : Fields
  bodyLength : ℤ
  hasBeginString : Bool
  hasBodyLength : Bool
  hasMsgType : Bool

def Head.start : Head := ⟨Fields.empty, 0, false, false, false⟩

/-- A field other than the check sum is added; `none` if `stoi` throws. -/
def Head.add (head : Head) (tag : Tag) (value : Bytes) : Option Head :=
  let msg := head.msg.set tag value
  if tag = FIXField.beginString then some { head with msg, hasBeginString := true }
  else if tag = FIXField.bodyLength then
    (stoi value).map fun n => { head with msg, hasBodyLength := true, bodyLength := n.val }
  else if tag = FIXField.msgType then some { head with msg, hasMsgType := true }
  else some { head with msg }

/-- The bytes from the second field up to `checksumPos`. -/
def calculateBodyLength (message : Bytes) (checksumPos : ℕ) : ℕ :=
  checksumPos - ((message.takeWhile (· ≠ soh)).length + 1)

/-- The check sum is not looked at. -/
def verifyChecksum (_message : Bytes) (_checksumPos : ℕ) (_checksumValue : Bytes) : Bool := true

/-- What becomes of a place where a message may start: a message and the position behind it, a
`runtime_error`, or an exception of `stoi`. -/
inductive Parsed
  | message (msg : Fields) (endPos : ℕ)
  | error
  | thrown

/-- The checks at the check sum, whose field ends at `fieldEnd`. -/
def finish (message : Bytes) (head : Head) (value : Bytes) (fieldEnd : ℕ) : Parsed :=
  if !head.hasBeginString || !head.hasBodyLength || !head.hasMsgType then .error
  else if calculateBodyLength message fieldEnd ≠ toU64 head.bodyLength then .error
  else if !verifyChecksum message fieldEnd value then .error
  else .message (head.msg.set FIXField.checkSum value) (fieldEnd + 1)

/-- The loop of `parseMessage`, over the fields that end with an `SOH`. -/
def parseFields (message : Bytes) : Head → ℕ → List Bytes → Parsed
  | _, _, [] => .error
  | head, pos, field :: fields =>
      match Framing.cutAt equals field with
      | .message tagText value =>
          match stoi tagText with
          | none => .thrown
          | some tag =>
              if tag = FIXField.checkSum then finish message head value (pos + field.length)
              else
                match head.add tag value with
                | none => .thrown
                | some head => parseFields message head (pos + field.length + 1) fields
      | _ => .error

def parseMessage (message : Bytes) : Parsed :=
  parseFields message Head.start 0 (Framing.pieces soh message).1

/-- The loop of `parse` in at most `n` rounds: the messages, each with the text it was read from,
which the code does not keep; `none` if an exception leaves it. -/
def parseUpTo : ℕ → Bytes → Option (List (Fields × Bytes))
  | 0, _ => some []
  | n + 1, s =>
      match findNextMessageStart s with
      | none => some []
      | some message =>
          match parseMessage message with
          | .message msg endPos =>
              (parseUpTo n (message.drop endPos)).map ((msg, message.take endPos) :: ·)
          | .error => parseUpTo n (message.drop 1)
          | .thrown => none

/-- Every round moves on by at least one byte. -/
def parseTexts (buffer : Bytes) : Option (List (Fields × Bytes)) :=
  parseUpTo (buffer.length + 1) buffer

/-- `parse`. -/
def parse (buffer : Bytes) : Option (List Fields) := (parseTexts buffer).map (List.map Prod.fst)

/-! ## Messages -/

/-- A well-formed message: the length counts the bytes between fields 9 and 10. -/
structure Msg where
  beginString : Bytes
  length : Bytes
  msgType : Bytes
  body : List (Tag × Bytes)
  soh_notMem : soh ∉ beginString ∧ soh ∉ msgType ∧ ∀ e ∈ body, soh ∉ e.2
  isBodyField_body : ∀ e ∈ body, isBodyField e = true
  length_ne_nil : length ≠ []
  isDigit_length : ∀ b ∈ length, isDigit b = true
  length_eq : readDigits length = (fieldsText ((FIXField.msgType, msgType) :: body)).length

/-- The fields before the check sum. -/
def Msg.front (m : Msg) : List (Tag × Bytes) :=
  (FIXField.beginString, m.beginString) :: (FIXField.bodyLength, m.length)
    :: (FIXField.msgType, m.msgType) :: m.body

def Msg.entries (m : Msg) : List (Tag × Bytes) :=
  m.front ++ [(FIXField.checkSum, Stream.checksumText (fieldsText m.front))]

def Msg.text (m : Msg) : Bytes := fieldsText m.entries

def Msg.fields (m : Msg) : Fields := Fields.empty.assignAll [] m.entries

/-- The bytes of a list of messages. -/
def stream (ms : List Msg) : Bytes := (ms.map Msg.text).flatten

/-! ## What should hold -/

/-- Every message is returned, and nothing else, in order and with its fields. -/
def Parses (ms : List Msg) : Prop := parse (stream ms) = some (ms.map Msg.fields)

/-- The field 9 of a message counts the bytes behind it up to field 10, which is the last. -/
def BodyLengthRight (msg : Fields) (text : Bytes) : Prop :=
  ∃ before len between sum, text = (before ++ (ascii "9=" ++ len) :: (between
      ++ [ascii "10=" ++ sum])).flatMap (· ++ [soh]) ∧
    (∀ field ∈ before ++ (ascii "9=" ++ len) :: (between ++ [ascii "10=" ++ sum]), soh ∉ field) ∧
    msg.get? FIXField.bodyLength = some len ∧
    (stoi len).map Subtype.val = some ((between.flatMap (· ++ [soh])).length : ℤ)

/-- Field 10 of a message is the sum of the bytes before it, modulo 256. -/
def CheckSumRight (text : Bytes) : Prop :=
  ∃ front, text = front ++ (ascii "10=" ++ (Stream.checksumText front ++ [soh]))

/-- No message is returned whose `BodyLength` or `CheckSum` is wrong. -/
def NoneWrong (buffer : Bytes) : Prop :=
  ∀ messages, parseTexts buffer = some messages →
    ∀ m ∈ messages, BodyLengthRight m.1 m.2 ∧ CheckSumRight m.2

/-! ## Where messages start -/

/-- The places behind an `SOH` where `8=` and one more byte stand. -/
def starts : Bytes → List Bytes
  | [] => []
  | b :: s => if b = soh ∧ ascii "8=" <+: s ∧ 2 < s.length then s :: starts s else starts s

theorem starts_of_short {s : Bytes} (h : s.length ≤ 2) : starts s = [] := by
  induction s with
  | nil => rfl
  | cons b s ih =>
    rw [List.length_cons] at h
    rw [starts, if_neg (by omega), ih (by omega)]

/-- The parser looks for the first of them. -/
theorem starts_of_find (s : Bytes) : starts s = match findNextMessageStart s with
    | none => []
    | some message => message :: starts message := by
  induction s with
  | nil => rfl
  | cons b s ih =>
    by_cases hb : b = soh
    · rw [starts, findNextMessageStart, if_pos hb]
      by_cases hshort : s.length ≤ 2
      · rw [if_pos hshort, if_neg (by omega), starts_of_short hshort]
      · rw [if_neg hshort]
        by_cases hstart : ascii "8=" <+: s
        · rw [if_pos hstart, if_pos ⟨hb, hstart, by omega⟩]
        · rw [if_neg hstart, if_neg fun h => hstart h.2.1, ih]
    · rw [starts, findNextMessageStart, if_neg hb, if_neg fun h => hb h.1, ih]

theorem starts_of_none {s : Bytes} (h : findNextMessageStart s = none) : starts s = [] := by
  rw [starts_of_find, h]

theorem starts_of_some {s message : Bytes} (h : findNextMessageStart s = some message) :
    starts s = message :: starts message := by
  rw [starts_of_find, h]

theorem findNextMessageStart_spec {s message : Bytes} (h : findNextMessageStart s = some message) :
    message <:+ s ∧ message.length < s.length ∧ ascii "8=" <+: message := by
  induction s with
  | nil => exact absurd h.symm (Option.some_ne_none _)
  | cons b s ih =>
    have hlater : findNextMessageStart s = some message →
        message <:+ b :: s ∧ message.length < (b :: s).length ∧ ascii "8=" <+: message := by
      intro h
      obtain ⟨hsuffix, hlength, hstart⟩ := ih h
      exact ⟨hsuffix.trans (List.suffix_cons b s), by rw [List.length_cons]; omega, hstart⟩
    rw [findNextMessageStart] at h
    split_ifs at h with hb hshort hstart
    · obtain rfl := Option.some.inj h
      exact ⟨List.suffix_cons b s, Nat.lt_succ_self _, hstart⟩
    · exact hlater h
    · exact hlater h

/-- What is skipped starts no new message. -/
theorem starts_drop_suffix (s : Bytes) (n : ℕ) : starts (s.drop n) <:+ starts s := by
  induction s generalizing n with
  | nil => rw [List.drop_nil]
  | cons b s ih =>
    cases n with
    | zero => exact List.suffix_rfl
    | succ n =>
      rw [List.drop_succ_cons, starts]
      split_ifs
      · exact (ih n).trans (List.suffix_cons _ _)
      · exact ih n

/-- A message does not start at the `8` of its own start. -/
theorem starts_drop_one {message : Bytes} (h : ascii "8=" <+: message) :
    starts (message.drop 1) = starts message := by
  obtain ⟨t, rfl⟩ := h
  have hcons : ascii "8=" ++ t = 56 :: 61 :: t := rfl
  have hfirst : starts (56 :: 61 :: t) = starts (61 :: t) :=
    if_neg fun h => absurd h.1 (by decide)
  rw [hcons, hfirst, List.drop_succ_cons, List.drop_zero]

/-! ## What is accepted -/

/-- A field with a number for its tag, as text. -/
structure Entry where
  tagText : Bytes
  tag : Tag
  value : Bytes
  equals_notMem : equals ∉ tagText
  stoi_tagText : stoi tagText = some tag

def Entry.text (e : Entry) : Bytes := e.tagText ++ equals :: e.value

/-- The fields are assigned one after the other. -/
def assigned (msg : Fields) (es : List Entry) : Fields :=
  msg.assignAll [] (es.map fun e => (e.tag, e.value))

/-- A field before the check sum that is read without an exception. -/
def Entry.Plain (e : Entry) : Prop :=
  e.tag ≠ FIXField.checkSum ∧ (e.tag = FIXField.bodyLength → stoi e.value ≠ none)

/-- A field in which `stoi` throws: its tag is no number, or it is field 9 and its value is
none. -/
def Bad (field : Bytes) : Prop :=
  ∃ tagText value, field = tagText ++ equals :: value ∧ equals ∉ tagText ∧
    (stoi tagText = none ∨ stoi tagText = some FIXField.bodyLength ∧ stoi value = none)

/-- The number of bytes of some fields and the `SOH` behind each. -/
def width (fields : List Bytes) : ℕ := (fields.flatMap (· ++ [soh])).length

/-- Fields 8, 9 and 35 are there, and field 9 is the number of bytes from the second field to
`fieldEnd`. -/
def Complete (message : Bytes) (msg : Fields) (fieldEnd : ℕ) : Prop :=
  (msg.get? FIXField.beginString).isSome ∧ (msg.get? FIXField.msgType).isSome ∧
    ∃ value n, msg.get? FIXField.bodyLength = some value ∧ stoi value = some n ∧
      calculateBodyLength message fieldEnd = toU64 n.val

/-- A text that starts with a complete message, whose fields end with the first field 10. -/
def Accepted (message : Bytes) (msg : Fields) (endPos : ℕ) : Prop :=
  ∃ (es : List Entry) (last : Entry) (more : List Bytes),
    (Framing.pieces soh message).1 = es.map Entry.text ++ last.text :: more ∧
    (∀ e ∈ es, e.Plain) ∧ last.tag = FIXField.checkSum ∧
    Complete message (assigned Fields.empty es)
      (width (es.map Entry.text) + last.text.length) ∧
    msg = (assigned Fields.empty es).set FIXField.checkSum last.value ∧
    endPos = width (es.map Entry.text) + last.text.length + 1

/-- A text in which `stoi` throws before any field 10. -/
def Aborted (message : Bytes) : Prop :=
  ∃ (es : List Entry) (field : Bytes) (more : List Bytes),
    (Framing.pieces soh message).1 = es.map Entry.text ++ field :: more ∧
    (∀ e ∈ es, e.Plain) ∧ Bad field

/-! ## Reading the fields -/

/-- What `parseMessage` holds says what was assigned. -/
structure Head.Good (head : Head) : Prop where
  beginString : head.hasBeginString = (head.msg.get? FIXField.beginString).isSome
  msgType : head.hasMsgType = (head.msg.get? FIXField.msgType).isSome
  bodyLength : head.hasBodyLength = (head.msg.get? FIXField.bodyLength).isSome
  value : ∀ value, head.msg.get? FIXField.bodyLength = some value →
    ∃ n, stoi value = some n ∧ head.bodyLength = n.val

theorem good_start : Head.start.Good where
  beginString := rfl
  msgType := rfl
  bodyLength := rfl
  value := fun _ h => absurd h.symm (Option.some_ne_none _)

theorem Head.add_eq_none {head : Head} {tag : Tag} {value : Bytes} :
    head.add tag value = none ↔ tag = FIXField.bodyLength ∧ stoi value = none := by
  constructor
  · intro h
    rw [Head.add] at h
    split_ifs at h with hbegin hlength
    exact ⟨hlength, Option.map_eq_none_iff.mp h⟩
  · rintro ⟨rfl, hstoi⟩
    rw [Head.add, if_neg (by decide), if_pos rfl, hstoi]
    rfl

/-- **Adding a field keeps this.** -/
theorem Head.Good.add {head head' : Head} (hgood : head.Good) {tag : Tag} {value : Bytes}
    (h : head.add tag value = some head') :
    head'.msg = head.msg.set tag value ∧ head'.Good := by
  have hother : ∀ tag' : Tag, tag' ≠ tag →
      (head.msg.set tag value).get? tag' = head.msg.get? tag' :=
    fun tag' hne => Fields.get?_set_of_ne head.msg hne value
  rw [Head.add] at h
  split_ifs at h with hbegin hlength htype
  · obtain rfl := Option.some.inj h
    subst hbegin
    refine ⟨rfl, ⟨?_, ?_, ?_, ?_⟩⟩
    · show true = _
      rw [Fields.get?_set_self]
      rfl
    · rw [hother _ (by decide)]
      exact hgood.msgType
    · rw [hother _ (by decide)]
      exact hgood.bodyLength
    · rw [hother _ (by decide)]
      exact hgood.value
  · subst hlength
    obtain ⟨n, hn, rfl⟩ := Option.map_eq_some_iff.mp h
    refine ⟨rfl, ⟨?_, ?_, ?_, ?_⟩⟩
    · rw [hother _ (by decide)]
      exact hgood.beginString
    · rw [hother _ (by decide)]
      exact hgood.msgType
    · show true = _
      rw [Fields.get?_set_self]
      rfl
    · rw [Fields.get?_set_self]
      rintro value' hvalue
      obtain rfl := Option.some.inj hvalue
      exact ⟨n, hn, rfl⟩
  · obtain rfl := Option.some.inj h
    subst htype
    refine ⟨rfl, ⟨?_, ?_, ?_, ?_⟩⟩
    · rw [hother _ (by decide)]
      exact hgood.beginString
    · show true = _
      rw [Fields.get?_set_self]
      rfl
    · rw [hother _ (by decide)]
      exact hgood.bodyLength
    · rw [hother _ (by decide)]
      exact hgood.value
  · obtain rfl := Option.some.inj h
    refine ⟨rfl, ⟨?_, ?_, ?_, ?_⟩⟩
    · rw [hother _ (Ne.symm hbegin)]
      exact hgood.beginString
    · rw [hother _ (Ne.symm htype)]
      exact hgood.msgType
    · rw [hother _ (Ne.symm hlength)]
      exact hgood.bodyLength
    · rw [hother _ (Ne.symm hlength)]
      exact hgood.value

/-- **The checks at the check sum.** -/
theorem finish_of_complete {message value : Bytes} {head : Head} {fieldEnd : ℕ}
    (hgood : head.Good) (h : Complete message head.msg fieldEnd) :
    finish message head value fieldEnd
      = .message (head.msg.set FIXField.checkSum value) (fieldEnd + 1) := by
  obtain ⟨hbegin, htype, length, n, hlength, hn, hcount⟩ := h
  obtain ⟨n', hn', hbody⟩ := hgood.value length hlength
  obtain rfl : n = n' := Option.some.inj (hn.symm.trans hn')
  have hhas : head.hasBodyLength = true := by rw [hgood.bodyLength, hlength]; rfl
  rw [← hgood.beginString] at hbegin
  rw [← hgood.msgType] at htype
  rw [finish, hbegin, hhas, htype, hbody, hcount]
  simp only [Bool.not_true, Bool.or_false, Bool.false_eq_true, if_false, ne_eq, not_true_eq_false,
    verifyChecksum]

theorem finish_of_not_complete {message value : Bytes} {head : Head} {fieldEnd : ℕ}
    (hgood : head.Good) (h : ¬ Complete message head.msg fieldEnd) :
    finish message head value fieldEnd = .error := by
  by_contra hne
  refine h ?_
  rw [finish] at hne
  by_cases hhas : (!head.hasBeginString || !head.hasBodyLength || !head.hasMsgType) = true
  · rw [if_pos hhas] at hne
    exact absurd rfl hne
  · rw [if_neg hhas] at hne
    simp only [Bool.or_eq_true, Bool.not_eq_true', not_or, Bool.not_eq_false] at hhas
    obtain ⟨⟨hbegin, hlength⟩, htype⟩ := hhas
    by_cases hcount : calculateBodyLength message fieldEnd = toU64 head.bodyLength
    · rw [hgood.bodyLength, Option.isSome_iff_exists] at hlength
      obtain ⟨length, hlength⟩ := hlength
      obtain ⟨n, hn, hbody⟩ := hgood.value length hlength
      rw [hbody] at hcount
      exact ⟨hgood.beginString ▸ hbegin, hgood.msgType ▸ htype, length, n, hlength, hn, hcount⟩
    · rw [if_pos hcount] at hne
      exact absurd rfl hne

theorem Entry.cutAt_text (e : Entry) :
    Framing.cutAt equals e.text = .message e.tagText e.value :=
  Framing.cutAt_piece e.equals_notMem e.value

theorem width_cons (field : Bytes) (fields : List Bytes) :
    width (field :: fields) = field.length + 1 + width fields := by
  rw [width, List.flatMap_cons, List.length_append, List.length_append, List.length_singleton,
    width]

/-- **Fields before the check sum are read**, one after the other. -/
theorem parseFields_plain (message : Bytes) {head : Head} (hgood : head.Good) (pos : ℕ)
    {es : List Entry} (hplain : ∀ e ∈ es, e.Plain) (fields : List Bytes) :
    ∃ head', head'.Good ∧ head'.msg = assigned head.msg es ∧
      parseFields message head pos (es.map Entry.text ++ fields)
        = parseFields message head' (pos + width (es.map Entry.text)) fields := by
  induction es generalizing head pos with
  | nil => exact ⟨head, hgood, rfl, rfl⟩
  | cons e es ih =>
    obtain ⟨⟨hsum, hlength⟩, hplain⟩ := List.forall_mem_cons.mp hplain
    cases hadd : head.add e.tag e.value with
    | none =>
      obtain ⟨htag, hstoi⟩ := Head.add_eq_none.mp hadd
      exact absurd hstoi (hlength htag)
    | some next =>
      obtain ⟨hmsg, hnext⟩ := hgood.add hadd
      obtain ⟨head', hgood', hmsg', hparse⟩ := ih hnext (pos + e.text.length + 1) hplain
      refine ⟨head', hgood', ?_, ?_⟩
      · rw [hmsg', hmsg]
        rfl
      · rw [List.map_cons, List.cons_append, parseFields, e.cutAt_text]
        dsimp only
        rw [e.stoi_tagText]
        dsimp only
        rw [if_neg hsum, hadd]
        dsimp only
        rw [hparse, width_cons]
        congr 1
        omega

/-- What ends the fields that are read without an exception: the end, a field without `=`, one
in which `stoi` throws, or the check sum. -/
inductive Stops : List Bytes → Prop
  | nil : Stops []
  | format {field : Bytes} (rest : List Bytes) (h : equals ∉ field) : Stops (field :: rest)
  | bad {field : Bytes} (rest : List Bytes) (h : Bad field) : Stops (field :: rest)
  | checkSum {last : Entry} (rest : List Bytes) (h : last.tag = FIXField.checkSum) :
      Stops (last.text :: rest)

theorem exists_plain (fields : List Bytes) : ∃ (es : List Entry) (more : List Bytes),
    fields = es.map Entry.text ++ more ∧ (∀ e ∈ es, e.Plain) ∧ Stops more := by
  induction fields with
  | nil => exact ⟨[], [], rfl, fun e he => absurd he List.not_mem_nil, .nil⟩
  | cons field fields ih =>
    have hhere : Stops (field :: fields) → ∃ (es : List Entry) (more : List Bytes),
        field :: fields = es.map Entry.text ++ more ∧ (∀ e ∈ es, e.Plain) ∧ Stops more :=
      fun h => ⟨[], field :: fields, rfl, fun e he => absurd he List.not_mem_nil, h⟩
    by_cases hmem : equals ∈ field
    · obtain ⟨tagText, value, rfl, htagText⟩ := List.eq_append_cons_of_mem hmem
      cases hstoi : stoi tagText with
      | none => exact hhere (.bad fields ⟨tagText, value, rfl, htagText, Or.inl hstoi⟩)
      | some tag =>
        let e : Entry := ⟨tagText, tag, value, htagText, hstoi⟩
        by_cases hsum : tag = FIXField.checkSum
        · have hstops : Stops (e.text :: fields) := .checkSum fields hsum
          exact hhere hstops
        · by_cases hlength : tag = FIXField.bodyLength ∧ stoi value = none
          · refine hhere (.bad fields ⟨tagText, value, rfl, htagText, Or.inr ⟨?_, hlength.2⟩⟩)
            rw [hstoi, hlength.1]
          · obtain ⟨es, more, rfl, hplain, hstops⟩ := ih
            have he : e.Plain := ⟨hsum, fun htag hvalue => hlength ⟨htag, hvalue⟩⟩
            exact ⟨e :: es, more, rfl, List.forall_mem_cons.mpr ⟨he, hplain⟩, hstops⟩
    · exact hhere (.format fields hmem)

/-- A field in which `stoi` throws. -/
theorem parseFields_bad {message field : Bytes} {head : Head} (pos : ℕ) (rest : List Bytes)
    (h : Bad field) : parseFields message head pos (field :: rest) = .thrown := by
  obtain ⟨tagText, value, rfl, hequals, hbad⟩ := h
  rw [parseFields, Framing.cutAt_piece hequals]
  dsimp only
  rcases hbad with hstoi | ⟨hstoi, hvalue⟩
  · rw [hstoi]
  · rw [hstoi]
    dsimp only
    rw [if_neg (by decide), Head.add_eq_none.mpr ⟨rfl, hvalue⟩]

theorem parseFields_checkSum {message : Bytes} {head : Head} (pos : ℕ) {last : Entry}
    (rest : List Bytes) (h : last.tag = FIXField.checkSum) :
    parseFields message head pos (last.text :: rest)
      = finish message head last.value (pos + last.text.length) := by
  rw [parseFields, last.cutAt_text]
  dsimp only
  rw [last.stoi_tagText]
  dsimp only
  rw [if_pos h]

/-! ## Reading a message -/

/-- **A complete message is accepted.** -/
theorem parseMessage_of_accepted {message : Bytes} {msg : Fields} {endPos : ℕ}
    (h : Accepted message msg endPos) : parseMessage message = .message msg endPos := by
  obtain ⟨es, last, more, hpieces, hplain, hsum, hcomplete, rfl, rfl⟩ := h
  obtain ⟨head, hgood, hmsg, hparse⟩ := parseFields_plain message good_start 0 hplain
    (last.text :: more)
  have hstart : assigned Head.start.msg es = assigned Fields.empty es := rfl
  rw [hstart] at hmsg
  rw [parseMessage, hpieces, hparse, parseFields_checkSum _ _ hsum, Nat.zero_add]
  rw [finish_of_complete hgood (hmsg ▸ hcomplete), hmsg]

theorem parseMessage_of_aborted {message : Bytes} (h : Aborted message) :
    parseMessage message = .thrown := by
  obtain ⟨es, field, more, hpieces, hplain, hbad⟩ := h
  obtain ⟨head, -, -, hparse⟩ := parseFields_plain message good_start 0 hplain
    (field :: more)
  rw [parseMessage, hpieces, hparse, parseFields_bad _ _ hbad]

/-- **Nothing else is accepted**, and nothing else throws. -/
theorem parseMessage_cases (message : Bytes) :
    (∃ msg endPos, Accepted message msg endPos) ∨ Aborted message ∨
      parseMessage message = .error := by
  obtain ⟨es, more, hpieces, hplain, hstops⟩ := exists_plain (Framing.pieces soh message).1
  obtain ⟨head, hgood, hmsg, hparse⟩ := parseFields_plain message good_start 0 hplain
    more
  have hstart : assigned Head.start.msg es = assigned Fields.empty es := rfl
  rw [hstart] at hmsg
  have hmessage : parseMessage message
      = parseFields message head (0 + width (es.map Entry.text)) more := by
    rw [parseMessage, hpieces, hparse]
  rw [hmessage]
  cases hstops with
  | nil => exact Or.inr (Or.inr rfl)
  | format rest h =>
    rw [parseFields, Framing.cutAt_of_notMem h]
    exact Or.inr (Or.inr rfl)
  | bad rest h => exact Or.inr (Or.inl ⟨es, _, rest, hpieces, hplain, h⟩)
  | checkSum rest h =>
    rename_i last
    rw [parseFields_checkSum _ _ h, Nat.zero_add]
    by_cases hcomplete : Complete message (assigned Fields.empty es)
        (width (es.map Entry.text) + last.text.length)
    · exact Or.inl ⟨_, _, es, last, rest, hpieces, hplain, h, hcomplete, rfl, rfl⟩
    · rw [finish_of_not_complete hgood (hmsg ▸ hcomplete)]
      exact Or.inr (Or.inr rfl)

theorem accepted_iff {message : Bytes} {msg : Fields} {endPos : ℕ} :
    parseMessage message = .message msg endPos ↔ Accepted message msg endPos := by
  constructor
  · intro h
    rcases parseMessage_cases message with ⟨msg', endPos', hacc⟩ | habort | herror
    · have hmessage := parseMessage_of_accepted hacc
      rw [h] at hmessage
      obtain ⟨rfl, rfl⟩ := Parsed.message.inj hmessage
      exact hacc
    · rw [parseMessage_of_aborted habort] at h
      exact Parsed.noConfusion h
    · rw [herror] at h
      exact Parsed.noConfusion h
  · exact parseMessage_of_accepted

theorem aborted_iff {message : Bytes} : parseMessage message = .thrown ↔ Aborted message := by
  constructor
  · intro h
    rcases parseMessage_cases message with ⟨msg', endPos', hacc⟩ | habort | herror
    · rw [parseMessage_of_accepted hacc] at h
      exact Parsed.noConfusion h
    · exact habort
    · rw [herror] at h
      exact Parsed.noConfusion h
  · exact parseMessage_of_aborted

/-! ## What is accepted is wrong -/

theorem width_append (fields fields' : List Bytes) :
    width (fields ++ fields') = width fields + width fields' := by
  rw [width, List.flatMap_append, List.length_append, width, width]

/-- The last field and its `SOH`. -/
theorem width_concat (fields : List Bytes) (last : Bytes) :
    width (fields ++ [last]) = width fields + last.length + 1 := by
  rw [width_append, width_cons]
  rfl

theorem soh_notMem_of_pieces {message : Bytes} {fields more : List Bytes}
    (h : (Framing.pieces soh message).1 = fields ++ more) : ∀ field ∈ fields, soh ∉ field := by
  intro field hfield
  refine (Framing.notMem_of_pieces message).1 field ?_
  rw [h]
  exact List.mem_append_left _ hfield

/-- **The length that is asked for is too large**: it counts fields 9 and 10. -/
theorem not_bodyLengthRight_of_accepted {message : Bytes} {msg : Fields} {endPos : ℕ}
    (hstart : ascii "8=" <+: message) (h : Accepted message msg endPos) :
    ¬ BodyLengthRight msg (message.take endPos) := by
  rintro ⟨before, len, between, sum, htext, hsoh, hlen, hvalue⟩
  obtain ⟨es, last, more, hpieces, -, -, ⟨-, -, value, n, hlength, hn, hcount⟩, rfl, rfl⟩ := h
  have hfields : (Framing.pieces soh message).1 = (es.map Entry.text ++ [last.text]) ++ more := by
    rw [hpieces, List.append_assoc, List.singleton_append]
  obtain ⟨rest, hmessage⟩ := Framing.exists_of_pieces hfields
  have hwidth := width_concat (es.map Entry.text) last.text
  -- the fields that were read are those of the text
  have htake : message.take (width (es.map Entry.text) + last.text.length + 1)
      = (es.map Entry.text ++ [last.text]).flatMap (· ++ [soh]) := by
    rw [← hwidth, hmessage]
    exact List.take_left
  have hsame : es.map Entry.text ++ [last.text]
      = before ++ (ascii "9=" ++ len) :: (between ++ [ascii "10=" ++ sum]) := by
    have hcut := congrArg (Framing.pieces soh) (htake.symm.trans htext)
    rw [Framing.pieces_flatMap (soh_notMem_of_pieces hfields), Framing.pieces_flatMap hsoh] at hcut
    exact (Prod.mk.inj hcut).1
  -- the length that was read is that of the text
  rw [Fields.get?_set_of_ne _ (by decide), hlength] at hlen
  obtain rfl := Option.some.inj hlen
  rw [hn] at hvalue
  have hn_eq : n.val = ((between.flatMap (· ++ [soh])).length : ℤ) := Option.some.inj hvalue
  have hbound := n.property.2
  rw [hn_eq, toU64_natCast (by omega)] at hcount
  cases before with
  | nil =>
    rw [hmessage, hsame] at hstart
    obtain ⟨t, ht⟩ := hstart
    exact absurd (List.cons.inj ht).1 (by decide)
  | cons first before =>
    have hfirst : soh ∉ first := hsoh first List.mem_cons_self
    have htakeWhile : message.takeWhile (· ≠ soh) = first := by
      rw [hmessage, hsame, List.cons_append, List.flatMap_cons, List.append_assoc,
        List.append_assoc, List.singleton_append]
      exact (Framing.takeWhile_piece hfirst _).1
    have hall := congrArg width hsame
    rw [hwidth, List.cons_append, width_cons, width_append, width_cons, width_append,
      width_cons] at hall
    have hbetween : width between = (between.flatMap (· ++ [soh])).length := rfl
    rw [calculateBodyLength, htakeWhile, ← hbetween] at hcount
    have hten : (ascii "10=" ++ sum).length = 3 + sum.length := List.length_append
    omega

/-! ## The loop -/

/-- Bounds past the length of the buffer do not differ. -/
theorem parseUpTo_congr {n k : ℕ} {s : Bytes} (hn : s.length < n) (hk : s.length < k) :
    parseUpTo n s = parseUpTo k s := by
  induction n generalizing k s with
  | zero => exact absurd hn (Nat.not_lt_zero _)
  | succ n ih =>
    cases k with
    | zero => exact absurd hk (Nat.not_lt_zero _)
    | succ k =>
      rw [parseUpTo, parseUpTo]
      cases hfind : findNextMessageStart s with
      | none => rfl
      | some message =>
        have hshort := (findNextMessageStart_spec hfind).2.1
        have hdrop : ∀ i, parseUpTo n (message.drop i) = parseUpTo k (message.drop i) := by
          intro i
          have hlength := (List.drop_suffix i message).length_le
          exact ih (by omega) (by omega)
        dsimp only
        cases parseMessage message with
        | message msg endPos =>
          dsimp only
          rw [hdrop]
        | error => exact hdrop 1
        | thrown => rfl

theorem parseTexts_of_none {s : Bytes} (h : findNextMessageStart s = none) :
    parseTexts s = some [] := by
  rw [parseTexts, parseUpTo, h]

/-- The rest of the buffer is parsed as a buffer. -/
theorem parseUpTo_drop {s message : Bytes} (h : findNextMessageStart s = some message) (i : ℕ) :
    parseUpTo s.length (message.drop i) = parseTexts (message.drop i) := by
  have hshort := (findNextMessageStart_spec h).2.1
  have hlength := (List.drop_suffix i message).length_le
  exact parseUpTo_congr (by omega) (Nat.lt_succ_self _)

theorem parseTexts_of_message {s message : Bytes} {msg : Fields} {endPos : ℕ}
    (h : findNextMessageStart s = some message)
    (hmessage : parseMessage message = .message msg endPos) :
    parseTexts s
      = (parseTexts (message.drop endPos)).map ((msg, message.take endPos) :: ·) := by
  rw [parseTexts, parseUpTo, h]
  dsimp only
  rw [hmessage]
  dsimp only
  rw [parseUpTo_drop h]

theorem parseTexts_of_error {s message : Bytes} (h : findNextMessageStart s = some message)
    (hmessage : parseMessage message = .error) :
    parseTexts s = parseTexts (message.drop 1) := by
  rw [parseTexts, parseUpTo, h]
  dsimp only
  rw [hmessage]
  exact parseUpTo_drop h 1

theorem parseTexts_of_thrown {s message : Bytes} (h : findNextMessageStart s = some message)
    (hmessage : parseMessage message = .thrown) : parseTexts s = none := by
  rw [parseTexts, parseUpTo, h]
  dsimp only
  rw [hmessage]

/-- **Induction along the places** where a message may start. -/
theorem parse_induction {P : Bytes → Prop}
    (none : ∀ s, findNextMessageStart s = none → P s)
    (message : ∀ s message msg endPos, findNextMessageStart s = some message →
      parseMessage message = .message msg endPos → P (message.drop endPos) → P s)
    (error : ∀ s message, findNextMessageStart s = some message →
      parseMessage message = .error → P (message.drop 1) → P s)
    (thrown : ∀ s message, findNextMessageStart s = some message →
      parseMessage message = .thrown → P s)
    (s : Bytes) : P s := by
  induction hn : s.length using Nat.strong_induction_on generalizing s with
  | _ n ih =>
    cases hfind : findNextMessageStart s with
    | none => exact none s hfind
    | some start =>
      have hshort := (findNextMessageStart_spec hfind).2.1
      have hdrop : ∀ i, P (start.drop i) := by
        intro i
        have hlength := (List.drop_suffix i start).length_le
        exact ih (start.drop i).length (by omega) (start.drop i) rfl
      cases hmessage : parseMessage start with
      | message msg endPos => exact message s start msg endPos hfind hmessage (hdrop endPos)
      | error => exact error s start hfind hmessage (hdrop 1)
      | thrown => exact thrown s start hfind hmessage

/-- **Every message that is returned is wrong.** -/
theorem wrong_of_parseTexts {s : Bytes} {messages : List (Fields × Bytes)}
    (h : parseTexts s = some messages) : ∀ m ∈ messages, ¬ BodyLengthRight m.1 m.2 := by
  induction s using parse_induction generalizing messages with
  | none s hfind =>
    rw [parseTexts_of_none hfind] at h
    obtain rfl := Option.some.inj h
    exact fun m hm => absurd hm List.not_mem_nil
  | message s message msg endPos hfind hmessage ih =>
    rw [parseTexts_of_message hfind hmessage] at h
    obtain ⟨later, hlater, rfl⟩ := Option.map_eq_some_iff.mp h
    rw [List.forall_mem_cons]
    exact ⟨not_bodyLengthRight_of_accepted (findNextMessageStart_spec hfind).2.2
      (accepted_iff.mp hmessage), ih hlater⟩
  | error s message hfind hmessage ih =>
    rw [parseTexts_of_error hfind hmessage] at h
    exact ih h
  | thrown s message hfind hmessage =>
    rw [parseTexts_of_thrown hfind hmessage] at h
    exact absurd h.symm (Option.some_ne_none _)

/-- No more messages are returned than there are places to start. -/
theorem length_parseTexts {s : Bytes} {messages : List (Fields × Bytes)}
    (h : parseTexts s = some messages) : messages.length ≤ (starts s).length := by
  induction s using parse_induction generalizing messages with
  | none s hfind =>
    rw [parseTexts_of_none hfind] at h
    obtain rfl := Option.some.inj h
    exact Nat.zero_le _
  | message s message msg endPos hfind hmessage ih =>
    rw [parseTexts_of_message hfind hmessage] at h
    obtain ⟨later, hlater, rfl⟩ := Option.map_eq_some_iff.mp h
    have hrest := ih hlater
    have hdrop := (starts_drop_suffix message endPos).length_le
    rw [starts_of_some hfind, List.length_cons, List.length_cons]
    omega
  | error s message hfind hmessage ih =>
    rw [parseTexts_of_error hfind hmessage] at h
    have hrest := ih h
    have hdrop := (starts_drop_suffix message 1).length_le
    rw [starts_of_some hfind, List.length_cons]
    omega
  | thrown s message hfind hmessage =>
    rw [parseTexts_of_thrown hfind hmessage] at h
    exact absurd h.symm (Option.some_ne_none _)

/-! ## When nothing wrong is returned -/

/-- Neither a message nor an exception. -/
def Rejected (message : Bytes) : Prop :=
  (∀ msg endPos, ¬ Accepted message msg endPos) ∧ ¬ Aborted message

/-- In one of the places that the parser gets to `stoi` throws: it gets past those that are
rejected, and to those behind a message that is accepted. -/
inductive Throws : Bytes → Prop
  | here {s message : Bytes} {quiet more : List Bytes} (h : starts s = quiet ++ message :: more)
      (hquiet : ∀ q ∈ quiet, Rejected q) (habort : Aborted message) : Throws s
  | later {s message : Bytes} {quiet more : List Bytes} {msg : Fields} {endPos : ℕ}
      (h : starts s = quiet ++ message :: more) (hquiet : ∀ q ∈ quiet, Rejected q)
      (hmessage : Accepted message msg endPos) (hthrows : Throws (message.drop endPos)) : Throws s

/-- If the first place that is not rejected is accepted, `stoi` throws behind it. -/
def Harmless (s : Bytes) : Prop :=
  ∀ quiet message more msg endPos, starts s = quiet ++ message :: more →
    (∀ q ∈ quiet, Rejected q) → Accepted message msg endPos → Throws (message.drop endPos)

theorem rejected_iff {message : Bytes} : parseMessage message = .error ↔ Rejected message := by
  constructor
  · intro h
    refine ⟨fun msg endPos hacc => ?_, fun habort => ?_⟩
    · rw [parseMessage_of_accepted hacc] at h
      exact Parsed.noConfusion h
    · rw [parseMessage_of_aborted habort] at h
      exact Parsed.noConfusion h
  · rintro ⟨hacc, habort⟩
    rcases parseMessage_cases message with ⟨msg, endPos, h⟩ | h | h
    · exact absurd h (hacc msg endPos)
    · exact absurd h habort
    · exact h

theorem find_of_starts {s message : Bytes} {more : List Bytes} (h : starts s = message :: more) :
    findNextMessageStart s = some message ∧ starts message = more := by
  cases hfind : findNextMessageStart s with
  | none =>
    rw [starts_of_none hfind] at h
    exact absurd h.symm (List.cons_ne_nil _ _)
  | some message' =>
    rw [starts_of_some hfind] at h
    obtain ⟨rfl, hmore⟩ := List.cons.inj h
    exact ⟨rfl, hmore⟩

/-- **What is rejected is passed over.** -/
theorem exists_of_quiet {s message : Bytes} {quiet more : List Bytes}
    (h : starts s = quiet ++ message :: more) (hquiet : ∀ q ∈ quiet, Rejected q) :
    ∃ s', findNextMessageStart s' = some message ∧ parseTexts s = parseTexts s' := by
  induction quiet generalizing s with
  | nil => exact ⟨s, (find_of_starts h).1, rfl⟩
  | cons q quiet ih =>
    obtain ⟨hq, hquiet⟩ := List.forall_mem_cons.mp hquiet
    obtain ⟨hfind, hmore⟩ := find_of_starts h
    have hdrop := starts_drop_one (findNextMessageStart_spec hfind).2.2
    obtain ⟨s', hfind', hparse⟩ := ih (hdrop.trans hmore) hquiet
    exact ⟨s', hfind', by rw [parseTexts_of_error hfind (rejected_iff.mpr hq), hparse]⟩

/-- The places behind one that is rejected. -/
theorem starts_of_rejected {s message : Bytes} {quiet more : List Bytes} {next : Bytes}
    (hfind : findNextMessageStart s = some message)
    (h : starts (message.drop 1) = quiet ++ next :: more) :
    starts s = (message :: quiet) ++ next :: more := by
  rw [starts_of_some hfind, ← starts_drop_one (findNextMessageStart_spec hfind).2.2, h,
    List.cons_append]

theorem throws_of_rejected {s message : Bytes} (hfind : findNextMessageStart s = some message)
    (hrejected : Rejected message) (h : Throws (message.drop 1)) : Throws s := by
  cases h with
  | here h hquiet habort =>
    exact .here (starts_of_rejected hfind h) (List.forall_mem_cons.mpr ⟨hrejected, hquiet⟩) habort
  | later h hquiet hmessage hthrows =>
    exact .later (starts_of_rejected hfind h) (List.forall_mem_cons.mpr ⟨hrejected, hquiet⟩)
      hmessage hthrows

/-- **When an exception leaves the parser.** -/
theorem parseTexts_eq_none_iff {s : Bytes} : parseTexts s = none ↔ Throws s := by
  constructor
  · intro h
    induction s using parse_induction with
    | none s hfind =>
      rw [parseTexts_of_none hfind] at h
      exact absurd h (Option.some_ne_none _)
    | message s message msg endPos hfind hmessage ih =>
      rw [parseTexts_of_message hfind hmessage, Option.map_eq_none_iff] at h
      have hstarts : starts s = [] ++ message :: starts message := starts_of_some hfind
      exact .later hstarts (List.forall_mem_nil _) (accepted_iff.mp hmessage) (ih h)
    | error s message hfind hmessage ih =>
      rw [parseTexts_of_error hfind hmessage] at h
      exact throws_of_rejected hfind (rejected_iff.mp hmessage) (ih h)
    | thrown s message hfind hmessage =>
      have hstarts : starts s = [] ++ message :: starts message := starts_of_some hfind
      exact .here hstarts (List.forall_mem_nil _) (aborted_iff.mp hmessage)
  · intro h
    induction h with
    | here h hquiet habort =>
      obtain ⟨s', hfind, hparse⟩ := exists_of_quiet h hquiet
      rw [hparse, parseTexts_of_thrown hfind (aborted_iff.mpr habort)]
    | later h hquiet hmessage hthrows ih =>
      obtain ⟨s', hfind, hparse⟩ := exists_of_quiet h hquiet
      rw [hparse, parseTexts_of_message hfind (accepted_iff.mpr hmessage), ih]
      rfl

/-- **When no wrong message is returned.** -/
theorem noneWrong_iff_harmless {s : Bytes} : NoneWrong s ↔ Harmless s := by
  constructor
  · intro h quiet message more msg endPos hstarts hquiet hmessage
    obtain ⟨s', hfind, hparse⟩ := exists_of_quiet hstarts hquiet
    rw [parseTexts_of_message hfind (accepted_iff.mpr hmessage)] at hparse
    rw [← parseTexts_eq_none_iff]
    cases hrest : parseTexts (message.drop endPos) with
    | none => rfl
    | some later =>
      rw [hrest] at hparse
      have hright := (h _ hparse _ List.mem_cons_self).1
      exact absurd hright (wrong_of_parseTexts hparse _ List.mem_cons_self)
  · intro h messages hmessages
    have hnil : messages = [] := by
      induction s using parse_induction with
      | none s hfind =>
        rw [parseTexts_of_none hfind] at hmessages
        exact (Option.some.inj hmessages).symm
      | message s message msg endPos hfind hmessage ih =>
        have hthrows := h [] message _ msg endPos (starts_of_some hfind) (List.forall_mem_nil _)
          (accepted_iff.mp hmessage)
        rw [parseTexts_of_message hfind hmessage, parseTexts_eq_none_iff.mpr hthrows] at hmessages
        exact absurd hmessages.symm (Option.some_ne_none _)
      | error s message hfind hmessage ih =>
        rw [parseTexts_of_error hfind hmessage] at hmessages
        refine ih (fun quiet next more msg endPos hstarts hquiet hnext => ?_) hmessages
        exact h (message :: quiet) next more msg endPos (starts_of_rejected hfind hstarts)
          (List.forall_mem_cons.mpr ⟨rejected_iff.mp hmessage, hquiet⟩) hnext
      | thrown s message hfind hmessage =>
        rw [parseTexts_of_thrown hfind hmessage] at hmessages
        exact absurd hmessages.symm (Option.some_ne_none _)
    rw [hnil]
    exact List.forall_mem_nil _

/-! ## The first message -/

/-- The rest of a field starts no message. -/
theorem starts_piece {field : Bytes} (h : soh ∉ field) (t : Bytes) :
    starts (field ++ soh :: t) = starts (soh :: t) := by
  induction field with
  | nil => rfl
  | cons b field ih =>
    obtain ⟨hb, hfield⟩ := not_or.mp (fun hor => h (List.mem_cons.mpr hor))
    rw [List.cons_append, starts, if_neg fun hstart => hb hstart.1.symm, ih hfield]

/-- A pattern without `SOH` stands in the first field. -/
theorem start_of_piece {pat field t : Bytes} (hpat : soh ∉ pat) (h : pat <+: field ++ soh :: t) :
    pat <+: field := by
  rcases Nat.lt_or_ge field.length pat.length with hlt | hle
  · have hfield : field ++ [soh] <+: field ++ soh :: t := ⟨t, by
      rw [List.append_assoc, List.singleton_append]⟩
    have hlong : field ++ [soh] <+: pat := List.prefix_of_prefix_length_le hfield h (by
      rw [List.length_append, List.length_singleton]
      omega)
    exact absurd (hlong.subset (List.mem_append_right _ List.mem_cons_self)) hpat
  · exact (List.isPrefix_append_of_length hle).mp h

/-- Whether a field starts with `8=`. -/
def isStart (field : Bytes) : Bool := decide (ascii "8=" <+: field)

/-- **No more places to start than fields `8=`**, and the first field is none. -/
theorem length_starts {fields : List Bytes} (h : ∀ field ∈ fields, soh ∉ field) :
    (starts (fields.flatMap (· ++ [soh]))).length ≤ fields.tail.countP isStart := by
  induction fields with
  | nil => exact Nat.zero_le _
  | cons field fields ih =>
    obtain ⟨hfield, hfields⟩ := List.forall_mem_cons.mp h
    have hrest := ih hfields
    rw [List.flatMap_cons, List.append_assoc, List.singleton_append, starts_piece hfield, starts,
      List.tail_cons]
    split_ifs with hstart
    · cases fields with
      | nil => exact absurd hstart.2.2 (by decide)
      | cons next fields =>
        have hnext : isStart next = true := by
          have hpart := hstart.2.1
          rw [List.flatMap_cons, List.append_assoc, List.singleton_append] at hpart
          exact decide_eq_true (start_of_piece (by decide) hpart)
        rw [List.length_cons, List.countP_cons_of_pos hnext]
        exact Nat.succ_le_succ hrest
    · exact hrest.trans (List.tail_sublist fields).countP_le

/-- The fields of a message, as text. -/
def Msg.pieces (m : Msg) : List Bytes := m.entries.map fieldText

theorem Msg.text_eq (m : Msg) : m.text = m.pieces.flatMap (· ++ [soh]) := by
  rw [Msg.text, fieldsText, Msg.pieces, List.flatMap_map]

theorem stream_eq (ms : List Msg) : stream ms = (ms.flatMap Msg.pieces).flatMap (· ++ [soh]) := by
  induction ms with
  | nil => rfl
  | cons m ms ih =>
    have hcons : stream (m :: ms) = m.text ++ stream ms := by
      rw [stream, List.map_cons, List.flatten_cons, stream]
    rw [hcons, ih, m.text_eq, List.flatMap_cons, List.flatMap_append]

theorem Msg.soh_notMem_pieces (m : Msg) : ∀ field ∈ m.pieces, soh ∉ field := by
  obtain ⟨hbegin, htype, hbody⟩ := m.soh_notMem
  have hfront : ∀ e ∈ m.front, soh ∉ e.2 := by
    rw [Msg.front, List.forall_mem_cons, List.forall_mem_cons, List.forall_mem_cons]
    exact ⟨hbegin, soh_notMem_of_isDigit m.isDigit_length, htype, hbody⟩
  intro field hfield
  obtain ⟨e, he, rfl⟩ := List.mem_map.mp hfield
  refine soh_notMem_fieldText ?_
  rcases List.mem_append.mp he with he | he
  · exact hfront e he
  · rw [List.mem_singleton.mp he]
    exact soh_notMem_threeDigits _

/-! ## A right message -/

theorem stoi_of_isDigit {text : Bytes} (hne : text ≠ []) (hdigits : ∀ b ∈ text, isDigit b = true)
    (hsmall : readDigits text < 2 ^ 31) : (stoi text).map Subtype.val = some (readDigits text : ℤ) := by
  obtain ⟨b, rest, rfl⟩ := List.exists_cons_of_ne_nil hne
  have hall : (b :: rest).takeWhile isDigit = b :: rest := List.takeWhile_eq_self_iff.mpr hdigits
  have hnumber : readNumber (b :: rest) = some (readDigits (b :: rest)) := by
    rw [readNumber, hall, if_neg hne]
  have hread : readInt (b :: rest) = some (readDigits (b :: rest) : ℤ) := by
    rw [readInt, readSigned_of_isDigit (hdigits b List.mem_cons_self), hnumber]
    rfl
  have hrange : -2 ^ 31 ≤ (readDigits (b :: rest) : ℤ) ∧ (readDigits (b :: rest) : ℤ) < 2 ^ 31 := by
    omega
  rw [stoi, hread, Option.bind_some, dif_pos hrange]
  rfl

/-- Field 9 is found as it stands. -/
theorem Msg.get?_bodyLength (m : Msg) : m.fields.get? FIXField.bodyLength = some m.length := by
  have hbody : m.body.filter (fun e => e.1 = FIXField.bodyLength) = [] := by
    rw [List.filter_eq_nil_iff]
    intro e he htag
    exact (of_decide_eq_true (m.isBodyField_body e he)).2.1 (of_decide_eq_true htag)
  rw [Msg.fields, SortedMap.get?_assignAll, Msg.entries, Msg.front, List.filter_append,
    filter_cons_tag_of_ne (by decide), filter_cons_tag, filter_cons_tag_of_ne (by decide), hbody,
    filter_cons_tag_of_ne (by decide)]
  rfl

theorem fieldText_checkSum (sum : Bytes) :
    fieldText (FIXField.checkSum, sum) = ascii "10=" ++ sum :=
  fieldText_eq (by decide) sum

/-- **A well-formed message is right.** -/
theorem Msg.right (m : Msg) (hsmall : readDigits m.length < 2 ^ 31) :
    BodyLengthRight m.fields m.text ∧ CheckSumRight m.text := by
  constructor
  · have hpieces : m.pieces = [fieldText (FIXField.beginString, m.beginString)]
        ++ (ascii "9=" ++ m.length) :: (((FIXField.msgType, m.msgType) :: m.body).map fieldText
          ++ [ascii "10=" ++ Stream.checksumText (fieldsText m.front)]) := by
      have hnine := fieldText_eq (by decide : decimalInt FIXField.bodyLength.val ++ [equals]
        = ascii "9=") m.length
      rw [Msg.pieces, Msg.entries, Msg.front, List.map_append, List.map_cons, List.map_cons, hnine,
        List.map_singleton, fieldText_checkSum]
      rfl
    refine ⟨_, m.length, _, _, m.text_eq.trans (congrArg _ hpieces), ?_, m.get?_bodyLength, ?_⟩
    · rw [← hpieces]
      exact m.soh_notMem_pieces
    · rw [stoi_of_isDigit m.length_ne_nil m.isDigit_length hsmall, m.length_eq, List.flatMap_map]
      rfl
  · refine ⟨fieldsText m.front, ?_⟩
    rw [Msg.text, Msg.entries, fieldsText, List.flatMap_append, List.flatMap_singleton,
      ← fieldsText, fieldText_checkSum, List.append_assoc (ascii "10=")]

/-- A field with its tag in decimal. -/
def entryOf (e : Tag × Bytes) : Entry where
  tagText := decimalInt e.1.val
  tag := e.1
  value := e.2
  equals_notMem := (notMem_decimalInt e.1.val).1
  stoi_tagText := stoi_decimalInt e.1

theorem assigned_entryOf (es : List (Tag × Bytes)) :
    assigned Fields.empty (es.map entryOf) = Fields.empty.assignAll [] es := by
  rw [assigned, List.map_map]
  exact congrArg _ (List.map_id es)

theorem Msg.plain_front (m : Msg) (hsmall : readDigits m.length < 2 ^ 31) :
    ∀ e ∈ m.front.map entryOf, e.Plain := by
  have hlength : stoi m.length ≠ none := by
    intro hnone
    have hread := stoi_of_isDigit m.length_ne_nil m.isDigit_length hsmall
    rw [hnone] at hread
    exact absurd hread.symm (Option.some_ne_none _)
  have hother : ∀ tag value, tag ≠ FIXField.checkSum → tag ≠ FIXField.bodyLength →
      (entryOf (tag, value)).Plain := fun tag value hsum hne => ⟨hsum, fun h => absurd h hne⟩
  rw [List.forall_mem_map, Msg.front, List.forall_mem_cons, List.forall_mem_cons,
    List.forall_mem_cons]
  refine ⟨hother _ _ (by decide) (by decide), ?_, hother _ _ (by decide) (by decide), ?_⟩
  · have hsum : FIXField.bodyLength ≠ FIXField.checkSum := by decide
    exact ⟨hsum, fun _ => hlength⟩
  · intro e he
    obtain ⟨-, hnine, hten⟩ := of_decide_eq_true (m.isBodyField_body e he)
    exact hother e.1 e.2 hten hnine

/-- **A right message is never accepted**, wherever it stands. -/
theorem parseMessage_text (m : Msg) (hsmall : readDigits m.length < 2 ^ 31) (t : Bytes) :
    parseMessage (m.text ++ t) = .error := by
  let last := entryOf (FIXField.checkSum, Stream.checksumText (fieldsText m.front))
  have hmap : (m.front.map entryOf).map Entry.text = m.front.map fieldText := by
    rw [List.map_map]
    rfl
  have hpieces : (Framing.pieces soh (m.text ++ t)).1
      = (m.front.map entryOf).map Entry.text ++ last.text :: (Framing.pieces soh t).1 := by
    rw [m.text_eq, Framing.pieces_flatMap_append m.soh_notMem_pieces, Msg.pieces, Msg.entries,
      List.map_append, hmap, List.append_assoc]
    rfl
  obtain ⟨head, hgood, hmsg, hparse⟩ := parseFields_plain (m.text ++ t) good_start 0
    (m.plain_front hsmall) (last.text :: (Framing.pieces soh t).1)
  have hstart : assigned Head.start.msg (m.front.map entryOf)
      = assigned Fields.empty (m.front.map entryOf) := rfl
  rw [hstart] at hmsg
  rw [parseMessage, hpieces, hparse, parseFields_checkSum _ _ rfl, Nat.zero_add]
  refine finish_of_not_complete hgood fun hcomplete => ?_
  rw [hmsg] at hcomplete
  -- it would be accepted with its own fields and its own text
  have hfields : (assigned Fields.empty (m.front.map entryOf)).set FIXField.checkSum last.value
      = m.fields := by
    rw [assigned_entryOf, Msg.fields, Msg.entries, SortedMap.assignAll, SortedMap.assignAll,
      List.foldl_append]
    rfl
  have hlength : width ((m.front.map entryOf).map Entry.text) + last.text.length + 1
      = m.text.length := by
    rw [hmap, m.text_eq, Msg.pieces, Msg.entries, List.map_append, List.map_singleton]
    exact (width_concat _ _).symm
  have haccepted : Accepted (m.text ++ t) m.fields m.text.length :=
    ⟨_, last, _, hpieces, m.plain_front hsmall, rfl, hcomplete, hfields.symm, hlength.symm⟩
  have hbegin : ascii "8=" <+: m.text ++ t := by
    have hfirst := fieldText_eq (by decide : decimalInt FIXField.beginString.val ++ [equals]
      = ascii "8=") m.beginString
    rw [Msg.text, Msg.entries, Msg.front, fieldsText, List.cons_append, List.flatMap_cons, hfirst]
    simp only [List.append_assoc]
    exact List.prefix_append _ _
  have hwrong := not_bodyLengthRight_of_accepted hbegin haccepted
  rw [List.take_left] at hwrong
  exact hwrong (m.right hsmall).1

/-- Only field 8 starts with `8=`. -/
theorem isStart_fieldText {e : Tag × Bytes} (h : e.1 ≠ FIXField.beginString) :
    isStart (fieldText e) = false := by
  rw [isStart, decide_eq_false_iff_not]
  rintro ⟨value, hvalue⟩
  have hcut : Framing.cutAt equals (ascii "8" ++ equals :: value)
      = .message (decimalInt e.1.val) e.2 := by
    have htext : ascii "8" ++ equals :: value = fieldText e := hvalue
    rw [htext]
    exact cutAt_fieldText e
  have height : equals ∉ ascii "8" := by decide
  rw [Framing.cutAt_piece height] at hcut
  injection hcut with htag
  have hread := stoi_decimalInt e.1
  have hbegin : stoi (ascii "8") = some FIXField.beginString := by decide +kernel
  rw [← htag, hbegin] at hread
  exact h (Option.some.inj hread).symm

/-- The fields of a message behind its first start no message. -/
theorem Msg.countP_tail (m : Msg) : m.pieces.tail.countP isStart = 0 := by
  rw [List.countP_eq_zero]
  have hfields : ∀ e ∈ m.entries.tail, e.1 ≠ FIXField.beginString := by
    have htail : m.entries.tail = (FIXField.bodyLength, m.length)
        :: (FIXField.msgType, m.msgType) :: (m.body
          ++ [(FIXField.checkSum, Stream.checksumText (fieldsText m.front))]) := rfl
    rw [htail, List.forall_mem_cons, List.forall_mem_cons, List.forall_mem_append,
      List.forall_mem_singleton]
    have hlength : FIXField.bodyLength ≠ FIXField.beginString := by decide
    have htype : FIXField.msgType ≠ FIXField.beginString := by decide
    have hsum : FIXField.checkSum ≠ FIXField.beginString := by decide
    exact ⟨hlength, htype, fun e he => (of_decide_eq_true (m.isBodyField_body e he)).1, hsum⟩
  intro field hfield
  rw [Msg.pieces, ← List.map_tail] at hfield
  obtain ⟨e, he, rfl⟩ := List.mem_map.mp hfield
  rw [isStart_fieldText (hfields e he)]
  exact Bool.false_ne_true

theorem Msg.countP_pieces (m : Msg) : m.pieces.countP isStart ≤ 1 := by
  have hcons : m.pieces = fieldText (FIXField.beginString, m.beginString) :: m.pieces.tail := rfl
  rw [hcons, List.countP_cons, m.countP_tail]
  split_ifs
  · exact le_refl 1
  · exact Nat.zero_le 1

/-- **One place to start is missing**: that of the first message. -/
theorem length_starts_stream (m : Msg) (ms : List Msg) :
    (starts (stream (m :: ms))).length ≤ ms.length := by
  have hsoh : ∀ field ∈ (m :: ms).flatMap Msg.pieces, soh ∉ field := by
    intro field hfield
    obtain ⟨m', -, hfield⟩ := List.mem_flatMap.mp hfield
    exact m'.soh_notMem_pieces field hfield
  have hothers : ∀ ms : List Msg, (ms.flatMap Msg.pieces).countP isStart ≤ ms.length := by
    intro ms
    induction ms with
    | nil => exact Nat.zero_le _
    | cons m ms ih =>
      have hone := m.countP_pieces
      rw [List.flatMap_cons, List.countP_append, List.length_cons]
      omega
  have htail : ((m :: ms).flatMap Msg.pieces).tail = m.pieces.tail ++ ms.flatMap Msg.pieces := rfl
  have hcount := length_starts hsoh
  rw [htail, List.countP_append, m.countP_tail, Nat.zero_add] at hcount
  rw [stream_eq]
  exact hcount.trans (hothers ms)

/-- **When all messages are returned**: when there is none. -/
theorem parses_iff_nil (ms : List Msg) : Parses ms ↔ ms = [] := by
  constructor
  · intro h
    cases ms with
    | nil => rfl
    | cons m ms =>
      obtain ⟨messages, hmessages, hfields⟩ := Option.map_eq_some_iff.mp h
      have hlength := congrArg List.length hfields
      rw [List.length_map, List.length_map, List.length_cons] at hlength
      have hparse := length_parseTexts hmessages
      have hstarts := length_starts_stream m ms
      omega
  · rintro rfl
    rfl

/-- **When the parser keeps what it promises**: all messages are returned when there is none, and
no wrong one when none is accepted, or an exception follows. -/
theorem parses_iff_and_noneWrong_iff (ms : List Msg) (buffer : Bytes) :
    (Parses ms ↔ ms = []) ∧ (NoneWrong buffer ↔ Harmless buffer) :=
  ⟨parses_iff_nil ms, noneWrong_iff_harmless⟩

/-- A heartbeat. -/
def heartbeat : Msg where
  beginString := ascii "FIX.4.2"
  length := Stream.heartbeat.length
  msgType := ascii "0"
  body := []
  soh_notMem := by decide
  isBodyField_body := fun e he => absurd he List.not_mem_nil
  length_ne_nil := Stream.heartbeat.length_ne_nil
  isDigit_length := Stream.heartbeat.isDigit_length
  length_eq := by decide +kernel

/-- The same behind an `SOH`, with the length that the parser asks for and a wrong check sum. -/
def wrongHeartbeat : Bytes :=
  soh :: [ascii "8=FIX.4.2", ascii "9=16", ascii "35=0", ascii "10=000"].flatMap (· ++ [soh])

/-- **A heartbeat is not returned, and a wrong one is.** -/
theorem not_parses_heartbeat : ¬ Parses [heartbeat] ∧ ¬ NoneWrong wrongHeartbeat := by
  refine ⟨fun h => absurd ((parses_iff_nil _).mp h) (List.cons_ne_nil _ _), fun h => ?_⟩
  have hone : (parseTexts wrongHeartbeat).map List.length = some 1 := by decide +kernel
  obtain ⟨messages, hmessages, hlength⟩ := Option.map_eq_some_iff.mp hone
  cases messages with
  | nil => exact absurd hlength (by decide)
  | cons m messages =>
    have hright := (h _ hmessages m List.mem_cons_self).1
    exact wrong_of_parseTexts hmessages m List.mem_cons_self hright

end FixParser.Batch
