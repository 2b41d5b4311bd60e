/-
# Both ends of a FIX session

`FixSession` of `fix42_a.cpp`: what `sendMessage` writes, and what a peer of the same class
makes of the bytes.  The sender patches the length of the message into a placeholder; the
receiver cuts the bytes at every `SOH`, which ends each field, and parses every piece as a
message.
-/
import FastServer.FixMessage
import FastServer.MachineInt

namespace FixSession

open FIX42Protocol Framing

/-! ## Sending -/

/-- The identities of a session. -/
structure Sender where
  senderCompID_ : Bytes
  targetCompID_ : Bytes

/-- A call of `sendMessage`, and the time that `getCurrentTimestamp` returns in it. -/
structure Call where
  msgType : Bytes
  fields : Fields
  timestamp : Bytes

/-- A field and the `SOH` behind it. -/
def field (tag : Tag) (value : Bytes) : Bytes := fieldText (tag, value) ++ [soh]

def Call.body (c : Call) : Bytes :=
  field FIXField.msgType c.msgType ++ c.fields.entries.flatMap fun e => field e.1 e.2

/-- The fields behind `BodyLength`. -/
def Call.content (a : Sender) (msgSeqNum : ℤ) (c : Call) : Bytes :=
  field FIXField.msgSeqNum (decimalInt msgSeqNum)
    ++ (field FIXField.senderCompID a.senderCompID_
    ++ (field FIXField.targetCompID a.targetCompID_
    ++ (field FIXField.sendingTime c.timestamp ++ c.body)))

/-- The message with a placeholder for its length. -/
def Call.draft (a : Sender) (msgSeqNum : ℤ) (c : Call) : Bytes :=
  field FIXField.beginString (ascii "FIX.4.2")
    ++ (field FIXField.bodyLength (ascii "000000") ++ c.content a msgSeqNum)

/-- The length of the whole message, less the one byte of the tag and three more. -/
def bodyLength (fullMsg : Bytes) : ℤ := toI32 (fullMsg.length - 1 - 3)

/-- The placeholder is replaced by the length, if it is found.  A length of more than six
characters throws: `6 - bodyLengthStr.length()` wraps. -/
def replaceLength (fullMsg : Bytes) : Option Bytes :=
  let bodyLengthStr := decimalInt (bodyLength fullMsg)
  let pos := (textBefore (ascii "000000") fullMsg).length
  if pos < fullMsg.length then
    if bodyLengthStr.length ≤ 6 then
      some (fullMsg.take pos ++ (List.replicate (6 - bodyLengthStr.length) 48 ++ bodyLengthStr)
        ++ fullMsg.drop (pos + 6))
    else none
  else some fullMsg

/-- The sum of the bytes, as an `unsigned char`. -/
def checksum (msg : Bytes) : ℕ := msg.foldl (fun sum c => (sum + c.toNat) % 256) 0

/-- What `sendMessage` writes, if it does not throw. -/
def sendMessage (a : Sender) (msgSeqNum : ℤ) (c : Call) : Option Bytes :=
  (replaceLength (c.draft a msgSeqNum)).map fun fullMsg =>
    fullMsg ++ field FIXField.checkSum (threeDigits (checksum fullMsg))

/-- The messages that a sequence of calls writes; `send` takes all bytes of each. -/
def wire (a : Sender) : ℤ → List Call → List Bytes
  | _, [] => []
  | msgSeqNum, c :: cs =>
      match sendMessage a msgSeqNum c with
      | some msg => msg :: wire a (toI32 (msgSeqNum + 1)) cs
      | none => wire a msgSeqNum cs

/-! ## Receiving -/

/-- `std::getline`: the text up to the delimiter or the end, and what follows; it fails when
nothing is left. -/
def getline (delim : UInt8) : Bytes → Option (Bytes × Bytes)
  | [] => none
  | b :: s => some ((b :: s).takeWhile (· ≠ delim), ((b :: s).dropWhile (· ≠ delim)).tail)

theorem getline_length {delim : UInt8} {s a t : Bytes} (h : getline delim s = some (a, t)) :
    t.length < s.length := by
  cases s with
  | nil => exact absurd h.symm (Option.some_ne_none _)
  | cons b s =>
    obtain ⟨-, rfl⟩ := Prod.mk.inj (Option.some.inj h)
    have hdrop := (List.dropWhile_suffix (l := b :: s) (· ≠ delim)).length_le
    rw [List.length_tail]
    have hpos : 0 < (b :: s).length := Nat.succ_pos _
    omega

/-- The loop of `parseFixMessage`; `none` stands for the exceptions. -/
def parseFields (fields : Fields) (s : Bytes) : Option Fields :=
  match h : getline equals s with
  | none => some fields
  | some (tag, rest) =>
      match stoi tag with
      | none => none
      | some tag =>
          match h' : getline soh rest with
          | none => none
          | some (value, rest') =>
              have := getline_length h
              have := getline_length h'
              parseFields (fields.set tag value) rest'
termination_by s.length

/-- The fields of a message, if it has the version and a type. -/
def parseFixMessage (message : Bytes) : Option Fields :=
  (parseFields Fields.empty message).bind fun fields =>
    if fields.get? FIXField.beginString = some (ascii "FIX.4.2") ∧
        (fields.get? FIXField.msgType).isSome then some fields
    else none

/-- What the receive thread puts into the message queue. -/
def receiveThreadFunc : Bytes → List Bytes → List Bytes
  | _, [] => []
  | incompleteMessage, chunk :: chunks =>
      (pieces soh (incompleteMessage ++ chunk)).1
        ++ receiveThreadFunc (pieces soh (incompleteMessage ++ chunk)).2 chunks

/-- What the process thread calls `handleMessage` with; it catches the exceptions. -/
def handled (chunks : List Bytes) : List Fields :=
  (receiveThreadFunc [] chunks).filterMap parseFixMessage

/-! ## What should hold -/

/-- The fields that are handled have the type and the fields of the call. -/
def Call.Matches (c : Call) (fields : Fields) : Prop :=
  fields.get? FIXField.msgType = some c.msgType ∧
    ∀ e ∈ c.fields.entries, fields.get? e.1 = some e.2

/-- Field 9 of a message counts the bytes behind it up to field 10. -/
def BodyLengthRight (msg : Bytes) : Prop :=
  ∃ len content sum, msg = ascii "8=FIX.4.2" ++ soh :: (ascii "9=" ++ (len ++ soh :: (content
      ++ (ascii "10=" ++ (sum ++ [soh]))))) ∧
    (∀ b ∈ len, isDigit b = true) ∧ sum.length = 3 ∧ readDigits len = content.length

/-- Field 10 of a message is the sum of the bytes before it, modulo 256. -/
def CheckSumRight (msg : Bytes) : Prop :=
  ∃ front, msg = front ++ (ascii "10=" ++
    (threeDigits ((front.map UInt8.toNat).sum % 256) ++ [soh]))

/-- **What the two ends promise.**  However the bytes arrive, the peer handles every message
once and in order; and the length and the check sum of each are right. -/
structure Delivers (a : Sender) (calls : List Call) : Prop where
  handled : ∀ chunks, chunks.flatten = (wire a 1 calls).flatten →
    List.Forall₂ Call.Matches calls (handled chunks)
  lengths : ∀ msg ∈ wire a 1 calls, BodyLengthRight msg
  checksums : ∀ msg ∈ wire a 1 calls, CheckSumRight msg

/-! ## Nothing is handled -/

/-- Without a delimiter the rest of the text is read. -/
theorem getline_of_notMem {delim : UInt8} {s a t : Bytes} (hs : delim ∉ s)
    (h : getline delim s = some (a, t)) : t = [] := by
  cases s with
  | nil => exact absurd h.symm (Option.some_ne_none _)
  | cons b s =>
    obtain ⟨-, rfl⟩ := Prod.mk.inj (Option.some.inj h)
    rw [(takeWhile_of_notMem hs).2]
    rfl

/-- What is left after a line is part of the text. -/
theorem getline_suffix {delim : UInt8} {s a t : Bytes} (h : getline delim s = some (a, t)) :
    t <:+ s := by
  cases s with
  | nil => exact absurd h.symm (Option.some_ne_none _)
  | cons b s =>
    obtain ⟨-, rfl⟩ := Prod.mk.inj (Option.some.inj h)
    exact (List.tail_suffix _).trans (List.dropWhile_suffix _)

/-- A text without `SOH` has one field at most. -/
theorem parseFields_of_notMem {fields result : Fields} {s : Bytes} (hs : soh ∉ s)
    (h : parseFields fields s = some result) :
    result = fields ∨ ∃ tag value, result = fields.set tag value := by
  unfold parseFields at h
  split at h
  · exact Or.inl (Option.some.inj h).symm
  · rename_i field rest hfield
    split at h
    · exact absurd h.symm (Option.some_ne_none _)
    · rename_i tag htag
      split at h
      · exact absurd h.symm (Option.some_ne_none _)
      · rename_i value rest' hvalue
        obtain rfl : rest' = [] :=
          getline_of_notMem (fun hmem => hs ((getline_suffix hfield).subset hmem)) hvalue
        unfold parseFields at h
        exact Or.inr ⟨tag, value, (Option.some.inj h).symm⟩

/-- **A piece is no message**: it would need two fields. -/
theorem parseFixMessage_of_notMem {s : Bytes} (hs : soh ∉ s) : parseFixMessage s = none := by
  rw [parseFixMessage, Option.bind_eq_none_iff]
  intro fields hfields
  rw [if_neg]
  rintro ⟨hbegin, htype⟩
  rcases parseFields_of_notMem hs hfields with rfl | ⟨tag, value, rfl⟩
  · exact absurd hbegin.symm (Option.some_ne_none _)
  · rw [Fields.get?_set] at hbegin htype
    split_ifs at htype with hmsgType
    · rw [if_neg (by rw [← hmsgType]; decide)] at hbegin
      exact absurd hbegin.symm (Option.some_ne_none _)
    · exact absurd htype Bool.false_ne_true

/-- The pieces in the message queue have no `SOH`. -/
theorem notMem_of_mem_receiveThreadFunc (incompleteMessage : Bytes) (chunks : List Bytes) :
    ∀ message ∈ receiveThreadFunc incompleteMessage chunks, soh ∉ message := by
  induction chunks generalizing incompleteMessage with
  | nil => exact fun message hmem => absurd hmem List.not_mem_nil
  | cons chunk chunks ih =>
    intro message hmem
    rcases List.mem_append.mp hmem with hmem | hmem
    · exact (notMem_of_pieces _).1 message hmem
    · exact ih _ message hmem

/-- **Nothing is ever handled**, whatever arrives. -/
theorem handled_eq_nil (chunks : List Bytes) : handled chunks = [] := by
  rw [handled, List.filterMap_eq_nil_iff]
  intro message hmem
  exact parseFixMessage_of_notMem (notMem_of_mem_receiveThreadFunc [] chunks message hmem)

/-! ## What is on the wire -/

/-- Leading zeros do not count. -/
theorem readDigits_replicate_append (k : ℕ) (text : Bytes) :
    readDigits (List.replicate k 48 ++ text) = readDigits text := by
  induction k with
  | zero => rfl
  | succ k ih => exact ih

/-- The sum as an `unsigned char` is the sum modulo 256. -/
theorem checksum_eq (msg : Bytes) : checksum msg = (msg.map UInt8.toNat).sum % 256 := by
  induction msg using List.reverseRecOn with
  | nil => rfl
  | append_singleton msg c ih =>
    rw [checksum, List.foldl_append, List.foldl_cons, List.foldl_nil]
    rw [checksum] at ih
    rw [ih, Nat.mod_add_mod, List.map_append, List.sum_append, List.map_singleton,
      List.sum_singleton]

theorem field_checkSum (value : Bytes) :
    field FIXField.checkSum value = ascii "10=" ++ (value ++ [soh]) := by
  have htag : decimalInt FIXField.checkSum.val = ascii "10" := by decide
  rw [field, fieldText, htag]
  rfl

/-- **The check sum of every message is right.** -/
theorem checkSumRight_of_sendMessage {a : Sender} {msgSeqNum : ℤ} {c : Call} {msg : Bytes}
    (h : sendMessage a msgSeqNum c = some msg) : CheckSumRight msg := by
  obtain ⟨fullMsg, -, rfl⟩ := Option.map_eq_some_iff.mp h
  exact ⟨fullMsg, by rw [← checksum_eq, ← field_checkSum]⟩

/-- The message up to its check sum, with what stands for its length. -/
def framed (len content : Bytes) : Bytes :=
  ascii "8=FIX.4.2" ++ soh :: (ascii "9=" ++ (len ++ soh :: content))

theorem draft_eq (a : Sender) (msgSeqNum : ℤ) (c : Call) :
    c.draft a msgSeqNum = framed (ascii "000000") (c.content a msgSeqNum) := rfl

/-- The placeholder is found where it stands. -/
theorem replaceLength_framed {content fullMsg : Bytes}
    (h : replaceLength (framed (ascii "000000") content) = some fullMsg) :
    ∃ k, fullMsg = framed (List.replicate k 48
      ++ decimalInt (bodyLength (framed (ascii "000000") content))) content := by
  have hpos : textBefore (ascii "000000") (framed (ascii "000000") content)
      = ascii "8=FIX.4.2" ++ soh :: ascii "9=" := rfl
  have hlt : (ascii "8=FIX.4.2" ++ soh :: ascii "9=").length
      < (framed (ascii "000000") content).length := by
    show 12 < content.length + 19
    omega
  rw [replaceLength, hpos, if_pos hlt] at h
  split_ifs at h
  exact ⟨_, (Option.some.inj h).symm⟩

/-- The length that is written: 15 bytes too many, those of fields 8 and 9 but four. -/
theorem bodyLength_framed {content : Bytes} (h : content.length < 10 ^ 6) :
    bodyLength (framed (ascii "000000") content) = ((content.length + 15 : ℕ) : ℤ) := by
  have hlength : (framed (ascii "000000") content).length = content.length + 19 := rfl
  rw [bodyLength, hlength, toI32_of_range (by omega) (by omega)]
  omega

/-- **The length of every message is wrong.** -/
theorem not_bodyLengthRight_of_sendMessage {a : Sender} {msgSeqNum : ℤ} {c : Call} {msg : Bytes}
    (hcontent : (c.content a msgSeqNum).length < 10 ^ 6)
    (h : sendMessage a msgSeqNum c = some msg) : ¬ BodyLengthRight msg := by
  obtain ⟨fullMsg, hreplace, rfl⟩ := Option.map_eq_some_iff.mp h
  rw [draft_eq] at hreplace
  obtain ⟨k, rfl⟩ := replaceLength_framed hreplace
  rw [bodyLength_framed hcontent]
  have hdecimal : decimalInt (((c.content a msgSeqNum).length + 15 : ℕ) : ℤ)
      = decimal ((c.content a msgSeqNum).length + 15) := if_neg (by omega)
  rw [hdecimal]
  have hzeros : ∀ b ∈ List.replicate k 48 ++ decimal ((c.content a msgSeqNum).length + 15),
      isDigit b = true := by
    intro b hb
    rcases List.mem_append.mp hb with hb | hb
    · rw [List.eq_of_mem_replicate hb]
      rfl
    · exact isDigit_of_mem_decimal hb
  rintro ⟨len, content, sum, hmsg, hdigits, hsum, hlen⟩
  -- both lengths end at the first `SOH` behind them, and both check sums have three digits
  rw [framed, List.append_assoc, List.cons_append, List.append_assoc, List.append_assoc,
    List.cons_append] at hmsg
  have hmsg := List.append_cancel_left (List.cons.inj (List.append_cancel_left hmsg)).2
  obtain ⟨rfl, hrest⟩ := piece_inj (soh_notMem_of_isDigit hzeros) (soh_notMem_of_isDigit hdigits)
    hmsg
  have htail : ∀ n, (field FIXField.checkSum (threeDigits n)).length
      = (ascii "10=" ++ (sum ++ [soh])).length := by
    intro n
    rw [field_checkSum, List.length_append, List.length_append, List.length_append,
      List.length_append, hsum]
    rfl
  obtain ⟨rfl, -⟩ := List.append_inj' hrest (htail _)
  rw [readDigits_replicate_append, readDigits_decimal] at hlen
  omega

/-! ## When it holds -/

/-- **When the two ends keep what they promise**: when there is nothing to send. -/
theorem delivers_iff (a : Sender) (calls : List Call) : Delivers a calls ↔ calls = [] := by
  constructor
  · intro h
    have hhandled := h.handled [(wire a 1 calls).flatten] (by simp)
    rw [handled_eq_nil, List.forall₂_nil_right_iff] at hhandled
    exact hhandled
  · rintro rfl
    refine ⟨fun chunks _ => ?_, fun msg hmsg => ?_, fun msg hmsg => ?_⟩
    · rw [handled_eq_nil]
      exact List.Forall₂.nil
    · exact absurd hmsg List.not_mem_nil
    · exact absurd hmsg List.not_mem_nil

/-- A session of the failing run. -/
def sender : Sender := ⟨ascii "A", ascii "B"⟩

/-- A heartbeat. -/
def heartbeat : Call := ⟨ascii "0", Fields.empty, ascii "20240101-00:00:00"⟩

/-- **A heartbeat is not delivered.** -/
theorem not_delivers_heartbeat : ¬ Delivers sender [heartbeat] := by
  intro h
  have hhandled := h.handled [(wire sender 1 [heartbeat]).flatten] List.flatten_singleton
  rw [handled_eq_nil] at hhandled
  exact nomatch hhandled

end FixSession
