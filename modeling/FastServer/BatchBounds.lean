/-
# The batch parser by positions

`parse` of `parser.cpp` as it moves over the buffer, with every read of an element checked.  It
stays inside the buffer and moves on in every round; but it catches a `runtime_error` only, and
what `stoi` throws is a `logic_error`.
-/
import FastServer.BatchParser

namespace FixParser.Batch.Positions

open FIX42Protocol

/-! ## Elements of the buffer -/

/-- How a function ends that does not return: with a `runtime_error`, with what `stoi` throws
(`invalid_argument` and `out_of_range` are `logic_error`s), with a read of an element that is
not there, or with a loop that is not over. -/
inductive Failure
  | runtime_error (what : String)
  | logic_error
  | outside
  | unfinished
deriving DecidableEq

abbrev Exec (α : Type) := Except Failure α

/-- `buffer[i]`. -/
def byteAt (buffer : Bytes) (i : ℕ) : Exec UInt8 :=
  match buffer[i]? with
  | some b => .ok b
  | none => .error .outside

/-- `std::string(&buffer[pos], len)`. -/
def textAt (buffer : Bytes) (pos len : ℕ) : Exec Bytes :=
  if pos < buffer.length ∧ pos + len ≤ buffer.length then .ok ((buffer.drop pos).take len)
  else .error .outside

/-- The next place of a byte, in at most `n` steps. -/
def scan (buffer : Bytes) (c : UInt8) : ℕ → ℕ → Exec ℕ
  | 0, pos => .ok pos
  | n + 1, pos => do
      if (← byteAt buffer pos) = c then .ok pos else scan buffer c n (pos + 1)

/-- `std::stoi`. -/
def toInt (text : Bytes) : Exec Tag :=
  match stoi text with
  | some tag => .ok tag
  | none => .error .logic_error

/-! ## The parser -/

/-- `8=` stands at `tagStart`. -/
def isBeginString (buffer : Bytes) (tagStart : ℕ) : Exec Bool := do
  if (← byteAt buffer tagStart) = 56 then
    .ok (decide ((← byteAt buffer (tagStart + 1)) = equals))
  else .ok false

/-- `findNextMessageStart`, in at most `n` calls of itself. -/
def findNextMessageStart (buffer : Bytes) : ℕ → ℕ → Exec (Option ℕ)
  | 0, _ => .error .unfinished
  | n + 1, startPos => do
      let sohPos ← scan buffer soh (buffer.length - startPos) startPos
      if buffer.length ≤ sohPos then .ok none
      else
        let tagStart := sohPos + 1
        if buffer.length ≤ tagStart + 2 then .ok none
        else if ← isBeginString buffer tagStart then .ok (some (sohPos + 1))
        else findNextMessageStart buffer n (sohPos + 1)

def calculateBodyLength (buffer : Bytes) (startPos checksumPos : ℕ) : Exec ℕ := do
  let bodyStart ← scan buffer soh (buffer.length - startPos) startPos
  -- fields 8, 9 and 35 have been read, so the check sum is not in the first field
  .ok (checksumPos - (bodyStart + 1))

/-- The checks at the check sum, whose field ends at `fieldEnd`. -/
def finish (buffer : Bytes) (startPos : ℕ) (head : Head) (value : Bytes) (fieldEnd : ℕ) :
    Exec (Fields × ℕ) :=
  if !head.hasBeginString || !head.hasBodyLength || !head.hasMsgType then
    .error (.runtime_error "Missing required header fields")
  else do
    let calculatedBodyLength ← calculateBodyLength buffer startPos fieldEnd
    if calculatedBodyLength ≠ toU64 head.bodyLength then
      .error (.runtime_error "Body length mismatch")
    else if !verifyChecksum buffer fieldEnd value then
      .error (.runtime_error "Checksum mismatch")
    else .ok (head.msg.set FIXField.checkSum value, fieldEnd + 1)

/-- A field is added: for field 9 `stoi` is called. -/
def addField (head : Head) (tag : Tag) (value : Bytes) : Exec Head :=
  match head.add tag value with
  | some head => .ok head
  | none => .error .logic_error

/-- The loop of `parseMessage`, in at most `n` rounds. -/
def parseFields (buffer : Bytes) (startPos : ℕ) : ℕ → Head → ℕ → Exec (Fields × ℕ)
  | 0, _, _ => .error .unfinished
  | n + 1, head, pos =>
      if pos < buffer.length then do
        let fieldEnd ← scan buffer soh (buffer.length - pos) pos
        if buffer.length ≤ fieldEnd then .error (.runtime_error "Incomplete field")
        else
          let equalPos ← scan buffer equals (fieldEnd - pos) pos
          if fieldEnd ≤ equalPos then .error (.runtime_error "Invalid field format")
          else
            let tag ← toInt (← textAt buffer pos (equalPos - pos))
            let value ← textAt buffer (equalPos + 1) (fieldEnd - equalPos - 1)
            if tag = FIXField.checkSum then finish buffer startPos head value fieldEnd
            else
              let head ← addField head tag value
              parseFields buffer startPos n head (fieldEnd + 1)
      else .error (.runtime_error "Message incomplete, missing checksum")

def parseMessage (buffer : Bytes) (startPos : ℕ) : Exec (Fields × ℕ) :=
  parseFields buffer startPos (buffer.length + 1) Head.start startPos

/-- A round of the loop of `parse`: there is no message any more, or a message and the position
behind it, or an error that is caught. -/
inductive Round
  | last
  | message (msg : Fields) (messageEnd : ℕ)
  | skipped (pos : ℕ)

/-- Where the next round starts. -/
def Round.pos : Round → Option ℕ
  | .last => none
  | .message _ messageEnd => some messageEnd
  | .skipped pos => some pos

def round (buffer : Bytes) (pos : ℕ) : Exec Round := do
  match ← findNextMessageStart buffer (buffer.length + 1) pos with
  | none => .ok .last
  | some start =>
      match parseMessage buffer start with
      | .ok (msg, messageEnd) => .ok (.message msg messageEnd)
      | .error (.runtime_error _) => .ok (.skipped (start + 1))
      | .error failure => .error failure

/-- The loop of `parse`, in at most `n` rounds. -/
def parseUpTo (buffer : Bytes) : ℕ → ℕ → Exec (List Fields)
  | 0, _ => .error .unfinished
  | n + 1, pos =>
      if pos < buffer.length then do
        match ← round buffer pos with
        | .last => .ok []
        | .message msg messageEnd => return msg :: (← parseUpTo buffer n messageEnd)
        | .skipped pos => parseUpTo buffer n pos
      else .ok []

def parse (buffer : Bytes) : Exec (List Fields) := parseUpTo buffer (buffer.length + 1) 0

/-! ## What should hold -/

/-- The positions at which a round starts. -/
inductive Reached (buffer : Bytes) : ℕ → Prop
  | start : Reached buffer 0
  | next {pos next : ℕ} {r : Round} : Reached buffer pos → pos < buffer.length →
      round buffer pos = .ok r → r.pos = some next → Reached buffer next

/-- **What is promised of `parse`**: it returns, every error that `parseMessage` meets is caught
and its place is skipped, and every round moves on. -/
structure ReturnsNormally (buffer : Bytes) : Prop where
  returns : ∃ messages, parse buffer = .ok messages
  caught : ∀ pos start failure, Reached buffer pos → pos < buffer.length →
    findNextMessageStart buffer (buffer.length + 1) pos = .ok (some start) →
    parseMessage buffer start = .error failure → round buffer pos = .ok (.skipped (start + 1))
  increases : ∀ pos next r, Reached buffer pos → pos < buffer.length →
    round buffer pos = .ok r → r.pos = some next → pos < next

/-! ## Reads inside the buffer -/

theorem ok_bind {α β : Type} (a : α) (f : α → Exec β) : ((.ok a : Exec α) >>= f) = f a := rfl

theorem error_bind {α β : Type} (failure : Failure) (f : α → Exec β) :
    ((.error failure : Exec α) >>= f) = .error failure := rfl

variable {buffer : Bytes}

theorem byteAt_of_drop {pos : ℕ} {b : UInt8} {t : Bytes} (h : buffer.drop pos = b :: t) :
    byteAt buffer pos = .ok b := by
  have hget : buffer[pos]? = some b := by
    rw [← List.head?_drop, h, List.head?_cons]
  rw [byteAt, hget]

/-- The bytes behind the first one. -/
theorem drop_succ {pos : ℕ} {b : UInt8} {t : Bytes} (h : buffer.drop pos = b :: t) :
    buffer.drop (pos + 1) = t := by
  rw [← List.drop_drop, h, List.drop_succ_cons, List.drop_zero]

/-- **A loop over the bytes** stays inside the buffer, and stops at the first `c`. -/
theorem scan_eq {c : UInt8} {pos : ℕ} {piece t : Bytes} (h : buffer.drop pos = piece ++ c :: t)
    (hc : c ∉ piece) {n : ℕ} (hn : piece.length < n) :
    scan buffer c n pos = .ok (pos + piece.length) := by
  induction piece generalizing pos n with
  | nil =>
    obtain ⟨k, rfl⟩ := Nat.exists_eq_succ_of_ne_zero (Nat.ne_of_gt hn)
    rw [scan, byteAt_of_drop h]
    exact if_pos rfl
  | cons b piece ih =>
    rw [List.length_cons] at hn
    obtain ⟨k, rfl⟩ := Nat.exists_eq_succ_of_ne_zero (by omega : n ≠ 0)
    have hb : b ≠ c := fun heq => hc (heq ▸ List.mem_cons_self)
    rw [scan, byteAt_of_drop h]
    have hrest := ih (drop_succ h) (fun hmem => hc (List.mem_cons_of_mem _ hmem))
      (n := k) (by omega)
    refine (if_neg hb).trans (hrest.trans (congrArg Except.ok ?_))
    rw [List.length_cons]
    omega

/-- Without a `c` it goes as far as it may. -/
theorem scan_eq_of_notMem {c : UInt8} {pos : ℕ} {piece t : Bytes}
    (h : buffer.drop pos = piece ++ t) (hc : c ∉ piece) :
    scan buffer c piece.length pos = .ok (pos + piece.length) := by
  induction piece generalizing pos with
  | nil => rfl
  | cons b piece ih =>
    have hb : b ≠ c := fun heq => hc (heq ▸ List.mem_cons_self)
    rw [List.length_cons, scan, byteAt_of_drop h]
    have hrest := ih (drop_succ h) fun hmem => hc (List.mem_cons_of_mem _ hmem)
    refine (if_neg hb).trans (hrest.trans (congrArg Except.ok ?_))
    omega

theorem textAt_eq {pos : ℕ} {text t : Bytes} {c : UInt8} (h : buffer.drop pos = text ++ c :: t) :
    textAt buffer pos text.length = .ok text := by
  have hlength := congrArg List.length h
  rw [List.length_drop, List.length_append, List.length_cons] at hlength
  rw [textAt, if_pos ⟨by omega, by omega⟩, h, List.take_left]

/-- How much of the buffer stands behind a position. -/
theorem length_of_drop {pos : ℕ} {s : Bytes} (h : buffer.drop pos = s) :
    buffer.length - pos = s.length := by
  rw [← h, List.length_drop]

/-- The position behind a piece and its delimiter. -/
theorem drop_piece {pos : ℕ} {c : UInt8} {piece t : Bytes}
    (h : buffer.drop pos = piece ++ c :: t) : buffer.drop (pos + piece.length + 1) = t := by
  rw [Nat.add_assoc, ← List.drop_drop, h, ← List.drop_drop, List.drop_left, List.drop_succ_cons,
    List.drop_zero]

/-! ## Where a message starts -/

theorem isBeginString_eq {tagStart : ℕ} {t : Bytes} (h : buffer.drop tagStart = t)
    (ht : 2 < t.length) : isBeginString buffer tagStart = .ok (decide (ascii "8=" <+: t)) := by
  obtain ⟨a, b, u, rfl⟩ : ∃ a b u, t = a :: b :: u := by
    rcases t with - | ⟨a, - | ⟨b, u⟩⟩
    · exact absurd ht (by simp)
    · exact absurd ht (by simp)
    · exact ⟨a, b, u, rfl⟩
  have hfirst := byteAt_of_drop h
  have hsecond := byteAt_of_drop (drop_succ h)
  have hbegins : ascii "8=" <+: a :: b :: u ↔ a = 56 ∧ b = equals := by
    show [56, equals] <+: a :: b :: u ↔ _
    rw [List.cons_prefix_cons, List.cons_prefix_cons]
    exact ⟨fun h => ⟨h.1.symm, h.2.1.symm⟩, fun h => ⟨h.1.symm, h.2.symm, List.nil_prefix⟩⟩
  rw [isBeginString, hfirst, ok_bind]
  by_cases ha : a = 56
  · rw [if_pos ha, hsecond, ok_bind]
    congr 2
    rw [hbegins, ha]
    simp only [true_and]
  · rw [if_neg ha]
    exact congrArg Except.ok (decide_eq_false fun h => ha (hbegins.mp h).1).symm

/-- What is left out in front of an `SOH`. -/
theorem find_piece {piece : Bytes} (hpiece : soh ∉ piece) (t : Bytes) :
    Batch.findNextMessageStart (piece ++ soh :: t)
      = if t.length ≤ 2 then none
        else if ascii "8=" <+: t then some t else Batch.findNextMessageStart t := by
  induction piece with
  | nil => rw [List.nil_append, Batch.findNextMessageStart, if_pos rfl]
  | cons b piece ih =>
    have hb : b ≠ soh := fun heq => hpiece (heq ▸ List.mem_cons_self)
    rw [List.cons_append, Batch.findNextMessageStart, if_neg hb,
      ih fun hmem => hpiece (List.mem_cons_of_mem _ hmem)]

theorem find_of_notMem {s : Bytes} (h : soh ∉ s) : Batch.findNextMessageStart s = none := by
  induction s with
  | nil => rfl
  | cons b s ih =>
    have hb : b ≠ soh := fun heq => h (heq ▸ List.mem_cons_self)
    rw [Batch.findNextMessageStart, if_neg hb, ih fun hmem => h (List.mem_cons_of_mem _ hmem)]

/-- **The place is found** that the text has. -/
theorem findNextMessageStart_eq {n : ℕ} (pos : ℕ) (hn : buffer.length - pos < n) :
    findNextMessageStart buffer n pos = .ok ((Batch.findNextMessageStart (buffer.drop pos)).map
      fun message => buffer.length - message.length) := by
  induction n generalizing pos with
  | zero => exact absurd hn (Nat.not_lt_zero _)
  | succ n ih =>
    by_cases hmem : soh ∈ buffer.drop pos
    · obtain ⟨piece, t, h, hpiece⟩ := List.eq_append_cons_of_mem hmem
      have hlength := length_of_drop h
      rw [List.length_append, List.length_cons] at hlength
      have hscan := scan_eq h hpiece (n := buffer.length - pos) (by omega)
      have ht := drop_piece h
      have hrest := length_of_drop ht
      rw [findNextMessageStart, hscan, ok_bind, if_neg (by omega), h, find_piece hpiece]
      dsimp only
      by_cases hshort : t.length ≤ 2
      · rw [if_pos hshort, if_pos (by omega)]
        rfl
      · rw [if_neg hshort, if_neg (by omega), isBeginString_eq ht (by omega), ok_bind]
        by_cases hstart : ascii "8=" <+: t
        · rw [decide_eq_true hstart, if_pos rfl, if_pos hstart]
          refine congrArg (fun i => Except.ok (some i)) ?_
          show pos + piece.length + 1 = buffer.length - t.length
          omega
        · rw [decide_eq_false hstart, if_neg Bool.false_ne_true, if_neg hstart,
            ih _ (by omega), ht]
    · have hscan := scan_eq_of_notMem (List.append_nil (buffer.drop pos)).symm hmem
      rw [List.length_drop] at hscan
      rw [findNextMessageStart, hscan, ok_bind, if_pos (by omega), find_of_notMem hmem]
      rfl

/-! ## A message -/

/-- `parseMessage` by positions says what it says of the text behind `start`. -/
inductive Agrees (start : ℕ) : Exec (Fields × ℕ) → Parsed → Prop
  | message (msg : Fields) (endPos : ℕ) :
      Agrees start (.ok (msg, start + endPos)) (.message msg endPos)
  | error (what : String) : Agrees start (.error (.runtime_error what)) .error
  | thrown : Agrees start (.error .logic_error) .thrown

theorem calculateBodyLength_eq {start : ℕ} {first t : Bytes}
    (h : buffer.drop start = first ++ soh :: t) (hfirst : soh ∉ first) (len : ℕ) :
    calculateBodyLength buffer start (start + len)
      = .ok (Batch.calculateBodyLength (buffer.drop start) len) := by
  have hlength := length_of_drop h
  rw [List.length_append, List.length_cons] at hlength
  have hscan := scan_eq h hfirst (n := buffer.length - start) (by omega)
  rw [calculateBodyLength, hscan, ok_bind, Batch.calculateBodyLength, h,
    (Framing.takeWhile_piece hfirst t).1]
  refine congrArg Except.ok ?_
  omega

/-- The checks at the check sum. -/
theorem finish_agrees {start : ℕ} {first t : Bytes} (h : buffer.drop start = first ++ soh :: t)
    (hfirst : soh ∉ first) (head : Head) (value : Bytes) (len : ℕ) :
    Agrees start (finish buffer start head value (start + len))
      (Batch.finish (buffer.drop start) head value len) := by
  have hverify : ∀ message pos, (!verifyChecksum message pos value) = false := fun _ _ => rfl
  rw [finish, Batch.finish, calculateBodyLength_eq h hfirst, ok_bind, hverify, hverify,
    if_neg Bool.false_ne_true, if_neg Bool.false_ne_true]
  split_ifs
  · exact .error _
  · exact .error _
  · exact .message _ (len + 1)

/-- **The fields are read** as they are from the text. -/
theorem parseFields_agrees {start n : ℕ} (head : Head) (len : ℕ)
    (hn : buffer.length - (start + len) < n) :
    Agrees start (parseFields buffer start n head (start + len))
      (Batch.parseFields (buffer.drop start) head len
        (Framing.pieces soh (buffer.drop (start + len))).1) := by
  induction n generalizing head len with
  | zero => exact absurd hn (Nat.not_lt_zero _)
  | succ n ih =>
    rw [parseFields]
    by_cases hmem : soh ∈ buffer.drop (start + len)
    · obtain ⟨field, t, h, hfield⟩ := List.eq_append_cons_of_mem hmem
      have hlength := length_of_drop h
      rw [List.length_append, List.length_cons] at hlength
      have hscan := scan_eq h hfield (n := buffer.length - (start + len)) (by omega)
      have ht := drop_piece h
      rw [if_pos (by omega), hscan, ok_bind, if_neg (by omega), h, Framing.pieces_piece hfield,
        Batch.parseFields, Nat.add_sub_cancel_left]
      by_cases hequals : equals ∈ field
      · obtain ⟨tagText, value, rfl, htagText⟩ := List.eq_append_cons_of_mem hequals
        have hfront : buffer.drop (start + len) = tagText ++ equals :: (value ++ soh :: t) := by
          rw [h, List.append_assoc, List.cons_append]
        rw [List.length_append, List.length_cons] at hlength
        have hscan := scan_eq hfront htagText (n := (tagText ++ equals :: value).length)
          (by rw [List.length_append, List.length_cons]; omega)
        have hvalue := textAt_eq (drop_piece hfront)
        have hwidth : start + len + (tagText ++ equals :: value).length
            - (start + len + tagText.length) - 1 = value.length := by
          rw [List.length_append, List.length_cons]
          omega
        rw [hscan, ok_bind, if_neg (by rw [List.length_append, List.length_cons]; omega),
          Nat.add_sub_cancel_left, textAt_eq hfront, ok_bind, Framing.cutAt_piece htagText]
        dsimp only
        cases hstoi : stoi tagText with
        | none =>
          rw [toInt, hstoi]
          exact .thrown
        | some tag =>
          rw [toInt, hstoi]
          dsimp only
          rw [ok_bind, hwidth, hvalue, ok_bind]
          by_cases hsum : tag = FIXField.checkSum
          · have hmem' : soh ∈ buffer.drop start := by
              rw [← List.drop_drop] at hmem
              exact List.mem_of_mem_drop hmem
            obtain ⟨first, rest, hmessage, hfirst⟩ := List.eq_append_cons_of_mem hmem'
            rw [if_pos hsum, if_pos hsum, Nat.add_assoc]
            exact finish_agrees hmessage hfirst head value _
          · rw [if_neg hsum, if_neg hsum]
            cases hadd : head.add tag value with
            | none =>
              rw [addField, hadd]
              exact .thrown
            | some head' =>
              rw [addField, hadd]
              dsimp only
              have hnext := ih head' (len + (tagText ++ equals :: value).length + 1)
                (by rw [List.length_append, List.length_cons]; omega)
              have hpos : start + (len + (tagText ++ equals :: value).length + 1)
                  = start + len + (tagText ++ equals :: value).length + 1 := by omega
              rw [hpos, ht] at hnext
              exact hnext
      · have hscan := scan_eq_of_notMem h hequals
        rw [hscan, ok_bind, if_pos le_rfl, Framing.cutAt_of_notMem hequals]
        exact .error _
    · rw [Framing.pieces_of_notMem hmem]
      by_cases hlt : start + len < buffer.length
      · have hscan := scan_eq_of_notMem (List.append_nil (buffer.drop (start + len))).symm hmem
        rw [List.length_drop] at hscan
        rw [if_pos hlt, hscan, ok_bind, if_pos (by omega)]
        exact .error _
      · rw [if_neg hlt]
        exact .error _

theorem parseMessage_agrees (start : ℕ) :
    Agrees start (parseMessage buffer start) (Batch.parseMessage (buffer.drop start)) :=
  parseFields_agrees Head.start 0 (by omega)

/-- A message ends inside the buffer, behind its start. -/
theorem endPos_bounds {message : Bytes} {msg : Fields} {endPos : ℕ}
    (h : Batch.parseMessage message = .message msg endPos) :
    0 < endPos ∧ endPos ≤ message.length := by
  obtain ⟨es, last, more, hpieces, -, -, -, -, rfl⟩ := accepted_iff.mp h
  have hfront : (Framing.pieces soh message).1 = (es.map Entry.text ++ [last.text]) ++ more := by
    rw [hpieces, List.append_assoc, List.singleton_append]
  obtain ⟨rest, hrest⟩ := Framing.exists_of_pieces hfront
  have hlength : message.length = width (es.map Entry.text ++ [last.text]) + rest.length :=
    (congrArg List.length hrest).trans List.length_append
  rw [width_concat] at hlength
  exact ⟨Nat.succ_pos _, by omega⟩

/-! ## A round -/

/-- The place that is found is behind the position. -/
theorem start_of_find {pos : ℕ} {message : Bytes}
    (h : Batch.findNextMessageStart (buffer.drop pos) = some message) :
    ∃ start, findNextMessageStart buffer (buffer.length + 1) pos = .ok (some start) ∧
      pos < start ∧ start < buffer.length ∧ start + message.length = buffer.length ∧
      buffer.drop start = message := by
  obtain ⟨hsuffix, hshort, hbegin⟩ := findNextMessageStart_spec h
  rw [List.length_drop] at hshort
  have htwo : 2 ≤ message.length := hbegin.length_le
  have hdrop := List.suffix_iff_eq_drop.mp (hsuffix.trans (List.drop_suffix pos buffer))
  refine ⟨buffer.length - message.length, ?_, by omega, by omega, by omega, hdrop.symm⟩
  rw [findNextMessageStart_eq pos (by omega), h]
  rfl

/-- **A round** ends the loop, moves on behind a message or by one byte, or throws. -/
theorem round_cases (buffer : Bytes) (pos : ℕ) :
    (Batch.findNextMessageStart (buffer.drop pos) = none ∧
      findNextMessageStart buffer (buffer.length + 1) pos = .ok none ∧
      round buffer pos = .ok .last) ∨
    ∃ start message, Batch.findNextMessageStart (buffer.drop pos) = some message ∧
      findNextMessageStart buffer (buffer.length + 1) pos = .ok (some start) ∧
      pos < start ∧ start < buffer.length ∧ start + message.length = buffer.length ∧
      buffer.drop start = message ∧
      ((∃ msg endPos, Batch.parseMessage message = .message msg endPos ∧
          parseMessage buffer start = .ok (msg, start + endPos) ∧
          round buffer pos = .ok (.message msg (start + endPos))) ∨
        (∃ what, Batch.parseMessage message = .error ∧
          parseMessage buffer start = .error (.runtime_error what) ∧
          round buffer pos = .ok (.skipped (start + 1))) ∨
        (Batch.parseMessage message = .thrown ∧
          parseMessage buffer start = .error .logic_error ∧
          round buffer pos = .error .logic_error)) := by
  cases hfind : Batch.findNextMessageStart (buffer.drop pos) with
  | none =>
    have hstart : findNextMessageStart buffer (buffer.length + 1) pos = _ :=
      findNextMessageStart_eq pos (by omega)
    rw [hfind] at hstart
    refine .inl ⟨rfl, hstart, ?_⟩
    rw [round, hstart]
    rfl
  | some message =>
    obtain ⟨start, hstart, hlt, hin, hlength, hdrop⟩ := start_of_find hfind
    refine .inr ⟨start, message, rfl, hstart, hlt, hin, hlength, hdrop, ?_⟩
    have hagrees : Agrees start (parseMessage buffer start) _ := parseMessage_agrees start
    rw [hdrop] at hagrees
    rw [round, hstart, ok_bind]
    dsimp only
    generalize parseMessage buffer start = result at hagrees ⊢
    generalize Batch.parseMessage message = parsed at hagrees ⊢
    cases hagrees with
    | message msg endPos => exact .inl ⟨msg, endPos, rfl, rfl, rfl⟩
    | error what => exact .inr (.inl ⟨what, rfl, rfl, rfl⟩)
    | thrown => exact .inr (.inr ⟨rfl, rfl, rfl⟩)

/-! ## The loop -/

/-- **`parse` returns what it returns of the text**, and what `stoi` throws leaves it. -/
theorem parseUpTo_eq {n pos : ℕ} (hpos : pos ≤ buffer.length) (hn : buffer.length - pos < n) :
    parseUpTo buffer n pos = match Batch.parse (buffer.drop pos) with
      | some messages => .ok messages
      | none => .error .logic_error := by
  induction n generalizing pos with
  | zero => exact absurd hn (Nat.not_lt_zero _)
  | succ n ih =>
    rw [parseUpTo]
    by_cases hlt : pos < buffer.length
    · rw [if_pos hlt, Batch.parse]
      rcases round_cases buffer pos with ⟨hfind, -, hround⟩
        | ⟨start, message, hfind, -, hstart, hin, hlength, hdrop, hround⟩
      · rw [hround, ok_bind, parseTexts_of_none hfind]
        rfl
      · rcases hround with ⟨msg, endPos, hmessage, -, hround⟩ | ⟨what, hmessage, -, hround⟩
          | ⟨hmessage, -, hround⟩
        · obtain ⟨hend, hle⟩ := endPos_bounds hmessage
          have hrest : buffer.drop (start + endPos) = message.drop endPos := by
            rw [← hdrop, List.drop_drop]
          rw [hround, ok_bind, parseTexts_of_message hfind hmessage]
          dsimp only
          rw [ih (by omega) (by omega), hrest, Batch.parse]
          cases parseTexts (message.drop endPos) <;> rfl
        · have hrest : buffer.drop (start + 1) = message.drop 1 := by
            rw [← hdrop, List.drop_drop]
          rw [hround, ok_bind, parseTexts_of_error hfind hmessage]
          dsimp only
          rw [ih (by omega) (by omega), hrest, Batch.parse]
        · rw [hround, error_bind, parseTexts_of_thrown hfind hmessage]
          rfl
    · have hnil : buffer.drop pos = [] := List.drop_eq_nil_of_le (not_lt.mp hlt)
      rw [if_neg hlt, hnil]
      rfl

theorem parse_eq (buffer : Bytes) : parse buffer = match Batch.parse buffer with
    | some messages => .ok messages
    | none => .error .logic_error :=
  parseUpTo_eq (Nat.zero_le _) (Nat.lt_succ_self _)

/-- **Every element that is read is in the buffer, and the loops end**, whatever it holds: either
`parse` returns, or what `stoi` throws leaves it. -/
theorem parse_cases (buffer : Bytes) :
    (∃ messages, parse buffer = .ok messages) ∨ parse buffer = .error .logic_error := by
  rw [parse_eq]
  cases Batch.parse buffer with
  | none => exact .inr rfl
  | some messages => exact .inl ⟨messages, rfl⟩

theorem parse_ok_iff (buffer : Bytes) :
    (∃ messages, parse buffer = .ok messages) ↔ ¬ Throws buffer := by
  rw [parse_eq, ← parseTexts_eq_none_iff, Batch.parse]
  cases parseTexts buffer with
  | none => exact iff_of_false (fun ⟨_, h⟩ => nomatch h) (fun h => h rfl)
  | some messages => exact iff_of_true ⟨_, rfl⟩ (Option.some_ne_none _)

/-- What throws at a position that is reached throws from the start on. -/
theorem throws_of_reached {pos : ℕ} (h : Reached buffer pos) (hthrows : Throws (buffer.drop pos)) :
    Throws buffer := by
  induction h with
  | start => exact hthrows
  | @next pos next r hreached hlt hround hnext ih =>
    refine ih (parseTexts_eq_none_iff.mp ?_)
    rw [← parseTexts_eq_none_iff] at hthrows
    rcases round_cases buffer pos with ⟨-, -, hcase⟩
      | ⟨start, message, hfind, -, -, -, -, hdrop, hcase⟩
    · rw [hround] at hcase
      obtain rfl := Except.ok.inj hcase
      exact absurd hnext.symm (Option.some_ne_none _)
    · rcases hcase with ⟨msg, endPos, hmessage, -, hcase⟩ | ⟨what, hmessage, -, hcase⟩
        | ⟨-, -, hcase⟩
      · rw [hround] at hcase
        obtain rfl := Except.ok.inj hcase
        obtain rfl := Option.some.inj hnext
        rw [← List.drop_drop, hdrop] at hthrows
        rw [parseTexts_of_message hfind hmessage, hthrows]
        rfl
      · rw [hround] at hcase
        obtain rfl := Except.ok.inj hcase
        obtain rfl := Option.some.inj hnext
        rw [← List.drop_drop, hdrop] at hthrows
        rw [parseTexts_of_error hfind hmessage, hthrows]
      · rw [hround] at hcase
        exact nomatch hcase

/-! ## When it holds -/

/-- A place at which `parseMessage` fails is skipped. -/
theorem skipped_of_failure (hthrows : ¬ Throws buffer) {pos start : ℕ} {failure : Failure}
    (hreached : Reached buffer pos)
    (hfind : findNextMessageStart buffer (buffer.length + 1) pos = .ok (some start))
    (hfailure : parseMessage buffer start = .error failure) :
    round buffer pos = .ok (.skipped (start + 1)) := by
  rcases round_cases buffer pos with ⟨-, hnone, -⟩
    | ⟨start', message, htext, hsome, -, -, -, -, hcase⟩
  · rw [hfind] at hnone
    exact absurd (Except.ok.inj hnone) (Option.some_ne_none _)
  · rw [hfind] at hsome
    obtain rfl := Option.some.inj (Except.ok.inj hsome)
    rcases hcase with ⟨msg, endPos, -, hok, -⟩ | ⟨what, -, -, hround⟩ | ⟨hthrown, -, -⟩
    · rw [hfailure] at hok
      exact nomatch hok
    · exact hround
    · have hnone := parseTexts_of_thrown htext hthrown
      exact absurd (throws_of_reached hreached (parseTexts_eq_none_iff.mp hnone)) hthrows

/-- A round that goes on goes on behind its place. -/
theorem lt_of_round {pos next : ℕ} {r : Round} (hround : round buffer pos = .ok r)
    (hnext : r.pos = some next) : pos < next := by
  rcases round_cases buffer pos with ⟨-, -, hcase⟩
    | ⟨start, message, -, -, hstart, -, -, -, hcase⟩
  · rw [hround] at hcase
    obtain rfl := Except.ok.inj hcase
    exact absurd hnext.symm (Option.some_ne_none _)
  · rcases hcase with ⟨msg, endPos, -, -, hcase⟩ | ⟨what, -, -, hcase⟩ | ⟨-, -, hcase⟩
    · rw [hround] at hcase
      obtain rfl := Except.ok.inj hcase
      obtain rfl := Option.some.inj hnext
      omega
    · rw [hround] at hcase
      obtain rfl := Except.ok.inj hcase
      obtain rfl := Option.some.inj hnext
      omega
    · rw [hround] at hcase
      exact nomatch hcase

/-- **When `parse` returns**: when `stoi` throws at none of the places it gets to. -/
theorem returnsNormally_iff (buffer : Bytes) : ReturnsNormally buffer ↔ ¬ Throws buffer := by
  constructor
  · exact fun h => (parse_ok_iff buffer).mp h.returns
  · intro hthrows
    refine ⟨(parse_ok_iff buffer).mpr hthrows, ?_, ?_⟩
    · exact fun pos start failure hreached _ => skipped_of_failure hthrows hreached
    · exact fun pos next r _ _ => lt_of_round

/-- A message with a field whose tag is no number. -/
def badTag : Bytes := ascii "\x018=FIX.4.2\x01x=1\x01"

/-- **An exception escapes**: that of `stoi` for the tag `x`. -/
theorem not_returnsNormally_badTag : ¬ ReturnsNormally badTag := by
  rintro ⟨⟨messages, hparse⟩, -, -⟩
  have hthrown : (parse badTag).toOption.isNone = true := by decide +kernel
  rw [hparse] at hthrown
  exact absurd hthrown Bool.false_ne_true

end FixParser.Batch.Positions
