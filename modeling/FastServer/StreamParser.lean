/-
# The streaming parser

The `FixParser` of `parser.cpp` that is fed with `on_data`.  It looks for the first `9` behind
`8=FIX`, takes what stands two bytes further for the length of the body, and adds seven bytes
for the check sum, which leaves the last `SOH` out.
-/
import FastServer.FixMessage
import FastServer.MachineInt

namespace FixParser.Stream

open FIX42Protocol

/-! ## The parser -/

/-- What the header of a message at the front of the buffer says: nothing yet, or the length
of the message.  The iterator two bytes behind the `9` may be past the end of the buffer, and
what is no digit before the next `SOH` throws. -/
inductive Header
  | more
  | undefined
  | thrown
  | total (total_msg_len : ℕ)
deriving DecidableEq

/-- `parse_length` from the second byte behind the first `9`, and the length computed from it.
The buffer is given from the start of the message on. -/
def header (s : Bytes) : Header :=
  match s.dropWhile (· ≠ 57) with
  | [] => .more
  | [_] => .undefined
  | _ :: _ :: t =>
      let digits := t.takeWhile (· ≠ soh)
      let num_end := t.dropWhile (· ≠ soh)
      if digits.all isDigit then
        if num_end = [] then .more
        else
          let body_length := readDigits digits % 2 ^ 64
          let header_len := s.length - num_end.length
          .total ((header_len + body_length + 7) % 2 ^ 64)
      else .thrown

/-- Whether the sum of the bytes before `10=` is the number behind it; `none` if `stoi`
throws. -/
def validateChecksum (msg : Bytes) : Option Bool :=
  let check_sum_pos := (textBefore (ascii "10=") msg).length
  if check_sum_pos = msg.length then some false
  else
    (stoi ((msg.drop (check_sum_pos + 3)).take 3)).map fun msg_checksum =>
      ((msg.take check_sum_pos).map UInt8.toNat).sum % 256 = toU64 msg_checksum.val

/-- The bytes from the first `8=FIX` on. -/
def found (buffer : Bytes) : Bytes := buffer.drop (textBefore (ascii "8=FIX") buffer).length

/-- One round of the loop of `process_buffer`: it ends, or erases a message and goes on. -/
inductive Step
  | more
  | undefined
  | thrown
  | forever
  | message (callback : Option Bytes) (rest : Bytes)
deriving DecidableEq

def step (buffer : Bytes) : Step :=
  let s := found buffer
  if s = [] then .more
  else
    match header s with
    | .more => .more
    | .undefined => .undefined
    | .thrown => .thrown
    | .total total_msg_len =>
        if s.length < total_msg_len then .more
        else
          match validateChecksum (s.take total_msg_len) with
          | none => .thrown
          | some valid =>
              -- a length of zero erases nothing: the next round is the same
              if total_msg_len = 0 then .forever
              else
                .message (if valid then some (s.take total_msg_len) else none)
                  (s.drop total_msg_len)

/-- How a call ends: it returns and leaves a buffer, uses an iterator past the end, throws, or
does not end. -/
inductive Outcome
  | more (buffer : Bytes)
  | undefined
  | thrown
  | forever
deriving DecidableEq

/-- The messages for which the callback is invoked, and how the call ends, in `n` rounds. -/
def processUpTo : ℕ → Bytes → List Bytes × Outcome
  | 0, buffer => ([], .more buffer)
  | n + 1, buffer =>
      match step buffer with
      | .more => ([], .more buffer)
      | .undefined => ([], .undefined)
      | .thrown => ([], .thrown)
      | .forever => ([], .forever)
      | .message callback rest =>
          let r := processUpTo n rest
          (callback.toList ++ r.1, r.2)

/-- Every round but the last erases at least one byte. -/
def processBuffer (buffer : Bytes) : List Bytes × Outcome :=
  processUpTo (buffer.length + 1) buffer

/-- The calls of `on_data`, each with the messages for which it invokes the callback.  A call
that does not return is the last one. -/
def run : Bytes → List Bytes → List (List Bytes) × Outcome
  | buffer, [] => ([], .more buffer)
  | buffer, chunk :: chunks =>
      match processBuffer (buffer ++ chunk) with
      | (callbacks, .more buffer) =>
          let r := run buffer chunks
          (callbacks :: r.1, r.2)
      | (callbacks, outcome) => ([callbacks], outcome)

/-! ## Messages -/

/-- The bytes of a message before its check sum: `version` is what follows `8=FIX`, `length` the
text of field 9. -/
def front (version length body : Bytes) : Bytes :=
  ascii "8=FIX" ++ (version ++ soh :: (ascii "9=" ++ (length ++ soh :: body)))

def checksumText (front : Bytes) : Bytes := threeDigits ((front.map UInt8.toNat).sum % 256)

def text (version length body : Bytes) : Bytes :=
  front version length body ++ (ascii "10=" ++ (checksumText (front version length body) ++ [soh]))

/-- A well-formed message: the length counts the body, and the first `10=` is that of the check
sum. -/
structure Msg where
  version : Bytes
  length : Bytes
  body : Bytes
  soh_notMem : soh ∉ version
  length_ne_nil : length ≠ []
  isDigit_length : ∀ b ∈ length, isDigit b = true
  length_eq : readDigits length = body.length
  alone : textBefore (ascii "10=") (text version length body) = front version length body

def Msg.text (m : Msg) : Bytes := Stream.text m.version m.length m.body

/-- The bytes of a list of messages. -/
def stream (ms : List Msg) : Bytes := (ms.map Msg.text).flatten

/-! ## What should hold -/

/-- **What the parser promises** for messages that arrive in chunks: the callback gets every
message once and in order; what is received completely has been called back; and no iterator
past the end is used. -/
structure Delivered (ms : List Msg) (chunks : List Bytes) : Prop where
  callbacks : (run [] chunks).1.flatten = ms.map Msg.text
  timely : ∀ received complete, received <+: chunks → complete <+: ms →
    (stream complete).length ≤ received.flatten.length →
    complete.map Msg.text <+: (run [] received).1.flatten
  defined : (run [] chunks).2 ≠ .undefined

/-- The number of bytes of a message up to its first `9`. -/
def Msg.nine (m : Msg) : ℕ := (m.text.takeWhile (· ≠ 57)).length + 1

/-- The first `9` of the message stands in field 8, one byte and a number follow it there, and
the number makes up for what the parser does not count. -/
def Msg.Lucky (m : Msg) : Prop :=
  ∃ before c digits, m.version = before ++ 57 :: c :: digits ∧ 57 ∉ before ∧
    (∀ b ∈ digits, isDigit b = true) ∧
    (5 + m.version.length + readDigits digits % 2 ^ 64 + 7) % 2 ^ 64 = m.text.length

/-- The first `n` bytes do not end with the first `9` of a message. -/
def Clear (ms : List Msg) (n : ℕ) : Prop :=
  ∀ before m after, ms = before ++ m :: after → n ≠ (stream before).length + m.nine

/-! ## The header -/

section Header

variable {pre digits : Bytes} {c : UInt8}

/-- Right behind the first `9` the parser reads past the end. -/
theorem header_nine (h : 57 ∉ pre) : header (pre ++ [57]) = .undefined := by
  rw [header, (Framing.takeWhile_piece h []).2]

theorem header_cons (h : 57 ∉ pre) (c : UInt8) (t : Bytes) :
    header (pre ++ 57 :: c :: t) =
      if (t.takeWhile (· ≠ soh)).all isDigit then
        if t.dropWhile (· ≠ soh) = [] then .more
        else .total (((pre ++ 57 :: c :: t).length - (t.dropWhile (· ≠ soh)).length
          + readDigits (t.takeWhile (· ≠ soh)) % 2 ^ 64 + 7) % 2 ^ 64)
      else .thrown := by
  rw [header, (Framing.takeWhile_piece h (c :: t)).2]

/-- A number that goes to the end of the buffer may go on. -/
theorem header_digits (h : 57 ∉ pre) (hdigits : ∀ b ∈ digits, isDigit b = true) :
    header (pre ++ 57 :: c :: digits) = .more := by
  obtain ⟨htake, hdrop⟩ := Framing.takeWhile_of_notMem (soh_notMem_of_isDigit hdigits)
  rw [header_cons h, htake, if_pos (List.all_eq_true.mpr hdigits), if_pos hdrop]

/-- A number and the `SOH` behind it. -/
theorem header_total (h : 57 ∉ pre) (hdigits : ∀ b ∈ digits, isDigit b = true) (t : Bytes) :
    header (pre ++ 57 :: c :: (digits ++ soh :: t))
      = .total ((pre.length + 2 + digits.length + readDigits digits % 2 ^ 64 + 7) % 2 ^ 64) := by
  obtain ⟨htake, hdrop⟩ := Framing.takeWhile_piece (soh_notMem_of_isDigit hdigits) t
  have hlength : (pre ++ 57 :: c :: (digits ++ soh :: t)).length - (soh :: t).length
      = pre.length + 2 + digits.length := by
    simp only [List.length_append, List.length_cons]
    omega
  rw [header_cons h, htake, hdrop, if_pos (List.all_eq_true.mpr hdigits),
    if_neg (List.cons_ne_nil _ _), hlength]

/-- What is no number throws. -/
theorem header_thrown (h : 57 ∉ pre) {word : Bytes} (hsoh : soh ∉ word)
    (hword : ¬ ∀ b ∈ word, isDigit b = true) (t : Bytes) :
    header (pre ++ 57 :: c :: (word ++ soh :: t)) = .thrown := by
  rw [header_cons h, (Framing.takeWhile_piece hsoh t).1, if_neg]
  rwa [List.all_eq_true]

end Header

/-! ## One message -/

/-- A text without the pattern, because it is shorter. -/
theorem textBefore_of_length_lt {pat p : Bytes} (h : p.length < pat.length) :
    textBefore pat p = p := by
  induction p with
  | nil => rfl
  | cons b p ih =>
    have hno : ¬ pat.isPrefixOf (b :: p) = true := by
      intro hpre
      have := (List.isPrefixOf_iff_prefix.mp hpre).length_le
      omega
    rw [textBefore, if_neg hno, ih (by rw [List.length_cons] at h; omega)]

theorem step_of_short {p : Bytes} (h : p.length < 5) : step p = .more := by
  have hsearch : textBefore (ascii "8=FIX") p = p := textBefore_of_length_lt h
  have hfound : found p = [] := by rw [found, hsearch, List.drop_length]
  rw [step, if_pos hfound]

theorem found_of_start {s : Bytes} (h : ascii "8=FIX" <+: s) : found s = s := by
  obtain ⟨t, rfl⟩ := h
  rfl

/-- A buffer that starts with a message. -/
theorem step_of_start {s : Bytes} (h : ascii "8=FIX" <+: s) :
    step s = match header s with
      | .more => .more
      | .undefined => .undefined
      | .thrown => .thrown
      | .total total_msg_len =>
          if s.length < total_msg_len then .more
          else
            match validateChecksum (s.take total_msg_len) with
            | none => .thrown
            | some valid =>
                if total_msg_len = 0 then .forever
                else
                  .message (if valid then some (s.take total_msg_len) else none)
                    (s.drop total_msg_len) := by
  have hne : s ≠ [] := List.ne_nil_of_length_pos (lt_of_lt_of_le (by decide) h.length_le)
  rw [step, found_of_start h, if_neg hne]

theorem stoi_threeDigits {n : ℕ} (h : n < 256) : ∃ tag, stoi (threeDigits n) = some tag ∧
    toU64 tag.val = n := by
  have hall : ∀ n < 256, (stoi (threeDigits n)).map (fun tag => toU64 tag.val) = some n := by
    decide +kernel
  exact Option.map_eq_some_iff.mp (hall n h)

/-- **The check sum of a message is found right.** -/
theorem validateChecksum_text (m : Msg) : validateChecksum m.text = some true := by
  have hlength : (front m.version m.length m.body).length ≠ m.text.length := by
    rw [Msg.text, text, List.length_append]
    show _ ≠ _ + (3 + (3 + 1))
    omega
  obtain ⟨tag, htag, hvalue⟩ := stoi_threeDigits
    (Nat.mod_lt ((front m.version m.length m.body).map UInt8.toNat).sum (by decide : 0 < 256))
  have hdigits : (m.text.drop ((front m.version m.length m.body).length + 3)).take 3
      = checksumText (front m.version m.length m.body) := by
    rw [Msg.text, text, ← List.drop_drop, List.drop_left]
    rfl
  have hfront : m.text.take (front m.version m.length m.body).length
      = front m.version m.length m.body := List.take_left
  have halone : textBefore (ascii "10=") m.text = front m.version m.length m.body := m.alone
  rw [validateChecksum, halone, if_neg hlength, hdigits, checksumText, htag, hfront]
  simp only [Option.map_some, hvalue, decide_true]

/-- What follows field 8. -/
def Msg.tail (m : Msg) : Bytes :=
  m.length ++ soh :: (m.body ++ (ascii "10="
    ++ (checksumText (front m.version m.length m.body) ++ [soh])))

theorem Msg.text_eq (m : Msg) :
    m.text = (ascii "8=FIX" ++ m.version) ++ soh :: 57 :: equals :: m.tail := by
  rw [Msg.text, Stream.text, front, Msg.tail]
  simp only [List.append_assoc, List.cons_append]
  rfl

theorem Msg.length_text (m : Msg) :
    m.text.length = m.version.length + m.length.length + m.body.length + 16 := by
  have hsum : (checksumText (front m.version m.length m.body)).length = 3 := rfl
  have hascii : (ascii "8=FIX").length = 5 := rfl
  have hten : (ascii "10=").length = 3 := rfl
  rw [Msg.text_eq, Msg.tail]
  simp only [List.length_append, List.length_cons, List.length_nil, hsum, hascii, hten]
  omega

theorem Msg.text_ne_nil (m : Msg) : m.text ≠ [] :=
  List.ne_nil_of_length_pos (by rw [m.length_text]; omega)

theorem Msg.prefix_text (m : Msg) : ascii "8=FIX" <+: m.text := by
  rw [m.text_eq, List.append_assoc]
  exact List.prefix_append _ _

/-- The bytes before the first `9` of a version that has one. -/
theorem nine_notMem {before : Bytes} (h : 57 ∉ before) : 57 ∉ ascii "8=FIX" ++ before := by
  rw [List.mem_append, not_or]
  exact ⟨by decide, h⟩

/-- A message whose first `9` is followed by a number, up to its first `SOH`. -/
theorem Msg.text_of_version {m : Msg} {before word : Bytes} {c : UInt8}
    (h : m.version = before ++ 57 :: c :: word) :
    m.text = (ascii "8=FIX" ++ before) ++ 57 :: c :: (word ++ soh :: 57 :: equals :: m.tail) := by
  rw [m.text_eq, h]
  simp only [List.append_assoc, List.cons_append]

theorem Msg.text_append_of_version {m : Msg} {before word : Bytes} {c : UInt8}
    (h : m.version = before ++ 57 :: c :: word) (t : Bytes) :
    m.text ++ t = (ascii "8=FIX" ++ before) ++ 57 :: c :: (word ++ soh ::
      (57 :: equals :: m.tail ++ t)) := by
  rw [m.text_of_version h]
  simp only [List.append_assoc, List.cons_append]

theorem Msg.length_of_version {m : Msg} {before word : Bytes} {c : UInt8}
    (h : m.version = before ++ 57 :: c :: word) :
    (ascii "8=FIX" ++ before).length + 2 + word.length = 5 + m.version.length := by
  rw [h, List.length_append, List.length_append, List.length_cons, List.length_cons]
  show 5 + before.length + 2 + word.length = _
  omega

/-- A number behind the first `9` of the version is taken for the length. -/
theorem header_of_digits {m : Msg} {before digits : Bytes} {c : UInt8}
    (hversion : m.version = before ++ 57 :: c :: digits) (hnine : 57 ∉ before)
    (hdigits : ∀ b ∈ digits, isDigit b = true) (t : Bytes) :
    header (m.text ++ t)
      = .total ((5 + m.version.length + readDigits digits % 2 ^ 64 + 7) % 2 ^ 64) := by
  rw [Msg.text_append_of_version hversion, header_total (nine_notMem hnine) hdigits,
    Msg.length_of_version hversion]

/-- Where a lucky message ends, the parser finds its end. -/
theorem header_lucky {m : Msg} (h : m.Lucky) (t : Bytes) :
    header (m.text ++ t) = .total m.text.length := by
  obtain ⟨before, c, digits, hversion, hnine, hdigits, htotal⟩ := h
  rw [header_of_digits hversion hnine hdigits, htotal]

/-- **A lucky message is found.** -/
theorem step_lucky {m : Msg} (h : m.Lucky) (t : Bytes) :
    step (m.text ++ t) = .message (some m.text) t := by
  have hpos : m.text.length ≠ 0 := by
    rw [m.length_text]
    omega
  have hle : ¬ (m.text ++ t).length < m.text.length := by
    rw [List.length_append]
    omega
  rw [step_of_start (m.prefix_text.trans (List.prefix_append _ t)), header_lucky h]
  dsimp only
  rw [if_neg hle, List.take_left, List.drop_left, validateChecksum_text]
  dsimp only
  rw [if_neg hpos, if_pos rfl]

/-- Without a `9` in the version the parser finds field 9, and the message ends one byte
early. -/
theorem header_of_notMem {m : Msg} (h : 57 ∉ m.version) (t : Bytes) :
    header (m.text ++ t) = .total ((m.version.length + m.length.length + m.body.length % 2 ^ 64
      + 15) % 2 ^ 64) := by
  have hnine : 57 ∉ (ascii "8=FIX" ++ m.version) ++ [soh] := by
    rw [List.mem_append, not_or]
    exact ⟨nine_notMem h, by decide⟩
  have htext : m.text ++ t = ((ascii "8=FIX" ++ m.version) ++ [soh]) ++ 57 :: equals ::
      (m.length ++ soh :: (m.body ++ (ascii "10="
        ++ (checksumText (front m.version m.length m.body) ++ [soh])) ++ t)) := by
    rw [m.text_eq, Msg.tail]
    simp only [List.append_assoc, List.cons_append, List.nil_append]
  have hlength : ((ascii "8=FIX" ++ m.version) ++ [soh]).length = m.version.length + 6 := by
    rw [List.length_append, List.length_append]
    show 5 + m.version.length + 1 = _
    omega
  rw [htext, header_total hnine m.isDigit_length, hlength, m.length_eq]
  congr 2
  omega

/-- A `9` at the end of the version: field 9 is taken for the number. -/
theorem header_of_last {m : Msg} {before : Bytes} (hversion : m.version = before ++ [57])
    (hnine : 57 ∉ before) (t : Bytes) : header (m.text ++ t) = .thrown := by
  have htext : m.text ++ t = (ascii "8=FIX" ++ before) ++ 57 :: soh ::
      ((57 :: equals :: m.length) ++ soh :: (m.body ++ (ascii "10="
        ++ (checksumText (front m.version m.length m.body) ++ [soh])) ++ t)) := by
    rw [m.text_eq, Msg.tail, hversion]
    simp only [List.append_assoc, List.cons_append, List.nil_append]
  have hsoh : soh ∉ 57 :: equals :: m.length := by
    have hlength := soh_notMem_of_isDigit m.isDigit_length
    simpa [soh, equals] using hlength
  rw [htext, header_thrown (nine_notMem hnine) hsoh]
  intro hdigits
  exact absurd (hdigits equals (by simp)) (by decide)

/-- What follows a `9` in the version is no number. -/
theorem header_of_word {m : Msg} {before word : Bytes} {c : UInt8}
    (hversion : m.version = before ++ 57 :: c :: word) (hnine : 57 ∉ before)
    (hword : ¬ ∀ b ∈ word, isDigit b = true) (t : Bytes) : header (m.text ++ t) = .thrown := by
  have hsoh : soh ∉ word := by
    intro hmem
    refine m.soh_notMem ?_
    rw [hversion]
    exact List.mem_append_right _ (List.mem_cons_of_mem _ (List.mem_cons_of_mem _ hmem))
  rw [Msg.text_append_of_version hversion, header_thrown (nine_notMem hnine) hsoh hword]

/-- **No other message is found.** -/
theorem lucky_of_header {m : Msg} {t : Bytes} (h : header (m.text ++ t) = .total m.text.length) :
    m.Lucky := by
  by_cases hmem : 57 ∈ m.version
  · obtain ⟨before, rest, hversion, hnine⟩ := List.eq_append_cons_of_mem hmem
    cases rest with
    | nil =>
      rw [header_of_last hversion hnine] at h
      exact Header.noConfusion h
    | cons c word =>
      by_cases hword : ∀ b ∈ word, isDigit b = true
      · rw [header_of_digits hversion hnine hword] at h
        exact ⟨before, c, word, hversion, hnine, hword, Header.total.inj h⟩
      · rw [header_of_word hversion hnine hword] at h
        exact Header.noConfusion h
  · rw [header_of_notMem hmem] at h
    have htotal := Header.total.inj h
    have hbody := Nat.mod_le m.body.length (2 ^ 64)
    have hall := Nat.mod_le (m.version.length + m.length.length + m.body.length % 2 ^ 64 + 15)
      (2 ^ 64)
    rw [m.length_text] at htotal
    omega

/-- **What one round can do** when it erases a message. -/
theorem of_step {buffer rest : Bytes} {callback : Option Bytes}
    (h : step buffer = .message callback rest) :
    ∃ n, header (found buffer) = .total n ∧ n ≠ 0 ∧ n ≤ (found buffer).length ∧
      rest = (found buffer).drop n ∧
      (callback = none ∨ callback = some ((found buffer).take n)) := by
  rw [step] at h
  by_cases hne : found buffer = []
  · rw [if_pos hne] at h
    exact Step.noConfusion h
  rw [if_neg hne] at h
  cases hheader : header (found buffer) with
  | more => rw [hheader] at h; exact Step.noConfusion h
  | undefined => rw [hheader] at h; exact Step.noConfusion h
  | thrown => rw [hheader] at h; exact Step.noConfusion h
  | total n =>
    rw [hheader] at h
    dsimp only at h
    by_cases hshort : (found buffer).length < n
    · rw [if_pos hshort] at h
      exact Step.noConfusion h
    rw [if_neg hshort] at h
    cases hvalid : validateChecksum ((found buffer).take n) with
    | none => rw [hvalid] at h; exact Step.noConfusion h
    | some valid =>
      rw [hvalid] at h
      dsimp only at h
      by_cases hzero : n = 0
      · rw [if_pos hzero] at h
        exact Step.noConfusion h
      rw [if_neg hzero] at h
      obtain ⟨hcallback, rfl⟩ := Step.message.inj h
      refine ⟨n, rfl, hzero, Nat.le_of_not_lt hshort, rfl, ?_⟩
      cases valid with
      | false => exact Or.inl hcallback.symm
      | true => exact Or.inr hcallback.symm

/-- What is erased is not empty, and the callback gets no more than it. -/
theorem length_of_step {buffer rest : Bytes} {callback : Option Bytes}
    (h : step buffer = .message callback rest) :
    rest.length < buffer.length ∧
      callback.toList.flatten.length + rest.length ≤ buffer.length := by
  obtain ⟨n, -, hzero, hle, rfl, hcallback⟩ := of_step h
  have hfound : (found buffer).length ≤ buffer.length := by
    rw [found, List.length_drop]
    omega
  rw [List.length_drop]
  rcases hcallback with rfl | rfl
  · refine ⟨by omega, ?_⟩
    show 0 + _ ≤ _
    omega
  · rw [Option.toList_some, List.flatten_singleton, List.length_take]
    exact ⟨by omega, by omega⟩

/-- Where no byte is lost, the callback gets what stands in front. -/
theorem of_step_of_length {buffer rest : Bytes} {callback : Option Bytes}
    (h : step buffer = .message callback rest)
    (hlength : buffer.length ≤ callback.toList.flatten.length + rest.length) :
    ∃ msg, callback = some msg ∧ buffer = msg ++ rest := by
  obtain ⟨n, -, hzero, hle, rfl, hcallback⟩ := of_step h
  have hfound : (found buffer).length = buffer.length
      - (textBefore (ascii "8=FIX") buffer).length := by rw [found, List.length_drop]
  rw [List.length_drop] at hlength
  rcases hcallback with rfl | rfl
  · have hnone : (none : Option Bytes).toList.flatten.length = 0 := rfl
    omega
  · rw [Option.toList_some, List.flatten_singleton, List.length_take] at hlength
    have hall : found buffer = buffer := by
      have hsearch : (textBefore (ascii "8=FIX") buffer).length = 0 := by omega
      rw [found, hsearch, List.drop_zero]
    refine ⟨_, rfl, ?_⟩
    rw [List.take_append_drop, hall]

/-- **Only a lucky message is found where it ends.** -/
theorem lucky_of_step {m : Msg} {t : Bytes} {callback : Option Bytes}
    (h : step (m.text ++ t) = .message callback t) : m.Lucky := by
  obtain ⟨n, hheader, -, hle, hrest, -⟩ := of_step h
  rw [found_of_start (m.prefix_text.trans (List.prefix_append _ t))] at hheader hle hrest
  have hlength := congrArg List.length hrest
  rw [List.length_drop, List.length_append] at hlength
  rw [List.length_append] at hle
  have hn : n = m.text.length := by omega
  rw [hn] at hheader
  exact lucky_of_header hheader

/-! ## A part of a message -/

/-- The first `9` of a message is not its last byte. -/
theorem Msg.exists_nine (m : Msg) : ∃ pre c t, 57 ∉ ascii "8=FIX" ++ pre ∧
    m.text = (ascii "8=FIX" ++ pre) ++ 57 :: c :: t ∧
    m.nine = (ascii "8=FIX" ++ pre).length + 1 := by
  have hmem : 57 ∈ m.version ++ soh :: 57 :: equals :: m.tail :=
    List.mem_append_right _ (List.mem_cons_of_mem _ List.mem_cons_self)
  obtain ⟨pre, rest, hsplit, hnine⟩ := List.eq_append_cons_of_mem hmem
  have htext : m.text = (ascii "8=FIX" ++ pre) ++ 57 :: rest := by
    rw [m.text_eq, List.append_assoc, hsplit, List.append_assoc]
  have hlength : m.nine = (ascii "8=FIX" ++ pre).length + 1 := by
    rw [Msg.nine, htext, (Framing.takeWhile_piece (nine_notMem hnine) rest).1]
  cases rest with
  | nil =>
    -- the last byte of a message is an `SOH`
    have hend : m.text = front m.version m.length m.body ++ (ascii "10="
        ++ checksumText (front m.version m.length m.body)) ++ [soh] := by
      rw [Msg.text, Stream.text, List.append_assoc, List.append_assoc]
    obtain ⟨-, hlast⟩ := List.append_inj' (htext.symm.trans hend) rfl
    exact absurd (List.cons.inj hlast).1 (by decide)
  | cons c t => exact ⟨pre, c, t, nine_notMem hnine, htext, hlength⟩

theorem Msg.nine_lt (m : Msg) : m.nine < m.text.length := by
  obtain ⟨pre, c, t, -, htext, hnine⟩ := m.exists_nine
  rw [hnine, htext, @List.length_append _ _ (57 :: c :: t), List.length_cons, List.length_cons]
  omega

theorem Msg.nine_pos (m : Msg) : 0 < m.nine := Nat.succ_pos _

/-- **A buffer that ends with the first `9`** makes the parser read past the end. -/
theorem step_nine {m : Msg} {q : Bytes} (hq : q <+: m.text) (hlength : q.length = m.nine) :
    step q = .undefined := by
  obtain ⟨pre, c, t, hmem, htext, hnine⟩ := m.exists_nine
  have hfirst : (ascii "8=FIX" ++ pre) ++ [57] <+: m.text :=
    ⟨c :: t, by rw [htext, List.append_assoc (ascii "8=FIX" ++ pre), List.singleton_append]⟩
  have hfirst_length : ((ascii "8=FIX" ++ pre) ++ [57]).length = q.length := by
    rw [hlength, hnine, List.length_append, List.length_singleton]
  obtain rfl : q = (ascii "8=FIX" ++ pre) ++ [57] :=
    (List.prefix_of_prefix_length_le hq hfirst hfirst_length.ge).eq_of_length hfirst_length.symm
  have hstart : ascii "8=FIX" <+: (ascii "8=FIX" ++ pre) ++ [57] := by
    rw [List.append_assoc]
    exact List.prefix_append _ _
  rw [step_of_start hstart, header_nine hmem]

theorem header_of_notMem_nine {q : Bytes} (h : 57 ∉ q) : header q = .more := by
  rw [header, (Framing.takeWhile_of_notMem h).2]

/-- What the parser knows of a part of a lucky message: nothing, or its length. -/
theorem header_proper {m : Msg} {q : Bytes} (h : m.Lucky) (hq : q <+: m.text)
    (hne : q.length ≠ m.nine) : header q = .more ∨ header q = .total m.text.length := by
  obtain ⟨before, c, digits, hversion, hnine, hdigits, htotal⟩ := id h
  have htext := m.text_of_version hversion
  have hmem := nine_notMem hnine
  have hnine_eq : m.nine = (ascii "8=FIX" ++ before).length + 1 := by
    rw [Msg.nine, htext, (Framing.takeWhile_piece hmem _).1]
  rw [htext] at hq
  rcases Nat.lt_or_ge (ascii "8=FIX" ++ before).length q.length with hlt | hle
  · obtain ⟨r, rfl⟩ := List.prefix_of_prefix_length_le (List.prefix_append _ _) hq hlt.le
    have hr := (List.prefix_append_right_inj _).mp hq
    rcases r with - | ⟨b, - | ⟨b', r⟩⟩
    · exact absurd hlt (by rw [List.append_nil]; omega)
    · -- the part would end with the first `9`
      rw [hnine_eq, @List.length_append _ _ [b]] at hne
      exact absurd rfl hne
    · obtain ⟨rfl, hsecond⟩ := List.cons_prefix_cons.mp hr
      obtain ⟨rfl, hthird⟩ := List.cons_prefix_cons.mp hsecond
      rcases Nat.lt_or_ge digits.length r.length with hlt | hle
      · obtain ⟨r, rfl⟩ := List.prefix_of_prefix_length_le (List.prefix_append _ _) hthird hlt.le
        have hend := (List.prefix_append_right_inj _).mp hthird
        cases r with
        | nil => exact absurd hlt (by rw [List.append_nil]; omega)
        | cons b r =>
          obtain ⟨rfl, -⟩ := List.cons_prefix_cons.mp hend
          rw [header_total hmem hdigits, Msg.length_of_version hversion, htotal]
          exact Or.inr rfl
      · have hpart : r <+: digits := (List.isPrefix_append_of_length hle).mp hthird
        exact Or.inl (header_digits hmem fun b hb => hdigits b (hpart.subset hb))
  · have hpart : q <+: ascii "8=FIX" ++ before := (List.isPrefix_append_of_length hle).mp hq
    exact Or.inl (header_of_notMem_nine fun hq => hmem (hpart.subset hq))

/-- **For the rest of a lucky message the parser waits**, unless it has just its first `9`. -/
theorem step_proper {m : Msg} {q : Bytes} (h : m.Lucky) (hq : q <+: m.text)
    (hlt : q.length < m.text.length) (hne : q.length ≠ m.nine) : step q = .more := by
  rcases Nat.lt_or_ge q.length 5 with hshort | hlong
  · exact step_of_short hshort
  · have hstart : ascii "8=FIX" <+: q :=
      List.prefix_of_prefix_length_le m.prefix_text hq hlong
    rw [step_of_start hstart]
    rcases header_proper h hq hne with hheader | hheader
    · rw [hheader]
    · rw [hheader]
      exact if_pos hlt

/-! ## A call -/

/-- Bounds past the length of the buffer do not differ. -/
theorem processUpTo_congr {n k : ℕ} {buffer : Bytes} (hn : buffer.length < n)
    (hk : buffer.length < k) : processUpTo n buffer = processUpTo k buffer := by
  induction n generalizing k buffer with
  | zero => exact absurd hn (Nat.not_lt_zero _)
  | succ n ih =>
    cases k with
    | zero => exact absurd hk (Nat.not_lt_zero _)
    | succ k =>
      rw [processUpTo, processUpTo]
      cases hstep : step buffer with
      | message callback rest =>
        have hshort := (length_of_step hstep).1
        have hrest : processUpTo n rest = processUpTo k rest := ih (by omega) (by omega)
        dsimp only
        rw [hrest]
      | more => rfl
      | undefined => rfl
      | thrown => rfl
      | forever => rfl

theorem processBuffer_of_more {buffer : Bytes} (h : step buffer = .more) :
    processBuffer buffer = ([], .more buffer) := by
  rw [processBuffer, processUpTo, h]

theorem processBuffer_of_message {buffer rest : Bytes} {callback : Option Bytes}
    (h : step buffer = .message callback rest) :
    processBuffer buffer
      = (callback.toList ++ (processBuffer rest).1, (processBuffer rest).2) := by
  have hshort := (length_of_step h).1
  rw [processBuffer, processUpTo, h]
  dsimp only
  rw [processBuffer, processUpTo_congr hshort (Nat.lt_succ_self _)]

theorem processBuffer_of_undefined {buffer : Bytes} (h : step buffer = .undefined) :
    processBuffer buffer = ([], .undefined) := by
  rw [processBuffer, processUpTo, h]

/-- **Induction along the messages** that are erased. -/
theorem process_induction {P : Bytes → Prop} (more : ∀ buffer, step buffer = .more → P buffer)
    (fail : ∀ buffer outcome, step buffer ≠ .more → processBuffer buffer = ([], outcome) →
      (∀ rest, outcome ≠ .more rest) → P buffer)
    (message : ∀ buffer callback rest, step buffer = .message callback rest → P rest → P buffer)
    (buffer : Bytes) : P buffer := by
  induction hn : buffer.length using Nat.strong_induction_on generalizing buffer with
  | _ n ih =>
    cases hstep : step buffer with
    | more => exact more buffer hstep
    | message callback rest =>
      have hshort := (length_of_step hstep).1
      exact message buffer callback rest hstep (ih rest.length (by omega) rest rfl)
    | undefined =>
      exact fail buffer .undefined (by rw [hstep]; exact Step.noConfusion)
        (processBuffer_of_undefined hstep) fun _ h => Outcome.noConfusion h
    | thrown =>
      refine fail buffer .thrown (by rw [hstep]; exact Step.noConfusion) ?_
        fun _ h => Outcome.noConfusion h
      rw [processBuffer, processUpTo, hstep]
    | forever =>
      refine fail buffer .forever (by rw [hstep]; exact Step.noConfusion) ?_
        fun _ h => Outcome.noConfusion h
      rw [processBuffer, processUpTo, hstep]

/-- **No byte is called back twice**, and none of those that are kept. -/
theorem length_of_more {buffer left : Bytes} (h : (processBuffer buffer).2 = .more left) :
    step left = .more ∧ (processBuffer buffer).1.flatten.length + left.length ≤ buffer.length := by
  induction buffer using process_induction with
  | more buffer hstep =>
    rw [processBuffer_of_more hstep] at h ⊢
    obtain rfl := Outcome.more.inj h
    exact ⟨hstep, le_of_eq (Nat.zero_add _)⟩
  | fail buffer outcome hstep hprocess houtcome =>
    rw [hprocess] at h
    exact absurd h (houtcome left)
  | message buffer callback rest hstep ih =>
    rw [processBuffer_of_message hstep] at h ⊢
    obtain ⟨hleft, hlength⟩ := ih h
    have hcallback := (length_of_step hstep).2
    refine ⟨hleft, ?_⟩
    rw [List.flatten_append, List.length_append]
    omega

/-- A call that does not return stops before the end of the buffer. -/
theorem length_lt_of_fail {buffer : Bytes} (h : ∀ left, (processBuffer buffer).2 ≠ .more left) :
    (processBuffer buffer).1.flatten.length < buffer.length := by
  induction buffer using process_induction with
  | more buffer hstep =>
    rw [processBuffer_of_more hstep] at h
    exact absurd rfl (h buffer)
  | fail buffer outcome hstep hprocess houtcome =>
    rw [hprocess]
    refine List.length_pos_of_ne_nil ?_
    rintro rfl
    exact hstep (step_of_short (by decide))
  | message buffer callback rest hstep ih =>
    rw [processBuffer_of_message hstep] at h ⊢
    have hrest := ih h
    have hcallback := (length_of_step hstep).2
    rw [List.flatten_append, List.length_append]
    omega

theorem stream_cons (m : Msg) (ms : List Msg) : stream (m :: ms) = m.text ++ stream ms := by
  rw [stream, List.map_cons, List.flatten_cons, stream]

theorem stream_append (ms ms' : List Msg) : stream (ms ++ ms') = stream ms ++ stream ms' := by
  rw [stream, List.map_append, List.flatten_append, stream, stream]

/-- **Where no byte is lost, the messages are lucky** and stand one behind the other. -/
theorem of_processBuffer {buffer left : Bytes} {ms : List Msg}
    (h : (processBuffer buffer).2 = .more left)
    (hcalls : (processBuffer buffer).1 <+: ms.map Msg.text)
    (hlength : buffer.length ≤ (processBuffer buffer).1.flatten.length + left.length) :
    ∃ done later, ms = done ++ later ∧ (processBuffer buffer).1 = done.map Msg.text ∧
      buffer = stream done ++ left ∧ ∀ m ∈ done, m.Lucky := by
  induction buffer using process_induction generalizing ms with
  | more buffer hstep =>
    rw [processBuffer_of_more hstep] at h ⊢
    obtain rfl := Outcome.more.inj h
    exact ⟨[], ms, rfl, rfl, rfl, fun m hm => absurd hm List.not_mem_nil⟩
  | fail buffer outcome hstep hprocess houtcome =>
    rw [hprocess] at h
    exact absurd h (houtcome left)
  | message buffer callback rest hstep ih =>
    rw [processBuffer_of_message hstep] at h hcalls hlength ⊢
    have hrest := (length_of_more h).2
    rw [List.flatten_append, List.length_append] at hlength
    obtain ⟨msg, rfl, rfl⟩ := of_step_of_length hstep (by omega)
    rw [Option.toList_some, List.singleton_append] at hcalls
    rw [Option.toList_some, List.flatten_singleton, List.length_append] at hlength
    cases ms with
    | nil => exact absurd (List.prefix_nil.mp hcalls) (List.cons_ne_nil _ _)
    | cons m ms =>
      rw [List.map_cons] at hcalls
      obtain ⟨rfl, hrest_calls⟩ := List.cons_prefix_cons.mp hcalls
      obtain ⟨done, later, rfl, hdone, hsplit, hlucky⟩ := ih h hrest_calls (by omega)
      refine ⟨m :: done, later, rfl, ?_, ?_, ?_⟩
      · rw [hdone]
        rfl
      · rw [stream_cons, List.append_assoc, ← hsplit]
      · rw [List.forall_mem_cons]
        exact ⟨lucky_of_step hstep, hlucky⟩

/-! ## Where a chunk may end -/

theorem length_stream_append (before : List Msg) (m : Msg) (after : List Msg) :
    (stream before).length + m.text.length ≤ (stream (before ++ m :: after)).length := by
  rw [stream_append, stream_cons, List.length_append, List.length_append]
  omega

theorem clear_append (done later : List Msg) (n : ℕ) :
    Clear (done ++ later) ((stream done).length + n) ↔ Clear later n := by
  constructor
  · rintro h before m after rfl heq
    refine h (done ++ before) m after (List.append_assoc _ _ _).symm ?_
    rw [heq, stream_append, List.length_append, Nat.add_assoc]
  · intro h before m after heq hn
    rcases List.append_eq_append_iff.mp heq with ⟨mid, rfl, hlater⟩ | ⟨mid, rfl, hlater⟩
    · refine h mid m after hlater ?_
      rw [stream_append, List.length_append] at hn
      omega
    · cases mid with
      | nil =>
        rw [List.append_nil] at hn
        refine h [] m after hlater.symm ?_
        show n = 0 + m.nine
        omega
      | cons m' mid =>
        obtain ⟨rfl, -⟩ := List.cons.inj hlater
        -- the message is one of those that are complete
        have hlength := length_stream_append before m mid
        have hnine := m.nine_lt
        omega

/-- A buffer in which the parser waits does not end with the first `9` of a lucky message. -/
theorem clear_of_step {ms : List Msg} {left : Bytes} (hleft : left <+: stream ms)
    (hlucky : ∀ m ∈ ms, m.Lucky) (hstep : step left = .more) : Clear ms left.length := by
  rintro before m after rfl hn
  rw [stream_append, stream_cons] at hleft
  cases before with
  | nil =>
    have hpart : left <+: m.text ++ stream after := hleft
    rw [stream, List.map_nil, List.flatten_nil, List.length_nil, Nat.zero_add] at hn
    have hnine := m.nine_lt
    have hfirst : left <+: m.text := (List.isPrefix_append_of_length (by omega)).mp hpart
    rw [step_nine hfirst hn] at hstep
    exact Step.noConfusion hstep
  | cons m' before =>
    rw [stream_cons, List.length_append] at hn
    rw [stream_cons, List.append_assoc] at hleft
    obtain ⟨rest, rfl⟩ := List.prefix_of_prefix_length_le (List.prefix_append m'.text _) hleft
      (by omega)
    rw [step_lucky (hlucky m' List.mem_cons_self)] at hstep
    exact Step.noConfusion hstep

/-! ## The calls -/

/-- What is left is less than the next message. -/
def Waiting (ms : List Msg) (left : Bytes) : Prop :=
  ∀ m later, ms = m :: later → left.length < m.text.length

/-- **One call on lucky messages** calls back those that are complete. -/
theorem processBuffer_of_lucky {ms : List Msg} {buffer : Bytes} (hlucky : ∀ m ∈ ms, m.Lucky)
    (hbuffer : buffer <+: stream ms) (hclear : Clear ms buffer.length) :
    ∃ done later left, ms = done ++ later ∧ buffer = stream done ++ left ∧ Waiting later left ∧
      processBuffer buffer = (done.map Msg.text, .more left) := by
  induction ms generalizing buffer with
  | nil =>
    obtain rfl : buffer = [] := List.prefix_nil.mp hbuffer
    refine ⟨[], [], [], rfl, rfl, fun m later h => absurd h.symm (List.cons_ne_nil _ _), ?_⟩
    exact processBuffer_of_more (step_of_short (by decide))
  | cons m ms ih =>
    obtain ⟨hm, hlucky⟩ := List.forall_mem_cons.mp hlucky
    rw [stream_cons] at hbuffer
    rcases Nat.lt_or_ge buffer.length m.text.length with hlt | hle
    · have hfirst : buffer <+: m.text := (List.isPrefix_append_of_length hlt.le).mp hbuffer
      have hnine : buffer.length ≠ m.nine := by
        have hne := hclear [] m ms rfl
        rwa [stream, List.map_nil, List.flatten_nil, List.length_nil, Nat.zero_add] at hne
      refine ⟨[], m :: ms, buffer, rfl, rfl, ?_, ?_⟩
      · intro m' later h
        obtain ⟨rfl, -⟩ := List.cons.inj h
        exact hlt
      · exact processBuffer_of_more (step_proper hm hfirst hlt hnine)
    · obtain ⟨rest, rfl⟩ := List.prefix_of_prefix_length_le (List.prefix_append _ _) hbuffer hle
      have hrest : rest <+: stream ms := (List.prefix_append_right_inj _).mp hbuffer
      have hclear_rest : Clear ms rest.length := by
        have hone : (stream [m]).length = m.text.length := by
          rw [stream, List.map_singleton, List.flatten_singleton]
        rw [List.length_append, ← hone] at hclear
        exact (clear_append [m] ms rest.length).mp hclear
      obtain ⟨done, later, left, rfl, rfl, hwaiting, hprocess⟩ := ih hlucky hrest hclear_rest
      refine ⟨m :: done, later, left, rfl, ?_, hwaiting, ?_⟩
      · rw [stream_cons, List.append_assoc]
      · rw [processBuffer_of_message (step_lucky hm _), hprocess]
        rfl

/-- **All calls on lucky messages**, in chunks that do not end with a first `9`. -/
theorem run_of_lucky {ms : List Msg} {buffer : Bytes} {chunks : List Bytes}
    (hlucky : ∀ m ∈ ms, m.Lucky) (hwaiting : Waiting ms buffer)
    (hchunks : buffer ++ chunks.flatten <+: stream ms)
    (hclear : ∀ received, received <+: chunks → received ≠ [] →
      Clear ms (buffer ++ received.flatten).length) :
    ∃ done later left, ms = done ++ later ∧ buffer ++ chunks.flatten = stream done ++ left ∧
      Waiting later left ∧ (run buffer chunks).1.flatten = done.map Msg.text ∧
      (run buffer chunks).2 = .more left := by
  induction chunks generalizing buffer ms with
  | nil => exact ⟨[], ms, buffer, rfl, List.append_nil _, hwaiting, rfl, rfl⟩
  | cons chunk chunks ih =>
    rw [List.flatten_cons, ← List.append_assoc] at hchunks
    have hfirst : Clear ms (buffer ++ chunk).length := by
      have hone := hclear [chunk] ⟨chunks, rfl⟩ (List.cons_ne_nil _ _)
      rwa [List.flatten_singleton] at hone
    obtain ⟨done, later, left, rfl, hsplit, hwaiting, hprocess⟩ :=
      processBuffer_of_lucky hlucky ((List.prefix_append _ _).trans hchunks) hfirst
    have hrest : left ++ chunks.flatten <+: stream later := by
      rw [hsplit, List.append_assoc, stream_append] at hchunks
      exact (List.prefix_append_right_inj _).mp hchunks
    have hclear_rest : ∀ received, received <+: chunks → received ≠ [] →
        Clear later (left ++ received.flatten).length := by
      intro received hreceived hne
      have hall := hclear (chunk :: received) (List.cons_prefix_cons.mpr ⟨rfl, hreceived⟩)
        (List.cons_ne_nil _ _)
      rw [List.flatten_cons, ← List.append_assoc, hsplit, List.append_assoc,
        List.length_append] at hall
      exact (clear_append done later _).mp hall
    obtain ⟨done', later', left', rfl, hsplit', hwaiting', hcalls, hrun⟩ :=
      ih (fun m hm => hlucky m (List.mem_append_right _ hm)) hwaiting hrest hclear_rest
    refine ⟨done ++ done', later', left', (List.append_assoc _ _ _).symm, ?_, hwaiting', ?_, ?_⟩
    · rw [List.flatten_cons, ← List.append_assoc, hsplit, List.append_assoc, hsplit',
        stream_append, List.append_assoc]
    · rw [run, hprocess]
      dsimp only
      rw [List.flatten_cons, hcalls, List.map_append]
    · rw [run, hprocess]
      exact hrun

theorem run_of_more {buffer chunk left : Bytes} (chunks : List Bytes)
    (h : (processBuffer (buffer ++ chunk)).2 = .more left) :
    run buffer (chunk :: chunks)
      = ((processBuffer (buffer ++ chunk)).1 :: (run left chunks).1, (run left chunks).2) := by
  rcases hprocess : processBuffer (buffer ++ chunk) with ⟨callbacks, outcome⟩
  rw [hprocess] at h
  obtain rfl := h
  rw [run, hprocess]

theorem run_of_fail {buffer chunk : Bytes} (chunks : List Bytes)
    (h : ∀ left, (processBuffer (buffer ++ chunk)).2 ≠ .more left) :
    run buffer (chunk :: chunks)
      = ([(processBuffer (buffer ++ chunk)).1], (processBuffer (buffer ++ chunk)).2) := by
  rcases hprocess : processBuffer (buffer ++ chunk) with ⟨callbacks, outcome⟩
  rw [hprocess] at h
  rw [run, hprocess]
  cases outcome with
  | more left => exact absurd rfl (h left)
  | undefined => rfl
  | thrown => rfl
  | forever => rfl

/-- No byte is called back by two calls. -/
theorem length_run (buffer : Bytes) (chunks : List Bytes) :
    (run buffer chunks).1.flatten.flatten.length ≤ (buffer ++ chunks.flatten).length := by
  induction chunks generalizing buffer with
  | nil => exact Nat.zero_le _
  | cons chunk chunks ih =>
    rw [List.flatten_cons, ← List.append_assoc, List.length_append]
    by_cases hmore : ∃ left, (processBuffer (buffer ++ chunk)).2 = .more left
    · obtain ⟨left, hleft⟩ := hmore
      have hfirst := (length_of_more hleft).2
      have hrest := ih left
      rw [List.length_append] at hrest
      rw [run_of_more chunks hleft, List.flatten_cons, List.flatten_append, List.length_append]
      omega
    · have hfail := not_exists.mp hmore
      have hfirst := length_lt_of_fail hfail
      rw [run_of_fail chunks hfail, List.flatten_singleton]
      omega

/-- **What is called back whole was lucky**, and every chunk left the parser waiting. -/
theorem lucky_of_run {ms : List Msg} {buffer : Bytes} {chunks : List Bytes}
    (hchunks : buffer ++ chunks.flatten = stream ms)
    (hcalls : (run buffer chunks).1.flatten = ms.map Msg.text) :
    (∀ m ∈ ms, m.Lucky) ∧ ∀ received, received <+: chunks → received ≠ [] →
      Clear ms (buffer ++ received.flatten).length := by
  have hall : (run buffer chunks).1.flatten.flatten.length = (buffer ++ chunks.flatten).length := by
    rw [hcalls, hchunks, stream]
  induction chunks generalizing buffer ms with
  | nil =>
    obtain rfl := List.map_eq_nil_iff.mp hcalls.symm
    refine ⟨fun m hm => absurd hm List.not_mem_nil, fun received hreceived hne => ?_⟩
    exact absurd (List.prefix_nil.mp hreceived) hne
  | cons chunk chunks ih =>
    rw [List.flatten_cons, ← List.append_assoc] at hchunks hall
    rw [List.length_append] at hall
    by_cases hmore : ∃ left, (processBuffer (buffer ++ chunk)).2 = .more left
    · obtain ⟨left, hleft⟩ := hmore
      rw [run_of_more chunks hleft, List.flatten_cons] at hcalls hall
      rw [List.flatten_append, List.length_append] at hall
      have hfirst := (length_of_more hleft).2
      have hrest := length_run left chunks
      rw [List.length_append] at hrest
      obtain ⟨done, later, rfl, hdone, hsplit, hlucky⟩ :=
        of_processBuffer hleft ⟨_, hcalls⟩ (by omega)
      rw [hdone, List.map_append] at hcalls
      rw [hsplit, stream_append, List.append_assoc] at hchunks
      obtain ⟨hlater, hclear⟩ := ih (List.append_cancel_left hchunks)
        (List.append_cancel_left hcalls) (by rw [List.length_append]; omega)
      refine ⟨List.forall_mem_append.mpr ⟨hlucky, hlater⟩, fun received hreceived hne => ?_⟩
      have hpart : left <+: stream later := ⟨_, List.append_cancel_left hchunks⟩
      cases received with
      | nil => exact absurd rfl hne
      | cons chunk' received =>
        obtain ⟨rfl, hreceived_rest⟩ := List.cons_prefix_cons.mp hreceived
        rw [List.flatten_cons, ← List.append_assoc, hsplit, List.append_assoc,
          List.length_append, clear_append]
        cases received with
        | nil =>
          rw [List.flatten_nil, List.append_nil]
          exact clear_of_step hpart hlater (length_of_more hleft).1
        | cons second received => exact hclear _ hreceived_rest (List.cons_ne_nil _ _)
    · have hfail := not_exists.mp hmore
      have hfirst := length_lt_of_fail hfail
      rw [run_of_fail chunks hfail, List.flatten_singleton] at hall
      omega

/-! ## When it holds -/

theorem waiting_nil (ms : List Msg) : Waiting ms [] :=
  fun m _ _ => List.length_pos_of_ne_nil m.text_ne_nil

/-- What is received completely is called back. -/
theorem complete_of_received {done later complete : List Msg} {received left : Bytes}
    (hcomplete : complete <+: done ++ later) (hreceived : received = stream done ++ left)
    (hwaiting : Waiting later left) (hlength : (stream complete).length ≤ received.length) :
    complete <+: done := by
  rcases List.prefix_or_prefix_of_prefix hcomplete (List.prefix_append done later) with h | h
  · exact h
  · obtain ⟨rest, rfl⟩ := h
    have hrest := (List.prefix_append_right_inj _).mp hcomplete
    cases rest with
    | nil => exact ⟨[], by rw [List.append_nil, List.append_nil]⟩
    | cons m rest =>
      cases later with
      | nil => exact absurd (List.prefix_nil.mp hrest) (List.cons_ne_nil _ _)
      | cons m' later =>
        obtain ⟨rfl, -⟩ := List.cons_prefix_cons.mp hrest
        have hnext := hwaiting m later rfl
        have hlong := length_stream_append done m rest
        rw [hreceived, List.length_append] at hlength
        omega

/-- **When the messages are delivered**: when they are lucky, and no chunk ends with the first
`9` of one of them. -/
theorem delivered_iff {ms : List Msg} {chunks : List Bytes} (hchunks : chunks.flatten = stream ms) :
    Delivered ms chunks ↔ (∀ m ∈ ms, m.Lucky) ∧
      ∀ received, received <+: chunks → Clear ms received.flatten.length := by
  constructor
  · intro h
    have hstart : [] ++ chunks.flatten = stream ms := hchunks
    obtain ⟨hlucky, hclear⟩ := lucky_of_run hstart h.callbacks
    refine ⟨hlucky, fun received hreceived => ?_⟩
    cases received with
    | nil =>
      rintro before m after - hzero
      have hnine := m.nine_pos
      rw [List.flatten_nil, List.length_nil] at hzero
      omega
    | cons chunk received => exact hclear _ hreceived (List.cons_ne_nil _ _)
  · rintro ⟨hlucky, hclear⟩
    have hrun : ∀ received, received <+: chunks → ∃ done later left, ms = done ++ later ∧
        received.flatten = stream done ++ left ∧ Waiting later left ∧
        (run [] received).1.flatten = done.map Msg.text ∧ (run [] received).2 = .more left := by
      rintro received ⟨rest, rfl⟩
      refine run_of_lucky hlucky (waiting_nil ms) ⟨rest.flatten, ?_⟩ fun first hfirst _ =>
        hclear first (hfirst.trans (List.prefix_append _ _))
      rw [List.nil_append, ← List.flatten_append, hchunks]
    obtain ⟨done, later, left, rfl, hsplit, hwaiting, hcalls, hend⟩ := hrun chunks List.prefix_rfl
    refine ⟨?_, ?_, ?_⟩
    · -- all of it was received, so nothing is waited for
      have hall : done ++ later <+: done :=
        complete_of_received List.prefix_rfl hsplit hwaiting (by rw [hchunks])
      obtain rfl : later = [] := by
        have hlength := hall.length_le
        rw [List.length_append] at hlength
        exact List.length_eq_zero_iff.mp (by omega)
      rw [hcalls, List.append_nil]
    · intro received complete hreceived hcomplete hlength
      obtain ⟨done', later', left', hms, hsplit', hwaiting', hcalls', -⟩ := hrun received hreceived
      rw [hms] at hcomplete
      rw [hcalls']
      exact (complete_of_received hcomplete hsplit' hwaiting' hlength).map Msg.text
    · rw [hend]
      exact fun h => Outcome.noConfusion h

/-- A heartbeat of FIX 4.2. -/
def heartbeat : Msg where
  version := ascii ".4.2"
  length := ascii "5"
  body := ascii "35=0" ++ [soh]
  soh_notMem := by decide
  length_ne_nil := by decide
  isDigit_length := by decide +kernel
  length_eq := by decide
  alone := by decide +kernel

/-- The same of a version `9.10`: the number behind its `9` is the length that is missing. -/
def heartbeatOfNine : Msg := { heartbeat with
  version := ascii "9.10"
  soh_notMem := by decide
  alone := by decide +kernel }

/-- One that is delivered. -/
theorem delivered_heartbeatOfNine : Delivered [heartbeatOfNine] [heartbeatOfNine.text] := by
  refine (delivered_iff (by rw [stream, List.map_singleton])).mpr ⟨?_, ?_⟩
  · rw [List.forall_mem_singleton]
    exact ⟨[], 46, ascii "10", rfl, by decide, by decide +kernel, by decide +kernel⟩
  · rintro received hreceived before m after heq hn
    have hmem : received.flatten.length = 0 ∨ received.flatten.length = 26 := by
      rcases received with - | ⟨chunk, rest⟩
      · exact Or.inl rfl
      · obtain ⟨rfl, hrest⟩ := List.cons_prefix_cons.mp hreceived
        obtain rfl := List.prefix_nil.mp hrest
        exact Or.inr (by decide +kernel)
    have hnine : heartbeatOfNine.nine = 6 := by decide +kernel
    rcases List.singleton_eq_append_iff.mp heq with ⟨rfl, hm⟩ | ⟨-, hempty⟩
    · obtain ⟨rfl, -⟩ := List.cons.inj hm
      rw [hnine, stream, List.map_nil, List.flatten_nil, List.length_nil] at hn
      omega
    · exact absurd hempty (List.cons_ne_nil _ _)

/-- **A heartbeat is not delivered**: the callback gets it without its last `SOH`. -/
theorem not_delivered_heartbeat : ¬ Delivered [heartbeat] [heartbeat.text] := by
  intro h
  have hcalls : (run [] [heartbeat.text]).1.flatten ≠ [heartbeat].map Msg.text := by
    decide +kernel
  exact hcalls h.callbacks

end FixParser.Stream
