/-
# The frame server

`Coder` and `CubeServer::onMessage` of the example program: requests are cut out of
one buffer, and each is answered by a header with a time stamp and its own body.  The
clock is read once for each reply.
-/
import FastServer.Framing
import FastServer.MachineInt
import FastServer.SimpleBuffer

open ArrayCopy

namespace Muduo

namespace SimpleBuffer

/-! ## Reading at `data()` -/

/-- The bytes `data()[0 .. len)`, if they are inside the allocation and written. -/
def readBytes (b : SimpleBuffer) (len : ℕ) : Option (List UInt8) :=
  (readRange b.buffer b.readPos len).bind fun cells => cells.mapM id

/-- The buffer is well formed, has room for a few bytes behind the middle of its
allocation, and holds `bytes`. -/
structure Holds (b : SimpleBuffer) (bytes : List UInt8) : Prop where
  wellFormed : b.WellFormed
  room : 16 ≤ b.bufferSize
  contents : b.contents = bytes.map some

theorem holds_new : (new 4096).Holds [] :=
  ⟨wellFormed_new 4096, by decide, contents_new 4096⟩

/-- Cells that were written are their bytes. -/
theorem mapM_id_map_some (bytes : List UInt8) :
    (bytes.map some).mapM (id : Option UInt8 → Option UInt8) = some bytes := by
  induction bytes with
  | nil => rfl
  | cons b bytes ih =>
    rw [List.map_cons, List.mapM_cons, ih]
    rfl

/-- Sliding keeps the allocation and starts it over. -/
theorem compact_bounds {b b' : SimpleBuffer} (h : b.compact = some b') :
    b'.bufferSize = b.bufferSize ∧ b'.readPos = 0 := by
  unfold compact at h
  split_ifs at h with hpos
  · obtain ⟨cells, -, h⟩ := Option.bind_eq_some_iff.mp h
    obtain ⟨buffer, -, rfl⟩ := Option.map_eq_some_iff.mp h
    exact ⟨rfl, rfl⟩
  · obtain rfl := Option.some.inj h
    exact ⟨rfl, Nat.eq_zero_of_not_pos hpos⟩

/-- An allocation never shrinks. -/
theorem bufferSize_le_write {b b' : SimpleBuffer} {data : List UInt8}
    (h : b.write data = some b') : b.bufferSize ≤ b'.bufferSize := by
  unfold write at h
  obtain ⟨b₁, hb₁, h⟩ := Option.bind_eq_some_iff.mp h
  obtain ⟨buffer, -, rfl⟩ := Option.map_eq_some_iff.mp h
  show b.bufferSize ≤ b₁.bufferSize
  unfold ensureCapacity at hb₁
  dsimp only at hb₁
  split_ifs at hb₁ with henough hslide
  · obtain rfl := Option.some.inj hb₁
    exact le_refl _
  · exact le_of_eq (compact_bounds hb₁).1.symm
  · obtain ⟨cells, -, hb₁⟩ := Option.bind_eq_some_iff.mp hb₁
    obtain ⟨newBuffer, -, rfl⟩ := Option.map_eq_some_iff.mp hb₁
    show b.bufferSize ≤ max (b.bufferSize * 2) (b.writePos + data.length)
    omega

/-- After `advance` the unread bytes start in the first half of the allocation. -/
theorem advance_bounds {b b' : SimpleBuffer} {len : ℕ} (h : b.advance len = some b') :
    b'.bufferSize = b.bufferSize ∧ b'.readPos ≤ b.bufferSize / 2 := by
  unfold advance at h
  dsimp only at h
  split_ifs at h with hempty hmiddle
  · obtain rfl := Option.some.inj h
    exact ⟨rfl, Nat.zero_le _⟩
  · obtain ⟨hsize, hread⟩ := compact_bounds h
    exact ⟨hsize, hread ▸ Nat.zero_le _⟩
  · obtain rfl := Option.some.inj h
    exact ⟨rfl, Nat.le_of_not_lt hmiddle⟩

namespace Holds

variable {b : SimpleBuffer} {bytes : List UInt8}

theorem size_eq (h : b.Holds bytes) : b.size = bytes.length := by
  rw [← h.wellFormed.length_contents, h.contents, List.length_map]

/-- The first bytes are read. -/
theorem readBytes (h : b.Holds bytes) {len : ℕ} (hlen : len ≤ bytes.length) :
    b.readBytes len = some (bytes.take len) := by
  have hsize := h.size_eq
  have halloc := h.wellFormed.allocated
  have hread := h.wellFormed.readPos_le
  have hwrite := h.wellFormed.writePos_le
  have hin : b.readPos + len ≤ b.buffer.length := by
    unfold size at hsize
    omega
  have hcells : (b.buffer.drop b.readPos).take len = (bytes.take len).map some := by
    have hprefix : len ≤ b.size := by omega
    rw [List.map_take, ← h.contents]
    unfold SimpleBuffer.contents
    rw [List.take_take, Nat.min_eq_left hprefix]
  unfold SimpleBuffer.readBytes
  rw [readRange_eq hin, Option.bind_some, hcells, mapM_id_map_some]

/-- **`write`** appends. -/
theorem write (h : b.Holds bytes) (data : List UInt8) :
    ∃ b', b.write data = some b' ∧ b'.Holds (bytes ++ data) := by
  obtain ⟨b', hb', hwf, hcontents⟩ := h.wellFormed.write data
  refine ⟨b', hb', hwf, h.room.trans (bufferSize_le_write hb'), ?_⟩
  rw [hcontents, h.contents, List.map_append]

/-- **`advance`** drops, and leaves room to read eight cells. -/
theorem advance (h : b.Holds bytes) {len : ℕ} (hlen : len ≤ bytes.length) :
    ∃ b', b.advance len = some b' ∧ b'.Holds (bytes.drop len) ∧
      b'.readPos + 8 ≤ b'.buffer.length := by
  obtain ⟨b', hb', hwf, hcontents⟩ := h.wellFormed.advance (h.size_eq ▸ hlen)
  obtain ⟨hsize, hread⟩ := advance_bounds hb'
  have hroom := h.room
  have halloc := hwf.allocated
  refine ⟨b', hb', ⟨hwf, ?_, ?_⟩, ?_⟩
  · omega
  · rw [hcontents, h.contents, List.map_drop]
  · omega

end Holds

end SimpleBuffer

/-! ## Coder -/

namespace Coder

/-- `kHeaderLen`. -/
def kHeaderLen : ℕ := 5

/-- What the byte at index `i` is shifted by. -/
def kOffset (i : ℕ) : UInt8 := if i % 2 = 0 then 0x4A else 0x51

/-- `getMessageTypeLength`: the type byte, and four bytes that are read as an `int`. -/
def getMessageTypeLength (buffer : SimpleBuffer) : Option (UInt8 × ℤ) :=
  (buffer.readBytes kHeaderLen).bind fun data =>
    data.head?.map fun type => (type, toI32 (ofLeBytes data.tail))

/-- `decodeTimeStamp`, from eight bytes. -/
def decodeTimeStamp (data : List UInt8) : UInt64 :=
  (data.zipIdx.map fun (byte, i) => (byte - kOffset i).toUInt64 <<< (8 * i).toUInt64).foldl
    (· ||| ·) 0

/-- What `decode` returns, the buffer it leaves, and the time stamp whose distance from
the clock it logs, if the eight bytes it is read from were written. -/
structure Decoded where
  messageBodyLen : ℤ
  valid : Bool
  buffer : SimpleBuffer
  timestamp : Option UInt64
deriving DecidableEq

/-- `decode`.  The time stamp is read whatever the length says. -/
def decode (buffer : SimpleBuffer) : Option Decoded :=
  if buffer.size < kHeaderLen then some ⟨0, false, buffer, none⟩
  else
    (getMessageTypeLength buffer).bind fun (type, messageLen) =>
      if type ≠ 2 then some ⟨0, false, buffer, none⟩
      else if messageLen < 0 then some ⟨0, false, buffer, none⟩
      else if toU64 messageLen ≤ buffer.size then
        (buffer.advance kHeaderLen).bind fun buffer =>
          (readRange buffer.buffer buffer.readPos 8).map fun data =>
            ⟨toI32 (toU64 (messageLen - kHeaderLen)), true, buffer,
              (data.mapM id).map decodeTimeStamp⟩
      else some ⟨0, false, buffer, none⟩

/-- `encodeHeaderWithTimeStamp`, which finds the clock at `current_time`. -/
def encodeHeaderWithTimeStamp (totalLen : ℕ) (current_time : UInt64) : List UInt8 :=
  3 :: leBytes 4 totalLen ++ (List.range 8).map fun i =>
    ((current_time >>> (8 * i).toUInt64) + (kOffset i).toUInt64).toUInt8

end Coder

/-! ## CubeServer -/

/-- What `onMessage` sends for one request: a header and a body, by two calls of
`send`. -/
structure Reply where
  header : List UInt8
  body : List UInt8
deriving DecidableEq

/-- The bytes the two calls put on the stream. -/
def Reply.bytes (r : Reply) : List UInt8 := r.header ++ r.body

/-- The reply without the eight bytes of its time stamp. -/
def Reply.untimed (r : Reply) : List UInt8 × List UInt8 := (r.header.take 5, r.body)

/-- The members of `CubeServer` that `onMessage` uses.  `stamps` is history: the number
of times the clock was read for a reply. -/
structure CubeServer where
  buffer : SimpleBuffer
  stamps : ℕ
deriving DecidableEq

namespace CubeServer

/-- A new server. -/
def new : CubeServer := ⟨SimpleBuffer.new 4096, 0⟩

/-- The loop of `onMessage`, at most `n` times.  A negative length is converted to a
`size_t` that is larger than any allocation. -/
def onMessageLoop (clock : ℕ → UInt64) : ℕ → CubeServer → Option (CubeServer × List Reply)
  | 0, _ => none
  | n + 1, s =>
      (Coder.decode s.buffer).bind fun d =>
        if d.valid = false then some ({ s with buffer := d.buffer }, [])
        else if d.messageBodyLen < 0 then none
        else
          let header := Coder.encodeHeaderWithTimeStamp d.messageBodyLen.toNat (clock s.stamps)
          (d.buffer.readBytes d.messageBodyLen.toNat).bind fun body =>
            (d.buffer.advance d.messageBodyLen.toNat).bind fun buffer =>
              (onMessageLoop clock n ⟨buffer, s.stamps + 1⟩).map fun r =>
                (r.1, ⟨header, body⟩ :: r.2)

/-- `onMessage`: the replies, and the server after it.  Each turn of the loop that goes
on takes at least a header off the buffer. -/
def onMessage (clock : ℕ → UInt64) (s : CubeServer) (data : List UInt8) :
    Option (CubeServer × List Reply) :=
  (s.buffer.write data).bind fun buffer =>
    onMessageLoop clock (buffer.size + 1) { s with buffer := buffer }

/-- The calls of `onMessage` for the chunks of one connection, and all replies. -/
def run (clock : ℕ → UInt64) : CubeServer → List (List UInt8) → Option (CubeServer × List Reply)
  | s, [] => some (s, [])
  | s, data :: chunks =>
      (s.onMessage clock data).bind fun r =>
        (run clock r.1 chunks).map fun r' => (r'.1, r.2 ++ r'.2)

end CubeServer

/-! ## The requests of a byte stream -/

namespace Coder

/-- The length that a header claims for its message. -/
def claimedLen (s : List UInt8) : ℤ := toI32 (ofLeBytes ((s.drop 1).take 4))

/-- What the bytes at hand are to the server.  A header of another type or with a
negative length is never got past; a length that does not cover the header makes the
server copy out of bounds. -/
def requestCut (s : List UInt8) : Cut UInt8 (List UInt8) :=
  if s.length < kHeaderLen ∨ s.head? ≠ some 2 ∨ claimedLen s < 0 ∨ s.length < claimedLen s then
    .more
  else if claimedLen s < kHeaderLen then .bad
  else .message ((s.drop kHeaderLen).take ((claimedLen s).toNat - kHeaderLen))
    (s.drop (claimedLen s).toNat)

/-- Nothing is not a message. -/
theorem requestCut_nil : requestCut [] = .more := if_pos (Or.inl (by decide))

/-- A header is not affected by the bytes after it. -/
theorem claimedLen_append {s : List UInt8} (h : kHeaderLen ≤ s.length) (t : List UInt8) :
    claimedLen (s ++ t) = claimedLen s := by
  unfold kHeaderLen at h
  unfold claimedLen
  rw [List.drop_append_of_le_length (by omega), List.take_append_of_le_length]
  rw [List.length_drop]
  omega

/-- What it takes for a cut to be decided. -/
theorem requestCut_of_ready {s : List UInt8} (hlen : kHeaderLen ≤ s.length)
    (htype : s.head? = some 2) (hpos : 0 ≤ claimedLen s) (hall : claimedLen s ≤ s.length) :
    requestCut s = if claimedLen s < kHeaderLen then .bad
      else .message ((s.drop kHeaderLen).take ((claimedLen s).toNat - kHeaderLen))
        (s.drop (claimedLen s).toNat) := by
  unfold requestCut
  rw [if_neg]
  rintro (h | h | h | h)
  · omega
  · exact h htype
  · omega
  · omega

/-- A cut that is decided was ready to be. -/
theorem ready_of_requestCut {s : List UInt8} (h : requestCut s ≠ .more) :
    kHeaderLen ≤ s.length ∧ s.head? = some 2 ∧ 0 ≤ claimedLen s ∧ claimedLen s ≤ s.length := by
  unfold requestCut at h
  split_ifs at h with hmore
  · exact absurd rfl h
  all_goals
    push Not at hmore
    exact hmore

/-- More input changes nothing about a cut that is decided. -/
theorem requestCut_append {s : List UInt8} (h : requestCut s ≠ .more) (t : List UInt8) :
    requestCut (s ++ t) = if claimedLen s < kHeaderLen then .bad
      else .message ((s.drop kHeaderLen).take ((claimedLen s).toNat - kHeaderLen))
        (s.drop (claimedLen s).toNat ++ t) := by
  obtain ⟨hlen, htype, hpos, hall⟩ := ready_of_requestCut h
  have hsame := claimedLen_append hlen t
  have htype' : (s ++ t).head? = some 2 := by rw [List.head?_append, htype]; rfl
  rw [requestCut_of_ready (by rw [List.length_append]; omega) htype' (by omega)
    (by rw [List.length_append]; omega), hsame]
  split_ifs with hshort
  · rfl
  · rw [List.drop_append_of_le_length hlen, List.drop_append_of_le_length (by omega),
      List.take_append_of_le_length]
    rw [List.length_drop]
    omega

/-- **The framing of the server.** -/
def requests : Framing UInt8 (List UInt8) where
  cut := requestCut
  shorter := by
    intro s a rest h
    obtain ⟨hlen, htype, hpos, hall⟩ := ready_of_requestCut (s := s) (by rw [h]; simp)
    rw [requestCut_of_ready hlen htype hpos hall] at h
    unfold kHeaderLen at h hlen
    split_ifs at h with hshort
    obtain ⟨-, rfl⟩ := Cut.message.inj h
    rw [List.length_drop]
    omega
  message_append := by
    intro s a rest h t
    obtain ⟨hlen, htype, hpos, hall⟩ := ready_of_requestCut (s := s) (by rw [h]; simp)
    rw [requestCut_append (by rw [h]; simp)]
    rw [requestCut_of_ready hlen htype hpos hall] at h
    split_ifs at h ⊢ with hshort
    obtain ⟨rfl, rfl⟩ := Cut.message.inj h
    rfl
  bad_append := by
    intro s h t
    obtain ⟨hlen, htype, hpos, hall⟩ := ready_of_requestCut (s := s) (by rw [h]; simp)
    rw [requestCut_append (by rw [h]; simp)]
    rw [requestCut_of_ready hlen htype hpos hall] at h
    split_ifs at h ⊢ with hshort
    rfl

theorem requests_cut (s : List UInt8) : requests.cut s = requestCut s := rfl

/-! ## The server cuts its requests -/

variable {b : SimpleBuffer} {bytes : List UInt8}

/-- The header is read as the bytes say. -/
theorem getMessageTypeLength_eq (h : b.Holds bytes) (hlen : kHeaderLen ≤ bytes.length) :
    getMessageTypeLength b = bytes.head?.map fun type => (type, claimedLen bytes) := by
  unfold getMessageTypeLength
  rw [h.readBytes hlen, Option.bind_some]
  cases bytes with
  | nil => exact absurd hlen (by decide)
  | cons type rest => rfl

/-- The length of the body does not wrap on its way through `size_t`. -/
theorem bodyLen_eq {len : ℤ} (h0 : 0 ≤ len) (h : len < 2 ^ 31) :
    toI32 (toU64 (len - kHeaderLen)) = len - kHeaderLen := by
  unfold kHeaderLen toU64
  by_cases hcover : 5 ≤ len
  · have hsame : (((len - (5 : ℕ)) % 2 ^ 64).toNat : ℤ) = len - (5 : ℕ) := by omega
    rw [hsame, toI32_of_range (by omega) (by omega)]
  · have hwrap : (((len - (5 : ℕ)) % 2 ^ 64).toNat : ℤ) = len - (5 : ℕ) + 2 ^ 32 * 2 ^ 32 := by
      omega
    unfold toI32
    rw [hwrap]
    exact (Int.add_mul_bmod_self_right _ _ (2 ^ 32)).trans
      (Int.bmod_eq_of_le (by omega) (by omega))

/-- A claimed length is an `int`. -/
theorem claimedLen_lt (s : List UInt8) : claimedLen s < 2 ^ 31 := by
  unfold claimedLen toI32
  have h := Int.bmod_lt (x := (ofLeBytes ((s.drop 1).take 4) : ℤ)) (m := 2 ^ 32) (by decide)
  omega

/-- `decode` where the framing decides.  The time stamp is read at the front of what follows the
header, if eight bytes are there. -/
theorem decode_of_ready (h : b.Holds bytes) (hlen : kHeaderLen ≤ bytes.length)
    (htype : bytes.head? = some 2) (hpos : 0 ≤ claimedLen bytes)
    (hall : claimedLen bytes ≤ bytes.length) :
    ∃ b' timestamp, decode b = some ⟨claimedLen bytes - kHeaderLen, true, b', timestamp⟩ ∧
      b'.Holds (bytes.drop kHeaderLen) ∧ (8 ≤ (bytes.drop kHeaderLen).length →
        timestamp = some (decodeTimeStamp ((bytes.drop kHeaderLen).take 8))) := by
  have hsize := h.size_eq
  have hint := claimedLen_lt bytes
  have hu64 : (toU64 (claimedLen bytes) : ℤ) = claimedLen bytes :=
    toU64_of_nonneg hpos (by omega)
  obtain ⟨b', hb', hholds, hroom⟩ := h.advance hlen
  unfold decode
  rw [if_neg (by omega), getMessageTypeLength_eq h hlen, htype, Option.map_some, Option.bind_some]
  simp only [ne_eq, not_true_eq_false, if_false]
  rw [if_neg (by omega), if_pos (by omega), hb', Option.bind_some, readRange_eq hroom,
    Option.map_some, bodyLen_eq hpos hint]
  refine ⟨b', _, rfl, hholds, ?_⟩
  intro height
  have hread := hholds.readBytes height
  unfold SimpleBuffer.readBytes at hread
  rw [readRange_eq hroom, Option.bind_some] at hread
  rw [hread, Option.map_some]

/-- `decode` where the framing waits. -/
theorem decode_of_more (h : b.Holds bytes) (hmore : requestCut bytes = .more) :
    decode b = some ⟨0, false, b, none⟩ := by
  have hsize := h.size_eq
  unfold decode
  by_cases hlen : bytes.length < kHeaderLen
  · rw [if_pos (by omega)]
  rw [if_neg (by omega), getMessageTypeLength_eq h (by omega)]
  cases htype : bytes.head? with
  | none =>
    rw [List.head?_eq_none_iff.mp htype] at hlen
    exact absurd (by decide) hlen
  | some type =>
    rw [Option.map_some, Option.bind_some]
    by_cases htwo : type = 2
    · subst htwo
      simp only [ne_eq, not_true_eq_false, if_false]
      by_cases hneg : claimedLen bytes < 0
      · rw [if_pos hneg]
      · have hint := claimedLen_lt bytes
        have hu64 : (toU64 (claimedLen bytes) : ℤ) = claimedLen bytes :=
          toU64_of_nonneg (by omega) (by omega)
        have hlong : ¬ claimedLen bytes ≤ bytes.length := by
          intro hall
          rw [requestCut_of_ready (by omega) htype (by omega) hall] at hmore
          split_ifs at hmore
        rw [if_neg hneg, if_neg (by omega)]
    · simp only [ne_eq, htwo, not_false_eq_true, if_true]

end Coder

namespace CubeServer

variable {clock : ℕ → UInt64} {s s' : CubeServer} {bytes : List UInt8}

/-- The reply to a body, sent when the clock shows `current_time`. -/
def reply (current_time : UInt64) (body : List UInt8) : Reply :=
  ⟨Coder.encodeHeaderWithTimeStamp body.length current_time, body⟩

/-- The replies to some bodies, `k` replies having been sent before. -/
def replies (clock : ℕ → UInt64) : ℕ → List (List UInt8) → List Reply
  | _, [] => []
  | k, body :: bodies => reply (clock k) body :: replies clock (k + 1) bodies

theorem replies_append (k : ℕ) (bodies bodies' : List (List UInt8)) :
    replies clock k (bodies ++ bodies')
      = replies clock k bodies ++ replies clock (k + bodies.length) bodies' := by
  induction bodies generalizing k with
  | nil => rfl
  | cons body bodies ih =>
    rw [List.cons_append, replies, replies, ih, List.length_cons, List.cons_append]
    congr 3
    omega

/-- A server that waits for more of `rest` after `k` replies. -/
structure Waits (s : CubeServer) (k : ℕ) (rest : List UInt8) : Prop where
  holds : s.buffer.Holds rest
  stamps : s.stamps = k

theorem waits_new : new.Waits 0 [] := ⟨SimpleBuffer.holds_new, rfl⟩

variable (clock) in
/-- One turn of the loop of `onMessage` with a whole message. -/
theorem onMessageLoop_message (n : ℕ) {k : ℕ} {body rest : List UInt8} (h : s.Waits k bytes)
    (hcut : Coder.requestCut bytes = .message body rest) :
    ∃ s₁ : CubeServer, s₁.Waits (k + 1) rest ∧
      onMessageLoop clock (n + 1) s
        = (onMessageLoop clock n s₁).map fun r => (r.1, reply (clock k) body :: r.2) := by
  obtain ⟨hlen, htype, hpos, hall⟩ := Coder.ready_of_requestCut (s := bytes) (by rw [hcut]; simp)
  rw [Coder.requestCut_of_ready hlen htype hpos hall] at hcut
  split_ifs at hcut with hshort
  obtain ⟨rfl, rfl⟩ := Cut.message.inj hcut
  obtain ⟨b₁, timestamp, hdecode, hholds, -⟩ :=
    Coder.decode_of_ready h.holds hlen htype hpos hall
  -- the body is read at the front of what is left, and advanced past
  have hcount : (Coder.claimedLen bytes - Coder.kHeaderLen).toNat
      = (Coder.claimedLen bytes).toNat - Coder.kHeaderLen := by omega
  have hbody : (Coder.claimedLen bytes).toNat - Coder.kHeaderLen
      ≤ (bytes.drop Coder.kHeaderLen).length := by
    rw [List.length_drop]
    omega
  obtain ⟨b₂, hb₂, hholds₂, -⟩ := hholds.advance hbody
  refine ⟨⟨b₂, s.stamps + 1⟩, ⟨?_, by rw [← h.stamps]⟩, ?_⟩
  · have hdrop : Coder.kHeaderLen + ((Coder.claimedLen bytes).toNat - Coder.kHeaderLen)
        = (Coder.claimedLen bytes).toNat := by omega
    rw [List.drop_drop, hdrop] at hholds₂
    exact hholds₂
  · rw [onMessageLoop, hdecode, Option.bind_some]
    simp only [Bool.true_eq_false, if_false]
    rw [if_neg (by omega), hcount, hholds.readBytes hbody, Option.bind_some, hb₂,
      Option.bind_some, h.stamps]
    unfold reply
    rw [List.length_take, Nat.min_eq_left hbody]

/-- **The loop of `onMessage`** answers the messages that the framing cuts off, and
fails where it finds bad bytes. -/
theorem onMessageLoop_spec {n k : ℕ} (hn : bytes.length < n) (h : s.Waits k bytes) :
    (Coder.requests.split bytes = none ∧ onMessageLoop clock n s = none) ∨
      ∃ bodies rest s', Coder.requests.split bytes = some (bodies, rest) ∧
        onMessageLoop clock n s = some (s', replies clock k bodies) ∧
        s'.Waits (k + bodies.length) rest := by
  induction bytes using Coder.requests.split_induction generalizing n k s with
  | more bytes hcut =>
    obtain ⟨n, rfl⟩ := Nat.exists_eq_succ_of_ne_zero (Nat.ne_zero_of_lt hn)
    right
    refine ⟨[], bytes, s, Framing.split_of_more hcut, ?_, h⟩
    rw [onMessageLoop, Coder.decode_of_more h.holds hcut]
    rfl
  | bad bytes hcut =>
    obtain ⟨n, rfl⟩ := Nat.exists_eq_succ_of_ne_zero (Nat.ne_zero_of_lt hn)
    left
    refine ⟨Framing.split_of_bad hcut, ?_⟩
    have hcut : Coder.requestCut bytes = .bad := hcut
    obtain ⟨hlen, htype, hpos, hall⟩ :=
      Coder.ready_of_requestCut (s := bytes) (by rw [hcut]; simp)
    obtain ⟨b₁, timestamp, hdecode, -⟩ := Coder.decode_of_ready h.holds hlen htype hpos hall
    rw [Coder.requestCut_of_ready hlen htype hpos hall] at hcut
    split_ifs at hcut with hshort
    rw [onMessageLoop, hdecode, Option.bind_some]
    simp only [Bool.true_eq_false, if_false]
    rw [if_pos (by omega)]
  | message bytes body rest hcut ih =>
    have hshort := Coder.requests.shorter hcut
    obtain ⟨n, rfl⟩ := Nat.exists_eq_succ_of_ne_zero (Nat.ne_zero_of_lt hn)
    obtain ⟨s₁, hwaits, hloop⟩ := onMessageLoop_message clock n h hcut
    rw [Framing.split_of_message hcut, hloop]
    have hrest : rest.length < n := by omega
    rcases ih hrest hwaits with ⟨hsplit, hnone⟩ | ⟨bodies, rest', s', hsplit, hsome, hw⟩
    · left
      rw [hsplit, hnone]
      exact ⟨rfl, rfl⟩
    · right
      rw [hsplit, hsome]
      refine ⟨body :: bodies, rest', s', rfl, rfl, ?_⟩
      rw [List.length_cons, Nat.add_comm bodies.length, ← Nat.add_assoc]
      exact hw

variable (clock) in
/-- **`onMessage`** answers the messages that the chunk completes. -/
theorem onMessage_spec {k : ℕ} (h : s.Waits k bytes) (data : List UInt8) :
    (Coder.requests.split (bytes ++ data) = none ∧ s.onMessage clock data = none) ∨
      ∃ bodies rest s', Coder.requests.split (bytes ++ data) = some (bodies, rest) ∧
        s.onMessage clock data = some (s', replies clock k bodies) ∧
        s'.Waits (k + bodies.length) rest := by
  obtain ⟨b, hb, hholds⟩ := h.holds.write data
  unfold onMessage
  rw [hb, Option.bind_some]
  apply onMessageLoop_spec (s := { s with buffer := b })
  · rw [hholds.size_eq]
    exact Nat.lt_succ_self _
  · exact ⟨hholds, h.stamps⟩

variable (clock) in
/-- **The chunks of one connection** are answered as the framing receives them. -/
theorem run_spec {k : ℕ} (h : s.Waits k bytes) (chunks : List (List UInt8)) :
    (Coder.requests.receive bytes chunks = none ∧ run clock s chunks = none) ∨
      ∃ bodies rest s', Coder.requests.receive bytes chunks = some (bodies, rest) ∧
        run clock s chunks = some (s', replies clock k bodies) ∧
        s'.Waits (k + bodies.length) rest := by
  induction chunks generalizing s k bytes with
  | nil => exact Or.inr ⟨[], bytes, s, rfl, rfl, h⟩
  | cons data chunks ih =>
    rw [Framing.receive, run]
    rcases onMessage_spec clock h data with
      ⟨hsplit, hnone⟩ | ⟨bodies, rest, s₁, hsplit, hsome, hw⟩
    · left
      rw [hsplit, hnone]
      exact ⟨rfl, rfl⟩
    rw [hsplit, hsome, Option.bind_some, Option.bind_some]
    rcases ih hw with ⟨hreceive, hnone⟩ | ⟨bodies', rest', s', hreceive, hrun, hw'⟩
    · left
      rw [hreceive, hnone]
      exact ⟨rfl, rfl⟩
    · right
      rw [hreceive, hrun]
      refine ⟨bodies ++ bodies', rest', s', rfl, ?_, ?_⟩
      · rw [replies_append]
        rfl
      · rw [List.length_append, ← Nat.add_assoc]
        exact hw'

end CubeServer

/-! ## Well-formed requests -/

/-- A well-formed request: its body, which has room for a time stamp and keeps the
total length an `int`. -/
structure Frame where
  body : List UInt8
  stamped : 8 ≤ body.length
  short : body.length + 5 < 2 ^ 31

namespace Frame

/-- The total length of the request. -/
def len (f : Frame) : ℕ := f.body.length + 5

/-- The request on the wire: the type, the total length, the body. -/
def bytes (f : Frame) : List UInt8 := 2 :: leBytes 4 f.len ++ f.body

theorem length_bytes (f : Frame) : f.bytes.length = f.len := by
  unfold bytes len
  rw [List.length_append, List.length_cons, length_leBytes]
  omega

/-- The header of a request claims its total length. -/
theorem claimedLen_bytes (f : Frame) (t : List UInt8) :
    Coder.claimedLen (f.bytes ++ t) = f.len := by
  have hint := f.short
  have hfour : ((f.bytes ++ t).drop 1).take 4 = leBytes 4 f.len := by
    unfold bytes
    rw [List.cons_append, List.cons_append, List.drop_one, List.tail_cons, List.append_assoc,
      List.take_left' (length_leBytes 4 f.len)]
  unfold Coder.claimedLen
  rw [hfour, ofLeBytes_leBytes (by unfold len; omega)]
  exact toI32_of_range (by omega) (by unfold len; omega)

/-- The body stands behind the header. -/
theorem drop_bytes (f : Frame) (t : List UInt8) :
    (f.bytes ++ t).drop Coder.kHeaderLen = f.body ++ t := by
  unfold bytes
  rw [List.append_assoc]
  exact List.drop_left' (by rw [List.length_cons, length_leBytes]; rfl)

/-- A whole request is cut off. -/
theorem requestCut_bytes (f : Frame) (t : List UInt8) :
    Coder.requestCut (f.bytes ++ t) = .message f.body t := by
  have hlen := f.length_bytes
  have hclaim := f.claimedLen_bytes t
  have hall : Coder.claimedLen (f.bytes ++ t) ≤ (f.bytes ++ t).length := by
    rw [hclaim, List.length_append, hlen]
    omega
  have hheader : Coder.kHeaderLen ≤ f.len := by unfold len Coder.kHeaderLen; omega
  have hready : Coder.kHeaderLen ≤ (f.bytes ++ t).length := by
    rw [List.length_append]
    omega
  have hcount : f.len - Coder.kHeaderLen = f.body.length := by
    unfold len Coder.kHeaderLen
    omega
  rw [Coder.requestCut_of_ready hready rfl (by omega) hall, if_neg (by omega), hclaim, f.drop_bytes,
    Int.toNat_natCast, hcount, List.take_left, ← hlen, List.drop_left]

/-- A part of a request is waited for. -/
theorem requestCut_of_prefix {f : Frame} {p : List UInt8} (hp : p <+: f.bytes)
    (hne : p ≠ f.bytes) : Coder.requestCut p = .more := by
  have hlen := f.length_bytes
  have hshort : p.length < f.len := by
    rw [← hlen]
    exact lt_of_le_of_ne hp.length_le fun heq => hne (hp.eq_of_length heq)
  unfold Coder.requestCut
  rw [if_pos]
  by_cases hheader : p.length < Coder.kHeaderLen
  · exact Or.inl hheader
  · -- the header is there already
    obtain ⟨q, hq⟩ := hp
    have hclaim : Coder.claimedLen p = f.len := by
      rw [← Coder.claimedLen_append (Nat.le_of_not_lt hheader) q, hq, ← List.append_nil f.bytes]
      exact f.claimedLen_bytes []
    right; right; right
    rw [hclaim]
    exact_mod_cast hshort

/-- **A stream of requests** is one the server's framing understands. -/
theorem encodes : Coder.requests.Encodes Frame.bytes Frame.body := by
  refine ⟨?_, ?_, ?_⟩
  · intro f t
    rw [Coder.requests_cut, requestCut_bytes]
  · intro f p hp hne
    rw [Coder.requests_cut, requestCut_of_prefix hp hne]
  · rw [Coder.requests_cut, Coder.requestCut_nil]

end Frame

namespace CubeServer

variable {clock : ℕ → UInt64}

theorem length_replies (k : ℕ) (bodies : List (List UInt8)) :
    (replies clock k bodies).length = bodies.length := by
  induction bodies generalizing k with
  | nil => rfl
  | cons body bodies ih => rw [replies, List.length_cons, List.length_cons, ih]

/-- The reply to each body, by its place. -/
theorem getElem?_replies (k : ℕ) (bodies : List (List UInt8)) (i : ℕ) :
    (replies clock k bodies)[i]? = bodies[i]?.map (reply (clock (k + i))) := by
  induction bodies generalizing k i with
  | nil => rfl
  | cons body bodies ih =>
    cases i with
    | zero => rfl
    | succ i =>
      rw [replies, List.getElem?_cons_succ, List.getElem?_cons_succ, ih, Nat.add_right_comm]
      rfl

/-- A header has 13 bytes. -/
theorem length_header (n : ℕ) (t : UInt64) :
    (Coder.encodeHeaderWithTimeStamp n t).length = 13 := by
  unfold Coder.encodeHeaderWithTimeStamp
  rw [List.length_append, List.length_cons, length_leBytes, List.length_map, List.length_range]

/-- A reply is a header longer than the body it answers. -/
theorem length_bytes_reply (t : UInt64) (body : List UInt8) :
    (reply t body).bytes.length = 13 + body.length := by
  unfold reply Reply.bytes
  rw [List.length_append, length_header]

/-- Apart from the time stamps, replies depend on the bodies only. -/
theorem untimed_replies (clock' : ℕ → UInt64) (k k' : ℕ) (bodies : List (List UInt8)) :
    (replies clock k bodies).map Reply.untimed = (replies clock' k' bodies).map Reply.untimed := by
  induction bodies generalizing k k' with
  | nil => rfl
  | cons body bodies ih =>
    rw [replies, replies, List.map_cons, List.map_cons, ih]
    rfl

/-- **Every request is answered once, in order, when it is complete.**  Whatever part of a
stream of requests has arrived, in whatever chunks: the replies are those to the complete
requests, each ends with the body it answers, and the buffer holds the part of the next
request that has arrived.  In other chunks, with another clock, the replies are the same
but for their time stamps. -/
theorem answers_each_frame (clock : ℕ → UInt64) (frames : List Frame)
    (chunks : List (List UInt8)) (h : chunks.flatten <+: (frames.map Frame.bytes).flatten) :
    ∃ (s : CubeServer) (answers : List Reply) (k : ℕ) (tail : List UInt8),
      run clock new chunks = some (s, answers) ∧
      k ≤ frames.length ∧
      chunks.flatten = ((frames.take k).map Frame.bytes).flatten ++ tail ∧
      (tail = [] ∨ ∃ f ∈ frames[k]?, tail <+: f.bytes ∧ tail ≠ f.bytes) ∧
      answers.length = k ∧
      (∀ (i : ℕ) (f : Frame), i < k → frames[i]? = some f →
        ∃ r, answers[i]? = some r ∧ r.bytes.drop (r.bytes.length - (f.len - 5)) = f.body ∧
          r.bytes.length = 13 + f.body.length) ∧
      s.buffer.contents = tail.map some ∧
      ∀ (clock' : ℕ → UInt64) (chunks' : List (List UInt8)), chunks'.flatten = chunks.flatten →
        ∃ s' answers', run clock' new chunks' = some (s', answers') ∧
          answers'.map Reply.untimed = answers.map Reply.untimed := by
  obtain ⟨k, tail, hsplit, hchunks, hk, htail⟩ := Frame.encodes.split_prefix h
  -- any chunks of this input are received as the input is split
  have hrun : ∀ (clock' : ℕ → UInt64) (chunks' : List (List UInt8)),
      chunks'.flatten = chunks.flatten → ∃ s', s'.Waits (0 + ((frames.take k).map Frame.body).length)
        tail ∧ run clock' new chunks' = some (s', replies clock' 0 ((frames.take k).map Frame.body)) := by
    intro clock' chunks' hsame
    have hreceive := Framing.receive_eq_split Frame.encodes.empty chunks'
    rw [List.nil_append, hsame, hsplit] at hreceive
    rcases run_spec clock' waits_new chunks' with
      ⟨hnone, -⟩ | ⟨bodies, rest, s', hsome, hrun, hwaits⟩
    · rw [hreceive] at hnone
      exact absurd hnone (Option.some_ne_none _)
    · obtain ⟨rfl, rfl⟩ := Prod.mk.inj (Option.some.inj (hsome.symm.trans hreceive))
      exact ⟨s', hwaits, hrun⟩
  obtain ⟨s, hwaits, hs⟩ := hrun clock chunks rfl
  refine ⟨s, _, k, tail, hs, hk, hchunks, htail, ?_, ?_, hwaits.holds.contents, ?_⟩
  · rw [length_replies, List.length_map, List.length_take, Nat.min_eq_left hk]
  · intro i f hi hf
    refine ⟨reply (clock (0 + i)) f.body, ?_, ?_, ?_⟩
    · rw [getElem?_replies, List.getElem?_map, List.getElem?_take_of_lt hi, hf]
      rfl
    · have hbytes : (reply (clock (0 + i)) f.body).bytes.length - (f.len - 5) = 13 := by
        rw [length_bytes_reply]
        unfold Frame.len
        omega
      rw [hbytes]
      exact List.drop_left' (length_header _ _)
    · exact length_bytes_reply _ _
  · intro clock' chunks' hsame
    obtain ⟨s', -, hs'⟩ := hrun clock' chunks' hsame
    exact ⟨s', _, hs', untimed_replies clock 0 0 _⟩

/-- Two requests, of which all but the last twelve bytes arrive, in three chunks that end
inside a header, inside a body and after the first byte of the second request. -/
theorem answers_each_frame_threeChunks :
    ∃ s answers k tail,
      run (fun _ => 0) new [[2, 13], [0, 0, 0, 1, 2, 3], [4, 5, 6, 7, 8, 2]]
        = some (s, answers) ∧
      [2, 13, 0, 0, 0, 1, 2, 3, 4, 5, 6, 7, 8, 2]
        = ((List.replicate k ⟨[1, 2, 3, 4, 5, 6, 7, 8], by decide, by decide⟩).map
            Frame.bytes).flatten ++ tail ∧
      answers.length = k ∧ s.buffer.contents = tail.map some := by
  let f : Frame := ⟨[1, 2, 3, 4, 5, 6, 7, 8], by decide, by decide⟩
  obtain ⟨s, answers, k, tail, hrun, hk, hchunks, -, hlength, -, hcontents, -⟩ :=
    answers_each_frame (fun _ => 0) [f, f]
      [[2, 13], [0, 0, 0, 1, 2, 3], [4, 5, 6, 7, 8, 2]] (by decide)
  refine ⟨s, answers, k, tail, hrun, ?_, hlength, hcontents⟩
  have hk : k ≤ 2 := hk
  have htake : [f, f].take k = List.replicate k f := by
    interval_cases k <;> rfl
  rw [htake] at hchunks
  exact hchunks

end CubeServer

end Muduo
