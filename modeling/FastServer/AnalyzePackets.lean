/-
# The blocks of a datagram in `analyze.cpp`

What `process_packet` does with a datagram: it logs the sequence number and queues the blocks
behind it.  The header is read whatever was received, and the loop goes on only while more than
a length is left, so a last block without data stays behind.
-/
import FastServer.AnaBlocks

namespace Analyze

open ArrayCopy LengthPrefixed

/-! ## The function -/

/-- What `recvfrom` put into `recv_buf`; without a byte the loop asks again. -/
structure Datagram where
  received : List UInt8
  pos : 0 < received.length
  length_le : received.length ≤ 65536

/-- A block that is queued: its length, and where its data starts in `recv_buf`. -/
structure DataBlock where
  length : ℕ
  compressed_data : ℕ
deriving DecidableEq

/-- What a round of the loop does: it ends the loop, it reads what was not received, or it
queues a block and goes on behind it. -/
inductive Round
  | last
  | outside
  | push (block : DataBlock) (ptr remaining : ℕ)
deriving DecidableEq

def round (received : List UInt8) (ptr remaining : ℕ) : Round :=
  if remaining ≤ 4 then .last
  else
    match readRange received ptr 4 with
    | none => .outside
    | some field =>
        let length := ofLeBytes field
        let ptr := ptr + 4
        let remaining := remaining - 4
        if remaining < length then .last
        else .push ⟨length, ptr⟩ (ptr + length) (remaining - length)

/-- The blocks that the loop queues, if it reads nothing outside and ends within `n` rounds. -/
def loop (received : List UInt8) : ℕ → ℕ → ℕ → Option (List DataBlock)
  | 0, _, _ => none
  | n + 1, ptr, remaining =>
      match round received ptr remaining with
      | .last => some []
      | .outside => none
      | .push block ptr remaining => (loop received n ptr remaining).map (block :: ·)

/-- What is logged and what is queued for a datagram.  The count `remaining` is of type `size_t`;
every round but the last uses up at least a length. -/
def processPacket (received : List UInt8) : Option (ℕ × List DataBlock) :=
  (readRange received 0 4).bind fun seqno =>
    let remaining := (received.length + 2 ^ 64 - 4) % 2 ^ 64
    (loop received (received.length + 1) 4 remaining).map fun blocks => (ofLeBytes seqno, blocks)

/-! ## What should hold -/

/-- A length of four bytes, the lowest one first, and the data. -/
abbrev Block : Type := LengthPrefixed 4 ofLeBytes

/-- Where the blocks are that stand one behind the other from a place on. -/
def blocksAt : ℕ → List Block → List DataBlock
  | _, [] => []
  | ptr, block :: blocks =>
      ⟨block.data.length, ptr + 4⟩ :: blocksAt (ptr + block.whole.length) blocks

/-- **What is promised of `process_packet`**: it reads only what was received and its loop ends,
what it queues lies in what was received, and of a sequence number and blocks every block is
queued. -/
structure Safe (d : Datagram) : Prop where
  returns : (processPacket d.received).isSome
  inside : ∀ seqno blocks, processPacket d.received = some (seqno, blocks) →
    ∀ b ∈ blocks, b.compressed_data + b.length ≤ d.received.length
  complete : ∀ (header : List UInt8) (records : List Block), header.length = 4 →
    d.received = header ++ stream records →
    ∀ seqno blocks, processPacket d.received = some (seqno, blocks) →
      ∀ b ∈ blocksAt 4 records, b ∈ blocks

/-- A sequence number and blocks of which the last has no data. -/
def EndsEmpty (d : Datagram) : Prop :=
  ∃ (header : List UInt8) (records : List Block) (block : Block), header.length = 4 ∧
    block.data = [] ∧ d.received = header ++ stream (records ++ [block])

/-! ## A round -/

variable {received : List UInt8} {ptr : ℕ}

/-- **Without a whole block** the loop ends, and where no more than a length is left. -/
theorem round_of_ends (hle : ptr ≤ received.length)
    (h : received.length - ptr ≤ 4 ∨ Ends 4 ofLeBytes (received.drop ptr)) :
    round received ptr (received.length - ptr) = .last := by
  rw [round]
  by_cases hguard : received.length - ptr ≤ 4
  · rw [if_pos hguard]
  · have hends := ends_iff.mp (h.resolve_left hguard)
    rw [List.length_drop] at hends
    have hfour : ((received.drop ptr).take 4).length = 4 := by
      rw [List.length_take, List.length_drop]
      omega
    have hslice := readRange_of_drop hle (List.take_append_drop 4 (received.drop ptr)).symm
    rw [hfour] at hslice
    rw [if_neg hguard, hslice]
    dsimp only
    rw [if_pos (by omega)]

/-- **A whole block** is queued, if more than a length is left. -/
theorem round_of_whole {block : Block} {t : List UInt8} (hle : ptr ≤ received.length)
    (h : received.drop ptr = block.whole ++ t) (hguard : 4 < received.length - ptr) :
    round received ptr (received.length - ptr) = .push ⟨block.data.length, ptr + 4⟩
      (ptr + block.whole.length) (received.length - (ptr + block.whole.length)) := by
  have hlength := congrArg List.length h
  rw [List.length_drop, List.length_append, length_whole] at hlength
  have hfield := readRange_of_drop hle (h.trans (List.append_assoc _ _ _))
  rw [block.length_header] at hfield
  rw [round, if_neg (by omega), hfield]
  dsimp only
  rw [← block.length_data, if_neg (by omega), length_whole, Nat.add_assoc]
  congr 1
  omega

/-! ## The loop -/

/-- **From any place** the loop queues the blocks that stand there, if it does not stop in front
of the last one. -/
theorem loop_eq {records : List Block} {tail : List UInt8} {n : ℕ}
    (htail : tail.length ≤ 4 ∨ Ends 4 ofLeBytes tail)
    (hlast : tail = [] → ∀ block ∈ records.getLast?, block.data ≠ [])
    (hle : ptr ≤ received.length) (hn : received.length - ptr < n)
    (h : received.drop ptr = stream records ++ tail) :
    loop received n ptr (received.length - ptr) = some (blocksAt ptr records) := by
  induction records generalizing ptr n with
  | nil =>
    obtain ⟨k, rfl⟩ := Nat.exists_eq_succ_of_ne_zero (Nat.ne_of_gt (Nat.zero_lt_of_lt hn))
    rw [stream_nil, List.nil_append] at h
    have hstop : received.length - ptr ≤ 4 ∨ Ends 4 ofLeBytes (received.drop ptr) := by
      rw [← List.length_drop, h]
      exact htail
    rw [loop, round_of_ends hle hstop]
    rfl
  | cons block records ih =>
    obtain ⟨k, rfl⟩ := Nat.exists_eq_succ_of_ne_zero (Nat.ne_of_gt (Nat.zero_lt_of_lt hn))
    rw [stream_cons, List.append_assoc] at h
    have hlength := congrArg List.length h
    rw [List.length_drop, List.length_append, length_whole, List.length_append] at hlength
    -- a block without data is not the last
    have hguard : 4 < received.length - ptr := by
      by_contra hno
      have hdata : block.data = [] := List.length_eq_zero_iff.mp (by omega)
      have hnil : tail = [] := List.length_eq_zero_iff.mp (by omega)
      cases records with
      | nil => exact hlast hnil block rfl hdata
      | cons next records =>
        rw [stream_cons, List.length_append, length_whole] at hlength
        omega
    have hrest : received.drop (ptr + block.whole.length) = stream records ++ tail := by
      rw [← List.drop_drop, h, List.drop_left]
    have hlater : tail = [] → ∀ later ∈ records.getLast?, later.data ≠ [] := by
      intro hnil later hmem
      refine hlast hnil later ?_
      rw [List.getLast?_cons, Option.mem_def.mp hmem]
      rfl
    have hloop := ih (n := k) hlater (by rw [length_whole]; omega)
      (by rw [length_whole]; omega) hrest
    rw [loop, round_of_whole hle h hguard]
    dsimp only
    rw [hloop]
    rfl

/-- The blocks lie where they stand. -/
theorem bounds_of_mem {records : List Block} {b : DataBlock} (h : b ∈ blocksAt ptr records) :
    ptr + 4 ≤ b.compressed_data ∧ b.compressed_data + b.length ≤ ptr + (stream records).length := by
  induction records generalizing ptr with
  | nil => exact absurd h List.not_mem_nil
  | cons block records ih =>
    rw [stream_cons, List.length_append, length_whole]
    rcases List.mem_cons.mp h with rfl | hlater
    · dsimp only
      omega
    · have hbounds := ih hlater
      rw [length_whole] at hbounds
      omega

theorem blocksAt_append (records : List Block) (block : Block) :
    blocksAt ptr (records ++ [block])
      = blocksAt ptr records ++ [⟨block.data.length, ptr + (stream records).length + 4⟩] := by
  induction records generalizing ptr with
  | nil => rfl
  | cons first records ih =>
    rw [List.cons_append, blocksAt, ih, blocksAt, stream_cons, List.length_append,
      List.cons_append, Nat.add_assoc ptr]

/-! ## A datagram -/

/-- Less than a sequence number. -/
theorem processPacket_of_short (h : received.length < 4) : processPacket received = none := by
  have hslice : readRange received 0 4 = none := if_neg (by omega)
  rw [processPacket, hslice, Option.bind_none]

/-- A sequence number, blocks and what follows them. -/
theorem processPacket_eq {header tail : List UInt8} {records : List Block}
    (hsmall : received.length < 2 ^ 64) (hheader : header.length = 4)
    (h : received = header ++ (stream records ++ tail))
    (htail : tail.length ≤ 4 ∨ Ends 4 ofLeBytes tail)
    (hlast : tail = [] → ∀ block ∈ records.getLast?, block.data ≠ []) :
    processPacket received = some (ofLeBytes header, blocksAt 4 records) := by
  have hle : 4 ≤ received.length := by
    rw [h, List.length_append]
    omega
  have hseqno : readRange received 0 header.length = some header := readRange_of_drop (Nat.zero_le _) h
  rw [hheader] at hseqno
  have hremaining : (received.length + 2 ^ 64 - 4) % 2 ^ 64 = received.length - 4 := by omega
  have hdrop : received.drop 4 = stream records ++ tail := by rw [h, List.drop_left' hheader]
  rw [processPacket, hseqno, Option.bind_some, hremaining]
  dsimp only
  rw [loop_eq htail hlast hle (by omega) hdrop, Option.map_some]

/-! ## When it holds -/

theorem Safe.le_length {d : Datagram} (h : Safe d) : 4 ≤ d.received.length := by
  by_contra hshort
  have hreturns := h.returns
  rw [processPacket_of_short (not_le.mp hshort)] at hreturns
  exact Bool.false_ne_true hreturns

theorem Datagram.length_lt (d : Datagram) : d.received.length < 2 ^ 64 :=
  lt_of_le_of_lt d.length_le (by decide)

/-- The last block without data is not queued. -/
theorem Safe.not_endsEmpty {d : Datagram} (h : Safe d) : ¬ EndsEmpty d := by
  rintro ⟨header, records, block, hheader, hdata, hreceived⟩
  have hwhole : block.whole.length = 4 := by rw [length_whole, hdata, List.length_nil]
  have hsplit : d.received = header ++ (stream records ++ block.whole) := by
    rw [hreceived, stream_append, stream_cons, stream_nil, List.append_nil]
  have hqueue := processPacket_eq d.length_lt hheader hsplit (.inl hwhole.le) fun hnil => by
    rw [hnil] at hwhole
    exact absurd hwhole (by decide)
  -- the last block starts where the others end
  have hmem := h.complete header (records ++ [block]) hheader hreceived _ _ hqueue
    ⟨block.data.length, 4 + (stream records).length + 4⟩
    (by rw [blocksAt_append]; exact List.mem_append_right _ List.mem_cons_self)
  have hbounds := (bounds_of_mem hmem).2
  dsimp only at hbounds
  omega

/-- The blocks of the longest sequence are queued, and they are all blocks. -/
theorem safe_of_not_endsEmpty {d : Datagram} (hle : 4 ≤ d.received.length)
    (hnotEmpty : ¬ EndsEmpty d) : Safe d := by
  obtain ⟨records, rest, hrest, hends⟩ :=
    exists_longest ofLeBytes (by decide : 0 < 4) (d.received.drop 4)
  have hheader : (d.received.take 4).length = 4 := List.length_take_of_le hle
  have hsplit : d.received = d.received.take 4 ++ (stream records ++ rest) := by
    rw [← hrest, List.take_append_drop]
  have hlast : rest = [] → ∀ block ∈ records.getLast?, block.data ≠ [] := by
    intro hnil block hblock hdata
    obtain ⟨front, rfl⟩ := List.getLast?_eq_some_iff.mp (Option.mem_def.mp hblock)
    refine hnotEmpty ⟨d.received.take 4, front, block, hheader, hdata, ?_⟩
    rw [hnil, List.append_nil] at hsplit
    exact hsplit
  have hqueue := processPacket_eq d.length_lt hheader hsplit (.inr hends) hlast
  refine ⟨by rw [hqueue]; rfl, ?_, ?_⟩
  · intro seqno blocks hblocks b hb
    rw [hqueue] at hblocks
    obtain ⟨-, rfl⟩ := Prod.mk.inj (Option.some.inj hblocks)
    have hbounds := (bounds_of_mem hb).2
    have hlength := congrArg List.length hsplit
    rw [List.length_append, List.length_append, hheader] at hlength
    omega
  · intro header records' hheader' hreceived seqno blocks hblocks b hb
    rw [hqueue] at hblocks
    obtain ⟨-, rfl⟩ := Prod.mk.inj (Option.some.inj hblocks)
    have hdrop : d.received.drop 4 = stream records' ++ [] := by
      rw [hreceived, List.drop_left' hheader', List.append_nil]
    obtain ⟨rfl, -⟩ := longest_unique hends (ends_nil (by decide : 0 < 4))
      (hrest.symm.trans hdrop)
    exact hb

/-- **When a datagram is safe**: when there is a sequence number, and not only blocks behind it
of which the last has no data. -/
theorem safe_datagram_iff (d : Datagram) : Safe d ↔ 4 ≤ d.received.length ∧ ¬ EndsEmpty d := by
  constructor
  · exact fun h => ⟨h.le_length, h.not_endsEmpty⟩
  · rintro ⟨hle, hnotEmpty⟩
    exact safe_of_not_endsEmpty hle hnotEmpty

/-- A sequence number and a block without data. -/
def emptyBlock : Datagram where
  received := [1, 0, 0, 0, 0, 0, 0, 0]
  pos := by decide
  length_le := by decide

/-- **The block is not queued.** -/
theorem not_safe_emptyBlock : ¬ Safe emptyBlock := by
  intro hsafe
  have hqueue : processPacket emptyBlock.received = some (1, []) := by decide +kernel
  have hmem := hsafe.complete [1, 0, 0, 0] [⟨[0, 0, 0, 0], [], rfl, by decide⟩] rfl rfl _ _ hqueue
    _ List.mem_cons_self
  exact absurd hmem List.not_mem_nil

end Analyze
