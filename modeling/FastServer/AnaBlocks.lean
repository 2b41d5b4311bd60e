/-
# The blocks of a packet

The loop of `process_thread_func` in `ana.cpp` over the blocks of one packet, with its sums of
type `size_t`.  It hands over the data of the records in front of the packet, up to the first
place where no whole record stands, whatever `snappy::Uncompress` says of each.
-/
import FastServer.AnaServer
import FastServer.LengthPrefixed

namespace Ana

open ArrayCopy LengthPrefixed

/-! ## The loop -/

/-- A `std::vector<char>`, whose size fits a `ptrdiff_t`. -/
structure Payload where
  packet : List UInt8
  length_lt : packet.length < 2 ^ 63

/-- What a round does: it ends the loop, it reads what is not in the packet, or it hands a block
to `Uncompress` and moves the offset. -/
inductive Round
  | last
  | outside
  | block (compressed_data : List UInt8) (offset : ℕ)
deriving DecidableEq

def round (packet : List UInt8) (offset : ℕ) : Round :=
  if packet.length ≤ offset then .last
  else if packet.length < (offset + 4) % 2 ^ 64 then .last
  else
    match readRange packet offset 4 with
    | none => .outside
    | some field =>
        let block_len := ntohl field
        let offset := (offset + 4) % 2 ^ 64
        if packet.length < (offset + block_len) % 2 ^ 64 then .last
        else
          match readRange packet offset block_len with
          | none => .outside
          | some compressed_data => .block compressed_data ((offset + block_len) % 2 ^ 64)

/-- The blocks that `Uncompress` gets, and what `algo_callback` gets of them. -/
structure Handed where
  blocks : List (List UInt8)
  callbacks : List (List UInt8)
deriving DecidableEq

/-- The loop, if it reads nothing outside and ends within `n` rounds. -/
def loop (uncompress : List UInt8 → Option (List UInt8)) (packet : List UInt8) :
    ℕ → ℕ → Option Handed
  | 0, _ => none
  | n + 1, offset =>
      match round packet offset with
      | .last => some ⟨[], []⟩
      | .outside => none
      | .block compressed_data offset =>
          (loop uncompress packet n offset).map fun handed =>
            match uncompress compressed_data with
            | none => ⟨compressed_data :: handed.blocks, handed.callbacks⟩
            | some uncompressed =>
                ⟨compressed_data :: handed.blocks, uncompressed :: handed.callbacks⟩

/-! ## What should hold -/

/-- A length of four bytes, the highest one first, and the data. -/
abbrev Block : Type := LengthPrefixed 4 ntohl

/-- What is handed over for a list of blocks. -/
def handedOf (uncompress : List UInt8 → Option (List UInt8)) (blocks : List Block) : Handed :=
  ⟨blocks.map data, (blocks.map data).filterMap uncompress⟩

/-- **What is promised of the loop**: it ends, reads nothing outside, and hands over the blocks
of the longest sequence of whole blocks in front of the packet; of a packet that is a sequence
of blocks, all of them. -/
structure HandsOver (uncompress : List UInt8 → Option (List UInt8)) (payload : Payload) :
    Prop where
  longest : ∃ (blocks : List Block) (rest : List UInt8),
    payload.packet = stream blocks ++ rest ∧ Ends 4 ntohl rest ∧
      ∀ n, payload.packet.length < n →
        loop uncompress payload.packet n 0 = some (handedOf uncompress blocks)
  all : ∀ blocks : List Block, payload.packet = stream blocks →
    ∀ n, payload.packet.length < n →
      loop uncompress payload.packet n 0 = some (handedOf uncompress blocks)

/-! ## A round -/

variable {packet : List UInt8} {offset : ℕ}

theorem ntohl_lt {field : List UInt8} (h : field.length = 4) : ntohl field < 2 ^ 32 := by
  have hlt := ofLeBytes_lt field.reverse
  rw [List.length_reverse, h] at hlt
  exact hlt

/-- **Without a whole block** the loop ends. -/
theorem round_of_ends (hsmall : packet.length < 2 ^ 63) (hle : offset ≤ packet.length)
    (h : Ends 4 ntohl (packet.drop offset)) : round packet offset = .last := by
  rw [ends_iff, List.length_drop] at h
  rw [round]
  by_cases hempty : packet.length ≤ offset
  · rw [if_pos hempty]
  · rw [if_neg hempty]
    by_cases hheader : packet.length < (offset + 4) % 2 ^ 64
    · rw [if_pos hheader]
    · have hfour : ((packet.drop offset).take 4).length = 4 := by
        rw [List.length_take, List.length_drop]
        omega
      have hslice := readRange_of_drop hle (List.take_append_drop 4 (packet.drop offset)).symm
      rw [hfour] at hslice
      have hlt := ntohl_lt hfour
      rw [if_neg hheader, hslice]
      dsimp only
      rw [if_pos (by omega)]

/-- **A whole block** is handed over. -/
theorem round_of_whole {block : Block} {t : List UInt8} (hsmall : packet.length < 2 ^ 63)
    (hle : offset ≤ packet.length) (h : packet.drop offset = block.whole ++ t) :
    round packet offset = .block block.data (offset + block.whole.length) := by
  have hlength := congrArg List.length h
  rw [List.length_drop, List.length_append, length_whole] at hlength
  have hfield := readRange_of_drop hle (h.trans (List.append_assoc _ _ _))
  rw [block.length_header] at hfield
  have hdata : readRange packet (offset + 4) block.data.length = some block.data := by
    refine readRange_of_drop (t := t) (by omega) ?_
    rw [← List.drop_drop, h, drop_whole]
  have hoffset : (offset + 4) % 2 ^ 64 = offset + 4 := Nat.mod_eq_of_lt (by omega)
  have hnext : (offset + 4 + block.data.length) % 2 ^ 64 = offset + 4 + block.data.length :=
    Nat.mod_eq_of_lt (by omega)
  rw [round, if_neg (by omega), hoffset, if_neg (by omega), hfield]
  dsimp only
  rw [← block.length_data, hnext, if_neg (by omega), hdata, length_whole, Nat.add_assoc]

/-! ## The whole loop -/

/-- **From any offset** the loop hands over the blocks that stand there. -/
theorem loop_eq (uncompress : List UInt8 → Option (List UInt8)) (hsmall : packet.length < 2 ^ 63)
    {blocks : List Block} {rest : List UInt8} (hends : Ends 4 ntohl rest) {n : ℕ}
    (hle : offset ≤ packet.length) (hn : packet.length - offset < n)
    (h : packet.drop offset = stream blocks ++ rest) :
    loop uncompress packet n offset = some (handedOf uncompress blocks) := by
  induction blocks generalizing offset n with
  | nil =>
    obtain ⟨k, rfl⟩ := Nat.exists_eq_succ_of_ne_zero (Nat.ne_of_gt (Nat.zero_lt_of_lt hn))
    rw [stream_nil, List.nil_append] at h
    rw [loop, round_of_ends hsmall hle (h ▸ hends)]
    rfl
  | cons block blocks ih =>
    obtain ⟨k, rfl⟩ := Nat.exists_eq_succ_of_ne_zero (Nat.ne_of_gt (Nat.zero_lt_of_lt hn))
    rw [stream_cons, List.append_assoc] at h
    have hlength := congrArg List.length h
    rw [List.length_drop, List.length_append, length_whole] at hlength
    have hrest : packet.drop (offset + block.whole.length) = stream blocks ++ rest := by
      rw [← List.drop_drop, h, List.drop_left]
    have hloop := ih (n := k) (by rw [length_whole]; omega) (by rw [length_whole]; omega) hrest
    rw [loop, round_of_whole hsmall hle h]
    dsimp only
    rw [hloop, Option.map_some, handedOf, handedOf, List.map_cons, List.filterMap_cons]
    cases uncompress block.data <;> rfl

/-- **The loop hands over all whole blocks** in front of the packet. -/
theorem handsOver (uncompress : List UInt8 → Option (List UInt8)) (payload : Payload) :
    HandsOver uncompress payload := by
  have hloop : ∀ {blocks : List Block} {rest : List UInt8},
      payload.packet = stream blocks ++ rest → Ends 4 ntohl rest →
      ∀ n, payload.packet.length < n →
        loop uncompress payload.packet n 0 = some (handedOf uncompress blocks) :=
    fun h hends n hn => loop_eq uncompress payload.length_lt hends (Nat.zero_le _) hn h
  constructor
  · obtain ⟨blocks, rest, h, hends⟩ := exists_longest ntohl (by decide : 0 < 4) payload.packet
    exact ⟨blocks, rest, h, hends, hloop h hends⟩
  · intro blocks h
    exact hloop (h.trans (List.append_nil _).symm) (ends_nil (by decide))

/-- A round of the loop is a step of the server. -/
theorem AnaServer.block_eq_round {α : Type*} (uncompress : List UInt8 → Option (List UInt8))
    {s : AnaServer α} (hworking : s.working = some (packet, offset))
    (hsmall : packet.length < 2 ^ 63) (hle : offset ≤ packet.length) :
    s.block uncompress = match round packet offset with
      | .last => some s.finish
      | .outside => none
      | .block compressed_data offset => some { s with
          working := some (packet, offset)
          callbacks := s.callbacks ++ (uncompress compressed_data).toList } := by
  have hoffset : (offset + 4) % 2 ^ 64 = offset + 4 := Nat.mod_eq_of_lt (by omega)
  rw [AnaServer.block, hworking, round, hoffset]
  dsimp only
  split_ifs with hempty hheader
  · rfl
  · rfl
  · cases hfield : readRange packet offset 4 with
    | none => rfl
    | some field =>
      have hfour : field.length = 4 := by
        rw [readRange, if_pos (by omega)] at hfield
        rw [← Option.some.inj hfield, List.length_take, List.length_drop]
        omega
      have hlt := ntohl_lt hfour
      have hnext : (offset + 4 + ntohl field) % 2 ^ 64 = offset + 4 + ntohl field :=
        Nat.mod_eq_of_lt (by omega)
      dsimp only [Option.bind_some]
      rw [hnext]
      split_ifs with hbody
      · rfl
      · cases readRange packet (offset + 4) (ntohl field) with
        | none => rfl
        | some compressed_data =>
          dsimp only [Option.bind_some]
          cases uncompress compressed_data with
          | none => rw [Option.toList_none, List.append_nil]
          | some uncompressed => rfl

end Ana
