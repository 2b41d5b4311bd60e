/-
# The market data of `main.cpp`

`processMarketData` over the compressed parts of a packet.  The loop asks only whether there is a
byte left before it reads a size of four, and `substr` returns less than the size where the
packet ends before.
-/
import FastServer.AnaBlocks

namespace MarketData

open ArrayCopy LengthPrefixed

/-! ## The function -/

/-- A `std::string`, whose size fits a `ptrdiff_t`. -/
structure Packet where
  data : List UInt8
  length_lt : data.length < 2 ^ 63

/-- `data.substr(pos, len)`, which throws `out_of_range`. -/
def substr (data : List UInt8) (pos len : ℕ) : Option (List UInt8) :=
  if data.length < pos then none else some ((data.drop pos).take len)

/-- What the loop does with memory: it reads the four bytes at `offset`, or it passes the
extracted bytes to `RawUncompress` with a size. -/
inductive Event
  | read (offset : ℕ)
  | uncompress (compressedData : List UInt8) (compressedSize : ℕ)
deriving DecidableEq

/-- How the function ends. -/
inductive Ending
  | returns
  | throws
deriving DecidableEq

/-- What a round does: it ends the loop, it throws, or it passes a part to `RawUncompress` and
moves the offset. -/
inductive Round
  | last
  | throws
  | part (compressedData : List UInt8) (compressedSize offset : ℕ)
deriving DecidableEq

/-- The size at `offset`; `stray` says what is read there if the four bytes are not all in the
packet. -/
def sizeAt (stray : ℕ → UInt32) (data : List UInt8) (offset : ℕ) : ℕ :=
  match readRange data offset 4 with
  | some field => ofLeBytes field
  | none => (stray offset).toNat

def round (stray : ℕ → UInt32) (data : List UInt8) (offset : ℕ) : Round :=
  if data.length ≤ offset then .last
  else
    let compressedSize := sizeAt stray data offset
    let offset := (offset + 4) % 2 ^ 64
    match substr data offset compressedSize with
    | none => .throws
    | some compressedData =>
        .part compressedData compressedSize ((offset + compressedSize) % 2 ^ 64)

/-- The loop, if it ends within `n` rounds. -/
def loop (stray : ℕ → UInt32) (data : List UInt8) : ℕ → ℕ → Option (List Event × Ending)
  | 0, _ => none
  | n + 1, offset =>
      match round stray data offset with
      | .last => some ([], .returns)
      | .throws => some ([.read offset], .throws)
      | .part compressedData compressedSize next =>
          (loop stray data n next).map fun r =>
            (.read offset :: .uncompress compressedData compressedSize :: r.1, r.2)

/-- Every round but the last uses up a size. -/
def processMarketData (stray : ℕ → UInt32) (data : List UInt8) : Option (List Event × Ending) :=
  loop stray data (data.length + 1) 0

/-! ## What should hold -/

/-- The bytes that are read are in the packet, or among those that were extracted. -/
def Event.Inside (data : List UInt8) : Event → Prop
  | .read offset => offset + 4 ≤ data.length
  | .uncompress compressedData compressedSize => compressedSize ≤ compressedData.length

/-- The function returns and everything it reads is there. -/
def Fine (data : List UInt8) (r : List Event × Ending) : Prop :=
  r.2 = .returns ∧ ∀ e ∈ r.1, e.Inside data

/-- **What is promised of `processMarketData`**: whatever stands behind the packet, the loop
ends, and the function returns and reads only what is there. -/
def Safe (p : Packet) : Prop :=
  ∀ stray, ∃ r, processMarketData stray p.data = some r ∧ Fine p.data r

/-! ## A round -/

/-- A size of four bytes, the lowest one first, and the data. -/
abbrev Part : Type := LengthPrefixed 4 ofLeBytes

variable {stray : ℕ → UInt32} {data : List UInt8} {offset : ℕ}

theorem sizeAt_of_drop {field t : List UInt8} (hle : offset ≤ data.length)
    (hfield : field.length = 4) (h : data.drop offset = field ++ t) :
    sizeAt stray data offset = ofLeBytes field := by
  have hslice := readRange_of_drop hle h
  rw [hfield] at hslice
  rw [sizeAt, hslice]

/-- **A whole part** is passed on with its own size. -/
theorem round_of_whole {part : Part} {t : List UInt8} (hsmall : data.length < 2 ^ 63)
    (hle : offset ≤ data.length) (h : data.drop offset = part.whole ++ t) :
    round stray data offset
      = .part part.data part.data.length (offset + part.whole.length) := by
  have hlength := congrArg List.length h
  rw [List.length_drop, List.length_append, length_whole] at hlength
  have hsize : sizeAt stray data offset = ofLeBytes part.header :=
    sizeAt_of_drop hle part.length_header (h.trans (List.append_assoc _ _ _))
  have hrest : (data.drop (offset + 4)).take part.data.length = part.data := by
    rw [← List.drop_drop, h, drop_whole, List.take_left]
  have hoffset : (offset + 4) % 2 ^ 64 = offset + 4 := Nat.mod_eq_of_lt (by omega)
  have hnext : (offset + 4 + part.data.length) % 2 ^ 64 = offset + 4 + part.data.length :=
    Nat.mod_eq_of_lt (by omega)
  rw [round, if_neg (by omega), hsize, hoffset, ← part.length_data]
  dsimp only
  rw [substr, if_neg (by omega)]
  dsimp only
  rw [hrest, hnext, length_whole, Nat.add_assoc]

/-- Without the four bytes of a size `substr` throws. -/
theorem round_of_short (hsmall : data.length < 2 ^ 63) (hlt : offset < data.length)
    (hshort : data.length < offset + 4) : round stray data offset = .throws := by
  have hoffset : (offset + 4) % 2 ^ 64 = offset + 4 := Nat.mod_eq_of_lt (by omega)
  rw [round, if_neg (by omega), hoffset]
  dsimp only
  rw [substr, if_pos hshort]

/-- Of a part that is cut short the rest is passed on, and the loop is at its end. -/
theorem round_of_cut (stray : ℕ → UInt32) (hsmall : data.length < 2 ^ 63)
    (hfour : offset + 4 ≤ data.length) (h : Ends 4 ofLeBytes (data.drop offset)) :
    ∃ compressedData compressedSize next, compressedData.length < compressedSize ∧
      data.length ≤ next ∧
      round stray data offset = .part compressedData compressedSize next := by
  have hfield : ((data.drop offset).take 4).length = 4 := by
    rw [List.length_take, List.length_drop]
    omega
  have hsize : sizeAt stray data offset = ofLeBytes ((data.drop offset).take 4) :=
    sizeAt_of_drop (by omega) hfield (List.take_append_drop 4 (data.drop offset)).symm
  have hlt := ofLeBytes_lt ((data.drop offset).take 4)
  rw [ends_iff, List.length_drop] at h
  rw [hfield] at hlt
  generalize ofLeBytes ((data.drop offset).take 4) = compressedSize at h hsize hlt
  have hoffset : (offset + 4) % 2 ^ 64 = offset + 4 := Nat.mod_eq_of_lt (by omega)
  have hnext : (offset + 4 + compressedSize) % 2 ^ 64 = offset + 4 + compressedSize :=
    Nat.mod_eq_of_lt (by omega)
  refine ⟨(data.drop (offset + 4)).take compressedSize, compressedSize,
    offset + 4 + compressedSize, ?_, by omega, ?_⟩
  · rw [List.length_take, List.length_drop]
    omega
  · rw [round, if_neg (by omega), hsize, hoffset]
    dsimp only
    rw [substr, if_neg (by omega)]
    dsimp only
    rw [hnext]

/-! ## The loop -/

theorem loop_of_end {n : ℕ} (hend : data.length ≤ offset) :
    loop stray data (n + 1) offset = some ([], .returns) := by
  have hround : round stray data offset = .last := if_pos hend
  rw [loop, hround]

/-- **From any offset** the loop ends, and all is fine exactly if nothing is left behind the
whole parts. -/
theorem loop_spec (stray : ℕ → UInt32) {parts : List Part} {rest : List UInt8} {n : ℕ}
    (hsmall : data.length < 2 ^ 63) (hends : Ends 4 ofLeBytes rest) (hle : offset ≤ data.length)
    (hn : data.length - offset < n) (h : data.drop offset = stream parts ++ rest) :
    ∃ r, loop stray data n offset = some r ∧ (Fine data r ↔ rest = []) := by
  obtain ⟨k, rfl⟩ := Nat.exists_eq_succ_of_ne_zero (Nat.ne_of_gt (Nat.zero_lt_of_lt hn))
  induction parts generalizing offset k with
  | nil =>
    rw [stream_nil, List.nil_append] at h
    have hlength := congrArg List.length h
    rw [List.length_drop] at hlength
    by_cases hend : data.length ≤ offset
    · have hnil : rest = [] := List.length_eq_zero_iff.mp (by omega)
      exact ⟨_, loop_of_end hend, iff_of_true ⟨rfl, fun e he => absurd he List.not_mem_nil⟩ hnil⟩
    · have hne : rest ≠ [] := by
        rintro rfl
        rw [List.length_nil] at hlength
        omega
      by_cases hshort : data.length < offset + 4
      · refine ⟨([.read offset], .throws), ?_, iff_of_false (fun hfine => nomatch hfine.1) hne⟩
        rw [loop, round_of_short hsmall (not_le.mp hend) hshort]
      · obtain ⟨compressedData, compressedSize, next, hcut, hnext, hround⟩ :=
          round_of_cut stray hsmall (not_lt.mp hshort) (h ▸ hends)
        obtain ⟨j, rfl⟩ := Nat.exists_eq_succ_of_ne_zero (by omega : k ≠ 0)
        refine ⟨_, by rw [loop, hround]; dsimp only; rw [loop_of_end hnext]; rfl, ?_⟩
        refine iff_of_false (fun hfine => ?_) hne
        have hinside : compressedSize ≤ compressedData.length :=
          hfine.2 (.uncompress compressedData compressedSize)
            (List.mem_cons_of_mem _ List.mem_cons_self)
        omega
  | cons part parts ih =>
    rw [stream_cons, List.append_assoc] at h
    have hlength := congrArg List.length h
    rw [List.length_drop, List.length_append, length_whole] at hlength
    have hrest : data.drop (offset + part.whole.length) = stream parts ++ rest := by
      rw [← List.drop_drop, h, List.drop_left]
    obtain ⟨j, rfl⟩ := Nat.exists_eq_succ_of_ne_zero (by omega : k ≠ 0)
    have hle' : offset + part.whole.length ≤ data.length := by
      rw [length_whole]
      omega
    have hn' : data.length - (offset + part.whole.length) < j.succ := by
      rw [length_whole]
      omega
    obtain ⟨r, hloop, hfine⟩ := ih hle' hrest j hn'
    refine ⟨_, by rw [loop, round_of_whole hsmall hle h]; dsimp only; rw [hloop]; rfl, ?_⟩
    rw [← hfine, Fine, Fine, List.forall_mem_cons, List.forall_mem_cons]
    constructor
    · exact fun hall => ⟨hall.1, hall.2.2.2⟩
    · intro hall
      have hread : offset + 4 ≤ data.length := by omega
      exact ⟨hall.1, hread, le_rfl, hall.2⟩

/-! ## When it holds -/

/-- The loop ends, whatever the packet holds and whatever stands behind it. -/
theorem processMarketData_isSome (stray : ℕ → UInt32) (p : Packet) :
    (processMarketData stray p.data).isSome := by
  obtain ⟨parts, rest, h, hends⟩ := exists_longest ofLeBytes (by decide : 0 < 4) p.data
  have hle : 0 ≤ p.data.length := Nat.zero_le _
  obtain ⟨r, hloop, -⟩ := loop_spec stray p.length_lt hends hle (Nat.lt_succ_self _) h
  exact Option.isSome_iff_exists.mpr ⟨r, hloop⟩

/-- **When a packet is safe**: when it is a sequence of whole parts. -/
theorem safe_packet_iff (p : Packet) : Safe p ↔ ∃ parts : List Part, p.data = stream parts := by
  obtain ⟨parts, rest, h, hends⟩ := exists_longest ofLeBytes (by decide : 0 < 4) p.data
  have hspec : ∀ stray, ∃ r, processMarketData stray p.data = some r ∧
      (Fine p.data r ↔ rest = []) :=
    fun stray => loop_spec stray p.length_lt hends (Nat.zero_le _) (Nat.lt_succ_self _) h
  have hwhole : rest = [] ↔ ∃ parts : List Part, p.data = stream parts := by
    constructor
    · rintro rfl
      exact ⟨parts, h.trans (List.append_nil _)⟩
    · rintro ⟨parts', hparts⟩
      exact (longest_unique hends (ends_nil (by decide : 0 < 4))
        (h.symm.trans (hparts.trans (List.append_nil _).symm))).2
  rw [← hwhole]
  constructor
  · intro hsafe
    obtain ⟨r, hrun, hfine⟩ := hsafe fun _ => 0
    obtain ⟨r', hrun', hiff⟩ := hspec fun _ => 0
    rw [hrun] at hrun'
    obtain rfl := Option.some.inj hrun'
    exact hiff.mp hfine
  · intro hnil stray
    obtain ⟨r, hrun, hiff⟩ := hspec stray
    exact ⟨r, hrun, hiff.mpr hnil⟩

/-- A size of five with three bytes behind it. -/
def cutShort : Packet := ⟨[5, 0, 0, 0, 1, 2, 3], by decide⟩

/-- **Five bytes are read of three.** -/
theorem not_safe_cutShort : ¬ Safe cutShort := by
  intro hsafe
  obtain ⟨r, hrun, hfine⟩ := hsafe fun _ => 0
  have hevents : processMarketData (fun _ => 0) cutShort.data
      = some ([.read 0, .uncompress [1, 2, 3] 5], .returns) := by decide +kernel
  rw [hevents] at hrun
  obtain rfl := Option.some.inj hrun
  have hinside : 5 ≤ 3 :=
    hfine.2 (.uncompress [1, 2, 3] 5) (List.mem_cons_of_mem _ List.mem_cons_self)
  omega

end MarketData
