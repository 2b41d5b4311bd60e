/-
# SimpleBuffer

The growing byte buffer of a connection.  Its allocation is a list of cells; a cell
that was never written holds no byte.  A copy checks both of its ranges against
the allocations it reads and writes, and the whole operation fails where one is
exceeded.
-/
import FastServer.ArrayCopy

open ArrayCopy

namespace Muduo

/-! ## Memory -/

/-- The cells of an allocation. -/
abbrev Memory := List (Option UInt8)

/-- `new char[size]`, which leaves every cell indeterminate. -/
def allocate (size : ℕ) : Memory := List.replicate size none

@[simp] theorem length_allocate (size : ℕ) : (allocate size).length = size :=
  List.length_replicate

/-! ## The buffer -/

/-- `SimpleBuffer`. -/
structure SimpleBuffer where
  buffer : Memory
  bufferSize : ℕ
  readPos : ℕ
  writePos : ℕ
deriving DecidableEq

namespace SimpleBuffer

/-- The constructor. -/
def new (initialCapacity : ℕ) : SimpleBuffer := ⟨allocate initialCapacity, initialCapacity, 0, 0⟩

/-- `size()`. -/
def size (b : SimpleBuffer) : ℕ := b.writePos - b.readPos

/-- `noData()`. -/
def noData (b : SimpleBuffer) : Prop := b.writePos = b.readPos

instance (b : SimpleBuffer) : Decidable b.noData := inferInstanceAs (Decidable (_ = _))

/-- The cells `data()[0 .. size())`. -/
def contents (b : SimpleBuffer) : Memory := (b.buffer.drop b.readPos).take b.size

/-- `compact`: the unread bytes slide to the front. -/
def compact (b : SimpleBuffer) : Option SimpleBuffer :=
  if 0 < b.readPos then
    let dataSize := b.size
    (readRange b.buffer b.readPos dataSize).bind fun cells =>
      (writeRange b.buffer 0 cells).map fun buffer =>
        { b with buffer := buffer, readPos := 0, writePos := dataSize }
  else some b

/-- `ensureCapacity`: enough room already, room by sliding, or a larger allocation. -/
def ensureCapacity (b : SimpleBuffer) (len : ℕ) : Option SimpleBuffer :=
  let available := b.bufferSize - b.writePos
  if len ≤ available then some b
  else if len ≤ b.readPos + available then b.compact
  else
    let newSize := max (b.bufferSize * 2) (b.writePos + len)
    let s := b.size
    (readRange b.buffer b.readPos s).bind fun cells =>
      (writeRange (allocate newSize) 0 cells).map fun newBuffer =>
        { buffer := newBuffer, bufferSize := newSize, readPos := 0, writePos := s }

/-- `write`. -/
def write (b : SimpleBuffer) (data : List UInt8) : Option SimpleBuffer :=
  (b.ensureCapacity data.length).bind fun b =>
    (writeRange b.buffer b.writePos (data.map some)).map fun buffer =>
      { b with buffer := buffer, writePos := b.writePos + data.length }

/-- `advance`: an emptied buffer starts over, one that is read past its middle is
compacted. -/
def advance (b : SimpleBuffer) (len : ℕ) : Option SimpleBuffer :=
  let b := { b with readPos := b.readPos + len }
  if b.noData then some { b with readPos := 0, writePos := 0 }
  else if b.bufferSize / 2 < b.readPos then b.compact
  else some b

/-! ## Well-formed buffers -/

/-- The positions are in order and inside the allocation. -/
structure WellFormed (b : SimpleBuffer) : Prop where
  allocated : b.buffer.length = b.bufferSize
  readPos_le : b.readPos ≤ b.writePos
  writePos_le : b.writePos ≤ b.bufferSize

/-- A new buffer is well formed. -/
theorem wellFormed_new (initialCapacity : ℕ) : (new initialCapacity).WellFormed :=
  ⟨length_allocate initialCapacity, le_refl 0, Nat.zero_le _⟩

/-- A new buffer holds nothing. -/
@[simp] theorem contents_new (initialCapacity : ℕ) : (new initialCapacity).contents = [] := by
  show List.take 0 _ = []
  exact List.take_zero

namespace WellFormed

variable {b : SimpleBuffer}

/-- The buffer holds `size()` cells. -/
theorem length_contents (h : b.WellFormed) : b.contents.length = b.size := by
  have := h.allocated
  have := h.readPos_le
  have := h.writePos_le
  unfold contents size
  simp only [List.length_take, List.length_drop]
  omega

/-- `noData` says that the buffer holds nothing. -/
theorem noData_iff (h : b.WellFormed) : b.noData ↔ b.contents = [] := by
  rw [← List.length_eq_zero_iff, h.length_contents]
  have := h.readPos_le
  unfold noData size
  omega

/-- Moving the unread bytes to the front of an allocation with room for them keeps
the contents. -/
theorem relocate (h : b.WellFormed) {mem : Memory} (hroom : b.size ≤ mem.length) :
    ∃ b', ((readRange b.buffer b.readPos b.size).bind fun cells =>
        (writeRange mem 0 cells).map fun buffer =>
          ({ buffer := buffer, bufferSize := mem.length, readPos := 0, writePos := b.size } :
            SimpleBuffer)) = some b' ∧
      b'.WellFormed ∧ b'.contents = b.contents ∧ b'.writePos = b.size ∧
      b'.bufferSize = mem.length := by
  have halloc := h.allocated
  have hread := h.readPos_le
  have hwrite := h.writePos_le
  have hlen := h.length_contents
  have hsize : b.readPos + b.size ≤ b.buffer.length := by
    unfold size
    omega
  have hfit : 0 + b.contents.length ≤ mem.length := by omega
  rw [readRange_eq hsize, Option.bind_some]
  show ∃ b', (writeRange mem 0 b.contents).map _ = some b' ∧ _
  rw [writeRange_eq hfit, Option.map_some]
  refine ⟨_, rfl, ⟨length_writeRange (writeRange_eq hfit), Nat.zero_le _, hroom⟩, ?_, rfl, rfl⟩
  show List.take (b.size - 0) _ = b.contents
  rw [List.take_zero, List.nil_append, List.drop_zero, Nat.sub_zero, ← hlen, List.take_left]

/-- **`compact`** keeps the contents and puts them at the front. -/
theorem compact (h : b.WellFormed) :
    ∃ b', b.compact = some b' ∧ b'.WellFormed ∧ b'.contents = b.contents ∧
      b'.writePos = b.size ∧ b'.bufferSize = b.bufferSize := by
  have halloc := h.allocated
  have hwrite := h.writePos_le
  unfold SimpleBuffer.compact
  by_cases hpos : 0 < b.readPos
  · rw [if_pos hpos, ← halloc]
    apply h.relocate
    unfold size
    omega
  · rw [if_neg hpos]
    refine ⟨b, rfl, h, rfl, ?_, rfl⟩
    unfold size
    omega

/-- **`ensureCapacity`** keeps the contents and leaves room for `len` bytes. -/
theorem ensureCapacity (h : b.WellFormed) (len : ℕ) :
    ∃ b', b.ensureCapacity len = some b' ∧ b'.WellFormed ∧ b'.contents = b.contents ∧
      b'.writePos + len ≤ b'.bufferSize := by
  have hread := h.readPos_le
  have hwrite := h.writePos_le
  have hsize : b.size = b.writePos - b.readPos := rfl
  unfold SimpleBuffer.ensureCapacity
  by_cases henough : len ≤ b.bufferSize - b.writePos
  · simp only [if_pos henough]
    exact ⟨b, rfl, h, rfl, by omega⟩
  by_cases hslide : len ≤ b.readPos + (b.bufferSize - b.writePos)
  · simp only [if_neg henough, if_pos hslide]
    obtain ⟨b', hb', hwf, hcontents, hend, hsame⟩ := h.compact
    exact ⟨b', hb', hwf, hcontents, by omega⟩
  · simp only [if_neg henough, if_neg hslide]
    have hroom : b.size ≤ (allocate (max (b.bufferSize * 2) (b.writePos + len))).length := by
      rw [length_allocate]
      omega
    obtain ⟨b', hb', hwf, hcontents, hend, hnew⟩ := h.relocate hroom
    rw [length_allocate] at hb' hnew
    exact ⟨b', hb', hwf, hcontents, by omega⟩

/-- **`write`** appends the data to the contents; no copy leaves its allocation. -/
theorem write (h : b.WellFormed) (data : List UInt8) :
    ∃ b', b.write data = some b' ∧ b'.WellFormed ∧
      b'.contents = b.contents ++ data.map some := by
  obtain ⟨b₁, hb₁, hwf, hcontents, hroom⟩ := h.ensureCapacity data.length
  have halloc := hwf.allocated
  have hread := hwf.readPos_le
  have hfit : b₁.writePos + (data.map some).length ≤ b₁.buffer.length := by
    rw [List.length_map, halloc]
    exact hroom
  unfold SimpleBuffer.write
  rw [hb₁, Option.bind_some, writeRange_eq hfit, Option.map_some]
  refine ⟨_, rfl, ⟨?_, ?_, hroom⟩, ?_⟩
  · exact (length_writeRange (writeRange_eq hfit)).trans halloc
  · show b₁.readPos ≤ b₁.writePos + data.length
    omega
  · rw [← hcontents]
    show List.take (b₁.writePos + data.length - b₁.readPos) (List.drop b₁.readPos _)
      = b₁.contents ++ data.map some
    have htake : (b₁.buffer.take b₁.writePos).length = b₁.writePos := by
      rw [List.length_take]
      omega
    have hdrop : (b₁.buffer.take b₁.writePos).drop b₁.readPos = b₁.contents := by
      rw [List.drop_take]
      rfl
    have hcount : b₁.writePos + data.length - b₁.readPos
        = (b₁.contents ++ data.map some).length := by
      rw [List.length_append, hwf.length_contents, List.length_map]
      unfold size
      omega
    rw [List.append_assoc, List.drop_append_of_le_length (by omega), hdrop,
      ← List.append_assoc, hcount, List.take_left]

/-- **`advance`** drops the bytes that were read. -/
theorem advance (h : b.WellFormed) {len : ℕ} (hlen : len ≤ b.size) :
    ∃ b', b.advance len = some b' ∧ b'.WellFormed ∧ b'.contents = b.contents.drop len := by
  have hread := h.readPos_le
  have hwrite := h.writePos_le
  unfold size at hlen
  have hmoved : ({ b with readPos := b.readPos + len } : SimpleBuffer).WellFormed :=
    ⟨h.allocated, by show b.readPos + len ≤ b.writePos; omega, hwrite⟩
  have hcontents : ({ b with readPos := b.readPos + len } : SimpleBuffer).contents
      = b.contents.drop len := by
    show List.take (b.writePos - (b.readPos + len)) (List.drop (b.readPos + len) b.buffer)
      = List.drop len (List.take (b.writePos - b.readPos) (List.drop b.readPos b.buffer))
    rw [List.drop_take, List.drop_drop, Nat.sub_sub]
  unfold SimpleBuffer.advance
  by_cases hempty : ({ b with readPos := b.readPos + len } : SimpleBuffer).noData
  · simp only [if_pos hempty]
    refine ⟨_, rfl, ⟨h.allocated, le_refl 0, Nat.zero_le _⟩, ?_⟩
    rw [← hcontents, hmoved.noData_iff.mp hempty]
    show List.take 0 _ = []
    exact List.take_zero
  · simp only [if_neg hempty]
    split_ifs with hmiddle
    · obtain ⟨b', hb', hwf, hsame, -, -⟩ := hmoved.compact
      exact ⟨b', hb', hwf, hsame.trans hcontents⟩
    · exact ⟨_, rfl, hmoved, hcontents⟩

end WellFormed

/-! ## Sequences of calls -/

/-- A call that changes the buffer. -/
inductive Call
  | write (data : List UInt8)
  | advance (len : ℕ)

/-- The buffer after a call. -/
def call (b : SimpleBuffer) : Call → Option SimpleBuffer
  | .write data => b.write data
  | .advance len => b.advance len

/-- The buffer after a sequence of calls. -/
def run (b : SimpleBuffer) : List Call → Option SimpleBuffer
  | [] => some b
  | c :: calls => (b.call c).bind fun b => b.run calls

/-- The call does not advance by more than `size()`. -/
def Fits (b : SimpleBuffer) : Call → Prop
  | .write _ => True
  | .advance len => len ≤ b.size

instance (b : SimpleBuffer) (c : Call) : Decidable (b.Fits c) := by
  cases c <;> unfold Fits <;> infer_instance

/-- No call advances by more than `size()`. -/
def Sized (b : SimpleBuffer) : List Call → Prop
  | [] => True
  | c :: calls => b.Fits c ∧ ∀ b' ∈ b.call c, b'.Sized calls

instance decidableSized : (calls : List Call) → (b : SimpleBuffer) → Decidable (b.Sized calls)
  | [], _ => isTrue trivial
  | c :: calls, b =>
      have := decidableSized calls
      inferInstanceAs (Decidable (b.Fits c ∧ ∀ b' ∈ b.call c, b'.Sized calls))

/-- All the data written. -/
def written : List Call → List UInt8
  | [] => []
  | .write data :: calls => data ++ written calls
  | .advance _ :: calls => written calls

/-- The sum of the advances. -/
def advanced : List Call → ℕ
  | [] => 0
  | .write _ :: calls => advanced calls
  | .advance len :: calls => len + advanced calls

/-- What was called before does not depend on what is called after. -/
theorem Sized.of_append {b : SimpleBuffer} {calls more : List Call} (h : b.Sized (calls ++ more)) :
    b.Sized calls := by
  induction calls generalizing b with
  | nil => trivial
  | cons c calls ih => exact ⟨h.1, fun b' hb' => ih (h.2 b' hb')⟩

/-- The calls on a buffer that holds what is left of `data` after the first `dropped` bytes. -/
theorem WellFormed.run {b : SimpleBuffer} (hb : b.WellFormed) {calls : List Call}
    (h : b.Sized calls) {data : List UInt8} {dropped : ℕ} (hle : dropped ≤ data.length)
    (hcontents : b.contents = (data.drop dropped).map some) :
    ∃ b', b.run calls = some b' ∧ b'.WellFormed ∧
      b'.contents = ((data ++ written calls).drop (dropped + advanced calls)).map some := by
  induction calls generalizing b data dropped with
  | nil =>
    refine ⟨b, rfl, hb, ?_⟩
    rw [written, advanced, List.append_nil, Nat.add_zero]
    exact hcontents
  | cons c calls ih =>
    cases c with
    | write more =>
      obtain ⟨b₁, hb₁, hwf, hafter⟩ := hb.write more
      have hsplit : b₁.contents = ((data ++ more).drop dropped).map some := by
        rw [hafter, hcontents, List.drop_append_of_le_length hle, List.map_append]
      have hle' : dropped ≤ (data ++ more).length := by
        rw [List.length_append]
        omega
      obtain ⟨b₂, hb₂, hwf₂, hend⟩ := ih hwf (h.2 b₁ hb₁) hle' hsplit
      refine ⟨b₂, ?_, hwf₂, ?_⟩
      · rw [SimpleBuffer.run, call, hb₁]
        exact hb₂
      · rw [hend, written, advanced, List.append_assoc]
    | advance len =>
      -- no more is advanced over than what is left of the data
      have hlen : len ≤ b.size := h.1
      obtain ⟨b₁, hb₁, hwf, hafter⟩ := hb.advance hlen
      have hsize : b.size = data.length - dropped := by
        rw [← hb.length_contents, hcontents, List.length_map, List.length_drop]
      have hdrop : b₁.contents = (data.drop (dropped + len)).map some := by
        rw [hafter, hcontents, ← List.map_drop, List.drop_drop]
      obtain ⟨b₂, hb₂, hwf₂, hend⟩ := ih hwf (h.2 b₁ hb₁) (by omega) hdrop
      refine ⟨b₂, ?_, hwf₂, ?_⟩
      · rw [SimpleBuffer.run, call, hb₁]
        exact hb₂
      · rw [hend, written, advanced, Nat.add_assoc]

/-- **The buffer is the queue of the bytes written.**  After every part of a sequence of
calls no copy has left its allocation, the positions are in order, and the buffer holds the
bytes written without the first of them, as many as were advanced over. -/
theorem contents_eq_of_sized (initialCapacity : ℕ) {calls more : List Call}
    (h : (new initialCapacity).Sized (calls ++ more)) :
    ∃ b, (new initialCapacity).run calls = some b ∧ b.WellFormed ∧
      b.contents = ((written calls).drop (advanced calls)).map some := by
  obtain ⟨b, hrun, hwf, hcontents⟩ := @WellFormed.run _ (wellFormed_new initialCapacity) _
    h.of_append [] 0 (Nat.zero_le 0) (contents_new initialCapacity)
  refine ⟨b, hrun, hwf, ?_⟩
  rw [hcontents, List.nil_append, Nat.zero_add]

/-- A buffer without a capacity grows twice, slides its bytes to the front for a write, is
compacted by an advance, and starts over when it is empty. -/
def allMoves : List Call :=
  [.write [1, 2, 3], .write [4], .advance 2, .write [5, 6, 7, 8], .advance 4, .advance 2, .write [9]]

/-- It holds the last byte. -/
theorem contents_eq_allMoves :
    ∃ b, (new 0).run allMoves = some b ∧ b.WellFormed ∧ b.contents = [some 9] := by
  have hsized : (new 0).Sized (allMoves ++ []) := by decide +kernel
  exact contents_eq_of_sized 0 hsized

end SimpleBuffer

end Muduo
