/-
# Copies inside an array

An array as the list of its cells.  A copy reads a range and writes a range, and is undefined
where one of them is not inside the array; a move may overlap itself.
-/
import Mathlib

namespace ArrayCopy

variable {α : Type*}

/-! ## Operations -/

/-- The `len` cells from `pos` on. -/
def readRange (mem : List α) (pos len : ℕ) : Option (List α) :=
  if pos + len ≤ mem.length then some ((mem.drop pos).take len) else none

/-- The array after `cells` were copied to `pos`. -/
def writeRange (mem : List α) (pos : ℕ) (cells : List α) : Option (List α) :=
  if pos + cells.length ≤ mem.length then
    some (mem.take pos ++ cells ++ mem.drop (pos + cells.length))
  else none

/-- The array after `len` cells from `src` on were moved to `dest`. -/
def moveRange (mem : List α) (dest src len : ℕ) : Option (List α) :=
  (readRange mem src len).bind fun cells => writeRange mem dest cells

/-- The array cut off or filled up to `size` cells. -/
def resize (fill : α) (mem : List α) (size : ℕ) : List α :=
  mem.take size ++ List.replicate (size - mem.length) fill

/-! ## Ranges inside the array -/

theorem readRange_eq {mem : List α} {pos len : ℕ} (h : pos + len ≤ mem.length) :
    readRange mem pos len = some ((mem.drop pos).take len) := if_pos h

theorem writeRange_eq {mem cells : List α} {pos : ℕ} (h : pos + cells.length ≤ mem.length) :
    writeRange mem pos cells = some (mem.take pos ++ cells ++ mem.drop (pos + cells.length)) :=
  if_pos h

theorem writeRange_isSome_iff {mem cells : List α} {pos : ℕ} :
    (writeRange mem pos cells).isSome ↔ pos + cells.length ≤ mem.length := by
  rw [writeRange]
  split_ifs with hle
  · exact iff_of_true rfl hle
  · exact iff_of_false Bool.false_ne_true hle

/-- A write keeps the length of the array. -/
theorem length_writeRange {mem mem' cells : List α} {pos : ℕ}
    (h : writeRange mem pos cells = some mem') : mem'.length = mem.length := by
  rw [writeRange] at h
  split_ifs at h with hle
  obtain rfl := Option.some.inj h
  simp only [List.length_append, List.length_take, List.length_drop]
  omega

/-- The cells that stand at a position. -/
theorem readRange_of_drop {mem a t : List α} {pos : ℕ} (hle : pos ≤ mem.length)
    (h : mem.drop pos = a ++ t) : readRange mem pos a.length = some a := by
  have hlength := congrArg List.length h
  rw [List.length_drop, List.length_append] at hlength
  rw [readRange, if_pos (by omega), h, List.take_left]

/-! ## Ranges that stand between others -/

variable {front cells rest : List α}

/-- A range between others is read. -/
theorem readRange_append :
    readRange (front ++ (cells ++ rest)) front.length cells.length = some cells := by
  have hle : front.length + cells.length ≤ (front ++ (cells ++ rest)).length := by
    rw [List.length_append, List.length_append]
    omega
  rw [readRange, if_pos hle, List.drop_left, List.take_left]

/-- What stands in front of a range that is written and behind it stays. -/
theorem writeRange_append {new : List α} (h : cells.length = new.length) :
    writeRange (front ++ (cells ++ rest)) front.length new = some (front ++ (new ++ rest)) := by
  have hle : front.length + new.length ≤ (front ++ (cells ++ rest)).length := by
    rw [List.length_append, List.length_append]
    omega
  rw [writeRange, if_pos hle, List.take_left, ← h, List.drop_length_add_append, List.drop_left,
    List.append_assoc]

/-- A range is moved to the front of the array. -/
theorem moveRange_zero : ∃ left : List α, left.length = front.length + rest.length ∧
    moveRange (front ++ (cells ++ rest)) 0 front.length cells.length = some (cells ++ left) := by
  have hlength : (front ++ (cells ++ rest)).length
      = cells.length + (front.length + rest.length) := by
    rw [List.length_append, List.length_append]
    omega
  have hle : 0 + cells.length ≤ (front ++ (cells ++ rest)).length := by omega
  refine ⟨(front ++ (cells ++ rest)).drop cells.length, ?_, ?_⟩
  · rw [List.length_drop, hlength, Nat.add_sub_cancel_left]
  · rw [moveRange, readRange_append, Option.bind_some, writeRange, if_pos hle, Nat.zero_add,
      List.take_zero, List.nil_append]

/-- An array that grows keeps its cells. -/
theorem resize_of_le {fill : α} {mem : List α} {size : ℕ} (h : mem.length ≤ size) :
    resize fill mem size = mem ++ List.replicate (size - mem.length) fill := by
  rw [resize, List.take_of_length_le h]

end ArrayCopy
