/-
# The buffer of a connection in `server.hpp`

`Buffer`: a vector of bytes with a position to read from and one to write to.  Room is found
behind the bytes, by moving them to the front, or in a larger vector.  Whatever is called, the
buffer is a queue of bytes, and lines come out of it as they went in.
-/
import FastServer.ArrayCopy
import FastServer.Framing

open ArrayCopy

namespace Reactor

/-- `Buffer`. -/
structure Buffer where
  buffer_ : List UInt8
  reader_offset_ : ℕ
  writer_offset_ : ℕ
deriving DecidableEq

namespace Buffer

/-! ## Functions -/

/-- The constructor; the vector has `BUFFER_DEFAULT_SIZE` zeros. -/
def new : Buffer := ⟨List.replicate 1024 0, 0, 0⟩

/-- `ReadableSize`. -/
def readableSize (b : Buffer) : ℕ := b.writer_offset_ - b.reader_offset_

/-- `HeadWritableSize`. -/
def headWritableSize (b : Buffer) : ℕ := b.reader_offset_

/-- `TailWritableSize`. -/
def tailWritableSize (b : Buffer) : ℕ := b.buffer_.length - b.writer_offset_

/-- `MoveReaderOffset`; the assertion fails with none. -/
def moveReaderOffset (b : Buffer) (len : ℕ) : Option Buffer :=
  if len = 0 then some b
  else if len ≤ b.readableSize then some { b with reader_offset_ := b.reader_offset_ + len }
  else none

/-- `MoveWriterOffset`. -/
def moveWriterOffset (b : Buffer) (len : ℕ) : Option Buffer :=
  if len = 0 then some b
  else if len ≤ b.tailWritableSize then some { b with writer_offset_ := b.writer_offset_ + len }
  else none

/-- `EnsureWritableSpaceEnough`: room behind the bytes already, room by moving them to the
front, or a larger vector. -/
def ensureWritableSpaceEnough (b : Buffer) (len : ℕ) : Option Buffer :=
  if len = 0 then some b
  else if len ≤ b.tailWritableSize then some b
  else if len ≤ b.headWritableSize + b.tailWritableSize then
    let rsz := b.readableSize
    (moveRange b.buffer_ 0 b.reader_offset_ rsz).map fun buffer => ⟨buffer, 0, rsz⟩
  else some { b with buffer_ := resize 0 b.buffer_ (b.writer_offset_ + len) }

/-- `Write`. -/
def write (b : Buffer) (data : List UInt8) : Option Buffer :=
  if data.length = 0 then some b
  else
    (b.ensureWritableSpaceEnough data.length).bind fun b =>
      (writeRange b.buffer_ b.writer_offset_ data).map fun buffer => { b with buffer_ := buffer }

/-- `WriteAndPushOffSet`. -/
def writeAndPushOffSet (b : Buffer) (data : List UInt8) : Option Buffer :=
  if data.length = 0 then some b
  else (b.write data).bind fun b => b.moveWriterOffset data.length

/-- `WriteString`. -/
def writeString (b : Buffer) (str : List UInt8) : Option Buffer :=
  if str.length = 0 then some b else b.write str

/-- `WriteStringAndPushOffSet`. -/
def writeStringAndPushOffSet (b : Buffer) (str : List UInt8) : Option Buffer :=
  if str.length = 0 then some b
  else (b.writeString str).bind fun b => b.moveWriterOffset str.length

/-- `WriteBuffer` of another buffer. -/
def writeBuffer (b buf : Buffer) : Option Buffer :=
  if buf.readableSize = 0 then some b
  else (readRange buf.buffer_ buf.reader_offset_ buf.readableSize).bind b.write

/-- `WriteBufferAndPushOffSet` of another buffer. -/
def writeBufferAndPushOffSet (b buf : Buffer) : Option Buffer :=
  if buf.readableSize = 0 then some b
  else (b.writeBuffer buf).bind fun b => b.moveWriterOffset buf.readableSize

/-- `Read`: the bytes that are copied to the caller. -/
def read (b : Buffer) (len : ℕ) : Option (List UInt8) :=
  if len = 0 then some []
  else if len ≤ b.readableSize then readRange b.buffer_ b.reader_offset_ len
  else none

/-- `ReadAndPushOffSet`. -/
def readAndPushOffSet (b : Buffer) (len : ℕ) : Option (List UInt8 × Buffer) :=
  if len = 0 then some ([], b)
  else (b.read len).bind fun buf => (b.moveReaderOffset len).map fun b => (buf, b)

/-- `ReadAsString`. -/
def readAsString (b : Buffer) (len : ℕ) : Option (List UInt8) :=
  if len = 0 then some []
  else if len ≤ b.readableSize then b.read len
  else none

/-- `ReadAsStringAndPushOffSet`. -/
def readAsStringAndPushOffSet (b : Buffer) (len : ℕ) : Option (List UInt8 × Buffer) :=
  if len = 0 then some ([], b)
  else if len ≤ b.readableSize then
    (b.readAsString len).bind fun str => (b.moveReaderOffset len).map fun b => (str, b)
  else none

/-- The byte that ends a line. -/
def newline : UInt8 := 10

/-- `GetLine`; `memchr` looks at the readable bytes. -/
def getLine (b : Buffer) : Option (List UInt8) :=
  (readRange b.buffer_ b.reader_offset_ b.readableSize).bind fun bytes =>
    let pos := (bytes.takeWhile (· ≠ newline)).length
    if pos < bytes.length then b.readAsString (pos + 1) else some []

/-- `GetLineAndPushOffSet`. -/
def getLineAndPushOffSet (b : Buffer) : Option (List UInt8 × Buffer) :=
  b.getLine.bind fun str => (b.moveReaderOffset str.length).map fun b => (str, b)

/-- `Clear`. -/
def clear (b : Buffer) : Buffer := { b with reader_offset_ := 0, writer_offset_ := 0 }

/-! ## The bytes in a buffer -/

/-- The positions are in order and inside the vector. -/
structure Ordered (b : Buffer) : Prop where
  reader_le : b.reader_offset_ ≤ b.writer_offset_
  writer_le : b.writer_offset_ ≤ b.buffer_.length

/-- The bytes between the two positions. -/
def readable (b : Buffer) : List UInt8 := (b.buffer_.drop b.reader_offset_).take b.readableSize

/-- The buffer has `bytes` between its positions, and `ahead` behind the position to write
to. -/
def Holds (b : Buffer) (bytes ahead : List UInt8) : Prop :=
  ∃ front rest, b.buffer_ = front ++ (bytes ++ (ahead ++ rest)) ∧
    b.reader_offset_ = front.length ∧ b.writer_offset_ = front.length + bytes.length

variable {b : Buffer} {bytes ahead : List UInt8}

/-- What a buffer holds are the readable bytes. -/
theorem holds_nil_iff : b.Holds bytes [] ↔ b.Ordered ∧ b.readable = bytes := by
  constructor
  · rintro ⟨front, rest, hbuffer, hreader, hwriter⟩
    rw [List.nil_append] at hbuffer
    refine ⟨⟨?_, ?_⟩, ?_⟩
    · omega
    · rw [hbuffer, hwriter, List.length_append, List.length_append]
      omega
    · rw [readable, readableSize, hwriter, hreader, Nat.add_sub_cancel_left, hbuffer,
        List.drop_left, List.take_left]
  · rintro ⟨⟨hle, hinside⟩, rfl⟩
    refine ⟨b.buffer_.take b.reader_offset_,
      (b.buffer_.drop b.reader_offset_).drop b.readableSize, ?_, ?_, ?_⟩
    · rw [List.nil_append, readable, List.take_append_drop, List.take_append_drop]
    · rw [List.length_take]
      omega
    · rw [readable, readableSize, List.length_take, List.length_take, List.length_drop]
      omega

theorem holds_new : new.Holds [] [] := ⟨[], List.replicate 1024 0, rfl, rfl, rfl⟩

namespace Holds

theorem readableSize_eq (h : b.Holds bytes ahead) : b.readableSize = bytes.length := by
  obtain ⟨front, rest, -, hreader, hwriter⟩ := h
  rw [readableSize, hwriter, hreader, Nat.add_sub_cancel_left]

theorem length_le_tail (h : b.Holds bytes ahead) : ahead.length ≤ b.tailWritableSize := by
  obtain ⟨front, rest, hbuffer, -, hwriter⟩ := h
  rw [tailWritableSize, hbuffer, hwriter]
  simp only [List.length_append]
  omega

/-- Only what is between the positions matters. -/
theorem forget (h : b.Holds bytes ahead) : b.Holds bytes [] := by
  obtain ⟨front, rest, hbuffer, hpositions⟩ := h
  exact ⟨front, ahead ++ rest, hbuffer, hpositions⟩

theorem clear (h : b.Holds bytes ahead) : b.clear.Holds [] [] := by
  obtain ⟨front, rest, -, -, -⟩ := h
  exact ⟨[], b.buffer_, rfl, rfl, rfl⟩

/-! ### Moving the positions -/

theorem moveWriterOffset (h : b.Holds bytes ahead) :
    ∃ b', b.moveWriterOffset ahead.length = some b' ∧ b'.Holds (bytes ++ ahead) [] := by
  rw [Buffer.moveWriterOffset]
  split_ifs with hzero hroom
  · rw [List.length_eq_zero_iff.mp hzero, List.append_nil]
    exact ⟨b, rfl, h.forget⟩
  · obtain ⟨front, rest, hbuffer, hreader, hwriter⟩ := h
    refine ⟨_, rfl, front, rest, ?_, hreader, ?_⟩
    · rw [hbuffer, List.append_assoc, List.nil_append]
    · show b.writer_offset_ + ahead.length = _
      rw [hwriter, List.length_append, Nat.add_assoc]
  · exact absurd h.length_le_tail hroom

theorem moveReaderOffset {cells : List UInt8} (h : b.Holds (cells ++ bytes) []) :
    ∃ b', b.moveReaderOffset cells.length = some b' ∧ b'.Holds bytes [] := by
  rw [Buffer.moveReaderOffset]
  split_ifs with hzero hinside
  · rw [List.length_eq_zero_iff.mp hzero] at h
    exact ⟨b, rfl, h⟩
  · obtain ⟨front, rest, hbuffer, hreader, hwriter⟩ := h
    refine ⟨_, rfl, front ++ cells, rest, ?_, ?_, ?_⟩
    · rw [hbuffer, List.append_assoc, List.append_assoc]
    · show b.reader_offset_ + cells.length = _
      rw [hreader, List.length_append]
    · rw [hwriter, List.length_append, List.length_append, Nat.add_assoc]
  · rw [h.readableSize_eq, List.length_append] at hinside
    exact absurd (Nat.le_add_right _ _) hinside

/-! ### Writing -/

/-- **Room is found** without a change of the readable bytes. -/
theorem ensureWritableSpaceEnough (h : b.Holds bytes []) (len : ℕ) :
    ∃ b', b.ensureWritableSpaceEnough len = some b' ∧ b'.Holds bytes [] ∧
      len ≤ b'.tailWritableSize := by
  rw [Buffer.ensureWritableSpaceEnough]
  split_ifs with hzero htail hslide
  · exact ⟨b, rfl, h, by omega⟩
  · exact ⟨b, rfl, h, htail⟩
  · have hsize := h.readableSize_eq
    obtain ⟨front, rest, hbuffer, hreader, hwriter⟩ := h
    rw [List.nil_append] at hbuffer
    obtain ⟨left, hleft, hmoved⟩ := @moveRange_zero _ front bytes rest
    refine ⟨⟨bytes ++ left, 0, bytes.length⟩, ?_, ⟨[], left, rfl, rfl, (Nat.zero_add _).symm⟩, ?_⟩
    · rw [hsize, hbuffer, hreader]
      dsimp only
      rw [hmoved, Option.map_some]
    · rw [headWritableSize, tailWritableSize, hbuffer, hreader, hwriter] at hslide
      rw [tailWritableSize]
      simp only [List.length_append] at hslide ⊢
      omega
  · rw [headWritableSize, tailWritableSize] at hslide
    have hgrows : b.buffer_.length ≤ b.writer_offset_ + len := by omega
    refine ⟨_, rfl, ?_, ?_⟩
    · obtain ⟨front, rest, hbuffer, hpositions⟩ := h
      refine ⟨front, rest ++ List.replicate (b.writer_offset_ + len - b.buffer_.length) 0, ?_,
        hpositions⟩
      rw [resize_of_le hgrows]
      nth_rewrite 1 [hbuffer]
      simp only [List.append_assoc, List.nil_append]
    · rw [tailWritableSize, resize_of_le hgrows, List.length_append, List.length_replicate]
      dsimp only
      omega

/-- The data stands behind the position to write to. -/
theorem write (h : b.Holds bytes []) (data : List UInt8) :
    ∃ b', b.write data = some b' ∧ b'.Holds bytes data := by
  rw [Buffer.write]
  split_ifs with hzero
  · rw [List.length_eq_zero_iff.mp hzero]
    exact ⟨b, rfl, h⟩
  · obtain ⟨b₁, hb₁, ⟨front, rest, hbuffer, hreader, hwriter⟩, hroom⟩ :=
      h.ensureWritableSpaceEnough data.length
    rw [List.nil_append] at hbuffer
    rw [tailWritableSize, hbuffer, hwriter] at hroom
    simp only [List.length_append] at hroom
    have htake : (rest.take data.length).length = data.length := by
      rw [List.length_take]
      omega
    have hwritten : writeRange b₁.buffer_ b₁.writer_offset_ data
        = some ((front ++ bytes) ++ (data ++ rest.drop data.length)) := by
      rw [← writeRange_append htake, List.take_append_drop, hbuffer, hwriter, List.append_assoc,
        List.length_append]
    rw [hb₁, Option.bind_some, hwritten, Option.map_some]
    exact ⟨_, rfl, front, rest.drop data.length, List.append_assoc _ _ _, hreader, hwriter⟩

/-- **The data is appended** to the readable bytes. -/
theorem writeAndPushOffSet (h : b.Holds bytes []) (data : List UInt8) :
    ∃ b', b.writeAndPushOffSet data = some b' ∧ b'.Holds (bytes ++ data) [] := by
  rw [Buffer.writeAndPushOffSet]
  split_ifs with hzero
  · rw [List.length_eq_zero_iff.mp hzero, List.append_nil]
    exact ⟨b, rfl, h⟩
  · obtain ⟨b₁, hb₁, hwritten⟩ := h.write data
    rw [hb₁, Option.bind_some]
    exact hwritten.moveWriterOffset

theorem writeStringAndPushOffSet (h : b.Holds bytes []) (str : List UInt8) :
    ∃ b', b.writeStringAndPushOffSet str = some b' ∧ b'.Holds (bytes ++ str) [] := by
  have heq : b.writeStringAndPushOffSet str = b.writeAndPushOffSet str := by
    rw [Buffer.writeStringAndPushOffSet, Buffer.writeAndPushOffSet, writeString]
    split_ifs
    · rfl
    · rfl
  rw [heq]
  exact h.writeAndPushOffSet str

/-- The readable bytes of a buffer. -/
theorem readRange_eq (h : b.Holds bytes []) :
    readRange b.buffer_ b.reader_offset_ b.readableSize = some bytes := by
  have hsize := h.readableSize_eq
  obtain ⟨front, rest, hbuffer, hreader, -⟩ := h
  rw [hsize, hbuffer, hreader, List.nil_append, readRange_append]

theorem writeBufferAndPushOffSet (h : b.Holds bytes []) {buf : Buffer} {more : List UInt8}
    (hbuf : buf.Holds more []) :
    ∃ b', b.writeBufferAndPushOffSet buf = some b' ∧ b'.Holds (bytes ++ more) [] := by
  have heq : b.writeBufferAndPushOffSet buf = b.writeAndPushOffSet more := by
    rw [Buffer.writeBufferAndPushOffSet, Buffer.writeAndPushOffSet, writeBuffer, hbuf.readRange_eq,
      hbuf.readableSize_eq]
    split_ifs
    · rfl
    · rfl
  rw [heq]
  exact h.writeAndPushOffSet more

/-! ### Reading -/

variable {cells : List UInt8}

theorem read (h : b.Holds (cells ++ bytes) []) : b.read cells.length = some cells := by
  have hsize := h.readableSize_eq
  obtain ⟨front, rest, hbuffer, hreader, -⟩ := h
  rw [List.append_assoc] at hbuffer
  rw [Buffer.read]
  split_ifs with hzero hinside
  · rw [List.length_eq_zero_iff.mp hzero]
  · rw [hbuffer, hreader, readRange_append]
  · rw [hsize, List.length_append] at hinside
    exact absurd (Nat.le_add_right _ _) hinside

/-- **The first bytes are read** and taken away. -/
theorem readAndPushOffSet (h : b.Holds (cells ++ bytes) []) :
    ∃ b', b.readAndPushOffSet cells.length = some (cells, b') ∧ b'.Holds bytes [] := by
  rw [Buffer.readAndPushOffSet]
  split_ifs with hzero
  · rw [List.length_eq_zero_iff.mp hzero] at h ⊢
    exact ⟨b, rfl, h⟩
  · obtain ⟨b', hb', hholds⟩ := h.moveReaderOffset
    rw [h.read, Option.bind_some, hb', Option.map_some]
    exact ⟨b', rfl, hholds⟩

theorem readAsString (h : b.Holds (cells ++ bytes) []) :
    b.readAsString cells.length = some cells := by
  have hinside : cells.length ≤ b.readableSize := by
    rw [h.readableSize_eq, List.length_append]
    omega
  rw [Buffer.readAsString]
  split_ifs with hzero
  · rw [List.length_eq_zero_iff.mp hzero]
  · exact h.read

theorem readAsStringAndPushOffSet (h : b.Holds (cells ++ bytes) []) :
    ∃ b', b.readAsStringAndPushOffSet cells.length = some (cells, b') ∧ b'.Holds bytes [] := by
  have hinside : cells.length ≤ b.readableSize := by
    rw [h.readableSize_eq, List.length_append]
    omega
  rw [Buffer.readAsStringAndPushOffSet]
  split_ifs with hzero
  · rw [List.length_eq_zero_iff.mp hzero] at h ⊢
    exact ⟨b, rfl, h⟩
  · obtain ⟨b', hb', hholds⟩ := h.moveReaderOffset
    rw [h.readAsString, Option.bind_some, hb', Option.map_some]
    exact ⟨b', rfl, hholds⟩

end Holds

/-! ## Lines -/

/-- The bytes up to the first end of a line, if there is one. -/
def firstLine (bytes : List UInt8) : List UInt8 :=
  match Framing.cutAt newline bytes with
  | .message line _ => line ++ [newline]
  | _ => []

theorem firstLine_line {line : List UInt8} (h : newline ∉ line) (rest : List UInt8) :
    firstLine (line ++ newline :: rest) = line ++ [newline] := by
  rw [firstLine, Framing.cutAt_piece h]

theorem firstLine_of_notMem (h : newline ∉ bytes) : firstLine bytes = [] := by
  rw [firstLine, Framing.cutAt_of_notMem h]

/-- A line stands at the front. -/
theorem firstLine_append_drop (bytes : List UInt8) :
    firstLine bytes ++ bytes.drop (firstLine bytes).length = bytes := by
  by_cases hmem : newline ∈ bytes
  · obtain ⟨line, rest, rfl, hline⟩ := List.eq_append_cons_of_mem hmem
    have hcons : line ++ newline :: rest = line ++ [newline] ++ rest := List.append_cons _ _ _
    rw [firstLine_line hline, hcons, List.drop_left]
  · rw [firstLine_of_notMem hmem, List.length_nil, List.drop_zero, List.nil_append]

theorem length_firstLine_le (bytes : List UInt8) : (firstLine bytes).length ≤ bytes.length := by
  have hlength := congrArg List.length (firstLine_append_drop bytes)
  rw [List.length_append] at hlength
  omega

theorem take_length_firstLine (bytes : List UInt8) :
    bytes.take (firstLine bytes).length = firstLine bytes := by
  have htake : (firstLine bytes ++ bytes.drop (firstLine bytes).length).take
      (firstLine bytes).length = firstLine bytes := List.take_left
  rwa [firstLine_append_drop] at htake

/-- The lines of a stream, each with its end. -/
def lines (stream : List UInt8) : List (List UInt8) :=
  (Framing.pieces newline stream).1.map (· ++ [newline])

/-- What follows the last line. -/
def unterminated (stream : List UInt8) : List UInt8 := (Framing.pieces newline stream).2

/-- The lines of a stream are its first line and those of the rest. -/
theorem lines_append (s t : List UInt8) :
    lines (s ++ t) = [firstLine s].filter (· ≠ [])
      ++ lines (s.drop (firstLine s).length ++ t) ∧
    unterminated (s ++ t) = unterminated (s.drop (firstLine s).length ++ t) := by
  by_cases hmem : newline ∈ s
  · obtain ⟨line, rest, rfl, hline⟩ := List.eq_append_cons_of_mem hmem
    have hcons : line ++ newline :: rest = line ++ [newline] ++ rest := List.append_cons _ _ _
    rw [firstLine_line hline, hcons, List.drop_left, ← hcons, List.append_assoc, List.cons_append,
      lines, unterminated, Framing.pieces_piece hline]
    simp [lines, unterminated]
  · rw [firstLine_of_notMem hmem]
    simp

/-- Without a first line there are no lines. -/
theorem length_lines_drop (s : List UInt8) :
    (lines (s.drop (firstLine s).length)).length ≤ (lines s).length - 1 := by
  by_cases hmem : newline ∈ s
  · obtain ⟨line, rest, rfl, hline⟩ := List.eq_append_cons_of_mem hmem
    have hcons : line ++ newline :: rest = line ++ [newline] ++ rest := List.append_cons _ _ _
    rw [firstLine_line hline, hcons, List.drop_left, ← hcons, lines, lines,
      Framing.pieces_piece hline]
    simp
  · rw [firstLine_of_notMem hmem, List.length_nil, List.drop_zero, lines,
      Framing.pieces_of_notMem hmem]
    simp

/-- Where there are no lines, everything follows the last one. -/
theorem unterminated_of_lines {s : List UInt8} (h : lines s = []) : unterminated s = s := by
  by_cases hmem : newline ∈ s
  · obtain ⟨line, rest, rfl, hline⟩ := List.eq_append_cons_of_mem hmem
    rw [lines, Framing.pieces_piece hline] at h
    exact absurd h (List.cons_ne_nil _ _)
  · rw [unterminated, Framing.pieces_of_notMem hmem]

/-- A stream is its lines and what follows them, and no line has another inside. -/
theorem lines_flatten (s : List UInt8) : (lines s).flatten ++ unterminated s = s ∧
    (∀ line ∈ lines s, ∃ text, newline ∉ text ∧ line = text ++ [newline]) ∧
    newline ∉ unterminated s := by
  obtain ⟨hpieces, htail⟩ : (∀ line ∈ (Framing.pieces newline s).1, newline ∉ line) ∧
      newline ∉ (Framing.pieces newline s).2 := Framing.notMem_of_pieces s
  refine ⟨?_, ?_, htail⟩
  · obtain ⟨rest, hrest⟩ :=
      Framing.exists_of_pieces (List.append_nil (Framing.pieces newline s).1).symm
    have hcut := Framing.pieces_flatMap_append hpieces rest
    rw [← hrest] at hcut
    have hnone : lines rest = [] := by
      have hfirst : (Framing.pieces newline s).1 ++ (Framing.pieces newline rest).1
          = (Framing.pieces newline s).1 := (congrArg Prod.fst hcut).symm
      rw [lines, List.append_right_eq_self.mp hfirst]
      rfl
    have hend : unterminated s = rest :=
      (congrArg Prod.snd hcut).trans (unterminated_of_lines hnone)
    rw [hend, lines, ← List.flatMap_def]
    exact hrest.symm
  · intro line hline
    obtain ⟨text, htext, rfl⟩ := List.mem_map.mp hline
    exact ⟨text, hpieces text htext, rfl⟩

namespace Holds

theorem getLine (h : b.Holds bytes []) : b.getLine = some (firstLine bytes) := by
  rw [Buffer.getLine, h.readRange_eq, Option.bind_some]
  dsimp only
  by_cases hmem : newline ∈ bytes
  · obtain ⟨line, rest, rfl, hline⟩ := List.eq_append_cons_of_mem hmem
    have hlength : line.length < (line ++ newline :: rest).length := by
      rw [List.length_append, List.length_cons]
      omega
    have hpos : line.length + 1 = (line ++ [newline]).length := by
      rw [List.length_append, List.length_singleton]
    rw [List.append_cons] at h
    rw [(Framing.takeWhile_piece hline rest).1, if_pos hlength, hpos, h.readAsString,
      firstLine_line hline]
  · rw [(Framing.takeWhile_of_notMem hmem).1, if_neg (lt_irrefl _), firstLine_of_notMem hmem]

/-- **A line is read** and taken away; without a whole line nothing is. -/
theorem getLineAndPushOffSet (h : b.Holds bytes []) :
    ∃ b', b.getLineAndPushOffSet = some (firstLine bytes, b') ∧
      b'.Holds (bytes.drop (firstLine bytes).length) [] := by
  have hsplit := h
  rw [← firstLine_append_drop bytes] at hsplit
  obtain ⟨b', hb', hholds⟩ := hsplit.moveReaderOffset
  rw [Buffer.getLineAndPushOffSet, h.getLine, Option.bind_some, hb', Option.map_some]
  exact ⟨b', rfl, hholds⟩

end Holds

/-! ## Sequences of calls -/

/-- A call of a function of one of the buffers. -/
inductive Call (β : Type*)
  | write (i : β) (data : List UInt8)
  | writeString (i : β) (str : List UInt8)
  | writeBuffer (i buf : β)
  | read (i : β) (len : ℕ)
  | readAsString (i : β) (len : ℕ)
  | getLine (i : β)
  | clear (i : β)

variable {β : Type*} [DecidableEq β]

/-- What a call returns, and the buffers after it. -/
def call (s : β → Buffer) : Call β → Option (List UInt8 × (β → Buffer))
  | .write i data =>
      ((s i).writeAndPushOffSet data).map fun b => ([], Function.update s i b)
  | .writeString i str =>
      ((s i).writeStringAndPushOffSet str).map fun b => ([], Function.update s i b)
  | .writeBuffer i buf =>
      ((s i).writeBufferAndPushOffSet (s buf)).map fun b => ([], Function.update s i b)
  | .read i len =>
      ((s i).readAndPushOffSet len).map fun r => (r.1, Function.update s i r.2)
  | .readAsString i len =>
      ((s i).readAsStringAndPushOffSet len).map fun r => (r.1, Function.update s i r.2)
  | .getLine i => (s i).getLineAndPushOffSet.map fun r => (r.1, Function.update s i r.2)
  | .clear i => some ([], Function.update s i (s i).clear)

/-- What the calls of a sequence return, and the buffers after them. -/
def run (s : β → Buffer) : List (Call β) → Option (List (List UInt8) × (β → Buffer))
  | [] => some ([], s)
  | c :: calls => (call s c).bind fun r => (run r.2 calls).map fun r' => (r.1 :: r'.1, r'.2)

/-- No more is read than there is, and a buffer is not written to itself. -/
def Fits (s : β → Buffer) : Call β → Prop
  | .writeBuffer i buf => i ≠ buf
  | .read i len | .readAsString i len => len ≤ (s i).readableSize
  | _ => True

instance (s : β → Buffer) (c : Call β) : Decidable (Fits s c) := by
  cases c <;> unfold Fits <;> infer_instance

/-- All calls of a sequence are such. -/
def Sized (s : β → Buffer) : List (Call β) → Prop
  | [] => True
  | c :: calls => Fits s c ∧ ∀ r ∈ call s c, Sized r.2 calls

instance decidableSized : (calls : List (Call β)) → (s : β → Buffer) → Decidable (Sized s calls)
  | [], _ => isTrue trivial
  | c :: calls, s =>
      have := fun s => decidableSized calls s
      inferInstanceAs (Decidable (Fits s c ∧ ∀ r ∈ call s c, Sized r.2 calls))

/-! ## What the buffers are for -/

/-- What was written to a buffer since it was cleared, and how much of it was read. -/
structure History where
  written : List UInt8
  consumed : ℕ

namespace History

/-- What was written and not read. -/
def pending (q : History) : List UInt8 := q.written.drop q.consumed

/-- More is written. -/
def write (q : History) (data : List UInt8) : History := { q with written := q.written ++ data }

/-- The first bytes are read. -/
def read (q : History) (len : ℕ) : List UInt8 × History :=
  (q.pending.take len, { q with consumed := q.consumed + len })

/-- What a call should return, and the histories after it. -/
def call (s : β → History) : Call β → List UInt8 × (β → History)
  | .write i data | .writeString i data => ([], Function.update s i ((s i).write data))
  | .writeBuffer i buf => ([], Function.update s i ((s i).write (s buf).pending))
  | .read i len | .readAsString i len =>
      (((s i).read len).1, Function.update s i ((s i).read len).2)
  | .getLine i =>
      let line := firstLine (s i).pending
      (line, Function.update s i ((s i).read line.length).2)
  | .clear i => ([], Function.update s i ⟨[], 0⟩)

/-- What the calls of a sequence should return, and the histories after them. -/
def run (s : β → History) : List (Call β) → List (List UInt8) × (β → History)
  | [] => ([], s)
  | c :: calls =>
      let r := run (call s c).2 calls
      ((call s c).1 :: r.1, r.2)

/-- Nothing was written. -/
def start : β → History := fun _ => ⟨[], 0⟩

/-- No more was read than was written. -/
def Read (q : History) : Prop := q.consumed ≤ q.written.length

theorem pending_write {q : History} (h : q.Read) (data : List UInt8) :
    (q.write data).pending = q.pending ++ data :=
  List.drop_append_of_le_length h

theorem read_write {q : History} (h : q.Read) (data : List UInt8) : (q.write data).Read := by
  show q.consumed ≤ (q.written ++ data).length
  rw [List.length_append]
  exact Nat.le_add_right_of_le h

theorem pending_read (q : History) (len : ℕ) : (q.read len).2.pending = q.pending.drop len := by
  show q.written.drop (q.consumed + len) = _
  rw [pending, List.drop_drop]

theorem read_read {q : History} {len : ℕ} (hq : q.Read) (h : len ≤ q.pending.length) :
    (q.read len).2.Read := by
  rw [pending, List.length_drop] at h
  show q.consumed + len ≤ q.written.length
  unfold Read at hq
  omega

end History

/-- The buffers have the bytes that were written and not read. -/
def Represents (s : β → Buffer) (q : β → History) : Prop :=
  ∀ i, (s i).Holds (q i).pending [] ∧ (q i).Read

omit [DecidableEq β] in
theorem represents_new : Represents (fun _ : β => new) History.start :=
  fun _ => ⟨holds_new, le_rfl⟩

namespace Represents

variable {s : β → Buffer} {q : β → History}

/-- One buffer changes. -/
theorem update (h : Represents s q) {i : β} {b : Buffer} {history : History}
    (hholds : b.Holds history.pending []) (hread : history.Read) :
    Represents (Function.update s i b) (Function.update q i history) := by
  intro j
  by_cases hj : j = i
  · subst hj
    rw [Function.update_self, Function.update_self]
    exact ⟨hholds, hread⟩
  · rw [Function.update_of_ne hj, Function.update_of_ne hj]
    exact h j

omit [DecidableEq β] in
theorem length_pending (h : Represents s q) (i : β) :
    (s i).readableSize = (q i).pending.length := (h i).1.readableSize_eq

omit [DecidableEq β] in
/-- The first of the pending bytes. -/
theorem split (h : Represents s q) {i : β} {len : ℕ} (hlen : len ≤ (s i).readableSize) :
    (s i).Holds ((q i).pending.take len ++ (q i).pending.drop len) [] ∧
      ((q i).pending.take len).length = len := by
  rw [List.take_append_drop]
  refine ⟨(h i).1, List.length_take_of_le ?_⟩
  rwa [← h.length_pending i]

/-- Data was appended to one buffer. -/
theorem appended (h : Represents s q) {i : β} {data : List UInt8} {op : Option Buffer}
    (hop : ∃ b, op = some b ∧ b.Holds ((q i).pending ++ data) []) :
    ∃ s', (op.map fun b => (([] : List UInt8), Function.update s i b)) = some ([], s') ∧
      Represents s' (Function.update q i ((q i).write data)) := by
  obtain ⟨b, rfl, hholds⟩ := hop
  rw [← History.pending_write (h i).2] at hholds
  exact ⟨_, rfl, h.update hholds (History.read_write (h i).2 data)⟩

/-- The first bytes of one buffer were read. -/
theorem consumed (h : Represents s q) {i : β} {len : ℕ} {op : Option (List UInt8 × Buffer)}
    (hlen : len ≤ (q i).pending.length)
    (hop : ∃ b, op = some ((q i).pending.take len, b) ∧ b.Holds ((q i).pending.drop len) []) :
    ∃ s', (op.map fun r => (r.1, Function.update s i r.2)) = some (((q i).read len).1, s') ∧
      Represents s' (Function.update q i ((q i).read len).2) := by
  obtain ⟨b, rfl, hholds⟩ := hop
  rw [← History.pending_read] at hholds
  exact ⟨_, rfl, h.update hholds (History.read_read (h i).2 hlen)⟩

/-- **One call** returns what it should, and no assertion fails. -/
theorem call (h : Represents s q) {c : Call β} (hfits : Fits s c) :
    ∃ s', Buffer.call s c = some ((History.call q c).1, s') ∧
      Represents s' (History.call q c).2 := by
  cases c with
  | write i data => exact h.appended ((h i).1.writeAndPushOffSet data)
  | writeString i str => exact h.appended ((h i).1.writeStringAndPushOffSet str)
  | writeBuffer i buf => exact h.appended ((h i).1.writeBufferAndPushOffSet (h buf).1)
  | read i len =>
    have hlen : len ≤ (s i).readableSize := hfits
    obtain ⟨hholds, htake⟩ := h.split hlen
    have hread := hholds.readAndPushOffSet
    rw [htake] at hread
    exact h.consumed (hlen.trans_eq (h.length_pending i)) hread
  | readAsString i len =>
    have hlen : len ≤ (s i).readableSize := hfits
    obtain ⟨hholds, htake⟩ := h.split hlen
    have hread := hholds.readAsStringAndPushOffSet
    rw [htake] at hread
    exact h.consumed (hlen.trans_eq (h.length_pending i)) hread
  | getLine i =>
    have hline := take_length_firstLine (q i).pending
    have hread := (h i).1.getLineAndPushOffSet
    nth_rewrite 1 [← hline] at hread
    obtain ⟨s', hs', hafter⟩ := h.consumed (length_firstLine_le _) hread
    rw [History.read, hline] at hs'
    exact ⟨s', hs', hafter⟩
  | clear i => exact ⟨_, rfl, h.update (h i).1.clear le_rfl⟩

/-- **A sequence of calls.** -/
theorem run {calls : List (Call β)} (h : Represents s q) (hsized : Sized s calls) :
    ∃ s', Buffer.run s calls = some ((History.run q calls).1, s') ∧
      Represents s' (History.run q calls).2 := by
  induction calls generalizing s q with
  | nil => exact ⟨s, rfl, h⟩
  | cons c calls ih =>
    obtain ⟨s₁, hs₁, hafter⟩ := h.call hsized.1
    obtain ⟨s₂, hs₂, hend⟩ := ih hafter (hsized.2 _ hs₁)
    refine ⟨s₂, ?_, hend⟩
    rw [Buffer.run, hs₁, Option.bind_some, hs₂, Option.map_some]
    rfl

end Represents

/-! ## A stream that arrives in chunks -/

/-- A chunk is written, or a line is asked for. -/
def lineCall (i : β) : Option (List UInt8) → Call β
  | some chunk => .write i chunk
  | none => .getLine i

/-- The chunks that are written. -/
def chunks (events : List (Option (List UInt8))) : List UInt8 := (events.filterMap id).flatten

/-- Such calls fit always. -/
theorem sized_of_fits {calls : List (Call β)} (h : ∀ c ∈ calls, ∀ s, Fits s c)
    (s : β → Buffer) : Sized s calls := by
  induction calls generalizing s with
  | nil => exact trivial
  | cons c calls ih =>
    obtain ⟨hfirst, hrest⟩ := List.forall_mem_cons.mp h
    exact ⟨hfirst s, fun r _ => ih hrest r.2⟩

theorem sized_lineCalls (i : β) (events : List (Option (List UInt8))) (n : ℕ) (s : β → Buffer) :
    Sized s (events.map (lineCall i) ++ List.replicate n (.getLine i)) := by
  apply sized_of_fits
  intro c hc s
  rcases List.mem_append.mp hc with hc | hc
  · obtain ⟨event, -, rfl⟩ := List.mem_map.mp hc
    cases event with
    | none => exact trivial
    | some chunk => exact trivial
  · rw [List.eq_of_mem_replicate hc]
    exact trivial

namespace History

variable {q : β → History}

theorem call_write (i : β) (data : List UInt8) :
    (call q (.write i data)).2 i = (q i).write data := Function.update_self ..

theorem call_getLine (i : β) :
    (call q (.getLine i)).2 i = ((q i).read (firstLine (q i).pending).length).2 :=
  Function.update_self ..

/-- The line that is read and the pending bytes after it. -/
theorem lines_getLine (i : β) (t : List UInt8) :
    lines ((q i).pending ++ t) = [(call q (.getLine i)).1].filter (· ≠ [])
      ++ lines (((call q (.getLine i)).2 i).pending ++ t) ∧
    unterminated ((q i).pending ++ t)
      = unterminated (((call q (.getLine i)).2 i).pending ++ t) := by
  rw [call_getLine, pending_read]
  exact lines_append (q i).pending t

/-- Lines that are asked for as often as there are lines. -/
theorem run_getLines (i : β) {n : ℕ} (h : (lines (q i).pending).length ≤ n) :
    (run q (List.replicate n (.getLine i))).1.filter (· ≠ []) = lines (q i).pending ∧
      ((run q (List.replicate n (.getLine i))).2 i).pending = unterminated (q i).pending := by
  induction n generalizing q with
  | zero =>
    have hnone : lines (q i).pending = [] := List.length_eq_zero_iff.mp (Nat.le_zero.mp h)
    rw [hnone, unterminated_of_lines hnone]
    exact ⟨rfl, rfl⟩
  | succ n ih =>
    have hshort := length_lines_drop (q i).pending
    rw [← pending_read, ← call_getLine] at hshort
    obtain ⟨hlines, htail⟩ := lines_getLine (q := q) i []
    rw [List.append_nil, List.append_nil] at hlines htail
    obtain ⟨hrest, hend⟩ := ih (q := (call q (.getLine i)).2) (by omega)
    rw [List.replicate_succ, run]
    refine ⟨?_, hend.trans htail.symm⟩
    rw [hlines, ← hrest, ← List.filter_append]
    rfl

/-- **Chunks and lines in any order**, then lines that are asked for often enough. -/
theorem run_lineCalls (i : β) (events : List (Option (List UInt8))) {n : ℕ} (hread : (q i).Read)
    (h : (lines ((q i).pending ++ chunks events)).length ≤ n) :
    (run q (events.map (lineCall i) ++ List.replicate n (.getLine i))).1.filter (· ≠ [])
        = lines ((q i).pending ++ chunks events) ∧
      ((run q (events.map (lineCall i) ++ List.replicate n (.getLine i))).2 i).pending
        = unterminated ((q i).pending ++ chunks events) := by
  induction events generalizing q with
  | nil =>
    have hnil : (q i).pending ++ chunks [] = (q i).pending := List.append_nil _
    rw [hnil] at h ⊢
    exact run_getLines i h
  | cons event events ih =>
    rw [List.map_cons, List.cons_append, run]
    cases event with
    | none =>
      have hchunks : chunks (none :: events) = chunks events := rfl
      have hafter : ((call q (.getLine i)).2 i).Read := by
        rw [call_getLine]
        exact read_read hread (length_firstLine_le _)
      obtain ⟨hlines, htail⟩ := lines_getLine (q := q) i (chunks events)
      rw [hchunks, hlines, List.length_append] at h
      obtain ⟨hrest, hend⟩ := ih hafter (by omega)
      rw [hchunks]
      refine ⟨?_, hend.trans htail.symm⟩
      rw [hlines, ← hrest, ← List.filter_append]
      rfl
    | some chunk =>
      have hchunks : chunks (some chunk :: events) = chunk ++ chunks events := rfl
      have hafter : ((call q (.write i chunk)).2 i).Read := by
        rw [call_write]
        exact read_write hread chunk
      rw [hchunks, ← List.append_assoc, ← pending_write hread, ← call_write] at h ⊢
      exact ih hafter h

end History

/-- **The buffers are queues of bytes.**  After any calls no assertion has failed and no copy
went outside, the positions are in order, each buffer has what was written since it was cleared
and not read, and the calls returned it in order.  From there on chunks may be written and lines
asked for in any order: with enough of the latter the lines of the stream have come out. -/
theorem run_refines {calls : List (Call β)} (h : Sized (fun _ => new) calls) :
    ∃ s, run (fun _ => new) calls = some ((History.run History.start calls).1, s) ∧
      (∀ i, (s i).Ordered ∧ (s i).readable = ((History.run History.start calls).2 i).pending) ∧
      ∀ i events n, (lines ((s i).readable ++ chunks events)).length ≤ n →
        ∃ outs s', run s (events.map (lineCall i) ++ List.replicate n (.getLine i))
            = some (outs, s') ∧
          outs.filter (· ≠ []) = lines ((s i).readable ++ chunks events) ∧
          (s' i).readable = unterminated ((s i).readable ++ chunks events) := by
  obtain ⟨s, hs, hafter⟩ := represents_new.run h
  have hheld : ∀ i, (s i).Ordered ∧
      (s i).readable = ((History.run History.start calls).2 i).pending :=
    fun i => holds_nil_iff.mp (hafter i).1
  refine ⟨s, hs, hheld, ?_⟩
  intro i events n hn
  rw [(hheld i).2] at hn ⊢
  obtain ⟨hlines, htail⟩ := History.run_lineCalls i events (hafter i).2 hn
  obtain ⟨s', hs', hend⟩ := hafter.run (sized_lineCalls i events n s)
  exact ⟨_, s', hs', hlines, (holds_nil_iff.mp (hend i).1).2.trans htail⟩

/-- Room is found in each of the three ways. -/
def mixedCalls : List (Call Bool) :=
  [.write true (List.replicate 1000 65), .read true 990, .writeString true (List.replicate 900 66),
    .write true [10, 67], .write true (List.replicate 200 68), .writeBuffer false true,
    .getLine false, .readAsString false 7, .clear true, .writeString true [69, 10], .getLine true]

theorem run_refines_mixedCalls :
    ∃ s, run (fun _ => new) mixedCalls = some ((History.run History.start mixedCalls).1, s) ∧
      (∀ i, (s i).Ordered ∧
        (s i).readable = ((History.run History.start mixedCalls).2 i).pending) ∧
      ∀ i events n, (lines ((s i).readable ++ chunks events)).length ≤ n →
        ∃ outs s', run s (events.map (lineCall i) ++ List.replicate n (.getLine i))
            = some (outs, s') ∧
          outs.filter (· ≠ []) = lines ((s i).readable ++ chunks events) ∧
          (s' i).readable = unterminated ((s i).readable ++ chunks events) :=
  run_refines (by decide +kernel)

end Buffer

end Reactor
