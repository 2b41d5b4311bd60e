/-
# The end of a read event

`SubReactor::handleRead` reads a ready descriptor until `read` returns no more data.
Whether it then tears the connection down is decided from the number of bytes it has
read, and not from the result that ended the loop.  The calls it makes of the
application are recorded in order.
-/
import FastServer.SendPath

namespace Muduo

open TransitionSystem

/-! ## What `read` returns -/

/-- `chunkSize` in `handleRead`. -/
def chunkSize : ℕ := 1024 * 8

/-- What a `read` that finds data puts into `buffer`. -/
abbrev Chunk := { bytes : List UInt8 // 0 < bytes.length ∧ bytes.length ≤ chunkSize }

/-- The `errno` of a `read` that fails. -/
inductive Errno
  | EAGAIN
  | EWOULDBLOCK
  | other (code : ℕ)
deriving DecidableEq

/-- The result of the `read` that ends the loop: 0 or -1. -/
inductive LastRead
  | zero
  | failed (errno : Errno)
deriving DecidableEq

namespace LastRead

/-- The value that `n` is left with. -/
def n : LastRead → ℤ
  | .zero => 0
  | .failed _ => -1

/-- The peer has closed its side, or the descriptor has failed. -/
def isFinal : LastRead → Bool
  | .zero => true
  | .failed .EAGAIN => false
  | .failed .EWOULDBLOCK => false
  | .failed (.other _) => true

end LastRead

/-- The results that one `handleRead` gets from `read`. -/
structure Reads where
  chunks : List Chunk
  last : LastRead

/-- A call that `handleRead` makes of the application. -/
inductive Callback
  | onMessage (conn : ℕ) (data : List UInt8)
  | onDisconnected (conn : Option ℕ) (reason : ℕ) (reasonStr : String)
deriving DecidableEq

/-! ## The loop -/

/-- The local variables of `handleRead`, and the calls made so far. -/
structure ReadLoop where
  totalRead : ℤ
  n : ℤ
  calls : List Callback

/-- The loop of `handleRead`, for the connection `o`. -/
def readLoop (o : ℕ) : List Chunk → LastRead → ReadLoop → ReadLoop
  | [], last, s => { s with n := last.n }
  | chunk :: chunks, last, s =>
      readLoop o chunks last
        { totalRead := s.totalRead + chunk.val.length
          n := chunk.val.length
          calls := s.calls ++ [.onMessage o chunk.val] }

/-- The loop adds up the lengths of the chunks. -/
theorem readLoop_totalRead (o : ℕ) (last : LastRead) :
    ∀ (chunks : List Chunk) (s : ReadLoop), (readLoop o chunks last s).totalRead
      = s.totalRead + (chunks.map fun chunk => (chunk.val.length : ℤ)).sum
  | [], s => by simp [readLoop]
  | chunk :: chunks, s => by
      rw [readLoop, readLoop_totalRead o last chunks, List.map_cons, List.sum_cons]
      ring

/-- It passes each chunk on, in order. -/
theorem readLoop_calls (o : ℕ) (last : LastRead) :
    ∀ (chunks : List Chunk) (s : ReadLoop), (readLoop o chunks last s).calls
      = s.calls ++ chunks.map fun chunk => .onMessage o chunk.val
  | [], s => by simp [readLoop]
  | chunk :: chunks, s => by
      rw [readLoop, readLoop_calls o last chunks, List.map_cons, List.append_assoc,
        List.singleton_append]

/-- **The total is positive as soon as there was any data**, whatever ended the loop. -/
theorem readLoop_totalRead_nonpos_iff (o : ℕ) (chunks : List Chunk) (last : LastRead) :
    (readLoop o chunks last ⟨0, 0, []⟩).totalRead ≤ 0 ↔ chunks = [] := by
  rw [readLoop_totalRead, zero_add]
  cases chunks with
  | nil => simp
  | cons chunk chunks =>
    have hchunk : (0 : ℤ) < chunk.val.length := Int.natCast_pos.mpr chunk.property.1
    have hrest : 0 ≤ (chunks.map fun chunk => (chunk.val.length : ℤ)).sum := by
      apply List.sum_nonneg
      intro k hk
      obtain ⟨c, -, rfl⟩ := List.mem_map.mp hk
      exact Int.natCast_nonneg _
    rw [List.map_cons, List.sum_cons]
    constructor
    · intro hle
      omega
    · intro hnil
      exact absurd hnil (List.cons_ne_nil _ _)

/-! ## `handleRead` -/

namespace World

/-- `handleRead`: the state after it and its calls of the application. -/
def handleRead (w : World) (fd : Fd) (reads : Reads) : World × List Callback :=
  match w.connectionMap fd with
  | none => (w, [])
  | some o =>
      let s := readLoop o reads.chunks reads.last ⟨0, 0, []⟩
      if s.totalRead ≤ 0 then
        (w.removeConnection fd,
          s.calls ++ [.onDisconnected (w.connectionMap fd) 1 "what can I say"])
      else (w, s.calls)

variable {capacity : ℕ} {w : World} {fd : Fd} {o : ℕ} {reads : Reads}

/-- Without data the connection is removed. -/
theorem handleRead_of_nil (ho : w.connectionMap fd = some o) (hnil : reads.chunks = []) :
    w.handleRead fd reads
      = (w.removeConnection fd, [.onDisconnected (some o) 1 "what can I say"]) := by
  have htotal := (readLoop_totalRead_nonpos_iff o reads.chunks reads.last).mpr hnil
  unfold handleRead
  rw [ho]
  simp only [if_pos htotal]
  rw [readLoop_calls, hnil]
  rfl

/-- With data it stays. -/
theorem handleRead_of_ne_nil (ho : w.connectionMap fd = some o) (hdata : reads.chunks ≠ []) :
    w.handleRead fd reads
      = (w, reads.chunks.map fun chunk => .onMessage o chunk.val) := by
  have htotal := mt (readLoop_totalRead_nonpos_iff o reads.chunks reads.last).mp hdata
  unfold handleRead
  rw [ho]
  simp only [if_neg htotal]
  rw [readLoop_calls, List.nil_append]

/-- **The two ways out of the `EPOLLIN` branch** in a run of the reactor: without data it
turns to `onDisconnected` and the removal, with data it goes on to the next branch. -/
theorem handleRead_proceed {fdw : FdWrapper} (hsending : w.sending = none)
    (hstage : w.wake.stage = .reading fdw) (hin : EpollFlag.EPOLLIN ∈ fdw.events)
    (ho : w.connectionMap fdw.fd = some o) :
    ∃ wake, (if reads.chunks = [] then w.disconnect.bind proceed else w.proceed)
      = some ((w.handleRead fdw.fd reads).1.setWake wake) := by
  split_ifs with hnil
  · rw [handleRead_of_nil ho hnil]
    refine ⟨{ w.wake with stage := .writing { fdw with events := [] } }, ?_⟩
    unfold disconnect
    simp only [hstage]
    rw [if_pos ⟨hin, by rw [ho]; exact Option.some_ne_none o⟩]
    simp [WakeUp.disconnect, hstage, proceed, setWake, hsending, WakeUp.proceed, removal,
      removeConnection]
  · rw [handleRead_of_ne_nil ho hnil]
    refine ⟨{ w.wake with stage := .writing fdw }, ?_⟩
    simp [proceed, hsending, WakeUp.proceed, hstage, removal, writable, arrival]

/-! ## Who is torn down -/

/-- The application was told that the connection is gone, it is out of `connectionMap_`
and its descriptor is closed. -/
def TornDown (w : World) (fd : Fd) (after : World × List Callback) : Prop :=
  (∃ reason reasonStr,
      Callback.onDisconnected (w.connectionMap fd) reason reasonStr ∈ after.2) ∧
    after.1.connectionMap fd = none ∧ after.1.fdTable fd = none

/-- Nothing changed, and the application was told of data only. -/
def Untouched (w : World) (after : World × List Callback) : Prop :=
  after.1 = w ∧ ∀ conn reason reasonStr, .onDisconnected conn reason reasonStr ∉ after.2

/-- `handleRead` tears the connection down if the last result of `read` is final, and
otherwise leaves it alone. -/
structure EndsByLastRead (w : World) (fd : Fd) (reads : Reads) : Prop where
  tornDown : w.TornDown fd (w.handleRead fd reads) ↔ reads.last.isFinal = true
  untouched : reads.last.isFinal = false → w.Untouched (w.handleRead fd reads)

/-- Exactly the connections without data are torn down. -/
theorem tornDown_handleRead_iff (ho : w.connectionMap fd = some o) :
    w.TornDown fd (w.handleRead fd reads) ↔ reads.chunks = [] := by
  constructor
  · rintro ⟨⟨reason, reasonStr, hcall⟩, -⟩
    by_contra hdata
    rw [handleRead_of_ne_nil ho hdata] at hcall
    obtain ⟨chunk, -, hcall⟩ := List.mem_map.mp hcall
    exact absurd hcall (by simp)
  · intro hnil
    rw [handleRead_of_nil ho hnil]
    refine ⟨⟨1, "what can I say", ?_⟩, Function.update_self _ _ _, Function.update_self _ _ _⟩
    rw [ho]
    exact List.mem_singleton_self _

/-- The others are left alone. -/
theorem untouched_handleRead (ho : w.connectionMap fd = some o) (hdata : reads.chunks ≠ []) :
    w.Untouched (w.handleRead fd reads) := by
  rw [handleRead_of_ne_nil ho hdata]
  refine ⟨rfl, ?_⟩
  intro conn reason reasonStr hcall
  obtain ⟨chunk, -, hcall⟩ := List.mem_map.mp hcall
  exact absurd hcall (by simp)

/-- **`handleRead` is right if and only if** a final result comes without data before it,
and any other result after some. -/
theorem endsByLastRead_iff (ho : w.connectionMap fd = some o) :
    w.EndsByLastRead fd reads ↔ (reads.chunks = [] ↔ reads.last.isFinal = true) := by
  constructor
  · intro h
    rw [← tornDown_handleRead_iff ho]
    exact h.tornDown
  · intro h
    refine ⟨(tornDown_handleRead_iff ho).trans h, ?_⟩
    intro hlast
    apply untouched_handleRead ho
    intro hnil
    rw [h.mp hnil] at hlast
    exact absurd hlast (by simp)

/-- A connection is made on number 5 and reported readable. -/
def readableConnection : List Action :=
  List.flatten [acceptSteps 0 5, pipeSteps 1, [.proceed, .proceed],
    [.epollWait [.connection ⟨5, [.EPOLLIN]⟩], .proceed]]

/-- Data, and then nothing more for now. -/
def dataOnly : Reads := ⟨[⟨[7], by decide⟩], .failed .EAGAIN⟩

/-- A readable connection that has data keeps its place. -/
theorem endsByLastRead_dataOnly :
    ∃ w, (system 65536).Reachable w ∧ w.connectionMap 5 = some 0 ∧
      w.EndsByLastRead 5 dataOnly := by
  have hrun : ∃ w ∈ runFrom (next 65536) (fun _ _ => True) start readableConnection,
      w.connectionMap 5 = some 0 := by decide +kernel
  obtain ⟨w, hreach, ho⟩ := exists_of_runFrom hrun
  exact ⟨w, hreach, ho, (endsByLastRead_iff ho).mpr (by decide)⟩

/-- Data and the end of the stream in one edge. -/
def dataAndEof : Reads := ⟨[⟨[7], by decide⟩], .zero⟩

/-- An edge whose data an earlier call has read. -/
def nothingLeft : Reads := ⟨[], .failed .EAGAIN⟩

/-- **Both ways of going wrong.**  A peer that sends its last data and closes in one edge
is kept, and a live one whose data was read before is torn down. -/
theorem not_endsByLastRead :
    ∃ w, (system 65536).Reachable w ∧ w.wake.stage = .reading ⟨5, [.EPOLLIN]⟩ ∧
      w.connectionMap 5 = some 0 ∧
      ¬ w.EndsByLastRead 5 dataAndEof ∧ ¬ w.TornDown 5 (w.handleRead 5 dataAndEof) ∧
      ¬ w.EndsByLastRead 5 nothingLeft ∧ w.TornDown 5 (w.handleRead 5 nothingLeft) := by
  have hrun : ∃ w ∈ runFrom (next 65536) (fun _ _ => True) start readableConnection,
      w.wake.stage = .reading ⟨5, [.EPOLLIN]⟩ ∧ w.connectionMap 5 = some 0 := by
    decide +kernel
  obtain ⟨w, hreach, hstage, ho⟩ := exists_of_runFrom hrun
  have hkept : ¬ w.TornDown 5 (w.handleRead 5 dataAndEof) := by
    rw [tornDown_handleRead_iff ho]
    decide
  have hgone : w.TornDown 5 (w.handleRead 5 nothingLeft) := by
    rw [tornDown_handleRead_iff ho]
    rfl
  refine ⟨w, hreach, hstage, ho, ?_, hkept, ?_, hgone⟩
  · intro h
    exact hkept (h.tornDown.mpr rfl)
  · intro h
    exact absurd (h.tornDown.mp hgone) (by decide)

end World

end Muduo
