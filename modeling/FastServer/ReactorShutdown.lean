/-
# Stopping a reactor

`start`, `stop` and `join` of a `SubReactor`.  The thread sets `isRunning_` itself before it enters
`loop`, which tests the flag behind every batch of events.  `stop` clears the flag and writes a byte
to the pipe; a byte that a full pipe refuses is not needed, but a `stop` that comes before the
thread has set the flag is forgotten.
-/
import FastServer.Liveness
import FastServer.WakeUp

namespace Muduo

open TransitionSystem

/-! ## State -/

/-- Where the thread of the reactor is: not started, about to set the flag, in `loop`, or at its
end, where `join` returns. -/
inductive ThreadLife
  | unstarted
  | created
  | running
  | ended
deriving DecidableEq

/-- Where `stop` is: not called, about to write to the pipe, or returned. -/
inductive Stopper
  | idle
  | writing
  | returned
deriving DecidableEq

/-- A reactor with its thread, and a thread that stops it. -/
structure Shutdown where
  reactor : WakeUp
  isRunning_ : Bool
  thread_ : ThreadLife
  stopper : Stopper

/-- A byte is written to the pipe, if it fits. -/
def WakeUp.writePipe (capacity : ℕ) (w : WakeUp) : WakeUp :=
  if w.fill < capacity then { w with fill := w.fill + 1, edge := true } else w

/-- The step is one of the reactor thread. -/
def WakeUp.Action.own : WakeUp.Action → Bool
  | .epollWait _ | .proceed | .disconnect => true
  | .push _ _ _ | .notify _ => false

namespace Shutdown

/-- The constructor has run. -/
def begin : Shutdown := ⟨WakeUp.start, false, .unstarted, .idle⟩

/-! ## Steps -/

/-- The steps: `start` creates the thread, the thread sets the flag, `stop` clears it and then
writes to the pipe, and the reactor thread and those that push go on. -/
inductive Action
  | start
  | enter
  | stop
  | write
  | reactor (a : WakeUp.Action)
deriving DecidableEq

/-- The step is one of the reactor thread, in `loop`. -/
def Action.ofLoop : Action → Bool
  | .reactor a => a.own
  | _ => false

/-- A step of the reactor thread in `loop`: behind the last event of a batch the flag is tested. -/
def loop (capacity : ℕ) (s : Shutdown) (a : WakeUp.Action) : Option Shutdown :=
  if a = .proceed ∧ s.reactor.stage = .dispatching ∧ s.reactor.batch = [] ∧
      s.isRunning_ = false then
    some { s with thread_ := .ended }
  else (s.reactor.next capacity a).map fun w => { s with reactor := w }

/-- The state after a step, if it is enabled. -/
def next (capacity : ℕ) (s : Shutdown) : Action → Option Shutdown
  | .start => if s.thread_ = .unstarted then some { s with thread_ := .created } else none
  | .enter =>
      if s.thread_ = .created then some { s with isRunning_ := true, thread_ := .running }
      else none
  | .stop =>
      if s.stopper = .idle then some { s with isRunning_ := false, stopper := .writing } else none
  | .write =>
      if s.stopper = .writing then
        some { s with reactor := s.reactor.writePipe capacity, stopper := .returned }
      else none
  | .reactor a =>
      if a.own then if s.thread_ = .running then s.loop capacity a else none
      else (s.reactor.next capacity a).map fun w => { s with reactor := w }

/-- A reactor with a pipe of the given capacity. -/
def system (capacity : ℕ) : TransitionSystem Shutdown Action :=
  TransitionSystem.ofFunction begin (next capacity)

/-! ## What a step is -/

/-- The kinds of step. -/
inductive Moves (capacity : ℕ) (s : Shutdown) : Action → Shutdown → Prop
  | start : s.thread_ = .unstarted → Moves capacity s .start { s with thread_ := .created }
  | enter : s.thread_ = .created →
      Moves capacity s .enter { s with isRunning_ := true, thread_ := .running }
  | stop : s.stopper = .idle →
      Moves capacity s .stop { s with isRunning_ := false, stopper := .writing }
  | write : s.stopper = .writing →
      Moves capacity s .write
        { s with reactor := s.reactor.writePipe capacity, stopper := .returned }
  | leave : s.thread_ = .running → s.isRunning_ = false → s.reactor.stage = .dispatching →
      Moves capacity s (.reactor .proceed) { s with thread_ := .ended }
  | own (a : WakeUp.Action) (w : WakeUp) : a.own = true → s.thread_ = .running →
      s.reactor.next capacity a = some w →
      (s.isRunning_ = false → w.stage ≠ .waiting) →
      Moves capacity s (.reactor a) { s with reactor := w }
  | other (a : WakeUp.Action) (w : WakeUp) : a.own = false → s.reactor.next capacity a = some w →
      Moves capacity s (.reactor a) { s with reactor := w }

variable {capacity : ℕ} {s s' : Shutdown} {a : Action}

/-- A step of the reactor thread comes to `epoll_wait` only behind the last event of a batch. -/
theorem ne_waiting_of_own {w w' : WakeUp} {b : WakeUp.Action} (hown : b.own = true)
    (hstep : w.next capacity b = some w')
    (hmore : ¬ (b = .proceed ∧ w.stage = .dispatching ∧ w.batch = [])) : w'.stage ≠ .waiting := by
  cases b with
  | push _ _ _ => cases hown
  | notify _ => cases hown
  | epollWait events =>
    have hstep : w.epollWait events = some w' := hstep
    unfold WakeUp.epollWait at hstep
    split_ifs at hstep
    obtain rfl := Option.some.inj hstep
    exact fun h => by cases h
  | disconnect =>
    have hstep : w.disconnect = some w' := hstep
    unfold WakeUp.disconnect at hstep
    split at hstep
    · obtain rfl := Option.some.inj hstep
      exact fun h => by cases h
    · exact absurd hstep.symm (Option.some_ne_none _)
  | proceed =>
    cases WakeUp.proceeds_of_proceed hstep with
    | wait hstage hbatch => exact absurd ⟨rfl, hstage, hbatch⟩ hmore
    | dispatch event rest _ _ => cases event <;> exact fun h => by cases h
    | handle stage hfollowing => exact WakeUp.ne_waiting_of_following hfollowing
    | readPipe _ => exact fun h => by cases h
    | swapNew _ => exact fun h => by cases h
    | accept _ _ _ => exact fun h => by cases h
    | accepted _ => exact fun h => by cases h
    | swapSend _ => exact fun h => by cases h
    | drain _ _ _ => exact fun h => by cases h
    | drained _ => exact fun h => by cases h

theorem moves_of_next (h : next capacity s a = some s') : Moves capacity s a s' := by
  cases a with
  | start =>
    simp only [next] at h
    split_ifs at h with hthread
    obtain rfl := Option.some.inj h
    exact .start hthread
  | enter =>
    simp only [next] at h
    split_ifs at h with hthread
    obtain rfl := Option.some.inj h
    exact .enter hthread
  | stop =>
    simp only [next] at h
    split_ifs at h with hstopper
    obtain rfl := Option.some.inj h
    exact .stop hstopper
  | write =>
    simp only [next] at h
    split_ifs at h with hstopper
    obtain rfl := Option.some.inj h
    exact .write hstopper
  | reactor b =>
    simp only [next] at h
    split_ifs at h with hown hthread
    · unfold loop at h
      split_ifs at h with htest
      · obtain rfl := Option.some.inj h
        rw [htest.1]
        exact .leave hthread htest.2.2.2 htest.2.1
      · obtain ⟨w, hw, rfl⟩ := Option.map_eq_some_iff.mp h
        refine .own b w hown hthread hw fun hflag => ne_waiting_of_own hown hw ?_
        rintro ⟨hb, hstage, hbatch⟩
        exact htest ⟨hb, hstage, hbatch, hflag⟩
    · obtain ⟨w, hw, rfl⟩ := Option.map_eq_some_iff.mp h
      exact .other b w (Bool.eq_false_iff.mpr hown) hw

/-! ## The invariant -/

/-- A push and its write leave the reactor thread where it is, and an edge where there is one. -/
theorem other_frame {w w' : WakeUp} {b : WakeUp.Action} (hown : b.own = false)
    (hstep : w.next capacity b = some w') :
    w'.stage = w.stage ∧ w'.batch = w.batch ∧
      (w.edge = true ∧ 0 < w.fill → w'.edge = true ∧ 0 < w'.fill) := by
  cases b with
  | push tid q fd =>
    have hstep : w.push tid q fd = some w' := hstep
    unfold WakeUp.push at hstep
    split_ifs at hstep
    obtain rfl := Option.some.inj hstep
    exact ⟨rfl, rfl, id⟩
  | notify tid =>
    have hstep : w.notify capacity tid = some w' := hstep
    unfold WakeUp.notify at hstep
    split_ifs at hstep
    · obtain rfl := Option.some.inj hstep
      exact ⟨rfl, rfl, fun _ => ⟨rfl, Nat.succ_pos _⟩⟩
    · obtain rfl := Option.some.inj hstep
      exact ⟨rfl, rfl, id⟩
  | epollWait _ => cases hown
  | proceed => cases hown
  | disconnect => cases hown

theorem writePipe_frame (capacity : ℕ) (w : WakeUp) :
    (w.writePipe capacity).stage = w.stage ∧ (w.writePipe capacity).batch = w.batch := by
  unfold WakeUp.writePipe
  split_ifs <;> exact ⟨rfl, rfl⟩

/-- The byte keeps the invariant of the wake-ups. -/
theorem invariant_writePipe {w : WakeUp} (h : w.Invariant capacity) :
    (w.writePipe capacity).Invariant capacity := by
  unfold WakeUp.writePipe
  split_ifs with hroom
  · exact ⟨hroom, h.waiting_batch, fun _ => Or.inl rfl, fun q _ => Or.inl ⟨rfl, Nat.succ_pos _⟩⟩
  · exact h

/-- **The byte is seen**, or was not needed: a full pipe has an edge that is not reported yet. -/
theorem edge_writePipe {w : WakeUp} (hcap : 1 ≤ capacity) (h : w.Invariant capacity)
    (hwaiting : w.stage = .waiting) :
    (w.writePipe capacity).edge = true ∧ 0 < (w.writePipe capacity).fill := by
  unfold WakeUp.writePipe
  split_ifs with hroom
  · exact ⟨rfl, Nat.succ_pos _⟩
  · have hfull : w.fill = capacity := le_antisymm h.fill_le (not_lt.mp hroom)
    have hbatch := h.waiting_batch hwaiting
    rcases h.full hfull with hedge | hpipe | hreading
    · exact ⟨hedge, by omega⟩
    · rw [hbatch] at hpipe
      exact absurd hpipe List.not_mem_nil
    · cases hwaiting.symm.trans hreading

/-- The thread is in `loop`, and will find the flag cleared. -/
def Stopping (s : Shutdown) : Prop := s.thread_ = .running ∧ s.isRunning_ = false

/-- Wake-ups are not lost; and a thread that is to find the flag cleared does not wait for ever. -/
structure Ok (capacity : ℕ) (s : Shutdown) : Prop where
  reactor : s.reactor.Invariant capacity
  awake : s.Stopping → s.stopper = .writing ∨ s.reactor.stage ≠ .waiting ∨
    (s.reactor.edge = true ∧ 0 < s.reactor.fill)

theorem Ok.moves (hcap : 1 ≤ capacity) (h : s.Ok capacity) (hmove : Moves capacity s a s') :
    s'.Ok capacity := by
  cases hmove with
  | start hthread => exact ⟨h.reactor, fun hs => by cases hs.1⟩
  | enter hthread => exact ⟨h.reactor, fun hs => by cases hs.2⟩
  | stop hstopper => exact ⟨h.reactor, fun _ => Or.inl rfl⟩
  | write hstopper =>
    refine ⟨invariant_writePipe h.reactor, fun _ => Or.inr ?_⟩
    by_cases hwaiting : s.reactor.stage = .waiting
    · exact Or.inr (edge_writePipe hcap h.reactor hwaiting)
    · refine Or.inl ?_
      show (s.reactor.writePipe capacity).stage ≠ .waiting
      rw [(writePipe_frame capacity s.reactor).1]
      exact hwaiting
  | leave _ _ _ => exact ⟨h.reactor, fun hs => by cases hs.1⟩
  | own b w hown hthread hstep hloop =>
    exact ⟨h.reactor.next hcap hstep, fun hs => Or.inr (Or.inl (hloop hs.2))⟩
  | other b w hown hstep =>
    obtain ⟨hstage, -, hedge⟩ := other_frame hown hstep
    refine ⟨h.reactor.next hcap hstep, fun hs => ?_⟩
    rw [hstage]
    exact (h.awake hs).imp id (Or.imp id hedge)

theorem ok_of_reachable (hcap : 1 ≤ capacity) (h : (system capacity).Reachable s) :
    s.Ok capacity := by
  apply h.invariant
  · rintro s rfl
    exact ⟨WakeUp.invariant_start hcap, fun hs => by cases hs.1⟩
  · intro s a s' hs hstep
    exact hs.moves hcap (moves_of_next hstep)

/-! ## What is left of a batch -/

/-- How far a stage is from the next event. -/
def index : Stage → ℕ
  | .waiting => 11
  | .readingPipe => 10
  | .swappingNew => 9
  | .accepting _ => 8
  | .swappingSend => 7
  | .draining _ => 6
  | .reading _ => 5
  | .disconnecting _ => 4
  | .writing _ => 3
  | .hangingUp _ => 2
  | .timing => 1
  | .dispatching => 0

/-- What is left of the local vector of a stage. -/
def left : Stage → ℕ
  | .accepting fds | .draining fds => fds.length
  | _ => 0

/-- What the reactor thread has to do before it tests the flag: the events that follow, the stages
of this one, the descriptors of the stage. -/
def toDo (w : WakeUp) : ℕ ×ₗ ℕ ×ₗ ℕ :=
  toLex (w.batch.length, toLex (index w.stage, left w.stage))

theorem toDo_lt_of_index {w w' : WakeUp} (hbatch : w'.batch = w.batch)
    (hindex : index w'.stage < index w.stage) : toDo w' < toDo w := by
  unfold toDo
  rw [hbatch]
  exact Prod.Lex.toLex_lt_toLex.mpr
    (Or.inr ⟨rfl, Prod.Lex.toLex_lt_toLex.mpr (Or.inl hindex)⟩)

theorem toDo_lt_of_left {w w' : WakeUp} (hbatch : w'.batch = w.batch)
    (hindex : index w'.stage = index w.stage) (hleft : left w'.stage < left w.stage) :
    toDo w' < toDo w := by
  unfold toDo
  rw [hbatch, hindex]
  exact Prod.Lex.toLex_lt_toLex.mpr
    (Or.inr ⟨rfl, Prod.Lex.toLex_lt_toLex.mpr (Or.inr ⟨rfl, hleft⟩)⟩)

/-- **A batch is worked off**: the thread has less to do behind each of its steps, however many
descriptors are pushed in the meantime. -/
theorem toDo_lt {w w' : WakeUp} {b : WakeUp.Action} (hown : b.own = true)
    (hstep : w.next capacity b = some w') (hfrom : w.stage ≠ .waiting)
    (hto : w'.stage ≠ .waiting) : toDo w' < toDo w := by
  cases b with
  | push _ _ _ => cases hown
  | notify _ => cases hown
  | epollWait events =>
    have hstep : w.epollWait events = some w' := hstep
    unfold WakeUp.epollWait at hstep
    split_ifs at hstep with hguard
    exact absurd hguard.1 hfrom
  | disconnect =>
    have hstep : w.disconnect = some w' := hstep
    unfold WakeUp.disconnect at hstep
    split at hstep
    · rename_i fdw hstage
      obtain rfl := Option.some.inj hstep
      refine toDo_lt_of_index rfl ?_
      rw [hstage]
      exact Nat.lt_succ_self 4
    · exact absurd hstep.symm (Option.some_ne_none _)
  | proceed =>
    cases WakeUp.proceeds_of_proceed hstep with
    | wait _ _ => exact absurd rfl hto
    | dispatch event rest _ hbatch =>
      unfold toDo
      rw [hbatch]
      exact Prod.Lex.toLex_lt_toLex.mpr (Or.inl (Nat.lt_succ_self _))
    | handle stage hfollowing =>
      refine toDo_lt_of_index rfl ?_
      show index stage < index w.stage
      cases hstage : w.stage <;> rw [hstage] at hfollowing <;>
        simp only [Stage.following, Option.some.injEq, reduceCtorEq] at hfollowing <;>
        subst hfollowing <;> simp [index]
    | readPipe hstage => exact toDo_lt_of_index rfl (by rw [hstage]; exact Nat.lt_succ_self 9)
    | swapNew hstage => exact toDo_lt_of_index rfl (by rw [hstage]; exact Nat.lt_succ_self 8)
    | accepted hstage => exact toDo_lt_of_index rfl (by rw [hstage]; exact Nat.lt_succ_self 7)
    | swapSend hstage => exact toDo_lt_of_index rfl (by rw [hstage]; exact Nat.lt_succ_self 6)
    | drained hstage => exact toDo_lt_of_index rfl (by rw [hstage]; exact Nat.succ_pos 5)
    | accept fds hstage hfds =>
      refine toDo_lt_of_left rfl ?_ ?_
      · rw [hstage]
        rfl
      · rw [hstage]
        have hpos := List.length_pos_iff.mpr hfds
        show fds.dropLast.length < fds.length
        rw [List.length_dropLast]
        omega
    | drain fds hstage hfds =>
      refine toDo_lt_of_left rfl ?_ ?_
      · rw [hstage]
        rfl
      · rw [hstage]
        have hpos := List.length_pos_iff.mpr hfds
        show fds.dropLast.length < fds.length
        rw [List.length_dropLast]
        omega

/-! ## When `join` returns -/

/-- `stop` writes its byte; and the reactor thread goes on in a batch, and in `epoll_wait` when
there is an edge to report. -/
structure Fair (run : InfiniteRun (system capacity)) : Prop where
  write : run.Takes (fun s => s.stopper = .writing) fun _ a => a = .write
  loop : run.Takes
    (fun s => s.thread_ = .running ∧
      (s.reactor.stage = .waiting → s.reactor.edge = true ∧ 0 < s.reactor.fill))
    fun _ a => a.ofLoop = true

variable {run : InfiniteRun (system capacity)}

/-- A thread that is in a batch comes to its end, and to the test of the flag. -/
theorem batch_leadsTo (hfair : Fair run) :
    run.LeadsTo (fun s => s.Stopping ∧ s.reactor.stage ≠ .waiting)
      (fun s => s.thread_ = .ended) := by
  apply InfiniteRun.leadsTo_of_wellFounded
    (C := fun _ a => a.ofLoop = true) fun s => toDo s.reactor
  · rintro n ⟨hstopping, hbusy⟩
    exact hfair.loop n ⟨hstopping.1, fun hwaiting => absurd hwaiting hbusy⟩
  · rintro s a s' - hstep ⟨⟨hthread, hflag⟩, hbusy⟩ hother
    cases moves_of_next hstep with
    | start hunstarted => cases hthread.symm.trans hunstarted
    | enter hcreated => cases hthread.symm.trans hcreated
    | stop _ => exact Or.inr ⟨⟨⟨hthread, rfl⟩, hbusy⟩, le_rfl⟩
    | write _ =>
      obtain ⟨hstage, hbatch⟩ := writePipe_frame capacity s.reactor
      refine Or.inr ⟨⟨⟨hthread, hflag⟩, by rw [hstage]; exact hbusy⟩, ?_⟩
      show toDo (s.reactor.writePipe capacity) ≤ _
      unfold toDo
      rw [hstage, hbatch]
    | leave _ _ _ => exact Or.inl rfl
    | own b w hown _ hnext hloop =>
      have hto := hloop hflag
      exact Or.inr ⟨⟨⟨hthread, hflag⟩, hto⟩, le_of_lt (toDo_lt hown hnext hbusy hto)⟩
    | other b w hown hnext =>
      obtain ⟨hstage, hbatch, -⟩ := other_frame hown hnext
      refine Or.inr ⟨⟨⟨hthread, hflag⟩, by rw [hstage]; exact hbusy⟩, ?_⟩
      show toDo w ≤ _
      unfold toDo
      rw [hstage, hbatch]
  · rintro s a s' - hstep ⟨⟨hthread, hflag⟩, hbusy⟩ hown'
    cases moves_of_next hstep with
    | leave _ _ _ => exact Or.inl rfl
    | own b w hown _ hnext hloop =>
      have hto := hloop hflag
      exact Or.inr ⟨⟨⟨hthread, hflag⟩, hto⟩, toDo_lt hown hnext hbusy hto⟩
    | other b w hown hnext => cases hown.symm.trans hown'
    | start _ => cases hown'
    | enter _ => cases hown'
    | stop _ => cases hown'
    | write _ => cases hown'

/-- A thread that waits is woken by an edge. -/
theorem edge_leadsTo (hfair : Fair run) :
    run.LeadsTo (fun s => s.Stopping ∧ s.reactor.stage = .waiting ∧ s.reactor.edge = true ∧
      0 < s.reactor.fill) (fun s => s.Stopping ∧ s.reactor.stage ≠ .waiting) := by
  apply InfiniteRun.leadsTo_of_rank (C := fun _ a => a.ofLoop = true) (fun _ => 0)
  · rintro n ⟨hstopping, -, hedge⟩
    exact hfair.loop n ⟨hstopping.1, fun _ => hedge⟩
  · rintro s a s' - hstep ⟨⟨hthread, hflag⟩, hwaiting, hedge⟩ _
    cases moves_of_next hstep with
    | start hunstarted => cases hthread.symm.trans hunstarted
    | enter hcreated => cases hthread.symm.trans hcreated
    | stop _ => exact Or.inr ⟨⟨⟨hthread, rfl⟩, hwaiting, hedge⟩, le_rfl⟩
    | write _ =>
      refine Or.inr ⟨⟨⟨hthread, hflag⟩, ?_, ?_⟩, le_rfl⟩
      · show (s.reactor.writePipe capacity).stage = .waiting
        rw [(writePipe_frame capacity s.reactor).1]
        exact hwaiting
      · show (s.reactor.writePipe capacity).edge = true ∧ 0 < (s.reactor.writePipe capacity).fill
        unfold WakeUp.writePipe
        split_ifs
        · exact ⟨rfl, Nat.succ_pos _⟩
        · exact hedge
    | leave _ _ hstage => cases hstage.symm.trans hwaiting
    | own b w hown _ hnext hloop => exact Or.inl ⟨⟨hthread, hflag⟩, hloop hflag⟩
    | other b w hown hnext =>
      obtain ⟨hstage, -, hkept⟩ := other_frame hown hnext
      exact Or.inr ⟨⟨⟨hthread, hflag⟩, hstage.trans hwaiting, hkept hedge⟩, le_rfl⟩
  · rintro s a s' - hstep ⟨⟨hthread, hflag⟩, hwaiting, hedge⟩ hown'
    cases moves_of_next hstep with
    | leave _ _ hstage => cases hstage.symm.trans hwaiting
    | own b w hown _ hnext hloop => exact Or.inl ⟨⟨hthread, hflag⟩, hloop hflag⟩
    | other b w hown hnext => cases hown.symm.trans hown'
    | start _ => cases hown'
    | enter _ => cases hown'
    | stop _ => cases hown'
    | write _ => cases hown'

/-- The byte of `stop` finds the thread busy, or leaves it an edge. -/
theorem write_leadsTo (hcap : 1 ≤ capacity) (hfair : Fair run) :
    run.LeadsTo (fun s => s.Stopping ∧ s.reactor.stage = .waiting ∧ s.stopper = .writing)
      (fun s => s.Stopping ∧ s.reactor.stage ≠ .waiting ∨
        s.Stopping ∧ s.reactor.stage = .waiting ∧ s.reactor.edge = true ∧ 0 < s.reactor.fill) := by
  apply InfiniteRun.leadsTo_of_rank (C := fun _ a => a = .write) (fun _ => 0)
  · rintro n ⟨-, -, hwriting⟩
    exact hfair.write n hwriting
  · rintro s a s' - hstep ⟨⟨hthread, hflag⟩, hwaiting, hwriting⟩ hother
    cases moves_of_next hstep with
    | start hunstarted => cases hthread.symm.trans hunstarted
    | enter hcreated => cases hthread.symm.trans hcreated
    | stop hidle => cases hwriting.symm.trans hidle
    | write _ => exact absurd rfl hother
    | leave _ _ hstage => cases hstage.symm.trans hwaiting
    | own b w hown _ hnext hloop => exact Or.inl (Or.inl ⟨⟨hthread, hflag⟩, hloop hflag⟩)
    | other b w hown hnext =>
      have hstage := (other_frame hown hnext).1
      exact Or.inr ⟨⟨⟨hthread, hflag⟩, hstage.trans hwaiting, hwriting⟩, le_rfl⟩
  · rintro s a s' hreach hstep ⟨⟨hthread, hflag⟩, hwaiting, hwriting⟩ rfl
    cases moves_of_next hstep with
    | write _ =>
      have hinv := (ok_of_reachable hcap hreach).reactor
      have hstage := (writePipe_frame capacity s.reactor).1
      exact Or.inl (Or.inr
        ⟨⟨hthread, hflag⟩, hstage.trans hwaiting, edge_writePipe hcap hinv hwaiting⟩)

/-- A thread that is to find the flag cleared ends. -/
theorem stopping_leadsTo (hcap : 1 ≤ capacity) (hfair : Fair run) :
    run.LeadsTo (fun s => s.Stopping) (fun s => s.thread_ = .ended) := by
  have hbusy := batch_leadsTo hfair
  have hedge := (edge_leadsTo hfair).trans hbusy
  intro n hstopping
  by_cases hwaiting : (run.state n).reactor.stage = .waiting
  · rcases (ok_of_reachable hcap (run.reachable n)).awake hstopping with hwriting | hstage | hsome
    · exact (write_leadsTo hcap hfair).trans (hbusy.or hedge) n ⟨hstopping, hwaiting, hwriting⟩
    · exact absurd hwaiting hstage
    · exact hedge n ⟨hstopping, hwaiting, hsome⟩
  · exact hbusy n ⟨hstopping, hwaiting⟩

/-- Only a `stop` that finds the thread in `loop` ends it. -/
theorem stop_of_stopping {n : ℕ}
    (h : (run.state n).Stopping ∨ (run.state n).thread_ = .ended) :
    ∃ m < n, run.label m = some .stop ∧ (run.state m).thread_ = .running := by
  induction n with
  | zero =>
    have hinit : run.state 0 = begin := run.init
    rw [hinit] at h
    rcases h with h | h
    · cases h.1
    · cases h
  | succ n ih =>
    -- the step did not end the thread if it was already ending, else it was the `stop`
    suffices hnow : ((run.state n).Stopping ∨ (run.state n).thread_ = .ended) ∨
        run.label n = some .stop ∧ (run.state n).thread_ = .running by
      rcases hnow with hnow | hstop
      · obtain ⟨m, hmn, hm⟩ := ih hnow
        exact ⟨m, hmn.trans (Nat.lt_succ_self n), hm⟩
      · exact ⟨n, Nat.lt_succ_self n, hstop⟩
    rcases hlabel : run.label n with _ | a
    · rw [run.idle n hlabel] at h
      exact Or.inl h
    · have hmove := moves_of_next (run.step n a hlabel)
      generalize run.state (n + 1) = s' at h hmove
      cases hmove with
      | start _ =>
        rcases h with h | h
        · cases h.1
        · cases h
      | enter _ =>
        rcases h with h | h
        · cases h.2
        · cases h
      | stop _ =>
        rcases h with h | h
        · exact Or.inr ⟨rfl, h.1⟩
        · exact Or.inl (Or.inr h)
      | write _ => exact Or.inl h
      | leave hthread hflag _ => exact Or.inl (Or.inl ⟨hthread, hflag⟩)
      | own b w _ _ _ _ => exact Or.inl h
      | other b w _ _ => exact Or.inl h

/-- **When `join` returns.**  The thread of a reactor ends exactly if a `stop` cleared the flag
behind the thread's own store, whatever is pushed and whether or not the pipe is full; the store
undoes a `stop` that comes before it. -/
theorem ended_iff (hcap : 1 ≤ capacity) (hfair : Fair run) :
    (∃ n, (run.state n).thread_ = .ended) ↔
      ∃ m, run.label m = some .stop ∧ (run.state m).thread_ = .running := by
  constructor
  · rintro ⟨n, hn⟩
    obtain ⟨m, -, hm⟩ := stop_of_stopping (Or.inr hn)
    exact ⟨m, hm⟩
  · rintro ⟨m, hlabel, hthread⟩
    have hstopping : (run.state (m + 1)).Stopping := by
      cases hstate : run.state (m + 1) with
      | mk reactor isRunning thread stopper =>
        have hstep := run.step m .stop hlabel
        rw [hstate] at hstep
        cases moves_of_next hstep with
        | stop _ => exact ⟨hthread, rfl⟩
    obtain ⟨n, -, hn⟩ := stopping_leadsTo hcap hfair (m + 1) hstopping
    exact ⟨n, hn⟩

/-- The pipe is full when `stop` writes to it, and the thread reads a queue that is empty. -/
def fullPipe : List Action :=
  [.start, .enter, .reactor (.push 0 .newConnections 7), .reactor (.notify 0), .stop, .write,
    .reactor (.epollWait [.pipe]), .reactor .proceed, .reactor .proceed, .reactor .proceed,
    .reactor .proceed, .reactor .proceed, .reactor .proceed, .reactor .proceed, .reactor .proceed]

theorem isSome_fullPipe :
    (runFrom (next 1) (fun _ _ => True) begin fullPipe).isSome = true := by decide +kernel

/-- It ends. -/
theorem ended_fullPipe :
    ∃ n, ((InfiniteRun.ofList fullPipe isSome_fullPipe).state n).thread_ = .ended := by
  have hfair : Fair (InfiniteRun.ofList fullPipe isSome_fullPipe) :=
    { write := InfiniteRun.takes_ofList isSome_fullPipe (by decide +kernel) (by decide +kernel)
      loop := InfiniteRun.takes_ofList isSome_fullPipe (by decide +kernel) (by decide +kernel) }
  exact (ended_iff le_rfl hfair).mpr ⟨4, rfl, by decide +kernel⟩

end Shutdown

end Muduo
