/-
# Waking the reactor

Other threads hand a `SubReactor` work by pushing onto one of two queues and
writing a byte to a pipe; the reactor thread waits for an edge of the pipe, reads
at most 1024 bytes and swaps both queues, one after the other.  A write to a full
pipe fails in silence and a read may leave bytes behind.  Still no push is left
without a wake-up to come.
-/
import FastServer.TransitionSystem

namespace Muduo

open TransitionSystem

/-! ## Events -/

/-- A file descriptor number. -/
abbrev Fd := ℕ

/-- The number of a thread that calls into the reactor. -/
abbrev Tid := ℕ

/-- The flags of `epoll_event.events` that the reactor uses. -/
inductive EpollFlag
  | EPOLLIN
  | EPOLLOUT
  | EPOLLHUP
  | EPOLLET
deriving DecidableEq

/-- `FdWrapper`. -/
structure FdWrapper where
  fd : Fd
  events : List EpollFlag
deriving DecidableEq

/-- What `handleEvent` tells apart: `pipeFds_[0]`, `timer_fd_`, any other descriptor. -/
inductive Event
  | pipe
  | timer
  | connection (fdw : FdWrapper)
deriving DecidableEq

/-! ## State -/

/-- The queues that other threads push onto. -/
inductive Queue
  | newConnections
  | sendQueue
deriving DecidableEq

/-- Where the reactor thread stands in `loop`.  `accepting` and `draining` carry
what is left of the local vector that a swap filled. -/
inductive Stage
  | waiting
  | dispatching
  | timing
  | reading (fdw : FdWrapper)
  | disconnecting (fdw : FdWrapper)
  | writing (fdw : FdWrapper)
  | hangingUp (fdw : FdWrapper)
  | readingPipe
  | swappingNew
  | accepting (newConnections : List Fd)
  | swappingSend
  | draining (sendQueue : List Fd)
deriving DecidableEq

/-- The stages of `handlePipe` after which the swap of a queue is still to come. -/
def Stage.BeforeSwap (q : Queue) : Stage → Prop
  | .readingPipe => True
  | .swappingNew => True
  | .accepting _ => q = .sendQueue
  | .swappingSend => q = .sendQueue
  | _ => False

/-- The stage in which an event taken off the batch is handled. -/
def Event.stage : Event → Stage
  | .pipe => .readingPipe
  | .timer => .timing
  | .connection fdw => .reading fdw

/-- The stage after one of `handleEvent` that only moves on. -/
def Stage.following : Stage → Option Stage
  | .timing => some .dispatching
  | .reading fdw => some (.writing fdw)
  | .disconnecting fdw => some (.writing { fdw with events := [] })
  | .writing fdw => some (.hangingUp fdw)
  | .hangingUp _ => some .dispatching
  | _ => none

/-- The part of a `SubReactor` that wake-ups depend on.  `fill` bytes stand in the
pipe; `edge` is an edge that `epoll_wait` has not reported yet; a producer stands
between its push and its write to the pipe; `batch` holds the events reported and
not yet dispatched. -/
structure WakeUp where
  queue : Queue → List Fd
  fill : ℕ
  edge : Bool
  producers : Tid → Option Queue
  batch : List Event
  stage : Stage

namespace WakeUp

/-- The reactor before any push, about to wait. -/
def start : WakeUp := ⟨fun _ => [], 0, false, fun _ => none, [], .waiting⟩

/-! ## Steps -/

/-- The push of `enqueueNewConnection` or `enqueueSend`, under its spinlock. -/
def push (w : WakeUp) (tid : Tid) (q : Queue) (fd : Fd) : Option WakeUp :=
  if w.producers tid = none then
    some { w with
      queue := Function.update w.queue q (w.queue q ++ [fd])
      producers := Function.update w.producers tid (some q) }
  else none

/-- The write to the pipe that follows the push: one byte and an edge if the byte
fits, and nothing if it does not. -/
def notify (capacity : ℕ) (w : WakeUp) (tid : Tid) : Option WakeUp :=
  if w.producers tid = none then none
  else if w.fill < capacity then
    some { w with
      fill := w.fill + 1
      edge := true
      producers := Function.update w.producers tid none }
  else some { w with producers := Function.update w.producers tid none }

/-- `epoll_wait` reports the pipe if an edge is pending and the pipe is readable;
it forgets an edge that it reports, and one of a pipe that was drained since. -/
def epollWait (w : WakeUp) (events : List Event) : Option WakeUp :=
  if w.stage = .waiting ∧ (Event.pipe ∈ events → w.edge = true ∧ 0 < w.fill) then
    some { w with
      edge := w.edge && !decide (Event.pipe ∈ events) && !decide (w.fill = 0)
      batch := events
      stage := .dispatching }
  else none

/-- The next step of the reactor thread in `loop`, `handleEvent`, `handlePipe`,
`processNewConnections` and `processSendQueue`. -/
def proceed (w : WakeUp) : Option WakeUp :=
  match w.stage with
  | .waiting => none
  | .dispatching =>
      match w.batch with
      | [] => some { w with stage := .waiting }
      | .pipe :: rest => some { w with batch := rest, stage := .readingPipe }
      | .timer :: rest => some { w with batch := rest, stage := .timing }
      | .connection fdw :: rest => some { w with batch := rest, stage := .reading fdw }
  | .timing => some { w with stage := .dispatching }
  | .reading fdw => some { w with stage := .writing fdw }
  | .disconnecting fdw =>
      -- `deleteEpollFd` has cleared the events of the wrapper that `handleEvent` tests next
      some { w with stage := .writing { fdw with events := [] } }
  | .writing fdw => some { w with stage := .hangingUp fdw }
  | .hangingUp _ => some { w with stage := .dispatching }
  | .readingPipe => some { w with fill := w.fill - min 1024 w.fill, stage := .swappingNew }
  | .swappingNew =>
      some { w with
        queue := Function.update w.queue .newConnections []
        stage := .accepting (w.queue .newConnections) }
  | .accepting newConnections =>
      -- the local vector is popped from its back
      if newConnections = [] then some { w with stage := .swappingSend }
      else some { w with stage := .accepting newConnections.dropLast }
  | .swappingSend =>
      some { w with
        queue := Function.update w.queue .sendQueue []
        stage := .draining (w.queue .sendQueue) }
  | .draining sendQueue =>
      if sendQueue = [] then some { w with stage := .dispatching }
      else some { w with stage := .draining sendQueue.dropLast }

/-- `handleRead` finds the end of the stream or an error. -/
def disconnect (w : WakeUp) : Option WakeUp :=
  match w.stage with
  | .reading fdw => some { w with stage := .disconnecting fdw }
  | _ => none

/-- A step of one thread. -/
inductive Action
  | push (tid : Tid) (q : Queue) (fd : Fd)
  | notify (tid : Tid)
  | epollWait (events : List Event)
  | proceed
  | disconnect
deriving DecidableEq

/-- The state after a step, if it is enabled. -/
def next (capacity : ℕ) (w : WakeUp) : Action → Option WakeUp
  | .push tid q fd => w.push tid q fd
  | .notify tid => w.notify capacity tid
  | .epollWait events => w.epollWait events
  | .proceed => w.proceed
  | .disconnect => w.disconnect

/-- The producers and the reactor thread, with a pipe of the given capacity. -/
def system (capacity : ℕ) : TransitionSystem WakeUp Action :=
  TransitionSystem.ofFunction start (next capacity)

/-! ## The steps of the reactor thread -/

/-- The kinds of step of the reactor thread. -/
inductive Proceeds (w : WakeUp) : WakeUp → Prop
  | wait : w.stage = .dispatching → w.batch = [] → Proceeds w { w with stage := .waiting }
  | dispatch (event : Event) (rest : List Event) :
      w.stage = .dispatching → w.batch = event :: rest →
      Proceeds w { w with batch := rest, stage := event.stage }
  | handle (stage : Stage) : w.stage.following = some stage → Proceeds w { w with stage := stage }
  | readPipe : w.stage = .readingPipe →
      Proceeds w { w with fill := w.fill - min 1024 w.fill, stage := .swappingNew }
  | swapNew : w.stage = .swappingNew →
      Proceeds w { w with
        queue := Function.update w.queue .newConnections []
        stage := .accepting (w.queue .newConnections) }
  | accept (fds : List Fd) : w.stage = .accepting fds → fds ≠ [] →
      Proceeds w { w with stage := .accepting fds.dropLast }
  | accepted : w.stage = .accepting [] → Proceeds w { w with stage := .swappingSend }
  | swapSend : w.stage = .swappingSend →
      Proceeds w { w with
        queue := Function.update w.queue .sendQueue []
        stage := .draining (w.queue .sendQueue) }
  | drain (fds : List Fd) : w.stage = .draining fds → fds ≠ [] →
      Proceeds w { w with stage := .draining fds.dropLast }
  | drained : w.stage = .draining [] → Proceeds w { w with stage := .dispatching }

variable {capacity : ℕ} {w w' : WakeUp}

/-- **A step of the reactor thread** is of one of these kinds. -/
theorem proceeds_of_proceed (h : w.proceed = some w') : w.Proceeds w' := by
  unfold proceed at h
  cases hstage : w.stage with
  | waiting =>
    rw [hstage] at h
    exact absurd h.symm (Option.some_ne_none _)
  | dispatching =>
    rw [hstage] at h
    cases hbatch : w.batch with
    | nil =>
      have hstep : w' = { w with stage := .waiting } := by
        simp only [hbatch, Option.some.injEq] at h ⊢
        exact h.symm
      exact hstep ▸ .wait hstage hbatch
    | cons event rest =>
      have hstep : w' = { w with batch := rest, stage := event.stage } := by
        cases event <;> simp only [hbatch, Option.some.injEq] at h <;> exact h.symm
      exact hstep ▸ .dispatch event rest hstage hbatch
  | timing | reading | disconnecting | writing | hangingUp =>
    rw [hstage] at h
    obtain rfl := Option.some.inj h
    exact .handle _ (by rw [hstage]; rfl)
  | readingPipe =>
    rw [hstage] at h
    obtain rfl := Option.some.inj h
    exact .readPipe hstage
  | swappingNew =>
    rw [hstage] at h
    obtain rfl := Option.some.inj h
    exact .swapNew hstage
  | accepting fds =>
    rw [hstage] at h
    by_cases hfds : fds = []
    · simp only [if_pos hfds, Option.some.injEq] at h
      subst hfds h
      exact .accepted hstage
    · simp only [if_neg hfds, Option.some.injEq] at h
      subst h
      exact .accept fds hstage hfds
  | swappingSend =>
    rw [hstage] at h
    obtain rfl := Option.some.inj h
    exact .swapSend hstage
  | draining fds =>
    rw [hstage] at h
    by_cases hfds : fds = []
    · simp only [if_pos hfds, Option.some.injEq] at h
      subst hfds h
      exact .drained hstage
    · simp only [if_neg hfds, Option.some.injEq] at h
      subst h
      exact .drain fds hstage hfds

/-- A stage that only moves on is none of those around a swap. -/
theorem not_beforeSwap_of_following {stage stage' : Stage} (h : stage.following = some stage')
    (q : Queue) : ¬ stage.BeforeSwap q := by
  cases stage <;> simp_all [Stage.following, Stage.BeforeSwap]

/-- `handleEvent` ends at its loop, not at `epoll_wait`. -/
theorem ne_waiting_of_following {stage stage' : Stage} (h : stage.following = some stage') :
    stage' ≠ .waiting := by
  rintro rfl
  cases stage <;> simp [Stage.following] at h

/-! ## No wake-up is lost -/

/-- What wakes the reactor for a queue that is not empty: an edge that `epoll_wait`
will report, a reported edge after which the queue is still to be swapped, or a
producer that is still to write to the pipe. -/
def Awaited (w : WakeUp) (q : Queue) : Prop :=
  (w.edge = true ∧ 0 < w.fill) ∨ (Event.pipe ∈ w.batch ∨ w.stage.BeforeSwap q) ∨
    ∃ tid, w.producers tid = some q

/-- The invariant of the wake-ups.  A full pipe is the case in which a producer
leaves no byte behind: then an edge is pending, or reported and not yet read. -/
structure Invariant (capacity : ℕ) (w : WakeUp) : Prop where
  fill_le : w.fill ≤ capacity
  waiting_batch : w.stage = .waiting → w.batch = []
  full : w.fill = capacity → w.edge = true ∨ Event.pipe ∈ w.batch ∨ w.stage = .readingPipe
  awaited : ∀ q, w.queue q ≠ [] → w.Awaited q

/-- Nothing is queued at the start. -/
theorem invariant_start (hcap : 1 ≤ capacity) : start.Invariant capacity where
  fill_le := Nat.zero_le _
  waiting_batch := fun _ => rfl
  full := by
    intro h
    have : 0 = capacity := h
    omega
  awaited := fun q hq => absurd rfl hq

namespace Invariant

/-- A push leaves its producer with a write to come. -/
theorem push (h : w.Invariant capacity) {tid : Tid} {q : Queue} {fd : Fd}
    (hstep : w.push tid q fd = some w') : w'.Invariant capacity := by
  unfold WakeUp.push at hstep
  split_ifs at hstep with hidle
  obtain rfl := Option.some.inj hstep
  refine ⟨h.fill_le, h.waiting_batch, h.full, ?_⟩
  intro p hp
  by_cases hpq : p = q
  · subst hpq
    exact Or.inr (Or.inr ⟨tid, Function.update_self _ _ _⟩)
  · have hp' : w.queue p ≠ [] := by
      intro hempty
      exact hp ((Function.update_of_ne hpq _ _).trans hempty)
    rcases h.awaited p hp' with hedge | hswap | ⟨t, ht⟩
    · exact Or.inl hedge
    · exact Or.inr (Or.inl hswap)
    · have htid : t ≠ tid := by
        rintro rfl
        rw [hidle] at ht
        exact Option.some_ne_none _ ht.symm
      exact Or.inr (Or.inr ⟨t, (Function.update_of_ne htid _ _).trans ht⟩)

/-- A write leaves an edge behind, or finds the pipe full and thereby an edge that is
still to be read. -/
theorem notify (hcap : 1 ≤ capacity) (h : w.Invariant capacity) {tid : Tid}
    (hstep : w.notify capacity tid = some w') : w'.Invariant capacity := by
  unfold WakeUp.notify at hstep
  split_ifs at hstep with hidle hroom
  · obtain rfl := Option.some.inj hstep
    exact ⟨hroom, h.waiting_batch, fun _ => Or.inl rfl,
      fun q _ => Or.inl ⟨rfl, Nat.succ_pos _⟩⟩
  · obtain rfl := Option.some.inj hstep
    have hfill : w.fill = capacity := le_antisymm h.fill_le (not_lt.mp hroom)
    refine ⟨h.fill_le, h.waiting_batch, h.full, ?_⟩
    intro q _
    rcases h.full hfill with hedge | hpipe | hreading
    · exact Or.inl ⟨hedge, by show 0 < w.fill; omega⟩
    · exact Or.inr (Or.inl (Or.inl hpipe))
    · refine Or.inr (Or.inl (Or.inr ?_))
      show w.stage.BeforeSwap q
      rw [hreading]
      exact trivial

/-- `epoll_wait` consumes the edge only by reporting it. -/
theorem epollWait (hcap : 1 ≤ capacity) (h : w.Invariant capacity) {events : List Event}
    (hstep : w.epollWait events = some w') : w'.Invariant capacity := by
  unfold WakeUp.epollWait at hstep
  split_ifs at hstep with hguard
  obtain rfl := Option.some.inj hstep
  obtain ⟨hwaiting, -⟩ := hguard
  have hbatch := h.waiting_batch hwaiting
  -- an edge of a readable pipe is reported now or kept
  have hkept : w.edge = true → 0 < w.fill → Event.pipe ∉ events →
      (w.edge && !decide (Event.pipe ∈ events) && !decide (w.fill = 0)) = true := by
    intro hedge hfill hpipe
    rw [hedge, decide_eq_false hpipe, decide_eq_false (by omega : ¬ w.fill = 0)]
    rfl
  refine ⟨h.fill_le, fun hstage => absurd hstage (by simp), ?_, ?_⟩
  · intro hfull
    have hfull : w.fill = capacity := hfull
    by_cases hpipe : Event.pipe ∈ events
    · exact Or.inr (Or.inl hpipe)
    · rcases h.full hfull with hedge | hmem | hreading
      · exact Or.inl (hkept hedge (by omega) hpipe)
      · rw [hbatch] at hmem
        exact absurd hmem (List.not_mem_nil)
      · rw [hwaiting] at hreading
        exact absurd hreading (by simp)
  · intro q hq
    by_cases hpipe : Event.pipe ∈ events
    · exact Or.inr (Or.inl (Or.inl hpipe))
    · rcases h.awaited q hq with ⟨hedge, hfill⟩ | hswap | hproducer
      · exact Or.inl ⟨hkept hedge hfill hpipe, hfill⟩
      · rw [hbatch, hwaiting] at hswap
        rcases hswap with hmem | hfalse
        · exact absurd hmem (List.not_mem_nil)
        · exact hfalse.elim
      · exact Or.inr (Or.inr hproducer)

/-- A step that moves the reactor thread on without a swap or a read keeps the
invariant if it forgets no reported edge. -/
theorem move (h : w.Invariant capacity) {batch : List Event} {stage : Stage}
    (hwaiting : stage = .waiting → batch = [])
    (hread : Event.pipe ∈ w.batch ∨ w.stage = .readingPipe →
      Event.pipe ∈ batch ∨ stage = .readingPipe)
    (hswap : ∀ q, Event.pipe ∈ w.batch ∨ w.stage.BeforeSwap q →
      Event.pipe ∈ batch ∨ stage.BeforeSwap q) :
    ({ w with batch := batch, stage := stage } : WakeUp).Invariant capacity := by
  refine ⟨h.fill_le, hwaiting, ?_, ?_⟩
  · intro hfull
    exact (h.full hfull).imp id hread
  · intro q hq
    exact (h.awaited q hq).imp id (Or.imp (hswap q) id)

/-- A step between two stages that neither precede a swap nor read the pipe. -/
theorem pass (h : w.Invariant capacity) {stage : Stage} (hwaiting : stage ≠ .waiting)
    (hread : w.stage ≠ .readingPipe) (hswap : ∀ q, ¬ w.stage.BeforeSwap q) :
    ({ w with stage := stage } : WakeUp).Invariant capacity :=
  h.move (fun hs => absurd hs hwaiting) (Or.imp id fun hs => absurd hs hread)
    (fun q => Or.imp id fun hs => absurd hs (hswap q))

/-- Taking the next event of the batch. -/
theorem dispatch (h : w.Invariant capacity) (hstage : w.stage = .dispatching) {event : Event}
    {rest : List Event} (hbatch : w.batch = event :: rest) {stage : Stage}
    (hwaiting : stage ≠ .waiting) (hpipe : event = .pipe → stage = .readingPipe) :
    ({ w with batch := rest, stage := stage } : WakeUp).Invariant capacity := by
  -- the pipe's event is the one taken, or still in the batch
  have hmem : Event.pipe ∈ w.batch → Event.pipe ∈ rest ∨ stage = .readingPipe := by
    intro hp
    rw [hbatch] at hp
    rcases List.mem_cons.mp hp with hp | hp
    · exact Or.inr (hpipe hp.symm)
    · exact Or.inl hp
  refine h.move (fun hs => absurd hs hwaiting) ?_ ?_
  · rintro (hp | hs)
    · exact hmem hp
    · rw [hstage] at hs
      exact absurd hs (by simp)
  · rintro q (hp | hs)
    · refine (hmem hp).imp id ?_
      rintro rfl
      exact trivial
    · rw [hstage] at hs
      exact hs.elim

/-- Reading the pipe leaves room in it, and both swaps are still to come. -/
theorem readPipe (hcap : 1 ≤ capacity) (h : w.Invariant capacity) :
    ({ w with fill := w.fill - min 1024 w.fill, stage := .swappingNew } : WakeUp).Invariant
      capacity where
  fill_le := (Nat.sub_le _ _).trans h.fill_le
  waiting_batch := fun hs => absurd hs (by simp)
  full := by
    intro hfull
    have hfull : w.fill - min 1024 w.fill = capacity := hfull
    have := h.fill_le
    omega
  awaited := fun q _ => Or.inr (Or.inl (Or.inr trivial))

/-- Swapping a queue empties it; the other queue is awaited as before, if its swap was
not the one just made. -/
theorem swap (h : w.Invariant capacity) (q : Queue) {stage : Stage} (hwaiting : stage ≠ .waiting)
    (hread : w.stage ≠ .readingPipe)
    (hother : ∀ p, p ≠ q → w.stage.BeforeSwap p → stage.BeforeSwap p) :
    ({ w with queue := Function.update w.queue q [], stage := stage } : WakeUp).Invariant
      capacity := by
  refine ⟨h.fill_le, fun hs => absurd hs hwaiting, ?_, ?_⟩
  · intro hfull
    exact (h.full hfull).imp id (Or.imp id fun hs => absurd hs hread)
  · intro p hp
    by_cases hpq : p = q
    · subst hpq
      exact absurd (Function.update_self p [] w.queue) hp
    · have hp' : w.queue p ≠ [] := by
        intro hempty
        exact hp ((Function.update_of_ne hpq _ _).trans hempty)
      exact (h.awaited p hp').imp id (Or.imp (Or.imp id (hother p hpq)) id)

/-- **A step of the reactor thread** keeps the invariant. -/
theorem proceed (hcap : 1 ≤ capacity) (h : w.Invariant capacity) (hstep : w.proceed = some w') :
    w'.Invariant capacity := by
  cases proceeds_of_proceed hstep with
  | wait hstage hbatch =>
    refine h.move (fun _ => hbatch) ?_ ?_
    · rintro (hp | hs)
      · exact Or.inl hp
      · exact absurd (hstage.symm.trans hs) (by simp)
    · rintro q (hp | hs)
      · exact Or.inl hp
      · rw [hstage] at hs
        exact hs.elim
  | dispatch event rest hstage hbatch =>
    refine h.dispatch hstage hbatch ?_ ?_
    · cases event <;> simp [Event.stage]
    · rintro rfl
      rfl
  | handle stage hnext =>
    refine h.pass (ne_waiting_of_following hnext) ?_ (not_beforeSwap_of_following hnext)
    intro hstage
    exact not_beforeSwap_of_following hnext .sendQueue (hstage ▸ trivial)
  | readPipe hstage => exact h.readPipe hcap
  | swapNew hstage =>
    apply h.swap .newConnections (by simp) (by simp [hstage])
    intro p hp _
    cases p with
    | newConnections => exact absurd rfl hp
    | sendQueue => exact rfl
  | swapSend hstage =>
    apply h.swap .sendQueue (by simp) (by simp [hstage])
    intro p hp hs
    rw [hstage] at hs
    exact absurd hs hp
  | accept fds hstage hfds => apply h.move <;> simp [hstage, Stage.BeforeSwap]
  | accepted hstage => apply h.move <;> simp [hstage, Stage.BeforeSwap]
  | drain fds hstage hfds =>
    exact h.pass (by simp) (by simp [hstage]) (by simp [hstage, Stage.BeforeSwap])
  | drained hstage =>
    exact h.pass (by simp) (by simp [hstage]) (by simp [hstage, Stage.BeforeSwap])

/-- Turning to `onDisconnected` keeps the invariant. -/
theorem disconnect (h : w.Invariant capacity) (hstep : w.disconnect = some w') :
    w'.Invariant capacity := by
  unfold WakeUp.disconnect at hstep
  split at hstep
  · obtain rfl := Option.some.inj hstep
    rename_i hstage
    exact h.pass (by simp) (by simp [hstage]) (by simp [hstage, Stage.BeforeSwap])
  · exact absurd hstep.symm (Option.some_ne_none _)

/-- **Every step** of a producer or of the reactor thread keeps the invariant. -/
theorem next (hcap : 1 ≤ capacity) (h : w.Invariant capacity) {a : Action}
    (hstep : w.next capacity a = some w') : w'.Invariant capacity := by
  cases a with
  | push => exact h.push hstep
  | notify => exact h.notify hcap hstep
  | epollWait => exact h.epollWait hcap hstep
  | proceed => exact h.proceed hcap hstep
  | disconnect => exact h.disconnect hstep

end Invariant

/-- The invariant holds along every run. -/
theorem invariant_of_reachable (hcap : 1 ≤ capacity) (h : (system capacity).Reachable w) :
    w.Invariant capacity := by
  apply Reachable.invariant (P := Invariant capacity) _ _ h
  · rintro w rfl
    exact invariant_start hcap
  · intro w a w' hw hstep
    exact hw.next hcap hstep

/-- **No wake-up is lost.**  In every reachable state a queue that is not empty is
awaited, whatever the producers and the reactor thread did and in which order. -/
theorem awaited_of_reachable (hcap : 1 ≤ capacity) (h : (system capacity).Reachable w) (q : Queue)
    (hq : w.queue q ≠ []) : w.Awaited q :=
  (invariant_of_reachable hcap h).awaited q hq

/-- Two producers fill a pipe of one byte; the second write fails. -/
def fullPipe : List Action :=
  [.push 0 .sendQueue 5, .push 1 .newConnections 6, .notify 0, .notify 1]

/-- The descriptor whose write failed is awaited by the edge of the other one. -/
theorem awaited_fullPipe :
    ∃ w, (system 1).Reachable w ∧ w.queue .newConnections = [6] ∧ w.producers 1 = none ∧
      w.Awaited .newConnections := by
  have hrun : ∃ w ∈ runFrom (next 1) (fun _ _ => True) start fullPipe,
      w.queue .newConnections = [6] ∧ w.producers 1 = none := by decide +kernel
  obtain ⟨w, hreach, hqueue, hproducer⟩ := exists_of_runFrom hrun
  refine ⟨w, hreach, hqueue, hproducer, awaited_of_reachable (le_refl 1) hreach _ ?_⟩
  rw [hqueue]
  exact List.cons_ne_nil _ _

end WakeUp

end Muduo
