/-
# The task queue of an event loop

`EventLoop::Run`, `ExecTaskInLoop` and `PushTaskToQueue` of `server.hpp`.  A thread pushes a
task under the mutex and then writes to an eventfd; the loop thread waits in `epoll_wait`,
reads the eventfd in a handler of its own, and swaps the queue after all handlers.  Tasks and
handlers may push, and a write to a saturated eventfd fails in silence.
-/
import FastServer.TransitionSystem

open TransitionSystem

namespace Reactor

variable {τ : Type*}

/-! ## State -/

/-- Where a thread stands in `PushTaskToQueue`. -/
inductive PushPoint (τ : Type*)
  | outside
  | locking (task : τ)
  | appending (task : τ)
  | unlocking
  | writing
deriving DecidableEq

/-- A channel that is active: that of the eventfd, or that of another descriptor. -/
inductive LoopChannel
  | eventfd
  | other (fd : ℕ)
deriving DecidableEq

/-- Where the loop thread stands in `Run`; `starting` is before it.  `actives` are the
channels that are still to be handled, `tasks` is the local vector of `ExecTaskInQueue`. -/
inductive RunPoint (τ : Type*)
  | starting
  | waiting
  | dispatching (actives : List LoopChannel)
  | reading (actives : List LoopChannel)
  | handling (fd : ℕ) (actives : List LoopChannel)
  | locking
  | swapping
  | unlocking (tasks : List τ)
  | running (tasks : List τ)
  | executing (task : τ) (tasks : List τ)
deriving DecidableEq

/-- An `EventLoop` and the threads that push to it.  A task is recorded with the thread that
pushed it: when the thread calls `PushTaskToQueue`, when the task enters `tasks_`, and when it
is executed from there, then with the thread that executes it; `direct` are the tasks that
`ExecTaskInLoop` executed at once. -/
structure EventLoop (τ : Type*) where
  tasks : List (ℕ × τ)
  mutex : Option ℕ
  eventfd : ℕ
  pushers : ℕ → PushPoint τ
  run : RunPoint (ℕ × τ)
  called : List (ℕ × τ)
  entered : List (ℕ × τ)
  executed : List (ℕ × (ℕ × τ))
  direct : List (ℕ × τ)

/-- Not in `PushTaskToQueue`. -/
def PushPoint.isOutside : PushPoint τ → Bool
  | .outside => true
  | _ => false

/-- The task that a thread has not pushed yet. -/
def PushPoint.pending (tid : ℕ) : PushPoint τ → List (ℕ × τ)
  | .locking task | .appending task => [(tid, task)]
  | _ => []

/-- Between the push and the write to the eventfd. -/
def PushPoint.Pushed : PushPoint τ → Prop
  | .unlocking | .writing => True
  | _ => False

/-- The tasks that were swapped out and not executed. -/
def RunPoint.batch : RunPoint τ → List τ
  | .unlocking tasks | .running tasks | .executing _ tasks => tasks
  | _ => []

/-- The loop thread is in a handler, in a task, or in the code before `Run`. -/
def RunPoint.InCode : RunPoint τ → Prop
  | .starting | .handling _ _ | .executing _ _ => True
  | _ => False

instance (p : RunPoint τ) : Decidable p.InCode := by
  cases p <;> unfold RunPoint.InCode <;> infer_instance

/-- The loop has returned from `epoll_wait` and not yet swapped `tasks_`. -/
def RunPoint.BeforeSwap : RunPoint τ → Prop
  | .dispatching _ | .reading _ | .handling _ _ | .locking | .swapping => True
  | _ => False

namespace EventLoop

/-- A new loop. -/
def start : EventLoop τ := ⟨[], none, 0, fun _ => .outside, .starting, [], [], [], []⟩

/-- The largest counter of an eventfd. -/
def eventfdMax : ℕ := 2 ^ 64 - 2

/-! ## Steps -/

/-- `PushTaskToQueue` is called. -/
def pushTaskToQueue (s : EventLoop τ) (tid : ℕ) (task : τ) : EventLoop τ :=
  { s with
    pushers := Function.update s.pushers tid (.locking task)
    called := s.called ++ [(tid, task)] }

/-- `ExecTaskInLoop` is called. -/
def execTaskInLoop (thread_id : ℕ) (s : EventLoop τ) (tid : ℕ) (task : τ) : EventLoop τ :=
  if tid = thread_id then { s with direct := s.direct ++ [(tid, task)] }
  else s.pushTaskToQueue tid task

/-- `WriteEventfd`. -/
def writeEventfd (s : EventLoop τ) : EventLoop τ :=
  if s.eventfd < eventfdMax then { s with eventfd := s.eventfd + 1 } else s

/-- The next step of a thread in `PushTaskToQueue`. -/
def push (s : EventLoop τ) (tid : ℕ) : Option (EventLoop τ) :=
  match s.pushers tid with
  | .outside => none
  | .locking task =>
      match s.mutex with
      | none => some { s with
          mutex := some tid, pushers := Function.update s.pushers tid (.appending task) }
      | some _ => none
  | .appending task => some { s with
      tasks := s.tasks ++ [(tid, task)]
      entered := s.entered ++ [(tid, task)]
      pushers := Function.update s.pushers tid .unlocking }
  | .unlocking => some { s with
      mutex := none, pushers := Function.update s.pushers tid .writing }
  | .writing => some { s.writeEventfd with pushers := Function.update s.pushers tid .outside }

/-- The next step of the loop thread in `Run`, `ReadEventfd` and `ExecTaskInQueue`. -/
def proceed (thread_id : ℕ) (s : EventLoop τ) : Option (EventLoop τ) :=
  match s.run with
  | .starting => some { s with run := .waiting }
  | .waiting => none
  | .dispatching [] => some { s with run := .locking }
  | .dispatching (.eventfd :: actives) => some { s with run := .reading actives }
  | .dispatching (.other fd :: actives) => some { s with run := .handling fd actives }
  | .reading actives => some { s with eventfd := 0, run := .dispatching actives }
  | .handling _ actives => some { s with run := .dispatching actives }
  | .locking =>
      match s.mutex with
      | none => some { s with mutex := some thread_id, run := .swapping }
      | some _ => none
  | .swapping => some { s with tasks := [], run := .unlocking s.tasks }
  | .unlocking tasks => some { s with mutex := none, run := .running tasks }
  | .running [] => some { s with run := .waiting }
  | .running (task :: tasks) => some { s with
      run := .executing task tasks, executed := s.executed ++ [(thread_id, task)] }
  | .executing _ tasks => some { s with run := .running tasks }

/-- The read of the eventfd fails. -/
def interrupt (s : EventLoop τ) : Option (EventLoop τ) :=
  match s.run with
  | .reading actives => some { s with run := .dispatching actives }
  | _ => none

/-- `epoll_wait` returns with some channels, that of the eventfd only if it is readable, or
without any if it fails. -/
def epollWait (s : EventLoop τ) (actives : List LoopChannel) : Option (EventLoop τ) :=
  match s.run with
  | .waiting =>
      if .eventfd ∈ actives → 0 < s.eventfd then some { s with run := .dispatching actives }
      else none
  | _ => none

/-- A step of one thread. -/
inductive Action (τ : Type*)
  | pushTaskToQueue (tid : ℕ) (task : τ)
  | execTaskInLoop (tid : ℕ) (task : τ)
  | push (tid : ℕ)
  | proceed
  | interrupt
  | epollWait (actives : List LoopChannel)
deriving DecidableEq

/-- A thread can make a call; the loop thread only where it runs code of the user. -/
def CanCall (thread_id : ℕ) (s : EventLoop τ) (tid : ℕ) : Prop :=
  (s.pushers tid).isOutside = true ∧ (tid = thread_id → s.run.InCode)

instance (thread_id : ℕ) (s : EventLoop τ) (tid : ℕ) : Decidable (s.CanCall thread_id tid) :=
  inferInstanceAs (Decidable (_ ∧ _))

/-- The state after a step, if it is enabled.  The loop thread goes on in `Run` when it is not
in `PushTaskToQueue`. -/
def next (thread_id : ℕ) (s : EventLoop τ) : Action τ → Option (EventLoop τ)
  | .pushTaskToQueue tid task =>
      if s.CanCall thread_id tid then some (s.pushTaskToQueue tid task) else none
  | .execTaskInLoop tid task =>
      if s.CanCall thread_id tid then some (s.execTaskInLoop thread_id tid task) else none
  | .push tid => s.push tid
  | .proceed => if (s.pushers thread_id).isOutside then s.proceed thread_id else none
  | .interrupt => s.interrupt
  | .epollWait actives => s.epollWait actives

/-- The threads and the loop, whose thread is `thread_id`. -/
def system (thread_id : ℕ) : TransitionSystem (EventLoop τ) (Action τ) :=
  .ofFunction start (next thread_id)

/-! ## The properties -/

/-- The tasks that entered the queue are those executed, those swapped out and those in the
queue, in this order; what is executed is executed on the loop thread; and the tasks of each
thread enter in the order of its calls. -/
structure InOrder (thread_id : ℕ) (s : EventLoop τ) : Prop where
  once : s.entered = s.executed.map Prod.snd ++ s.run.batch ++ s.tasks
  thread : ∀ e ∈ s.executed, e.1 = thread_id
  direct : ∀ e ∈ s.direct, e.1 = thread_id
  calls : ∀ tid, s.called.filter (·.1 = tid) =
    s.entered.filter (·.1 = tid) ++ (s.pushers tid).pending tid

/-- No wake-up is lost. -/
def Awake (s : EventLoop τ) : Prop :=
  s.tasks ≠ [] → 0 < s.eventfd ∨ s.run.BeforeSwap ∨ ∃ tid, (s.pushers tid).Pushed

/-! ## The kinds of steps -/

/-- The kinds of step of the loop thread in `Run`. -/
inductive Proceeds (thread_id : ℕ) (s : EventLoop τ) : EventLoop τ → Prop
  | start : s.run = .starting → Proceeds thread_id s { s with run := .waiting }
  | handled : s.run = .dispatching [] → Proceeds thread_id s { s with run := .locking }
  | dispatchEventfd (actives : List LoopChannel) : s.run = .dispatching (.eventfd :: actives) →
      Proceeds thread_id s { s with run := .reading actives }
  | dispatchOther (fd : ℕ) (actives : List LoopChannel) :
      s.run = .dispatching (.other fd :: actives) →
      Proceeds thread_id s { s with run := .handling fd actives }
  | read (actives : List LoopChannel) : s.run = .reading actives →
      Proceeds thread_id s { s with eventfd := 0, run := .dispatching actives }
  | handle (fd : ℕ) (actives : List LoopChannel) : s.run = .handling fd actives →
      Proceeds thread_id s { s with run := .dispatching actives }
  | lock : s.run = .locking →
      Proceeds thread_id s { s with mutex := some thread_id, run := .swapping }
  | swap : s.run = .swapping → Proceeds thread_id s { s with tasks := [], run := .unlocking s.tasks }
  | unlock (tasks : List (ℕ × τ)) : s.run = .unlocking tasks →
      Proceeds thread_id s { s with mutex := none, run := .running tasks }
  | finish : s.run = .running [] → Proceeds thread_id s { s with run := .waiting }
  | execute (task : ℕ × τ) (tasks : List (ℕ × τ)) : s.run = .running (task :: tasks) →
      Proceeds thread_id s { s with
        run := .executing task tasks, executed := s.executed ++ [(thread_id, task)] }
  | executed (task : ℕ × τ) (tasks : List (ℕ × τ)) : s.run = .executing task tasks →
      Proceeds thread_id s { s with run := .running tasks }

/-- The kinds of step of a thread in `PushTaskToQueue`. -/
inductive Pushes (s : EventLoop τ) (tid : ℕ) : EventLoop τ → Prop
  | lock (task : τ) : s.pushers tid = .locking task → Pushes s tid { s with
      mutex := some tid, pushers := Function.update s.pushers tid (.appending task) }
  | append (task : τ) : s.pushers tid = .appending task → Pushes s tid { s with
      tasks := s.tasks ++ [(tid, task)]
      entered := s.entered ++ [(tid, task)]
      pushers := Function.update s.pushers tid .unlocking }
  | unlock : s.pushers tid = .unlocking → Pushes s tid { s with
      mutex := none, pushers := Function.update s.pushers tid .writing }
  | write (eventfd : ℕ) : s.pushers tid = .writing → 0 < eventfd → s.eventfd ≤ eventfd →
      Pushes s tid { s with
        eventfd := eventfd, pushers := Function.update s.pushers tid .outside }

/-- The kinds of steps. -/
inductive Turn (thread_id : ℕ) (s : EventLoop τ) : Action τ → EventLoop τ → Prop
  | call (a : Action τ) (tid : ℕ) (task : τ) :
      a = .pushTaskToQueue tid task ∨ a = .execTaskInLoop tid task → s.pushers tid = .outside →
      Turn thread_id s a (s.pushTaskToQueue tid task)
  | direct (task : τ) : Turn thread_id s (.execTaskInLoop thread_id task)
      { s with direct := s.direct ++ [(thread_id, task)] }
  | push (tid : ℕ) (s' : EventLoop τ) : s.Pushes tid s' → Turn thread_id s (.push tid) s'
  | proceed (s' : EventLoop τ) : s.Proceeds thread_id s' → Turn thread_id s .proceed s'
  | interrupt (actives : List LoopChannel) : s.run = .reading actives →
      Turn thread_id s .interrupt { s with run := .dispatching actives }
  | epollWait (actives : List LoopChannel) : s.run = .waiting →
      Turn thread_id s (.epollWait actives) { s with run := .dispatching actives }

variable {thread_id : ℕ} {s s' : EventLoop τ}

theorem proceeds_of_proceed (hstep : s.proceed thread_id = some s') : s.Proceeds thread_id s' := by
  unfold proceed at hstep
  split at hstep
  case h_1 hrun => exact Option.some.inj hstep ▸ .start hrun
  case h_2 => cases hstep
  case h_3 hrun => exact Option.some.inj hstep ▸ .handled hrun
  case h_4 actives hrun => exact Option.some.inj hstep ▸ .dispatchEventfd actives hrun
  case h_5 fd actives hrun => exact Option.some.inj hstep ▸ .dispatchOther fd actives hrun
  case h_6 actives hrun => exact Option.some.inj hstep ▸ .read actives hrun
  case h_7 fd actives hrun => exact Option.some.inj hstep ▸ .handle fd actives hrun
  case h_8 hrun =>
    split at hstep
    · exact Option.some.inj hstep ▸ .lock hrun
    · cases hstep
  case h_9 hrun => exact Option.some.inj hstep ▸ .swap hrun
  case h_10 tasks hrun => exact Option.some.inj hstep ▸ .unlock tasks hrun
  case h_11 hrun => exact Option.some.inj hstep ▸ .finish hrun
  case h_12 task tasks hrun => exact Option.some.inj hstep ▸ .execute task tasks hrun
  case h_13 task tasks hrun => exact Option.some.inj hstep ▸ .executed task tasks hrun

theorem pushes_of_push {tid : ℕ} (hstep : s.push tid = some s') : s.Pushes tid s' := by
  unfold push at hstep
  split at hstep
  case h_1 => cases hstep
  case h_2 task hpoint =>
    split at hstep
    · exact Option.some.inj hstep ▸ .lock task hpoint
    · cases hstep
  case h_3 task hpoint => exact Option.some.inj hstep ▸ .append task hpoint
  case h_4 hpoint => exact Option.some.inj hstep ▸ .unlock hpoint
  case h_5 hpoint =>
    -- the counter of a saturated eventfd stays, and is positive
    rw [writeEventfd] at hstep
    by_cases hsaturated : s.eventfd < eventfdMax
    · rw [if_pos hsaturated] at hstep
      exact Option.some.inj hstep ▸ .write _ hpoint (Nat.succ_pos _) (Nat.le_succ _)
    · rw [if_neg hsaturated] at hstep
      have hpositive : 0 < s.eventfd :=
        lt_of_lt_of_le (show 0 < eventfdMax by decide) (not_lt.mp hsaturated)
      exact Option.some.inj hstep ▸ .write s.eventfd hpoint hpositive le_rfl

/-- **A step** is of one of these kinds. -/
theorem turn_of_next {a : Action τ} (hstep : next thread_id s a = some s') :
    s.Turn thread_id a s' := by
  have houtside : ∀ tid, s.CanCall thread_id tid → s.pushers tid = .outside := by
    intro tid hcan
    have hpoint := hcan.1
    cases hcase : s.pushers tid <;> rw [hcase] at hpoint <;> first | rfl | cases hpoint
  cases a with
  | pushTaskToQueue tid task =>
    obtain ⟨hcan, heq⟩ := Option.ite_none_right_eq_some.mp hstep
    exact Option.some.inj heq ▸ .call _ tid task (Or.inl rfl) (houtside tid hcan)
  | execTaskInLoop tid task =>
    obtain ⟨hcan, heq⟩ := Option.ite_none_right_eq_some.mp hstep
    rw [execTaskInLoop] at heq
    by_cases hloop : tid = thread_id
    · rw [if_pos hloop] at heq
      subst hloop
      exact Option.some.inj heq ▸ .direct task
    · rw [if_neg hloop] at heq
      exact Option.some.inj heq ▸ .call _ tid task (Or.inr rfl) (houtside tid hcan)
  | push tid => exact .push tid s' (pushes_of_push hstep)
  | proceed => exact .proceed s' (proceeds_of_proceed (Option.ite_none_right_eq_some.mp hstep).2)
  | interrupt =>
    simp only [next, interrupt] at hstep
    split at hstep
    case h_1 actives hrun => exact Option.some.inj hstep ▸ .interrupt actives hrun
    case h_2 => cases hstep
  | epollWait actives =>
    simp only [next, epollWait] at hstep
    split at hstep
    case h_1 hrun =>
      obtain ⟨-, heq⟩ := Option.ite_none_right_eq_some.mp hstep
      exact Option.some.inj heq ▸ .epollWait actives hrun
    case h_2 => cases hstep

/-! ## Order and wake-ups -/

theorem inOrder_start : (start : EventLoop τ).InOrder thread_id where
  once := rfl
  thread := fun _ he => absurd he List.not_mem_nil
  direct := fun _ he => absurd he List.not_mem_nil
  calls := fun _ => rfl

theorem awake_start : (start : EventLoop τ).Awake := fun htasks => absurd rfl htasks

namespace InOrder

/-- A step of the loop thread that executes nothing and swaps nothing. -/
theorem of_run (h : s.InOrder thread_id) {mutex : Option ℕ} {eventfd : ℕ}
    {run : RunPoint (ℕ × τ)} (hbatch : run.batch = s.run.batch) :
    InOrder thread_id { s with mutex := mutex, eventfd := eventfd, run := run } where
  once := h.once.trans (by rw [hbatch])
  thread := h.thread
  direct := h.direct
  calls := h.calls

/-- The loop thread goes on. -/
theorem proceeds (h : s.InOrder thread_id) (hstep : s.Proceeds thread_id s') :
    s'.InOrder thread_id := by
  cases hstep with
  | start hrun => exact h.of_run (by rw [hrun]; rfl)
  | handled hrun => exact h.of_run (by rw [hrun]; rfl)
  | dispatchEventfd actives hrun => exact h.of_run (by rw [hrun]; rfl)
  | dispatchOther fd actives hrun => exact h.of_run (by rw [hrun]; rfl)
  | read actives hrun => exact h.of_run (by rw [hrun]; rfl)
  | handle fd actives hrun => exact h.of_run (by rw [hrun]; rfl)
  | lock hrun => exact h.of_run (by rw [hrun]; rfl)
  | swap hrun =>
    -- the queue becomes the batch
    refine ⟨?_, h.thread, h.direct, h.calls⟩
    have honce := h.once
    rw [hrun] at honce
    rw [honce]
    simp [RunPoint.batch]
  | unlock tasks hrun => exact h.of_run (by rw [hrun]; rfl)
  | finish hrun => exact h.of_run (by rw [hrun]; rfl)
  | execute task tasks hrun =>
    -- the first task of the batch becomes the last one executed
    refine ⟨?_, fun e he => ?_, h.direct, h.calls⟩
    · have honce := h.once
      rw [hrun] at honce
      rw [honce]
      simp [RunPoint.batch]
    · rcases List.mem_append.mp he with he | he
      · exact h.thread e he
      · rw [List.mem_singleton.mp he]
  | executed task tasks hrun => exact h.of_run (by rw [hrun]; rfl)

/-- Only the point of one thread matters for its calls. -/
theorem calls_update (h : s.InOrder thread_id) {tid : ℕ} {point : PushPoint τ}
    {called entered : List (ℕ × τ)}
    (hself : (called.filter (·.1 = tid)) = entered.filter (·.1 = tid) ++ point.pending tid)
    (hcalled : ∀ tid', tid' ≠ tid → called.filter (·.1 = tid') = s.called.filter (·.1 = tid'))
    (hentered : ∀ tid', tid' ≠ tid → entered.filter (·.1 = tid') = s.entered.filter (·.1 = tid')) :
    ∀ tid', called.filter (·.1 = tid') = entered.filter (·.1 = tid') ++
      (Function.update s.pushers tid point tid').pending tid' := by
  intro tid'
  by_cases htid : tid' = tid
  · subst htid
    rw [Function.update_self]
    exact hself
  · rw [Function.update_of_ne htid, hcalled tid' htid, hentered tid' htid]
    exact h.calls tid'

/-- A task of another thread at the end. -/
theorem filter_append_other {l : List (ℕ × τ)} {tid tid' : ℕ} {task : τ} (htid : tid' ≠ tid) :
    (l ++ [(tid, task)]).filter (·.1 = tid') = l.filter (·.1 = tid') := by
  simp [htid.symm]

/-- A thread goes on in `PushTaskToQueue`. -/
theorem pushes (h : s.InOrder thread_id) {tid : ℕ} (hstep : s.Pushes tid s') :
    s'.InOrder thread_id := by
  have hcalls := h.calls tid
  cases hstep with
  | lock task hpoint =>
    rw [hpoint] at hcalls
    exact ⟨h.once, h.thread, h.direct,
      h.calls_update hcalls (fun _ _ => rfl) fun _ _ => rfl⟩
  | append task hpoint =>
    rw [hpoint] at hcalls
    refine ⟨?_, h.thread, h.direct, h.calls_update ?_ (fun _ _ => rfl)
      fun _ htid => filter_append_other htid⟩
    · show s.entered ++ [(tid, task)] = _
      rw [h.once, List.append_assoc]
    · rw [hcalls]
      simp [PushPoint.pending]
  | unlock hpoint =>
    rw [hpoint] at hcalls
    exact ⟨h.once, h.thread, h.direct,
      h.calls_update hcalls (fun _ _ => rfl) fun _ _ => rfl⟩
  | write eventfd hpoint hpositive hle =>
    rw [hpoint] at hcalls
    exact ⟨h.once, h.thread, h.direct,
      h.calls_update hcalls (fun _ _ => rfl) fun _ _ => rfl⟩

/-- **The order is kept** by every step. -/
theorem next (h : s.InOrder thread_id) {a : Action τ}
    (hstep : EventLoop.next thread_id s a = some s') : s'.InOrder thread_id := by
  have hturn := turn_of_next hstep
  cases hturn with
  | call _ tid task _ hpoint =>
    have hcalls := h.calls tid
    rw [hpoint] at hcalls
    refine ⟨h.once, h.thread, h.direct, h.calls_update ?_
      (fun _ htid => filter_append_other htid) fun _ _ => rfl⟩
    show (s.called ++ [(tid, task)]).filter _ = s.entered.filter _ ++ _
    rw [List.filter_append, hcalls]
    simp [PushPoint.pending]
  | direct task =>
    refine ⟨h.once, h.thread, fun e he => ?_, h.calls⟩
    rcases List.mem_append.mp he with he | he
    · exact h.direct e he
    · rw [List.mem_singleton.mp he]
  | push tid _ hpushes => exact h.pushes hpushes
  | proceed _ hproceeds => exact h.proceeds hproceeds
  | interrupt actives hrun => exact h.of_run (by rw [hrun]; rfl)
  | epollWait actives hrun => exact h.of_run (by rw [hrun]; rfl)

end InOrder

namespace Awake

/-- A wake-up that is still to come stays, wherever the loop is before its swap. -/
theorem of_beforeSwap (hswap : s.run.BeforeSwap) : s.Awake := fun _ => Or.inr (Or.inl hswap)

/-- The loop goes on outside the part before the swap. -/
theorem of_run (h : s.Awake) {mutex : Option ℕ} {run : RunPoint (ℕ × τ)}
    (hswap : ¬ s.run.BeforeSwap) : Awake { s with mutex := mutex, run := run } := by
  intro htasks
  rcases h htasks with hfd | hbefore | hpushed
  · exact Or.inl hfd
  · exact absurd hbefore hswap
  · exact Or.inr (Or.inr hpushed)

/-- The loop thread goes on. -/
theorem proceeds (h : s.Awake) (hstep : s.Proceeds thread_id s') : s'.Awake := by
  cases hstep with
  | start hrun => exact h.of_run (by rw [hrun]; exact id)
  | handled hrun => exact of_beforeSwap trivial
  | dispatchEventfd actives hrun => exact of_beforeSwap trivial
  | dispatchOther fd actives hrun => exact of_beforeSwap trivial
  | read actives hrun => exact of_beforeSwap trivial
  | handle fd actives hrun => exact of_beforeSwap trivial
  | lock hrun => exact of_beforeSwap trivial
  | swap hrun => exact fun htasks => absurd rfl htasks
  | unlock tasks hrun => exact h.of_run (by rw [hrun]; exact id)
  | finish hrun => exact h.of_run (by rw [hrun]; exact id)
  | execute task tasks hrun =>
    have hmoved : Awake { s with run := .executing task tasks } :=
      h.of_run (by rw [hrun]; exact id)
    exact hmoved
  | executed task tasks hrun => exact h.of_run (by rw [hrun]; exact id)

/-- Another thread moves on, and leaves a wake-up behind if it had one to come. -/
theorem of_pusher (h : s.Awake) {tid : ℕ} {point : PushPoint τ} {mutex : Option ℕ} {eventfd : ℕ}
    (hfd : s.eventfd ≤ eventfd) (hpushed : (s.pushers tid).Pushed → point.Pushed ∨ 0 < eventfd)
    {called entered : List (ℕ × τ)} : Awake { s with
      mutex := mutex, eventfd := eventfd, called := called, entered := entered
      pushers := Function.update s.pushers tid point } := by
  intro htasks
  rcases h htasks with hpositive | hbefore | ⟨tid', hpushed'⟩
  · exact Or.inl (hpositive.trans_le hfd)
  · exact Or.inr (Or.inl hbefore)
  · by_cases htid : tid' = tid
    · subst htid
      rcases hpushed hpushed' with hpoint | hpositive
      · refine Or.inr (Or.inr ⟨tid', ?_⟩)
        show (Function.update s.pushers tid' point tid').Pushed
        rwa [Function.update_self]
      · exact Or.inl hpositive
    · refine Or.inr (Or.inr ⟨tid', ?_⟩)
      show (Function.update s.pushers tid point tid').Pushed
      rwa [Function.update_of_ne htid]

/-- A thread goes on in `PushTaskToQueue`. -/
theorem pushes (h : s.Awake) {tid : ℕ} (hstep : s.Pushes tid s') : s'.Awake := by
  cases hstep with
  | lock task hpoint => exact h.of_pusher le_rfl (by rw [hpoint]; exact False.elim)
  | append task hpoint =>
    -- the write to the eventfd is still to come
    refine fun _ => Or.inr (Or.inr ⟨tid, ?_⟩)
    show (Function.update s.pushers tid PushPoint.unlocking tid).Pushed
    rw [Function.update_self]
    trivial
  | unlock hpoint =>
    have hwriting : (PushPoint.writing : PushPoint τ).Pushed := trivial
    exact h.of_pusher le_rfl fun _ => Or.inl hwriting
  | write eventfd hpoint hpositive hle => exact h.of_pusher hle fun _ => Or.inr hpositive

/-- **No step loses a wake-up.** -/
theorem next (h : s.Awake) {a : Action τ} (hstep : EventLoop.next thread_id s a = some s') :
    s'.Awake := by
  have hturn := turn_of_next hstep
  cases hturn with
  | call _ tid task _ hpoint => exact h.of_pusher le_rfl (by rw [hpoint]; exact False.elim)
  | direct task => exact h
  | push tid _ hpushes => exact h.pushes hpushes
  | proceed _ hproceeds => exact h.proceeds hproceeds
  | interrupt actives hrun => exact of_beforeSwap trivial
  | epollWait actives hrun => exact of_beforeSwap trivial

end Awake

/-- Both hold in every state. -/
theorem inOrder_awake (h : (system thread_id).Reachable s) : s.InOrder thread_id ∧ s.Awake := by
  refine Reachable.invariant (P := fun s => s.InOrder thread_id ∧ s.Awake) ?_ ?_ h
  · rintro s rfl
    exact ⟨inOrder_start, awake_start⟩
  · exact fun s a s' hs hstep => ⟨hs.1.next hstep, hs.2.next hstep⟩

end EventLoop

end Reactor
