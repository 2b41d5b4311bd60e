/-
# The thread pool

`ThreadPool` of `system.cpp`.  A worker tests `running` without the mutex before each task, and
again under the mutex before it waits; the destructor clears the flag and notifies all threads
without the mutex.  So a worker takes at most one more task once the flag is cleared, and may
begin to wait behind the notification.
-/
import FastServer.TransitionSystem

/-- A sum over threads when only thread `i` has moved. -/
theorem sum_of_others {ι β M : Type*} [Fintype ι] [DecidableEq ι] [AddCommMonoid M] (f : β → M)
    {w w' : ι → β} {i : ι} (h : ∀ j, j ≠ i → w' j = w j) :
    ∑ j, f (w' j) + f (w i) = ∑ j, f (w j) + f (w' i) := by
  have hrest : ∑ j ∈ Finset.univ.erase i, f (w' j) = ∑ j ∈ Finset.univ.erase i, f (w j) :=
    Finset.sum_congr rfl fun j hj => by rw [h j (Finset.ne_of_mem_erase hj)]
  rw [← Finset.sum_erase_add _ _ (Finset.mem_univ i), hrest,
    ← Finset.sum_erase_add Finset.univ (fun j => f (w j)) (Finset.mem_univ i), add_right_comm]

namespace ThreadPool

open TransitionSystem

variable {α ι κ : Type}

/-! ## State -/

/-- Where a worker stands: at the test of its loop; about to lock the mutex, to test the
predicate of the wait, to release the mutex and wait, waiting, about to test whether to return,
to take the first task, or to unlock the mutex; running its task; or behind its loop. -/
inductive Worker (α : Type)
  | guard
  | lock
  | test
  | wait
  | waiting (woken : Bool)
  | check
  | take
  | unlock (task : Option α)
  | run (task : α)
  | exited
deriving DecidableEq

/-- Where a thread that calls `enqueue` stands: outside, or about to lock the mutex, to put the
task into the queue, to unlock the mutex, or to notify a thread. -/
inductive Caller (α : Type)
  | idle
  | lock (task : α)
  | emplace (task : α)
  | unlock
  | notify
deriving DecidableEq

/-- Where the destructor stands: not yet called, about to clear the flag, to notify all threads,
to join the workers, or behind. -/
inductive Destructor
  | uncalled
  | store
  | notify
  | join
  | returned
deriving DecidableEq

/-- The members of the pool, who holds the mutex, and the threads; `enqueued` are the tasks that
were put into the queue, and `executed` those that were run. -/
structure State (α ι κ : Type) where
  tasks : List α
  queue_mutex : Option (ι ⊕ κ)
  running : Bool
  workers : ι → Worker α
  callers : κ → Caller α
  destructor : Destructor
  enqueued : List α
  executed : List α

/-- The workers have been started. -/
def start : State α ι κ where
  tasks := []
  queue_mutex := none
  running := true
  workers := fun _ => .guard
  callers := fun _ => .idle
  destructor := .uncalled
  enqueued := []
  executed := []

/-! ## Steps -/

section Steps

variable [DecidableEq ι] [DecidableEq κ]

/-- Worker `i` goes on at `pc`. -/
def State.setWorker (s : State α ι κ) (i : ι) (pc : Worker α) : State α ι κ :=
  { s with workers := Function.update s.workers i pc }

/-- Thread `k` goes on at `pc`. -/
def State.setCaller (s : State α ι κ) (k : κ) (pc : Caller α) : State α ι κ :=
  { s with callers := Function.update s.callers k pc }

omit [DecidableEq κ] in
/-- The next step of a worker. -/
def State.stepWorker (s : State α ι κ) (i : ι) : Option (State α ι κ) :=
  match s.workers i with
  | .guard => some (s.setWorker i (if s.running = true then .lock else .exited))
  | .lock =>
      match s.queue_mutex with
      | none => some { s.setWorker i .test with queue_mutex := some (.inl i) }
      | some _ => none
  | .test =>
      if s.tasks ≠ [] ∨ s.running = false then some (s.setWorker i .check)
      else some (s.setWorker i .wait)
  | .wait => some { s.setWorker i (.waiting false) with queue_mutex := none }
  | .waiting false => none
  | .waiting true =>
      match s.queue_mutex with
      | none => some { s.setWorker i .test with queue_mutex := some (.inl i) }
      | some _ => none
  | .check =>
      if s.running = false ∧ s.tasks = [] then some (s.setWorker i (.unlock none))
      else some (s.setWorker i .take)
  | .take =>
      match s.tasks with
      | task :: rest => some { s.setWorker i (.unlock (some task)) with tasks := rest }
      | [] => none
  | .unlock (some task) => some { s.setWorker i (.run task) with queue_mutex := none }
  | .unlock none => some { s.setWorker i .exited with queue_mutex := none }
  | .run task => some { s.setWorker i .guard with executed := s.executed ++ [task] }
  | .exited => none

/-- Whether a worker is behind its loop. -/
def Worker.isExited : Worker α → Bool
  | .exited => true
  | _ => false

/-- Whether a thread is outside `enqueue`. -/
def Caller.isIdle : Caller α → Bool
  | .idle => true
  | _ => false

/-- Whether a thread waits and has not been woken. -/
def Worker.asleep : Worker α → Bool
  | .waiting false => true
  | _ => false

/-- A notification reaches a thread that waits. -/
def Worker.wake : Worker α → Worker α
  | .waiting _ => .waiting true
  | pc => pc

omit [DecidableEq κ] in
/-- `wait` returns without a notification, as it may. -/
def State.wakeUp (s : State α ι κ) (i : ι) : Option (State α ι κ) :=
  if (s.workers i).asleep = true then some (s.setWorker i (.waiting true)) else none

omit [DecidableEq κ] in
/-- `notify_one` wakes one of the threads that wait, if there are any. -/
def State.notifyOne [Fintype ι] (s : State α ι κ) : Option ι → Option (State α ι κ)
  | some i => s.wakeUp i
  | none => if ∀ i, (s.workers i).asleep = false then some s else none

/-- The next step of `enqueue`; `woken` is the thread that `notify_one` chooses. -/
def State.stepCaller [Fintype ι] (s : State α ι κ) (k : κ) (woken : Option ι) :
    Option (State α ι κ) :=
  match s.callers k with
  | .idle => none
  | .lock task =>
      match s.queue_mutex with
      | none => some { s.setCaller k (.emplace task) with queue_mutex := some (.inr k) }
      | some _ => none
  | .emplace task =>
      some { s.setCaller k .unlock with
        tasks := s.tasks ++ [task]
        enqueued := s.enqueued ++ [task] }
  | .unlock => some { s.setCaller k .notify with queue_mutex := none }
  | .notify => (s.setCaller k .idle).notifyOne woken

/-- A call of `enqueue`, before the destructor starts. -/
def State.enqueue (s : State α ι κ) (k : κ) (task : α) : Option (State α ι κ) :=
  match s.callers k with
  | .idle => if s.destructor = .uncalled then some (s.setCaller k (.lock task)) else none
  | _ => none

omit [DecidableEq ι] [DecidableEq κ] in
/-- The next step of the destructor, which starts when no call of `enqueue` is under way. -/
def State.stepDestructor [Fintype ι] [Fintype κ] (s : State α ι κ) : Option (State α ι κ) :=
  match s.destructor with
  | .uncalled =>
      if ∀ k, (s.callers k).isIdle = true then some { s with destructor := .store } else none
  | .store => some { s with running := false, destructor := .notify }
  | .notify => some { s with workers := fun i => (s.workers i).wake, destructor := .join }
  | .join =>
      if ∀ i, (s.workers i).isExited = true then some { s with destructor := .returned } else none
  | .returned => none

/-- A call of `enqueue`, a step of a thread, or a thread that wakes up by itself. -/
inductive Action (α ι κ : Type)
  | enqueue (k : κ) (task : α)
  | caller (k : κ) (woken : Option ι)
  | worker (i : ι)
  | wakeUp (i : ι)
  | destructor

/-- The state after a step, if it is enabled. -/
def next [Fintype ι] [Fintype κ] (s : State α ι κ) :
    Action α ι κ → Option (State α ι κ)
  | .enqueue k task => s.enqueue k task
  | .caller k woken => s.stepCaller k woken
  | .worker i => s.stepWorker i
  | .wakeUp i => s.wakeUp i
  | .destructor => s.stepDestructor

variable (α ι κ) in
/-- The pool with its threads. -/
def system [Fintype ι] [Fintype κ] :
    TransitionSystem (State α ι κ) (Action α ι κ) :=
  TransitionSystem.ofFunction start next

end Steps

/-! ## What should hold -/

/-- When the destructor has returned, every task has been run as often as it was enqueued. -/
def State.AllExecuted (s : State α ι κ) : Prop :=
  s.destructor = .returned → s.executed.Perm s.enqueued

/-- No worker waits once the flag is cleared and all threads have been notified. -/
def State.NoneForgotten (s : State α ι κ) : Prop :=
  s.running = false → s.destructor ≠ .notify → ∀ i, (s.workers i).asleep = false

/-- Whether a worker has passed the test of its loop and still comes to the queue. -/
def Worker.committed : Worker α → ℕ
  | .lock | .test | .wait | .waiting _ | .check | .take => 1
  | _ => 0

/-- Whether a worker has found nothing to take and does not wait yet. -/
def Worker.aboutToWait : Worker α → Bool
  | .wait => true
  | _ => false

/-- The destructor clears the flag while there are no more tasks in the queue than workers on
their way to it, and notifies the threads while none is between its test and its wait. -/
def State.InTime [Fintype ι] (s : State α ι κ) : Action α ι κ → Prop
  | .destructor =>
      match s.destructor with
      | .store => s.tasks.length ≤ ∑ i, (s.workers i).committed
      | .notify => ∀ i, (s.workers i).aboutToWait = false
      | _ => True
  | _ => True

instance [Fintype ι] (s : State α ι κ) : DecidablePred s.InTime
  | .destructor => by
      unfold State.InTime
      dsimp only
      split <;> infer_instance
  | .enqueue _ _ => .isTrue trivial
  | .caller _ _ => .isTrue trivial
  | .worker _ => .isTrue trivial
  | .wakeUp _ => .isTrue trivial

/-! ## The invariant -/

/-- Whether a worker at `pc` holds the mutex. -/
def Worker.holds : Worker α → Bool
  | .test | .wait | .check | .take | .unlock _ => true
  | _ => false

/-- Whether a thread at `pc` holds the mutex. -/
def Caller.holds : Caller α → Bool
  | .emplace _ | .unlock => true
  | _ => false

/-- The task that a worker has taken and not yet run. -/
def Worker.held : Worker α → Multiset α
  | .unlock (some task) => {task}
  | .run task => {task}
  | _ => 0

/-- What a worker at `pc` knows of the queue and the flag. -/
def WorkerOk (tasks : List α) (running : Bool) : Worker α → Prop
  | .check => tasks ≠ [] ∨ running = false
  | .take => tasks ≠ []
  | _ => True

/-- What the destructor knows. -/
def State.DestructorOk (s : State α ι κ) : Destructor → Prop
  | .uncalled => s.running = true
  | .store => s.running = true
  | .notify => s.running = false
  | .join => s.running = false
  | .returned => s.running = false ∧ ∀ i, (s.workers i).isExited = true

/-- A thread holds the mutex exactly where it should; the workers and the destructor know what
they have found; every task is run, in the queue, or held; and once the destructor has started,
nobody is in `enqueue`. -/
structure State.Invariant [Fintype ι] (s : State α ι κ) : Prop where
  workerHolds : ∀ i, (s.workers i).holds = true ↔ s.queue_mutex = some (.inl i)
  callerHolds : ∀ k, (s.callers k).holds = true ↔ s.queue_mutex = some (.inr k)
  found : ∀ i, WorkerOk s.tasks s.running (s.workers i)
  conserved : (s.enqueued : Multiset α) = s.executed + s.tasks + ∑ i, (s.workers i).held
  destroyed : s.DestructorOk s.destructor
  outside : s.destructor ≠ .uncalled → ∀ k, (s.callers k).isIdle = true

/-- Once all threads were notified, no worker waits or is about to. -/
def State.Awake (s : State α ι κ) : Prop :=
  s.running = false → s.destructor ≠ .notify → ∀ i,
    (s.workers i).asleep = false ∧ (s.workers i).aboutToWait = false

/-- Once the flag is cleared, there are no more tasks than workers on their way to the queue. -/
def State.Enough [Fintype ι] (s : State α ι κ) : Prop :=
  s.running = false → s.tasks.length ≤ ∑ i, (s.workers i).committed

/-- Once the flag is cleared, there are more tasks than workers on their way to the queue. -/
def State.Crowded [Fintype ι] (s : State α ι κ) : Prop :=
  s.running = false → ∑ i, (s.workers i).committed < s.tasks.length

/-- What a step of worker `i` may do. -/
structure State.Moves (s : State α ι κ) (i : ι) (s' : State α ι κ) : Prop where
  others : ∀ j, j ≠ i → s'.workers j = s.workers j
  running : s'.running = s.running
  callers : s'.callers = s.callers
  destructor : s'.destructor = s.destructor
  enqueued : s'.enqueued = s.enqueued
  holds : (s'.workers i).holds = true ↔ s'.queue_mutex = some (.inl i)
  mutex : ∀ t, t ≠ .inl i → (s'.queue_mutex = some t ↔ s.queue_mutex = some t)
  tasks : s'.tasks = s.tasks ∨ s.queue_mutex = some (.inl i)
  found : WorkerOk s'.tasks s'.running (s'.workers i)
  accounted : (s'.executed : Multiset α) + s'.tasks + (s'.workers i).held
    = s.executed + s.tasks + (s.workers i).held
  counted : s.running = false → (s.tasks = [] ∧ s'.tasks = []) ∨
    s'.tasks.length + (s.workers i).committed = s.tasks.length + (s'.workers i).committed
  awake : s.running = false → (s.workers i).asleep = false → (s.workers i).aboutToWait = false →
    (s'.workers i).asleep = false ∧ (s'.workers i).aboutToWait = false
  exited : (s.workers i).isExited = false

variable {s s' : State α ι κ} {i : ι} {k : κ}

/-- A thread that does not hold the mutex knows nothing. -/
theorem workerOk_of_not_holds {tasks : List α} {running : Bool} {pc : Worker α}
    (h : pc.holds = false) : WorkerOk tasks running pc := by
  cases pc with
  | check => exact absurd h.symm Bool.false_ne_true
  | take => exact absurd h.symm Bool.false_ne_true
  | _ => trivial

/-- What a thread knows stays true when there is more in the queue, or the flag is cleared. -/
theorem WorkerOk.mono {tasks tasks' : List α} {running running' : Bool} {pc : Worker α}
    (h : WorkerOk tasks running pc) (htasks : tasks ≠ [] → tasks' ≠ [])
    (hrunning : running = false → running' = false) : WorkerOk tasks' running' pc := by
  cases pc with
  | check => exact h.imp htasks hrunning
  | take => exact htasks h
  | _ => trivial

section Wake

variable (pc : Worker α)

@[simp] theorem wake_holds : pc.wake.holds = pc.holds := by cases pc <;> rfl

@[simp] theorem wake_held : pc.wake.held = pc.held := by cases pc <;> rfl

@[simp] theorem wake_committed : pc.wake.committed = pc.committed := by cases pc <;> rfl

@[simp] theorem wake_asleep : pc.wake.asleep = false := by cases pc <;> rfl

@[simp] theorem wake_aboutToWait : pc.wake.aboutToWait = pc.aboutToWait := by cases pc <;> rfl

end Wake

theorem WorkerOk.wake {tasks : List α} {running : Bool} {pc : Worker α}
    (h : WorkerOk tasks running pc) : WorkerOk tasks running pc.wake := by
  cases pc <;> exact h

/-- A worker behind its loop does nothing any more. -/
theorem eq_exited {pc : Worker α} (h : pc.isExited = true) : pc = .exited := by
  cases pc with
  | exited => rfl
  | _ => exact absurd h Bool.false_ne_true

theorem eq_idle {pc : Caller α} (h : pc.isIdle = true) : pc = .idle := by
  cases pc with
  | idle => rfl
  | _ => exact absurd h Bool.false_ne_true

/-- Locking a free mutex takes it from nobody. -/
theorem lock_others {t : ι ⊕ κ} (hmutex : s.queue_mutex = none) (t' : ι ⊕ κ) (ht : t' ≠ t) :
    some t = some t' ↔ s.queue_mutex = some t' := by
  rw [hmutex]
  simp [ht.symm]

/-- Unlocking the mutex takes it from nobody else. -/
theorem unlock_others {t : ι ⊕ κ} (hmutex : s.queue_mutex = some t) (t' : ι ⊕ κ) (ht : t' ≠ t) :
    none = some t' ↔ s.queue_mutex = some t' := by
  rw [hmutex]
  simp [ht.symm]

/-! ## Workers -/

variable [Fintype ι] [DecidableEq ι]

/-- **A worker that moves** keeps the invariant. -/
theorem State.Moves.invariant (hmoves : s.Moves i s') (h : s.Invariant) : s'.Invariant where
  workerHolds := by
    intro j
    by_cases hj : j = i
    · subst hj
      exact hmoves.holds
    · rw [hmoves.others j hj, hmoves.mutex _ (by simpa using hj)]
      exact h.workerHolds j
  callerHolds := by
    intro k
    rw [hmoves.callers, hmoves.mutex _ (by simp)]
    exact h.callerHolds k
  found := by
    intro j
    by_cases hj : j = i
    · subst hj
      exact hmoves.found
    · rw [hmoves.others j hj, hmoves.running]
      rcases hmoves.tasks with heq | hmutex
      · rw [heq]
        exact h.found j
      · -- worker `i` holds the mutex, so worker `j` does not
        apply workerOk_of_not_holds
        have hne := mt (h.workerHolds j).mp
        rw [hmutex, Option.some.injEq, Sum.inl.injEq] at hne
        exact Bool.not_eq_true _ ▸ hne fun heq => hj heq.symm
  conserved := by
    have hsum := sum_of_others Worker.held hmoves.others
    apply add_right_cancel (b := (s.workers i).held)
    calc (s'.enqueued : Multiset α) + (s.workers i).held
        = (s.executed + s.tasks + (s.workers i).held) + ∑ j, (s.workers j).held := by
          rw [hmoves.enqueued, h.conserved, add_right_comm]
      _ = s'.executed + s'.tasks + (∑ j, (s.workers j).held + (s'.workers i).held) := by
          rw [← hmoves.accounted, add_right_comm, add_assoc]
      _ = s'.executed + s'.tasks + ∑ j, (s'.workers j).held + (s.workers i).held := by
          rw [← hsum, ← add_assoc]
  destroyed := by
    have hdestroyed := h.destroyed
    rw [hmoves.destructor]
    cases hdestructor : s.destructor with
    | returned =>
      rw [hdestructor] at hdestroyed
      have hexited := hdestroyed.2 i
      rw [hmoves.exited] at hexited
      exact absurd hexited Bool.false_ne_true
    | _ =>
      rw [hdestructor] at hdestroyed
      exact hmoves.running.trans hdestroyed
  outside := by
    rw [hmoves.destructor, hmoves.callers]
    exact h.outside

omit [Fintype ι] [DecidableEq ι] in
/-- Workers that are awake stay awake. -/
theorem State.Moves.awakeAll (hmoves : s.Moves i s') (h : s.Awake) : s'.Awake := by
  intro hrunning hnotify j
  rw [hmoves.running] at hrunning
  rw [hmoves.destructor] at hnotify
  obtain ⟨hasleep, habout⟩ := h hrunning hnotify j
  by_cases hj : j = i
  · subst hj
    exact hmoves.awake hrunning hasleep habout
  · rw [hmoves.others j hj]
    exact ⟨hasleep, habout⟩

/-- **Enough workers** stay enough: a worker that takes a task was counted, and one that leaves
has found no task. -/
theorem State.Moves.enough (hmoves : s.Moves i s') (h : s.Enough) : s'.Enough := by
  intro hrunning
  rw [hmoves.running] at hrunning
  have hsum := sum_of_others Worker.committed hmoves.others
  have hle := h hrunning
  rcases hmoves.counted hrunning with ⟨-, hnil⟩ | hcount
  · rw [hnil]
    exact Nat.zero_le _
  · omega

/-- **Too many tasks** stay too many. -/
theorem State.Moves.crowded (hmoves : s.Moves i s') (h : s.Crowded) : s'.Crowded := by
  intro hrunning
  rw [hmoves.running] at hrunning
  have hsum := sum_of_others Worker.committed hmoves.others
  have hlt := h hrunning
  rcases hmoves.counted hrunning with ⟨hnil, -⟩ | hcount
  · rw [hnil] at hlt
    exact absurd hlt (Nat.not_lt_zero _)
  · omega

omit [Fintype ι] in
/-- **A worker goes on**, and may lock or unlock the mutex, take a task while it holds it, or
have run its task. -/
theorem moves_setWorker {pc : Worker α} {tasks' executed' : List α} {mutex' : Option (ι ⊕ κ)}
    (hpc : (s.workers i).isExited = false)
    (hholds : pc.holds = true ↔ mutex' = some (.inl i))
    (hmutex : ∀ t, t ≠ .inl i → (mutex' = some t ↔ s.queue_mutex = some t))
    (htasks : tasks' = s.tasks ∨ s.queue_mutex = some (.inl i))
    (hfound : WorkerOk tasks' s.running pc)
    (haccounted : (executed' : Multiset α) + tasks' + pc.held
      = s.executed + s.tasks + (s.workers i).held)
    (hcounted : s.running = false → (s.tasks = [] ∧ tasks' = []) ∨
      tasks'.length + (s.workers i).committed = s.tasks.length + pc.committed)
    (hawake : s.running = false → (s.workers i).aboutToWait = false →
      pc.asleep = false ∧ pc.aboutToWait = false) :
    s.Moves i { s.setWorker i pc with
      tasks := tasks', queue_mutex := mutex', executed := executed' } where
  others := fun j hj => Function.update_of_ne hj _ _
  running := rfl
  callers := rfl
  destructor := rfl
  enqueued := rfl
  holds := by
    show (Function.update s.workers i pc i).holds = true ↔ _
    rw [Function.update_self]
    exact hholds
  mutex := hmutex
  tasks := htasks
  found := by
    show WorkerOk tasks' s.running (Function.update s.workers i pc i)
    rw [Function.update_self]
    exact hfound
  accounted := by
    show _ + (Function.update s.workers i pc i).held = _
    rw [Function.update_self]
    exact haccounted
  counted := by
    show _ → _ ∨ _ = _ + (Function.update s.workers i pc i).committed
    rw [Function.update_self]
    exact hcounted
  awake := by
    intro hrunning _ habout
    show (Function.update s.workers i pc i).asleep = false ∧
      (Function.update s.workers i pc i).aboutToWait = false
    rw [Function.update_self]
    exact hawake hrunning habout
  exited := hpc

/-- A worker goes on without locking or unlocking the mutex. -/
theorem State.Invariant.keep (h : s.Invariant) {pc : Worker α}
    (hpc : (s.workers i).isExited = false) (hholds : pc.holds = (s.workers i).holds)
    (hfound : WorkerOk s.tasks s.running pc) (hheld : pc.held = (s.workers i).held)
    (hcounted : s.running = false → s.tasks = [] ∨ (s.workers i).committed = pc.committed)
    (hawake : s.running = false → pc.asleep = false ∧ pc.aboutToWait = false) :
    s.Moves i (s.setWorker i pc) :=
  moves_setWorker hpc (by rw [hholds]; exact h.workerHolds i) (fun _ _ => Iff.rfl) (.inl rfl)
    hfound (by rw [hheld]) (fun hrunning => (hcounted hrunning).imp (fun hnil => ⟨hnil, hnil⟩)
    fun heq => by rw [heq]) fun hrunning _ => hawake hrunning

omit [Fintype ι] in
/-- A worker that came to the mutex locks it. -/
theorem moves_lock (hpc : (s.workers i).isExited = false) (hheld : (s.workers i).held = 0)
    (hcommitted : (s.workers i).committed = 1) (hmutex : s.queue_mutex = none) :
    s.Moves i { s.setWorker i .test with queue_mutex := some (.inl i) } :=
  moves_setWorker hpc (by simp [Worker.holds]) (lock_others hmutex) (.inl rfl) trivial
    (by rw [hheld]; rfl) (fun _ => .inr (by rw [hcommitted]; rfl)) fun _ _ => ⟨rfl, rfl⟩

/-- A worker unlocks the mutex. -/
theorem State.Invariant.unlock (h : s.Invariant) {pc : Worker α}
    (hpc : (s.workers i).isExited = false) (hold : (s.workers i).holds = true)
    (hholds : pc.holds = false) (hheld : pc.held = (s.workers i).held)
    (hcommitted : (s.workers i).committed = pc.committed)
    (hawake : s.running = false → (s.workers i).aboutToWait = false →
      pc.asleep = false ∧ pc.aboutToWait = false) :
    s.Moves i { s.setWorker i pc with queue_mutex := none } :=
  moves_setWorker hpc (by simp [hholds]) (unlock_others ((h.workerHolds i).mp hold)) (.inl rfl)
    (workerOk_of_not_holds hholds) (by rw [hheld]; rfl) (fun _ => .inr (by rw [hcommitted]; rfl))
    hawake

/-- **A step of a worker** is such a move. -/
theorem State.Invariant.stepWorker (h : s.Invariant) (hstep : s.stepWorker i = some s') :
    s.Moves i s' := by
  have hfound := h.found i
  unfold State.stepWorker at hstep
  cases hpc : s.workers i with
  | guard =>
    rw [hpc] at hstep
    obtain rfl := Option.some.inj hstep
    split_ifs with hrunning
    · refine h.keep (by rw [hpc]; rfl) (by rw [hpc]; rfl) trivial (by rw [hpc]; rfl) ?_
        fun _ => ⟨rfl, rfl⟩
      exact fun hstopped => absurd (hstopped.symm.trans hrunning) Bool.false_ne_true
    · exact h.keep (by rw [hpc]; rfl) (by rw [hpc]; rfl) trivial (by rw [hpc]; rfl)
        (fun _ => .inr (by rw [hpc]; rfl)) fun _ => ⟨rfl, rfl⟩
  | lock =>
    rw [hpc] at hstep
    cases hmutex : s.queue_mutex with
    | none =>
      rw [hmutex] at hstep
      obtain rfl := Option.some.inj hstep
      exact moves_lock (by rw [hpc]; rfl) (by rw [hpc]; rfl) (by rw [hpc]; rfl) hmutex
    | some t =>
      rw [hmutex] at hstep
      exact absurd hstep.symm (Option.some_ne_none _)
  | test =>
    rw [hpc] at hstep
    dsimp only at hstep
    split_ifs at hstep with hpredicate
    · obtain rfl := Option.some.inj hstep
      exact h.keep (by rw [hpc]; rfl) (by rw [hpc]; rfl) hpredicate (by rw [hpc]; rfl)
        (fun _ => .inr (by rw [hpc]; rfl)) fun _ => ⟨rfl, rfl⟩
    · obtain rfl := Option.some.inj hstep
      -- the flag is still set
      exact h.keep (by rw [hpc]; rfl) (by rw [hpc]; rfl) trivial (by rw [hpc]; rfl)
        (fun _ => .inr (by rw [hpc]; rfl)) fun hrunning => absurd (.inr hrunning) hpredicate
  | wait =>
    rw [hpc] at hstep
    obtain rfl := Option.some.inj hstep
    refine h.unlock (by rw [hpc]; rfl) (by rw [hpc]; rfl) rfl (by rw [hpc]; rfl)
      (by rw [hpc]; rfl) fun _ habout => ?_
    rw [hpc] at habout
    exact absurd habout.symm Bool.false_ne_true
  | waiting woken =>
    rw [hpc] at hstep
    cases woken with
    | false => exact absurd hstep.symm (Option.some_ne_none _)
    | true =>
      cases hmutex : s.queue_mutex with
      | none =>
        rw [hmutex] at hstep
        obtain rfl := Option.some.inj hstep
        exact moves_lock (by rw [hpc]; rfl) (by rw [hpc]; rfl) (by rw [hpc]; rfl) hmutex
      | some t =>
        rw [hmutex] at hstep
        exact absurd hstep.symm (Option.some_ne_none _)
  | check =>
    rw [hpc] at hstep hfound
    dsimp only at hstep
    split_ifs at hstep with hreturn
    · obtain rfl := Option.some.inj hstep
      exact h.keep (by rw [hpc]; rfl) (by rw [hpc]; rfl) trivial (by rw [hpc]; rfl)
        (fun _ => .inl hreturn.2) fun _ => ⟨rfl, rfl⟩
    · obtain rfl := Option.some.inj hstep
      have hne : s.tasks ≠ [] := by
        rcases hfound with hne | hrunning
        · exact hne
        · exact fun hnil => hreturn ⟨hrunning, hnil⟩
      exact h.keep (by rw [hpc]; rfl) (by rw [hpc]; rfl) hne (by rw [hpc]; rfl)
        (fun _ => .inr (by rw [hpc]; rfl)) fun _ => ⟨rfl, rfl⟩
  | take =>
    rw [hpc] at hstep
    cases htasks : s.tasks with
    | nil =>
      rw [htasks] at hstep
      exact absurd hstep.symm (Option.some_ne_none _)
    | cons task rest =>
      rw [htasks] at hstep
      obtain rfl := Option.some.inj hstep
      have hmutex : s.queue_mutex = some (.inl i) := (h.workerHolds i).mp (by rw [hpc]; rfl)
      have hkeep : (Worker.unlock (some task)).holds = true ↔ s.queue_mutex = some (.inl i) := by
        simp [Worker.holds, hmutex]
      refine moves_setWorker (by rw [hpc]; rfl) hkeep (fun _ _ => Iff.rfl) (.inr hmutex) trivial
        ?_ (fun _ => .inr ?_) fun _ _ => ⟨rfl, rfl⟩
      · rw [hpc, htasks]
        show (s.executed : Multiset α) + rest + {task} = s.executed + (task :: rest : List α) + 0
        rw [add_zero, add_assoc, ← Multiset.cons_coe, ← Multiset.singleton_add,
          add_comm (rest : Multiset α)]
      · rw [hpc, htasks]
        rfl
  | unlock task =>
    rw [hpc] at hstep
    cases task with
    | none =>
      obtain rfl := Option.some.inj hstep
      exact h.unlock (by rw [hpc]; rfl) (by rw [hpc]; rfl) rfl (by rw [hpc]; rfl)
        (by rw [hpc]; rfl) fun _ _ => ⟨rfl, rfl⟩
    | some task =>
      obtain rfl := Option.some.inj hstep
      exact h.unlock (by rw [hpc]; rfl) (by rw [hpc]; rfl) rfl (by rw [hpc]; rfl)
        (by rw [hpc]; rfl) fun _ _ => ⟨rfl, rfl⟩
  | run task =>
    rw [hpc] at hstep
    obtain rfl := Option.some.inj hstep
    have hholds := h.workerHolds i
    rw [hpc] at hholds
    refine moves_setWorker (by rw [hpc]; rfl) hholds (fun _ _ => Iff.rfl) (.inl rfl) trivial ?_
      (fun _ => .inr (by rw [hpc]; rfl)) fun _ _ => ⟨rfl, rfl⟩
    rw [hpc]
    show ((s.executed ++ [task] : List α) : Multiset α) + s.tasks + 0
      = s.executed + s.tasks + {task}
    rw [add_zero, ← Multiset.coe_add, Multiset.coe_singleton, add_right_comm]
  | exited =>
    rw [hpc] at hstep
    exact absurd hstep.symm (Option.some_ne_none _)

/-- **A thread that is woken** moves. -/
theorem State.Invariant.wakeUp (h : s.Invariant) (hstep : s.wakeUp i = some s') :
    s.Moves i s' := by
  unfold State.wakeUp at hstep
  split_ifs at hstep with hasleep
  obtain rfl := Option.some.inj hstep
  cases hpc : s.workers i with
  | waiting woken =>
    exact h.keep (by rw [hpc]; rfl) (by rw [hpc]; rfl) trivial (by rw [hpc]; rfl)
      (fun _ => .inr (by rw [hpc]; rfl)) fun _ => ⟨rfl, rfl⟩
  | _ =>
    rw [hpc] at hasleep
    exact absurd hasleep Bool.false_ne_true

/-! ## Callers and the destructor -/

namespace State.Invariant

omit [DecidableEq ι] in
/-- Nobody is in `enqueue` once the destructor has started. -/
theorem uncalled_of_busy (h : s.Invariant) (hbusy : (s.callers k).isIdle = false) :
    s.destructor = .uncalled := by
  by_contra hcalled
  have hidle := h.outside hcalled k
  rw [hbusy] at hidle
  exact absurd hidle Bool.false_ne_true

omit [DecidableEq ι] in
theorem running_of_uncalled (h : s.Invariant) (huncalled : s.destructor = .uncalled) :
    s.running = true := by
  have hdestroyed := h.destroyed
  rw [huncalled] at hdestroyed
  exact hdestroyed

variable [DecidableEq κ]

omit [DecidableEq ι] in
/-- **A thread that enqueues goes on**, and may lock or unlock the mutex, or add a task. -/
theorem moveCaller (h : s.Invariant) (huncalled : s.destructor = .uncalled) {pc : Caller α}
    {tasks' enqueued' : List α} {mutex' : Option (ι ⊕ κ)}
    (hholds : pc.holds = true ↔ mutex' = some (.inr k))
    (hmutex : ∀ t, t ≠ .inr k → (mutex' = some t ↔ s.queue_mutex = some t))
    (htasks : s.tasks ≠ [] → tasks' ≠ [])
    (hconserved : (enqueued' : Multiset α) + s.tasks = s.enqueued + tasks') :
    ({ s.setCaller k pc with tasks := tasks', queue_mutex := mutex', enqueued := enqueued' } :
      State α ι κ).Invariant where
  workerHolds := by
    intro i
    rw [hmutex _ (by simp)]
    exact h.workerHolds i
  callerHolds := by
    intro j
    show (Function.update s.callers k pc j).holds = true ↔ mutex' = some (.inr j)
    by_cases hj : j = k
    · subst hj
      rw [Function.update_self]
      exact hholds
    · rw [Function.update_of_ne hj, hmutex _ (by simpa using hj)]
      exact h.callerHolds j
  found := fun i => (h.found i).mono htasks id
  conserved := by
    apply add_right_cancel (b := (s.tasks : Multiset α))
    calc (enqueued' : Multiset α) + s.tasks
        = s.executed + s.tasks + ∑ i, (s.workers i).held + tasks' := by rw [hconserved, h.conserved]
      _ = s.executed + tasks' + ∑ i, (s.workers i).held + s.tasks := by abel
  destroyed := by
    show State.DestructorOk _ s.destructor
    rw [huncalled]
    exact h.running_of_uncalled huncalled
  outside := fun hcalled => absurd huncalled hcalled

omit [DecidableEq ι] in
/-- A call of `enqueue`. -/
theorem enqueue (h : s.Invariant) {task : α} (hstep : s.enqueue k task = some s') :
    s'.Invariant ∧ s'.running = true := by
  unfold State.enqueue at hstep
  cases hpc : s.callers k with
  | idle =>
    rw [hpc] at hstep
    dsimp only at hstep
    split_ifs at hstep with huncalled
    obtain rfl := Option.some.inj hstep
    have hholds := h.callerHolds k
    rw [hpc] at hholds
    exact ⟨h.moveCaller huncalled hholds (fun _ _ => Iff.rfl) id rfl,
      h.running_of_uncalled huncalled⟩
  | _ =>
    rw [hpc] at hstep
    exact absurd hstep.symm (Option.some_ne_none _)

/-- **A step of `enqueue`** keeps the invariant; the flag is still set. -/
theorem stepCaller (h : s.Invariant) {woken : Option ι} (hstep : s.stepCaller k woken = some s') :
    s'.Invariant ∧ s'.running = true := by
  unfold State.stepCaller at hstep
  cases hpc : s.callers k with
  | idle =>
    rw [hpc] at hstep
    exact absurd hstep.symm (Option.some_ne_none _)
  | lock task =>
    have huncalled := h.uncalled_of_busy (k := k) (by rw [hpc]; rfl)
    rw [hpc] at hstep
    cases hmutex : s.queue_mutex with
    | none =>
      rw [hmutex] at hstep
      obtain rfl := Option.some.inj hstep
      exact ⟨h.moveCaller huncalled (by simp [Caller.holds]) (lock_others hmutex) id rfl,
        h.running_of_uncalled huncalled⟩
    | some t =>
      rw [hmutex] at hstep
      exact absurd hstep.symm (Option.some_ne_none _)
  | emplace task =>
    have huncalled := h.uncalled_of_busy (k := k) (by rw [hpc]; rfl)
    rw [hpc] at hstep
    obtain rfl := Option.some.inj hstep
    have hholds := h.callerHolds k
    rw [hpc] at hholds
    refine ⟨h.moveCaller huncalled hholds (fun _ _ => Iff.rfl)
      (fun _ => List.append_ne_nil_of_right_ne_nil _ (List.cons_ne_nil _ _)) ?_,
      h.running_of_uncalled huncalled⟩
    rw [← Multiset.coe_add, ← Multiset.coe_add, add_assoc, add_comm (s.tasks : Multiset α)]
  | unlock =>
    have huncalled := h.uncalled_of_busy (k := k) (by rw [hpc]; rfl)
    rw [hpc] at hstep
    obtain rfl := Option.some.inj hstep
    have hmutex : s.queue_mutex = some (.inr k) := (h.callerHolds k).mp (by rw [hpc]; rfl)
    exact ⟨h.moveCaller huncalled (by simp [Caller.holds]) (unlock_others hmutex) id rfl,
      h.running_of_uncalled huncalled⟩
  | notify =>
    have huncalled := h.uncalled_of_busy (k := k) (by rw [hpc]; rfl)
    rw [hpc] at hstep
    have hholds := h.callerHolds k
    rw [hpc] at hholds
    have hidle : (s.setCaller k .idle).Invariant :=
      h.moveCaller huncalled hholds (fun _ _ => Iff.rfl) id rfl
    have hrunning : (s.setCaller k .idle).running = true := h.running_of_uncalled huncalled
    cases woken with
    | some i =>
      have hmoves := hidle.wakeUp (i := i) hstep
      exact ⟨hmoves.invariant hidle, hmoves.running.trans hrunning⟩
    | none =>
      have hstep : (if _ then some _ else none) = some s' := hstep
      split_ifs at hstep
      obtain rfl := Option.some.inj hstep
      exact ⟨hidle, hrunning⟩

variable [Fintype κ]

omit [DecidableEq ι] [DecidableEq κ] in
/-- **A step of the destructor** keeps the invariant. -/
theorem stepDestructor (h : s.Invariant) (hstep : s.stepDestructor = some s') : s'.Invariant := by
  have hdestroyed := h.destroyed
  unfold State.stepDestructor at hstep
  cases hdestructor : s.destructor with
  | uncalled =>
    rw [hdestructor] at hstep hdestroyed
    dsimp only at hstep
    split_ifs at hstep with hidle
    obtain rfl := Option.some.inj hstep
    exact { h with destroyed := hdestroyed, outside := fun _ => hidle }
  | store =>
    rw [hdestructor] at hstep
    obtain rfl := Option.some.inj hstep
    exact { h with
      found := fun i => (h.found i).mono id fun _ => rfl
      destroyed := rfl
      outside := fun _ => h.outside (by simp [hdestructor]) }
  | notify =>
    rw [hdestructor] at hstep hdestroyed
    obtain rfl := Option.some.inj hstep
    exact { h with
      workerHolds := fun i => by rw [wake_holds]; exact h.workerHolds i
      found := fun i => (h.found i).wake
      conserved := by simpa only [wake_held] using h.conserved
      destroyed := hdestroyed
      outside := fun _ => h.outside (by simp [hdestructor]) }
  | join =>
    rw [hdestructor] at hstep hdestroyed
    dsimp only at hstep
    split_ifs at hstep with hexited
    obtain rfl := Option.some.inj hstep
    exact { h with
      destroyed := ⟨hdestroyed, hexited⟩
      outside := fun _ => h.outside (by simp [hdestructor]) }
  | returned =>
    rw [hdestructor] at hstep
    exact absurd hstep.symm (Option.some_ne_none _)

omit [DecidableEq ι] [DecidableEq κ] in
/-- What the destructor does to the flag, the queue and the workers. -/
theorem stepDestructor_cases (hstep : s.stepDestructor = some s') :
    (s.destructor = .store ∧ s' = { s with running := false, destructor := .notify }) ∨
      (s.destructor = .notify ∧
        s' = { s with workers := fun i => (s.workers i).wake, destructor := .join }) ∨
      (s.destructor ≠ .store ∧ s.destructor ≠ .notify ∧ s'.destructor ≠ .notify ∧
        s'.running = s.running ∧ s'.tasks = s.tasks ∧ s'.workers = s.workers) := by
  unfold State.stepDestructor at hstep
  cases hdestructor : s.destructor with
  | uncalled =>
    rw [hdestructor] at hstep
    dsimp only at hstep
    split_ifs at hstep
    obtain rfl := Option.some.inj hstep
    exact .inr (.inr ⟨by simp, by simp, by simp, rfl, rfl, rfl⟩)
  | store =>
    rw [hdestructor] at hstep
    exact .inl ⟨rfl, (Option.some.inj hstep).symm⟩
  | notify =>
    rw [hdestructor] at hstep
    exact .inr (.inl ⟨rfl, (Option.some.inj hstep).symm⟩)
  | join =>
    rw [hdestructor] at hstep
    dsimp only at hstep
    split_ifs at hstep
    obtain rfl := Option.some.inj hstep
    exact .inr (.inr ⟨by simp, by simp, by simp, rfl, rfl, rfl⟩)
  | returned =>
    rw [hdestructor] at hstep
    exact absurd hstep.symm (Option.some_ne_none _)

/-- **A step** keeps the invariant. -/
theorem next (h : s.Invariant) {a : Action α ι κ} (hstep : ThreadPool.next s a = some s') :
    s'.Invariant := by
  cases a with
  | enqueue k task => exact (h.enqueue hstep).1
  | caller k woken => exact (h.stepCaller hstep).1
  | worker i => exact (h.stepWorker hstep).invariant h
  | wakeUp i => exact (h.wakeUp hstep).invariant h
  | destructor => exact h.stepDestructor hstep

/-- **Enough workers** stay enough, if there are when the flag is cleared. -/
theorem enough (h : s.Invariant) (henough : s.Enough) {a : Action α ι κ} (hintime : s.InTime a)
    (hstep : ThreadPool.next s a = some s') : s'.Enough := by
  cases a with
  | enqueue k task =>
    exact fun hrunning => absurd (hrunning.symm.trans (h.enqueue hstep).2) Bool.false_ne_true
  | caller k woken =>
    exact fun hrunning => absurd (hrunning.symm.trans (h.stepCaller hstep).2) Bool.false_ne_true
  | worker i => exact (h.stepWorker hstep).enough henough
  | wakeUp i => exact (h.wakeUp hstep).enough henough
  | destructor =>
    rcases stepDestructor_cases hstep with ⟨hstore, rfl⟩ | ⟨-, rfl⟩ | ⟨-, -, -, hrun, htasks, hw⟩
    · rw [State.InTime, hstore] at hintime
      exact fun _ => hintime
    · intro hrunning
      simp only [wake_committed]
      exact henough hrunning
    · intro hrunning
      rw [htasks, hw]
      exact henough (hrun.symm.trans hrunning)

/-- **Too many tasks** stay too many. -/
theorem crowded (h : s.Invariant) (hstopped : s.running = false) (hcrowded : s.Crowded)
    {a : Action α ι κ} (hstep : ThreadPool.next s a = some s') :
    s'.running = false ∧ s'.Crowded := by
  have hcalled : s.destructor ≠ .uncalled := by
    intro huncalled
    exact absurd (hstopped.symm.trans (h.running_of_uncalled huncalled)) Bool.false_ne_true
  cases a with
  | enqueue k task =>
    have hstep : s.enqueue k task = some s' := hstep
    rw [State.enqueue, eq_idle (h.outside hcalled k), if_neg hcalled] at hstep
    exact absurd hstep.symm (Option.some_ne_none _)
  | caller k woken =>
    have hstep : s.stepCaller k woken = some s' := hstep
    rw [State.stepCaller, eq_idle (h.outside hcalled k)] at hstep
    exact absurd hstep.symm (Option.some_ne_none _)
  | worker i =>
    have hmoves := h.stepWorker (i := i) hstep
    exact ⟨hmoves.running.trans hstopped, hmoves.crowded hcrowded⟩
  | wakeUp i =>
    have hmoves := h.wakeUp (i := i) hstep
    exact ⟨hmoves.running.trans hstopped, hmoves.crowded hcrowded⟩
  | destructor =>
    rcases stepDestructor_cases hstep with ⟨hstore, rfl⟩ | ⟨-, rfl⟩ | ⟨-, -, -, hrun, htasks, hw⟩
    · exact ⟨rfl, fun _ => hcrowded hstopped⟩
    · refine ⟨hstopped, fun hrunning => ?_⟩
      simp only [wake_committed]
      exact hcrowded hrunning
    · refine ⟨hrun.trans hstopped, fun _ => ?_⟩
      rw [htasks, hw]
      exact hcrowded hstopped

/-- **Workers that are awake** stay awake, if none is about to wait when all are notified. -/
theorem awake (h : s.Invariant) (hawake : s.Awake) {a : Action α ι κ} (hintime : s.InTime a)
    (hstep : ThreadPool.next s a = some s') : s'.Awake := by
  cases a with
  | enqueue k task =>
    exact fun hrunning => absurd (hrunning.symm.trans (h.enqueue hstep).2) Bool.false_ne_true
  | caller k woken =>
    exact fun hrunning => absurd (hrunning.symm.trans (h.stepCaller hstep).2) Bool.false_ne_true
  | worker i => exact (h.stepWorker hstep).awakeAll hawake
  | wakeUp i => exact (h.wakeUp hstep).awakeAll hawake
  | destructor =>
    rcases stepDestructor_cases hstep with ⟨-, rfl⟩ | ⟨hnotify, rfl⟩ | ⟨-, hne, -, hrun, -, hw⟩
    · exact fun _ hne => absurd rfl hne
    · rw [State.InTime, hnotify] at hintime
      intro _ _ i
      show (s.workers i).wake.asleep = false ∧ (s.workers i).wake.aboutToWait = false
      rw [wake_asleep, wake_aboutToWait]
      exact ⟨rfl, hintime i⟩
    · intro hrunning _
      rw [hw]
      exact hawake (hrun.symm.trans hrunning) hne

end State.Invariant

/-! ## The runs -/

variable [DecidableEq κ] [Fintype κ]

omit [DecidableEq ι] [DecidableEq κ] [Fintype κ] in
theorem start_invariant : (start : State α ι κ).Invariant where
  workerHolds := by simp [start, Worker.holds]
  callerHolds := by simp [start, Caller.holds]
  found := fun _ => trivial
  conserved := by simp [start, Worker.held]
  destroyed := rfl
  outside := fun hcalled => absurd rfl hcalled

theorem invariant_of_reachable {ok : State α ι κ → Action α ι κ → Prop}
    (h : (system α ι κ).ReachableBy ok s) : s.Invariant := by
  apply h.invariant
  · rintro s rfl
    exact start_invariant
  · intro s a s' hs _ hstep
    exact hs.next hstep

omit [DecidableEq ι] [DecidableEq κ] [Fintype κ] in
/-- **What is not run is left in the queue** when the destructor has returned. -/
theorem perm_iff_of_returned (h : s.Invariant) (hreturned : s.destructor = .returned) :
    s.executed.Perm s.enqueued ↔ s.tasks = [] := by
  have hdestroyed := h.destroyed
  rw [hreturned] at hdestroyed
  have hheld : ∑ i, (s.workers i).held = 0 :=
    Finset.sum_eq_zero fun i _ => by rw [eq_exited (hdestroyed.2 i)]; rfl
  rw [← Multiset.coe_eq_coe, h.conserved, hheld, add_zero, left_eq_add, Multiset.coe_eq_zero]

omit [DecidableEq ι] [DecidableEq κ] [Fintype κ] in
/-- No worker is on its way to the queue when the destructor has returned. -/
theorem committed_of_returned (h : s.Invariant) (hreturned : s.destructor = .returned) :
    s.running = false ∧ ∑ i, (s.workers i).committed = 0 := by
  have hdestroyed := h.destroyed
  rw [hreturned] at hdestroyed
  exact ⟨hdestroyed.1, Finset.sum_eq_zero fun i _ => by rw [eq_exited (hdestroyed.2 i)]; rfl⟩

/-- **Every task is run once, and no worker is forgotten**, for any number of workers and of
threads that enqueue, and any order of their steps, in every run in which the destructor clears
the flag and notifies the threads in time. -/
theorem correct_of_inTime (h : (system α ι κ).ReachableBy State.InTime s) :
    s.AllExecuted ∧ s.NoneForgotten := by
  have hkeep : s.Invariant ∧ s.Enough ∧ s.Awake := by
    apply h.invariant
    · rintro s rfl
      refine ⟨start_invariant, ?_, ?_⟩
      · exact fun hrunning => absurd hrunning.symm Bool.false_ne_true
      · exact fun hrunning => absurd hrunning.symm Bool.false_ne_true
    · rintro s a s' ⟨hs, henough, hawake⟩ hintime hstep
      exact ⟨hs.next hstep, hs.enough henough hintime hstep, hs.awake hawake hintime hstep⟩
  obtain ⟨hinvariant, henough, hawake⟩ := hkeep
  constructor
  · intro hreturned
    obtain ⟨hrunning, hcommitted⟩ := committed_of_returned hinvariant hreturned
    rw [perm_iff_of_returned hinvariant hreturned, ← List.length_eq_zero_iff, ← Nat.le_zero,
      ← hcommitted]
    exact henough hrunning
  · exact fun hrunning hnotify i => (hawake hrunning hnotify i).1

/-- **A task is lost** whenever the flag is cleared while there are more tasks in the queue than
workers on their way to it. -/
theorem not_allExecuted_of_crowded (h : (system α ι κ).Reachable s)
    (hcrowded : ∑ i, (s.workers i).committed < s.tasks.length)
    (hstore : s.destructor = .store)
    (hrun : (TransitionSystem.ofFunction { s with running := false, destructor := .notify }
      ThreadPool.next).Reachable s')
    (hreturned : s'.destructor = .returned) : ¬ s'.AllExecuted := by
  have hstep : ThreadPool.next s .destructor
      = some { s with running := false, destructor := .notify } := by
    simp only [ThreadPool.next, State.stepDestructor, hstore]
  have hkeep : s'.Invariant ∧ s'.running = false ∧ s'.Crowded := by
    apply hrun.invariant
    · rintro t rfl
      exact ⟨(invariant_of_reachable h).next hstep, rfl, fun _ => hcrowded⟩
    · rintro t a t' ⟨ht, hstopped, hmany⟩ hnext
      exact ⟨ht.next hnext, ht.crowded hstopped hmany hnext⟩
  obtain ⟨hinvariant, hrunning, hmany⟩ := hkeep
  intro hall
  have hlt := hmany hrunning
  rw [(perm_iff_of_returned hinvariant hreturned).mp (hall hreturned)] at hlt
  exact absurd hlt (Nat.not_lt_zero _)

/-- **A worker is forgotten** whenever the destructor notifies the threads while the worker is
between its test and its wait. -/
theorem exists_forgotten (h : (system α ι κ).Reachable s) (hnotify : s.destructor = .notify)
    (hworker : s.workers i = .wait) :
    ∃ s', (system α ι κ).Reachable s' ∧ ¬ s'.NoneForgotten := by
  have hrunning : s.running = false := by
    have hdestroyed := (invariant_of_reachable h).destroyed
    rw [hnotify] at hdestroyed
    exact hdestroyed
  have hnotified : ThreadPool.next s .destructor
      = some { s with workers := fun i => (s.workers i).wake, destructor := .join } := by
    simp only [ThreadPool.next, State.stepDestructor, hnotify]
  have hwait : ThreadPool.next
      { s with workers := fun i => (s.workers i).wake, destructor := .join } (.worker i)
      = some { s with
        workers := Function.update (fun i => (s.workers i).wake) i (.waiting false)
        destructor := .join
        queue_mutex := none } := by
    simp only [ThreadPool.next, State.stepWorker, hworker, Worker.wake]
    rfl
  refine ⟨_, (h.step trivial hnotified).step trivial hwait, fun hnone => ?_⟩
  have hasleep := hnone hrunning (by simp) i
  simp [Worker.asleep] at hasleep

/-! ## One worker -/

/-- A task is enqueued. -/
def enqueueSeven : List (Action ℕ (Fin 1) (Fin 1)) :=
  Action.enqueue (Fin.last 0) 7 :: List.replicate 4 (Action.caller (Fin.last 0) none)

/-- The worker runs the task and waits again before the pool is destroyed. -/
def oneTask : List (Action ℕ (Fin 1) (Fin 1)) :=
  enqueueSeven ++ List.replicate 11 (Action.worker (Fin.last 0))
    ++ List.replicate 3 Action.destructor ++ List.replicate 4 (Action.worker (Fin.last 0))
    ++ [Action.destructor]

/-- The destructor returns, and the task was run once. -/
theorem correct_oneTask :
    ∃ s, (system ℕ (Fin 1) (Fin 1)).ReachableBy State.InTime s ∧ s.destructor = .returned ∧
      s.executed = [7] ∧ s.AllExecuted ∧ s.NoneForgotten := by
  have hrun : ∃ s ∈ runFrom next State.InTime (start : State ℕ (Fin 1) (Fin 1)) oneTask,
      s.destructor = .returned ∧ s.executed = [7] := by decide +kernel
  obtain ⟨s, hreach, hreturned, hexecuted⟩ := exists_of_runFrom hrun
  have hcorrect := correct_of_inTime hreach
  exact ⟨s, hreach, hreturned, hexecuted, hcorrect.1, hcorrect.2⟩

/-- The pool is destroyed before the worker has tested the flag for the first time. -/
def destroyedAtOnce : List (Action ℕ (Fin 1) (Fin 1)) :=
  enqueueSeven ++ List.replicate 3 Action.destructor
    ++ [Action.worker (Fin.last 0), Action.destructor]

/-- The pool is destroyed between the test of the worker and its wait. -/
def destroyedTooEarly : List (Action ℕ (Fin 1) (Fin 1)) :=
  List.replicate 3 (Action.worker (Fin.last 0)) ++ List.replicate 3 Action.destructor
    ++ [Action.worker (Fin.last 0)]

/-- **A task is lost, and a worker forgotten.**  In the first run the destructor returns and the
task was not run; in the second it waits for a worker that waits for a notification. -/
theorem not_correct_destroyed :
    (∃ s, (system ℕ (Fin 1) (Fin 1)).Reachable s ∧ s.destructor = .returned ∧
      s.enqueued = [7] ∧ s.executed = [] ∧ ¬ s.AllExecuted) ∧
    ∃ s, (system ℕ (Fin 1) (Fin 1)).Reachable s ∧ s.destructor = .join ∧
      s.workers 0 = .waiting false ∧ ¬ s.NoneForgotten := by
  constructor
  · have hrun : ∃ s ∈ runFrom next (fun _ _ => True) (start : State ℕ (Fin 1) (Fin 1))
        destroyedAtOnce, s.destructor = .returned ∧ s.enqueued = [7] ∧ s.executed = [] := by
      decide +kernel
    obtain ⟨s, hreach, hreturned, henqueued, hexecuted⟩ := exists_of_runFrom hrun
    refine ⟨s, hreach, hreturned, henqueued, hexecuted, fun hall => ?_⟩
    have hperm := hall hreturned
    rw [henqueued, hexecuted] at hperm
    exact absurd hperm.length_eq (by decide)
  · have hrun : ∃ s ∈ runFrom next (fun _ _ => True) (start : State ℕ (Fin 1) (Fin 1))
        destroyedTooEarly,
        s.destructor = .join ∧ s.running = false ∧ s.workers 0 = .waiting false := by
      decide +kernel
    obtain ⟨s, hreach, hjoin, hrunning, hwaiting⟩ := exists_of_runFrom hrun
    refine ⟨s, hreach, hjoin, hwaiting, fun hnone => ?_⟩
    have hasleep := hnone hrunning (by simp [hjoin]) 0
    rw [hwaiting] at hasleep
    exact absurd hasleep.symm Bool.false_ne_true

end ThreadPool
