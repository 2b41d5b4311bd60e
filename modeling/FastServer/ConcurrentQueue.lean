/-
# The queue of the thread pool

`ConcurrentQueue` of `trade.hpp` under any number of threads that pop and any number that push
or stop.  `pop` tests under the mutex whether there is something to take or the queue was
stopped, and otherwise waits on the condition variable; `stop` clears the flag and notifies
without the mutex.  The threads that pop are the workers of the `ThreadPool`.
-/
import FastServer.TransitionSystem

namespace ConcurrentQueue

open TransitionSystem

variable {α ι κ : Type}

/-! ## State -/

/-- Where a thread that pops stands: between two calls; in `pop` about to lock the mutex, to
test the predicate of the wait, to release the mutex and wait, waiting, about to test the flag
again, to take the first item, or to unlock the mutex; running the task that it got; or behind
its loop. -/
inductive Consumer (α : Type)
  | idle
  | lock
  | test
  | wait
  | waiting (notified : Bool)
  | check
  | take
  | unlock (result : Option α)
  | run (task : α)
  | exited
deriving DecidableEq

/-- Where another thread stands: in `push` about to lock the mutex, to test the flag, to put the
item into the queue, to notify a thread, or to unlock the mutex; in `stop` about to clear the
flag, or to notify all threads. -/
inductive Caller (α : Type)
  | idle
  | pushLock (item : α)
  | pushTest (item : α)
  | pushPut (item : α)
  | pushNotify
  | pushUnlock
  | stopStore
  | stopNotify

/-- The queue, who holds the mutex, the flag and the threads; `stopped` tells whether a `stop`
has returned. -/
structure State (α ι κ : Type) where
  queue_ : List α
  mutex_ : Option (ι ⊕ κ)
  running_ : Bool
  consumers : ι → Consumer α
  callers : κ → Caller α
  stopped : Bool

/-- The workers have been started. -/
def start : State α ι κ where
  queue_ := []
  mutex_ := none
  running_ := true
  consumers := fun _ => .idle
  callers := fun _ => .idle
  stopped := false

/-! ## Steps -/

section Steps

variable [DecidableEq ι] [DecidableEq κ]

/-- Thread `i` goes on at `pc`. -/
def State.setConsumer (s : State α ι κ) (i : ι) (pc : Consumer α) : State α ι κ :=
  { s with consumers := Function.update s.consumers i pc }

/-- Thread `k` goes on at `pc`. -/
def State.setCaller (s : State α ι κ) (k : κ) (pc : Caller α) : State α ι κ :=
  { s with callers := Function.update s.callers k pc }

omit [DecidableEq κ] in
/-- The next step of a worker: of its loop, of `pop` or of the task. -/
def State.stepConsumer (s : State α ι κ) (i : ι) : Option (State α ι κ) :=
  match s.consumers i with
  | .idle => some (s.setConsumer i (if s.running_ = true then .lock else .exited))
  | .lock =>
      match s.mutex_ with
      | none => some { s.setConsumer i .test with mutex_ := some (.inl i) }
      | some _ => none
  | .test =>
      if s.queue_ ≠ [] ∨ s.running_ = false then some (s.setConsumer i .check)
      else some (s.setConsumer i .wait)
  | .wait => some { s.setConsumer i (.waiting false) with mutex_ := none }
  | .waiting false => none
  | .waiting true =>
      match s.mutex_ with
      | none => some { s.setConsumer i .test with mutex_ := some (.inl i) }
      | some _ => none
  | .check => some (s.setConsumer i (if s.running_ = true then .take else .unlock none))
  | .take =>
      match s.queue_ with
      | item :: rest => some { s.setConsumer i (.unlock (some item)) with queue_ := rest }
      | [] => none
  | .unlock (some task) => some { s.setConsumer i (.run task) with mutex_ := none }
  | .unlock none => some { s.setConsumer i .idle with mutex_ := none }
  | .run _ => some (s.setConsumer i .idle)
  | .exited => none

omit [DecidableEq κ] in
/-- A call of `pop` from elsewhere than the loop of a worker. -/
def State.pop (s : State α ι κ) (i : ι) : Option (State α ι κ) :=
  match s.consumers i with
  | .idle => some (s.setConsumer i .lock)
  | _ => none

/-- Whether a thread waits and has not been notified. -/
def Consumer.asleep : Consumer α → Bool
  | .waiting false => true
  | _ => false

omit [DecidableEq κ] in
/-- A thread that waits wakes up, notified or spuriously: it is to lock the mutex and to test
the predicate again. -/
def State.wakeUp (s : State α ι κ) (i : ι) : Option (State α ι κ) :=
  if (s.consumers i).asleep = true then some (s.setConsumer i (.waiting true)) else none

/-- A notification reaches a thread that waits. -/
def Consumer.notify : Consumer α → Consumer α
  | .waiting _ => .waiting true
  | pc => pc

omit [DecidableEq κ] in
/-- `notify_one` wakes one of the threads that wait, if there are any. -/
def State.notifyOne [Fintype ι] (s : State α ι κ) : Option ι → Option (State α ι κ)
  | some i => s.wakeUp i
  | none => if ∀ i, (s.consumers i).asleep = false then some s else none

/-- The next step of `push` or `stop`; `woken` is the thread that `notify_one` chooses. -/
def State.stepCaller [Fintype ι] (s : State α ι κ) (k : κ) (woken : Option ι) :
    Option (State α ι κ) :=
  match s.callers k with
  | .idle => none
  | .pushLock item =>
      match s.mutex_ with
      | none => some { s.setCaller k (.pushTest item) with mutex_ := some (.inr k) }
      | some _ => none
  | .pushTest item =>
      some (s.setCaller k (if s.running_ = true then .pushPut item else .pushUnlock))
  | .pushPut item => some { s.setCaller k .pushNotify with queue_ := s.queue_ ++ [item] }
  | .pushNotify => (s.setCaller k .pushUnlock).notifyOne woken
  | .pushUnlock => some { s.setCaller k .idle with mutex_ := none }
  | .stopStore => some { s.setCaller k .stopNotify with running_ := false }
  | .stopNotify =>
      some { s.setCaller k .idle with
        consumers := fun i => (s.consumers i).notify
        stopped := true }

/-- A call of `pop`, `push` or `stop`, a step of a thread, or a spurious wake-up. -/
inductive Action (α ι κ : Type)
  | pop (i : ι)
  | push (k : κ) (item : α)
  | stop (k : κ)
  | consumer (i : ι)
  | wakeUp (i : ι)
  | caller (k : κ) (woken : Option ι)

/-- A call by a thread that is not in one. -/
def State.call (s : State α ι κ) (k : κ) (pc : Caller α) : Option (State α ι κ) :=
  match s.callers k with
  | .idle => some (s.setCaller k pc)
  | _ => none

/-- The state after a step, if it is enabled. -/
def next [Fintype ι] (s : State α ι κ) : Action α ι κ → Option (State α ι κ)
  | .pop i => s.pop i
  | .push k item => s.call k (.pushLock item)
  | .stop k => s.call k .stopStore
  | .consumer i => s.stepConsumer i
  | .wakeUp i => s.wakeUp i
  | .caller k woken => s.stepCaller k woken

variable (α ι κ) in
/-- The queue with its threads. -/
def system [Fintype ι] : TransitionSystem (State α ι κ) (Action α ι κ) :=
  TransitionSystem.ofFunction start next

end Steps

/-! ## What should hold -/

/-- Once a `stop` has returned, no thread waits for a notification that does not come. -/
def State.Delivered (s : State α ι κ) : Prop :=
  s.stopped = true → ∀ i, (s.consumers i).asleep = false

/-- Whether a thread has found nothing to take and does not wait yet. -/
def Consumer.aboutToWait : Consumer α → Bool
  | .wait => true
  | _ => false

/-- The step is not one in which `stop` notifies all threads while a thread is between its test
and its wait. -/
def State.NotifiedInTime (s : State α ι κ) : Action α ι κ → Prop
  | .caller k _ =>
      match s.callers k with
      | .stopNotify => ∀ i, (s.consumers i).aboutToWait = false
      | _ => True
  | _ => True

instance [Fintype ι] (s : State α ι κ) : DecidablePred s.NotifiedInTime
  | .caller k _ => by
      unfold State.NotifiedInTime
      dsimp only
      split <;> infer_instance
  | .pop _ => .isTrue trivial
  | .push _ _ => .isTrue trivial
  | .stop _ => .isTrue trivial
  | .consumer _ => .isTrue trivial
  | .wakeUp _ => .isTrue trivial

/-- The step is one that its thread makes by itself: neither a call nor a spurious wake-up. -/
def Action.goesOn : Action α ι κ → Bool
  | .consumer _ => true
  | .caller _ _ => true
  | _ => false

/-! ## The invariant -/

/-- Whether a thread at `pc` holds the mutex. -/
def Consumer.holds : Consumer α → Bool
  | .test => true
  | .wait => true
  | .check => true
  | .take => true
  | .unlock _ => true
  | _ => false

/-- Whether a thread at `pc` holds the mutex. -/
def Caller.holds : Caller α → Bool
  | .pushTest _ => true
  | .pushPut _ => true
  | .pushNotify => true
  | .pushUnlock => true
  | _ => false

/-- Whether a thread has cleared the flag and not yet notified the others. -/
def Caller.stopping : Caller α → Bool
  | .stopNotify => true
  | _ => false

/-- What a thread at `pc` knows of the queue and the flag. -/
def ConsumerOk (queue_ : List α) (running_ : Bool) : Consumer α → Prop
  | .check => queue_ ≠ [] ∨ running_ = false
  | .take => queue_ ≠ []
  | _ => True

/-- A thread holds the mutex exactly where it should; the flag is cleared before the threads are
notified; and once a `stop` has returned, no thread waits or is about to. -/
structure State.Invariant (s : State α ι κ) : Prop where
  consumerHolds : ∀ i, (s.consumers i).holds = true ↔ s.mutex_ = some (.inl i)
  callerHolds : ∀ k, (s.callers k).holds = true ↔ s.mutex_ = some (.inr k)
  stopping : ∀ k, (s.callers k).stopping = true → s.running_ = false
  stopped : s.stopped = true → s.running_ = false
  found : ∀ i, ConsumerOk s.queue_ s.running_ (s.consumers i)
  awake : s.stopped = true → ∀ i,
    (s.consumers i).asleep = false ∧ (s.consumers i).aboutToWait = false

variable {s s' : State α ι κ} {i : ι} {k : κ}

/-- A thread that does not hold the mutex knows nothing. -/
theorem consumerOk_of_not_holds {queue_ : List α} {running_ : Bool} {pc : Consumer α}
    (h : pc.holds = false) : ConsumerOk queue_ running_ pc := by
  cases pc with
  | check => exact absurd h.symm Bool.false_ne_true
  | take => exact absurd h.symm Bool.false_ne_true
  | _ => trivial

/-- What a thread knows stays true when there is more in the queue, or the flag is cleared. -/
theorem ConsumerOk.mono {queue_ queue' : List α} {running_ running' : Bool} {pc : Consumer α}
    (h : ConsumerOk queue_ running_ pc) (hqueue : queue_ ≠ [] → queue' ≠ [])
    (hrunning : running_ = false → running' = false) : ConsumerOk queue' running' pc := by
  cases pc with
  | check => exact h.imp hqueue hrunning
  | take => exact hqueue h
  | _ => trivial

@[simp] theorem notify_holds (pc : Consumer α) : pc.notify.holds = pc.holds := by
  cases pc <;> rfl

@[simp] theorem notify_asleep (pc : Consumer α) : pc.notify.asleep = false := by
  cases pc <;> rfl

@[simp] theorem notify_aboutToWait (pc : Consumer α) :
    pc.notify.aboutToWait = pc.aboutToWait := by
  cases pc <;> rfl

theorem ConsumerOk.notify {queue_ : List α} {running_ : Bool} {pc : Consumer α}
    (h : ConsumerOk queue_ running_ pc) : ConsumerOk queue_ running_ pc.notify := by
  cases pc <;> exact h

namespace State.Invariant

/-- **Nothing waits in vain** where the invariant holds. -/
theorem delivered (h : s.Invariant) : s.Delivered :=
  fun hstopped i => (h.awake hstopped i).1

theorem start_invariant : (start : State α ι κ).Invariant where
  consumerHolds := by simp [start, Consumer.holds]
  callerHolds := by simp [start, Caller.holds]
  stopping := by simp [start, Caller.stopping]
  stopped := by simp [start]
  found := fun _ => trivial
  awake := by simp [start]

section Moves

variable [DecidableEq ι] [DecidableEq κ]

omit [DecidableEq κ] in
/-- **A thread that pops goes on**, and may lock or unlock the mutex, and take something out of
the queue while it holds it. -/
theorem moveConsumer (h : s.Invariant) {pc : Consumer α} {queue' : List α}
    {mutex' : Option (ι ⊕ κ)} (hholds : pc.holds = true ↔ mutex' = some (.inl i))
    (hothers : ∀ t, t ≠ .inl i → (mutex' = some t ↔ s.mutex_ = some t))
    (hqueue : queue' = s.queue_ ∨ s.mutex_ = some (.inl i))
    (hok : ConsumerOk queue' s.running_ pc)
    (hawake : s.stopped = true → pc.asleep = false ∧ pc.aboutToWait = false) :
    ({ s.setConsumer i pc with queue_ := queue', mutex_ := mutex' } : State α ι κ).Invariant where
  consumerHolds := by
    intro j
    show (Function.update s.consumers i pc j).holds = true ↔ mutex' = some (.inl j)
    by_cases hj : j = i
    · subst hj
      rw [Function.update_self]
      exact hholds
    · rw [Function.update_of_ne hj, hothers _ (by simpa using hj)]
      exact h.consumerHolds j
  callerHolds := by
    intro k
    rw [hothers _ (by simp)]
    exact h.callerHolds k
  stopping := h.stopping
  stopped := h.stopped
  found := by
    intro j
    show ConsumerOk queue' s.running_ (Function.update s.consumers i pc j)
    by_cases hj : j = i
    · subst hj
      rw [Function.update_self]
      exact hok
    · rw [Function.update_of_ne hj]
      rcases hqueue with rfl | hmutex
      · exact h.found j
      · -- thread `i` holds the mutex, so thread `j` does not
        apply consumerOk_of_not_holds
        have hne := mt (h.consumerHolds j).mp
        rw [hmutex, Option.some.injEq, Sum.inl.injEq] at hne
        exact Bool.not_eq_true _ ▸ hne fun heq => hj heq.symm
  awake := by
    intro hstopped j
    show (Function.update s.consumers i pc j).asleep = false ∧
      (Function.update s.consumers i pc j).aboutToWait = false
    by_cases hj : j = i
    · subst hj
      rw [Function.update_self]
      exact hawake hstopped
    · rw [Function.update_of_ne hj]
      exact h.awake hstopped j

omit [DecidableEq ι] in
/-- **A thread that pushes or stops goes on**, and may lock or unlock the mutex, put something
into the queue and clear the flag. -/
theorem moveCaller (h : s.Invariant) {pc : Caller α} {queue' : List α}
    {mutex' : Option (ι ⊕ κ)} {running' : Bool}
    (hholds : pc.holds = true ↔ mutex' = some (.inr k))
    (hothers : ∀ t, t ≠ .inr k → (mutex' = some t ↔ s.mutex_ = some t))
    (hqueue : s.queue_ ≠ [] → queue' ≠ [])
    (hrunning : s.running_ = false → running' = false)
    (hstopping : pc.stopping = true → running' = false) :
    ({ s.setCaller k pc with queue_ := queue', mutex_ := mutex', running_ := running' } :
      State α ι κ).Invariant where
  consumerHolds := by
    intro i
    rw [hothers _ (by simp)]
    exact h.consumerHolds i
  callerHolds := by
    intro j
    show (Function.update s.callers k pc j).holds = true ↔ mutex' = some (.inr j)
    by_cases hj : j = k
    · subst hj
      rw [Function.update_self]
      exact hholds
    · rw [Function.update_of_ne hj, hothers _ (by simpa using hj)]
      exact h.callerHolds j
  stopping := by
    intro j
    show (Function.update s.callers k pc j).stopping = true → running' = false
    by_cases hj : j = k
    · subst hj
      rw [Function.update_self]
      exact hstopping
    · rw [Function.update_of_ne hj]
      exact fun hj => hrunning (h.stopping j hj)
  stopped := fun hstopped => hrunning (h.stopped hstopped)
  found := fun i => (h.found i).mono hqueue hrunning
  awake := h.awake

omit [DecidableEq ι] [DecidableEq κ] in
/-- **Threads are notified.** -/
theorem notify (h : s.Invariant) {consumers' : ι → Consumer α}
    (hconsumers : ∀ i, consumers' i = s.consumers i ∨ consumers' i = (s.consumers i).notify) :
    ({ s with consumers := consumers' } : State α ι κ).Invariant where
  consumerHolds := by
    intro i
    show (consumers' i).holds = true ↔ _
    rcases hconsumers i with heq | heq
    · rw [heq]
      exact h.consumerHolds i
    · rw [heq, notify_holds]
      exact h.consumerHolds i
  callerHolds := h.callerHolds
  stopping := h.stopping
  stopped := h.stopped
  found := by
    intro i
    show ConsumerOk s.queue_ s.running_ (consumers' i)
    rcases hconsumers i with heq | heq
    · rw [heq]
      exact h.found i
    · rw [heq]
      exact (h.found i).notify
  awake := by
    intro hstopped i
    show (consumers' i).asleep = false ∧ (consumers' i).aboutToWait = false
    rcases hconsumers i with heq | heq
    · rw [heq]
      exact h.awake hstopped i
    · rw [heq, notify_asleep, notify_aboutToWait]
      exact ⟨rfl, (h.awake hstopped i).2⟩

end Moves

/-- Locking a free mutex takes it from nobody. -/
theorem lock_others {t : ι ⊕ κ} (hmutex : s.mutex_ = none) (t' : ι ⊕ κ) (ht : t' ≠ t) :
    some t = some t' ↔ s.mutex_ = some t' := by
  rw [hmutex]
  simp [ht.symm]

/-- Unlocking the mutex takes it from nobody else. -/
theorem unlock_others {t : ι ⊕ κ} (hmutex : s.mutex_ = some t) (t' : ι ⊕ κ) (ht : t' ≠ t) :
    none = some t' ↔ s.mutex_ = some t' := by
  rw [hmutex]
  simp [ht.symm]

/-! ## Steps -/

section Steps

variable [DecidableEq ι] [DecidableEq κ]

omit [DecidableEq κ] in
/-- A thread that pops goes on without locking or unlocking the mutex. -/
theorem keepConsumer (h : s.Invariant) {pc : Consumer α}
    (hholds : pc.holds = (s.consumers i).holds) (hok : ConsumerOk s.queue_ s.running_ pc)
    (hawake : s.stopped = true → pc.asleep = false ∧ pc.aboutToWait = false) :
    (s.setConsumer i pc).Invariant :=
  h.moveConsumer (by rw [hholds]; exact h.consumerHolds i) (fun _ _ => Iff.rfl) (.inl rfl) hok
    hawake

omit [DecidableEq κ] in
/-- A thread that pops locks the mutex. -/
theorem lockConsumer (h : s.Invariant) (i : ι) (hmutex : s.mutex_ = none) :
    ({ s.setConsumer i .test with mutex_ := some (.inl i) } : State α ι κ).Invariant :=
  h.moveConsumer (by simp [Consumer.holds]) (lock_others hmutex) (.inl rfl) trivial
    fun _ => ⟨rfl, rfl⟩

omit [DecidableEq κ] in
/-- A thread that pops unlocks the mutex. -/
theorem unlockConsumer (h : s.Invariant) {pc : Consumer α}
    (hold : (s.consumers i).holds = true) (hholds : pc.holds = false)
    (hawake : s.stopped = true → pc.asleep = false ∧ pc.aboutToWait = false) :
    ({ s.setConsumer i pc with mutex_ := none } : State α ι κ).Invariant :=
  h.moveConsumer (by simp [hholds]) (unlock_others ((h.consumerHolds i).mp hold)) (.inl rfl)
    (consumerOk_of_not_holds hholds) hawake

omit [DecidableEq κ] in
/-- **A step of a thread that pops** keeps the invariant. -/
theorem stepConsumer (h : s.Invariant) (hstep : s.stepConsumer i = some s') : s'.Invariant := by
  have hfound := h.found i
  have hawake := fun hstopped => h.awake hstopped i
  unfold State.stepConsumer at hstep
  cases hpc : s.consumers i with
  | idle =>
    rw [hpc] at hstep
    obtain rfl := Option.some.inj hstep
    split_ifs
    · exact h.keepConsumer (by rw [hpc]; rfl) trivial fun _ => ⟨rfl, rfl⟩
    · exact h.keepConsumer (by rw [hpc]; rfl) trivial fun _ => ⟨rfl, rfl⟩
  | lock =>
    rw [hpc] at hstep
    cases hmutex : s.mutex_ with
    | none =>
      rw [hmutex] at hstep
      obtain rfl := Option.some.inj hstep
      exact h.lockConsumer i hmutex
    | some t =>
      rw [hmutex] at hstep
      exact absurd hstep.symm (Option.some_ne_none _)
  | test =>
    rw [hpc] at hstep
    dsimp only at hstep
    split_ifs at hstep with hpredicate
    · obtain rfl := Option.some.inj hstep
      exact h.keepConsumer (by rw [hpc]; rfl) hpredicate fun _ => ⟨rfl, rfl⟩
    · obtain rfl := Option.some.inj hstep
      -- the flag is still set, so no `stop` has returned
      refine h.keepConsumer (by rw [hpc]; rfl) trivial fun hstopped => ?_
      exact absurd (.inr (h.stopped hstopped)) hpredicate
  | wait =>
    rw [hpc] at hstep hawake
    obtain rfl := Option.some.inj hstep
    refine h.unlockConsumer (by rw [hpc]; rfl) rfl fun hstopped => ?_
    exact absurd (hawake hstopped).2.symm Bool.false_ne_true
  | waiting notified =>
    rw [hpc] at hstep
    cases notified with
    | false => exact absurd hstep.symm (Option.some_ne_none _)
    | true =>
      cases hmutex : s.mutex_ with
      | none =>
        rw [hmutex] at hstep
        obtain rfl := Option.some.inj hstep
        exact h.lockConsumer i hmutex
      | some t =>
        rw [hmutex] at hstep
        exact absurd hstep.symm (Option.some_ne_none _)
  | check =>
    rw [hpc] at hstep hfound
    obtain rfl := Option.some.inj hstep
    split_ifs with hrunning
    · have hne : s.queue_ ≠ [] := hfound.resolve_right (by simp [hrunning])
      exact h.keepConsumer (by rw [hpc]; rfl) hne fun _ => ⟨rfl, rfl⟩
    · exact h.keepConsumer (by rw [hpc]; rfl) trivial fun _ => ⟨rfl, rfl⟩
  | take =>
    rw [hpc] at hstep
    cases hqueue : s.queue_ with
    | nil =>
      rw [hqueue] at hstep
      exact absurd hstep.symm (Option.some_ne_none _)
    | cons item rest =>
      rw [hqueue] at hstep
      obtain rfl := Option.some.inj hstep
      have hmutex : s.mutex_ = some (.inl i) := (h.consumerHolds i).mp (by rw [hpc]; rfl)
      have hkeep : (Consumer.unlock (some item)).holds = true ↔ s.mutex_ = some (.inl i) := by
        simp [Consumer.holds, hmutex]
      exact h.moveConsumer hkeep (fun _ _ => Iff.rfl) (.inr hmutex) trivial fun _ => ⟨rfl, rfl⟩
  | unlock result =>
    rw [hpc] at hstep
    cases result with
    | none =>
      obtain rfl := Option.some.inj hstep
      exact h.unlockConsumer (by rw [hpc]; rfl) rfl fun _ => ⟨rfl, rfl⟩
    | some task =>
      obtain rfl := Option.some.inj hstep
      exact h.unlockConsumer (by rw [hpc]; rfl) rfl fun _ => ⟨rfl, rfl⟩
  | run task =>
    rw [hpc] at hstep
    obtain rfl := Option.some.inj hstep
    exact h.keepConsumer (by rw [hpc]; rfl) trivial fun _ => ⟨rfl, rfl⟩
  | exited =>
    rw [hpc] at hstep
    exact absurd hstep.symm (Option.some_ne_none _)

omit [DecidableEq ι] in
/-- A thread that pushes or stops goes on without locking or unlocking the mutex. -/
theorem keepCaller (h : s.Invariant) {pc : Caller α} {queue' : List α} {running' : Bool}
    (hholds : pc.holds = (s.callers k).holds) (hqueue : s.queue_ ≠ [] → queue' ≠ [])
    (hrunning : s.running_ = false → running' = false)
    (hstopping : pc.stopping = true → running' = false) :
    ({ s.setCaller k pc with queue_ := queue', running_ := running' } : State α ι κ).Invariant :=
  h.moveCaller (by rw [hholds]; exact h.callerHolds k) (fun _ _ => Iff.rfl) hqueue hrunning
    hstopping

omit [DecidableEq κ] in
/-- A thread that waits wakes up. -/
theorem wakeUp (h : s.Invariant) (hstep : s.wakeUp i = some s') : s'.Invariant := by
  unfold State.wakeUp at hstep
  split_ifs at hstep with hasleep
  obtain rfl := Option.some.inj hstep
  have hholds : (s.consumers i).holds = false := by
    cases hpc : s.consumers i with
    | waiting => rfl
    | _ =>
      rw [hpc] at hasleep
      exact absurd hasleep Bool.false_ne_true
  exact h.keepConsumer hholds.symm trivial fun _ => ⟨rfl, rfl⟩

omit [DecidableEq κ] in
/-- `notify_one` notifies. -/
theorem notifyOne [Fintype ι] (h : s.Invariant) {woken : Option ι}
    (hstep : s.notifyOne woken = some s') : s'.Invariant := by
  cases woken with
  | none =>
    simp only [State.notifyOne] at hstep
    split_ifs at hstep with hnone
    obtain rfl := Option.some.inj hstep
    exact h
  | some i => exact h.wakeUp hstep

/-- **A step of a thread that pushes or stops** keeps the invariant, unless it notifies the
threads too early. -/
theorem stepCaller [Fintype ι] (h : s.Invariant) {woken : Option ι}
    (hintime : s.NotifiedInTime (.caller k woken)) (hstep : s.stepCaller k woken = some s') :
    s'.Invariant := by
  unfold State.stepCaller at hstep
  unfold State.NotifiedInTime at hintime
  cases hpc : s.callers k with
  | idle =>
    rw [hpc] at hstep
    exact absurd hstep.symm (Option.some_ne_none _)
  | pushLock item =>
    rw [hpc] at hstep
    cases hmutex : s.mutex_ with
    | none =>
      rw [hmutex] at hstep
      obtain rfl := Option.some.inj hstep
      exact h.moveCaller (by simp [Caller.holds]) (lock_others hmutex) id id
        (by simp [Caller.stopping])
    | some t =>
      rw [hmutex] at hstep
      exact absurd hstep.symm (Option.some_ne_none _)
  | pushTest item =>
    rw [hpc] at hstep
    obtain rfl := Option.some.inj hstep
    split_ifs
    · exact h.keepCaller (by rw [hpc]; rfl) id id (by simp [Caller.stopping])
    · exact h.keepCaller (by rw [hpc]; rfl) id id (by simp [Caller.stopping])
  | pushPut item =>
    rw [hpc] at hstep
    obtain rfl := Option.some.inj hstep
    exact h.keepCaller (by rw [hpc]; rfl) (by simp) id (by simp [Caller.stopping])
  | pushNotify =>
    rw [hpc] at hstep
    have hput : (s.setCaller k .pushUnlock).Invariant :=
      h.keepCaller (by rw [hpc]; rfl) id id (by simp [Caller.stopping])
    exact hput.notifyOne hstep
  | pushUnlock =>
    rw [hpc] at hstep
    obtain rfl := Option.some.inj hstep
    have hmutex : s.mutex_ = some (.inr k) := (h.callerHolds k).mp (by rw [hpc]; rfl)
    exact h.moveCaller (by simp [Caller.holds]) (unlock_others hmutex) id id
      (by simp [Caller.stopping])
  | stopStore =>
    rw [hpc] at hstep
    obtain rfl := Option.some.inj hstep
    exact h.keepCaller (by rw [hpc]; rfl) id (fun _ => rfl) fun _ => rfl
  | stopNotify =>
    rw [hpc] at hstep
    simp only [hpc] at hintime
    obtain rfl := Option.some.inj hstep
    have hidle : (s.setCaller k .idle).Invariant :=
      h.keepCaller (by rw [hpc]; rfl) id id (by simp [Caller.stopping])
    have hrunning : s.running_ = false := h.stopping k (by rw [hpc]; rfl)
    refine { hidle.notify fun i => .inr rfl with stopped := fun _ => hrunning, awake := ?_ }
    intro _ i
    show (s.consumers i).notify.asleep = false ∧ (s.consumers i).notify.aboutToWait = false
    rw [notify_asleep, notify_aboutToWait]
    exact ⟨rfl, hintime i⟩

omit [DecidableEq ι] in
/-- A call of `push` or `stop`. -/
theorem call (h : s.Invariant) {pc : Caller α} (hholds : pc.holds = false)
    (hstopping : pc.stopping = false) (hstep : s.call k pc = some s') : s'.Invariant := by
  unfold State.call at hstep
  cases hpc : s.callers k with
  | idle =>
    rw [hpc] at hstep
    obtain rfl := Option.some.inj hstep
    exact h.keepCaller (by rw [hpc]; exact hholds) id id (by simp [hstopping])
  | _ =>
    rw [hpc] at hstep
    exact absurd hstep.symm (Option.some_ne_none _)

/-- **A step** keeps the invariant, unless it notifies the threads too early. -/
theorem next [Fintype ι] (h : s.Invariant) {a : Action α ι κ} (hintime : s.NotifiedInTime a)
    (hstep : ConcurrentQueue.next s a = some s') : s'.Invariant := by
  cases a with
  | pop i =>
    have hstep : s.pop i = some s' := hstep
    unfold State.pop at hstep
    cases hpc : s.consumers i with
    | idle =>
      rw [hpc] at hstep
      obtain rfl := Option.some.inj hstep
      exact h.keepConsumer (by rw [hpc]; rfl) trivial fun _ => ⟨rfl, rfl⟩
    | _ =>
      rw [hpc] at hstep
      exact absurd hstep.symm (Option.some_ne_none _)
  | push k item => exact h.call rfl rfl hstep
  | stop k => exact h.call rfl rfl hstep
  | consumer i => exact h.stepConsumer hstep
  | wakeUp i => exact h.wakeUp hstep
  | caller k woken => exact h.stepCaller hintime hstep

end Steps

end State.Invariant

/-! ## Joining the workers -/

/-- How many steps a worker is from the end of its loop once the flag is cleared. -/
def Consumer.rank : Consumer α → ℕ
  | .exited => 0
  | .idle => 1
  | .run _ => 2
  | .unlock none => 2
  | .unlock (some _) => 3
  | .take => 4
  | .check => 5
  | .test => 6
  | .lock => 7
  | .waiting _ => 7
  | .wait => 8

/-- How many steps a thread that holds the mutex is from the end of `push`. -/
def Caller.rank : Caller α → ℕ
  | .pushTest _ => 4
  | .pushPut _ => 3
  | .pushNotify => 2
  | .pushUnlock => 1
  | _ => 0

/-- How many steps the thread that holds the mutex is from the end of `push`. -/
def State.holderRank (s : State α ι κ) : ℕ :=
  match s.mutex_ with
  | some (.inr k) => (s.callers k).rank
  | _ => 0

/-- How many steps the workers and the thread that holds the mutex are from the end. -/
def State.rank [Fintype ι] (s : State α ι κ) : ℕ :=
  ∑ i, (s.consumers i).rank + s.holderRank

theorem rank_eq_zero_iff (pc : Consumer α) : pc.rank = 0 ↔ pc = .exited := by
  cases pc with
  | unlock result => cases result <;> simp [Consumer.rank]
  | _ => simp [Consumer.rank]

variable [Fintype ι] [DecidableEq ι] [DecidableEq κ]

omit [DecidableEq κ] in
/-- A worker that comes closer to the end brings all of them closer. -/
theorem rank_setConsumer_lt {pc : Consumer α} {queue' : List α} {mutex' : Option (ι ⊕ κ)}
    (hrank : pc.rank < (s.consumers i).rank)
    (hholder : ({ s with mutex_ := mutex' } : State α ι κ).holderRank = s.holderRank) :
    ({ s.setConsumer i pc with queue_ := queue', mutex_ := mutex' } : State α ι κ).rank
      < s.rank := by
  have hsum : ∑ j, (Function.update s.consumers i pc j).rank < ∑ j, (s.consumers j).rank := by
    apply Finset.sum_lt_sum
    · intro j _
      by_cases hj : j = i
      · subst hj
        rw [Function.update_self]
        exact le_of_lt hrank
      · rw [Function.update_of_ne hj]
    · refine ⟨i, Finset.mem_univ i, ?_⟩
      rw [Function.update_self]
      exact hrank
  exact Nat.add_lt_add_of_lt_of_le hsum (le_of_eq hholder)

namespace State.Invariant

omit [DecidableEq κ] in
/-- **A worker goes on** once a `stop` has returned and the mutex is free or its own. -/
theorem exists_stepConsumer (h : s.Invariant) (hstopped : s.stopped = true)
    (hmutex : s.mutex_ = none ∨ s.mutex_ = some (.inl i)) (hrank : (s.consumers i).rank ≠ 0) :
    ∃ s', s.stepConsumer i = some s' ∧ s'.stopped = true ∧ s'.rank < s.rank := by
  have hholder : ∀ mutex' : Option (ι ⊕ κ), (mutex' = none ∨ mutex' = some (.inl i)) →
      ({ s with mutex_ := mutex' } : State α ι κ).holderRank = s.holderRank := by
    rintro mutex' (rfl | rfl)
    · rcases hmutex with heq | heq <;> simp [State.holderRank, heq]
    · rcases hmutex with heq | heq <;> simp [State.holderRank, heq]
  have hkeep := hholder s.mutex_ hmutex
  have hrunning := h.stopped hstopped
  have hfound := h.found i
  have hawake := h.awake hstopped i
  have hholds := h.consumerHolds i
  unfold State.stepConsumer
  cases hpc : s.consumers i with
  | idle =>
    refine ⟨_, rfl, hstopped, rank_setConsumer_lt ?_ hkeep⟩
    simp [hrunning, hpc, Consumer.rank]
  | lock =>
    have hfree : s.mutex_ = none := by
      refine hmutex.resolve_right fun hown => ?_
      rw [hpc] at hholds
      exact absurd (hholds.mpr hown) Bool.false_ne_true
    simp only [hfree]
    refine ⟨_, rfl, hstopped, rank_setConsumer_lt ?_ (hholder _ (.inr rfl))⟩
    simp [hpc, Consumer.rank]
  | test =>
    simp only [hrunning, or_true, if_true]
    refine ⟨_, rfl, hstopped, rank_setConsumer_lt ?_ hkeep⟩
    simp [hpc, Consumer.rank]
  | wait =>
    rw [hpc] at hawake
    exact absurd hawake.2.symm Bool.false_ne_true
  | waiting notified =>
    have hfree : s.mutex_ = none := by
      refine hmutex.resolve_right fun hown => ?_
      rw [hpc] at hholds
      exact absurd (hholds.mpr hown) Bool.false_ne_true
    rw [hpc] at hawake
    cases notified with
    | false => exact absurd hawake.1.symm Bool.false_ne_true
    | true =>
      simp only [hfree]
      refine ⟨_, rfl, hstopped, rank_setConsumer_lt ?_ (hholder _ (.inr rfl))⟩
      simp [hpc, Consumer.rank]
  | check =>
    refine ⟨_, rfl, hstopped, rank_setConsumer_lt ?_ hkeep⟩
    simp [hrunning, hpc, Consumer.rank]
  | take =>
    rw [hpc] at hfound
    obtain ⟨item, rest, hqueue⟩ := List.exists_cons_of_ne_nil hfound
    simp only [hqueue]
    refine ⟨_, rfl, hstopped, rank_setConsumer_lt ?_ hkeep⟩
    simp [hpc, Consumer.rank]
  | unlock result =>
    cases result with
    | none =>
      refine ⟨_, rfl, hstopped, rank_setConsumer_lt ?_ (hholder _ (.inl rfl))⟩
      simp [hpc, Consumer.rank]
    | some task =>
      refine ⟨_, rfl, hstopped, rank_setConsumer_lt ?_ (hholder _ (.inl rfl))⟩
      simp [hpc, Consumer.rank]
  | run task =>
    refine ⟨_, rfl, hstopped, rank_setConsumer_lt ?_ hkeep⟩
    simp [hpc, Consumer.rank]
  | exited =>
    rw [hpc] at hrank
    exact absurd rfl hrank

/-- **The thread that holds the mutex goes on** once a `stop` has returned. -/
theorem exists_stepCaller (h : s.Invariant) (hstopped : s.stopped = true)
    (hmutex : s.mutex_ = some (.inr k)) :
    ∃ s', s.stepCaller k none = some s' ∧ s'.stopped = true ∧ s'.rank < s.rank := by
  have hrunning := h.stopped hstopped
  have hholds := (h.callerHolds k).mpr hmutex
  have hrank : s.rank = ∑ i, (s.consumers i).rank + (s.callers k).rank := by
    simp [State.rank, State.holderRank, hmutex]
  unfold State.stepCaller
  rw [hrank]
  cases hpc : s.callers k with
  | pushTest item =>
    refine ⟨_, rfl, hstopped, ?_⟩
    simp [State.rank, State.holderRank, State.setCaller, hmutex, hrunning, Caller.rank]
  | pushPut item =>
    refine ⟨_, rfl, hstopped, ?_⟩
    simp [State.rank, State.holderRank, State.setCaller, hmutex, Caller.rank]
  | pushNotify =>
    have hnone : ∀ i, (s.consumers i).asleep = false := fun i => (h.awake hstopped i).1
    refine ⟨s.setCaller k .pushUnlock, if_pos hnone, hstopped, ?_⟩
    simp [State.rank, State.holderRank, State.setCaller, hmutex, Caller.rank]
  | pushUnlock =>
    refine ⟨_, rfl, hstopped, ?_⟩
    simp [State.rank, State.holderRank, State.setCaller, Caller.rank]
  | _ =>
    rw [hpc] at hholds
    exact absurd hholds Bool.false_ne_true

/-- **Some thread goes on** until all workers are behind their loops. -/
theorem exists_goesOn (h : s.Invariant) (hstopped : s.stopped = true)
    (hrank : (s.consumers i).rank ≠ 0) :
    ∃ a s', a.goesOn = true ∧ s.NotifiedInTime a ∧ ConcurrentQueue.next s a = some s' ∧
      s'.stopped = true ∧ s'.rank < s.rank := by
  cases hmutex : s.mutex_ with
  | none =>
    obtain ⟨s', hstep, hlater⟩ := h.exists_stepConsumer hstopped (.inl hmutex) hrank
    exact ⟨.consumer i, s', rfl, trivial, hstep, hlater⟩
  | some t =>
    cases t with
    | inl j =>
      have hholds := (h.consumerHolds j).mpr hmutex
      have hbusy : (s.consumers j).rank ≠ 0 := by
        intro hzero
        rw [(rank_eq_zero_iff _).mp hzero] at hholds
        exact absurd hholds Bool.false_ne_true
      obtain ⟨s', hstep, hlater⟩ := h.exists_stepConsumer hstopped (.inr hmutex) hbusy
      exact ⟨.consumer j, s', rfl, trivial, hstep, hlater⟩
    | inr k =>
      have hholds := (h.callerHolds k).mpr hmutex
      obtain ⟨s', hstep, hlater⟩ := h.exists_stepCaller hstopped hmutex
      refine ⟨.caller k none, s', rfl, ?_, hstep, hlater⟩
      simp only [State.NotifiedInTime]
      cases hpc : s.callers k with
      | stopNotify =>
        rw [hpc] at hholds
        exact absurd hholds Bool.false_ne_true
      | _ => simp

/-- **All workers can be joined** once a `stop` has returned, without another call. -/
theorem exists_joined (h : s.Invariant) (hstopped : s.stopped = true) :
    ∃ as s', (∀ a ∈ as, Action.goesOn a = true) ∧
      runFrom ConcurrentQueue.next (fun _ _ => True) s as = some s' ∧
      ∀ i, s'.consumers i = .exited := by
  generalize hn : s.rank = n
  induction n using Nat.strong_induction_on generalizing s with
  | _ n ih =>
    subst hn
    by_cases hall : ∀ i, s.consumers i = .exited
    · exact ⟨[], s, by simp, rfl, hall⟩
    · obtain ⟨i, hi⟩ := not_forall.mp hall
      obtain ⟨a, t, hgoes, hintime, hstep, hstopped', hlt⟩ :=
        h.exists_goesOn hstopped (mt (rank_eq_zero_iff _).mp hi)
      obtain ⟨as, s', has, hrun, hexited⟩ := ih _ hlt (h.next hintime hstep) hstopped' rfl
      refine ⟨a :: as, s', ?_, ?_, hexited⟩
      · simpa using ⟨hgoes, has⟩
      · simpa [runFrom, hstep] using hrun

end State.Invariant

/-- **No notification is lost**, for any number of threads and any order of their steps, in
every run in which `stop` never notifies the threads while one of them is between its test and
its wait.  Then all workers can be joined. -/
theorem delivered_of_notifiedInTime
    (h : (system α ι κ).ReachableBy State.NotifiedInTime s) :
    s.Delivered ∧ (s.stopped = true → ∃ as s', (∀ a ∈ as, Action.goesOn a = true) ∧
      runFrom next (fun _ _ => True) s as = some s' ∧ ∀ i, s'.consumers i = .exited) := by
  have hinvariant : s.Invariant := by
    apply h.invariant
    · rintro s rfl
      exact State.Invariant.start_invariant
    · intro s a s' hs hintime hstep
      exact hs.next hintime hstep
  exact ⟨hinvariant.delivered, hinvariant.exists_joined⟩

/-- **A notification is lost** whenever `stop` notifies the threads while one of them is between
its test and its wait. -/
theorem exists_not_delivered (h : (system α ι κ).Reachable s) (hcaller : s.callers k = .stopNotify)
    (hconsumer : s.consumers i = .wait) :
    ∃ s', (system α ι κ).Reachable s' ∧ s'.stopped = true ∧ ¬ s'.Delivered := by
  have hnotify : next s (.caller k none) = some { s.setCaller k .idle with
      consumers := fun i => (s.consumers i).notify
      stopped := true } := by
    simp only [next, State.stepCaller, hcaller]
  have hwait : next
      { s.setCaller k .idle with
        consumers := fun i => (s.consumers i).notify
        stopped := true } (.consumer i)
      = some { s.setCaller k .idle with
        mutex_ := none
        consumers := Function.update (fun i => (s.consumers i).notify) i (.waiting false)
        stopped := true } := by
    simp only [next, State.stepConsumer, hconsumer, Consumer.notify]
    rfl
  refine ⟨_, (h.step trivial hnotify).step trivial hwait, rfl, fun hdelivered => ?_⟩
  have hasleep := hdelivered rfl i
  simp [Consumer.asleep] at hasleep

/-! ## One worker -/

/-- The worker waits, wakes up for nothing and waits again; a task is pushed and run, and the
pool is stopped while the worker waits once more. -/
def oneTask : List (Action ℕ (Fin 1) (Fin 1)) :=
  List.replicate 4 (Action.consumer 0) ++ Action.wakeUp 0 :: List.replicate 3 (Action.consumer 0)
    ++ Action.push 0 7 ::
    [Action.caller 0 none, .caller 0 none, .caller 0 none, .caller 0 (some 0), .caller 0 none]
    ++ List.replicate 10 (Action.consumer 0)
    ++ [Action.stop 0, .caller 0 none, .caller 0 none]

/-- The worker is notified, and can be joined. -/
theorem delivered_oneTask :
    ∃ s, (system ℕ (Fin 1) (Fin 1)).ReachableBy State.NotifiedInTime s ∧ s.stopped = true ∧
      s.consumers 0 = .waiting true ∧ s.Delivered ∧
      ∃ as s', (∀ a ∈ as, Action.goesOn a = true) ∧
        runFrom next (fun _ _ => True) s as = some s' ∧ ∀ i, s'.consumers i = .exited := by
  have hrun : ∃ s ∈ runFrom next State.NotifiedInTime (start : State ℕ (Fin 1) (Fin 1)) oneTask,
      s.stopped = true ∧ s.consumers 0 = .waiting true := by decide +kernel
  obtain ⟨s, hreach, hstopped, hwaiting⟩ := exists_of_runFrom hrun
  have hdelivered := delivered_of_notifiedInTime hreach
  exact ⟨s, hreach, hstopped, hwaiting, hdelivered.1, hdelivered.2 hstopped⟩

/-- The pool is stopped between the test of the worker and its wait. -/
def stoppedTooEarly : List (Action ℕ (Fin 1) (Fin 1)) :=
  List.replicate 3 (.consumer 0) ++ [.stop 0, .caller 0 none, .caller 0 none, .consumer 0]

/-- **The worker waits for a notification that has come too early**, and the destructor of the
pool waits for the worker. -/
theorem not_delivered_stoppedTooEarly :
    ∃ s, (system ℕ (Fin 1) (Fin 1)).Reachable s ∧ s.stopped = true ∧
      s.consumers 0 = .waiting false ∧ ¬ s.Delivered := by
  have hrun : ∃ s ∈ runFrom next (fun _ _ => True) (start : State ℕ (Fin 1) (Fin 1))
      stoppedTooEarly, s.stopped = true ∧ s.consumers 0 = .waiting false := by decide +kernel
  obtain ⟨s, hreach, hstopped, hwaiting⟩ := exists_of_runFrom hrun
  refine ⟨s, hreach, hstopped, hwaiting, fun hdelivered => ?_⟩
  have hasleep := hdelivered hstopped 0
  rw [hwaiting] at hasleep
  exact absurd hasleep.symm Bool.false_ne_true

end ConcurrentQueue
