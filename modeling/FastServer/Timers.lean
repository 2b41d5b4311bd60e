/-
# The timers of a SubReactor

`registerTimer`, `cancelTimer` and `handleTimerEvents` of `SubReactor.cpp` over
the set `timers_`, whose order looks at the expiration only, and the timerfd.
Times are `steady_clock` counts of nanoseconds.
-/
import FastServer.MachineInt
import FastServer.SortedContainer
import FastServer.TransitionSystem

namespace Muduo

variable {γ : Type*}

/-! ## Data -/

/-- `struct TimerInfo`; `γ` is the type of the callbacks. -/
structure TimerInfo (γ : Type*) where
  id : ℤ
  interval_ms : ℤ
  callback : γ
  recurring : Bool
  expiration : ℤ
  deriving DecidableEq

/-- `TimerInfo::operator<`. -/
def TimerInfo.lt (t other : TimerInfo γ) : Prop := t.expiration < other.expiration

instance : DecidableRel (@TimerInfo.lt γ) := fun t other =>
  inferInstanceAs (Decidable (t.expiration < other.expiration))

instance : IsTrans (TimerInfo γ) TimerInfo.lt where
  trans := fun _ _ _ h h' => lt_trans h h'

/-- `now + std::chrono::milliseconds(interval_ms)`. -/
def expirationAt (now interval_ms : ℤ) : ℤ := toI64 (now + toI64 (interval_ms * 1000000))

/-- A recurring timer as it is inserted again. -/
def TimerInfo.renew (now : ℤ) (t : TimerInfo γ) : TimerInfo γ :=
  { t with expiration := expirationAt now t.interval_ms }

/-- The `it_value` of a `struct itimerspec`. -/
structure ItimerValue where
  tv_sec : ℤ
  tv_nsec : ℤ

/-- `timerfd_settime` with a relative one-shot value, called at time `now`: the
deadline the timerfd is armed for.  An all-zero value disarms it. -/
def timerfd_settime (now : ℤ) (it_value : ItimerValue) : Option ℤ :=
  if it_value.tv_sec = 0 ∧ it_value.tv_nsec = 0 then none
  else some (now + (it_value.tv_sec * 1000000000 + it_value.tv_nsec))

/-- The members of a `SubReactor` that the timers use.  `timer_fd` is the deadline
of the timerfd: past it the timerfd is readable, until it is read or set. -/
structure TimerState (γ : Type*) where
  timers : SortedSet (@TimerInfo.lt γ)
  next_timer_id : ℤ
  timer_fd : Option ℤ

namespace TimerState

/-- A `SubReactor` without timers. -/
def empty : TimerState γ := ⟨SortedSet.empty, 0, none⟩

/-! ## Operations -/

/-- `disableTimer`. -/
def disableTimer (s : TimerState γ) : TimerState γ :=
  { s with timer_fd := timerfd_settime 0 ⟨0, 0⟩ }

/-- `updateNextTimer`, which reads the clock as `now`. -/
def updateNextTimer (s : TimerState γ) (now : ℤ) : TimerState γ :=
  match s.timers.elems with
  | [] => s.disableTimer
  | next_timer :: _ =>
      let duration := toI64 (next_timer.expiration - now)
      let ns := if duration < 0 then 0 else duration
      { s with timer_fd := timerfd_settime now ⟨ns.tdiv 1000000000, ns.tmod 1000000000⟩ }

/-- The `TimerInfo` that `registerTimer` builds. -/
def newTimer (s : TimerState γ) (interval_ms : ℤ) (callback : γ) (recurring : Bool) (now : ℤ) :
    TimerInfo γ where
  id := s.next_timer_id
  interval_ms := interval_ms
  callback := callback
  recurring := recurring
  expiration := expirationAt now interval_ms

/-- `registerTimer`.  It reads the clock as `now`, and again as `now'` if it calls
`updateNextTimer`; an empty `std::function` is `none`. -/
def registerTimer (s : TimerState γ) (interval_ms : ℤ) (callback : Option γ) (recurring : Bool)
    (now now' : ℤ) : TimerState γ × ℤ :=
  match callback with
  | none => (s, -1)
  | some callback =>
      if interval_ms ≤ 0 then (s, -1)
      else
        let timer := s.newTimer interval_ms callback recurring now
        let it := s.timers.insertPos timer
        let s := { s with
          next_timer_id := toI64 (s.next_timer_id + 1)
          timers := s.timers.insert timer }
        -- `it` may be the position of an equivalent timer that was there already
        if it = 0 then (s.updateNextTimer now', timer.id) else (s, timer.id)

/-- `cancelTimer`, which reads the clock as `now'` if it calls `updateNextTimer`. -/
def cancelTimer (s : TimerState γ) (timer_id now' : ℤ) : TimerState γ × Bool :=
  let it := s.timers.elems.findIdx (fun t => t.id = timer_id)
  if it = s.timers.elems.length then (s, false)
  else
    let was_first := decide (it = 0)
    let s := { s with timers := s.timers.eraseFirst (fun t => t.id = timer_id) }
    if was_first ∧ s.timers.elems ≠ [] then (s.updateNextTimer now', true)
    else if s.timers.elems = [] then (s.disableTimer, true)
    else (s, true)

/-- `read` on the timerfd at time `readAt` delivers an expiration. -/
def readable (s : TimerState γ) (readAt : ℤ) : Prop := ∃ d ∈ s.timer_fd, d ≤ readAt

instance (s : TimerState γ) (readAt : ℤ) : Decidable (s.readable readAt) :=
  inferInstanceAs (Decidable (∃ d ∈ s.timer_fd, d ≤ readAt))

/-- The timers `handleTimerEvents` collects. -/
def expiredTimers (s : TimerState γ) (now : ℤ) : List (TimerInfo γ) :=
  s.timers.elems.takeWhile (fun t => t.expiration ≤ now)

/-- `handleTimerEvents`: it reads the timerfd at time `readAt`, then the clock as
`now`, and again as `now'` in `updateNextTimer`.  It returns the timers whose
callbacks it runs.  They run after the lock is released and reach the timers only
through `registerTimer` and `cancelTimer`. -/
def handleTimerEvents (s : TimerState γ) (readAt now now' : ℤ) :
    TimerState γ × List (TimerInfo γ) :=
  if s.readable readAt then
    let expired_timers := s.expiredTimers now
    let recurring_timers := (expired_timers.filter TimerInfo.recurring).map (TimerInfo.renew now)
    let rest := s.timers.eraseWhile (fun t => t.expiration ≤ now)
    let s := { s with timers := recurring_timers.foldl SortedSet.insert rest, timer_fd := none }
    if s.timers.elems ≠ [] then (s.updateNextTimer now', expired_timers)
    else (s.disableTimer, expired_timers)
  else (s, [])

end TimerState

/-! ## Runs -/

/-- A call of one of the three operations, with the clock readings it takes. -/
inductive TimerCall (γ : Type*)
  | registerTimer (interval_ms : ℤ) (callback : Option γ) (recurring : Bool) (now now' : ℤ)
  | cancelTimer (timer_id now' : ℤ)
  | handleTimerEvents (readAt now now' : ℤ)

/-- The state of a run: the reactor, the last clock reading, and what became of
the timers.  A timer is recorded by its id and whether it recurs. -/
structure TimerRun (γ : Type*) where
  reactor : TimerState γ
  clock : ℤ
  registered : List (ℤ × Bool)
  cancelled : List (ℤ × Bool)
  completed : List (ℤ × Bool)

/-- What a timer is recorded by. -/
def TimerInfo.key (t : TimerInfo γ) : ℤ × Bool := (t.id, t.recurring)

namespace TimerRun

/-- The run before any call. -/
def start : TimerRun γ := ⟨TimerState.empty, 0, [], [], []⟩

/-- The timers in `timers_`. -/
def present (r : TimerRun γ) : List (ℤ × Bool) := r.reactor.timers.elems.map TimerInfo.key

/-- Successive clock readings, within the range of the clock. -/
def Readings (clock : ℤ) (readings : List ℤ) : Prop :=
  (clock :: readings).IsChain (· ≤ ·) ∧ ∀ t ∈ readings, t < 2 ^ 63

instance (clock : ℤ) (readings : List ℤ) : Decidable (Readings clock readings) :=
  inferInstanceAs (Decidable (_ ∧ _))

/-- A call, if its readings continue those of the run.  A registration counts if
the parameters are accepted, a cancellation if a timer is found, and a one-shot
timer is completed when its callback runs. -/
def next (r : TimerRun γ) : TimerCall γ → Option (TimerRun γ)
  | .registerTimer interval_ms callback recurring now now' =>
      if Readings r.clock [now, now'] then
        let result := r.reactor.registerTimer interval_ms callback recurring now now'
        some { r with
          reactor := result.1
          clock := now'
          registered :=
            if callback.isSome ∧ 0 < interval_ms then (result.2, recurring) :: r.registered
            else r.registered }
      else none
  | .cancelTimer timer_id now' =>
      if Readings r.clock [now'] then
        let found := r.reactor.timers.elems.find? (fun t => t.id = timer_id)
        some { r with
          reactor := (r.reactor.cancelTimer timer_id now').1
          clock := now'
          cancelled := (found.map TimerInfo.key).toList ++ r.cancelled }
      else none
  | .handleTimerEvents readAt now now' =>
      if Readings r.clock [readAt, now, now'] then
        let result := r.reactor.handleTimerEvents readAt now now'
        some { r with
          reactor := result.1
          clock := now'
          completed :=
            (result.2.filter (fun t => !t.recurring)).map TimerInfo.key ++ r.completed }
      else none

/-- The runs of a `SubReactor`'s timers. -/
def system (γ : Type*) : TransitionSystem (TimerRun γ) (TimerCall γ) :=
  TransitionSystem.ofFunction start next

end TimerRun

end Muduo
