/-
# The inactivity timer of a connection

`EnableInactiveRelease`, `DisableInactiveRelease` and the refresh by `AnyHandler` over the
timer wheel.  Enabling refreshes the task that `timers_` finds under the connection's id,
even if it was cancelled; a cancelled task stays in the wheel until its last slot is
cleared.  While no cancelled task is found when the timer is enabled, it fires in time.
-/
import FastServer.TimerWheel
import FastServer.TransitionSystem

open TransitionSystem

namespace Reactor

/-! ## Runs -/

/-- A connection with its timer; the only callback is `Release`.  `steps` counts the steps
of the wheel and `quiet` those since the timer was enabled, disabled or its task refreshed; a
request for the release is recorded by its step and by whether the timer was enabled. -/
structure InactivityRun where
  enable_inactive_release : Bool
  wheel : TimerWheel Unit
  steps : ℕ
  quiet : ℕ
  requests : List (ℕ × Bool)

/-- What happens to the connection. -/
inductive Activity
  | enableInactiveRelease
  | disableInactiveRelease
  | event
  | step

namespace InactivityRun

/-- A new connection. -/
def start : InactivityRun := ⟨false, .empty, 0, 0, []⟩

/-- `EnableInactiveReleaseInLoop`. -/
def enableInactiveReleaseInLoop (id sec : ℕ) (r : InactivityRun) : Option InactivityRun :=
  (if r.wheel.hasTimerTask id then r.wheel.refreshTimerTaskInLoop id
    else some (r.wheel.addTimerTaskInLoop id sec ())).map fun wheel =>
      { r with enable_inactive_release := true, wheel := wheel, quiet := 0 }

/-- `DisableInactiveReleaseInLoop`. -/
def disableInactiveReleaseInLoop (id : ℕ) (r : InactivityRun) : InactivityRun :=
  { r with
    enable_inactive_release := false
    wheel := if r.wheel.hasTimerTask id then r.wheel.cancelTimerTaskInLoop id else r.wheel
    quiet := 0 }

/-- `AnyHandler`. -/
def anyHandler (id : ℕ) (r : InactivityRun) : Option InactivityRun :=
  if r.enable_inactive_release then
    (r.wheel.refreshTimerTaskInLoop id).map fun wheel =>
      { r with wheel := wheel, quiet := if r.wheel.hasTimerTask id then 0 else r.quiet }
  else some r

/-- `Step`. -/
def step (r : InactivityRun) : InactivityRun :=
  { r with
    wheel := r.wheel.step.1
    steps := r.steps + 1
    quiet := r.quiet + 1
    requests := r.requests
      ++ r.wheel.step.2.map fun _ => (r.steps + 1, r.enable_inactive_release) }

/-- One activity of the connection `id`, whose timer is enabled for `sec` steps. -/
def next (id sec : ℕ) (r : InactivityRun) : Activity → Option InactivityRun
  | .enableInactiveRelease => r.enableInactiveReleaseInLoop id sec
  | .disableInactiveRelease => some (r.disableInactiveReleaseInLoop id)
  | .event => r.anyHandler id
  | .step => some r.step

/-- The runs of the connection. -/
def system (id sec : ℕ) : TransitionSystem InactivityRun Activity := .ofFunction start (next id sec)

/-! ## The property and its condition -/

/-- If the timer is enabled and at least `sec` steps were quiet, the release was requested
at the one that makes them `sec`; and it was never requested while the timer was disabled. -/
structure Timely (sec : ℕ) (r : InactivityRun) : Prop where
  requested : r.enable_inactive_release = true → sec ≤ r.quiet →
    ∃ q ∈ r.requests, q.1 = r.steps - r.quiet + sec
  enabled : ∀ q ∈ r.requests, q.2 = true

/-- The timer is not enabled while `timers_` still has a cancelled task. -/
def EnablesAnew (id : ℕ) (r : InactivityRun) : Activity → Prop
  | .enableInactiveRelease => ∀ tsp ∈ r.wheel.timers id, r.wheel.is_cancel tsp.address = false
  | _ => True

instance (id : ℕ) (r : InactivityRun) (a : Activity) : Decidable (EnablesAnew id r a) := by
  cases a <;> unfold EnablesAnew <;> infer_instance

/-! ## The invariant -/

/-- The task of the timer is `tsp`; its last pointer goes at the step `due`. -/
structure Armed (id sec : ℕ) (r : InactivityRun) (tsp : TimerTask Unit) (due : ℕ) : Prop where
  found : r.wheel.timers id = some tsp
  id_eq : tsp.id = id
  timeout : tsp.timeout = sec
  address : tsp.address < r.wheel.allocated
  steps_lt : r.steps < due
  due_le : due ≤ r.steps + sec
  slots : ∀ pos < TimerWheel.capacity, ∀ u ∈ r.wheel.wheel pos, u = tsp ∧
    ∃ d, r.steps < d ∧ d ≤ due ∧ d % TimerWheel.capacity = pos
  last : tsp ∈ r.wheel.wheel (due % TimerWheel.capacity)
  cancelled : r.wheel.is_cancel tsp.address = !r.enable_inactive_release
  deadline : r.enable_inactive_release = true → due = r.steps - r.quiet + sec

/-- The timer has no task; if it is enabled, the release was requested. -/
structure Fired (id sec : ℕ) (r : InactivityRun) : Prop where
  notFound : r.wheel.timers id = none
  slots : ∀ pos < TimerWheel.capacity, r.wheel.wheel pos = []
  requested : r.enable_inactive_release = true →
    ∃ q ∈ r.requests, q.1 = r.steps - r.quiet + sec

/-- What holds along a run in which the timer is enabled anew each time. -/
structure Invariant (id sec : ℕ) (r : InactivityRun) : Prop where
  tick : r.wheel.tick = r.steps % TimerWheel.capacity
  quiet_le : r.quiet ≤ r.steps
  requests : ∀ q ∈ r.requests, q.1 ≤ r.steps ∧ q.2 = true
  fresh : ∀ address, r.wheel.allocated ≤ address → r.wheel.is_cancel address = false
  task : (∃ tsp due, r.Armed id sec tsp due) ∨ r.Fired id sec

theorem invariant_start (id sec : ℕ) : start.Invariant id sec where
  tick := rfl
  quiet_le := le_rfl
  requests := fun q hq => absurd hq List.not_mem_nil
  fresh := fun _ _ => rfl
  task := Or.inr ⟨rfl, fun _ _ => rfl, fun h => by cases h⟩

namespace Armed

variable {id sec : ℕ} {r : InactivityRun} {tsp : TimerTask Unit} {due : ℕ}

/-- The task is alive. -/
theorem holds (h : r.Armed id sec tsp due) : r.wheel.Holds tsp :=
  TimerWheel.holds_iff.mpr ⟨_, Nat.mod_lt _ (by decide), h.last⟩

/-- A refresh starts the timer again. -/
theorem refresh (h : r.Armed id sec tsp due) (hsec : 1 ≤ sec)
    (htick : r.wheel.tick = r.steps % TimerWheel.capacity) (enable : Bool)
    (hcancel : r.wheel.is_cancel tsp.address = !enable) :
    r.wheel.refreshTimerTaskInLoop id = some (r.wheel.push sec tsp) ∧
      Armed id sec { r with
        enable_inactive_release := enable, wheel := r.wheel.push sec tsp, quiet := 0 }
        tsp (r.steps + sec) := by
  have hpos : (r.wheel.tick + sec) % TimerWheel.capacity
      = (r.steps + sec) % TimerWheel.capacity := TimerWheel.tick_add htick sec
  refine ⟨?_, ⟨h.found, h.id_eq, h.timeout, h.address, by show r.steps < _; omega, le_rfl, ?_, ?_,
    hcancel, fun _ => rfl⟩⟩
  · rw [TimerWheel.refreshTimerTaskInLoop, h.found]
    dsimp only
    rw [if_pos h.holds, h.timeout]
  · intro pos hpos' u hu
    rcases TimerWheel.mem_wheel_push.mp hu with hu | ⟨rfl, rfl⟩
    · obtain ⟨heq, d, hlt, hle, hslot⟩ := h.slots pos hpos' u hu
      exact ⟨heq, d, hlt, hle.trans h.due_le, hslot⟩
    · exact ⟨rfl, r.steps + sec, by show r.steps < _; omega, le_rfl, hpos.symm⟩
  · exact TimerWheel.mem_wheel_push.mpr (Or.inr ⟨hpos.symm, rfl⟩)

theorem hasTimerTask (h : r.Armed id sec tsp due) : r.wheel.hasTimerTask id = true := by
  rw [TimerWheel.hasTimerTask, h.found]
  rfl

/-- Disabling cancels the task. -/
theorem wheel_disable (h : r.Armed id sec tsp due) :
    (r.disableInactiveReleaseInLoop id).wheel
      = { r.wheel with is_cancel := Function.update r.wheel.is_cancel tsp.address true } := by
  rw [disableInactiveReleaseInLoop]
  dsimp only
  rw [if_pos h.hasTimerTask, TimerWheel.cancelTimerTaskInLoop, h.found]
  dsimp only
  rw [if_pos h.holds]

/-- A cancelled task stays where it is. -/
theorem disable (h : r.Armed id sec tsp due) :
    Armed id sec (r.disableInactiveReleaseInLoop id) tsp due := by
  have hwheel := h.wheel_disable
  refine ⟨?_, h.id_eq, h.timeout, ?_, h.steps_lt, h.due_le, ?_, ?_, ?_, fun hd => by cases hd⟩
  · rw [hwheel]
    exact h.found
  · rw [hwheel]
    exact h.address
  · rw [hwheel]
    exact h.slots
  · rw [hwheel]
    exact h.last
  · rw [hwheel]
    exact Function.update_self _ _ _

/-- Before its step the task stays. -/
theorem step_of_lt (h : r.Armed id sec tsp due) (hsec : sec ≤ 60) (hquiet : r.quiet ≤ r.steps)
    (htick : r.wheel.tick = r.steps % TimerWheel.capacity) (hdue : r.steps + 1 < due) :
    r.wheel.step = (r.wheel.advance.pop [], []) ∧ Armed id sec r.step tsp due := by
  have hcap : TimerWheel.capacity = 60 := rfl
  have hnext := TimerWheel.tick_advance htick
  have hdue_le := h.due_le
  -- within a turn of the wheel the last pointer is not in the slot that is cleared
  have hother : due % TimerWheel.capacity ≠ r.wheel.advance.tick := by
    rw [hnext, hcap]
    omega
  have hinside : r.wheel.advance.tick < TimerWheel.capacity := by
    rw [hnext]
    exact Nat.mod_lt _ (by decide)
  have hclear : r.wheel.step = (r.wheel.advance.pop [], []) :=
    TimerWheel.clear_of_held rfl (fun u hu => (h.slots _ hinside u hu).1)
      ⟨_, Nat.mod_lt _ (by decide), hother, h.last⟩
  refine ⟨hclear, ?_⟩
  have hwheel : r.step.wheel = r.wheel.advance.pop [] := by
    rw [InactivityRun.step, hclear]
  refine ⟨?_, h.id_eq, h.timeout, ?_, hdue, by show due ≤ r.steps + 1 + sec; omega, ?_, ?_, ?_, ?_⟩
  · rw [hwheel]
    exact h.found
  · rw [hwheel]
    exact h.address
  · rw [hwheel]
    intro pos hpos u hu
    by_cases heq : pos = r.wheel.advance.tick
    · rw [heq, TimerWheel.wheel_pop_self] at hu
      exact absurd hu List.not_mem_nil
    · rw [TimerWheel.wheel_pop_of_ne heq] at hu
      obtain ⟨htsp, d, hlt, hle, hslot⟩ := h.slots pos hpos u hu
      refine ⟨htsp, d, ?_, hle, hslot⟩
      rw [hnext] at heq
      show r.steps + 1 < d
      have hne : d ≠ r.steps + 1 := fun hd => heq (by rw [← hd, hslot])
      omega
  · rw [hwheel, TimerWheel.wheel_pop_of_ne hother]
    exact h.last
  · rw [hwheel]
    exact h.cancelled
  · intro henabled
    have hdeadline := h.deadline henabled
    show due = r.steps + 1 - (r.quiet + 1) + sec
    omega

/-- At its step the task goes, and calls `Release` if the timer is enabled. -/
theorem step_of_eq (h : r.Armed id sec tsp due)
    (htick : r.wheel.tick = r.steps % TimerWheel.capacity) (hdue : due = r.steps + 1) :
    r.wheel.step = ((r.wheel.advance.pop []).releaseTimerTaskInLoop id,
      if r.enable_inactive_release then [()] else []) ∧ Fired id sec r.step := by
  have hnext := TimerWheel.tick_advance htick
  have hinside : r.wheel.advance.tick < TimerWheel.capacity := by
    rw [hnext]
    exact Nat.mod_lt _ (by decide)
  -- all its pointers are in the slot that is cleared
  have hslot : ∀ pos < TimerWheel.capacity, ∀ u ∈ r.wheel.wheel pos,
      u = tsp ∧ pos = r.wheel.advance.tick := by
    intro pos hpos u hu
    obtain ⟨htsp, d, hlt, hle, hd⟩ := h.slots pos hpos u hu
    refine ⟨htsp, ?_⟩
    rw [hnext, ← hd]
    congr 1
    omega
  have hlast : tsp ∈ r.wheel.wheel r.wheel.advance.tick := by
    rw [hnext, ← hdue]
    exact h.last
  have hclear : r.wheel.step = ((r.wheel.advance.pop []).releaseTimerTaskInLoop id,
      if r.enable_inactive_release then [()] else []) := by
    have hlast' := TimerWheel.clear_of_last (w := r.wheel.advance) (t := tsp) rfl
      (fun u hu => (hslot _ hinside u hu).1) (List.ne_nil_of_mem hlast) hinside
      fun pos hpos hne hmem => hne (hslot pos hpos tsp hmem).2
    have hcancelled : r.wheel.advance.is_cancel tsp.address = !r.enable_inactive_release :=
      h.cancelled
    rw [h.id_eq, hcancelled] at hlast'
    refine hlast'.trans (Prod.ext rfl ?_)
    cases r.enable_inactive_release <;> rfl
  refine ⟨hclear, ?_, ?_, ?_⟩
  · rw [InactivityRun.step, hclear]
    exact TimerWheel.timers_releaseTimerTaskInLoop_self _ _
  · intro pos hpos
    rw [InactivityRun.step, hclear]
    show (r.wheel.advance.pop []).wheel pos = []
    by_cases heq : pos = r.wheel.advance.tick
    · rw [heq, TimerWheel.wheel_pop_self]
    · rw [TimerWheel.wheel_pop_of_ne heq]
      exact List.eq_nil_iff_forall_not_mem.mpr fun u hu => heq (hslot pos hpos u hu).2
  · intro henabled
    have henabled' : r.enable_inactive_release = true := henabled
    refine ⟨(r.steps + 1, true), ?_, ?_⟩
    · rw [InactivityRun.step, hclear, henabled']
      exact List.mem_append_right _ List.mem_cons_self
    · have hdeadline := h.deadline henabled'
      show r.steps + 1 = r.steps + 1 - (r.quiet + 1) + sec
      omega

end Armed

namespace Fired

variable {id sec : ℕ} {r : InactivityRun}

theorem hasTimerTask (h : r.Fired id sec) : r.wheel.hasTimerTask id = false := by
  rw [TimerWheel.hasTimerTask, h.notFound]
  rfl

/-- Enabling adds a task. -/
theorem add (h : r.Fired id sec) (hsec : 1 ≤ sec)
    (htick : r.wheel.tick = r.steps % TimerWheel.capacity)
    (hfresh : r.wheel.is_cancel r.wheel.allocated = false) :
    Armed id sec { r with
      enable_inactive_release := true
      wheel := r.wheel.addTimerTaskInLoop id sec ()
      quiet := 0 } (r.wheel.newTask id sec ()) (r.steps + sec) := by
  have hpos : (r.wheel.tick + sec) % TimerWheel.capacity
      = (r.steps + sec) % TimerWheel.capacity := TimerWheel.tick_add htick sec
  refine ⟨Function.update_self _ _ _, rfl, rfl, Nat.lt_succ_self _,
    by show r.steps < r.steps + sec; omega, le_rfl, ?_, ?_, hfresh, fun _ => rfl⟩
  · intro pos hpos' u hu
    rcases TimerWheel.mem_wheel_addTimerTaskInLoop.mp hu with hu | ⟨rfl, rfl⟩
    · rw [h.slots pos hpos'] at hu
      exact absurd hu List.not_mem_nil
    · exact ⟨rfl, r.steps + sec, by show r.steps < _; omega, le_rfl, hpos.symm⟩
  · exact TimerWheel.mem_wheel_addTimerTaskInLoop.mpr (Or.inr ⟨hpos.symm, rfl⟩)

/-- A wheel without tasks only turns. -/
theorem step (h : r.Fired id sec) : r.wheel.step = (r.wheel.advance, []) ∧ Fired id sec r.step := by
  have hinside : r.wheel.advance.tick < TimerWheel.capacity := Nat.mod_lt _ (by decide)
  have hclear : r.wheel.step = (r.wheel.advance, []) := by
    have hslot : r.wheel.advance.wheel r.wheel.advance.tick = [] := h.slots _ hinside
    rw [TimerWheel.step, hslot, TimerWheel.clear]
  refine ⟨hclear, ?_, ?_, ?_⟩
  · rw [InactivityRun.step, hclear]
    exact h.notFound
  · rw [InactivityRun.step, hclear]
    exact h.slots
  · intro henabled
    obtain ⟨q, hq, hwhen⟩ := h.requested henabled
    have hquiet : r.steps + 1 - (r.quiet + 1) = r.steps - r.quiet := by omega
    refine ⟨q, List.mem_append_left _ hq, ?_⟩
    show q.1 = r.steps + 1 - (r.quiet + 1) + sec
    rwa [hquiet]

end Fired

namespace Invariant

variable {id sec : ℕ} {r r' : InactivityRun}

/-- Enabling. -/
theorem enable (h : r.Invariant id sec) (hsec : 1 ≤ sec)
    (hanew : r.EnablesAnew id .enableInactiveRelease)
    (hstep : r.enableInactiveReleaseInLoop id sec = some r') : r'.Invariant id sec := by
  rcases h.task with ⟨tsp, due, harmed⟩ | hfired
  · obtain ⟨hwheel, harmed'⟩ := harmed.refresh hsec h.tick true (hanew tsp harmed.found)
    rw [enableInactiveReleaseInLoop, if_pos harmed.hasTimerTask, hwheel] at hstep
    obtain rfl := Option.some.inj hstep
    exact ⟨h.tick, Nat.zero_le _, h.requests, h.fresh, Or.inl ⟨tsp, _, harmed'⟩⟩
  · rw [enableInactiveReleaseInLoop, hfired.hasTimerTask] at hstep
    obtain rfl := Option.some.inj hstep
    refine ⟨h.tick, Nat.zero_le _, h.requests, fun address haddress => ?_, Or.inl ⟨_, _,
      hfired.add hsec h.tick (h.fresh _ le_rfl)⟩⟩
    exact h.fresh address (Nat.le_of_succ_le haddress)

/-- Disabling. -/
theorem disable (h : r.Invariant id sec) : (r.disableInactiveReleaseInLoop id).Invariant id sec := by
  rcases h.task with ⟨tsp, due, harmed⟩ | hfired
  · have hwheel := harmed.wheel_disable
    refine ⟨?_, Nat.zero_le _, h.requests, ?_, Or.inl ⟨tsp, due, harmed.disable⟩⟩
    · rw [hwheel]
      exact h.tick
    · rw [hwheel]
      intro address haddress
      have hne : address ≠ tsp.address := (harmed.address.trans_le haddress).ne'
      exact (Function.update_of_ne hne _ _).trans (h.fresh address haddress)
  · have hwheel : (r.disableInactiveReleaseInLoop id).wheel = r.wheel := by
      rw [disableInactiveReleaseInLoop, hfired.hasTimerTask]
      rfl
    refine ⟨?_, Nat.zero_le _, h.requests, ?_, Or.inr ⟨?_, ?_, fun hd => by cases hd⟩⟩
    · rw [hwheel]
      exact h.tick
    · rw [hwheel]
      exact h.fresh
    · rw [hwheel]
      exact hfired.notFound
    · rw [hwheel]
      exact hfired.slots

/-- An event. -/
theorem event (h : r.Invariant id sec) (hsec : 1 ≤ sec) (hstep : r.anyHandler id = some r') :
    r'.Invariant id sec := by
  rw [anyHandler] at hstep
  by_cases henabled : r.enable_inactive_release = true
  · rw [if_pos henabled] at hstep
    rcases h.task with ⟨tsp, due, harmed⟩ | hfired
    · obtain ⟨hwheel, harmed'⟩ := harmed.refresh hsec h.tick _ harmed.cancelled
      rw [hwheel, harmed.hasTimerTask] at hstep
      obtain rfl := Option.some.inj hstep
      exact ⟨h.tick, Nat.zero_le _, h.requests, h.fresh, Or.inl ⟨tsp, _, harmed'⟩⟩
    · -- the task is gone, so there is nothing to refresh
      rw [TimerWheel.refreshTimerTaskInLoop, hfired.notFound, hfired.hasTimerTask] at hstep
      obtain rfl := Option.some.inj hstep
      exact h
  · rw [if_neg henabled] at hstep
    obtain rfl := Option.some.inj hstep
    exact h

/-- A step of the wheel. -/
theorem step (h : r.Invariant id sec) (hsec : sec ≤ 60) : r.step.Invariant id sec := by
  have htick := TimerWheel.tick_advance h.tick
  have hquiet : r.step.quiet ≤ r.step.steps := Nat.succ_le_succ h.quiet_le
  have hold : ∀ q ∈ r.requests, q.1 ≤ r.steps + 1 ∧ q.2 = true := fun q hq =>
    ⟨(h.requests q hq).1.trans (Nat.le_succ _), (h.requests q hq).2⟩
  rcases h.task with ⟨tsp, due, harmed⟩ | hfired
  · rcases Nat.lt_or_ge (r.steps + 1) due with hlt | hge
    · obtain ⟨hwheel, harmed'⟩ := harmed.step_of_lt hsec h.quiet_le h.tick hlt
      refine ⟨?_, hquiet, ?_, ?_, Or.inl ⟨tsp, due, harmed'⟩⟩
      · rw [InactivityRun.step, hwheel]
        exact htick
      · rw [InactivityRun.step, hwheel]
        simpa using hold
      · rw [InactivityRun.step, hwheel]
        exact h.fresh
    · obtain ⟨hwheel, hfired⟩ := harmed.step_of_eq h.tick
        (le_antisymm hge (Nat.succ_le_of_lt harmed.steps_lt))
      refine ⟨?_, hquiet, ?_, ?_, Or.inr hfired⟩
      · rw [InactivityRun.step, hwheel]
        exact htick
      · rw [InactivityRun.step, hwheel]
        intro q hq
        rcases List.mem_append.mp hq with hq | hq
        · exact hold q hq
        · cases henabled : r.enable_inactive_release with
          | false => simp [henabled] at hq
          | true =>
            rw [henabled] at hq
            rw [List.mem_singleton.mp hq]
            exact ⟨le_rfl, rfl⟩
      · rw [InactivityRun.step, hwheel]
        exact h.fresh
  · obtain ⟨hwheel, hfired'⟩ := hfired.step
    refine ⟨?_, hquiet, ?_, ?_, Or.inr hfired'⟩
    · rw [InactivityRun.step, hwheel]
      exact htick
    · rw [InactivityRun.step, hwheel]
      simpa using hold
    · rw [InactivityRun.step, hwheel]
      exact h.fresh

/-- **One activity.** -/
theorem next (h : r.Invariant id sec) (hlow : 1 ≤ sec) (hhigh : sec ≤ 60) {a : Activity}
    (hanew : r.EnablesAnew id a) (hstep : r.next id sec a = some r') : r'.Invariant id sec := by
  cases a with
  | enableInactiveRelease => exact h.enable hlow hanew hstep
  | disableInactiveRelease =>
    obtain rfl := Option.some.inj hstep
    exact h.disable
  | event => exact h.event hlow hstep
  | step =>
    obtain rfl := Option.some.inj hstep
    exact h.step hhigh

/-- The release is requested in time. -/
theorem timely (h : r.Invariant id sec) : r.Timely sec where
  requested := by
    intro henabled hquiet
    rcases h.task with ⟨tsp, due, harmed⟩ | hfired
    · have hdeadline := harmed.deadline henabled
      have hlt := harmed.steps_lt
      have hle := h.quiet_le
      omega
    · exact hfired.requested henabled
  enabled := fun q hq => (h.requests q hq).2

end Invariant

/-- **The timer fires in time** in every run in which it is not enabled while a cancelled
task of the connection is still in the wheel. -/
theorem timely_of_enablesAnew {id sec : ℕ} (hlow : 1 ≤ sec) (hhigh : sec ≤ 60) {r : InactivityRun}
    (h : (system id sec).ReachableBy (EnablesAnew id) r) : r.Timely sec := by
  have hinvariant : r.Invariant id sec := by
    refine ReachableBy.invariant ?_ ?_ h
    · rintro r rfl
      exact invariant_start id sec
    · exact fun r a r' hr hanew hstep => hr.next hlow hhigh hanew hstep
  exact hinvariant.timely

/-- The timer is enabled, refreshed by an event and, when its task is gone, enabled again
after it had been disabled. -/
def enabledAnew : List Activity :=
  [.enableInactiveRelease, .step, .event, .disableInactiveRelease, .step, .step, .step,
    .enableInactiveRelease, .step, .step, .step]

/-- The third step requests the release. -/
theorem timely_enabledAnew :
    ∃ r : InactivityRun, (system 1 3).ReachableBy (EnablesAnew 1) r ∧
      r.requests = [(7, true)] ∧ r.quiet = 3 ∧ r.Timely 3 := by
  have hrun : ∃ r ∈ runFrom (next 1 3) (EnablesAnew 1) start enabledAnew,
      r.requests = [(7, true)] ∧ r.quiet = 3 := by decide +kernel
  obtain ⟨r, hreach, hrequests, hquiet⟩ := exists_of_runFrom hrun
  exact ⟨r, hreach, hrequests, hquiet, timely_of_enablesAnew (by decide) (by decide) hreach⟩

/-- The timer is disabled and enabled at once, while its task is still in the wheel. -/
def enabledAgain : List Activity :=
  [.enableInactiveRelease, .disableInactiveRelease, .enableInactiveRelease, .step, .step, .step]

/-- The cancelled task is refreshed, and nothing requests the release. -/
theorem not_timely_enabledAgain :
    ∃ r : InactivityRun, (system 1 3).Reachable r ∧ r.enable_inactive_release = true ∧
      r.quiet = 3 ∧ r.requests = [] ∧ ¬ r.Timely 3 := by
  have hrun : ∃ r ∈ runFrom (next 1 3) (fun _ _ => True) start enabledAgain,
      r.enable_inactive_release = true ∧ r.quiet = 3 ∧ r.requests = [] := by decide +kernel
  obtain ⟨r, hreach, henabled, hquiet, hrequests⟩ := exists_of_runFrom hrun
  refine ⟨r, hreach, henabled, hquiet, hrequests, fun h => ?_⟩
  obtain ⟨q, hq, -⟩ := h.requested henabled hquiet.ge
  rw [hrequests] at hq
  exact absurd hq List.not_mem_nil

end InactivityRun

end Reactor
