/-
# When the tasks of a timer wheel run

`Step`, `AddTimerTask`, `RefreshTimerTask` and `CancelTimerTask` in the loop thread, also from
the callbacks that a step destroys tasks for.  A slot comes round every 60 steps, so a task runs
at its timeout modulo 60; a refresh only adds a pointer, and the last one decides.
-/
import FastServer.ServerTimers

open TransitionSystem

namespace Reactor

/-! ## State -/

/-- What is known of a task: the step at which it was added or last refreshed, whether it was
cancelled, and the steps at which its callback ran. -/
structure TimerRecord (γ : Type*) where
  task : TimerTask γ
  since : ℕ
  cancelled : Bool
  ran : List ℕ

/-- Where the loop stands: outside `Step`, in the clearing of a slot, or in the callback of a
task that the clearing destroys. -/
inductive WheelPhase (γ : Type*)
  | outside
  | clearing
  | running (tsp : TimerTask γ)

/-- The task whose callback is running. -/
def WheelPhase.task {γ : Type*} : WheelPhase γ → Option (TimerTask γ)
  | .running tsp => some tsp
  | _ => none

/-- A wheel, with the number of steps made and what is known of the tasks by their
addresses. -/
structure WheelRun (γ : Type*) where
  wheel : TimerWheel γ
  phase : WheelPhase γ
  undefined : Bool
  steps : ℕ
  records : ℕ → Option (TimerRecord γ)

/-- The step at which the task should run. -/
def TimerRecord.due {γ : Type*} (r : TimerRecord γ) : ℕ := r.since + r.task.timeout

/-- The step at which the slot of its last pointer is cleared. -/
def TimerRecord.fires {γ : Type*} (r : TimerRecord γ) : ℕ :=
  ServerTimers.dueAt r.since r.task.timeout

namespace WheelRun

variable {γ : Type*}

/-- A wheel without tasks. -/
def start : WheelRun γ := ⟨.empty, .outside, false, 0, fun _ => none⟩

/-- A slot has a pointer to the task, or its callback is running. -/
def Alive [DecidableEq γ] (s : WheelRun γ) (tsp : TimerTask γ) : Prop :=
  s.wheel.Live s.phase.task tsp

/-- No living task has the id. -/
def Free (s : WheelRun γ) (id : ℕ) : Prop :=
  (∀ pos ∈ List.range TimerWheel.capacity, ∀ tsp ∈ s.wheel.wheel pos, tsp.id ≠ id) ∧
    ∀ tsp ∈ s.phase.task, tsp.id ≠ id

instance (s : WheelRun γ) (id : ℕ) : Decidable (s.Free id) := by
  unfold Free
  infer_instance

/-! ## Functions of the loop thread -/

/-- What is known of some tasks changes. -/
def update (s : WheelRun γ) (p : TimerTask γ → Prop) [DecidablePred p]
    (f : TimerRecord γ → TimerRecord γ) : WheelRun γ :=
  { s with records := fun address =>
      (s.records address).map fun r => if p r.task then f r else r }

/-- The wheel after a pointer was pushed `timeout` steps ahead.  The slot that is being
cleared must not be pushed to. -/
def pushed (s : WheelRun γ) (timeout : ℕ) (wheel : TimerWheel γ) : WheelRun γ :=
  match s.phase with
  | .outside => { s with wheel := wheel }
  | _ =>
      if timeout % TimerWheel.capacity = 0 then { s with undefined := true }
      else { s with wheel := wheel }

/-- `AddTimerTaskInLoop`. -/
def addTimerTask (s : WheelRun γ) (id timeout : ℕ) (callback : γ) : WheelRun γ :=
  let record : TimerRecord γ := ⟨s.wheel.newTask id timeout callback, s.steps, false, []⟩
  { s.pushed timeout (s.wheel.addTimerTaskInLoop id timeout callback) with
    records := Function.update s.records s.wheel.allocated (some record) }

variable [DecidableEq γ]

/-- `RefreshTimerTaskInLoop`. -/
def refreshTimerTask (s : WheelRun γ) (id : ℕ) : WheelRun γ :=
  let s := s.update (fun tsp => tsp.id = id ∧ s.wheel.Holds tsp)
    fun r => { r with since := s.steps }
  match s.wheel.timers id, s.wheel.refreshTimerTaskInLoop id with
  | none, _ => s
  | some tsp, some wheel => s.pushed tsp.timeout wheel
  | some _, none => { s with undefined := true }

/-- `CancelTimerTaskInLoop`. -/
def cancelTimerTask (s : WheelRun γ) (id : ℕ) : WheelRun γ :=
  { s.update (fun tsp => tsp.id = id ∧ s.wheel.Holds tsp) fun r => { r with cancelled := true } with
    wheel := s.wheel.cancelTimerTaskInLoop id }

omit [DecidableEq γ] in
/-- `Step` up to the clearing of the slot. -/
def advance (s : WheelRun γ) : WheelRun γ :=
  { s with wheel := s.wheel.advance, phase := .clearing, steps := s.steps + 1 }

/-- The clearing goes on: the first pointer of the slot goes, and with the last pointer its
task, or the slot is empty. -/
def destroy (s : WheelRun γ) : WheelRun γ :=
  match s.wheel.wheel s.wheel.tick with
  | [] => { s with phase := .outside }
  | tsp :: rest =>
      let wheel := s.wheel.pop rest
      if wheel.Holds tsp then { s with wheel := wheel }
      else if wheel.is_cancel tsp.address then
        { s with wheel := wheel.releaseTimerTaskInLoop tsp.id }
      else
        { s.update (· = tsp) fun r => { r with ran := r.ran ++ [s.steps] } with
          wheel := wheel
          phase := .running tsp }

/-- The callback returns, and `release_` is called. -/
def leave (s : WheelRun γ) (tsp : TimerTask γ) : WheelRun γ :=
  { s with wheel := s.wheel.releaseTimerTaskInLoop tsp.id, phase := .clearing }

/-! ## Runs -/

/-- What the loop thread does. -/
inductive Action (γ : Type*)
  | add (id : ℕ) (timeout : UInt32) (callback : γ)
  | refresh (id : ℕ)
  | cancel (id : ℕ)
  | advance
  | destroy
  | leave

/-- The state after an action.  Callbacks may add, refresh and cancel tasks; tasks are added
with a timeout of at least 1, under an id that no living task has. -/
def next (s : WheelRun γ) (a : Action γ) : Option (WheelRun γ) :=
  if s.undefined then none
  else
    match s.phase, a with
    | .outside, .advance => some s.advance
    | .clearing, .destroy => some s.destroy
    | .running tsp, .leave => some (s.leave tsp)
    | .clearing, _ => none
    | _, .add id timeout callback =>
        if 1 ≤ timeout.toNat ∧ s.Free id then some (s.addTimerTask id timeout.toNat callback)
        else none
    | _, .refresh id => some (s.refreshTimerTask id)
    | _, .cancel id => some (s.cancelTimerTask id)
    | _, _ => none

/-! ## `Step` with callbacks that leave the wheel alone -/

theorem next_advance {s : WheelRun γ} (hdefined : s.undefined = false)
    (hphase : s.phase = .outside) : s.next .advance = some s.advance := by
  simp [next, hdefined, hphase]

theorem next_destroy {s : WheelRun γ} (hdefined : s.undefined = false)
    (hphase : s.phase = .clearing) : s.next .destroy = some s.destroy := by
  simp [next, hdefined, hphase]

theorem next_leave {s : WheelRun γ} {tsp : TimerTask γ} (hdefined : s.undefined = false)
    (hphase : s.phase = .running tsp) : s.next .leave = some (s.leave tsp) := by
  simp [next, hdefined, hphase]

/-- The actions of a clearing. -/
theorem exists_run_clear : ∀ (slot : List (TimerTask γ)) (s : WheelRun γ), s.undefined = false →
    s.phase = .clearing → s.wheel.wheel s.wheel.tick = slot →
      ∃ as, ∃ s' ∈ runFrom next (fun _ _ => True) s as, s'.undefined = false ∧
        s'.phase = .outside ∧ s'.wheel = (TimerWheel.clear slot s.wheel).1
  | [], s, hdefined, hphase, hslot => by
      have hdestroy : s.destroy = { s with phase := .outside } := by
        rw [destroy, hslot]
      refine ⟨[.destroy], s.destroy, ?_, ?_⟩
      · rw [runFrom, if_pos trivial, next_destroy hdefined hphase]
        rfl
      · rw [hdestroy]
        exact ⟨hdefined, rfl, rfl⟩
  | tsp :: rest, s, hdefined, hphase, hslot => by
      rw [TimerWheel.clear]
      dsimp only
      by_cases hholds : (s.wheel.pop rest).Holds tsp
      · have hdestroy : s.destroy = { s with wheel := s.wheel.pop rest } := by
          rw [destroy, hslot]
          exact if_pos hholds
        rw [if_pos hholds]
        obtain ⟨as, s', hrun, hs'⟩ := exists_run_clear rest { s with wheel := s.wheel.pop rest }
          hdefined hphase (Function.update_self _ _ _)
        refine ⟨.destroy :: as, s', ?_, hs'⟩
        rw [runFrom, if_pos trivial, next_destroy hdefined hphase, hdestroy]
        exact hrun
      · let cleared := (s.wheel.pop rest).releaseTimerTaskInLoop tsp.id
        rw [if_neg hholds]
        by_cases hcancel : s.wheel.is_cancel tsp.address = true
        · have hdestroy : s.destroy = { s with wheel := cleared } := by
            rw [destroy, hslot]
            exact (if_neg hholds).trans (if_pos hcancel)
          obtain ⟨as, s', hrun, hs'⟩ := exists_run_clear rest { s with wheel := cleared } hdefined
            hphase (Function.update_self _ _ _)
          refine ⟨.destroy :: as, s', ?_, hs'⟩
          rw [runFrom, if_pos trivial, next_destroy hdefined hphase, hdestroy]
          exact hrun
        · -- the callback begins and returns
          let ran := s.update (· = tsp) fun r => { r with ran := r.ran ++ [s.steps] }
          have hdestroy : s.destroy =
              { ran with wheel := s.wheel.pop rest, phase := .running tsp } := by
            rw [destroy, hslot]
            exact (if_neg hholds).trans (if_neg hcancel)
          have hleave : s.destroy.next .leave = some (s.destroy.leave tsp) := by
            rw [hdestroy]
            exact next_leave hdefined rfl
          obtain ⟨as, s', hrun, hs'⟩ := exists_run_clear rest
            { ran with wheel := cleared, phase := .clearing } hdefined rfl
            (Function.update_self _ _ _)
          refine ⟨.destroy :: .leave :: as, s', ?_, hs'⟩
          rw [runFrom, if_pos trivial, next_destroy hdefined hphase, Option.bind_some, runFrom,
            if_pos trivial, hleave, hdestroy]
          exact hrun

/-- **`Step` is a run** from the turn of the wheel to the end of the clearing. -/
theorem exists_run_step {s : WheelRun γ} (hdefined : s.undefined = false)
    (hphase : s.phase = .outside) :
    ∃ as, ∃ s' ∈ runFrom next (fun _ _ => True) s (.advance :: as), s'.undefined = false ∧
      s'.phase = .outside ∧ s'.wheel = s.wheel.step.1 := by
  obtain ⟨as, s', hrun, hs'⟩ := exists_run_clear _ s.advance hdefined rfl rfl
  refine ⟨as, s', ?_, hs'⟩
  rw [runFrom, if_pos trivial, next_advance hdefined hphase]
  exact hrun

/-! ## The property and its condition -/

/-- The step has been made, and its slot is cleared. -/
def Past (s : WheelRun γ) (n : ℕ) : Prop := n < s.steps ∨ n = s.steps ∧ s.phase = .outside

/-- **What is promised of the tasks**: one that is not cancelled runs once, at the step it is
due; a cancelled one never runs; and `timers_` has the ids of the tasks that are alive. -/
structure Keeps (s : WheelRun γ) : Prop where
  defined : s.undefined = false
  waits : ∀ address r, s.records address = some r → r.cancelled = false →
    s.steps < r.due → r.ran = []
  due : ∀ address r, s.records address = some r → r.cancelled = false →
    s.steps = r.due → r.ran = [] ∨ r.ran = [r.due]
  ran : ∀ address r, s.records address = some r → r.cancelled = false →
    s.Past r.due → r.ran = [r.due]
  cancelled : ∀ address r, s.records address = some r → r.cancelled = true → r.ran = []
  timers : ∀ id, s.wheel.hasTimerTask id = true ↔
    ∃ address r, s.records address = some r ∧ r.task.id = id ∧ s.Alive r.task

/-- A push with this timeout does not go to the slot that is being cleared. -/
def Clear (s : WheelRun γ) (timeout : ℕ) : Prop :=
  s.phase = .outside ∨ timeout % TimerWheel.capacity ≠ 0

/-- No task that is not cancelled is destroyed whose timeout is larger than the wheel; and a
callback does not push to the slot that is being cleared, and does not refresh its own task. -/
def InTime (s : WheelRun γ) : Action γ → Prop
  | .add _ timeout _ => s.Clear timeout.toNat
  | .refresh id => ∀ tsp ∈ s.wheel.timers id, s.phase.task ≠ some tsp ∧ s.Clear tsp.timeout
  | .destroy => ∀ tsp rest, s.wheel.wheel s.wheel.tick = tsp :: rest →
      (s.wheel.pop rest).Holds tsp ∨ s.wheel.is_cancel tsp.address = true ∨
        tsp.timeout ≤ TimerWheel.capacity
  | _ => True

/-! ## The invariant -/

/-- A slot that is still to be cleared at this step. -/
def Ahead (s : WheelRun γ) (n : ℕ) : Prop := s.steps ≤ n ∧ (s.phase = .outside → s.steps < n)

/-- The task is in the wheel; its last pointer is in the slot of the step at which it runs. -/
structure Waiting (s : WheelRun γ) (r : TimerRecord γ) : Prop where
  slots : ∀ pos < TimerWheel.capacity, r.task ∈ s.wheel.wheel pos →
    ∃ n, s.Ahead n ∧ n ≤ r.fires ∧ n % TimerWheel.capacity = pos
  last : r.task ∈ s.wheel.wheel (r.fires % TimerWheel.capacity)
  turn : r.fires ≤ s.steps + 60
  inside : s.phase ≠ .outside → r.fires < s.steps + 60
  is_cancel : s.wheel.is_cancel r.task.address = r.cancelled
  ran : r.ran = []

/-- No slot has the task; it ran if it was not cancelled. -/
structure Gone (s : WheelRun γ) (r : TimerRecord γ) : Prop where
  not_holds : ¬ s.wheel.Holds r.task
  fires_le : r.fires ≤ s.steps
  ran : r.ran = if r.cancelled then [] else [r.fires]

/-- What is known of a task at an address. -/
structure Recorded (s : WheelRun γ) (address : ℕ) (r : TimerRecord γ) : Prop where
  address_eq : r.task.address = address
  allocated : address < s.wheel.allocated
  timeout_pos : 1 ≤ r.task.timeout
  since_le : r.since ≤ s.steps
  status : s.Waiting r ∨ s.Gone r

/-- What holds along a run, whatever the timeouts are. -/
structure Invariant (s : WheelRun γ) : Prop where
  defined : s.undefined = false
  tick : s.wheel.tick = s.steps % TimerWheel.capacity
  registered : s.wheel.Registered s.phase.task
  running : ∀ tsp, s.phase = .running tsp → ¬ s.wheel.Holds tsp
  recorded : ∀ address r, s.records address = some r → s.Recorded address r
  complete : ∀ tsp, s.Alive tsp → ∃ r, s.records tsp.address = some r ∧ r.task = tsp

theorem invariant_start : (start : WheelRun γ).Invariant where
  defined := rfl
  tick := rfl
  registered := TimerWheel.registered_empty
  running := fun _ h => nomatch h
  recorded := fun _ _ h => nomatch h
  complete := by
    rintro tsp (hholds | hrunning)
    · obtain ⟨pos, -, hmem⟩ := TimerWheel.holds_iff.mp hholds
      exact absurd hmem List.not_mem_nil
    · exact nomatch hrunning

/-! ### Steps and slots -/

omit [DecidableEq γ] in
/-- A task runs within a turn of the wheel, and not later than it is due. -/
theorem fires_bounds (r : TimerRecord γ) (_ : 1 ≤ r.task.timeout) :
    r.since < r.fires ∧ r.fires ≤ r.since + 60 ∧ r.fires ≤ r.due ∧
      (r.fires = r.due ↔ r.task.timeout ≤ 60) := by
  unfold TimerRecord.fires ServerTimers.dueAt TimerRecord.due
  omega

omit [DecidableEq γ] in
/-- The slot a pointer is pushed to. -/
theorem slot_eq {s : WheelRun γ} (htick : s.wheel.tick = s.steps % TimerWheel.capacity)
    {timeout : ℕ} (_ : 1 ≤ timeout) : (s.wheel.tick + timeout) % TimerWheel.capacity
      = ServerTimers.dueAt s.steps timeout % TimerWheel.capacity := by
  have hcap : TimerWheel.capacity = 60 := rfl
  rw [TimerWheel.tick_add htick, ServerTimers.dueAt, hcap]
  omega

omit [DecidableEq γ] in
theorem Clear.pushed {s : WheelRun γ} {timeout : ℕ} (h : s.Clear timeout)
    (wheel : TimerWheel γ) : s.pushed timeout wheel = { s with wheel := wheel } := by
  rw [WheelRun.pushed]
  cases hphase : s.phase with
  | outside => rfl
  | _ =>
    have hne : timeout % TimerWheel.capacity ≠ 0 :=
      h.resolve_left fun houtside => nomatch hphase.symm.trans houtside
    exact if_neg hne

omit [DecidableEq γ] in
theorem pushed_of_not_clear {s : WheelRun γ} {timeout : ℕ} (h : ¬ s.Clear timeout)
    (wheel : TimerWheel γ) : s.pushed timeout wheel = { s with undefined := true } := by
  rw [Clear, not_or, not_not] at h
  rw [WheelRun.pushed]
  cases hphase : s.phase with
  | outside => exact absurd hphase h.1
  | _ => exact if_pos h.2

omit [DecidableEq γ] in
/-- A record behind an update. -/
theorem records_update {s : WheelRun γ} {p : TimerTask γ → Prop} [DecidablePred p]
    {f : TimerRecord γ → TimerRecord γ} {address : ℕ} {r' : TimerRecord γ} :
    (s.update p f).records address = some r' ↔
      ∃ r, s.records address = some r ∧ (if p r.task then f r else r) = r' :=
  Option.map_eq_some_iff

omit [DecidableEq γ] in
/-- An update keeps the tasks. -/
theorem exists_update {s : WheelRun γ} (p : TimerTask γ → Prop) [DecidablePred p]
    (f : TimerRecord γ → TimerRecord γ) (hf : ∀ r, (f r).task = r.task) {address : ℕ}
    {tsp : TimerTask γ} (h : ∃ r, s.records address = some r ∧ r.task = tsp) :
    ∃ r, (s.update p f).records address = some r ∧ r.task = tsp := by
  obtain ⟨r, hr, htask⟩ := h
  refine ⟨_, records_update.mpr ⟨r, hr, rfl⟩, ?_⟩
  split_ifs
  · rw [hf, htask]
  · exact htask

variable {s s' : WheelRun γ} {r r' : TimerRecord γ} {address : ℕ}

namespace Waiting

theorem holds (h : s.Waiting r) : s.wheel.Holds r.task :=
  TimerWheel.holds_iff.mpr ⟨_, Nat.mod_lt _ (by decide), h.last⟩

omit [DecidableEq γ] in
/-- The slot of the last pointer is still to be cleared. -/
theorem ahead (h : s.Waiting r) : s.Ahead r.fires := by
  have hcap : TimerWheel.capacity = 60 := rfl
  obtain ⟨n, hahead, hle, hmod⟩ := h.slots _ (Nat.mod_lt _ (by decide)) h.last
  have hturn := h.turn
  rw [hcap] at hmod
  have heq : n = r.fires := by
    by_cases hphase : s.phase = .outside
    · have hlt := hahead.2 hphase
      omega
    · have hinside := h.inside hphase
      have hsteps := hahead.1
      omega
  rwa [heq] at hahead

omit [DecidableEq γ] in
/-- Only the slots that have the task matter, and the time. -/
theorem of_same (h : s.Waiting r)
    (hslots : ∀ pos, r.task ∈ s'.wheel.wheel pos ↔ r.task ∈ s.wheel.wheel pos)
    (hsteps : s'.steps = s.steps) (hphase : s'.phase = .outside ↔ s.phase = .outside)
    (hcancel : s'.wheel.is_cancel r.task.address = s.wheel.is_cancel r.task.address) :
    s'.Waiting r where
  slots := by
    intro pos hpos hmem
    obtain ⟨n, hahead, hle, hmod⟩ := h.slots pos hpos ((hslots pos).mp hmem)
    refine ⟨n, ?_, hle, hmod⟩
    rw [Ahead, hsteps, hphase]
    exact hahead
  last := (hslots _).mpr h.last
  turn := by
    rw [hsteps]
    exact h.turn
  inside := by
    rw [hsteps, ne_eq, hphase]
    exact h.inside
  is_cancel := hcancel.trans h.is_cancel
  ran := h.ran

end Waiting

omit [DecidableEq γ] in
theorem Gone.of_same (h : s.Gone r) (hholds : s'.wheel.Holds r.task → s.wheel.Holds r.task)
    (hsteps : s.steps ≤ s'.steps) : s'.Gone r :=
  ⟨fun hholds' => h.not_holds (hholds hholds'), h.fires_le.trans hsteps, h.ran⟩

namespace Invariant

/-- A task that a slot has waits. -/
theorem waiting (h : s.Invariant) (hr : s.records address = some r)
    (hholds : s.wheel.Holds r.task) : s.Waiting r :=
  (h.recorded address r hr).status.resolve_right fun hgone => hgone.not_holds hholds

theorem registered_of_phase (h : s.Invariant) {p : WheelPhase γ} (hphase : s.phase = p) :
    s.wheel.Registered p.task := by
  rw [← hphase]
  exact h.registered

/-! ### The cursor -/

/-- The wheel turns. -/
theorem advance (h : s.Invariant) (hphase : s.phase = .outside) : s.advance.Invariant := by
  have hregistered := h.registered_of_phase hphase
  refine ⟨h.defined, TimerWheel.tick_advance h.tick, hregistered.advance,
    (fun _ hp => nomatch hp), ?_, ?_⟩
  · intro address r hr
    obtain ⟨haddress, hallocated, hpos, hsince, hstatus⟩ := h.recorded address r hr
    refine ⟨haddress, hallocated, hpos, Nat.le_succ_of_le hsince, ?_⟩
    rcases hstatus with hw | hg
    · refine .inl ⟨?_, hw.last, ?_, ?_, hw.is_cancel, hw.ran⟩
      · intro pos hpos' hmem
        obtain ⟨n, hahead, hle, hmod⟩ := hw.slots pos hpos' hmem
        exact ⟨n, ⟨hahead.2 hphase, fun hp => nomatch hp⟩, hle, hmod⟩
      · exact Nat.le_succ_of_le hw.turn
      · exact fun _ => Nat.lt_succ_of_le hw.turn
    · exact .inr (hg.of_same id (Nat.le_succ _))
  · rintro tsp (hholds | hrunning)
    · exact h.complete tsp (.inl hholds)
    · exact nomatch hrunning

/-- The slot is empty. -/
theorem destroy_nil (h : s.Invariant) (hphase : s.phase = .clearing)
    (hslot : s.wheel.wheel s.wheel.tick = []) :
    Invariant { s with phase := .outside } := by
  have hregistered := h.registered_of_phase hphase
  refine ⟨h.defined, h.tick, hregistered, (fun _ hp => nomatch hp), ?_, ?_⟩
  · intro address r hr
    obtain ⟨haddress, hallocated, hpos, hsince, hstatus⟩ := h.recorded address r hr
    refine ⟨haddress, hallocated, hpos, hsince, ?_⟩
    rcases hstatus with hw | hg
    · refine .inl ⟨?_, hw.last, hw.turn, fun hne => absurd rfl hne, hw.is_cancel, hw.ran⟩
      intro pos hpos' hmem
      obtain ⟨n, hahead, hle, hmod⟩ := hw.slots pos hpos' hmem
      refine ⟨n, ⟨hahead.1, fun _ => lt_of_le_of_ne hahead.1 ?_⟩, hle, hmod⟩
      -- nothing is left in the slot of this step
      rintro rfl
      rw [← hmod, ← h.tick, hslot] at hmem
      exact List.not_mem_nil hmem
    · exact .inr (hg.of_same id le_rfl)
  · rintro tsp (hholds | hrunning)
    · exact h.complete tsp (.inl hholds)
    · exact nomatch hrunning

/-- A task that is not the one of the first pointer stays as it is. -/
theorem recorded_pop (h : s.Invariant) {tsp : TimerTask γ} {rest : List (TimerTask γ)}
    {wheel : TimerWheel γ} {phase : WheelPhase γ} {records : ℕ → Option (TimerRecord γ)}
    (hphase : s.phase = .clearing) (hphase' : phase ≠ .outside)
    (hslot : s.wheel.wheel s.wheel.tick = tsp :: rest)
    (hwheel : wheel.wheel = (s.wheel.pop rest).wheel)
    (hcancel : wheel.is_cancel = s.wheel.is_cancel)
    (hallocated : wheel.allocated = s.wheel.allocated)
    (hr : s.records address = some r) (hne : r.task ≠ tsp) :
    Recorded { s with wheel := wheel, phase := phase, records := records } address r := by
  obtain ⟨haddress, hlt, hpos, hsince, hstatus⟩ := h.recorded address r hr
  have hmem : ∀ pos, r.task ∈ wheel.wheel pos ↔ r.task ∈ s.wheel.wheel pos := by
    intro pos
    have hcount := @TimerWheel.count_wheel_pop γ _ s.wheel tsp r.task rest pos hslot hne
    rw [hwheel, ← List.count_pos_iff, hcount, List.count_pos_iff]
  refine ⟨haddress, hallocated ▸ hlt, hpos, hsince, ?_⟩
  rcases hstatus with hw | hg
  · refine .inl (hw.of_same hmem rfl ?_ (congrFun hcancel _))
    rw [hphase]
    exact iff_of_false hphase' (fun hp => nomatch hp)
  · refine .inr (hg.of_same (fun hholds => ?_) le_rfl)
    obtain ⟨pos, hpos', hin⟩ := TimerWheel.holds_iff.mp hholds
    exact TimerWheel.holds_iff.mpr ⟨pos, hpos', (hmem pos).mp hin⟩

/-- A pointer goes that is not the last one. -/
theorem destroy_held (h : s.Invariant) (hphase : s.phase = .clearing) {tsp : TimerTask γ}
    {rest : List (TimerTask γ)} (hslot : s.wheel.wheel s.wheel.tick = tsp :: rest)
    (hholds : (s.wheel.pop rest).Holds tsp) :
    Invariant { s with wheel := s.wheel.pop rest } := by
  have htask : s.phase.task = none := congrArg WheelPhase.task hphase
  have hregistered := h.registered_of_phase hphase
  have hpop : ∀ u, (s.wheel.pop rest).Holds u → s.wheel.Holds u := fun u hu =>
    (TimerWheel.holds_iff_pop hslot h.registered.tick).mpr (.inl hu)
  refine ⟨h.defined, h.tick, ?_, ?_, ?_, ?_⟩
  · show (s.wheel.pop rest).Registered s.phase.task
    rw [htask]
    exact hregistered.pop hslot (.inl hholds) fun u hu => nomatch hu
  · intro u hu
    rw [hphase] at hu
    exact nomatch hu
  · intro address r hr
    by_cases heq : r.task = tsp
    · obtain ⟨haddress, hallocated, hpos, hsince, -⟩ := h.recorded address r hr
      have hw := h.waiting hr (heq ▸ hpop tsp hholds)
      have hmem : ∀ pos, r.task ∈ (s.wheel.pop rest).wheel pos → r.task ∈ s.wheel.wheel pos := by
        intro pos hin
        by_cases hpos' : pos = s.wheel.tick
        · rw [hpos', TimerWheel.wheel_pop_self] at hin
          rw [hpos', hslot]
          exact List.mem_cons_of_mem _ hin
        · rwa [TimerWheel.wheel_pop_of_ne hpos'] at hin
      refine ⟨haddress, hallocated, hpos, hsince, .inl ⟨?_, ?_, hw.turn, hw.inside, hw.is_cancel,
        hw.ran⟩⟩
      · exact fun pos hpos' hin => hw.slots pos hpos' (hmem pos hin)
      · show r.task ∈ (s.wheel.pop rest).wheel _
        by_cases hlast : r.fires % TimerWheel.capacity = s.wheel.tick
        · -- all pointers that are left are in this slot, too
          obtain ⟨pos, hpos', hin⟩ := TimerWheel.holds_iff.mp hholds
          rw [← heq] at hin
          obtain ⟨n, hahead, hle, hmod⟩ := hw.slots pos hpos' (hmem pos hin)
          have hcap : TimerWheel.capacity = 60 := rfl
          have hinside := hw.inside (hphase.trans_ne nofun)
          have hsteps := hahead.1
          have hfires := hw.ahead.1
          have hsame : n = r.fires := by
            rw [h.tick, hcap] at hlast
            omega
          rw [← hsame, hmod]
          exact hin
        · rw [TimerWheel.wheel_pop_of_ne hlast]
          exact hw.last
    · exact h.recorded_pop hphase (hphase.trans_ne nofun) hslot rfl rfl rfl hr
        heq
  · rintro u (hu | hu)
    · exact h.complete u (.inl (hpop u hu))
    · rw [htask] at hu
      exact nomatch hu

/-- The last pointer of a task goes in the step at which the task runs. -/
theorem fires_eq_of_last (h : s.Invariant) (hphase : s.phase = .clearing) {tsp : TimerTask γ}
    {rest : List (TimerTask γ)} (hslot : s.wheel.wheel s.wheel.tick = tsp :: rest)
    (hlast : ¬ (s.wheel.pop rest).Holds tsp) (hr : s.records address = some r)
    (htask : r.task = tsp) : s.Waiting r ∧ r.fires = s.steps := by
  have hcap : TimerWheel.capacity = 60 := rfl
  have hholds : s.wheel.Holds r.task :=
    (TimerWheel.holds_iff_pop hslot h.registered.tick).mpr (.inr htask)
  have hw := h.waiting hr hholds
  refine ⟨hw, ?_⟩
  have hinside := hw.inside (hphase.trans_ne nofun)
  have hfires := hw.ahead.1
  have htick : r.fires % TimerWheel.capacity = s.wheel.tick := by
    by_contra hne
    apply hlast
    rw [← htask]
    refine TimerWheel.holds_iff.mpr ⟨_, Nat.mod_lt r.fires (by decide), ?_⟩
    rw [TimerWheel.wheel_pop_of_ne hne]
    exact hw.last
  rw [h.tick, hcap] at htick
  omega

/-- A cancelled task is destroyed. -/
theorem destroy_cancelled (h : s.Invariant) (hphase : s.phase = .clearing) {tsp : TimerTask γ}
    {rest : List (TimerTask γ)} (hslot : s.wheel.wheel s.wheel.tick = tsp :: rest)
    (hlast : ¬ (s.wheel.pop rest).Holds tsp) (hcancel : s.wheel.is_cancel tsp.address = true) :
    Invariant { s with wheel := (s.wheel.pop rest).releaseTimerTaskInLoop tsp.id } := by
  have hinside : s.phase ≠ .outside := hphase.trans_ne nofun
  have htask : s.phase.task = none := congrArg WheelPhase.task hphase
  have hregistered := h.registered_of_phase hphase
  have hpopped : (s.wheel.pop rest).Registered (some tsp) :=
    hregistered.pop hslot (.inr rfl) fun u hu => (Option.some.inj hu).symm
  refine ⟨h.defined, h.tick, ?_, ?_, ?_, ?_⟩
  · show ((s.wheel.pop rest).releaseTimerTaskInLoop tsp.id).Registered s.phase.task
    rw [htask]
    exact hpopped.release hlast
  · intro u hu
    rw [hphase] at hu
    exact nomatch hu
  · intro address r hr
    by_cases heq : r.task = tsp
    · obtain ⟨haddress, hallocated, hpos, hsince, -⟩ := h.recorded address r hr
      obtain ⟨hw, hfires⟩ := h.fires_eq_of_last hphase hslot hlast hr heq
      have hcancelled : r.cancelled = true := by
        rw [← hw.is_cancel, heq]
        exact hcancel
      refine ⟨haddress, hallocated, hpos, hsince, .inr ⟨?_, hfires.le, ?_⟩⟩
      · rw [heq]
        exact hlast
      · rw [if_pos hcancelled]
        exact hw.ran
    · exact h.recorded_pop hphase hinside hslot rfl rfl rfl hr heq
  · rintro u (hu | hu)
    · exact h.complete u (.inl ((TimerWheel.holds_iff_pop hslot h.registered.tick).mpr (.inl hu)))
    · rw [htask] at hu
      exact nomatch hu

/-- A task is destroyed that was not cancelled, and its callback begins. -/
theorem destroy_running (h : s.Invariant) (hphase : s.phase = .clearing) {tsp : TimerTask γ}
    {rest : List (TimerTask γ)} (hslot : s.wheel.wheel s.wheel.tick = tsp :: rest)
    (hlast : ¬ (s.wheel.pop rest).Holds tsp) (hcancel : s.wheel.is_cancel tsp.address = false) :
    Invariant { s.update (· = tsp) (fun r => { r with ran := r.ran ++ [s.steps] }) with
      wheel := s.wheel.pop rest
      phase := .running tsp } := by
  have htask : s.phase.task = none := congrArg WheelPhase.task hphase
  have hregistered := h.registered_of_phase hphase
  refine ⟨h.defined, h.tick, ?_, ?_, ?_, ?_⟩
  · exact hregistered.pop hslot (.inr rfl) fun u hu => (Option.some.inj hu).symm
  · intro u hu
    rw [← WheelPhase.running.inj hu]
    exact hlast
  · intro address r' hr'
    have hupdate : (s.update (· = tsp)
        fun r => { r with ran := r.ran ++ [s.steps] }).records address = some r' := hr'
    obtain ⟨r, hr, heq⟩ := records_update.mp hupdate
    by_cases htask : r.task = tsp
    · rw [if_pos htask] at heq
      subst heq
      obtain ⟨haddress, hallocated, hpos, hsince, -⟩ := h.recorded address r hr
      obtain ⟨hw, hfires⟩ := h.fires_eq_of_last hphase hslot hlast hr htask
      have hcancelled : r.cancelled = false := by
        rw [← hw.is_cancel, htask]
        exact hcancel
      refine ⟨haddress, hallocated, hpos, hsince, .inr ⟨?_, hfires.le, ?_⟩⟩
      · show ¬ (s.wheel.pop rest).Holds r.task
        rw [htask]
        exact hlast
      · show r.ran ++ [s.steps] = if r.cancelled then [] else [r.fires]
        rw [hw.ran, hcancelled, hfires]
        rfl
    · rw [if_neg htask] at heq
      subst heq
      exact h.recorded_pop hphase (fun hp => nomatch hp) hslot rfl rfl rfl hr htask
  · intro u hu
    refine exists_update (· = tsp) (fun r => { r with ran := r.ran ++ [s.steps] }) (fun _ => rfl)
      (h.complete u (.inl ?_))
    refine (TimerWheel.holds_iff_pop hslot h.registered.tick).mpr (hu.imp_right fun hrunning => ?_)
    exact (Option.some.inj hrunning).symm

/-- The clearing of a slot. -/
theorem destroy (h : s.Invariant) (hphase : s.phase = .clearing) : s.destroy.Invariant := by
  rw [WheelRun.destroy]
  rcases hslot : s.wheel.wheel s.wheel.tick with _ | ⟨tsp, rest⟩
  · exact h.destroy_nil hphase hslot
  · dsimp only
    split_ifs with hholds hcancel
    · exact h.destroy_held hphase hslot hholds
    · exact h.destroy_cancelled hphase hslot hholds hcancel
    · exact h.destroy_running hphase hslot hholds (Bool.eq_false_of_not_eq_true hcancel)

/-- A callback has returned. -/
theorem leave (h : s.Invariant) {tsp : TimerTask γ} (hphase : s.phase = .running tsp) :
    (s.leave tsp).Invariant := by
  have hregistered := h.registered_of_phase hphase
  refine ⟨h.defined, h.tick, hregistered.release (h.running tsp hphase),
    (fun _ hp => nomatch hp), ?_, ?_⟩
  · intro address r hr
    obtain ⟨haddress, hallocated, hpos, hsince, hstatus⟩ := h.recorded address r hr
    refine ⟨haddress, hallocated, hpos, hsince, ?_⟩
    rcases hstatus with hw | hg
    · refine .inl (hw.of_same (fun _ => Iff.rfl) rfl ?_ rfl)
      rw [hphase]
      exact iff_of_false (fun hp => nomatch hp) (fun hp => nomatch hp)
    · exact .inr (hg.of_same id le_rfl)
  · rintro u (hu | hu)
    · exact h.complete u (.inl hu)
    · exact nomatch hu

/-! ### Additions, refreshes and cancellations -/

/-- A task waits to which a pointer was pushed. -/
theorem waiting_pushed (h : s.Invariant) (hclear : s.Clear r.task.timeout)
    (hpos : 1 ≤ r.task.timeout) (hsince : r.since = s.steps) {wheel : TimerWheel γ}
    {records : ℕ → Option (TimerRecord γ)}
    (hold : ∀ pos < TimerWheel.capacity, r.task ∈ s.wheel.wheel pos →
      ∃ n, s.Ahead n ∧ n ≤ r.fires ∧ n % TimerWheel.capacity = pos)
    (hwheel : ∀ pos, r.task ∈ wheel.wheel pos ↔ r.task ∈ s.wheel.wheel pos ∨
      pos = (s.wheel.tick + r.task.timeout) % TimerWheel.capacity)
    (hcancel : wheel.is_cancel r.task.address = r.cancelled) (hran : r.ran = []) :
    Waiting { s with wheel := wheel, records := records } r := by
  have hcap : TimerWheel.capacity = 60 := rfl
  have hfires : r.fires = ServerTimers.dueAt s.steps r.task.timeout := by
    rw [TimerRecord.fires, hsince]
  obtain ⟨hlater, hturn, -, -⟩ := fires_bounds r hpos
  rw [hsince] at hlater hturn
  have hslot : (s.wheel.tick + r.task.timeout) % TimerWheel.capacity
      = r.fires % TimerWheel.capacity := by rw [hfires, slot_eq h.tick hpos]
  refine ⟨?_, (hwheel _).mpr (.inr hslot.symm), hturn, ?_, hcancel, hran⟩
  · intro pos hlt hmem
    rcases (hwheel pos).mp hmem with hmem | heq
    · exact hold pos hlt hmem
    · exact ⟨r.fires, ⟨hlater.le, fun _ => hlater⟩, le_rfl, by rw [heq, hslot]⟩
  · intro hphase
    show r.fires < s.steps + 60
    have hne := hclear.resolve_left hphase
    rw [hcap] at hne
    rw [hfires, ServerTimers.dueAt]
    omega

/-- An id that no living task has is not found. -/
theorem timers_of_free (h : s.Invariant) {id : ℕ} (hfree : s.Free id) :
    s.wheel.timers id = none := by
  rw [Option.eq_none_iff_forall_ne_some]
  intro tsp hfound
  obtain ⟨hid, hholds | hrunning⟩ := h.registered.live id tsp hfound
  · obtain ⟨pos, hpos, hmem⟩ := hholds
    exact hfree.1 pos hpos tsp hmem hid
  · exact hfree.2 tsp hrunning hid

/-- A new task waits, and the others stay as they are. -/
theorem add (h : s.Invariant) {id timeout : ℕ} {callback : γ} (hpos : 1 ≤ timeout)
    (hfree : s.Free id) (hclear : s.Clear timeout) :
    (s.addTimerTask id timeout callback).Invariant := by
  have hholds : ∀ u, (s.wheel.addTimerTaskInLoop id timeout callback).Holds u ↔
      s.wheel.Holds u ∨ u = s.wheel.newTask id timeout callback := fun u => TimerWheel.holds_push
  have hallocated : ∀ u : TimerTask γ, u.address < s.wheel.allocated →
      u ≠ s.wheel.newTask id timeout callback := by
    rintro u hlt rfl
    exact absurd hlt (lt_irrefl _)
  rw [addTimerTask, hclear.pushed]
  refine ⟨h.defined, h.tick, h.registered.add (h.timers_of_free hfree) timeout callback, ?_, ?_, ?_⟩
  · intro tsp hphase hnew
    have hrunning : s.phase.task = some tsp := by
      rw [show s.phase = .running tsp from hphase]
      rfl
    rcases (hholds tsp).mp hnew with hold | heq
    · exact h.running tsp hphase hold
    · exact hallocated tsp (h.registered.address tsp (.inr hrunning)) heq
  · intro address r hr
    have hrecord : Function.update s.records s.wheel.allocated
        (some ⟨s.wheel.newTask id timeout callback, s.steps, false, []⟩) address = some r := hr
    by_cases heq : address = s.wheel.allocated
    · subst heq
      rw [Function.update_self] at hrecord
      obtain rfl := Option.some.inj hrecord
      refine ⟨rfl, Nat.lt_succ_self _, hpos, le_rfl, .inl (h.waiting_pushed hclear hpos rfl ?_ ?_
        ?_ rfl)⟩
      · -- no slot has the new task
        intro pos hlt hmem
        have hold := h.registered.address _ (.inl (TimerWheel.holds_iff.mpr ⟨pos, hlt, hmem⟩))
        exact absurd rfl (hallocated _ hold)
      · intro pos
        rw [TimerWheel.mem_wheel_addTimerTaskInLoop]
        exact or_congr_right (and_iff_left rfl)
      · exact h.registered.fresh _ le_rfl
    · rw [Function.update_of_ne heq] at hrecord
      obtain ⟨haddress, hlt, hpos', hsince, hstatus⟩ := h.recorded address r hrecord
      have hne := hallocated r.task (haddress ▸ hlt)
      refine ⟨haddress, hlt.trans (Nat.lt_succ_self _), hpos', hsince, ?_⟩
      rcases hstatus with hw | hg
      · refine .inl (hw.of_same (fun pos => ?_) rfl Iff.rfl rfl)
        rw [TimerWheel.mem_wheel_addTimerTaskInLoop]
        exact or_iff_left fun hnew => hne hnew.2
      · exact .inr (hg.of_same (fun hnew => ((hholds _).mp hnew).resolve_right hne) le_rfl)
  · have hold : ∀ u, s.Alive u → ∃ r, Function.update s.records s.wheel.allocated
        (some ⟨s.wheel.newTask id timeout callback, s.steps, false, []⟩) u.address = some r ∧
          r.task = u := by
      intro u hu
      obtain ⟨r, hr, htask⟩ := h.complete u hu
      have hlt := h.registered.address u hu
      exact ⟨r, (Function.update_of_ne hlt.ne _ _).trans hr, htask⟩
    rintro u (hu | hu)
    · rcases (hholds u).mp hu with hu | rfl
      · exact hold u (.inl hu)
      · exact ⟨_, Function.update_self _ _ _, rfl⟩
    · exact hold u (.inr hu)

/-- The task that an id finds, among the tasks that are known. -/
theorem target_iff (h : s.Invariant) {id : ℕ} {tsp : TimerTask γ}
    (hfound : s.wheel.timers id = some tsp) {u : TimerTask γ} :
    u.id = id ∧ s.wheel.Holds u ↔ u = tsp ∧ s.wheel.Holds tsp := by
  constructor
  · rintro ⟨rfl, hholds⟩
    obtain rfl := Option.some.inj ((h.registered.found u (.inl hholds)).symm.trans hfound)
    exact ⟨rfl, hholds⟩
  · rintro ⟨rfl, hholds⟩
    exact ⟨(h.registered.live id u hfound).1, hholds⟩

/-- An update of the task that an id finds changes its record and no other. -/
theorem record_cases (h : s.Invariant) {id : ℕ} {tsp : TimerTask γ}
    (hfound : s.wheel.timers id = some tsp) (hholds : s.wheel.Holds tsp)
    (f : TimerRecord γ → TimerRecord γ)
    (hr' : (s.update (fun u => u.id = id ∧ s.wheel.Holds u) f).records address = some r') :
    (∃ r, s.records address = some r ∧ r.task = tsp ∧ f r = r') ∨
      s.records address = some r' ∧ r'.task ≠ tsp := by
  obtain ⟨r, hr, heq⟩ := records_update.mp hr'
  by_cases htask : r.task = tsp
  · rw [htask, if_pos ((h.target_iff hfound).mpr ⟨rfl, hholds⟩)] at heq
    exact .inl ⟨r, hr, htask, heq⟩
  · rw [if_neg fun htarget => htask ((h.target_iff hfound).mp htarget).1] at heq
    subst heq
    exact .inr ⟨hr, htask⟩

/-- Nothing is known of a task that an id does not find. -/
theorem update_eq_self (h : s.Invariant) {id : ℕ}
    (hfound : ∀ tsp ∈ s.wheel.timers id, ¬ s.wheel.Holds tsp)
    (f : TimerRecord γ → TimerRecord γ) :
    s.update (fun tsp => tsp.id = id ∧ s.wheel.Holds tsp) f = s := by
  have hrecords : (s.update (fun tsp => tsp.id = id ∧ s.wheel.Holds tsp) f).records
      = s.records := by
    funext address
    refine (Option.map_congr fun r _ => ?_).trans Option.map_id_apply
    refine if_neg ?_
    rintro ⟨rfl, hholds⟩
    exact hfound r.task (h.registered.found r.task (.inl hholds)) hholds
  calc s.update (fun tsp => tsp.id = id ∧ s.wheel.Holds tsp) f
      = { s with
          records := (s.update (fun tsp => tsp.id = id ∧ s.wheel.Holds tsp) f).records } := rfl
    _ = s := by rw [hrecords]

/-- A refresh of a task that can be locked. -/
theorem refreshTimerTask_of_holds (h : s.Invariant) {id : ℕ} {tsp : TimerTask γ}
    (hfound : s.wheel.timers id = some tsp) (hholds : s.wheel.Holds tsp)
    (hclear : s.Clear tsp.timeout) : (s.refreshTimerTask id).Invariant := by
  have hrefresh : s.wheel.refreshTimerTaskInLoop id = some (s.wheel.push tsp.timeout tsp) := by
    rw [TimerWheel.refreshTimerTaskInLoop, hfound]
    exact if_pos hholds
  have hstate : s.refreshTimerTask id =
      { s.update (fun u => u.id = id ∧ s.wheel.Holds u) (fun r => { r with since := s.steps }) with
        wheel := s.wheel.push tsp.timeout tsp } := by
    simp only [refreshTimerTask, update, hfound, hrefresh]
    rw [Clear.pushed (by exact hclear)]
  have hlive : s.Alive tsp := .inl hholds
  have hpush : ∀ u, (s.wheel.push tsp.timeout tsp).Holds u ↔ s.wheel.Holds u ∨ u = tsp :=
    fun u => TimerWheel.holds_push
  rw [hstate]
  refine ⟨h.defined, h.tick, h.registered.push hlive _, ?_, ?_, ?_⟩
  · intro u hphase hnew
    have hold : ¬ s.wheel.Holds u := h.running u hphase
    rcases (hpush u).mp hnew with hnew | rfl
    · exact hold hnew
    · exact hold hholds
  · intro address r' hr'
    rcases h.record_cases hfound hholds (fun r => { r with since := s.steps }) hr' with
      ⟨r, hr, rfl, rfl⟩ | ⟨hr, htask⟩
    · obtain ⟨haddress, hallocated, hpos, hsince, -⟩ := h.recorded address r hr
      have hw := h.waiting hr hholds
      refine ⟨haddress, hallocated, hpos, le_rfl, .inl (h.waiting_pushed
        (r := { r with since := s.steps }) hclear hpos rfl ?_ ?_ hw.is_cancel hw.ran)⟩
      · -- the new pointer is not cleared before the old ones
        intro pos hlt hmem
        obtain ⟨n, hahead, hle, hmod⟩ := hw.slots pos hlt hmem
        refine ⟨n, hahead, hle.trans ?_, hmod⟩
        exact Nat.add_le_add_right hsince _
      · intro pos
        rw [TimerWheel.mem_wheel_push]
        exact or_congr_right (and_iff_left rfl)
    · obtain ⟨haddress, hallocated, hpos, hsince, hstatus⟩ := h.recorded address r' hr
      refine ⟨haddress, hallocated, hpos, hsince, ?_⟩
      rcases hstatus with hw | hg
      · refine .inl (hw.of_same (fun pos => ?_) rfl Iff.rfl rfl)
        rw [TimerWheel.mem_wheel_push]
        exact or_iff_left fun hnew => htask hnew.2
      · exact .inr (hg.of_same (fun hnew => ((hpush _).mp hnew).resolve_right htask) le_rfl)
  · intro u hu
    refine exists_update (fun u => u.id = id ∧ s.wheel.Holds u)
      (fun r => { r with since := s.steps }) (fun _ => rfl) (h.complete u ?_)
    rcases hu with hu | hu
    · rcases (hpush u).mp hu with hu | rfl
      · exact .inl hu
      · exact hlive
    · exact .inr hu

/-- A refresh that finds no task, or one that can be locked. -/
theorem refresh (h : s.Invariant) {id : ℕ}
    (htime : ∀ tsp ∈ s.wheel.timers id, s.phase.task ≠ some tsp ∧ s.Clear tsp.timeout) :
    (s.refreshTimerTask id).Invariant := by
  cases hfound : s.wheel.timers id with
  | none =>
    have heq : s.refreshTimerTask id = s.update (fun u => u.id = id ∧ s.wheel.Holds u)
        fun r => { r with since := s.steps } := by
      simp only [refreshTimerTask, update, hfound]
    rw [heq, h.update_eq_self fun tsp hmem => nomatch hfound.symm.trans hmem]
    exact h
  | some tsp =>
    obtain ⟨hrunning, hclear⟩ := htime tsp hfound
    have hholds := (h.registered.live id tsp hfound).2.resolve_right hrunning
    exact h.refreshTimerTask_of_holds hfound hholds hclear

/-- A refresh in a callback of the task itself, or to the slot that is being cleared. -/
theorem undefined_refresh (h : s.Invariant) {id : ℕ} {tsp : TimerTask γ}
    (hfound : s.wheel.timers id = some tsp)
    (hlate : s.phase.task = some tsp ∨ ¬ s.Clear tsp.timeout) :
    (s.refreshTimerTask id).undefined = true := by
  by_cases hholds : s.wheel.Holds tsp
  · have hrefresh : s.wheel.refreshTimerTaskInLoop id = some (s.wheel.push tsp.timeout tsp) := by
      rw [TimerWheel.refreshTimerTaskInLoop, hfound]
      exact if_pos hholds
    have hclear : ¬ s.Clear tsp.timeout := by
      refine hlate.resolve_left fun hrunning => ?_
      cases hphase : s.phase with
      | running u =>
        rw [hphase] at hrunning
        obtain rfl := Option.some.inj hrunning
        exact h.running u hphase hholds
      | _ =>
        rw [hphase] at hrunning
        cases hrunning
    simp only [refreshTimerTask, update, hfound, hrefresh]
    rw [pushed_of_not_clear (by exact hclear)]
  · have hrefresh : s.wheel.refreshTimerTaskInLoop id = none := by
      rw [TimerWheel.refreshTimerTaskInLoop, hfound]
      exact if_neg hholds
    simp only [refreshTimerTask, update, hfound, hrefresh]

/-- A cancellation. -/
theorem cancel (h : s.Invariant) (id : ℕ) : (s.cancelTimerTask id).Invariant := by
  have hregistered := h.registered.cancel id
  by_cases hlocked : ∃ tsp, s.wheel.timers id = some tsp ∧ s.wheel.Holds tsp
  · obtain ⟨tsp, hfound, hholds⟩ := hlocked
    have hwheel : s.wheel.cancelTimerTaskInLoop id = { s.wheel with
        is_cancel := Function.update s.wheel.is_cancel tsp.address true } := by
      rw [TimerWheel.cancelTimerTaskInLoop, hfound]
      exact if_pos hholds
    rw [hwheel] at hregistered
    rw [cancelTimerTask, hwheel]
    refine ⟨h.defined, h.tick, hregistered, h.running, ?_, ?_⟩
    · intro address r' hr'
      rcases h.record_cases hfound hholds (fun r => { r with cancelled := true }) hr' with
        ⟨r, hr, rfl, rfl⟩ | ⟨hr, htask⟩
      · obtain ⟨haddress, hallocated, hpos, hsince, -⟩ := h.recorded address r hr
        have hw := h.waiting hr hholds
        exact ⟨haddress, hallocated, hpos, hsince, .inl ⟨hw.slots, hw.last, hw.turn, hw.inside,
          Function.update_self _ _ _, hw.ran⟩⟩
      · obtain ⟨haddress, hallocated, hpos, hsince, hstatus⟩ := h.recorded address r' hr
        refine ⟨haddress, hallocated, hpos, hsince, ?_⟩
        rcases hstatus with hw | hg
        · refine .inl (hw.of_same (fun _ => Iff.rfl) rfl Iff.rfl (Function.update_of_ne ?_ _ _))
          exact fun hsame =>
            htask (h.registered.distinct r'.task tsp (.inl hw.holds) (.inl hholds) hsame)
        · exact .inr (hg.of_same (fun hold => hold) le_rfl)
    · exact fun u hu => exists_update (fun u => u.id = id ∧ s.wheel.Holds u)
        (fun r => { r with cancelled := true }) (fun _ => rfl) (h.complete u hu)
  · have hnone : ∀ tsp ∈ s.wheel.timers id, ¬ s.wheel.Holds tsp :=
      fun tsp hfound hholds => hlocked ⟨tsp, hfound, hholds⟩
    have hwheel : s.wheel.cancelTimerTaskInLoop id = s.wheel := by
      rw [TimerWheel.cancelTimerTaskInLoop]
      cases hfound : s.wheel.timers id with
      | none => rfl
      | some tsp => exact if_neg (hnone tsp hfound)
    rw [cancelTimerTask, hwheel, h.update_eq_self hnone]
    exact h

/-! ### What is promised -/

/-- `timers_` has the ids of the living tasks. -/
theorem hasTimerTask_iff (h : s.Invariant) (id : ℕ) : s.wheel.hasTimerTask id = true ↔
    ∃ address r, s.records address = some r ∧ r.task.id = id ∧ s.Alive r.task := by
  rw [TimerWheel.hasTimerTask, Option.isSome_iff_exists]
  constructor
  · rintro ⟨tsp, hfound⟩
    obtain ⟨hid, hlive⟩ := h.registered.live id tsp hfound
    obtain ⟨r, hr, rfl⟩ := h.complete tsp hlive
    exact ⟨_, r, hr, hid, hlive⟩
  · rintro ⟨address, r, hr, rfl, halive⟩
    exact ⟨r.task, h.registered.found r.task halive⟩

/-- The promises are kept exactly if no task has run whose timeout is larger than the
wheel. -/
theorem keeps_iff (h : s.Invariant) : s.Keeps ↔
    ∀ address r, s.records address = some r → r.ran ≠ [] → r.task.timeout ≤ 60 := by
  constructor
  · intro hkeeps address r hr hran
    have hrecorded := h.recorded address r hr
    obtain ⟨-, -, -, hdue⟩ := fires_bounds r hrecorded.timeout_pos
    rcases hrecorded.status with hw | hg
    · exact absurd hw.ran hran
    · have hcancelled : r.cancelled = false := by
        refine Bool.eq_false_of_not_eq_true fun hcancelled => hran ?_
        exact hkeeps.cancelled address r hr hcancelled
      have hfired : r.ran = [r.fires] := by
        rw [hg.ran, hcancelled]
        rfl
      have hends : r.ran = [r.due] → r.fires = r.due := fun hlast =>
        List.head_eq_of_cons_eq (hfired.symm.trans hlast)
      apply hdue.mp
      rcases lt_trichotomy s.steps r.due with hlt | heq | hgt
      · exact absurd (hkeeps.waits address r hr hcancelled hlt) hran
      · exact hends ((hkeeps.due address r hr hcancelled heq).resolve_left hran)
      · exact hends (hkeeps.ran address r hr hcancelled (.inl hgt))
  · intro htimeout
    -- a task waits until the step at which it is due, or it ran then
    have hcases : ∀ address r, s.records address = some r → r.cancelled = false →
        s.Ahead r.due ∧ r.ran = [] ∨ r.due ≤ s.steps ∧ r.ran = [r.due] := by
      intro address r hr hcancelled
      have hrecorded := h.recorded address r hr
      obtain ⟨-, -, hle, hdue⟩ := fires_bounds r hrecorded.timeout_pos
      rcases hrecorded.status with hw | hg
      · have hahead := hw.ahead
        exact .inl ⟨⟨hahead.1.trans hle, fun hphase => (hahead.2 hphase).trans_le hle⟩, hw.ran⟩
      · have hfired : r.ran = [r.fires] := by
          rw [hg.ran, hcancelled]
          rfl
        have heq : r.fires = r.due :=
          hdue.mpr (htimeout address r hr (hfired ▸ List.cons_ne_nil _ _))
        rw [← heq]
        exact .inr ⟨hg.fires_le, hfired⟩
    refine ⟨h.defined, ?_, ?_, ?_, ?_, h.hasTimerTask_iff⟩
    · intro address r hr hcancelled hlt
      rcases hcases address r hr hcancelled with ⟨-, hran⟩ | ⟨hle, -⟩
      · exact hran
      · exact absurd hlt hle.not_gt
    · intro address r hr hcancelled _
      rcases hcases address r hr hcancelled with ⟨-, hran⟩ | ⟨-, hran⟩
      · exact .inl hran
      · exact .inr hran
    · intro address r hr hcancelled hpast
      rcases hcases address r hr hcancelled with ⟨hahead, -⟩ | ⟨-, hran⟩
      · rcases hpast with hlt | ⟨heq, hphase⟩
        · exact absurd hlt hahead.1.not_gt
        · exact absurd heq (hahead.2 hphase).ne'
      · exact hran
    · intro address r hr hcancelled
      rcases (h.recorded address r hr).status with hw | hg
      · exact hw.ran
      · rw [hg.ran, if_pos hcancelled]

end Invariant

/-! ## Runs in which no task is late -/

/-- What an action that is enabled does. -/
inductive Turn (s : WheelRun γ) : Action γ → WheelRun γ → Prop
  | add (id : ℕ) (timeout : UInt32) (callback : γ) : 1 ≤ timeout.toNat → s.Free id →
      Turn s (.add id timeout callback) (s.addTimerTask id timeout.toNat callback)
  | refresh (id : ℕ) : Turn s (.refresh id) (s.refreshTimerTask id)
  | cancel (id : ℕ) : Turn s (.cancel id) (s.cancelTimerTask id)
  | advance : s.phase = .outside → Turn s .advance s.advance
  | destroy : s.phase = .clearing → Turn s .destroy s.destroy
  | leave (tsp : TimerTask γ) : s.phase = .running tsp → Turn s .leave (s.leave tsp)

theorem turn_of_next {a : Action γ} (hstep : s.next a = some s') :
    s.undefined = false ∧ s.Turn a s' := by
  unfold next at hstep
  by_cases hundefined : s.undefined = true
  · rw [if_pos hundefined] at hstep
    exact nomatch hstep
  · rw [if_neg hundefined] at hstep
    refine ⟨Bool.eq_false_of_not_eq_true hundefined, ?_⟩
    cases hphase : s.phase <;> cases a <;>
      simp only [hphase, reduceCtorEq, Option.some.injEq, Option.ite_none_right_eq_some] at hstep
    case outside.add | running.add => exact hstep.2 ▸ .add _ _ _ hstep.1.1 hstep.1.2
    case outside.refresh | running.refresh => exact hstep ▸ .refresh _
    case outside.cancel | running.cancel => exact hstep ▸ .cancel _
    case outside.advance => exact hstep ▸ .advance hphase
    case clearing.destroy => exact hstep ▸ .destroy hphase
    case running.leave => exact hstep ▸ .leave _ hphase

omit [DecidableEq γ] in
@[simp] theorem records_pushed (s : WheelRun γ) (timeout : ℕ) (wheel : TimerWheel γ) :
    (s.pushed timeout wheel).records = s.records := by
  unfold pushed
  split
  · rfl
  · split_ifs <;> rfl

theorem records_refreshTimerTask (s : WheelRun γ) (id : ℕ) : (s.refreshTimerTask id).records
    = (s.update (fun tsp => tsp.id = id ∧ s.wheel.Holds tsp)
        fun r => { r with since := s.steps }).records := by
  unfold refreshTimerTask
  dsimp only
  split
  · rfl
  · rw [records_pushed]
  · rfl

namespace Invariant

variable {a : Action γ}

/-- **One action**: the invariant is kept, or pointers are lost. -/
theorem next (h : s.Invariant) (hturn : s.Turn a s') : s'.undefined = true ∨ s'.Invariant := by
  cases hturn with
  | add id timeout callback hpos hfree =>
    by_cases hclear : s.Clear timeout.toNat
    · exact .inr (h.add hpos hfree hclear)
    · refine .inl ?_
      rw [addTimerTask, pushed_of_not_clear hclear]
  | refresh id =>
    by_cases htime : s.InTime (.refresh id)
    · exact .inr (h.refresh htime)
    · rw [InTime] at htime
      push Not at htime
      obtain ⟨tsp, hfound, hlate⟩ := htime
      refine .inl (h.undefined_refresh hfound ?_)
      exact or_iff_not_imp_left.mpr hlate
  | cancel id => exact .inr (h.cancel id)
  | advance hphase => exact .inr (h.advance hphase)
  | destroy hphase => exact .inr (h.destroy hphase)
  | leave tsp hphase => exact .inr (h.leave hphase)

/-- The promises are kept as long as no task runs. -/
theorem keeps_of_ran (h : s.Invariant) (h' : s'.Invariant) (hkeeps : s.Keeps)
    (hran : ∀ address r', s'.records address = some r' → r'.ran ≠ [] →
      ∃ r, s.records address = some r ∧ r.task = r'.task ∧ r.ran = r'.ran) : s'.Keeps := by
  refine h'.keeps_iff.mpr fun address r' hr' hne => ?_
  obtain ⟨r, hr, htask, heq⟩ := hran address r' hr' hne
  rw [← htask]
  refine h.keeps_iff.mp hkeeps address r hr ?_
  rwa [heq]

/-- The promises and the end of a task that was not cancelled. -/
theorem keeps_ran_iff (h : s.Invariant) (hkeeps : s.Keeps) (hphase : s.phase = .clearing)
    {tsp : TimerTask γ} {rest : List (TimerTask γ)}
    (hslot : s.wheel.wheel s.wheel.tick = tsp :: rest) (hlast : ¬ (s.wheel.pop rest).Holds tsp)
    (hcancel : ¬ s.wheel.is_cancel tsp.address = true) :
    s.destroy.Keeps ↔ tsp.timeout ≤ TimerWheel.capacity := by
  have h' := h.destroy hphase
  have hrecords : s.destroy.records
      = (s.update (· = tsp) fun r => { r with ran := r.ran ++ [s.steps] }).records := by
    rw [WheelRun.destroy, hslot]
    dsimp only
    rw [if_neg hlast, if_neg (by exact hcancel)]
  constructor
  · intro hkeeps'
    have hholds : s.wheel.Holds tsp :=
      (TimerWheel.holds_iff_pop hslot h.registered.tick).mpr (.inr rfl)
    obtain ⟨r, hr, rfl⟩ := h.complete tsp (.inl hholds)
    have hr' : s.destroy.records r.task.address
        = some { r with ran := r.ran ++ [s.steps] } := by
      rw [hrecords]
      exact records_update.mpr ⟨r, hr, if_pos rfl⟩
    have hran : r.ran ++ [s.steps] ≠ [] :=
      List.append_ne_nil_of_right_ne_nil _ (List.cons_ne_nil _ _)
    exact h'.keeps_iff.mp hkeeps' r.task.address { r with ran := r.ran ++ [s.steps] } hr' hran
  · intro htimeout
    refine h'.keeps_iff.mpr fun address r' hr' hne => ?_
    rw [hrecords] at hr'
    obtain ⟨r, hr, heq⟩ := records_update.mp hr'
    by_cases htask : r.task = tsp
    · rw [if_pos htask] at heq
      subst heq
      rw [← htask] at htimeout
      exact htimeout
    · rw [if_neg htask] at heq
      subst heq
      exact h.keeps_iff.mp hkeeps address r hr hne

/-- The promises and the destruction of a task. -/
theorem keeps_destroy_iff (h : s.Invariant) (hkeeps : s.Keeps) (hphase : s.phase = .clearing) :
    s.destroy.Keeps ↔ s.InTime .destroy := by
  have hsame : s.destroy.records = s.records → s.destroy.Keeps := fun hrecords =>
    h.keeps_of_ran (h.destroy hphase) hkeeps fun address r hr _ => ⟨r, hrecords ▸ hr, rfl, rfl⟩
  rcases hslot : s.wheel.wheel s.wheel.tick with _ | ⟨tsp, rest⟩
  · refine iff_of_true (hsame ?_) ?_
    · rw [WheelRun.destroy, hslot]
    · intro tsp rest heq
      exact nomatch hslot.symm.trans heq
  · have hintime : s.InTime .destroy ↔ (s.wheel.pop rest).Holds tsp ∨
        s.wheel.is_cancel tsp.address = true ∨ tsp.timeout ≤ TimerWheel.capacity := by
      constructor
      · exact fun htime => htime tsp rest hslot
      · intro hcases u rest' heq
        obtain ⟨rfl, rfl⟩ := List.cons.inj (hslot.symm.trans heq)
        exact hcases
    rw [hintime]
    by_cases hholds : (s.wheel.pop rest).Holds tsp
    · refine iff_of_true (hsame ?_) (.inl hholds)
      rw [WheelRun.destroy, hslot]
      dsimp only
      rw [if_pos hholds]
    · rw [or_iff_right hholds]
      by_cases hcancel : s.wheel.is_cancel tsp.address = true
      · refine iff_of_true (hsame ?_) (.inl hcancel)
        rw [WheelRun.destroy, hslot]
        dsimp only
        rw [if_neg hholds, if_pos (by exact hcancel)]
      · rw [or_iff_right hcancel]
        exact h.keeps_ran_iff hkeeps hphase hslot hholds hcancel

/-- **One action keeps the promises exactly if it is in time.** -/
theorem keeps_next_iff (h : s.Invariant) (hkeeps : s.Keeps) (hturn : s.Turn a s') :
    s'.Keeps ↔ s.InTime a := by
  have hlost : s'.Keeps → s'.undefined ≠ true := by
    intro hkeeps'
    rw [hkeeps'.defined]
    exact Bool.false_ne_true
  cases hturn with
  | add id timeout callback hpos hfree =>
    constructor
    · intro hkeeps'
      by_contra hclear
      apply hlost hkeeps'
      rw [addTimerTask, pushed_of_not_clear hclear]
    · intro hclear
      refine h.keeps_of_ran (h.add hpos hfree hclear) hkeeps fun address r' hr' hne => ?_
      have hrecord : Function.update s.records s.wheel.allocated (some ⟨s.wheel.newTask id
          timeout.toNat callback, s.steps, false, []⟩) address = some r' := hr'
      by_cases heq : address = s.wheel.allocated
      · rw [heq, Function.update_self] at hrecord
        rw [← Option.some.inj hrecord] at hne
        exact absurd rfl hne
      · rw [Function.update_of_ne heq] at hrecord
        exact ⟨r', hrecord, rfl, rfl⟩
  | refresh id =>
    constructor
    · intro hkeeps' tsp hfound
      by_contra hlate
      rw [not_and_or, not_not] at hlate
      exact hlost hkeeps' (h.undefined_refresh hfound hlate)
    · intro htime
      refine h.keeps_of_ran (h.refresh htime) hkeeps fun address r' hr' _ => ?_
      rw [records_refreshTimerTask] at hr'
      obtain ⟨r, hr, rfl⟩ := records_update.mp hr'
      refine ⟨r, hr, ?_⟩
      split_ifs <;> exact ⟨rfl, rfl⟩
  | cancel id =>
    refine iff_of_true (h.keeps_of_ran (h.cancel id) hkeeps fun address r' hr' _ => ?_) trivial
    have hupdate : (s.update (fun u => u.id = id ∧ s.wheel.Holds u)
        fun r => { r with cancelled := true }).records address = some r' := hr'
    obtain ⟨r, hr, rfl⟩ := records_update.mp hupdate
    refine ⟨r, hr, ?_⟩
    split_ifs <;> exact ⟨rfl, rfl⟩
  | advance hphase =>
    exact iff_of_true (h.keeps_of_ran (h.advance hphase) hkeeps fun _ r hr _ => ⟨r, hr, rfl, rfl⟩)
      trivial
  | destroy hphase => exact h.keeps_destroy_iff hkeeps hphase
  | leave tsp hphase =>
    exact iff_of_true (h.keeps_of_ran (h.leave hphase) hkeeps fun _ r hr _ => ⟨r, hr, rfl, rfl⟩)
      trivial

end Invariant

theorem keeps_start : (start : WheelRun γ).Keeps :=
  invariant_start.keeps_iff.mpr fun _ _ hr => nomatch hr

/-- **A timer wheel keeps its promises along a run exactly as far as the run is in time.** -/
theorem keeps_along_iff (as : List (Action γ)) :
    Along next (fun _ _ s' => s'.Keeps) start as ↔
      Along next (fun s a _ => s.InTime a) start as := by
  have hkeep : ∀ (s : WheelRun γ) a s', s.undefined = true ∨ s.Invariant → s.next a = some s' →
      s'.undefined = true ∨ s'.Invariant := by
    intro s a s' hs hstep
    obtain ⟨hdefined, hturn⟩ := turn_of_next hstep
    have h := hs.resolve_left (hdefined ▸ Bool.false_ne_true)
    exact h.next hturn
  refine along_state_iff_of_invariant hkeep ?_ (.inr invariant_start) keeps_start
  intro s a s' hs hkeeps hstep
  obtain ⟨hdefined, hturn⟩ := turn_of_next hstep
  have h := hs.resolve_left (hdefined ▸ Bool.false_ne_true)
  exact h.keeps_next_iff hkeeps hturn

/-- A task with a timeout of 61, and one step. -/
def oneStep : List (Action Unit) := [.add 7 61 (), .advance]

/-- The task runs in the first step. -/
theorem not_keeps_oneStep :
    ∃ s s', runFrom next (fun _ _ => True) start oneStep = some s ∧ s.next .destroy = some s' ∧
      (∃ r ∈ s'.records 0, r.task.timeout = 61 ∧ r.since = 0 ∧ r.cancelled = false ∧
        r.ran = [1]) ∧
      ¬ Along next (fun _ _ s' => s'.Keeps) start (oneStep ++ [.destroy]) := by
  have hrun : ∃ s ∈ runFrom next (fun _ _ => True) start oneStep, ∃ s' ∈ s.next .destroy,
      s'.steps = 1 ∧ ∃ r ∈ s'.records 0, r.task.timeout = 61 ∧ r.since = 0 ∧
        r.cancelled = false ∧ r.ran = [1] := by
    decide +kernel
  obtain ⟨s, hs, s', hs', hsteps, r, hr, htimeout, hsince, hcancelled, hran⟩ := hrun
  refine ⟨s, s', hs, hs', ⟨r, hr, htimeout, hsince, hcancelled, hran⟩, fun halong => ?_⟩
  have hkeeps : s'.Keeps := halong.last hs' hs
  have hdue : s'.steps < r.due := by
    rw [hsteps, TimerRecord.due, hsince, htimeout]
    decide
  have hnone := hkeeps.waits 0 r hr hcancelled hdue
  rw [hran] at hnone
  exact nomatch hnone

end WheelRun

end Reactor
