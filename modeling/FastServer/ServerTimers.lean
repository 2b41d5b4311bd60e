/-
# The timers of a server with one reactor

`TcpServer` numbers the connections with `next_connid_` and the timers of the user with
`next_timerid_`, both from 1, and both kinds of timers are in the wheel of the one event
loop, under these numbers.  The two kinds keep apart exactly as long as no number is in use
for both.  The callback of a user's task may use the timers while its slot is being cleared.
-/
import FastServer.MachineInt
import FastServer.TimerRegistry
import FastServer.TransitionSystem

open TransitionSystem

namespace Reactor

/-! ## State -/

/-- What a task calls: the user's functor, or `Release` of the connection with its id. -/
inductive TimerOwner
  | user
  | connection
deriving DecidableEq

/-- Where the loop stands: outside `Step`, in the clearing of a slot, or in the callback of a
user's task that the clearing destroys. -/
inductive TimerPhase
  | outside
  | clearing
  | running (tsp : TimerTask TimerOwner)
deriving DecidableEq

/-- The task whose callback is running. -/
def TimerPhase.task : TimerPhase → Option (TimerTask TimerOwner)
  | .running tsp => some tsp
  | _ => none

/-- A `TcpServer` whose connections all have the base loop, as far as timers go.
`connections` is the member `enable_inactive_release_` of the connections, by their ids.  For
each id of a user's task, `added` is the step at which it was added and its timeout; `ran`
are the ids of the tasks that ran, with the steps. -/
structure ServerTimers where
  next_connid : ℕ
  next_timerid : ℕ
  enable_inactive_release : Bool
  connections : ℕ → Bool
  wheel : TimerWheel TimerOwner
  phase : TimerPhase
  undefined : Bool
  steps : ℕ
  added : ℕ → Option (ℕ × ℕ)
  ran : List (ℕ × ℕ)

namespace ServerTimers

/-- A new server. -/
def start : ServerTimers :=
  ⟨0, 0, false, fun _ => false, .empty, .outside, false, 0, fun _ => none, []⟩

/-! ## Functions of the wheel -/

/-- The wheel after a pointer was pushed `timeout` steps ahead.  The slot that is being
cleared must not be pushed to. -/
def pushed (s : ServerTimers) (timeout : ℕ) (wheel : TimerWheel TimerOwner) : ServerTimers :=
  if s.phase ≠ .outside ∧ timeout % TimerWheel.capacity = 0 then { s with undefined := true }
  else { s with wheel := wheel }

/-- `EventLoop::AddTimerTask`. -/
def addTimer (s : ServerTimers) (id timeout : ℕ) (owner : TimerOwner) : ServerTimers :=
  s.pushed timeout (s.wheel.addTimerTaskInLoop id timeout owner)

/-- `EventLoop::RefreshTimerTask`. -/
def refreshTimerTask (s : ServerTimers) (id : ℕ) : ServerTimers :=
  match s.wheel.timers id, s.wheel.refreshTimerTaskInLoop id with
  | none, _ => s
  | some tsp, some wheel => s.pushed tsp.timeout wheel
  | some _, none => { s with undefined := true }

/-! ## Functions of the connections and of the server -/

/-- `EnableInactiveReleaseInLoop` of a connection. -/
def enableInactiveReleaseInLoop (s : ServerTimers) (conn : ℕ) (sec : ℤ) : ServerTimers :=
  let s := { s with connections := Function.update s.connections conn true }
  if s.wheel.hasTimerTask conn then s.refreshTimerTask conn
  else s.addTimer conn (toU32 sec) .connection

/-- `DisableInactiveReleaseInLoop`. -/
def disableInactiveReleaseInLoop (s : ServerTimers) (conn : ℕ) : ServerTimers :=
  let s := { s with connections := Function.update s.connections conn false }
  if s.wheel.hasTimerTask conn then { s with wheel := s.wheel.cancelTimerTaskInLoop conn } else s

/-- `AnyHandler`. -/
def anyHandler (s : ServerTimers) (conn : ℕ) : ServerTimers :=
  if s.connections conn then s.refreshTimerTask conn else s

/-- `Connection::ReleaseInLoop`. -/
def releaseInLoop (s : ServerTimers) (conn : ℕ) : ServerTimers :=
  if s.wheel.hasTimerTask conn then s.disableInactiveReleaseInLoop conn else s

/-- `NewConnection`. -/
def newConnection (s : ServerTimers) : ServerTimers :=
  let s := { s with next_connid := s.next_connid + 1 }
  if s.enable_inactive_release then s.enableInactiveReleaseInLoop s.next_connid 10 else s

/-- `TcpServer::AddTimerTaskInLoop`. -/
def addTimerTaskInLoop (s : ServerTimers) (timeout : ℤ) : ServerTimers :=
  let s := { s with
    next_timerid := s.next_timerid + 1
    added := Function.update s.added (s.next_timerid + 1) (some (s.steps, toU32 timeout)) }
  s.addTimer s.next_timerid (toU32 timeout) .user

/-! ## `Step` -/

/-- `Step` up to the clearing of the slot. -/
def advance (s : ServerTimers) : ServerTimers :=
  { s with wheel := s.wheel.advance, phase := .clearing, steps := s.steps + 1 }

/-- The clearing goes on: the first pointer of the slot goes, and with the last pointer its
task, or the slot is empty. -/
def destroy (s : ServerTimers) : ServerTimers :=
  match s.wheel.wheel s.wheel.tick with
  | [] => { s with phase := .outside }
  | tsp :: rest =>
      let wheel := s.wheel.pop rest
      if wheel.Holds tsp then { s with wheel := wheel }
      else if wheel.is_cancel tsp.address || tsp.callback == .connection then
        -- `Release` only pushes a task to the queue of the loop
        { s with wheel := wheel.releaseTimerTaskInLoop tsp.id }
      else { s with wheel := wheel, phase := .running tsp, ran := s.ran ++ [(tsp.id, s.steps)] }

/-- The callback of a user's task returns. -/
def leave (s : ServerTimers) (tsp : TimerTask TimerOwner) : ServerTimers :=
  { s with wheel := s.wheel.releaseTimerTaskInLoop tsp.id, phase := .clearing }

/-! ## Runs -/

/-- What the loop thread does. -/
inductive Action
  | enableInactiveRelease
  | newConnection
  | enable (conn : ℕ) (sec : ℤ)
  | disable (conn : ℕ)
  | event (conn : ℕ)
  | release (conn : ℕ)
  | addTimerTask (timeout : ℤ)
  | advance
  | destroy
  | leave

/-- A connection that was accepted. -/
def Accepted (s : ServerTimers) (conn : ℕ) : Prop := 1 ≤ conn ∧ conn ≤ s.next_connid

instance (s : ServerTimers) (conn : ℕ) : Decidable (s.Accepted conn) :=
  inferInstanceAs (Decidable (_ ∧ _))

/-- The state after an action.  Callbacks of user's tasks may call the public functions. -/
def next (s : ServerTimers) (a : Action) : Option ServerTimers :=
  if s.undefined then none
  else
    match s.phase, a with
    | .outside, .enableInactiveRelease => some { s with enable_inactive_release := true }
    | .outside, .newConnection => some s.newConnection
    | .outside, .enable conn sec =>
        if s.Accepted conn then some (s.enableInactiveReleaseInLoop conn sec) else none
    | .outside, .disable conn =>
        if s.Accepted conn then some (s.disableInactiveReleaseInLoop conn) else none
    | .outside, .event conn => if s.Accepted conn then some (s.anyHandler conn) else none
    | .outside, .release conn => if s.Accepted conn then some (s.releaseInLoop conn) else none
    | .outside, .addTimerTask timeout => some (s.addTimerTaskInLoop timeout)
    | .outside, .advance => some s.advance
    | .clearing, .destroy => some s.destroy
    | .running _, .enableInactiveRelease => some { s with enable_inactive_release := true }
    | .running _, .enable conn sec =>
        if s.Accepted conn then some (s.enableInactiveReleaseInLoop conn sec) else none
    | .running _, .disable conn =>
        if s.Accepted conn then some (s.disableInactiveReleaseInLoop conn) else none
    | .running _, .addTimerTask timeout => some (s.addTimerTaskInLoop timeout)
    | .running tsp, .leave => some (s.leave tsp)
    | _, _ => none

/-- The runs of a server. -/
def system : TransitionSystem ServerTimers Action := .ofFunction start next

/-! ## The property and its condition -/

/-- The runs of a user's task. -/
def runsOf (s : ServerTimers) (id : ℕ) : List (ℕ × ℕ) := s.ran.filter (·.1 = id)

/-- A user's task has not run, and is found in the wheel, not cancelled. -/
def Waits (s : ServerTimers) (id : ℕ) : Prop :=
  s.runsOf id = [] ∧ ∃ tsp ∈ s.wheel.timers id,
    tsp.callback = .user ∧ s.wheel.Holds tsp ∧ s.wheel.is_cancel tsp.address = false

/-- A user's task with a timeout between 1 and 60 is found and not cancelled before that many
steps were made, and runs once, at the last of them. -/
structure OnTime (s : ServerTimers) : Prop where
  defined : s.undefined = false
  waits : ∀ id since timeout, s.added id = some (since, timeout) → 1 ≤ timeout → timeout ≤ 60 →
    s.steps < since + timeout → s.Waits id
  due : ∀ id since timeout, s.added id = some (since, timeout) → 1 ≤ timeout → timeout ≤ 60 →
    s.steps = since + timeout → s.Waits id ∨ s.runsOf id = [(id, since + timeout)]
  ran : ∀ id since timeout, s.added id = some (since, timeout) → 1 ≤ timeout → timeout ≤ 60 →
    since + timeout < s.steps ∨ since + timeout = s.steps ∧ s.phase = .outside →
    s.runsOf id = [(id, since + timeout)]

/-- Whose timers an action works on. -/
def owner (s : ServerTimers) : Action → Option TimerOwner
  | .newConnection | .enable _ _ | .disable _ | .event _ | .release _ => some .connection
  | .addTimerTask _ | .leave => some .user
  | .destroy => (s.wheel.wheel s.wheel.tick).head?.map (·.callback)
  | .enableInactiveRelease | .advance => none

/-- An id is free or in use for a timer of this kind. -/
def FreeFor (s : ServerTimers) (owner : TimerOwner) (id : ℕ) : Prop :=
  ∀ tsp ∈ s.wheel.timers id, tsp.callback = owner

instance (s : ServerTimers) (owner : TimerOwner) (id : ℕ) : Decidable (s.FreeFor owner id) := by
  unfold FreeFor
  infer_instance

/-- A push with this timeout does not go to the slot that is being cleared. -/
def Clear (s : ServerTimers) (timeout : ℕ) : Prop :=
  s.phase = .outside ∨ timeout % TimerWheel.capacity ≠ 0

instance (s : ServerTimers) (timeout : ℕ) : Decidable (s.Clear timeout) :=
  inferInstanceAs (Decidable (_ ∨ _))

/-- An action finds no timer of the other kind under its id, and a callback does not push to
the slot that is being cleared. -/
def Apart (s : ServerTimers) : Action → Prop
  | .newConnection => s.enable_inactive_release = true → s.FreeFor .connection (s.next_connid + 1)
  | .enable conn sec => s.FreeFor .connection conn ∧
      s.Clear ((s.wheel.timers conn).elim (toU32 sec) (·.timeout))
  | .disable conn | .release conn => s.FreeFor .connection conn
  | .event conn => s.connections conn = true → s.FreeFor .connection conn
  | .addTimerTask timeout => s.FreeFor .user (s.next_timerid + 1) ∧ s.Clear (toU32 timeout)
  | _ => True

instance (s : ServerTimers) (a : Action) : Decidable (s.Apart a) := by
  cases a <;> unfold Apart <;> infer_instance

/-! ## The invariant -/

/-- The step at which a task runs that is added at the step `since`. -/
def dueAt (since timeout : ℕ) : ℕ := since + ((timeout + 59) % 60 + 1)

theorem dueAt_of_le {since timeout : ℕ} (hlow : 1 ≤ timeout) (hhigh : timeout ≤ 60) :
    dueAt since timeout = since + timeout := by
  unfold dueAt
  omega

/-- The steps at which a task in the wheel may be due. -/
structure Window (s : ServerTimers) (due : ℕ) : Prop where
  outside : s.phase = .outside → s.steps < due ∧ due ≤ s.steps + 60
  inside : s.phase ≠ .outside → s.steps ≤ due ∧ due < s.steps + 60

/-- The task of an id is in the wheel, with one pointer. -/
structure Pending (s : ServerTimers) (id due : ℕ) (tsp : TimerTask TimerOwner) : Prop where
  id_eq : tsp.id = id
  callback : tsp.callback = .user
  found : s.wheel.timers id = some tsp
  is_cancel : s.wheel.is_cancel tsp.address = false
  slots : ∀ pos < TimerWheel.capacity,
    (s.wheel.wheel pos).count tsp = if pos = due % TimerWheel.capacity then 1 else 0
  window : s.Window due
  runs : s.runsOf id = []

/-- The callback of the task of an id is running. -/
structure Running (s : ServerTimers) (id due : ℕ) (tsp : TimerTask TimerOwner) : Prop where
  id_eq : tsp.id = id
  phase : s.phase = .running tsp
  steps : s.steps = due
  runs : s.runsOf id = [(id, due)]

/-- The task of an id is gone. -/
structure Finished (s : ServerTimers) (id due : ℕ) : Prop where
  free : s.FreeFor .connection id
  due_le : due ≤ s.steps
  runs : s.runsOf id = [(id, due)]

/-- What became of the user's task with an id. -/
def Status (s : ServerTimers) (id : ℕ) : Prop :=
  match s.added id with
  | none => s.FreeFor .connection id ∧ s.runsOf id = []
  | some (since, timeout) => (∃ tsp, s.Pending id (dueAt since timeout) tsp) ∨
      (∃ tsp, s.Running id (dueAt since timeout) tsp) ∨ s.Finished id (dueAt since timeout)

/-- What holds along a run in which the kinds of timers keep apart. -/
structure Invariant (s : ServerTimers) : Prop where
  undefined : s.undefined = false
  tick : s.wheel.tick = s.steps % TimerWheel.capacity
  registered : s.wheel.Registered s.phase.task
  unused : ∀ id, s.next_timerid < id → s.added id = none
  running : ∀ tsp, s.phase = .running tsp → tsp.callback = .user ∧ ¬ s.wheel.Holds tsp
  status : ∀ id, s.Status id

theorem invariant_start : start.Invariant where
  undefined := rfl
  tick := rfl
  registered := TimerWheel.registered_empty
  unused := fun _ _ => rfl
  running := fun _ h => by cases h
  status := fun _ => ⟨fun _ h => (Option.some_ne_none _ h.symm).elim, rfl⟩

theorem Pending.holds {s : ServerTimers} {id due : ℕ} {tsp : TimerTask TimerOwner}
    (h : s.Pending id due tsp) : s.wheel.Holds tsp := by
  have hpos : due % TimerWheel.capacity < TimerWheel.capacity := Nat.mod_lt _ (by decide)
  have hcount := h.slots _ hpos
  rw [if_pos rfl] at hcount
  exact TimerWheel.holds_iff.mpr ⟨_, hpos, List.count_pos_iff.mp (by omega)⟩

/-- Outside the callback of a user's task no task is running. -/
theorem Running.absurd {s : ServerTimers} {id due : ℕ} {tsp : TimerTask TimerOwner}
    (h : s.Running id due tsp) {p : TimerPhase} (hphase : s.phase = p)
    (hp : p ≠ .running tsp) : False := hp (hphase.symm.trans h.phase)

theorem Invariant.registered_of_phase {s : ServerTimers} (h : s.Invariant) {p : TimerPhase}
    (hphase : s.phase = p) : s.wheel.Registered p.task := by
  rw [← hphase]
  exact h.registered

/-- A connection's task that is found can be locked. -/
theorem Invariant.holds_of_freeFor {s : ServerTimers} (h : s.Invariant) {id : ℕ}
    (hfree : s.FreeFor .connection id) {tsp : TimerTask TimerOwner}
    (hfound : s.wheel.timers id = some tsp) : s.wheel.Holds tsp := by
  rcases (h.registered.live id tsp hfound).2 with hholds | hrunning
  · exact hholds
  · have hphase : s.phase = .running tsp := by
      cases hphase : s.phase with
      | running u =>
        rw [hphase] at hrunning
        rw [Option.some.inj hrunning]
      | outside =>
        rw [hphase] at hrunning
        cases hrunning
      | clearing =>
        rw [hphase] at hrunning
        cases hrunning
    have huser := (h.running tsp hphase).1
    rw [hfree tsp hfound] at huser
    cases huser

/-- The status of an id whose record stays. -/
theorem Status.map {s s' : ServerTimers} {id : ℕ} (h : s.Status id)
    (hadded : s'.added id = s.added id) (hruns : s'.runsOf id = s.runsOf id)
    (hsteps : s.steps ≤ s'.steps) (hfree : s.FreeFor .connection id → s'.FreeFor .connection id)
    (hpending : ∀ due tsp, s.Pending id due tsp → s'.Pending id due tsp)
    (hrunning : ∀ due tsp, s.Running id due tsp → s'.Running id due tsp ∨ s'.Finished id due) :
    s'.Status id := by
  rw [Status] at h ⊢
  rw [hadded]
  rcases hrecord : s.added id with _ | ⟨since, timeout⟩
  · rw [hrecord] at h
    exact ⟨hfree h.1, hruns.trans h.2⟩
  · rw [hrecord] at h
    rcases h with ⟨tsp, hp⟩ | ⟨tsp, hr⟩ | hf
    · exact Or.inl ⟨tsp, hpending _ tsp hp⟩
    · rcases hrunning _ tsp hr with hr | hf
      · exact Or.inr (Or.inl ⟨tsp, hr⟩)
      · exact Or.inr (Or.inr hf)
    · exact Or.inr (Or.inr ⟨hfree hf.free, hf.due_le.trans hsteps, hruns.trans hf.runs⟩)

/-! ## Actions on the timers of connections -/

/-- The timers of the user are left as they are. -/
structure KeepsUser (s s' : ServerTimers) : Prop where
  undefined : s'.undefined = false
  phase : s'.phase = s.phase
  steps : s'.steps = s.steps
  added : s'.added = s.added
  ran : s'.ran = s.ran
  next_timerid : s'.next_timerid = s.next_timerid
  tick : s'.wheel.tick = s.wheel.tick
  same : TimerWheel.SameTimers .user s.wheel s'.wheel
  registered : s'.wheel.Registered s'.phase.task

namespace KeepsUser

variable {s s' : ServerTimers}

theorem runsOf (h : s.KeepsUser s') (id : ℕ) : s'.runsOf id = s.runsOf id := by
  rw [ServerTimers.runsOf, h.ran, ServerTimers.runsOf]

theorem freeFor (h : s.KeepsUser s') {id : ℕ} (hfree : s.FreeFor .connection id) :
    s'.FreeFor .connection id := by
  intro tsp hfound
  cases hkind : tsp.callback with
  | connection => rfl
  | user =>
    have hold := (h.same.timers_eq_some_iff hkind).mp hfound
    rw [hfree tsp hold] at hkind
    cases hkind

theorem pending (h : s.KeepsUser s') {id due : ℕ} {tsp : TimerTask TimerOwner}
    (hp : s.Pending id due tsp) : s'.Pending id due tsp where
  id_eq := hp.id_eq
  callback := hp.callback
  found := (h.same.timers_eq_some_iff hp.callback).mpr hp.found
  is_cancel := (h.same.is_cancel tsp hp.callback hp.holds).trans hp.is_cancel
  slots := fun pos hpos => (h.same.count_wheel hp.callback).trans (hp.slots pos hpos)
  window := by
    constructor
    · rw [h.phase, h.steps]
      exact hp.window.outside
    · rw [h.phase, h.steps]
      exact hp.window.inside
  runs := (h.runsOf id).trans hp.runs

theorem status (h : s.KeepsUser s') {id : ℕ} (hstatus : s.Status id) : s'.Status id :=
  hstatus.map (congrFun h.added id) (h.runsOf id) h.steps.ge h.freeFor (fun _ _ => h.pending)
    fun _ _ hr => Or.inl ⟨hr.id_eq, h.phase.trans hr.phase, h.steps.trans hr.steps,
      (h.runsOf id).trans hr.runs⟩

/-- What leaves the user's timers as they are keeps the invariant. -/
theorem invariant (h : s.KeepsUser s') (hs : s.Invariant) : s'.Invariant where
  undefined := h.undefined
  tick := by rw [h.tick, h.steps, hs.tick]
  registered := h.registered
  unused := by
    rw [h.next_timerid, h.added]
    exact hs.unused
  running := by
    intro tsp hphase
    rw [h.phase] at hphase
    obtain ⟨huser, hgone⟩ := hs.running tsp hphase
    exact ⟨huser, fun hholds => hgone ((h.same.holds_iff huser).mp hholds)⟩
  status := fun id => h.status (hs.status id)

/-- Nothing is touched but the wheel. -/
theorem of_wheel (hs : s.Invariant) {w : TimerWheel TimerOwner} (htick : w.tick = s.wheel.tick)
    (hsame : TimerWheel.SameTimers .user s.wheel w) (hregistered : w.Registered s.phase.task) :
    s.KeepsUser { s with wheel := w } :=
  ⟨hs.undefined, rfl, rfl, rfl, rfl, rfl, htick, hsame, hregistered⟩

theorem trans {s'' : ServerTimers} (h : s.KeepsUser s') (h' : s'.KeepsUser s'') :
    s.KeepsUser s'' where
  undefined := h'.undefined
  phase := h'.phase.trans h.phase
  steps := h'.steps.trans h.steps
  added := h'.added.trans h.added
  ran := h'.ran.trans h.ran
  next_timerid := h'.next_timerid.trans h.next_timerid
  tick := h'.tick.trans h.tick
  same := h.same.trans h'.same
  registered := h'.registered

theorem refl (hs : s.Invariant) : s.KeepsUser s :=
  of_wheel hs rfl (TimerWheel.SameTimers.refl _ _) hs.registered

/-- Nothing is touched but what the connections and the server have themselves. -/
theorem of_members (hs : s.Invariant) (next_connid : ℕ) (enable_inactive_release : Bool)
    (connections : ℕ → Bool) :
    s.KeepsUser { s with
      next_connid := next_connid
      enable_inactive_release := enable_inactive_release
      connections := connections } :=
  ⟨hs.undefined, rfl, rfl, rfl, rfl, rfl, rfl, TimerWheel.SameTimers.refl _ _, hs.registered⟩

end KeepsUser

section Connections

variable {s : ServerTimers} {conn : ℕ}

theorem FreeFor.ne_user {id : ℕ} (h : s.FreeFor .connection id) :
    ∀ tsp ∈ s.wheel.timers id, tsp.callback ≠ .user := by
  intro tsp hfound huser
  rw [h tsp hfound] at huser
  cases huser

theorem Clear.pushed {timeout : ℕ} (h : s.Clear timeout) (wheel : TimerWheel TimerOwner) :
    s.pushed timeout wheel = { s with wheel := wheel } := by
  rw [ServerTimers.pushed, if_neg]
  rintro ⟨hphase, htimeout⟩
  rcases h with h | h
  · exact hphase h
  · exact h htimeout

/-- A refresh of a connection's task. -/
theorem keepsUser_refresh (h : s.Invariant) (hfree : s.FreeFor .connection conn)
    (hclear : ∀ tsp ∈ s.wheel.timers conn, s.Clear tsp.timeout) :
    s.KeepsUser (s.refreshTimerTask conn) := by
  rw [refreshTimerTask]
  cases hfound : s.wheel.timers conn with
  | none => exact KeepsUser.refl h
  | some tsp =>
    have hholds := h.holds_of_freeFor hfree hfound
    have hwheel : s.wheel.refreshTimerTaskInLoop conn = some (s.wheel.push tsp.timeout tsp) := by
      rw [TimerWheel.refreshTimerTaskInLoop, hfound]
      dsimp only
      rw [if_pos hholds]
    rw [hwheel]
    dsimp only
    rw [(hclear tsp hfound).pushed]
    exact KeepsUser.of_wheel h rfl (TimerWheel.SameTimers.push (hfree.ne_user tsp hfound) _)
      (h.registered.push (Or.inl hholds) _)

/-- A connection's timer is enabled. -/
theorem keepsUser_enable (h : s.Invariant) {sec : ℤ} (hfree : s.FreeFor .connection conn)
    (hclear : s.Clear ((s.wheel.timers conn).elim (toU32 sec) (·.timeout))) :
    s.KeepsUser (s.enableInactiveReleaseInLoop conn sec) := by
  have hmember : s.KeepsUser { s with connections := Function.update s.connections conn true } :=
    KeepsUser.of_members h _ _ _
  rw [enableInactiveReleaseInLoop]
  dsimp only
  cases hfound : s.wheel.timers conn with
  | none =>
    rw [hfound] at hclear
    rw [TimerWheel.hasTimerTask, hfound, Option.isSome_none, if_neg Bool.false_ne_true, addTimer]
    have hclear' : Clear { s with connections := Function.update s.connections conn true }
        (toU32 sec) := hclear
    rw [hclear'.pushed]
    have hnone : ∀ u ∈ s.wheel.timers conn, u.callback ≠ .user := hfree.ne_user
    have hsame := TimerWheel.SameTimers.add hnone (toU32 sec)
      (show TimerOwner.connection ≠ .user by decide)
    have hregistered := h.registered.add hfound (toU32 sec) TimerOwner.connection
    exact ⟨h.undefined, rfl, rfl, rfl, rfl, rfl, rfl, hsame, hregistered⟩
  | some tsp =>
    rw [hfound] at hclear
    rw [TimerWheel.hasTimerTask, hfound, Option.isSome_some, if_pos rfl]
    refine hmember.trans (keepsUser_refresh (hmember.invariant h) hfree fun u hu => ?_)
    obtain rfl := Option.some.inj (hfound.symm.trans hu)
    exact hclear

/-- A connection's timer is disabled. -/
theorem keepsUser_disable (h : s.Invariant) (hfree : s.FreeFor .connection conn) :
    s.KeepsUser (s.disableInactiveReleaseInLoop conn) := by
  have htick : (s.wheel.cancelTimerTaskInLoop conn).tick = s.wheel.tick := by
    rw [TimerWheel.cancelTimerTaskInLoop]
    split
    · rfl
    · split_ifs <;> rfl
  rw [disableInactiveReleaseInLoop]
  dsimp only
  by_cases hhas : s.wheel.hasTimerTask conn = true
  · rw [if_pos hhas]
    exact ⟨h.undefined, rfl, rfl, rfl, rfl, rfl, htick,
      TimerWheel.SameTimers.cancel h.registered hfree.ne_user, h.registered.cancel conn⟩
  · rw [if_neg hhas]
    exact KeepsUser.of_members h _ _ _

/-- An event of a connection. -/
theorem keepsUser_event (h : s.Invariant) (hphase : s.phase = .outside)
    (hfree : s.connections conn = true → s.FreeFor .connection conn) :
    s.KeepsUser (s.anyHandler conn) := by
  rw [anyHandler]
  by_cases henabled : s.connections conn = true
  · rw [if_pos henabled]
    exact keepsUser_refresh h (hfree henabled) fun _ _ => Or.inl hphase
  · rw [if_neg henabled]
    exact KeepsUser.refl h

/-- A connection is released. -/
theorem keepsUser_release (h : s.Invariant) (hfree : s.FreeFor .connection conn) :
    s.KeepsUser (s.releaseInLoop conn) := by
  rw [releaseInLoop]
  by_cases hhas : s.wheel.hasTimerTask conn = true
  · rw [if_pos hhas]
    exact keepsUser_disable h hfree
  · rw [if_neg hhas]
    exact KeepsUser.refl h

/-- A connection is accepted. -/
theorem keepsUser_newConnection (h : s.Invariant) (hphase : s.phase = .outside)
    (hfree : s.enable_inactive_release = true → s.FreeFor .connection (s.next_connid + 1)) :
    s.KeepsUser s.newConnection := by
  have hmember : s.KeepsUser { s with next_connid := s.next_connid + 1 } :=
    KeepsUser.of_members h _ _ _
  rw [newConnection]
  dsimp only
  by_cases henabled : s.enable_inactive_release = true
  · rw [if_pos henabled]
    exact hmember.trans (keepsUser_enable (hmember.invariant h) (hfree henabled) (Or.inl hphase))
  · rw [if_neg henabled]
    exact hmember

end Connections

/-! ## The other actions -/

section Others

variable {s : ServerTimers}

/-- An id with no timers of the one kind and none of the other has none. -/
theorem FreeFor.timers_eq_none {id : ℕ} (h : s.FreeFor .connection id) (h' : s.FreeFor .user id) :
    s.wheel.timers id = none := by
  rcases hfound : s.wheel.timers id with _ | tsp
  · rfl
  · have hkind := h tsp hfound
    rw [h' tsp hfound] at hkind
    cases hkind

theorem Invariant.status_unused (h : s.Invariant) {id : ℕ} (hid : s.next_timerid < id) :
    s.FreeFor .connection id ∧ s.runsOf id = [] := by
  have hstatus := h.status id
  rwa [Status, h.unused id hid] at hstatus

/-- A user's task is added. -/
theorem Invariant.addTimerTask (h : s.Invariant) {timeout : ℤ}
    (hapart : s.Apart (.addTimerTask timeout)) : (s.addTimerTaskInLoop timeout).Invariant := by
  obtain ⟨hfree, hclear⟩ := hapart
  obtain ⟨hunused, hruns⟩ := h.status_unused (Nat.lt_succ_self _)
  have hnone := hunused.timers_eq_none hfree
  have hregistered := h.registered.add hnone (toU32 timeout) TimerOwner.user
  have hadd : s.addTimerTaskInLoop timeout = { s with
      next_timerid := s.next_timerid + 1
      added := Function.update s.added (s.next_timerid + 1) (some (s.steps, toU32 timeout))
      wheel := s.wheel.addTimerTaskInLoop (s.next_timerid + 1) (toU32 timeout) .user } :=
    Clear.pushed (s := { s with
      next_timerid := s.next_timerid + 1
      added := Function.update s.added (s.next_timerid + 1) (some (s.steps, toU32 timeout)) })
      hclear _
  -- an address is used once, so the pointers in the wheel are to other tasks
  have hnew : ∀ tsp, s.wheel.Holds tsp →
      tsp ≠ s.wheel.newTask (s.next_timerid + 1) (toU32 timeout) .user := by
    rintro tsp hholds rfl
    exact (h.registered.address _ (Or.inl hholds)).ne rfl
  rw [hadd]
  refine ⟨h.undefined, h.tick, hregistered, fun id hid => ?_, fun tsp hphase => ?_, fun id => ?_⟩
  · have hne : id ≠ s.next_timerid + 1 := (show s.next_timerid + 1 < id from hid).ne'
    exact (Function.update_of_ne hne _ _).trans
      (h.unused id (Nat.lt_of_succ_lt hid))
  · obtain ⟨huser, hgone⟩ := h.running tsp hphase
    refine ⟨huser, fun hholds => ?_⟩
    rcases TimerWheel.holds_push.mp hholds with hholds | heq
    · exact hgone hholds
    · have hlive : s.wheel.Live s.phase.task tsp := by
        rw [hphase]
        exact Or.inr rfl
      have hlt := h.registered.address tsp hlive
      rw [heq] at hlt
      exact absurd rfl hlt.ne
  · by_cases hid : id = s.next_timerid + 1
    · subst hid
      rw [Status]
      dsimp only
      rw [Function.update_self]
      refine Or.inl ⟨s.wheel.newTask (s.next_timerid + 1) (toU32 timeout) .user, rfl, rfl,
        Function.update_self _ _ _, h.registered.fresh _ le_rfl, fun pos hpos => ?_, ⟨?_, ?_⟩, hruns⟩
      · have habsent : (s.wheel.wheel pos).count
            (s.wheel.newTask (s.next_timerid + 1) (toU32 timeout) .user) = 0 :=
          List.count_eq_zero.mpr fun hmem => hnew _ (TimerWheel.holds_iff.mpr ⟨pos, hpos, hmem⟩) rfl
        have hslot : (s.wheel.tick + toU32 timeout) % TimerWheel.capacity
            = dueAt s.steps (toU32 timeout) % TimerWheel.capacity := by
          rw [h.tick, dueAt, TimerWheel.capacity]
          omega
        rw [← hslot]
        exact TimerWheel.count_wheel_add habsent
      · intro _
        show s.steps < dueAt s.steps (toU32 timeout) ∧ dueAt s.steps (toU32 timeout) ≤ s.steps + 60
        unfold dueAt
        omega
      · intro hphase
        -- a multiple of 60 would be due in the slot that is being cleared
        have hmod : toU32 timeout % 60 ≠ 0 := hclear.resolve_left hphase
        show s.steps ≤ dueAt s.steps (toU32 timeout) ∧ dueAt s.steps (toU32 timeout) < s.steps + 60
        unfold dueAt
        omega
    · have hfound : (s.wheel.addTimerTaskInLoop (s.next_timerid + 1) (toU32 timeout)
          TimerOwner.user).timers id = s.wheel.timers id := Function.update_of_ne hid _ _
      refine (h.status id).map (Function.update_of_ne hid _ _) rfl le_rfl (fun hf tsp htsp => ?_)
        (fun due tsp hp => ?_) fun due tsp hr => Or.inl ⟨hr.id_eq, hr.phase, hr.steps, hr.runs⟩
      · rw [hfound] at htsp
        exact hf tsp htsp
      · exact ⟨hp.id_eq, hp.callback, hfound.trans hp.found, hp.is_cancel,
          fun pos hpos => (TimerWheel.count_wheel_push (hnew tsp hp.holds)).trans (hp.slots pos hpos),
          ⟨hp.window.outside, hp.window.inside⟩, hp.runs⟩

/-- The wheel turns. -/
theorem Invariant.advance (h : s.Invariant) (hphase : s.phase = .outside) : s.advance.Invariant where
  undefined := h.undefined
  tick := TimerWheel.tick_advance h.tick
  registered := by
    exact (h.registered_of_phase hphase).advance
  unused := h.unused
  running := fun _ hrunning => by cases hrunning
  status := by
    refine fun id => (h.status id).map rfl rfl (Nat.le_succ _) (fun hf => hf) (fun due tsp hp => ?_)
      fun due tsp hr => ?_
    · refine ⟨hp.id_eq, hp.callback, hp.found, hp.is_cancel, hp.slots, ⟨fun hout => ?_,
        fun _ => ?_⟩, hp.runs⟩
      · exact absurd hout (show TimerPhase.clearing ≠ .outside by decide)
      · have hwindow := hp.window.outside hphase
        show s.steps + 1 ≤ due ∧ due < s.steps + 1 + 60
        omega
    · exact (hr.absurd hphase nofun).elim

/-- A user's task whose slot is being cleared is due, and has no pointer but this. -/
theorem Invariant.front_user (h : s.Invariant) (hphase : s.phase = .clearing)
    {tsp : TimerTask TimerOwner} {rest : List (TimerTask TimerOwner)}
    (hslot : s.wheel.wheel s.wheel.tick = tsp :: rest) (huser : tsp.callback = .user) :
    (∃ since timeout, s.added tsp.id = some (since, timeout) ∧ s.steps = dueAt since timeout) ∧
      s.wheel.is_cancel tsp.address = false ∧ s.runsOf tsp.id = [] ∧
      ¬ (s.wheel.pop rest).Holds tsp := by
  have htick := h.registered.tick
  have hmem : tsp ∈ s.wheel.wheel s.wheel.tick := by
    rw [hslot]
    exact List.mem_cons_self
  have hfound := h.registered.found_of_slot hslot
  have hstatus := h.status tsp.id
  rw [Status] at hstatus
  rcases hadded : s.added tsp.id with _ | ⟨since, timeout⟩
  · rw [hadded] at hstatus
    exact absurd huser (hstatus.1.ne_user tsp hfound)
  · rw [hadded] at hstatus
    rcases hstatus with ⟨u, hp⟩ | ⟨u, hr⟩ | hf
    · obtain rfl : u = tsp := Option.some.inj (hp.found.symm.trans hfound)
      have hcount := hp.slots _ htick
      -- it has one pointer, and here is one
      have hdue : s.wheel.tick = dueAt since timeout % TimerWheel.capacity := by
        by_contra hne
        rw [if_neg hne] at hcount
        exact List.count_eq_zero.mp hcount hmem
      have hwindow := hp.window.inside (by rw [hphase]; decide)
      refine ⟨⟨since, timeout, rfl, ?_⟩, hp.is_cancel, hp.runs, ?_⟩
      · rw [h.tick] at hdue
        unfold TimerWheel.capacity at hdue
        omega
      · rw [if_pos hdue, hslot, List.count_cons_self] at hcount
        rw [TimerWheel.holds_iff]
        rintro ⟨pos, hpos, hheld⟩
        by_cases heq : pos = s.wheel.tick
        · rw [heq, TimerWheel.wheel_pop_self] at hheld
          have hpositive := List.count_pos_iff.mpr hheld
          omega
        · rw [TimerWheel.wheel_pop_of_ne heq] at hheld
          have hnone := hp.slots pos hpos
          rw [if_neg fun hpos' => heq (hpos'.trans hdue.symm)] at hnone
          exact List.count_eq_zero.mp hnone hheld
    · exact (hr.absurd hphase nofun).elim
    · exact absurd huser (hf.free.ne_user tsp hfound)

/-- The slot is clear. -/
theorem Invariant.clear (h : s.Invariant) (hphase : s.phase = .clearing)
    (hslot : s.wheel.wheel s.wheel.tick = []) : Invariant { s with phase := .outside } where
  undefined := h.undefined
  tick := h.tick
  registered := by
    have hregistered := h.registered_of_phase hphase
    exact hregistered
  unused := h.unused
  running := fun _ hrunning => by cases hrunning
  status := by
    refine fun id => (h.status id).map rfl rfl le_rfl (fun hf => hf) (fun due tsp hp => ?_)
      fun due tsp hr => ?_
    · refine ⟨hp.id_eq, hp.callback, hp.found, hp.is_cancel, hp.slots, ⟨fun _ => ?_,
        fun hin => absurd rfl hin⟩, hp.runs⟩
      have hwindow := hp.window.inside (by rw [hphase]; decide)
      -- what is due now would have its pointer in this slot
      have hne : s.steps ≠ due := by
        rintro rfl
        have hcount := hp.slots _ h.registered.tick
        rw [if_pos h.tick, hslot] at hcount
        cases hcount
      show s.steps < due ∧ due ≤ s.steps + 60
      omega
    · exact (hr.absurd hphase nofun).elim

/-- A user's task starts to run. -/
theorem Invariant.run (h : s.Invariant) (hphase : s.phase = .clearing)
    {tsp : TimerTask TimerOwner} {rest : List (TimerTask TimerOwner)}
    (hslot : s.wheel.wheel s.wheel.tick = tsp :: rest) (huser : tsp.callback = .user) :
    Invariant { s with
      wheel := s.wheel.pop rest, phase := .running tsp, ran := s.ran ++ [(tsp.id, s.steps)] } := by
  obtain ⟨⟨since, timeout, hadded, hdue⟩, -, hruns, hgone⟩ := h.front_user hphase hslot huser
  have hregistered := h.registered_of_phase hphase
  refine ⟨h.undefined, h.tick, hregistered.pop hslot (Or.inr rfl) fun u hu =>
    (Option.some.inj hu).symm, h.unused, ?_, fun id => ?_⟩
  · rintro u hu
    obtain rfl := TimerPhase.running.inj hu
    exact ⟨huser, hgone⟩
  · by_cases hid : id = tsp.id
    · subst hid
      rw [Status]
      dsimp only
      rw [hadded]
      refine Or.inr (Or.inl ⟨tsp, rfl, rfl, hdue, ?_⟩)
      rw [runsOf, List.filter_append, ← runsOf, hruns, ← hdue]
      simp
    · have hruns' : runsOf { s with
          wheel := s.wheel.pop rest, phase := .running tsp, ran := s.ran ++ [(tsp.id, s.steps)] } id
          = s.runsOf id := by
        rw [runsOf, List.filter_append, ← runsOf]
        simp [Ne.symm hid]
      refine (h.status id).map rfl hruns' le_rfl (fun hf => hf) (fun due u hp => ?_)
        fun due u hr => ?_
      · have hne : u ≠ tsp := by
          rintro rfl
          exact hid hp.id_eq.symm
        refine ⟨hp.id_eq, hp.callback, hp.found, hp.is_cancel, fun pos hpos =>
          (TimerWheel.count_wheel_pop hslot hne).trans (hp.slots pos hpos), ⟨fun hout => ?_,
          fun _ => hp.window.inside (by rw [hphase]; decide)⟩, hruns'.trans hp.runs⟩
        cases hout
      · exact (hr.absurd hphase nofun).elim

/-- The clearing goes on. -/
theorem Invariant.destroy (h : s.Invariant) (hphase : s.phase = .clearing) :
    s.destroy.Invariant := by
  have hregistered := h.registered_of_phase hphase
  rw [ServerTimers.destroy]
  rcases hslot : s.wheel.wheel s.wheel.tick with _ | ⟨tsp, rest⟩
  · exact h.clear hphase hslot
  · dsimp only
    cases hkind : tsp.callback with
    | user =>
      -- its only pointer goes, and it was never cancelled
      obtain ⟨-, hcancel, -, hgone⟩ := h.front_user hphase hslot hkind
      have hcancel' : (s.wheel.pop rest).is_cancel tsp.address = false := hcancel
      rw [if_neg hgone, hcancel', if_neg (by decide)]
      exact h.run hphase hslot hkind
    | connection =>
      have huser : tsp.callback ≠ .user := by
        rw [hkind]
        decide
      have hpop := TimerWheel.SameTimers.pop hslot huser
      by_cases hholds : (s.wheel.pop rest).Holds tsp
      · rw [if_pos hholds]
        refine (KeepsUser.of_wheel (w := s.wheel.pop rest) h rfl hpop ?_).invariant h
        rw [hphase]
        exact hregistered.pop hslot (Or.inl hholds) fun u hu => by cases hu
      · rw [if_neg hholds, if_pos (by simp)]
        have hpopped : (s.wheel.pop rest).Registered (some tsp) :=
          hregistered.pop hslot (Or.inr rfl) fun u hu => (Option.some.inj hu).symm
        have hfound : (s.wheel.pop rest).timers tsp.id = some tsp := hpopped.found tsp (Or.inr rfl)
        have hrelease : TimerWheel.SameTimers .user s.wheel
            ((s.wheel.pop rest).releaseTimerTaskInLoop tsp.id) := by
          refine hpop.trans (TimerWheel.SameTimers.release fun u hu => ?_)
          obtain rfl := Option.some.inj (hfound.symm.trans hu)
          exact huser
        refine (KeepsUser.of_wheel (w := (s.wheel.pop rest).releaseTimerTaskInLoop tsp.id) h rfl
          hrelease ?_).invariant h
        rw [hphase]
        exact hpopped.release hholds

/-- A user's task has run. -/
theorem Invariant.leave (h : s.Invariant) {tsp : TimerTask TimerOwner}
    (hphase : s.phase = .running tsp) : (s.leave tsp).Invariant := by
  obtain ⟨huser, hgone⟩ := h.running tsp hphase
  have hregistered := h.registered_of_phase hphase
  have hfound := hregistered.found tsp (Or.inr rfl)
  have hself : (s.leave tsp).wheel.timers tsp.id = none :=
    TimerWheel.timers_releaseTimerTaskInLoop_self _ _
  have hother : ∀ id, id ≠ tsp.id → (s.leave tsp).wheel.timers id = s.wheel.timers id :=
    fun id hid => TimerWheel.timers_releaseTimerTaskInLoop_of_ne hid
  have hfree : ∀ id, s.FreeFor .connection id → (s.leave tsp).FreeFor .connection id := by
    intro id hf u hu
    by_cases hid : id = tsp.id
    · subst hid
      rw [hself] at hu
      cases hu
    · rw [hother id hid] at hu
      exact hf u hu
  refine ⟨h.undefined, h.tick, hregistered.release hgone, h.unused, fun u hu => (by cases hu),
    fun id => (h.status id).map rfl rfl le_rfl (hfree id) (fun due u hp => ?_) fun due u hr => ?_⟩
  · have hne : u.id ≠ tsp.id := by
      intro heq
      have hfound' := hp.found
      rw [← hp.id_eq, heq, hfound] at hfound'
      obtain rfl := Option.some.inj hfound'
      exact hgone hp.holds
    have hid : id ≠ tsp.id := by
      rw [← hp.id_eq]
      exact hne
    refine ⟨hp.id_eq, hp.callback, (hother id hid).trans hp.found, hp.is_cancel, hp.slots, ⟨fun hout => ?_,
      fun _ => hp.window.inside (by rw [hphase]; simp)⟩, hp.runs⟩
    cases hout
  · -- the id whose task was running
    obtain rfl : tsp = u := TimerPhase.running.inj (hphase.symm.trans hr.phase)
    refine Or.inr ⟨fun v hv => ?_, hr.steps.ge, hr.runs⟩
    rw [← hr.id_eq, hself] at hv
    cases hv

end Others

/-! ## Runs in which the timers keep apart -/

/-- What an action that is enabled does. -/
inductive Turn (s : ServerTimers) : Action → ServerTimers → Prop
  | enableInactiveRelease :
      Turn s .enableInactiveRelease { s with enable_inactive_release := true }
  | newConnection : s.phase = .outside → Turn s .newConnection s.newConnection
  | enable (conn : ℕ) (sec : ℤ) : Turn s (.enable conn sec) (s.enableInactiveReleaseInLoop conn sec)
  | disable (conn : ℕ) : Turn s (.disable conn) (s.disableInactiveReleaseInLoop conn)
  | event (conn : ℕ) : s.phase = .outside → Turn s (.event conn) (s.anyHandler conn)
  | release (conn : ℕ) : Turn s (.release conn) (s.releaseInLoop conn)
  | addTimerTask (timeout : ℤ) : Turn s (.addTimerTask timeout) (s.addTimerTaskInLoop timeout)
  | advance : s.phase = .outside → Turn s .advance s.advance
  | destroy : s.phase = .clearing → Turn s .destroy s.destroy
  | leave (tsp : TimerTask TimerOwner) : s.phase = .running tsp → Turn s .leave (s.leave tsp)

theorem turn_of_next {s s' : ServerTimers} {a : Action} (hstep : s.next a = some s') :
    s.Turn a s' := by
  unfold next at hstep
  by_cases hundefined : s.undefined = true
  · rw [if_pos hundefined] at hstep
    cases hstep
  · rw [if_neg hundefined] at hstep
    cases hphase : s.phase <;> cases a <;>
      simp only [hphase, reduceCtorEq, Option.some.injEq, Option.ite_none_right_eq_some] at hstep
    case outside.enableInactiveRelease | running.enableInactiveRelease =>
      rw [← hphase] at hstep
      exact hstep ▸ .enableInactiveRelease
    case outside.newConnection => exact hstep ▸ .newConnection hphase
    case outside.enable | running.enable => exact hstep.2 ▸ .enable _ _
    case outside.disable | running.disable => exact hstep.2 ▸ .disable _
    case outside.event => exact hstep.2 ▸ .event _ hphase
    case outside.release => exact hstep.2 ▸ .release _
    case outside.addTimerTask | running.addTimerTask => exact hstep ▸ .addTimerTask _
    case outside.advance => exact hstep ▸ .advance hphase
    case clearing.destroy => exact hstep ▸ .destroy hphase
    case running.leave => exact hstep ▸ .leave _ hphase

namespace Invariant

variable {s s' : ServerTimers} {a : Action}

/-- An action on the timers of connections leaves the user's alone. -/
theorem keepsUser (h : s.Invariant) (hapart : s.Apart a) (hturn : s.Turn a s')
    (howner : s.owner a = some .connection) (hdestroy : a ≠ .destroy) : s.KeepsUser s' := by
  cases hturn with
  | newConnection hphase => exact keepsUser_newConnection h hphase hapart
  | enable conn sec => exact keepsUser_enable h hapart.1 hapart.2
  | disable conn => exact keepsUser_disable h hapart
  | event conn hphase => exact keepsUser_event h hphase hapart
  | release conn => exact keepsUser_release h hapart
  | destroy => exact absurd rfl hdestroy
  | enableInactiveRelease => cases howner
  | addTimerTask timeout => cases howner
  | advance hphase => cases howner
  | leave tsp hphase => cases howner

/-- **One action.** -/
theorem next (h : s.Invariant) (hapart : s.Apart a) (hstep : s.next a = some s') :
    s'.Invariant := by
  have hturn := turn_of_next hstep
  cases hturn with
  | enableInactiveRelease =>
    have hkeeps : s.KeepsUser { s with enable_inactive_release := true } :=
      KeepsUser.of_members h _ _ _
    exact hkeeps.invariant h
  | addTimerTask timeout => exact h.addTimerTask hapart
  | advance hphase => exact h.advance hphase
  | destroy hphase => exact h.destroy hphase
  | leave tsp hphase => exact h.leave hphase
  | newConnection => exact (h.keepsUser hapart (turn_of_next hstep) rfl nofun).invariant h
  | enable => exact (h.keepsUser hapart (turn_of_next hstep) rfl nofun).invariant h
  | disable => exact (h.keepsUser hapart (turn_of_next hstep) rfl nofun).invariant h
  | event => exact (h.keepsUser hapart (turn_of_next hstep) rfl nofun).invariant h
  | release => exact (h.keepsUser hapart (turn_of_next hstep) rfl nofun).invariant h

/-- Clearing a pointer works on the timers of its task's kind only. -/
theorem sameTimers_destroy (h : s.Invariant) (hphase : s.phase = .clearing) {kind : TimerOwner}
    (howner : s.owner .destroy ≠ some kind) :
    TimerWheel.SameTimers kind s.wheel s.destroy.wheel := by
  have hregistered := h.registered_of_phase hphase
  rw [ServerTimers.owner] at howner
  rw [ServerTimers.destroy]
  rcases hslot : s.wheel.wheel s.wheel.tick with _ | ⟨tsp, rest⟩
  · exact TimerWheel.SameTimers.refl _ _
  · rw [hslot] at howner
    have hkind : tsp.callback ≠ kind := fun heq => howner (congrArg some heq)
    have hpop := TimerWheel.SameTimers.pop hslot hkind
    have hfound : (s.wheel.pop rest).timers tsp.id = some tsp := hregistered.found_of_slot hslot
    have hrelease : TimerWheel.SameTimers kind s.wheel
        ((s.wheel.pop rest).releaseTimerTaskInLoop tsp.id) := by
      refine hpop.trans (TimerWheel.SameTimers.release fun u hu => ?_)
      obtain rfl := Option.some.inj (hfound.symm.trans hu)
      exact hkind
    dsimp only
    split_ifs
    · exact hpop
    · exact hrelease
    · exact hpop

/-- **An action leaves the timers of the other kind alone.** -/
theorem sameTimers (h : s.Invariant) (hapart : s.Apart a) (hstep : s.next a = some s')
    {kind : TimerOwner} (howner : s.owner a ≠ some kind) :
    TimerWheel.SameTimers kind s.wheel s'.wheel := by
  have hturn := turn_of_next hstep
  have hconnection : s.owner a = some .connection → a ≠ .destroy →
      TimerWheel.SameTimers kind s.wheel s'.wheel := by
    intro hown hdestroy
    rw [hown] at howner
    obtain rfl : kind = .user := by
      cases kind with
      | user => rfl
      | connection => exact absurd rfl howner
    exact (h.keepsUser hapart (turn_of_next hstep) hown hdestroy).same
  cases hturn with
  | enableInactiveRelease => exact TimerWheel.SameTimers.refl _ _
  | addTimerTask timeout =>
    obtain ⟨hfree, hclear⟩ := hapart
    have hkind : TimerOwner.user ≠ kind := fun heq => howner (congrArg some heq)
    have hnone := (h.status_unused (Nat.lt_succ_self _)).1.timers_eq_none hfree
    rw [addTimerTaskInLoop, addTimer, Clear.pushed (by exact hclear)]
    refine TimerWheel.SameTimers.add (fun u hu => ?_) _ hkind
    rw [hnone] at hu
    cases hu
  | advance hphase => exact ⟨fun _ => rfl, fun _ => rfl, fun _ _ _ => rfl⟩
  | destroy hphase => exact h.sameTimers_destroy hphase howner
  | leave tsp hphase =>
    have huser := (h.running tsp hphase).1
    have hregistered := h.registered_of_phase hphase
    refine TimerWheel.SameTimers.release fun u hu => ?_
    obtain rfl := Option.some.inj ((hregistered.found tsp (Or.inr rfl)).symm.trans hu)
    rw [huser]
    exact fun heq => howner (congrArg some heq)
  | newConnection => exact hconnection rfl nofun
  | enable => exact hconnection rfl nofun
  | disable => exact hconnection rfl nofun
  | event => exact hconnection rfl nofun
  | release => exact hconnection rfl nofun

/-- The user's tasks run on time. -/
theorem onTime (h : s.Invariant) : s.OnTime := by
  have hstatus : ∀ id since timeout, s.added id = some (since, timeout) → 1 ≤ timeout →
      timeout ≤ 60 → (∃ tsp, s.Pending id (since + timeout) tsp) ∨
        (∃ tsp, s.Running id (since + timeout) tsp) ∨ s.Finished id (since + timeout) := by
    intro id since timeout hadded hlow hhigh
    have hcases := h.status id
    rw [Status, hadded] at hcases
    dsimp only at hcases
    rwa [dueAt_of_le hlow hhigh] at hcases
  have hwaits : ∀ id due tsp, s.Pending id due tsp → s.Waits id := fun id due tsp hp =>
    ⟨hp.runs, tsp, hp.found, hp.callback, hp.holds, hp.is_cancel⟩
  refine ⟨h.undefined, ?_, ?_, ?_⟩
  · intro id since timeout hadded hlow hhigh hlt
    rcases hstatus id since timeout hadded hlow hhigh with ⟨tsp, hp⟩ | ⟨tsp, hr⟩ | hf
    · exact hwaits id _ tsp hp
    · exact absurd hr.steps hlt.ne
    · exact absurd hf.due_le hlt.not_ge
  · intro id since timeout hadded hlow hhigh _
    rcases hstatus id since timeout hadded hlow hhigh with ⟨tsp, hp⟩ | ⟨tsp, hr⟩ | hf
    · exact Or.inl (hwaits id _ tsp hp)
    · exact Or.inr hr.runs
    · exact Or.inr hf.runs
  · intro id since timeout hadded hlow hhigh hpast
    rcases hstatus id since timeout hadded hlow hhigh with ⟨tsp, hp⟩ | ⟨tsp, hr⟩ | hf
    · -- a pending task is not due yet outside `Step`, and at most due inside
      by_cases hphase : s.phase = .outside
      · have hwindow := hp.window.outside hphase
        omega
      · have hwindow := hp.window.inside hphase
        rcases hpast with hlt | ⟨-, hout⟩
        · omega
        · exact absurd hout hphase
    · exact hr.runs
    · exact hf.runs

end Invariant

/-- **The timers of the user and of the connections do not interfere** as long as no id is in
use for both and no callback pushes to the slot that is being cleared: every user's task runs
on time, and every action leaves the timers of the other kind as they are. -/
theorem separate_of_apart {s : ServerTimers} (h : system.ReachableBy Apart s) :
    s.OnTime ∧ ∀ a s', s.Apart a → s.next a = some s' → ∀ kind, s.owner a ≠ some kind →
      TimerWheel.SameTimers kind s.wheel s'.wheel := by
  have hinvariant : s.Invariant := by
    refine ReachableBy.invariant ?_ ?_ h
    · rintro s rfl
      exact invariant_start
    · exact fun s a s' hs hapart hstep => hs.next hapart hstep
  exact ⟨hinvariant.onTime, fun a s' hapart hstep kind howner =>
    hinvariant.sameTimers hapart hstep howner⟩

/-- The only task of the user has run before the first connection gets its number; its
callback adds another task. -/
def numberedApart : List Action :=
  [.addTimerTask 1, .advance, .destroy, .addTimerTask 3, .leave, .destroy,
    .enableInactiveRelease, .newConnection, .advance, .destroy, .event 1, .advance, .destroy,
    .release 1, .advance, .destroy, .leave, .destroy]

/-- Both tasks of the user run on time. -/
theorem separate_numberedApart :
    ∃ s : ServerTimers, system.ReachableBy Apart s ∧ s.ran = [(1, 1), (2, 4)] ∧ s.OnTime ∧
      ∀ a s', s.Apart a → s.next a = some s' → ∀ kind, s.owner a ≠ some kind →
        TimerWheel.SameTimers kind s.wheel s'.wheel := by
  have hrun : ∃ s ∈ runFrom next Apart start numberedApart, s.ran = [(1, 1), (2, 4)] := by
    decide +kernel
  obtain ⟨s, hreach, hran⟩ := exists_of_runFrom hrun
  exact ⟨s, hreach, hran, separate_of_apart hreach⟩

/-- The first connection and the first task of the user have the same id, and an event of the
connection refreshes the task. -/
def numberedAlike : List Action :=
  [.enableInactiveRelease, .newConnection, .addTimerTask 2, .advance, .destroy, .event 1, .advance,
    .destroy, .destroy]

/-- Two steps after it was added, the task has not run. -/
theorem not_separate_numberedAlike :
    ∃ s : ServerTimers, system.Reachable s ∧ s.added 1 = some (0, 2) ∧ s.steps = 2 ∧
      s.phase = .outside ∧ s.ran = [] ∧ ¬ s.OnTime := by
  have hrun : ∃ s ∈ runFrom next (fun _ _ => True) start numberedAlike,
      s.added 1 = some (0, 2) ∧ s.steps = 2 ∧ s.phase = .outside ∧ s.ran = [] := by
    decide +kernel
  obtain ⟨s, hreach, hadded, hsteps, hphase, hran⟩ := exists_of_runFrom hrun
  refine ⟨s, hreach, hadded, hsteps, hphase, hran, fun h => ?_⟩
  have hruns := h.ran 1 0 2 hadded (by decide) (by decide) (Or.inr ⟨hsteps.symm, hphase⟩)
  rw [runsOf, hran] at hruns
  cases hruns

end ServerTimers

end Reactor
