/-
# A connection is released once

`Release` puts a `ReleaseInLoop` into the queue whenever it is called, and `ShutdownInLoop`
sets the state of the connection whatever it was.  While nobody asks for a second release,
and nobody shuts a released connection down, `ReleaseInLoop` runs at most once and
`disconnected` is final.
-/
import FastServer.Connection

open TransitionSystem

namespace Reactor

namespace ConnRun

/-! ## The property and its condition -/

/-- The effects of `ReleaseInLoop` took place at most once, and a connection that was
disconnected still is. -/
def ReleasedOnce (r : ConnRun) : Prop :=
  (∀ e : Effect, r.history.effects.count e ≤ 1) ∧
    (r.history.wasDisconnected = true → r.conn.statu = .disconnected)

/-- A `ReleaseInLoop` waits in the queue, is about to run, or has run. -/
def Releasing (c : Connection) : Prop :=
  .releaseInLoop ∈ c.tasks ∨ .releaseInLoop ∈ c.calls ∨ c.statu = .disconnected

instance (c : Connection) : Decidable (Releasing c) := inferInstanceAs (Decidable (_ ∨ _ ∨ _))

/-- The step asks for no release of a connection that is being released or has been, and
does not shut a disconnected connection down. -/
def AsksOnce (r : ConnRun) : Action → Prop
  | .call => (r.conn.calls.head? = some .release → ¬ Releasing r.conn) ∧
      (r.conn.calls.head? = some .shutdownInLoop → r.conn.statu ≠ .disconnected)
  | .post op => op = .release → ¬ Releasing r.conn
  | _ => True

instance (r : ConnRun) (a : Action) : Decidable (AsksOnce r a) := by
  cases a <;> unfold AsksOnce <;> infer_instance

/-! ## Counting the releases -/

/-- How often a call waits in the queue or is about to be made. -/
def pending (call : Call) (c : Connection) : ℕ := c.tasks.count call + c.calls.count call

/-- The releases that ran and those to come. -/
structure Counted (r : ConnRun) : Prop where
  once : r.history.effects.count .removeChannel + pending .releaseInLoop r.conn ≤ 1
  closeFd : r.history.effects.count .closeFd ≤ r.history.effects.count .removeChannel
  closeCallback : r.history.effects.count .closeCallback
    = r.history.effects.count .removeChannel
  serverCloseCallback : r.history.effects.count .serverCloseCallback
    + pending .releaseRest r.conn = r.history.effects.count .removeChannel
  disconnected : r.history.wasDisconnected = true ↔ r.conn.statu = .disconnected
  ran : r.history.wasDisconnected = true ↔ 0 < r.history.effects.count .removeChannel

theorem counted_start : Counted start where
  once := by decide
  closeFd := by decide
  closeCallback := by decide
  serverCloseCallback := by decide
  disconnected := by decide
  ran := by decide

/-- A callback in front does not count. -/
theorem count_handleInput (c : Connection) (rest : List Call) {call : Call}
    (hcall : call ≠ .callback) : (handleInput c rest).count call = rest.count call := by
  rcases handleInput_eq c rest with h | h
  · rw [h]
  · rw [h, List.count_cons_of_ne (Ne.symm hcall)]

/-- The calls of an event are not those of a release. -/
theorem count_calls_event (revents : EventMask) :
    revents.calls.count .releaseInLoop = 0 ∧ revents.calls.count .releaseRest = 0 := by
  constructor <;> refine List.count_eq_zero_of_not_mem fun hmem => ?_ <;>
    simpa using mem_calls_event hmem

/-- Where no release is under way, none is counted. -/
theorem pending_eq_zero {c : Connection} (h : ¬ Releasing c) : pending .releaseInLoop c = 0 := by
  unfold Releasing at h
  push Not at h
  rw [pending, List.count_eq_zero_of_not_mem h.1, List.count_eq_zero_of_not_mem h.2.1]

namespace Counted

variable {r r' : ConnRun}

/-- **Frame rule.**  A step that has no effect, adds no call of a release and does not touch
whether the connection is disconnected. -/
theorem frame (h : Counted r) (hhistory : r'.history.effects = r.history.effects)
    (hwas : r'.history.wasDisconnected = r.history.wasDisconnected)
    (hstatu : r'.conn.statu = .disconnected ↔ r.conn.statu = .disconnected)
    (hrelease : pending .releaseInLoop r'.conn = pending .releaseInLoop r.conn)
    (hrest : pending .releaseRest r'.conn = pending .releaseRest r.conn) : Counted r' where
  once := by
    rw [hhistory, hrelease]
    exact h.once
  closeFd := by
    rw [hhistory]
    exact h.closeFd
  closeCallback := by
    rw [hhistory]
    exact h.closeCallback
  serverCloseCallback := by
    rw [hhistory, hrest]
    exact h.serverCloseCallback
  disconnected := by
    rw [hwas, hstatu]
    exact h.disconnected
  ran := by
    rw [hwas, hhistory]
    exact h.ran

/-- The frame rule for a step that changes the calls to be made. -/
theorem frame_calls (h : Counted r) (hhistory : r'.history.effects = r.history.effects)
    (hwas : r'.history.wasDisconnected = r.history.wasDisconnected)
    (hstatu : r'.conn.statu = .disconnected ↔ r.conn.statu = .disconnected)
    (htasks : r'.conn.tasks = r.conn.tasks)
    (hrelease : r'.conn.calls.count .releaseInLoop = r.conn.calls.count .releaseInLoop)
    (hrest : r'.conn.calls.count .releaseRest = r.conn.calls.count .releaseRest) :
    Counted r' := by
  refine h.frame hhistory hwas hstatu ?_ ?_
  · rw [pending, pending, htasks, hrelease]
  · rw [pending, pending, htasks, hrest]

/-- `WriteHandler`. -/
theorem writeHandler (h : Counted r) (result : Option ℕ) {rest : List Call}
    (hcalls : r.conn.calls = .writeHandler :: rest) : Counted (r.writeHandler result rest) := by
  cases result with
  | none =>
    refine h.frame_calls rfl rfl Iff.rfl rfl ?_ ?_ <;> rw [hcalls] <;>
      exact (count_handleInput _ _ (by decide)).trans rfl
  | some n =>
    unfold ConnRun.writeHandler
    dsimp only
    split_ifs <;> refine h.frame_calls rfl rfl Iff.rfl rfl ?_ ?_ <;> rw [hcalls] <;> rfl

/-- `Readhandler`. -/
theorem readHandler (h : Counted r) (result : Option (List UInt8)) {rest : List Call}
    (hcalls : r.conn.calls = .readHandler :: rest) : Counted (r.readHandler result rest) := by
  rcases result with _ | _ | ⟨b, buf⟩ <;> refine h.frame_calls rfl rfl Iff.rfl rfl ?_ ?_ <;>
    rw [hcalls] <;> rfl

/-- `SendInLoop`. -/
theorem sendInLoop (h : Counted r) (buf : List UInt8) {rest : List Call}
    (hcalls : r.conn.calls = .sendInLoop buf :: rest) : Counted (r.sendInLoop buf rest) := by
  unfold ConnRun.sendInLoop
  dsimp only
  split_ifs <;> refine h.frame_calls rfl rfl Iff.rfl rfl ?_ ?_ <;> rw [hcalls] <;> rfl

/-- `ShutdownInLoop` behind the callback. -/
theorem shutdownRest (h : Counted r) (first : Bool) {rest : List Call}
    (hcalls : r.conn.calls = .shutdownRest first :: rest) :
    Counted (r.shutdownRest first rest) := by
  unfold ConnRun.shutdownRest
  dsimp only
  split_ifs <;> refine h.frame_calls rfl rfl Iff.rfl rfl ?_ ?_ <;> rw [hcalls] <;> rfl

/-- `ReleaseInLoop` up to the first callback: it is the only one. -/
theorem releaseInLoop (h : Counted r) {rest : List Call}
    (hcalls : r.conn.calls = .releaseInLoop :: rest) : Counted (r.releaseInLoop rest) := by
  have honce := h.once
  have hrest := h.serverCloseCallback
  have hclosed := h.closeFd
  have hcallback := h.closeCallback
  -- this one counts among those to come, so none ran
  rw [pending, hcalls, List.count_cons_self] at honce
  rw [pending, hcalls, List.count_cons_of_ne (by decide)] at hrest
  have heffects : (r.releaseInLoop rest).history.effects.count .removeChannel
        = r.history.effects.count .removeChannel + 1 ∧
      (r.releaseInLoop rest).history.effects.count .closeFd
        ≤ r.history.effects.count .closeFd + 1 ∧
      (r.releaseInLoop rest).history.effects.count .closeCallback
        = r.history.effects.count .closeCallback + 1 ∧
      (r.releaseInLoop rest).history.effects.count .serverCloseCallback
        = r.history.effects.count .serverCloseCallback := by
    unfold ConnRun.releaseInLoop
    dsimp only
    split_ifs <;> simp
  have hcalls' : pending .releaseInLoop (r.releaseInLoop rest).conn
        = r.conn.tasks.count .releaseInLoop + rest.count .releaseInLoop ∧
      pending .releaseRest (r.releaseInLoop rest).conn
        = r.conn.tasks.count .releaseRest + rest.count .releaseRest + 1 := by
    refine ⟨rfl, ?_⟩
    rw [Nat.add_assoc, ← List.count_cons_self]
    rfl
  refine ⟨?_, ?_, ?_, ?_, iff_of_true rfl rfl, iff_of_true rfl ?_⟩ <;> omega

/-- `ReleaseInLoop` behind the first callback. -/
theorem releaseRest (h : Counted r) {rest : List Call}
    (hcalls : r.conn.calls = .releaseRest :: rest) : Counted (r.releaseRest rest) := by
  have honce := h.once
  have hrest := h.serverCloseCallback
  have hclosed := h.closeFd
  have hcallback := h.closeCallback
  have hran := h.ran
  -- the call of the second callback moves from those to come to the effects
  rw [pending, hcalls, List.count_cons_of_ne (by decide)] at honce
  rw [pending, hcalls, List.count_cons_self] at hrest
  have heffects : (r.releaseRest rest).history.effects.count .removeChannel
        = r.history.effects.count .removeChannel ∧
      (r.releaseRest rest).history.effects.count .closeFd
        = r.history.effects.count .closeFd ∧
      (r.releaseRest rest).history.effects.count .closeCallback
        = r.history.effects.count .closeCallback ∧
      (r.releaseRest rest).history.effects.count .serverCloseCallback
        = r.history.effects.count .serverCloseCallback + 1 := by
    unfold ConnRun.releaseRest
    simp
  have hcalls' : ∀ call, pending call (r.releaseRest rest).conn
      = r.conn.tasks.count call + rest.count call := fun call => rfl
  have hrelease := hcalls' .releaseInLoop
  have hrest' := hcalls' .releaseRest
  refine ⟨?_, ?_, ?_, ?_, h.disconnected, ?_⟩
  · omega
  · omega
  · omega
  · omega
  · rw [heffects.1]
    exact h.ran

/-- A first request puts one `ReleaseInLoop` into the queue. -/
theorem request (h : Counted r) (hfirst : ¬ Releasing r.conn)
    (hhistory : r'.history = r.history) (hstatu : r'.conn.statu = r.conn.statu)
    (hrelease : pending .releaseInLoop r'.conn = pending .releaseInLoop r.conn + 1)
    (hrest : pending .releaseRest r'.conn = pending .releaseRest r.conn) : Counted r' := by
  have hnone := pending_eq_zero hfirst
  have hran : ¬ 0 < r.history.effects.count .removeChannel := fun hpos =>
    hfirst (Or.inr (Or.inr (h.disconnected.mp (h.ran.mpr hpos))))
  refine ⟨?_, hhistory ▸ h.closeFd, hhistory ▸ h.closeCallback, ?_, ?_, hhistory ▸ h.ran⟩
  · rw [hhistory]
    omega
  · rw [hhistory, hrest]
    exact h.serverCloseCallback
  · rw [hhistory, hstatu]
    exact h.disconnected

/-- **One step.** -/
theorem next (h : Counted r) {a : Action} (hasks : r.AsksOnce a) (hstep : r.next a = some r') :
    Counted r' := by
  cases steps_of_next hstep with
  | event revents hcalls hmonitored =>
    refine h.frame_calls rfl rfl Iff.rfl rfl ?_ ?_ <;> rw [hcalls]
    · exact (count_calls_event revents).1
    · exact (count_calls_event revents).2
  | recv result rest hcalls => exact h.readHandler result hcalls
  | send result rest hcalls hresult => exact h.writeHandler result hcalls
  | errorHandler rest hcalls =>
    refine h.frame_calls rfl rfl Iff.rfl rfl ?_ ?_ <;> rw [hcalls] <;> rfl
  | closeHandler rest hcalls =>
    refine h.frame_calls rfl rfl Iff.rfl rfl ?_ ?_ <;> rw [hcalls] <;>
      exact (count_handleInput _ _ (by decide)).trans rfl
  | anyHandler rest hcalls =>
    refine h.frame_calls rfl rfl Iff.rfl rfl ?_ ?_ <;> rw [hcalls] <;> rfl
  | establishedInLoop rest hcalls hstatu =>
    have hnew : ConnStatu.connected ≠ .disconnected := by decide
    refine h.frame_calls rfl rfl (iff_of_false hnew (by rw [hstatu]; decide)) rfl ?_ ?_ <;>
      rw [hcalls] <;> rfl
  | sendInLoop buf rest hcalls => exact h.sendInLoop buf hcalls
  | shutdownInLoop rest hcalls =>
    have hstatu : r.conn.statu ≠ .disconnected := hasks.2 (by rw [hcalls]; rfl)
    have hnew : ConnStatu.disconnecting ≠ .disconnected := by decide
    refine h.frame_calls rfl rfl (iff_of_false hnew hstatu) rfl ?_ ?_ <;> rw [hcalls] <;>
      exact (count_handleInput _ _ (by decide)).trans rfl
  | shutdownRest first rest hcalls => exact h.shutdownRest first hcalls
  | release rest hcalls =>
    refine h.request (hasks.1 (by rw [hcalls]; rfl)) rfl rfl ?_ ?_ <;>
      rw [pending, pending, hcalls]
    · simp
      omega
    · simp
  | releaseInLoop rest hcalls => exact h.releaseInLoop hcalls
  | releaseRest rest hcalls => exact h.releaseRest hcalls
  | «return» rest hcalls =>
    refine h.frame_calls rfl rfl Iff.rfl rfl ?_ ?_ <;> rw [hcalls] <;> rfl
  | invoke op hidle =>
    refine h.frame_calls rfl rfl Iff.rfl rfl ?_ ?_ <;> cases op <;> rfl
  | consume len hidle => exact h.frame_calls rfl rfl Iff.rfl rfl rfl rfl
  | post op =>
    cases op with
    | send buf =>
      refine h.frame rfl rfl Iff.rfl ?_ ?_ <;> rw [pending, pending] <;> simp [Operation.task]
    | shutdown =>
      refine h.frame rfl rfl Iff.rfl ?_ ?_ <;> rw [pending, pending] <;> simp [Operation.task]
    | release =>
      refine h.request (hasks rfl) rfl rfl ?_ ?_ <;> rw [pending, pending]
      · simp [Operation.task]
        omega
      · simp [Operation.task]
  | runTask task tasks hcalls htasks =>
    refine h.frame rfl rfl Iff.rfl ?_ ?_ <;> rw [pending, pending, hcalls, htasks] <;>
      simp [List.count_cons]

end Counted

/-! ## Runs -/

theorem counted_of_reachable {r : ConnRun} (h : system.ReachableBy AsksOnce r) : Counted r := by
  refine ReachableBy.invariant ?_ ?_ h
  · rintro r rfl
    exact counted_start
  · exact fun r a r' hr hasks hstep => hr.next hasks hstep

/-- **Released once.**  As long as no step asks for a second release or shuts a disconnected
connection down, the effects of `ReleaseInLoop` take place at most once and `disconnected`
is final. -/
theorem releasedOnce_of_asksOnce {r : ConnRun} (h : system.ReachableBy AsksOnce r) :
    r.ReleasedOnce := by
  have hcounted := counted_of_reachable h
  have honce := hcounted.once
  have hclosed := hcounted.closeFd
  have hcallback := hcounted.closeCallback
  have hserver := hcounted.serverCloseCallback
  refine ⟨fun e => ?_, hcounted.disconnected.mp⟩
  cases e <;> omega

/-- `EstablishedInLoop` and the callback of the user. -/
def establish : List Action := [.runTask, .call, .return]

/-- `Shutdown` on another thread, and what follows from it. -/
def shutDown : List Action :=
  establish ++ ([.post .shutdown, .runTask, .call, .call, .call, .runTask, .call, .return,
    .call] : List Action)

/-- A connection that is shut down is released once. -/
theorem releasedOnce_shutDown :
    ∃ r : ConnRun, system.ReachableBy AsksOnce r ∧ r.history.effects
        = [.removeChannel, .closeFd, .closeCallback, .serverCloseCallback] ∧
      r.ReleasedOnce := by
  have hrun : ∃ r ∈ runFrom next AsksOnce start shutDown, r.history.effects
      = [.removeChannel, .closeFd, .closeCallback, .serverCloseCallback] := by decide +kernel
  obtain ⟨r, hreach, heffects⟩ := exists_of_runFrom hrun
  exact ⟨r, hreach, heffects, releasedOnce_of_asksOnce hreach⟩

/-- The peer resets the connection: one event reports input and an error.  `Readhandler`
fails and shuts down, `ErrorHandler` runs as well, and each asks for a release; code on the
loop thread then shuts the connection down once more. -/
def reset : List Action :=
  establish ++ ([.event { epollin := true, epollerr := true }, .recv none, .call, .call, .call,
    .call, .call, .call, .return, .runTask, .call, .return, .call, .runTask, .call, .return,
    .call, .invoke .shutdown, .call] : List Action)

/-- The close callbacks run twice, and the connection leaves `disconnected`. -/
theorem not_releasedOnce_reset :
    ∃ r : ConnRun, system.Reachable r ∧ r.history.effects.count .serverCloseCallback = 2 ∧
      r.history.wasDisconnected = true ∧ r.conn.statu = .disconnecting ∧ ¬ r.ReleasedOnce := by
  have hrun : ∃ r ∈ runFrom next (fun _ _ => True) start reset,
      r.history.effects.count .serverCloseCallback = 2 ∧ r.history.wasDisconnected = true ∧
      r.conn.statu = .disconnecting := by decide +kernel
  obtain ⟨r, hreach, htwice, hwas, hstatu⟩ := exists_of_runFrom hrun
  refine ⟨r, hreach, htwice, hwas, hstatu, fun h => ?_⟩
  have honce := h.1 .serverCloseCallback
  omega

end ConnRun

end Reactor
