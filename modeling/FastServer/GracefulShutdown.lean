/-
# Sending before the release

What `ShutdownInLoop` finds in `obuffer` is sent before the connection is released: the
release is asked for where `obuffer` is empty.  The callback inside the first
`ShutdownInLoop` can spoil this: it may shut down again, which asks for the release, and
append bytes afterwards.
-/
import FastServer.Connection

open TransitionSystem

namespace Reactor

namespace ConnRun

/-! ## The property and its condition -/

/-- While the connection is not disconnected and bytes are left to send, the channel
monitors `EPOLLOUT`; the bytes that were appended are those sent and those left, in order;
and what had been appended when the first `ShutdownInLoop` ended (everything, if there was
none) was sent when `ReleaseInLoop` ran. -/
structure SendsFirst (r : ConnRun) : Prop where
  monitors : r.conn.statu ≠ .disconnected → r.conn.obuffer ≠ [] →
    r.conn.events.epollout = true ∧
      (r.history.atRelease = none → ∃ events ∈ r.conn.monitored, events.epollout = true)
  inOrder : r.history.appended = r.history.sent ++ r.conn.obuffer
  released : ∀ due sent, r.history.atRelease = some (due, sent) → due ≤ sent

/-- No `send` fails, no event reports an error or a hang-up, and neither the user nor the
timer calls `Release`. -/
def Undisturbed : Action → Prop
  | .event revents => revents.epollerr = false ∧ revents.epollhup = false
  | .send result => result ≠ none
  | .invoke op => op ≠ .release
  | .post op => op ≠ .release
  | _ => True

instance : (a : Action) → Decidable (Undisturbed a)
  | .event _ => inferInstanceAs (Decidable (_ ∧ _))
  | .send _ | .invoke _ | .post _ => inferInstanceAs (Decidable (_ ≠ _))
  | .recv _ | .call | .return | .consume _ | .runTask => isTrue trivial

/-- The bytes that the next call appends. -/
def appends (c : Connection) : List UInt8 :=
  match c.calls with
  | .sendInLoop buf :: _ => buf
  | _ => []

/-- Bytes are not appended inside the first `ShutdownInLoop` once the release is asked
for. -/
def AppendsInTime (r : ConnRun) : Action → Prop
  | .call => appends r.conn ≠ [] → .shutdownRest true ∈ r.conn.calls →
      .releaseInLoop ∉ r.conn.tasks
  | _ => True

instance (r : ConnRun) : (a : Action) → Decidable (AppendsInTime r a)
  | .call => inferInstanceAs (Decidable (_ → _))
  | .event _ | .recv _ | .send _ | .return | .invoke _ | .consume _ | .post _ | .runTask =>
      isTrue trivial

/-- The steps of a graceful run. -/
def Graceful (r : ConnRun) (a : Action) : Prop := Undisturbed a ∧ AppendsInTime r a

instance (r : ConnRun) (a : Action) : Decidable (Graceful r a) :=
  inferInstanceAs (Decidable (_ ∧ _))

/-! ## The invariant -/

/-- Which calls may wait below which: `WriteHandler` does not run inside a `ShutdownInLoop`,
and a release is the next call when it is asked for. -/
def Nests (above below : Call) : Prop :=
  (above = .writeHandler → below ≠ .shutdownRest true) ∧ below ≠ .release ∧
    below ≠ .releaseInLoop

/-- The calls that are put into the queue. -/
def IsTask : Call → Prop
  | .establishedInLoop | .sendInLoop _ | .shutdownInLoop | .releaseInLoop => True
  | _ => False

/-- The calls that neither release the connection nor end a `ShutdownInLoop`. -/
def Harmless : Call → Prop
  | .release | .releaseInLoop | .errorHandler | .closeHandler | .shutdownRest _ => False
  | _ => True

/-- A release is asked for, waits in the queue or is about to run. -/
def Requested (c : Connection) : Prop :=
  .release ∈ c.calls ∨ .releaseInLoop ∈ c.tasks ∨ .releaseInLoop ∈ c.calls

/-- What holds along a graceful run. -/
structure Orderly (r : ConnRun) : Prop where
  out : r.conn.obuffer ≠ [] → r.conn.events.epollout = true
  registered : r.history.atRelease = none →
    r.conn.fdOpen = true ∧ (r.conn.events.epollout = true → r.conn.monitored = some r.conn.events)
  inOrder : r.history.appended = r.history.sent ++ r.conn.obuffer
  nested : r.conn.calls.Pairwise Nests
  handlers : .errorHandler ∉ r.conn.calls ∧ .closeHandler ∉ r.conn.calls
  tasks : ∀ task ∈ r.conn.tasks, IsTask task
  started : r.conn.statu = .disconnecting → 0 < r.history.shutdowns
  begun : ∀ first, .shutdownRest first ∈ r.conn.calls → 0 < r.history.shutdowns
  ended : 0 < r.history.shutdowns → .shutdownRest true ∉ r.conn.calls →
    r.history.atShutdown.isSome
  bounded : ∀ n ∈ r.history.atShutdown, n ≤ r.history.appended.length
  requested : Requested r.conn → 0 < r.history.shutdowns ∧
    (∀ n ∈ r.history.atShutdown, n ≤ r.history.sent.length) ∧
    (.shutdownRest true ∈ r.conn.calls → r.conn.obuffer = [])
  released : ∀ due sent, r.history.atRelease = some (due, sent) → due ≤ sent

theorem orderly_start : Orderly start where
  out := by decide
  registered := by decide
  inOrder := by decide
  nested := List.Pairwise.nil
  handlers := by decide
  tasks := by
    intro task htask
    rw [List.mem_singleton.mp htask]
    trivial
  started := by decide
  begun := fun first h => absurd h List.not_mem_nil
  ended := by decide
  bounded := by decide
  requested := by unfold Requested; decide
  released := by
    intro due sent h
    cases h

/-- The invariant is about more than the property. -/
theorem Orderly.sendsFirst {r : ConnRun} (h : Orderly r) : r.SendsFirst where
  monitors := fun _ hleft =>
    ⟨h.out hleft, fun hnone => ⟨_, (h.registered hnone).2 (h.out hleft), h.out hleft⟩⟩
  inOrder := h.inOrder
  released := h.released

namespace Orderly

variable {r r' : ConnRun}

/-- What waits below the next call. -/
theorem rest (h : Orderly r) {call : Call} {rest : List Call}
    (hcalls : r.conn.calls = call :: rest) :
    rest.Pairwise Nests ∧ (.errorHandler ∉ rest ∧ .closeHandler ∉ rest) ∧
      .release ∉ rest ∧ .releaseInLoop ∉ rest ∧
      (call = .writeHandler → .shutdownRest true ∉ rest) := by
  have hnested := h.nested
  have hhandlers := h.handlers
  rw [hcalls] at hnested hhandlers
  rw [List.pairwise_cons] at hnested
  refine ⟨hnested.2, ⟨fun hmem => hhandlers.1 (List.mem_cons_of_mem _ hmem),
    fun hmem => hhandlers.2 (List.mem_cons_of_mem _ hmem)⟩, ?_, ?_, ?_⟩
  · exact fun hmem => (hnested.1 _ hmem).2.1 rfl
  · exact fun hmem => (hnested.1 _ hmem).2.2 rfl
  · exact fun hwrite hmem => (hnested.1 _ hmem).1 hwrite rfl

/-- **Frame rule.**  A step that changes nothing but `ibuffer` and the calls, and brings up
harmless calls only. -/
theorem frame (h : Orderly r) (hhistory : r'.history = r.history) {ibuffer : List UInt8}
    {calls : List Call}
    (hconn : r'.conn = { r.conn with ibuffer := ibuffer, calls := calls })
    (hnested : calls.Pairwise Nests)
    (hnew : ∀ call ∈ calls, call ∈ r.conn.calls ∨ Harmless call)
    (hkept : .shutdownRest true ∈ r.conn.calls → .shutdownRest true ∈ calls) : Orderly r' := by
  -- the calls that the invariant speaks of were there before
  have hold : ∀ call ∈ calls, ¬ Harmless call → call ∈ r.conn.calls :=
    fun call hcall hharm => (hnew call hcall).resolve_right hharm
  obtain ⟨conn, history⟩ := r'
  obtain rfl : conn = _ := hconn
  obtain rfl : history = _ := hhistory
  refine ⟨h.out, h.registered, h.inOrder, hnested, ⟨?_, ?_⟩, h.tasks, h.started, ?_, ?_,
    h.bounded, ?_, h.released⟩
  · exact fun hmem => h.handlers.1 (hold _ hmem id)
  · exact fun hmem => h.handlers.2 (hold _ hmem id)
  · exact fun first hmem => h.begun first (hold _ hmem id)
  · exact fun hpos hnone => h.ended hpos fun hmem => hnone (hkept hmem)
  · intro hrequested
    have hbefore : Requested r.conn := by
      rcases hrequested with hmem | hmem | hmem
      · exact Or.inl (hold _ hmem id)
      · exact Or.inr (Or.inl hmem)
      · exact Or.inr (Or.inr (hold _ hmem id))
    obtain ⟨hpos, hsent, hempty⟩ := h.requested hbefore
    exact ⟨hpos, hsent, fun hmem => hempty (hold _ hmem id)⟩

/-- A harmless call may come on top of calls that are no release. -/
theorem nests_cons {call : Call} {calls : List Call} (hnested : calls.Pairwise Nests)
    (hwrite : call ≠ .writeHandler)
    (hrelease : .release ∉ calls ∧ .releaseInLoop ∉ calls) : (call :: calls).Pairwise Nests := by
  refine List.pairwise_cons.mpr ⟨fun below hbelow => ⟨fun h => absurd h hwrite, ?_, ?_⟩, hnested⟩
  · rintro rfl
    exact hrelease.1 hbelow
  · rintro rfl
    exact hrelease.2 hbelow

/-- The frame rule for a call on top of the others. -/
theorem frame_top (h : Orderly r) (new : Call) (hnew : Harmless new) (hwrite : new ≠ .writeHandler)
    (hnone : .release ∉ r.conn.calls ∧ .releaseInLoop ∉ r.conn.calls) :
    Orderly (r.withCalls (new :: r.conn.calls)) := by
  refine h.frame rfl rfl (nests_cons h.nested hwrite hnone) ?_ fun hmem =>
    List.mem_cons_of_mem _ hmem
  intro call hmem
  rcases List.mem_cons.mp hmem with rfl | hmem
  · exact Or.inr hnew
  · exact Or.inl hmem

/-- The frame rule for a call that is over. -/
theorem frame_pop (h : Orderly r) {call : Call} {rest : List Call}
    (hcalls : r.conn.calls = call :: rest) (hcall : call ≠ .shutdownRest true) :
    Orderly (r.withCalls rest) := by
  refine h.frame rfl rfl (h.rest hcalls).1 ?_ ?_
  · intro call' hmem
    rw [hcalls]
    exact Or.inl (List.mem_cons_of_mem _ hmem)
  · intro hmem
    rw [hcalls] at hmem
    exact (List.mem_cons.mp hmem).resolve_left (Ne.symm hcall)

/-- The frame rule for a call that another one replaces. -/
theorem frame_push (h : Orderly r) {call : Call} {rest : List Call}
    (hcalls : r.conn.calls = call :: rest) (hcall : call ≠ .shutdownRest true) (new : Call)
    (hnew : Harmless new) (hwrite : new ≠ .writeHandler) (ibuffer : List UInt8) :
    Orderly { r with conn := { r.conn with ibuffer := ibuffer, calls := new :: rest } } := by
  obtain ⟨hnested, -, hrelease, hloop, -⟩ := h.rest hcalls
  refine h.frame rfl rfl (nests_cons hnested hwrite ⟨hrelease, hloop⟩) ?_ ?_
  · intro call' hmem
    rcases List.mem_cons.mp hmem with rfl | hmem
    · exact Or.inr hnew
    · rw [hcalls]
      exact Or.inl (List.mem_cons_of_mem _ hmem)
  · intro hmem
    rw [hcalls] at hmem
    exact List.mem_cons_of_mem _ ((List.mem_cons.mp hmem).resolve_left (Ne.symm hcall))

/-- `Readhandler`. -/
theorem readHandler (h : Orderly r) (result : Option (List UInt8)) {rest : List Call}
    (hcalls : r.conn.calls = .readHandler :: rest) : Orderly (r.readHandler result rest) := by
  rcases result with _ | _ | ⟨b, buf⟩
  · exact h.frame_push hcalls (by decide) .shutdownInLoop trivial (by decide) r.conn.ibuffer
  · exact h.frame_pop hcalls (by decide)
  · exact h.frame_push hcalls (by decide) .callback trivial (by decide)
      (r.conn.ibuffer ++ b :: buf)

/-- The channel is updated, and still monitors `EPOLLOUT` if bytes are left. -/
theorem monitor (h : Orderly r) (events : Events)
    (hout : r.conn.obuffer ≠ [] → events.epollout = true) :
    Orderly { r with conn := Connection.updateEventMonitor { r.conn with events := events } } :=
  { h with
    out := hout
    registered := by
      intro hnone
      refine ⟨(h.registered hnone).1, fun _ => ?_⟩
      show (if r.conn.fdOpen = true then some events else r.conn.monitored) = some events
      rw [if_pos (h.registered hnone).1] }

/-- The release is asked for when nothing is left to send. -/
theorem ask (h : Orderly r) (hempty : r.conn.obuffer = []) (hpos : 0 < r.history.shutdowns)
    (hnone : .release ∉ r.conn.calls ∧ .releaseInLoop ∉ r.conn.calls) :
    Orderly (r.withCalls (.release :: r.conn.calls)) :=
  { h with
    nested := nests_cons h.nested (by decide) hnone
    handlers := by simpa using h.handlers
    begun := fun _ _ => hpos
    ended := fun hpos' hover => h.ended hpos' fun hmem => hover (List.mem_cons_of_mem _ hmem)
    requested := by
      refine fun _ => ⟨hpos, fun n hn => ?_, fun _ => hempty⟩
      -- nothing is left, so all that was appended was sent
      have hbound := h.bounded n hn
      rwa [h.inOrder, hempty, List.append_nil] at hbound }

/-- `send` took the first `n` bytes. -/
theorem sent (h : Orderly r) {rest : List Call} (hcalls : r.conn.calls = .writeHandler :: rest)
    (n : ℕ) :
    Orderly { conn := { r.conn with obuffer := r.conn.obuffer.drop n, calls := rest },
              history := { r.history with
                sent := r.history.sent ++ r.conn.obuffer.take n } } :=
  { h.frame_pop hcalls (by decide) with
    out := fun hleft => h.out fun hnil => hleft (by rw [hnil, List.drop_nil])
    inOrder := by rw [List.append_assoc, List.take_append_drop, ← h.inOrder]
    requested := by
      intro hrequested
      obtain ⟨hpos, hsent, hempty⟩ := (h.frame_pop hcalls (by decide)).requested hrequested
      refine ⟨hpos, fun m hm => (hsent m hm).trans ?_, fun hmem => ?_⟩
      · rw [List.length_append]
        exact Nat.le_add_right _ _
      · show r.conn.obuffer.drop n = []
        rw [show r.conn.obuffer = [] from hempty hmem, List.drop_nil] }

/-- `WriteHandler`: the release is asked for where nothing is left to send. -/
theorem writeHandler (h : Orderly r) (n : ℕ) {rest : List Call}
    (hcalls : r.conn.calls = .writeHandler :: rest) :
    Orderly (r.writeHandler (some n) rest) := by
  obtain ⟨-, -, hrelease, hloop, -⟩ := h.rest hcalls
  have hsent := h.sent hcalls n
  unfold ConnRun.writeHandler
  dsimp only
  split_ifs with hempty hstatu
  · exact (hsent.monitor { r.conn.events with epollout := false } fun hleft =>
      absurd hempty hleft).ask hempty (h.started hstatu) ⟨hrelease, hloop⟩
  · exact hsent.monitor { r.conn.events with epollout := false } fun hleft => absurd hempty hleft
  · exact hsent

/-- `EstablishedInLoop`. -/
theorem establishedInLoop (h : Orderly r) {rest : List Call}
    (hcalls : r.conn.calls = .establishedInLoop :: rest) : Orderly (r.establishedInLoop rest) :=
  { (h.frame_push hcalls (by decide) .callback trivial (by decide) r.conn.ibuffer).monitor
      { r.conn.events with epollin := true } h.out with
    started := fun hstatu => by cases hstatu }

/-- Bytes are appended where the channel monitors `EPOLLOUT`. -/
theorem append (h : Orderly r) (buf : List UInt8) (hout : r.conn.events.epollout = true)
    (htime : buf ≠ [] → .shutdownRest true ∈ r.conn.calls → ¬ Requested r.conn) :
    Orderly { conn := { r.conn with obuffer := r.conn.obuffer ++ buf },
              history := { r.history with appended := r.history.appended ++ buf } } :=
  { h with
    out := fun _ => hout
    inOrder := by rw [h.inOrder, List.append_assoc]
    bounded := by
      intro n hn
      rw [List.length_append]
      exact (h.bounded n hn).trans (Nat.le_add_right _ _)
    requested := by
      intro hrequested
      obtain ⟨hpos, hsent, hempty⟩ := h.requested hrequested
      refine ⟨hpos, hsent, fun hmem => ?_⟩
      have hnil : buf = [] := not_not.mp fun hbuf => htime hbuf hmem hrequested
      show r.conn.obuffer ++ buf = []
      rw [hnil, List.append_nil, hempty hmem] }

/-- `SendInLoop`. -/
theorem sendInLoop (h : Orderly r) {buf : List UInt8} {rest : List Call}
    (hcalls : r.conn.calls = .sendInLoop buf :: rest)
    (htime : buf ≠ [] → .shutdownRest true ∈ r.conn.calls → .releaseInLoop ∉ r.conn.tasks) :
    Orderly (r.sendInLoop buf rest) := by
  obtain ⟨-, -, hrelease, hloop, -⟩ := h.rest hcalls
  have hpop := h.frame_pop hcalls fun hcall => by cases hcall
  -- a request can only wait in the queue
  have hlate : buf ≠ [] → .shutdownRest true ∈ rest →
      ¬ (.release ∈ rest ∨ .releaseInLoop ∈ r.conn.tasks ∨ .releaseInLoop ∈ rest) := by
    rintro hbuf hmem (hrequested | hrequested | hrequested)
    · exact hrelease hrequested
    · exact htime hbuf (hcalls ▸ List.mem_cons_of_mem _ hmem) hrequested
    · exact hloop hrequested
  unfold ConnRun.sendInLoop
  dsimp only
  split_ifs with hstatu hout
  · exact hpop
  · exact hpop.append buf hout hlate
  · exact (hpop.monitor { r.conn.events with epollout := true } fun _ => rfl).append buf rfl hlate

/-- A `ShutdownInLoop` begins; its end is still to come. -/
theorem beginShutdown (h : Orderly r) {rest : List Call}
    (hcalls : r.conn.calls = .shutdownInLoop :: rest) :
    Orderly { conn := { r.conn with
                statu := .disconnecting
                calls := .shutdownRest (decide (r.history.shutdowns = 0)) :: rest },
              history := { r.history with shutdowns := r.history.shutdowns + 1 } } := by
  obtain ⟨hnested, hhandlers, hrelease, hloop, -⟩ := h.rest hcalls
  have hpop := h.frame_pop hcalls (by decide)
  exact
    { h with
      nested := nests_cons hnested (fun hcall => by cases hcall) ⟨hrelease, hloop⟩
      handlers := by simpa using hhandlers
      started := fun _ => Nat.succ_pos _
      begun := fun _ _ => Nat.succ_pos _
      ended := by
        intro _ hover
        have hfirst : r.history.shutdowns ≠ 0 := fun hzero =>
          hover (by rw [hzero]; exact List.mem_cons_self)
        exact hpop.ended (Nat.pos_of_ne_zero hfirst) fun hmem =>
          hover (List.mem_cons_of_mem _ hmem)
      requested := by
        intro hrequested
        have hbefore : Requested (r.withCalls rest).conn := by
          rcases hrequested with hmem | hmem | hmem
          · exact Or.inl ((List.mem_cons.mp hmem).resolve_left fun hcall => by cases hcall)
          · exact Or.inr (Or.inl hmem)
          · exact Or.inr (Or.inr ((List.mem_cons.mp hmem).resolve_left fun hcall => by
              cases hcall))
        obtain ⟨hpos, hsent, hempty⟩ := hpop.requested hbefore
        refine ⟨Nat.succ_pos _, hsent, fun hmem => hempty ?_⟩
        -- a release that is asked for rules out that this is the first `ShutdownInLoop`
        have hfirst : decide (r.history.shutdowns = 0) = false :=
          decide_eq_false (Nat.pos_iff_ne_zero.mp hpos)
        rw [hfirst] at hmem
        exact (List.mem_cons.mp hmem).resolve_left (by decide) }

/-- `ShutdownInLoop` up to the callback. -/
theorem shutdownInLoop (h : Orderly r) {rest : List Call}
    (hcalls : r.conn.calls = .shutdownInLoop :: rest) : Orderly (r.shutdownInLoop rest) := by
  obtain ⟨-, -, hrelease, hloop, -⟩ := h.rest hcalls
  have hbegin := h.beginShutdown hcalls
  unfold ConnRun.shutdownInLoop
  rcases handleInput_eq r.conn (.shutdownRest (decide (r.history.shutdowns = 0)) :: rest) with
    hinput | hinput
  · rw [hinput]
    exact hbegin
  · rw [hinput]
    exact hbegin.frame_top .callback trivial (by decide) (by simpa using ⟨hrelease, hloop⟩)

/-- A `ShutdownInLoop` ends, the first one or another. -/
theorem endShutdown (h : Orderly r) {first : Bool} {rest : List Call}
    (hcalls : r.conn.calls = .shutdownRest first :: rest) :
    Orderly { conn := { r.conn with calls := rest },
              history := { r.history with
                atShutdown := if first then some r.history.appended.length
                  else r.history.atShutdown } } := by
  obtain ⟨hnested, hhandlers, hrelease, hloop, -⟩ := h.rest hcalls
  cases first with
  | false => exact h.frame_pop hcalls (by decide)
  | true =>
    have hopen : .shutdownRest true ∈ r.conn.calls := hcalls ▸ List.mem_cons_self
    exact
      { h with
        nested := hnested
        handlers := hhandlers
        begun := fun _ _ => h.begun true hopen
        ended := fun _ _ => rfl
        bounded := fun n hn => (Option.some.inj hn).ge
        requested := by
          intro hrequested
          have hbefore : Requested r.conn := by
            rcases hrequested with hmem | hmem | hmem
            · exact absurd hmem hrelease
            · exact Or.inr (Or.inl hmem)
            · exact absurd hmem hloop
          obtain ⟨hpos, -, hempty⟩ := h.requested hbefore
          refine ⟨hpos, fun n hn => ?_, fun _ => hempty hopen⟩
          rw [← Option.some.inj hn, h.inOrder, hempty hopen, List.append_nil] }

/-- `ShutdownInLoop` behind the callback. -/
theorem shutdownRest (h : Orderly r) {first : Bool} {rest : List Call}
    (hcalls : r.conn.calls = .shutdownRest first :: rest) :
    Orderly (r.shutdownRest first rest) := by
  have hpos := h.begun first (hcalls ▸ List.mem_cons_self)
  obtain ⟨-, -, hrelease, hloop, -⟩ := h.rest hcalls
  have hend := h.endShutdown hcalls
  unfold ConnRun.shutdownRest
  dsimp only
  by_cases hempty : r.conn.obuffer = []
  · rw [if_neg (not_not.mpr hempty)]
    exact hend.ask hempty hpos ⟨hrelease, hloop⟩
  · rw [if_pos hempty, if_neg (not_not.mpr (h.out hempty))]
    exact hend

/-- `ReleaseInLoop` up to the first callback: what had to be sent was sent. -/
theorem releaseInLoop (h : Orderly r) {rest : List Call}
    (hcalls : r.conn.calls = .releaseInLoop :: rest) : Orderly (r.releaseInLoop rest) := by
  obtain ⟨hnested, hhandlers, hrelease, hloop, -⟩ := h.rest hcalls
  obtain ⟨hpos, hsent, hempty⟩ :=
    h.requested (Or.inr (Or.inr (hcalls ▸ List.mem_cons_self)))
  -- the first `ShutdownInLoop` is over, or it still runs and nothing is left to send
  have hdue : r.history.atShutdown.getD r.history.appended.length ≤ r.history.sent.length := by
    cases hshutdown : r.history.atShutdown with
    | some n => exact hsent n hshutdown
    | none =>
      by_cases hopen : .shutdownRest true ∈ r.conn.calls
      · rw [h.inOrder, hempty hopen, List.append_nil]
        exact le_rfl
      · have hended := h.ended hpos hopen
        rw [hshutdown] at hended
        cases hended
  have hopen : .shutdownRest true ∈ (r.releaseInLoop rest).conn.calls ↔
      .shutdownRest true ∈ r.conn.calls := by
    rw [hcalls]
    simp [ConnRun.releaseInLoop]
  exact
    { h with
      registered := by
        intro hnone
        exact absurd hnone (by cases hbefore : r.history.atRelease <;> simp [ConnRun.releaseInLoop,
          hbefore])
      nested := nests_cons (nests_cons hnested (by decide) ⟨hrelease, hloop⟩) (by decide)
        (by simpa using ⟨hrelease, hloop⟩)
      handlers := by simpa [ConnRun.releaseInLoop] using hhandlers
      started := fun hstatu => by cases hstatu
      begun := fun _ _ => hpos
      ended := fun hpos hover => h.ended hpos (mt hopen.mpr hover)
      requested := fun _ => ⟨hpos, hsent, fun hmem => hempty (hopen.mp hmem)⟩
      released := by
        intro due sent hreleased
        cases hbefore : r.history.atRelease with
        | some first =>
          rw [ConnRun.releaseInLoop, hbefore] at hreleased
          exact h.released due sent (hbefore.trans hreleased)
        | none =>
          rw [ConnRun.releaseInLoop, hbefore] at hreleased
          obtain ⟨rfl, rfl⟩ := Prod.mk.inj (Option.some.inj hreleased)
          exact hdue }

/-- The task that runs next leaves the queue. -/
theorem runTask (h : Orderly r) {task : Call} {tasks : List Call} (hcalls : r.conn.calls = [])
    (htasks : r.conn.tasks = task :: tasks) :
    Orderly { r with conn := { r.conn with calls := [task], tasks := tasks } } := by
  have htask : IsTask task := h.tasks task (htasks ▸ List.mem_cons_self)
  have hother : ∀ call, ¬ IsTask call → call ∉ [task] := by
    intro call hcall hmem
    exact hcall (List.mem_singleton.mp hmem ▸ htask)
  exact
    { h with
      nested := List.pairwise_singleton _ _
      handlers := ⟨hother _ id, hother _ id⟩
      tasks := fun task' hmem => h.tasks task' (htasks ▸ List.mem_cons_of_mem _ hmem)
      begun := fun first hmem => absurd hmem (hother _ id)
      ended := fun hpos _ => h.ended hpos (by rw [hcalls]; exact List.not_mem_nil)
      requested := by
        intro hrequested
        have hbefore : Requested r.conn := by
          rcases hrequested with hmem | hmem | hmem
          · exact absurd hmem (hother _ id)
          · exact Or.inr (Or.inl (htasks ▸ List.mem_cons_of_mem _ hmem))
          · exact Or.inr (Or.inl (htasks ▸ List.mem_singleton.mp hmem ▸ List.mem_cons_self))
        obtain ⟨hpos, hsent, -⟩ := h.requested hbefore
        exact ⟨hpos, hsent, fun hmem => absurd hmem (hother _ id)⟩ }

/-- Another task in the queue, which is no release unless one is asked for. -/
theorem enqueue (h : Orderly r) {task : Call} {calls : List Call} (htask : IsTask task)
    (hcalls : Orderly (r.withCalls calls))
    (hrelease : task = .releaseInLoop → Requested r.conn ∧
      (.shutdownRest true ∈ calls → .shutdownRest true ∈ r.conn.calls)) :
    Orderly { r with conn := { r.conn with calls := calls, tasks := r.conn.tasks ++ [task] } } :=
  { hcalls with
    tasks := by
      intro task' hmem
      rcases List.mem_append.mp hmem with hmem | hmem
      · exact h.tasks task' hmem
      · rwa [List.mem_singleton.mp hmem]
    requested := by
      intro hrequested
      by_cases heq : task = .releaseInLoop
      · obtain ⟨hbefore, hopen⟩ := hrelease heq
        obtain ⟨hpos, hsent, hempty⟩ := h.requested hbefore
        exact ⟨hpos, hsent, fun hmem => hempty (hopen hmem)⟩
      · refine hcalls.requested ?_
        rcases hrequested with hmem | hmem | hmem
        · exact Or.inl hmem
        · rcases List.mem_append.mp hmem with hmem | hmem
          · exact Or.inr (Or.inl hmem)
          · exact absurd (List.mem_singleton.mp hmem).symm heq
        · exact Or.inr (Or.inr hmem) }

/-- Code that is not the connection's own runs above no release. -/
theorem notMem_of_idle (h : Orderly r) (hidle : Idle r.conn) :
    .release ∉ r.conn.calls ∧ .releaseInLoop ∉ r.conn.calls := by
  rcases hidle with hcalls | hcalls
  · rw [hcalls]
    exact ⟨List.not_mem_nil, List.not_mem_nil⟩
  · obtain ⟨rest, hcalls⟩ := List.head?_eq_some_iff.mp hcalls
    obtain ⟨-, -, hrelease, hloop, -⟩ := h.rest hcalls
    rw [hcalls]
    simpa using ⟨hrelease, hloop⟩

/-- An event without error and hang-up. -/
theorem event (h : Orderly r) {revents : EventMask} (hcalls : r.conn.calls = [])
    (herr : revents.epollerr = false) (hhup : revents.epollhup = false) :
    Orderly (r.withCalls revents.calls) := by
  have hhandler : ∀ call ∈ revents.calls,
      call = .readHandler ∨ call = .writeHandler ∨ call = .anyHandler := by
    intro call hmem
    rcases mem_calls_event hmem with hcall | hcall | hcall | ⟨-, hset⟩ | ⟨-, hset⟩
    · exact Or.inl hcall
    · exact Or.inr (Or.inl hcall)
    · exact Or.inr (Or.inr hcall)
    · exact absurd (hset.symm.trans herr) (by decide)
    · exact absurd (hset.symm.trans hhup) (by decide)
  refine h.frame rfl rfl ?_ ?_ ?_
  · refine List.pairwise_of_forall_mem_list fun above _ below hbelow => ?_
    rcases hhandler below hbelow with rfl | rfl | rfl <;> exact ⟨fun _ => by decide, by decide⟩
  · intro call hmem
    rcases hhandler call hmem with rfl | rfl | rfl <;> exact Or.inr trivial
  · rw [hcalls]
    exact fun hmem => absurd hmem List.not_mem_nil

/-- **One step.** -/
theorem next (h : Orderly r) {a : Action} (hgraceful : Graceful r a)
    (hstep : r.next a = some r') : Orderly r' := by
  obtain ⟨hundisturbed, htime⟩ := hgraceful
  cases steps_of_next hstep with
  | event revents hcalls hmonitored => exact h.event hcalls hundisturbed.1 hundisturbed.2
  | recv result rest hcalls => exact h.readHandler result hcalls
  | send result rest hcalls hresult =>
    obtain ⟨n, rfl⟩ := Option.ne_none_iff_exists'.mp hundisturbed
    exact h.writeHandler n hcalls
  | errorHandler rest hcalls =>
    exact absurd (hcalls ▸ List.mem_cons_self) h.handlers.1
  | closeHandler rest hcalls =>
    exact absurd (hcalls ▸ List.mem_cons_self) h.handlers.2
  | anyHandler rest hcalls =>
    exact h.frame_push hcalls (by decide) .callback trivial (by decide) r.conn.ibuffer
  | establishedInLoop rest hcalls hstatu => exact h.establishedInLoop hcalls
  | sendInLoop buf rest hcalls =>
    refine h.sendInLoop hcalls fun hbuf => htime ?_
    rwa [appends, hcalls]
  | shutdownInLoop rest hcalls => exact h.shutdownInLoop hcalls
  | shutdownRest first rest hcalls => exact h.shutdownRest hcalls
  | release rest hcalls =>
    exact h.enqueue trivial (h.frame_pop hcalls (by decide)) fun _ =>
      ⟨Or.inl (hcalls ▸ List.mem_cons_self), fun hmem => hcalls ▸ List.mem_cons_of_mem _ hmem⟩
  | releaseInLoop rest hcalls => exact h.releaseInLoop hcalls
  | releaseRest rest hcalls =>
    exact { h.frame_pop hcalls (by decide) with }
  | «return» rest hcalls => exact h.frame_pop hcalls (by decide)
  | invoke op hidle =>
    cases op with
    | send buf =>
      exact h.frame_top (.sendInLoop buf) trivial (fun hcall => by cases hcall)
        (h.notMem_of_idle hidle)
    | shutdown => exact h.frame_top .shutdownInLoop trivial (by decide) (h.notMem_of_idle hidle)
    | release => exact absurd rfl hundisturbed
  | consume len hidle =>
    exact h.frame rfl rfl h.nested (fun call hmem => Or.inl hmem) id
  | post op =>
    cases op with
    | send buf => exact h.enqueue trivial h fun hcall => by cases hcall
    | shutdown => exact h.enqueue trivial h fun hcall => by cases hcall
    | release => exact absurd rfl hundisturbed
  | runTask task tasks hcalls htasks => exact h.runTask hcalls htasks

end Orderly

/-! ## Runs -/

/-- **Sent before released.**  In a run without errors in which the first `ShutdownInLoop`
appends nothing once the release is asked for, the channel monitors `EPOLLOUT` while bytes
are left, and what was appended up to the end of that `ShutdownInLoop` is sent, in order and
once, before `ReleaseInLoop` runs. -/
theorem sendsFirst_of_graceful {r : ConnRun} (h : system.ReachableBy Graceful r) :
    r.SendsFirst := by
  refine Orderly.sendsFirst (ReachableBy.invariant ?_ ?_ h)
  · rintro r rfl
    exact orderly_start
  · exact fun r a r' hr hgraceful hstep => hr.next hgraceful hstep

/-- A request that the callback leaves in `ibuffer`. -/
def request : List Action :=
  [.runTask, .call, .return, .event { epollin := true }, .recv (some [1]), .return, .call, .return]

/-- The callback inside `ShutdownInLoop` answers the request with three bytes, and `send`
takes two of them first. -/
def answered : List Action :=
  request ++ ([.invoke .shutdown, .call, .consume 1, .invoke (.send [7, 8, 9]), .call, .return,
    .call, .event { epollout := true }, .send (some 2), .call, .return,
    .event { epollout := true }, .send (some 1), .call, .call, .return, .runTask, .call] :
    List Action)

/-- The three bytes are sent before the release. -/
theorem sendsFirst_answered :
    ∃ r : ConnRun, system.ReachableBy Graceful r ∧ r.history.sent = [7, 8, 9] ∧
      r.history.atRelease = some (3, 3) ∧ r.SendsFirst := by
  have hrun : ∃ r ∈ runFrom next Graceful start answered,
      r.history.sent = [7, 8, 9] ∧ r.history.atRelease = some (3, 3) := by decide +kernel
  obtain ⟨r, hreach, hsent, hrelease⟩ := exists_of_runFrom hrun
  exact ⟨r, hreach, hsent, hrelease, sendsFirst_of_graceful hreach⟩

/-- The callback inside `ShutdownInLoop` shuts down again, which asks for the release while
`obuffer` is empty, and then answers the request. -/
def lateAnswer : List Action :=
  request ++ ([.invoke .shutdown, .call, .consume 1, .invoke .shutdown, .call, .call, .call,
    .invoke (.send [7, 8, 9]), .call, .return, .call, .runTask, .call] : List Action)

/-- The connection is released before the three bytes are sent. -/
theorem not_sendsFirst_lateAnswer :
    ∃ r : ConnRun, system.ReachableBy (fun _ a => Undisturbed a) r ∧ r.history.sent = [] ∧
      r.history.atRelease = some (3, 0) ∧ ¬ r.SendsFirst := by
  have hrun : ∃ r ∈ runFrom next (fun _ a => Undisturbed a) start lateAnswer,
      r.history.sent = [] ∧ r.history.atRelease = some (3, 0) := by decide +kernel
  obtain ⟨r, hreach, hsent, hrelease⟩ := exists_of_runFrom hrun
  exact ⟨r, hreach, hsent, hrelease, fun h => absurd (h.released 3 0 hrelease) (by decide)⟩

end ConnRun

end Reactor
