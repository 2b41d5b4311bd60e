/-
# The registry of a server

`TcpServer` keeps a `ConnectionPtr` in `conns_` for each connection.  The thread of the main
reactor inserts it behind `Established`, when the connection may run on its own loop already, and
erases it in a task that the last line of `ReleaseInLoop` puts into its queue.  All other tasks are
bound to a bare `this`: the registry is what keeps a connection alive.
-/
import FastServer.ConnectionRelease

open TransitionSystem

namespace Reactor

/-! ## State -/

/-- The server.  `conn` are the connections by their number, and `creating` the one that
`NewConnection` has not inserted yet; `erasing` are the calls of `ReleaseConnectionInLoop` in the
queue of the main reactor, each with a `ConnectionPtr`.  The user keeps a `ConnectionPtr` to those
that are `held`.  `usedFreed` is history: a call was made on a connection that is destroyed. -/
structure TcpServer where
  next_connid_ : ℕ
  conn : ℕ → ConnRun
  creating : Option ℕ
  conns_ : ℕ → Bool
  erasing : List ℕ
  held : ℕ → Bool
  usedFreed : Bool

namespace TcpServer

/-- The server before any connection. -/
def start : TcpServer :=
  ⟨0, fun _ => ConnRun.start, none, fun _ => false, [], fun _ => false, false⟩

/-- The number was given to a connection. -/
def Created (s : TcpServer) (c : ℕ) : Prop := 1 ≤ c ∧ c ≤ s.next_connid_

/-- There is a `ConnectionPtr`: in `conns_`, in `NewConnection`, kept by the user, in a task, or
handed to a callback that runs. -/
def Alive (s : TcpServer) (c : ℕ) : Prop :=
  s.conns_ c = true ∨ s.creating = some c ∨ s.held c = true ∨ c ∈ s.erasing ∨
    .callback ∈ (s.conn c).conn.calls

instance (s : TcpServer) (c : ℕ) : Decidable (s.Created c) := inferInstanceAs (Decidable (_ ∧ _))

instance (s : TcpServer) (c : ℕ) : Decidable (s.Alive c) :=
  inferInstanceAs (Decidable (_ ∨ _ ∨ _ ∨ _ ∨ _))

/-- Code outside the connection needs a `ConnectionPtr` to call it, in a callback or kept; only the
inactivity timer has none, and `ReleaseInLoop` cancels it. -/
def MayCall (s : TcpServer) (c : ℕ) : Reactor.Action → Prop
  | .post _ => s.held c = true
  | .invoke op => (s.conn c).conn.calls ≠ [] ∨ s.held c = true ∨
      (op = .release ∧ .removeChannel ∉ (s.conn c).history.effects)
  | .consume _ => (s.conn c).conn.calls ≠ [] ∨ s.held c = true
  | _ => True

instance (s : TcpServer) (c : ℕ) : (a : Reactor.Action) → Decidable (s.MayCall c a)
  | .post _ => inferInstanceAs (Decidable (_ = _))
  | .invoke _ => inferInstanceAs (Decidable (_ ∨ _ ∨ _))
  | .consume _ => inferInstanceAs (Decidable (_ ∨ _))
  | .event _ | .recv _ | .send _ | .call | .return | .runTask => isTrue trivial

/-! ## Steps -/

/-- The steps: `NewConnection` up to `Established`, its last line, a step of a connection,
`ReleaseConnectionInLoop`, and the user who copies or drops a `ConnectionPtr`. -/
inductive Action
  | accept
  | insert
  | conn (c : ℕ) (a : Reactor.Action)
  | erase
  | keep (c : ℕ)
  | drop (c : ℕ)

/-- The step is the last line of `ReleaseInLoop`. -/
def closes (r : ConnRun) : Reactor.Action → Bool
  | .call => r.conn.calls.head? = some .releaseRest
  | _ => false

/-- `NewConnection` up to `Established`. -/
def newConnection (s : TcpServer) : TcpServer :=
  { s with
    next_connid_ := s.next_connid_ + 1
    conn := Function.update s.conn (s.next_connid_ + 1) ConnRun.start
    creating := some (s.next_connid_ + 1) }

/-- A connection goes on; the last line of `ReleaseInLoop` asks for `ReleaseConnectionInLoop`. -/
def goOn (s : TcpServer) (c : ℕ) (a : Reactor.Action) (r : ConnRun) : TcpServer :=
  { s with
    conn := Function.update s.conn c r
    erasing := if closes (s.conn c) a then s.erasing ++ [c] else s.erasing }

/-- A step of a connection, which is not to be destroyed. -/
def stepConn (s : TcpServer) (c : ℕ) (a : Reactor.Action) : Option TcpServer :=
  if s.Created c ∧ s.MayCall c a then
    ((s.conn c).next a).map fun r =>
      if s.Alive c then s.goOn c a r else { s with usedFreed := true }
  else none

/-- The state after a step, if it is enabled.  The main reactor runs its tasks when it is not in
`NewConnection`. -/
def next (s : TcpServer) (action : Action) : Option TcpServer :=
  if s.usedFreed then none
  else
    match action with
    | .accept => if s.creating = none then some s.newConnection else none
    | .insert =>
        s.creating.map fun c =>
          { s with conns_ := Function.update s.conns_ c true, creating := none }
    | .conn c a => s.stepConn c a
    | .erase =>
        match s.erasing with
        | c :: rest =>
            if s.creating = none then
              some { s with conns_ := Function.update s.conns_ c false, erasing := rest }
            else none
        | [] => none
    | .keep c =>
        if s.Created c ∧ .callback ∈ (s.conn c).conn.calls then
          some { s with held := Function.update s.held c true }
        else none
    | .drop c => if s.held c then some { s with held := Function.update s.held c false } else none

/-- The runs of a server. -/
def system : TransitionSystem TcpServer Action := .ofFunction start next

/-- What a step is. -/
inductive Turn (s : TcpServer) : Action → TcpServer → Prop
  | accept : s.creating = none → Turn s .accept s.newConnection
  | insert (c : ℕ) : s.creating = some c →
      Turn s .insert { s with conns_ := Function.update s.conns_ c true, creating := none }
  | conn (c : ℕ) (a : Reactor.Action) (r : ConnRun) : s.Created c → s.MayCall c a → s.Alive c →
      (s.conn c).Steps a r → Turn s (.conn c a) (s.goOn c a r)
  | useFreed (c : ℕ) (a : Reactor.Action) (r : ConnRun) : s.Created c → s.MayCall c a →
      ¬ s.Alive c → (s.conn c).Steps a r → Turn s (.conn c a) { s with usedFreed := true }
  | erase (c : ℕ) (rest : List ℕ) : s.erasing = c :: rest → s.creating = none →
      Turn s .erase { s with conns_ := Function.update s.conns_ c false, erasing := rest }
  | keep (c : ℕ) : s.Created c → .callback ∈ (s.conn c).conn.calls →
      Turn s (.keep c) { s with held := Function.update s.held c true }
  | drop (c : ℕ) : s.held c = true →
      Turn s (.drop c) { s with held := Function.update s.held c false }

variable {s s' : TcpServer} {action : Action} {c : ℕ}

theorem turn_of_next (h : s.next action = some s') : Turn s action s' := by
  unfold next at h
  by_cases hfreed : s.usedFreed = true
  · rw [if_pos hfreed] at h
    cases h
  rw [if_neg hfreed] at h
  cases action with
  | accept =>
    dsimp only at h
    split_ifs at h with hcreating
    exact Option.some.inj h ▸ .accept hcreating
  | insert =>
    obtain ⟨c, hc, rfl⟩ := Option.map_eq_some_iff.mp h
    exact .insert c hc
  | conn c a =>
    have h : s.stepConn c a = some s' := h
    unfold stepConn at h
    split_ifs at h with hmay halive
    · obtain ⟨r, hr, rfl⟩ := Option.map_eq_some_iff.mp h
      exact .conn c a r hmay.1 hmay.2 halive (ConnRun.steps_of_next hr)
    · obtain ⟨r, hr, rfl⟩ := Option.map_eq_some_iff.mp h
      exact .useFreed c a r hmay.1 hmay.2 halive (ConnRun.steps_of_next hr)
  | erase =>
    dsimp only at h
    split at h
    · rename_i c rest herasing
      split_ifs at h with hcreating
      exact Option.some.inj h ▸ .erase c rest herasing hcreating
    · cases h
  | keep c =>
    dsimp only at h
    split_ifs at h with hkeep
    exact Option.some.inj h ▸ .keep c hkeep.1 hkeep.2
  | drop c =>
    dsimp only at h
    split_ifs at h with hheld
    exact Option.some.inj h ▸ .drop c hheld

/-! ## The registry -/

/-- `ReleaseInLoop` ran to its end. -/
def Closed (s : TcpServer) (c : ℕ) : Prop :=
  .serverCloseCallback ∈ (s.conn c).history.effects

/-- `conns_` holds the connection, or will. -/
def InRegistry (s : TcpServer) (c : ℕ) : Prop := s.conns_ c = true ∨ s.creating = some c

/-- A connection is in the registry until it has closed, and then until it is erased. -/
structure Registered (s : TcpServer) : Prop where
  created : ∀ c, s.InRegistry c → s.Created c
  kept : ∀ c, s.Created c → ¬ s.Closed c → s.InRegistry c
  leaving : ∀ c, s.InRegistry c → s.Closed c → c ∈ s.erasing
  closed : ∀ c ∈ s.erasing, s.Created c ∧ s.Closed c

/-- Only the last line of `ReleaseInLoop` calls the server. -/
theorem closed_of_steps {r r' : ConnRun} {a : Reactor.Action} (h : r.Steps a r') :
    .serverCloseCallback ∈ r'.history.effects
      ↔ .serverCloseCallback ∈ r.history.effects ∨ closes r a = true := by
  cases h with
  | releaseRest rest hcalls =>
    simp [closes, hcalls, ConnRun.releaseRest]
  | releaseInLoop rest hcalls =>
    simp only [closes, hcalls, ConnRun.releaseInLoop]
    split_ifs <;> simp
  | recv result rest hcalls =>
    unfold ConnRun.readHandler
    split <;> simp [closes]
  | send result rest hcalls _ =>
    unfold ConnRun.writeHandler
    split
    · simp [closes]
    · dsimp only
      split_ifs <;> simp [closes]
  | sendInLoop buf rest hcalls =>
    unfold ConnRun.sendInLoop
    dsimp only
    split_ifs <;> simp [closes, hcalls]
  | shutdownInLoop rest hcalls => simp [closes, hcalls, ConnRun.shutdownInLoop]
  | shutdownRest first rest hcalls => simp [closes, hcalls, ConnRun.shutdownRest]
  | establishedInLoop rest hcalls _ => simp [closes, hcalls, ConnRun.establishedInLoop]
  | errorHandler rest hcalls => simp [closes, hcalls]
  | closeHandler rest hcalls => simp [closes, hcalls]
  | anyHandler rest hcalls => simp [closes, hcalls]
  | release rest hcalls => simp [closes, hcalls]
  | _ => simp [closes]

theorem registered_start : start.Registered where
  created := by
    rintro c (h | h)
    · cases h
    · cases h
  kept := fun c h => absurd (h.1.trans h.2) (by decide)
  leaving := by
    rintro c (h | h)
    · cases h
    · cases h
  closed := fun c h => absurd h List.not_mem_nil

/-- A new connection has not closed, and the others are as they were. -/
theorem closed_newConnection :
    s.newConnection.Closed c ↔ c ≠ s.next_connid_ + 1 ∧ s.Closed c := by
  show Effect.serverCloseCallback ∈
    (Function.update s.conn (s.next_connid_ + 1) ConnRun.start c).history.effects ↔ _
  by_cases hc : c = s.next_connid_ + 1
  · rw [hc, Function.update_self]
    simp [ConnRun.start]
  · rw [Function.update_of_ne hc]
    simp [Closed, hc]

theorem created_newConnection :
    s.newConnection.Created c ↔ c = s.next_connid_ + 1 ∨ s.Created c := by
  show 1 ≤ c ∧ c ≤ s.next_connid_ + 1 ↔ _ ∨ 1 ≤ c ∧ c ≤ s.next_connid_
  omega

theorem Created.ne (h : s.Created c) : c ≠ s.next_connid_ + 1 := by
  have hle := h.2
  omega

theorem Registered.newConnection (h : s.Registered) (hcreating : s.creating = none) :
    s.newConnection.Registered where
  created := by
    rintro c (hc | hc)
    · exact created_newConnection.mpr (Or.inr (h.created c (Or.inl hc)))
    · exact created_newConnection.mpr (Or.inl (Option.some.inj hc).symm)
  kept := by
    intro c hcreated hopen
    rcases created_newConnection.mp hcreated with rfl | hcreated
    · exact Or.inr rfl
    · rcases h.kept c hcreated fun hc => hopen (closed_newConnection.mpr ⟨hcreated.ne, hc⟩)
        with hin | hin
      · exact Or.inl hin
      · rw [hcreating] at hin
        cases hin
  leaving := by
    rintro c (hc | hc) hclosed
    · exact h.leaving c (Or.inl hc) (closed_newConnection.mp hclosed).2
    · exact absurd (Option.some.inj hc).symm (closed_newConnection.mp hclosed).1
  closed := by
    intro c hc
    obtain ⟨hcreated, hclosed⟩ := h.closed c hc
    exact ⟨created_newConnection.mpr (Or.inr hcreated),
      closed_newConnection.mpr ⟨hcreated.ne, hclosed⟩⟩

/-- `conns_[next_connid_] = conn` changes nothing: the connection was kept by `NewConnection`. -/
theorem Registered.insert (h : s.Registered) (hcreating : s.creating = some c) :
    Registered { s with conns_ := Function.update s.conns_ c true, creating := none } := by
  have hin : ∀ d, InRegistry
      { s with conns_ := Function.update s.conns_ c true, creating := none } d
        ↔ s.InRegistry d := by
    intro d
    unfold InRegistry
    rw [hcreating]
    by_cases hd : d = c
    · simp [hd]
    · simp [hd, Ne.symm hd]
  exact ⟨fun d hd => h.created d ((hin d).mp hd), fun d hd hopen => (hin d).mpr (h.kept d hd hopen),
    fun d hd => h.leaving d ((hin d).mp hd), h.closed⟩

/-- `ReleaseConnectionInLoop`. -/
theorem Registered.erase (h : s.Registered) {rest : List ℕ} (herasing : s.erasing = c :: rest)
    (hcreating : s.creating = none) :
    Registered { s with conns_ := Function.update s.conns_ c false, erasing := rest } := by
  have hin : ∀ d, InRegistry
      { s with conns_ := Function.update s.conns_ c false, erasing := rest } d
        ↔ d ≠ c ∧ s.InRegistry d := by
    intro d
    unfold InRegistry
    rw [hcreating]
    by_cases hd : d = c
    · simp [hd]
    · simp [hd]
  refine ⟨fun d hd => h.created d ((hin d).mp hd).2, ?_, ?_, ?_⟩
  · intro d hcreated hopen
    refine (hin d).mpr ⟨?_, h.kept d hcreated hopen⟩
    rintro rfl
    exact hopen (h.closed d (by rw [herasing]; exact List.mem_cons_self)).2
  · intro d hd hclosed
    obtain ⟨hne, hd⟩ := (hin d).mp hd
    have hmem := h.leaving d hd hclosed
    rw [herasing] at hmem
    exact (List.mem_cons.mp hmem).resolve_left hne
  · intro d hd
    exact h.closed d (by rw [herasing]; exact List.mem_cons_of_mem _ hd)

/-- A connection that goes on. -/
theorem Registered.goOn (h : s.Registered) (hcreated : s.Created c) {a : Reactor.Action}
    {r : ConnRun} (hstep : (s.conn c).Steps a r) : (s.goOn c a r).Registered := by
  -- what the step closes, and what was closed before, is closed
  have hclosed : ∀ d, (s.goOn c a r).Closed d
      ↔ s.Closed d ∨ d = c ∧ closes (s.conn c) a = true := by
    intro d
    show Effect.serverCloseCallback ∈ (Function.update s.conn c r d).history.effects ↔ _
    by_cases hd : d = c
    · subst hd
      rw [Function.update_self, closed_of_steps hstep]
      simp [Closed]
    · rw [Function.update_of_ne hd]
      simp [Closed, hd]
  have herasing : ∀ d, d ∈ (s.goOn c a r).erasing
      ↔ d ∈ s.erasing ∨ d = c ∧ closes (s.conn c) a = true := by
    intro d
    show d ∈ (if closes (s.conn c) a then s.erasing ++ [c] else s.erasing) ↔ _
    split_ifs with hcloses <;> simp [hcloses]
  refine ⟨h.created, ?_, ?_, ?_⟩
  · intro d hcreated hopen
    exact h.kept d hcreated fun hd => hopen ((hclosed d).mpr (Or.inl hd))
  · intro d hd hclose
    exact (herasing d).mpr (((hclosed d).mp hclose).imp (h.leaving d hd) id)
  · intro d hd
    rcases (herasing d).mp hd with hbefore | ⟨rfl, hnow⟩
    · exact ⟨(h.closed d hbefore).1, (hclosed d).mpr (Or.inl (h.closed d hbefore).2)⟩
    · exact ⟨hcreated, (hclosed d).mpr (Or.inr ⟨rfl, hnow⟩)⟩

/-- **A step** keeps the registry. -/
theorem Registered.turn (h : s.Registered) (hturn : Turn s action s') : s'.Registered := by
  cases hturn with
  | accept hcreating => exact h.newConnection hcreating
  | insert c hcreating => exact h.insert hcreating
  | conn c a r hcreated _ _ hstep => exact h.goOn hcreated hstep
  | useFreed c a r _ _ _ _ => exact ⟨h.created, h.kept, h.leaving, h.closed⟩
  | erase c rest herasing hcreating => exact h.erase herasing hcreating
  | keep c _ _ => exact ⟨h.created, h.kept, h.leaving, h.closed⟩
  | drop c _ => exact ⟨h.created, h.kept, h.leaving, h.closed⟩

theorem registered_of_reachable (h : system.Reachable s) : s.Registered := by
  apply h.invariant
  · rintro s rfl
    exact registered_start
  · intro s a s' hs hstep
    exact hs.turn (turn_of_next hstep)

/-- **The registry is exact.**  Whatever the loops and the user do, and whenever a connection is
released, also before `NewConnection` inserts it: when the main reactor has run its tasks, `conns_`
holds the connections that have not closed, and no other. -/
theorem conns_iff (h : system.Reachable s) (hcreating : s.creating = none)
    (herasing : s.erasing = []) (c : ℕ) : s.conns_ c = true ↔ s.Created c ∧ ¬ s.Closed c := by
  have hreg := registered_of_reachable h
  constructor
  · intro hc
    refine ⟨hreg.created c (Or.inl hc), fun hclosed => ?_⟩
    have hmem := hreg.leaving c (Or.inl hc) hclosed
    rw [herasing] at hmem
    exact List.not_mem_nil hmem
  · rintro ⟨hcreated, hopen⟩
    rcases hreg.kept c hcreated hopen with hc | hc
    · exact hc
    · rw [hcreating] at hc
      cases hc

/-! ## A release -/

/-- `ReleaseInLoop` has begun. -/
def Released (r : ConnRun) : Prop := .removeChannel ∈ r.history.effects

instance (r : ConnRun) : Decidable (Released r) := inferInstanceAs (Decidable (_ ∈ _))

/-- The call is neither `ReleaseInLoop` nor its rest. -/
def Plain (call : Call) : Prop := call ≠ .releaseInLoop ∧ call ≠ .releaseRest

instance (call : Call) : Decidable (Plain call) := inferInstanceAs (Decidable (_ ∧ _))

/-- `ReleaseInLoop` runs with nothing below it; behind it the socket is closed, and nothing runs
any more. -/
structure Proper (r : ConnRun) : Prop where
  last : ∀ call ∈ r.conn.calls.dropLast, Plain call
  tasks : .releaseRest ∉ r.conn.tasks
  before : ¬ Released r →
    .releaseRest ∉ r.conn.calls ∧ .serverCloseCallback ∉ r.history.effects
  socket : Released r → r.conn.fdOpen = false ∧ r.conn.monitored = none
  after : Released r → .releaseInLoop ∉ r.conn.calls ∧
    (r.conn.calls = [] ∨ .serverCloseCallback ∉ r.history.effects ∧ .releaseRest ∈ r.conn.calls)

/-- A step that neither begins nor ends a release: it takes at most one call off, and puts others
on; calls come from nowhere only with an event, a task or code outside the connection. -/
structure Ordinary (r : ConnRun) (a : Reactor.Action) (r' : ConnRun) : Prop where
  calls : ∃ popped pushed rest, r.conn.calls = popped ++ rest ∧ r'.conn.calls = pushed ++ rest ∧
    popped.length ≤ 1 ∧ (∀ call ∈ popped, Plain call) ∧ ∀ call ∈ pushed, Plain call
  tasks : ∀ call ∈ r'.conn.tasks, call ∈ r.conn.tasks ∨ call ≠ .releaseRest
  effects : r'.history.effects = r.history.effects
  fdOpen : r'.conn.fdOpen = r.conn.fdOpen
  monitored : r.conn.fdOpen = false → r'.conn.monitored = r.conn.monitored
  idle : r.conn.calls = [] → r'.conn.calls = [] ∨ r.conn.monitored.isSome ∨ ∃ op, a = .invoke op

variable {r r' : ConnRun} {a : Reactor.Action}

/-- A call is taken off, and others take its place. -/
theorem Ordinary.of_pop (pushed : List Call) {call : Call} {rest : List Call}
    (hcalls : r.conn.calls = call :: rest) (hcall : Plain call)
    (hcalls' : r'.conn.calls = pushed ++ rest) (hpushed : ∀ call ∈ pushed, Plain call)
    (htasks : ∀ call ∈ r'.conn.tasks, call ∈ r.conn.tasks ∨ call ≠ .releaseRest)
    (heffects : r'.history.effects = r.history.effects)
    (hfdOpen : r'.conn.fdOpen = r.conn.fdOpen)
    (hmonitored : r.conn.fdOpen = false → r'.conn.monitored = r.conn.monitored) :
    Ordinary r a r' where
  calls := by
    refine ⟨[call], pushed, rest, hcalls, hcalls', le_rfl, ?_, hpushed⟩
    intro c hc
    rw [List.mem_singleton.mp hc]
    exact hcall
  tasks := htasks
  effects := heffects
  fdOpen := hfdOpen
  monitored := hmonitored
  idle := by
    intro h
    rw [hcalls] at h
    cases h

theorem plain_event (revents : EventMask) : ∀ call ∈ revents.calls, Plain call := by
  intro call hcall
  rcases ConnRun.mem_calls_event hcall with rfl | rfl | rfl | ⟨rfl, -⟩ | ⟨rfl, -⟩ <;>
    exact by decide

/-- What `handleInput` puts in front. -/
theorem handleInput_append (c : Connection) (pushed rest : List Call)
    (h : ∀ call ∈ pushed, Plain call) :
    ∃ front, ConnRun.handleInput c (pushed ++ rest) = front ++ rest ∧
      ∀ call ∈ front, Plain call := by
  rcases ConnRun.handleInput_eq c (pushed ++ rest) with heq | heq
  · exact ⟨pushed, heq, h⟩
  · refine ⟨.callback :: pushed, heq, ?_⟩
    intro call hcall
    rcases List.mem_cons.mp hcall with rfl | hcall
    · decide
    · exact h call hcall

/-- A socket that is closed is not monitored again. -/
theorem monitored_updateEventMonitor {c : Connection} (h : c.fdOpen = false) :
    c.updateEventMonitor.monitored = c.monitored := by
  simp [Connection.updateEventMonitor, h]

/-- **What a step is**: an ordinary one, the next task, `ReleaseInLoop` or its rest. -/
theorem kind_of_steps (h : r.Steps a r') :
    Ordinary r a r' ∨
    (∃ task tasks, a = .runTask ∧ r.conn.calls = [] ∧ r.conn.tasks = task :: tasks ∧
      r' = { r with conn := { r.conn with calls := [task], tasks := tasks } }) ∨
    (∃ rest, r.conn.calls = .releaseInLoop :: rest ∧ r' = r.releaseInLoop rest) ∨
    (∃ rest, r.conn.calls = .releaseRest :: rest ∧ r' = r.releaseRest rest) := by
  cases h with
  | runTask task tasks hcalls htasks =>
    exact Or.inr (Or.inl ⟨task, tasks, rfl, hcalls, htasks, rfl⟩)
  | releaseInLoop rest hcalls => exact Or.inr (Or.inr (Or.inl ⟨rest, hcalls, rfl⟩))
  | releaseRest rest hcalls => exact Or.inr (Or.inr (Or.inr ⟨rest, hcalls, rfl⟩))
  | event revents hcalls hmonitored =>
    exact Or.inl ⟨⟨[], revents.calls, [], hcalls, (List.append_nil _).symm, Nat.zero_le _,
      by simp, plain_event revents⟩, fun _ h => Or.inl h, rfl, rfl, fun _ => rfl,
      fun _ => Or.inr (Or.inl hmonitored)⟩
  | invoke op hidle =>
    have hplain : Plain op.call := by cases op <;> exact ⟨Call.noConfusion, Call.noConfusion⟩
    exact Or.inl ⟨⟨[], [op.call], r.conn.calls, rfl, rfl, Nat.zero_le _, by simp,
      by simpa using hplain⟩, fun _ h => Or.inl h, rfl, rfl, fun _ => rfl,
      fun _ => Or.inr (Or.inr ⟨op, rfl⟩)⟩
  | consume len hidle =>
    exact Or.inl ⟨⟨[], [], r.conn.calls, rfl, rfl, Nat.zero_le _, by simp, by simp⟩,
      fun _ h => Or.inl h, rfl, rfl, fun _ => rfl, fun h => Or.inl h⟩
  | post op =>
    refine Or.inl ⟨⟨[], [], r.conn.calls, rfl, rfl, Nat.zero_le _, by simp, by simp⟩,
      ?_, rfl, rfl, fun _ => rfl, fun h => Or.inl h⟩
    intro call hcall
    refine (List.mem_append.mp hcall).imp id fun hnew => ?_
    rw [List.mem_singleton.mp hnew]
    cases op <;> exact Call.noConfusion
  | recv result rest hcalls =>
    refine Or.inl ?_
    unfold ConnRun.readHandler
    split
    · exact .of_pop [.shutdownInLoop] hcalls (by decide) rfl (by decide) (fun _ h => Or.inl h) rfl
        rfl fun _ => rfl
    · exact .of_pop [] hcalls (by decide) rfl (by decide) (fun _ h => Or.inl h) rfl rfl fun _ => rfl
    · exact .of_pop [.callback] hcalls (by decide) rfl (by decide) (fun _ h => Or.inl h) rfl rfl
        fun _ => rfl
  | send result rest hcalls _ =>
    refine Or.inl ?_
    unfold ConnRun.writeHandler
    split
    · obtain ⟨front, hfront, hplain⟩ := handleInput_append r.conn [.release] rest (by decide)
      exact .of_pop front hcalls (by decide) hfront hplain (fun _ h => Or.inl h) rfl rfl
        fun _ => rfl
    · dsimp only
      split_ifs
      · exact .of_pop [.release] hcalls (by decide) rfl (by decide) (fun _ h => Or.inl h) rfl rfl
          fun h => monitored_updateEventMonitor h
      · exact .of_pop [] hcalls (by decide) rfl (by decide) (fun _ h => Or.inl h) rfl rfl
          fun h => monitored_updateEventMonitor h
      · exact .of_pop [] hcalls (by decide) rfl (by decide) (fun _ h => Or.inl h) rfl rfl
          fun _ => rfl
  | errorHandler rest hcalls =>
    exact Or.inl (.of_pop [.release] hcalls (by decide) rfl (by decide) (fun _ h => Or.inl h) rfl
      rfl fun _ => rfl)
  | closeHandler rest hcalls =>
    obtain ⟨front, hfront, hplain⟩ := handleInput_append r.conn [.release] rest (by decide)
    exact Or.inl (.of_pop front hcalls (by decide) hfront hplain (fun _ h => Or.inl h) rfl rfl
      fun _ => rfl)
  | anyHandler rest hcalls =>
    exact Or.inl (.of_pop [.callback] hcalls (by decide) rfl (by decide) (fun _ h => Or.inl h) rfl
      rfl fun _ => rfl)
  | establishedInLoop rest hcalls _ =>
    exact Or.inl (.of_pop [.callback] hcalls (by decide) rfl (by decide) (fun _ h => Or.inl h) rfl
      rfl fun h => monitored_updateEventMonitor h)
  | sendInLoop buf rest hcalls =>
    have hcall : Plain (.sendInLoop buf) := ⟨Call.noConfusion, Call.noConfusion⟩
    refine Or.inl ?_
    unfold ConnRun.sendInLoop
    dsimp only
    split_ifs
    · exact .of_pop [] hcalls hcall rfl (by decide) (fun _ h => Or.inl h) rfl rfl fun _ => rfl
    · exact .of_pop [] hcalls hcall rfl (by decide) (fun _ h => Or.inl h) rfl rfl fun _ => rfl
    · exact .of_pop [] hcalls hcall rfl (by decide) (fun _ h => Or.inl h) rfl rfl
        fun h => monitored_updateEventMonitor h
  | shutdownInLoop rest hcalls =>
    obtain ⟨front, hfront, hplain⟩ := handleInput_append r.conn
      [.shutdownRest (decide (r.history.shutdowns = 0))] rest (by simp [Plain])
    exact Or.inl (.of_pop front hcalls (by decide) hfront hplain (fun _ h => Or.inl h) rfl rfl
      fun _ => rfl)
  | shutdownRest first rest hcalls =>
    have hcall : Plain (.shutdownRest first) := ⟨Call.noConfusion, Call.noConfusion⟩
    refine Or.inl ?_
    unfold ConnRun.shutdownRest
    dsimp only
    by_cases hout : r.conn.obuffer ≠ []
    · rw [if_pos hout]
      by_cases hwriter : ¬ r.conn.events.epollout = true
      · rw [if_pos hwriter]
        exact .of_pop [] hcalls hcall rfl (by decide) (fun _ h => Or.inl h) rfl rfl
          fun h => monitored_updateEventMonitor h
      · rw [if_neg hwriter]
        exact .of_pop [] hcalls hcall rfl (by decide) (fun _ h => Or.inl h) rfl rfl fun _ => rfl
    · rw [if_neg hout]
      exact .of_pop [.release] hcalls hcall rfl (by decide) (fun _ h => Or.inl h) rfl rfl
        fun _ => rfl
  | release rest hcalls =>
    refine Or.inl (.of_pop [] hcalls (by decide) rfl (by decide) ?_ rfl rfl fun _ => rfl)
    intro call hcall
    refine (List.mem_append.mp hcall).imp id fun hnew => ?_
    rw [List.mem_singleton.mp hnew]
    decide
  | «return» rest hcalls =>
    exact Or.inl (.of_pop [] hcalls (by decide) rfl (by decide) (fun _ h => Or.inl h) rfl rfl
      fun _ => rfl)

theorem proper_start : Proper ConnRun.start where
  last := by decide
  tasks := by decide
  before := by decide
  socket := by decide
  after := by decide

/-- Behind `ReleaseInLoop` no task is taken off the queue, and no code outside the connection calls
it. -/
def BeforeRelease (r : ConnRun) : Reactor.Action → Prop
  | .runTask => ¬ Released r
  | .invoke _ => r.conn.calls = [] → ¬ Released r
  | _ => True

instance (r : ConnRun) : (a : Reactor.Action) → Decidable (BeforeRelease r a)
  | .runTask => inferInstanceAs (Decidable (¬ _))
  | .invoke _ => inferInstanceAs (Decidable (_ → _))
  | .event _ | .recv _ | .send _ | .call | .return | .consume _ | .post _ => isTrue trivial

/-- Nothing runs below a release. -/
theorem Proper.eq_nil (h : Proper r) {call : Call} {rest : List Call}
    (hcalls : r.conn.calls = call :: rest) (hcall : ¬ Plain call) : rest = [] := by
  by_contra hrest
  refine hcall (h.last call ?_)
  rw [hcalls, List.dropLast_cons_of_ne_nil hrest]
  exact List.mem_cons_self

/-- An ordinary step. -/
theorem Proper.ordinary (h : Proper r) (hok : BeforeRelease r a) (hstep : Ordinary r a r') :
    Proper r' := by
  obtain ⟨popped, pushed, rest, hcalls, hcalls', -, hpopped, hpushed⟩ := hstep.calls
  have hmem : ∀ call, ¬ Plain call → (call ∈ r'.conn.calls ↔ call ∈ r.conn.calls) := by
    intro call hcall
    have hpop : call ∉ popped := fun hin => hcall (hpopped call hin)
    have hpush : call ∉ pushed := fun hin => hcall (hpushed call hin)
    simp [hcalls, hcalls', hpop, hpush]
  have hreleased : Released r' ↔ Released r := by rw [Released, Released, hstep.effects]
  refine ⟨?_, ?_, ?_, ?_, ?_⟩
  · intro call hcall
    rw [hcalls'] at hcall
    rcases List.eq_nil_or_concat rest with rfl | ⟨init, final, rfl⟩
    · rw [List.append_nil] at hcall
      exact hpushed call (List.dropLast_subset _ hcall)
    · rw [List.concat_eq_append, ← List.append_assoc, List.dropLast_concat] at hcall
      rcases List.mem_append.mp hcall with hcall | hcall
      · exact hpushed call hcall
      · refine h.last call ?_
        rw [hcalls, List.concat_eq_append, ← List.append_assoc, List.dropLast_concat]
        exact List.mem_append_right _ hcall
  · intro hin
    rcases hstep.tasks _ hin with hbefore | hne
    · exact h.tasks hbefore
    · exact hne rfl
  · intro hnot
    obtain ⟨hrest, hclose⟩ := h.before fun hr => hnot (hreleased.mpr hr)
    rw [hmem _ (by decide), hstep.effects]
    exact ⟨hrest, hclose⟩
  · intro hr
    obtain ⟨hclosed, hnone⟩ := h.socket (hreleased.mp hr)
    exact ⟨hstep.fdOpen.trans hclosed, (hstep.monitored hclosed).trans hnone⟩
  · intro hr
    have hr := hreleased.mp hr
    obtain ⟨hloop, hcase⟩ := h.after hr
    refine ⟨fun hin => hloop ((hmem _ (by decide)).mp hin), ?_⟩
    rcases hcase with hnil | ⟨hopen, hrest⟩
    · -- nothing ran any more, and nothing begins
      rcases hstep.idle hnil with hnil' | hmonitored | ⟨op, rfl⟩
      · exact Or.inl hnil'
      · rw [(h.socket hr).2] at hmonitored
        cases hmonitored
      · exact absurd hr (hok hnil)
    · exact Or.inr ⟨by rw [hstep.effects]; exact hopen, (hmem _ (by decide)).mpr hrest⟩

/-- **A step** of a connection keeps the order of its release. -/
theorem Proper.steps (h : Proper r) (hok : BeforeRelease r a) (hstep : r.Steps a r') :
    Proper r' := by
  rcases kind_of_steps hstep with hordinary | ⟨task, tasks, rfl, hcalls, htasks, rfl⟩ |
    ⟨rest, hcalls, rfl⟩ | ⟨rest, hcalls, rfl⟩
  · exact h.ordinary hok hordinary
  · have hnot : ¬ Released r := hok
    have htask : .releaseRest ∉ task :: tasks := by
      rw [← htasks]
      exact h.tasks
    rw [List.mem_cons, not_or] at htask
    obtain ⟨hhead, htail⟩ := htask
    refine ⟨fun call hcall => absurd hcall List.not_mem_nil, htail, fun _ => ?_,
      fun hr => absurd hr hnot, fun hr => absurd hr hnot⟩
    exact ⟨fun hin => hhead (List.mem_singleton.mp hin), (h.before hnot).2⟩
  · obtain rfl := h.eq_nil hcalls (by decide)
    have hnot : ¬ Released r := by
      intro hr
      refine (h.after hr).1 ?_
      rw [hcalls]
      exact List.mem_cons_self
    have hreleased : Released (r.releaseInLoop []) := by
      show _ ∈ r.history.effects ++ [.removeChannel] ++ _ ++ _
      simp
    have hopen : .serverCloseCallback ∉ (r.releaseInLoop []).history.effects := by
      have hbefore := (h.before hnot).2
      show _ ∉ r.history.effects ++ [.removeChannel] ++ _ ++ _
      split_ifs <;> simp [hbefore]
    refine ⟨?_, h.tasks, fun hnot' => absurd hreleased hnot', fun _ => ⟨rfl, rfl⟩,
      fun _ => ⟨?_, Or.inr ⟨hopen, ?_⟩⟩⟩
    · show ∀ call ∈ [Call.callback], Plain call
      decide
    · show _ ∉ [Call.callback, .releaseRest]
      decide
    · show _ ∈ [Call.callback, .releaseRest]
      decide
  · obtain rfl := h.eq_nil hcalls (by decide)
    have hr : Released r := by
      by_contra hnot
      refine (h.before hnot).1 ?_
      rw [hcalls]
      exact List.mem_cons_self
    refine ⟨fun call hcall => absurd hcall List.not_mem_nil, h.tasks, fun hnot => ?_,
      fun _ => h.socket hr, fun _ => ⟨List.not_mem_nil, Or.inl rfl⟩⟩
    exact absurd (List.mem_append_left _ hr) hnot

/-! ## No use of a destroyed connection -/

/-- No connection is called behind its `ReleaseInLoop`. -/
def Timely (s : TcpServer) : Action → Prop
  | .conn c a => BeforeRelease (s.conn c) a
  | _ => True

instance (s : TcpServer) : (action : Action) → Decidable (s.Timely action)
  | .conn _ _ => inferInstanceAs (Decidable (BeforeRelease _ _))
  | .accept | .insert | .erase | .keep _ | .drop _ => isTrue trivial

/-- The registry, and the order of each release. -/
structure Sound (s : TcpServer) : Prop where
  registered : s.Registered
  proper : ∀ c, Proper (s.conn c)
  unused : s.usedFreed = false

/-- **A connection that is called is alive.** -/
theorem Sound.alive (h : s.Sound) (hcreated : s.Created c) (hmay : s.MayCall c a)
    (hok : BeforeRelease (s.conn c) a) (hstep : (s.conn c).Steps a r) : s.Alive c := by
  by_cases hclosed : s.Closed c
  · have hr : Released (s.conn c) := by
      by_contra hnot
      exact ((h.proper c).before hnot).2 hclosed
    -- it has closed: nothing is left to call, and nothing new comes but from the user
    have hnil : (s.conn c).conn.calls = [] :=
      ((h.proper c).after hr).2.resolve_right fun hopen => hopen.1 hclosed
    cases hstep with
    | event revents _ hmonitored =>
      rw [((h.proper c).socket hr).2] at hmonitored
      cases hmonitored
    | runTask task tasks _ _ => exact absurd hr hok
    | invoke op _ => exact absurd hr (hok hnil)
    | post op => exact Or.inr (Or.inr (Or.inl hmay))
    | consume len _ =>
      rcases hmay with hcalls | hheld
      · exact absurd hnil hcalls
      · exact Or.inr (Or.inr (Or.inl hheld))
    | recv result rest hcalls => cases hnil.symm.trans hcalls
    | send result rest hcalls _ => cases hnil.symm.trans hcalls
    | errorHandler rest hcalls => cases hnil.symm.trans hcalls
    | closeHandler rest hcalls => cases hnil.symm.trans hcalls
    | anyHandler rest hcalls => cases hnil.symm.trans hcalls
    | establishedInLoop rest hcalls _ => cases hnil.symm.trans hcalls
    | sendInLoop buf rest hcalls => cases hnil.symm.trans hcalls
    | shutdownInLoop rest hcalls => cases hnil.symm.trans hcalls
    | shutdownRest first rest hcalls => cases hnil.symm.trans hcalls
    | release rest hcalls => cases hnil.symm.trans hcalls
    | releaseInLoop rest hcalls => cases hnil.symm.trans hcalls
    | releaseRest rest hcalls => cases hnil.symm.trans hcalls
    | «return» rest hcalls => cases hnil.symm.trans hcalls
  · exact (h.registered.kept c hcreated hclosed).imp id Or.inl

theorem Sound.turn (h : s.Sound) (hok : s.Timely action) (hturn : Turn s action s') : s'.Sound := by
  refine ⟨h.registered.turn hturn, fun c => ?_, ?_⟩
  · cases hturn with
    | accept _ =>
      show Proper (Function.update s.conn _ ConnRun.start c)
      by_cases hc : c = s.next_connid_ + 1
      · rw [hc, Function.update_self]
        exact proper_start
      · rw [Function.update_of_ne hc]
        exact h.proper c
    | conn d a r _ _ _ hstep =>
      show Proper (Function.update s.conn d r c)
      by_cases hc : c = d
      · subst hc
        rw [Function.update_self]
        exact (h.proper c).steps hok hstep
      · rw [Function.update_of_ne hc]
        exact h.proper c
    | _ => exact h.proper c
  · cases hturn with
    | useFreed d a r hcreated hmay hdead hstep =>
      exact absurd (h.alive hcreated hmay hok hstep) hdead
    | _ => exact h.unused

/-- **No use of a destroyed connection.**  As long as nothing is called behind the `ReleaseInLoop`
of its connection, every event, timer, task and callback finds the connection alive, on whatever
loop it runs and whenever the main reactor inserts and erases it. -/
theorem usedFreed_eq_false (h : system.ReachableBy Timely s) : s.usedFreed = false := by
  have hsound : s.Sound := by
    apply h.invariant
    · rintro s rfl
      exact ⟨registered_start, fun _ => proper_start, rfl⟩
    · intro s action s' hs hok hstep
      exact hs.turn hok (turn_of_next hstep)
  exact hsound.unused

/-- The connection is established and, before it is in the registry, reports an error; the main
reactor inserts it and erases it. -/
def failing : List Action :=
  [.accept] ++ [.runTask, .call, .return, .event { epollerr := true }, .call, .call, .call, .return,
      .runTask, .call, .return, .call].map (Action.conn 1)
    ++ [.insert, .erase]

/-- It has closed, and is not in the registry. -/
theorem conns_failing : ∃ s, system.Reachable s ∧ s.Closed 1 ∧ s.erasing = [] ∧
    (s.conns_ 1 = true ↔ s.Created 1 ∧ ¬ s.Closed 1) := by
  have hrun : ∃ s ∈ runFrom next (fun _ _ => True) start failing,
      .serverCloseCallback ∈ (s.conn 1).history.effects ∧ s.creating = none ∧ s.erasing = [] := by
    decide +kernel
  obtain ⟨s, hreach, hclosed, hcreating, herasing⟩ := exists_of_runFrom hrun
  exact ⟨s, hreach, hclosed, herasing, conns_iff hreach hcreating herasing 1⟩

/-- It is destroyed, and was not used after that. -/
theorem usedFreed_failing :
    ∃ s, system.ReachableBy Timely s ∧ ¬ s.Alive 1 ∧ s.usedFreed = false := by
  have hrun : ∃ s ∈ runFrom next Timely start failing, ¬ s.Alive 1 := by decide +kernel
  obtain ⟨s, hreach, hdead⟩ := exists_of_runFrom hrun
  exact ⟨s, hreach, hdead, usedFreed_eq_false hreach⟩

/-- The user keeps a `ConnectionPtr`, sends when the connection has closed, and drops it before the
loop runs the task: the task is called on a connection that is destroyed. -/
def sendingLate : List Action :=
  [.accept, .insert, .conn 1 .runTask, .conn 1 .call, .keep 1]
    ++ [.return, .invoke .release, .call, .runTask, .call, .return, .call].map (Action.conn 1)
    ++ [.conn 1 (.post (.send [1])), .erase, .drop 1, .conn 1 .runTask]

example : ∃ s ∈ runFrom next (fun _ _ => True) start sendingLate, s.usedFreed = true := by
  decide +kernel

end TcpServer

end Reactor
