/-
# A connection on its event loop

`Connection` of `server.hpp`, with its `Channel` and the part of the `EventLoop` queue
that belongs to it.  Callbacks of the user run on the loop thread in the middle of the
handlers and may call back into the connection, so the state carries the calls that are
still to be made, the next one first.  Any event may come between two tasks of the queue,
which the loop allows only between two batches of them.

The inactivity timer appears as code on the loop thread that calls `Release`.
-/
import FastServer.TransitionSystem

namespace Reactor

/-! ## Data -/

/-- `ConnStatu`. -/
inductive ConnStatu
  | connecting
  | connected
  | disconnecting
  | disconnected
deriving DecidableEq

/-- The triggered events that `Channel::EventHandler` looks at. -/
structure EventMask where
  epollin : Bool := false
  epollrdhup : Bool := false
  epollpri : Bool := false
  epollout : Bool := false
  epollerr : Bool := false
  epollhup : Bool := false

/-- The events a channel monitors, `events_`. -/
structure Events where
  epollin : Bool
  epollout : Bool
deriving DecidableEq

/-- A call that is still to be made.  `callback` is a callback of the user that runs;
`shutdownRest` and `releaseRest` are what follows the callback in `ShutdownInLoop` and in
`ReleaseInLoop`, and `shutdownRest true` belongs to the first `ShutdownInLoop`. -/
inductive Call
  | readHandler
  | writeHandler
  | errorHandler
  | closeHandler
  | anyHandler
  | callback
  | establishedInLoop
  | sendInLoop (buf : List UInt8)
  | shutdownInLoop
  | shutdownRest (first : Bool)
  | release
  | releaseInLoop
  | releaseRest
deriving DecidableEq

/-- What `ReleaseInLoop` does to the world. -/
inductive Effect
  | removeChannel
  | closeFd
  | closeCallback
  | serverCloseCallback
deriving DecidableEq

/-- `Connection`.  `monitored` is what `epoll_ctl` last set, `fdOpen` says that the socket
is not closed, and `tasks` are the tasks of the connection in the queue of the loop. -/
structure Connection where
  statu : ConnStatu
  events : Events
  monitored : Option Events
  fdOpen : Bool
  ibuffer : List UInt8
  obuffer : List UInt8
  calls : List Call
  tasks : List Call
deriving DecidableEq

/-- What happened to a connection: the effects of `ReleaseInLoop`; whether `statu` was
`disconnected`; the bytes appended to `obuffer` and those `send` took; how often
`ShutdownInLoop` was called and how many bytes had been appended when the first call ended;
and, when `ReleaseInLoop` ran first, the bytes that had to be sent by then and those that
were. -/
structure History where
  effects : List Effect
  wasDisconnected : Bool
  appended : List UInt8
  sent : List UInt8
  shutdowns : ℕ
  atShutdown : Option ℕ
  atRelease : Option (ℕ × ℕ)
deriving DecidableEq

/-! ## The channel -/

namespace Connection

/-- `UpdateEventMonitor`, which fails for a closed socket. -/
def updateEventMonitor (c : Connection) : Connection :=
  { c with monitored := if c.fdOpen then some c.events else c.monitored }

/-- `EnableMonitorRead`. -/
def enableMonitorRead (c : Connection) : Connection :=
  updateEventMonitor { c with events := { c.events with epollin := true } }

/-- `EnableMonitorWriter`. -/
def enableMonitorWriter (c : Connection) : Connection :=
  updateEventMonitor { c with events := { c.events with epollout := true } }

/-- `DisableMonitorWriter`. -/
def disableMonitorWriter (c : Connection) : Connection :=
  updateEventMonitor { c with events := { c.events with epollout := false } }

end Connection

/-- `EventHandler`: the calls it makes. -/
def EventMask.calls (revents : EventMask) : List Call :=
  (if revents.epollin || revents.epollrdhup || revents.epollpri then [.readHandler] else [])
    ++ (if revents.epollout then [.writeHandler]
        else if revents.epollerr then [.errorHandler]
        else if revents.epollhup then [.closeHandler] else [])
    ++ [.anyHandler]

/-! ## Steps -/

/-- An operation of the connection's interface. -/
inductive Operation
  | send (buf : List UInt8)
  | shutdown
  | release
deriving DecidableEq

/-- The call an operation makes on the loop thread. -/
def Operation.call : Operation → Call
  | send buf => .sendInLoop buf
  | shutdown => .shutdownInLoop
  | release => .release

/-- The task an operation puts into the queue on another thread. -/
def Operation.task : Operation → Call
  | send buf => .sendInLoop buf
  | shutdown => .shutdownInLoop
  | release => .releaseInLoop

/-- A step.  `recv` and `send` are the handlers with the result of the system call, `none`
where it is negative; `call` makes the next call; `invoke` is code on the loop thread that
uses the connection, in a callback of the connection or between its calls, and `consume` is
such code that reads from `ibuffer`; `post` is another thread. -/
inductive Action
  | event (revents : EventMask)
  | recv (result : Option (List UInt8))
  | send (result : Option ℕ)
  | call
  | return
  | invoke (op : Operation)
  | consume (len : ℕ)
  | post (op : Operation)
  | runTask

/-- A connection and its history. -/
structure ConnRun where
  conn : Connection
  history : History
deriving DecidableEq

namespace ConnRun

/-- A new connection, whose `EstablishedInLoop` waits in the queue. -/
def start : ConnRun where
  conn := ⟨.connecting, ⟨false, false⟩, none, true, [], [], [], [.establishedInLoop]⟩
  history := ⟨[], false, [], [], 0, none, none⟩

/-- `Readhandler`, before which `rest` is still to be called. -/
def readHandler (r : ConnRun) (result : Option (List UInt8)) (rest : List Call) : ConnRun :=
  match result with
  | none => { r with conn := { r.conn with calls := .shutdownInLoop :: rest } }
  | some [] => { r with conn := { r.conn with calls := rest } }
  | some buf => { r with conn := { r.conn with
      ibuffer := r.conn.ibuffer ++ buf, calls := .callback :: rest } }

/-- The callback that handles what is left in `ibuffer`, if anything is. -/
def handleInput (c : Connection) (rest : List Call) : List Call :=
  if c.ibuffer ≠ [] then .callback :: rest else rest

/-- `WriteHandler`. -/
def writeHandler (r : ConnRun) (result : Option ℕ) (rest : List Call) : ConnRun :=
  match result with
  | none => { r with conn := { r.conn with calls := handleInput r.conn (.release :: rest) } }
  | some n =>
      let c := { r.conn with obuffer := r.conn.obuffer.drop n, calls := rest }
      let history := { r.history with sent := r.history.sent ++ r.conn.obuffer.take n }
      if c.obuffer = [] then
        let c := c.disableMonitorWriter
        if c.statu = .disconnecting then ⟨{ c with calls := .release :: rest }, history⟩
        else ⟨c, history⟩
      else ⟨c, history⟩

/-- `EstablishedInLoop`. -/
def establishedInLoop (r : ConnRun) (rest : List Call) : ConnRun :=
  { r with conn := { { r.conn with statu := .connected }.enableMonitorRead with
      calls := .callback :: rest } }

/-- `SendInLoop`. -/
def sendInLoop (r : ConnRun) (buf : List UInt8) (rest : List Call) : ConnRun :=
  let c := { r.conn with calls := rest }
  if c.statu = .disconnected then { r with conn := c }
  else
    let c := { c with obuffer := c.obuffer ++ buf }
    { conn := if ¬ c.events.epollout then c.enableMonitorWriter else c
      history := { r.history with appended := r.history.appended ++ buf } }

/-- `ShutdownInLoop` up to the callback. -/
def shutdownInLoop (r : ConnRun) (rest : List Call) : ConnRun where
  conn := { r.conn with
    statu := .disconnecting
    calls := handleInput r.conn (.shutdownRest (decide (r.history.shutdowns = 0)) :: rest) }
  history := { r.history with shutdowns := r.history.shutdowns + 1 }

/-- `ShutdownInLoop` behind the callback. -/
def shutdownRest (r : ConnRun) (first : Bool) (rest : List Call) : ConnRun where
  conn :=
    let c := { r.conn with calls := rest }
    if c.obuffer ≠ [] then (if ¬ c.events.epollout then c.enableMonitorWriter else c)
    else { c with calls := .release :: rest }
  history := { r.history with
    atShutdown := if first then some r.history.appended.length else r.history.atShutdown }

/-- `ReleaseInLoop` up to the first callback, without the timer it cancels. -/
def releaseInLoop (r : ConnRun) (rest : List Call) : ConnRun where
  conn := { r.conn with
    statu := .disconnected
    monitored := none
    fdOpen := false
    calls := .callback :: .releaseRest :: rest }
  history := { r.history with
    effects := r.history.effects ++ [.removeChannel]
      ++ (if r.conn.fdOpen then [.closeFd] else []) ++ [.closeCallback]
    wasDisconnected := true
    atRelease := r.history.atRelease <|> some
      (r.history.atShutdown.getD r.history.appended.length, r.history.sent.length) }

/-- `ReleaseInLoop` behind the first callback. -/
def releaseRest (r : ConnRun) (rest : List Call) : ConnRun where
  conn := { r.conn with calls := rest }
  history := { r.history with effects := r.history.effects ++ [.serverCloseCallback] }

/-- The next call, if it needs no input.  `EstablishedInLoop` asserts that the connection is
new. -/
def call (r : ConnRun) : Option ConnRun :=
  match r.conn.calls with
  | .errorHandler :: rest => some { r with conn := { r.conn with calls := .release :: rest } }
  | .closeHandler :: rest =>
      some { r with conn := { r.conn with calls := handleInput r.conn (.release :: rest) } }
  | .anyHandler :: rest => some { r with conn := { r.conn with calls := .callback :: rest } }
  | .establishedInLoop :: rest =>
      if r.conn.statu = .connecting then some (r.establishedInLoop rest) else none
  | .sendInLoop buf :: rest => some (r.sendInLoop buf rest)
  | .shutdownInLoop :: rest => some (r.shutdownInLoop rest)
  | .shutdownRest first :: rest => some (r.shutdownRest first rest)
  | .release :: rest => some { r with conn := { r.conn with
      calls := rest, tasks := r.conn.tasks ++ [.releaseInLoop] } }
  | .releaseInLoop :: rest => some (r.releaseInLoop rest)
  | .releaseRest :: rest => some (r.releaseRest rest)
  | _ => none

/-- Whether code other than the connection's own runs on the loop thread. -/
def Idle (c : Connection) : Prop := c.calls = [] ∨ c.calls.head? = some .callback

instance (c : Connection) : Decidable (Idle c) := inferInstanceAs (Decidable (_ ∨ _))

/-- A step of the connection. -/
def next (r : ConnRun) : Action → Option ConnRun
  | .event revents =>
      if r.conn.calls = [] ∧ r.conn.monitored.isSome then
        some { r with conn := { r.conn with calls := revents.calls } }
      else none
  | .recv result =>
      match r.conn.calls with
      | .readHandler :: rest => some (r.readHandler result rest)
      | _ => none
  | .send result =>
      match r.conn.calls with
      | .writeHandler :: rest =>
          if ∀ n ∈ result, n ≤ r.conn.obuffer.length then some (r.writeHandler result rest)
          else none
      | _ => none
  | .call => r.call
  | .return =>
      match r.conn.calls with
      | .callback :: rest => some { r with conn := { r.conn with calls := rest } }
      | _ => none
  | .invoke op =>
      if Idle r.conn then some { r with conn := { r.conn with calls := op.call :: r.conn.calls } }
      else none
  | .consume len =>
      if Idle r.conn then
        some { r with conn := { r.conn with ibuffer := r.conn.ibuffer.drop len } }
      else none
  | .post op => some { r with conn := { r.conn with tasks := r.conn.tasks ++ [op.task] } }
  | .runTask =>
      match r.conn.calls, r.conn.tasks with
      | [], task :: tasks => some { r with conn := { r.conn with calls := [task], tasks := tasks } }
      | _, _ => none

/-- The runs of a connection. -/
def system : TransitionSystem ConnRun Action := .ofFunction start next

/-! ## What a step does -/

/-- A connection whose next calls are `calls`. -/
abbrev withCalls (r : ConnRun) (calls : List Call) : ConnRun :=
  { r with conn := { r.conn with calls := calls } }

/-- The steps of a connection, one constructor for each kind. -/
inductive Steps (r : ConnRun) : Action → ConnRun → Prop
  | event (revents : EventMask) : r.conn.calls = [] → r.conn.monitored.isSome →
      Steps r (.event revents) (r.withCalls revents.calls)
  | recv (result : Option (List UInt8)) (rest : List Call) :
      r.conn.calls = .readHandler :: rest → Steps r (.recv result) (r.readHandler result rest)
  | send (result : Option ℕ) (rest : List Call) : r.conn.calls = .writeHandler :: rest →
      (∀ n ∈ result, n ≤ r.conn.obuffer.length) →
      Steps r (.send result) (r.writeHandler result rest)
  | errorHandler (rest : List Call) : r.conn.calls = .errorHandler :: rest →
      Steps r .call (r.withCalls (.release :: rest))
  | closeHandler (rest : List Call) : r.conn.calls = .closeHandler :: rest →
      Steps r .call (r.withCalls (handleInput r.conn (.release :: rest)))
  | anyHandler (rest : List Call) : r.conn.calls = .anyHandler :: rest →
      Steps r .call (r.withCalls (.callback :: rest))
  | establishedInLoop (rest : List Call) : r.conn.calls = .establishedInLoop :: rest →
      r.conn.statu = .connecting → Steps r .call (r.establishedInLoop rest)
  | sendInLoop (buf : List UInt8) (rest : List Call) : r.conn.calls = .sendInLoop buf :: rest →
      Steps r .call (r.sendInLoop buf rest)
  | shutdownInLoop (rest : List Call) : r.conn.calls = .shutdownInLoop :: rest →
      Steps r .call (r.shutdownInLoop rest)
  | shutdownRest (first : Bool) (rest : List Call) :
      r.conn.calls = .shutdownRest first :: rest → Steps r .call (r.shutdownRest first rest)
  | release (rest : List Call) : r.conn.calls = .release :: rest →
      Steps r .call { r with conn := { r.conn with
        calls := rest, tasks := r.conn.tasks ++ [.releaseInLoop] } }
  | releaseInLoop (rest : List Call) : r.conn.calls = .releaseInLoop :: rest →
      Steps r .call (r.releaseInLoop rest)
  | releaseRest (rest : List Call) : r.conn.calls = .releaseRest :: rest →
      Steps r .call (r.releaseRest rest)
  | return (rest : List Call) : r.conn.calls = .callback :: rest →
      Steps r .return (r.withCalls rest)
  | invoke (op : Operation) : Idle r.conn →
      Steps r (.invoke op) (r.withCalls (op.call :: r.conn.calls))
  | consume (len : ℕ) : Idle r.conn → Steps r (.consume len)
      { r with conn := { r.conn with ibuffer := r.conn.ibuffer.drop len } }
  | post (op : Operation) : Steps r (.post op)
      { r with conn := { r.conn with tasks := r.conn.tasks ++ [op.task] } }
  | runTask (task : Call) (tasks : List Call) : r.conn.calls = [] →
      r.conn.tasks = task :: tasks →
      Steps r .runTask { r with conn := { r.conn with calls := [task], tasks := tasks } }

/-- A call that needs no input is one of the kinds. -/
theorem steps_of_call {r r' : ConnRun} (h : r.call = some r') : Steps r .call r' := by
  unfold call at h
  split at h
  case h_1 rest hcalls => exact Option.some.inj h ▸ .errorHandler rest hcalls
  case h_2 rest hcalls => exact Option.some.inj h ▸ .closeHandler rest hcalls
  case h_3 rest hcalls => exact Option.some.inj h ▸ .anyHandler rest hcalls
  case h_4 rest hcalls =>
    split_ifs at h with hstatu
    exact Option.some.inj h ▸ .establishedInLoop rest hcalls hstatu
  case h_5 buf rest hcalls => exact Option.some.inj h ▸ .sendInLoop buf rest hcalls
  case h_6 rest hcalls => exact Option.some.inj h ▸ .shutdownInLoop rest hcalls
  case h_7 first rest hcalls => exact Option.some.inj h ▸ .shutdownRest first rest hcalls
  case h_8 rest hcalls => exact Option.some.inj h ▸ .release rest hcalls
  case h_9 rest hcalls => exact Option.some.inj h ▸ .releaseInLoop rest hcalls
  case h_10 rest hcalls => exact Option.some.inj h ▸ .releaseRest rest hcalls
  case h_11 => cases h

/-- **Every step is one of the kinds.** -/
theorem steps_of_next {r r' : ConnRun} {a : Action} (h : r.next a = some r') : Steps r a r' := by
  cases a with
  | event revents =>
    rw [next] at h
    split_ifs at h with henabled
    exact Option.some.inj h ▸ .event revents henabled.1 henabled.2
  | recv result =>
    rw [next] at h
    split at h
    case h_1 rest hcalls => exact Option.some.inj h ▸ .recv result rest hcalls
    case h_2 => cases h
  | send result =>
    rw [next] at h
    split at h
    case h_1 rest hcalls =>
      split_ifs at h with hresult
      exact Option.some.inj h ▸ .send result rest hcalls hresult
    case h_2 => cases h
  | call => exact steps_of_call h
  | «return» =>
    rw [next] at h
    split at h
    case h_1 rest hcalls => exact Option.some.inj h ▸ .return rest hcalls
    case h_2 => cases h
  | invoke op =>
    rw [next] at h
    split_ifs at h with hidle
    exact Option.some.inj h ▸ .invoke op hidle
  | consume len =>
    rw [next] at h
    split_ifs at h with hidle
    exact Option.some.inj h ▸ .consume len hidle
  | post op => exact Option.some.inj h ▸ .post op
  | runTask =>
    rw [next] at h
    split at h
    case h_1 task tasks hcalls htasks => exact Option.some.inj h ▸ .runTask task tasks hcalls htasks
    case h_2 => cases h

/-! ## The calls of an event -/

/-- A callback may stand in front of the calls that follow it. -/
theorem handleInput_eq (c : Connection) (rest : List Call) :
    handleInput c rest = rest ∨ handleInput c rest = .callback :: rest := by
  unfold handleInput
  split_ifs
  · exact Or.inr rfl
  · exact Or.inl rfl

/-- `EventHandler` makes calls of handlers only. -/
theorem mem_calls_event {revents : EventMask} {call : Call} (h : call ∈ revents.calls) :
    call = .readHandler ∨ call = .writeHandler ∨ call = .anyHandler ∨
      (call = .errorHandler ∧ revents.epollerr = true) ∨
      (call = .closeHandler ∧ revents.epollhup = true) := by
  unfold EventMask.calls at h
  grind

end ConnRun

end Reactor
