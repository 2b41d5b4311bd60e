/-
# Sending through the reactor

`Connection::send` on any thread buffers a payload under `sendMutex_` and queues the
descriptor; the reactor thread looks the descriptor up in `connectionMap_` and
writes the buffer to the socket in `sendBufferedData`.  Meanwhile connections are
accepted and removed, and the system hands closed descriptor numbers out again.
The state is that of one `SubReactor`, the descriptors and sockets of the process,
and all threads that call in.
-/
import FastServer.SimpleBuffer
import FastServer.WakeUp

namespace Muduo

open TransitionSystem

/-! ## Connections -/

/-- Who holds `sendMutex_`, and how far it is: a thread in `send`, from taking the
lock to releasing it, or the reactor thread in `sendBufferedData`, which is to call
`write` or has had `n` bytes accepted. -/
inductive Critical
  | entering (tid : Tid) (data : List UInt8)
  | pushing (tid : Tid)
  | notifying (tid : Tid)
  | leaving (tid : Tid)
  | flushing
  | wrote (n : ℕ)
deriving DecidableEq

/-- A `Connection` object.  The last three fields are history: the socket its
descriptor stood for when it was created, the payloads of its accepted `send` calls
in the order they took `sendMutex_`, and whether a `write` failed with an error other
than `EAGAIN`. -/
structure Connection where
  fdWrapper : FdWrapper
  tryClose : Bool
  closed : Bool
  sendMutex : Option Critical
  sendBuffer : SimpleBuffer
  socket : Option ℕ
  accepted : List (List UInt8)
  fatal : Bool
deriving DecidableEq

namespace Connection

/-- The events a connection is registered for. -/
def acceptedEvents : List EpollFlag := [.EPOLLIN, .EPOLLHUP, .EPOLLET]

/-- The constructor, as `processNewConnections` calls it. -/
def new (fd : Fd) (socket : Option ℕ) : Connection where
  fdWrapper := ⟨fd, acceptedEvents⟩
  tryClose := false
  closed := false
  sendMutex := none
  sendBuffer := SimpleBuffer.new 4096
  socket := socket
  accepted := []
  fatal := false

/-- What `sendBuffer_` still owes the socket.  That is its contents, except between
the lock and the buffer write of a `send`, whose payload is on its way into the
buffer, and between `write` and `advance`, where `n` bytes are out already. -/
def unsent (c : Connection) : Memory :=
  match c.sendMutex with
  | some (.entering _ data) => c.sendBuffer.contents ++ data.map some
  | some (.wrote n) => c.sendBuffer.contents.drop n
  | _ => c.sendBuffer.contents

end Connection

/-- The stages in which the reactor thread runs code of the application: a timer
callback, `onMessage`, `onDisconnected` or `onAccepted`. -/
def Stage.runsCallbacks : Stage → Bool
  | .timing => true
  | .reading _ => true
  | .disconnecting _ => true
  | .hangingUp _ => true
  | .accepting _ => true
  | _ => false

/-! ## State -/

/-- Whom an open descriptor belongs to: a part of the process that is no connection, a
thread that accepted it, another reactor that it was passed on to, `newConnections_`, or a
connection. -/
inductive Owner
  | foreign
  | accepted (tid : Tid)
  | elsewhere
  | queued
  | connection (o : ℕ)
deriving DecidableEq

/-- The descriptor has been accepted and is not yet that of a connection of this reactor
or passed on to another. -/
def Owner.onItsWay : Owner → Bool
  | .accepted _ => true
  | .queued => true
  | _ => false

/-- The descriptor is that of a connection of this reactor. -/
def Owner.isConnection : Owner → Bool
  | .connection _ => true
  | _ => false

/-- What is that of a connection is not on its way. -/
theorem Owner.onItsWay_of_isConnection {owner : Owner} (h : owner.isConnection = true) :
    owner.onItsWay = false := by
  cases owner with
  | connection => rfl
  | _ => exact absurd h (by simp [isConnection])

/-- The descriptor is that of a connection other than `o`: of this reactor, of another, or
on its way to one. -/
def Owner.OtherThan (o : ℕ) (owner : Owner) : Prop := owner ≠ .foreign ∧ owner ≠ .connection o

/-- An open descriptor.  The owner is history. -/
structure Descriptor where
  socket : ℕ
  owner : Owner
deriving DecidableEq

/-- Where a thread stands that calls into the reactor: it holds an accepted
descriptor, is to write to the pipe after `newConnections_.push_back`, has passed the
test of `tryClose_`, or is inside the critical section of `send`. -/
inductive Sender
  | idle
  | accepted (fd : Fd)
  | announcing
  | checked (o : ℕ) (data : List UInt8)
  | inside (o : ℕ)
deriving DecidableEq

/-- What `write` on a socket returns. -/
inductive WriteResult
  | accepted (n : ℕ)
  | zero
  | again
  | error
deriving DecidableEq

/-- The state of a run.  `connections` lists every `Connection` object made, and an
object is known by its index; `sending` is the one whose `sendBufferedData` the
reactor thread is in; `epoll` is the registration of each descriptor; `sockets` lists
the bytes that this reactor handed to each socket; `shut` tells whose reading side is
shut down. -/
structure World where
  wake : WakeUp
  connectionMap : Fd → Option ℕ
  connections : List Connection
  sending : Option ℕ
  senders : Tid → Sender
  epoll : Fd → Option (List EpollFlag)
  fdTable : Fd → Option Descriptor
  sockets : List Memory
  shut : ℕ → Bool

namespace World

/-- No connection and no open descriptor. -/
def start : World where
  wake := WakeUp.start
  connectionMap := fun _ => none
  connections := []
  sending := none
  senders := fun _ => .idle
  epoll := fun _ => none
  fdTable := fun _ => none
  sockets := []
  shut := fun _ => false

/-- The part that wake-ups depend on moved on. -/
def setWake (w : World) (wake : WakeUp) : World := { w with wake := wake }

/-- The reactor thread entered or left a `sendBufferedData`. -/
def setSending (w : World) (o : Option ℕ) : World := { w with sending := o }

/-- An object changed. -/
def setConnection (w : World) (o : ℕ) (c : Connection) : World :=
  { w with connections := w.connections.set o c }

/-- The registration of a descriptor changed. -/
def setEpoll (w : World) (fd : Fd) (events : Option (List EpollFlag)) : World :=
  { w with epoll := Function.update w.epoll fd events }

/-- `shutdown(fd, SHUT_RD)`. -/
def shutdownRead (w : World) (fd : Fd) : World :=
  match w.fdTable fd with
  | none => w
  | some d => { w with shut := Function.update w.shut d.socket true }

/-- A socket took bytes. -/
def hand (w : World) (k : ℕ) (bytes : Memory) : World :=
  { w with sockets := w.sockets.modify k (· ++ bytes) }

/-- A thread moved on. -/
def setSender (w : World) (tid : Tid) (p : Sender) : World :=
  { w with senders := Function.update w.senders tid p }

/-- An open descriptor changed hands. -/
def setOwner (w : World) (fd : Fd) (owner : Owner) : World :=
  { w with
    fdTable := Function.update w.fdTable fd
      ((w.fdTable fd).map fun d => { d with owner := owner }) }

/-- A descriptor number that is not in use, opened on a new socket. -/
def openSocket (w : World) (fd : Fd) (owner : Owner) : World :=
  { w with
    fdTable := Function.update w.fdTable fd (some ⟨w.sockets.length, owner⟩)
    sockets := w.sockets ++ [[]] }

/-! ## Accepting threads and the rest of the process -/

/-- `accept` in `handleAccept` returns `fd`. -/
def accept (w : World) (tid : Tid) (fd : Fd) : Option World :=
  if w.senders tid = .idle ∧ w.fdTable fd = none then
    some ((w.openSocket fd (.accepted tid)).setSender tid (.accepted fd))
  else none

/-- `enqueueNewConnection`, up to its write to the pipe. -/
def enqueueNewConnection (w : World) (tid : Tid) : Option World :=
  match w.senders tid with
  | .accepted fd =>
      (w.wake.push tid .newConnections fd).map fun wake =>
        ((w.setOwner fd .queued).setSender tid .announcing).setWake wake
  | _ => none

/-- `handleAccept` picks another reactor, whose `enqueueNewConnection` it calls. -/
def enqueueElsewhere (w : World) (tid : Tid) : Option World :=
  match w.senders tid with
  | .accepted fd => some ((w.setOwner fd .elsewhere).setSender tid .idle)
  | _ => none

/-- The write to the pipe in `enqueueNewConnection`. -/
def announce (capacity : ℕ) (w : World) (tid : Tid) : Option World :=
  if w.senders tid = .announcing then
    (w.wake.notify capacity tid).map fun wake => (w.setSender tid .idle).setWake wake
  else none

/-- Another part of the process opens a descriptor. -/
def openFd (w : World) (fd : Fd) : Option World :=
  if w.fdTable fd = none then some (w.openSocket fd .foreign) else none

/-- Another part of the process, such as `removeConnection` in another reactor, closes a
number, whomever it belongs to by now. -/
def closeFd (w : World) (fd : Fd) : Option World :=
  if w.fdTable fd ≠ none then
    some { w with
      epoll := Function.update w.epoll fd none
      fdTable := Function.update w.fdTable fd none }
  else none

/-- Another part of the process, such as `disableReadEventAndShutdown` in another reactor,
shuts the reading side of a number. -/
def shutdownFd (w : World) (fd : Fd) : Option World :=
  if w.fdTable fd ≠ none then some (w.shutdownRead fd) else none

/-! ## Sending threads -/

/-- `send` up to the lock: it returns at once if `tryClose_` is set. -/
def send (w : World) (tid : Tid) (o : ℕ) (data : List UInt8) : Option World :=
  if w.senders tid = .idle then
    (w.connections[o]?).map fun c =>
      if c.tryClose then w else w.setSender tid (.checked o data)
  else none

/-- `send` takes `sendMutex_`, when it is free. -/
def lock (w : World) (tid : Tid) : Option World :=
  match w.senders tid with
  | .checked o data =>
      (w.connections[o]?).bind fun c =>
        if c.sendMutex = none then
          some ((w.setConnection o { c with
            sendMutex := some (.entering tid data)
            accepted := c.accepted ++ [data] }).setSender tid (.inside o))
        else none
  | _ => none

/-- The next step of `send` under `sendMutex_`. -/
def insideSend (capacity : ℕ) (w : World) (tid : Tid) : Option World :=
  match w.senders tid with
  | .inside o =>
      (w.connections[o]?).bind fun c =>
        match c.sendMutex with
        | some (.entering t data) =>
            if t = tid then
              (c.sendBuffer.write data).map fun b =>
                w.setConnection o { c with sendMutex := some (.pushing tid), sendBuffer := b }
            else none
        | some (.pushing t) =>
            if t = tid then
              (w.wake.push tid .sendQueue c.fdWrapper.fd).map fun wake =>
                (w.setConnection o { c with sendMutex := some (.notifying tid) }).setWake wake
            else none
        | some (.notifying t) =>
            if t = tid then
              (w.wake.notify capacity tid).map fun wake =>
                (w.setConnection o { c with sendMutex := some (.leaving tid) }).setWake wake
            else none
        | some (.leaving t) =>
            if t = tid then
              some ((w.setConnection o { c with sendMutex := none }).setSender tid .idle)
            else none
        | _ => none
  | _ => none

/-! ## The reactor thread -/

/-- `removeConnection`: the descriptor is closed, whomever it belongs to by now. -/
def removeConnection (w : World) (fd : Fd) : World :=
  { w with
    connectionMap := Function.update w.connectionMap fd none
    epoll := Function.update w.epoll fd none
    fdTable := Function.update w.fdTable fd none }

/-- `addEpollFd`, which fails for a number that is not open or registered already. -/
def addEpollFd (w : World) (fdw : FdWrapper) : World :=
  if w.fdTable fdw.fd ≠ none ∧ w.epoll fdw.fd = none then
    w.setEpoll fdw.fd (some fdw.events)
  else w

/-- One turn of the loop of `processNewConnections`. -/
def createConnection (w : World) (fd : Fd) : World :=
  let w := w.addEpollFd ⟨fd, Connection.acceptedEvents⟩
  let o := w.connections.length
  { w.setOwner fd (.connection o) with
    connections := w.connections ++ [Connection.new fd ((w.fdTable fd).map Descriptor.socket)]
    connectionMap := Function.update w.connectionMap fd (some o) }

/-- `handleWrite`, up to the call of `sendBufferedData`. -/
def handleWrite (w : World) (fd : Fd) : World :=
  match w.connectionMap fd with
  | none => w
  | some o => w.setSending (some o)

/-- The descriptor that the next step of `handleEvent` removes. -/
def removal (w : World) : Option Fd :=
  match w.wake.stage with
  | .disconnecting fdw => some fdw.fd
  | .hangingUp fdw => if EpollFlag.EPOLLHUP ∈ fdw.events then some fdw.fd else none
  | _ => none

/-- The descriptor that the next step passes to `handleWrite`. -/
def writable (w : World) : Option Fd :=
  match w.wake.stage with
  | .writing fdw => if EpollFlag.EPOLLOUT ∈ fdw.events then some fdw.fd else none
  | .draining sendQueue => sendQueue.getLast?
  | _ => none

/-- The descriptor that the next step makes a connection of. -/
def arrival (w : World) : Option Fd :=
  match w.wake.stage with
  | .accepting newConnections => newConnections.getLast?
  | _ => none

/-- The next step of the reactor thread outside `sendBufferedData`. -/
def proceed (w : World) : Option World :=
  if w.sending = none then
    w.wake.proceed.map fun wake =>
      match w.removal, w.writable, w.arrival with
      | some fd, _, _ => (w.setWake wake).removeConnection fd
      | none, some fd, _ => (w.setWake wake).handleWrite fd
      | none, none, some fd => (w.setWake wake).createConnection fd
      | none, none, none => w.setWake wake
  else none

/-- `epoll_wait` reports an event of a descriptor that is registered, of a kind it is
registered for, or `EPOLLHUP`. -/
def Reported (w : World) : Event → Prop
  | .connection fdw =>
      ∃ events ∈ w.epoll fdw.fd, ∀ flag ∈ fdw.events, flag ∈ events ∨ flag = .EPOLLHUP
  | _ => True

instance (w : World) : DecidablePred w.Reported
  | .connection fdw =>
      inferInstanceAs (Decidable
        (∃ events ∈ w.epoll fdw.fd, ∀ flag ∈ fdw.events, flag ∈ events ∨ flag = .EPOLLHUP))
  | .pipe => .isTrue trivial
  | .timer => .isTrue trivial

/-- `epoll_wait` returns. -/
def epollWait (w : World) (events : List Event) : Option World :=
  if ∀ event ∈ events, w.Reported event then
    (w.wake.epollWait events).map w.setWake
  else none

/-- `handleRead` has found its connection, and `read` fails or finds the end of the
stream before any data. -/
def disconnect (w : World) : Option World :=
  match w.wake.stage with
  | .reading fdw =>
      if EpollFlag.EPOLLIN ∈ fdw.events ∧ w.connectionMap fdw.fd ≠ none then
        w.wake.disconnect.map w.setWake
      else none
  | _ => none

/-- `disableReadEventAndShutdown`, for the connection `o`. -/
def disableReadEventAndShutdown (w : World) (o : ℕ) (c : Connection) : World :=
  let events := c.fdWrapper.events.filter (fun flag => flag ≠ .EPOLLIN)
  ((w.setConnection o { c with fdWrapper := { c.fdWrapper with events := events } }).setEpoll
    c.fdWrapper.fd ((w.epoll c.fdWrapper.fd).map fun _ => events)).shutdownRead c.fdWrapper.fd

/-- `Connection::close`, called by the application on the reactor thread. -/
def close (w : World) (o : ℕ) (force : Bool) : Option World :=
  if w.sending = none ∧ w.wake.stage.runsCallbacks = true then
    (w.connections[o]?).map fun c =>
      if force = false ∧ 0 < c.sendBuffer.size then
        w.disableReadEventAndShutdown o { c with tryClose := true }
      else
        -- `deleteEpollFd` clears the events of the wrapper it is given
        (w.setConnection o { c with
          tryClose := true
          closed := true
          fdWrapper := { c.fdWrapper with events := [] } }).removeConnection c.fdWrapper.fd
  else none

/-- `sendBufferedData` takes `sendMutex_`, and returns if there is no data. -/
def lockSend (w : World) : Option World :=
  w.sending.bind fun o => (w.connections[o]?).bind fun c =>
    if c.sendMutex = none then
      if c.sendBuffer.noData then some (w.setSending none)
      else some (w.setConnection o { c with sendMutex := some .flushing })
    else none

/-- `sendBufferedData` releases the lock and returns. -/
def leaveSend (w : World) (o : ℕ) (c : Connection) : World :=
  (w.setConnection o { c with sendMutex := none }).setSending none

/-- The call of `write` in `sendBufferedData`.  The socket takes a prefix of the chunk;
a descriptor that is not open fails. -/
def writeFd (w : World) (result : WriteResult) : Option World :=
  w.sending.bind fun o => (w.connections[o]?).bind fun c =>
    if c.sendMutex = some .flushing then
      let writeChunkSize := min c.sendBuffer.size (1024 * 8)
      match result, w.fdTable c.fdWrapper.fd with
      | .accepted n, some d =>
          if 0 < n ∧ n ≤ writeChunkSize then
            some ((w.setConnection o { c with sendMutex := some (.wrote n) }).hand d.socket
              (c.sendBuffer.contents.take n))
          else none
      | .zero, some _ => some (w.leaveSend o c)
      | .again, some _ => some (w.leaveSend o c)
      | .error, _ => some (w.leaveSend o { c with fatal := true })
      | _, none => none
    else none

/-- The call of `advance` in `sendBufferedData`, and the test of its loop. -/
def advance (w : World) : Option World :=
  w.sending.bind fun o => (w.connections[o]?).bind fun c =>
    match c.sendMutex with
    | some (.wrote n) =>
        (c.sendBuffer.advance n).map fun b =>
          if 0 < b.size then
            w.setConnection o { c with sendMutex := some .flushing, sendBuffer := b }
          else w.leaveSend o { c with sendBuffer := b }
    | _ => none

/-! ## Runs -/

/-- A step of a thread. -/
inductive Action
  | accept (tid : Tid) (fd : Fd)
  | enqueueNewConnection (tid : Tid)
  | enqueueElsewhere (tid : Tid)
  | announce (tid : Tid)
  | openFd (fd : Fd)
  | closeFd (fd : Fd)
  | shutdownFd (fd : Fd)
  | send (tid : Tid) (o : ℕ) (data : List UInt8)
  | lock (tid : Tid)
  | insideSend (tid : Tid)
  | epollWait (events : List Event)
  | proceed
  | disconnect
  | close (o : ℕ) (force : Bool)
  | lockSend
  | writeFd (result : WriteResult)
  | advance
deriving DecidableEq

/-- The state after a step, if it is enabled. -/
def next (capacity : ℕ) (w : World) : Action → Option World
  | .accept tid fd => w.accept tid fd
  | .enqueueNewConnection tid => w.enqueueNewConnection tid
  | .enqueueElsewhere tid => w.enqueueElsewhere tid
  | .announce tid => w.announce capacity tid
  | .openFd fd => w.openFd fd
  | .closeFd fd => w.closeFd fd
  | .shutdownFd fd => w.shutdownFd fd
  | .send tid o data => w.send tid o data
  | .lock tid => w.lock tid
  | .insideSend tid => w.insideSend capacity tid
  | .epollWait events => w.epollWait events
  | .proceed => w.proceed
  | .disconnect => w.disconnect
  | .close o force => w.close o force
  | .lockSend => w.lockSend
  | .writeFd result => w.writeFd result
  | .advance => w.advance

/-- The runs of a `SubReactor` with any number of threads and a pipe of the given
capacity. -/
def system (capacity : ℕ) : TransitionSystem World Action :=
  TransitionSystem.ofFunction start (next capacity)

/-- The steps of a thread that accepts `fd` and passes it on. -/
def acceptSteps (tid : Tid) (fd : Fd) : List Action :=
  [.accept tid fd, .enqueueNewConnection tid, .announce tid]

/-- The steps of a whole `send` that finds the lock free. -/
def sendSteps (tid : Tid) (o : ℕ) (data : List UInt8) : List Action :=
  [.send tid o data, .lock tid, .insideSend tid, .insideSend tid, .insideSend tid,
    .insideSend tid]

/-- The steps of the reactor thread from the event of the pipe to the swap of
`sendQueue_`, with `arrivals` descriptors in `newConnections_`. -/
def pipeSteps (arrivals : ℕ) : List Action :=
  .epollWait [.pipe] :: List.replicate (arrivals + 5) .proceed

/-! ## What each step does -/

variable {capacity : ℕ} {w w' : World} {tid : Tid} {fd : Fd} {o : ℕ}

/-- `accept` opens a number that is not in use. -/
theorem accept_cases (h : w.accept tid fd = some w') :
    w.senders tid = .idle ∧ w.fdTable fd = none ∧
      w' = (w.openSocket fd (.accepted tid)).setSender tid (.accepted fd) := by
  unfold accept at h
  split_ifs at h with hguard
  exact ⟨hguard.1, hguard.2, (Option.some.inj h).symm⟩

/-- `enqueueNewConnection` passes on the descriptor its thread holds. -/
theorem enqueueNewConnection_cases (h : w.enqueueNewConnection tid = some w') :
    ∃ fd wake, w.senders tid = .accepted fd ∧ w.wake.push tid .newConnections fd = some wake ∧
      w' = ((w.setOwner fd .queued).setSender tid .announcing).setWake wake := by
  unfold enqueueNewConnection at h
  split at h
  · rename_i fd hpc
    obtain ⟨wake, hwake, rfl⟩ := Option.map_eq_some_iff.mp h
    exact ⟨fd, wake, hpc, hwake, rfl⟩
  · exact absurd h.symm (Option.some_ne_none _)

/-- `enqueueElsewhere` lets go of the descriptor its thread holds. -/
theorem enqueueElsewhere_cases (h : w.enqueueElsewhere tid = some w') :
    ∃ fd, w.senders tid = .accepted fd ∧
      w' = (w.setOwner fd .elsewhere).setSender tid .idle := by
  unfold enqueueElsewhere at h
  split at h
  · rename_i fd hpc
    exact ⟨fd, hpc, (Option.some.inj h).symm⟩
  · exact absurd h.symm (Option.some_ne_none _)

/-- The write to the pipe after it. -/
theorem announce_cases (h : w.announce capacity tid = some w') :
    ∃ wake, w.senders tid = .announcing ∧ w.wake.notify capacity tid = some wake ∧
      w' = (w.setSender tid .idle).setWake wake := by
  unfold announce at h
  split_ifs at h with hpc
  obtain ⟨wake, hwake, rfl⟩ := Option.map_eq_some_iff.mp h
  exact ⟨wake, hpc, hwake, rfl⟩

/-- A foreign descriptor is opened. -/
theorem openFd_cases (h : w.openFd fd = some w') :
    w.fdTable fd = none ∧ w' = w.openSocket fd .foreign := by
  unfold openFd at h
  split_ifs at h with hfree
  exact ⟨hfree, (Option.some.inj h).symm⟩

/-- A number is closed from outside the reactor. -/
theorem closeFd_cases (h : w.closeFd fd = some w') :
    w.fdTable fd ≠ none ∧
      w' = { w with
        epoll := Function.update w.epoll fd none
        fdTable := Function.update w.fdTable fd none } := by
  unfold closeFd at h
  split_ifs at h with hopen
  exact ⟨hopen, (Option.some.inj h).symm⟩

/-- `shutdown` concerns only the socket. -/
theorem shutdownRead_eq (w : World) (fd : Fd) :
    ∃ shut, w.shutdownRead fd = { w with shut := shut } := by
  unfold shutdownRead
  split
  · exact ⟨w.shut, rfl⟩
  · exact ⟨_, rfl⟩

/-- A number is shut for reading from outside the reactor. -/
theorem shutdownFd_cases (h : w.shutdownFd fd = some w') :
    ∃ shut, w' = { w with shut := shut } := by
  unfold shutdownFd at h
  split_ifs at h with hopen
  obtain ⟨shut, heq⟩ := w.shutdownRead_eq fd
  exact ⟨shut, (Option.some.inj h).symm.trans heq⟩

/-- `send` tests `tryClose_`. -/
theorem send_cases {data : List UInt8} (h : w.send tid o data = some w') :
    w.senders tid = .idle ∧ (w' = w ∨ w' = w.setSender tid (.checked o data)) := by
  unfold send at h
  split_ifs at h with hpc
  obtain ⟨c, hc, hw⟩ := Option.map_eq_some_iff.mp h
  split_ifs at hw with hclose
  · exact ⟨hpc, Or.inl hw.symm⟩
  · exact ⟨hpc, Or.inr hw.symm⟩

/-- `send` takes a free lock. -/
theorem lock_cases (h : w.lock tid = some w') :
    ∃ o data c, w.senders tid = .checked o data ∧ w.connections[o]? = some c ∧
      c.sendMutex = none ∧
      w' = (w.setConnection o { c with
        sendMutex := some (.entering tid data)
        accepted := c.accepted ++ [data] }).setSender tid (.inside o) := by
  unfold lock at h
  split at h
  · rename_i o data hpc
    obtain ⟨c, hc, hw⟩ := Option.bind_eq_some_iff.mp h
    split_ifs at hw with hfree
    exact ⟨o, data, c, hpc, hc, hfree, (Option.some.inj hw).symm⟩
  · exact absurd h.symm (Option.some_ne_none _)

/-- Under the lock, `send` writes the buffer, pushes the descriptor, writes to the
pipe and releases the lock. -/
theorem insideSend_cases (h : w.insideSend capacity tid = some w') :
    ∃ o c, w.senders tid = .inside o ∧ w.connections[o]? = some c ∧
      ((∃ data b, c.sendMutex = some (.entering tid data) ∧ c.sendBuffer.write data = some b ∧
          w' = w.setConnection o { c with
            sendMutex := some (.pushing tid), sendBuffer := b }) ∨
        (∃ wake, c.sendMutex = some (.pushing tid) ∧
          w.wake.push tid .sendQueue c.fdWrapper.fd = some wake ∧
          w' = (w.setConnection o { c with sendMutex := some (.notifying tid) }).setWake wake) ∨
        (∃ wake, c.sendMutex = some (.notifying tid) ∧ w.wake.notify capacity tid = some wake ∧
          w' = (w.setConnection o { c with sendMutex := some (.leaving tid) }).setWake wake) ∨
        (c.sendMutex = some (.leaving tid) ∧
          w' = (w.setConnection o { c with sendMutex := none }).setSender tid .idle)) := by
  unfold insideSend at h
  split at h
  · rename_i o hpc
    obtain ⟨c, hc, hw⟩ := Option.bind_eq_some_iff.mp h
    refine ⟨o, c, hpc, hc, ?_⟩
    split at hw
    · rename_i t data hmutex
      split_ifs at hw with ht
      subst ht
      obtain ⟨b, hb, rfl⟩ := Option.map_eq_some_iff.mp hw
      exact Or.inl ⟨data, b, hmutex, hb, rfl⟩
    · rename_i t hmutex
      split_ifs at hw with ht
      subst ht
      obtain ⟨wake, hwake, rfl⟩ := Option.map_eq_some_iff.mp hw
      exact Or.inr (Or.inl ⟨wake, hmutex, hwake, rfl⟩)
    · rename_i t hmutex
      split_ifs at hw with ht
      subst ht
      obtain ⟨wake, hwake, rfl⟩ := Option.map_eq_some_iff.mp hw
      exact Or.inr (Or.inr (Or.inl ⟨wake, hmutex, hwake, rfl⟩))
    · rename_i t hmutex
      split_ifs at hw with ht
      subst ht
      exact Or.inr (Or.inr (Or.inr ⟨hmutex, (Option.some.inj hw).symm⟩))
    · exact absurd hw.symm (Option.some_ne_none _)
  · exact absurd h.symm (Option.some_ne_none _)

/-- `addEpollFd` concerns only the registration. -/
theorem addEpollFd_eq (w : World) (fdw : FdWrapper) :
    ∃ epoll, w.addEpollFd fdw = { w with epoll := epoll } := by
  unfold addEpollFd
  split_ifs
  · exact ⟨_, rfl⟩
  · exact ⟨w.epoll, rfl⟩

/-- The connection that `createConnection` makes. -/
theorem createConnection_eq (w : World) (fd : Fd) :
    ∃ epoll, w.createConnection fd
      = { ({ w with epoll := epoll } : World).setOwner fd (.connection w.connections.length) with
          connections :=
            w.connections ++ [Connection.new fd ((w.fdTable fd).map Descriptor.socket)]
          connectionMap :=
            Function.update w.connectionMap fd (some w.connections.length) } := by
  obtain ⟨epoll, hepoll⟩ := w.addEpollFd_eq ⟨fd, Connection.acceptedEvents⟩
  refine ⟨epoll, ?_⟩
  unfold createConnection
  rw [hepoll]

/-- `epoll_wait` only moves the reactor thread on. -/
theorem epollWait_cases {events : List Event} (h : w.epollWait events = some w') :
    ∃ wake, w.wake.epollWait events = some wake ∧ w' = w.setWake wake := by
  unfold epollWait at h
  split_ifs at h with hreported
  obtain ⟨wake, hwake, rfl⟩ := Option.map_eq_some_iff.mp h
  exact ⟨wake, hwake, rfl⟩

/-- A step that removes a connection neither writes nor makes one. -/
theorem none_of_removal (h : w.removal = some fd) : w.writable = none ∧ w.arrival = none := by
  unfold removal at h
  unfold writable arrival
  cases hstage : w.wake.stage with
  | disconnecting | hangingUp => exact ⟨rfl, rfl⟩
  | _ =>
    rw [hstage] at h
    exact absurd h.symm (Option.some_ne_none _)

/-- A step that writes a connection makes none. -/
theorem none_of_writable (h : w.writable = some fd) : w.arrival = none := by
  unfold writable at h
  unfold arrival
  cases hstage : w.wake.stage with
  | accepting =>
    rw [hstage] at h
    exact absurd h.symm (Option.some_ne_none _)
  | _ => rfl

/-- A step of the reactor thread outside `sendBufferedData` removes a connection, looks
one up to write, makes one, or does none of these. -/
theorem proceed_cases (h : w.proceed = some w') :
    w.sending = none ∧ ∃ wake, w.wake.proceed = some wake ∧
      ((∃ fd, w.removal = some fd ∧ w.writable = none ∧ w.arrival = none ∧
          w' = (w.setWake wake).removeConnection fd) ∨
        (∃ fd, w.writable = some fd ∧ w.arrival = none ∧
          w' = (w.setWake wake).handleWrite fd) ∨
        (∃ fd, w.writable = none ∧ w.arrival = some fd ∧
          w' = (w.setWake wake).createConnection fd) ∨
        (w.writable = none ∧ w.arrival = none ∧ w' = w.setWake wake)) := by
  unfold proceed at h
  split_ifs at h with hsending
  obtain ⟨wake, hwake, hw⟩ := Option.map_eq_some_iff.mp h
  refine ⟨hsending, wake, hwake, ?_⟩
  split at hw
  · rename_i fd hremoval
    obtain ⟨hwritable, harrival⟩ := none_of_removal hremoval
    exact Or.inl ⟨fd, hremoval, hwritable, harrival, hw.symm⟩
  · rename_i fd _ hwritable
    exact Or.inr (Or.inl ⟨fd, hwritable, none_of_writable hwritable, hw.symm⟩)
  · rename_i fd _ hwritable harrival
    exact Or.inr (Or.inr (Or.inl ⟨fd, hwritable, harrival, hw.symm⟩))
  · rename_i _ hwritable harrival
    exact Or.inr (Or.inr (Or.inr ⟨hwritable, harrival, hw.symm⟩))

/-- Turning to `onDisconnected` only moves the reactor thread on. -/
theorem disconnect_cases (h : w.disconnect = some w') :
    ∃ wake, w.wake.disconnect = some wake ∧ w' = w.setWake wake := by
  unfold disconnect at h
  split at h
  · split_ifs at h with hfound
    obtain ⟨wake, hwake, rfl⟩ := Option.map_eq_some_iff.mp h
    exact ⟨wake, hwake, rfl⟩
  · exact absurd h.symm (Option.some_ne_none _)

/-- `disableReadEventAndShutdown` changes the object, the registration and the socket. -/
theorem disableReadEventAndShutdown_eq (w : World) (o : ℕ) (c : Connection) :
    ∃ events registered shut, w.disableReadEventAndShutdown o c
      = { (w.setConnection o { c with
            fdWrapper := { c.fdWrapper with events := events } }).setEpoll c.fdWrapper.fd
              registered with
          shut := shut } := by
  unfold disableReadEventAndShutdown
  obtain ⟨shut, hshut⟩ := shutdownRead_eq _ c.fdWrapper.fd
  exact ⟨_, _, shut, hshut⟩

/-- `close` marks the connection and either removes it or leaves it to be flushed. -/
theorem close_cases {force : Bool} (h : w.close o force = some w') :
    w.sending = none ∧ ∃ c, w.connections[o]? = some c ∧
      (w' = w.disableReadEventAndShutdown o { c with tryClose := true } ∨
        w' = (w.setConnection o { c with
          tryClose := true
          closed := true
          fdWrapper := { c.fdWrapper with events := [] } }).removeConnection c.fdWrapper.fd) := by
  unfold close at h
  split_ifs at h with hguard
  obtain ⟨c, hc, hw⟩ := Option.map_eq_some_iff.mp h
  refine ⟨hguard.1, c, hc, ?_⟩
  split_ifs at hw with hpending
  · exact Or.inl hw.symm
  · exact Or.inr hw.symm

/-- `sendBufferedData` takes a free lock, or returns at once without data. -/
theorem lockSend_cases (h : w.lockSend = some w') :
    ∃ o c, w.sending = some o ∧ w.connections[o]? = some c ∧ c.sendMutex = none ∧
      ((c.sendBuffer.noData ∧ w' = w.setSending none) ∨
        w' = w.setConnection o { c with sendMutex := some .flushing }) := by
  unfold lockSend at h
  obtain ⟨o, ho, h⟩ := Option.bind_eq_some_iff.mp h
  obtain ⟨c, hc, hw⟩ := Option.bind_eq_some_iff.mp h
  split_ifs at hw with hfree hempty
  · exact ⟨o, c, ho, hc, hfree, Or.inl ⟨hempty, (Option.some.inj hw).symm⟩⟩
  · exact ⟨o, c, ho, hc, hfree, Or.inr (Option.some.inj hw).symm⟩

/-- `write` hands a prefix of the contents to the socket, or `sendBufferedData` returns;
then either the error is fatal or the result was 0 or `EAGAIN`. -/
theorem writeFd_cases {result : WriteResult} (h : w.writeFd result = some w') :
    ∃ o c, w.sending = some o ∧ w.connections[o]? = some c ∧ c.sendMutex = some .flushing ∧
      ((∃ n d, result = .accepted n ∧ w.fdTable c.fdWrapper.fd = some d ∧
          n ≤ min c.sendBuffer.size (1024 * 8) ∧
          w' = (w.setConnection o { c with sendMutex := some (.wrote n) }).hand d.socket
            (c.sendBuffer.contents.take n)) ∨
        ((result = .zero ∨ result = .again) ∧ w' = w.leaveSend o c) ∨
        (result = .error ∧ w' = w.leaveSend o { c with fatal := true })) := by
  unfold writeFd at h
  obtain ⟨o, ho, h⟩ := Option.bind_eq_some_iff.mp h
  obtain ⟨c, hc, hw⟩ := Option.bind_eq_some_iff.mp h
  split_ifs at hw with hmutex
  refine ⟨o, c, ho, hc, hmutex, ?_⟩
  cases hd : w.fdTable c.fdWrapper.fd with
  | none =>
    rw [hd] at hw
    cases result with
    | error => exact Or.inr (Or.inr ⟨rfl, (Option.some.inj hw).symm⟩)
    | accepted | zero | again => exact absurd hw.symm (Option.some_ne_none _)
  | some d =>
    rw [hd] at hw
    cases result with
    | accepted n =>
      by_cases hn : 0 < n ∧ n ≤ min c.sendBuffer.size (1024 * 8)
      · simp only [if_pos hn] at hw
        exact Or.inl ⟨n, d, rfl, rfl, hn.2, (Option.some.inj hw).symm⟩
      · simp only [if_neg hn] at hw
        exact absurd hw.symm (Option.some_ne_none _)
    | zero => exact Or.inr (Or.inl ⟨Or.inl rfl, (Option.some.inj hw).symm⟩)
    | again => exact Or.inr (Or.inl ⟨Or.inr rfl, (Option.some.inj hw).symm⟩)
    | error => exact Or.inr (Or.inr ⟨rfl, (Option.some.inj hw).symm⟩)

/-- A `write` that is accepted takes at least one byte. -/
theorem pos_of_writeFd {n : ℕ} (h : w.writeFd (.accepted n) = some w') : 0 < n := by
  unfold writeFd at h
  obtain ⟨o, -, h⟩ := Option.bind_eq_some_iff.mp h
  obtain ⟨c, -, hw⟩ := Option.bind_eq_some_iff.mp h
  split_ifs at hw with hmutex
  cases hd : w.fdTable c.fdWrapper.fd with
  | none =>
    rw [hd] at hw
    exact absurd hw.symm (Option.some_ne_none _)
  | some d =>
    simp only [hd] at hw
    split_ifs at hw with hn
    exact hn.1

/-- `advance` drops what the socket took; the loop goes on while there is more. -/
theorem advance_cases (h : w.advance = some w') :
    ∃ o c n b, w.sending = some o ∧ w.connections[o]? = some c ∧
      c.sendMutex = some (.wrote n) ∧ c.sendBuffer.advance n = some b ∧
      ((0 < b.size ∧
          w' = w.setConnection o { c with sendMutex := some .flushing, sendBuffer := b }) ∨
        (b.size = 0 ∧ w' = w.leaveSend o { c with sendBuffer := b })) := by
  unfold advance at h
  obtain ⟨o, ho, h⟩ := Option.bind_eq_some_iff.mp h
  obtain ⟨c, hc, hw⟩ := Option.bind_eq_some_iff.mp h
  split at hw
  · rename_i n hmutex
    obtain ⟨b, hb, hw⟩ := Option.map_eq_some_iff.mp hw
    refine ⟨o, c, n, b, ho, hc, hmutex, hb, ?_⟩
    split_ifs at hw with hmore
    · exact Or.inl ⟨hmore, hw.symm⟩
    · exact Or.inr ⟨Nat.eq_zero_of_not_pos hmore, hw.symm⟩
  · exact absurd hw.symm (Option.some_ne_none _)

/-! ## The wake-ups of a run -/

/-- A step leaves the wake-ups as they are or is one of their steps. -/
theorem wake_next {a : Action} (h : w.next capacity a = some w') :
    w'.wake = w.wake ∨ ∃ b, w.wake.next capacity b = some w'.wake := by
  cases a with
  | accept =>
    obtain ⟨-, -, rfl⟩ := accept_cases h
    exact Or.inl rfl
  | enqueueNewConnection tid =>
    obtain ⟨fd, wake, -, hwake, rfl⟩ := enqueueNewConnection_cases h
    exact Or.inr ⟨.push tid .newConnections fd, hwake⟩
  | enqueueElsewhere =>
    obtain ⟨fd, -, rfl⟩ := enqueueElsewhere_cases h
    exact Or.inl rfl
  | announce tid =>
    obtain ⟨wake, -, hwake, rfl⟩ := announce_cases h
    exact Or.inr ⟨.notify tid, hwake⟩
  | openFd =>
    obtain ⟨-, rfl⟩ := openFd_cases h
    exact Or.inl rfl
  | closeFd =>
    obtain ⟨-, rfl⟩ := closeFd_cases h
    exact Or.inl rfl
  | shutdownFd =>
    obtain ⟨shut, rfl⟩ := shutdownFd_cases h
    exact Or.inl rfl
  | send =>
    obtain ⟨-, rfl | rfl⟩ := send_cases h <;> exact Or.inl rfl
  | lock =>
    obtain ⟨o, data, c, -, -, -, rfl⟩ := lock_cases h
    exact Or.inl rfl
  | insideSend tid =>
    obtain ⟨o, c, -, -, hcases⟩ := insideSend_cases h
    rcases hcases with ⟨data, b, -, -, rfl⟩ | ⟨wake, -, hwake, rfl⟩ | ⟨wake, -, hwake, rfl⟩ |
      ⟨-, rfl⟩
    · exact Or.inl rfl
    · exact Or.inr ⟨.push tid .sendQueue c.fdWrapper.fd, hwake⟩
    · exact Or.inr ⟨.notify tid, hwake⟩
    · exact Or.inl rfl
  | epollWait events =>
    obtain ⟨wake, hwake, rfl⟩ := epollWait_cases h
    exact Or.inr ⟨.epollWait events, hwake⟩
  | proceed =>
    obtain ⟨-, wake, hwake, hcases⟩ := proceed_cases h
    have hnext : ∃ b, w.wake.next capacity b = some wake := ⟨.proceed, hwake⟩
    rcases hcases with ⟨fd, -, -, -, rfl⟩ | ⟨fd, -, -, rfl⟩ | ⟨fd, -, -, rfl⟩ | ⟨-, -, rfl⟩
    · exact Or.inr hnext
    · right
      unfold handleWrite
      split <;> exact hnext
    · right
      obtain ⟨epoll, heq⟩ := (w.setWake wake).createConnection_eq fd
      rw [heq]
      exact hnext
    · exact Or.inr hnext
  | disconnect =>
    obtain ⟨wake, hwake, rfl⟩ := disconnect_cases h
    exact Or.inr ⟨.disconnect, hwake⟩
  | close o =>
    obtain ⟨-, c, -, rfl | rfl⟩ := close_cases h
    · obtain ⟨events, registered, shut, heq⟩ :=
        w.disableReadEventAndShutdown_eq o { c with tryClose := true }
      rw [heq]
      exact Or.inl rfl
    · exact Or.inl rfl
  | lockSend =>
    obtain ⟨o, c, -, -, -, ⟨-, rfl⟩ | rfl⟩ := lockSend_cases h <;> exact Or.inl rfl
  | writeFd =>
    obtain ⟨o, c, -, -, -, hcases⟩ := writeFd_cases h
    rcases hcases with ⟨n, d, -, -, -, rfl⟩ | ⟨-, rfl⟩ | ⟨-, rfl⟩ <;> exact Or.inl rfl
  | advance =>
    obtain ⟨o, c, n, b, -, -, -, -, ⟨-, rfl⟩ | ⟨-, rfl⟩⟩ := advance_cases h <;> exact Or.inl rfl

/-- The wake-ups of a run are a run of the wake-ups, so what holds of all of these holds in
the whole reactor. -/
theorem wake_reachable (h : (system capacity).Reachable w) :
    (WakeUp.system capacity).Reachable w.wake := by
  induction h with
  | init hstart =>
    rw [hstart]
    exact .init rfl
  | step _ _ hstep ih =>
    rcases wake_next hstep with heq | ⟨b, hb⟩
    · rw [heq]
      exact ih
    · exact .step ih trivial hb

end World

end Muduo
