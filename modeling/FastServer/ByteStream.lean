/-
# One byte stream per connection

`sendQueue_` holds descriptor numbers, and the reactor writes whatever connection a
number maps to when it gets to it.  The bytes that reach the socket of a connection,
followed by those its buffer still owes, are the payloads of its `send` calls in the
order of the lock, as long as every removal closes the descriptor it means.
-/
import FastServer.DescriptorLedger

namespace Muduo

open TransitionSystem

/-! ## The stream of one connection -/

namespace Connection

/-- `c` is faithful to `wire`, the bytes handed to its socket: what went out and what is
owed are together the accepted payloads. -/
structure Faithful (c : Connection) (wire : Memory) : Prop where
  wellFormed : c.sendBuffer.WellFormed
  wrote_le : ∀ n, c.sendMutex = some (.wrote n) → n ≤ c.sendBuffer.size
  stream : wire ++ c.unsent = c.accepted.flatten.map some

/-- A new connection owes nothing and has accepted nothing. -/
theorem faithful_new (fd : Fd) (socket : Option ℕ) : (new fd socket).Faithful [] where
  wellFormed := SimpleBuffer.wellFormed_new 4096
  wrote_le := fun _ h => absurd h.symm (Option.some_ne_none _)
  stream := SimpleBuffer.contents_new 4096

namespace Faithful

variable {c : Connection} {wire : Memory}

/-- Only the mutex, the buffer and the accepted payloads matter. -/
theorem congr (h : c.Faithful wire) {c' : Connection} (hmutex : c'.sendMutex = c.sendMutex)
    (hbuffer : c'.sendBuffer = c.sendBuffer) (haccepted : c'.accepted = c.accepted) :
    c'.Faithful wire := by
  refine ⟨hbuffer ▸ h.wellFormed, ?_, ?_⟩
  · rw [hmutex, hbuffer]
    exact h.wrote_le
  · have hunsent : c'.unsent = c.unsent := by
      unfold unsent
      rw [hmutex, hbuffer]
    rw [hunsent, haccepted]
    exact h.stream

/-- Taking the lock accepts a payload, which is owed from then on. -/
theorem lock (h : c.Faithful wire) (hfree : c.sendMutex = none) (tid : Tid) (data : List UInt8) :
    ({ c with
      sendMutex := some (.entering tid data)
      accepted := c.accepted ++ [data] } : Connection).Faithful wire := by
  have hunsent : c.unsent = c.sendBuffer.contents := by
    unfold unsent
    rw [hfree]
  refine ⟨h.wellFormed, by simp, ?_⟩
  show wire ++ (c.sendBuffer.contents ++ data.map some) = _
  rw [← List.append_assoc, ← hunsent, h.stream, List.flatten_append, List.map_append,
    List.flatten_singleton]

/-- Writing the buffer puts the payload into it. -/
theorem write (h : c.Faithful wire) {tid : Tid} {data : List UInt8} {b : SimpleBuffer}
    (hmutex : c.sendMutex = some (.entering tid data)) (hb : c.sendBuffer.write data = some b) :
    ({ c with sendMutex := some (.pushing tid), sendBuffer := b } : Connection).Faithful
      wire := by
  obtain ⟨b', hb', hwf, hcontents⟩ := h.wellFormed.write data
  obtain rfl : b' = b := Option.some.inj (hb'.symm.trans hb)
  have hunsent : c.unsent = b'.contents := by
    unfold unsent
    rw [hmutex, hcontents]
  refine ⟨hwf, by simp, ?_⟩
  show wire ++ b'.contents = _
  rw [← hunsent, h.stream]

/-- Between two points of a critical section at which the buffer holds all that is owed,
nothing changes. -/
theorem pass (h : c.Faithful wire) (hbefore : c.unsent = c.sendBuffer.contents)
    {m : Option Critical} (hwrote : ∀ n, m ≠ some (.wrote n))
    (hafter : ({ c with sendMutex := m } : Connection).unsent = c.sendBuffer.contents) :
    ({ c with sendMutex := m } : Connection).Faithful wire := by
  refine ⟨h.wellFormed, fun n hn => absurd hn (hwrote n), ?_⟩
  rw [hafter, ← hbefore]
  exact h.stream

/-- `write` moves a prefix of the contents to the socket. -/
theorem hand (h : c.Faithful wire) (hmutex : c.sendMutex = some .flushing) {n : ℕ}
    (hn : n ≤ c.sendBuffer.size) :
    ({ c with sendMutex := some (.wrote n) } : Connection).Faithful
      (wire ++ c.sendBuffer.contents.take n) := by
  have hunsent : c.unsent = c.sendBuffer.contents := by
    unfold unsent
    rw [hmutex]
  refine ⟨h.wellFormed, ?_, ?_⟩
  · intro m hm
    obtain rfl : n = m := Critical.wrote.inj (Option.some.inj hm)
    exact hn
  · show wire ++ c.sendBuffer.contents.take n ++ c.sendBuffer.contents.drop n = _
    rw [List.append_assoc, List.take_append_drop, ← hunsent]
    exact h.stream

/-- `advance` drops it from the buffer. -/
theorem advance (h : c.Faithful wire) {n : ℕ} {b : SimpleBuffer}
    (hmutex : c.sendMutex = some (.wrote n)) (hb : c.sendBuffer.advance n = some b)
    {m : Option Critical} (hm : m = none ∨ m = some .flushing) :
    ({ c with sendMutex := m, sendBuffer := b } : Connection).Faithful wire := by
  obtain ⟨b', hb', hwf, hcontents⟩ := h.wellFormed.advance (h.wrote_le n hmutex)
  obtain rfl : b' = b := Option.some.inj (hb'.symm.trans hb)
  have hunsent : c.unsent = b'.contents := by
    unfold unsent
    rw [hmutex, hcontents]
  have hafter : ({ c with sendMutex := m, sendBuffer := b' } : Connection).unsent
      = b'.contents := by
    rcases hm with rfl | rfl <;> rfl
  refine ⟨hwf, ?_, ?_⟩
  · rcases hm with rfl | rfl <;> simp
  · rw [hafter, ← hunsent]
    exact h.stream

end Faithful

end Connection

/-! ## The invariant -/

namespace World

/-- The invariant of the send path.  The connection in `sendBufferedData` stays mapped;
every connection is faithful to the bytes handed to its socket; a socket that no
connection was made with is handed nothing. -/
structure Invariant (w : World) : Prop where
  ledger : w.ledger.Sound
  sending : ∀ o, w.sending = some o → ∃ fd, w.connectionMap fd = some o
  stream : ∀ (o : ℕ) (c : Connection) (k : ℕ), w.connections[o]? = some c →
    c.socket = some k → ∃ wire, w.sockets[k]? = some wire ∧ c.Faithful wire
  untouched : ∀ k wire, w.sockets[k]? = some wire →
    (∀ o fd, w.ledger.identity o ≠ some (fd, some k)) → wire = []

variable {capacity : ℕ} {w w' : World} {tid : Tid} {fd : Fd} {o : ℕ}

/-- The ledger's entry of a connection. -/
theorem identity_eq {c : Connection} (hc : w.connections[o]? = some c) :
    w.ledger.identity o = some (c.fdWrapper.fd, c.socket) := by
  show (w.connections[o]?).map Connection.identity = _
  rw [hc]
  rfl

/-- Nothing has happened yet. -/
theorem invariant_start : start.Invariant where
  ledger := by
    constructor <;> simp [ledger, start, Sender.holding, WakeUp.arriving, WakeUp.start,
      Stage.unprocessed]
  sending := fun _ h => absurd h.symm (Option.some_ne_none _)
  stream := by simp [start]
  untouched := by simp [start]

namespace Invariant

/-! ### Elementary changes -/

theorem setWake (h : w.Invariant) {wake : WakeUp} (harriving : wake.arriving = w.wake.arriving) :
    (w.setWake wake).Invariant := by
  refine ⟨?_, h.sending, h.stream, h.untouched⟩
  rw [ledger_setWake harriving]
  exact h.ledger

theorem setSender (h : w.Invariant) {p : Sender} (hbefore : (w.senders tid).holding = none)
    (hafter : p.holding = none) : (w.setSender tid p).Invariant := by
  refine ⟨?_, h.sending, h.stream, h.untouched⟩
  rw [ledger_setSender_of_none hbefore hafter]
  exact h.ledger

theorem setSending (h : w.Invariant) {o : Option ℕ}
    (ho : ∀ i, o = some i → ∃ fd, w.connectionMap fd = some i) : (w.setSending o).Invariant :=
  ⟨h.ledger, ho, h.stream, h.untouched⟩

theorem setEpoll (h : w.Invariant) (fd : Fd) (events : Option (List EpollFlag)) :
    (w.setEpoll fd events).Invariant :=
  ⟨h.ledger, h.sending, h.stream, h.untouched⟩

theorem shutdownRead (h : w.Invariant) (fd : Fd) : (w.shutdownRead fd).Invariant := by
  obtain ⟨shut, heq⟩ := w.shutdownRead_eq fd
  rw [heq]
  exact ⟨h.ledger, h.sending, h.stream, h.untouched⟩

/-- A change inside a connection that keeps it faithful. -/
theorem setConnection (h : w.Invariant) {c c' : Connection} (hc : w.connections[o]? = some c)
    (hid : c'.identity = c.identity) (hfaithful : ∀ wire, c.Faithful wire → c'.Faithful wire) :
    (w.setConnection o c').Invariant := by
  have hledger := ledger_setConnection hc hid
  refine ⟨?_, h.sending, ?_, ?_⟩
  · rw [hledger]
    exact h.ledger
  · intro i d k hd hk
    by_cases hi : o = i
    · subst hi
      have hlt : o < w.connections.length := (List.getElem?_eq_some_iff.mp hc).1
      obtain rfl : c' = d := Option.some.inj ((List.getElem?_set_self hlt).symm.trans hd)
      obtain ⟨wire, hwire, hf⟩ := h.stream o c k hc ((Prod.mk.inj hid).2.symm.trans hk)
      exact ⟨wire, hwire, hfaithful wire hf⟩
    · exact h.stream i d k ((List.getElem?_set_ne hi).symm.trans hd) hk
  · intro k wire hwire hunused
    rw [hledger] at hunused
    exact h.untouched k wire hwire hunused

/-- A number is opened on a new socket, which has been handed nothing. -/
theorem openSocket (h : w.Invariant) (hfree : w.fdTable fd = none) (owner : Owner) :
    (w.openSocket fd owner).Invariant := by
  refine ⟨?_, h.sending, ?_, ?_⟩
  · rw [ledger_openSocket]
    exact h.ledger.openSocket hfree owner
  · intro i c k hc hk
    obtain ⟨wire, hwire, hf⟩ := h.stream i c k hc hk
    refine ⟨wire, ?_, hf⟩
    show (w.sockets ++ [[]])[k]? = some wire
    rw [List.getElem?_append_left (List.getElem?_eq_some_iff.mp hwire).1, hwire]
  · intro k wire hwire hunused
    have hwire : (w.sockets ++ [[]])[k]? = some wire := hwire
    by_cases hk : k < w.sockets.length
    · rw [List.getElem?_append_left hk] at hwire
      exact h.untouched k wire hwire hunused
    · rw [List.getElem?_append_right (not_lt.mp hk)] at hwire
      exact List.mem_singleton.mp (List.mem_of_getElem? hwire)

/-- A number that is not on its way to the reactor is removed while no write is going
on. -/
theorem removeConnection (h : w.Invariant) (hsending : w.sending = none)
    (hown : ∀ d ∈ w.fdTable fd, d.owner.onItsWay = false) :
    (w.removeConnection fd).Invariant := by
  refine ⟨?_, ?_, h.stream, h.untouched⟩
  · exact h.ledger.close hown
  · intro i hi
    rw [show (w.removeConnection fd).sending = none from hsending] at hi
    exact absurd hi.symm (Option.some_ne_none _)

/-! ### Accepting threads and the rest of the process -/

theorem accept (h : w.Invariant) (hstep : w.accept tid fd = some w') : w'.Invariant := by
  obtain ⟨hidle, hfree, rfl⟩ := accept_cases hstep
  have hopen := h.openSocket hfree (.accepted tid)
  refine ⟨?_, hopen.sending, hopen.stream, ?_⟩
  · rw [ledger_setSender]
    exact hopen.ledger.hold (Function.update_self _ _ _)
  · rw [ledger_setSender]
    exact hopen.untouched

theorem enqueueNewConnection (h : w.Invariant) (hstep : w.enqueueNewConnection tid = some w') :
    w'.Invariant := by
  obtain ⟨fd, wake, hpc, hwake, rfl⟩ := enqueueNewConnection_cases hstep
  have hledger : (((w.setOwner fd .queued).setSender tid .announcing).setWake wake).ledger
      = w.ledger.enqueue tid fd := by
    have harriving := WakeUp.push_newConnections_arriving hwake
    show ({ ((w.setOwner fd .queued).setSender tid .announcing).ledger with
      arriving := wake.arriving } : Ledger) = _
    rw [ledger_setSender, harriving]
    rfl
  have hhold : w.ledger.holding tid = some fd := by
    show (w.senders tid).holding = some fd
    rw [hpc]
    rfl
  refine ⟨?_, h.sending, h.stream, ?_⟩
  · rw [hledger]
    exact h.ledger.enqueue hhold
  · rw [hledger]
    exact h.untouched

theorem enqueueElsewhere (h : w.Invariant) (hstep : w.enqueueElsewhere tid = some w') :
    w'.Invariant := by
  obtain ⟨fd, hpc, rfl⟩ := enqueueElsewhere_cases hstep
  have hledger : ((w.setOwner fd .elsewhere).setSender tid .idle).ledger
      = w.ledger.passOn tid fd .elsewhere := by
    rw [ledger_setSender]
    rfl
  have hhold : w.ledger.holding tid = some fd := by
    show (w.senders tid).holding = some fd
    rw [hpc]
    rfl
  refine ⟨?_, h.sending, h.stream, ?_⟩
  · rw [hledger]
    exact h.ledger.passOn hhold .elsewhere
  · rw [hledger]
    exact h.untouched

theorem announce (h : w.Invariant) (hstep : w.announce capacity tid = some w') :
    w'.Invariant := by
  obtain ⟨wake, hpc, hwake, rfl⟩ := announce_cases hstep
  exact (h.setSender (by rw [hpc]; rfl) rfl).setWake (WakeUp.notify_arriving hwake)

theorem openFd (h : w.Invariant) (hstep : w.openFd fd = some w') : w'.Invariant := by
  obtain ⟨hfree, rfl⟩ := openFd_cases hstep
  exact h.openSocket hfree .foreign

/-- A descriptor of another part of the process is not mapped, so closing it is a removal
of nothing. -/
theorem closeFd (h : w.Invariant)
    (hown : ∀ d ∈ w.fdTable fd, d.owner = .foreign ∨ d.owner = .elsewhere)
    (hstep : w.closeFd fd = some w') : w'.Invariant := by
  obtain ⟨-, rfl⟩ := closeFd_cases hstep
  have hunmapped : w.connectionMap fd = none := by
    cases hmap : w.connectionMap fd with
    | none => rfl
    | some o =>
      obtain ⟨k, -, hd⟩ := h.ledger.mapped hmap
      exact absurd (hown _ hd) (by simp)
  have hmap : Function.update w.connectionMap fd none = w.connectionMap :=
    Function.update_eq_self_iff.mpr hunmapped.symm
  have hledger : ({ w with
      epoll := Function.update w.epoll fd none
      fdTable := Function.update w.fdTable fd none } : World).ledger = w.ledger.close fd := by
    show _ = ({ w.ledger with
      connectionMap := Function.update w.connectionMap fd none
      fdTable := Function.update w.fdTable fd none } : Ledger)
    rw [hmap]
    rfl
  refine ⟨?_, h.sending, h.stream, h.untouched⟩
  rw [hledger]
  apply h.ledger.close
  intro d hd
  rcases hown d hd with howner | howner <;>
  · rw [howner]
    rfl

theorem shutdownFd (h : w.Invariant) (hstep : w.shutdownFd fd = some w') : w'.Invariant := by
  obtain ⟨shut, rfl⟩ := shutdownFd_cases hstep
  exact ⟨h.ledger, h.sending, h.stream, h.untouched⟩

/-! ### Sending threads -/

theorem send (h : w.Invariant) {data : List UInt8} (hstep : w.send tid o data = some w') :
    w'.Invariant := by
  obtain ⟨hidle, rfl | rfl⟩ := send_cases hstep
  · exact h
  · exact h.setSender (by rw [hidle]; rfl) rfl

theorem lock (h : w.Invariant) (hstep : w.lock tid = some w') : w'.Invariant := by
  obtain ⟨o, data, c, hpc, hc, hfree, rfl⟩ := lock_cases hstep
  refine (h.setConnection hc ?_ fun wire hf => hf.lock hfree tid data).setSender ?_ rfl
  · rfl
  · show (w.senders tid).holding = none
    rw [hpc]
    rfl

theorem insideSend (h : w.Invariant) (hstep : w.insideSend capacity tid = some w') :
    w'.Invariant := by
  obtain ⟨o, c, hpc, hc, hcases⟩ := insideSend_cases hstep
  rcases hcases with ⟨data, b, hmutex, hb, rfl⟩ | ⟨wake, hmutex, hwake, rfl⟩ |
    ⟨wake, hmutex, hwake, rfl⟩ | ⟨hmutex, rfl⟩
  · refine h.setConnection hc ?_ fun wire hf => hf.write hmutex hb
    rfl
  · refine (h.setConnection hc ?_ fun wire hf => hf.pass ?_ ?_ rfl).setWake
      (WakeUp.push_sendQueue_arriving hwake)
    · rfl
    · rw [Connection.unsent, hmutex]
    · simp
  · refine (h.setConnection hc ?_ fun wire hf => hf.pass ?_ ?_ rfl).setWake
      (WakeUp.notify_arriving hwake)
    · rfl
    · rw [Connection.unsent, hmutex]
    · simp
  · refine (h.setConnection hc ?_ fun wire hf => hf.pass ?_ ?_ rfl).setSender ?_ rfl
    · rfl
    · rw [Connection.unsent, hmutex]
    · simp
    · show (w.senders tid).holding = none
      rw [hpc]
      rfl

/-! ### The reactor thread -/

theorem epollWait (h : w.Invariant) {events : List Event}
    (hstep : w.epollWait events = some w') : w'.Invariant := by
  obtain ⟨wake, hwake, rfl⟩ := epollWait_cases hstep
  exact h.setWake (WakeUp.epollWait_arriving hwake)

theorem disconnect (h : w.Invariant) (hstep : w.disconnect = some w') : w'.Invariant := by
  obtain ⟨wake, hwake, rfl⟩ := disconnect_cases hstep
  exact h.setWake (WakeUp.disconnect_arriving hwake)

/-- A connection is made of a descriptor that has arrived.  Its socket has been handed
nothing yet, since no other connection was made with it. -/
theorem createConnection (h : w.Invariant) {wake : WakeUp}
    (hsending : w.sending = none)
    (hperm : w.wake.arriving.Perm (fd :: wake.arriving)) :
    ((w.setWake wake).createConnection fd).Invariant := by
  have hnew : w.ledger.identity w.connections.length = none := by
    show (w.connections[w.connections.length]?).map Connection.identity = none
    rw [List.getElem?_eq_none (le_refl _), Option.map_none]
  have hledger : ((w.setWake wake).createConnection fd).ledger
      = w.ledger.adopt w.connections.length fd wake.arriving := by
    rw [ledger_createConnection]
    rfl
  have hsound := h.ledger.adopt hnew hperm
  obtain ⟨epoll, heq⟩ := (w.setWake wake).createConnection_eq fd
  have hconnections : ((w.setWake wake).createConnection fd).connections
      = w.connections ++ [Connection.new fd ((w.fdTable fd).map Descriptor.socket)] := by
    rw [heq]
    rfl
  have hsockets : ((w.setWake wake).createConnection fd).sockets = w.sockets := by
    rw [heq]
    rfl
  have hidentity : ∀ {i x}, w.ledger.identity i = some x →
      ((w.setWake wake).createConnection fd).ledger.identity i = some x := by
    intro i x hid
    have hi : i ≠ w.connections.length := by
      rintro rfl
      rw [hnew] at hid
      exact Option.some_ne_none _ hid.symm
    rw [hledger]
    exact (Function.update_of_ne hi _ _).trans hid
  refine ⟨?_, ?_, ?_, ?_⟩
  · rw [hledger]
    exact hsound
  · intro i hi
    rw [heq] at hi
    rw [show w.sending = some i from hi] at hsending
    exact absurd hsending (Option.some_ne_none _)
  · intro i c k hc hk
    rw [hsockets]
    rw [hconnections] at hc
    by_cases hi : i < w.connections.length
    · rw [List.getElem?_append_left hi] at hc
      exact h.stream i c k hc hk
    · rw [List.getElem?_append_right (not_lt.mp hi)] at hc
      obtain rfl := List.mem_singleton.mp (List.mem_of_getElem? hc)
      obtain ⟨d, hd, hdk⟩ := Option.map_eq_some_iff.mp hk
      have hlt : k < w.sockets.length := hdk ▸ h.ledger.opened hd
      refine ⟨w.sockets[k], List.getElem?_eq_getElem hlt, ?_⟩
      have hunused : ∀ j fd', w.ledger.identity j ≠ some (fd', some k) := by
        intro j fd' hid
        obtain ⟨k', hq⟩ := h.ledger.queued (hperm.mem_iff.mpr List.mem_cons_self)
        have hq : w.fdTable fd = some ⟨k', .queued⟩ := hq
        have howner := h.ledger.owner hd (hdk ▸ hid)
        rw [hd] at hq
        rw [Option.some.inj hq] at howner
        exact absurd howner (by simp)
      rw [h.untouched k _ (List.getElem?_eq_getElem hlt) hunused]
      exact Connection.faithful_new fd _
  · intro k wire hwire hunused
    rw [hsockets] at hwire
    exact h.untouched k wire hwire fun j fd' hid => hunused j fd' (hidentity hid)

/-- A step of the reactor thread that makes no connection takes no descriptor off its
way. -/
theorem arriving_of_arrival_none {wake : WakeUp} (hwake : w.wake.proceed = some wake)
    (harrival : w.arrival = none) : wake.arriving = w.wake.arriving := by
  rcases WakeUp.proceed_arriving hwake with ⟨-, hsame⟩ | ⟨fds, hstage, hfds, -⟩
  · exact hsame
  · unfold arrival at harrival
    rw [hstage] at harrival
    exact absurd (List.getLast?_eq_none_iff.mp harrival) hfds

/-- A step that makes a connection takes its descriptor, and no other, off its way. -/
theorem arriving_of_arrival {wake : WakeUp} (hwake : w.wake.proceed = some wake)
    (harrival : w.arrival = some fd) : w.wake.arriving.Perm (fd :: wake.arriving) := by
  unfold arrival at harrival
  split at harrival
  · rename_i fds hstage
    have hlast : fds.dropLast ++ [fd] = fds := List.dropLast_append_getLast? fd harrival
    rcases WakeUp.proceed_arriving hwake with ⟨hnone, -⟩ | ⟨fds', hstage', -, hwake'⟩
    · rw [hstage] at hnone
      rw [show fds = [] from hnone] at harrival
      exact absurd harrival.symm (Option.some_ne_none _)
    · obtain rfl : fds = fds' := Stage.accepting.inj (hstage.symm.trans hstage')
      have harriving : w.wake.arriving = fds ++ w.wake.queue .newConnections := by
        unfold WakeUp.arriving
        rw [hstage]
        rfl
      rw [harriving, hwake', ← hlast, List.dropLast_concat, List.append_assoc]
      exact List.perm_middle
  · exact absurd harrival.symm (Option.some_ne_none _)

/-- `handleWrite` enters `sendBufferedData` only for a mapped connection. -/
theorem handleWrite (h : w.Invariant) (fd : Fd) : (w.handleWrite fd).Invariant := by
  unfold World.handleWrite
  split
  · exact h
  · rename_i o ho
    apply h.setSending
    rintro i hi
    obtain rfl := Option.some.inj hi
    exact ⟨fd, ho⟩

theorem proceed (h : w.Invariant)
    (hown : ∀ fd ∈ w.removal, ∀ d ∈ w.fdTable fd, d.owner.isConnection = true)
    (hstep : w.proceed = some w') : w'.Invariant := by
  obtain ⟨hsending, wake, hwake, hcases⟩ := proceed_cases hstep
  rcases hcases with ⟨fd, hremoval, -, harrival, rfl⟩ | ⟨fd, -, harrival, rfl⟩ |
    ⟨fd, -, harrival, rfl⟩ | ⟨-, harrival, rfl⟩
  · exact (h.setWake (arriving_of_arrival_none hwake harrival)).removeConnection hsending
      fun d hd => Owner.onItsWay_of_isConnection (hown fd hremoval d hd)
  · exact (h.setWake (arriving_of_arrival_none hwake harrival)).handleWrite fd
  · exact h.createConnection hsending (arriving_of_arrival hwake harrival)
  · exact h.setWake (arriving_of_arrival_none hwake harrival)

theorem close (h : w.Invariant) {force : Bool}
    (hown : ∃ c ∈ w.connections[o]?, w.connectionMap c.fdWrapper.fd = some o)
    (hstep : w.close o force = some w') : w'.Invariant := by
  obtain ⟨hsending, c, hc, hcases⟩ := close_cases hstep
  obtain ⟨d, hd, hmapped⟩ := hown
  obtain rfl : c = d := Option.some.inj (hc.symm.trans hd)
  rcases hcases with rfl | rfl
  · refine ((h.setConnection hc ?_ fun wire hf => hf.congr ?_ ?_ ?_).setEpoll _ _).shutdownRead _
      <;> rfl
  · -- the number is mapped, so it is that of a connection
    obtain ⟨k, -, hopen⟩ := h.ledger.mapped hmapped
    refine (h.setConnection hc ?_ fun wire hf => hf.congr ?_ ?_ ?_).removeConnection hsending ?_
    · rfl
    · rfl
    · rfl
    · rfl
    · intro e he
      obtain rfl := Option.some.inj (hopen.symm.trans he)
      rfl

theorem lockSend (h : w.Invariant) (hstep : w.lockSend = some w') : w'.Invariant := by
  obtain ⟨o, c, -, hc, hfree, ⟨-, rfl⟩ | rfl⟩ := lockSend_cases hstep
  · exact h.setSending fun i hi => absurd hi.symm (Option.some_ne_none _)
  · refine h.setConnection hc ?_ fun wire hf => hf.pass ?_ ?_ rfl
    · rfl
    · rw [Connection.unsent, hfree]
    · simp

/-- Leaving `sendBufferedData` from a point where the buffer holds all that is owed. -/
theorem leaveSend (h : w.Invariant) {c c' : Connection} (hc : w.connections[o]? = some c)
    (hid : c'.identity = c.identity)
    (hfaithful : ∀ wire, c.Faithful wire →
      ({ c' with sendMutex := none } : Connection).Faithful wire) :
    (w.leaveSend o c').Invariant :=
  have hleft : (w.setConnection o { c' with sendMutex := none }).Invariant :=
    h.setConnection hc hid hfaithful
  hleft.setSending fun _ hi => absurd hi.symm (Option.some_ne_none _)

/-- The bytes of a `write` go to the socket that the connection was made with, since the
connection is still mapped. -/
theorem writeFd (h : w.Invariant) {result : WriteResult} (hstep : w.writeFd result = some w') :
    w'.Invariant := by
  obtain ⟨o, c, ho, hc, hmutex, hcases⟩ := writeFd_cases hstep
  have hunsent : c.unsent = c.sendBuffer.contents := by rw [Connection.unsent, hmutex]
  have hleave : ∀ wire, c.Faithful wire →
      ({ c with sendMutex := none } : Connection).Faithful wire :=
    fun wire hf => hf.pass hunsent (by simp) rfl
  rcases hcases with ⟨n, d, -, hd, hn, rfl⟩ | ⟨-, rfl⟩ | ⟨-, rfl⟩
  · obtain ⟨fd, hfd⟩ := h.sending o ho
    obtain ⟨k, hid, hopen⟩ := h.ledger.mapped hfd
    obtain ⟨hfdc, hk⟩ := Prod.mk.inj (Option.some.inj ((identity_eq hc).symm.trans hid))
    have hopen : w.fdTable fd = some ⟨k, .connection o⟩ := hopen
    obtain rfl : d = ⟨k, .connection o⟩ := by
      rw [hfdc, hopen] at hd
      exact (Option.some.inj hd).symm
    have hlt : o < w.connections.length := (List.getElem?_eq_some_iff.mp hc).1
    have hledger : ((w.setConnection o { c with sendMutex := some (.wrote n) }).hand k
        (c.sendBuffer.contents.take n)).ledger = w.ledger := by
      rw [ledger_hand]
      exact ledger_setConnection hc rfl
    refine ⟨?_, h.sending, ?_, ?_⟩
    · rw [hledger]
      exact h.ledger
    · intro i e k' he hk'
      show ∃ wire, (w.sockets.modify k (· ++ c.sendBuffer.contents.take n))[k']? = some wire ∧ _
      by_cases hi : o = i
      · subst hi
        obtain rfl := Option.some.inj ((List.getElem?_set_self hlt).symm.trans he)
        obtain rfl : k = k' := Option.some.inj (hk.symm.trans hk')
        obtain ⟨wire, hwire, hf⟩ := h.stream o c k hc hk
        refine ⟨wire ++ c.sendBuffer.contents.take n, ?_,
          hf.hand hmutex (hn.trans (min_le_left _ _))⟩
        rw [List.getElem?_modify_eq, hwire]
        rfl
      · have he : w.connections[i]? = some e := (List.getElem?_set_ne hi).symm.trans he
        obtain ⟨wire, hwire, hf⟩ := h.stream i e k' he hk'
        -- distinct connections were made with distinct sockets
        have hne : k ≠ k' := by
          rintro rfl
          have hide := identity_eq he
          rw [hk'] at hide
          exact hi (h.ledger.distinct hid hide)
        refine ⟨wire, ?_, hf⟩
        rw [List.getElem?_modify_ne _ _ hne, hwire]
    · intro k' wire hwire hunused
      rw [hledger] at hunused
      have hne : k ≠ k' := by
        rintro rfl
        exact hunused o fd hid
      apply h.untouched k' wire _ hunused
      exact (List.getElem?_modify_ne _ _ hne).symm.trans hwire
  · exact h.leaveSend hc rfl hleave
  · refine h.leaveSend hc ?_ fun wire hf => (hleave wire hf).congr ?_ ?_ ?_ <;> rfl

theorem advance (h : w.Invariant) (hstep : w.advance = some w') : w'.Invariant := by
  obtain ⟨o, c, n, b, -, hc, hmutex, hb, ⟨-, rfl⟩ | ⟨-, rfl⟩⟩ := advance_cases hstep
  · refine h.setConnection hc ?_ fun wire hf => hf.advance hmutex hb (Or.inr rfl)
    rfl
  · refine h.leaveSend hc ?_ fun wire hf => hf.advance hmutex hb (Or.inl rfl)
    rfl

end Invariant

/-! ## Runs -/

/-- The step closes only what is its own: a removal in `handleEvent` finds the number open
for a connection of this reactor, or not open; the other parts of the process, and among
them the other reactors, close numbers that are open for themselves; and `close` is called
on a connection in `connectionMap_`. -/
def ClosesOwn (w : World) : Action → Prop
  | .proceed => ∀ fd ∈ w.removal, ∀ d ∈ w.fdTable fd, d.owner.isConnection = true
  | .closeFd fd => ∀ d ∈ w.fdTable fd, d.owner = .foreign ∨ d.owner = .elsewhere
  | .close o _ => ∃ c ∈ w.connections[o]?, w.connectionMap c.fdWrapper.fd = some o
  | _ => True

instance (w : World) : DecidablePred w.ClosesOwn
  | .proceed =>
      inferInstanceAs (Decidable
        (∀ fd ∈ w.removal, ∀ d ∈ w.fdTable fd, d.owner.isConnection = true))
  | .closeFd fd =>
      inferInstanceAs (Decidable
        (∀ d ∈ w.fdTable fd, d.owner = .foreign ∨ d.owner = .elsewhere))
  | .close o _ =>
      inferInstanceAs (Decidable
        (∃ c ∈ w.connections[o]?, w.connectionMap c.fdWrapper.fd = some o))
  | .accept .. | .enqueueNewConnection .. | .enqueueElsewhere .. | .announce .. | .openFd .. |
    .shutdownFd .. | .send .. | .lock .. | .insideSend .. | .epollWait .. | .disconnect |
    .lockSend | .writeFd .. | .advance => .isTrue trivial

/-- **A step** that closes only what is its own keeps the invariant. -/
theorem Invariant.next (h : w.Invariant) {a : Action} (hown : w.ClosesOwn a)
    (hstep : w.next capacity a = some w') : w'.Invariant := by
  cases a with
  | accept => exact h.accept hstep
  | enqueueNewConnection => exact h.enqueueNewConnection hstep
  | enqueueElsewhere => exact h.enqueueElsewhere hstep
  | announce => exact h.announce hstep
  | openFd => exact h.openFd hstep
  | closeFd => exact h.closeFd hown hstep
  | shutdownFd => exact h.shutdownFd hstep
  | send => exact h.send hstep
  | lock => exact h.lock hstep
  | insideSend => exact h.insideSend hstep
  | epollWait => exact h.epollWait hstep
  | proceed => exact h.proceed hown hstep
  | disconnect => exact h.disconnect hstep
  | close => exact h.close hown hstep
  | lockSend => exact h.lockSend hstep
  | writeFd => exact h.writeFd hstep
  | advance => exact h.advance hstep

/-- The invariant holds along every run in which each step closes only what is its own. -/
theorem invariant_of_closesOwn (h : (system capacity).ReachableBy ClosesOwn w) : w.Invariant := by
  apply h.invariant
  · rintro w rfl
    exact invariant_start
  · intro w a w' hw hown hstep
    exact hw.next hown hstep

/-- Every connection has its byte stream to itself: the bytes handed to the socket it was
made with, followed by what its buffer owes, are its accepted payloads in the order
of the lock; no two connections share a socket, and no other socket is handed
anything. -/
structure StreamsIntact (w : World) : Prop where
  own : ∀ c ∈ w.connections, ∃ k ∈ c.socket, ∃ wire ∈ w.sockets[k]?,
    wire ++ c.unsent = c.accepted.flatten.map some
  distinct : (w.connections.map Connection.socket).Nodup
  others : ∀ (k : ℕ) (wire : Memory), w.sockets[k]? = some wire → wire ≠ [] →
    ∃ c ∈ w.connections, c.socket = some k

/-- The invariant says that the streams are intact. -/
theorem Invariant.streamsIntact (h : w.Invariant) : w.StreamsIntact where
  own := by
    intro c hmem
    obtain ⟨o, hc⟩ := List.mem_iff_getElem?.mp hmem
    obtain ⟨k, -, hk⟩ := h.ledger.made (identity_eq hc)
    obtain ⟨wire, hwire, hf⟩ := h.stream o c k hc hk
    exact ⟨k, hk, wire, hwire, hf.stream⟩
  distinct := by
    rw [List.nodup_iff_getElem?_ne_getElem?]
    intro i j hij hj hsame
    rw [List.length_map] at hj
    have hi : i < w.connections.length := hij.trans hj
    have hci := identity_eq (List.getElem?_eq_getElem hi)
    have hcj := identity_eq (List.getElem?_eq_getElem hj)
    obtain ⟨k, -, hk⟩ := h.ledger.made hci
    have hk' : w.connections[j].socket = some k := by
      rw [List.getElem?_map, List.getElem?_map, List.getElem?_eq_getElem hi,
        List.getElem?_eq_getElem hj, Option.map_some, Option.map_some] at hsame
      rw [← Option.some.inj hsame, hk]
    rw [hk] at hci
    rw [hk'] at hcj
    exact absurd (h.ledger.distinct hci hcj) (Nat.ne_of_lt hij)
  others := by
    intro k wire hwire hne
    by_contra hnone
    apply hne
    apply h.untouched k wire hwire
    intro o fd hid
    obtain ⟨c, hc, hcid⟩ := Option.map_eq_some_iff.mp hid
    exact hnone ⟨c, List.mem_of_getElem? hc, (Prod.mk.inj hcid).2⟩

/-- **One stream per connection.**  In every run in which each step closes only what is its
own, whatever the threads do and whatever each `write` accepts, the streams are intact. -/
theorem streamsIntact_of_closesOwn (h : (system capacity).ReachableBy ClosesOwn w) :
    w.StreamsIntact :=
  (invariant_of_closesOwn h).streamsIntact

/-- Two threads send on a connection whose socket takes its bytes in pieces; the peer
leaves, its number is given to a second connection, and both connections are sent on. -/
def reusedNumber : List Action :=
  List.flatten [acceptSteps 0 5, pipeSteps 1, [.proceed, .proceed],
    sendSteps 1 0 [1, 2, 3], sendSteps 2 0 [4], pipeSteps 0,
    [.proceed, .lockSend, .writeFd (.accepted 2), .advance, .writeFd .again],
    [.proceed, .lockSend, .writeFd (.accepted 1), .advance, .writeFd .zero],
    [.proceed, .proceed],
    [.epollWait [.connection ⟨5, [.EPOLLIN]⟩], .proceed, .disconnect],
    [.proceed, .proceed, .proceed, .proceed],
    acceptSteps 0 5, sendSteps 1 0 [5], pipeSteps 1, sendSteps 2 1 [6],
    [.proceed, .lockSend, .writeFd (.accepted 1), .advance]]

/-- The first connection keeps the bytes it still owes, and the second socket receives
its own byte only. -/
theorem streamsIntact_reusedNumber :
    ∃ w, (system 65536).ReachableBy ClosesOwn w ∧
      w.sockets = [[some 1, some 2, some 3], [some 6]] ∧
      w.connections.map Connection.unsent = [[some 4, some 5], []] ∧ w.StreamsIntact := by
  have hrun : ∃ w ∈ runFrom (next 65536) ClosesOwn start reusedNumber,
      w.sockets = [[some 1, some 2, some 3], [some 6]] ∧
        w.connections.map Connection.unsent = [[some 4, some 5], []] := by decide +kernel
  obtain ⟨w, hreach, hsockets, hunsent⟩ := exists_of_runFrom hrun
  exact ⟨w, hreach, hsockets, hunsent, streamsIntact_of_closesOwn hreach⟩

/-- One event reports `EPOLLIN` and `EPOLLHUP` for a connection on number 5, and
`onMessage` closes the connection.  Number 5 is accepted anew, the `EPOLLHUP` branch
closes it, and it is accepted once more.  The number then stands in
`newConnections_` twice, and the second of its two connections is sent on. -/
def closedAnew : List Action :=
  List.flatten [acceptSteps 0 5, pipeSteps 1, [.proceed, .proceed],
    [.epollWait [.connection ⟨5, [.EPOLLIN, .EPOLLHUP]⟩], .proceed, .close 0 true],
    acceptSteps 0 5, [.proceed, .proceed, .proceed], acceptSteps 0 5, [.proceed],
    pipeSteps 2, [.proceed, .proceed], sendSteps 1 2 [7], pipeSteps 0,
    [.proceed, .lockSend, .writeFd (.accepted 1), .advance]]

/-- **Two connections on one socket.**  The socket of a connection that has accepted
nothing and owes nothing is handed a byte. -/
theorem not_streamsIntact_closedAnew :
    ∃ w, (system 65536).Reachable w ∧
      (∃ c ∈ w.connections, c.socket = some 2 ∧ c.accepted = [] ∧ c.unsent = [] ∧
        w.sockets[2]? = some [some 7]) ∧ ¬ w.StreamsIntact := by
  have hrun : ∃ w ∈ runFrom (next 65536) (fun _ _ => True) start closedAnew,
      ∃ c ∈ w.connections, c.socket = some 2 ∧ c.accepted = [] ∧ c.unsent = [] ∧
        w.sockets[2]? = some [some 7] := by decide +kernel
  obtain ⟨w, hreach, c, hc, hsocket, haccepted, hunsent, hwire⟩ := exists_of_runFrom hrun
  refine ⟨w, hreach, ⟨c, hc, hsocket, haccepted, hunsent, hwire⟩, ?_⟩
  intro hintact
  obtain ⟨k, hk, wire, hwire', hstream⟩ := hintact.own c hc
  obtain rfl : 2 = k := Option.some.inj (hsocket.symm.trans hk)
  obtain rfl : [some 7] = wire := Option.some.inj (hwire.symm.trans hwire')
  rw [hunsent, haccepted] at hstream
  exact absurd hstream (by simp)

end World

end Muduo
