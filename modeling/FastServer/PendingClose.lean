/-
# Closing once everything is sent

`Connection::close(false)` with bytes left to send only sets `tryClose_` and shuts the
reading side; the connection is to be removed when `sendBuffer_` has been flushed.
`checkNeedClose` would do so, and `sendBufferedData` does not call it.  Until then a byte
of the buffer is lost only where the connection is taken out of `connectionMap_`, or its
number was closed elsewhere and opened for another socket.
-/
import FastServer.ByteStream
import FastServer.LateClose

namespace Muduo

open TransitionSystem

namespace World

variable {capacity : ℕ} {w w' : World} {tid : Tid} {o : ℕ}

/-! ## What a step does to a connection -/

/-- The changes that the step `a` from `w` to `w'` makes to the connection `c`, which is
`o`. -/
inductive Change (w : World) (a : Action) (w' : World) (o : ℕ) (c : Connection) :
    Connection → Prop
  | same : Change w a w' o c c
  | lock (tid : Tid) (data : List UInt8) : c.sendMutex = none →
      Change w a w' o c { c with
        sendMutex := some (.entering tid data)
        accepted := c.accepted ++ [data] }
  | write (tid : Tid) (data : List UInt8) (b : SimpleBuffer) :
      c.sendMutex = some (.entering tid data) → c.sendBuffer.write data = some b →
      Change w a w' o c { c with sendMutex := some (.pushing tid), sendBuffer := b }
  | pass (m : Option Critical) : c.unsent = c.sendBuffer.contents →
      (∀ n, m ≠ some (.wrote n)) →
      ({ c with sendMutex := m } : Connection).unsent = c.sendBuffer.contents →
      Change w a w' o c { c with sendMutex := m }
  | fail : c.sendMutex = some .flushing →
      Change w a w' o c { c with sendMutex := none, fatal := true }
  | hand (n : ℕ) (d : Descriptor) : a = .writeFd (.accepted n) → w.sending = some o →
      c.sendMutex = some .flushing → n ≤ c.sendBuffer.size →
      w.fdTable c.fdWrapper.fd = some d →
      w'.sockets = w.sockets.modify d.socket (· ++ c.sendBuffer.contents.take n) →
      Change w a w' o c { c with sendMutex := some (.wrote n) }
  | advance (n : ℕ) (b : SimpleBuffer) (m : Option Critical) :
      c.sendMutex = some (.wrote n) → c.sendBuffer.advance n = some b →
      (m = none ∨ m = some .flushing) →
      Change w a w' o c { c with sendMutex := m, sendBuffer := b }
  | close (tryClose closed : Bool) (fdWrapper : FdWrapper) :
      Change w a w' o c { c with
        tryClose := tryClose, closed := closed, fdWrapper := fdWrapper }

/-- The objects other than the one that is set stay the same. -/
theorem change_setConnection {a : Action} {c c' d : Connection} {i : ℕ}
    (hc : w.connections[i]? = some c) (hlist : w'.connections = w.connections.set i c')
    (hchange : Change w a w' i c c') (hd : w.connections[o]? = some d) :
    ∃ d', w'.connections[o]? = some d' ∧ Change w a w' o d d' := by
  rw [hlist]
  by_cases hi : i = o
  · subst hi
    obtain rfl : c = d := Option.some.inj (hc.symm.trans hd)
    exact ⟨c', List.getElem?_set_self (List.getElem?_eq_some_iff.mp hc).1, hchange⟩
  · exact ⟨d, (List.getElem?_set_ne hi).trans hd, .same⟩

/-- **What a step does to a connection.** -/
theorem change_next {a : Action} (h : w.next capacity a = some w') {c : Connection}
    (hc : w.connections[o]? = some c) :
    ∃ c', w'.connections[o]? = some c' ∧ Change w a w' o c c' := by
  have hsame : w'.connections = w.connections →
      ∃ c', w'.connections[o]? = some c' ∧ Change w a w' o c c' := by
    intro heq
    exact ⟨c, heq ▸ hc, .same⟩
  cases a with
  | accept =>
    obtain ⟨-, -, rfl⟩ := accept_cases h
    exact hsame rfl
  | enqueueNewConnection =>
    obtain ⟨fd, wake, -, -, rfl⟩ := enqueueNewConnection_cases h
    exact hsame rfl
  | enqueueElsewhere =>
    obtain ⟨fd, -, rfl⟩ := enqueueElsewhere_cases h
    exact hsame rfl
  | announce =>
    obtain ⟨wake, -, -, rfl⟩ := announce_cases h
    exact hsame rfl
  | openFd =>
    obtain ⟨-, rfl⟩ := openFd_cases h
    exact hsame rfl
  | closeFd =>
    obtain ⟨-, rfl⟩ := closeFd_cases h
    exact hsame rfl
  | shutdownFd =>
    obtain ⟨shut, rfl⟩ := shutdownFd_cases h
    exact hsame rfl
  | send =>
    obtain ⟨-, rfl | rfl⟩ := send_cases h <;> exact hsame rfl
  | lock tid =>
    obtain ⟨i, data, d, -, hd, hfree, rfl⟩ := lock_cases h
    exact change_setConnection hd rfl (.lock tid data hfree) hc
  | insideSend tid =>
    obtain ⟨i, d, -, hd, hcases⟩ := insideSend_cases h
    rcases hcases with ⟨data, b, hmutex, hb, rfl⟩ | ⟨wake, hmutex, -, rfl⟩ |
      ⟨wake, hmutex, -, rfl⟩ | ⟨hmutex, rfl⟩
    · exact change_setConnection hd rfl (.write tid data b hmutex hb) hc
    all_goals
      refine change_setConnection hd rfl (.pass _ ?_ (by simp) rfl) hc
      rw [Connection.unsent, hmutex]
  | epollWait =>
    obtain ⟨wake, -, rfl⟩ := epollWait_cases h
    exact hsame rfl
  | proceed =>
    obtain ⟨-, wake, -, hcases⟩ := proceed_cases h
    rcases hcases with ⟨fd, -, -, -, rfl⟩ | ⟨fd, -, -, rfl⟩ | ⟨fd, -, -, rfl⟩ | ⟨-, -, rfl⟩
    · exact hsame rfl
    · unfold handleWrite at hsame ⊢
      split at hsame <;> exact hsame rfl
    · obtain ⟨epoll, heq⟩ := (w.setWake wake).createConnection_eq fd
      rw [heq]
      refine ⟨c, ?_, .same⟩
      exact (List.getElem?_append_left (List.getElem?_eq_some_iff.mp hc).1).trans hc
    · exact hsame rfl
  | disconnect =>
    obtain ⟨wake, -, rfl⟩ := disconnect_cases h
    exact hsame rfl
  | close i =>
    obtain ⟨-, d, hd, rfl | rfl⟩ := close_cases h
    · obtain ⟨events, registered, shut, heq⟩ :=
        w.disableReadEventAndShutdown_eq i { d with tryClose := true }
      rw [heq]
      refine change_setConnection hd rfl ?_ hc
      exact .close true d.closed { d.fdWrapper with events := events }
    · refine change_setConnection hd rfl ?_ hc
      exact .close true true { d.fdWrapper with events := [] }
  | lockSend =>
    obtain ⟨i, d, -, hd, hfree, ⟨-, rfl⟩ | rfl⟩ := lockSend_cases h
    · exact hsame rfl
    · refine change_setConnection hd rfl (.pass _ ?_ (by simp) rfl) hc
      rw [Connection.unsent, hfree]
  | writeFd =>
    obtain ⟨i, d, hi, hd, hmutex, hcases⟩ := writeFd_cases h
    have hunsent : d.unsent = d.sendBuffer.contents := by
      rw [Connection.unsent, hmutex]
    rcases hcases with ⟨n, k, rfl, hk, hn, rfl⟩ | ⟨-, rfl⟩ | ⟨-, rfl⟩
    · exact change_setConnection hd rfl
        (.hand n k rfl hi hmutex (hn.trans (Nat.min_le_left _ _)) hk rfl) hc
    · exact change_setConnection hd rfl (.pass none hunsent (by simp) rfl) hc
    · exact change_setConnection hd rfl (.fail hmutex) hc
  | advance =>
    obtain ⟨i, d, n, b, -, hd, hmutex, hb, ⟨-, rfl⟩ | ⟨-, rfl⟩⟩ := advance_cases h
    · exact change_setConnection hd rfl (.advance n b _ hmutex hb (Or.inr rfl)) hc
    · exact change_setConnection hd rfl (.advance n b _ hmutex hb (Or.inl rfl)) hc

/-- As many numbers, as many objects. -/
theorem length_connections_of_numbers (h : w'.numbers = w.numbers) :
    w'.connections.length = w.connections.length := by
  have hlength := congrArg List.length h
  unfold numbers at hlength
  rwa [List.length_map, List.length_map] at hlength

/-- An object that a step makes is new. -/
theorem new_of_next {a : Action} (h : w.next capacity a = some w') {c : Connection}
    (hnone : w.connections[o]? = none) (hc : w'.connections[o]? = some c) :
    ∃ fd socket, c = Connection.new fd socket := by
  have hkept : w'.connections.length ≠ w.connections.length := by
    have hlt := (List.getElem?_eq_some_iff.mp hc).1
    have hge := List.getElem?_eq_none_iff.mp hnone
    omega
  cases ha : a.tearsDown with
  | false => exact absurd (length_connections_of_numbers (sameEntries ha h).numbers) hkept
  | true =>
    cases a with
    | epollWait =>
      obtain ⟨wake, -, rfl⟩ := epollWait_cases h
      exact absurd rfl hkept
    | disconnect =>
      obtain ⟨wake, -, rfl⟩ := disconnect_cases h
      exact absurd rfl hkept
    | close => exact absurd (length_connections_of_numbers (close_frame _ h).1) hkept
    | proceed =>
      obtain ⟨-, wake, -, hcases⟩ := proceed_cases h
      rcases hcases with ⟨fd, -, -, -, rfl⟩ | ⟨fd, -, -, rfl⟩ | ⟨fd, -, -, rfl⟩ | ⟨-, -, rfl⟩
      · exact absurd rfl hkept
      · unfold handleWrite at hkept
        split at hkept <;> exact absurd rfl hkept
      · obtain ⟨epoll, heq⟩ := (w.setWake wake).createConnection_eq fd
        rw [heq] at hc
        have hc : (w.connections ++ [_])[o]? = some c := hc
        rw [List.getElem?_append_right (List.getElem?_eq_none_iff.mp hnone)] at hc
        exact ⟨_, _, List.mem_singleton.mp (List.mem_of_getElem? hc)⟩
      · exact absurd rfl hkept
    | _ => exact absurd ha (by simp [Action.tearsDown])

/-! ## No byte is lost -/

/-- The close of the connection `c`, which is `o`, is pending: `tryClose_` is set, bytes are
left in `sendBuffer_`, and the connection is in `connectionMap_`. -/
def ClosePending (w : World) (o : ℕ) (c : Connection) : Prop :=
  c.tryClose = true ∧ 0 < c.sendBuffer.size ∧ ∃ fd, w.connectionMap fd = some o

/-- What `o` owed is still owed, or was handed to the socket of its descriptor.  If its close
is pending, that is the socket it was made with, and it stays in `connectionMap_`, where
the reactor thread finds it to send the rest. -/
def DropsNothing (w w' : World) (o : ℕ) : Prop :=
  ∀ c ∈ w.connections[o]?, (w.ClosePending o c → ∃ fd, w'.connectionMap fd = some o) ∧
    ∃ c' ∈ w'.connections[o]?,
      (∃ data : List UInt8, c'.unsent = c.unsent ++ data.map some) ∨
      ∃ d ∈ w.fdTable c.fdWrapper.fd, (w.ClosePending o c → c.socket = some d.socket) ∧
        ∃ n, c'.unsent = c.unsent.drop n ∧
          w'.sockets = w.sockets.modify d.socket (· ++ c.unsent.take n)

/-- A change keeps the accepted payloads together. -/
theorem Change.faithful {a : Action} {c c' : Connection} (h : Change w a w' o c c')
    (hc : ∃ wire, c.Faithful wire) : ∃ wire, c'.Faithful wire := by
  obtain ⟨wire, hc⟩ := hc
  cases h with
  | same => exact ⟨wire, hc⟩
  | lock tid data hfree => exact ⟨wire, hc.lock hfree tid data⟩
  | write tid data b hmutex hb => exact ⟨wire, hc.write hmutex hb⟩
  | pass m hbefore hwrote hafter => exact ⟨wire, hc.pass hbefore hwrote hafter⟩
  | fail hmutex =>
    have hunsent : c.unsent = c.sendBuffer.contents := by
      rw [Connection.unsent, hmutex]
    have hpass := hc.pass hunsent (m := none) (by simp) rfl
    exact ⟨wire, hpass.congr rfl rfl rfl⟩
  | hand n d _ _ hmutex hn => exact ⟨_, hc.hand hmutex hn⟩
  | advance n b m hmutex hb hm => exact ⟨wire, hc.advance hmutex hb hm⟩
  | close => exact ⟨wire, hc.congr rfl rfl rfl⟩

/-- A change hands bytes to a socket, or leaves all that was owed. -/
theorem Change.keeps {a : Action} {c c' : Connection} (h : Change w a w' o c c')
    (hc : ∃ wire, c.Faithful wire) :
    (∃ data : List UInt8, c'.unsent = c.unsent ++ data.map some) ∨
      ∃ n, a = .writeFd (.accepted n) ∧ w.sending = some o ∧
        ∃ d ∈ w.fdTable c.fdWrapper.fd, c'.unsent = c.unsent.drop n ∧
          w'.sockets = w.sockets.modify d.socket (· ++ c.unsent.take n) := by
  obtain ⟨wire, hc⟩ := hc
  have hsame : c'.unsent = c.unsent →
      ∃ data : List UInt8, c'.unsent = c.unsent ++ data.map some := by
    intro heq
    exact ⟨[], by rw [heq, List.map_nil, List.append_nil]⟩
  cases h with
  | same => exact Or.inl (hsame rfl)
  | lock tid data hfree =>
    have hunsent : c.unsent = c.sendBuffer.contents := by
      rw [Connection.unsent, hfree]
    exact Or.inl ⟨data, by rw [hunsent]; rfl⟩
  | write tid data b hmutex hb =>
    have hkept : wire ++ b.contents = wire ++ c.unsent :=
      (hc.write hmutex hb).stream.trans hc.stream.symm
    exact Or.inl (hsame (List.append_cancel_left hkept))
  | pass m hbefore hwrote hafter => exact Or.inl (hsame (hafter.trans hbefore.symm))
  | fail hmutex =>
    have hunsent : c.unsent = c.sendBuffer.contents := by
      rw [Connection.unsent, hmutex]
    exact Or.inl (hsame hunsent.symm)
  | hand n d ha ho hmutex hn hd hsockets =>
    have hunsent : c.unsent = c.sendBuffer.contents := by
      rw [Connection.unsent, hmutex]
    refine Or.inr ⟨n, ha, ho, d, hd, ?_, ?_⟩
    · rw [hunsent]
      rfl
    · rw [hunsent, hsockets]
  | advance n b m hmutex hb hm =>
    have hkept : wire ++ ({ c with sendMutex := m, sendBuffer := b } : Connection).unsent
        = wire ++ c.unsent := (hc.advance hmutex hb hm).stream.trans hc.stream.symm
    exact Or.inl (hsame (List.append_cancel_left hkept))
  | close => exact Or.inl (hsame rfl)

/-! ## Entries that go -/

/-- The number whose entry in `connectionMap_` the step erases or overwrites. -/
def unmapped (w : World) : Action → Option Fd
  | .proceed => w.removal.or w.arrival
  | .close o force =>
      (w.connections[o]?).bind fun c =>
        if force = false ∧ 0 < c.sendBuffer.size then none else some c.fdWrapper.fd
  | _ => none

/-- A step that erases or overwrites no entry leaves `connectionMap_` as it is, and one that
does erases it or enters a new object. -/
theorem connectionMap_next {a : Action} (h : w.next capacity a = some w') :
    (w.unmapped a = none ∧ w'.connectionMap = w.connectionMap) ∨
      ∃ fd entry, w.unmapped a = some fd ∧
        w'.connectionMap = Function.update w.connectionMap fd entry ∧
        (entry = none ∨ entry = some w.connections.length) := by
  cases ha : a.tearsDown with
  | false =>
    left
    refine ⟨?_, (sameEntries ha h).connectionMap⟩
    cases a with
    | proceed | close => exact absurd ha (by simp [Action.tearsDown])
    | _ => rfl
  | true =>
    cases a with
    | epollWait =>
      obtain ⟨wake, -, rfl⟩ := epollWait_cases h
      exact Or.inl ⟨rfl, rfl⟩
    | disconnect =>
      obtain ⟨wake, -, rfl⟩ := disconnect_cases h
      exact Or.inl ⟨rfl, rfl⟩
    | close o force =>
      have hclose : w.close o force = some w' := h
      unfold close at hclose
      split_ifs at hclose with hguard
      obtain ⟨c, hc, hw⟩ := Option.map_eq_some_iff.mp hclose
      unfold unmapped
      simp only [hc, Option.bind_some]
      by_cases hpending : force = false ∧ 0 < c.sendBuffer.size
      · rw [if_pos hpending] at hw ⊢
        subst hw
        obtain ⟨hmap, -, -⟩ := w.disableReadEventAndShutdown_fields o { c with tryClose := true }
        exact Or.inl ⟨rfl, hmap⟩
      · rw [if_neg hpending] at hw ⊢
        subst hw
        exact Or.inr ⟨_, none, rfl, rfl, Or.inl rfl⟩
    | proceed =>
      have hproceed : w.proceed = some w' := h
      unfold proceed at hproceed
      split_ifs at hproceed with hsending
      obtain ⟨wake, -, hw⟩ := Option.map_eq_some_iff.mp hproceed
      unfold unmapped
      simp only
      split at hw
      · rename_i fd hremoval
        subst hw
        rw [hremoval, Option.some_or]
        exact Or.inr ⟨fd, none, rfl, rfl, Or.inl rfl⟩
      · rename_i fd hnone hwritable
        subst hw
        rw [hnone, none_of_writable hwritable, Option.or_none]
        left
        unfold handleWrite
        split <;> exact ⟨rfl, rfl⟩
      · rename_i fd hnone _ harrival
        subst hw
        rw [hnone, harrival, Option.none_or]
        obtain ⟨epoll, heq⟩ := (w.setWake wake).createConnection_eq fd
        rw [heq]
        exact Or.inr ⟨fd, _, rfl, rfl, Or.inr rfl⟩
      · rename_i hnone _ harrival
        subst hw
        rw [hnone, harrival, Option.or_none]
        exact Or.inl ⟨rfl, rfl⟩
    | _ => exact absurd ha (by simp [Action.tearsDown])

/-! ## The reactor thread in `sendBufferedData` -/

/-- While a write is going on, `connectionMap_` stays as it is. -/
theorem connectionMap_of_sending {a : Action} (h : w.next capacity a = some w')
    (hsending : w.sending ≠ none) : w'.connectionMap = w.connectionMap := by
  cases ha : a.tearsDown with
  | false => exact (sameEntries ha h).connectionMap
  | true =>
    cases a with
    | epollWait =>
      obtain ⟨wake, -, rfl⟩ := epollWait_cases h
      rfl
    | disconnect =>
      obtain ⟨wake, -, rfl⟩ := disconnect_cases h
      rfl
    | close => exact absurd (close_cases h).1 hsending
    | proceed => exact absurd (proceed_cases h).1 hsending
    | _ => exact absurd ha (by simp [Action.tearsDown])

/-- A step that enters `sendBufferedData` has found the connection in `connectionMap_`. -/
theorem sending_next {a : Action} (h : w.next capacity a = some w') :
    w'.sending = w.sending ∨ w'.sending = none ∨
      ∃ fd o, w'.sending = some o ∧ w'.connectionMap fd = some o := by
  cases a with
  | proceed =>
    obtain ⟨-, wake, -, hcases⟩ := proceed_cases h
    rcases hcases with ⟨fd, -, -, -, rfl⟩ | ⟨fd, -, -, rfl⟩ | ⟨fd, -, -, rfl⟩ | ⟨-, -, rfl⟩
    · exact Or.inl rfl
    · unfold handleWrite
      split
      · exact Or.inl rfl
      · rename_i o ho
        exact Or.inr (Or.inr ⟨fd, o, rfl, ho⟩)
    · obtain ⟨epoll, heq⟩ := (w.setWake wake).createConnection_eq fd
      rw [heq]
      exact Or.inl rfl
    · exact Or.inl rfl
  | accept =>
    obtain ⟨-, -, rfl⟩ := accept_cases h
    exact Or.inl rfl
  | enqueueNewConnection =>
    obtain ⟨fd, wake, -, -, rfl⟩ := enqueueNewConnection_cases h
    exact Or.inl rfl
  | enqueueElsewhere =>
    obtain ⟨fd, -, rfl⟩ := enqueueElsewhere_cases h
    exact Or.inl rfl
  | announce =>
    obtain ⟨wake, -, -, rfl⟩ := announce_cases h
    exact Or.inl rfl
  | openFd =>
    obtain ⟨-, rfl⟩ := openFd_cases h
    exact Or.inl rfl
  | closeFd =>
    obtain ⟨-, rfl⟩ := closeFd_cases h
    exact Or.inl rfl
  | shutdownFd =>
    obtain ⟨shut, rfl⟩ := shutdownFd_cases h
    exact Or.inl rfl
  | send =>
    obtain ⟨-, rfl | rfl⟩ := send_cases h <;> exact Or.inl rfl
  | lock =>
    obtain ⟨i, data, d, -, -, -, rfl⟩ := lock_cases h
    exact Or.inl rfl
  | insideSend =>
    obtain ⟨i, d, -, -, hcases⟩ := insideSend_cases h
    rcases hcases with ⟨data, b, -, -, rfl⟩ | ⟨wake, -, -, rfl⟩ | ⟨wake, -, -, rfl⟩ | ⟨-, rfl⟩ <;>
      exact Or.inl rfl
  | epollWait =>
    obtain ⟨wake, -, rfl⟩ := epollWait_cases h
    exact Or.inl rfl
  | disconnect =>
    obtain ⟨wake, -, rfl⟩ := disconnect_cases h
    exact Or.inl rfl
  | close i =>
    obtain ⟨-, d, -, rfl | rfl⟩ := close_cases h
    · obtain ⟨events, registered, shut, heq⟩ :=
        w.disableReadEventAndShutdown_eq i { d with tryClose := true }
      rw [heq]
      exact Or.inl rfl
    · exact Or.inl rfl
  | lockSend =>
    obtain ⟨i, d, -, -, -, ⟨-, rfl⟩ | rfl⟩ := lockSend_cases h
    · exact Or.inr (Or.inl rfl)
    · exact Or.inl rfl
  | writeFd =>
    obtain ⟨i, d, -, -, -, hcases⟩ := writeFd_cases h
    rcases hcases with ⟨n, k, -, -, -, rfl⟩ | ⟨-, rfl⟩ | ⟨-, rfl⟩
    · exact Or.inl rfl
    · exact Or.inr (Or.inl rfl)
    · exact Or.inr (Or.inl rfl)
  | advance =>
    obtain ⟨i, d, n, b, -, -, -, -, ⟨-, rfl⟩ | ⟨-, rfl⟩⟩ := advance_cases h
    · exact Or.inl rfl
    · exact Or.inr (Or.inl rfl)

/-- The objects keep their payloads together, and the one being written is mapped. -/
structure Tended (w : World) : Prop where
  faithful : ∀ (o : ℕ) (c : Connection), w.connections[o]? = some c →
    ∃ wire, c.Faithful wire
  sending : ∀ o, w.sending = some o → ∃ fd, w.connectionMap fd = some o

/-- There is no object yet. -/
theorem tended_start : start.Tended where
  faithful := fun o c h => absurd h (by simp [start])
  sending := fun o h => absurd h.symm (Option.some_ne_none o)

/-- Every step of every thread keeps this. -/
theorem Tended.next (h : w.Tended) {a : Action} (hstep : w.next capacity a = some w') :
    w'.Tended := by
  constructor
  · intro o c' hc'
    cases hc : w.connections[o]? with
    | none =>
      obtain ⟨fd, socket, rfl⟩ := new_of_next hstep hc hc'
      exact ⟨[], Connection.faithful_new fd socket⟩
    | some c =>
      obtain ⟨d, hd, hchange⟩ := change_next hstep hc
      obtain rfl : c' = d := Option.some.inj (hc'.symm.trans hd)
      exact hchange.faithful (h.faithful o c hc)
  · intro o ho
    rcases sending_next hstep with hsame | hnone | ⟨fd, i, hi, hmap⟩
    · rw [hsame] at ho
      rw [connectionMap_of_sending hstep (by rw [ho]; exact Option.some_ne_none o)]
      exact h.sending o ho
    · rw [hnone] at ho
      exact absurd ho.symm (Option.some_ne_none o)
    · obtain rfl : i = o := Option.some.inj (hi.symm.trans ho)
      exact ⟨fd, hmap⟩

/-! ## Pending closes -/

/-- The step ends a `sendBufferedData` call that has emptied `sendBuffer_` of a
connection with `tryClose_` set. -/
def Emptied (w : World) (a : Action) (w' : World) (o : ℕ) : Prop :=
  a = .advance ∧ w.sending = some o ∧ w'.sending = none ∧
    ∃ c ∈ w'.connections[o]?, c.tryClose = true ∧ c.sendBuffer.noData

/-- The connection is closed, out of `connectionMap_`, and its descriptor is closed. -/
def Completed (w : World) (o : ℕ) : Prop :=
  w.Removed o ∧ ∃ c ∈ w.connections[o]?, c.closed = true ∧ w.fdTable c.fdWrapper.fd = none

/-- A pending close completes as soon as the buffer is empty, and no byte is dropped. -/
structure ClosesOnceSent (w : World) (a : Action) (w' : World) : Prop where
  completes : ∀ o, w.Emptied a w' o → w'.Completed o
  keeps : ∀ o, w.DropsNothing w' o

/-- The step passes over the last bytes in `sendBuffer_` of a connection with `tryClose_`
set. -/
def FlushesPending (w : World) (a : Action) : Prop :=
  a = .advance ∧ ∃ o ∈ w.sending, ∃ c ∈ w.connections[o]?,
    c.tryClose = true ∧ c.sendMutex = some (.wrote c.sendBuffer.size)

/-- The step erases or overwrites the entry of a connection with `tryClose_` set and bytes
in `sendBuffer_`. -/
def RemovesPending (w : World) (a : Action) : Prop :=
  ∃ fd ∈ w.unmapped a, ∃ o ∈ w.connectionMap fd, ∃ c ∈ w.connections[o]?,
    c.tryClose = true ∧ 0 < c.sendBuffer.size

/-- The step writes bytes of a connection with `tryClose_` set to its number after that was
closed and opened for another socket. -/
def MisdirectsPending (w : World) (a : Action) : Prop :=
  ∃ n, a = .writeFd (.accepted n) ∧ ∃ o ∈ w.sending, ∃ c ∈ w.connections[o]?,
    c.tryClose = true ∧ ∃ d ∈ w.fdTable c.fdWrapper.fd, c.socket ≠ some d.socket

/-- An object stays in `connectionMap_` if and only if the step leaves its entry alone. -/
theorem exists_mapped_iff (hindexed : w.Indexed) {a : Action}
    (hstep : w.next capacity a = some w') {fd : Fd} (ho : w.connectionMap fd = some o) :
    (∃ fd', w'.connectionMap fd' = some o) ↔ w.unmapped a ≠ some fd := by
  rcases connectionMap_next hstep with ⟨hnone, hmap⟩ | ⟨fd₁, entry, hfd₁, hmap, hentry⟩
  · rw [hnone, hmap]
    exact ⟨fun _ => by simp, fun _ => ⟨fd, ho⟩⟩
  rw [hfd₁, hmap]
  constructor
  · rintro ⟨fd', hfd'⟩ heq
    obtain rfl := Option.some.inj heq
    by_cases hsame : fd' = fd₁
    · -- the new entry is not `o`
      rw [hsame, Function.update_self] at hfd'
      rcases hentry with rfl | rfl
      · exact absurd hfd'.symm (Option.some_ne_none _)
      · exact absurd (Option.some.inj hfd').symm (Nat.ne_of_lt (hindexed.lt ho))
    · rw [Function.update_of_ne hsame] at hfd'
      exact hsame (hindexed.unique hfd' ho)
  · intro hne
    have hfd : fd ≠ fd₁ := by
      rintro rfl
      exact hne rfl
    exact ⟨fd, (Function.update_of_ne hfd _ _).trans ho⟩

/-- A `write` that is accepted leaves less of its connection to be sent. -/
theorem Tended.unsent_of_writeFd (h : w.Tended) {n : ℕ}
    (hstep : w.next capacity (.writeFd (.accepted n)) = some w') (ho : w.sending = some o)
    {c : Connection} (hc : w.connections[o]? = some c) :
    0 < n ∧ n ≤ c.sendBuffer.size ∧
      ∀ c' ∈ w'.connections[o]?, c'.unsent.length < c.unsent.length := by
  obtain ⟨wire, hf⟩ := h.faithful o c hc
  have hwrite : w.writeFd (.accepted n) = some w' := hstep
  have hpos : 0 < n := pos_of_writeFd hwrite
  obtain ⟨i, c₁, hi, hc₁, hmutex, hcases⟩ := writeFd_cases hwrite
  obtain rfl : i = o := Option.some.inj (hi.symm.trans ho)
  obtain rfl : c₁ = c := Option.some.inj (hc₁.symm.trans hc)
  rcases hcases with ⟨m, d, hm, -, hle, rfl⟩ | ⟨hresult, -⟩ | ⟨hresult, -⟩
  · obtain rfl : n = m := WriteResult.accepted.inj hm
    have hsize : n ≤ c₁.sendBuffer.size := hle.trans (min_le_left _ _)
    refine ⟨hpos, hsize, ?_⟩
    intro c' hc'
    obtain rfl := Option.some.inj
      ((List.getElem?_set_self (List.getElem?_eq_some_iff.mp hc).1).symm.trans hc')
    have hunsent : c₁.unsent = c₁.sendBuffer.contents := by
      rw [Connection.unsent, hmutex]
    show (c₁.sendBuffer.contents.drop n).length < c₁.unsent.length
    rw [hunsent, List.length_drop, hf.wellFormed.length_contents]
    omega
  · exact absurd hresult (by simp)
  · exact absurd hresult (by simp)

/-- A step loses bytes of a pending close if and only if it takes the connection out of
`connectionMap_` or writes to the socket of another. -/
theorem Tended.dropsNothing_iff (h : w.Tended) (hindexed : w.Indexed) {a : Action}
    (hstep : w.next capacity a = some w') :
    (∀ o, w.DropsNothing w' o) ↔ ¬ w.RemovesPending a ∧ ¬ w.MisdirectsPending a := by
  constructor
  · intro hkeeps
    constructor
    · rintro ⟨fd, hfd, o, ho, c, hc, htry, hsize⟩
      have hkept := (hkeeps o c hc).1 ⟨htry, hsize, fd, ho⟩
      exact (exists_mapped_iff hindexed hstep ho).mp hkept hfd
    · rintro ⟨n, rfl, o, ho, c, hc, htry, d, hd, hne⟩
      obtain ⟨hpos, hsize, hless⟩ := h.unsent_of_writeFd hstep ho hc
      obtain ⟨fd, hfd⟩ := h.sending o ho
      have hpending : w.ClosePending o c := ⟨htry, hpos.trans_le hsize, fd, hfd⟩
      obtain ⟨-, c', hc', hcases⟩ := hkeeps o c hc
      rcases hcases with ⟨data, hunsent⟩ | ⟨d', hd', hsocket, -⟩
      · -- fewer bytes are owed than before
        have hlength := hless c' hc'
        rw [hunsent, List.length_append] at hlength
        omega
      · obtain rfl : d = d' := Option.some.inj (hd.symm.trans hd')
        exact hne (hsocket hpending)
  · rintro ⟨hmapped, hdirected⟩ o c hc
    obtain ⟨c', hc', hchange⟩ := change_next hstep hc
    constructor
    · rintro ⟨htry, hsize, fd, ho⟩
      refine (exists_mapped_iff hindexed hstep ho).mpr ?_
      intro hfd
      exact hmapped ⟨fd, hfd, o, ho, c, hc, htry, hsize⟩
    · refine ⟨c', hc', ?_⟩
      rcases hchange.keeps (h.faithful o c hc) with hdata | ⟨n, ha, ho, d, hd, hunsent, hsockets⟩
      · exact Or.inl hdata
      · refine Or.inr ⟨d, hd, ?_, n, hunsent, hsockets⟩
        rintro ⟨htry, -, -⟩
        by_contra hne
        exact hdirected ⟨n, ha, o, ho, c, hc, htry, d, hd, hne⟩

/-- The buffer of a pending close is emptied by the step that passes over its last
bytes. -/
theorem Tended.exists_emptied_iff (h : w.Tended) {a : Action}
    (hstep : w.next capacity a = some w') : (∃ o, w.Emptied a w' o) ↔ w.FlushesPending a := by
  constructor
  · rintro ⟨o, rfl, ho, hnone, c', hc', htry, hempty⟩
    obtain ⟨i, c, n, b, hi, hc, hmutex, hb, hcases⟩ := advance_cases hstep
    obtain rfl : i = o := Option.some.inj (hi.symm.trans ho)
    rcases hcases with ⟨-, rfl⟩ | ⟨hsize, rfl⟩
    · exact absurd (ho.symm.trans hnone) (Option.some_ne_none i)
    · have hlt := (List.getElem?_eq_some_iff.mp hc).1
      obtain rfl := Option.some.inj ((List.getElem?_set_self hlt).symm.trans hc')
      obtain ⟨wire, hf⟩ := h.faithful i c hc
      obtain ⟨b', hb', hwf, hcontents⟩ := hf.wellFormed.advance (hf.wrote_le n hmutex)
      obtain rfl : b' = b := Option.some.inj (hb'.symm.trans hb)
      have hlength : b'.size = c.sendBuffer.size - n := by
        rw [← hwf.length_contents, hcontents, List.length_drop, hf.wellFormed.length_contents]
      have hle := hf.wrote_le n hmutex
      refine ⟨rfl, i, hi, c, hc, htry, ?_⟩
      rw [hmutex, show n = c.sendBuffer.size by omega]
  · rintro ⟨rfl, o, ho, c, hc, htry, hmutex⟩
    obtain ⟨i, d, n, b, hi, hd, hmutex', hb, hcases⟩ := advance_cases hstep
    obtain rfl : i = o := Option.some.inj (hi.symm.trans ho)
    obtain rfl : c = d := Option.some.inj (hc.symm.trans hd)
    obtain rfl : c.sendBuffer.size = n :=
      Critical.wrote.inj (Option.some.inj (hmutex.symm.trans hmutex'))
    obtain ⟨wire, hf⟩ := h.faithful i c hc
    obtain ⟨b', hb', hwf, hcontents⟩ := hf.wellFormed.advance (le_refl c.sendBuffer.size)
    obtain rfl : b' = b := Option.some.inj (hb'.symm.trans hb)
    have hempty : b'.contents = [] := by
      rw [hcontents, ← hf.wellFormed.length_contents, List.drop_length]
    have hsize : b'.size = 0 := by
      rw [← hwf.length_contents, hempty, List.length_nil]
    rcases hcases with ⟨hmore, -⟩ | ⟨-, rfl⟩
    · omega
    · have hlt := (List.getElem?_eq_some_iff.mp hc).1
      exact ⟨i, rfl, hi, rfl, _, List.getElem?_set_self hlt, htry, hwf.noData_iff.mpr hempty⟩

/-- **The hand-over is missing.**  The connection is still mapped when its last bytes are
out. -/
theorem Tended.not_completed (h : w.Tended) {a : Action} (hstep : w.next capacity a = some w')
    (hemptied : w.Emptied a w' o) : ¬ w'.Completed o := by
  rintro ⟨hremoved, -⟩
  obtain ⟨-, ho, -, -⟩ := hemptied
  obtain ⟨fd, hfd⟩ := h.sending o ho
  apply hremoved fd
  rw [connectionMap_of_sending hstep (by rw [ho]; exact Option.some_ne_none o)]
  exact hfd

/-- One step is right if and only if it neither flushes a pending close nor loses bytes of
one. -/
theorem Tended.closesOnceSent_iff (h : w.Tended) (hindexed : w.Indexed) {a : Action}
    (hstep : w.next capacity a = some w') :
    w.ClosesOnceSent a w' ↔
      ¬ w.FlushesPending a ∧ ¬ w.RemovesPending a ∧ ¬ w.MisdirectsPending a := by
  rw [← h.exists_emptied_iff hstep, ← h.dropsNothing_iff hindexed hstep]
  constructor
  · rintro ⟨hcompletes, hkeeps⟩
    refine ⟨?_, hkeeps⟩
    rintro ⟨o, hemptied⟩
    exact h.not_completed hstep hemptied (hcompletes o hemptied)
  · rintro ⟨hnone, hkeeps⟩
    refine ⟨?_, hkeeps⟩
    intro o hemptied
    exact absurd ⟨o, hemptied⟩ hnone

/-- **The pending closes of a run complete and lose no byte if and only if none of its
steps flushes one, takes one with bytes left out of `connectionMap_`, or writes its bytes
to the socket of another**, for any threads and any results of `write`. -/
theorem along_closesOnceSent_iff (capacity : ℕ) (actions : List Action) :
    Along (next capacity) ClosesOnceSent start actions ↔
      Along (next capacity) (fun w a _ =>
        ¬ w.FlushesPending a ∧ ¬ w.RemovesPending a ∧ ¬ w.MisdirectsPending a)
        start actions := by
  have hstart : start.Tended ∧ start.Indexed :=
    ⟨tended_start, fun _ _ ho => absurd ho.symm (Option.some_ne_none _)⟩
  exact along_iff_of_invariant (I := fun w => w.Tended ∧ w.Indexed)
    (fun _ _ _ hw hstep => ⟨hw.1.next hstep, hw.2.next hstep⟩)
    (fun _ _ _ hw hstep => hw.1.closesOnceSent_iff hw.2 hstep) hstart

/-- A connection is made on number 5 and sent two bytes on, and `onMessage` closes it
before they are out.  The first of them is written and passed over, and the second
written. -/
def closedWhileSending : List Action :=
  List.flatten [acceptSteps 0 5, pipeSteps 1, [.proceed, .proceed], sendSteps 1 0 [1, 2],
    [.epollWait [.connection ⟨5, [.EPOLLIN]⟩, .pipe], .proceed, .close 0 false],
    List.replicate 9 .proceed,
    [.lockSend, .writeFd (.accepted 1), .advance, .writeFd (.accepted 1)]]

/-- **A leaked connection.**  `close(false)` was called with two bytes in `sendBuffer_`.
Both are out and the buffer is empty, and the connection is not closed, still in
`connectionMap_`, and its descriptor open. -/
theorem not_along_closedWhileSending :
    (∃ w ∈ runFrom (next 65536) (fun _ _ => True) start (closedWhileSending ++ [.advance]),
      w.sockets = [[some 1, some 2]] ∧ w.connectionMap 5 = some 0 ∧ w.fdTable 5 ≠ none ∧
      ∃ c ∈ w.connections[0]?, c.tryClose = true ∧ c.sendBuffer.noData ∧ c.closed = false) ∧
      ¬ Along (next 65536) ClosesOnceSent start (closedWhileSending ++ [.advance]) := by
  constructor
  · decide +kernel
  · intro halong
    have hrun : ∃ w ∈ runFrom (next 65536) (fun _ _ => True) start closedWhileSending,
        w.sending = some 0 ∧ ∃ w' ∈ w.next 65536 .advance, w'.sending = none ∧
          w'.connectionMap 5 = some 0 ∧
          ∃ c ∈ w'.connections[0]?, c.tryClose = true ∧ c.sendBuffer.noData := by
      decide +kernel
    obtain ⟨w, hw, hsending, w', hstep, hnone, hmap, c, hc, htry, hempty⟩ := hrun
    have hright := Along.last hstep halong hw
    obtain ⟨hremoved, -⟩ := hright.completes 0 ⟨rfl, hsending, hnone, c, hc, htry, hempty⟩
    exact hremoved 5 hmap

end World

end Muduo
