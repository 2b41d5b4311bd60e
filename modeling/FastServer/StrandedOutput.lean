/-
# Output left behind

`sendBufferedData` stops when `write` returns `EAGAIN` or 0, and no descriptor is ever
registered for `EPOLLOUT`: what is left in the buffer is written only when the
descriptor is queued once more.  As long as another entry for it is queued whenever
that happens, a buffer that is not empty has an entry to come.
-/
import FastServer.SendPath

namespace Muduo

open TransitionSystem

/-! ## Queued descriptors -/

/-- The descriptors that `processSendQueue` has swapped out and not yet popped. -/
def Stage.undrained : Stage → List Fd
  | .draining sendQueue => sendQueue
  | _ => []

namespace WakeUp

variable {capacity : ℕ} {w w' : WakeUp} {tid : Tid} {q : Queue} {fd fd' : Fd}

/-- An entry for the descriptor is in `sendQueue_` or was swapped out of it. -/
def Queued (w : WakeUp) (fd : Fd) : Prop :=
  fd ∈ w.queue .sendQueue ∨ fd ∈ w.stage.undrained

instance (w : WakeUp) (fd : Fd) : Decidable (w.Queued fd) := inferInstanceAs (Decidable (_ ∨ _))

theorem Queued.push (h : w.Queued fd) (hstep : w.push tid q fd' = some w') : w'.Queued fd := by
  unfold WakeUp.push at hstep
  split_ifs at hstep with hidle
  obtain rfl := Option.some.inj hstep
  refine h.imp ?_ id
  intro hmem
  show fd ∈ Function.update w.queue q (w.queue q ++ [fd']) .sendQueue
  by_cases hq : Queue.sendQueue = q
  · subst hq
    rw [Function.update_self]
    exact List.mem_append_left _ hmem
  · rw [Function.update_of_ne hq]
    exact hmem

/-- A push onto `sendQueue_` queues its descriptor. -/
theorem queued_of_push (hstep : w.push tid .sendQueue fd = some w') : w'.Queued fd := by
  unfold WakeUp.push at hstep
  split_ifs at hstep with hidle
  obtain rfl := Option.some.inj hstep
  left
  show fd ∈ Function.update w.queue .sendQueue (w.queue .sendQueue ++ [fd]) .sendQueue
  rw [Function.update_self]
  exact List.mem_append_right _ (List.mem_singleton_self fd)

theorem Queued.notify (h : w.Queued fd) (hstep : w.notify capacity tid = some w') :
    w'.Queued fd := by
  unfold WakeUp.notify at hstep
  split_ifs at hstep <;>
  · obtain rfl := Option.some.inj hstep
    exact h

theorem Queued.epollWait (h : w.Queued fd) {events : List Event}
    (hstep : w.epollWait events = some w') : w'.Queued fd := by
  unfold WakeUp.epollWait at hstep
  split_ifs at hstep with hguard
  obtain rfl := Option.some.inj hstep
  refine h.imp id ?_
  intro hmem
  rw [hguard.1] at hmem
  exact hmem

theorem Queued.disconnect (h : w.Queued fd) (hstep : w.disconnect = some w') :
    w'.Queued fd := by
  unfold WakeUp.disconnect at hstep
  split at hstep
  · rename_i hstage
    obtain rfl := Option.some.inj hstep
    refine h.imp id ?_
    intro hmem
    rw [hstage] at hmem
    exact hmem
  · exact absurd hstep.symm (Option.some_ne_none _)

/-- While no local vector is drained, the entry is in the queue. -/
theorem Queued.mem_sendQueue (h : w.Queued fd) (hstage : w.stage.undrained = []) :
    fd ∈ w.queue .sendQueue := by
  rcases h with hmem | hmem
  · exact hmem
  · rw [hstage] at hmem
    exact absurd hmem List.not_mem_nil

theorem undrained_of_following {stage stage' : Stage} (h : stage.following = some stage') :
    stage.undrained = [] := by
  cases stage with
  | draining => exact absurd h.symm (Option.some_ne_none _)
  | _ => rfl

/-- A step of the reactor thread keeps an entry, or is the one that pops it. -/
theorem Queued.proceed (h : w.Queued fd) (hstep : w.proceed = some w') :
    w'.Queued fd ∨ ∃ fds, w.stage = .draining fds ∧ fds.getLast? = some fd := by
  cases proceeds_of_proceed hstep with
  | wait hstage | dispatch _ _ hstage | readPipe hstage | accept _ hstage | accepted hstage
  | drained hstage =>
    exact Or.inl (Or.inl (h.mem_sendQueue (by rw [hstage]; rfl)))
  | handle _ hnext => exact Or.inl (Or.inl (h.mem_sendQueue (undrained_of_following hnext)))
  | swapNew hstage =>
    refine Or.inl (Or.inl ?_)
    show fd ∈ Function.update w.queue .newConnections [] .sendQueue
    rw [Function.update_of_ne (by simp)]
    exact h.mem_sendQueue (by rw [hstage]; rfl)
  | swapSend hstage => exact Or.inl (Or.inr (h.mem_sendQueue (by rw [hstage]; rfl)))
  | drain fds hstage hfds =>
    rcases h with hmem | hmem
    · exact Or.inl (Or.inl hmem)
    · -- the entry is the last one, or stays
      rw [hstage] at hmem
      have hmem : fd ∈ fds := hmem
      rw [← List.dropLast_append_getLast hfds] at hmem
      rcases List.mem_append.mp hmem with hinit | hlast
      · exact Or.inl (Or.inr hinit)
      · right
        refine ⟨fds, hstage, ?_⟩
        rw [List.mem_singleton.mp hlast]
        exact List.getLast?_eq_some_getLast hfds

end WakeUp

/-! ## Output with an entry to come -/

namespace World

variable {capacity : ℕ} {w w' : World} {tid : Tid} {fd : Fd} {o : ℕ}

/-- A connection whose buffer is not empty is to be flushed: an entry for it is queued,
the reactor thread is in its `sendBufferedData`, or a `send` is about to push. -/
structure Pending (w : World) : Prop where
  known : ∀ {fd o}, w.connectionMap fd = some o → o < w.connections.length
  fd_eq : ∀ {fd o} {c : Connection}, w.connectionMap fd = some o →
    w.connections[o]? = some c → c.fdWrapper.fd = fd
  owed : ∀ {fd o} {c : Connection}, w.connectionMap fd = some o →
    w.connections[o]? = some c → 0 < c.sendBuffer.size → c.fatal = false →
    w.wake.Queued fd ∨ w.sending = some o ∨ ∃ tid, c.sendMutex = some (.pushing tid)

/-- No connection is mapped yet. -/
theorem pending_start : start.Pending where
  known := fun h => absurd h.symm (Option.some_ne_none _)
  fd_eq := fun h => absurd h.symm (Option.some_ne_none _)
  owed := fun h => absurd h.symm (Option.some_ne_none _)

namespace Pending

/-! ### Elementary changes -/

/-- Steps that concern neither the connections nor what is queued for them. -/
theorem congr (h : w.Pending) (hmap : w'.connectionMap = w.connectionMap)
    (hconnections : w'.connections = w.connections) (hsending : w'.sending = w.sending)
    (hqueued : ∀ fd, w.wake.Queued fd → w'.wake.Queued fd) : w'.Pending := by
  refine ⟨?_, ?_, ?_⟩
  · rw [hmap, hconnections]
    exact h.known
  · rw [hmap, hconnections]
    exact h.fd_eq
  · intro fd o c ho hc hsize hfatal
    rw [hmap] at ho
    rw [hconnections] at hc
    rw [hsending]
    exact (h.owed ho hc hsize hfatal).imp (hqueued fd) id

theorem setWake (h : w.Pending) {wake : WakeUp}
    (hqueued : ∀ fd, w.wake.Queued fd → wake.Queued fd) : (w.setWake wake).Pending :=
  h.congr rfl rfl rfl hqueued

theorem setEpoll (h : w.Pending) (fd : Fd) (events : Option (List EpollFlag)) :
    (w.setEpoll fd events).Pending :=
  h.congr rfl rfl rfl fun _ hqueued => hqueued

theorem shutdownRead (h : w.Pending) (fd : Fd) : (w.shutdownRead fd).Pending := by
  obtain ⟨shut, heq⟩ := w.shutdownRead_eq fd
  rw [heq]
  exact h.congr rfl rfl rfl fun _ hqueued => hqueued

/-- A change inside a connection, after which its own output is still to be flushed. -/
theorem setConnection (h : w.Pending) {c c' : Connection} (hc : w.connections[o]? = some c)
    (hfd : c'.fdWrapper.fd = c.fdWrapper.fd)
    (howed : w.connectionMap c.fdWrapper.fd = some o → 0 < c'.sendBuffer.size →
      c'.fatal = false → w.wake.Queued c.fdWrapper.fd ∨ w.sending = some o ∨
        ∃ tid, c'.sendMutex = some (.pushing tid)) :
    (w.setConnection o c').Pending := by
  have hlt : o < w.connections.length := (List.getElem?_eq_some_iff.mp hc).1
  have hself : (w.setConnection o c').connections[o]? = some c' := List.getElem?_set_self hlt
  refine ⟨?_, ?_, ?_⟩
  · intro fd i hi
    show i < (w.connections.set o c').length
    rw [List.length_set]
    exact h.known hi
  · intro fd i d hi hd
    by_cases ho : o = i
    · subst ho
      obtain rfl := Option.some.inj (hself.symm.trans hd)
      rw [hfd]
      exact h.fd_eq hi hc
    · exact h.fd_eq hi ((List.getElem?_set_ne ho).symm.trans hd)
  · intro fd i d hi hd hsize hfatal
    by_cases ho : o = i
    · subst ho
      obtain rfl := Option.some.inj (hself.symm.trans hd)
      obtain rfl := h.fd_eq hi hc
      exact howed hi hsize hfatal
    · exact h.owed hi ((List.getElem?_set_ne ho).symm.trans hd) hsize hfatal

/-- A change inside a connection that leaves its buffer as it is and was not about to
push. -/
theorem relabel (h : w.Pending) {c c' : Connection} (hc : w.connections[o]? = some c)
    (hfd : c'.fdWrapper.fd = c.fdWrapper.fd) (hbuffer : c'.sendBuffer = c.sendBuffer)
    (hfatal : c'.fatal = c.fatal) (hmutex : ∀ tid, c.sendMutex ≠ some (.pushing tid)) :
    (w.setConnection o c').Pending := by
  apply h.setConnection hc hfd
  intro hmap hsize hok
  rcases h.owed hmap hc (hbuffer ▸ hsize) (hfatal ▸ hok) with hqueued | hsending | ⟨tid, htid⟩
  · exact Or.inl hqueued
  · exact Or.inr (Or.inl hsending)
  · exact absurd htid (hmutex tid)

/-- The reactor thread leaves `sendBufferedData` of a connection that is empty, lost or
queued once more. -/
theorem leaveSend (h : w.Pending) {c c' : Connection} (ho : w.sending = some o)
    (hc : w.connections[o]? = some c) (hfd : c'.fdWrapper.fd = c.fdWrapper.fd)
    (hdone : 0 < c'.sendBuffer.size → c'.fatal = false → w.wake.Queued c.fdWrapper.fd) :
    (w.leaveSend o c').Pending := by
  have hset : (w.setConnection o { c' with sendMutex := none }).Pending :=
    h.setConnection hc hfd fun _ hsize hok => Or.inl (hdone hsize hok)
  refine ⟨hset.known, hset.fd_eq, ?_⟩
  intro fd i d hi hd hsize hok
  rcases hset.owed hi hd hsize hok with hqueued | hsending | hpushing
  · exact Or.inl hqueued
  · -- the connection left is the one that was being flushed
    obtain rfl : o = i := Option.some.inj (ho.symm.trans hsending)
    have hlt : o < w.connections.length := (List.getElem?_eq_some_iff.mp hc).1
    have hself : (w.leaveSend o c').connections[o]? = some { c' with sendMutex := none } :=
      List.getElem?_set_self hlt
    obtain rfl := Option.some.inj (hself.symm.trans hd)
    left
    have hfd' := h.fd_eq hi hc
    subst hfd'
    exact hdone hsize hok
  · exact Or.inr (Or.inr hpushing)

/-- Removing a connection leaves the others as they were. -/
theorem removeConnection (h : w.Pending) (fd : Fd) : (w.removeConnection fd).Pending := by
  have hold : ∀ {fd' i}, (w.removeConnection fd).connectionMap fd' = some i →
      w.connectionMap fd' = some i := by
    intro fd' i hi
    have hne : fd' ≠ fd := by
      rintro rfl
      have hnone : (w.removeConnection fd').connectionMap fd' = none :=
        Function.update_self _ _ _
      exact Option.some_ne_none _ (hi.symm.trans hnone)
    exact (Function.update_of_ne hne _ _).symm.trans hi
  exact ⟨fun hi => h.known (hold hi), fun hi => h.fd_eq (hold hi), fun hi => h.owed (hold hi)⟩

/-- A new connection owes nothing. -/
theorem createConnection (h : w.Pending) (fd : Fd) : (w.createConnection fd).Pending := by
  obtain ⟨epoll, heq⟩ := w.createConnection_eq fd
  rw [heq]
  -- the new entry, or an old one whose object is where it was
  have hcases : ∀ {fd' i} {c : Connection},
      Function.update w.connectionMap fd (some w.connections.length) fd' = some i →
      (w.connections ++ [Connection.new fd ((w.fdTable fd).map Descriptor.socket)])[i]?
        = some c →
      (fd' = fd ∧ c = Connection.new fd ((w.fdTable fd).map Descriptor.socket)) ∨
        (w.connectionMap fd' = some i ∧ w.connections[i]? = some c) := by
    intro fd' i c hi hc
    by_cases hfd : fd' = fd
    · subst hfd
      rw [Function.update_self] at hi
      obtain rfl := Option.some.inj hi
      rw [List.getElem?_concat_length] at hc
      exact Or.inl ⟨rfl, (Option.some.inj hc).symm⟩
    · rw [Function.update_of_ne hfd] at hi
      rw [List.getElem?_append_left (h.known hi)] at hc
      exact Or.inr ⟨hi, hc⟩
  refine ⟨?_, ?_, ?_⟩
  · intro fd' i hi
    have hi : Function.update w.connectionMap fd (some w.connections.length) fd' = some i := hi
    show i < (w.connections ++ [_]).length
    rw [List.length_append, List.length_singleton]
    by_cases hfd : fd' = fd
    · subst hfd
      rw [Function.update_self] at hi
      obtain rfl := Option.some.inj hi
      exact Nat.lt_succ_self _
    · rw [Function.update_of_ne hfd] at hi
      exact Nat.lt_succ_of_lt (h.known hi)
  · intro fd' i c hi hc
    rcases hcases hi hc with ⟨rfl, rfl⟩ | ⟨hi, hc⟩
    · rfl
    · exact h.fd_eq hi hc
  · intro fd' i c hi hc hsize hok
    rcases hcases hi hc with ⟨rfl, rfl⟩ | ⟨hi, hc⟩
    · exact absurd hsize (Nat.lt_irrefl 0)
    · exact h.owed hi hc hsize hok

/-! ### Steps -/

theorem enqueueNewConnection (h : w.Pending) (hstep : w.enqueueNewConnection tid = some w') :
    w'.Pending := by
  obtain ⟨fd, wake, -, hwake, rfl⟩ := enqueueNewConnection_cases hstep
  exact h.congr rfl rfl rfl fun fd' hqueued => hqueued.push hwake

theorem lock (h : w.Pending) (hstep : w.lock tid = some w') : w'.Pending := by
  obtain ⟨o, data, c, -, hc, hfree, rfl⟩ := lock_cases hstep
  have hset : (w.setConnection o { c with
      sendMutex := some (.entering tid data)
      accepted := c.accepted ++ [data] }).Pending :=
    h.relabel hc rfl rfl rfl (by simp [hfree])
  exact hset.congr rfl rfl rfl fun _ hqueued => hqueued

theorem insideSend (h : w.Pending) (hstep : w.insideSend capacity tid = some w') :
    w'.Pending := by
  obtain ⟨o, c, -, hc, hcases⟩ := insideSend_cases hstep
  rcases hcases with ⟨data, b, hmutex, hb, rfl⟩ | ⟨wake, hmutex, hwake, rfl⟩ |
    ⟨wake, hmutex, hwake, rfl⟩ | ⟨hmutex, rfl⟩
  · -- the payload is in the buffer, and the push comes next
    exact h.setConnection hc rfl fun _ _ _ => Or.inr (Or.inr ⟨tid, rfl⟩)
  · -- the push queues the number of the connection, whatever was pending before
    have hwaked : (w.setWake wake).Pending := h.setWake fun _ hqueued => hqueued.push hwake
    have hset : ((w.setWake wake).setConnection o
        { c with sendMutex := some (.notifying tid) }).Pending :=
      hwaked.setConnection hc rfl fun _ _ _ => Or.inl (WakeUp.queued_of_push hwake)
    exact hset.congr rfl rfl rfl fun _ hqueued => hqueued
  · have hset : (w.setConnection o { c with sendMutex := some (.leaving tid) }).Pending :=
      h.relabel hc rfl rfl rfl (by simp [hmutex])
    exact hset.setWake fun _ hqueued => hqueued.notify hwake
  · have hset : (w.setConnection o { c with sendMutex := none }).Pending :=
      h.relabel hc rfl rfl rfl (by simp [hmutex])
    exact hset.congr rfl rfl rfl fun _ hqueued => hqueued

/-- `handleWrite` looks the popped number up: its connection is flushed next. -/
theorem handleWrite (h : w.Pending) {wake : WakeUp} (hsending : w.sending = none)
    (hqueued : ∀ fd', w.wake.Queued fd' → wake.Queued fd' ∨ fd' = fd) :
    ((w.setWake wake).handleWrite fd).Pending := by
  unfold World.handleWrite
  split
  · rename_i hnone
    have hnone : w.connectionMap fd = none := hnone
    refine ⟨h.known, h.fd_eq, ?_⟩
    intro fd' i c hi hc hsize hok
    rcases h.owed hi hc hsize hok with hq | hs | hpushing
    · rcases hqueued fd' hq with hq | rfl
      · exact Or.inl hq
      · exact absurd (hi.symm.trans hnone) (Option.some_ne_none _)
    · exact absurd (hs.symm.trans hsending) (Option.some_ne_none _)
    · exact Or.inr (Or.inr hpushing)
  · rename_i o ho
    have ho : w.connectionMap fd = some o := ho
    refine ⟨h.known, h.fd_eq, ?_⟩
    intro fd' i c hi hc hsize hok
    rcases h.owed hi hc hsize hok with hq | hs | hpushing
    · rcases hqueued fd' hq with hq | rfl
      · exact Or.inl hq
      · exact Or.inr (Or.inl (ho.symm.trans hi))
    · exact absurd (hs.symm.trans hsending) (Option.some_ne_none _)
    · exact Or.inr (Or.inr hpushing)

theorem proceed (h : w.Pending) (hstep : w.proceed = some w') : w'.Pending := by
  obtain ⟨hsending, wake, hwake, hcases⟩ := proceed_cases hstep
  -- a step that writes nothing pops no entry
  have hkept : w.writable = none → ∀ fd, w.wake.Queued fd → wake.Queued fd := by
    intro hnone fd hqueued
    rcases hqueued.proceed hwake with hq | ⟨fds, hstage, hlast⟩
    · exact hq
    · unfold writable at hnone
      rw [hstage] at hnone
      exact absurd (hlast.symm.trans hnone) (Option.some_ne_none _)
  rcases hcases with ⟨fd, -, hwritable, -, rfl⟩ | ⟨fd, hwritable, -, rfl⟩ |
    ⟨fd, hwritable, -, rfl⟩ | ⟨hwritable, -, rfl⟩
  · exact (h.setWake (hkept hwritable)).removeConnection fd
  · apply h.handleWrite hsending
    intro fd' hqueued
    rcases hqueued.proceed hwake with hq | ⟨fds, hstage, hlast⟩
    · exact Or.inl hq
    · right
      unfold writable at hwritable
      rw [hstage] at hwritable
      exact Option.some.inj (hlast.symm.trans hwritable)
  · exact (h.setWake (hkept hwritable)).createConnection fd
  · exact h.setWake (hkept hwritable)

/-- `close` changes no buffer. -/
theorem close (h : w.Pending) {force : Bool} (hstep : w.close o force = some w') :
    w'.Pending := by
  obtain ⟨-, c, hc, hcases⟩ := close_cases hstep
  rcases hcases with rfl | rfl
  · have hset : (w.setConnection o { c with
        tryClose := true
        fdWrapper := { c.fdWrapper with
          events := c.fdWrapper.events.filter (fun flag => flag ≠ .EPOLLIN) } }).Pending := by
      refine h.setConnection hc ?_ ?_
      · rfl
      · intro hmap hsize hok
        have howed := h.owed hmap hc hsize hok
        exact howed
    exact (hset.setEpoll _ _).shutdownRead _
  · have hset : (w.setConnection o { c with
        tryClose := true
        closed := true
        fdWrapper := { c.fdWrapper with events := [] } }).Pending := by
      refine h.setConnection hc ?_ ?_
      · rfl
      · intro hmap hsize hok
        have howed := h.owed hmap hc hsize hok
        exact howed
    exact hset.removeConnection _

theorem lockSend (h : w.Pending) (hstep : w.lockSend = some w') : w'.Pending := by
  obtain ⟨o, c, ho, hc, hfree, ⟨hempty, rfl⟩ | rfl⟩ := lockSend_cases hstep
  · refine ⟨h.known, h.fd_eq, ?_⟩
    intro fd i d hi hd hsize hok
    rcases h.owed hi hd hsize hok with hq | hs | hpushing
    · exact Or.inl hq
    · -- the connection was found empty
      obtain rfl : o = i := Option.some.inj (ho.symm.trans hs)
      obtain rfl : c = d := Option.some.inj (hc.symm.trans hd)
      have hempty : c.sendBuffer.writePos = c.sendBuffer.readPos := hempty
      have hsize : 0 < c.sendBuffer.writePos - c.sendBuffer.readPos := hsize
      omega
    · exact Or.inr (Or.inr hpushing)
  · exact h.relabel hc rfl rfl rfl (by simp [hfree])

theorem advance (h : w.Pending) (hstep : w.advance = some w') : w'.Pending := by
  obtain ⟨o, c, n, b, ho, hc, hmutex, -, ⟨-, rfl⟩ | ⟨hempty, rfl⟩⟩ := advance_cases hstep
  · exact h.setConnection hc rfl fun _ _ _ => Or.inr (Or.inl ho)
  · have hdone : 0 < b.size → c.fatal = false → w.wake.Queued c.fdWrapper.fd :=
      fun hsize _ => absurd hempty (Nat.ne_of_gt hsize)
    refine h.leaveSend ho hc ?_ hdone
    rfl

end Pending

/-! ## Runs -/

/-- When `write` returns `EAGAIN` or 0, another entry for the descriptor is queued. -/
def QueuedOnceMore (w : World) : Action → Prop
  | .writeFd .again =>
      ∀ o ∈ w.sending, ∀ c ∈ w.connections[o]?, w.wake.Queued c.fdWrapper.fd
  | .writeFd .zero =>
      ∀ o ∈ w.sending, ∀ c ∈ w.connections[o]?, w.wake.Queued c.fdWrapper.fd
  | _ => True

/-- A `write` that fails fatally, that is accepted, or that leaves another entry behind. -/
theorem Pending.writeFd (h : w.Pending) {result : WriteResult}
    (hqueued : w.QueuedOnceMore (.writeFd result)) (hstep : w.writeFd result = some w') :
    w'.Pending := by
  obtain ⟨o, c, ho, hc, hmutex, hcases⟩ := writeFd_cases hstep
  rcases hcases with ⟨n, d, -, -, -, rfl⟩ | ⟨hresult, rfl⟩ | ⟨-, rfl⟩
  · have hset : (w.setConnection o { c with sendMutex := some (.wrote n) }).Pending :=
      h.relabel hc rfl rfl rfl (by simp [hmutex])
    exact hset.congr rfl rfl rfl fun _ hqueued => hqueued
  · apply h.leaveSend ho hc rfl
    intro _ _
    rcases hresult with rfl | rfl
    · exact hqueued o ho c hc
    · exact hqueued o ho c hc
  · have hdone : 0 < c.sendBuffer.size → true = false → w.wake.Queued c.fdWrapper.fd :=
      fun _ hok => absurd hok (by simp)
    refine h.leaveSend ho hc ?_ hdone
    rfl

/-- **A step** that leaves no output without an entry. -/
theorem Pending.next (h : w.Pending) {a : Action} (hok : w.QueuedOnceMore a)
    (hstep : w.next capacity a = some w') : w'.Pending := by
  cases a with
  | accept =>
    obtain ⟨-, -, rfl⟩ := accept_cases hstep
    exact h.congr rfl rfl rfl fun _ hqueued => hqueued
  | enqueueNewConnection => exact h.enqueueNewConnection hstep
  | enqueueElsewhere =>
    obtain ⟨fd, -, rfl⟩ := enqueueElsewhere_cases hstep
    exact h.congr rfl rfl rfl fun _ hqueued => hqueued
  | announce =>
    obtain ⟨wake, -, hwake, rfl⟩ := announce_cases hstep
    exact h.congr rfl rfl rfl fun _ hqueued => hqueued.notify hwake
  | openFd =>
    obtain ⟨-, rfl⟩ := openFd_cases hstep
    exact h.congr rfl rfl rfl fun _ hqueued => hqueued
  | closeFd =>
    obtain ⟨-, rfl⟩ := closeFd_cases hstep
    exact h.congr rfl rfl rfl fun _ hqueued => hqueued
  | shutdownFd =>
    obtain ⟨shut, rfl⟩ := shutdownFd_cases hstep
    exact h.congr rfl rfl rfl fun _ hqueued => hqueued
  | send =>
    obtain ⟨-, rfl | rfl⟩ := send_cases hstep
    · exact h
    · exact h.congr rfl rfl rfl fun _ hqueued => hqueued
  | lock => exact h.lock hstep
  | insideSend => exact h.insideSend hstep
  | epollWait =>
    obtain ⟨wake, hwake, rfl⟩ := epollWait_cases hstep
    exact h.setWake fun _ hqueued => hqueued.epollWait hwake
  | proceed => exact h.proceed hstep
  | disconnect =>
    obtain ⟨wake, hwake, rfl⟩ := disconnect_cases hstep
    exact h.setWake fun _ hqueued => hqueued.disconnect hwake
  | close => exact h.close hstep
  | lockSend => exact h.lockSend hstep
  | writeFd => exact h.writeFd hok hstep
  | advance => exact h.advance hstep

/-- No event and no queue entry is pending: `sendQueue_` is empty, the pipe has no edge to
report, the reactor thread waits with nothing left to dispatch, and it is in no
`sendBufferedData`. -/
structure Quiescent (w : World) : Prop where
  sendQueue : w.wake.queue .sendQueue = []
  edge : w.wake.edge = false
  stage : w.wake.stage = .waiting
  batch : w.wake.batch = []
  sending : w.sending = none

/-- When nothing is pending, a mapped connection that still has output, that no `send`
works on and whose socket has not failed, is registered for `EPOLLOUT`. -/
def OutputRegistered (w : World) : Prop :=
  w.Quiescent → ∀ (fd : Fd) (o : ℕ) (c : Connection), w.connectionMap fd = some o →
    w.connections[o]? = some c → c.sendMutex = none → 0 < c.sendBuffer.size →
    c.fatal = false → ∃ events ∈ w.epoll fd, EpollFlag.EPOLLOUT ∈ events

/-- Output with an entry to come is not left when nothing is pending. -/
theorem Pending.outputRegistered (h : w.Pending) : w.OutputRegistered := by
  intro hquiet fd o c ho hc hfree hsize hok
  rcases h.owed ho hc hsize hok with hqueued | hsending | ⟨tid, htid⟩
  · rcases hqueued with hmem | hmem
    · rw [hquiet.sendQueue] at hmem
      exact absurd hmem List.not_mem_nil
    · rw [hquiet.stage] at hmem
      exact absurd hmem List.not_mem_nil
  · rw [hquiet.sending] at hsending
    exact absurd hsending.symm (Option.some_ne_none _)
  · rw [hfree] at htid
    exact absurd htid.symm (Option.some_ne_none _)

/-- **No output is left behind** in a run in which every `EAGAIN` and every 0 finds
another entry queued. -/
theorem outputRegistered_of_queuedOnceMore
    (h : (system capacity).ReachableBy QueuedOnceMore w) : w.OutputRegistered := by
  have hpending : w.Pending := by
    apply h.invariant
    · rintro w rfl
      exact pending_start
    · intro w a w' hw hok hstep
      exact hw.next hok hstep
  exact hpending.outputRegistered

instance (w : World) : DecidablePred w.QueuedOnceMore
  | .writeFd .again =>
      inferInstanceAs (Decidable
        (∀ o ∈ w.sending, ∀ c ∈ w.connections[o]?, w.wake.Queued c.fdWrapper.fd))
  | .writeFd .zero =>
      inferInstanceAs (Decidable
        (∀ o ∈ w.sending, ∀ c ∈ w.connections[o]?, w.wake.Queued c.fdWrapper.fd))
  | .writeFd (.accepted _) | .writeFd .error | .accept .. | .enqueueNewConnection .. |
    .enqueueElsewhere .. | .announce .. | .openFd .. | .closeFd .. | .shutdownFd .. |
    .send .. | .lock .. | .insideSend .. | .epollWait .. | .proceed | .disconnect |
    .close .. | .lockSend | .advance => .isTrue trivial

/-- A connection is made and two threads send on it, so that it is queued twice.  The
second `write` of the first flush finds the socket full, and the flush of the other entry
writes the rest; then the reactor thread waits. -/
def flushed : List Action :=
  List.flatten [acceptSteps 0 5, pipeSteps 1, sendSteps 1 0 [1, 2], sendSteps 2 0 [3],
    [.proceed, .proceed], pipeSteps 0,
    [.proceed, .lockSend, .writeFd (.accepted 2), .advance, .writeFd .again],
    [.proceed, .lockSend, .writeFd (.accepted 1), .advance],
    [.proceed, .proceed]]

/-- The flushed connection has no output left when nothing is pending. -/
theorem outputRegistered_flushed :
    ∃ w, (system 65536).ReachableBy QueuedOnceMore w ∧
      w.sockets = [[some 1, some 2, some 3]] ∧ w.wake.stage = .waiting ∧
      w.OutputRegistered := by
  have hrun : ∃ w ∈ runFrom (next 65536) QueuedOnceMore start flushed,
      w.sockets = [[some 1, some 2, some 3]] ∧ w.wake.stage = .waiting := by decide +kernel
  obtain ⟨w, hreach, hsockets, hstage⟩ := exists_of_runFrom hrun
  exact ⟨w, hreach, hsockets, hstage, outputRegistered_of_queuedOnceMore hreach⟩

/-- One thread sends, so that the connection is queued once, and the second `write` finds
the socket full. -/
def stranded : List Action :=
  List.flatten [acceptSteps 0 5, pipeSteps 1, sendSteps 1 0 [1, 2, 3], [.proceed, .proceed],
    pipeSteps 0, [.proceed, .lockSend, .writeFd (.accepted 2), .advance, .writeFd .again],
    [.proceed, .proceed]]

/-- **Output is stranded.**  Nothing is pending, one byte is left in the buffer of a
mapped connection, and its descriptor is registered for `EPOLLIN`, `EPOLLHUP` and
`EPOLLET` only. -/
theorem not_outputRegistered_stranded :
    ∃ w, (system 65536).Reachable w ∧ w.Quiescent ∧
      (∃ c, w.connectionMap 5 = some 0 ∧ w.connections[0]? = some c ∧
        c.sendBuffer.contents = [some 3] ∧ c.sendMutex = none ∧ c.fatal = false) ∧
      w.epoll 5 = some [.EPOLLIN, .EPOLLHUP, .EPOLLET] ∧ ¬ w.OutputRegistered := by
  have hrun : ∃ w ∈ runFrom (next 65536) (fun _ _ => True) start stranded,
      (w.wake.queue .sendQueue = [] ∧ w.wake.edge = false ∧ w.wake.stage = .waiting ∧
        w.wake.batch = [] ∧ w.sending = none) ∧ w.connectionMap 5 = some 0 ∧
      (∃ c ∈ w.connections[0]?, c.sendBuffer.contents = [some 3] ∧ c.sendMutex = none ∧
        c.fatal = false ∧ 0 < c.sendBuffer.size) ∧
      w.epoll 5 = some [.EPOLLIN, .EPOLLHUP, .EPOLLET] := by decide +kernel
  obtain ⟨w, hreach, ⟨h₁, h₂, h₃, h₄, h₅⟩, hmap, ⟨c, hc, hcontents, hfree, hok, hsize⟩, hepoll⟩ :=
    exists_of_runFrom hrun
  have hquiet : w.Quiescent := ⟨h₁, h₂, h₃, h₄, h₅⟩
  refine ⟨w, hreach, hquiet, ⟨c, hmap, hc, hcontents, hfree, hok⟩, hepoll, ?_⟩
  intro hregistered
  obtain ⟨events, hevents, hout⟩ := hregistered hquiet 5 0 c hmap hc hfree hsize hok
  obtain rfl := Option.some.inj (hepoll.symm.trans hevents)
  exact absurd hout (by decide)

/-! ## Registration -/

/-- No descriptor is registered for `EPOLLOUT`, and no connection means to be. -/
structure NeverOut (w : World) : Prop where
  epoll : ∀ {fd events}, w.epoll fd = some events → EpollFlag.EPOLLOUT ∉ events
  wrapper : ∀ c ∈ w.connections, EpollFlag.EPOLLOUT ∉ c.fdWrapper.events

namespace NeverOut

/-- Only the registrations and the connections matter. -/
theorem congr (h : w.NeverOut) (hepoll : w'.epoll = w.epoll)
    (hconnections : w'.connections = w.connections) : w'.NeverOut := by
  refine ⟨?_, ?_⟩
  · rw [hepoll]
    exact h.epoll
  · rw [hconnections]
    exact h.wrapper

theorem setEpoll (h : w.NeverOut) {events : Option (List EpollFlag)}
    (hevents : ∀ e ∈ events, EpollFlag.EPOLLOUT ∉ e) : (w.setEpoll fd events).NeverOut := by
  refine ⟨?_, h.wrapper⟩
  intro fd' e he
  have he : Function.update w.epoll fd events fd' = some e := he
  by_cases hfd : fd' = fd
  · subst hfd
    rw [Function.update_self] at he
    exact hevents e he
  · rw [Function.update_of_ne hfd] at he
    exact h.epoll he

theorem setConnection (h : w.NeverOut) {c' : Connection}
    (hc' : EpollFlag.EPOLLOUT ∉ c'.fdWrapper.events) : (w.setConnection o c').NeverOut := by
  refine ⟨h.epoll, ?_⟩
  intro c hc
  rcases List.mem_or_eq_of_mem_set hc with hmem | rfl
  · exact h.wrapper c hmem
  · exact hc'

/-- A change inside a connection that leaves its events as they are. -/
theorem relabel (h : w.NeverOut) {c c' : Connection} (hc : w.connections[o]? = some c)
    (hevents : c'.fdWrapper = c.fdWrapper) : (w.setConnection o c').NeverOut := by
  apply h.setConnection
  rw [hevents]
  exact h.wrapper c (List.mem_of_getElem? hc)

theorem removeConnection (h : w.NeverOut) (fd : Fd) : (w.removeConnection fd).NeverOut := by
  have hset : (w.setEpoll fd none).NeverOut := h.setEpoll (by simp)
  exact ⟨hset.epoll, h.wrapper⟩

/-- A connection is registered as it is accepted: for input, hang-ups and edges. -/
theorem createConnection (h : w.NeverOut) (fd : Fd) : (w.createConnection fd).NeverOut := by
  have haccepted : EpollFlag.EPOLLOUT ∉ Connection.acceptedEvents := by decide
  have hadd : (w.addEpollFd ⟨fd, Connection.acceptedEvents⟩).NeverOut := by
    unfold addEpollFd
    split_ifs
    · apply h.setEpoll
      rintro e he
      obtain rfl := Option.some.inj he
      exact haccepted
    · exact h
  refine ⟨hadd.epoll, ?_⟩
  intro c hc
  rcases List.mem_append.mp hc with hmem | hmem
  · exact hadd.wrapper c hmem
  · obtain rfl := List.mem_singleton.mp hmem
    exact haccepted

theorem shutdownRead (h : w.NeverOut) (fd : Fd) : (w.shutdownRead fd).NeverOut := by
  obtain ⟨shut, heq⟩ := w.shutdownRead_eq fd
  rw [heq]
  exact ⟨h.epoll, h.wrapper⟩

theorem handleWrite (h : w.NeverOut) (fd : Fd) : (w.handleWrite fd).NeverOut := by
  unfold World.handleWrite
  split
  · exact h
  · exact ⟨h.epoll, h.wrapper⟩

theorem next (h : w.NeverOut) {a : Action} (hstep : w.next capacity a = some w') :
    w'.NeverOut := by
  cases a with
  | accept =>
    obtain ⟨-, -, rfl⟩ := accept_cases hstep
    exact ⟨h.epoll, h.wrapper⟩
  | enqueueNewConnection =>
    obtain ⟨fd, wake, -, -, rfl⟩ := enqueueNewConnection_cases hstep
    exact ⟨h.epoll, h.wrapper⟩
  | enqueueElsewhere =>
    obtain ⟨fd, -, rfl⟩ := enqueueElsewhere_cases hstep
    exact ⟨h.epoll, h.wrapper⟩
  | announce =>
    obtain ⟨wake, -, -, rfl⟩ := announce_cases hstep
    exact ⟨h.epoll, h.wrapper⟩
  | openFd =>
    obtain ⟨-, rfl⟩ := openFd_cases hstep
    exact ⟨h.epoll, h.wrapper⟩
  | closeFd fd =>
    obtain ⟨-, rfl⟩ := closeFd_cases hstep
    have hset : (w.setEpoll fd none).NeverOut := h.setEpoll (by simp)
    exact ⟨hset.epoll, h.wrapper⟩
  | shutdownFd =>
    obtain ⟨shut, rfl⟩ := shutdownFd_cases hstep
    exact ⟨h.epoll, h.wrapper⟩
  | send =>
    obtain ⟨-, rfl | rfl⟩ := send_cases hstep
    · exact h
    · exact ⟨h.epoll, h.wrapper⟩
  | lock =>
    obtain ⟨o, data, c, -, hc, -, rfl⟩ := lock_cases hstep
    refine (h.relabel hc ?_).congr rfl rfl
    rfl
  | insideSend =>
    obtain ⟨o, c, -, hc, hcases⟩ := insideSend_cases hstep
    rcases hcases with ⟨data, b, -, -, rfl⟩ | ⟨wake, -, -, rfl⟩ | ⟨wake, -, -, rfl⟩ | ⟨-, rfl⟩ <;>
    · refine (h.relabel hc ?_).congr rfl rfl
      rfl
  | epollWait =>
    obtain ⟨wake, -, rfl⟩ := epollWait_cases hstep
    exact ⟨h.epoll, h.wrapper⟩
  | proceed =>
    obtain ⟨-, wake, -, hcases⟩ := proceed_cases hstep
    have hwaked : (w.setWake wake).NeverOut := ⟨h.epoll, h.wrapper⟩
    rcases hcases with ⟨fd, -, -, -, rfl⟩ | ⟨fd, -, -, rfl⟩ | ⟨fd, -, -, rfl⟩ | ⟨-, -, rfl⟩
    · exact hwaked.removeConnection fd
    · exact hwaked.handleWrite fd
    · exact hwaked.createConnection fd
    · exact hwaked
  | disconnect =>
    obtain ⟨wake, -, rfl⟩ := disconnect_cases hstep
    exact ⟨h.epoll, h.wrapper⟩
  | close =>
    obtain ⟨-, c, hc, rfl | rfl⟩ := close_cases hstep
    · -- the registration is what is left of the connection's events
      have hfilter : EpollFlag.EPOLLOUT ∉
          c.fdWrapper.events.filter (fun flag => flag ≠ .EPOLLIN) :=
        fun hmem => h.wrapper c (List.mem_of_getElem? hc) (List.mem_of_mem_filter hmem)
      refine ((h.setConnection ?_).setEpoll ?_).shutdownRead _
      · exact hfilter
      intro e he
      obtain ⟨e', -, rfl⟩ := Option.map_eq_some_iff.mp he
      exact hfilter
    · exact (h.setConnection List.not_mem_nil).removeConnection _
  | lockSend =>
    obtain ⟨o, c, -, hc, -, ⟨-, rfl⟩ | rfl⟩ := lockSend_cases hstep
    · exact ⟨h.epoll, h.wrapper⟩
    · refine h.relabel hc ?_
      rfl
  | writeFd =>
    obtain ⟨o, c, -, hc, -, hcases⟩ := writeFd_cases hstep
    rcases hcases with ⟨n, d, -, -, -, rfl⟩ | ⟨-, rfl⟩ | ⟨-, rfl⟩ <;>
    · refine (h.relabel hc ?_).congr rfl rfl
      rfl
  | advance =>
    obtain ⟨o, c, n, b, -, hc, -, -, ⟨-, rfl⟩ | ⟨-, rfl⟩⟩ := advance_cases hstep <;>
    · refine (h.relabel hc ?_).congr rfl rfl
      rfl

end NeverOut

/-- **`EPOLLOUT` is never registered**, in any run. -/
theorem neverOut_of_reachable (h : (system capacity).Reachable w) : w.NeverOut := by
  apply Reachable.invariant (P := NeverOut) _ _ h
  · rintro w rfl
    exact ⟨fun h => absurd h.symm (Option.some_ne_none _), by simp [start]⟩
  · intro w a w' hw hstep
    exact hw.next hstep

end World

end Muduo
