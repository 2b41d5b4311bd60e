/-
# Closing a connection that is gone

`Connection::close` tears down whatever its descriptor number stands for.  An object
that the reactor has removed keeps its number, and once the number belongs to another
connection a late `close` hits that one.
-/
import FastServer.SendPath

namespace Muduo

open TransitionSystem

namespace WakeUp

variable {capacity : ℕ} {w w' : WakeUp} {tid : Tid}

/-- A push leaves the reactor thread where it is. -/
theorem push_frame {q : Queue} {fd : Fd} (h : w.push tid q fd = some w') :
    w'.stage = w.stage ∧ w'.batch = w.batch := by
  unfold push at h
  split_ifs at h
  obtain rfl := Option.some.inj h
  exact ⟨rfl, rfl⟩

/-- A write to the pipe leaves the reactor thread where it is. -/
theorem notify_frame (h : w.notify capacity tid = some w') :
    w'.stage = w.stage ∧ w'.batch = w.batch := by
  unfold notify at h
  split_ifs at h <;>
  · obtain rfl := Option.some.inj h
    exact ⟨rfl, rfl⟩

end WakeUp

namespace World

variable {capacity : ℕ} {w w' : World} {tid : Tid} {fd : Fd} {o : ℕ}

/-! ## Numbers of objects -/

/-- The descriptor number of each object. -/
def numbers (w : World) : List Fd := w.connections.map fun c => c.fdWrapper.fd

/-- An entry of `connectionMap_` stands under the number of its object. -/
def Indexed (w : World) : Prop :=
  ∀ fd o, w.connectionMap fd = some o → w.numbers[o]? = some fd

theorem numbers_setConnection {c c' : Connection} (hc : w.connections[o]? = some c)
    (hfd : c'.fdWrapper.fd = c.fdWrapper.fd) : (w.setConnection o c').numbers = w.numbers := by
  have hlt := (List.getElem?_eq_some_iff.mp hc).1
  unfold numbers setConnection
  apply List.ext_getElem?
  intro i
  by_cases hi : o = i
  · subst hi
    rw [List.getElem?_map, List.getElem?_set_self hlt, List.getElem?_map, hc, Option.map_some,
      Option.map_some, hfd]
  · rw [List.getElem?_map, List.getElem?_set_ne hi, List.getElem?_map]

theorem number_eq {c : Connection} (hc : w.connections[o]? = some c) :
    w.numbers[o]? = some c.fdWrapper.fd := by
  unfold numbers
  rw [List.getElem?_map, hc]
  rfl

/-- An entry is of an object that exists. -/
theorem Indexed.lt (h : w.Indexed) (ho : w.connectionMap fd = some o) :
    o < w.connections.length := by
  have hlt := (List.getElem?_eq_some_iff.mp (h fd o ho)).1
  unfold numbers at hlt
  rwa [List.length_map] at hlt

/-- An object has at most one entry. -/
theorem Indexed.unique (h : w.Indexed) {fd' : Fd} (ho : w.connectionMap fd = some o)
    (ho' : w.connectionMap fd' = some o) : fd = fd' :=
  Option.some.inj ((h fd o ho).symm.trans (h fd' o ho'))

/-! ## What the steps change -/

/-- The steps of the reactor thread that touch `connectionMap_` or move on in `handleEvent`. -/
def Action.tearsDown : Action → Bool
  | .epollWait _ => true
  | .proceed => true
  | .disconnect => true
  | .close _ _ => true
  | _ => false

/-- What the other steps leave as it is. -/
structure SameEntries (w w' : World) : Prop where
  connectionMap : w'.connectionMap = w.connectionMap
  numbers : w'.numbers = w.numbers
  stage : w'.wake.stage = w.wake.stage
  batch : w'.wake.batch = w.wake.batch

/-- **The other steps** change neither the entries nor the numbers nor where the reactor
thread stands. -/
theorem sameEntries {a : Action} (ha : a.tearsDown = false) (h : w.next capacity a = some w') :
    w.SameEntries w' := by
  cases a with
  | accept =>
    obtain ⟨-, -, rfl⟩ := accept_cases h
    exact ⟨rfl, rfl, rfl, rfl⟩
  | enqueueNewConnection =>
    obtain ⟨fd, wake, -, hwake, rfl⟩ := enqueueNewConnection_cases h
    obtain ⟨hstage, hbatch⟩ := WakeUp.push_frame hwake
    exact ⟨rfl, rfl, hstage, hbatch⟩
  | enqueueElsewhere =>
    obtain ⟨fd, -, rfl⟩ := enqueueElsewhere_cases h
    exact ⟨rfl, rfl, rfl, rfl⟩
  | announce =>
    obtain ⟨wake, -, hwake, rfl⟩ := announce_cases h
    obtain ⟨hstage, hbatch⟩ := WakeUp.notify_frame hwake
    exact ⟨rfl, rfl, hstage, hbatch⟩
  | openFd =>
    obtain ⟨-, rfl⟩ := openFd_cases h
    exact ⟨rfl, rfl, rfl, rfl⟩
  | closeFd =>
    obtain ⟨-, rfl⟩ := closeFd_cases h
    exact ⟨rfl, rfl, rfl, rfl⟩
  | shutdownFd =>
    obtain ⟨shut, rfl⟩ := shutdownFd_cases h
    exact ⟨rfl, rfl, rfl, rfl⟩
  | send =>
    obtain ⟨-, rfl | rfl⟩ := send_cases h <;> exact ⟨rfl, rfl, rfl, rfl⟩
  | lock =>
    obtain ⟨o, data, c, -, hc, -, rfl⟩ := lock_cases h
    refine ⟨rfl, numbers_setConnection hc ?_, rfl, rfl⟩
    rfl
  | insideSend =>
    obtain ⟨o, c, -, hc, hcases⟩ := insideSend_cases h
    rcases hcases with ⟨data, b, -, -, rfl⟩ | ⟨wake, -, hwake, rfl⟩ | ⟨wake, -, hwake, rfl⟩ |
      ⟨-, rfl⟩
    · refine ⟨rfl, numbers_setConnection hc ?_, rfl, rfl⟩
      rfl
    · obtain ⟨hstage, hbatch⟩ := WakeUp.push_frame hwake
      refine ⟨rfl, numbers_setConnection hc ?_, hstage, hbatch⟩
      rfl
    · obtain ⟨hstage, hbatch⟩ := WakeUp.notify_frame hwake
      refine ⟨rfl, numbers_setConnection hc ?_, hstage, hbatch⟩
      rfl
    · refine ⟨rfl, numbers_setConnection hc ?_, rfl, rfl⟩
      rfl
  | lockSend =>
    obtain ⟨o, c, -, hc, -, ⟨-, rfl⟩ | rfl⟩ := lockSend_cases h
    · exact ⟨rfl, rfl, rfl, rfl⟩
    · refine ⟨rfl, numbers_setConnection hc ?_, rfl, rfl⟩
      rfl
  | writeFd =>
    obtain ⟨o, c, -, hc, -, hcases⟩ := writeFd_cases h
    rcases hcases with ⟨n, d, -, -, -, rfl⟩ | ⟨-, rfl⟩ | ⟨-, rfl⟩ <;>
    · refine ⟨rfl, numbers_setConnection hc ?_, rfl, rfl⟩
      rfl
  | advance =>
    obtain ⟨o, c, n, b, -, hc, -, -, ⟨-, rfl⟩ | ⟨-, rfl⟩⟩ := advance_cases h <;>
    · refine ⟨rfl, numbers_setConnection hc ?_, rfl, rfl⟩
      rfl
  | epollWait | proceed | disconnect | close => exact absurd ha (by simp [Action.tearsDown])

/-- `close` erases at most the entry under the number of its object. -/
theorem close_frame (force : Bool) (h : w.close o force = some w') :
    w'.numbers = w.numbers ∧ w'.wake = w.wake ∧
      (w'.connectionMap = w.connectionMap ∨ ∃ fd, w.numbers[o]? = some fd ∧
        w'.connectionMap = Function.update w.connectionMap fd none) := by
  obtain ⟨-, c, hc, rfl | rfl⟩ := close_cases h
  · obtain ⟨events, registered, shut, heq⟩ :=
      w.disableReadEventAndShutdown_eq o { c with tryClose := true }
    rw [heq]
    refine ⟨numbers_setConnection hc ?_, rfl, Or.inl rfl⟩
    rfl
  · refine ⟨numbers_setConnection hc ?_, rfl, Or.inr ⟨_, number_eq hc, rfl⟩⟩
    rfl

/-- A new connection is entered under its own number. -/
theorem Indexed.createConnection (h : w.Indexed) (fd : Fd) : (w.createConnection fd).Indexed := by
  obtain ⟨epoll, heq⟩ := w.createConnection_eq fd
  rw [heq]
  intro fd' i hi
  have hi : Function.update w.connectionMap fd (some w.connections.length) fd' = some i := hi
  show (List.map (fun c => c.fdWrapper.fd) (w.connections ++ [_]))[i]? = some fd'
  rw [List.map_append]
  by_cases hfd : fd' = fd
  · subst hfd
    rw [Function.update_self] at hi
    obtain rfl := Option.some.inj hi
    rw [← List.length_map (fun c : Connection => c.fdWrapper.fd), List.map_singleton,
      List.getElem?_concat_length]
    rfl
  · rw [Function.update_of_ne hfd] at hi
    rw [List.getElem?_append_left (by rw [List.length_map]; exact h.lt hi)]
    exact h fd' i hi

/-- Fewer entries and the same numbers. -/
theorem Indexed.mono (h : w.Indexed)
    (hmap : ∀ fd o, w'.connectionMap fd = some o → w.connectionMap fd = some o)
    (hnumbers : w'.numbers = w.numbers) : w'.Indexed := by
  intro fd o ho
  rw [hnumbers]
  exact h fd o (hmap fd o ho)

/-- Erasing an entry leaves no other entries. -/
theorem of_update_none {m : Fd → Option ℕ} {fd fd' : Fd} {i : ℕ}
    (h : Function.update m fd none fd' = some i) : fd' ≠ fd ∧ m fd' = some i := by
  by_cases hfd : fd' = fd
  · rw [hfd, Function.update_self] at h
    exact absurd h.symm (Option.some_ne_none _)
  · exact ⟨hfd, (Function.update_of_ne hfd _ _).symm.trans h⟩

theorem Indexed.next (h : w.Indexed) {a : Action} (hstep : w.next capacity a = some w') :
    w'.Indexed := by
  cases ha : a.tearsDown with
  | false =>
    obtain ⟨hmap, hnumbers, -, -⟩ := sameEntries ha hstep
    exact h.mono (fun fd o ho => hmap ▸ ho) hnumbers
  | true =>
    cases a with
    | epollWait =>
      obtain ⟨wake, -, rfl⟩ := epollWait_cases hstep
      exact h
    | disconnect =>
      obtain ⟨wake, -, rfl⟩ := disconnect_cases hstep
      exact h
    | close =>
      obtain ⟨hnumbers, -, hmap | ⟨fd, -, hmap⟩⟩ := close_frame _ hstep
      · exact h.mono (fun fd o ho => hmap ▸ ho) hnumbers
      · refine h.mono (fun fd' i hi => ?_) hnumbers
        rw [hmap] at hi
        exact (of_update_none hi).2
    | proceed =>
      obtain ⟨-, wake, -, hcases⟩ := proceed_cases hstep
      rcases hcases with ⟨fd, -, -, -, rfl⟩ | ⟨fd, -, -, rfl⟩ | ⟨fd, -, -, rfl⟩ | ⟨-, -, rfl⟩
      · exact h.mono (fun fd' i hi => (of_update_none hi).2) rfl
      · unfold handleWrite
        split <;> exact h
      · exact Indexed.createConnection (w := w.setWake wake) h fd
      · exact h
    | _ => exact absurd ha (by simp [Action.tearsDown])

/-- The entries of a run stand under the numbers of their objects. -/
theorem indexed_of_reachable (h : (system capacity).Reachable w) : w.Indexed := by
  apply Reachable.invariant (P := Indexed) _ _ h
  · rintro w rfl
    exact fun fd o ho => absurd ho.symm (Option.some_ne_none _)
  · intro w a w' hw hstep
    exact hw.next hstep

/-! ## Sockets -/

/-- No two descriptors stand for one socket. -/
def OwnSockets (w : World) : Prop :=
  ∀ fd d, w.fdTable fd = some d → d.socket < w.sockets.length ∧
    ∀ fd' d', w.fdTable fd' = some d' → d'.socket = d.socket → fd' = fd

namespace OwnSockets

/-- Descriptors are closed or change hands, and sockets are not forgotten. -/
theorem mono (h : w.OwnSockets) (hsockets : w.sockets.length ≤ w'.sockets.length)
    (hfdTable : ∀ fd d', w'.fdTable fd = some d' →
      ∃ d, w.fdTable fd = some d ∧ d.socket = d'.socket) : w'.OwnSockets := by
  intro fd d' hd'
  obtain ⟨d, hd, hsocket⟩ := hfdTable fd d' hd'
  obtain ⟨hlt, hunique⟩ := h fd d hd
  rw [← hsocket]
  refine ⟨lt_of_lt_of_le hlt hsockets, ?_⟩
  intro fd₁ d₁' hd₁' hsame
  obtain ⟨d₁, hd₁, hsocket₁⟩ := hfdTable fd₁ d₁' hd₁'
  exact hunique fd₁ d₁ hd₁ (hsocket₁.trans hsame)

/-- Neither the descriptors nor the number of sockets changed. -/
theorem congr (h : w.OwnSockets) (hfdTable : w'.fdTable = w.fdTable)
    (hsockets : w'.sockets.length = w.sockets.length) : w'.OwnSockets :=
  h.mono (le_of_eq hsockets.symm) fun _ d hd => ⟨d, hfdTable ▸ hd, rfl⟩

/-- A new socket is no descriptor's yet. -/
theorem openSocket (h : w.OwnSockets) (fd : Fd) (owner : Owner) :
    (w.openSocket fd owner).OwnSockets := by
  have hcases : ∀ fd' d, (w.openSocket fd owner).fdTable fd' = some d →
      (fd' = fd ∧ d.socket = w.sockets.length) ∨ (fd' ≠ fd ∧ w.fdTable fd' = some d) := by
    intro fd' d hd
    have hd : Function.update w.fdTable fd (some ⟨w.sockets.length, owner⟩) fd' = some d := hd
    by_cases hfd : fd' = fd
    · subst hfd
      rw [Function.update_self] at hd
      obtain rfl := Option.some.inj hd
      exact Or.inl ⟨rfl, rfl⟩
    · rw [Function.update_of_ne hfd] at hd
      exact Or.inr ⟨hfd, hd⟩
  intro fd' d hd
  have hlength : (w.openSocket fd owner).sockets.length = w.sockets.length + 1 := by
    show (w.sockets ++ [[]]).length = _
    rw [List.length_append, List.length_singleton]
  rw [hlength]
  rcases hcases fd' d hd with ⟨rfl, hsocket⟩ | ⟨hne, hold⟩
  · refine ⟨by omega, ?_⟩
    intro fd₁ d₁ hd₁ hsame
    rcases hcases fd₁ d₁ hd₁ with ⟨rfl, -⟩ | ⟨-, hold₁⟩
    · rfl
    · have hlt := (h fd₁ d₁ hold₁).1
      omega
  · obtain ⟨hlt, hunique⟩ := h fd' d hold
    refine ⟨by omega, ?_⟩
    intro fd₁ d₁ hd₁ hsame
    rcases hcases fd₁ d₁ hd₁ with ⟨rfl, hsocket₁⟩ | ⟨-, hold₁⟩
    · omega
    · exact hunique fd₁ d₁ hold₁ hsame

/-- A descriptor that changes hands keeps its socket. -/
theorem setOwner (h : w.OwnSockets) (fd : Fd) (owner : Owner) :
    (w.setOwner fd owner).OwnSockets := by
  refine h.mono (le_refl _) ?_
  intro fd' d' hd'
  have hd' : Function.update w.fdTable fd
      ((w.fdTable fd).map fun d => { d with owner := owner }) fd' = some d' := hd'
  by_cases hfd : fd' = fd
  · subst hfd
    rw [Function.update_self] at hd'
    obtain ⟨d, hd, rfl⟩ := Option.map_eq_some_iff.mp hd'
    exact ⟨d, hd, rfl⟩
  · rw [Function.update_of_ne hfd] at hd'
    exact ⟨d', hd', rfl⟩

/-- A descriptor is closed. -/
theorem close (h : w.OwnSockets) {fd : Fd}
    (hfdTable : w'.fdTable = Function.update w.fdTable fd none)
    (hsockets : w'.sockets.length = w.sockets.length) : w'.OwnSockets := by
  refine h.mono (le_of_eq hsockets.symm) ?_
  intro fd' d' hd'
  rw [hfdTable] at hd'
  by_cases hfd : fd' = fd
  · subst hfd
    rw [Function.update_self] at hd'
    exact absurd hd'.symm (Option.some_ne_none _)
  · rw [Function.update_of_ne hfd] at hd'
    exact ⟨d', hd', rfl⟩

theorem proceed (h : w.OwnSockets) (hstep : w.proceed = some w') : w'.OwnSockets := by
  obtain ⟨-, wake, -, hcases⟩ := proceed_cases hstep
  rcases hcases with ⟨fd, -, -, -, rfl⟩ | ⟨fd, -, -, rfl⟩ | ⟨fd, -, -, rfl⟩ | ⟨-, -, rfl⟩
  · exact h.close rfl rfl
  · unfold handleWrite
    split <;> exact h
  · obtain ⟨epoll, heq⟩ := (w.setWake wake).createConnection_eq fd
    rw [heq]
    exact (h.setOwner fd (.connection w.connections.length)).congr rfl rfl
  · exact h

theorem next (h : w.OwnSockets) {a : Action} (hstep : w.next capacity a = some w') :
    w'.OwnSockets := by
  cases a with
  | accept tid fd =>
    obtain ⟨-, -, rfl⟩ := accept_cases hstep
    exact h.openSocket fd _
  | enqueueNewConnection =>
    obtain ⟨fd, wake, -, -, rfl⟩ := enqueueNewConnection_cases hstep
    exact h.setOwner fd _
  | enqueueElsewhere =>
    obtain ⟨fd, -, rfl⟩ := enqueueElsewhere_cases hstep
    exact h.setOwner fd _
  | announce =>
    obtain ⟨wake, -, -, rfl⟩ := announce_cases hstep
    exact h
  | openFd fd =>
    obtain ⟨-, rfl⟩ := openFd_cases hstep
    exact h.openSocket fd _
  | closeFd =>
    obtain ⟨-, rfl⟩ := closeFd_cases hstep
    exact h.close rfl rfl
  | shutdownFd =>
    obtain ⟨shut, rfl⟩ := shutdownFd_cases hstep
    exact h
  | send =>
    obtain ⟨-, rfl | rfl⟩ := send_cases hstep <;> exact h
  | lock =>
    obtain ⟨o, data, c, -, -, -, rfl⟩ := lock_cases hstep
    exact h
  | insideSend =>
    obtain ⟨o, c, -, -, hcases⟩ := insideSend_cases hstep
    rcases hcases with ⟨data, b, -, -, rfl⟩ | ⟨wake, -, -, rfl⟩ | ⟨wake, -, -, rfl⟩ | ⟨-, rfl⟩ <;>
      exact h
  | epollWait =>
    obtain ⟨wake, -, rfl⟩ := epollWait_cases hstep
    exact h
  | proceed => exact h.proceed hstep
  | disconnect =>
    obtain ⟨wake, -, rfl⟩ := disconnect_cases hstep
    exact h
  | close o =>
    obtain ⟨-, c, -, rfl | rfl⟩ := close_cases hstep
    · obtain ⟨events, registered, shut, heq⟩ :=
        w.disableReadEventAndShutdown_eq o { c with tryClose := true }
      rw [heq]
      exact h
    · exact h.close rfl rfl
  | lockSend =>
    obtain ⟨o, c, -, -, -, ⟨-, rfl⟩ | rfl⟩ := lockSend_cases hstep <;> exact h
  | writeFd =>
    obtain ⟨o, c, -, -, -, hcases⟩ := writeFd_cases hstep
    rcases hcases with ⟨n, d, -, -, -, rfl⟩ | ⟨-, rfl⟩ | ⟨-, rfl⟩
    · exact h.congr rfl (List.length_modify _ _ _)
    · exact h
    · exact h
  | advance =>
    obtain ⟨o, c, n, b, -, -, -, -, ⟨-, rfl⟩ | ⟨-, rfl⟩⟩ := advance_cases hstep <;> exact h

end OwnSockets

/-- The descriptors of a run stand for different sockets. -/
theorem ownSockets_of_reachable (h : (system capacity).Reachable w) : w.OwnSockets := by
  apply Reachable.invariant (P := OwnSockets) _ _ h
  · rintro w rfl
    exact fun fd d hd => absurd hd.symm (Option.some_ne_none _)
  · intro w a w' hw hstep
    exact hw.next hstep

/-! ## Late calls of `close` -/

/-- The reactor has removed the connection: no entry of `connectionMap_` is it. -/
def Removed (w : World) (o : ℕ) : Prop := ∀ fd, w.connectionMap fd ≠ some o

/-- The step leaves the connections other than `o` alone: their entries stay what they
are, and their open descriptors, registrations and sockets do, in this reactor, in the
others, and on the way to any of them. -/
structure SparesOthers (w w' : World) (o : ℕ) : Prop where
  entries : ∀ fd o', o' ≠ o → (w'.connectionMap fd = some o' ↔ w.connectionMap fd = some o')
  sockets : ∀ fd d, w.fdTable fd = some d → d.owner.OtherThan o →
    w'.fdTable fd = some d ∧ w'.epoll fd = w.epoll fd ∧ w'.shut d.socket = w.shut d.socket

/-- The descriptor number of the connection `c`, which is `o`, is no other connection's: a
call that closes it finds it neither in `connectionMap_` nor open for another connection
of any reactor; a call that leaves it to be flushed finds it open for another one only if
that one is shut down for reading and, where this reactor has it registered, registered
as the call would register it. -/
def NumberUnused (w : World) (o : ℕ) (c : Connection) (force : Bool) : Prop :=
  if force = false ∧ 0 < c.sendBuffer.size then
    ∀ d, w.fdTable c.fdWrapper.fd = some d → d.owner.OtherThan o →
      w.shut d.socket = true ∧
        ∀ events ∈ w.epoll c.fdWrapper.fd,
          events = c.fdWrapper.events.filter (fun flag => flag ≠ .EPOLLIN)
  else
    w.connectionMap c.fdWrapper.fd = none ∧
      ∀ d, w.fdTable c.fdWrapper.fd = some d → ¬ d.owner.OtherThan o

/-- `shutdown` of a descriptor that stands for another socket is not felt. -/
theorem shutdownRead_shut {k : ℕ}
    (h : ∀ d, w.fdTable fd = some d → d.socket = k → w.shut k = true) :
    (w.shutdownRead fd).shut k = w.shut k := by
  unfold shutdownRead
  cases hd : w.fdTable fd with
  | none => rfl
  | some d =>
    show Function.update w.shut d.socket true k = w.shut k
    by_cases hk : k = d.socket
    · rw [hk, Function.update_self, ← hk]
      exact (h d hd hk.symm).symm
    · exact Function.update_of_ne hk _ _

/-- What a call that leaves the connection to be flushed changes for others. -/
theorem disableReadEventAndShutdown_fields (w : World) (o : ℕ) (c : Connection) :
    (w.disableReadEventAndShutdown o c).connectionMap = w.connectionMap ∧
      (w.disableReadEventAndShutdown o c).fdTable = w.fdTable ∧
      (w.disableReadEventAndShutdown o c).epoll = Function.update w.epoll c.fdWrapper.fd
        ((w.epoll c.fdWrapper.fd).map fun _ =>
          c.fdWrapper.events.filter (fun flag => flag ≠ .EPOLLIN)) := by
  unfold disableReadEventAndShutdown
  obtain ⟨shut, heq⟩ := shutdownRead_eq
    ((w.setConnection o { c with fdWrapper := { c.fdWrapper with
      events := c.fdWrapper.events.filter (fun flag => flag ≠ .EPOLLIN) } }).setEpoll
        c.fdWrapper.fd ((w.epoll c.fdWrapper.fd).map fun _ =>
          c.fdWrapper.events.filter (fun flag => flag ≠ .EPOLLIN))) c.fdWrapper.fd
  dsimp only
  rw [heq]
  exact ⟨rfl, rfl, rfl⟩

/-- Its effect on the sockets is that of `shutdown`. -/
theorem disableReadEventAndShutdown_shut (w : World) (o : ℕ) (c : Connection) :
    (w.disableReadEventAndShutdown o c).shut = (w.shutdownRead c.fdWrapper.fd).shut := by
  have hcongr : ∀ w₁ : World, w₁.fdTable = w.fdTable → w₁.shut = w.shut →
      (w₁.shutdownRead c.fdWrapper.fd).shut = (w.shutdownRead c.fdWrapper.fd).shut := by
    intro w₁ hfdTable hshut
    unfold shutdownRead
    rw [hfdTable]
    cases w.fdTable c.fdWrapper.fd with
    | none => exact hshut
    | some d => exact congrArg (Function.update · d.socket true) hshut
  exact hcongr _ rfl rfl

/-- A call that leaves the connection to be flushed spares the others exactly if its number
is not used. -/
theorem spares_pending_iff (hown : w.OwnSockets) (c : Connection) :
    w.SparesOthers (w.disableReadEventAndShutdown o c) o ↔
      ∀ d, w.fdTable c.fdWrapper.fd = some d → d.owner.OtherThan o →
        w.shut d.socket = true ∧
          ∀ events ∈ w.epoll c.fdWrapper.fd,
            events = c.fdWrapper.events.filter (fun flag => flag ≠ .EPOLLIN) := by
  obtain ⟨hmap, hfdTable, hepoll⟩ := w.disableReadEventAndShutdown_fields o c
  have hshut := w.disableReadEventAndShutdown_shut o c
  constructor
  · intro h d hd hother
    obtain ⟨-, hregistration, hread⟩ := h.sockets c.fdWrapper.fd d hd hother
    constructor
    · rw [← hread, hshut]
      unfold shutdownRead
      rw [hd]
      exact Function.update_self _ _ _
    · intro events hevents
      rw [hepoll, Function.update_self, Option.mem_def.mp hevents] at hregistration
      exact (Option.some.inj hregistration).symm
  · intro h
    refine ⟨fun fd o' _ => by rw [hmap], ?_⟩
    intro fd d hd hother
    refine ⟨hfdTable ▸ hd, ?_, ?_⟩
    · rw [hepoll]
      by_cases hfd : fd = c.fdWrapper.fd
      · subst hfd
        rw [Function.update_self]
        cases hevents : w.epoll c.fdWrapper.fd with
        | none => rfl
        | some events => rw [(h d hd hother).2 events hevents, Option.map_some]
      · exact Function.update_of_ne hfd _ _
    · rw [hshut]
      apply shutdownRead_shut
      intro d' hd' hsame
      -- the socket is that of the number itself
      have hfd := (hown fd d hd).2 c.fdWrapper.fd d' hd' hsame
      rw [← hfd] at hd
      exact (h d hd hother).1

/-- A call that closes the number spares the others exactly if it is not used. -/
theorem spares_removal_iff (hremoved : w.Removed o) {w₁ : World} (fd : Fd)
    (hmap : w₁.connectionMap = w.connectionMap) (hfdTable : w₁.fdTable = w.fdTable)
    (hepoll : w₁.epoll = w.epoll) (hshut : w₁.shut = w.shut) :
    w.SparesOthers (w₁.removeConnection fd) o ↔
      w.connectionMap fd = none ∧ ∀ d, w.fdTable fd = some d → ¬ d.owner.OtherThan o := by
  have hmap' : (w₁.removeConnection fd).connectionMap
      = Function.update w.connectionMap fd none := by
    rw [← hmap]
    rfl
  have hfdTable' : (w₁.removeConnection fd).fdTable = Function.update w.fdTable fd none := by
    rw [← hfdTable]
    rfl
  have hepoll' : (w₁.removeConnection fd).epoll = Function.update w.epoll fd none := by
    rw [← hepoll]
    rfl
  constructor
  · intro h
    constructor
    · cases ho : w.connectionMap fd with
      | none => rfl
      | some o' =>
        have hne : o' ≠ o := by
          rintro rfl
          exact hremoved fd ho
        have hkept := (h.entries fd o' hne).mpr ho
        rw [hmap', Function.update_self] at hkept
        exact absurd hkept.symm (Option.some_ne_none _)
    · intro d hd hother
      have hkept := (h.sockets fd d hd hother).1
      rw [hfdTable', Function.update_self] at hkept
      exact absurd hkept.symm (Option.some_ne_none _)
  · rintro ⟨hunmapped, hunowned⟩
    constructor
    · intro fd' o' _
      rw [hmap']
      by_cases hfd : fd' = fd
      · rw [hfd, Function.update_self, hunmapped]
      · rw [Function.update_of_ne hfd]
    · intro fd' d hd hother
      have hfd : fd' ≠ fd := by
        rintro rfl
        exact hunowned d hd hother
      rw [hfdTable', hepoll', Function.update_of_ne hfd, Function.update_of_ne hfd]
      exact ⟨hd, rfl, congrFun hshut _⟩

/-- **A late `close` spares the others exactly if the number of its connection is not used
again.** -/
theorem sparesOthers_iff_numberUnused (h : (system capacity).Reachable w)
    (hremoved : w.Removed o) {c : Connection} (hc : w.connections[o]? = some c) {force : Bool}
    (hstep : w.next capacity (.close o force) = some w') :
    w.SparesOthers w' o ↔ w.NumberUnused o c force := by
  have hclose : w.close o force = some w' := hstep
  unfold close at hclose
  split_ifs at hclose with hguard
  rw [hc, Option.map_some] at hclose
  obtain rfl := Option.some.inj hclose
  unfold NumberUnused
  by_cases hpending : force = false ∧ 0 < c.sendBuffer.size
  · rw [if_pos hpending, if_pos hpending]
    exact spares_pending_iff (ownSockets_of_reachable h) { c with tryClose := true }
  · rw [if_neg hpending, if_neg hpending]
    apply spares_removal_iff hremoved <;> rfl

/-- An object whose number does not lead to it has been removed. -/
theorem removed_of_ne (h : (system capacity).Reachable w) {c : Connection}
    (hc : w.connections[o]? = some c) (hne : w.connectionMap c.fdWrapper.fd ≠ some o) :
    w.Removed o := by
  intro fd ho
  have hfd := indexed_of_reachable h fd o ho
  rw [number_eq hc] at hfd
  rw [Option.some.inj hfd] at hne
  exact hne ho

/-- A connection on number 5 is made, and its peer leaves. -/
def departed : List Action :=
  List.flatten [acceptSteps 0 5, pipeSteps 1, [.proceed, .proceed],
    [.epollWait [.connection ⟨5, [.EPOLLIN]⟩], .proceed, .disconnect],
    [.proceed, .proceed, .proceed, .proceed]]

/-- Number 6 is accepted after it for the same reactor and number 7 for another, and a timer
is handled. -/
def departedElsewhere : List Action :=
  List.flatten [departed, acceptSteps 0 6, pipeSteps 1, [.proceed, .proceed],
    [.accept 0 7, .enqueueElsewhere 0], [.epollWait [.timer], .proceed]]

/-- A late `close` in the timer's callback spares the connections on numbers 6 and 7. -/
theorem sparesOthers_departedElsewhere :
    ∃ w w', (system 65536).Reachable w ∧ w.Removed 0 ∧ w.connectionMap 6 = some 1 ∧
      w.fdTable 7 = some ⟨2, .elsewhere⟩ ∧ w.next 65536 (.close 0 true) = some w' ∧
      w.SparesOthers w' 0 := by
  have hrun : ∃ w ∈ runFrom (next 65536) (fun _ _ => True) start departedElsewhere,
      w.connectionMap 6 = some 1 ∧ w.fdTable 7 = some ⟨2, .elsewhere⟩ ∧
        (w.next 65536 (.close 0 true)).isSome ∧ ∃ c ∈ w.connections[0]?,
          c.fdWrapper.fd = 5 ∧ w.connectionMap 5 = none ∧ w.fdTable 5 = none := by
    decide +kernel
  obtain ⟨w, hreach, hsix, hseven, hsome, c, hc, hfd, hunmapped, hclosed⟩ := exists_of_runFrom hrun
  obtain ⟨w', hw'⟩ := Option.isSome_iff_exists.mp hsome
  have hremoved : w.Removed 0 := removed_of_ne hreach hc (by rw [hfd, hunmapped]; simp)
  refine ⟨w, w', hreach, hremoved, hsix, hseven, hw', ?_⟩
  refine (sparesOthers_iff_numberUnused hreach hremoved hc hw').mpr ?_
  unfold NumberUnused
  rw [if_neg (by simp), hfd]
  refine ⟨hunmapped, ?_⟩
  intro d hd
  rw [hclosed] at hd
  exact absurd hd.symm (Option.some_ne_none _)

/-- Number 5 is accepted after it, and a timer is handled. -/
def departedAndReused : List Action :=
  List.flatten [departed, acceptSteps 0 5, pipeSteps 1, [.proceed, .proceed],
    [.epollWait [.timer], .proceed]]

/-- **A late `close` removes another connection.**  The callback of the timer closes the
connection that left, and the new one is erased from `connectionMap_` and its descriptor
closed. -/
theorem not_sparesOthers_departedAndReused :
    ∃ w w', (system 65536).Reachable w ∧ w.Removed 0 ∧ w.connectionMap 5 = some 1 ∧
      w.next 65536 (.close 0 true) = some w' ∧ w'.connectionMap 5 = none ∧
      w'.fdTable 5 = none ∧ ¬ w.SparesOthers w' 0 := by
  have hrun : ∃ w ∈ runFrom (next 65536) (fun _ _ => True) start departedAndReused,
      w.connectionMap 5 = some 1 ∧ (∃ w' ∈ w.next 65536 (.close 0 true),
        w'.connectionMap 5 = none ∧ w'.fdTable 5 = none) ∧
        ∃ c ∈ w.connections[0]?, c.fdWrapper.fd = 5 := by decide +kernel
  obtain ⟨w, hreach, hmapped, ⟨w', hw', hunmapped, hclosed⟩, c, hc, hfd⟩ := exists_of_runFrom hrun
  have hremoved : w.Removed 0 := removed_of_ne hreach hc (by rw [hfd, hmapped]; decide)
  refine ⟨w, w', hreach, hremoved, hmapped, hw', hunmapped, hclosed, ?_⟩
  intro hspares
  have hkept := (hspares.entries 5 1 (by decide)).mpr hmapped
  rw [hunmapped] at hkept
  exact absurd hkept.symm (Option.some_ne_none _)

end World

end Muduo
