/-
# Who is told that a connection is gone

`handleRead`, the `EPOLLHUP` branch of `handleEvent` and `Connection::close` all tear
connections down, and the first two call `onDisconnected` with `connectionMap_[fd]`.
The calls are recorded here, with the connection whose event is being handled.
-/
import FastServer.LateClose

namespace Muduo

open TransitionSystem

/-! ## Where `handleEvent` stands -/

/-- The event of a connection that `handleEvent` is in. -/
def Stage.handling : Stage → Option FdWrapper
  | .reading fdw => some fdw
  | .disconnecting fdw => some fdw
  | .writing fdw => some fdw
  | .hangingUp fdw => some fdw
  | _ => none

/-- The descriptor for which `onDisconnected` is being called. -/
def Stage.departing : Stage → Option Fd
  | .disconnecting fdw => some fdw.fd
  | .hangingUp fdw => if EpollFlag.EPOLLHUP ∈ fdw.events then some fdw.fd else none
  | _ => none

/-- The descriptor whose `EPOLLHUP` branch comes next. -/
def Stage.hungUp : Stage → Option Fd
  | .writing fdw => if EpollFlag.EPOLLHUP ∈ fdw.events then some fdw.fd else none
  | _ => none

/-- **A step of the reactor thread** goes through the branches of `handleEvent` in order. -/
theorem WakeUp.proceed_stage {w w' : WakeUp} (h : w.proceed = some w') :
    (∃ fdw rest, w.stage = .dispatching ∧ w.batch = .connection fdw :: rest ∧
        w'.stage = .reading fdw) ∨
      (∃ fdw, w.stage = .reading fdw ∧ w'.stage = .writing fdw) ∨
      (∃ fdw, w.stage = .disconnecting fdw ∧ w'.stage = .writing { fdw with events := [] }) ∨
      (∃ fdw, w.stage = .writing fdw ∧ w'.stage = .hangingUp fdw) ∨
      (∃ fdw, w.stage = .hangingUp fdw ∧ w'.stage = .dispatching) ∨
      (w.stage.handling = none ∧ w'.stage.handling = none ∧
        ∀ fdw rest, w.stage = .dispatching → w.batch ≠ .connection fdw :: rest) := by
  cases proceeds_of_proceed h with
  | wait hstage hbatch => simp [Stage.handling, hstage, hbatch]
  | dispatch event rest hstage hbatch =>
    cases event <;> simp [Stage.handling, Event.stage, hstage, hbatch]
  | handle stage hnext =>
    cases hstage : w.stage with
    | timing | reading | disconnecting | writing | hangingUp =>
      rw [hstage] at hnext
      obtain rfl := Option.some.inj hnext
      simp [Stage.handling]
    | _ =>
      rw [hstage] at hnext
      exact absurd hnext.symm (Option.some_ne_none _)
  | readPipe hstage | swapNew hstage | accept _ hstage | accepted hstage | swapSend hstage
  | drain _ hstage | drained hstage =>
    simp [Stage.handling, hstage]

namespace World

variable {capacity : ℕ} {w w' : World}

/-- The descriptor that is removed is the one for which `onDisconnected` was called. -/
theorem removal_eq (w : World) : w.removal = w.wake.stage.departing := by
  unfold removal Stage.departing
  cases w.wake.stage <;> rfl

theorem numbers_createConnection (w : World) (fd : Fd) :
    (w.createConnection fd).numbers = w.numbers ++ [fd] := by
  obtain ⟨epoll, heq⟩ := w.createConnection_eq fd
  rw [heq]
  show List.map _ (w.connections ++ [_]) = _
  rw [List.map_append]
  rfl

/-- What a step of the reactor thread does to the entries: it removes the one of the
connection that is departing, adds one, or leaves them as they are. -/
theorem proceed_frame (h : w.proceed = some w') :
    w.wake.proceed = some w'.wake ∧
      ((∃ fd, w.wake.stage.departing = some fd ∧ w'.numbers = w.numbers ∧
          w'.connectionMap = Function.update w.connectionMap fd none) ∨
        (w.wake.stage.departing = none ∧ w'.numbers = w.numbers ∧
          w'.connectionMap = w.connectionMap) ∨
        (∃ fd newConnections, w.wake.stage = .accepting newConnections ∧
          w'.numbers = w.numbers ++ [fd] ∧
          w'.connectionMap = Function.update w.connectionMap fd (some w.connections.length))) := by
  unfold proceed at h
  split_ifs at h with hsending
  obtain ⟨wake, hwake, hw⟩ := Option.map_eq_some_iff.mp h
  rw [← removal_eq]
  cases hremoval : w.removal with
  | some fd =>
    rw [hremoval] at hw
    subst hw
    exact ⟨hwake, Or.inl ⟨fd, rfl, rfl, rfl⟩⟩
  | none =>
    rw [hremoval] at hw
    split at hw
    · exact absurd ‹none = some _› (by simp)
    · subst hw
      unfold handleWrite
      split <;> exact ⟨hwake, Or.inr (Or.inl ⟨rfl, rfl, rfl⟩)⟩
    · rename_i fd _ _ harrival
      subst hw
      have haccepting : ∃ newConnections, w.wake.stage = .accepting newConnections := by
        unfold arrival at harrival
        cases hstage : w.wake.stage with
        | accepting newConnections => exact ⟨newConnections, rfl⟩
        | _ =>
          rw [hstage] at harrival
          exact absurd harrival.symm (Option.some_ne_none _)
      obtain ⟨newConnections, hstage⟩ := haccepting
      refine ⟨?_, Or.inr (Or.inr
        ⟨fd, newConnections, hstage, numbers_createConnection _ fd, ?_⟩)⟩
      · obtain ⟨epoll, heq⟩ := (w.setWake wake).createConnection_eq fd
        rw [heq]
        exact hwake
      · obtain ⟨epoll, heq⟩ := (w.setWake wake).createConnection_eq fd
        rw [heq]
        rfl
    · subst hw
      exact ⟨hwake, Or.inr (Or.inl ⟨rfl, rfl, rfl⟩)⟩

/-- A step of `handleEvent` in which no connection departs leaves the entries alone. -/
theorem proceed_frame_of_handling {fdw : FdWrapper} (h : w.proceed = some w')
    (hhandling : w.wake.stage.handling = some fdw) (hdeparting : w.wake.stage.departing = none) :
    w'.connectionMap = w.connectionMap ∧ w'.numbers = w.numbers := by
  obtain ⟨-, hcases⟩ := proceed_frame h
  rcases hcases with ⟨fd, hfd, -, -⟩ | ⟨-, hnumbers, hmap⟩ | ⟨fd, fds, hstage, -, -⟩
  · rw [hdeparting] at hfd
    exact absurd hfd.symm (Option.some_ne_none _)
  · exact ⟨hmap, hnumbers⟩
  · rw [hstage] at hhandling
    exact absurd hhandling.symm (Option.some_ne_none _)

end World

/-! ## Recorded runs -/

/-- A reactor with what its teardown did: the connection whose event is being handled,
the arguments of the calls of `onDisconnected`, the connections that `removeConnection`
was called for, in order, and the numbers whose entry in `connectionMap_` is a null
pointer. -/
structure Observed where
  world : World
  subject : Option ℕ
  disconnected : List (Option ℕ)
  closes : List (Option ℕ)
  nulls : List Fd

namespace Observed

/-- Nothing has happened. -/
def start : Observed := ⟨World.start, none, [], [], []⟩

/-- `onDisconnected(connectionMap_[fd], …)`, which enters a null pointer for a number
without an entry. -/
def callOnDisconnected (s : Observed) (fd : Fd) : Observed :=
  { s with
    disconnected := s.disconnected ++ [s.world.connectionMap fd]
    nulls := if s.world.connectionMap fd = none then fd :: s.nulls else s.nulls }

/-- `removeConnection`, for the connection `o`. -/
def callRemoveConnection (s : Observed) (fd : Fd) (o : Option ℕ) : Observed :=
  { s with
    closes := s.closes ++ [o]
    nulls := s.nulls.filter (· ≠ fd) }

/-- What a step adds to the record.  `EPOLLHUP` is turned to before `handleWrite` has
written, which does not look at `connectionMap_` again. -/
def record (s : Observed) : World.Action → Observed
  | .disconnect =>
      match s.world.wake.stage with
      | .reading fdw => s.callOnDisconnected fdw.fd
      | _ => s
  | .proceed =>
      match s.world.wake.stage, s.world.wake.batch with
      | .dispatching, .connection fdw :: _ =>
          { s with subject := s.world.connectionMap fdw.fd }
      | .disconnecting fdw, _ => s.callRemoveConnection fdw.fd s.subject
      | .writing fdw, _ =>
          if EpollFlag.EPOLLHUP ∈ fdw.events then s.callOnDisconnected fdw.fd else s
      | .hangingUp fdw, _ =>
          if EpollFlag.EPOLLHUP ∈ fdw.events then s.callRemoveConnection fdw.fd s.subject else s
      | .accepting newConnections, _ =>
          { s with nulls := s.nulls.filter (some · ≠ newConnections.getLast?) }
      | _, _ => s
  | .close o force =>
      match s.world.connections[o]? with
      | none => s
      | some c =>
          if force = false ∧ 0 < c.sendBuffer.size then s
          else s.callRemoveConnection c.fdWrapper.fd (some o)
  | _ => s

/-- The state after a step, if it is enabled. -/
def next (capacity : ℕ) (s : Observed) (a : World.Action) : Option Observed :=
  (s.world.next capacity a).map fun w => { s.record a with world := w }

/-- The recorded runs of a `SubReactor`. -/
def system (capacity : ℕ) : TransitionSystem Observed World.Action :=
  TransitionSystem.ofFunction start (next capacity)

/-- The connection that `onMessage` may be called with. -/
def messaged (s : Observed) : Option ℕ :=
  match s.world.wake.stage with
  | .reading fdw => if EpollFlag.EPOLLIN ∈ fdw.events then s.subject else none
  | _ => none

/-- The application calls `close` inside `onMessage` only, and on the connection it was
given.  After a `close` that removes the connection no `read` of the same `handleRead`
returns data: its loop would go on with the erased iterator, which is not followed here. -/
def InOnMessage (s : Observed) : World.Action → Prop
  | .close o _ => s.messaged = some o
  | _ => True

/-- A `close` that removes its connection finds it in `connectionMap_`, and so does the
`EPOLLHUP` branch. -/
def WhileMapped (s : Observed) : World.Action → Prop
  | .close o force =>
      ∀ c ∈ s.world.connections[o]?, ¬ (force = false ∧ 0 < c.sendBuffer.size) →
        s.world.connectionMap c.fdWrapper.fd = some o
  | .proceed => ∀ fd ∈ s.world.wake.stage.hungUp, s.world.connectionMap fd ≠ none
  | _ => True

/-- `onDisconnected` was called with connections only, and at most once for each;
`connectionMap_` has no null entry; `removeConnection`, which closes the descriptor, was
called for connections only, and at most once for each. -/
structure Orderly (s : Observed) : Prop where
  disconnected : none ∉ s.disconnected
  once : s.disconnected.Nodup
  nulls : s.nulls = []
  closes : none ∉ s.closes
  closed : s.closes.Nodup

/-! ## Each connection departs once -/

variable {capacity : ℕ} {s s' : Observed}

/-- The invariant of the runs in which every removal finds its connection: a connection
in `connectionMap_` has not been closed, and `onDisconnected` has been called for it only
if it is departing; the connection whose event is handled is the one in the map, unless
it is gone. -/
structure Invariant (s : Observed) : Prop where
  indexed : s.world.Indexed
  orderly : s.Orderly
  handling : ∀ fdw, s.world.wake.stage.handling = some fdw →
    s.world.connectionMap fdw.fd = s.subject ∨ s.world.connectionMap fdw.fd = none
  departing : ∀ fd, s.world.wake.stage.departing = some fd →
    ∃ o, s.world.connectionMap fd = some o ∧ s.subject = some o
  unclosed : ∀ fd o, s.world.connectionMap fd = some o → some o ∉ s.closes
  undisconnected : ∀ fd o, s.world.connectionMap fd = some o → some o ∈ s.disconnected →
    s.world.wake.stage.departing = some fd
  known : ∀ o, some o ∈ s.closes ∨ some o ∈ s.disconnected → o < s.world.numbers.length

theorem invariant_start : start.Invariant where
  indexed := fun _ _ h => absurd h.symm (Option.some_ne_none _)
  orderly := ⟨List.not_mem_nil, List.nodup_nil, rfl, List.not_mem_nil, List.nodup_nil⟩
  handling := fun _ h => absurd h.symm (Option.some_ne_none _)
  departing := fun _ h => absurd h.symm (Option.some_ne_none _)
  unclosed := fun _ _ h => absurd h.symm (Option.some_ne_none _)
  undisconnected := fun _ _ h => absurd h.symm (Option.some_ne_none _)
  known := fun _ h => absurd h (by simp [start])

/-- A step that continues the run. -/
theorem next_cases {a : World.Action} (h : s.next capacity a = some s') :
    ∃ w', s.world.next capacity a = some w' ∧ s' = { s.record a with world := w' } := by
  obtain ⟨w', hw', rfl⟩ := Option.map_eq_some_iff.mp h
  exact ⟨w', hw', rfl⟩

theorem departing_of_handling_none {stage : Stage} (h : stage.handling = none) :
    stage.departing = none := by
  cases stage with
  | disconnecting | hangingUp => exact absurd h (by simp [Stage.handling])
  | _ => rfl

namespace Invariant

/-- A step after which no connection departs, and which leaves the entries and the
record as they are. -/
theorem move (h : s.Invariant) {w' : World} (hindexed : w'.Indexed)
    (hmap : w'.connectionMap = s.world.connectionMap) (hnumbers : w'.numbers = s.world.numbers)
    (hbefore : s.world.wake.stage.departing = none) (hafter : w'.wake.stage.departing = none)
    {subject : Option ℕ}
    (hsubject : ∀ fdw, w'.wake.stage.handling = some fdw →
      s.world.connectionMap fdw.fd = subject ∨ s.world.connectionMap fdw.fd = none) :
    ({ s with
      world := w'
      subject := subject } : Observed).Invariant := by
  refine ⟨hindexed, ⟨h.orderly.disconnected, h.orderly.once, h.orderly.nulls, h.orderly.closes,
    h.orderly.closed⟩, ?_, ?_, ?_, ?_, ?_⟩
  · intro fdw hfdw
    rw [hmap]
    exact hsubject fdw hfdw
  · intro fd hfd
    rw [hafter] at hfd
    exact absurd hfd.symm (Option.some_ne_none _)
  · intro fd o ho
    rw [hmap] at ho
    exact h.unclosed fd o ho
  · intro fd o ho hmem
    rw [hmap] at ho
    have hold := h.undisconnected fd o ho hmem
    rw [hbefore] at hold
    exact absurd hold.symm (Option.some_ne_none _)
  · intro o ho
    rw [hnumbers]
    exact h.known o ho

/-- A connection in the map is removed. -/
theorem remove (h : s.Invariant) {w' : World} (hindexed : w'.Indexed) {fd : Fd} {o : ℕ}
    (ho : s.world.connectionMap fd = some o)
    (hmap : w'.connectionMap = Function.update s.world.connectionMap fd none)
    (hnumbers : w'.numbers = s.world.numbers)
    (hbefore : ∀ fd', s.world.wake.stage.departing = some fd' → fd' = fd)
    (hafter : w'.wake.stage.departing = none)
    (hhandling : ∀ fdw, w'.wake.stage.handling = some fdw → w'.connectionMap fdw.fd = none) :
    ({ s.callRemoveConnection fd (some o) with world := w' } : Observed).Invariant := by
  have hunclosed := h.unclosed fd o ho
  have hlt : o < s.world.numbers.length := (List.getElem?_eq_some_iff.mp (h.indexed fd o ho)).1
  refine ⟨hindexed, ⟨h.orderly.disconnected, h.orderly.once, ?_, ?_, ?_⟩, ?_, ?_, ?_, ?_, ?_⟩
  · show s.nulls.filter _ = []
    rw [h.orderly.nulls, List.filter_nil]
  · intro hmem
    rcases List.mem_append.mp hmem with hold | hnew
    · exact h.orderly.closes hold
    · exact absurd (List.mem_singleton.mp hnew).symm (Option.some_ne_none _)
  · exact List.nodup_append.mpr ⟨h.orderly.closed, List.nodup_singleton _, by
      intro x hx y hy
      rw [List.mem_singleton.mp hy]
      rintro rfl
      exact hunclosed hx⟩
  · exact fun fdw hfdw => Or.inr (hhandling fdw hfdw)
  · intro fd' hfd'
    have hfd' : w'.wake.stage.departing = some fd' := hfd'
    rw [hafter] at hfd'
    exact absurd hfd'.symm (Option.some_ne_none _)
  · intro fd' o' ho'
    have ho' : w'.connectionMap fd' = some o' := ho'
    rw [hmap] at ho'
    obtain ⟨hne, hold⟩ := World.of_update_none ho'
    intro hmem
    rcases List.mem_append.mp hmem with hmem | hmem
    · exact h.unclosed fd' o' hold hmem
    · -- it would be the connection that is removed, under a second number
      obtain rfl := Option.some.inj (List.mem_singleton.mp hmem)
      exact hne (h.indexed.unique hold ho)
  · intro fd' o' ho' hmem
    have ho' : w'.connectionMap fd' = some o' := ho'
    rw [hmap] at ho'
    obtain ⟨hne, hold⟩ := World.of_update_none ho'
    exact absurd (hbefore fd' (h.undisconnected fd' o' hold hmem)) hne
  · intro o' ho'
    show o' < w'.numbers.length
    rw [hnumbers]
    rcases ho' with hmem | hmem
    · rcases List.mem_append.mp hmem with hmem | hmem
      · exact h.known o' (Or.inl hmem)
      · obtain rfl := Option.some.inj (List.mem_singleton.mp hmem)
        exact hlt
    · exact h.known o' (Or.inr hmem)

/-- `onDisconnected` is called for a connection in the map. -/
theorem depart (h : s.Invariant) {w' : World} (hindexed : w'.Indexed) {fd : Fd} {o : ℕ}
    (ho : s.world.connectionMap fd = some o) (hsubject : s.subject = some o)
    (hmap : w'.connectionMap = s.world.connectionMap) (hnumbers : w'.numbers = s.world.numbers)
    (hbefore : s.world.wake.stage.departing = none)
    (hafter : w'.wake.stage.departing = some fd)
    (hhandling : ∀ fdw, w'.wake.stage.handling = some fdw → fdw.fd = fd) :
    ({ s.callOnDisconnected fd with world := w' } : Observed).Invariant := by
  have hundisconnected : some o ∉ s.disconnected := by
    intro hmem
    have hold := h.undisconnected fd o ho hmem
    rw [hbefore] at hold
    exact absurd hold.symm (Option.some_ne_none _)
  have hlt : o < s.world.numbers.length := (List.getElem?_eq_some_iff.mp (h.indexed fd o ho)).1
  unfold callOnDisconnected
  rw [ho, if_neg (Option.some_ne_none o)]
  refine ⟨hindexed, ⟨?_, ?_, h.orderly.nulls, h.orderly.closes, h.orderly.closed⟩,
    ?_, ?_, ?_, ?_, ?_⟩
  · intro hmem
    rcases List.mem_append.mp hmem with hold | hnew
    · exact h.orderly.disconnected hold
    · exact absurd (List.mem_singleton.mp hnew).symm (Option.some_ne_none _)
  · exact List.nodup_append.mpr ⟨h.orderly.once, List.nodup_singleton _, by
      intro x hx y hy
      rw [List.mem_singleton.mp hy]
      rintro rfl
      exact hundisconnected hx⟩
  · intro fdw hfdw
    left
    show w'.connectionMap fdw.fd = s.subject
    rw [hmap, hhandling fdw hfdw, ho, hsubject]
  · intro fd' hfd'
    obtain rfl : fd = fd' := Option.some.inj (hafter.symm.trans hfd')
    refine ⟨o, ?_, hsubject⟩
    show w'.connectionMap fd = some o
    rw [hmap, ho]
  · intro fd' o' ho'
    have ho' : w'.connectionMap fd' = some o' := ho'
    rw [hmap] at ho'
    exact h.unclosed fd' o' ho'
  · intro fd' o' hnew hmem
    have ho' : w'.connectionMap fd' = some o' := hnew
    rw [hmap] at ho'
    rcases List.mem_append.mp hmem with hmem | hmem
    · have hold := h.undisconnected fd' o' ho' hmem
      rw [hbefore] at hold
      exact absurd hold.symm (Option.some_ne_none _)
    · obtain rfl := Option.some.inj (List.mem_singleton.mp hmem)
      rw [h.indexed.unique ho' ho]
      exact hafter
  · intro o' ho'
    show o' < w'.numbers.length
    rw [hnumbers]
    rcases ho' with hmem | hmem
    · exact h.known o' (Or.inl hmem)
    · rcases List.mem_append.mp hmem with hmem | hmem
      · exact h.known o' (Or.inr hmem)
      · obtain rfl := Option.some.inj (List.mem_singleton.mp hmem)
        exact hlt

/-- A connection is added to the map. -/
theorem add (h : s.Invariant) {w' : World} (hindexed : w'.Indexed) {fd : Fd} {o : ℕ}
    (ho : o = s.world.numbers.length)
    (hmap : w'.connectionMap = Function.update s.world.connectionMap fd (some o))
    (hnumbers : w'.numbers = s.world.numbers ++ [fd])
    (hbefore : s.world.wake.stage.departing = none)
    (hhandling : w'.wake.stage.handling = none) :
    ({ s with world := w' } : Observed).Invariant := by
  have hafter : w'.wake.stage.departing = none := departing_of_handling_none hhandling
  -- an old entry, or the new one, which is not on record
  have hcases : ∀ fd' o', w'.connectionMap fd' = some o' →
      s.world.connectionMap fd' = some o' ∨ o' = s.world.numbers.length := by
    intro fd' o' ho'
    rw [hmap] at ho'
    by_cases hfd : fd' = fd
    · rw [hfd, Function.update_self] at ho'
      exact Or.inr ((Option.some.inj ho').symm.trans ho)
    · rw [Function.update_of_ne hfd] at ho'
      exact Or.inl ho'
  refine ⟨hindexed, ⟨h.orderly.disconnected, h.orderly.once, h.orderly.nulls, h.orderly.closes,
    h.orderly.closed⟩, ?_, ?_, ?_, ?_, ?_⟩
  · intro fdw hfdw
    have hfdw : w'.wake.stage.handling = some fdw := hfdw
    rw [hhandling] at hfdw
    exact absurd hfdw.symm (Option.some_ne_none _)
  · intro fd' hfd'
    have hfd' : w'.wake.stage.departing = some fd' := hfd'
    rw [hafter] at hfd'
    exact absurd hfd'.symm (Option.some_ne_none _)
  · intro fd' o' ho' hmem
    rcases hcases fd' o' ho' with hold | hnew
    · exact h.unclosed fd' o' hold hmem
    · exact absurd (h.known o' (Or.inl hmem)) (by omega)
  · intro fd' o' ho' hmem
    rcases hcases fd' o' ho' with hold | hnew
    · have hdeparting := h.undisconnected fd' o' hold hmem
      rw [hbefore] at hdeparting
      exact absurd hdeparting.symm (Option.some_ne_none _)
    · exact absurd (h.known o' (Or.inr hmem)) (by omega)
  · intro o' ho'
    show o' < w'.numbers.length
    rw [hnumbers, List.length_append, List.length_singleton]
    exact Nat.lt_succ_of_lt (h.known o' ho')

/-! ### Steps -/

/-- The steps that tear nothing down. -/
theorem bystander (h : s.Invariant) {a : World.Action} (ha : a.tearsDown = false)
    (hstep : s.next capacity a = some s') : s'.Invariant := by
  obtain ⟨w', hw', rfl⟩ := next_cases hstep
  obtain ⟨hmap, hnumbers, hstage, -⟩ := World.sameEntries ha hw'
  have hrecord : s.record a = s := by
    cases a with
    | epollWait | proceed | disconnect | close => exact absurd ha (by simp [World.Action.tearsDown])
    | _ => rfl
  rw [hrecord]
  refine ⟨h.indexed.next hw', ⟨h.orderly.disconnected, h.orderly.once, h.orderly.nulls,
    h.orderly.closes, h.orderly.closed⟩, ?_, ?_, ?_, ?_, ?_⟩
  · rw [hmap, hstage]
    exact h.handling
  · rw [hmap, hstage]
    exact h.departing
  · rw [hmap]
    exact h.unclosed
  · rw [hmap, hstage]
    exact h.undisconnected
  · rw [hnumbers]
    exact h.known

/-- `epoll_wait` returns while no event is being handled. -/
theorem epollWait (h : s.Invariant) {events : List Event}
    (hstep : s.next capacity (.epollWait events) = some s') : s'.Invariant := by
  obtain ⟨w', hw', rfl⟩ := next_cases hstep
  have hindexed := h.indexed.next hw'
  obtain ⟨wake, hwake, rfl⟩ := World.epollWait_cases hw'
  unfold WakeUp.epollWait at hwake
  split_ifs at hwake with hguard
  obtain rfl := Option.some.inj hwake
  refine h.move hindexed rfl rfl ?_ rfl ?_
  · rw [hguard.1]
    rfl
  · exact fun fdw hfdw => absurd hfdw (by simp [World.setWake, Stage.handling])

/-- `handleRead` finds the end of the stream. -/
theorem disconnect (h : s.Invariant) (hstep : s.next capacity .disconnect = some s') :
    s'.Invariant := by
  obtain ⟨w', hw', rfl⟩ := next_cases hstep
  have hindexed := h.indexed.next hw'
  have hdisconnect : s.world.disconnect = some w' := hw'
  unfold World.disconnect at hdisconnect
  cases hstage : s.world.wake.stage with
  | reading fdw =>
    simp only [hstage] at hdisconnect
    split_ifs at hdisconnect with hfound
    unfold WakeUp.disconnect at hdisconnect
    simp only [hstage, Option.map_some, Option.some.injEq] at hdisconnect
    subst hdisconnect
    obtain ⟨o, ho⟩ := Option.ne_none_iff_exists'.mp hfound.2
    have hsubject : s.subject = some o := by
      rcases h.handling fdw (by rw [hstage]; rfl) with hsame | hnone
      · rw [← hsame, ho]
      · exact absurd hnone hfound.2
    have hrecord : s.record .disconnect = s.callOnDisconnected fdw.fd := by
      unfold record
      rw [hstage]
    rw [hrecord]
    refine h.depart hindexed ho hsubject rfl rfl ?_ rfl ?_
    · rw [hstage]
      rfl
    · intro fdw' hfdw'
      obtain rfl : fdw = fdw' := Option.some.inj hfdw'
      rfl
  | _ =>
    simp only [hstage] at hdisconnect
    exact absurd hdisconnect.symm (Option.some_ne_none _)

/-- `onMessage` closes its connection. -/
theorem close (h : s.Invariant) {o : ℕ} {force : Bool} (hin : s.InOnMessage (.close o force))
    (hok : s.WhileMapped (.close o force)) (hstep : s.next capacity (.close o force) = some s') :
    s'.Invariant := by
  obtain ⟨w', hw', rfl⟩ := next_cases hstep
  have hindexed := h.indexed.next hw'
  have hclose : s.world.close o force = some w' := hw'
  unfold World.close at hclose
  split_ifs at hclose with hguard
  obtain ⟨c, hc, hclose⟩ := Option.map_eq_some_iff.mp hclose
  have hin : s.messaged = some o := hin
  unfold messaged at hin
  cases hstage : s.world.wake.stage with
  | reading fdw =>
    simp only [hstage] at hin
    have hsubject : s.subject = some o := by
      split_ifs at hin
      exact hin
    have hbefore : s.world.wake.stage.departing = none := by rw [hstage]; rfl
    by_cases hpending : force = false ∧ 0 < c.sendBuffer.size
    · rw [if_pos hpending] at hclose
      subst hclose
      obtain ⟨hmap, -, -⟩ :=
        s.world.disableReadEventAndShutdown_fields o { c with tryClose := true }
      obtain ⟨hnumbers, hwake, -⟩ := World.close_frame force hw'
      have hrecord : s.record (.close o force) = s := by
        simp only [record, hc, if_pos hpending]
      rw [hrecord]
      refine h.move hindexed hmap hnumbers hbefore ?_ ?_
      · rw [hwake]
        exact hbefore
      · rw [hwake]
        exact h.handling
    · rw [if_neg hpending] at hclose
      subst hclose
      have ho := hok c hc hpending
      have hrecord : s.record (.close o force)
          = s.callRemoveConnection c.fdWrapper.fd (some o) := by
        simp only [record, hc, if_neg hpending]
      rw [hrecord]
      refine h.remove hindexed ho rfl (World.numbers_setConnection hc ?_) ?_ hbefore ?_
      · rfl
      · intro fd hfd
        rw [hbefore] at hfd
        exact absurd hfd.symm (Option.some_ne_none _)
      · -- the connection of the event is the one closed
        intro fdw' hfdw'
        show Function.update s.world.connectionMap c.fdWrapper.fd none fdw'.fd = none
        by_cases hfd : fdw'.fd = c.fdWrapper.fd
        · rw [hfd, Function.update_self]
        · rw [Function.update_of_ne hfd]
          refine (h.handling fdw' hfdw').resolve_left ?_
          intro hsame
          rw [hsubject] at hsame
          exact hfd (h.indexed.unique hsame ho)
  | _ =>
    simp only [hstage] at hin
    exact absurd hin.symm (Option.some_ne_none _)

/-- A connection for which `onDisconnected` was called is removed. -/
theorem proceed_departing (h : s.Invariant) {fd : Fd} {w' : World}
    (hstep : s.world.proceed = some w') (hindexed : w'.Indexed)
    (hdeparting : s.world.wake.stage.departing = some fd)
    (hafter : w'.wake.stage.departing = none)
    (hhandling : ∀ fdw, w'.wake.stage.handling = some fdw → fdw.fd = fd) :
    ({ s.callRemoveConnection fd s.subject with world := w' } : Observed).Invariant := by
  obtain ⟨o, ho, hsubject⟩ := h.departing fd hdeparting
  obtain ⟨-, hcases⟩ := World.proceed_frame hstep
  rcases hcases with ⟨fd', hfd', hnumbers, hmap⟩ | ⟨hnone, -, -⟩ | ⟨fd', fds, hstage, -, -⟩
  · obtain rfl : fd = fd' := Option.some.inj (hdeparting.symm.trans hfd')
    rw [hsubject]
    refine h.remove hindexed ho hmap hnumbers ?_ hafter ?_
    · intro fd' hfd'
      exact Option.some.inj (hfd'.symm.trans hdeparting)
    · intro fdw hfdw
      rw [hmap, hhandling fdw hfdw, Function.update_self]
  · rw [hdeparting] at hnone
    exact absurd hnone (Option.some_ne_none _)
  · rw [hstage] at hdeparting
    exact absurd hdeparting.symm (Option.some_ne_none _)

/-- Outside of `handleEvent` of a connection nothing is recorded. -/
theorem record_elsewhere (h : s.Invariant) (hhandling : s.world.wake.stage.handling = none)
    (hother : ∀ fdw rest, s.world.wake.stage = .dispatching →
      s.world.wake.batch ≠ .connection fdw :: rest) : s.record .proceed = s := by
  cases hstage : s.world.wake.stage with
  | reading | disconnecting | writing | hangingUp =>
    rw [hstage] at hhandling
    exact absurd hhandling (by simp [Stage.handling])
  | dispatching =>
    cases hbatch : s.world.wake.batch with
    | nil => simp only [record, hstage, hbatch]
    | cons event rest =>
      cases event with
      | connection fdw => exact absurd hbatch (hother fdw rest hstage)
      | pipe | timer => simp only [record, hstage, hbatch]
  | accepting fds =>
    have hnulls := h.orderly.nulls
    simp only [record, hstage, hnulls, List.filter_nil]
    rw [← hnulls]
  | waiting | timing | readingPipe | swappingNew | swappingSend | draining =>
    simp only [record, hstage]

/-- A branch of `handleEvent` that is passed without a call. -/
theorem proceed_pass (h : s.Invariant) {fdw : FdWrapper} {w' : World}
    (hstep : s.world.proceed = some w') (hindexed : w'.Indexed)
    (hrecord : s.record .proceed = s) (hhandling : s.world.wake.stage.handling = some fdw)
    (hnone : s.world.wake.stage.departing = none) (hafter : w'.wake.stage.departing = none)
    (hsame : ∀ fdw', w'.wake.stage.handling = some fdw' → fdw = fdw') :
    ({ s.record .proceed with world := w' } : Observed).Invariant := by
  obtain ⟨hmap, hnumbers⟩ := World.proceed_frame_of_handling hstep hhandling hnone
  rw [hrecord]
  refine h.move hindexed hmap hnumbers hnone hafter ?_
  intro fdw' hfdw'
  exact h.handling fdw' (hhandling.trans (congrArg some (hsame fdw' hfdw')))

/-- The test of `EPOLLHUP` of a connection that is still in the map. -/
theorem proceed_hungUp (h : s.Invariant) (hok : s.WhileMapped .proceed) {fdw : FdWrapper}
    {w' : World} (hstep : s.world.proceed = some w') (hindexed : w'.Indexed)
    (hstage : s.world.wake.stage = .writing fdw) (hstage' : w'.wake.stage = .hangingUp fdw)
    (hhup : EpollFlag.EPOLLHUP ∈ fdw.events) :
    ({ s.record .proceed with world := w' } : Observed).Invariant := by
  have hnone : s.world.wake.stage.departing = none := by rw [hstage]; rfl
  have hhandling : s.world.wake.stage.handling = some fdw := by rw [hstage]; rfl
  have hrecord : s.record .proceed = s.callOnDisconnected fdw.fd := by
    simp only [record, hstage, if_pos hhup]
  have hmapped : s.world.connectionMap fdw.fd ≠ none := by
    apply hok
    rw [hstage]
    exact if_pos hhup
  obtain ⟨o, ho⟩ := Option.ne_none_iff_exists'.mp hmapped
  have hsubject : s.subject = some o := by
    rcases h.handling fdw hhandling with hsame | hunmapped
    · rw [← hsame, ho]
    · exact absurd hunmapped hmapped
  obtain ⟨hmap, hnumbers⟩ := World.proceed_frame_of_handling hstep hhandling hnone
  rw [hrecord]
  refine h.depart hindexed ho hsubject hmap hnumbers hnone ?_ ?_
  · rw [hstage']
    exact if_pos hhup
  · intro fdw' hfdw'
    rw [hstage'] at hfdw'
    obtain rfl : fdw = fdw' := Option.some.inj hfdw'
    rfl

/-- The reactor thread goes on. -/
theorem proceed (h : s.Invariant) (hok : s.WhileMapped .proceed)
    (hstep : s.next capacity .proceed = some s') : s'.Invariant := by
  obtain ⟨w', hw', rfl⟩ := next_cases hstep
  have hindexed := h.indexed.next hw'
  have hproceed : s.world.proceed = some w' := hw'
  have hwake := (World.proceed_frame hproceed).1
  rcases WakeUp.proceed_stage hwake with ⟨fdw, rest, hstage, hbatch, hstage'⟩ |
    ⟨fdw, hstage, hstage'⟩ | ⟨fdw, hstage, hstage'⟩ | ⟨fdw, hstage, hstage'⟩ |
    ⟨fdw, hstage, hstage'⟩ | ⟨hbefore, hafter, hother⟩
  · -- the next event of the batch
    have hnone : s.world.wake.stage.departing = none := by rw [hstage]; rfl
    have hrecord : s.record .proceed = { s with subject := s.world.connectionMap fdw.fd } := by
      simp only [record, hstage, hbatch]
    have hafter : w'.wake.stage.departing = none := by rw [hstage']; rfl
    obtain ⟨-, hcases⟩ := World.proceed_frame hproceed
    rcases hcases with ⟨fd, hfd, -, -⟩ | ⟨-, hnumbers, hmap⟩ | ⟨fd, fds, haccepting, -, -⟩
    · rw [hnone] at hfd
      exact absurd hfd.symm (Option.some_ne_none _)
    · rw [hrecord]
      refine h.move hindexed hmap hnumbers hnone hafter ?_
      intro fdw' hfdw'
      rw [hstage'] at hfdw'
      obtain rfl : fdw = fdw' := Option.some.inj hfdw'
      exact Or.inl rfl
    · rw [hstage] at haccepting
      exact absurd haccepting (by simp)
  · -- from `handleRead` to the test of `EPOLLOUT`
    have hrecord : s.record .proceed = s := by simp only [record, hstage]
    refine h.proceed_pass hproceed hindexed hrecord (by rw [hstage]; rfl) (by rw [hstage]; rfl)
      (by rw [hstage']; rfl) ?_
    intro fdw' hfdw'
    rw [hstage'] at hfdw'
    exact Option.some.inj hfdw'
  · -- the end of `handleRead` with `removeConnection`
    have hrecord : s.record .proceed = s.callRemoveConnection fdw.fd s.subject := by
      simp only [record, hstage]
    rw [hrecord]
    refine h.proceed_departing hproceed hindexed (by rw [hstage]; rfl) (by rw [hstage']; rfl) ?_
    intro fdw' hfdw'
    rw [hstage'] at hfdw'
    obtain rfl := Option.some.inj hfdw'
    rfl
  · -- from `handleWrite` to the test of `EPOLLHUP`
    by_cases hhup : EpollFlag.EPOLLHUP ∈ fdw.events
    · exact h.proceed_hungUp hok hproceed hindexed hstage hstage' hhup
    · have hrecord : s.record .proceed = s := by simp only [record, hstage, if_neg hhup]
      refine h.proceed_pass hproceed hindexed hrecord (by rw [hstage]; rfl) (by rw [hstage]; rfl)
        (by rw [hstage']; exact if_neg hhup) ?_
      intro fdw' hfdw'
      rw [hstage'] at hfdw'
      exact Option.some.inj hfdw'
  · -- the end of `handleEvent`
    have hafter : w'.wake.stage.handling = none := by rw [hstage']; rfl
    by_cases hhup : EpollFlag.EPOLLHUP ∈ fdw.events
    · have hrecord : s.record .proceed = s.callRemoveConnection fdw.fd s.subject := by
        simp only [record, hstage, if_pos hhup]
      have hdeparting : s.world.wake.stage.departing = some fdw.fd := by
        rw [hstage]
        exact if_pos hhup
      rw [hrecord]
      refine h.proceed_departing hproceed hindexed hdeparting
        (departing_of_handling_none hafter) ?_
      intro fdw' hfdw'
      rw [hafter] at hfdw'
      exact absurd hfdw'.symm (Option.some_ne_none _)
    · have hrecord : s.record .proceed = s := by simp only [record, hstage, if_neg hhup]
      refine h.proceed_pass hproceed hindexed hrecord (by rw [hstage]; rfl)
        (by rw [hstage]; exact if_neg hhup) (departing_of_handling_none hafter) ?_
      intro fdw' hfdw'
      rw [hafter] at hfdw'
      exact absurd hfdw'.symm (Option.some_ne_none _)
  · -- outside of `handleEvent` of a connection
    have hnone := departing_of_handling_none hbefore
    have hrecord : s.record .proceed = s := h.record_elsewhere hbefore hother
    obtain ⟨-, hcases⟩ := World.proceed_frame hproceed
    rw [hrecord]
    rcases hcases with ⟨fd, hfd, -, -⟩ | ⟨-, hnumbers, hmap⟩ | ⟨fd, fds, -, hnumbers, hmap⟩
    · rw [hnone] at hfd
      exact absurd hfd.symm (Option.some_ne_none _)
    · refine h.move hindexed hmap hnumbers hnone (departing_of_handling_none hafter) ?_
      intro fdw' hfdw'
      rw [hafter] at hfdw'
      exact absurd hfdw'.symm (Option.some_ne_none _)
    · refine h.add hindexed ?_ hmap hnumbers hnone hafter
      exact (List.length_map _).symm

theorem next (h : s.Invariant) {a : World.Action} (hin : s.InOnMessage a)
    (hok : s.WhileMapped a) (hstep : s.next capacity a = some s') : s'.Invariant := by
  cases ha : a.tearsDown with
  | false => exact h.bystander ha hstep
  | true =>
    cases a with
    | epollWait => exact h.epollWait hstep
    | proceed => exact h.proceed hok hstep
    | disconnect => exact h.disconnect hstep
    | close => exact h.close hin hok hstep
    | _ => exact absurd ha (by simp [World.Action.tearsDown])

end Invariant

/-- **Every connection departs once** in a run in which the application closes its
connections inside `onMessage` only, and every removal finds its connection in
`connectionMap_`. -/
theorem orderly_of_whileMapped
    (h : (system capacity).ReachableBy (fun s a => s.InOnMessage a ∧ s.WhileMapped a) s) :
    s.Orderly := by
  have hinv : s.Invariant := by
    apply h.invariant
    · rintro s rfl
      exact invariant_start
    · intro s a s' hs hok hstep
      exact hs.next hok.1 hok.2 hstep
  exact hinv.orderly

instance (s : Observed) : DecidablePred s.InOnMessage
  | .close o _ => inferInstanceAs (Decidable (s.messaged = some o))
  | .accept .. | .enqueueNewConnection .. | .enqueueElsewhere .. | .announce .. | .openFd .. |
    .closeFd .. | .shutdownFd .. | .send .. | .lock .. | .insideSend .. | .epollWait .. |
    .proceed | .disconnect | .lockSend | .writeFd .. | .advance => .isTrue trivial

instance (s : Observed) : DecidablePred s.WhileMapped
  | .close o force => inferInstanceAs (Decidable
      (∀ c ∈ s.world.connections[o]?, ¬ (force = false ∧ 0 < c.sendBuffer.size) →
        s.world.connectionMap c.fdWrapper.fd = some o))
  | .proceed => inferInstanceAs (Decidable
      (∀ fd ∈ s.world.wake.stage.hungUp, s.world.connectionMap fd ≠ none))
  | .accept .. | .enqueueNewConnection .. | .enqueueElsewhere .. | .announce .. | .openFd .. |
    .closeFd .. | .shutdownFd .. | .send .. | .lock .. | .insideSend .. | .epollWait .. |
    .disconnect | .lockSend | .writeFd .. | .advance => .isTrue trivial

/-- Two connections are made.  `onMessage` closes the first one; the second one is found
reset by `handleRead`, and its event reports `EPOLLHUP` as well. -/
def closedAndReset : List World.Action :=
  List.flatten [World.acceptSteps 0 5, World.acceptSteps 0 6, World.pipeSteps 2,
    [.proceed, .proceed],
    [.epollWait [.connection ⟨5, [.EPOLLIN]⟩, .connection ⟨6, [.EPOLLIN, .EPOLLHUP]⟩]],
    [.proceed, .close 1 true, .proceed, .proceed, .proceed],
    [.proceed, .disconnect, .proceed, .proceed, .proceed]]

/-- Each of them departs once. -/
theorem orderly_closedAndReset :
    ∃ s, (system 65536).ReachableBy (fun s a => s.InOnMessage a ∧ s.WhileMapped a) s ∧
      s.disconnected = [some 0] ∧ s.closes = [some 1, some 0] ∧ s.Orderly := by
  have hrun : ∃ s ∈ runFrom (next 65536) (fun s a => s.InOnMessage a ∧ s.WhileMapped a) start
      closedAndReset, s.disconnected = [some 0] ∧ s.closes = [some 1, some 0] := by
    decide +kernel
  obtain ⟨s, hreach, hdisconnected, hcloses⟩ := exists_of_runFrom hrun
  exact ⟨s, hreach, hdisconnected, hcloses, orderly_of_whileMapped hreach⟩

/-- One event reports data and `EPOLLHUP`, and `onMessage` closes the connection. -/
def closedAndHungUp : List World.Action :=
  List.flatten [World.acceptSteps 0 5, World.pipeSteps 1, [.proceed, .proceed],
    [.epollWait [.connection ⟨5, [.EPOLLIN, .EPOLLHUP]⟩]],
    [.proceed, .close 0 true, .proceed, .proceed, .proceed]]

/-- **A null connection departs.**  The `EPOLLHUP` branch calls `onDisconnected` with a null
pointer, and closes the descriptor a second time. -/
theorem not_orderly_closedAndHungUp :
    ∃ s, (system 65536).ReachableBy InOnMessage s ∧ s.disconnected = [none] ∧
      s.closes = [some 0, some 0] ∧ ¬ s.Orderly := by
  have hrun : ∃ s ∈ runFrom (next 65536) InOnMessage start closedAndHungUp,
      s.disconnected = [none] ∧ s.closes = [some 0, some 0] := by decide +kernel
  obtain ⟨s, hreach, hdisconnected, hcloses⟩ := exists_of_runFrom hrun
  refine ⟨s, hreach, hdisconnected, hcloses, ?_⟩
  intro horderly
  apply horderly.disconnected
  rw [hdisconnected]
  exact List.mem_singleton_self none

end Observed

end Muduo
