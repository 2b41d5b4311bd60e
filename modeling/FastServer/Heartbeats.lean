/-
# The heartbeat timers of the connections

`CubeServer::onAccepted` registers a recurring timer on the reactor of the new
connection, and `onDisconnected` cancels the timer whose id is in `timerId_`.  There is
one `timerId_` for all connections, and every reactor numbers its timers by itself.
-/
import FastServer.TimerLoss

namespace Muduo

open TransitionSystem

/-! ## The numbering of timers -/

namespace TimerState

variable {γ : Type*} {s : TimerState γ}

@[simp] theorem updateNextTimer_next_timer_id (s : TimerState γ) (now : ℤ) :
    (s.updateNextTimer now).next_timer_id = s.next_timer_id := by
  unfold updateNextTimer
  split <;> rfl

/-- A registration takes the next id. -/
theorem registerTimer_next_timer_id (s : TimerState γ) {interval_ms : ℤ} (hpos : 0 < interval_ms)
    (callback : γ) (recurring : Bool) (now now' : ℤ) :
    (s.registerTimer interval_ms (some callback) recurring now now').1.next_timer_id
      = toI64 (s.next_timer_id + 1) := by
  rw [registerTimer_eq s hpos]
  split_ifs <;> simp

/-- Where ids are unique, cancelling keeps the timers of the other ids. -/
theorem eraseP_id {timer_id : ℤ} {l : List (TimerInfo γ)} (h : (l.map TimerInfo.id).Nodup) :
    l.eraseP (fun t => t.id = timer_id) = l.filter (fun t => t.id ≠ timer_id) := by
  induction l with
  | nil => rfl
  | cons t l ih =>
    rw [List.map_cons, List.nodup_cons] at h
    by_cases hid : t.id = timer_id
    · have hrest : ∀ u ∈ l, u.id ≠ timer_id := by
        intro u hu heq
        exact h.1 (List.mem_map.mpr ⟨u, hu, heq.trans hid.symm⟩)
      rw [List.eraseP_cons_of_pos (by simpa using hid), List.filter_cons_of_neg (by simpa using hid),
        List.filter_eq_self.mpr (by simpa using hrest)]
    · rw [List.eraseP_cons_of_neg (by simpa using hid), List.filter_cons_of_pos (by simpa using hid),
        ih h.2]

/-- The timers that `cancelTimer` leaves. -/
theorem cancelTimer_elems {timer_id now' : ℤ} (h : (s.timers.elems.map TimerInfo.id).Nodup) :
    (s.cancelTimer timer_id now').1.timers.elems
      = s.timers.elems.filter (fun t => t.id ≠ timer_id) := by
  cases hfind : s.timers.elems.find? (fun t => t.id = timer_id) with
  | none =>
    rw [cancelTimer_of_find?_none hfind, List.filter_eq_self.mpr]
    simpa using hfind
  | some t =>
    rw [cancelTimer_timers hfind]
    exact eraseP_id h

theorem cancelTimer_next_timer_id (s : TimerState γ) (timer_id now' : ℤ) :
    (s.cancelTimer timer_id now').1.next_timer_id = s.next_timer_id := by
  unfold cancelTimer
  dsimp only
  split_ifs <;> simp [disableTimer]

theorem handleTimerEvents_next_timer_id (s : TimerState γ) (readAt now now' : ℤ) :
    (s.handleTimerEvents readAt now now').1.next_timer_id = s.next_timer_id := by
  unfold handleTimerEvents
  dsimp only
  split_ifs <;> simp [disableTimer]

end TimerState

/-! ## Runs -/

variable {ρ κ : Type*}

/-- A server with reactors `ρ` and connections `κ`; a timer's callback is the connection
it holds.  `timerId_` is indeterminate until it is set.  The last two fields are history:
the reactor of each open connection with the id of the timer registered for it, and the
last clock reading. -/
structure Heartbeats (ρ κ : Type*) where
  reactors : ρ → TimerState κ
  timerId : Option ℕ
  registered : κ → Option (ρ × ℤ)
  clock : ℤ

namespace Heartbeats

/-- No connection. -/
def start : Heartbeats ρ κ := ⟨fun _ => TimerState.empty, none, fun _ => none, 0⟩

section Operations

variable [DecidableEq ρ] [DecidableEq κ]

/-- `onAccepted`, for a connection on the reactor `r`. -/
def onAccepted (w : Heartbeats ρ κ) (r : ρ) (conn : κ) (now now' : ℤ) : Heartbeats ρ κ :=
  let result := (w.reactors r).registerTimer 10000 (some conn) true now now'
  { reactors := Function.update w.reactors r result.1
    timerId := some (toU64 result.2)
    registered := Function.update w.registered conn (some (r, result.2))
    clock := now' }

/-- `onDisconnected`, for a connection on the reactor `r`. -/
def onDisconnected (w : Heartbeats ρ κ) (r : ρ) (conn : κ) (timerId : ℕ) (now' : ℤ) :
    Heartbeats ρ κ where
  reactors := Function.update w.reactors r ((w.reactors r).cancelTimer (toI64 timerId) now').1
  timerId := w.timerId
  registered := Function.update w.registered conn none
  clock := now'

/-- `handleTimerEvents` of the reactor `r`. -/
def handleTimerEvents (w : Heartbeats ρ κ) (r : ρ) (readAt now now' : ℤ) : Heartbeats ρ κ :=
  { w with
    reactors := Function.update w.reactors r
      ((w.reactors r).handleTimerEvents readAt now now').1
    clock := now' }

/-- An event of the server, with the clock readings taken. -/
inductive Event (ρ κ : Type*)
  | accept (r : ρ) (conn : κ) (now now' : ℤ)
  | disconnect (conn : κ) (now' : ℤ)
  | timerEvents (r : ρ) (readAt now now' : ℤ)

/-- The state after an event: a new connection is accepted, an open one disconnected. -/
def next (w : Heartbeats ρ κ) : Event ρ κ → Option (Heartbeats ρ κ)
  | .accept r conn now now' =>
      if TimerRun.Readings w.clock [now, now'] ∧ w.registered conn = none then
        some (w.onAccepted r conn now now')
      else none
  | .disconnect conn now' =>
      if TimerRun.Readings w.clock [now'] then
        (w.registered conn).bind fun found =>
          w.timerId.map fun timerId => w.onDisconnected found.1 conn timerId now'
      else none
  | .timerEvents r readAt now now' =>
      if TimerRun.Readings w.clock [readAt, now, now'] then
        some (w.handleTimerEvents r readAt now now')
      else none

end Operations

/-- The runs of a server. -/
def system (ρ κ : Type*) [DecidableEq ρ] [DecidableEq κ] :
    TransitionSystem (Heartbeats ρ κ) (Event ρ κ) :=
  TransitionSystem.ofFunction start next

/-- No two timers of a reactor share an expiration after the event, and its numbering
does not wrap around. -/
def Distinct (w : Heartbeats ρ κ) : Event ρ κ → Prop
  | .accept r _ now _ =>
      (∀ t ∈ (w.reactors r).timers.elems, t.expiration ≠ expirationAt now 10000) ∧
        (w.reactors r).next_timer_id + 1 < 2 ^ 63
  | .disconnect _ _ => True
  | .timerEvents r readAt now _ =>
      (w.reactors r).readable readAt →
        (((w.reactors r).expiredTimers now).filter TimerInfo.recurring).Pairwise
            (fun t u => expirationAt now t.interval_ms ≠ expirationAt now u.interval_ms) ∧
          ∀ t ∈ ((w.reactors r).expiredTimers now).filter TimerInfo.recurring,
            ∀ u ∈ (w.reactors r).timers.elems, now < u.expiration →
              expirationAt now t.interval_ms ≠ u.expiration

/-- `timerId_` is the id of the timer registered for the connection. -/
def OwnTimer (w : Heartbeats ρ κ) (conn : κ) : Prop :=
  ∀ found ∈ w.registered conn, w.timerId = some (toU64 found.2)

/-- An event of a run without equal expirations, a disconnection of which finds the id of
its own timer. -/
def FindsOwn (w : Heartbeats ρ κ) : Event ρ κ → Prop
  | .disconnect conn _ => w.OwnTimer conn
  | event => w.Distinct event

/-- The disconnection of `conn` between two states cancels the timers that hold it, and
no others. -/
def CancelsOwn [DecidableEq κ] (w w' : Heartbeats ρ κ) (conn : κ) : Prop :=
  ∀ r, (w'.reactors r).timers.elems
    = (w.reactors r).timers.elems.filter (fun t => t.callback ≠ conn)

/-! ## The timers of the open connections -/

variable {w w' : Heartbeats ρ κ}

/-- A reactor's timers by id and connection. -/
def held (s : TimerState κ) : List (ℤ × κ) := s.timers.elems.map fun t => (t.id, t.callback)

/-- Every reactor has exactly the timers of its open connections, each once and under
the id that was registered; they recur, and the next id is larger. -/
structure Tidy (w : Heartbeats ρ κ) : Prop where
  held_iff : ∀ r id conn, (id, conn) ∈ held (w.reactors r) ↔ w.registered conn = some (r, id)
  nodup : ∀ r, ((w.reactors r).timers.elems.map TimerInfo.id).Nodup
  recurring : ∀ r, ∀ t ∈ (w.reactors r).timers.elems, t.recurring = true
  numbered : ∀ conn r id, w.registered conn = some (r, id) →
    0 ≤ id ∧ id < (w.reactors r).next_timer_id
  numbering : ∀ r, 0 ≤ (w.reactors r).next_timer_id ∧ (w.reactors r).next_timer_id < 2 ^ 63
  timerId_lt : ∀ timerId ∈ w.timerId, timerId < 2 ^ 64

theorem tidy_start : (start : Heartbeats ρ κ).Tidy where
  held_iff _ _ _ :=
    ⟨fun h => absurd h List.not_mem_nil, fun h => absurd h.symm (Option.some_ne_none _)⟩
  nodup _ := List.nodup_nil
  recurring _ _ h := absurd h List.not_mem_nil
  numbered _ _ _ h := absurd h.symm (Option.some_ne_none _)
  numbering _ := ⟨le_refl 0, by norm_num [start, TimerState.empty]⟩
  timerId_lt _ h := absurd h.symm (Option.some_ne_none _)

namespace Tidy

/-- A timer's connection is open, on its reactor and under its id. -/
theorem registered (h : w.Tidy) {r : ρ} {t : TimerInfo κ} (ht : t ∈ (w.reactors r).timers.elems) :
    w.registered t.callback = some (r, t.id) :=
  (h.held_iff r t.id t.callback).mp (List.mem_map_of_mem ht)

/-- An open connection has its timer. -/
theorem exists_timer (h : w.Tidy) {r : ρ} {id : ℤ} {conn : κ}
    (hconn : w.registered conn = some (r, id)) :
    ∃ t ∈ (w.reactors r).timers.elems, t.id = id ∧ t.callback = conn := by
  obtain ⟨t, ht, heq⟩ := List.mem_map.mp ((h.held_iff r id conn).mpr hconn)
  exact ⟨t, ht, (Prod.mk.inj heq).1, (Prod.mk.inj heq).2⟩

/-- On a connection's reactor, its timer is the one of its id. -/
theorem id_eq_iff (h : w.Tidy) {r : ρ} {id : ℤ} {conn : κ}
    (hconn : w.registered conn = some (r, id)) {t : TimerInfo κ}
    (ht : t ∈ (w.reactors r).timers.elems) : t.id = id ↔ t.callback = conn := by
  constructor
  · intro hid
    obtain ⟨t₀, ht₀, hid₀, hcallback₀⟩ := h.exists_timer hconn
    have hsame : t = t₀ := List.inj_on_of_nodup_map (h.nodup r) ht ht₀ (hid.trans hid₀.symm)
    rw [hsame, hcallback₀]
  · rintro rfl
    have hreg := h.registered ht
    rw [hconn] at hreg
    exact (Prod.mk.inj (Option.some.inj hreg)).2.symm

/-! ### Firing -/

/-- The timers that a reactor has after `handleTimerEvents`, all of which recur. -/
theorem held_handleTimerEvents (h : w.Tidy) {r : ρ} {readAt now now' : ℤ}
    (hok : w.Distinct (.timerEvents r readAt now now')) :
    (held ((w.reactors r).handleTimerEvents readAt now now').1).Perm (held (w.reactors r)) ∧
      ∀ t ∈ ((w.reactors r).handleTimerEvents readAt now now').1.timers.elems,
        t.recurring = true := by
  by_cases hread : (w.reactors r).readable readAt
  · obtain ⟨hpair, hrest⟩ := hok hread
    have hperm := TimerState.handleTimerEvents_perm now' hread hpair hrest
    have hall : ((w.reactors r).expiredTimers now).filter TimerInfo.recurring
        = (w.reactors r).expiredTimers now := by
      rw [List.filter_eq_self]
      intro t ht
      exact h.recurring r t (TimerState.mem_expiredTimers ht).1
    have hsplit : (w.reactors r).timers.elems = (w.reactors r).expiredTimers now
        ++ ((w.reactors r).timers.eraseWhile (fun t => t.expiration ≤ now)).elems :=
      List.takeWhile_append_dropWhile.symm
    rw [hall] at hperm
    constructor
    · unfold held
      rw [hsplit, List.map_append]
      refine (hperm.map _).trans ?_
      rw [List.map_append, List.map_map]
      exact List.Perm.refl _
    · intro t ht
      rcases List.mem_append.mp (hperm.mem_iff.mp ht) with hmem | hmem
      · obtain ⟨u, hu, rfl⟩ := List.mem_map.mp hmem
        exact h.recurring r u (TimerState.mem_expiredTimers hu).1
      · exact h.recurring r t (TimerState.mem_rest hmem).1
  · rw [TimerState.handleTimerEvents_unreadable hread]
    exact ⟨List.Perm.refl _, h.recurring r⟩

variable [DecidableEq ρ]

/-- `handleTimerEvents` keeps the timers of the open connections. -/
theorem handleTimerEvents (h : w.Tidy) {r : ρ} {readAt now now' : ℤ}
    (hok : w.Distinct (.timerEvents r readAt now now')) :
    (w.handleTimerEvents r readAt now now').Tidy := by
  obtain ⟨hheld, hrecurring⟩ := h.held_handleTimerEvents hok
  have hself : (w.handleTimerEvents r readAt now now').reactors r
      = ((w.reactors r).handleTimerEvents readAt now now').1 := Function.update_self _ _ _
  have hother : ∀ r', r' ≠ r →
      (w.handleTimerEvents r readAt now now').reactors r' = w.reactors r' :=
    fun r' hr => Function.update_of_ne hr _ _
  have hperm : ∀ r', (held ((w.handleTimerEvents r readAt now now').reactors r')).Perm
      (held (w.reactors r')) := by
    intro r'
    by_cases hr : r' = r
    · subst hr
      rw [hself]
      exact hheld
    · rw [hother r' hr]
  have hnext : ∀ r', ((w.handleTimerEvents r readAt now now').reactors r').next_timer_id
      = (w.reactors r').next_timer_id := by
    intro r'
    by_cases hr : r' = r
    · subst hr
      rw [hself, TimerState.handleTimerEvents_next_timer_id]
    · rw [hother r' hr]
  refine ⟨?_, ?_, ?_, ?_, ?_, h.timerId_lt⟩
  · intro r' id' conn'
    rw [(hperm r').mem_iff]
    exact h.held_iff r' id' conn'
  · intro r'
    have hids := ((hperm r').map Prod.fst).nodup_iff
    unfold held at hids
    rw [List.map_map, List.map_map] at hids
    exact hids.mpr (h.nodup r')
  · intro r' t ht
    by_cases hr : r' = r
    · subst hr
      rw [hself] at ht
      exact hrecurring t ht
    · rw [hother r' hr] at ht
      exact h.recurring r' t ht
  · intro conn' r' id' hconn'
    rw [hnext]
    exact h.numbered conn' r' id' hconn'
  · intro r'
    rw [hnext]
    exact h.numbering r'

variable [DecidableEq κ]

/-! ### Accepting -/

/-- The timer of the new connection is added to those of its reactor. -/
theorem elems_onAccepted (w : Heartbeats ρ κ) {r : ρ} (conn : κ) {now : ℤ} (now' : ℤ)
    (hdistinct : ∀ t ∈ (w.reactors r).timers.elems, t.expiration ≠ expirationAt now 10000) (r' : ρ) :
    ((w.onAccepted r conn now now').reactors r').timers.elems.Perm
      (if r' = r then (w.reactors r).newTimer 10000 conn true now :: (w.reactors r).timers.elems
        else (w.reactors r').timers.elems) := by
  show (Function.update w.reactors r _ r').timers.elems.Perm _
  split_ifs with hr
  · subst hr
    rw [Function.update_self, TimerState.registerTimer_timers _ (by decide)]
    exact SortedSet.insertList_perm fun t ht => (TimerState.lt_or_lt_of_ne (hdistinct t ht)).symm
  · rw [Function.update_of_ne hr]

/-- Its number is the next one of its reactor. -/
theorem registered_onAccepted (w : Heartbeats ρ κ) (r : ρ) (conn : κ) (now now' : ℤ) (conn' : κ) :
    (w.onAccepted r conn now now').registered conn'
      = if conn' = conn then some (r, (w.reactors r).next_timer_id) else w.registered conn' := by
  show Function.update w.registered conn _ conn' = _
  rw [Function.update_apply, TimerState.registerTimer_eq _ (by decide)]

theorem next_timer_id_onAccepted (w : Heartbeats ρ κ) {r : ρ} (conn : κ) (now now' : ℤ)
    (hlow : 0 ≤ (w.reactors r).next_timer_id)
    (hnumber : (w.reactors r).next_timer_id + 1 < 2 ^ 63) (r' : ρ) :
    ((w.onAccepted r conn now now').reactors r').next_timer_id
      = if r' = r then (w.reactors r).next_timer_id + 1 else (w.reactors r').next_timer_id := by
  show (Function.update w.reactors r _ r').next_timer_id = _
  split_ifs with hr
  · subst hr
    rw [Function.update_self, TimerState.registerTimer_next_timer_id _ (by decide),
      toI64_of_range (by omega) (by omega)]
  · rw [Function.update_of_ne hr]

/-- `onAccepted` adds the timer of the new connection. -/
theorem onAccepted (h : w.Tidy) {r : ρ} {conn : κ} {now now' : ℤ}
    (hnew : w.registered conn = none)
    (hdistinct : ∀ t ∈ (w.reactors r).timers.elems, t.expiration ≠ expirationAt now 10000)
    (hnumber : (w.reactors r).next_timer_id + 1 < 2 ^ 63) :
    (w.onAccepted r conn now now').Tidy := by
  obtain ⟨hlow, hhigh⟩ := h.numbering r
  have helems := elems_onAccepted w conn now' hdistinct
  have hreg := registered_onAccepted w r conn now now'
  have hnext := next_timer_id_onAccepted w conn now now' hlow hnumber
  refine ⟨?_, ?_, ?_, ?_, ?_, ?_⟩
  · intro r' id' conn'
    -- the timers before, with the new one on its reactor
    have hheld : (id', conn') ∈ held ((w.onAccepted r conn now now').reactors r') ↔
        (r' = r ∧ id' = (w.reactors r).next_timer_id ∧ conn' = conn) ∨
          (id', conn') ∈ held (w.reactors r') := by
      unfold held
      rw [((helems r').map _).mem_iff]
      split_ifs with hr
      · rw [List.map_cons, List.mem_cons, hr]
        simp [TimerState.newTimer]
      · simp [hr]
    rw [hheld, h.held_iff, hreg]
    split_ifs with hne
    · rw [hne, hnew]
      constructor
      · rintro (⟨rfl, rfl, -⟩ | hnone)
        · rfl
        · exact absurd hnone.symm (Option.some_ne_none _)
      · intro heq
        obtain ⟨rfl, rfl⟩ := Prod.mk.inj (Option.some.inj heq)
        exact Or.inl ⟨rfl, rfl, rfl⟩
    · exact ⟨fun hor => hor.resolve_left fun hand => hne hand.2.2, Or.inr⟩
  · intro r'
    rw [((helems r').map TimerInfo.id).nodup_iff]
    split_ifs with hr
    · rw [List.map_cons, List.nodup_cons]
      refine ⟨?_, h.nodup r⟩
      intro hmem
      obtain ⟨t, ht, heq⟩ := List.mem_map.mp hmem
      have hlt := (h.numbered _ _ _ (h.registered ht)).2
      rw [heq] at hlt
      exact absurd hlt (lt_irrefl _)
    · exact h.nodup r'
  · intro r' t ht
    have ht := (helems r').mem_iff.mp ht
    split_ifs at ht with hr
    · rcases List.mem_cons.mp ht with rfl | hmem
      · rfl
      · exact h.recurring r t hmem
    · exact h.recurring r' t ht
  · intro conn' r' id' hconn'
    rw [hreg] at hconn'
    rw [hnext]
    split_ifs at hconn' with hne
    · obtain ⟨rfl, rfl⟩ := Prod.mk.inj (Option.some.inj hconn')
      rw [if_pos rfl]
      exact ⟨hlow, lt_add_one _⟩
    · obtain ⟨hlow', hlt⟩ := h.numbered conn' r' id' hconn'
      split_ifs with hr
      · exact ⟨hlow', hr ▸ hlt.trans (lt_add_one _)⟩
      · exact ⟨hlow', hlt⟩
  · intro r'
    rw [hnext]
    split_ifs
    · exact ⟨by omega, hnumber⟩
    · exact h.numbering r'
  · rintro timerId htimerId
    obtain rfl := Option.some.inj htimerId
    rw [TimerState.registerTimer_eq _ (by decide)]
    unfold toU64
    omega

/-! ### Disconnecting -/

/-- An id that fits in both types survives both conversions. -/
theorem toI64_toU64 {id : ℤ} (h0 : 0 ≤ id) (h : id < 2 ^ 63) : toI64 (toU64 id) = id := by
  rw [toU64_of_nonneg h0 (by omega)]
  exact toI64_of_range (by omega) h

/-- A `uint64_t` is determined by the `int64_t` it is converted to. -/
theorem eq_toU64_of_toI64 {n : ℕ} {id : ℤ} (hn : n < 2 ^ 64) (h : toI64 n = id) :
    n = toU64 id := by
  subst h
  unfold toU64 toI64
  rw [Int.bmod_def]
  split_ifs <;> omega

/-- **The right timer goes exactly if its id is in `timerId_`.** -/
theorem cancelsOwn_iff (h : w.Tidy) {r : ρ} {id : ℤ} {conn : κ} {timerId : ℕ} {now' : ℤ}
    (hconn : w.registered conn = some (r, id)) (htimerId : w.timerId = some timerId) :
    w.CancelsOwn (w.onDisconnected r conn timerId now') conn ↔ w.OwnTimer conn := by
  have hself : ((w.onDisconnected r conn timerId now').reactors r).timers.elems
      = (w.reactors r).timers.elems.filter (fun t => t.id ≠ toI64 timerId) := by
    show (Function.update w.reactors r _ r).timers.elems = _
    rw [Function.update_self, TimerState.cancelTimer_elems (h.nodup r)]
  constructor
  · intro hcancels found hfound
    obtain rfl : (r, id) = found := Option.some.inj (hconn.symm.trans hfound)
    obtain ⟨t, ht, hid, hcallback⟩ := h.exists_timer hconn
    -- the connection's timer is gone, so it had the id that was cancelled
    have hgone : t ∉ (w.reactors r).timers.elems.filter (fun t => t.id ≠ toI64 timerId) := by
      rw [← hself, hcancels r]
      simp [hcallback]
    have hsame : toI64 timerId = id := by
      by_contra hne
      apply hgone
      rw [List.mem_filter]
      exact ⟨ht, by simpa [hid] using fun heq => hne heq.symm⟩
    rw [htimerId, eq_toU64_of_toI64 (h.timerId_lt timerId htimerId) hsame]
  · intro hown r'
    have hsame : timerId = toU64 id :=
      Option.some.inj (htimerId.symm.trans (hown (r, id) hconn))
    obtain ⟨hlow, hlt⟩ := h.numbered conn r id hconn
    have hback : toI64 timerId = id := by
      rw [hsame]
      exact toI64_toU64 hlow (hlt.trans (h.numbering r).2)
    by_cases hr : r' = r
    · subst hr
      rw [hself, hback]
      apply List.filter_congr
      intro t ht
      simp only [ne_eq, h.id_eq_iff hconn ht]
    · -- the timers of the other reactors are those of other connections
      show (Function.update w.reactors r _ r').timers.elems = _
      rw [Function.update_of_ne hr, List.filter_eq_self.mpr]
      intro t ht
      have hreg := h.registered ht
      simp only [ne_eq, decide_not, Bool.not_eq_true', decide_eq_false_iff_not]
      rintro rfl
      rw [hconn] at hreg
      exact hr (Prod.mk.inj (Option.some.inj hreg)).1.symm

/-- `onDisconnected` that removes the timer of the connection leaves those of the others. -/
theorem onDisconnected (h : w.Tidy) {r : ρ} {conn : κ} {timerId : ℕ} {now' : ℤ}
    (hcancels : w.CancelsOwn (w.onDisconnected r conn timerId now') conn) :
    (w.onDisconnected r conn timerId now').Tidy := by
  have hnext : ∀ r', ((w.onDisconnected r conn timerId now').reactors r').next_timer_id
      = (w.reactors r').next_timer_id := by
    intro r'
    show (Function.update w.reactors r _ r').next_timer_id = _
    by_cases hr : r' = r
    · subst hr
      rw [Function.update_self, TimerState.cancelTimer_next_timer_id]
    · rw [Function.update_of_ne hr]
  have hreg : ∀ conn', (w.onDisconnected r conn timerId now').registered conn'
      = if conn' = conn then none else w.registered conn' := by
    intro conn'
    exact Function.update_apply _ _ _ _
  refine ⟨?_, ?_, ?_, ?_, ?_, h.timerId_lt⟩
  · intro r' id' conn'
    have hmem : (id', conn') ∈ held ((w.onDisconnected r conn timerId now').reactors r') ↔
        (id', conn') ∈ held (w.reactors r') ∧ conn' ≠ conn := by
      unfold held
      rw [hcancels r', List.mem_map, List.mem_map]
      constructor
      · rintro ⟨t, ht, heq⟩
        obtain ⟨hmem, hne⟩ := List.mem_filter.mp ht
        obtain ⟨rfl, rfl⟩ := Prod.mk.inj heq
        exact ⟨⟨t, hmem, rfl⟩, of_decide_eq_true hne⟩
      · rintro ⟨⟨t, ht, heq⟩, hne⟩
        obtain ⟨rfl, rfl⟩ := Prod.mk.inj heq
        exact ⟨t, List.mem_filter.mpr ⟨ht, decide_eq_true hne⟩, rfl⟩
    rw [hmem, h.held_iff, hreg]
    split_ifs with hsame
    · exact ⟨fun hand => absurd hsame hand.2, fun hnone => absurd hnone (by simp)⟩
    · exact ⟨And.left, fun hold => ⟨hold, hsame⟩⟩
  · intro r'
    rw [hcancels r']
    exact (h.nodup r').sublist ((List.filter_sublist).map _)
  · intro r' t ht
    rw [hcancels r'] at ht
    exact h.recurring r' t (List.mem_filter.mp ht).1
  · intro conn' r' id' hconn'
    rw [hreg] at hconn'
    rw [hnext]
    split_ifs at hconn' with hsame
    exact h.numbered conn' r' id' hconn'
  · intro r'
    rw [hnext]
    exact h.numbering r'

/-! ### Runs -/

/-- A disconnection that continues the run. -/
theorem disconnect_cases {conn : κ} {now' : ℤ} (h : w.next (.disconnect conn now') = some w') :
    ∃ r id timerId, w.registered conn = some (r, id) ∧ w.timerId = some timerId ∧
      w' = w.onDisconnected r conn timerId now' := by
  simp only [Heartbeats.next] at h
  split_ifs at h with hread
  obtain ⟨⟨r, id⟩, hconn, h⟩ := Option.bind_eq_some_iff.mp h
  obtain ⟨timerId, htimerId, rfl⟩ := Option.map_eq_some_iff.mp h
  exact ⟨r, id, timerId, hconn, htimerId, rfl⟩

/-- **A step** that finds its own timer, if it disconnects, leaves the reactors tidy. -/
theorem next (h : w.Tidy) {event : Event ρ κ} (hok : w.FindsOwn event)
    (hstep : w.next event = some w') : w'.Tidy := by
  cases event with
  | accept r conn now now' =>
    simp only [Heartbeats.next] at hstep
    split_ifs at hstep with hguard
    obtain rfl := Option.some.inj hstep
    exact h.onAccepted hguard.2 hok.1 hok.2
  | disconnect conn now' =>
    obtain ⟨r, id, timerId, hconn, htimerId, rfl⟩ := disconnect_cases hstep
    exact h.onDisconnected ((h.cancelsOwn_iff hconn htimerId).mpr hok)
  | timerEvents r readAt now now' =>
    simp only [Heartbeats.next] at hstep
    split_ifs at hstep with hguard
    obtain rfl := Option.some.inj hstep
    exact h.handleTimerEvents hok

end Tidy

/-- **Each disconnection cancels its own timer** in a run all of whose disconnections find
that timer's id in `timerId_`: the reactors have exactly the timers of the open
connections, and the next disconnection cancels its own timer, and no other, if and only
if it finds that id as well. -/
theorem cancelsOwn_of_findsOwn [DecidableEq ρ] [DecidableEq κ]
    (h : (system ρ κ).ReachableBy FindsOwn w) :
    (∀ r id conn, (id, conn) ∈ held (w.reactors r) ↔ w.registered conn = some (r, id)) ∧
      ∀ conn now' w', w.next (.disconnect conn now') = some w' →
        (w.CancelsOwn w' conn ↔ w.OwnTimer conn) := by
  have htidy : w.Tidy := by
    apply h.invariant
    · rintro w rfl
      exact tidy_start
    · intro w event w' hw hok hstep
      exact hw.next hok hstep
  refine ⟨htidy.held_iff, ?_⟩
  intro conn now' w' hstep
  obtain ⟨r, id, timerId, hconn, htimerId, rfl⟩ := Tidy.disconnect_cases hstep
  exact htidy.cancelsOwn_iff hconn htimerId

instance (w : Heartbeats ρ κ) : DecidablePred w.Distinct
  | .accept _ _ _ _ => inferInstanceAs (Decidable (_ ∧ _))
  | .disconnect _ _ => .isTrue trivial
  | .timerEvents _ _ _ _ => inferInstanceAs (Decidable (_ → _ ∧ _))

instance (w : Heartbeats ρ κ) (conn : κ) : Decidable (w.OwnTimer conn) :=
  inferInstanceAs (Decidable (∀ found ∈ w.registered conn, w.timerId = some (toU64 found.2)))

instance (w : Heartbeats ρ κ) : DecidablePred w.FindsOwn
  | .accept r conn now now' =>
      inferInstanceAs (Decidable (w.Distinct (.accept r conn now now')))
  | .disconnect conn _ => inferInstanceAs (Decidable (w.OwnTimer conn))
  | .timerEvents r readAt now now' =>
      inferInstanceAs (Decidable (w.Distinct (.timerEvents r readAt now now')))

/-- Two connections on two reactors, whose timers have the same id; their heartbeats are
handled once, and the first of them leaves. -/
def twoReactors : List (Event Bool ℕ) :=
  [.accept false 0 0 1, .accept true 1 2 3,
    .timerEvents false 10000000000 10000000001 10000000002, .disconnect 0 10000000003]

/-- When the second one leaves, too, its own timer goes. -/
theorem cancelsOwn_twoReactors :
    ∃ w w' : Heartbeats Bool ℕ, (system Bool ℕ).ReachableBy FindsOwn w ∧
      w.registered 1 = some (true, 0) ∧ w.next (.disconnect 1 10000000004) = some w' ∧
      w.CancelsOwn w' 1 := by
  have hrun : ∃ w ∈ runFrom next FindsOwn (start : Heartbeats Bool ℕ) twoReactors,
      w.registered 1 = some (true, 0) ∧ (w.next (.disconnect 1 10000000004)).isSome ∧
        w.OwnTimer 1 := by decide +kernel
  obtain ⟨w, hreach, hconn, hsome, hown⟩ := exists_of_runFrom hrun
  obtain ⟨w', hw'⟩ := Option.isSome_iff_exists.mp hsome
  exact ⟨w, w', hreach, hconn, hw',
    ((cancelsOwn_of_findsOwn hreach).2 1 10000000004 w' hw').mpr hown⟩

/-- Two connections on one reactor, and the first of them leaves. -/
def oneReactor : List (Event Unit ℕ) :=
  [.accept () 0 0 1, .accept () 1 2 3]

/-- **The wrong timer goes.**  The disconnection of the first connection cancels the timer
of the second one, and leaves its own. -/
theorem not_cancelsOwn_oneReactor :
    ∃ w w' : Heartbeats Unit ℕ, (system Unit ℕ).ReachableBy Distinct w ∧
      held (w.reactors ()) = [(0, 0), (1, 1)] ∧ w.next (.disconnect 0 4) = some w' ∧
      held (w'.reactors ()) = [(0, 0)] ∧ ¬ w.CancelsOwn w' 0 := by
  have hrun : ∃ w ∈ runFrom next Distinct (start : Heartbeats Unit ℕ) oneReactor,
      held (w.reactors ()) = [(0, 0), (1, 1)] ∧ ∃ w' ∈ w.next (.disconnect 0 4),
        held (w'.reactors ()) = [(0, 0)] := by decide +kernel
  obtain ⟨w, hreach, hbefore, w', hw', hafter⟩ := exists_of_runFrom hrun
  refine ⟨w, w', hreach, hbefore, hw', hafter, ?_⟩
  intro hcancels
  obtain ⟨t, ht, heq⟩ := List.mem_map.mp (show ((0 : ℤ), 0) ∈ held (w'.reactors ()) by simp [hafter])
  rw [hcancels ()] at ht
  have hne := (List.mem_filter.mp ht).2
  exact absurd (Prod.mk.inj heq).2 (of_decide_eq_true hne)

end Heartbeats

end Muduo
