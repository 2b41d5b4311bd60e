/-
# Which timers are lost

`timers_` never holds two timers of one expiration, and an insertion that meets
an equal expiration is dropped in silence.  As long as no insertion meets one,
every registration is accounted for: the timer is present, was cancelled, or was a
one-shot timer whose callback has been run.
-/
import FastServer.Timers

namespace Muduo

open TransitionSystem

variable {γ : Type*}

/-! ## What the operations do to the set -/

namespace TimerState

variable {s : TimerState γ}

@[simp] theorem disableTimer_timers (s : TimerState γ) : s.disableTimer.timers = s.timers := rfl

@[simp] theorem disableTimer_fd (s : TimerState γ) : s.disableTimer.timer_fd = none := rfl

@[simp] theorem updateNextTimer_timers (s : TimerState γ) (now : ℤ) :
    (s.updateNextTimer now).timers = s.timers := by
  unfold updateNextTimer
  split <;> rfl

/-- Two timers of different expirations are not equivalent. -/
theorem lt_or_lt_of_ne {t u : TimerInfo γ} (h : t.expiration ≠ u.expiration) :
    TimerInfo.lt t u ∨ TimerInfo.lt u t := lt_or_gt_of_ne h

/-- **`registerTimer`.**  With accepted parameters it inserts the new timer and
returns its id; the timerfd is set if no timer expires earlier. -/
theorem registerTimer_eq (s : TimerState γ) {interval_ms : ℤ} (hpos : 0 < interval_ms)
    (callback : γ) (recurring : Bool) (now now' : ℤ) :
    s.registerTimer interval_ms (some callback) recurring now now'
      = (if ∀ t ∈ s.timers.elems, ¬ t.expiration < expirationAt now interval_ms then
          ({ s with
              next_timer_id := toI64 (s.next_timer_id + 1)
              timers := s.timers.insert (s.newTimer interval_ms callback recurring now) } :
            TimerState γ).updateNextTimer now'
        else
          { s with
              next_timer_id := toI64 (s.next_timer_id + 1)
              timers := s.timers.insert (s.newTimer interval_ms callback recurring now) },
        s.next_timer_id) := by
  have hiff := SortedSet.insertPos_eq_zero_iff (s := s.timers)
    (a := s.newTimer interval_ms callback recurring now)
  unfold registerTimer
  simp only [if_neg (not_le.mpr hpos)]
  by_cases hfirst : ∀ t ∈ s.timers.elems, ¬ t.expiration < expirationAt now interval_ms
  · simp only [if_pos (hiff.mpr hfirst), if_pos hfirst]
    rfl
  · simp only [if_neg (fun h => hfirst (hiff.mp h)), if_neg hfirst]
    rfl

theorem registerTimer_timers (s : TimerState γ) {interval_ms : ℤ} (hpos : 0 < interval_ms)
    (callback : γ) (recurring : Bool) (now now' : ℤ) :
    (s.registerTimer interval_ms (some callback) recurring now now').1.timers
      = s.timers.insert (s.newTimer interval_ms callback recurring now) := by
  rw [registerTimer_eq s hpos]
  split_ifs <;> simp

/-- Refused parameters change nothing. -/
theorem registerTimer_refused (s : TimerState γ) {interval_ms : ℤ} {callback : Option γ}
    (h : ¬ (callback.isSome ∧ 0 < interval_ms)) (recurring : Bool) (now now' : ℤ) :
    s.registerTimer interval_ms callback recurring now now' = (s, -1) := by
  unfold registerTimer
  cases callback with
  | none => rfl
  | some callback =>
      have hle : interval_ms ≤ 0 := by simpa using h
      simp only [if_pos hle]

/-- **`cancelTimer` finds nothing.** -/
theorem cancelTimer_of_find?_none {timer_id now' : ℤ}
    (h : s.timers.elems.find? (fun t => t.id = timer_id) = none) :
    s.cancelTimer timer_id now' = (s, false) := by
  have hidx : s.timers.elems.findIdx (fun t => t.id = timer_id) = s.timers.elems.length :=
    List.findIdx_eq_length.mpr (by simpa using h)
  unfold cancelTimer
  simp only [hidx, if_true]

/-- **`cancelTimer` finds a timer.**  It is erased, and the others stay. -/
theorem cancelTimer_timers {timer_id now' : ℤ} {t : TimerInfo γ}
    (h : s.timers.elems.find? (fun t => t.id = timer_id) = some t) :
    (s.cancelTimer timer_id now').1.timers
      = s.timers.eraseFirst (fun t => t.id = timer_id) := by
  have hlt : s.timers.elems.findIdx (fun t => t.id = timer_id) < s.timers.elems.length :=
    List.findIdx_lt_length.mpr
      ⟨t, List.mem_of_find?_eq_some h, (List.find?_eq_some_iff_append.mp h).1⟩
  unfold cancelTimer
  simp only [if_neg (ne_of_lt hlt)]
  split_ifs <;> simp

/-- The timer found is the one erased. -/
theorem eraseFirst_perm {timer_id : ℤ} {t : TimerInfo γ}
    (h : s.timers.elems.find? (fun t => t.id = timer_id) = some t) :
    s.timers.elems.Perm (t :: (s.timers.eraseFirst (fun t => t.id = timer_id)).elems) := by
  obtain ⟨hp, as, bs, hsplit, has⟩ := List.find?_eq_some_iff_append.mp h
  have herase : (s.timers.eraseFirst (fun t => t.id = timer_id)).elems = as ++ bs := by
    show s.timers.elems.eraseP _ = _
    have hcons : (t :: bs).eraseP (fun t => t.id = timer_id) = bs := List.eraseP_cons_of_pos hp
    rw [hsplit, List.eraseP_append_right _ (by simpa using has), hcons]
  rw [herase, hsplit]
  exact List.perm_middle

/-- The timers collected are those due. -/
theorem mem_expiredTimers {t : TimerInfo γ} {now : ℤ} (h : t ∈ s.expiredTimers now) :
    t ∈ s.timers.elems ∧ t.expiration ≤ now :=
  ⟨(List.takeWhile_sublist _).mem h, by simpa using List.mem_takeWhile_imp h⟩

/-- The timers that are not collected are not due. -/
theorem mem_rest {t : TimerInfo γ} {now : ℤ}
    (h : t ∈ (s.timers.eraseWhile (fun t => t.expiration ≤ now)).elems) :
    t ∈ s.timers.elems ∧ now < t.expiration := by
  have hdue := SortedSet.not_of_mem_eraseWhile (p := fun t : TimerInfo γ => t.expiration ≤ now)
    (by
      intro a b hab hb
      have hab' : a.expiration < b.expiration := hab
      simp only [decide_eq_true_eq] at hb ⊢
      omega) h
  simp only [decide_eq_false_iff_not, not_le] at hdue
  exact ⟨(List.dropWhile_sublist _).mem h, hdue⟩

/-- The set after `handleTimerEvents` has read an expiration. -/
theorem handleTimerEvents_timers {readAt : ℤ} (now now' : ℤ) (h : s.readable readAt) :
    (s.handleTimerEvents readAt now now').1.timers
        = (((s.expiredTimers now).filter TimerInfo.recurring).map (TimerInfo.renew now)).foldl
            SortedSet.insert (s.timers.eraseWhile (fun t => t.expiration ≤ now)) ∧
      (s.handleTimerEvents readAt now now').2 = s.expiredTimers now := by
  unfold handleTimerEvents
  rw [if_pos h]
  constructor
  · dsimp only
    split_ifs <;> simp
  · dsimp only
    split_ifs <;> rfl

/-- **What `handleTimerEvents` leaves**, if the renewed timers get expirations different
from each other and from those of the timers not due: the renewed timers and these. -/
theorem handleTimerEvents_perm {readAt now : ℤ} (now' : ℤ) (h : s.readable readAt)
    (hpair : ((s.expiredTimers now).filter TimerInfo.recurring).Pairwise
      (fun t u => expirationAt now t.interval_ms ≠ expirationAt now u.interval_ms))
    (hrest : ∀ t ∈ (s.expiredTimers now).filter TimerInfo.recurring, ∀ u ∈ s.timers.elems,
      now < u.expiration → expirationAt now t.interval_ms ≠ u.expiration) :
    (s.handleTimerEvents readAt now now').1.timers.elems.Perm
      (((s.expiredTimers now).filter TimerInfo.recurring).map (TimerInfo.renew now)
        ++ (s.timers.eraseWhile (fun t => t.expiration ≤ now)).elems) := by
  rw [(handleTimerEvents_timers now now' h).1]
  apply SortedSet.foldl_insert_perm
  · exact List.pairwise_map.mpr (hpair.imp fun hne => lt_or_lt_of_ne hne)
  · intro a ha x hx
    obtain ⟨t, ht, rfl⟩ := List.mem_map.mp ha
    obtain ⟨hmem, hlt⟩ := mem_rest hx
    exact lt_or_lt_of_ne (hrest t ht x hmem hlt)

theorem handleTimerEvents_unreadable {readAt now now' : ℤ} (h : ¬ s.readable readAt) :
    s.handleTimerEvents readAt now now' = (s, []) := by
  unfold handleTimerEvents
  rw [if_neg h]

end TimerState

/-! ## No timer is lost -/

namespace TimerRun

/-- Every registration is accounted for once: the timer is in `timers_`, was
cancelled, or was a one-shot timer whose callback has been run. -/
def NoTimerLost (r : TimerRun γ) : Prop :=
  r.registered.Perm (r.present ++ (r.cancelled ++ r.completed)) ∧
    ∀ x ∈ r.completed, x.2 = false

/-- The call inserts no timer with the expiration of another: a registration meets
no timer of its expiration, and the recurring timers renewed together get
expirations different from each other and from those of the timers not due. -/
def NoCollision (r : TimerRun γ) : TimerCall γ → Prop
  | .registerTimer interval_ms callback _ now _ =>
      callback.isSome → 0 < interval_ms →
        ∀ t ∈ r.reactor.timers.elems, t.expiration ≠ expirationAt now interval_ms
  | .cancelTimer _ _ => True
  | .handleTimerEvents readAt now _ =>
      r.reactor.readable readAt →
        ((r.reactor.expiredTimers now).filter TimerInfo.recurring).Pairwise
            (fun t u => expirationAt now t.interval_ms ≠ expirationAt now u.interval_ms) ∧
          ∀ t ∈ (r.reactor.expiredTimers now).filter TimerInfo.recurring,
            ∀ u ∈ r.reactor.timers.elems, now < u.expiration →
              expirationAt now t.interval_ms ≠ u.expiration

instance (r : TimerRun γ) : Decidable r.NoTimerLost := inferInstanceAs (Decidable (_ ∧ _))

instance (r : TimerRun γ) : (call : TimerCall γ) → Decidable (r.NoCollision call)
  | .registerTimer interval_ms callback _ now _ =>
      inferInstanceAs (Decidable (callback.isSome → 0 < interval_ms →
        ∀ t ∈ r.reactor.timers.elems, t.expiration ≠ expirationAt now interval_ms))
  | .cancelTimer _ _ => inferInstanceAs (Decidable True)
  | .handleTimerEvents _ _ _ => inferInstanceAs (Decidable (_ → _ ∧ _))

variable {r r' : TimerRun γ}

theorem noTimerLost_start : (start : TimerRun γ).NoTimerLost :=
  ⟨List.Perm.refl _, fun _ h => absurd h List.not_mem_nil⟩

/-- A registration that continues the run. -/
theorem next_registerTimer {interval_ms : ℤ} {callback : Option γ} {recurring : Bool}
    {now now' : ℤ}
    (h : r.next (.registerTimer interval_ms callback recurring now now') = some r') :
    Readings r.clock [now, now'] ∧
      r' = { r with
        reactor := (r.reactor.registerTimer interval_ms callback recurring now now').1
        clock := now'
        registered :=
          if callback.isSome ∧ 0 < interval_ms then
            ((r.reactor.registerTimer interval_ms callback recurring now now').2, recurring)
              :: r.registered
          else r.registered } := by
  by_cases hread : Readings r.clock [now, now']
  · simp only [next, if_pos hread] at h
    exact ⟨hread, (Option.some.inj h).symm⟩
  · simp [next, if_neg hread] at h

/-- A cancellation that continues the run. -/
theorem next_cancelTimer {timer_id now' : ℤ} (h : r.next (.cancelTimer timer_id now') = some r') :
    Readings r.clock [now'] ∧
      r' = { r with
        reactor := (r.reactor.cancelTimer timer_id now').1
        clock := now'
        cancelled :=
          ((r.reactor.timers.elems.find? (fun t => t.id = timer_id)).map TimerInfo.key).toList
            ++ r.cancelled } := by
  simp only [next] at h
  split_ifs at h with hread
  exact ⟨hread, (Option.some.inj h).symm⟩

/-- A handling of timer events that continues the run. -/
theorem next_handleTimerEvents {readAt now now' : ℤ}
    (h : r.next (.handleTimerEvents readAt now now') = some r') :
    Readings r.clock [readAt, now, now'] ∧
      r' = { r with
        reactor := (r.reactor.handleTimerEvents readAt now now').1
        clock := now'
        completed :=
          ((r.reactor.handleTimerEvents readAt now now').2.filter (fun t => !t.recurring)).map
              TimerInfo.key
            ++ r.completed } := by
  simp only [next] at h
  split_ifs at h with hread
  exact ⟨hread, (Option.some.inj h).symm⟩

/-- **Registering loses no timer.** -/
theorem NoTimerLost.registerTimer (h : r.NoTimerLost) {interval_ms : ℤ} {callback : Option γ}
    {recurring : Bool} {now now' : ℤ}
    (hok : r.NoCollision (.registerTimer interval_ms callback recurring now now'))
    (hnext : r.next (.registerTimer interval_ms callback recurring now now') = some r') :
    r'.NoTimerLost := by
  obtain ⟨-, rfl⟩ := next_registerTimer hnext
  refine ⟨?_, h.2⟩
  by_cases hacc : callback.isSome ∧ 0 < interval_ms
  · obtain ⟨callback, rfl⟩ := Option.isSome_iff_exists.mp hacc.1
    have hfree := hok rfl hacc.2
    have hperm : (r.reactor.timers.insert
        (r.reactor.newTimer interval_ms callback recurring now)).elems.Perm
          (r.reactor.newTimer interval_ms callback recurring now :: r.reactor.timers.elems) :=
      SortedSet.insertList_perm fun t ht => (TimerState.lt_or_lt_of_ne (hfree t ht)).symm
    rw [if_pos hacc, present, TimerState.registerTimer_timers _ hacc.2,
      TimerState.registerTimer_eq _ hacc.2]
    exact (h.1.cons _).trans ((hperm.map TimerInfo.key).symm.append_right _)
  · rw [if_neg hacc, present, TimerState.registerTimer_refused _ hacc]
    exact h.1

/-- **Cancelling loses no timer but the one cancelled.** -/
theorem NoTimerLost.cancelTimer (h : r.NoTimerLost) {timer_id now' : ℤ}
    (hnext : r.next (.cancelTimer timer_id now') = some r') : r'.NoTimerLost := by
  obtain ⟨-, rfl⟩ := next_cancelTimer hnext
  refine ⟨?_, h.2⟩
  cases hfind : r.reactor.timers.elems.find? (fun t => t.id = timer_id) with
  | none =>
      rw [present, TimerState.cancelTimer_of_find?_none hfind]
      exact h.1
  | some t =>
      rw [present, TimerState.cancelTimer_timers hfind]
      have hperm := (TimerState.eraseFirst_perm hfind).map TimerInfo.key
      -- the key of the timer moves from the set to the record
      exact h.1.trans ((hperm.append_right _).trans List.perm_middle.symm)

/-- Of what was present, `moved` goes to the record and `kept` stays. -/
theorem perm_move {registered before after kept moved cancelled completed : List (ℤ × Bool)}
    {rest : List (ℤ × Bool)} (h : registered.Perm (before ++ (cancelled ++ completed)))
    (hbefore : before.Perm (kept ++ (moved ++ rest))) (hafter : after.Perm (kept ++ rest)) :
    registered.Perm (after ++ (cancelled ++ (moved ++ completed))) := by
  rw [List.perm_iff_count] at h hbefore hafter ⊢
  intro x
  have h1 := h x
  have h2 := hbefore x
  have h3 := hafter x
  simp only [List.count_append] at h1 h2 h3 ⊢
  omega

/-- **Handling loses no timer but the one-shot timers it completes.** -/
theorem NoTimerLost.handleTimerEvents (h : r.NoTimerLost) {readAt now now' : ℤ}
    (hok : r.NoCollision (.handleTimerEvents readAt now now'))
    (hnext : r.next (.handleTimerEvents readAt now now') = some r') : r'.NoTimerLost := by
  obtain ⟨-, rfl⟩ := next_handleTimerEvents hnext
  by_cases hread : r.reactor.readable readAt
  · obtain ⟨hpair, hrest⟩ := hok hread
    have hfired := (TimerState.handleTimerEvents_timers now now' hread).2
    let expired := r.reactor.expiredTimers now
    let rest := r.reactor.timers.eraseWhile (fun t => t.expiration ≤ now)
    let renewed := (expired.filter TimerInfo.recurring).map (TimerInfo.renew now)
    have hset := TimerState.handleTimerEvents_perm now' hread hpair hrest
    have hkeys : renewed.map TimerInfo.key = (expired.filter TimerInfo.recurring).map TimerInfo.key := by
      rw [List.map_map]
      rfl
    have hsplit : r.reactor.timers.elems = expired ++ rest.elems :=
      List.takeWhile_append_dropWhile.symm
    have hparts : expired.Perm
        (expired.filter TimerInfo.recurring ++ expired.filter (fun t => !t.recurring)) :=
      (List.filter_append_perm _ _).symm
    refine ⟨?_, ?_⟩
    · rw [present, hfired]
      have hpre : r.present.Perm ((expired.filter TimerInfo.recurring).map TimerInfo.key
          ++ ((expired.filter (fun t => !t.recurring)).map TimerInfo.key
            ++ rest.elems.map TimerInfo.key)) := by
        have e : r.present = expired.map TimerInfo.key ++ rest.elems.map TimerInfo.key := by
          rw [present, hsplit, List.map_append]
        have hkey := hparts.map TimerInfo.key
        rw [List.map_append] at hkey
        rw [e, ← List.append_assoc]
        exact hkey.append_right _
      have hpost := hset.map TimerInfo.key
      rw [List.map_append, hkeys] at hpost
      exact perm_move h.1 hpre hpost
    · intro x hx
      rw [hfired] at hx
      rcases List.mem_append.mp hx with hx | hx
      · obtain ⟨t, ht, rfl⟩ := List.mem_map.mp hx
        show t.recurring = false
        simpa using (List.mem_filter.mp ht).2
      · exact h.2 x hx
  · rw [TimerState.handleTimerEvents_unreadable hread]
    exact h

/-- **No timer is lost without a collision.**  In every run whose calls insert no
timer with the expiration of another, every registration stays accounted for. -/
theorem noTimerLost_of_noCollision {r : TimerRun γ} (h : (system γ).ReachableBy NoCollision r) :
    r.NoTimerLost := by
  apply h.invariant
  · rintro r rfl
    exact noTimerLost_start
  · intro r call r' hr hok hnext
    cases call with
    | registerTimer => exact hr.registerTimer hok hnext
    | cancelTimer => exact hr.cancelTimer hnext
    | handleTimerEvents => exact hr.handleTimerEvents hok hnext

/-- A one-shot timer of 10 ms and a recurring one of 20 ms; both are handled, and
the recurring one is cancelled. -/
def distinctCalls : List (TimerCall Unit) :=
  [.registerTimer 10 (some ()) false 0 1, .registerTimer 20 (some ()) true 1 2,
    .handleTimerEvents 10000000 10000000 10000001,
    .handleTimerEvents 20000001 20000002 20000003, .cancelTimer 1 20000004]

/-- The distinct calls keep both timers accounted for. -/
theorem noTimerLost_distinctCalls :
    ∃ r : TimerRun Unit, (system Unit).ReachableBy NoCollision r ∧
      r.registered = [(1, true), (0, false)] ∧ r.NoTimerLost := by
  have hrun : ∃ r ∈ runFrom next NoCollision start distinctCalls,
      r.registered = [(1, true), (0, false)] := by decide +kernel
  obtain ⟨r, hreach, hreg⟩ := exists_of_runFrom hrun
  exact ⟨r, hreach, hreg, noTimerLost_of_noCollision hreach⟩

/-- Two one-shot timers of one interval, registered at one clock reading. -/
def collidingCalls : List (TimerCall Unit) :=
  [.registerTimer 10 (some ()) false 0 0, .registerTimer 10 (some ()) false 0 0]

/-- **A timer is lost.**  The second of two timers of one expiration is registered
under id 1 and nowhere to be found. -/
theorem timer_lost_collidingCalls :
    ∃ r : TimerRun Unit, (system Unit).Reachable r ∧ (1, false) ∈ r.registered ∧
      (1, false) ∉ r.present ∧ (1, false) ∉ r.cancelled ∧ (1, false) ∉ r.completed ∧
      ¬ r.NoTimerLost := by
  apply exists_of_runFrom
  show ∃ r ∈ runFrom next (fun _ _ => True) start collidingCalls, _
  decide +kernel

end TimerRun

end Muduo
