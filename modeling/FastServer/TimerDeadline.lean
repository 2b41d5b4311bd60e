/-
# When the timerfd goes off

The timerfd is kept armed for the earliest expiration by three operations that
set it at different occasions.  They set a relative value, and a timer already due
when the value is computed makes it zero, which disarms the timerfd instead.
-/
import FastServer.TimerLoss

namespace Muduo

open TransitionSystem

variable {γ : Type*}

namespace TimerState

variable {s : TimerState γ}

/-! ## Setting the timerfd -/

/-- Seconds and nanoseconds of a positive value add up to it. -/
theorem timerfd_settime_of_pos {now ns : ℤ} (h : 0 < ns) :
    timerfd_settime now ⟨ns.tdiv 1000000000, ns.tmod 1000000000⟩ = some (now + ns) := by
  have hsum : 1000000000 * ns.tdiv 1000000000 + ns.tmod 1000000000 = ns :=
    Int.mul_tdiv_add_tmod ns 1000000000
  have hne : ¬ (ns.tdiv 1000000000 = 0 ∧ ns.tmod 1000000000 = 0) := by
    rintro ⟨h1, h2⟩
    rw [h1, h2] at hsum
    omega
  unfold timerfd_settime
  rw [if_neg hne]
  show some (now + (ns.tdiv 1000000000 * 1000000000 + ns.tmod 1000000000)) = some (now + ns)
  rw [mul_comm, hsum]

/-- **A timer that is not due is armed for.** -/
theorem updateNextTimer_fd {t : TimerInfo γ} {ts : List (TimerInfo γ)} {now : ℤ}
    (hs : s.timers.elems = t :: ts) (hdue : now < t.expiration) (hnow : 0 ≤ now)
    (hlt : t.expiration < 2 ^ 63) : (s.updateNextTimer now).timer_fd = some t.expiration := by
  have hdur : toI64 (t.expiration - now) = t.expiration - now :=
    toI64_of_range (by omega) (by omega)
  unfold updateNextTimer
  rw [hs]
  dsimp only
  rw [hdur, if_neg (by omega), timerfd_settime_of_pos (by omega)]
  congr 1
  omega

/-! ## Armed for every timer -/

/-- The timerfd goes off no later than any timer expires, or than `clock` if the
timer is due by then; without timers it is disarmed. -/
def ArmedAt (s : TimerState γ) (clock : ℤ) : Prop :=
  (s.timers.elems = [] → s.timer_fd = none) ∧
    ∀ t ∈ s.timers.elems, ∃ d, s.timer_fd = some d ∧ d ≤ max clock t.expiration

/-- Expirations are `int64_t` counts. -/
def InRange (s : TimerState γ) : Prop := ∀ t ∈ s.timers.elems, t.expiration < 2 ^ 63

/-- Time may pass. -/
theorem ArmedAt.mono {clock clock' : ℤ} (h : s.ArmedAt clock) (hle : clock ≤ clock') :
    s.ArmedAt clock' := by
  refine ⟨h.1, fun t ht => ?_⟩
  obtain ⟨d, hd, hle'⟩ := h.2 t ht
  exact ⟨d, hd, le_trans hle' (max_le_max_right _ hle)⟩

/-- **`updateNextTimer` arms**, if no timer is due when it reads the clock. -/
theorem armedAt_updateNextTimer {now : ℤ} (clock : ℤ) (hnow : 0 ≤ now) (hrange : s.InRange)
    (hdue : ∀ t ∈ s.timers.elems, now < t.expiration) :
    (s.updateNextTimer now).ArmedAt clock := by
  cases hs : s.timers.elems with
  | nil =>
      have hfd : (s.updateNextTimer now).timer_fd = none := by
        unfold updateNextTimer
        rw [hs]
        rfl
      refine ⟨fun _ => hfd, fun t ht => ?_⟩
      rw [updateNextTimer_timers, hs] at ht
      exact absurd ht List.not_mem_nil
  | cons first ts =>
      have hmem : first ∈ s.timers.elems := by
        rw [hs]
        exact List.mem_cons_self
      have hfd := updateNextTimer_fd hs (hdue first hmem) hnow (hrange first hmem)
      refine ⟨fun hnil => ?_, fun t ht => ⟨_, hfd, ?_⟩⟩
      · rw [updateNextTimer_timers, hs] at hnil
        exact absurd hnil (List.cons_ne_nil _ _)
      · -- the set is sorted, so the first timer expires first
        have hsorted := s.timers.sorted
        rw [updateNextTimer_timers, hs] at ht
        rw [hs] at hsorted
        rcases List.mem_cons.mp ht with rfl | ht
        · exact le_max_right _ _
        · have hlt : first.expiration < t.expiration := (List.pairwise_cons.mp hsorted).1 t ht
          exact le_trans (le_of_lt hlt) (le_max_right _ _)

/-- **Cancelling the first timer** resets the timerfd for what is left. -/
theorem cancelTimer_first {timer_id now' : ℤ} {first : TimerInfo γ} {ts : List (TimerInfo γ)}
    (hs : s.timers.elems = first :: ts) (hid : first.id = timer_id) :
    (s.cancelTimer timer_id now').1
      = ({ s with timers := s.timers.eraseFirst (fun t => t.id = timer_id) } :
          TimerState γ).updateNextTimer now' := by
  have hidx : s.timers.elems.findIdx (fun t => t.id = timer_id) = 0 := by
    rw [hs, List.findIdx_cons]
    simp [hid]
  have hlen : ¬ 0 = s.timers.elems.length := by simp [hs]
  unfold cancelTimer
  simp only [hidx, if_neg hlen, decide_true, true_and]
  split_ifs with h1 h2
  · rfl
  · unfold updateNextTimer
    rw [show (s.timers.eraseFirst fun t => decide (t.id = timer_id)).elems = [] from h2]
  · exact absurd h2 h1

/-- **Cancelling another timer**, or none, leaves the first timer and the timerfd
alone. -/
theorem cancelTimer_not_first {timer_id : ℤ} (now' : ℤ) {first : TimerInfo γ}
    {ts : List (TimerInfo γ)} (hs : s.timers.elems = first :: ts) (hid : first.id ≠ timer_id) :
    (s.cancelTimer timer_id now').1.timer_fd = s.timer_fd ∧
      first ∈ (s.cancelTimer timer_id now').1.timers.elems ∧
      (s.cancelTimer timer_id now').1.timers.elems ⊆ s.timers.elems := by
  have hfirst : first ∈ s.timers.elems := by
    rw [hs]
    exact List.mem_cons_self
  have hidx : s.timers.elems.findIdx (fun t => t.id = timer_id) ≠ 0 := by
    rw [hs, List.findIdx_cons]
    simp [hid]
  have hkeep : first ∈ (s.timers.eraseFirst (fun t => t.id = timer_id)).elems := by
    show first ∈ s.timers.elems.eraseP _
    rw [List.mem_eraseP_of_neg (by simpa using hid)]
    exact hfirst
  unfold cancelTimer
  by_cases hlen : s.timers.elems.findIdx (fun t => t.id = timer_id) = s.timers.elems.length
  · simp only [if_pos hlen]
    exact ⟨trivial, hfirst, List.Subset.refl _⟩
  · simp only [if_neg hlen, hidx, decide_false, Bool.false_eq_true, false_and, if_false,
      if_neg (List.ne_nil_of_mem hkeep)]
    exact ⟨trivial, hkeep, (List.eraseP_sublist).subset⟩

/-- After reading an expiration `handleTimerEvents` resets the timerfd. -/
theorem handleTimerEvents_eq {readAt now now' : ℤ} (h : s.readable readAt) :
    (s.handleTimerEvents readAt now now').1
      = ({ s with
            timers := (((s.expiredTimers now).filter TimerInfo.recurring).map
                (TimerInfo.renew now)).foldl SortedSet.insert
              (s.timers.eraseWhile (fun t => t.expiration ≤ now))
            timer_fd := none } : TimerState γ).updateNextTimer now' := by
  unfold handleTimerEvents
  rw [if_pos h]
  dsimp only
  split_ifs with hne
  · rfl
  · unfold updateNextTimer
    rw [not_not.mp hne]

end TimerState

/-! ## The runs -/

namespace TimerRun

/-- No timer is due when the call computes the relative value for the first timer:
a registration that puts its timer first, a cancellation that brings up the second
timer, and a handling of events for all timers it leaves or renews. -/
def NotDue (r : TimerRun γ) : TimerCall γ → Prop
  | .registerTimer interval_ms callback _ now now' =>
      callback.isSome → 0 < interval_ms →
        (∃ t ∈ r.reactor.timers.elems, t.expiration < expirationAt now interval_ms) ∨
          now' < expirationAt now interval_ms
  | .cancelTimer timer_id now' =>
      ∀ first ∈ r.reactor.timers.elems[0]?, ∀ second ∈ r.reactor.timers.elems[1]?,
        first.id = timer_id → now' < second.expiration
  | .handleTimerEvents readAt now now' =>
      r.reactor.readable readAt →
        (∀ t ∈ r.reactor.timers.elems, now < t.expiration → now' < t.expiration) ∧
          ∀ t ∈ r.reactor.timers.elems, t.expiration ≤ now → t.recurring →
            now' < expirationAt now t.interval_ms

instance (r : TimerRun γ) : (call : TimerCall γ) → Decidable (r.NotDue call)
  | .registerTimer _ _ _ _ _ => inferInstanceAs (Decidable (_ → _ → _ ∨ _))
  | .cancelTimer timer_id now' =>
      inferInstanceAs (Decidable (∀ first ∈ r.reactor.timers.elems[0]?,
        ∀ second ∈ r.reactor.timers.elems[1]?, first.id = timer_id → now' < second.expiration))
  | .handleTimerEvents _ _ _ => inferInstanceAs (Decidable (_ → _ ∧ _))

/-- The deadline is right after the calls so far. -/
structure DeadlineRight (r : TimerRun γ) : Prop where
  armed : r.reactor.ArmedAt r.clock
  in_range : r.reactor.InRange
  clock_nonneg : 0 ≤ r.clock

variable {r r' : TimerRun γ}

theorem Readings.le {clock : ℤ} {readings : List ℤ} (h : Readings clock readings) :
    ∀ t ∈ readings, clock ≤ t :=
  (List.pairwise_cons.mp (List.isChain_iff_pairwise.mp h.1)).1

theorem deadlineRight_start : (start : TimerRun γ).DeadlineRight where
  armed := ⟨fun _ => rfl, fun _ ht => absurd ht List.not_mem_nil⟩
  in_range := fun _ ht => absurd ht List.not_mem_nil
  clock_nonneg := le_refl _

/-- **Registering keeps the deadline right.** -/
theorem DeadlineRight.registerTimer (h : r.DeadlineRight) {interval_ms : ℤ} {callback : Option γ}
    {recurring : Bool} {now now' : ℤ}
    (hok : r.NotDue (.registerTimer interval_ms callback recurring now now'))
    (hnext : r.next (.registerTimer interval_ms callback recurring now now') = some r') :
    r'.DeadlineRight := by
  obtain ⟨hread, rfl⟩ := next_registerTimer hnext
  have hclock : r.clock ≤ now' := hread.le now' (by simp)
  have hnow : 0 ≤ now' := le_trans h.clock_nonneg hclock
  by_cases hacc : callback.isSome ∧ 0 < interval_ms
  · obtain ⟨callback, rfl⟩ := Option.isSome_iff_exists.mp hacc.1
    have hcase := hok rfl hacc.2
    have hmem : ∀ t ∈ (r.reactor.timers.insert
        (r.reactor.newTimer interval_ms callback recurring now)).elems,
        t.expiration = expirationAt now interval_ms ∨ t ∈ r.reactor.timers.elems := by
      intro t ht
      rcases SortedSet.mem_of_mem_insertList ht with rfl | ht
      · exact Or.inl rfl
      · exact Or.inr ht
    have hrange : ∀ t ∈ (r.reactor.timers.insert
        (r.reactor.newTimer interval_ms callback recurring now)).elems, t.expiration < 2 ^ 63 := by
      intro t ht
      rcases hmem t ht with heq | ht
      · rw [heq]
        exact toI64_lt _
      · exact h.in_range t ht
    refine ⟨?_, ?_, hnow⟩
    · rw [TimerState.registerTimer_eq _ hacc.2]
      by_cases hfirst : ∀ t ∈ r.reactor.timers.elems, ¬ t.expiration < expirationAt now interval_ms
      · -- the new timer comes first and the timerfd is set for it
        simp only [if_pos hfirst]
        refine TimerState.armedAt_updateNextTimer _ hnow (fun t ht => hrange t ht) ?_
        intro t ht
        have hdue : now' < expirationAt now interval_ms := by
          rcases hcase with ⟨u, hu, hlt⟩ | hdue
          · exact absurd hlt (hfirst u hu)
          · exact hdue
        rcases hmem t ht with heq | ht
        · rw [heq]
          exact hdue
        · exact lt_of_lt_of_le hdue (not_lt.mp (hfirst t ht))
      · -- an earlier timer keeps the deadline
        simp only [if_neg hfirst]
        push Not at hfirst
        obtain ⟨u, hu, hlt⟩ := hfirst
        refine ⟨fun hnil => ?_, fun t ht => ?_⟩
        · have hu' : u ∈ SortedSet.insertList TimerInfo.lt
              (r.reactor.newTimer interval_ms callback recurring now) r.reactor.timers.elems :=
            SortedSet.mem_insertList_of_mem hu
          exact absurd hnil (List.ne_nil_of_mem hu')
        · rcases hmem t ht with heq | ht
          · obtain ⟨d, hd, hle⟩ := (h.armed.mono hclock).2 u hu
            refine ⟨d, hd, le_trans hle (max_le_max_left _ ?_)⟩
            rw [heq]
            exact le_of_lt hlt
          · exact (h.armed.mono hclock).2 t ht
    · show ∀ t ∈ _, _
      rw [TimerState.registerTimer_timers _ hacc.2]
      exact hrange
  · rw [TimerState.registerTimer_refused _ hacc]
    exact ⟨h.armed.mono hclock, h.in_range, hnow⟩

/-- **Cancelling keeps the deadline right.** -/
theorem DeadlineRight.cancelTimer (h : r.DeadlineRight) {timer_id now' : ℤ}
    (hok : r.NotDue (.cancelTimer timer_id now'))
    (hnext : r.next (.cancelTimer timer_id now') = some r') : r'.DeadlineRight := by
  obtain ⟨hread, rfl⟩ := next_cancelTimer hnext
  have hclock : r.clock ≤ now' := hread.le now' (by simp)
  have hnow : 0 ≤ now' := le_trans h.clock_nonneg hclock
  cases hs : r.reactor.timers.elems with
  | nil =>
      have hnone : r.reactor.timers.elems.find? (fun t => t.id = timer_id) = none := by
        rw [hs]
        rfl
      rw [TimerState.cancelTimer_of_find?_none hnone]
      exact ⟨h.armed.mono hclock, h.in_range, hnow⟩
  | cons first ts =>
      by_cases hid : first.id = timer_id
      · have herase : (r.reactor.timers.eraseFirst (fun t => t.id = timer_id)).elems = ts := by
          show r.reactor.timers.elems.eraseP _ = ts
          rw [hs]
          exact List.eraseP_cons_of_pos (by simpa using hid)
        have hsub : ∀ t ∈ ts, t ∈ r.reactor.timers.elems := by
          intro t ht
          rw [hs]
          exact List.mem_cons_of_mem _ ht
        rw [TimerState.cancelTimer_first hs hid]
        refine ⟨?_, ?_, hnow⟩
        · apply TimerState.armedAt_updateNextTimer _ hnow
          · intro t ht
            rw [herase] at ht
            exact h.in_range t (hsub t ht)
          · intro t ht
            rw [herase] at ht
            have hsorted := r.reactor.timers.sorted
            rw [hs] at hsorted
            cases ts with
            | nil => exact absurd ht List.not_mem_nil
            | cons second ts =>
                have hsecond : now' < second.expiration :=
                  hok first (by rw [hs]; rfl) second (by rw [hs]; rfl) hid
                rcases List.mem_cons.mp ht with rfl | ht
                · exact hsecond
                · have hlt : second.expiration < t.expiration :=
                    (List.pairwise_cons.mp (List.pairwise_cons.mp hsorted).2).1 t ht
                  exact lt_trans hsecond hlt
        · intro t ht
          rw [TimerState.updateNextTimer_timers, herase] at ht
          exact h.in_range t (hsub t ht)
      · obtain ⟨hfd, hfirst, hsub⟩ := TimerState.cancelTimer_not_first now' hs hid
        refine ⟨⟨fun hnil => absurd hnil (List.ne_nil_of_mem hfirst), fun t ht => ?_⟩, ?_, hnow⟩
        · rw [hfd]
          exact (h.armed.mono hclock).2 t (hsub ht)
        · exact fun t ht => h.in_range t (hsub ht)

/-- **Handling keeps the deadline right.** -/
theorem DeadlineRight.handleTimerEvents (h : r.DeadlineRight) {readAt now now' : ℤ}
    (hok : r.NotDue (.handleTimerEvents readAt now now'))
    (hnext : r.next (.handleTimerEvents readAt now now') = some r') : r'.DeadlineRight := by
  obtain ⟨hread, rfl⟩ := next_handleTimerEvents hnext
  have hclock : r.clock ≤ now' := hread.le now' (by simp)
  have hnow : 0 ≤ now' := le_trans h.clock_nonneg hclock
  by_cases hreadable : r.reactor.readable readAt
  · obtain ⟨hleft, hrenewed⟩ := hok hreadable
    rw [TimerState.handleTimerEvents_eq hreadable]
    -- what is left is not due, and what is renewed is not due again
    have hmem : ∀ t ∈ ((((r.reactor.expiredTimers now).filter TimerInfo.recurring).map
        (TimerInfo.renew now)).foldl SortedSet.insert
          (r.reactor.timers.eraseWhile (fun t => t.expiration ≤ now))).elems,
        now' < t.expiration ∧ t.expiration < 2 ^ 63 := by
      intro t ht
      rcases SortedSet.mem_of_mem_foldl_insert ht with ht | ht
      · obtain ⟨u, hu, rfl⟩ := List.mem_map.mp ht
        obtain ⟨hexp, hrec⟩ := List.mem_filter.mp hu
        obtain ⟨hin, hle⟩ := TimerState.mem_expiredTimers hexp
        exact ⟨hrenewed u hin hle hrec, toI64_lt _⟩
      · obtain ⟨hin, hlt⟩ := TimerState.mem_rest ht
        exact ⟨hleft t hin hlt, h.in_range t hin⟩
    refine ⟨?_, ?_, hnow⟩
    · exact TimerState.armedAt_updateNextTimer _ hnow (fun t ht => (hmem t ht).2)
        (fun t ht => (hmem t ht).1)
    · intro t ht
      rw [TimerState.updateNextTimer_timers] at ht
      exact (hmem t ht).2
  · rw [TimerState.handleTimerEvents_unreadable hreadable]
    exact ⟨h.armed.mono hclock, h.in_range, hnow⟩

/-- **The deadline is right as long as no timer is due when it is computed.**  In
every run whose calls meet the condition, after each call the timerfd goes off no
later than the earliest expiration, or the current time, and is disarmed if there
are no timers. -/
theorem armedAt_of_notDue {r : TimerRun γ} (h : (system γ).ReachableBy NotDue r) :
    r.reactor.ArmedAt r.clock := by
  have hright : r.DeadlineRight := by
    apply h.invariant
    · rintro r rfl
      exact deadlineRight_start
    · intro r call r' hr hok hnext
      cases call with
      | registerTimer => exact hr.registerTimer hok hnext
      | cancelTimer => exact hr.cancelTimer hok hnext
      | handleTimerEvents => exact hr.handleTimerEvents hok hnext
  exact hright.armed

/-- The distinct calls meet the condition. -/
theorem armedAt_distinctCalls :
    ∃ r : TimerRun Unit, (system Unit).ReachableBy NotDue r ∧
      r.registered = [(1, true), (0, false)] ∧ r.reactor.ArmedAt r.clock := by
  have hrun : ∃ r ∈ runFrom next NotDue start distinctCalls,
      r.registered = [(1, true), (0, false)] := by decide +kernel
  obtain ⟨r, hreach, hreg⟩ := exists_of_runFrom hrun
  exact ⟨r, hreach, hreg, armedAt_of_notDue hreach⟩

/-- Timers of 10 and 20 ms; at 20 ms, before the reactor handles the expiration of
the first, it is cancelled. -/
def lateCancelCalls : List (TimerCall Unit) :=
  [.registerTimer 10 (some ()) false 0 0, .registerTimer 20 (some ()) false 0 0,
    .cancelTimer 0 20000000]

/-- **A deadline is dropped.**  The second timer is in the set and due, and the
timerfd is disarmed. -/
theorem disarmed_lateCancelCalls :
    ∃ r : TimerRun Unit, (system Unit).Reachable r ∧ r.present = [(1, false)] ∧
      r.reactor.timer_fd = none ∧ ¬ r.reactor.ArmedAt r.clock := by
  have hrun : ∃ r ∈ runFrom next (fun _ _ => True) start lateCancelCalls,
      r.present = [(1, false)] ∧ r.reactor.timer_fd = none := by decide +kernel
  obtain ⟨r, hreach, hpresent, hfd⟩ := exists_of_runFrom hrun
  refine ⟨r, hreach, hpresent, hfd, ?_⟩
  rintro ⟨-, harmed⟩
  obtain ⟨t, ht, -⟩ : ∃ t ∈ r.reactor.timers.elems, t.key = (1, false) := by
    apply List.mem_map.mp
    show (1, false) ∈ r.present
    rw [hpresent]
    exact List.mem_singleton_self _
  obtain ⟨d, hd, -⟩ := harmed t ht
  rw [hfd] at hd
  exact absurd hd (by simp)

end TimerRun

end Muduo
