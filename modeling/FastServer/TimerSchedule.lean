/-
# No timer too early and none too often

An expiration is the time of the registration, or the time a batch was collected, plus
the interval, and `handleTimerEvents` collects what has expired.  As long as that sum
is in the range of the clock, a one-shot timer fires once and not before its time, and
a recurring one not before its interval has passed again.
-/
import FastServer.TimerCallbacks
import FastServer.TimerDeadline

namespace Muduo

open TransitionSystem

variable {γ : Type*}

/-- Two callbacks that one call starts run in the order of their expirations. -/
def TimerEvent.InOrder : TimerEvent → TimerEvent → Prop
  | .started _ call _ expiration, .started _ call' _ expiration' =>
      call = call' → expiration ≤ expiration'
  | _, _ => True

namespace TimerDispatch

variable {r r' : TimerDispatch γ}

/-- No timer has fired early or too often: a one-shot timer has fired at most once, none
before its interval had passed since its registration, and no two firings of one are
closer than its interval; the callbacks of one call run in the order of their
expirations; and a call of `handleTimerEvents` neither runs nor removes a timer that has
not expired. -/
structure OnSchedule (r : TimerDispatch γ) : Prop where
  once : ∀ k reg, r.registrations[k]? = some reg → reg.recurring = false →
    (firings r.events k).length ≤ 1
  due : ∀ k, ∀ now ∈ firings r.events k,
    ∃ reg ∈ r.registrations[k]?, reg.time + reg.interval ≤ now
  apart : ∀ k reg, r.registrations[k]? = some reg →
    (firings r.events k).Pairwise fun now now' => now + reg.interval ≤ now'
  inOrder : r.events.Pairwise TimerEvent.InOrder
  unexpired : ∀ readAt now now' r', r.next (.handleTimerEvents readAt now now') = some r' →
    ∀ t ∈ r.reactor.timers.elems, now < t.expiration →
      t ∈ r'.reactor.timers.elems ∧ t ∉ r'.batch

/-- The expirations that the step computes are in the range of the clock. -/
def InRange (r : TimerDispatch γ) : TimerStep γ → Prop
  | .registerTimer interval_ms callback _ now _ =>
      callback.isSome → 0 < interval_ms → now + interval_ms * 1000000 < 2 ^ 63
  | .handleTimerEvents readAt now _ =>
      r.reactor.readable readAt → ∀ t ∈ r.reactor.expiredTimers now, t.recurring = true →
        now + t.interval_ms * 1000000 < 2 ^ 63
  | _ => True

instance (r : TimerDispatch γ) : DecidablePred r.InRange
  | .registerTimer interval_ms callback _ now _ =>
      inferInstanceAs (Decidable (callback.isSome → 0 < interval_ms →
        now + interval_ms * 1000000 < 2 ^ 63))
  | .cancelTimer _ _ => .isTrue trivial
  | .handleTimerEvents _ _ _ => inferInstanceAs (Decidable (_ → _))
  | .callback => .isTrue trivial

/-- In range, the sum is the expiration. -/
theorem expirationAt_eq {now interval_ms : ℤ} (hnow : 0 ≤ now) (hpos : 0 < interval_ms)
    (h : now + interval_ms * 1000000 < 2 ^ 63) :
    expirationAt now interval_ms = now + interval_ms * 1000000 := by
  unfold expirationAt
  rw [toI64_of_range (z := interval_ms * 1000000) (by omega) (by omega),
    toI64_of_range (by omega) (by omega)]

/-- What keeps the timers on schedule.  A timer expires no earlier than its interval after
its registration and after each of its firings, the one to come included; the batch is
sorted, and what it still holds comes after what the call has started. -/
structure Timed (r : TimerDispatch γ) : Prop where
  tracked : r.Tracked
  clock : 0 ≤ r.clock
  earliest : ∀ t ∈ r.reactor.timers.elems ++ r.batch, ∀ reg,
    r.registrations[t.number]? = some reg → reg.time + reg.interval ≤ t.expiration ∧
      ∀ now ∈ firings r.events t.number, now + reg.interval ≤ t.expiration
  renewed : ∀ t ∈ r.reactor.timers.elems, ∀ b ∈ r.batch, b.number = t.number →
    r.captured + t.interval_ms * 1000000 ≤ t.expiration
  expired : ∀ b ∈ r.batch, b.expiration ≤ r.captured
  sorted : r.batch.Pairwise fun b b' => b.expiration ≤ b'.expiration
  calls : ∀ k call now expiration, .started k call now expiration ∈ r.events →
    call ≤ r.calls ∧ (call = r.calls → ∀ b ∈ r.batch, expiration ≤ b.expiration)
  once : ∀ k reg, r.registrations[k]? = some reg → reg.recurring = false →
    (firings r.events k).length ≤ 1
  due : ∀ k, ∀ now ∈ firings r.events k,
    ∃ reg ∈ r.registrations[k]?, reg.time + reg.interval ≤ now
  apart : ∀ k reg, r.registrations[k]? = some reg →
    (firings r.events k).Pairwise fun now now' => now + reg.interval ≤ now'
  inOrder : r.events.Pairwise TimerEvent.InOrder

theorem timed_start : (start : TimerDispatch γ).Timed where
  tracked := tracked_start
  clock := le_refl 0
  earliest := fun _ ht => absurd ht List.not_mem_nil
  renewed := fun _ ht => absurd ht List.not_mem_nil
  expired := fun _ hb => absurd hb List.not_mem_nil
  sorted := List.Pairwise.nil
  calls := fun _ _ _ _ h => absurd h List.not_mem_nil
  once := fun k reg h => absurd h (by simp [start])
  due := fun _ _ h => absurd h List.not_mem_nil
  apart := fun _ _ _ => List.Pairwise.nil
  inOrder := List.Pairwise.nil

/-- The interval of a timer is that of its registration. -/
theorem Of.interval_eq {reg : Registration} {t : TimerInfo (ℕ × γ)} (h : Of reg t) :
    reg.interval = t.interval_ms * 1000000 := by
  unfold Registration.interval
  rw [h.interval_ms]

namespace Timed

theorem registerTimer (h : r.Timed) {interval_ms : ℤ} {callback : Option γ} {recurring : Bool}
    {now now' : ℤ} (hok : r.InRange (.registerTimer interval_ms callback recurring now now'))
    (hstep : r.next (.registerTimer interval_ms callback recurring now now') = some r') :
    r'.Timed := by
  have htracked := h.tracked.registerTimer hstep
  obtain ⟨hread, ⟨-, rfl⟩ | ⟨f, reactor, rfl, hpos, htimers, rfl⟩⟩ := next_registerTimer hstep
  · have hclock : r.clock ≤ now' := hread.le _ (by simp)
    exact ⟨htracked, h.clock.trans hclock, h.earliest, h.renewed, h.expired, h.sorted, h.calls,
      h.once, h.due, h.apart, h.inOrder⟩
  have hnow : 0 ≤ now := h.clock.trans (hread.le _ (by simp))
  have hclock : 0 ≤ now' := h.clock.trans (hread.le _ (by simp))
  have hexpiration := expirationAt_eq hnow hpos (hok rfl hpos)
  let timer := r.reactor.newTimer interval_ms (r.registrations.length, f) recurring now
  have hmem : ∀ t ∈ reactor.timers.elems, t = timer ∨ t ∈ r.reactor.timers.elems := by
    intro t ht
    rw [htimers] at ht
    exact SortedSet.mem_of_mem_insertList ht
  -- nothing is on record for the new number
  have hnew := h.tracked.recorded r.registrations.length (le_refl _)
  refine ⟨htracked, hclock, ?_, ?_, h.expired, h.sorted, h.calls, ?_, ?_, ?_, h.inOrder⟩
  · intro t ht reg hreg
    have hold : t ∈ r.reactor.timers.elems ++ r.batch → reg.time + reg.interval ≤ t.expiration ∧
        ∀ now ∈ firings r.events t.number, now + reg.interval ≤ t.expiration := by
      intro ht
      have hlt := h.tracked.number_lt ht
      exact h.earliest t ht reg ((List.getElem?_append_left hlt).symm.trans hreg)
    rcases List.mem_append.mp ht with ht | ht
    · rcases hmem t ht with rfl | ht
      · rw [show timer.number = r.registrations.length from rfl] at hreg ⊢
        rw [List.getElem?_concat_length] at hreg
        obtain rfl := Option.some.inj hreg
        refine ⟨le_of_eq hexpiration.symm, ?_⟩
        intro now hfired
        rw [show firings r.events r.registrations.length = [] from hnew.1] at hfired
        exact absurd hfired List.not_mem_nil
      · exact hold (List.mem_append_left _ ht)
    · exact hold (List.mem_append_right _ ht)
  · intro t ht b hb hsame
    rcases hmem t ht with rfl | ht
    · have hlt := h.tracked.number_lt (List.mem_append_right _ hb)
      rw [hsame] at hlt
      exact absurd hlt (lt_irrefl _)
    · exact h.renewed t ht b hb hsame
  · intro k reg hreg hone
    rcases record_cases hreg with hold | ⟨rfl, -⟩
    · exact h.once k reg hold hone
    · rw [show firings r.events r.registrations.length = [] from hnew.1]
      exact Nat.zero_le 1
  · intro k now hfired
    obtain ⟨reg, hreg, hdue⟩ := h.due k now hfired
    have hlt := (List.getElem?_eq_some_iff.mp hreg).1
    exact ⟨reg, (List.getElem?_append_left hlt).trans hreg, hdue⟩
  · intro k reg hreg
    rcases record_cases hreg with hold | ⟨rfl, -⟩
    · exact h.apart k reg hold
    · rw [show firings r.events r.registrations.length = [] from hnew.1]
      exact List.Pairwise.nil

theorem cancelTimer (h : r.Timed) {timer_id now' : ℤ}
    (hstep : r.next (.cancelTimer timer_id now') = some r') : r'.Timed := by
  have htracked := h.tracked.cancelTimer hstep
  obtain ⟨hread, reactor, htimers, rfl⟩ := next_cancelTimer hstep
  have hclock : r.clock ≤ now' := hread.le _ (by simp)
  have hmem : ∀ t ∈ reactor.timers.elems, t ∈ r.reactor.timers.elems := by
    intro t ht
    rw [htimers] at ht
    exact List.mem_of_mem_eraseP ht
  have hfirings : ∀ k, firings (r.events ++ (r.liveWith timer_id).map fun k =>
      .cancelled k (decide (∃ t ∈ r.reactor.timers.elems, t.id = timer_id))) k
        = firings r.events k := by
    intro k
    rw [firings_append, firings_cancelled, List.append_nil]
  refine ⟨htracked, h.clock.trans hclock, ?_, ?_, h.expired, h.sorted, ?_, ?_, ?_, ?_, ?_⟩
  · intro t ht reg hreg
    simp only [hfirings]
    apply h.earliest t _ reg hreg
    rcases List.mem_append.mp ht with ht | ht
    · exact List.mem_append_left _ (hmem t ht)
    · exact List.mem_append_right _ ht
  · intro t ht
    exact h.renewed t (hmem t ht)
  · intro k call now expiration hevent
    rcases List.mem_append.mp hevent with hevent | hevent
    · exact h.calls k call now expiration hevent
    · obtain ⟨k', -, hk'⟩ := List.mem_map.mp hevent
      exact absurd hk' (by simp)
  · intro k reg hreg hone
    rw [hfirings]
    exact h.once k reg hreg hone
  · intro k
    rw [hfirings]
    exact h.due k
  · intro k reg hreg
    rw [hfirings]
    exact h.apart k reg hreg
  · refine List.pairwise_append.mpr ⟨h.inOrder, ?_, ?_⟩
    · exact List.pairwise_map.mpr (List.pairwise_of_forall fun _ _ => trivial)
    · intro e _ e' he'
      obtain ⟨k, -, rfl⟩ := List.mem_map.mp he'
      cases e <;> trivial

theorem handleTimerEvents (h : r.Timed) {readAt now now' : ℤ}
    (hok : r.InRange (.handleTimerEvents readAt now now'))
    (hstep : r.next (.handleTimerEvents readAt now now') = some r') : r'.Timed := by
  have htracked := h.tracked.handleTimerEvents hstep
  obtain ⟨hread, hbatch, ⟨-, rfl⟩ | ⟨hreadable, reactor, htimers, rfl⟩⟩ :=
    next_handleTimerEvents hstep
  · have hclock : r.clock ≤ now' := hread.le _ (by simp)
    refine ⟨htracked, h.clock.trans hclock, h.earliest, ?_, ?_, h.sorted, ?_, h.once, h.due,
      h.apart, h.inOrder⟩
    · intro t _ b hb
      have hb : b ∈ r.batch := hb
      rw [hbatch] at hb
      exact absurd hb List.not_mem_nil
    · intro b hb
      have hb : b ∈ r.batch := hb
      rw [hbatch] at hb
      exact absurd hb List.not_mem_nil
    · intro k call now expiration hevent
      have hcall := (h.calls k call now expiration hevent).1
      exact ⟨hcall.trans (Nat.le_succ _), fun heq => absurd heq (by
        show call ≠ r.calls + 1
        omega)⟩
  have hnow : 0 ≤ now := h.clock.trans (hread.le _ (by simp))
  have hclock : 0 ≤ now' := h.clock.trans (hread.le _ (by simp))
  let expired := r.reactor.expiredTimers now
  let rest := r.reactor.timers.eraseWhile (fun t => t.expiration ≤ now)
  have helems := Tracked.elems_eq r now
  have hwas : ∀ t ∈ expired, t ∈ r.reactor.timers.elems ++ r.batch := fun t ht =>
    List.mem_append_left _ (TimerState.mem_expiredTimers ht).1
  -- a timer in `timers_` is a renewed one or one that has not expired
  have hmem : ∀ t ∈ reactor.timers.elems,
      (∃ t₀ ∈ expired, t₀.recurring = true ∧ t = t₀.renew now) ∨ t ∈ rest.elems := by
    intro t ht
    rw [htimers] at ht
    rcases SortedSet.mem_of_mem_foldl_insert ht with ht | ht
    · obtain ⟨t₀, ht₀, rfl⟩ := List.mem_map.mp ht
      obtain ⟨ht₀, hrecurring⟩ := List.mem_filter.mp ht₀
      exact Or.inl ⟨t₀, ht₀, hrecurring, rfl⟩
    · exact Or.inr ht
  have hrenew : ∀ t₀ ∈ expired, t₀.recurring = true →
      (t₀.renew now).expiration = now + t₀.interval_ms * 1000000 ∧ 0 < t₀.interval_ms := by
    intro t₀ ht₀ hrecurring
    obtain ⟨reg, -, hof⟩ := h.tracked.known t₀ (hwas t₀ ht₀)
    have hpos : 0 < t₀.interval_ms := hof.interval_ms ▸ hof.positive
    exact ⟨expirationAt_eq hnow hpos (hok hreadable t₀ ht₀ hrecurring), hpos⟩
  refine ⟨htracked, hclock, ?_, ?_, ?_, ?_, ?_, h.once, h.due, h.apart, h.inOrder⟩
  · intro t ht reg hreg
    rcases List.mem_append.mp ht with ht | ht
    · rcases hmem t ht with ⟨t₀, ht₀, hrecurring, rfl⟩ | ht
      · obtain ⟨hexpiration, hpos⟩ := hrenew t₀ ht₀ hrecurring
        obtain ⟨hreg₀, hfired₀⟩ := h.earliest t₀ (hwas t₀ ht₀) reg hreg
        have hdue := (TimerState.mem_expiredTimers ht₀).2
        rw [hexpiration]
        refine ⟨by omega, ?_⟩
        intro now₀ hnow₀
        have hlast := hfired₀ now₀ hnow₀
        omega
      · exact h.earliest t (List.mem_append_left _ (TimerState.mem_rest ht).1) reg hreg
    · exact h.earliest t (hwas t ht) reg hreg
  · intro t ht b hb hsame
    rcases hmem t ht with ⟨t₀, ht₀, hrecurring, rfl⟩ | ht
    · exact le_of_eq (hrenew t₀ ht₀ hrecurring).1.symm
    · have hdistinct := h.tracked.waiting
      rw [hbatch, List.filter_nil, List.append_nil, helems, List.map_append,
        List.nodup_append] at hdistinct
      exact absurd hsame (hdistinct.2.2 _ (List.mem_map_of_mem hb) _ (List.mem_map_of_mem ht))
  · intro b hb
    exact (TimerState.mem_expiredTimers hb).2
  · have hsorted := r.reactor.timers.sorted
    have hsub : List.Sublist expired r.reactor.timers.elems := List.takeWhile_sublist _
    exact (hsorted.sublist hsub).imp fun hlt => le_of_lt hlt
  · intro k call now₀ expiration hevent
    have hcall := (h.calls k call now₀ expiration hevent).1
    exact ⟨hcall.trans (Nat.le_succ _), fun heq => absurd heq (by
      show call ≠ r.calls + 1
      omega)⟩

/-- The next firing of a timer that is started is that of the renewed one. -/
theorem captured_le (h : r.Timed) {timer t : TimerInfo (ℕ × γ)} {rest : List (TimerInfo (ℕ × γ))}
    (hbatch : r.batch = timer :: rest) (ht : t ∈ r.reactor.timers.elems ++ rest)
    (hnumber : t.number = timer.number) {reg : Registration}
    (hreg : r.registrations[t.number]? = some reg) :
    r.captured + reg.interval ≤ t.expiration := by
  rcases List.mem_append.mp ht with ht | ht
  · obtain ⟨reg', hreg', hof⟩ := h.tracked.known t (List.mem_append_left _ ht)
    obtain rfl : reg' = reg := Option.some.inj (hreg'.symm.trans hreg)
    rw [hof.interval_eq]
    exact h.renewed t ht timer (hbatch ▸ List.mem_cons_self) hnumber.symm
  · have hdistinct := h.tracked.batch
    rw [hbatch, List.map_cons, List.nodup_cons] at hdistinct
    exact absurd (List.mem_map.mpr ⟨t, ht, hnumber⟩) hdistinct.1

theorem callback (h : r.Timed) (hstep : r.next .callback = some r') : r'.Timed := by
  have htracked := h.tracked.callback hstep
  obtain ⟨timer, rest, hbatch, rfl⟩ := next_callback hstep
  have htimer : timer ∈ r.batch := hbatch ▸ List.mem_cons_self
  have hrest : ∀ b ∈ rest, b ∈ r.batch := fun b hb => hbatch ▸ List.mem_cons_of_mem _ hb
  have hwas : timer ∈ r.reactor.timers.elems ++ r.batch := List.mem_append_right _ htimer
  have hexpired := h.expired timer htimer
  have hsorted := h.sorted
  rw [hbatch, List.pairwise_cons] at hsorted
  obtain ⟨reg₀, hreg₀, hof⟩ := h.tracked.known timer hwas
  obtain ⟨htime, hlast⟩ := h.earliest timer hwas reg₀ hreg₀
  have hself : firings (r.events ++
      [.started timer.number r.calls r.captured timer.expiration]) timer.number
        = firings r.events timer.number ++ [r.captured] := by
    rw [firings_append, firings_started_self]
  have hother : ∀ k, k ≠ timer.number → firings (r.events ++
      [.started timer.number r.calls r.captured timer.expiration]) k = firings r.events k := by
    intro k hk
    rw [firings_append, firings_started_of_ne hk.symm, List.append_nil]
  refine ⟨htracked, h.clock, ?_, ?_, ?_, hsorted.2, ?_, ?_, ?_, ?_, ?_⟩
  · intro t ht reg hreg
    have hbefore : t ∈ r.reactor.timers.elems ++ r.batch := by
      rcases List.mem_append.mp ht with ht | ht
      · exact List.mem_append_left _ ht
      · exact List.mem_append_right _ (hrest t ht)
    obtain ⟨hreg', hfired⟩ := h.earliest t hbefore reg hreg
    refine ⟨hreg', ?_⟩
    by_cases hk : t.number = timer.number
    · have hnext := h.captured_le hbatch ht hk hreg
      rw [hk] at hfired ⊢
      rw [hself]
      intro now hnow
      rcases List.mem_append.mp hnow with hnow | hnow
      · exact hfired now hnow
      · obtain rfl := List.mem_singleton.mp hnow
        exact hnext
    · rw [hother _ hk]
      exact hfired
  · intro t ht b hb
    exact h.renewed t ht b (hrest b hb)
  · intro b hb
    exact h.expired b (hrest b hb)
  · intro k call now expiration hevent
    rcases List.mem_append.mp hevent with hevent | hevent
    · obtain ⟨hcall, hafter⟩ := h.calls k call now expiration hevent
      exact ⟨hcall, fun heq b hb => hafter heq b (hrest b hb)⟩
    · obtain ⟨rfl, rfl, rfl, rfl⟩ := TimerEvent.started.inj (List.mem_singleton.mp hevent)
      exact ⟨le_refl _, fun _ b hb => hsorted.1 b hb⟩
  · intro k reg hreg hone
    by_cases hk : k = timer.number
    · subst hk
      obtain rfl : reg₀ = reg := Option.some.inj (hreg₀.symm.trans hreg)
      have hspent := h.tracked.spent timer hwas (hof.recurring ▸ hone)
      rw [hself, hspent]
      exact le_refl 1
    · rw [hother k hk]
      exact h.once k reg hreg hone
  · intro k now hnow
    by_cases hk : k = timer.number
    · subst hk
      rw [hself] at hnow
      rcases List.mem_append.mp hnow with hnow | hnow
      · exact h.due _ now hnow
      · obtain rfl := List.mem_singleton.mp hnow
        exact ⟨reg₀, hreg₀, htime.trans hexpired⟩
    · rw [hother k hk] at hnow
      exact h.due k now hnow
  · intro k reg hreg
    by_cases hk : k = timer.number
    · subst hk
      obtain rfl : reg₀ = reg := Option.some.inj (hreg₀.symm.trans hreg)
      rw [hself]
      refine List.pairwise_append.mpr ⟨h.apart _ reg₀ hreg, List.pairwise_singleton _ _, ?_⟩
      intro now hnow now' hnow'
      obtain rfl := List.mem_singleton.mp hnow'
      exact (hlast now hnow).trans hexpired
    · rw [hother k hk]
      exact h.apart k reg hreg
  · refine List.pairwise_append.mpr ⟨h.inOrder, List.pairwise_singleton _ _, ?_⟩
    intro e he e' he'
    obtain rfl := List.mem_singleton.mp he'
    cases e with
    | started k call now expiration =>
      intro heq
      exact (h.calls k call now expiration he).2 heq timer htimer
    | cancelled => trivial

/-- Every step in range keeps the timers on schedule. -/
theorem next (h : r.Timed) {step : TimerStep γ} (hok : r.InRange step)
    (hstep : r.next step = some r') : r'.Timed := by
  cases step with
  | registerTimer => exact h.registerTimer hok hstep
  | cancelTimer => exact h.cancelTimer hstep
  | handleTimerEvents => exact h.handleTimerEvents hok hstep
  | callback => exact h.callback hstep

end Timed

/-- A timer that has not expired stays. -/
theorem unexpired_handleTimerEvents {readAt now now' : ℤ}
    (hstep : r.next (.handleTimerEvents readAt now now') = some r') {t : TimerInfo (ℕ × γ)}
    (ht : t ∈ r.reactor.timers.elems) (hlate : now < t.expiration) :
    t ∈ r'.reactor.timers.elems ∧ t ∉ r'.batch := by
  obtain ⟨-, hbatch, ⟨-, rfl⟩ | ⟨-, reactor, htimers, rfl⟩⟩ := next_handleTimerEvents hstep
  · refine ⟨ht, ?_⟩
    intro hmem
    have hmem : t ∈ r.batch := hmem
    rw [hbatch] at hmem
    exact absurd hmem List.not_mem_nil
  · refine ⟨?_, ?_⟩
    · show t ∈ reactor.timers.elems
      rw [htimers]
      apply SortedSet.mem_foldl_insert_of_mem
      apply SortedSet.mem_eraseWhile_of_mem ht
      simpa using hlate
    · intro hmem
      have hdue := (TimerState.mem_expiredTimers hmem).2
      omega

/-- **No timer fires early or too often** in a run whose expirations are in range. -/
theorem onSchedule_of_inRange (h : (system γ).ReachableBy InRange r) : r.OnSchedule := by
  have htimed : r.Timed := by
    apply h.invariant
    · rintro s rfl
      exact timed_start
    · intro s step s' hs hok hstep
      exact hs.next hok hstep
  refine ⟨htimed.once, htimed.due, htimed.apart, htimed.inOrder, ?_⟩
  intro readAt now now' r' hstep t ht hlate
  exact unexpired_handleTimerEvents hstep ht hlate

/-- A one-shot timer of 10 ms and a recurring one of 20 ms.  A callback between them
cancels nothing; the recurring one fires at 20 and at 45 ms. -/
def twoTimers : List (TimerStep Unit) :=
  [.registerTimer 10 (some ()) false 0 0, .registerTimer 20 (some ()) true 0 0,
    .handleTimerEvents 10000000 10000000 10000000, .callback, .cancelTimer 0 10000000,
    .handleTimerEvents 20000000 20000000 20000000, .callback,
    .handleTimerEvents 45000000 45000000 45000000, .callback]

/-- The firings of the two timers. -/
theorem onSchedule_twoTimers :
    ∃ r, (system Unit).ReachableBy InRange r ∧ firings r.events 0 = [10000000] ∧
      firings r.events 1 = [20000000, 45000000] ∧ r.OnSchedule := by
  have hrun : ∃ r ∈ runFrom next InRange start twoTimers,
      firings r.events 0 = [10000000] ∧ firings r.events 1 = [20000000, 45000000] := by
    decide +kernel
  obtain ⟨r, hreach, hone, hrecurring⟩ := exists_of_runFrom hrun
  exact ⟨r, hreach, hone, hrecurring, onSchedule_of_inRange hreach⟩

/-- A timer of 18446744073710 ms, which is 584 years: its interval in nanoseconds wraps
around to 448384. -/
def longInterval : List (TimerStep Unit) :=
  [.registerTimer 18446744073710 (some ()) false 0 0,
    .handleTimerEvents 448384 448384 448384, .callback]

/-- **A timer fires 584 years early.** -/
theorem not_onSchedule_longInterval :
    ∃ r, (system Unit).Reachable r ∧ firings r.events 0 = [448384] ∧ ¬ r.OnSchedule := by
  have hrun : ∃ r ∈ runFrom next (fun _ _ => True) start longInterval,
      firings r.events 0 = [448384] ∧
        r.registrations = [⟨0, 18446744073710, false, 0⟩] := by decide +kernel
  obtain ⟨r, hreach, hfired, hregistered⟩ := exists_of_runFrom hrun
  refine ⟨r, hreach, hfired, ?_⟩
  intro honSchedule
  obtain ⟨reg, hreg, hdue⟩ := honSchedule.due 0 448384 (by rw [hfired]; exact List.mem_cons_self)
  rw [hregistered] at hreg
  obtain rfl := Option.some.inj hreg
  exact absurd hdue (by decide)

end TimerDispatch

end Muduo
