/-
# Cancelling from inside a callback

`cancelTimer` looks for its timer in `timers_`, and a timer whose callback is still to
run in the batch of `handleTimerEvents` is not there any more, or only its next firing
is.  As long as the timer that is cancelled does not wait in the batch, its callback is
not started again.
-/
import FastServer.TimerCallbacks

namespace Muduo

open TransitionSystem

variable {γ : Type*}

/-- A cancelled timer is not started later. -/
def TimerEvent.Silences : TimerEvent → TimerEvent → Prop
  | .cancelled k _, .started k' _ _ _ => k ≠ k'
  | _, _ => True

/-- The renewed timers of a call get expirations different from each other and from those
of the timers that have not expired. -/
def TimerState.RenewsApart (s : TimerState γ) (now : ℤ) : Prop :=
  ((s.expiredTimers now).filter TimerInfo.recurring).Pairwise
      (fun t u => expirationAt now t.interval_ms ≠ expirationAt now u.interval_ms) ∧
    ∀ t ∈ (s.expiredTimers now).filter TimerInfo.recurring, ∀ u ∈ s.timers.elems,
      now < u.expiration → expirationAt now t.interval_ms ≠ u.expiration

instance (s : TimerState γ) (now : ℤ) : Decidable (s.RenewsApart now) :=
  inferInstanceAs (Decidable (_ ∧ _))

namespace TimerDispatch

variable {r r' : TimerDispatch γ}

/-- `cancelTimer` returned `true` for every timer that was live, and none was started
after it. -/
structure Obeyed (r : TimerDispatch γ) : Prop where
  answered : ∀ k answer, .cancelled k answer ∈ r.events → answer = true
  silent : r.events.Pairwise TimerEvent.Silences

/-- The timer that is cancelled does not wait in the batch.  No insertion meets a timer
of its expiration, and no live timer has the id that a registration is given. -/
def Undisturbed (r : TimerDispatch γ) : TimerStep γ → Prop
  | .registerTimer interval_ms callback _ now _ =>
      callback.isSome → 0 < interval_ms →
        (∀ t ∈ r.reactor.timers.elems, t.expiration ≠ expirationAt now interval_ms) ∧
          r.liveWith r.reactor.next_timer_id = []
  | .cancelTimer timer_id _ => ∀ t ∈ r.batch, t.id ≠ timer_id
  | .handleTimerEvents readAt now _ =>
      r.reactor.readable readAt → r.reactor.RenewsApart now
  | .callback => True

instance (r : TimerDispatch γ) : DecidablePred r.Undisturbed
  | .registerTimer interval_ms callback _ now _ =>
      inferInstanceAs (Decidable (callback.isSome → 0 < interval_ms →
        (∀ t ∈ r.reactor.timers.elems, t.expiration ≠ expirationAt now interval_ms) ∧
          r.liveWith r.reactor.next_timer_id = []))
  | .cancelTimer timer_id _ => inferInstanceAs (Decidable (∀ t ∈ r.batch, t.id ≠ timer_id))
  | .handleTimerEvents _ _ _ => inferInstanceAs (Decidable (_ → _))
  | .callback => .isTrue trivial

/-! ## Live timers -/

/-- The live timers of an id. -/
theorem mem_liveWith {k : ℕ} {timer_id : ℤ} :
    k ∈ r.liveWith timer_id ↔
      r.Live k ∧ (r.registrations[k]?).map Registration.id = some timer_id := by
  unfold liveWith
  rw [List.mem_filter, List.mem_range, decide_eq_true_eq]
  constructor
  · exact And.right
  · rintro ⟨⟨reg, hreg, hlive⟩, hid⟩
    exact ⟨(List.getElem?_eq_some_iff.mp hreg).1, ⟨reg, hreg, hlive⟩, hid⟩

/-- Every live timer can be cancelled: it stands in `timers_`, or it is a one-shot timer
that waits in the batch; every timer there is live, no two live timers have one id, and
the record is as it should be. -/
structure Listed (r : TimerDispatch γ) : Prop where
  tracked : r.Tracked
  uncancelled : ∀ t ∈ r.reactor.timers.elems ++ r.batch, answers r.events t.number = []
  held : ∀ k, r.Live k → (∃ t ∈ r.reactor.timers.elems, t.number = k) ∨
    ∃ t ∈ r.batch, t.number = k ∧ t.recurring = false
  distinct : ∀ k k' timer_id, k ∈ r.liveWith timer_id → k' ∈ r.liveWith timer_id → k = k'
  obeyed : r.Obeyed

/-- A timer that waits is live. -/
theorem Listed.live (h : r.Listed) {t : TimerInfo (ℕ × γ)}
    (ht : t ∈ r.reactor.timers.elems ++ r.batch) : t.number ∈ r.liveWith t.id := by
  obtain ⟨reg, hreg, hof⟩ := h.tracked.known t ht
  refine mem_liveWith.mpr ⟨⟨reg, hreg, h.uncancelled t ht, ?_⟩, ?_⟩
  · cases hrecurring : t.recurring with
    | false => exact Or.inr (h.tracked.spent t ht hrecurring)
    | true => exact Or.inl (hof.recurring.trans hrecurring)
  · rw [hreg, Option.map_some, hof.id]

theorem listed_start : (start : TimerDispatch γ).Listed where
  tracked := tracked_start
  uncancelled := fun _ ht => absurd ht List.not_mem_nil
  held := by
    rintro k ⟨reg, hreg, -⟩
    exact absurd hreg (by simp [start])
  distinct := fun k _ _ hk => absurd hk List.not_mem_nil
  obeyed := ⟨fun _ _ h => absurd h List.not_mem_nil, List.Pairwise.nil⟩

namespace Listed

theorem registerTimer (h : r.Listed) {interval_ms : ℤ} {callback : Option γ} {recurring : Bool}
    {now now' : ℤ} (hok : r.Undisturbed (.registerTimer interval_ms callback recurring now now'))
    (hstep : r.next (.registerTimer interval_ms callback recurring now now') = some r') :
    r'.Listed := by
  have htracked := h.tracked.registerTimer hstep
  obtain ⟨-, ⟨-, rfl⟩ | ⟨f, reactor, rfl, hpos, htimers, rfl⟩⟩ := next_registerTimer hstep
  · exact ⟨htracked, h.uncancelled, h.held, h.distinct, h.obeyed.answered, h.obeyed.silent⟩
  obtain ⟨hfree, hunused⟩ := hok rfl hpos
  let timer := r.reactor.newTimer interval_ms (r.registrations.length, f) recurring now
  let reg₀ : Registration := ⟨r.reactor.next_timer_id, interval_ms, recurring, now⟩
  have hperm : reactor.timers.elems.Perm (timer :: r.reactor.timers.elems) := by
    rw [htimers]
    exact SortedSet.insertList_perm fun t ht =>
      (TimerState.lt_or_lt_of_ne (hfree t ht)).symm
  -- a live timer is an old one or the new one
  have hlive : ∀ k, (∃ reg ∈ (r.registrations ++ [reg₀])[k]?, answers r.events k = [] ∧
      (reg.recurring = true ∨ firings r.events k = [])) →
      r.Live k ∧ (r.registrations ++ [reg₀])[k]? = r.registrations[k]? ∨
        k = r.registrations.length := by
    rintro k ⟨reg, hreg, hlive⟩
    rcases record_cases hreg with hold | ⟨hnew, -⟩
    · exact Or.inl ⟨⟨reg, hold, hlive⟩, Eq.trans hreg hold.symm⟩
    · exact Or.inr hnew
  refine ⟨htracked, ?_, ?_, ?_, h.obeyed.answered, h.obeyed.silent⟩
  · intro t ht
    rcases List.mem_append.mp ht with ht | ht
    · rcases List.mem_cons.mp (hperm.mem_iff.mp ht) with rfl | ht
      · exact (h.tracked.recorded _ (le_refl _)).2
      · exact h.uncancelled t (List.mem_append_left _ ht)
    · exact h.uncancelled t (List.mem_append_right _ ht)
  · intro k hk
    rcases hlive k hk with ⟨hold, -⟩ | rfl
    · rcases h.held k hold with ⟨t, ht, hnumber⟩ | hbatch
      · exact Or.inl ⟨t, hperm.mem_iff.mpr (List.mem_cons_of_mem _ ht), hnumber⟩
      · exact Or.inr hbatch
    · exact Or.inl ⟨timer, hperm.mem_iff.mpr List.mem_cons_self, rfl⟩
  · -- the new timer has an id that no live timer has
    have hclash : ∀ k timer_id, r.Live k → (r.registrations[k]?).map Registration.id
        = some timer_id → some timer_id ≠ some r.reactor.next_timer_id := by
      intro k timer_id hk hid heq
      have hmem : k ∈ r.liveWith r.reactor.next_timer_id := mem_liveWith.mpr ⟨hk, hid.trans heq⟩
      rw [hunused] at hmem
      exact absurd hmem List.not_mem_nil
    have hnewId : ((r.registrations ++ [reg₀])[r.registrations.length]?).map Registration.id
        = some r.reactor.next_timer_id := by
      rw [List.getElem?_concat_length]
      rfl
    intro k k' timer_id hk hk'
    obtain ⟨hk, hid⟩ := mem_liveWith.mp hk
    obtain ⟨hk', hid'⟩ := mem_liveWith.mp hk'
    rcases hlive k hk with ⟨hold, hsame⟩ | rfl
    · rcases hlive k' hk' with ⟨hold', hsame'⟩ | rfl
      · exact h.distinct k k' timer_id (mem_liveWith.mpr ⟨hold, hsame ▸ hid⟩)
          (mem_liveWith.mpr ⟨hold', hsame' ▸ hid'⟩)
      · exact absurd (hid'.symm.trans hnewId) (hclash k timer_id hold (hsame ▸ hid))
    · rcases hlive k' hk' with ⟨hold', hsame'⟩ | rfl
      · exact absurd (hid.symm.trans hnewId) (hclash k' timer_id hold' (hsame' ▸ hid'))
      · rfl

/-- A timer that waits has the id it is live with. -/
theorem id_eq (h : r.Listed) {t : TimerInfo (ℕ × γ)} {timer_id : ℤ}
    (ht : t ∈ r.reactor.timers.elems ++ r.batch) (hlive : t.number ∈ r.liveWith timer_id) :
    t.id = timer_id := by
  have hid := (mem_liveWith.mp hlive).2
  rw [(mem_liveWith.mp (h.live ht)).2] at hid
  exact Option.some.inj hid

/-- After one timer of an id was erased, no other timer of the id is left. -/
theorem of_mem_eraseP (h : r.Listed) {t : TimerInfo (ℕ × γ)} {timer_id : ℤ}
    (ht : t ∈ r.reactor.timers.elems.eraseP fun t => t.id = timer_id) :
    t ∈ r.reactor.timers.elems ∧ t.id ≠ timer_id := by
  have hnumbers := h.tracked.waiting
  rw [List.map_append] at hnumbers
  replace hnumbers := hnumbers.of_append_left
  have hmem := List.mem_of_mem_eraseP ht
  refine ⟨hmem, ?_⟩
  intro hid
  obtain ⟨u, as, bs, has, hu, hsplit, herase⟩ :=
    List.exists_of_eraseP (p := fun t => t.id = timer_id) hmem (by simpa using hid)
  have hu : u.id = timer_id := by simpa using hu
  -- the other one would be the same timer
  have hsame : t.number = u.number := by
    apply h.distinct _ _ timer_id
    · rw [← hid]
      exact h.live (List.mem_append_left _ hmem)
    · rw [← hu]
      apply h.live
      rw [hsplit]
      exact List.mem_append_left _ (List.mem_append_right _ List.mem_cons_self)
  rw [herase] at ht
  rw [hsplit, List.map_append, List.map_cons] at hnumbers
  have hnotin := (List.nodup_cons.mp (List.nodup_middle.mp hnumbers)).1
  apply hnotin
  rw [← List.map_append, ← hsame]
  exact List.mem_map_of_mem ht

theorem cancelTimer (h : r.Listed) {timer_id now' : ℤ}
    (hok : r.Undisturbed (.cancelTimer timer_id now'))
    (hstep : r.next (.cancelTimer timer_id now') = some r') : r'.Listed := by
  have htracked := h.tracked.cancelTimer hstep
  obtain ⟨-, reactor, htimers, rfl⟩ := next_cancelTimer hstep
  have hbatch : ∀ t ∈ r.batch, t.id ≠ timer_id := hok
  have hothers : ∀ t ∈ reactor.timers.elems ++ r.batch,
      t ∈ r.reactor.timers.elems ++ r.batch ∧ t.number ∉ r.liveWith timer_id := by
    intro t ht
    have hwas : t ∈ r.reactor.timers.elems ++ r.batch ∧ t.id ≠ timer_id := by
      rcases List.mem_append.mp ht with ht | ht
      · rw [htimers] at ht
        obtain ⟨hmem, hid⟩ := h.of_mem_eraseP ht
        exact ⟨List.mem_append_left _ hmem, hid⟩
      · exact ⟨List.mem_append_right _ ht, hbatch t ht⟩
    exact ⟨hwas.1, fun hlive => hwas.2 (h.id_eq hwas.1 hlive)⟩
  let answer := decide (∃ t ∈ r.reactor.timers.elems, t.id = timer_id)
  let events := r.events ++ (r.liveWith timer_id).map fun k => TimerEvent.cancelled k answer
  -- a timer that is still live was live and was not cancelled now
  have hstill : ∀ k, (∃ reg ∈ r.registrations[k]?, answers events k = [] ∧
      (reg.recurring = true ∨ firings events k = [])) →
      r.Live k ∧ k ∉ r.liveWith timer_id := by
    rintro k ⟨reg, hreg, hanswers, hrest⟩
    rw [answers_append, List.append_eq_nil_iff, answers_cancelled] at hanswers
    rw [firings_append, firings_cancelled, List.append_nil] at hrest
    exact ⟨⟨reg, hreg, hanswers.1, hrest⟩, hanswers.2⟩
  refine ⟨htracked, ?_, ?_, ?_, ?_⟩
  · intro t ht
    obtain ⟨hwas, hnotin⟩ := hothers t ht
    show answers events t.number = []
    rw [answers_append, h.uncancelled t hwas, List.nil_append, answers_cancelled]
    exact hnotin
  · intro k hk
    obtain ⟨hlive, hnotin⟩ := hstill k hk
    rcases h.held k hlive with ⟨t, ht, hnumber⟩ | hinBatch
    · left
      refine ⟨t, ?_, hnumber⟩
      have hid : t.id ≠ timer_id := by
        intro hid
        apply hnotin
        rw [← hnumber, ← hid]
        exact h.live (List.mem_append_left _ ht)
      show t ∈ reactor.timers.elems
      rw [htimers]
      exact (List.mem_eraseP_of_neg (by simpa using hid)).mpr ht
    · exact Or.inr hinBatch
  · intro k k' id hk hk'
    obtain ⟨hk, hid⟩ := mem_liveWith.mp hk
    obtain ⟨hk', hid'⟩ := mem_liveWith.mp hk'
    exact h.distinct k k' id (mem_liveWith.mpr ⟨(hstill k hk).1, hid⟩)
      (mem_liveWith.mpr ⟨(hstill k' hk').1, hid'⟩)
  · constructor
    · intro k given hevent
      rcases List.mem_append.mp hevent with hevent | hevent
      · exact h.obeyed.answered k given hevent
      · obtain ⟨k', hk', hgiven⟩ := List.mem_map.mp hevent
        obtain ⟨rfl, rfl⟩ := TimerEvent.cancelled.inj hgiven
        have hlive := (mem_liveWith.mp hk').1
        -- a live timer of the id is found in `timers_`
        have hfound : ∃ t ∈ r.reactor.timers.elems ++ r.batch, t.number = k' := by
          rcases h.held k' hlive with ⟨t, ht, hnumber⟩ | ⟨t, ht, hnumber, -⟩
          · exact ⟨t, List.mem_append_left _ ht, hnumber⟩
          · exact ⟨t, List.mem_append_right _ ht, hnumber⟩
        obtain ⟨t, ht, hnumber⟩ := hfound
        have hsame : t.id = timer_id := h.id_eq ht (hnumber ▸ hk')
        rcases List.mem_append.mp ht with ht | ht
        · exact decide_eq_true ⟨t, ht, hsame⟩
        · exact absurd hsame (hbatch t ht)
    · refine List.pairwise_append.mpr ⟨h.obeyed.silent, ?_, ?_⟩
      · exact List.pairwise_map.mpr (List.pairwise_of_forall fun _ _ => trivial)
      · intro e _ e' he'
        obtain ⟨k, -, rfl⟩ := List.mem_map.mp he'
        cases e <;> trivial

theorem handleTimerEvents (h : r.Listed) {readAt now now' : ℤ}
    (hok : r.Undisturbed (.handleTimerEvents readAt now now'))
    (hstep : r.next (.handleTimerEvents readAt now now') = some r') : r'.Listed := by
  have htracked := h.tracked.handleTimerEvents hstep
  obtain ⟨-, hbatch, ⟨-, rfl⟩ | ⟨hreadable, reactor, htimers, rfl⟩⟩ :=
    next_handleTimerEvents hstep
  · exact ⟨htracked, h.uncancelled, h.held, h.distinct, h.obeyed.answered, h.obeyed.silent⟩
  obtain ⟨hpair, hrest⟩ := hok hreadable
  let expired := r.reactor.expiredTimers now
  let rest := r.reactor.timers.eraseWhile (fun t => t.expiration ≤ now)
  have hperm : reactor.timers.elems.Perm
      ((expired.filter TimerInfo.recurring).map (TimerInfo.renew now) ++ rest.elems) := by
    have hset := TimerState.handleTimerEvents_perm now' hreadable hpair hrest
    rwa [(TimerState.handleTimerEvents_timers now now' hreadable).1, ← htimers] at hset
  have hwas : ∀ t ∈ expired, t ∈ r.reactor.timers.elems ++ r.batch := fun t ht =>
    List.mem_append_left _ (TimerState.mem_expiredTimers ht).1
  refine ⟨htracked, ?_, ?_, h.distinct, h.obeyed.answered, h.obeyed.silent⟩
  · intro t ht
    rcases List.mem_append.mp ht with ht | ht
    · rcases List.mem_append.mp (hperm.mem_iff.mp ht) with ht | ht
      · obtain ⟨t₀, ht₀, rfl⟩ := List.mem_map.mp ht
        exact h.uncancelled t₀ (hwas t₀ (List.mem_filter.mp ht₀).1)
      · exact h.uncancelled t (List.mem_append_left _ (TimerState.mem_rest ht).1)
    · exact h.uncancelled t (hwas t ht)
  · intro k hk
    have hinSet : ∃ t ∈ r.reactor.timers.elems, t.number = k := by
      rcases h.held k hk with hinSet | ⟨t, ht, -⟩
      · exact hinSet
      · rw [hbatch] at ht
        exact absurd ht List.not_mem_nil
    obtain ⟨t, ht, hnumber⟩ := hinSet
    rw [Tracked.elems_eq r now] at ht
    rcases List.mem_append.mp ht with ht | ht
    · cases hrecurring : t.recurring with
      | false => exact Or.inr ⟨t, ht, hnumber, hrecurring⟩
      | true =>
        left
        refine ⟨t.renew now, hperm.mem_iff.mpr (List.mem_append_left _ ?_), hnumber⟩
        exact List.mem_map_of_mem (List.mem_filter.mpr ⟨ht, hrecurring⟩)
    · exact Or.inl ⟨t, hperm.mem_iff.mpr (List.mem_append_right _ ht), hnumber⟩

theorem callback (h : r.Listed) (hstep : r.next .callback = some r') : r'.Listed := by
  have htracked := h.tracked.callback hstep
  obtain ⟨timer, rest, hbatch, rfl⟩ := next_callback hstep
  have hwas : timer ∈ r.reactor.timers.elems ++ r.batch :=
    List.mem_append_right _ (hbatch ▸ List.mem_cons_self)
  let event : TimerEvent := .started timer.number r.calls r.captured timer.expiration
  have hanswers : ∀ k, answers (r.events ++ [event]) k = answers r.events k := by
    intro k
    rw [answers_append, answers_started, List.append_nil]
  -- a timer that is still live was live, and it is not the one-shot timer that is started
  have hstill : ∀ k, (∃ reg ∈ r.registrations[k]?, answers (r.events ++ [event]) k = [] ∧
      (reg.recurring = true ∨ firings (r.events ++ [event]) k = [])) →
      r.Live k ∧ (timer.recurring = false → timer.number ≠ k) := by
    rintro k ⟨reg, hreg, hnone, hrest⟩
    rw [hanswers] at hnone
    rw [firings_append, List.append_eq_nil_iff] at hrest
    refine ⟨⟨reg, hreg, hnone, hrest.imp id And.left⟩, ?_⟩
    rintro hone rfl
    rcases hrest with hrecurring | ⟨-, hfired⟩
    · obtain ⟨reg', hreg', hof⟩ := h.tracked.known timer hwas
      obtain rfl : reg' = reg := Option.some.inj (hreg'.symm.trans hreg)
      rw [hof.recurring, hone] at hrecurring
      exact absurd hrecurring (by simp)
    · rw [firings_started_self] at hfired
      exact absurd hfired (List.cons_ne_nil _ _)
  refine ⟨htracked, ?_, ?_, ?_, ?_⟩
  · intro t ht
    show answers (r.events ++ [event]) t.number = []
    rw [hanswers]
    apply h.uncancelled
    rcases List.mem_append.mp ht with ht | ht
    · exact List.mem_append_left _ ht
    · exact List.mem_append_right _ (hbatch ▸ List.mem_cons_of_mem _ ht)
  · intro k hk
    obtain ⟨hlive, hother⟩ := hstill k hk
    rcases h.held k hlive with hinSet | ⟨t, ht, hnumber, hone⟩
    · exact Or.inl hinSet
    · right
      rw [hbatch] at ht
      rcases List.mem_cons.mp ht with rfl | ht
      · exact absurd hnumber (hother hone)
      · exact ⟨t, ht, hnumber, hone⟩
  · intro k k' id hk hk'
    obtain ⟨hk, hid⟩ := mem_liveWith.mp hk
    obtain ⟨hk', hid'⟩ := mem_liveWith.mp hk'
    exact h.distinct k k' id (mem_liveWith.mpr ⟨(hstill k hk).1, hid⟩)
      (mem_liveWith.mpr ⟨(hstill k' hk').1, hid'⟩)
  · constructor
    · intro k answer hevent
      rcases List.mem_append.mp hevent with hevent | hevent
      · exact h.obeyed.answered k answer hevent
      · exact absurd (List.mem_singleton.mp hevent) (by simp)
    · refine List.pairwise_append.mpr ⟨h.obeyed.silent, List.pairwise_singleton _ _, ?_⟩
      intro e he e' he'
      obtain rfl := List.mem_singleton.mp he'
      cases e with
      | started => trivial
      | cancelled k answer =>
        -- what was cancelled does not wait any more
        rintro rfl
        have hnone := h.uncancelled timer hwas
        rw [← mem_answers, hnone] at he
        exact absurd he List.not_mem_nil

/-- Every step that meets the condition keeps the timers listed. -/
theorem next (h : r.Listed) {step : TimerStep γ} (hok : r.Undisturbed step)
    (hstep : r.next step = some r') : r'.Listed := by
  cases step with
  | registerTimer => exact h.registerTimer hok hstep
  | cancelTimer => exact h.cancelTimer hok hstep
  | handleTimerEvents => exact h.handleTimerEvents hok hstep
  | callback => exact h.callback hstep

end Listed

/-- **Cancelling is final** in a run that cancels no timer waiting in the batch. -/
theorem obeyed_of_undisturbed (h : (system γ).ReachableBy Undisturbed r) : r.Obeyed := by
  have hlisted : r.Listed := by
    apply h.invariant
    · rintro s rfl
      exact listed_start
    · intro s step s' hs hok hstep
      exact hs.next hok hstep
  exact hlisted.obeyed

/-- Three timers.  The callback of the first one cancels the third, which has not expired,
and after the second, which recurs, has fired, it is cancelled too. -/
def cancelledInTime : List (TimerStep Unit) :=
  [.registerTimer 10 (some ()) false 0 0, .registerTimer 20 (some ()) true 0 0,
    .registerTimer 30 (some ()) false 0 0,
    .handleTimerEvents 20000000 20000000 20000000, .callback, .cancelTimer 2 20000000,
    .callback, .cancelTimer 1 20000000, .handleTimerEvents 40000000 40000000 40000000]

/-- Both cancellations succeed. -/
theorem obeyed_cancelledInTime :
    ∃ r, (system Unit).ReachableBy Undisturbed r ∧
      r.events = [.started 0 1 20000000 10000000, .cancelled 2 true,
        .started 1 1 20000000 20000000, .cancelled 1 true] ∧ r.Obeyed := by
  have hrun : ∃ r ∈ runFrom next Undisturbed start cancelledInTime,
      r.events = [.started 0 1 20000000 10000000, .cancelled 2 true,
        .started 1 1 20000000 20000000, .cancelled 1 true] := by decide +kernel
  obtain ⟨r, hreach, hevents⟩ := exists_of_runFrom hrun
  exact ⟨r, hreach, hevents, obeyed_of_undisturbed hreach⟩

/-- Three timers that expire in one batch.  The callback of the first one cancels the
second, a one-shot timer, and the third, which recurs. -/
def cancelledInBatch : List (TimerStep Unit) :=
  [.registerTimer 10 (some ()) false 0 0, .registerTimer 20 (some ()) false 0 0,
    .registerTimer 30 (some ()) true 0 0,
    .handleTimerEvents 30000000 30000000 30000000, .callback, .cancelTimer 1 30000000,
    .cancelTimer 2 30000000, .callback, .callback]

/-- **Cancelled timers fire.**  `cancelTimer` returns `false` for the second timer and
`true` for the third, and the callbacks of both are started after it. -/
theorem not_obeyed_cancelledInBatch :
    ∃ r, (system Unit).Reachable r ∧
      r.events = [.started 0 1 30000000 10000000, .cancelled 1 false, .cancelled 2 true,
        .started 1 1 30000000 20000000, .started 2 1 30000000 30000000] ∧ ¬ r.Obeyed := by
  have hrun : ∃ r ∈ runFrom next (fun _ _ => True) start cancelledInBatch,
      r.events = [.started 0 1 30000000 10000000, .cancelled 1 false, .cancelled 2 true,
        .started 1 1 30000000 20000000, .started 2 1 30000000 30000000] := by decide +kernel
  obtain ⟨r, hreach, hevents⟩ := exists_of_runFrom hrun
  refine ⟨r, hreach, hevents, ?_⟩
  intro hobeyed
  have hanswer := hobeyed.answered 1 false (by rw [hevents]; decide)
  exact absurd hanswer (by decide)

end TimerDispatch

end Muduo
