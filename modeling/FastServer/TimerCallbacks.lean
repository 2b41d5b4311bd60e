/-
# Timers whose callbacks use the timers

`handleTimerEvents` copies the expired timers out of `timers_`, inserts the recurring
ones again, and runs the callbacks from its copy after the lock is released.  Between
two callbacks, from inside them or on other threads, timers are registered and
cancelled.  A timer is known by the number of its registration, which its callback is
labelled with; what was started and cancelled is recorded in order.
-/
import FastServer.TimerLoss

namespace Muduo

open TransitionSystem

variable {γ : Type*}

/-! ## Data -/

/-- A call of `registerTimer` that was accepted, at the time it read. -/
structure Registration where
  id : ℤ
  interval_ms : ℤ
  recurring : Bool
  time : ℤ
deriving DecidableEq

/-- The interval as `std::chrono::nanoseconds`. -/
def Registration.interval (reg : Registration) : ℤ := reg.interval_ms * 1000000

/-- The callback of timer `k` was started by the given call of `handleTimerEvents`, which
captured `now`, or `k` was cancelled and `cancelTimer` returned `answer`. -/
inductive TimerEvent
  | started (k call : ℕ) (now expiration : ℤ)
  | cancelled (k : ℕ) (answer : Bool)
deriving DecidableEq

/-- The captured times of the firings of timer `k`. -/
def firings (events : List TimerEvent) (k : ℕ) : List ℤ :=
  events.filterMap fun event =>
    match event with
    | .started k' _ now _ => if k' = k then some now else none
    | .cancelled _ _ => none

/-- What `cancelTimer` returned for timer `k`. -/
def answers (events : List TimerEvent) (k : ℕ) : List Bool :=
  events.filterMap fun event =>
    match event with
    | .started _ _ _ _ => none
    | .cancelled k' answer => if k' = k then some answer else none

/-- The number of the registration. -/
def TimerInfo.number (t : TimerInfo (ℕ × γ)) : ℕ := t.callback.1

/-- A reactor between the callbacks of a batch: `batch` is what is left of
`expired_timers`, `captured` the time that the call read, and `calls` the number of calls
so far. -/
structure TimerDispatch (γ : Type*) where
  reactor : TimerState (ℕ × γ)
  clock : ℤ
  batch : List (TimerInfo (ℕ × γ))
  captured : ℤ
  calls : ℕ
  registrations : List Registration
  events : List TimerEvent

/-- A call of one of the three operations, or the start of the next callback. -/
inductive TimerStep (γ : Type*)
  | registerTimer (interval_ms : ℤ) (callback : Option γ) (recurring : Bool) (now now' : ℤ)
  | cancelTimer (timer_id now' : ℤ)
  | handleTimerEvents (readAt now now' : ℤ)
  | callback

namespace TimerDispatch

/-- No timer yet. -/
def start : TimerDispatch γ := ⟨TimerState.empty, 0, [], 0, 0, [], []⟩

/-- Timer `k` is registered, it was not cancelled, and it recurs or has not fired. -/
def Live (r : TimerDispatch γ) (k : ℕ) : Prop :=
  ∃ reg ∈ r.registrations[k]?,
    answers r.events k = [] ∧ (reg.recurring = true ∨ firings r.events k = [])

instance (r : TimerDispatch γ) : DecidablePred r.Live := fun k =>
  inferInstanceAs (Decidable (∃ reg ∈ r.registrations[k]?, _ ∧ (_ ∨ _)))

/-- The live timers of an id. -/
def liveWith (r : TimerDispatch γ) (timer_id : ℤ) : List ℕ :=
  (List.range r.registrations.length).filter fun k =>
    r.Live k ∧ (r.registrations[k]?).map Registration.id = some timer_id

/-- A step, if its readings continue those of the run.  `handleTimerEvents` runs on the
reactor thread, so not before the callbacks of the last batch have been started. -/
def next (r : TimerDispatch γ) : TimerStep γ → Option (TimerDispatch γ)
  | .registerTimer interval_ms callback recurring now now' =>
      if TimerRun.Readings r.clock [now, now'] then
        let result := r.reactor.registerTimer interval_ms
          (callback.map fun f => (r.registrations.length, f)) recurring now now'
        some { r with
          reactor := result.1
          clock := now'
          registrations :=
            if callback.isSome ∧ 0 < interval_ms then
              r.registrations ++ [⟨result.2, interval_ms, recurring, now⟩]
            else r.registrations }
      else none
  | .cancelTimer timer_id now' =>
      if TimerRun.Readings r.clock [now'] then
        let result := r.reactor.cancelTimer timer_id now'
        some { r with
          reactor := result.1
          clock := now'
          events :=
            r.events ++ (r.liveWith timer_id).map fun k => .cancelled k result.2 }
      else none
  | .handleTimerEvents readAt now now' =>
      if TimerRun.Readings r.clock [readAt, now, now'] ∧ r.batch.isEmpty = true then
        let result := r.reactor.handleTimerEvents readAt now now'
        some { r with
          reactor := result.1
          clock := now'
          batch := result.2
          captured := now
          calls := r.calls + 1 }
      else none
  | .callback =>
      match r.batch with
      | [] => none
      | timer :: rest =>
          some { r with
            batch := rest
            events :=
              r.events ++ [.started timer.number r.calls r.captured timer.expiration] }

/-- The runs of a `SubReactor`'s timers, callback by callback. -/
def system (γ : Type*) : TransitionSystem (TimerDispatch γ) (TimerStep γ) :=
  TransitionSystem.ofFunction start next

end TimerDispatch

/-! ## The record -/

@[simp] theorem firings_append (events events' : List TimerEvent) (k : ℕ) :
    firings (events ++ events') k = firings events k ++ firings events' k :=
  List.filterMap_append

@[simp] theorem answers_append (events events' : List TimerEvent) (k : ℕ) :
    answers (events ++ events') k = answers events k ++ answers events' k :=
  List.filterMap_append

/-- Cancelling fires nothing. -/
@[simp] theorem firings_cancelled (ks : List ℕ) (answer : Bool) (k : ℕ) :
    firings (ks.map fun k => .cancelled k answer) k = [] := by
  unfold firings
  rw [List.filterMap_map]
  exact List.filterMap_eq_nil_iff.mpr fun _ _ => rfl

/-- Starting a callback answers no cancellation. -/
@[simp] theorem answers_started (k' call : ℕ) (now expiration : ℤ) (k : ℕ) :
    answers [.started k' call now expiration] k = [] := rfl

theorem firings_started_self (k call : ℕ) (now expiration : ℤ) :
    firings [.started k call now expiration] k = [now] := by
  simp [firings]

theorem firings_started_of_ne {k' k : ℕ} (h : k' ≠ k) (call : ℕ) (now expiration : ℤ) :
    firings [.started k' call now expiration] k = [] := by
  simp [firings, h]

/-- The answers to one cancellation. -/
theorem answers_cancelled {ks : List ℕ} {answer : Bool} {k : ℕ} :
    answers (ks.map fun k => .cancelled k answer) k = [] ↔ k ∉ ks := by
  unfold answers
  rw [List.filterMap_map, List.filterMap_eq_nil_iff]
  constructor
  · intro h hk
    exact absurd (h k hk) (by simp)
  · intro h k' hk'
    have hne : k' ≠ k := fun heq => h (heq ▸ hk')
    simp [hne]

/-- An answer is an event of the record. -/
theorem mem_answers {events : List TimerEvent} {k : ℕ} {answer : Bool} :
    answer ∈ answers events k ↔ .cancelled k answer ∈ events := by
  unfold answers
  rw [List.mem_filterMap]
  constructor
  · rintro ⟨event, hmem, h⟩
    cases event with
    | started => exact absurd h.symm (Option.some_ne_none _)
    | cancelled k' answer' =>
      dsimp only at h
      split_ifs at h with hk
      obtain rfl := Option.some.inj h
      subst hk
      exact hmem
  · intro hmem
    exact ⟨_, hmem, by simp⟩

/-! ## What each step does -/

/-- What `cancelTimer` returns. -/
theorem TimerState.cancelTimer_answer (s : TimerState γ) (timer_id now' : ℤ) :
    (s.cancelTimer timer_id now').2 = decide (∃ t ∈ s.timers.elems, t.id = timer_id) := by
  cases hfind : s.timers.elems.find? (fun t => t.id = timer_id) with
  | none =>
    rw [cancelTimer_of_find?_none hfind]
    have hnone : ¬ ∃ t ∈ s.timers.elems, t.id = timer_id := by simpa using hfind
    exact (decide_eq_false hnone).symm
  | some t =>
    have hfound : ∃ t ∈ s.timers.elems, t.id = timer_id :=
      ⟨t, List.mem_of_find?_eq_some hfind, by simpa using List.find?_some hfind⟩
    have hlt : s.timers.elems.findIdx (fun t => t.id = timer_id) < s.timers.elems.length :=
      List.findIdx_lt_length.mpr (by simpa using hfound)
    rw [decide_eq_true hfound]
    unfold cancelTimer
    simp only [if_neg (ne_of_lt hlt)]
    split_ifs <;> rfl

/-- The timers that it leaves. -/
theorem TimerState.cancelTimer_eraseP (s : TimerState γ) (timer_id now' : ℤ) :
    (s.cancelTimer timer_id now').1.timers.elems
      = s.timers.elems.eraseP (fun t => t.id = timer_id) := by
  cases hfind : s.timers.elems.find? (fun t => t.id = timer_id) with
  | none =>
    rw [cancelTimer_of_find?_none hfind, List.eraseP_of_forall_not]
    simpa using hfind
  | some t =>
    rw [cancelTimer_timers hfind]
    rfl

namespace TimerDispatch

variable {r r' : TimerDispatch γ}

/-- A registration is refused, or takes the next number. -/
theorem next_registerTimer {interval_ms : ℤ} {callback : Option γ} {recurring : Bool}
    {now now' : ℤ}
    (h : r.next (.registerTimer interval_ms callback recurring now now') = some r') :
    TimerRun.Readings r.clock [now, now'] ∧
      (¬ (callback.isSome ∧ 0 < interval_ms) ∧ r' = { r with clock := now' } ∨
        ∃ f reactor, callback = some f ∧ 0 < interval_ms ∧
          reactor.timers = r.reactor.timers.insert
            (r.reactor.newTimer interval_ms (r.registrations.length, f) recurring now) ∧
          r' = { r with
            reactor := reactor
            clock := now'
            registrations := r.registrations ++
              [⟨r.reactor.next_timer_id, interval_ms, recurring, now⟩] }) := by
  simp only [next] at h
  split_ifs at h with hread hacc
  · obtain ⟨f, rfl⟩ := Option.isSome_iff_exists.mp hacc.1
    obtain rfl := Option.some.inj h
    have hid : (r.reactor.registerTimer interval_ms (some (r.registrations.length, f)) recurring
        now now').2 = r.reactor.next_timer_id := by
      rw [TimerState.registerTimer_eq _ hacc.2]
    refine ⟨hread, Or.inr ⟨f, (r.reactor.registerTimer interval_ms
      (some (r.registrations.length, f)) recurring now now').1, rfl, hacc.2, ?_, ?_⟩⟩
    · exact TimerState.registerTimer_timers _ hacc.2 _ recurring now now'
    · rw [← hid]
      rfl
  · obtain rfl := Option.some.inj h
    refine ⟨hread, Or.inl ⟨hacc, ?_⟩⟩
    rw [TimerState.registerTimer_refused]
    rwa [Option.isSome_map]

/-- A cancellation is recorded for the live timers of the id. -/
theorem next_cancelTimer {timer_id now' : ℤ} (h : r.next (.cancelTimer timer_id now') = some r') :
    TimerRun.Readings r.clock [now'] ∧ ∃ reactor,
      reactor.timers.elems = r.reactor.timers.elems.eraseP (fun t => t.id = timer_id) ∧
      r' = { r with
        reactor := reactor
        clock := now'
        events := r.events ++ (r.liveWith timer_id).map fun k =>
          .cancelled k (decide (∃ t ∈ r.reactor.timers.elems, t.id = timer_id)) } := by
  simp only [next] at h
  split_ifs at h with hread
  obtain rfl := Option.some.inj h
  refine ⟨hread, _, TimerState.cancelTimer_eraseP _ _ now', ?_⟩
  rw [TimerState.cancelTimer_answer]

/-- A call of `handleTimerEvents` fills the batch, if the timerfd is readable. -/
theorem next_handleTimerEvents {readAt now now' : ℤ}
    (h : r.next (.handleTimerEvents readAt now now') = some r') :
    TimerRun.Readings r.clock [readAt, now, now'] ∧ r.batch = [] ∧
      (¬ r.reactor.readable readAt ∧
          r' = { r with clock := now', captured := now, calls := r.calls + 1 } ∨
        r.reactor.readable readAt ∧ ∃ reactor,
          reactor.timers = (((r.reactor.expiredTimers now).filter TimerInfo.recurring).map
            (TimerInfo.renew now)).foldl SortedSet.insert
              (r.reactor.timers.eraseWhile (fun t => t.expiration ≤ now)) ∧
          r' = { r with
            reactor := reactor
            clock := now'
            batch := r.reactor.expiredTimers now
            captured := now
            calls := r.calls + 1 }) := by
  simp only [next] at h
  split_ifs at h with hguard
  obtain ⟨hread, hempty⟩ := hguard
  have hbatch : r.batch = [] := List.isEmpty_iff.mp hempty
  obtain rfl := Option.some.inj h
  refine ⟨hread, hbatch, ?_⟩
  by_cases hreadable : r.reactor.readable readAt
  · obtain ⟨htimers, hfired⟩ := TimerState.handleTimerEvents_timers now now' hreadable
    exact Or.inr ⟨hreadable, _, htimers, by rw [hfired]⟩
  · refine Or.inl ⟨hreadable, ?_⟩
    rw [TimerState.handleTimerEvents_unreadable hreadable, hbatch]

/-- The next callback of the batch is started. -/
theorem next_callback (h : r.next .callback = some r') :
    ∃ timer rest, r.batch = timer :: rest ∧
      r' = { r with
        batch := rest
        events :=
          r.events ++ [.started timer.number r.calls r.captured timer.expiration] } := by
  simp only [next] at h
  split at h
  · exact absurd h.symm (Option.some_ne_none _)
  · rename_i timer rest hbatch
    exact ⟨timer, rest, hbatch, (Option.some.inj h).symm⟩

/-! ## Which timers are where -/

/-- The timer is that of the registration. -/
structure Of (reg : Registration) (t : TimerInfo (ℕ × γ)) : Prop where
  id : reg.id = t.id
  interval_ms : reg.interval_ms = t.interval_ms
  recurring : reg.recurring = t.recurring
  positive : 0 < reg.interval_ms

/-- Every timer in `timers_` or waiting in the batch is of a registration, no one-shot
timer stands in two places or has fired, and only what was registered is on record. -/
structure Tracked (r : TimerDispatch γ) : Prop where
  known : ∀ t ∈ r.reactor.timers.elems ++ r.batch,
    ∃ reg, r.registrations[t.number]? = some reg ∧ Of reg t
  waiting : ((r.reactor.timers.elems ++
    r.batch.filter fun t => !t.recurring).map TimerInfo.number).Nodup
  batch : (r.batch.map TimerInfo.number).Nodup
  spent : ∀ t ∈ r.reactor.timers.elems ++ r.batch, t.recurring = false →
    firings r.events t.number = []
  recorded : ∀ k, r.registrations.length ≤ k →
    firings r.events k = [] ∧ answers r.events k = []

/-- The number of a timer is that of a registration. -/
theorem Tracked.number_lt (h : r.Tracked) {t : TimerInfo (ℕ × γ)}
    (ht : t ∈ r.reactor.timers.elems ++ r.batch) : t.number < r.registrations.length := by
  obtain ⟨reg, hreg, -⟩ := h.known t ht
  exact (List.getElem?_eq_some_iff.mp hreg).1

/-- After a registration a number is on record that was before, or it is the new one. -/
theorem record_cases {registrations : List Registration} {reg₀ reg : Registration} {k : ℕ}
    (h : (registrations ++ [reg₀])[k]? = some reg) :
    registrations[k]? = some reg ∨ k = registrations.length ∧ reg = reg₀ := by
  by_cases hk : k < registrations.length
  · rw [List.getElem?_append_left hk] at h
    exact Or.inl h
  · have hlt := (List.getElem?_eq_some_iff.mp h).1
    rw [List.length_append, List.length_singleton] at hlt
    obtain rfl : k = registrations.length := by omega
    rw [List.getElem?_concat_length] at h
    exact Or.inr ⟨rfl, (Option.some.inj h).symm⟩

theorem tracked_start : (start : TimerDispatch γ).Tracked where
  known := fun _ ht => absurd ht List.not_mem_nil
  waiting := List.nodup_nil
  batch := List.nodup_nil
  spent := fun _ ht => absurd ht List.not_mem_nil
  recorded := fun _ _ => ⟨rfl, rfl⟩

namespace Tracked

theorem registerTimer (h : r.Tracked) {interval_ms : ℤ} {callback : Option γ} {recurring : Bool}
    {now now' : ℤ}
    (hstep : r.next (.registerTimer interval_ms callback recurring now now') = some r') :
    r'.Tracked := by
  obtain ⟨-, ⟨-, rfl⟩ | ⟨f, reactor, -, hpos, htimers, rfl⟩⟩ := next_registerTimer hstep
  · exact ⟨h.known, h.waiting, h.batch, h.spent, h.recorded⟩
  let timer := r.reactor.newTimer interval_ms (r.registrations.length, f) recurring now
  have hmem : ∀ t ∈ reactor.timers.elems ++ r.batch,
      t = timer ∨ t ∈ r.reactor.timers.elems ++ r.batch := by
    intro t ht
    rcases List.mem_append.mp ht with ht | ht
    · rw [htimers] at ht
      rcases SortedSet.mem_of_mem_insertList ht with rfl | ht
      · exact Or.inl rfl
      · exact Or.inr (List.mem_append_left _ ht)
    · exact Or.inr (List.mem_append_right _ ht)
  refine ⟨?_, ?_, h.batch, ?_, ?_⟩
  · intro t ht
    rcases hmem t ht with rfl | ht
    · have hof : Of ⟨r.reactor.next_timer_id, interval_ms, recurring, now⟩ timer :=
        ⟨rfl, rfl, rfl, hpos⟩
      exact ⟨_, List.getElem?_concat_length, hof⟩
    · obtain ⟨reg, hreg, hof⟩ := h.known t ht
      exact ⟨reg, (List.getElem?_append_left (h.number_lt ht)).trans hreg, hof⟩
  · show ((reactor.timers.elems ++ _).map TimerInfo.number).Nodup
    have hsub : (SortedSet.insertList TimerInfo.lt timer r.reactor.timers.elems).Subperm
        (timer :: r.reactor.timers.elems) := SortedSet.insertList_subperm _
    have happ := (List.subperm_append_right
      (r.batch.filter fun t => !t.recurring)).mpr hsub
    rw [htimers]
    apply SortedSet.nodup_map_of_subperm happ
    rw [List.cons_append, List.map_cons, List.nodup_cons]
    refine ⟨?_, h.waiting⟩
    intro hnumber
    obtain ⟨t, ht, hsame⟩ := List.mem_map.mp hnumber
    have hlt : t.number < r.registrations.length := by
      apply h.number_lt
      rcases List.mem_append.mp ht with ht | ht
      · exact List.mem_append_left _ ht
      · exact List.mem_append_right _ (List.mem_filter.mp ht).1
    rw [hsame] at hlt
    exact absurd hlt (lt_irrefl _)
  · intro t ht hone
    rcases hmem t ht with rfl | ht
    · exact (h.recorded _ (le_refl _)).1
    · exact h.spent t ht hone
  · intro k hk
    apply h.recorded
    have hlength : (r.registrations ++ [_]).length ≤ k := hk
    rw [List.length_append, List.length_singleton] at hlength
    omega

theorem cancelTimer (h : r.Tracked) {timer_id now' : ℤ}
    (hstep : r.next (.cancelTimer timer_id now') = some r') : r'.Tracked := by
  obtain ⟨-, reactor, htimers, rfl⟩ := next_cancelTimer hstep
  have hsub : List.Sublist reactor.timers.elems r.reactor.timers.elems := by
    rw [htimers]
    exact List.eraseP_sublist
  have hmem : ∀ t ∈ reactor.timers.elems ++ r.batch, t ∈ r.reactor.timers.elems ++ r.batch :=
    fun t ht => (hsub.append_right r.batch).mem ht
  refine ⟨fun t ht => h.known t (hmem t ht), ?_, h.batch, ?_, ?_⟩
  · exact h.waiting.sublist ((hsub.append_right _).map _)
  · intro t ht hone
    rw [firings_append, firings_cancelled, List.append_nil]
    exact h.spent t (hmem t ht) hone
  · intro k hk
    obtain ⟨hfirings, hanswers⟩ := h.recorded k hk
    rw [firings_append, firings_cancelled, List.append_nil, answers_append, hanswers,
      List.nil_append, answers_cancelled]
    refine ⟨hfirings, ?_⟩
    intro hlive
    have hlt := List.mem_range.mp (List.mem_filter.mp hlive).1
    exact absurd hlt (not_lt.mpr hk)

/-- The numbers in `timers_` are those of the expired timers and of the others. -/
theorem elems_eq (r : TimerDispatch γ) (now : ℤ) :
    r.reactor.timers.elems = r.reactor.expiredTimers now ++
      (r.reactor.timers.eraseWhile (fun t => t.expiration ≤ now)).elems :=
  List.takeWhile_append_dropWhile.symm

theorem handleTimerEvents (h : r.Tracked) {readAt now now' : ℤ}
    (hstep : r.next (.handleTimerEvents readAt now now') = some r') : r'.Tracked := by
  obtain ⟨-, hbatch, ⟨-, rfl⟩ | ⟨-, reactor, htimers, rfl⟩⟩ := next_handleTimerEvents hstep
  · exact ⟨h.known, h.waiting, h.batch, h.spent, h.recorded⟩
  let expired := r.reactor.expiredTimers now
  let rest := r.reactor.timers.eraseWhile (fun t => t.expiration ≤ now)
  have helems := elems_eq r now
  have hwaiting : (r.reactor.timers.elems.map TimerInfo.number).Nodup := by
    have hall := h.waiting
    rwa [hbatch, List.filter_nil, List.append_nil] at hall
  -- every timer that is there now is an old one, up to its expiration
  have hmem : ∀ t ∈ reactor.timers.elems ++ expired, ∃ t₀ ∈ r.reactor.timers.elems ++ r.batch,
      t.number = t₀.number ∧ t.id = t₀.id ∧ t.interval_ms = t₀.interval_ms ∧
        t.recurring = t₀.recurring := by
    have hexpired : ∀ t ∈ expired, t ∈ r.reactor.timers.elems ++ r.batch := by
      intro t ht
      exact List.mem_append_left _ (TimerState.mem_expiredTimers ht).1
    intro t ht
    rcases List.mem_append.mp ht with ht | ht
    · rw [htimers] at ht
      rcases SortedSet.mem_of_mem_foldl_insert ht with ht | ht
      · obtain ⟨t₀, ht₀, rfl⟩ := List.mem_map.mp ht
        exact ⟨t₀, hexpired t₀ (List.mem_filter.mp ht₀).1, rfl, rfl, rfl, rfl⟩
      · exact ⟨t, List.mem_append_left _ (TimerState.mem_rest ht).1, rfl, rfl, rfl, rfl⟩
    · exact ⟨t, hexpired t ht, rfl, rfl, rfl, rfl⟩
  refine ⟨?_, ?_, ?_, ?_, h.recorded⟩
  · intro t ht
    obtain ⟨t₀, ht₀, hnumber, hid, hinterval, hrecurring⟩ := hmem t ht
    obtain ⟨reg, hreg, hof⟩ := h.known t₀ ht₀
    refine ⟨reg, ?_, ?_⟩
    · rw [hnumber]
      exact hreg
    · exact ⟨hof.id.trans hid.symm, hof.interval_ms.trans hinterval.symm,
        hof.recurring.trans hrecurring.symm, hof.positive⟩
  · have hsub := SortedSet.foldl_insert_subperm
      ((expired.filter TimerInfo.recurring).map (TimerInfo.renew now)) rest
    have happ := (List.subperm_append_right
      (expired.filter fun t => !t.recurring)).mpr hsub
    show ((reactor.timers.elems ++ _).map TimerInfo.number).Nodup
    rw [htimers]
    apply SortedSet.nodup_map_of_subperm happ
    have hrenewed : ((expired.filter TimerInfo.recurring).map (TimerInfo.renew now)).map
        TimerInfo.number = (expired.filter TimerInfo.recurring).map TimerInfo.number := by
      rw [List.map_map]
      rfl
    have hparts : (expired.filter TimerInfo.recurring ++
        expired.filter (fun t => !t.recurring)).Perm expired :=
      List.filter_append_perm _ _
    have hperm : (expired.filter TimerInfo.recurring ++ rest.elems ++
        expired.filter (fun t => !t.recurring)).Perm r.reactor.timers.elems := by
      have hmove : (expired.filter TimerInfo.recurring ++ rest.elems ++
          expired.filter (fun t => !t.recurring)).Perm (expired.filter TimerInfo.recurring ++
            expired.filter (fun t => !t.recurring) ++ rest.elems) := by
        rw [List.append_assoc, List.append_assoc]
        exact List.perm_append_comm.append_left _
      rw [helems]
      exact hmove.trans (hparts.append_right _)
    rw [List.map_append, List.map_append, hrenewed, ← List.map_append, ← List.map_append]
    exact (hperm.map _).nodup_iff.mpr hwaiting
  · rw [helems, List.map_append] at hwaiting
    exact hwaiting.of_append_left
  · intro t ht hone
    obtain ⟨t₀, ht₀, hnumber, -, -, hrecurring⟩ := hmem t ht
    rw [hnumber]
    exact h.spent t₀ ht₀ (hrecurring ▸ hone)

theorem callback (h : r.Tracked) (hstep : r.next .callback = some r') : r'.Tracked := by
  obtain ⟨timer, rest, hbatch, rfl⟩ := next_callback hstep
  have hsub : List.Sublist rest r.batch := hbatch ▸ List.sublist_cons_self timer rest
  have hmem : ∀ t ∈ r.reactor.timers.elems ++ rest, t ∈ r.reactor.timers.elems ++ r.batch :=
    fun t ht => (hsub.append_left _).mem ht
  have htimer : timer ∈ r.reactor.timers.elems ++ r.batch := by
    rw [hbatch]
    exact List.mem_append_right _ List.mem_cons_self
  refine ⟨fun t ht => h.known t (hmem t ht), ?_, h.batch.sublist (hsub.map _), ?_, ?_⟩
  · exact h.waiting.sublist (((hsub.filter _).append_left _).map _)
  · intro t ht hone
    have hne : timer.number ≠ t.number := by
      intro hsame
      -- the timer that is started and `t` stand in the same list of distinct numbers
      have hdistinct := h.waiting
      have hother := h.batch
      rw [hbatch, List.map_cons, List.nodup_cons] at hother
      obtain ⟨reg, hreg, hof⟩ := h.known timer htimer
      obtain ⟨reg', hreg', hof'⟩ := h.known t (hmem t ht)
      rw [hsame] at hreg
      obtain rfl : reg = reg' := Option.some.inj (hreg.symm.trans hreg')
      have htimerOne : timer.recurring = false := by
        rw [← hof.recurring, hof'.recurring, hone]
      rcases List.mem_append.mp ht with ht | ht
      · rw [hbatch, List.filter_cons_of_pos (by simp [htimerOne]), List.map_append,
          List.nodup_append] at hdistinct
        exact hdistinct.2.2 t.number (List.mem_map_of_mem ht) timer.number
          (List.mem_map_of_mem List.mem_cons_self) hsame.symm
      · exact hother.1 (List.mem_map.mpr ⟨t, ht, hsame.symm⟩)
    rw [firings_append, firings_started_of_ne hne, List.append_nil]
    exact h.spent t (hmem t ht) hone
  · intro k hk
    have hne : timer.number ≠ k := by
      have hlt := h.number_lt htimer
      have hk : r.registrations.length ≤ k := hk
      omega
    rw [firings_append, firings_started_of_ne hne, List.append_nil, answers_append,
      answers_started, List.append_nil]
    exact h.recorded k hk

theorem next (h : r.Tracked) {step : TimerStep γ} (hstep : r.next step = some r') :
    r'.Tracked := by
  cases step with
  | registerTimer => exact h.registerTimer hstep
  | cancelTimer => exact h.cancelTimer hstep
  | handleTimerEvents => exact h.handleTimerEvents hstep
  | callback => exact h.callback hstep

end Tracked

end TimerDispatch

end Muduo
