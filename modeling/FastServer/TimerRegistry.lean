/-
# What the map of the timer wheel finds

A task is alive while a slot has a pointer to it or its callback runs.  As long as no id is
added twice at a time, `timers_` finds the tasks that are alive and no others, and an
operation on one kind of tasks leaves the tasks of the other kinds as they are.
-/
import FastServer.TimerWheel

namespace Reactor

namespace TimerWheel

variable {γ : Type*} [DecidableEq γ] {w w' w'' : TimerWheel γ}
  {running running' : Option (TimerTask γ)} {tsp u : TimerTask γ}

/-! ## Tasks that are alive -/

/-- A slot has a pointer to the task, or its callback is running. -/
def Live (w : TimerWheel γ) (running : Option (TimerTask γ)) (tsp : TimerTask γ) : Prop :=
  w.Holds tsp ∨ running = some tsp

/-- `timers_` finds the tasks that are alive. -/
structure Registered (w : TimerWheel γ) (running : Option (TimerTask γ)) : Prop where
  tick : w.tick < capacity
  found : ∀ tsp, w.Live running tsp → w.timers tsp.id = some tsp
  live : ∀ id tsp, w.timers id = some tsp → tsp.id = id ∧ w.Live running tsp
  address : ∀ tsp, w.Live running tsp → tsp.address < w.allocated
  distinct : ∀ tsp u, w.Live running tsp → w.Live running u → tsp.address = u.address → tsp = u
  fresh : ∀ address, w.allocated ≤ address → w.is_cancel address = false

theorem registered_empty : (empty : TimerWheel γ).Registered none := by
  have hdead : ∀ tsp, ¬ (empty : TimerWheel γ).Live none tsp := by
    rintro tsp (hholds | hrunning)
    · obtain ⟨pos, -, hmem⟩ := holds_iff.mp hholds
      exact List.not_mem_nil hmem
    · cases hrunning
  exact {
    tick := Nat.zero_lt_succ _
    found := fun tsp h => absurd h (hdead tsp)
    live := fun _ _ h => (Option.some_ne_none _ h.symm).elim
    address := fun tsp h => absurd h (hdead tsp)
    distinct := fun tsp _ h => absurd h (hdead tsp)
    fresh := fun _ _ => rfl }

/-! ### Slots -/

theorem holds_push {timeout : ℕ} : (w.push timeout tsp).Holds u ↔ w.Holds u ∨ u = tsp := by
  simp only [holds_iff, mem_wheel_push]
  constructor
  · rintro ⟨pos, hpos, hmem | ⟨-, heq⟩⟩
    · exact Or.inl ⟨pos, hpos, hmem⟩
    · exact Or.inr heq
  · rintro (⟨pos, hpos, hmem⟩ | heq)
    · exact ⟨pos, hpos, Or.inl hmem⟩
    · exact ⟨_, Nat.mod_lt _ (by decide), Or.inr ⟨rfl, heq⟩⟩

theorem count_wheel_push {timeout pos : ℕ} (hne : u ≠ tsp) :
    ((w.push timeout tsp).wheel pos).count u = (w.wheel pos).count u := by
  by_cases hpos : pos = (w.tick + timeout) % capacity
  · subst hpos
    simp [push, List.count_append, hne.symm]
  · simp [push, hpos]

theorem count_wheel_add {id timeout pos : ℕ} {callback : γ}
    (habsent : (w.wheel pos).count (w.newTask id timeout callback) = 0) :
    ((w.addTimerTaskInLoop id timeout callback).wheel pos).count (w.newTask id timeout callback) =
      if pos = (w.tick + timeout) % capacity then 1 else 0 := by
  by_cases hpos : pos = (w.tick + timeout) % capacity
  · subst hpos
    simp [addTimerTaskInLoop, push, newTask] at habsent ⊢
    exact habsent
  · simp [addTimerTaskInLoop, push, newTask, hpos] at habsent ⊢
    exact habsent

theorem count_wheel_pop {rest : List (TimerTask γ)} {pos : ℕ}
    (hslot : w.wheel w.tick = tsp :: rest) (hne : u ≠ tsp) :
    ((w.pop rest).wheel pos).count u = (w.wheel pos).count u := by
  by_cases hpos : pos = w.tick
  · rw [hpos, wheel_pop_self, hslot, List.count_cons_of_ne hne.symm]
  · rw [wheel_pop_of_ne hpos]

/-- The pointer that a `pop` takes away is the only one that may be missed. -/
theorem holds_iff_pop {rest : List (TimerTask γ)} (hslot : w.wheel w.tick = tsp :: rest)
    (htick : w.tick < capacity) : w.Holds u ↔ (w.pop rest).Holds u ∨ u = tsp := by
  simp only [holds_iff]
  constructor
  · rintro ⟨pos, hpos, hmem⟩
    by_cases heq : pos = w.tick
    · rw [heq, hslot] at hmem
      rcases List.mem_cons.mp hmem with rfl | hmem
      · exact Or.inr rfl
      · refine Or.inl ⟨w.tick, htick, ?_⟩
        rwa [wheel_pop_self]
    · refine Or.inl ⟨pos, hpos, ?_⟩
      rwa [wheel_pop_of_ne heq]
  · rintro (⟨pos, hpos, hmem⟩ | rfl)
    · by_cases heq : pos = w.tick
      · rw [heq, wheel_pop_self] at hmem
        refine ⟨w.tick, htick, ?_⟩
        rw [hslot]
        exact List.mem_cons_of_mem _ hmem
      · rw [wheel_pop_of_ne heq] at hmem
        exact ⟨pos, hpos, hmem⟩
    · refine ⟨w.tick, htick, ?_⟩
      rw [hslot]
      exact List.mem_cons_self

/-! ### Operations -/

namespace Registered

omit [DecidableEq γ] in
/-- Only who is alive and what is found matters. -/
theorem congr (h : w.Registered running) (htick : w'.tick < capacity)
    (hlive : ∀ u, w'.Live running' u ↔ w.Live running u) (htimers : w'.timers = w.timers)
    (hallocated : w'.allocated = w.allocated)
    (hfresh : ∀ address, w.allocated ≤ address → w'.is_cancel address = false) :
    w'.Registered running' where
  tick := htick
  found := by
    intro u hu
    rw [htimers]
    exact h.found u ((hlive u).mp hu)
  live := by
    intro id u hu
    rw [htimers] at hu
    exact ⟨(h.live id u hu).1, (hlive u).mpr (h.live id u hu).2⟩
  address := by
    intro u hu
    rw [hallocated]
    exact h.address u ((hlive u).mp hu)
  distinct := fun u v hu hv => h.distinct u v ((hlive u).mp hu) ((hlive v).mp hv)
  fresh := by
    rw [hallocated]
    exact hfresh

/-- The task of the pointer that is cleared next is found. -/
theorem found_of_slot (h : w.Registered running) {rest : List (TimerTask γ)}
    (hslot : w.wheel w.tick = tsp :: rest) : w.timers tsp.id = some tsp := by
  have hmem : tsp ∈ w.wheel w.tick := by
    rw [hslot]
    exact List.mem_cons_self
  exact h.found tsp (Or.inl (TimerWheel.holds_iff.mpr ⟨_, h.tick, hmem⟩))

/-- Another pointer to a living task. -/
theorem push (h : w.Registered running) (hlive : w.Live running tsp) (timeout : ℕ) :
    (w.push timeout tsp).Registered running := by
  refine h.congr h.tick (fun u => ?_) rfl rfl h.fresh
  rw [Live, holds_push, Live]
  constructor
  · rintro ((hu | rfl) | hu)
    · exact Or.inl hu
    · exact hlive
    · exact Or.inr hu
  · rintro (hu | hu)
    · exact Or.inl (Or.inl hu)
    · exact Or.inr hu

/-- Cancelling a task that is found. -/
theorem cancel (h : w.Registered running) (id : ℕ) :
    (w.cancelTimerTaskInLoop id).Registered running := by
  rw [cancelTimerTaskInLoop]
  cases hfound : w.timers id with
  | none => exact h
  | some tsp =>
    dsimp only
    by_cases hholds : w.Holds tsp
    · rw [if_pos hholds]
      refine h.congr h.tick (fun u => Iff.rfl) rfl rfl fun address haddress => ?_
      have hlt := h.address tsp (Or.inl hholds)
      have hne : address ≠ tsp.address := (hlt.trans_le haddress).ne'
      exact (Function.update_of_ne hne _ _).trans (h.fresh address haddress)
    · rwa [if_neg hholds]

omit [DecidableEq γ] in
/-- The wheel turns. -/
theorem advance (h : w.Registered running) : w.advance.Registered running :=
  h.congr (Nat.mod_lt _ (by decide)) (fun _ => Iff.rfl) rfl rfl h.fresh

/-- A pointer goes that is not the last one, or that is the last one and whose task is
running now. -/
theorem pop (h : w.Registered none) {rest : List (TimerTask γ)}
    (hslot : w.wheel w.tick = tsp :: rest) (hlive : (w.pop rest).Live running tsp)
    (hrunning : ∀ u ∈ running, u = tsp) : (w.pop rest).Registered running := by
  refine h.congr h.tick (fun u => ?_) rfl rfl h.fresh
  have hpop := @holds_iff_pop _ _ _ _ u _ hslot h.tick
  constructor
  · rintro (hu | hu)
    · exact Or.inl (hpop.mpr (Or.inl hu))
    · exact Or.inl (hpop.mpr (Or.inr (hrunning u hu)))
  · rintro (hu | hu)
    · rcases hpop.mp hu with hu | rfl
      · exact Or.inl hu
      · exact hlive
    · cases hu

/-- A task is added under an id that is free. -/
theorem add (h : w.Registered running) {id : ℕ} (hfree : w.timers id = none) (timeout : ℕ)
    (callback : γ) : (w.addTimerTaskInLoop id timeout callback).Registered running := by
  have hlive : ∀ u, (w.addTimerTaskInLoop id timeout callback).Live running u ↔
      w.Live running u ∨ u = w.newTask id timeout callback := by
    intro u
    have hpush : (w.addTimerTaskInLoop id timeout callback).Holds u ↔
        w.Holds u ∨ u = w.newTask id timeout callback := holds_push
    rw [Live, hpush, Live]
    tauto
  -- a living task is found, and the id is free
  have hid : ∀ u, w.Live running u → u.id ≠ id := by
    rintro u hu rfl
    have hfound := h.found u hu
    rw [hfree] at hfound
    cases hfound
  refine ⟨h.tick, fun u hu => ?_, fun id' u hu => ?_, fun u hu => ?_, fun u v hu hv heq => ?_,
    fun address haddress => h.fresh address (Nat.le_of_succ_le haddress)⟩
  · rcases (hlive u).mp hu with hu | rfl
    · exact (Function.update_of_ne (hid u hu) _ _).trans (h.found u hu)
    · exact Function.update_self _ _ _
  · by_cases hid' : id' = id
    · subst hid'
      have hnew : (w.addTimerTaskInLoop id' timeout callback).timers id'
          = some (w.newTask id' timeout callback) := Function.update_self _ _ _
      rw [hnew] at hu
      obtain rfl := Option.some.inj hu
      exact ⟨rfl, (hlive _).mpr (Or.inr rfl)⟩
    · have hother : (w.addTimerTaskInLoop id timeout callback).timers id' = w.timers id' :=
        Function.update_of_ne hid' _ _
      rw [hother] at hu
      have hold := h.live id' u hu
      exact ⟨hold.1, (hlive _).mpr (Or.inl hold.2)⟩
  · rcases (hlive u).mp hu with hu | rfl
    · exact (h.address u hu).trans (Nat.lt_succ_self _)
    · exact Nat.lt_succ_self _
  · rcases (hlive u).mp hu with hu | rfl <;> rcases (hlive v).mp hv with hv | rfl
    · exact h.distinct u v hu hv heq
    · exact absurd heq (h.address u hu).ne
    · exact absurd heq.symm (h.address v hv).ne
    · rfl

omit [DecidableEq γ] in
/-- The task whose callback has run is forgotten. -/
theorem release (h : w.Registered (some tsp)) (hgone : ¬ w.Holds tsp) :
    (w.releaseTimerTaskInLoop tsp.id).Registered none := by
  have hlive : ∀ u, (w.releaseTimerTaskInLoop tsp.id).Live none u ↔
      w.Live (some tsp) u ∧ u ≠ tsp := by
    intro u
    constructor
    · rintro (hu | hu)
      · refine ⟨Or.inl hu, ?_⟩
        rintro rfl
        exact hgone hu
      · cases hu
    · rintro ⟨hu | hu, hne⟩
      · exact Or.inl hu
      · exact absurd (Option.some.inj hu).symm hne
  -- two living tasks of one id would both be what `timers_` finds
  have hid : ∀ u, w.Live (some tsp) u → u ≠ tsp → u.id ≠ tsp.id := by
    intro u hu hne heq
    have hfound := h.found u hu
    rw [heq, h.found tsp (Or.inr rfl)] at hfound
    exact hne (Option.some.inj hfound).symm
  refine ⟨h.tick, fun u hu => ?_, fun id u hu => ?_, fun u hu => h.address u ((hlive u).mp hu).1,
    fun u v hu hv => h.distinct u v ((hlive u).mp hu).1 ((hlive v).mp hv).1, h.fresh⟩
  · obtain ⟨hu, hne⟩ := (hlive u).mp hu
    rw [timers_releaseTimerTaskInLoop_of_ne (hid u hu hne)]
    exact h.found u hu
  · have hid' : id ≠ tsp.id := by
      rintro rfl
      rw [timers_releaseTimerTaskInLoop_self] at hu
      cases hu
    rw [timers_releaseTimerTaskInLoop_of_ne hid'] at hu
    obtain ⟨heq, hold⟩ := h.live id u hu
    refine ⟨heq, (hlive u).mpr ⟨hold, ?_⟩⟩
    rintro rfl
    exact hid' heq.symm

end Registered

/-! ## Tasks of one kind -/

/-- Two wheels have the same pointers to tasks of a kind, in the same slots, find the same of
these tasks, and the same of them are cancelled. -/
structure SameTimers (kind : γ) (w w' : TimerWheel γ) : Prop where
  wheel : ∀ pos, (w'.wheel pos).filter (·.callback = kind) = (w.wheel pos).filter (·.callback = kind)
  timers : ∀ id, (w'.timers id).filter (·.callback = kind) = (w.timers id).filter (·.callback = kind)
  is_cancel : ∀ tsp : TimerTask γ, tsp.callback = kind → w.Holds tsp →
    w'.is_cancel tsp.address = w.is_cancel tsp.address

namespace SameTimers

variable {kind : γ}

theorem refl (kind : γ) (w : TimerWheel γ) : SameTimers kind w w :=
  ⟨fun _ => rfl, fun _ => rfl, fun _ _ _ => rfl⟩

/-- The slots have the same tasks of the kind. -/
theorem mem_wheel_iff (h : SameTimers kind w w') (hkind : tsp.callback = kind) {pos : ℕ} :
    tsp ∈ w'.wheel pos ↔ tsp ∈ w.wheel pos := by
  have hmem : tsp ∈ (w'.wheel pos).filter (·.callback = kind) ↔
      tsp ∈ (w.wheel pos).filter (·.callback = kind) := by rw [h.wheel pos]
  simpa [List.mem_filter, hkind] using hmem

theorem count_wheel (h : SameTimers kind w w') (hkind : tsp.callback = kind) {pos : ℕ} :
    (w'.wheel pos).count tsp = (w.wheel pos).count tsp := by
  have hpred : decide (tsp.callback = kind) = true := decide_eq_true hkind
  rw [← @List.count_filter _ _ _ (fun t : TimerTask γ => decide (t.callback = kind)) tsp _ hpred,
    h.wheel pos, @List.count_filter _ _ _ (fun t : TimerTask γ => decide (t.callback = kind)) tsp _ hpred]

theorem holds_iff (h : SameTimers kind w w') (hkind : tsp.callback = kind) :
    w'.Holds tsp ↔ w.Holds tsp := by
  simp only [TimerWheel.holds_iff, h.mem_wheel_iff hkind]

/-- The map finds the same tasks of the kind. -/
theorem timers_eq_some_iff (h : SameTimers kind w w') (hkind : tsp.callback = kind) {id : ℕ} :
    w'.timers id = some tsp ↔ w.timers id = some tsp := by
  have hmem : (w'.timers id).filter (·.callback = kind) = some tsp ↔
      (w.timers id).filter (·.callback = kind) = some tsp := by rw [h.timers id]
  simpa [Option.filter_eq_some_iff, hkind] using hmem

theorem trans (h : SameTimers kind w w') (h' : SameTimers kind w' w'') : SameTimers kind w w'' where
  wheel := fun pos => (h'.wheel pos).trans (h.wheel pos)
  timers := fun id => (h'.timers id).trans (h.timers id)
  is_cancel := fun tsp hkind hholds =>
    (h'.is_cancel tsp hkind ((h.holds_iff hkind).mpr hholds)).trans (h.is_cancel tsp hkind hholds)

/-- A pointer to a task of another kind is pushed. -/
theorem push (hkind : tsp.callback ≠ kind) (timeout : ℕ) : SameTimers kind w (w.push timeout tsp) where
  wheel := by
    intro pos
    by_cases hpos : pos = (w.tick + timeout) % capacity
    · subst hpos
      simp [TimerWheel.push, hkind]
    · simp [TimerWheel.push, hpos]
  timers := fun _ => rfl
  is_cancel := fun _ _ _ => rfl

/-- A pointer to a task of another kind goes. -/
theorem pop {rest : List (TimerTask γ)} (hslot : w.wheel w.tick = tsp :: rest)
    (hkind : tsp.callback ≠ kind) : SameTimers kind w (w.pop rest) where
  wheel := by
    intro pos
    by_cases hpos : pos = w.tick
    · subst hpos
      simp [hslot, hkind]
    · rw [wheel_pop_of_ne hpos]
  timers := fun _ => rfl
  is_cancel := fun _ _ _ => rfl

/-- An id is set that has no task of the kind, to a task of another kind or to none. -/
theorem update {id : ℕ} {found : Option (TimerTask γ)}
    (hold : ∀ u ∈ w.timers id, u.callback ≠ kind) (hnew : ∀ u ∈ found, u.callback ≠ kind) :
    SameTimers kind w { w with timers := Function.update w.timers id found } where
  wheel := fun _ => rfl
  timers := by
    intro id'
    by_cases hid : id' = id
    · subst hid
      have hnone : ∀ o : Option (TimerTask γ), (∀ u ∈ o, u.callback ≠ kind) →
          o.filter (·.callback = kind) = none := by
        intro o ho
        simpa [Option.filter_eq_none_iff] using ho
      rw [hnone _ hold]
      simpa using hnone _ hnew
    · simp [hid]
  is_cancel := fun _ _ _ => rfl

theorem allocate (allocated : ℕ) : SameTimers kind w { w with allocated := allocated } :=
  ⟨fun _ => rfl, fun _ => rfl, fun _ _ _ => rfl⟩

/-- A task of another kind is forgotten. -/
theorem release {id : ℕ} (hold : ∀ u ∈ w.timers id, u.callback ≠ kind) :
    SameTimers kind w (w.releaseTimerTaskInLoop id) :=
  update hold fun u hu => by cases hu

/-- A task of another kind is added under an id that has no task of the kind. -/
theorem add {id : ℕ} (hold : ∀ u ∈ w.timers id, u.callback ≠ kind) (timeout : ℕ) {callback : γ}
    (hkind : callback ≠ kind) : SameTimers kind w (w.addTimerTaskInLoop id timeout callback) := by
  have hfound : SameTimers kind w { w with
      timers := Function.update w.timers id (some (w.newTask id timeout callback)) } := by
    refine update hold fun u hu => ?_
    obtain rfl := Option.mem_some.mp hu
    exact hkind
  have hslot : (w.newTask id timeout callback).callback ≠ kind := hkind
  exact (hfound.trans (allocate (w.allocated + 1))).trans (push hslot timeout)

/-- A task of another kind is cancelled. -/
theorem cancel (hregistered : w.Registered running) {id : ℕ}
    (hold : ∀ u ∈ w.timers id, u.callback ≠ kind) :
    SameTimers kind w (w.cancelTimerTaskInLoop id) := by
  rw [cancelTimerTaskInLoop]
  cases hfound : w.timers id with
  | none => exact refl kind w
  | some tsp =>
    dsimp only
    by_cases hholds : w.Holds tsp
    · rw [if_pos hholds]
      refine ⟨fun _ => rfl, fun _ => rfl, fun u hu hholds' => Function.update_of_ne ?_ _ _⟩
      intro heq
      obtain rfl := hregistered.distinct u tsp (Or.inl hholds') (Or.inl hholds) heq
      exact hold u hfound hu
    · rw [if_neg hholds]
      exact refl kind w

end SameTimers

end TimerWheel

end Reactor
