/-
# Critical sections under a spin lock

Threads that run sections of code on a shared object, each behind a lock that is taken by an
atomic exchange.  At most one thread is inside its section, so the sections take effect one
after the other, each as if it were a single step; and as long as a thread wants the lock, one
more section comes to its end.
-/
import FastServer.Liveness

namespace CriticalSection

open TransitionSystem

variable {ι σ κ γ ρ : Type*}

/-! ## Code -/

/-- The code of the sections.  A call begins at its entry; a step at a point changes the object
and leads to another point or to the result.  A section has finitely many steps. -/
structure Code (σ κ γ ρ : Type*) where
  entry : κ → γ
  step : γ → σ → σ × (γ ⊕ ρ)
  rank : γ → ℕ
  rank_lt : ∀ c c' x, (step c x).2 = .inl c' → rank c' < rank c

namespace Code

/-- The rest of a section, run without interruption. -/
def finish (code : Code σ κ γ ρ) (c : γ) (x : σ) : σ × ρ :=
  match _ : (code.step c x).2 with
  | .inl c' => code.finish c' (code.step c x).1
  | .inr r => ((code.step c x).1, r)
termination_by code.rank c
decreasing_by exact code.rank_lt c c' x ‹_›

/-- A call, run without interruption. -/
def run (code : Code σ κ γ ρ) (k : κ) (x : σ) : σ × ρ := code.finish (code.entry k) x

variable {code : Code σ κ γ ρ} {c c' : γ} {x x' : σ} {r : ρ}

theorem finish_of_inl (h : code.step c x = (x', .inl c')) :
    code.finish c x = code.finish c' x' := by
  rw [finish]
  split
  · rename_i hpoint
    rw [h] at hpoint ⊢
    rw [Sum.inl.inj hpoint]
  · rename_i hpoint
    rw [h] at hpoint
    cases hpoint

theorem finish_of_inr (h : code.step c x = (x', .inr r)) : code.finish c x = (x', r) := by
  rw [finish]
  split
  · rename_i hpoint
    rw [h] at hpoint
    cases hpoint
  · rename_i hpoint
    rw [h] at hpoint ⊢
    rw [Sum.inr.inj hpoint]

end Code

/-- Calls with their results, one after the other from an object on, and the object then. -/
inductive Sequence (code : Code σ κ γ ρ) (x₀ : σ) : List (κ × ρ) → σ → Prop
  | nil : Sequence code x₀ [] x₀
  | concat {done : List (κ × ρ)} {x : σ} (k : κ) :
      Sequence code x₀ done x →
      Sequence code x₀ (done ++ [(k, (code.run k x).2)]) (code.run k x).1

/-! ## Threads -/

/-- Where a thread stands: outside, about to exchange the lock, waiting until the lock reads
free, inside its section, or about to free the lock. -/
inductive Point (κ γ : Type*)
  | idle
  | exchange (k : κ)
  | spin (k : κ)
  | inside (k : κ) (c : γ)
  | unlock
deriving DecidableEq

/-- The thread holds the lock. -/
def Point.Holds : Point κ γ → Prop
  | .inside _ _ | .unlock => True
  | _ => False

/-- The thread asks for the lock. -/
def Point.Waits : Point κ γ → Prop
  | .exchange _ | .spin _ => True
  | _ => False

/-- The thread has a section to finish. -/
def Point.Wants (p : Point κ γ) : Prop := p.Waits ∨ ∃ k c, p = .inside k c

/-- The lock, the object and the threads.  The sections that have come to their end are
history. -/
structure State (ι σ κ γ ρ : Type*) where
  lock_ : Bool
  object : σ
  point : ι → Point κ γ
  done : List (κ × ρ)

/-- Nobody has called yet. -/
def start (x₀ : σ) : State ι σ κ γ ρ := ⟨false, x₀, fun _ => .idle, []⟩

/-- A thread makes a call, or its next step. -/
inductive Action (ι κ : Type*)
  | call (i : ι) (k : κ)
  | step (i : ι)
deriving DecidableEq

/-- The thread of an action. -/
def Action.thread : Action ι κ → ι
  | .call i _ => i
  | .step i => i

variable [DecidableEq ι]

/-- A thread goes on to a point. -/
def State.move (s : State ι σ κ γ ρ) (i : ι) (p : Point κ γ) : State ι σ κ γ ρ :=
  { s with point := Function.update s.point i p }

/-- The next step of a thread. -/
def State.stepThread (code : Code σ κ γ ρ) (s : State ι σ κ γ ρ) (i : ι) :
    Option (State ι σ κ γ ρ) :=
  match s.point i with
  | .idle => none
  | .exchange k =>
      if s.lock_ then some (s.move i (.spin k))
      else some ({ s with lock_ := true }.move i (.inside k (code.entry k)))
  | .spin k => if s.lock_ then some s else some (s.move i (.exchange k))
  | .inside k c =>
      match code.step c s.object with
      | (x, .inl c') => some ({ s with object := x }.move i (.inside k c'))
      | (x, .inr r) => some ({ s with object := x, done := s.done ++ [(k, r)] }.move i .unlock)
  | .unlock => some ({ s with lock_ := false }.move i .idle)

/-- The state after an action, if it is enabled. -/
def next (code : Code σ κ γ ρ) (s : State ι σ κ γ ρ) : Action ι κ → Option (State ι σ κ γ ρ)
  | .call i k =>
      match s.point i with
      | .idle => some (s.move i (.exchange k))
      | _ => none
  | .step i => s.stepThread code i

/-- Threads that run the sections of some code on an object. -/
def system (ι : Type*) [DecidableEq ι] (code : Code σ κ γ ρ) (x₀ : σ) :
    TransitionSystem (State ι σ κ γ ρ) (Action ι κ) :=
  TransitionSystem.ofFunction (start x₀) (next code)

/-! ## What a step is -/

/-- The moves of a thread. -/
inductive Moves (code : Code σ κ γ ρ) (s : State ι σ κ γ ρ) (i : ι) : State ι σ κ γ ρ → Prop
  | call (k : κ) : s.point i = .idle → Moves code s i (s.move i (.exchange k))
  | refused (k : κ) : s.point i = .exchange k → s.lock_ = true →
      Moves code s i (s.move i (.spin k))
  | acquire (k : κ) : s.point i = .exchange k → s.lock_ = false →
      Moves code s i ({ s with lock_ := true }.move i (.inside k (code.entry k)))
  | spin (k : κ) : s.point i = .spin k → s.lock_ = true → Moves code s i s
  | retry (k : κ) : s.point i = .spin k → s.lock_ = false →
      Moves code s i (s.move i (.exchange k))
  | proceed (k : κ) (c c' : γ) (x : σ) : s.point i = .inside k c →
      code.step c s.object = (x, .inl c') →
      Moves code s i ({ s with object := x }.move i (.inside k c'))
  | finish (k : κ) (c : γ) (x : σ) (r : ρ) : s.point i = .inside k c →
      code.step c s.object = (x, .inr r) →
      Moves code s i ({ s with object := x, done := s.done ++ [(k, r)] }.move i .unlock)
  | unlock : s.point i = .unlock → Moves code s i ({ s with lock_ := false }.move i .idle)

variable {code : Code σ κ γ ρ} {x₀ : σ} {s s' : State ι σ κ γ ρ} {i j : ι}

theorem moves_of_next {a : Action ι κ} (h : next code s a = some s') :
    Moves code s a.thread s' := by
  cases a with
  | call i k =>
    rw [next] at h
    split at h
    · rename_i hpoint
      obtain rfl := Option.some.inj h
      exact .call k hpoint
    · exact absurd h.symm (Option.some_ne_none _)
  | step i =>
    rw [next, State.stepThread] at h
    split at h
    · exact absurd h.symm (Option.some_ne_none _)
    · rename_i k hpoint
      split_ifs at h with hlock
      · obtain rfl := Option.some.inj h
        exact .refused k hpoint hlock
      · obtain rfl := Option.some.inj h
        exact .acquire k hpoint (Bool.eq_false_iff.mpr hlock)
    · rename_i k hpoint
      split_ifs at h with hlock
      · obtain rfl := Option.some.inj h
        exact .spin k hpoint hlock
      · obtain rfl := Option.some.inj h
        exact .retry k hpoint (Bool.eq_false_iff.mpr hlock)
    · rename_i k c hpoint
      split at h
      · rename_i x c' hstep
        obtain rfl := Option.some.inj h
        exact .proceed k c c' x hpoint hstep
      · rename_i x r hstep
        obtain rfl := Option.some.inj h
        exact .finish k c x r hpoint hstep
    · rename_i hpoint
      obtain rfl := Option.some.inj h
      exact .unlock hpoint

@[simp] theorem point_move_self (s : State ι σ κ γ ρ) (i : ι) (p : Point κ γ) :
    (s.move i p).point i = p := Function.update_self ..

theorem point_move_of_ne (s : State ι σ κ γ ρ) (h : j ≠ i) (p : Point κ γ) :
    (s.move i p).point j = s.point j := Function.update_of_ne h _ _

/-- A thread moves only itself. -/
theorem Moves.point_of_ne (h : Moves code s i s') (hne : j ≠ i) : s'.point j = s.point j := by
  cases h <;> first | rfl | exact point_move_of_ne _ hne _

/-- A move ends one section at most. -/
theorem Moves.length_done (h : Moves code s i s') :
    s'.done = s.done ∨ s'.done.length = s.done.length + 1 := by
  cases h with
  | finish k c x r hpoint hstep =>
    refine Or.inr ?_
    show (s.done ++ [(k, r)]).length = _
    rw [List.length_append, List.length_singleton]
  | _ => exact Or.inl rfl

/-! ## One section after the other -/

/-- The lock belongs to nobody and the object is `x`; or it belongs to a thread whose section,
run to its end, leads from `x` to its result, or has ended with `x`. -/
def State.Owned (code : Code σ κ γ ρ) (s : State ι σ κ γ ρ) (x : σ) : Option ι → Prop
  | none => s.lock_ = false ∧ s.object = x ∧ ∀ j, ¬ (s.point j).Holds
  | some i => s.lock_ = true ∧ (∀ j, (s.point j).Holds → j = i) ∧
      ((∃ k c, s.point i = .inside k c ∧ code.finish c s.object = code.run k x) ∨
        s.point i = .unlock ∧ s.object = x)

/-- The sections that have ended took effect one after the other. -/
def State.Atomic (code : Code σ κ γ ρ) (x₀ : σ) (s : State ι σ κ γ ρ) : Prop :=
  ∃ x, Sequence code x₀ s.done x ∧ ∃ owner, s.Owned code x owner

omit [DecidableEq ι] in
theorem atomic_start : (start x₀ : State ι σ κ γ ρ).Atomic code x₀ :=
  ⟨x₀, .nil, none, rfl, rfl, fun _ h => h⟩

/-- A thread that does not hold the lock, and does not take it, leaves its owner as it is. -/
theorem State.Owned.move {x : σ} {owner : Option ι} (h : s.Owned code x owner) {p : Point κ γ}
    (hfrom : ¬ (s.point i).Holds) (hto : ¬ p.Holds) : (s.move i p).Owned code x owner := by
  have hholds : ∀ j, ((s.move i p).point j).Holds → (s.point j).Holds := by
    intro j hj
    by_cases hji : j = i
    · subst hji
      rw [point_move_self] at hj
      exact absurd hj hto
    · rwa [point_move_of_ne _ hji] at hj
  cases owner with
  | none => exact ⟨h.1, h.2.1, fun j hj => h.2.2 j (hholds j hj)⟩
  | some k =>
    have hne : k ≠ i := by
      rintro rfl
      rcases h.2.2 with ⟨_, _, hpoint, -⟩ | ⟨hpoint, -⟩
      · rw [hpoint] at hfrom
        exact hfrom trivial
      · rw [hpoint] at hfrom
        exact hfrom trivial
    refine ⟨h.1, fun j hj => h.2.1 j (hholds j hj), ?_⟩
    rw [point_move_of_ne _ hne]
    exact h.2.2

omit [DecidableEq ι] in
/-- Who holds the lock is its owner. -/
theorem State.Owned.eq_some {x : σ} {owner : Option ι} (h : s.Owned code x owner)
    (hi : (s.point i).Holds) : owner = some i := by
  cases owner with
  | none => exact absurd hi (h.2.2 i)
  | some k => rw [h.2.1 i hi]

/-- The owner moves on to a point where it holds the lock. -/
theorem only_move {p : Point κ γ} (honly : ∀ j, (s.point j).Holds → j = i) (j : ι)
    (hj : ((s.move i p).point j).Holds) : j = i := by
  by_contra hne
  rw [point_move_of_ne _ hne] at hj
  exact hne (honly j hj)

/-- **Every move keeps the sections in sequence.** -/
theorem State.Atomic.moves (h : s.Atomic code x₀) (hmove : Moves code s i s') :
    s'.Atomic code x₀ := by
  obtain ⟨x, hseq, owner, howned⟩ := h
  cases hmove with
  | call k hpoint =>
    exact ⟨x, hseq, owner, howned.move (by rw [hpoint]; exact id) id⟩
  | refused k hpoint hlock =>
    exact ⟨x, hseq, owner, howned.move (by rw [hpoint]; exact id) id⟩
  | acquire k hpoint hlock =>
    cases owner with
    | some j => exact absurd (hlock.symm.trans howned.1) Bool.false_ne_true
    | none =>
      obtain ⟨-, rfl, hnobody⟩ := howned
      refine ⟨s.object, hseq, some i, rfl, fun j hj => ?_, Or.inl ⟨k, _, point_move_self .., rfl⟩⟩
      exact only_move (fun j hj => absurd hj (hnobody j)) j hj
  | spin k hpoint hlock => exact ⟨x, hseq, owner, howned⟩
  | retry k hpoint hlock =>
    exact ⟨x, hseq, owner, howned.move (by rw [hpoint]; exact id) id⟩
  | proceed k c c' y hpoint hstep =>
    obtain rfl := howned.eq_some (by rw [hpoint]; trivial)
    obtain ⟨hlock, honly, ⟨k', c'', hpoint', hfinish⟩ | ⟨hpoint', -⟩⟩ := howned
    · rw [hpoint] at hpoint'
      obtain ⟨rfl, rfl⟩ := Point.inside.inj hpoint'
      rw [Code.finish_of_inl hstep] at hfinish
      exact ⟨x, hseq, some i, hlock, only_move honly,
        Or.inl ⟨k, c', point_move_self .., hfinish⟩⟩
    · rw [hpoint] at hpoint'
      cases hpoint'
  | finish k c y r hpoint hstep =>
    obtain rfl := howned.eq_some (by rw [hpoint]; trivial)
    obtain ⟨hlock, honly, ⟨k', c'', hpoint', hfinish⟩ | ⟨hpoint', -⟩⟩ := howned
    · rw [hpoint] at hpoint'
      obtain ⟨rfl, rfl⟩ := Point.inside.inj hpoint'
      rw [Code.finish_of_inr hstep] at hfinish
      have hseq := hseq.concat k
      rw [← hfinish] at hseq
      exact ⟨y, hseq, some i, hlock, only_move honly, Or.inr ⟨point_move_self .., rfl⟩⟩
    · rw [hpoint] at hpoint'
      cases hpoint'
  | unlock hpoint =>
    obtain rfl := howned.eq_some (by rw [hpoint]; trivial)
    obtain ⟨hlock, honly, ⟨k', c'', hpoint', -⟩ | ⟨-, hobject⟩⟩ := howned
    · rw [hpoint] at hpoint'
      cases hpoint'
    · refine ⟨x, hseq, none, rfl, hobject, fun j hj => ?_⟩
      obtain rfl := only_move honly j hj
      rw [point_move_self] at hj
      exact hj

/-- **Sections are atomic**, whatever the order of the steps. -/
theorem atomic_of_reachable (h : (system ι code x₀).Reachable s) : s.Atomic code x₀ := by
  apply h.invariant
  · rintro s rfl
    exact atomic_start
  · intro s a s' hs hstep
    exact hs.moves (moves_of_next hstep)

omit [DecidableEq ι] in
/-- **Mutual exclusion.** -/
theorem State.Atomic.eq_of_holds (h : s.Atomic code x₀) (hi : (s.point i).Holds)
    (hj : (s.point j).Holds) : i = j := by
  obtain ⟨x, -, owner, howned⟩ := h
  exact Option.some.inj ((howned.eq_some hi).symm.trans (howned.eq_some hj))

omit [DecidableEq ι] in
/-- The lock says whether a thread holds it. -/
theorem State.Atomic.lock_iff (h : s.Atomic code x₀) :
    s.lock_ = true ↔ ∃ i, (s.point i).Holds := by
  obtain ⟨x, -, owner, howned⟩ := h
  cases owner with
  | none =>
    refine ⟨fun hlock => absurd (howned.1.symm.trans hlock) Bool.false_ne_true, ?_⟩
    rintro ⟨i, hi⟩
    exact absurd hi (howned.2.2 i)
  | some i =>
    refine ⟨fun _ => ⟨i, ?_⟩, fun _ => howned.1⟩
    rcases howned.2.2 with ⟨k, c, hpoint, -⟩ | ⟨hpoint, -⟩
    · rw [hpoint]
      trivial
    · rw [hpoint]
      trivial

omit [DecidableEq ι] in
/-- Between the sections the object is what the sections have made of it. -/
theorem State.Atomic.sequence (h : s.Atomic code x₀) (hnobody : ∀ i, ¬ (s.point i).Holds) :
    Sequence code x₀ s.done s.object := by
  obtain ⟨x, hseq, owner, howned⟩ := h
  cases owner with
  | none => exact howned.2.1 ▸ hseq
  | some i =>
    refine absurd ?_ (hnobody i)
    rcases howned.2.2 with ⟨k, c, hpoint, -⟩ | ⟨hpoint, -⟩
    · rw [hpoint]
      trivial
    · rw [hpoint]
      trivial

/-! ## Progress -/

/-- Every thread that is in a call is scheduled again and again. -/
def Fair (run : InfiniteRun (system ι code x₀)) : Prop :=
  ∀ i, run.Takes (fun s => s.point i ≠ .idle) fun _ a => a = .step i

/-- A thread that is in a call makes no other one. -/
theorem eq_step {a : Action ι κ} (h : next code s a = some s') (hbusy : s.point i ≠ .idle)
    (hthread : i = a.thread) : a = .step i := by
  subst hthread
  cases a with
  | step i => rfl
  | call i k =>
    rw [next] at h
    split at h
    · rename_i hidle
      exact absurd hidle hbusy
    · exact absurd h.symm (Option.some_ne_none _)

section Progress

variable {run : InfiniteRun (system ι code x₀)} {n : ℕ}

/-- A thread inside its section comes to its end, unless another one does before. -/
theorem inside_leadsTo (hfair : Fair run) (i : ι) :
    run.LeadsTo (fun s => (∃ k c, s.point i = .inside k c) ∧ s.done.length = n)
      (fun s => n < s.done.length) := by
  refine InfiniteRun.leadsTo_of_rank (C := fun _ a => a = .step i)
    (fun s => match s.point i with | .inside _ c => code.rank c | _ => 0) ?_ ?_ ?_
  · rintro m ⟨⟨k, c, hpoint⟩, -⟩
    exact hfair i m fun hidle => by cases hpoint.symm.trans hidle
  · rintro s a s' - hstep ⟨⟨k, c, hpoint⟩, hdone⟩ hother
    have hmove := moves_of_next hstep
    have hne : i ≠ a.thread := fun hi =>
      hother (eq_step hstep (fun hidle => by cases hpoint.symm.trans hidle) hi)
    rcases hmove.length_done with heq | hlength
    · refine Or.inr ⟨⟨⟨k, c, (hmove.point_of_ne hne).trans hpoint⟩, by rw [heq, hdone]⟩, ?_⟩
      rw [hmove.point_of_ne hne]
    · exact Or.inl (by omega)
  · rintro s a s' - hstep ⟨⟨k, c, hpoint⟩, hdone⟩ rfl
    have hmove : Moves code s i s' := moves_of_next hstep
    cases hmove with
    | proceed k' c₁ c' x hpoint' hcode =>
      obtain ⟨rfl, rfl⟩ := Point.inside.inj (hpoint.symm.trans hpoint')
      refine Or.inr ⟨⟨⟨k, c', point_move_self ..⟩, hdone⟩, ?_⟩
      rw [point_move_self, hpoint]
      exact code.rank_lt c c' s.object (by rw [hcode])
    | finish k' c₁ x r hpoint' hcode =>
      refine Or.inl ?_
      show n < (s.done ++ [(k', r)]).length
      rw [List.length_append, hdone, List.length_singleton]
      exact Nat.lt_succ_self n
    | call _ hpoint' => cases hpoint.symm.trans hpoint'
    | refused _ hpoint' _ => cases hpoint.symm.trans hpoint'
    | acquire _ hpoint' _ => cases hpoint.symm.trans hpoint'
    | spin _ hpoint' _ => cases hpoint.symm.trans hpoint'
    | retry _ hpoint' _ => cases hpoint.symm.trans hpoint'
    | unlock hpoint' => cases hpoint.symm.trans hpoint'

/-- A free lock is taken by one of the threads that ask for it. -/
theorem free_leadsTo (hfair : Fair run) (i : ι) :
    run.LeadsTo (fun s => (s.point i).Waits ∧ s.lock_ = false ∧ s.done.length = n)
      (fun s => (∃ j k c, s.point j = .inside k c) ∧ s.done.length = n ∨ n < s.done.length) := by
  refine InfiniteRun.leadsTo_of_rank (C := fun _ a => a = .step i)
    (fun s => match s.point i with | .spin _ => 1 | _ => 0) ?_ ?_ ?_
  · rintro m ⟨hwaits, -⟩
    exact hfair i m fun hidle => by rw [hidle] at hwaits; exact hwaits
  · rintro s a s' - hstep ⟨hwaits, hlock, hdone⟩ hother
    have hmove := moves_of_next hstep
    have hne : i ≠ a.thread := fun hi =>
      hother (eq_step hstep (fun hidle => by rw [hidle] at hwaits; exact hwaits) hi)
    have hpoint := hmove.point_of_ne hne
    have hwaits' : (s'.point i).Waits := hpoint ▸ hwaits
    cases hmove with
    | acquire k _ _ =>
      exact Or.inl (Or.inl ⟨⟨a.thread, k, code.entry k, point_move_self ..⟩, hdone⟩)
    | proceed k _ c' x _ _ =>
      exact Or.inl (Or.inl ⟨⟨a.thread, k, c', point_move_self ..⟩, hdone⟩)
    | finish k c x r _ _ =>
      refine Or.inl (Or.inr ?_)
      show n < (s.done ++ [(k, r)]).length
      rw [List.length_append, hdone, List.length_singleton]
      exact Nat.lt_succ_self n
    | call _ _ => exact Or.inr ⟨⟨hwaits', hlock, hdone⟩, by rw [hpoint]⟩
    | refused _ _ hheld => exact absurd (hlock.symm.trans hheld) Bool.false_ne_true
    | spin _ _ hheld => exact absurd (hlock.symm.trans hheld) Bool.false_ne_true
    | retry _ _ _ => exact Or.inr ⟨⟨hwaits', hlock, hdone⟩, by rw [hpoint]⟩
    | unlock _ => exact Or.inr ⟨⟨hwaits', rfl, hdone⟩, by rw [hpoint]⟩
  · rintro s a s' - hstep ⟨hwaits, hlock, hdone⟩ rfl
    have hmove : Moves code s i s' := moves_of_next hstep
    cases hmove with
    | acquire k _ _ =>
      exact Or.inl (Or.inl ⟨⟨i, k, code.entry k, point_move_self ..⟩, hdone⟩)
    | retry k hpoint _ =>
      refine Or.inr ⟨⟨?_, hlock, hdone⟩, ?_⟩
      · rw [point_move_self]
        trivial
      · rw [point_move_self, hpoint]
        exact Nat.one_pos
    | refused _ _ hheld => exact absurd (hlock.symm.trans hheld) Bool.false_ne_true
    | spin _ _ hheld => exact absurd (hlock.symm.trans hheld) Bool.false_ne_true
    | call _ hpoint => rw [hpoint] at hwaits; exact hwaits.elim
    | proceed _ _ _ _ hpoint _ => rw [hpoint] at hwaits; exact hwaits.elim
    | finish _ _ _ _ hpoint _ => rw [hpoint] at hwaits; exact hwaits.elim
    | unlock hpoint => rw [hpoint] at hwaits; exact hwaits.elim

/-- A thread whose section has ended frees the lock, while the others go on asking for it. -/
theorem unlock_leadsTo (hfair : Fair run) (i j : ι) :
    run.LeadsTo (fun s => s.point j = .unlock ∧ (s.point i).Waits ∧ s.done.length = n)
      (fun s => ((s.point i).Waits ∧ s.lock_ = false ∧ s.done.length = n) ∨
        n < s.done.length) := by
  refine InfiniteRun.leadsTo_of_rank (C := fun _ a => a = .step j) (fun _ => 0) ?_ ?_ ?_
  · rintro m ⟨hpoint, -⟩
    exact hfair j m fun hidle => by cases hpoint.symm.trans hidle
  · rintro s a s' hreach hstep ⟨hpoint, hwaits, hdone⟩ hother
    have hmove := moves_of_next hstep
    have hne : j ≠ a.thread := fun hj =>
      hother (eq_step hstep (fun hidle => by cases hpoint.symm.trans hidle) hj)
    have hheld : s.lock_ = true :=
      (atomic_of_reachable hreach).lock_iff.mpr ⟨j, by rw [hpoint]; trivial⟩
    rcases hmove.length_done with heq | hlength
    · refine Or.inr ⟨⟨(hmove.point_of_ne hne).trans hpoint, ?_, by rw [heq, hdone]⟩, le_rfl⟩
      by_cases hi : i = a.thread
      · subst hi
        cases hmove with
        | refused _ _ _ => rw [point_move_self]; trivial
        | spin _ _ _ => exact hwaits
        | acquire _ _ hfree => exact absurd (hfree.symm.trans hheld) Bool.false_ne_true
        | retry _ _ hfree => exact absurd (hfree.symm.trans hheld) Bool.false_ne_true
        | call _ hpoint => rw [hpoint] at hwaits; exact hwaits.elim
        | proceed _ _ _ _ hpoint _ => rw [hpoint] at hwaits; exact hwaits.elim
        | finish _ _ _ _ hpoint _ => rw [hpoint] at hwaits; exact hwaits.elim
        | unlock hpoint => rw [hpoint] at hwaits; exact hwaits.elim
      · rw [hmove.point_of_ne hi]
        exact hwaits
    · exact Or.inl (Or.inr (by omega))
  · rintro s a s' - hstep ⟨hpoint, hwaits, hdone⟩ rfl
    have hmove : Moves code s j s' := moves_of_next hstep
    have hij : i ≠ j := by
      rintro rfl
      rw [hpoint] at hwaits
      exact hwaits
    have hwaits' : (s'.point i).Waits := hmove.point_of_ne hij ▸ hwaits
    cases hmove with
    | unlock _ => exact Or.inl (Or.inl ⟨hwaits', rfl, hdone⟩)
    | call _ hpoint' => cases hpoint.symm.trans hpoint'
    | refused _ hpoint' _ => cases hpoint.symm.trans hpoint'
    | acquire _ hpoint' _ => cases hpoint.symm.trans hpoint'
    | spin _ hpoint' _ => cases hpoint.symm.trans hpoint'
    | retry _ hpoint' _ => cases hpoint.symm.trans hpoint'
    | proceed _ _ _ _ hpoint' _ => cases hpoint.symm.trans hpoint'
    | finish _ _ _ _ hpoint' _ => cases hpoint.symm.trans hpoint'

/-- **Progress**: as long as a thread has a section to finish, one more section ends. -/
theorem wants_leadsTo (hfair : Fair run) :
    run.LeadsTo (fun s => (∃ i, (s.point i).Wants) ∧ s.done.length = n)
      (fun s => n < s.done.length) := by
  have hinside : run.LeadsTo
      (fun s => (∃ j k c, s.point j = .inside k c) ∧ s.done.length = n ∨ n < s.done.length)
      (fun s => n < s.done.length) := by
    rintro m (⟨⟨j, k, c, hpoint⟩, hdone⟩ | hlt)
    · exact inside_leadsTo hfair j m ⟨⟨k, c, hpoint⟩, hdone⟩
    · exact ⟨m, le_rfl, hlt⟩
  have hfree : ∀ i, run.LeadsTo
      (fun s => (s.point i).Waits ∧ s.lock_ = false ∧ s.done.length = n)
      (fun s => n < s.done.length) := fun i => (free_leadsTo hfair i).trans hinside
  rintro m ⟨⟨i, hwaits | ⟨k, c, hpoint⟩⟩, hdone⟩
  · rcases hlock : (run.state m).lock_ with _ | _
    · exact hfree i m ⟨hwaits, hlock, hdone⟩
    · obtain ⟨j, hj⟩ := (atomic_of_reachable (run.reachable m)).lock_iff.mp hlock
      rcases hpoint : (run.state m).point j with _ | _ | _ | ⟨k, c⟩ | _
      · rw [hpoint] at hj; exact hj.elim
      · rw [hpoint] at hj; exact hj.elim
      · rw [hpoint] at hj; exact hj.elim
      · exact inside_leadsTo hfair j m ⟨⟨k, c, hpoint⟩, hdone⟩
      · obtain ⟨m', hm, hwaits | hlt⟩ := unlock_leadsTo hfair i j m ⟨hpoint, hwaits, hdone⟩
        · obtain ⟨m'', hm', hlt⟩ := hfree i m' hwaits
          exact ⟨m'', hm.trans hm', hlt⟩
        · exact ⟨m', hm, hlt⟩
  · exact inside_leadsTo hfair i m ⟨⟨k, c, hpoint⟩, hdone⟩

end Progress

end CriticalSection
