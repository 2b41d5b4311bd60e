/-
# Labelled transition systems

Runs of a component as sequences of labelled steps.  A property that the initial
states have and every step keeps holds in every state reached; a run may be
restricted to steps that meet a side condition.
-/
import Mathlib

/-- A labelled transition system. -/
structure TransitionSystem (σ α : Type*) where
  init : σ → Prop
  step : σ → α → σ → Prop

namespace TransitionSystem

variable {σ α : Type*} {sys : TransitionSystem σ α}

/-! ## Runs -/

/-- The states reached by runs all of whose steps meet `ok`. -/
inductive ReachableBy (sys : TransitionSystem σ α) (ok : σ → α → Prop) : σ → Prop
  | init {s : σ} : sys.init s → ReachableBy sys ok s
  | step {s s' : σ} {a : α} :
      ReachableBy sys ok s → ok s a → sys.step s a s' → ReachableBy sys ok s'

/-- The states reached by any run. -/
abbrev Reachable (sys : TransitionSystem σ α) : σ → Prop :=
  ReachableBy sys (fun _ _ => True)

/-- Restricting the steps restricts the states reached. -/
theorem ReachableBy.reachable {ok : σ → α → Prop} {s : σ} (h : ReachableBy sys ok s) :
    Reachable sys s := by
  induction h with
  | init hi => exact .init hi
  | step _ _ hstep ih => exact .step ih trivial hstep

/-! ## Invariants -/

/-- **The invariant rule.**  What the initial states have and every admitted step
keeps holds wherever a run leads. -/
theorem ReachableBy.invariant {ok : σ → α → Prop} {P : σ → Prop}
    (hinit : ∀ s, sys.init s → P s)
    (hstep : ∀ s a s', P s → ok s a → sys.step s a s' → P s')
    {s : σ} (h : ReachableBy sys ok s) : P s := by
  induction h with
  | init hi => exact hinit _ hi
  | step _ hok hs ih => exact hstep _ _ _ ih hok hs

/-- The invariant rule for unrestricted runs. -/
theorem Reachable.invariant {P : σ → Prop} (hinit : ∀ s, sys.init s → P s)
    (hstep : ∀ s a s', P s → sys.step s a s' → P s') {s : σ} (h : Reachable sys s) : P s :=
  ReachableBy.invariant hinit (fun s a s' hs _ => hstep s a s' hs) h

/-! ## Deterministic systems -/

/-- A system with one initial state given by a partial function: a label either
leads to one state or is not enabled. -/
def ofFunction (start : σ) (next : σ → α → Option σ) : TransitionSystem σ α where
  init := fun s => s = start
  step := fun s a s' => next s a = some s'

/-- The state after a list of labels, if all are enabled and meet `ok`. -/
def runFrom (next : σ → α → Option σ) (ok : σ → α → Prop) [∀ s a, Decidable (ok s a)] (s : σ) :
    List α → Option σ
  | [] => some s
  | a :: as => if ok s a then (next s a).bind fun s' => runFrom next ok s' as else none

/-- A run that can be computed reaches its last state. -/
theorem ReachableBy.of_runFrom {start : σ} {next : σ → α → Option σ} {ok : σ → α → Prop}
    [∀ s a, Decidable (ok s a)] :
    ∀ {as : List α} {s s' : σ}, ReachableBy (ofFunction start next) ok s →
      runFrom next ok s as = some s' → ReachableBy (ofFunction start next) ok s'
  | [], s, s', h, hrun => by
      obtain rfl : s = s' := Option.some.inj hrun
      exact h
  | a :: as, s, s', h, hrun => by
      rw [runFrom] at hrun
      split_ifs at hrun with hok
      obtain ⟨t, ht, hrun⟩ := Option.bind_eq_some_iff.mp hrun
      exact of_runFrom (.step h hok ht) hrun

/-- A run may begin with one more step. -/
theorem ReachableBy.of_step {next : σ → α → Option σ} {ok : σ → α → Prop} {s t s' : σ} {a : α}
    (hok : ok s a) (hstep : next s a = some t) (h : ReachableBy (ofFunction t next) ok s') :
    ReachableBy (ofFunction s next) ok s' := by
  induction h with
  | init hinit =>
    obtain rfl := hinit
    exact .step (.init rfl) hok hstep
  | step _ hok' hstep' ih => exact .step ih hok' hstep'

/-- The invariant rule for a run that can be computed, from any state on. -/
theorem runFrom_invariant {next : σ → α → Option σ} {ok : σ → α → Prop}
    [∀ s a, Decidable (ok s a)] {as : List α} {P : σ → Prop} {s s' : σ}
    (hstep : ∀ s a s', P s → ok s a → next s a = some s' → P s')
    (hrun : runFrom next ok s as = some s') (hs : P s) : P s' := by
  have hreach : ReachableBy (ofFunction s next) ok s' := .of_runFrom (.init rfl) hrun
  refine hreach.invariant ?_ hstep
  rintro t rfl
  exact hs

/-- A property that the last state of a computed run has is found among the states
reached. -/
theorem exists_of_runFrom {start : σ} {next : σ → α → Option σ} {ok : σ → α → Prop}
    [∀ s a, Decidable (ok s a)] {as : List α} {P : σ → Prop}
    (h : ∃ s ∈ runFrom next ok start as, P s) :
    ∃ s, ReachableBy (ofFunction start next) ok s ∧ P s := by
  obtain ⟨s, hrun, hP⟩ := h
  exact ⟨s, ReachableBy.of_runFrom (.init rfl) hrun, hP⟩

/-! ## Properties of steps -/

/-- Every step of the run from `s` with the labels `as` has the property `P`.  The run
ends at a label that is not enabled. -/
def Along (next : σ → α → Option σ) (P : σ → α → σ → Prop) (s : σ) : List α → Prop
  | [] => True
  | a :: as => ∀ s', next s a = some s' → P s a s' ∧ Along next P s' as

/-- **Two properties of steps** that agree wherever an invariant holds agree along every
run. -/
theorem along_iff_of_invariant {next : σ → α → Option σ} {I : σ → Prop}
    {P Q : σ → α → σ → Prop} (hkeep : ∀ s a s', I s → next s a = some s' → I s')
    (hiff : ∀ s a s', I s → next s a = some s' → (P s a s' ↔ Q s a s')) :
    ∀ {as : List α} {s : σ}, I s → (Along next P s as ↔ Along next Q s as)
  | [], _, _ => Iff.rfl
  | a :: as, s, hs => by
      rw [Along, Along]
      apply forall_congr'
      intro s'
      apply imp_congr_right
      intro hstep
      rw [hiff s a s' hs hstep,
        along_iff_of_invariant hkeep hiff (hkeep s a s' hs hstep)]

/-- **A property of states that depends on the last step only** holds along a run exactly if
its steps meet the condition, as long as an invariant holds. -/
theorem along_state_iff_of_invariant {next : σ → α → Option σ} {I K : σ → Prop}
    {Q : σ → α → Prop} (hkeep : ∀ s a s', I s → next s a = some s' → I s')
    (hiff : ∀ s a s', I s → K s → next s a = some s' → (K s' ↔ Q s a)) :
    ∀ {as : List α} {s : σ}, I s → K s →
      (Along next (fun _ _ s' => K s') s as ↔ Along next (fun s a _ => Q s a) s as)
  | [], _, _, _ => Iff.rfl
  | a :: as, s, hs, hk => by
      rw [Along, Along]
      apply forall_congr'
      intro s'
      apply imp_congr_right
      intro hstep
      have hlast := hiff s a s' hs hk hstep
      rw [hlast]
      apply and_congr_right
      intro hq
      exact along_state_iff_of_invariant hkeep hiff (hkeep s a s' hs hstep) (hlast.mpr hq)

/-- The step after a run that can be computed is one of the steps along the longer run. -/
theorem Along.last {next : σ → α → Option σ} {ok : σ → α → Prop} [∀ s a, Decidable (ok s a)]
    {P : σ → α → σ → Prop} {a : α} {t t' : σ} (hstep : next t a = some t') :
    ∀ {as : List α} {s : σ}, Along next P s (as ++ [a]) → runFrom next ok s as = some t →
      P t a t'
  | [], s, h, hrun => by
      obtain rfl : s = t := Option.some.inj hrun
      exact (h t' hstep).1
  | b :: as, s, h, hrun => by
      rw [runFrom] at hrun
      split_ifs at hrun with hok
      obtain ⟨u, hu, hrun⟩ := Option.bind_eq_some_iff.mp hrun
      exact last hstep (h u hu).2 hrun

end TransitionSystem
