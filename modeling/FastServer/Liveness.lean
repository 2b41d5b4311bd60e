/-
# What infinite runs lead to

Infinite runs of a labelled transition system, in which nothing may happen for any number of
steps.  A property leads to another if the steps of a kind that is taken again and again
bring it closer, and no other step takes it further away.
-/
import FastServer.TransitionSystem

namespace TransitionSystem

variable {σ α : Type*} {sys : TransitionSystem σ α}

/-- An infinite run; a step without a label leaves the state as it is. -/
structure InfiniteRun (sys : TransitionSystem σ α) where
  state : ℕ → σ
  label : ℕ → Option α
  init : sys.init (state 0)
  idle : ∀ n, label n = none → state (n + 1) = state n
  step : ∀ n, ∀ a ∈ label n, sys.step (state n) a (state (n + 1))

namespace InfiniteRun

variable (run : InfiniteRun sys)

/-- An infinite run visits reachable states. -/
theorem reachable (n : ℕ) : sys.Reachable (run.state n) := by
  induction n with
  | zero => exact .init run.init
  | succ n ih =>
    rcases hlabel : run.label n with _ | a
    · rw [run.idle n hlabel]
      exact ih
    · exact .step ih trivial (run.step n a hlabel)

/-- What every step of a run keeps, stays. -/
theorem stays_of_step (P : σ → Prop)
    (hstep : ∀ m, ∀ a ∈ run.label m, P (run.state m) → P (run.state (m + 1))) {n m : ℕ}
    (hnm : n ≤ m) (hP : P (run.state n)) : P (run.state m) := by
  induction m, hnm using Nat.le_induction with
  | base => exact hP
  | succ m _ ih =>
    rcases hlabel : run.label m with _ | a
    · rwa [run.idle m hlabel]
    · exact hstep m a hlabel ih

/-- From every state with the one property the run comes to a state with the other. -/
def LeadsTo (P Q : σ → Prop) : Prop := ∀ n, P (run.state n) → ∃ m, n ≤ m ∧ Q (run.state m)

/-- At every state with the property, a step that meets the condition is still to come. -/
def Takes (P : σ → Prop) (C : σ → α → Prop) : Prop :=
  ∀ n, P (run.state n) → ∃ m, n ≤ m ∧ ∃ a ∈ run.label m, C (run.state m) a

variable {run}

theorem LeadsTo.of_imp {P Q : σ → Prop} (h : ∀ n, P (run.state n) → Q (run.state n)) :
    run.LeadsTo P Q := fun n hP => ⟨n, le_rfl, h n hP⟩

theorem LeadsTo.trans {P Q R : σ → Prop} (h : run.LeadsTo P Q) (h' : run.LeadsTo Q R) :
    run.LeadsTo P R := by
  intro n hP
  obtain ⟨m, hnm, hQ⟩ := h n hP
  obtain ⟨k, hmk, hR⟩ := h' m hQ
  exact ⟨k, hnm.trans hmk, hR⟩

/-- Two ways to the same end. -/
theorem LeadsTo.or {P P' Q : σ → Prop} (h : run.LeadsTo P Q) (h' : run.LeadsTo P' Q) :
    run.LeadsTo (fun s => P s ∨ P' s) Q := by
  rintro n (hP | hP)
  · exact h n hP
  · exact h' n hP

/-- Until a step of the kind, the property stays and the rank does not grow, or the end is
reached. -/
theorem stays {β : Type*} [Preorder β] {P Q : σ → Prop} {C : σ → α → Prop} (f : σ → β)
    (hstay : ∀ s a s', sys.Reachable s → sys.step s a s' → P s → ¬ C s a →
      Q s' ∨ P s' ∧ f s' ≤ f s) {n m : ℕ} (hnm : n ≤ m) (hP : P (run.state n))
    (hother : ∀ k, n ≤ k → k < m → ∀ a ∈ run.label k, ¬ C (run.state k) a) :
    (∃ k, n ≤ k ∧ Q (run.state k)) ∨ P (run.state m) ∧ f (run.state m) ≤ f (run.state n) := by
  induction m, hnm using Nat.le_induction with
  | base => exact Or.inr ⟨hP, le_rfl⟩
  | succ m hnm ih =>
    rcases ih fun k hnk hkm => hother k hnk (hkm.trans (Nat.lt_succ_self m)) with hQ | ⟨hPm, hle⟩
    · exact Or.inl hQ
    · rcases hlabel : run.label m with _ | a
      · rw [run.idle m hlabel]
        exact Or.inr ⟨hPm, hle⟩
      · rcases hstay _ a _ (run.reachable m) (run.step m a hlabel) hPm
          (hother m hnm (Nat.lt_succ_self m) a hlabel) with hQ | ⟨hPm', hle'⟩
        · exact Or.inl ⟨m + 1, hnm.trans (Nat.le_succ m), hQ⟩
        · exact Or.inr ⟨hPm', hle'.trans hle⟩

/-- **The rank rule.**  Steps of a kind that is taken again and again lower the rank or reach
the end, and no other step raises it.  The ranks may be of any well-founded order. -/
theorem leadsTo_of_wellFounded {β : Type*} [Preorder β] [WellFoundedLT β] {P Q : σ → Prop}
    {C : σ → α → Prop} (f : σ → β) (hfair : run.Takes P C)
    (hstay : ∀ s a s', sys.Reachable s → sys.step s a s' → P s → ¬ C s a →
      Q s' ∨ P s' ∧ f s' ≤ f s)
    (hlower : ∀ s a s', sys.Reachable s → sys.step s a s' → P s → C s a →
      Q s' ∨ P s' ∧ f s' < f s) : run.LeadsTo P Q := by
  classical
  suffices hrank : ∀ r n, f (run.state n) = r → P (run.state n) →
      ∃ m, n ≤ m ∧ Q (run.state m) from fun n hP => hrank _ n rfl hP
  intro r
  induction r using WellFoundedLT.induction with
  | ind r ih =>
    intro n hr hP
    -- the first step of the kind from here on
    have htaken := hfair n hP
    obtain ⟨hnm, a, hlabel, hC⟩ := Nat.find_spec htaken
    have hfirst : ∀ k, n ≤ k → k < Nat.find htaken → ∀ b ∈ run.label k, ¬ C (run.state k) b :=
      fun k hnk hkm b hb hCb => Nat.find_min htaken hkm ⟨hnk, b, hb, hCb⟩
    rcases stays f hstay hnm hP hfirst with hQ | ⟨hPm, hle⟩
    · exact hQ
    · have hstep := run.step _ a hlabel
      rcases hlower _ a _ (run.reachable _) hstep hPm hC with hQ | ⟨hPm', hlt⟩
      · exact ⟨_, hnm.trans (Nat.le_succ _), hQ⟩
      · obtain ⟨k, hmk, hQ⟩ := ih _ (hlt.trans_le (hle.trans hr.le)) _ rfl hPm'
        exact ⟨k, (hnm.trans (Nat.le_succ _)).trans hmk, hQ⟩

/-- The rank rule for numbers. -/
theorem leadsTo_of_rank {P Q : σ → Prop} {C : σ → α → Prop} (f : σ → ℕ) (hfair : run.Takes P C)
    (hstay : ∀ s a s', sys.Reachable s → sys.step s a s' → P s → ¬ C s a →
      Q s' ∨ P s' ∧ f s' ≤ f s)
    (hlower : ∀ s a s', sys.Reachable s → sys.step s a s' → P s → C s a →
      Q s' ∨ P s' ∧ f s' < f s) : run.LeadsTo P Q :=
  leadsTo_of_wellFounded f hfair hstay hlower

/-- A property that lets a bounded measure grow does not last. -/
theorem leadsTo_of_grows {P : σ → Prop} (f : σ → ℕ) (bound : ℕ)
    (hbound : ∀ n, P (run.state n) → f (run.state n) ≤ bound)
    (hgrows : ∀ k, run.LeadsTo (fun s => P s ∧ f s = k) fun s => k < f s) :
    run.LeadsTo P fun s => ¬ P s := by
  intro n hP
  induction hk : bound - f (run.state n) using Nat.strong_induction_on generalizing n with
  | _ k ih =>
    have hle := hbound n hP
    obtain ⟨m, hnm, hlt⟩ := hgrows _ n ⟨hP, rfl⟩
    by_cases hPm : P (run.state m)
    · have hle' := hbound m hPm
      obtain ⟨m', hm', hnot⟩ := ih (bound - f (run.state m)) (by omega) m hPm rfl
      exact ⟨m', hnm.trans hm', hnot⟩
    · exact ⟨m, hnm, hPm⟩

/-! ## Runs of finitely many steps -/

variable {start : σ} {next : σ → α → Option σ}

theorem runFrom_append {s : σ} {as bs : List α} :
    runFrom next (fun _ _ => True) s (as ++ bs) =
      (runFrom next (fun _ _ => True) s as).bind fun t => runFrom next (fun _ _ => True) t bs := by
  induction as generalizing s with
  | nil => rfl
  | cons a as ih =>
    rw [List.cons_append, runFrom, runFrom, if_pos trivial, if_pos trivial, Option.bind_assoc]
    exact congrArg _ (funext fun t => ih)

/-- The state after the first steps of a list. -/
def stateAfter (start : σ) (next : σ → α → Option σ) (as : List α) (n : ℕ) : σ :=
  (runFrom next (fun _ _ => True) start (as.take n)).getD start

theorem runFrom_take {as : List α} (h : (runFrom next (fun _ _ => True) start as).isSome = true)
    (n : ℕ) : runFrom next (fun _ _ => True) start (as.take n) = some (stateAfter start next as n) := by
  rw [← List.take_append_drop n as, runFrom_append] at h
  rw [stateAfter]
  cases hrun : runFrom next (fun _ _ => True) start (as.take n) with
  | none =>
    rw [hrun] at h
    cases h
  | some t => rfl

/-- The steps of a list, and nothing after them. -/
def ofList (as : List α) (h : (runFrom next (fun _ _ => True) start as).isSome = true) :
    InfiniteRun (ofFunction start next) where
  state := stateAfter start next as
  label := fun n => as[n]?
  init := by
    show stateAfter start next as 0 = start
    rw [stateAfter, List.take_zero]
    rfl
  idle := by
    intro n hlabel
    have hlength : as.length ≤ n := List.getElem?_eq_none_iff.mp hlabel
    rw [stateAfter, stateAfter, List.take_of_length_le hlength,
      List.take_of_length_le (hlength.trans (Nat.le_succ n))]
  step := by
    intro n a hlabel
    have hlast : as.take (n + 1) = as.take n ++ [a] := by
      rw [List.take_add_one, Option.mem_def.mp hlabel]
      rfl
    have hrun := runFrom_take h (n + 1)
    rw [hlast, runFrom_append, runFrom_take h n, Option.bind_some, runFrom, if_pos trivial] at hrun
    obtain ⟨t, hnext, heq⟩ := Option.bind_eq_some_iff.mp hrun
    obtain rfl := Option.some.inj heq
    exact hnext

/-- What is still to come in a list of steps. -/
theorem takes_ofList {as : List α} (h : (runFrom next (fun _ _ => True) start as).isSome = true)
    {P : σ → Prop} {C : σ → α → Prop} (hlast : ¬ P (stateAfter start next as as.length))
    (htakes : ∀ n < as.length, P (stateAfter start next as n) →
      ∃ m < as.length, n ≤ m ∧ ∃ a ∈ as[m]?, C (stateAfter start next as m) a) :
    (ofList as h).Takes P C := by
  intro n hP
  rcases Nat.lt_or_ge n as.length with hlt | hge
  · obtain ⟨m, -, hnm, htaken⟩ := htakes n hlt hP
    exact ⟨m, hnm, htaken⟩
  · have hstate : stateAfter start next as n = stateAfter start next as as.length := by
      rw [stateAfter, stateAfter, List.take_of_length_le hge, List.take_length]
    have hP' : P (stateAfter start next as n) := hP
    rw [hstate] at hP'
    exact absurd hP' hlast

end InfiniteRun

end TransitionSystem
