/-
# Every pushed task is executed

In an infinite run of an event loop every task that enters the queue is executed, provided
that the loop thread goes on, that `epoll_wait` returns while the eventfd is readable, and
that a thread that has pushed a task goes on to write to the eventfd.
-/
import FastServer.EventLoop
import FastServer.Liveness

open TransitionSystem

namespace Reactor

/-! ## Where the loop stands -/

section RunPoint

variable {τ : Type*}

/-- The loop is between its swap and `epoll_wait`, or before `Run`. -/
def RunPoint.AfterSwap : RunPoint τ → Prop
  | .starting | .unlocking _ | .running _ | .executing _ _ => True
  | _ => False

/-- How far the execution of a swapped task is, apart from the tasks before it. -/
def RunPoint.toExecute : RunPoint τ → ℕ
  | .unlocking _ | .executing _ _ => 1
  | _ => 0

/-- How far the swap is. -/
def RunPoint.toSwap : RunPoint τ → ℕ
  | .dispatching actives => 2 * actives.length + 2
  | .reading actives | .handling _ actives => 2 * actives.length + 3
  | .locking => 1
  | _ => 0

/-- How far `epoll_wait` is. -/
def RunPoint.toWait : RunPoint τ → ℕ
  | .starting => 1
  | .running tasks => 2 * tasks.length + 1
  | .unlocking tasks | .executing _ tasks => 2 * tasks.length + 2
  | _ => 0

theorem RunPoint.cases (p : RunPoint τ) : p = .waiting ∨ p.BeforeSwap ∨ p.AfterSwap := by
  cases p <;> simp [RunPoint.BeforeSwap, RunPoint.AfterSwap]

theorem RunPoint.BeforeSwap.ne_waiting {p : RunPoint τ} (h : p.BeforeSwap) : p ≠ .waiting := by
  rintro rfl
  exact h

theorem RunPoint.AfterSwap.ne_waiting {p : RunPoint τ} (h : p.AfterSwap) : p ≠ .waiting := by
  rintro rfl
  exact h

end RunPoint

namespace EventLoop

variable {τ : Type*} {thread_id : ℕ} {s s' : EventLoop τ} {a : Action τ}

/-! ## Fair runs -/

/-- A step of the loop thread in `Run`. -/
def Action.Runs : Action τ → Prop
  | .proceed | .interrupt => True
  | _ => False

/-- `epoll_wait` returns. -/
def Action.Returns : Action τ → Prop
  | .epollWait _ => True
  | _ => False

instance (a : Action τ) : Decidable a.Runs := by
  cases a <;> unfold Action.Runs <;> infer_instance

instance (a : Action τ) : Decidable a.Returns := by
  cases a <;> unfold Action.Returns <;> infer_instance

/-- Outside `epoll_wait` the loop thread goes on: handlers and tasks return, and the mutex is
granted; `epoll_wait` returns while the eventfd is readable; and who has pushed a task writes
to the eventfd. -/
structure Fair (run : InfiniteRun (@system τ thread_id)) : Prop where
  runs : run.Takes (fun s => s.run ≠ .waiting) fun _ a => a.Runs
  returns : run.Takes (fun s => s.run = .waiting ∧ 0 < s.eventfd) fun _ a => a.Returns
  writes : ∀ tid, run.Takes (fun s => (s.pushers tid).Pushed)
    fun s a => a = .push tid ∧ s.pushers tid = .writing

/-! ## What a step leaves -/

/-- Nothing is taken out of the record of the tasks that entered. -/
theorem entered_mono (hstep : next thread_id s a = some s') {k : ℕ} {e : ℕ × τ}
    (he : s.entered[k]? = some e) : s'.entered[k]? = some e := by
  have hturn := turn_of_next hstep
  cases hturn with
  | call _ tid task _ hpoint => exact he
  | direct task => exact he
  | push tid _ hpushes =>
    cases hpushes with
    | lock task hpoint => exact he
    | append task hpoint =>
      have hlt : k < s.entered.length := (List.getElem?_eq_some_iff.mp he).1
      exact (List.getElem?_append_left hlt).trans he
    | unlock hpoint => exact he
    | write eventfd hpoint hpositive hle => exact he
  | proceed _ hproceeds => cases hproceeds <;> exact he
  | interrupt actives hrun => exact he
  | epollWait actives hrun => exact he

/-- The other threads, and the code that the loop thread runs, leave the loop where it is, and
the eventfd readable if it is. -/
theorem run_of_other (hstep : next thread_id s a = some s') (hruns : ¬ a.Runs)
    (hreturns : ¬ a.Returns) :
    s'.run = s.run ∧ s'.executed = s.executed ∧ s.eventfd ≤ s'.eventfd := by
  have hturn := turn_of_next hstep
  cases hturn with
  | call _ tid task _ hpoint => exact ⟨rfl, rfl, le_rfl⟩
  | direct task => exact ⟨rfl, rfl, le_rfl⟩
  | push tid _ hpushes =>
    cases hpushes with
    | lock task hpoint => exact ⟨rfl, rfl, le_rfl⟩
    | append task hpoint => exact ⟨rfl, rfl, le_rfl⟩
    | unlock hpoint => exact ⟨rfl, rfl, le_rfl⟩
    | write eventfd hpoint hpositive hle => exact ⟨rfl, rfl, hle⟩
  | proceed _ hproceeds => exact absurd trivial hruns
  | interrupt actives hrun => exact absurd trivial hruns
  | epollWait actives hrun => exact absurd trivial hreturns

/-- Where the loop waits, it does not go on by itself. -/
theorem not_runs_of_waiting (hstep : next thread_id s a = some s') (hwaiting : s.run = .waiting) :
    ¬ a.Runs := by
  have hturn := turn_of_next hstep
  intro hruns
  cases hturn with
  | proceed _ hproceeds =>
    cases hproceeds <;> rename_i hrun <;> rw [hwaiting] at hrun <;> cases hrun
  | interrupt actives hrun =>
    rw [hwaiting] at hrun
    cases hrun
  | call _ tid task hcall => rcases hcall with rfl | rfl <;> exact hruns
  | direct => exact hruns
  | push => exact hruns
  | epollWait => exact hruns

/-- `epoll_wait` returns to the handlers. -/
theorem run_of_returns (hstep : next thread_id s a = some s') (hreturns : a.Returns) :
    s.run = .waiting ∧ s'.run.BeforeSwap := by
  have hturn := turn_of_next hstep
  cases hturn with
  | epollWait actives hrun => exact ⟨hrun, trivial⟩
  | call _ tid task hcall => rcases hcall with rfl | rfl <;> exact hreturns.elim
  | direct => exact hreturns.elim
  | push => exact hreturns.elim
  | proceed => exact hreturns.elim
  | interrupt => exact hreturns.elim

/-- Outside `epoll_wait` only the loop thread moves the loop. -/
theorem run_of_not_runs (hstep : next thread_id s a = some s') (hne : s.run ≠ .waiting)
    (hruns : ¬ a.Runs) : s'.run = s.run ∧ s'.executed = s.executed := by
  have hreturns : ¬ a.Returns := fun hreturns => hne (run_of_returns hstep hreturns).1
  obtain ⟨hrun, hexecuted, -⟩ := run_of_other hstep hruns hreturns
  exact ⟨hrun, hexecuted⟩

/-- A thread that has pushed a task has still to write, unless it does. -/
theorem pushed_of_other (hstep : next thread_id s a = some s') {tid : ℕ}
    (hpushed : (s.pushers tid).Pushed) (hother : ¬ (a = .push tid ∧ s.pushers tid = .writing)) :
    (s'.pushers tid).Pushed := by
  have hupdate : ∀ (tid' : ℕ) (point : PushPoint τ), (tid' = tid → point.Pushed) →
      (Function.update s.pushers tid' point tid).Pushed := by
    intro tid' point hpoint
    by_cases htid : tid = tid'
    · subst htid
      rw [Function.update_self]
      exact hpoint rfl
    · rwa [Function.update_of_ne htid]
  cases turn_of_next hstep with
  | call _ tid' task _ hpoint =>
    refine hupdate tid' _ ?_
    rintro rfl
    rw [hpoint] at hpushed
    exact hpushed.elim
  | direct task => exact hpushed
  | push tid' _ hpushes =>
    cases hpushes with
    | lock task hpoint =>
      refine hupdate tid' _ ?_
      rintro rfl
      rw [hpoint] at hpushed
      exact hpushed.elim
    | append task hpoint => exact hupdate tid' _ fun _ => trivial
    | unlock hpoint => exact hupdate tid' _ fun _ => trivial
    | write eventfd hpoint hpositive hle =>
      refine hupdate tid' _ ?_
      rintro rfl
      exact absurd ⟨rfl, hpoint⟩ hother
  | proceed _ hproceeds => cases hproceeds <;> exact hpushed
  | interrupt actives hrun => exact hpushed
  | epollWait actives hrun => exact hpushed

/-- Who calls. -/
def Action.caller : Action τ → Option ℕ
  | .pushTaskToQueue tid _ | .execTaskInLoop tid _ => some tid
  | _ => none

/-- A thread that does not call stays outside. -/
theorem outside_of_other (hstep : next thread_id s a = some s') {tid : ℕ}
    (hcaller : a.caller ≠ some tid) (houtside : s.pushers tid = .outside) :
    s'.pushers tid = .outside := by
  cases turn_of_next hstep with
  | call _ tid' task hcall _ =>
    have hne : tid ≠ tid' := by
      rintro rfl
      rcases hcall with rfl | rfl <;> exact hcaller rfl
    exact (Function.update_of_ne hne _ _).trans houtside
  | direct task => exact houtside
  | push tid' _ hpushes =>
    have hne : s.pushers tid' ≠ .outside → tid ≠ tid' := by
      rintro hinside rfl
      exact hinside houtside
    cases hpushes with
    | lock task hpoint | append task hpoint =>
      exact (Function.update_of_ne (hne (by rw [hpoint]; nofun)) _ _).trans houtside
    | unlock hpoint =>
      exact (Function.update_of_ne (hne (by rw [hpoint]; nofun)) _ _).trans houtside
    | write eventfd hpoint hpositive hle =>
      exact (Function.update_of_ne (hne (by rw [hpoint]; nofun)) _ _).trans houtside
  | proceed _ hproceeds => cases hproceeds <;> exact houtside
  | interrupt actives hrun => exact houtside
  | epollWait actives hrun => exact houtside

/-- The steps of the loop thread in `Run`. -/
theorem cases_of_runs (hstep : next thread_id s a = some s') (hruns : a.Runs) :
    s.Proceeds thread_id s' ∨
      ∃ actives, s.run = .reading actives ∧ s' = { s with run := .dispatching actives } := by
  have hturn := turn_of_next hstep
  cases hturn with
  | proceed _ hproceeds => exact Or.inl hproceeds
  | interrupt actives hrun => exact Or.inr ⟨actives, hrun, rfl⟩
  | call _ tid task hcall => rcases hcall with rfl | rfl <;> exact hruns.elim
  | direct => exact hruns.elim
  | push => exact hruns.elim
  | epollWait => exact hruns.elim

/-! ## From the push to the execution -/

/-- The task with this number is in the local vector of `ExecTaskInQueue`. -/
def Swapped (k : ℕ) (s : EventLoop τ) : Prop :=
  s.executed.length ≤ k ∧ k < s.executed.length + s.run.batch.length

theorem Swapped.ne_waiting {k : ℕ} (h : Swapped k s) : s.run ≠ .waiting := by
  intro hwaiting
  obtain ⟨hle, hlt⟩ := h
  rw [hwaiting] at hlt
  exact absurd hlt hle.not_gt

section Stages

variable {run : InfiniteRun (@system τ thread_id)} {k : ℕ} {e : ℕ × τ}

/-- A swapped task is executed. -/
theorem leadsTo_executed (hfair : Fair run) :
    run.LeadsTo (Swapped k) fun s => k < s.executed.length := by
  refine InfiniteRun.leadsTo_of_rank (C := fun _ a => a.Runs)
    (fun s => 2 * (k - s.executed.length) + s.run.toExecute) ?_ ?_ ?_
  · intro n hswapped
    exact hfair.runs n hswapped.ne_waiting
  · intro s a s' _ hstep hswapped hruns
    obtain ⟨hrun, hexecuted⟩ := run_of_not_runs hstep hswapped.ne_waiting hruns
    rw [Swapped, hrun, hexecuted]
    exact Or.inr ⟨hswapped, le_rfl⟩
  · rintro s a s' - hstep ⟨hle, hlt⟩ hruns
    rcases cases_of_runs hstep hruns with hproceeds | ⟨actives, hrun, rfl⟩
    · cases hproceeds with
      | unlock tasks hrun =>
        rw [hrun] at hlt ⊢
        exact Or.inr ⟨⟨hle, hlt⟩, Nat.lt_succ_self _⟩
      | executed task tasks hrun =>
        rw [hrun] at hlt ⊢
        exact Or.inr ⟨⟨hle, hlt⟩, Nat.lt_succ_self _⟩
      | execute task tasks hrun =>
        rw [hrun] at hlt ⊢
        have hlength : (s.executed ++ [(thread_id, task)]).length = s.executed.length + 1 := by simp
        rcases Nat.lt_or_ge k (s.executed.length + 1) with hnow | hlater
        · exact Or.inl (by rw [hlength]; exact hnow)
        · refine Or.inr ⟨⟨by rw [hlength]; exact hlater, ?_⟩, ?_⟩
          · rw [hlength]
            simp only [RunPoint.batch, List.length_cons] at hlt ⊢
            omega
          · rw [hlength]
            simp only [RunPoint.toExecute]
            omega
      | start hrun | handled hrun | lock hrun | swap hrun | finish hrun =>
        rw [hrun] at hlt
        exact absurd hlt hle.not_gt
      | dispatchEventfd actives hrun | read actives hrun =>
        rw [hrun] at hlt
        exact absurd hlt hle.not_gt
      | dispatchOther fd actives hrun | handle fd actives hrun =>
        rw [hrun] at hlt
        exact absurd hlt hle.not_gt
    · rw [hrun] at hlt
      exact absurd hlt hle.not_gt

/-- The loop comes to its swap, and with it a task in the queue to the local vector. -/
theorem leadsTo_swapped (hfair : Fair run) :
    run.LeadsTo (fun s => s.entered[k]? = some e ∧ s.run.BeforeSwap)
      fun s => k < s.executed.length ∨ s.Swapped k := by
  refine InfiniteRun.leadsTo_of_rank (C := fun _ a => a.Runs) (fun s => s.run.toSwap) ?_ ?_ ?_
  · rintro n ⟨-, hbefore⟩
    exact hfair.runs n hbefore.ne_waiting
  · rintro s a s' - hstep ⟨he, hbefore⟩ hruns
    obtain ⟨hrun, -⟩ := run_of_not_runs hstep hbefore.ne_waiting hruns
    rw [hrun]
    exact Or.inr ⟨⟨entered_mono hstep he, hbefore⟩, le_rfl⟩
  · rintro s a s' hreach hstep ⟨he, hbefore⟩ hruns
    have he' := entered_mono hstep he
    rcases cases_of_runs hstep hruns with hproceeds | ⟨actives, hrun, rfl⟩
    · cases hproceeds with
      | handled hrun | lock hrun =>
        rw [hrun]
        exact Or.inr ⟨⟨he', trivial⟩, Nat.lt_succ_self _⟩
      | dispatchEventfd actives hrun =>
        rw [hrun]
        refine Or.inr ⟨⟨he', trivial⟩, ?_⟩
        simp only [RunPoint.toSwap, List.length_cons]
        omega
      | dispatchOther fd actives hrun =>
        rw [hrun]
        refine Or.inr ⟨⟨he', trivial⟩, ?_⟩
        simp only [RunPoint.toSwap, List.length_cons]
        omega
      | read actives hrun =>
        rw [hrun]
        exact Or.inr ⟨⟨he', trivial⟩, Nat.lt_succ_self _⟩
      | handle fd actives hrun =>
        rw [hrun]
        exact Or.inr ⟨⟨he', trivial⟩, Nat.lt_succ_self _⟩
      | swap hrun =>
        -- all that entered was executed or is swapped now
        have hlt : k < s.entered.length := (List.getElem?_eq_some_iff.mp he).1
        rw [(inOrder_awake hreach).1.once, hrun] at hlt
        simp only [RunPoint.batch, List.length_append, List.length_map, List.length_nil,
          Nat.add_zero] at hlt
        rcases Nat.lt_or_ge k s.executed.length with hdone | hle
        · exact Or.inl (Or.inl hdone)
        · exact Or.inl (Or.inr ⟨hle, hlt⟩)
      | start hrun | finish hrun =>
        rw [hrun] at hbefore
        exact hbefore.elim
      | unlock tasks hrun =>
        rw [hrun] at hbefore
        exact hbefore.elim
      | execute task tasks hrun | executed task tasks hrun =>
        rw [hrun] at hbefore
        exact hbefore.elim
    · rw [hrun]
      exact Or.inr ⟨⟨he', trivial⟩, Nat.lt_succ_self _⟩

/-- After its swap the loop comes to `epoll_wait`. -/
theorem leadsTo_waiting (hfair : Fair run) :
    run.LeadsTo (fun s => s.entered[k]? = some e ∧ s.run.AfterSwap)
      fun s => s.entered[k]? = some e ∧ s.run = .waiting := by
  refine InfiniteRun.leadsTo_of_rank (C := fun _ a => a.Runs) (fun s => s.run.toWait) ?_ ?_ ?_
  · rintro n ⟨-, hafter⟩
    exact hfair.runs n hafter.ne_waiting
  · rintro s a s' - hstep ⟨he, hafter⟩ hruns
    obtain ⟨hrun, -⟩ := run_of_not_runs hstep hafter.ne_waiting hruns
    rw [hrun]
    exact Or.inr ⟨⟨entered_mono hstep he, hafter⟩, le_rfl⟩
  · rintro s a s' - hstep ⟨he, hafter⟩ hruns
    have he' := entered_mono hstep he
    rcases cases_of_runs hstep hruns with hproceeds | ⟨actives, hrun, rfl⟩
    · cases hproceeds with
      | start hrun | finish hrun => exact Or.inl ⟨he', rfl⟩
      | unlock tasks hrun =>
        rw [hrun]
        exact Or.inr ⟨⟨he', trivial⟩, Nat.lt_succ_self _⟩
      | execute task tasks hrun =>
        rw [hrun]
        refine Or.inr ⟨⟨he', trivial⟩, ?_⟩
        simp only [RunPoint.toWait, List.length_cons]
        omega
      | executed task tasks hrun =>
        rw [hrun]
        exact Or.inr ⟨⟨he', trivial⟩, Nat.lt_succ_self _⟩
      | handled hrun | lock hrun | swap hrun =>
        rw [hrun] at hafter
        exact hafter.elim
      | dispatchEventfd actives hrun | read actives hrun =>
        rw [hrun] at hafter
        exact hafter.elim
      | dispatchOther fd actives hrun | handle fd actives hrun =>
        rw [hrun] at hafter
        exact hafter.elim
    · rw [hrun] at hafter
      exact hafter.elim

/-- While the eventfd is readable, `epoll_wait` returns. -/
theorem leadsTo_beforeSwap (hfair : Fair run) :
    run.LeadsTo (fun s => s.entered[k]? = some e ∧ s.run = .waiting ∧ 0 < s.eventfd)
      fun s => s.entered[k]? = some e ∧ s.run.BeforeSwap := by
  refine InfiniteRun.leadsTo_of_rank (C := fun _ a => a.Returns) (fun _ => 0) ?_ ?_ ?_
  · rintro n ⟨-, hwaiting⟩
    exact hfair.returns n hwaiting
  · rintro s a s' - hstep ⟨he, hwaiting, hpositive⟩ hreturns
    obtain ⟨hrun, -, hle⟩ := run_of_other hstep (not_runs_of_waiting hstep hwaiting) hreturns
    exact Or.inr ⟨⟨entered_mono hstep he, hrun.trans hwaiting, hpositive.trans_le hle⟩, le_rfl⟩
  · rintro s a s' - hstep ⟨he, -⟩ hreturns
    exact Or.inl ⟨entered_mono hstep he, (run_of_returns hstep hreturns).2⟩

/-- A thread that has pushed a task makes the eventfd readable, unless `epoll_wait` has
returned before. -/
theorem leadsTo_readable (hfair : Fair run) (tid : ℕ) :
    run.LeadsTo (fun s => s.entered[k]? = some e ∧ s.run = .waiting ∧ (s.pushers tid).Pushed)
      fun s => (s.entered[k]? = some e ∧ s.run = .waiting ∧ 0 < s.eventfd) ∨
        (s.entered[k]? = some e ∧ s.run.BeforeSwap) := by
  refine InfiniteRun.leadsTo_of_rank
    (C := fun s a => a = .push tid ∧ s.pushers tid = .writing) (fun _ => 0) ?_ ?_ ?_
  · rintro n ⟨-, -, hpushed⟩
    exact hfair.writes tid n hpushed
  · rintro s a s' - hstep ⟨he, hwaiting, hpushed⟩ hother
    have he' := entered_mono hstep he
    by_cases hreturns : a.Returns
    · exact Or.inl (Or.inr ⟨he', (run_of_returns hstep hreturns).2⟩)
    · obtain ⟨hrun, -, -⟩ := run_of_other hstep (not_runs_of_waiting hstep hwaiting) hreturns
      refine Or.inr ⟨⟨he', hrun.trans hwaiting, ?_⟩, le_rfl⟩
      exact pushed_of_other hstep hpushed hother
  · rintro s a s' - hstep ⟨he, hwaiting, -⟩ ⟨rfl, hwriting⟩
    have he' := entered_mono hstep he
    cases turn_of_next hstep with
    | call _ tid task hcall => rcases hcall with hcall | hcall <;> cases hcall
    | push _ _ hpushes =>
      cases hpushes with
      | write eventfd hpoint hpositive hle => exact Or.inl (Or.inl ⟨he', hwaiting, hpositive⟩)
      | lock task hpoint =>
        rw [hwriting] at hpoint
        cases hpoint
      | append task hpoint =>
        rw [hwriting] at hpoint
        cases hpoint
      | unlock hpoint =>
        rw [hwriting] at hpoint
        cases hpoint

/-- **A task that entered the queue is executed.** -/
theorem leadsTo_done (hfair : Fair run) :
    run.LeadsTo (fun s => s.entered[k]? = some e) fun s => k < s.executed.length := by
  have hbefore : run.LeadsTo (fun s => s.entered[k]? = some e ∧ s.run.BeforeSwap)
      fun s => k < s.executed.length :=
    (leadsTo_swapped hfair).trans ((InfiniteRun.LeadsTo.of_imp fun _ h => h).or
      (leadsTo_executed hfair))
  have hreadable := (leadsTo_beforeSwap (k := k) (e := e) hfair).trans hbefore
  have hwaiting : run.LeadsTo (fun s => s.entered[k]? = some e ∧ s.run = .waiting)
      fun s => k < s.executed.length := by
    rintro n ⟨he, hrun⟩
    obtain ⟨horder, hawake⟩ := inOrder_awake (run.reachable n)
    rcases Nat.lt_or_ge k (run.state n).executed.length with hdone | hle
    · exact ⟨n, le_rfl, hdone⟩
    · have htasks : (run.state n).tasks ≠ [] := by
        intro hnil
        have hlt : k < (run.state n).entered.length := (List.getElem?_eq_some_iff.mp he).1
        rw [horder.once, hrun, hnil] at hlt
        simp only [RunPoint.batch, List.append_nil, List.length_map] at hlt
        exact absurd hlt hle.not_gt
      rcases hawake htasks with hpositive | hswap | ⟨tid, hpushed⟩
      · exact hreadable n ⟨he, hrun, hpositive⟩
      · exact hbefore n ⟨he, hswap⟩
      · exact ((leadsTo_readable hfair tid).trans (hreadable.or hbefore)) n ⟨he, hrun, hpushed⟩
  intro n he
  rcases (run.state n).run.cases with hrun | hswap | hafter
  · exact hwaiting n ⟨he, hrun⟩
  · exact hbefore n ⟨he, hswap⟩
  · exact ((leadsTo_waiting hfair).trans hwaiting) n ⟨he, hafter⟩

end Stages

/-- **Every pushed task is executed once, in order and on the loop thread, and no wake-up is
lost**: in every state that is reached the tasks executed are the first that entered the queue
and a queue that is not empty has a wake-up to come, and in a fair run every task that enters
the queue is executed. -/
theorem executesOnce_awake (thread_id : ℕ) :
    (∀ s : EventLoop τ, (system thread_id).Reachable s → s.InOrder thread_id ∧ s.Awake) ∧
      ∀ run : InfiniteRun (@system τ thread_id), Fair run → ∀ (n k : ℕ) (e : ℕ × τ),
        (run.state n).entered[k]? = some e →
          ∃ m, n ≤ m ∧ (run.state m).executed[k]? = some (thread_id, e) := by
  refine ⟨fun s h => inOrder_awake h, fun run hfair n k e he => ?_⟩
  obtain ⟨m, hnm, hdone⟩ := @leadsTo_done _ _ run _ _ hfair n he
  have hkept : ∀ m, n ≤ m → (run.state m).entered[k]? = some e := by
    intro m hnm
    exact run.stays_of_step (fun s => s.entered[k]? = some e)
      (fun m a hlabel => entered_mono (run.step m a hlabel)) hnm he
  -- the task with this number among those executed is the one that entered with it
  have horder := (inOrder_awake (run.reachable m)).1
  have hentered := hkept m hnm
  rw [horder.once, List.append_assoc, List.getElem?_append_left (by simpa using hdone),
    List.getElem?_map, List.getElem?_eq_getElem hdone] at hentered
  refine ⟨m, hnm, ?_⟩
  rw [List.getElem?_eq_getElem hdone]
  exact congrArg some (Prod.ext (horder.thread _ (List.getElem_mem hdone))
    (Option.some.inj hentered))

instance (p : PushPoint τ) : Decidable p.Pushed := by
  cases p <;> unfold PushPoint.Pushed <;> infer_instance

/-- A thread pushes a task while the loop waits; the task pushes another one, after the swap. -/
def pushedTwice : List (Action ℕ) :=
  [.proceed, .execTaskInLoop 1 7, .push 1, .push 1, .push 1, .push 1, .epollWait [.eventfd],
    .proceed, .proceed, .proceed, .proceed, .proceed, .proceed, .proceed, .pushTaskToQueue 0 8,
    .push 0, .push 0, .push 0, .push 0, .proceed, .proceed, .epollWait [.other 5, .eventfd],
    .proceed, .proceed, .proceed, .proceed, .proceed, .proceed, .proceed, .proceed, .proceed,
    .proceed, .proceed]

theorem isSome_pushedTwice :
    (runFrom (next 0) (fun _ _ => True) start pushedTwice).isSome = true := by decide +kernel

/-- The run in which these steps are all. -/
def runPushedTwice : InfiniteRun (@system ℕ 0) := .ofList pushedTwice isSome_pushedTwice

theorem fair_runPushedTwice : Fair runPushedTwice where
  runs := InfiniteRun.takes_ofList isSome_pushedTwice (by decide +kernel) (by decide +kernel)
  returns := InfiniteRun.takes_ofList isSome_pushedTwice (by decide +kernel) (by decide +kernel)
  writes := by
    intro tid
    by_cases hcaller : tid = 0 ∨ tid = 1
    · rcases hcaller with rfl | rfl
      · exact InfiniteRun.takes_ofList isSome_pushedTwice (by decide +kernel) (by decide +kernel)
      · exact InfiniteRun.takes_ofList isSome_pushedTwice (by decide +kernel) (by decide +kernel)
    · have houtside : ∀ n, (runPushedTwice.state n).pushers tid = .outside := by
        intro n
        refine runPushedTwice.stays_of_step (fun s => s.pushers tid = .outside) ?_
          (Nat.zero_le n) rfl
        intro m a hlabel ih
        have hcallers : ∀ a ∈ pushedTwice, a.caller = none ∨ a.caller = some 0 ∨
            a.caller = some 1 := by decide
        have hcall := hcallers a (List.mem_of_getElem? hlabel)
        refine outside_of_other (runPushedTwice.step m a hlabel) (fun htid => hcaller ?_) ih
        rw [htid] at hcall
        simpa using hcall
      intro n hpushed
      rw [houtside n] at hpushed
      exact hpushed.elim

/-- The task that the first one pushes is executed after it. -/
theorem executesOnce_pushedTwice :
    (runPushedTwice.state 17).entered = [(1, 7), (0, 8)] ∧
      ∃ m, 17 ≤ m ∧ (runPushedTwice.state m).executed[1]? = some (0, (0, 8)) := by
  have hentered : (runPushedTwice.state 17).entered = [(1, 7), (0, 8)] := by decide +kernel
  exact ⟨hentered, (executesOnce_awake 0).2 runPushedTwice fair_runPushedTwice 17 1 (0, 8)
    (by rw [hentered]; rfl)⟩

end EventLoop

end Reactor
