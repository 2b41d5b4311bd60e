/-
# The mutex of a FIX session

`mutex_` is not recursive.  Every function that locks it, except `processReceivedMessage`,
unlocks it again before it calls, starts or joins anything; and `processReceivedMessage`
never runs, because `receiveLoop` hands no message to it.
-/
import FastServer.FixSession

namespace FIX42Protocol

open Framing TransitionSystem

/-! ## Brief critical sections -/

/-- Whether a thread holds `mutex_` after a statement, if it may run the statement: with
`mutex_` held it only writes a variable and unlocks. -/
def Stmt.holdsAfter (holding : Bool) : Stmt → Option Bool
  | .lock => if holding then none else some true
  | .unlock => if holding then some false else none
  | .draw _ => if holding then some false else none
  | .setHandler _ _ => some holding
  | .raiseTarget _ => some holding
  | _ => if holding then none else some false

/-- All critical sections of the statements are brief, and closed at the end. -/
def balanced (holding : Bool) : List Stmt → Bool
  | [] => !holding
  | stmt :: rest =>
      match stmt.holdsAfter holding with
      | some holding' => balanced holding' rest
      | none => false

/-- The critical sections of a thread are brief. -/
def Thread.balanced (holding : Bool) (thread : Thread) : Bool :=
  match thread.sending with
  | none => FIX42Protocol.balanced holding thread.stack
  | some (.drawn _ _) => holding && FIX42Protocol.balanced false thread.stack
  | some _ => !holding && FIX42Protocol.balanced false thread.stack

theorem balanced_cons {holding : Bool} {stmt : Stmt} {rest : List Stmt} :
    balanced holding (stmt :: rest) = true
      ↔ ∃ holding' ∈ stmt.holdsAfter holding, balanced holding' rest = true := by
  rw [balanced]
  cases stmt.holdsAfter holding with
  | none => simp
  | some holding' => simp

/-- Statements one after the other. -/
theorem balanced_append {holding : Bool} {stmts rest : List Stmt}
    (h : balanced holding stmts = true) (hrest : balanced false rest = true) :
    balanced holding (stmts ++ rest) = true := by
  induction stmts generalizing holding with
  | nil =>
    obtain rfl : holding = false := by simpa [balanced] using h
    exact hrest
  | cons stmt stmts ih =>
    obtain ⟨holding', hafter, hstmts⟩ := balanced_cons.mp h
    exact balanced_cons.mpr ⟨holding', hafter, ih hstmts⟩

/-- No critical section reaches beyond the end of a function. -/
theorem balanced_afterReturn {holding : Bool} {stmts : List Stmt}
    (h : balanced holding stmts = true) : balanced false (afterReturn stmts) = true := by
  induction stmts generalizing holding with
  | nil => rfl
  | cons stmt stmts ih =>
    obtain ⟨holding', hafter, hstmts⟩ := balanced_cons.mp h
    by_cases hret : stmt = .ret
    · subst hret
      cases holding with
      | true => exact absurd hafter (by simp [Stmt.holdsAfter])
      | false =>
        obtain rfl : false = holding' := Option.some.inj hafter
        exact hstmts
    · rw [show afterReturn (stmt :: stmts) = afterReturn stmts by
        cases stmt <;> first | rfl | exact absurd rfl hret]
      exact ih hstmts

/-- The public methods, and what the session runs by itself. -/
theorem balanced_body (c : Call) : balanced false c.body = true := by
  cases c <;> rfl

theorem balanced_heartbeatBody : balanced false heartbeatBody = true := rfl

theorem balanced_worker (w : Worker) : balanced false w.body = true := by
  cases w <;> rfl

/-- What a statement needs that may not run with `mutex_` held. -/
theorem free_of_balanced {holding : Bool} {stmt : Stmt} {rest : List Stmt} {after : Bool}
    (h : balanced holding (stmt :: rest) = true)
    (hstmt : stmt.holdsAfter holding = if holding then none else some after) :
    holding = false ∧ balanced after rest = true := by
  obtain ⟨holding', hafter, hrest⟩ := balanced_cons.mp h
  rw [hstmt] at hafter
  cases holding with
  | true => exact absurd hafter (by simp)
  | false =>
    obtain rfl : after = holding' := Option.some.inj hafter
    exact ⟨rfl, hrest⟩

/-- What a statement needs that gives `mutex_` up. -/
theorem held_of_balanced {holding : Bool} {stmt : Stmt} {rest : List Stmt}
    (h : balanced holding (stmt :: rest) = true)
    (hstmt : stmt.holdsAfter holding = if holding then some false else none) :
    holding = true ∧ balanced false rest = true := by
  obtain ⟨holding', hafter, hrest⟩ := balanced_cons.mp h
  rw [hstmt] at hafter
  cases holding with
  | false => exact absurd hafter (by simp)
  | true =>
    obtain rfl : false = holding' := Option.some.inj hafter
    exact ⟨rfl, hrest⟩

/-! ## One statement -/

variable {ι : Type} [DecidableEq ι] {cfg : Config}

/-- Whether thread `t` holds `mutex_`. -/
def Shared.holds (s : Shared ι) (t : ThreadId ι) : Bool := s.mutex_ = some t

/-- A step that does not touch `mutex_`. -/
theorem holds_congr {s s' : Shared ι} (h : s'.mutex_ = s.mutex_) (t : ThreadId ι) :
    s'.holds t = s.holds t := by
  rw [Shared.holds, Shared.holds, h]

/-- `t` locks `mutex_`. -/
theorem holds_lock {s : Shared ι} (t : ThreadId ι) (h : s.mutex_ = none) :
    { s with mutex_ := some t }.holds t = true ∧
      ∀ u, u ≠ t → { s with mutex_ := some t }.holds u = s.holds u := by
  refine ⟨decide_eq_true rfl, ?_⟩
  intro u hu
  rw [Shared.holds, Shared.holds, h]
  simpa using hu.symm

/-- `t` unlocks `mutex_`. -/
theorem holds_unlock {s : Shared ι} {t : ThreadId ι} (h : s.holds t = true) :
    { s with mutex_ := none }.holds t = false ∧
      ∀ u, u ≠ t → { s with mutex_ := none }.holds u = s.holds u := by
  have hmutex : s.mutex_ = some t := of_decide_eq_true h
  refine ⟨rfl, ?_⟩
  intro u hu
  rw [Shared.holds, Shared.holds, hmutex]
  simpa using hu.symm

/-- After the step of `t` from `s` to `s'`, `t` goes on as `thread` with brief critical
sections, and the others hold what they held. -/
def StaysBrief (t : ThreadId ι) (s s' : Shared ι) (thread : Thread) : Prop :=
  thread.balanced (s'.holds t) = true ∧ ∀ u, u ≠ t → s'.holds u = s.holds u

/-- A thread that does not hold `mutex_` goes on with brief critical sections. -/
theorem staysBrief_of_holds_false {t : ThreadId ι} {s s' : Shared ι} {stack : List Stmt}
    (hfree : s.holds t = false) (hstack : balanced false stack = true)
    (hmutex : s'.mutex_ = s.mutex_) : StaysBrief t s s' ⟨none, stack⟩ := by
  refine ⟨?_, fun u _ => holds_congr hmutex u⟩
  rw [holds_congr hmutex, hfree]
  exact hstack

/-- A statement that may not run with `mutex_` held, and does not touch it. -/
theorem staysBrief_of_free {t : ThreadId ι} {s s' : Shared ι} {stmt : Stmt}
    {rest stack : List Stmt} (hb : balanced (s.holds t) (stmt :: rest) = true)
    (hstmt : stmt.holdsAfter (s.holds t) = if s.holds t then none else some false)
    (hmutex : s'.mutex_ = s.mutex_)
    (hstack : balanced false rest = true → balanced false stack = true) :
    StaysBrief t s s' ⟨none, stack⟩ := by
  obtain ⟨hfree, hrest⟩ := free_of_balanced hb hstmt
  exact staysBrief_of_holds_false hfree (hstack hrest) hmutex

/-- A statement that may run in a critical section, and does not touch `mutex_`. -/
theorem staysBrief_of_brief {t : ThreadId ι} {s s' : Shared ι} {stmt : Stmt}
    {rest : List Stmt} (hb : balanced (s.holds t) (stmt :: rest) = true)
    (hstmt : stmt.holdsAfter (s.holds t) = some (s.holds t)) (hmutex : s'.mutex_ = s.mutex_) :
    StaysBrief t s s' ⟨none, rest⟩ := by
  obtain ⟨holding', hafter, hrest⟩ := balanced_cons.mp hb
  obtain rfl : s.holds t = holding' := Option.some.inj (hstmt.symm.trans hafter)
  refine ⟨?_, fun u _ => holds_congr hmutex u⟩
  rw [holds_congr hmutex]
  exact hrest

/-- **A statement** keeps the critical sections of its thread brief, and leaves the others
alone.  What `receiveLoop` cuts off is never handed to `processReceivedMessage`. -/
theorem staysBrief_stmt {t : ThreadId ι} {s s' : Shared ι} {choice : Choice} {stmt : Stmt}
    {rest : List Stmt} {thread : Thread} (h : stmt.next cfg t s choice rest = some (s', thread))
    (hb : balanced (s.holds t) (stmt :: rest) = true) : StaysBrief t s s' thread := by
  cases stmt with
  | ret =>
    obtain ⟨rfl, rfl⟩ := Prod.mk.inj (Option.some.inj h)
    exact staysBrief_of_free hb rfl rfl id
  | returnUnless flag =>
    -- a `return` skips whole critical sections, or none
    obtain ⟨rfl, rfl⟩ := Prod.mk.inj (Option.some.inj h)
    refine staysBrief_of_free hb rfl rfl fun hrest => ?_
    split_ifs
    · exact hrest
    · exact balanced_afterReturn hrest
  | returnIf flag =>
    obtain ⟨rfl, rfl⟩ := Prod.mk.inj (Option.some.inj h)
    refine staysBrief_of_free hb rfl rfl fun hrest => ?_
    split_ifs
    · exact balanced_afterReturn hrest
    · exact hrest
  | refuseLogon handler =>
    obtain ⟨rfl, rfl⟩ := Prod.mk.inj (Option.some.inj h)
    refine staysBrief_of_free hb rfl rfl fun hrest => ?_
    split_ifs
    · exact hrest
    · exact balanced_afterReturn hrest
    · exact balanced_afterReturn hrest
  | assign flag value =>
    obtain ⟨rfl, rfl⟩ := Prod.mk.inj (Option.some.inj h)
    exact staysBrief_of_free hb rfl (by cases flag <;> rfl) id
  | setHandler handler value =>
    obtain ⟨rfl, rfl⟩ := Prod.mk.inj (Option.some.inj h)
    exact staysBrief_of_brief hb rfl rfl
  | lock =>
    obtain ⟨-, hrest⟩ := free_of_balanced hb rfl
    rw [Stmt.next] at h
    split_ifs at h with hmutex
    obtain ⟨rfl, rfl⟩ := Prod.mk.inj (Option.some.inj h)
    obtain ⟨hholds, hothers⟩ := holds_lock t hmutex
    exact ⟨by rw [hholds]; exact hrest, hothers⟩
  | unlock =>
    obtain ⟨hheld, hrest⟩ := held_of_balanced hb rfl
    obtain ⟨rfl, rfl⟩ := Prod.mk.inj (Option.some.inj h)
    obtain ⟨hholds, hothers⟩ := holds_unlock hheld
    exact ⟨by rw [hholds]; exact hrest, hothers⟩
  | draw out =>
    obtain ⟨hheld, hrest⟩ := held_of_balanced hb rfl
    obtain ⟨rfl, rfl⟩ := Prod.mk.inj (Option.some.inj h)
    refine ⟨?_, fun u _ => holds_congr rfl u⟩
    show (s.holds t && balanced false rest) = true
    rw [hheld, hrest]
    rfl
  | raiseTarget seq_num =>
    obtain ⟨rfl, rfl⟩ := Prod.mk.inj (Option.some.inj h)
    exact staysBrief_of_brief hb rfl rfl
  | noteTestRequest id =>
    obtain ⟨rfl, rfl⟩ := Prod.mk.inj (Option.some.inj h)
    exact staysBrief_of_free hb rfl rfl fun hrest => hrest
  | callHandler handler =>
    obtain ⟨rfl, rfl⟩ := Prod.mk.inj (Option.some.inj h)
    refine staysBrief_of_free hb rfl rfl fun hrest => ?_
    split_ifs
    · exact hrest
    · exact hrest
  | user =>
    cases choice with
    | call c =>
      -- the application is only ever called without `mutex_`, so any method may come first
      obtain ⟨rfl, rfl⟩ := Prod.mk.inj (Option.some.inj h)
      exact staysBrief_of_free hb rfl rfl fun hrest => balanced_append (balanced_body c) hrest
    | finish =>
      obtain ⟨rfl, rfl⟩ := Prod.mk.inj (Option.some.inj h)
      exact staysBrief_of_free hb rfl rfl id
    | _ => exact absurd h.symm (Option.some_ne_none _)
  | openSocket =>
    cases choice with
    | opened success =>
      obtain ⟨rfl, rfl⟩ := Prod.mk.inj (Option.some.inj h)
      refine staysBrief_of_free hb rfl rfl fun hrest => ?_
      split_ifs
      · exact hrest
      · exact balanced_afterReturn hrest
    | _ => exact absurd h.symm (Option.some_ne_none _)
  | start w => exact absurd h.symm (Option.some_ne_none _)
  | join w => exact absurd h.symm (Option.some_ne_none _)
  | clearPartial =>
    obtain ⟨rfl, rfl⟩ := Prod.mk.inj (Option.some.inj h)
    exact staysBrief_of_free hb rfl rfl id
  | whileConnected =>
    obtain ⟨rfl, rfl⟩ := Prod.mk.inj (Option.some.inj h)
    refine staysBrief_of_free hb rfl rfl fun hrest => ?_
    split_ifs
    · exact hrest
    · exact hrest
  | recv =>
    cases choice with
    | received result =>
      cases result with
      | data buffer =>
        obtain ⟨rfl, rfl⟩ := Prod.mk.inj (Option.some.inj h)
        exact staysBrief_of_free hb rfl rfl id
      | wouldBlock =>
        obtain ⟨rfl, rfl⟩ := Prod.mk.inj (Option.some.inj h)
        exact staysBrief_of_free hb rfl rfl id
      | closed =>
        obtain ⟨rfl, rfl⟩ := Prod.mk.inj (Option.some.inj h)
        exact staysBrief_of_free hb rfl rfl id
    | _ => exact absurd h.symm (Option.some_ne_none _)
  | cut =>
    rw [Stmt.next] at h
    split at h
    · -- a piece has no separator in it, so nothing is put in front of `rest`
      rename_i text partial_msg hcut
      have hsoh : soh ∉ text := (of_cutAt hcut).1
      rw [accepted_piece hsoh] at h
      obtain ⟨rfl, rfl⟩ := Prod.mk.inj (Option.some.inj h)
      exact staysBrief_of_free hb rfl rfl id
    · obtain ⟨rfl, rfl⟩ := Prod.mk.inj (Option.some.inj h)
      exact staysBrief_of_free hb rfl rfl id
  | whileRunning =>
    obtain ⟨rfl, rfl⟩ := Prod.mk.inj (Option.some.inj h)
    refine staysBrief_of_free hb rfl rfl fun hrest => ?_
    split_ifs
    · exact balanced_append balanced_heartbeatBody hrest
    · exact hrest

/-- **A message on its way** is in a critical section until its number is drawn. -/
theorem staysBrief_sending {t : ThreadId ι} {s s' : Shared ι} {choice : Choice}
    {sending : Sending} {sending' : Option Sending} {stack : List Stmt}
    (h : sending.next s choice = some (s', sending'))
    (hb : (Thread.mk (some sending) stack).balanced (s.holds t) = true) :
    StaysBrief t s s' ⟨sending', stack⟩ := by
  cases sending with
  | drawn out seq_num =>
    obtain ⟨hheld, hrest⟩ := (Bool.and_eq_true _ _).mp hb
    obtain ⟨rfl, rfl⟩ := Prod.mk.inj (Option.some.inj h)
    obtain ⟨hholds, hothers⟩ := holds_unlock hheld
    refine ⟨?_, hothers⟩
    rw [hholds]
    exact hrest
  | numbered out seq_num =>
    cases choice with
    | time sending_time =>
      obtain ⟨rfl, rfl⟩ := Prod.mk.inj (Option.some.inj h)
      exact ⟨hb, fun u _ => holds_congr rfl u⟩
    | _ => exact absurd h.symm (Option.some_ne_none _)
  | composed o =>
    obtain ⟨hfree, hrest⟩ := (Bool.and_eq_true _ _).mp hb
    have hfree : s.holds t = false := (Bool.not_eq_true' _).mp hfree
    rw [Sending.next] at h
    split_ifs at h
    · obtain ⟨rfl, rfl⟩ := Prod.mk.inj (Option.some.inj h)
      exact ⟨hb, fun u _ => rfl⟩
    · obtain ⟨rfl, rfl⟩ := Prod.mk.inj (Option.some.inj h)
      exact staysBrief_of_holds_false hfree hrest rfl
  | checked o =>
    obtain ⟨hfree, hrest⟩ := (Bool.and_eq_true _ _).mp hb
    have hfree : s.holds t = false := (Bool.not_eq_true' _).mp hfree
    cases choice with
    | sent complete =>
      cases complete with
      | true =>
        obtain ⟨rfl, rfl⟩ := Prod.mk.inj (Option.some.inj h)
        exact staysBrief_of_holds_false hfree hrest rfl
      | false =>
        obtain ⟨rfl, rfl⟩ := Prod.mk.inj (Option.some.inj h)
        exact staysBrief_of_holds_false hfree hrest rfl
    | _ => exact absurd h.symm (Option.some_ne_none _)

/-! ## The whole session -/

/-- The entry of a thread has brief critical sections only, and holds nothing if there is no
thread. -/
def briefEntry (holding : Bool) : Option Thread → Prop
  | some thread => thread.balanced holding = true
  | none => holding = false

/-- Every thread has brief critical sections only. -/
def Session.Brief (s : Session ι) : Prop := ∀ t, briefEntry (s.shared.holds t) (s.threads t)

theorem brief_start : (start : Session ι).Brief := by
  intro t
  cases t with
  | app i => rfl
  | worker w => rfl

theorem Session.Brief.of_some {s : Session ι} (h : s.Brief) {t : ThreadId ι} {thread : Thread}
    (ht : s.threads t = some thread) : thread.balanced (s.shared.holds t) = true := by
  have hb := h t
  rw [ht] at hb
  exact hb

/-- One thread goes on, the others and what they hold stay as they are. -/
theorem Session.Brief.set {s : Session ι} (h : s.Brief) {t : ThreadId ι} {s₁ : Shared ι}
    {thread : Thread} (hstep : StaysBrief t s.shared s₁ thread) :
    ({ s with shared := s₁ }.set t (some thread)).Brief := by
  intro u
  show briefEntry (s₁.holds u) (Function.update s.threads t (some thread) u)
  by_cases hu : u = t
  · subst hu
    rw [Function.update_self]
    exact hstep.1
  · rw [Function.update_of_ne hu, hstep.2 u hu]
    exact h u

/-- A thread that runs to the end of its statements holds nothing. -/
theorem Session.Brief.replace {s : Session ι} (h : s.Brief) {t : ThreadId ι}
    {thread : Option Thread} (hfree : s.shared.holds t = false)
    (hthread : ∀ th, thread = some th → th.balanced false = true) : (s.set t thread).Brief := by
  intro u
  show briefEntry (s.shared.holds u) (Function.update s.threads t thread u)
  by_cases hu : u = t
  · subst hu
    rw [Function.update_self, hfree]
    cases thread with
    | some th => exact hthread th rfl
    | none => rfl
  · rw [Function.update_of_ne hu]
    exact h u

/-- **A step** keeps the critical sections brief. -/
theorem brief_next {s s' : Session ι} {a : Action ι} (h : s.Brief)
    (hstep : next cfg s a = some s') : s'.Brief := by
  rcases next_cases hstep with ⟨sending, stack, s₁, sending', hthread, hnext, rfl⟩ |
    ⟨w, rest, hthread, rfl⟩ | ⟨w, rest, hthread, hjoin⟩ |
    ⟨stmt, rest, s₁, thread, hthread, hnext, rfl⟩
  · exact h.set (staysBrief_sending hnext (h.of_some hthread))
  · -- a worker that is not joinable holds nothing
    obtain ⟨hfree, hrest⟩ := free_of_balanced (h.of_some hthread) rfl
    unfold Session.startWorker
    split_ifs with hjoinable
    · exact h
    · have hnone : s.threads (.worker w) = none := Option.not_isSome_iff_eq_none.mp hjoinable
      have hworker := h (.worker w)
      rw [hnone] at hworker
      refine (h.replace hfree ?_).replace hworker ?_
      · rintro th ⟨⟩
        exact hrest
      · rintro th ⟨⟩
        exact balanced_worker w
  · -- a worker that has ended holds nothing
    obtain ⟨hfree, hrest⟩ := free_of_balanced (h.of_some hthread) rfl
    rcases joinWorker_cases hjoin with rfl | rfl | ⟨hended, rfl⟩
    · refine h.replace hfree ?_
      rintro th ⟨⟩
      exact hrest
    · exact h
    · have hworker : s.shared.holds (.worker w) = false := by
        simpa [Thread.balanced, balanced] using h.of_some hended
      refine (h.replace hfree ?_).replace hworker ?_
      · rintro th ⟨⟩
        exact hrest
      · rintro th ⟨⟩
  · exact h.set (staysBrief_stmt hnext (h.of_some hthread))

/-! ## No deadlock -/

/-- Thread `t` is at a request for `mutex_`. -/
def Session.Requests (s : Session ι) (t : ThreadId ι) : Prop :=
  ∃ rest, s.threads t = some ⟨none, .lock :: rest⟩

/-- Thread `t` waits for the end of a worker. -/
def Session.Joins (s : Session ι) (t : ThreadId ι) (w : Worker) : Prop :=
  ∃ rest, s.threads t = some ⟨none, .join w :: rest⟩

/-- No thread requests `mutex_` while it holds it, and no thread that holds it waits for one
that requests it. -/
def Session.NotDeadlocked (s : Session ι) : Prop :=
  ∀ t, s.shared.mutex_ = some t →
    ¬ s.Requests t ∧ ∀ w, s.Joins t w → ¬ s.Requests (.worker w)

/-- In every state reached, the critical sections are brief. -/
theorem brief_of_reachable {s : Session ι} (h : (system ι cfg).Reachable s) : s.Brief := by
  apply h.invariant
  · rintro s rfl
    exact brief_start
  · intro s a s' hs hstep
    exact brief_next hs hstep

/-- **No deadlock.**  Whatever arrives, however the threads interleave, and whatever the
application calls from its threads and its handlers, no state reached is deadlocked on
`mutex_`. -/
theorem notDeadlocked_of_reachable {s : Session ι} (h : (system ι cfg).Reachable s) :
    s.NotDeadlocked := by
  have hbrief := brief_of_reachable h
  intro t hmutex
  have hholds : s.shared.holds t = true := decide_eq_true hmutex
  constructor
  · rintro ⟨rest, hthread⟩
    have hb := hbrief.of_some hthread
    rw [hholds] at hb
    exact absurd hb (by simp [Thread.balanced, balanced, Stmt.holdsAfter])
  · rintro w ⟨rest, hthread⟩
    have hb := hbrief.of_some hthread
    rw [hholds] at hb
    exact absurd hb (by simp [Thread.balanced, balanced, Stmt.holdsAfter])

/-- The logon of the server arrives while the application sets a handler. -/
def settingHandler : List (Action Unit) :=
  connecting ++ [⟨.worker .receive, .none⟩, ⟨.worker .receive, .none⟩,
      ⟨.worker .receive, .received (.data (serialize serverLogon.msg))⟩]
    ++ appSteps [.call (.setOnCancelRejectHandler true), .none]
    ++ List.replicate 9 ⟨.worker .receive, .none⟩

/-- The application holds `mutex_`, all the fields were cut off, and nothing is deadlocked. -/
theorem notDeadlocked_settingHandler :
    ∃ s, (system Unit clientConfig).Reachable s ∧ s.shared.mutex_ = some (.app ()) ∧
      s.shared.partial_msg = [] ∧ s.NotDeadlocked := by
  have hrun : ∃ s ∈ runFrom (next clientConfig) (fun _ _ => True) start settingHandler,
      s.shared.mutex_ = some (.app ()) ∧ s.shared.partial_msg = [] := by decide +kernel
  obtain ⟨s, hreach, hmutex, hpartial⟩ := exists_of_runFrom hrun
  exact ⟨s, hreach, hmutex, hpartial, notDeadlocked_of_reachable hreach⟩

/-- **The mutex is released.**  The thread that holds `mutex_` can always take its next
step. -/
theorem exists_next_of_holds {s : Session ι} (h : (system ι cfg).Reachable s)
    (hrunning : s.terminated = false) {t : ThreadId ι} (hmutex : s.shared.mutex_ = some t) :
    ∃ s', next cfg s ⟨t, .none⟩ = some s' := by
  have hholds : s.shared.holds t = true := decide_eq_true hmutex
  have hb := brief_of_reachable h t
  rw [hholds] at hb
  cases hthread : s.threads t with
  | none =>
    rw [hthread] at hb
    exact absurd hb (by simp [briefEntry])
  | some thread =>
    obtain ⟨sending, stack⟩ := thread
    have hb : (Thread.mk sending stack).balanced true = true := by
      rw [hthread] at hb
      exact hb
    cases sending with
    | some sending =>
      cases sending with
      | drawn out seq_num => exact ⟨_, next_of_sending hrunning hthread rfl⟩
      | _ => exact absurd hb (by simp [Thread.balanced])
    | none =>
      cases stack with
      | nil => exact absurd hb (by simp [Thread.balanced, balanced])
      | cons stmt rest =>
        obtain ⟨holding', hafter, -⟩ := balanced_cons.mp hb
        -- the statements of a critical section never wait
        cases stmt with
        | unlock => exact ⟨_, next_of_stmt hrunning hthread rfl⟩
        | draw out => exact ⟨_, next_of_stmt hrunning hthread rfl⟩
        | setHandler handler value => exact ⟨_, next_of_stmt hrunning hthread rfl⟩
        | raiseTarget seq_num => exact ⟨_, next_of_stmt hrunning hthread rfl⟩
        | _ => exact absurd hafter (Option.not_mem_none _)

/-- **What a handler does that is called with `mutex_` held**, as `processReceivedMessage`
would call it: if it calls a method that locks `mutex_`, its thread requests the mutex it
holds. -/
theorem deadlocked_of_callHandler {s : Session ι} {t : ThreadId ι} {handler : Handler}
    {rest : List Stmt} (hrunning : s.terminated = false) (hmutex : s.shared.mutex_ = some t)
    (hthread : s.threads t = some ⟨none, .callHandler handler :: rest⟩)
    (hset : s.shared.handlers handler = true) :
    ∃ s₁ s₂, next cfg s ⟨t, .none⟩ = some s₁ ∧
      next cfg s₁ ⟨t, .call (.setOnCancelRejectHandler true)⟩ = some s₂ ∧ ¬ s₂.NotDeadlocked := by
  have hcalled : Stmt.next cfg t s.shared .none rest (.callHandler handler)
      = some (s.shared, ⟨none, .user :: rest⟩) := by
    rw [Stmt.next, hset]
    rfl
  have hinside : (s.set t (some ⟨none, .user :: rest⟩)).threads t
      = some ⟨none, .user :: rest⟩ := Function.update_self ..
  refine ⟨_, _, next_of_stmt hrunning hthread hcalled,
    next_of_stmt (a := ⟨t, .call (.setOnCancelRejectHandler true)⟩) hrunning hinside rfl, ?_⟩
  intro h
  exact (h t hmutex).1 ⟨_, Function.update_self ..⟩

end FIX42Protocol
