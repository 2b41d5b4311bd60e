/-
# A session that only logs on

Orders, cancels, logouts and heartbeats are sent behind a test of `is_logged_on_`, which only
`processReceivedMessage` sets; `receiveLoop` hands nothing to it.  So whatever the peer answers
and whatever the application calls, the messages of a session are logons.
-/
import FastServer.FixSession

namespace FIX42Protocol

open Framing TransitionSystem

/-! ## Statements behind a test -/

/-- The statement may run while the session is not logged on: it sends nothing but a logon, and
sets neither of the flags of a session that is. -/
def Stmt.loggedOff : Stmt → Bool
  | .draw .logon => true
  | .draw _ => false
  | .assign .is_connected _ => true
  | .assign _ value => !value
  | .raiseTarget _ => false
  | .noteTestRequest _ => false
  | .callHandler _ => false
  | .start w => w = .receive
  | .whileRunning => false
  | _ => true

/-- Whether the statements behind one are skipped, in a session that is not logged on: up to the
end of the function, if the statement is the test. -/
def Stmt.skips (skipping : Bool) : Stmt → Bool
  | .ret => false
  | .returnUnless .is_logged_on => true
  | _ => skipping

/-- What is not skipped may run while the session is not logged on. -/
def guarded : Bool → List Stmt → Bool
  | _, [] => true
  | skipping, stmt :: rest => (skipping || stmt.loggedOff) && guarded (stmt.skips skipping) rest

@[simp] theorem guarded_nil (skipping : Bool) : guarded skipping [] = true := by
  cases skipping <;> rfl

theorem guarded_cons {skipping : Bool} {stmt : Stmt} {rest : List Stmt} :
    guarded skipping (stmt :: rest) = true
      ↔ (skipping = true ∨ stmt.loggedOff = true) ∧ guarded (stmt.skips skipping) rest = true := by
  cases skipping <;> simp [guarded]

/-- Skipping is leaving the function. -/
theorem guarded_true (stmts : List Stmt) :
    guarded true stmts = guarded false (afterReturn stmts) := by
  induction stmts with
  | nil => rfl
  | cons stmt rest ih =>
    cases stmt with
    | returnUnless flag => cases flag <;> exact ih
    | ret => rfl
    | _ => exact ih

/-- What may run may be skipped. -/
theorem guarded_skip {skipping : Bool} {stmts : List Stmt} (h : guarded skipping stmts = true) :
    guarded true stmts = true := by
  induction stmts generalizing skipping with
  | nil => rfl
  | cons stmt rest ih =>
    obtain ⟨-, hrest⟩ := guarded_cons.mp h
    refine guarded_cons.mpr ⟨Or.inl rfl, ?_⟩
    cases stmt with
    | returnUnless flag => cases flag <;> exact ih hrest
    | ret => exact hrest
    | _ => exact ih hrest

/-- A function may be left anywhere. -/
theorem guarded_afterReturn {stmts : List Stmt} (h : guarded false stmts = true) :
    guarded false (afterReturn stmts) = true := by
  rw [← guarded_true]
  exact guarded_skip h

/-- Statements one after the other. -/
theorem guarded_append {skipping : Bool} {stmts rest : List Stmt}
    (h : guarded skipping stmts = true) (hrest : guarded false rest = true) :
    guarded skipping (stmts ++ rest) = true := by
  induction stmts generalizing skipping with
  | nil =>
    cases skipping with
    | false => exact hrest
    | true => exact guarded_skip hrest
  | cons stmt stmts ih =>
    obtain ⟨hstmt, hstmts⟩ := guarded_cons.mp h
    exact guarded_cons.mpr ⟨hstmt, ih hstmts⟩

/-- **Every public method** sends behind the test, or logs on. -/
theorem guarded_body (c : Call) : guarded false c.body = true := by
  cases c <;> rfl

/-! ## One step -/

variable {ι : Type} [DecidableEq ι] {cfg : Config} {s s' : Shared ι} {choice : Choice}

/-- What a message on its way is. -/
def Sending.out : Sending → Outgoing
  | .drawn out _ => out
  | .numbered out _ => out
  | .composed o => o.out
  | .checked o => o.out

/-- The session is not logged on and has sent logons only. -/
structure Shared.LoggedOff (s : Shared ι) : Prop where
  is_logged_on : s.is_logged_on_ = false
  heartbeat_running : s.heartbeat_running_ = false
  target : s.target_msg_seq_num_ = 0
  wire : ∀ o ∈ s.wire, o.out = .logon

/-- The thread sends logons only, unless the session is logged on. -/
structure Thread.LoggedOff (thread : Thread) : Prop where
  sending : ∀ x ∈ thread.sending, x.out = .logon
  stack : guarded false thread.stack = true

/-- A thread that is to send nothing. -/
theorem loggedOff_of_stack {stack : List Stmt} (h : guarded false stack = true) :
    Thread.LoggedOff ⟨none, stack⟩ where
  sending := fun _ hx => absurd hx.symm (Option.some_ne_none _)
  stack := h

omit [DecidableEq ι] in
/-- **A statement** that may run keeps the session logged off. -/
theorem loggedOff_stmt {t : ThreadId ι} {stmt : Stmt} {rest : List Stmt} {thread : Thread}
    (h : stmt.next cfg t s choice rest = some (s', thread)) (hs : s.LoggedOff)
    (hthread : Thread.LoggedOff ⟨none, stmt :: rest⟩) : s'.LoggedOff ∧ thread.LoggedOff := by
  obtain ⟨hstmt, hrest⟩ := guarded_cons.mp hthread.stack
  replace hstmt := hstmt.resolve_left Bool.false_ne_true
  cases stmt with
  | returnUnless flag =>
    obtain ⟨rfl, rfl⟩ := Prod.mk.inj (Option.some.inj h)
    refine ⟨hs, loggedOff_of_stack ?_⟩
    cases flag with
    | is_logged_on =>
      -- the test fails, and what follows it up to the end of the function does not run
      rw [show s.flag .is_logged_on = false from hs.is_logged_on, if_neg Bool.false_ne_true,
        ← guarded_true]
      exact hrest
    | _ =>
      split_ifs
      · exact hrest
      · exact guarded_afterReturn hrest
  | returnIf flag =>
    obtain ⟨rfl, rfl⟩ := Prod.mk.inj (Option.some.inj h)
    refine ⟨hs, loggedOff_of_stack ?_⟩
    split_ifs
    · exact guarded_afterReturn hrest
    · exact hrest
  | refuseLogon handler =>
    obtain ⟨rfl, rfl⟩ := Prod.mk.inj (Option.some.inj h)
    refine ⟨hs, loggedOff_of_stack ?_⟩
    split_ifs
    · exact hrest
    · exact guarded_afterReturn hrest
    · exact guarded_afterReturn hrest
  | assign flag value =>
    obtain ⟨rfl, rfl⟩ := Prod.mk.inj (Option.some.inj h)
    refine ⟨?_, loggedOff_of_stack hrest⟩
    cases flag with
    | is_connected => exact ⟨hs.is_logged_on, hs.heartbeat_running, hs.target, hs.wire⟩
    | is_logged_on =>
      exact ⟨(Bool.not_eq_true' value).mp hstmt, hs.heartbeat_running, hs.target, hs.wire⟩
    | heartbeat_running =>
      exact ⟨hs.is_logged_on, (Bool.not_eq_true' value).mp hstmt, hs.target, hs.wire⟩
  | lock =>
    rw [Stmt.next] at h
    split_ifs at h
    obtain ⟨rfl, rfl⟩ := Prod.mk.inj (Option.some.inj h)
    exact ⟨⟨hs.is_logged_on, hs.heartbeat_running, hs.target, hs.wire⟩, loggedOff_of_stack hrest⟩
  | draw out =>
    obtain ⟨rfl, rfl⟩ := Prod.mk.inj (Option.some.inj h)
    refine ⟨⟨hs.is_logged_on, hs.heartbeat_running, hs.target, hs.wire⟩, ?_, hrest⟩
    rintro x ⟨⟩
    cases out with
    | logon => rfl
    | _ => cases hstmt
  | user =>
    cases choice with
    | call c =>
      obtain ⟨rfl, rfl⟩ := Prod.mk.inj (Option.some.inj h)
      exact ⟨hs, loggedOff_of_stack (guarded_append (guarded_body c) hrest)⟩
    | finish =>
      obtain ⟨rfl, rfl⟩ := Prod.mk.inj (Option.some.inj h)
      exact ⟨hs, loggedOff_of_stack hrest⟩
    | _ => exact absurd h.symm (Option.some_ne_none _)
  | openSocket =>
    cases choice with
    | opened success =>
      obtain ⟨rfl, rfl⟩ := Prod.mk.inj (Option.some.inj h)
      refine ⟨hs, loggedOff_of_stack ?_⟩
      split_ifs
      · exact hrest
      · exact guarded_afterReturn hrest
    | _ => exact absurd h.symm (Option.some_ne_none _)
  | whileConnected =>
    obtain ⟨rfl, rfl⟩ := Prod.mk.inj (Option.some.inj h)
    refine ⟨hs, loggedOff_of_stack ?_⟩
    split_ifs
    · exact hrest
    · exact hrest
  | recv =>
    cases choice with
    | received result =>
      cases result with
      | _ =>
        obtain ⟨rfl, rfl⟩ := Prod.mk.inj (Option.some.inj h)
        exact ⟨⟨hs.is_logged_on, hs.heartbeat_running, hs.target, hs.wire⟩,
          loggedOff_of_stack hrest⟩
    | _ => exact absurd h.symm (Option.some_ne_none _)
  | cut =>
    rw [Stmt.next] at h
    split at h
    · -- a piece has no separator in it, so nothing is put in front of `rest`
      rename_i text partial_msg hcut
      have hsoh : soh ∉ text := (of_cutAt hcut).1
      rw [accepted_piece hsoh] at h
      obtain ⟨rfl, rfl⟩ := Prod.mk.inj (Option.some.inj h)
      exact ⟨⟨hs.is_logged_on, hs.heartbeat_running, hs.target, hs.wire⟩, loggedOff_of_stack hrest⟩
    · obtain ⟨rfl, rfl⟩ := Prod.mk.inj (Option.some.inj h)
      exact ⟨hs, loggedOff_of_stack hrest⟩
  | raiseTarget seq_num => cases hstmt
  | noteTestRequest id => cases hstmt
  | callHandler handler => cases hstmt
  | whileRunning => cases hstmt
  | start w => exact absurd h.symm (Option.some_ne_none _)
  | join w => exact absurd h.symm (Option.some_ne_none _)
  | _ =>
    obtain ⟨rfl, rfl⟩ := Prod.mk.inj (Option.some.inj h)
    exact ⟨⟨hs.is_logged_on, hs.heartbeat_running, hs.target, hs.wire⟩, loggedOff_of_stack hrest⟩

omit [DecidableEq ι] in
/-- **A message on its way** that is a logon. -/
theorem loggedOff_sending {sending : Sending} {sending' : Option Sending} {stack : List Stmt}
    (h : sending.next s choice = some (s', sending')) (hs : s.LoggedOff)
    (hthread : Thread.LoggedOff ⟨some sending, stack⟩) :
    s'.LoggedOff ∧ Thread.LoggedOff ⟨sending', stack⟩ := by
  have hout : sending.out = .logon := hthread.sending sending rfl
  have hstack := hthread.stack
  cases sending with
  | drawn out seq_num =>
    obtain ⟨rfl, rfl⟩ := Prod.mk.inj (Option.some.inj h)
    refine ⟨⟨hs.is_logged_on, hs.heartbeat_running, hs.target, hs.wire⟩, ?_, hstack⟩
    rintro x ⟨⟩
    exact hout
  | numbered out seq_num =>
    cases choice with
    | time sending_time =>
      obtain ⟨rfl, rfl⟩ := Prod.mk.inj (Option.some.inj h)
      refine ⟨⟨hs.is_logged_on, hs.heartbeat_running, hs.target, hs.wire⟩, ?_, hstack⟩
      rintro x ⟨⟩
      exact hout
    | _ => exact absurd h.symm (Option.some_ne_none _)
  | composed o =>
    rw [Sending.next] at h
    split_ifs at h
    · obtain ⟨rfl, rfl⟩ := Prod.mk.inj (Option.some.inj h)
      refine ⟨hs, ?_, hstack⟩
      rintro x ⟨⟩
      exact hout
    · obtain ⟨rfl, rfl⟩ := Prod.mk.inj (Option.some.inj h)
      exact ⟨⟨hs.is_logged_on, hs.heartbeat_running, hs.target, hs.wire⟩,
        loggedOff_of_stack hstack⟩
  | checked o =>
    cases choice with
    | sent complete =>
      cases complete with
      | true =>
        obtain ⟨rfl, rfl⟩ := Prod.mk.inj (Option.some.inj h)
        refine ⟨⟨hs.is_logged_on, hs.heartbeat_running, hs.target, ?_⟩, loggedOff_of_stack hstack⟩
        intro o' ho'
        rcases List.mem_append.mp ho' with ho' | ho'
        · exact hs.wire o' ho'
        · rw [List.mem_singleton.mp ho']
          exact hout
      | false =>
        obtain ⟨rfl, rfl⟩ := Prod.mk.inj (Option.some.inj h)
        exact ⟨⟨hs.is_logged_on, hs.heartbeat_running, hs.target, hs.wire⟩,
          loggedOff_of_stack hstack⟩
    | _ => exact absurd h.symm (Option.some_ne_none _)

/-! ## The whole session -/

/-- The session is not logged on, no thread of it will send anything but logons, and there is no
heartbeat thread. -/
structure Session.LoggedOff (s : Session ι) : Prop where
  shared : s.shared.LoggedOff
  heartbeat : s.threads (.worker .heartbeat) = none
  threads : ∀ t, ∀ thread ∈ s.threads t, thread.LoggedOff

omit [DecidableEq ι] in
theorem loggedOff_start : (start : Session ι).LoggedOff where
  shared := ⟨rfl, rfl, rfl, fun _ ho => absurd ho List.not_mem_nil⟩
  heartbeat := rfl
  threads := by
    intro t thread hthread
    cases t with
    | app i =>
      obtain rfl := Option.some.inj hthread
      exact loggedOff_of_stack rfl
    | worker w => exact absurd hthread.symm (Option.some_ne_none _)

variable {σ σ' : Session ι}

/-- A thread goes on. -/
theorem Session.LoggedOff.set (h : σ.LoggedOff) {t : ThreadId ι} {thread : Option Thread}
    (hheartbeat : t = .worker .heartbeat → thread = none)
    (hthread : ∀ th ∈ thread, th.LoggedOff) : (σ.set t thread).LoggedOff where
  shared := h.shared
  heartbeat := by
    show Function.update σ.threads t thread (.worker .heartbeat) = none
    by_cases ht : t = .worker .heartbeat
    · rw [← ht, Function.update_self]
      exact hheartbeat ht
    · rw [Function.update_of_ne (Ne.symm ht)]
      exact h.heartbeat
  threads := by
    intro u th hth
    have hth : th ∈ Function.update σ.threads t thread u := hth
    by_cases hu : u = t
    · rw [hu, Function.update_self] at hth
      exact hthread th hth
    · rw [Function.update_of_ne hu] at hth
      exact h.threads u th hth

/-- **A step** of any thread keeps the session logged off. -/
theorem loggedOff_next {a : Action ι} (h : σ.LoggedOff) (hstep : next cfg σ a = some σ') :
    σ'.LoggedOff := by
  have hself : ∀ thread, σ.threads a.thread = some thread → a.thread ≠ .worker .heartbeat := by
    intro thread hthread ht
    rw [ht, h.heartbeat] at hthread
    exact absurd hthread.symm (Option.some_ne_none _)
  rcases next_cases hstep with ⟨sending, stack, s₁, sending', hthread, hnext, rfl⟩ |
    ⟨w, rest, hthread, rfl⟩ | ⟨w, rest, hthread, hjoin⟩ |
    ⟨stmt, rest, s₁, thread, hthread, hnext, rfl⟩
  · obtain ⟨hshared, hgoes⟩ := loggedOff_sending hnext h.shared (h.threads _ _ hthread)
    have hkept : ({ σ with shared := s₁ } : Session ι).LoggedOff :=
      ⟨hshared, h.heartbeat, h.threads⟩
    refine hkept.set (fun ht => absurd ht (hself _ hthread)) ?_
    rintro th ⟨⟩
    exact hgoes
  · obtain ⟨hstart, hrest⟩ := guarded_cons.mp (h.threads _ _ hthread).stack
    obtain rfl : w = .receive := of_decide_eq_true (hstart.resolve_left Bool.false_ne_true)
    unfold Session.startWorker
    split_ifs with hjoinable
    · exact ⟨h.shared, h.heartbeat, h.threads⟩
    · refine (h.set (fun ht => absurd ht (hself _ hthread)) ?_).set (fun ht => by cases ht) ?_
      · rintro th ⟨⟩
        exact loggedOff_of_stack hrest
      · rintro th ⟨⟩
        exact loggedOff_of_stack rfl
  · obtain ⟨-, hrest⟩ := guarded_cons.mp (h.threads _ _ hthread).stack
    have hgoes : (σ.set a.thread (some ⟨none, rest⟩)).LoggedOff := by
      refine h.set (fun ht => absurd ht (hself _ hthread)) ?_
      rintro th ⟨⟩
      exact loggedOff_of_stack hrest
    rcases joinWorker_cases hjoin with rfl | rfl | ⟨-, rfl⟩
    · exact hgoes
    · exact ⟨h.shared, h.heartbeat, h.threads⟩
    · exact hgoes.set (fun _ => rfl) fun th hth => absurd hth.symm (Option.some_ne_none _)
  · obtain ⟨hshared, hgoes⟩ := loggedOff_stmt hnext h.shared (h.threads _ _ hthread)
    have hkept : ({ σ with shared := s₁ } : Session ι).LoggedOff :=
      ⟨hshared, h.heartbeat, h.threads⟩
    refine hkept.set (fun ht => absurd ht (hself _ hthread)) ?_
    rintro th ⟨⟩
    exact hgoes

theorem loggedOff_of_reachable (h : (system ι cfg).Reachable σ) : σ.LoggedOff := by
  apply h.invariant
  · rintro σ rfl
    exact loggedOff_start
  · intro σ a σ' hσ hstep
    exact loggedOff_next hσ hstep

/-- The type of a logon. -/
theorem get?_msgType_logon {o : Outbound} (h : o.out = .logon) :
    (o.message cfg).fields.get? FIXField.msgType = some (ascii "A") := by
  rw [Outbound.message, h]
  show ((((createBaseMessage cfg .logon o.seq_num o.sending_time).fields.set FIXField.heartBtInt
    _).set FIXField.resetSeqNumFlag _).get? FIXField.msgType) = _
  rw [Fields.get?_set_of_ne _ (by decide), Fields.get?_set_of_ne _ (by decide), createBaseMessage,
    Fields.get?_set_self]
  rfl

/-- **Nothing but logons.**  Whatever arrives, however the threads interleave, and whatever the
application calls from its threads and its handlers: the session is never logged on, no heartbeat
thread runs, no number of the peer is taken over, and all the messages sent are logons. -/
theorem logonOnly_of_reachable (h : (system ι cfg).Reachable σ) :
    σ.shared.is_logged_on_ = false ∧ σ.threads (.worker .heartbeat) = none ∧
      σ.shared.target_msg_seq_num_ = 0 ∧
      ∀ o ∈ σ.shared.wire, (o.message cfg).fields.get? FIXField.msgType = some (ascii "A") := by
  have hoff := loggedOff_of_reachable h
  exact ⟨hoff.shared.is_logged_on, hoff.heartbeat, hoff.shared.target,
    fun o ho => get?_msgType_logon (hoff.shared.wire o ho)⟩

/-- The application logs on, the server answers with its logon, and an order follows. -/
def ordering : List (Action Unit) :=
  connecting ++ appSteps [.call (.logon true), .none, .none, .none, .none, .none,
      .time (ascii "20240101-09:30:00.000"), .none, .sent true, .none]
    ++ [⟨.worker .receive, .none⟩, ⟨.worker .receive, .none⟩,
      ⟨.worker .receive, .received (.data (serialize serverLogon.msg))⟩]
    ++ List.replicate 9 ⟨.worker .receive, .none⟩
    ++ appSteps [.call (.sendLimitOrder 1 (ascii "AAPL") .buy (ascii "150.25") 100 .day), .none,
      .none, .finish]

/-- The logon is on the wire, the answer was read, and the order was not sent. -/
theorem logonOnly_ordering :
    ∃ σ, (system Unit clientConfig).Reachable σ ∧ σ.shared.wire.length = 1 ∧
      σ.shared.partial_msg = [] ∧ σ.shared.is_logged_on_ = false := by
  have hrun : ∃ σ ∈ runFrom (next clientConfig) (fun _ _ => True) start ordering,
      σ.shared.wire.length = 1 ∧ σ.shared.partial_msg = [] := by decide +kernel
  obtain ⟨σ, hreach, hwire, hpartial⟩ := exists_of_runFrom hrun
  exact ⟨σ, hreach, hwire, hpartial, (logonOnly_of_reachable hreach).1⟩

end FIX42Protocol
