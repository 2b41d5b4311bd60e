/-
# The answers to test requests

The account of a session: the heartbeats on the wire that carry an identifier, and the answer
that the receive thread still owes, are those to the test requests handed over.  A tick while
an identifier is noted breaks it.
-/
import FastServer.FixTestRequest

namespace FIX42Protocol

open Framing TransitionSystem

variable {ι : Type} {cfg : Config}

/-! ## The whole session -/

/-- A thread that there may be. -/
def Entry (P : Thread → Prop) (thread : Option Thread) : Prop := ∀ th ∈ thread, P th

/-- What is owed by a receive thread that there may be: nothing, if there is none. -/
def OwesEntry (last_test_request_id : Bytes) (owed : Option Bytes) : Option Thread → Prop
  | some thread => Owes last_test_request_id thread owed
  | none => owed = none

/-- The answers on the wire, and the one that is owed, are those to the test requests. -/
structure Accounts (cfg : Config) (s : Observed ι) (owed : Option Bytes) : Prop where
  answers : s.session.shared.answers cfg ++ owed.toList = s.received
  periodic : ∀ o ∈ s.session.shared.wire, o.out = .heartbeat → o.testReqID cfg = none
  receive : OwesEntry s.session.shared.last_test_request_id_ owed
    (s.session.threads (.worker .receive))
  others : ∀ t, t ≠ .worker .receive → Entry Thread.Quiet (s.session.threads t)

theorem accounts_start : Accounts cfg (⟨start, []⟩ : Observed ι) none where
  answers := rfl
  periodic := fun o ho => absurd ho List.not_mem_nil
  receive := rfl
  others := by
    intro t ht th hth
    cases t with
    | app i =>
      obtain rfl := Option.some.inj hth
      exact quiet_of_stack rfl
    | worker w => exact absurd hth.symm (Option.some_ne_none _)

variable {s : Observed ι} {owed owed' : Option Bytes}

/-- More messages are on the wire. -/
theorem answers_append {s s' : Shared ι} {written : List Outbound}
    (hwire : s'.wire = s.wire ++ written) :
    s'.answers cfg = s.answers cfg ++ written.filterMap (Outbound.testReqID cfg) := by
  rw [Shared.answers, hwire, List.filterMap_append]
  rfl

/-- The threads are other ones, and nothing else is. -/
theorem Accounts.threads (h : Accounts cfg s owed) {threads : ThreadId ι → Option Thread}
    (hreceive : OwesEntry s.session.shared.last_test_request_id_ owed (threads (.worker .receive)))
    (hothers : ∀ t, t ≠ .worker .receive → Entry Thread.Quiet (threads t)) {terminated : Bool} :
    Accounts cfg ⟨⟨s.session.shared, threads, terminated⟩, s.received⟩ owed :=
  ⟨h.answers, h.periodic, hreceive, hothers⟩

variable [DecidableEq ι]

/-- The receive thread goes on. -/
theorem Accounts.receives (h : Accounts cfg s owed) {s₁ : Shared ι} {thread : Thread}
    (hstep : Repays cfg s.session.shared s₁ thread owed owed') :
    Accounts cfg { s with
      session := { s.session with shared := s₁ }.set (.worker .receive) (some thread) } owed' := by
  obtain ⟨howes, written, hwire, hrepaid, hperiodic⟩ := hstep
  refine ⟨?_, ?_, ?_, ?_⟩
  · show s₁.answers cfg ++ owed'.toList = s.received
    rw [answers_append hwire, List.append_assoc, hrepaid]
    exact h.answers
  · intro o ho
    show o.out = .heartbeat → o.testReqID cfg = none
    rcases List.mem_append.mp (hwire ▸ ho) with hold | hnew
    · exact h.periodic o hold
    · exact hperiodic o hnew
  · show OwesEntry s₁.last_test_request_id_ owed'
      (Function.update s.session.threads (.worker .receive) (some thread) (.worker .receive))
    rw [Function.update_self]
    exact howes
  · intro t ht
    show Entry Thread.Quiet (Function.update s.session.threads (.worker .receive) (some thread) t)
    rw [Function.update_of_ne ht]
    exact h.others t ht

/-- Another thread goes on. -/
theorem Accounts.other (h : Accounts cfg s owed) {t : ThreadId ι} (ht : t ≠ .worker .receive)
    {s₁ : Shared ι} {thread : Thread} (hstep : StaysQuiet s.session.shared s₁ thread) :
    Accounts cfg { s with
      session := { s.session with shared := s₁ }.set t (some thread) } owed := by
  have hquiet := hstep.quiet
  have hnoted := hstep.noted
  have hrepays : Repays cfg s.session.shared s₁ thread none none := hstep.repays
  obtain ⟨-, written, hwire, hnothing, hperiodic⟩ := hrepays
  refine ⟨?_, ?_, ?_, ?_⟩
  · show s₁.answers cfg ++ owed.toList = s.received
    rw [Option.toList_none, List.append_nil] at hnothing
    rw [answers_append hwire, hnothing, List.append_nil]
    exact h.answers
  · intro o ho
    show o.out = .heartbeat → o.testReqID cfg = none
    rcases List.mem_append.mp (hwire ▸ ho) with hold | hnew
    · exact h.periodic o hold
    · exact hperiodic o hnew
  · show OwesEntry s₁.last_test_request_id_ owed
      (Function.update s.session.threads t (some thread) (.worker .receive))
    rw [Function.update_of_ne ht.symm, hnoted]
    exact h.receive
  · intro u hu
    show Entry Thread.Quiet (Function.update s.session.threads t (some thread) u)
    by_cases hut : u = t
    · rw [hut, Function.update_self]
      rintro th ⟨⟩
      exact hquiet
    · rw [Function.update_of_ne hut]
      exact h.others u hu

/-- One thread is another one, and nothing else is. -/
theorem Accounts.set (h : Accounts cfg s owed) {t : ThreadId ι} {thread : Option Thread}
    (hreceive : t = .worker .receive →
      OwesEntry s.session.shared.last_test_request_id_ owed thread)
    (hother : t ≠ .worker .receive → Entry Thread.Quiet thread) :
    Accounts cfg { s with session := s.session.set t thread } owed := by
  apply h.threads
  · by_cases ht : t = .worker .receive
    · subst ht
      rw [Function.update_self]
      exact hreceive rfl
    · rw [Function.update_of_ne (Ne.symm ht)]
      exact h.receive
  · intro u hu
    by_cases hut : u = t
    · subst hut
      rw [Function.update_self]
      exact hother hu
    · rw [Function.update_of_ne hut]
      exact h.others u hu

/-- The statements of `replySteps`, whatever the number and the identifier. -/
def Stmt.replies : Stmt → Bool
  | .lock => true
  | .raiseTarget _ => true
  | .unlock => true
  | .noteTestRequest _ => true
  | .draw .testReply => true
  | _ => false

omit [DecidableEq ι] in
/-- A thread at another statement, or at none, owes nothing. -/
theorem owes_of_head {last_test_request_id : Bytes} {stack : List Stmt}
    (h : Owes last_test_request_id ⟨none, stack⟩ owed)
    (hhead : ∀ stmt ∈ stack.head?, stmt.replies = false) :
    owed = none ∧ stack.all Stmt.quiet = true := by
  generalize hthread : Thread.mk none stack = thread at h
  cases h with
  | nothing hquiet =>
    subst hthread
    exact ⟨rfl, hquiet.stack⟩
  | handling seq_num k hk hnoted hrest =>
    obtain ⟨-, rfl⟩ := Thread.mk.inj hthread
    interval_cases k
    all_goals exact absurd (hhead _ rfl) (by simp [Stmt.replies])
  | sending hanswers hrest => exact absurd (Thread.mk.inj hthread).1.symm (Option.some_ne_none _)

/-- A thread starts or joins a worker: it goes on with `rest`. -/
theorem Accounts.skip (h : Accounts cfg s owed) {t : ThreadId ι} {stmt : Stmt} {rest : List Stmt}
    (hthread : s.session.threads t = some ⟨none, stmt :: rest⟩) (hstmt : stmt.replies = false) :
    Accounts cfg { s with session := s.session.set t (some ⟨none, rest⟩) } owed := by
  apply h.set
  · rintro rfl
    have howes := h.receive
    rw [hthread] at howes
    obtain ⟨rfl, hquiet⟩ := owes_of_head howes (by rintro _ ⟨⟩; exact hstmt)
    exact .nothing (quiet_of_stack ((Bool.and_eq_true _ _).mp hquiet).2)
  · intro ht
    rintro th ⟨⟩
    have hquiet := (h.others t ht _ hthread).stack
    exact quiet_of_stack ((Bool.and_eq_true _ _).mp hquiet).2

/-- **A worker** starts. -/
theorem Accounts.startWorker (h : Accounts cfg s owed) {t : ThreadId ι} {rest : List Stmt}
    {w : Worker} (hthread : s.session.threads t = some ⟨none, .start w :: rest⟩) :
    Accounts cfg { s with session := s.session.startWorker t rest w } owed := by
  unfold Session.startWorker
  split_ifs with hjoinable
  · exact h.threads h.receive h.others
  · have hnone : s.session.threads (.worker w) = none := Option.not_isSome_iff_eq_none.mp hjoinable
    have hbody : Thread.Quiet ⟨none, w.body⟩ := quiet_of_stack (by cases w <;> rfl)
    refine (h.skip hthread rfl).set ?_ ?_
    · intro hw
      have howed := h.receive
      rw [← hw, hnone] at howed
      obtain rfl : owed = none := howed
      exact .nothing hbody
    · intro _
      rintro th ⟨⟩
      exact hbody

/-- **A worker** is joined. -/
theorem Accounts.joinWorker (h : Accounts cfg s owed) {t : ThreadId ι} {rest : List Stmt}
    {w : Worker} {s' : Session ι} (hthread : s.session.threads t = some ⟨none, .join w :: rest⟩)
    (hjoin : s.session.joinWorker t rest w = some s') :
    Accounts cfg { s with session := s' } owed := by
  rcases joinWorker_cases hjoin with rfl | rfl | ⟨hended, rfl⟩
  · exact h.skip hthread rfl
  · exact h.threads h.receive h.others
  · refine (h.skip hthread rfl).set ?_ ?_
    · intro hw
      have howes := h.receive
      rw [← hw, hended] at howes
      exact (owes_of_head howes (by rintro _ ⟨⟩)).1
    · intro _
      rintro th ⟨⟩

/-- **A step** keeps the account. -/
theorem accounts_step (h : Accounts cfg s owed) {a : Action ι} {s' : Session ι}
    (hclear : s.Clear (.step a)) (hstep : next cfg s.session a = some s') :
    ∃ owed', Accounts cfg { s with session := s' } owed' := by
  rcases next_cases hstep with ⟨sending, stack, s₁, sending', hthread, hnext, rfl⟩ |
    ⟨w, rest, hthread, rfl⟩ | ⟨w, rest, hthread, hjoin⟩ |
    ⟨stmt, rest, s₁, thread, hthread, hnext, rfl⟩
  · obtain ⟨hsucceeds, hclear⟩ := hclear sending (by rw [hthread]; rfl)
    by_cases ht : a.thread = .worker .receive
    · have howes := h.receive
      rw [← ht, hthread] at howes
      obtain ⟨owed', hrepays⟩ :
          ∃ owed', Repays cfg s.session.shared s₁ ⟨sending', stack⟩ owed owed' :=
        repays_sending hnext hsucceeds hclear howes
      rw [ht]
      exact ⟨owed', h.receives hrepays⟩
    · exact ⟨owed, h.other ht (staysQuiet_sending hnext hclear (h.others _ ht _ hthread))⟩
  · exact ⟨owed, h.startWorker hthread⟩
  · exact ⟨owed, h.joinWorker hthread hjoin⟩
  · by_cases ht : a.thread = .worker .receive
    · have howes := h.receive
      rw [← ht, hthread] at howes
      have hrepays := repays_stmt hnext howes
      rw [ht]
      exact ⟨owed, h.receives hrepays⟩
    · exact ⟨owed, h.other ht (staysQuiet_stmt hnext (h.others _ ht _ hthread).stack)⟩

/-! ## A message is handed over -/

omit [DecidableEq ι] in
theorem quiet_updateTarget (msg : Message) : (updateTarget msg).all Stmt.quiet = true := by
  unfold updateTarget
  cases (msg.fields.get? FIXField.msgSeqNum).bind stoul with
  | none => rfl
  | some seq_num => rfl

/-- Only a test request is answered. -/
theorem quiet_processType (msg : Message) {type : Option MessageType}
    (htype : type ≠ some .testRequest) :
    (processType cfg msg type).all Stmt.quiet = true := by
  cases type with
  | none => rfl
  | some type =>
    cases type with
    | logon =>
      rw [processType, startHeartbeatTimer]
      split_ifs <;> rfl
    | testRequest => exact absurd rfl htype
    | executionReport =>
      rw [processType]
      split_ifs <;> rfl
    | orderCancelReject =>
      rw [processType]
      split_ifs <;> rfl
    | _ => rfl

/-- **What a message makes the receive thread owe**: an answer, if it is a test request. -/
theorem owes_processReceivedMessage (last_test_request_id : Bytes) (msg : Message)
    {rest : List Stmt} (hrest : rest.all Stmt.quiet = true) :
    Owes last_test_request_id ⟨none, processReceivedMessage cfg msg ++ rest⟩
      (testRequestID msg) := by
  unfold processReceivedMessage testRequestID
  cases msg.fields.get? FIXField.msgType with
  | none => exact .nothing (quiet_of_stack hrest)
  | some text =>
    rw [Option.bind_some]
    dsimp only
    by_cases htype : stringToMessageType text = some .testRequest
    · rw [htype]
      show Owes last_test_request_id ⟨none, updateTarget msg ++ processType cfg msg
        (some .testRequest) ++ rest⟩ (msg.fields.get? FIXField.testReqID)
      unfold processType updateTarget
      cases msg.fields.get? FIXField.testReqID with
      | none =>
        apply Owes.nothing
        apply quiet_of_stack
        rw [List.append_nil]
        exact quiet_append (quiet_updateTarget msg) hrest
      | some id =>
        cases (msg.fields.get? FIXField.msgSeqNum).bind stoul with
        | none => exact .handling 0 3 (by decide) (by omega) hrest
        | some seq_num => exact .handling (seq_num % 2 ^ 32) 0 (by decide) (by omega) hrest
    · have htype' : (processType cfg msg (stringToMessageType text)).all Stmt.quiet = true :=
        quiet_processType msg htype
      have hquiet := quiet_append (quiet_append (quiet_updateTarget msg) htype') hrest
      split
      · rename_i heq
        exact absurd heq htype
      · exact .nothing (quiet_of_stack hquiet)

/-- **A message** is handed over. -/
theorem accounts_deliver (h : Accounts cfg s owed) {msg : Message} {s' : Session ι}
    (hdeliver : s.session.deliver cfg msg = some s') :
    ∃ owed', Accounts cfg ⟨s', s.received ++ (testRequestID msg).toList⟩ owed' := by
  unfold Session.deliver at hdeliver
  split_ifs at hdeliver
  split at hdeliver
  · rename_i rest hthread
    obtain rfl := Option.some.inj hdeliver
    have howes := h.receive
    rw [hthread] at howes
    obtain ⟨rfl, hquiet⟩ := owes_of_head howes (by rintro _ ⟨⟩; rfl)
    have hrest : (Stmt.whileConnected :: rest).all Stmt.quiet = true := hquiet
    have hanswers := h.answers
    rw [Option.toList_none, List.append_nil] at hanswers
    refine ⟨testRequestID msg, ?_, h.periodic, ?_, ?_⟩
    · show s.session.shared.answers cfg ++ (testRequestID msg).toList = _
      rw [hanswers]
    · show OwesEntry s.session.shared.last_test_request_id_ (testRequestID msg)
        (Function.update s.session.threads (.worker .receive) _ (.worker .receive))
      rw [Function.update_self]
      exact owes_processReceivedMessage _ msg hrest
    · intro t ht
      show Entry Thread.Quiet (Function.update s.session.threads (.worker .receive) _ t)
      rw [Function.update_of_ne ht]
      exact h.others t ht
  · exact absurd hdeliver.symm (Option.some_ne_none _)

/-- **An event** keeps the account. -/
theorem accounts_next (h : Accounts cfg s owed) {e : Event ι} {s' : Observed ι}
    (hclear : s.Clear e) (hstep : s.next cfg e = some s') : ∃ owed', Accounts cfg s' owed' := by
  cases e with
  | step a =>
    obtain ⟨session, hsession, rfl⟩ := Option.map_eq_some_iff.mp hstep
    exact accounts_step h hclear hsession
  | deliver msg =>
    obtain ⟨session, hsession, rfl⟩ := Option.map_eq_some_iff.mp hstep
    exact accounts_deliver h hsession

/-! ## The answer is given -/

/-- The receive thread by its own steps gets to where it owes nothing. -/
def Settles (cfg : Config) (s : Observed ι) : Prop :=
  ∃ s', (TransitionSystem.ofFunction s (Observed.next cfg)).ReachableBy
    (fun s e => s.Clear e ∧ e.receives) s' ∧ s'.received = s.received ∧
    ∃ rest, s'.session.threads (.worker .receive) = some ⟨none, rest⟩ ∧
      rest.all Stmt.quiet = true

/-- One more statement. -/
theorem settles_of_stmt {stmt : Stmt} {rest : List Stmt} {s₁ : Shared ι} {thread : Thread}
    (hrunning : s.session.terminated = false)
    (hthread : s.session.threads (.worker .receive) = some ⟨none, stmt :: rest⟩)
    (hnext : stmt.next cfg (.worker .receive) s.session.shared .none rest = some (s₁, thread))
    (h : Settles cfg { s with
      session := { s.session with shared := s₁ }.set (.worker .receive) (some thread) }) :
    Settles cfg s := by
  obtain ⟨s', hreach, hreceived, hquiet⟩ := h
  refine ⟨s', hreach.of_step (a := .step ⟨.worker .receive, .none⟩) ⟨?_, rfl⟩ ?_, hreceived, hquiet⟩
  · intro sending hsending
    rw [hthread] at hsending
    exact absurd hsending.symm (Option.some_ne_none _)
  · exact congrArg (Option.map _) (next_of_stmt hrunning hthread hnext)

/-- A message goes on. -/
theorem settles_of_sending {x : Sending} {stack : List Stmt} {s₁ : Shared ι}
    {sending' : Option Sending} {choice : Choice} (hrunning : s.session.terminated = false)
    (hthread : s.session.threads (.worker .receive) = some ⟨some x, stack⟩)
    (hnext : x.next s.session.shared choice = some (s₁, sending'))
    (hclear : x.Succeeds s.session.shared choice ∧ x.Clear s.session.shared)
    (h : Settles cfg { s with
      session := { s.session with shared := s₁ }.set (.worker .receive)
        (some ⟨sending', stack⟩) }) : Settles cfg s := by
  obtain ⟨s', hreach, hreceived, hquiet⟩ := h
  refine ⟨s', hreach.of_step (a := .step ⟨.worker .receive, choice⟩) ⟨?_, rfl⟩ ?_, hreceived,
    hquiet⟩
  · intro sending hsending
    rw [hthread] at hsending
    obtain rfl := Option.some.inj hsending
    exact hclear
  · exact congrArg (Option.map _) (next_of_sending hrunning hthread hnext)

/-- A thread that answers nothing has settled. -/
theorem settles_of_quiet {rest : List Stmt}
    (hthread : s.session.threads (.worker .receive) = some ⟨none, rest⟩)
    (hquiet : rest.all Stmt.quiet = true) : Settles cfg s :=
  ⟨s, .init rfl, rfl, rest, hthread, hquiet⟩

/-- The process runs, and the session is connected. -/
structure Session.Live (s : Session ι) : Prop where
  running : s.terminated = false
  connected : s.shared.is_connected_ = true

theorem threads_set_self (s : Session ι) (t : ThreadId ι) (thread : Option Thread) :
    (s.set t thread).threads t = thread := Function.update_self ..

section Settling

variable {id : Bytes} {rest : List Stmt} {seq_num : ℕ} (hlive : s.session.Live)
  (hquiet : rest.all Stmt.quiet = true)

include hlive hquiet

theorem settles_checked {o : Outbound}
    (hthread : s.session.threads (.worker .receive) = some ⟨some (.checked o), rest⟩) :
    Settles cfg s :=
  settles_of_sending hlive.running hthread (show Sending.next _ (.sent true) _ = _ from rfl)
    ⟨rfl, trivial⟩ (settles_of_quiet (threads_set_self ..) hquiet)

theorem settles_composed {o : Outbound}
    (hthread : s.session.threads (.worker .receive) = some ⟨some (.composed o), rest⟩) :
    Settles cfg s :=
  settles_of_sending hlive.running hthread
    (show Sending.next _ .none _ = _ from if_pos hlive.connected) ⟨hlive.connected, trivial⟩
    (settles_checked ⟨hlive.running, hlive.connected⟩ hquiet (threads_set_self ..))

theorem settles_numbered (hthread : s.session.threads (.worker .receive)
      = some ⟨some (.numbered .testReply seq_num), rest⟩) : Settles cfg s :=
  settles_of_sending hlive.running hthread (show Sending.next _ (.time []) _ = _ from rfl)
    ⟨trivial, trivial⟩
    (settles_composed ⟨hlive.running, hlive.connected⟩ hquiet (threads_set_self ..))

theorem settles_drawn (hthread : s.session.threads (.worker .receive)
      = some ⟨some (.drawn .testReply seq_num), rest⟩) : Settles cfg s :=
  settles_of_sending hlive.running hthread (show Sending.next _ .none _ = _ from rfl)
    ⟨trivial, trivial⟩
    (settles_numbered ⟨hlive.running, hlive.connected⟩ hquiet (threads_set_self ..))

/-- **An answer on its way** gets to the wire. -/
theorem settles_answer {x : Sending}
    (hthread : s.session.threads (.worker .receive) = some ⟨some x, rest⟩)
    (hanswers : x.Answers s.session.shared.last_test_request_id_ id) : Settles cfg s := by
  cases x with
  | drawn out seq_num =>
    obtain ⟨rfl, -⟩ := hanswers
    exact settles_drawn hlive hquiet hthread
  | numbered out seq_num =>
    obtain ⟨rfl, -⟩ := hanswers
    exact settles_numbered hlive hquiet hthread
  | composed o => exact settles_composed hlive hquiet hthread
  | checked o => exact settles_checked hlive hquiet hthread

theorem settles_draw (hthread : s.session.threads (.worker .receive)
      = some ⟨none, .draw .testReply :: rest⟩) : Settles cfg s :=
  settles_of_stmt hlive.running hthread rfl
    (settles_drawn ⟨hlive.running, hlive.connected⟩ hquiet (threads_set_self ..))

theorem settles_lock (hfree : s.session.shared.mutex_ = none)
    (hthread : s.session.threads (.worker .receive)
      = some ⟨none, .lock :: .draw .testReply :: rest⟩) : Settles cfg s :=
  settles_of_stmt hlive.running hthread (if_pos hfree)
    (settles_draw ⟨hlive.running, hlive.connected⟩ hquiet (threads_set_self ..))

theorem settles_note (hfree : s.session.shared.mutex_ = none)
    (hthread : s.session.threads (.worker .receive)
      = some ⟨none, .noteTestRequest id :: .lock :: .draw .testReply :: rest⟩) : Settles cfg s :=
  settles_of_stmt hlive.running hthread rfl
    (settles_lock ⟨hlive.running, hlive.connected⟩ hquiet hfree (threads_set_self ..))

theorem settles_unlock (hthread : s.session.threads (.worker .receive)
      = some ⟨none, .unlock :: .noteTestRequest id :: .lock :: .draw .testReply :: rest⟩) :
    Settles cfg s :=
  settles_of_stmt hlive.running hthread rfl
    (settles_note ⟨hlive.running, hlive.connected⟩ hquiet rfl (threads_set_self ..))

theorem settles_raise (hthread : s.session.threads (.worker .receive)
      = some ⟨none, .raiseTarget seq_num :: .unlock :: .noteTestRequest id :: .lock
        :: .draw .testReply :: rest⟩) : Settles cfg s :=
  settles_of_stmt hlive.running hthread rfl
    (settles_unlock ⟨hlive.running, hlive.connected⟩ hquiet (threads_set_self ..))

/-- **A test request that is handled** is answered, once `mutex_` is free. -/
theorem settles_handling {k : ℕ} (hk : k < 6) (hfree : s.session.shared.mutex_ = none)
    (hthread : s.session.threads (.worker .receive)
      = some ⟨none, (replySteps seq_num id).drop k ++ rest⟩) : Settles cfg s := by
  -- the receive thread is at one of the six statements
  interval_cases k
  · exact settles_of_stmt hlive.running hthread (if_pos hfree)
      (settles_raise ⟨hlive.running, hlive.connected⟩ hquiet (threads_set_self ..))
  · exact settles_raise hlive hquiet hthread
  · exact settles_unlock hlive hquiet hthread
  · exact settles_note hlive hquiet hfree hthread
  · exact settles_lock hlive hquiet hfree hthread
  · exact settles_draw hlive hquiet hthread

end Settling

omit [DecidableEq ι] in
/-- Whether something is owed can be seen from the statements. -/
theorem owed_eq_none_of_quiet {last_test_request_id : Bytes} {rest : List Stmt}
    (h : Owes last_test_request_id ⟨none, rest⟩ owed) (hquiet : rest.all Stmt.quiet = true) :
    owed = none := by
  generalize hthread : Thread.mk none rest = thread at h
  cases h with
  | nothing _ => rfl
  | handling seq_num k hk hnoted hrest =>
    obtain ⟨-, rfl⟩ := Thread.mk.inj hthread
    interval_cases k
    all_goals exact absurd hquiet (by simp [replySteps, Stmt.quiet])
  | sending hanswers hrest => exact absurd (Thread.mk.inj hthread).1.symm (Option.some_ne_none _)

/-- **What is owed is paid**, once `mutex_` is free. -/
theorem Accounts.settles (h : Accounts cfg s owed) (hrunning : s.session.terminated = false)
    (hfree : s.session.shared.mutex_ = none) (hconnected : s.session.shared.is_connected_ = true) :
    ∃ s', (TransitionSystem.ofFunction s (Observed.next cfg)).ReachableBy
      (fun s e => s.Clear e ∧ e.receives) s' ∧ s'.received = s.received ∧
      s'.session.shared.answers cfg = s.received := by
  have hreceive := h.receive
  have hanswers := h.answers
  cases howed : owed with
  | none =>
    rw [howed, Option.toList_none, List.append_nil] at hanswers
    exact ⟨s, .init rfl, rfl, hanswers⟩
  | some id =>
    rw [howed] at hreceive
    have hsettles : Settles cfg s := by
      cases hthread : s.session.threads (.worker .receive) with
      | none =>
        rw [hthread] at hreceive
        exact absurd hreceive (Option.some_ne_none _)
      | some thread =>
        rw [hthread] at hreceive
        cases hreceive with
        | handling seq_num k hk hnoted hrest =>
          exact settles_handling ⟨hrunning, hconnected⟩ hrest hk hfree hthread
        | sending hanswers hrest =>
          exact settles_answer ⟨hrunning, hconnected⟩ hrest hthread hanswers
    obtain ⟨s', hreach, hreceived, rest, hthread, hquiet⟩ := hsettles
    obtain ⟨owed', h'⟩ : ∃ owed', Accounts cfg s' owed' := by
      apply hreach.invariant
      · rintro s rfl
        exact ⟨owed, h⟩
      · intro s e s' hs hok hstep
        obtain ⟨owed, hs⟩ := hs
        exact accounts_next hs hok.1 hstep
    have howes := h'.receive
    rw [hthread] at howes
    have hanswers' := h'.answers
    rw [owed_eq_none_of_quiet howes hquiet, Option.toList_none, List.append_nil, hreceived]
      at hanswers'
    exact ⟨s', hreach, hreceived, hanswers'⟩

/-! ## Runs -/

/-- **Every test request is answered once** in a run in which no message is given up and no
periodic heartbeat is composed while an identifier is noted; and the next periodic heartbeat
composed carries no identifier if and only if its step is such a one. -/
theorem answersOnce_of_clear (h : (observed ι cfg).ReachableBy Observed.Clear s) :
    AnswersOnce cfg s ∧
      ∀ t seq_num stack, s.session.threads t = some ⟨some (.numbered .heartbeat seq_num), stack⟩ →
        ∀ time s', s.next cfg (.step ⟨t, .time time⟩) = some s' →
          ∃ o, o.out = .heartbeat ∧ s'.session.threads t = some ⟨some (.composed o), stack⟩ ∧
            (o.testReqID cfg = none ↔ s.Clear (.step ⟨t, .time time⟩)) := by
  obtain ⟨owed, haccounts⟩ : ∃ owed, Accounts cfg s owed := by
    apply h.invariant
    · rintro s rfl
      exact ⟨none, accounts_start⟩
    · intro s e s' hs hok hstep
      obtain ⟨owed, hs⟩ := hs
      exact accounts_next hs hok hstep
  constructor
  · refine ⟨⟨owed, haccounts.answers, ?_⟩, haccounts.periodic, haccounts.settles⟩
    intro hwaiting
    have howes := haccounts.receive
    unfold Session.waiting at hwaiting
    split at hwaiting
    · rename_i rest hthread
      rw [hthread] at howes
      exact (owes_of_head howes (by rintro _ ⟨⟩; rfl)).1
    · exact absurd hwaiting Bool.false_ne_true
  · intro t seq_num stack hthread time s' hstep
    obtain ⟨session, hsession, rfl⟩ := Option.map_eq_some_iff.mp hstep
    rcases next_cases hsession with ⟨sending, stack', s₁, sending', hthread', hnext, rfl⟩ |
      ⟨w, rest, hthread', rfl⟩ | ⟨w, rest, hthread', hjoin⟩ |
      ⟨stmt, rest, s₁, thread, hthread', hnext, rfl⟩
    · obtain ⟨hsending, rfl⟩ := Thread.mk.inj (Option.some.inj (hthread.symm.trans hthread'))
      obtain rfl := Option.some.inj hsending
      obtain ⟨rfl, rfl⟩ := Prod.mk.inj (Option.some.inj hnext)
      refine ⟨_, rfl, Function.update_self .., ?_⟩
      rw [testReqID_heartbeat rfl]
      constructor
      · intro hnoted sending hsending
        rw [hthread] at hsending
        obtain rfl := Option.some.inj hsending
        exact ⟨trivial, hnoted⟩
      · intro hclear
        exact (hclear (.numbered .heartbeat seq_num) (by rw [hthread]; rfl)).2
    · exact absurd (Thread.mk.inj (Option.some.inj (hthread.symm.trans hthread'))).1
        (Option.some_ne_none _)
    · exact absurd (Thread.mk.inj (Option.some.inj (hthread.symm.trans hthread'))).1
        (Option.some_ne_none _)
    · exact absurd (Thread.mk.inj (Option.some.inj (hthread.symm.trans hthread'))).1
        (Option.some_ne_none _)

/-! ## A test request and a tick -/

instance (s : Shared ι) (choice : Choice) : DecidablePred (Sending.Succeeds s choice)
  | .composed _ => inferInstanceAs (Decidable (_ = _))
  | .checked _ =>
      match choice with
      | .sent _ => inferInstanceAs (Decidable (_ = _))
      | .none | .time _ | .opened _ | .received _ | .call _ | .finish => .isTrue trivial
  | .drawn _ _ | .numbered _ _ => .isTrue trivial

instance (s : Shared ι) : DecidablePred (Sending.Clear s)
  | .numbered out _ =>
      match out with
      | .heartbeat => inferInstanceAs (Decidable (_ = _))
      | .logon | .logout _ | .limitOrder .. | .cancelOrder .. | .testReply => .isTrue trivial
  | .drawn _ _ | .composed _ | .checked _ => .isTrue trivial

instance (s : Observed ι) : DecidablePred s.Clear
  | .step _ => inferInstanceAs (Decidable (∀ _ ∈ _, _ ∧ _))
  | .deliver _ => .isTrue trivial

/-- The test request `T1` of the server. -/
def serverTestRequest : PeerMessage client where
  msg := ⟨(((((Fields.empty.set FIXField.senderCompID (ascii "SERVER")).set
    FIXField.targetCompID (ascii "CLIENT")).set FIXField.msgSeqNum (ascii "2")).set
    FIXField.sendingTime (ascii "20240101-09:30:01.000")).set FIXField.msgType (ascii "1")).set
    FIXField.testReqID (ascii "T1"), []⟩
  sender := by decide +kernel
  target := by decide +kernel
  header := by decide +kernel
  values := by decide +kernel

/-- Steps of a worker. -/
def workerSteps (w : Worker) (choices : List Choice) : List (Event Unit) :=
  choices.map fun choice => .step ⟨.worker w, choice⟩

/-- What a thread does with a message whose number is drawn. -/
def sendingSteps : List Choice := [.none, .time (ascii "20240101-09:30:01.500"), .none, .sent true]

/-- The client is logged on, and has answered the test request of the server. -/
def answering : List (Event Unit) :=
  connecting.map .step ++ workerSteps .receive [.none, .none] ++ [.deliver serverLogon.msg]
    ++ workerSteps .receive (List.replicate 12 .none) ++ [.deliver serverTestRequest.msg]
    ++ workerSteps .receive (List.replicate 6 .none ++ sendingSteps)

/-- The heartbeat thread wakes up once. -/
def tick : List (Event Unit) :=
  workerSteps .heartbeat (List.replicate 7 .none ++ sendingSteps)

/-- A test request that is answered. -/
theorem answersOnce_answering :
    ∃ s, (observed Unit clientConfig).ReachableBy Observed.Clear s ∧
      s.session.shared.is_logged_on_ = true ∧ s.received = [ascii "T1"] ∧
      s.session.shared.answers clientConfig = [ascii "T1"] ∧ AnswersOnce clientConfig s := by
  have hrun : ∃ s ∈ runFrom (Observed.next clientConfig) Observed.Clear ⟨start, []⟩ answering,
      s.session.shared.is_logged_on_ = true ∧ s.received = [ascii "T1"] ∧
        s.session.shared.answers clientConfig = [ascii "T1"] := by decide +kernel
  obtain ⟨s, hreach, hlogged, hreceived, hanswers⟩ := exists_of_runFrom hrun
  exact ⟨s, hreach, hlogged, hreceived, hanswers, (answersOnce_of_clear hreach).1⟩

/-- **Two answers to one test request**: the tick after it sends a heartbeat with its
identifier. -/
theorem not_answersOnce_tick :
    ∃ s, (observed Unit clientConfig).Reachable s ∧ s.session.shared.failed.length = 0 ∧
      s.received = [ascii "T1"] ∧
      s.session.shared.answers clientConfig = [ascii "T1", ascii "T1"] ∧
      ¬ AnswersOnce clientConfig s := by
  have hrun : ∃ s ∈ runFrom (Observed.next clientConfig) (fun _ _ => True) ⟨start, []⟩
      (answering ++ tick), s.session.shared.failed.length = 0 ∧ s.received = [ascii "T1"] ∧
        s.session.shared.answers clientConfig = [ascii "T1", ascii "T1"] := by decide +kernel
  obtain ⟨s, hreach, hfailed, hreceived, hanswers⟩ := exists_of_runFrom hrun
  refine ⟨s, hreach, hfailed, hreceived, hanswers, ?_⟩
  rintro ⟨⟨pending, honce, -⟩, -, -⟩
  have hlength := congrArg List.length honce
  rw [hanswers, hreceived, List.length_append] at hlength
  simp only [List.length_cons, List.length_nil] at hlength
  omega

end FIX42Protocol
