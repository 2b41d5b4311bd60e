/-
# Test requests and heartbeats

From the point where a received message is handed to `processReceivedMessage`: the receive
thread notes the identifier of a test request, answers it, and leaves it noted; the next
periodic heartbeat carries it once more.
-/
import FastServer.FixSequence

namespace FIX42Protocol

open Framing TransitionSystem

/-! ## Received messages -/

/-- A session and the identifiers of the test requests handed over so far. -/
structure Observed (ι : Type) where
  session : Session ι
  received : List Bytes

/-- A step of a thread, or a received message. -/
inductive Event (ι : Type)
  | step (a : Action ι)
  | deliver (msg : Message)

/-- The identifier of a message that is a test request. -/
def testRequestID (msg : Message) : Option Bytes :=
  match (msg.fields.get? FIXField.msgType).bind stringToMessageType with
  | some .testRequest => msg.fields.get? FIXField.testReqID
  | _ => none

/-- The receive thread, waiting at `recv`, is handed a message. -/
def Session.deliver {ι : Type} [DecidableEq ι] (cfg : Config) (s : Session ι) (msg : Message) :
    Option (Session ι) :=
  if s.terminated then none
  else
    match s.threads (.worker .receive) with
    | some ⟨none, .recv :: rest⟩ =>
        some (s.set (.worker .receive)
          (some ⟨none, processReceivedMessage cfg msg ++ .whileConnected :: rest⟩))
    | _ => none

def Observed.next {ι : Type} [DecidableEq ι] (cfg : Config) (s : Observed ι) :
    Event ι → Option (Observed ι)
  | .step a => (FIX42Protocol.next cfg s.session a).map fun session => { s with session }
  | .deliver msg =>
      (s.session.deliver cfg msg).map fun session =>
        ⟨session, s.received ++ (testRequestID msg).toList⟩

/-- The runs of a session that receives whole messages. -/
def observed (ι : Type) [DecidableEq ι] (cfg : Config) :
    TransitionSystem (Observed ι) (Event ι) :=
  TransitionSystem.ofFunction ⟨start, []⟩ (Observed.next cfg)

/-! ## Answers -/

variable {ι : Type} {cfg : Config}

/-- The field `TestReqID` of a heartbeat. -/
def Outbound.testReqID (cfg : Config) (o : Outbound) : Option Bytes :=
  if o.out.msgType = .heartbeat then (o.message cfg).fields.get? FIXField.testReqID else none

/-- The identifiers that the heartbeats on the wire carry. -/
def Shared.answers (cfg : Config) (s : Shared ι) : List Bytes :=
  s.wire.filterMap (Outbound.testReqID cfg)

/-- Whether the receive thread waits for the next message. -/
def Session.waiting (s : Session ι) : Bool :=
  match s.threads (.worker .receive) with
  | some ⟨none, .recv :: _⟩ => true
  | _ => false

/-- The message on its way is not given up: the session is connected, and `send` takes all. -/
def Sending.Succeeds (s : Shared ι) (choice : Choice) : Sending → Prop
  | .composed _ => s.is_connected_ = true
  | .checked _ =>
      match choice with
      | .sent complete => complete = true
      | _ => True
  | _ => True

/-- A periodic heartbeat is composed while no identifier is noted. -/
def Sending.Clear (s : Shared ι) : Sending → Prop
  | .numbered .heartbeat _ => s.last_test_request_id_ = []
  | _ => True

/-- The step gives no message up, and composes no periodic heartbeat while the identifier of
a test request is noted. -/
def Observed.Clear (s : Observed ι) : Event ι → Prop
  | .step a => ∀ sending ∈ (s.session.threads a.thread).bind Thread.sending,
      sending.Succeeds s.session.shared a.choice ∧ sending.Clear s.session.shared
  | .deliver _ => True

/-- The receive thread takes a step. -/
def Event.receives : Event ι → Prop
  | .step a => a.thread = .worker .receive
  | .deliver _ => False

/-- **One answer for each test request**, in their order, and no other heartbeat carries an
identifier.  One answer may be missing: the receive thread is about to give it, and by its own
steps gets there once `mutex_` is free. -/
structure AnswersOnce [DecidableEq ι] (cfg : Config) (s : Observed ι) : Prop where
  once : ∃ pending : Option Bytes,
    s.session.shared.answers cfg ++ pending.toList = s.received ∧
      (s.session.waiting = true → pending = none)
  periodic : ∀ o ∈ s.session.shared.wire, o.out = .heartbeat → o.testReqID cfg = none
  answered : s.session.terminated = false → s.session.shared.mutex_ = none →
    s.session.shared.is_connected_ = true → ∃ s',
      (TransitionSystem.ofFunction s (Observed.next cfg)).ReachableBy
        (fun s e => s.Clear e ∧ e.receives) s' ∧ s'.received = s.received ∧
        s'.session.shared.answers cfg = s.received

/-! ## Composed messages -/

/-- What answers a test request. -/
theorem testReqID_testReply {o : Outbound} (h : o.out = .testReply) :
    o.testReqID cfg = some o.last_test_request_id := by
  rw [Outbound.testReqID, h, if_pos (show Outgoing.testReply.msgType = .heartbeat from rfl),
    Outbound.message, h]
  exact Fields.get?_set_self _ _ _

/-- No base message carries an identifier. -/
theorem get?_testReqID_createBaseMessage (msg_type : MessageType) (seq_num : ℕ)
    (sending_time : Bytes) :
    (createBaseMessage cfg msg_type seq_num sending_time).fields.get? FIXField.testReqID
      = none := by
  rw [createBaseMessage, Fields.get?_set_of_ne _ (by decide), Fields.get?_set_of_ne _ (by decide),
    Fields.get?_set_of_ne _ (by decide), Fields.get?_set_of_ne _ (by decide),
    Fields.get?_set_of_ne _ (by decide), Fields.get?_set_of_ne _ (by decide)]
  rfl

/-- **A periodic heartbeat** carries the identifier that is noted, if one is. -/
theorem testReqID_heartbeat {o : Outbound} (h : o.out = .heartbeat) :
    o.testReqID cfg = none ↔ o.last_test_request_id = [] := by
  rw [Outbound.testReqID, h, if_pos (show Outgoing.heartbeat.msgType = .heartbeat from rfl),
    Outbound.message, h, Outgoing.fields]
  by_cases hid : o.last_test_request_id = []
  · rw [if_pos hid]
    exact iff_of_true (get?_testReqID_createBaseMessage _ _ _) hid
  · rw [if_neg hid]
    refine iff_of_false ?_ hid
    intro hnone
    rw [List.foldl_cons, List.foldl_nil, Fields.get?_set_self] at hnone
    exact Option.some_ne_none _ hnone

/-- Only those two messages carry identifiers. -/
theorem testReqID_eq_none {o : Outbound} (hreply : o.out ≠ .testReply)
    (hheartbeat : o.out = .heartbeat → o.last_test_request_id = []) : o.testReqID cfg = none := by
  by_cases h : o.out = .heartbeat
  · exact (testReqID_heartbeat h).mpr (hheartbeat h)
  · have htype : o.out.msgType ≠ .heartbeat := by
      cases hout : o.out with
      | heartbeat => exact absurd hout h
      | testReply => exact absurd hout hreply
      | _ => exact MessageType.noConfusion
    rw [Outbound.testReqID, if_neg htype]

/-! ## Threads that answer nothing -/

/-- The statement neither notes nor answers a test request. -/
def Stmt.quiet : Stmt → Bool
  | .noteTestRequest _ => false
  | .draw .testReply => false
  | _ => true

/-- The message is no answer, and no heartbeat with an identifier. -/
def Sending.Quiet : Sending → Prop
  | .drawn out _ => out ≠ .testReply
  | .numbered out _ => out ≠ .testReply
  | .composed o => o.out ≠ .testReply ∧ (o.out = .heartbeat → o.last_test_request_id = [])
  | .checked o => o.out ≠ .testReply ∧ (o.out = .heartbeat → o.last_test_request_id = [])

/-- The thread answers no test request. -/
structure Thread.Quiet (thread : Thread) : Prop where
  sending : ∀ x ∈ thread.sending, x.Quiet
  stack : thread.stack.all Stmt.quiet = true

/-- A `return` leaves no statement behind that was not there. -/
theorem quiet_afterReturn {stmts : List Stmt} (h : stmts.all Stmt.quiet = true) :
    (afterReturn stmts).all Stmt.quiet = true := by
  induction stmts with
  | nil => rfl
  | cons stmt stmts ih =>
    obtain ⟨-, hstmts⟩ := (Bool.and_eq_true _ _).mp h
    by_cases hret : stmt = .ret
    · rw [hret]
      exact hstmts
    · rw [show afterReturn (stmt :: stmts) = afterReturn stmts by
        cases stmt <;> first | rfl | exact absurd rfl hret]
      exact ih hstmts

theorem quiet_body (c : Call) : c.body.all Stmt.quiet = true := by
  cases c <;> rfl

theorem quiet_heartbeatBody : heartbeatBody.all Stmt.quiet = true := rfl

/-- A thread with nothing to send. -/
theorem quiet_of_stack {stack : List Stmt} (h : stack.all Stmt.quiet = true) :
    Thread.Quiet ⟨none, stack⟩ :=
  ⟨fun _ hx => absurd hx.symm (Option.some_ne_none _), h⟩

/-- Statements one after the other. -/
theorem quiet_append {stmts rest : List Stmt} (h : stmts.all Stmt.quiet = true)
    (hrest : rest.all Stmt.quiet = true) : (stmts ++ rest).all Stmt.quiet = true := by
  rw [List.all_append, h, hrest]
  rfl

/-- The thread goes on as `thread`; the noted identifier is kept, and what the step writes to
the wire is no answer and no heartbeat with an identifier. -/
structure StaysQuiet (s s' : Shared ι) (thread : Thread) : Prop where
  quiet : thread.Quiet
  noted : s'.last_test_request_id_ = s.last_test_request_id_
  wire : ∃ written : List Outbound, s'.wire = s.wire ++ written ∧
    ∀ o ∈ written, o.out ≠ .testReply ∧ (o.out = .heartbeat → o.last_test_request_id = [])

/-- A step that writes nothing. -/
theorem staysQuiet_of_stack {s s' : Shared ι} {stack : List Stmt}
    (hstack : stack.all Stmt.quiet = true)
    (hnoted : s'.last_test_request_id_ = s.last_test_request_id_) (hwire : s'.wire = s.wire) :
    StaysQuiet s s' ⟨none, stack⟩ where
  quiet := quiet_of_stack hstack
  noted := hnoted
  wire := ⟨[], by rw [hwire, List.append_nil], fun _ ho => absurd ho List.not_mem_nil⟩

/-- **A statement** of a thread that answers nothing. -/
theorem staysQuiet_stmt {t : ThreadId ι} {s s' : Shared ι} {choice : Choice} {stmt : Stmt}
    {rest : List Stmt} {thread : Thread} (h : stmt.next cfg t s choice rest = some (s', thread))
    (hquiet : (stmt :: rest).all Stmt.quiet = true) : StaysQuiet s s' thread := by
  obtain ⟨hstmt, hrest⟩ := (Bool.and_eq_true _ _).mp hquiet
  cases stmt with
  | returnUnless flag =>
    obtain ⟨rfl, rfl⟩ := Prod.mk.inj (Option.some.inj h)
    refine staysQuiet_of_stack ?_ rfl rfl
    split_ifs
    · exact hrest
    · exact quiet_afterReturn hrest
  | returnIf flag =>
    obtain ⟨rfl, rfl⟩ := Prod.mk.inj (Option.some.inj h)
    refine staysQuiet_of_stack ?_ rfl rfl
    split_ifs
    · exact quiet_afterReturn hrest
    · exact hrest
  | refuseLogon handler =>
    obtain ⟨rfl, rfl⟩ := Prod.mk.inj (Option.some.inj h)
    refine staysQuiet_of_stack ?_ rfl rfl
    split_ifs
    · exact hrest
    · exact quiet_afterReturn hrest
    · exact quiet_afterReturn hrest
  | assign flag value =>
    obtain ⟨rfl, rfl⟩ := Prod.mk.inj (Option.some.inj h)
    cases flag <;> exact staysQuiet_of_stack hrest rfl rfl
  | lock =>
    rw [Stmt.next] at h
    split_ifs at h
    obtain ⟨rfl, rfl⟩ := Prod.mk.inj (Option.some.inj h)
    exact staysQuiet_of_stack hrest rfl rfl
  | draw out =>
    obtain ⟨rfl, rfl⟩ := Prod.mk.inj (Option.some.inj h)
    refine ⟨⟨?_, hrest⟩, rfl, [], (List.append_nil _).symm, fun _ ho => absurd ho List.not_mem_nil⟩
    rintro x ⟨⟩
    rintro rfl
    exact absurd hstmt (by decide)
  | noteTestRequest id => exact absurd hstmt (by simp [Stmt.quiet])
  | callHandler handler =>
    obtain ⟨rfl, rfl⟩ := Prod.mk.inj (Option.some.inj h)
    refine staysQuiet_of_stack ?_ rfl rfl
    split_ifs
    · exact hrest
    · exact hrest
  | user =>
    cases choice with
    | call c =>
      -- no public method answers a test request
      obtain ⟨rfl, rfl⟩ := Prod.mk.inj (Option.some.inj h)
      exact staysQuiet_of_stack (quiet_append (quiet_body c) hrest) rfl rfl
    | finish =>
      obtain ⟨rfl, rfl⟩ := Prod.mk.inj (Option.some.inj h)
      exact staysQuiet_of_stack hrest rfl rfl
    | _ => exact absurd h.symm (Option.some_ne_none _)
  | openSocket =>
    cases choice with
    | opened success =>
      obtain ⟨rfl, rfl⟩ := Prod.mk.inj (Option.some.inj h)
      refine staysQuiet_of_stack ?_ rfl rfl
      split_ifs
      · exact hrest
      · exact quiet_afterReturn hrest
    | _ => exact absurd h.symm (Option.some_ne_none _)
  | start w => exact absurd h.symm (Option.some_ne_none _)
  | join w => exact absurd h.symm (Option.some_ne_none _)
  | whileConnected =>
    obtain ⟨rfl, rfl⟩ := Prod.mk.inj (Option.some.inj h)
    refine staysQuiet_of_stack ?_ rfl rfl
    split_ifs
    · exact hrest
    · exact hrest
  | recv =>
    cases choice with
    | received result =>
      cases result with
      | _ =>
        obtain ⟨rfl, rfl⟩ := Prod.mk.inj (Option.some.inj h)
        exact staysQuiet_of_stack hrest rfl rfl
    | _ => exact absurd h.symm (Option.some_ne_none _)
  | cut =>
    rw [Stmt.next] at h
    split at h
    · -- a piece has no separator in it, so nothing is put in front of `rest`
      rename_i text partial_msg hcut
      have hsoh : soh ∉ text := (of_cutAt hcut).1
      rw [accepted_piece hsoh] at h
      obtain ⟨rfl, rfl⟩ := Prod.mk.inj (Option.some.inj h)
      exact staysQuiet_of_stack hrest rfl rfl
    · obtain ⟨rfl, rfl⟩ := Prod.mk.inj (Option.some.inj h)
      exact staysQuiet_of_stack hrest rfl rfl
  | whileRunning =>
    obtain ⟨rfl, rfl⟩ := Prod.mk.inj (Option.some.inj h)
    refine staysQuiet_of_stack ?_ rfl rfl
    split_ifs
    · exact quiet_append quiet_heartbeatBody hrest
    · exact hrest
  | _ =>
    obtain ⟨rfl, rfl⟩ := Prod.mk.inj (Option.some.inj h)
    exact staysQuiet_of_stack hrest rfl rfl

/-- **A message on its way** that is no answer: a heartbeat is composed with nothing noted. -/
theorem staysQuiet_sending {s s' : Shared ι} {choice : Choice} {sending : Sending}
    {sending' : Option Sending} {stack : List Stmt}
    (h : sending.next s choice = some (s', sending')) (hclear : sending.Clear s)
    (hquiet : Thread.Quiet ⟨some sending, stack⟩) : StaysQuiet s s' ⟨sending', stack⟩ := by
  obtain ⟨hsending, hstack⟩ := hquiet
  have hsending : sending.Quiet := hsending sending rfl
  have hnothing : ∃ written : List Outbound, s.wire = s.wire ++ written ∧
      ∀ o ∈ written, o.out ≠ .testReply ∧ (o.out = .heartbeat → o.last_test_request_id = []) :=
    ⟨[], (List.append_nil _).symm, fun _ ho => absurd ho List.not_mem_nil⟩
  cases sending with
  | drawn out seq_num =>
    obtain ⟨rfl, rfl⟩ := Prod.mk.inj (Option.some.inj h)
    refine ⟨⟨?_, hstack⟩, rfl, hnothing⟩
    rintro x ⟨⟩
    exact hsending
  | numbered out seq_num =>
    cases choice with
    | time sending_time =>
      obtain ⟨rfl, rfl⟩ := Prod.mk.inj (Option.some.inj h)
      refine ⟨⟨?_, hstack⟩, ?_, hnothing⟩
      · rintro x ⟨⟩
        refine ⟨hsending, ?_⟩
        rintro rfl
        exact hclear
      · cases out with
        | heartbeat => exact hclear.symm
        | _ => rfl
    | _ => exact absurd h.symm (Option.some_ne_none _)
  | composed o =>
    rw [Sending.next] at h
    split_ifs at h
    · obtain ⟨rfl, rfl⟩ := Prod.mk.inj (Option.some.inj h)
      refine ⟨⟨?_, hstack⟩, rfl, hnothing⟩
      rintro x ⟨⟩
      exact hsending
    · obtain ⟨rfl, rfl⟩ := Prod.mk.inj (Option.some.inj h)
      exact ⟨quiet_of_stack hstack, rfl, hnothing⟩
  | checked o =>
    cases choice with
    | sent complete =>
      cases complete with
      | true =>
        obtain ⟨rfl, rfl⟩ := Prod.mk.inj (Option.some.inj h)
        refine ⟨quiet_of_stack hstack, rfl, [o], rfl, ?_⟩
        intro o' ho'
        rw [List.mem_singleton.mp ho']
        exact hsending
      | false =>
        obtain ⟨rfl, rfl⟩ := Prod.mk.inj (Option.some.inj h)
        exact ⟨quiet_of_stack hstack, rfl, hnothing⟩
    | _ => exact absurd h.symm (Option.some_ne_none _)

/-! ## The receive thread -/

/-- What the receive thread runs for a test request: its number raises `target_msg_seq_num_`,
and it is noted and answered. -/
def replySteps (seq_num : ℕ) (id : Bytes) : List Stmt :=
  [.lock, .raiseTarget seq_num, .unlock, .noteTestRequest id, .lock, .draw .testReply]

/-- The message answers `id`, which is noted until the message is composed. -/
def Sending.Answers (last_test_request_id : Bytes) (id : Bytes) : Sending → Prop
  | .drawn out _ => out = .testReply ∧ last_test_request_id = id
  | .numbered out _ => out = .testReply ∧ last_test_request_id = id
  | .composed o => o.out = .testReply ∧ o.last_test_request_id = id
  | .checked o => o.out = .testReply ∧ o.last_test_request_id = id

/-- What the receive thread still has to answer, while `last_test_request_id` is noted. -/
inductive Owes (last_test_request_id : Bytes) : Thread → Option Bytes → Prop
  | nothing {thread : Thread} : thread.Quiet → Owes last_test_request_id thread none
  | handling {id : Bytes} {rest : List Stmt} (seq_num k : ℕ) :
      k < 6 → (4 ≤ k → last_test_request_id = id) → rest.all Stmt.quiet = true →
      Owes last_test_request_id ⟨none, (replySteps seq_num id).drop k ++ rest⟩ (some id)
  | sending {id : Bytes} {rest : List Stmt} {x : Sending} :
      x.Answers last_test_request_id id → rest.all Stmt.quiet = true →
      Owes last_test_request_id ⟨some x, rest⟩ (some id)

/-- The thread goes on as `thread`; what it owed it owes still, or it is on the wire. -/
structure Repays (cfg : Config) (s s' : Shared ι) (thread : Thread) (owed owed' : Option Bytes) :
    Prop where
  owes : Owes s'.last_test_request_id_ thread owed'
  wire : ∃ written : List Outbound, s'.wire = s.wire ++ written ∧
    written.filterMap (Outbound.testReqID cfg) ++ owed'.toList = owed.toList ∧
    ∀ o ∈ written, o.out = .heartbeat → o.testReqID cfg = none

/-- A step that writes nothing. -/
theorem repays_of_wire {s s' : Shared ι} {thread : Thread} {owed : Option Bytes}
    (howes : Owes s'.last_test_request_id_ thread owed) (hwire : s'.wire = s.wire) :
    Repays cfg s s' thread owed owed where
  owes := howes
  wire := ⟨[], by rw [hwire, List.append_nil], rfl, fun _ ho => absurd ho List.not_mem_nil⟩

/-- A step of a thread that owes nothing. -/
theorem StaysQuiet.repays {s s' : Shared ι} {thread : Thread} (h : StaysQuiet s s' thread) :
    Repays cfg s s' thread none none := by
  obtain ⟨hquiet, -, written, hwire, hwritten⟩ := h
  refine ⟨.nothing hquiet, written, hwire, ?_, ?_⟩
  · have hnone : written.filterMap (Outbound.testReqID cfg) = [] := by
      rw [List.filterMap_eq_nil_iff]
      intro o ho
      exact testReqID_eq_none (hwritten o ho).1 (hwritten o ho).2
    rw [hnone]
    rfl
  · intro o ho hheartbeat
    exact (testReqID_heartbeat hheartbeat).mpr ((hwritten o ho).2 hheartbeat)

/-- **A statement** of the receive thread. -/
theorem repays_stmt {t : ThreadId ι} {s s' : Shared ι} {choice : Choice} {stmt : Stmt}
    {rest : List Stmt} {thread : Thread} {owed : Option Bytes}
    (h : stmt.next cfg t s choice rest = some (s', thread))
    (howes : Owes s.last_test_request_id_ ⟨none, stmt :: rest⟩ owed) :
    Repays cfg s s' thread owed owed := by
  generalize hthread : Thread.mk none (stmt :: rest) = thread₀ at howes
  cases howes with
  | nothing hquiet =>
    subst hthread
    exact (staysQuiet_stmt h hquiet.stack).repays
  | @handling id rest' seq_num k hk hnoted hrest =>
    obtain ⟨-, hstack⟩ := Thread.mk.inj hthread
    -- the statement is the next one of the six
    interval_cases k
    all_goals obtain ⟨rfl, rfl⟩ := List.cons.inj hstack
    · rw [Stmt.next] at h
      split_ifs at h
      obtain ⟨rfl, rfl⟩ := Prod.mk.inj (Option.some.inj h)
      exact repays_of_wire (.handling seq_num 1 (by decide) (by omega) hrest) rfl
    · obtain ⟨rfl, rfl⟩ := Prod.mk.inj (Option.some.inj h)
      exact repays_of_wire (.handling seq_num 2 (by decide) (by omega) hrest) rfl
    · obtain ⟨rfl, rfl⟩ := Prod.mk.inj (Option.some.inj h)
      exact repays_of_wire (.handling seq_num 3 (by decide) (by omega) hrest) rfl
    · obtain ⟨rfl, rfl⟩ := Prod.mk.inj (Option.some.inj h)
      exact repays_of_wire (.handling seq_num 4 (by decide) (fun _ => rfl) hrest) rfl
    · rw [Stmt.next] at h
      split_ifs at h
      obtain ⟨rfl, rfl⟩ := Prod.mk.inj (Option.some.inj h)
      exact repays_of_wire (.handling seq_num 5 (by decide) (fun _ => hnoted (by decide)) hrest) rfl
    · obtain ⟨rfl, rfl⟩ := Prod.mk.inj (Option.some.inj h)
      exact repays_of_wire (.sending ⟨rfl, hnoted (by decide)⟩ hrest) rfl
  | sending hanswers hrest =>
    exact absurd (Thread.mk.inj hthread).1.symm (Option.some_ne_none _)

/-- **A message of the receive thread** on its way. -/
theorem repays_sending {s s' : Shared ι} {choice : Choice} {sending : Sending}
    {sending' : Option Sending} {stack : List Stmt} {owed : Option Bytes}
    (h : sending.next s choice = some (s', sending')) (hsucceeds : sending.Succeeds s choice)
    (hclear : sending.Clear s)
    (howes : Owes s.last_test_request_id_ ⟨some sending, stack⟩ owed) :
    ∃ owed', Repays cfg s s' ⟨sending', stack⟩ owed owed' := by
  generalize hthread : Thread.mk (some sending) stack = thread₀ at howes
  cases howes with
  | nothing hquiet =>
    subst hthread
    exact ⟨none, (staysQuiet_sending h hclear hquiet).repays⟩
  | handling seq_num k hk hnoted hrest =>
    exact absurd (Thread.mk.inj hthread).1 (Option.some_ne_none _)
  | @sending id rest x hanswers hrest =>
    obtain ⟨hx, rfl⟩ := Thread.mk.inj hthread
    obtain rfl := Option.some.inj hx
    cases sending with
    | drawn out seq_num =>
      obtain ⟨rfl, rfl⟩ := Prod.mk.inj (Option.some.inj h)
      exact ⟨some id, repays_of_wire (.sending hanswers hrest) rfl⟩
    | numbered out seq_num =>
      obtain ⟨rfl, hid⟩ := hanswers
      cases choice with
      | time sending_time =>
        obtain ⟨rfl, rfl⟩ := Prod.mk.inj (Option.some.inj h)
        exact ⟨some id, repays_of_wire (.sending ⟨rfl, hid⟩ hrest) rfl⟩
      | _ => exact absurd h.symm (Option.some_ne_none _)
    | composed o =>
      have hconnected : s.is_connected_ = true := hsucceeds
      rw [Sending.next, if_pos hconnected] at h
      obtain ⟨rfl, rfl⟩ := Prod.mk.inj (Option.some.inj h)
      exact ⟨some id, repays_of_wire (.sending hanswers hrest) rfl⟩
    | checked o =>
      obtain ⟨hout, hid⟩ := hanswers
      cases choice with
      | sent complete =>
        obtain rfl : complete = true := hsucceeds
        obtain ⟨rfl, rfl⟩ := Prod.mk.inj (Option.some.inj h)
        refine ⟨none, .nothing (quiet_of_stack hrest), [o], rfl, ?_, ?_⟩
        · rw [List.filterMap_cons, testReqID_testReply hout, hid]
          rfl
        · intro o' ho' hheartbeat
          rw [List.mem_singleton.mp ho', hout] at hheartbeat
          exact Outgoing.noConfusion hheartbeat
      | _ => exact absurd h.symm (Option.some_ne_none _)

end FIX42Protocol
