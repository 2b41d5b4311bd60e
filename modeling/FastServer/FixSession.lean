/-
# A FIX session and its threads

The application threads, the receive thread and the heartbeat thread of one
`FIX42Protocol` object.  A thread is a stack of the statements it has still to run, so
that the steps of all threads interleave statement by statement; code of the
application (the handlers, and what runs on its own threads) may call any public method.
-/
import FastServer.FixReceive
import FastServer.TransitionSystem

namespace FIX42Protocol

open Framing

/-! ## Outgoing messages -/

inductive MessageType
  | logon
  | logout
  | heartbeat
  | testRequest
  | resendRequest
  | reject
  | sequenceReset
  | newOrderSingle
  | orderCancelRequest
  | executionReport
  | orderCancelReject
deriving DecidableEq

def messageTypeToString : MessageType → Bytes
  | .logon => ascii "A"
  | .logout => ascii "5"
  | .heartbeat => ascii "0"
  | .testRequest => ascii "1"
  | .resendRequest => ascii "2"
  | .reject => ascii "3"
  | .sequenceReset => ascii "4"
  | .newOrderSingle => ascii "D"
  | .orderCancelRequest => ascii "F"
  | .executionReport => ascii "8"
  | .orderCancelReject => ascii "9"

/-- All message types, in the order in which `stringToMessageType` compares. -/
def messageTypes : List MessageType :=
  [.logon, .logout, .heartbeat, .testRequest, .resendRequest, .reject, .sequenceReset,
    .newOrderSingle, .orderCancelRequest, .executionReport, .orderCancelReject]

/-- The type of a received message; `none` stands for the value `-1`. -/
def stringToMessageType (str : Bytes) : Option MessageType :=
  messageTypes.find? fun type => messageTypeToString type = str

inductive Side
  | buy
  | sell
deriving DecidableEq

def sideToString : Side → Bytes
  | .buy => ascii "1"
  | .sell => ascii "2"

inductive OrdType
  | market
  | limit
deriving DecidableEq

def ordTypeToString : OrdType → Bytes
  | .market => ascii "1"
  | .limit => ascii "2"

inductive TimeInForce
  | day
  | immediateOrCancel
  | fillOrKill
deriving DecidableEq

def timeInForceToString : TimeInForce → Bytes
  | .day => ascii "0"
  | .immediateOrCancel => ascii "3"
  | .fillOrKill => ascii "4"

/-- The constants of a session. -/
structure Config where
  ids : CompIDs
  heartbt_int : ℤ

/-- The fields every message starts with; the number and the time are read on the way. -/
def createBaseMessage (cfg : Config) (msg_type : MessageType) (seq_num : ℕ)
    (sending_time : Bytes) : Message :=
  ⟨(((((Fields.empty.set FIXField.beginString (ascii "FIX.4.2")).set
    FIXField.senderCompID cfg.ids.sender_comp_id).set
    FIXField.targetCompID cfg.ids.target_comp_id).set
    FIXField.msgSeqNum (decimal seq_num)).set
    FIXField.sendingTime sending_time).set
    FIXField.msgType (messageTypeToString msg_type), []⟩

/-- What a session sends.  `count` is what the clock returns, and `price` the text of a
`double`. -/
inductive Outgoing
  | logon
  | logout (reason : Bytes)
  | limitOrder (count : ℤ) (symbol : Bytes) (side : Side) (price : Bytes) (quantity : ℤ)
      (time_in_force : TimeInForce)
  | cancelOrder (count : ℤ) (order_id symbol : Bytes) (side : Side) (price : Bytes)
  | heartbeat
  | testReply

def Outgoing.msgType : Outgoing → MessageType
  | .logon => .logon
  | .logout _ => .logout
  | .limitOrder .. => .newOrderSingle
  | .cancelOrder .. => .orderCancelRequest
  | .heartbeat => .heartbeat
  | .testReply => .heartbeat

/-- The fields set after `createBaseMessage`, in their order. -/
def Outgoing.fields (cfg : Config) (last_test_request_id : Bytes) :
    Outgoing → List (Tag × Bytes)
  | .logon =>
      [(FIXField.heartBtInt, decimalInt cfg.heartbt_int), (FIXField.resetSeqNumFlag, ascii "Y")]
  | .logout reason => if reason = [] then [] else [(FIXField.text, reason)]
  | .limitOrder count symbol side price quantity time_in_force =>
      [(FIXField.clOrdID, ascii "ORD" ++ decimalInt count), (FIXField.symbol, symbol),
        (FIXField.side, sideToString side), (FIXField.ordType, ordTypeToString .limit),
        (FIXField.price, price), (FIXField.orderQty, decimalInt quantity),
        (FIXField.timeInForce, timeInForceToString time_in_force)]
  | .cancelOrder count order_id symbol side price =>
      [(FIXField.origClOrdID, order_id), (FIXField.clOrdID, ascii "CAN" ++ decimalInt count),
        (FIXField.symbol, symbol), (FIXField.side, sideToString side), (FIXField.price, price)]
  | .heartbeat =>
      if last_test_request_id = [] then [] else [(FIXField.testReqID, last_test_request_id)]
  | .testReply => [(FIXField.testReqID, last_test_request_id)]

/-- A message on its way: what it is, and what was read while it was composed. -/
structure Outbound where
  out : Outgoing
  seq_num : ℕ
  sending_time : Bytes
  last_test_request_id : Bytes

/-- The message that is serialized and sent. -/
def Outbound.message (cfg : Config) (o : Outbound) : Message :=
  ⟨(o.out.fields cfg o.last_test_request_id).foldl (fun fields e => fields.set e.1 e.2)
    (createBaseMessage cfg o.out.msgType o.seq_num o.sending_time).fields, []⟩

/-- None of the fields set after `createBaseMessage` is the number of the message. -/
theorem Outgoing.msgSeqNum_notMem_fields (cfg : Config) (id : Bytes) (out : Outgoing) :
    FIXField.msgSeqNum ∉ (out.fields cfg id).map Prod.fst := by
  cases out with
  | logon =>
    show FIXField.msgSeqNum ∉ [FIXField.heartBtInt, FIXField.resetSeqNumFlag]
    decide
  | logout reason =>
    rw [Outgoing.fields]
    split_ifs
    · exact List.not_mem_nil
    · show FIXField.msgSeqNum ∉ [FIXField.text]
      decide
  | limitOrder count symbol side price quantity time_in_force =>
    show FIXField.msgSeqNum ∉ [FIXField.clOrdID, FIXField.symbol, FIXField.side, FIXField.ordType,
      FIXField.price, FIXField.orderQty, FIXField.timeInForce]
    decide
  | cancelOrder count order_id symbol side price =>
    show FIXField.msgSeqNum ∉ [FIXField.origClOrdID, FIXField.clOrdID, FIXField.symbol,
      FIXField.side, FIXField.price]
    decide
  | heartbeat =>
    rw [Outgoing.fields]
    split_ifs
    · exact List.not_mem_nil
    · show FIXField.msgSeqNum ∉ [FIXField.testReqID]
      decide
  | testReply =>
    show FIXField.msgSeqNum ∉ [FIXField.testReqID]
    decide

/-- **The number of a message** is in its field 34: no other field overwrites it. -/
theorem get?_msgSeqNum_message (cfg : Config) (o : Outbound) :
    (o.message cfg).fields.get? FIXField.msgSeqNum = some (decimal o.seq_num) := by
  have hother : ((o.out.fields cfg o.last_test_request_id).filter
      fun e => e.1 = FIXField.msgSeqNum) = [] := by
    rw [List.filter_eq_nil_iff]
    intro e he htag
    exact Outgoing.msgSeqNum_notMem_fields cfg o.last_test_request_id o.out
      (List.mem_map.mpr ⟨e, he, of_decide_eq_true htag⟩)
  rw [Outbound.message, Fields.foldl_set, SortedMap.get?_assignAll, hother]
  show (createBaseMessage cfg o.out.msgType o.seq_num o.sending_time).fields.get?
    FIXField.msgSeqNum = _
  rw [createBaseMessage, Fields.get?_set_of_ne _ (by decide), Fields.get?_set_of_ne _ (by decide),
    Fields.get?_set_self]

/-! ## Statements -/

/-- The threads that the session starts. -/
inductive Worker
  | receive
  | heartbeat
deriving DecidableEq

/-- All threads: the application has one for each index. -/
inductive ThreadId (ι : Type)
  | app (i : ι)
  | worker (w : Worker)
deriving DecidableEq

/-- The `std::atomic<bool>` members. -/
inductive Flag
  | is_connected
  | is_logged_on
  | heartbeat_running
deriving DecidableEq

/-- The handlers of the application. -/
inductive Handler
  | on_logon
  | on_logout
  | on_execution_report
  | on_cancel_reject
deriving DecidableEq

/-- The public methods.  A handler is known by whether it is empty. -/
inductive Call
  | connect
  | disconnect
  | logon (handler : Bool)
  | logout (reason : Bytes)
  | sendLimitOrder (count : ℤ) (symbol : Bytes) (side : Side) (price : Bytes) (quantity : ℤ)
      (time_in_force : TimeInForce)
  | cancelOrder (count : ℤ) (order_id symbol : Bytes) (side : Side) (price : Bytes)
  | setOnExecutionReportHandler (handler : Bool)
  | setOnCancelRejectHandler (handler : Bool)

/-- A statement.  `ret` is the end of a function, `user` is code of the application, `draw`
is the increment in `getNextSenderMsgSeqNum`, and what follows it up to the end of
`sendMessage` is a `Sending`. -/
inductive Stmt
  | ret
  | returnUnless (flag : Flag)
  | returnIf (flag : Flag)
  | refuseLogon (handler : Bool)
  | assign (flag : Flag) (value : Bool)
  | setHandler (handler : Handler) (value : Bool)
  | lock
  | unlock
  | draw (out : Outgoing)
  | raiseTarget (seq_num : ℕ)
  | noteTestRequest (id : Bytes)
  | callHandler (handler : Handler)
  | user
  | openSocket
  | start (w : Worker)
  | join (w : Worker)
  | clearPartial
  | whileConnected
  | recv
  | cut
  | whileRunning

/-- What is left after a `return`. -/
def afterReturn : List Stmt → List Stmt
  | [] => []
  | .ret :: rest => rest
  | _ :: rest => afterReturn rest

/-! ## Functions -/

/-- `createBaseMessage`, the fields set after it, and `sendMessage`. -/
def send (out : Outgoing) : List Stmt := [.lock, .draw out]

def stopHeartbeatTimer : List Stmt :=
  [.returnUnless .heartbeat_running, .assign .heartbeat_running false, .join .heartbeat, .ret]

def startHeartbeatTimer (cfg : Config) : List Stmt :=
  if cfg.heartbt_int ≤ 0 then []
  else [.returnIf .heartbeat_running, .assign .heartbeat_running true, .start .heartbeat, .ret]

def logout (reason : Bytes) : List Stmt :=
  .returnUnless .is_connected :: .returnUnless .is_logged_on :: (send (.logout reason) ++ [.ret])

/-- `if (is_logged_on_) logout("Disconnecting")`, a block of its own. -/
def logoutIfLoggedOn : List Stmt :=
  .returnUnless .is_logged_on :: (logout (ascii "Disconnecting") ++ [.ret])

def disconnect : List Stmt :=
  .returnUnless .is_connected :: (logoutIfLoggedOn ++ (stopHeartbeatTimer
    ++ [.assign .is_connected false, .join .receive, .ret]))

def sendHeartbeat : List Stmt :=
  .returnUnless .is_connected :: .returnUnless .is_logged_on :: (send .heartbeat ++ [.ret])

/-- The body of `heartbeatLoop` after its pause. -/
def heartbeatBody : List Stmt :=
  .returnUnless .is_connected :: .returnUnless .is_logged_on :: (sendHeartbeat ++ [.ret])

/-- The public methods. -/
def Call.body : Call → List Stmt
  | .connect =>
      [.returnIf .is_connected, .openSocket, .assign .is_connected true, .start .receive, .ret]
  | .disconnect => FIX42Protocol.disconnect
  | .logon handler =>
      .refuseLogon handler :: .setHandler .on_logon handler :: (send .logon ++ [.ret])
  | .logout reason => FIX42Protocol.logout reason
  | .sendLimitOrder count symbol side price quantity time_in_force =>
      .returnUnless .is_connected :: .returnUnless .is_logged_on
        :: (send (.limitOrder count symbol side price quantity time_in_force) ++ [.ret])
  | .cancelOrder count order_id symbol side price =>
      .returnUnless .is_connected :: .returnUnless .is_logged_on
        :: (send (.cancelOrder count order_id symbol side price) ++ [.ret])
  | .setOnExecutionReportHandler handler =>
      [.lock, .setHandler .on_execution_report handler, .unlock, .ret]
  | .setOnCancelRejectHandler handler =>
      [.lock, .setHandler .on_cancel_reject handler, .unlock, .ret]

/-- The number of a received message raises `target_msg_seq_num_`, if it can be read. -/
def updateTarget (msg : Message) : List Stmt :=
  match (msg.fields.get? FIXField.msgSeqNum).bind stoul with
  | some seq_num => [.lock, .raiseTarget (seq_num % 2 ^ 32), .unlock]
  | none => []

/-- The branch of `processReceivedMessage` for a type.  The arguments of the handlers are
left out. -/
def processType (cfg : Config) (msg : Message) : Option MessageType → List Stmt
  | some .logon =>
      .lock :: .assign .is_logged_on true
        :: (startHeartbeatTimer cfg ++ [.callHandler .on_logon, .unlock])
  | some .logout =>
      .lock :: .assign .is_logged_on false
        :: (stopHeartbeatTimer ++ [.callHandler .on_logout, .unlock])
  | some .testRequest =>
      match msg.fields.get? FIXField.testReqID with
      | some id => .noteTestRequest id :: send .testReply
      | none => []
  | some .executionReport =>
      if (msg.fields.get? FIXField.clOrdID).isSome ∧ (msg.fields.get? FIXField.execType).isSome
          ∧ (msg.fields.get? FIXField.execID).isSome then
        [.lock, .callHandler .on_execution_report, .unlock]
      else []
  | some .orderCancelReject =>
      if (msg.fields.get? FIXField.origClOrdID).isSome then
        [.lock, .callHandler .on_cancel_reject, .unlock]
      else []
  | _ => []

def processReceivedMessage (cfg : Config) (msg : Message) : List Stmt :=
  match msg.fields.get? FIXField.msgType with
  | some type => updateTarget msg ++ processType cfg msg (stringToMessageType type)
  | none => []

/-- What a thread of the session runs. -/
def Worker.body : Worker → List Stmt
  | .receive => [.clearPartial, .whileConnected]
  | .heartbeat => [.whileRunning]

/-! ## States -/

variable {ι : Type} [DecidableEq ι]

/-- How far a message has come: its number is drawn and `mutex_` still held; it is to be
composed; `sendMessage` is to look at `is_connected_`; `send` is to be called. -/
inductive Sending
  | drawn (out : Outgoing) (seq_num : ℕ)
  | numbered (out : Outgoing) (seq_num : ℕ)
  | composed (o : Outbound)
  | checked (o : Outbound)

/-- A thread: the message it is about to send, and the statements it runs after that. -/
structure Thread where
  sending : Option Sending
  stack : List Stmt

/-- Whether a thread has run all its statements. -/
def Thread.ended (thread : Thread) : Bool := thread.sending.isNone && thread.stack.isEmpty

/-- What the threads share.  `wire` and `failed` are history: the messages that `send`
wrote completely, and those for which `sendMessage` returned `false`. -/
structure Shared (ι : Type) where
  mutex_ : Option (ThreadId ι)
  is_connected_ : Bool
  is_logged_on_ : Bool
  heartbeat_running_ : Bool
  sender_msg_seq_num_ : ℕ
  target_msg_seq_num_ : ℕ
  last_test_request_id_ : Bytes
  handlers : Handler → Bool
  partial_msg : Bytes
  wire : List Outbound
  failed : List Outbound

/-- A session.  The entry of a worker is `none` while its `std::thread` is not joinable. -/
structure Session (ι : Type) where
  shared : Shared ι
  threads : ThreadId ι → Option Thread
  terminated : Bool

def Shared.flag (s : Shared ι) : Flag → Bool
  | .is_connected => s.is_connected_
  | .is_logged_on => s.is_logged_on_
  | .heartbeat_running => s.heartbeat_running_

def Shared.assign (s : Shared ι) (value : Bool) : Flag → Shared ι
  | .is_connected => { s with is_connected_ := value }
  | .is_logged_on => { s with is_logged_on_ := value }
  | .heartbeat_running => { s with heartbeat_running_ := value }

/-- The constructor has run, and the application threads start. -/
def start : Session ι where
  shared := ⟨none, false, false, false, 1, 0, [], fun _ => false, [], [], []⟩
  threads
    | .app _ => some ⟨none, [.user]⟩
    | .worker _ => none
  terminated := false

/-! ## Steps -/

/-- What the environment decides at a step: the time, what `send` and `recv` return,
whether a socket is connected, and what the application does. -/
inductive Choice
  | none
  | time (sending_time : Bytes)
  | sent (complete : Bool)
  | opened (success : Bool)
  | received (result : Recv)
  | call (c : Call)
  | finish

/-- The next step of a message on its way. -/
def Sending.next (s : Shared ι) (choice : Choice) :
    Sending → Option (Shared ι × Option Sending)
  | .drawn out seq_num => some ({ s with mutex_ := none }, some (.numbered out seq_num))
  | .numbered out seq_num =>
      match choice with
      | .time sending_time =>
          some ({ s with
            last_test_request_id_ :=
              match out with
              | .heartbeat => []
              | _ => s.last_test_request_id_ },
            some (.composed ⟨out, seq_num, sending_time, s.last_test_request_id_⟩))
      | _ => none
  | .composed o =>
      if s.is_connected_ then some (s, some (.checked o))
      else some ({ s with failed := s.failed ++ [o] }, none)
  | .checked o =>
      match choice with
      | .sent true => some ({ s with wire := s.wire ++ [o] }, none)
      | .sent false => some ({ s with failed := s.failed ++ [o] }, none)
      | _ => none

/-- The next statement of thread `t`, unless it starts or joins a thread; `rest` is what
stands behind it. -/
def Stmt.next (cfg : Config) (t : ThreadId ι) (s : Shared ι) (choice : Choice)
    (rest : List Stmt) : Stmt → Option (Shared ι × Thread)
  | .ret => some (s, ⟨none, rest⟩)
  | .returnUnless flag => some (s, ⟨none, if s.flag flag then rest else afterReturn rest⟩)
  | .returnIf flag => some (s, ⟨none, if s.flag flag then afterReturn rest else rest⟩)
  | .refuseLogon handler =>
      some (s, ⟨none, if s.is_connected_ then rest
        else if handler then .user :: afterReturn rest else afterReturn rest⟩)
  | .assign flag value => some (s.assign value flag, ⟨none, rest⟩)
  | .setHandler handler value =>
      some ({ s with handlers := Function.update s.handlers handler value }, ⟨none, rest⟩)
  | .lock => if s.mutex_ = none then some ({ s with mutex_ := some t }, ⟨none, rest⟩) else none
  | .unlock => some ({ s with mutex_ := none }, ⟨none, rest⟩)
  | .draw out =>
      some ({ s with sender_msg_seq_num_ := (s.sender_msg_seq_num_ + 1) % 2 ^ 32 },
        ⟨some (.drawn out s.sender_msg_seq_num_), rest⟩)
  | .raiseTarget seq_num =>
      some ({ s with target_msg_seq_num_ := max s.target_msg_seq_num_ seq_num }, ⟨none, rest⟩)
  | .noteTestRequest id => some ({ s with last_test_request_id_ := id }, ⟨none, rest⟩)
  | .callHandler handler =>
      some (s, ⟨none, if s.handlers handler then .user :: rest else rest⟩)
  | .user =>
      match choice with
      | .call c => some (s, ⟨none, c.body ++ .user :: rest⟩)
      | .finish => some (s, ⟨none, rest⟩)
      | _ => none
  | .openSocket =>
      match choice with
      | .opened success => some (s, ⟨none, if success then rest else afterReturn rest⟩)
      | _ => none
  | .clearPartial => some ({ s with partial_msg := [] }, ⟨none, rest⟩)
  | .whileConnected =>
      some (s, ⟨none, if s.is_connected_ then .recv :: rest else rest⟩)
  | .recv =>
      match choice with
      | .received (.data buffer) =>
          some ({ s with partial_msg := s.partial_msg ++ buffer },
            ⟨none, .cut :: .whileConnected :: rest⟩)
      | .received .wouldBlock => some (s, ⟨none, .whileConnected :: rest⟩)
      | .received .closed =>
          -- the loop is left
          some (s, ⟨none, .assign .is_connected false :: .assign .is_logged_on false :: rest⟩)
      | _ => none
  | .cut =>
      match cutAt soh s.partial_msg with
      | .message text partial_msg =>
          let handling :=
            match accepted cfg.ids (text ++ [soh]) with
            | some msg => processReceivedMessage cfg msg
            | none => []
          some ({ s with partial_msg := partial_msg }, ⟨none, handling ++ .cut :: rest⟩)
      | _ => some (s, ⟨none, rest⟩)
  | .whileRunning =>
      some (s, ⟨none, if s.heartbeat_running_ then heartbeatBody ++ .whileRunning :: rest else rest⟩)
  | .start _ => none
  | .join _ => none

/-- A thread and what it does. -/
structure Action (ι : Type) where
  thread : ThreadId ι
  choice : Choice

/-- Thread `t` goes on with `thread`. -/
def Session.set (s : Session ι) (t : ThreadId ι) (thread : Option Thread) : Session ι :=
  { s with threads := Function.update s.threads t thread }

/-- `worker_thread_ = std::thread(...)`: a thread that is still joinable terminates the
process. -/
def Session.startWorker (s : Session ι) (t : ThreadId ι) (rest : List Stmt) (w : Worker) :
    Session ι :=
  if (s.threads (.worker w)).isSome then { s with terminated := true }
  else (s.set t (some ⟨none, rest⟩)).set (.worker w) (some ⟨none, w.body⟩)

/-- `worker_thread_.join()` if it is joinable: it waits for the end of the thread, and a
thread that joins itself ends the process. -/
def Session.joinWorker (s : Session ι) (t : ThreadId ι) (rest : List Stmt) (w : Worker) :
    Option (Session ι) :=
  match s.threads (.worker w) with
  | none => some (s.set t (some ⟨none, rest⟩))
  | some thread =>
      if t = .worker w then some { s with terminated := true }
      else if thread.ended then some ((s.set t (some ⟨none, rest⟩)).set (.worker w) none)
      else none

/-- The state after a step, if it is enabled. -/
def next (cfg : Config) (s : Session ι) (a : Action ι) : Option (Session ι) :=
  if s.terminated then none
  else
    match s.threads a.thread with
    | none => none
    | some ⟨some sending, stack⟩ =>
        (sending.next s.shared a.choice).map fun r =>
          { s with shared := r.1 }.set a.thread (some ⟨r.2, stack⟩)
    | some ⟨none, []⟩ => none
    | some ⟨none, .start w :: rest⟩ => some (s.startWorker a.thread rest w)
    | some ⟨none, .join w :: rest⟩ => s.joinWorker a.thread rest w
    | some ⟨none, stmt :: rest⟩ =>
        (stmt.next cfg a.thread s.shared a.choice rest).map fun r =>
          { s with shared := r.1 }.set a.thread (some r.2)

/-- The runs of a session. -/
def system (ι : Type) [DecidableEq ι] (cfg : Config) :
    TransitionSystem (Session ι) (Action ι) :=
  TransitionSystem.ofFunction start (next cfg)

/-- A thread that has ended is about to send nothing, and has no statements left. -/
theorem eq_of_ended {thread : Thread} (h : thread.ended = true) : thread = ⟨none, []⟩ := by
  obtain ⟨sending, stack⟩ := thread
  obtain ⟨hsending, hstack⟩ := (Bool.and_eq_true _ _).mp h
  obtain rfl : sending = none := Option.isNone_iff_eq_none.mp hsending
  obtain rfl : stack = [] := List.isEmpty_iff.mp hstack
  rfl

/-- **What joining is.**  The worker is not joinable, the thread joins itself, or the worker
has ended. -/
theorem joinWorker_cases {s s' : Session ι} {t : ThreadId ι} {rest : List Stmt} {w : Worker}
    (h : s.joinWorker t rest w = some s') :
    s' = s.set t (some ⟨none, rest⟩) ∨ s' = { s with terminated := true } ∨
      (s.threads (.worker w) = some ⟨none, []⟩ ∧
        s' = (s.set t (some ⟨none, rest⟩)).set (.worker w) none) := by
  unfold Session.joinWorker at h
  cases hworker : s.threads (.worker w) with
  | none =>
    rw [hworker] at h
    exact Or.inl (Option.some.inj h).symm
  | some thread =>
    rw [hworker] at h
    dsimp only at h
    split_ifs at h with hself hended
    · exact Or.inr (Or.inl (Option.some.inj h).symm)
    · exact Or.inr (Or.inr ⟨congrArg some (eq_of_ended hended), (Option.some.inj h).symm⟩)

/-- **What a step is.**  A message goes on, a worker is started or joined, or a statement
runs. -/
theorem next_cases {cfg : Config} {s s' : Session ι} {a : Action ι}
    (h : next cfg s a = some s') :
    (∃ sending stack s₁ sending', s.threads a.thread = some ⟨some sending, stack⟩ ∧
      sending.next s.shared a.choice = some (s₁, sending') ∧
      s' = { s with shared := s₁ }.set a.thread (some ⟨sending', stack⟩)) ∨
    (∃ w rest, s.threads a.thread = some ⟨none, .start w :: rest⟩ ∧
      s' = s.startWorker a.thread rest w) ∨
    (∃ w rest, s.threads a.thread = some ⟨none, .join w :: rest⟩ ∧
      s.joinWorker a.thread rest w = some s') ∨
    (∃ stmt rest s₁ thread, s.threads a.thread = some ⟨none, stmt :: rest⟩ ∧
      stmt.next cfg a.thread s.shared a.choice rest = some (s₁, thread) ∧
      s' = { s with shared := s₁ }.set a.thread (some thread)) := by
  unfold next at h
  split_ifs at h with hterminated
  split at h
  · exact absurd h.symm (Option.some_ne_none _)
  · rename_i sending stack hthread
    obtain ⟨r, hr, rfl⟩ := Option.map_eq_some_iff.mp h
    exact Or.inl ⟨sending, stack, r.1, r.2, hthread, hr, rfl⟩
  · exact absurd h.symm (Option.some_ne_none _)
  · rename_i w rest hthread
    exact Or.inr (Or.inl ⟨w, rest, hthread, (Option.some.inj h).symm⟩)
  · rename_i w rest hthread
    exact Or.inr (Or.inr (Or.inl ⟨w, rest, hthread, h⟩))
  · rename_i stmt rest _ _ hthread
    obtain ⟨r, hr, rfl⟩ := Option.map_eq_some_iff.mp h
    exact Or.inr (Or.inr (Or.inr ⟨stmt, rest, r.1, r.2, hthread, hr, rfl⟩))

/-- A statement that can run is a step of its thread. -/
theorem next_of_stmt {cfg : Config} {s : Session ι} {a : Action ι} {stmt : Stmt}
    {rest : List Stmt} {s₁ : Shared ι} {thread : Thread} (hrunning : s.terminated = false)
    (hthread : s.threads a.thread = some ⟨none, stmt :: rest⟩)
    (hnext : stmt.next cfg a.thread s.shared a.choice rest = some (s₁, thread)) :
    next cfg s a = some ({ s with shared := s₁ }.set a.thread (some thread)) := by
  have hrunning' : ¬ s.terminated = true := by simp [hrunning]
  rw [next, if_neg hrunning', hthread]
  cases stmt with
  | start w => exact absurd hnext.symm (Option.some_ne_none _)
  | join w => exact absurd hnext.symm (Option.some_ne_none _)
  | _ => exact congrArg (Option.map _) hnext

/-- A message that can go on is a step of its thread. -/
theorem next_of_sending {cfg : Config} {s : Session ι} {a : Action ι} {sending : Sending}
    {stack : List Stmt} {s₁ : Shared ι} {sending' : Option Sending}
    (hrunning : s.terminated = false)
    (hthread : s.threads a.thread = some ⟨some sending, stack⟩)
    (hnext : sending.next s.shared a.choice = some (s₁, sending')) :
    next cfg s a = some ({ s with shared := s₁ }.set a.thread (some ⟨sending', stack⟩)) := by
  have hrunning' : ¬ s.terminated = true := by simp [hrunning]
  rw [next, if_neg hrunning', hthread]
  exact congrArg (Option.map _) hnext

/-! ## A client -/

/-- Steps of the only application thread of a process. -/
def appSteps (choices : List Choice) : List (Action Unit) :=
  choices.map fun choice => ⟨.app (), choice⟩

/-- The application connects. -/
def connecting : List (Action Unit) :=
  appSteps [.call .connect, .none, .opened true, .none, .none, .none]

/-- The configuration of the client. -/
def clientConfig : Config := ⟨client, 30⟩

end FIX42Protocol
