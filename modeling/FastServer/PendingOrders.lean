/-
# The orders a session waits for

`sendNewOrderSingle` of `fix42_a.cpp`.  It enters the order into `pendingOrders_` and then calls
`sendMessage`, which counts the message only once the socket has taken all of it.  So an order
that was not sent stays entered.
-/
import FastServer.FixSessionWire

namespace FixSession

open FIX42Protocol

/-! ## The session -/

inductive SessionState
  | disconnected
  | loggingIn
  | loggedIn
  | loggingOut
deriving DecidableEq

/-- `OrderInfo`.  The type of a price stands for `double`. -/
structure OrderInfo (ρ : Type) where
  symbol : Bytes
  side : UInt8
  quantity : Int32
  price : ρ
deriving DecidableEq

/-- The members of a session that sending uses; `pendingOrders_` as the function that looks up an
order. -/
structure Session (ρ : Type) where
  sender : Sender
  state_ : SessionState
  msgSeqNum_ : Int32
  sockfd_ : ℤ
  pendingOrders_ : Bytes → Option (OrderInfo ρ)

/-- A call of `sendNewOrderSingle`. -/
structure NewOrder (ρ : Type) where
  clOrdID : Bytes
  symbol : Bytes
  side : UInt8
  quantity : Int32
  price : ρ
  timeInForce : UInt8

/-- What a call meets: the time, and what `::send` returns for a text. -/
structure Surroundings where
  timestamp : Bytes
  send : Bytes → ℤ

/-- How a call ends. -/
inductive Result
  | returned (value : Bool)
  | thrown
deriving DecidableEq

variable {ρ : Type}

def NewOrder.info (o : NewOrder ρ) : OrderInfo ρ := ⟨o.symbol, o.side, o.quantity, o.price⟩

/-- `Tag::HandlInst`. -/
def handlInst : Tag := ⟨21, by decide⟩

section Sending

variable (formatPrice : ρ → Bytes)

def NewOrder.fields (o : NewOrder ρ) : Fields :=
  (((((((Fields.empty.set FIXField.clOrdID o.clOrdID).set
    handlInst (ascii "1")).set
    FIXField.symbol o.symbol).set
    FIXField.side [o.side]).set
    FIXField.orderQty (decimalInt o.quantity.toInt)).set
    FIXField.ordType (ascii "2")).set
    FIXField.price (formatPrice o.price)).set
    FIXField.timeInForce [o.timeInForce]

/-- `sendMessage`, with what it writes if it does not throw. -/
def Session.sendMessage (s : Session ρ) (env : Surroundings) (msgType : Bytes)
    (fields : Fields) : Result × Session ρ :=
  if s.sockfd_ < 0 then (.returned false, s)
  else
    match FixSession.sendMessage s.sender s.msgSeqNum_.toInt ⟨msgType, fields, env.timestamp⟩ with
    | none => (.thrown, s)
    | some fullMsg =>
        let sent := env.send fullMsg
        if sent < 0 then (.returned false, s)
        else if sent ≠ fullMsg.length then (.returned false, s)
        else (.returned true, { s with msgSeqNum_ := s.msgSeqNum_ + 1 })

def Session.sendNewOrderSingle (s : Session ρ) (env : Surroundings) (o : NewOrder ρ) :
    Result × Session ρ :=
  if s.state_ ≠ .loggedIn then (.returned false, s)
  else
    let s := { s with
      pendingOrders_ := Function.update s.pendingOrders_ o.clOrdID (some o.info) }
    s.sendMessage env (ascii "D") (o.fields formatPrice)

/-! ## What should hold -/

/-- The text of the message, unless its length needs more than six digits. -/
def Session.text (s : Session ρ) (env : Surroundings) (o : NewOrder ρ) : Option Bytes :=
  FixSession.sendMessage s.sender s.msgSeqNum_.toInt
    ⟨ascii "D", o.fields formatPrice, env.timestamp⟩

/-- The order can be sent completely: the socket is open and takes the whole text. -/
def Session.Sends (s : Session ρ) (env : Surroundings) (o : NewOrder ρ) : Prop :=
  0 ≤ s.sockfd_ ∧ ∃ fullMsg ∈ s.text formatPrice env o, env.send fullMsg = fullMsg.length

instance (s : Session ρ) (env : Surroundings) (o : NewOrder ρ) :
    Decidable (s.Sends formatPrice env o) :=
  inferInstanceAs (Decidable (_ ∧ _))

/-- **What a call should do**: nothing if it returns false; if it returns true, enter the order
and count the message; and in any case enter no order that was not sent completely. -/
structure Session.KeepsOrders (s : Session ρ) (env : Surroundings) (o : NewOrder ρ) : Prop where
  onFalse : (s.sendNewOrderSingle formatPrice env o).1 = .returned false →
    (s.sendNewOrderSingle formatPrice env o).2.pendingOrders_ = s.pendingOrders_ ∧
      (s.sendNewOrderSingle formatPrice env o).2.msgSeqNum_ = s.msgSeqNum_
  onTrue : (s.sendNewOrderSingle formatPrice env o).1 = .returned true →
    (s.sendNewOrderSingle formatPrice env o).2.pendingOrders_
        = Function.update s.pendingOrders_ o.clOrdID (some o.info) ∧
      (s.sendNewOrderSingle formatPrice env o).2.msgSeqNum_.toInt = s.msgSeqNum_.toInt + 1
  onlySent : ∀ clOrdID info,
    (s.sendNewOrderSingle formatPrice env o).2.pendingOrders_ clOrdID = some info →
      s.pendingOrders_ clOrdID = some info ∨
        (clOrdID, info) = (o.clOrdID, o.info) ∧ s.state_ = .loggedIn ∧
          s.Sends formatPrice env o

variable {formatPrice} {s : Session ρ} {env : Surroundings} {o : NewOrder ρ}

/-! ## The ways through a call -/

/-- The count grows unless it is the largest `int`. -/
theorem toInt_add_one_iff (n : Int32) : (n + 1).toInt = n.toInt + 1 ↔ n ≠ Int32.maxValue := by
  have hlt : n.toInt < 2 ^ 31 := n.toInt_lt
  have hle : -2 ^ 31 ≤ n.toInt := n.le_toInt
  have hone : (1 : Int32).toInt = 1 := rfl
  have hmax : Int32.maxValue.toInt = 2 ^ 31 - 1 := rfl
  rw [Int32.toInt_add, hone, Ne, ← Int32.toInt_inj, hmax]
  constructor
  · intro h heq
    rw [heq] at h
    exact absurd h (by decide)
  · intro h
    rw [Int.bmod_eq_of_le (by omega) (by omega)]

/-- A call without a logon does nothing. -/
theorem sendNewOrderSingle_of_loggedOut (h : s.state_ ≠ .loggedIn) :
    s.sendNewOrderSingle formatPrice env o = (.returned false, s) := if_pos h

/-- **An order that is sent** is entered and counted. -/
theorem sendNewOrderSingle_of_sends (hstate : s.state_ = .loggedIn)
    (hsends : s.Sends formatPrice env o) :
    s.sendNewOrderSingle formatPrice env o = (.returned true, { s with
      pendingOrders_ := Function.update s.pendingOrders_ o.clOrdID (some o.info)
      msgSeqNum_ := s.msgSeqNum_ + 1 }) := by
  obtain ⟨hopen, fullMsg, htext, hsent⟩ := hsends
  have htext : FixSession.sendMessage s.sender s.msgSeqNum_.toInt
      ⟨ascii "D", o.fields formatPrice, env.timestamp⟩ = some fullMsg := htext
  unfold Session.sendNewOrderSingle Session.sendMessage
  simp only [hstate, ne_eq, not_true_eq_false, if_false, not_lt.mpr hopen, htext, hsent]
  rw [if_neg (by omega)]

/-- **An order that is not sent** is entered nevertheless. -/
theorem sendNewOrderSingle_of_not_sends (hstate : s.state_ = .loggedIn)
    (hsends : ¬ s.Sends formatPrice env o) :
    (s.sendNewOrderSingle formatPrice env o).1 ≠ .returned true ∧
      (s.sendNewOrderSingle formatPrice env o).2 = { s with
        pendingOrders_ := Function.update s.pendingOrders_ o.clOrdID (some o.info) } := by
  unfold Session.sendNewOrderSingle Session.sendMessage
  simp only [hstate, ne_eq, not_true_eq_false, if_false]
  split_ifs with hclosed
  · exact ⟨by simp, rfl⟩
  · cases htext : FixSession.sendMessage s.sender s.msgSeqNum_.toInt
        ⟨ascii "D", o.fields formatPrice, env.timestamp⟩ with
    | none => exact ⟨by simp, rfl⟩
    | some fullMsg =>
      dsimp only
      split_ifs with hfailed hpartial
      · exact ⟨by simp, rfl⟩
      · exact absurd ⟨not_lt.mp hclosed, fullMsg, htext, hpartial⟩ hsends
      · exact ⟨by simp, rfl⟩

/-! ## When it holds -/

/-- Nothing happens without a logon. -/
theorem keepsOrders_of_loggedOut (hstate : s.state_ ≠ .loggedIn) :
    s.KeepsOrders formatPrice env o := by
  have hcall : s.sendNewOrderSingle formatPrice env o = (.returned false, s) :=
    sendNewOrderSingle_of_loggedOut hstate
  constructor
  · rw [hcall]
    exact fun _ => ⟨rfl, rfl⟩
  · rw [hcall]
    exact fun htrue => absurd htrue (by simp)
  · rw [hcall]
    exact fun _ _ hinfo => .inl hinfo

/-- An order that is sent is right if the count can grow. -/
theorem keepsOrders_iff_of_sends (hstate : s.state_ = .loggedIn)
    (hsends : s.Sends formatPrice env o) :
    s.KeepsOrders formatPrice env o ↔ s.msgSeqNum_ ≠ Int32.maxValue := by
  have hcall := sendNewOrderSingle_of_sends hstate hsends
  rw [← toInt_add_one_iff]
  constructor
  · intro h
    have htrue := h.onTrue
    rw [hcall] at htrue
    exact (htrue rfl).2
  · intro hgrows
    constructor
    · rw [hcall]
      exact fun hfalse => absurd hfalse (by simp)
    · rw [hcall]
      exact fun _ => ⟨rfl, hgrows⟩
    · rw [hcall]
      intro clOrdID info hinfo
      dsimp only at hinfo
      by_cases hid : clOrdID = o.clOrdID
      · subst hid
        rw [Function.update_self] at hinfo
        exact .inr ⟨by rw [Option.some.inj hinfo], hstate, hsends⟩
      · rw [Function.update_of_ne hid] at hinfo
        exact .inl hinfo

/-- An order that is not sent is right if it was pending before. -/
theorem keepsOrders_iff_of_not_sends (hstate : s.state_ = .loggedIn)
    (hsends : ¬ s.Sends formatPrice env o) :
    s.KeepsOrders formatPrice env o ↔ s.pendingOrders_ o.clOrdID = some o.info := by
  obtain ⟨hresult, hcall⟩ := sendNewOrderSingle_of_not_sends hstate hsends
  constructor
  · intro h
    have hentered := h.onlySent o.clOrdID o.info
    rw [hcall] at hentered
    rcases hentered (Function.update_self _ _ _) with hbefore | ⟨-, -, hsent⟩
    · exact hbefore
    · exact absurd hsent hsends
  · intro hbefore
    have hsame : Function.update s.pendingOrders_ o.clOrdID (some o.info) = s.pendingOrders_ := by
      rw [← hbefore, Function.update_eq_self]
    rw [hsame] at hcall
    constructor
    · rw [hcall]
      exact fun _ => ⟨rfl, rfl⟩
    · exact fun htrue => absurd htrue hresult
    · rw [hcall]
      exact fun _ _ hinfo => .inl hinfo

/-- **When a call does what it should**: when nobody is logged in; when the order is sent and
the count is not the largest `int`; or when the very order was entered before. -/
theorem keepsOrders_iff : s.KeepsOrders formatPrice env o ↔
    s.state_ ≠ .loggedIn ∨
      (s.Sends formatPrice env o ∧ s.msgSeqNum_ ≠ Int32.maxValue) ∨
      (¬ s.Sends formatPrice env o ∧ s.pendingOrders_ o.clOrdID = some o.info) := by
  by_cases hstate : s.state_ = .loggedIn
  · by_cases hsends : s.Sends formatPrice env o
    · simp [keepsOrders_iff_of_sends hstate hsends, hstate, hsends]
    · simp [keepsOrders_iff_of_not_sends hstate hsends, hstate, hsends]
  · exact iff_of_true (keepsOrders_of_loggedOut hstate) (.inl hstate)

/-! ## Runs of calls -/

variable (formatPrice) in
/-- The session after some calls. -/
def runCalls : Session ρ → List (Surroundings × NewOrder ρ) → Session ρ
  | s, [] => s
  | s, (env, o) :: calls => runCalls (s.sendNewOrderSingle formatPrice env o).2 calls

variable (formatPrice) in
/-- The orders that some calls send completely. -/
def sentOrders : Session ρ → List (Surroundings × NewOrder ρ) → List (Bytes × OrderInfo ρ)
  | _, [] => []
  | s, (env, o) :: calls =>
      (if s.state_ = .loggedIn ∧ s.Sends formatPrice env o then [(o.clOrdID, o.info)] else [])
        ++ sentOrders (s.sendNewOrderSingle formatPrice env o).2 calls

variable (formatPrice) in
/-- Every call does what it should. -/
def AllKeep : Session ρ → List (Surroundings × NewOrder ρ) → Prop
  | _, [] => True
  | s, (env, o) :: calls =>
      s.KeepsOrders formatPrice env o ∧ AllKeep (s.sendNewOrderSingle formatPrice env o).2 calls

/-- **Only orders that were sent** are pending after calls that do what they should, besides
those pending before. -/
theorem pending_of_runCalls {calls : List (Surroundings × NewOrder ρ)}
    (h : AllKeep formatPrice s calls) {clOrdID : Bytes} {info : OrderInfo ρ}
    (hinfo : (runCalls formatPrice s calls).pendingOrders_ clOrdID = some info) :
    s.pendingOrders_ clOrdID = some info ∨ (clOrdID, info) ∈ sentOrders formatPrice s calls := by
  induction calls generalizing s with
  | nil => exact .inl hinfo
  | cons call calls ih =>
    obtain ⟨env, o⟩ := call
    rw [sentOrders, List.mem_append]
    rcases ih h.2 hinfo with hstep | hsent
    · refine (h.1.onlySent clOrdID info hstep).imp id fun hnew => .inl ?_
      rw [if_pos hnew.2, hnew.1]
      exact List.mem_singleton_self _
    · exact .inr (.inr hsent)

end Sending

/-! ## A closed socket -/

/-- A session whose socket was closed after the logon. -/
def closedSession : Session ℕ where
  sender := sender
  state_ := .loggedIn
  msgSeqNum_ := 2
  sockfd_ := -1
  pendingOrders_ := fun _ => none

/-- An order for 100 shares at 150. -/
def buyOrder : NewOrder ℕ where
  clOrdID := ascii "ORD10001"
  symbol := ascii "AAPL"
  side := 49
  quantity := 100
  price := 150
  timeInForce := 49

/-- A socket that takes nothing. -/
def refused : Surroundings := ⟨ascii "20240101-00:00:00", fun _ => -1⟩

/-- **The order stays pending** though the call returns false, on a closed socket and on one that
reports an error. -/
theorem not_keepsOrders_refused :
    ¬ closedSession.KeepsOrders decimal refused buyOrder ∧
      ¬ ({ closedSession with sockfd_ := 3 } : Session ℕ).KeepsOrders decimal refused buyOrder := by
  constructor
  · intro h
    have hfalse := (h.onFalse rfl).1
    exact absurd (congrFun hfalse buyOrder.clOrdID) (by decide)
  · intro h
    have hresult : (({ closedSession with sockfd_ := 3 } : Session ℕ).sendNewOrderSingle decimal
        refused buyOrder).1 = .returned false := by decide +kernel
    have hfalse := (h.onFalse hresult).1
    exact absurd (congrFun hfalse buyOrder.clOrdID) (by decide +kernel)

end FixSession
