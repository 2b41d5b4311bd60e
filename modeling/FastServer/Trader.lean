/-
# The order ids of the trader

`Trader::trading_loop` turns requests into messages of a FIX session.  The session makes an
id of its own for every order, and the loop passes the id of the request to the cancel.
-/
import FastServer.AlgoModule
import FastServer.FixSession

namespace Trader

open FIX42Protocol

/-- A request that the loop has popped on a session that is logged on, and what its message is
composed of: the count of the clock, the number of the message, the time, and the id of the
last test request.  `written` is what `sendMessage` returns. -/
structure Iteration (ρ : Type) where
  req : OrderRequest ρ
  count : ℤ
  seq_num : ℕ
  sending_time : Bytes
  last_test_request_id : Bytes
  written : Bool

variable {ρ : Type}

/-- The side of a request as the session has it. -/
def side : OrderRequestSide → Side
  | .buy => .buy
  | .sell => .sell

/-- Message `j` is sent for a request to cancel the order whose request led to message `i`. -/
structure Cancels (xs : List (Iteration ρ)) (i j : ℕ) (new cancel : Iteration ρ) : Prop where
  later : i < j
  new_sent : (xs.filter Iteration.written)[i]? = some new
  cancel_sent : (xs.filter Iteration.written)[j]? = some cancel
  new_type : new.req.type = .new
  cancel_type : cancel.req.type = .cancel
  order_id : cancel.req.order_id = new.req.order_id

section Loop

-- the constants of the session, and `std::to_string` of a price
variable (cfg : Config) (toText : ρ → Bytes)

/-- The call that the loop makes for a request: `sendLimitOrder` or `cancelOrder`. -/
def Iteration.outgoing (x : Iteration ρ) : Outgoing :=
  match x.req.type with
  | .new =>
      .limitOrder x.count x.req.symbol (side x.req.side) (toText x.req.price) x.req.quantity .day
  | .cancel =>
      .cancelOrder x.count x.req.order_id x.req.symbol (side x.req.side) (toText x.req.price)

/-- The message that the call sends. -/
def Iteration.message (x : Iteration ρ) : Message :=
  Outbound.message cfg
    ⟨x.outgoing toText, x.seq_num, x.sending_time, x.last_test_request_id⟩

/-- The messages that `trading_loop` sends, one after the other. -/
def tradingLoop (xs : List (Iteration ρ)) : List Message :=
  (xs.filter Iteration.written).map (Iteration.message cfg toText)

/-- **Every cancel names its order**: whenever a cancel is sent for the id of an order that was
sent before, its field 41 is field 11 of that order. -/
def NamesOrders (xs : List (Iteration ρ)) : Prop :=
  ∀ i j new cancel, Cancels xs i j new cancel →
    ∀ order_msg cancel_msg, (tradingLoop cfg toText xs)[i]? = some order_msg →
      (tradingLoop cfg toText xs)[j]? = some cancel_msg →
      cancel_msg.fields.get? FIXField.origClOrdID = order_msg.fields.get? FIXField.clOrdID

end Loop

variable {cfg : Config} {toText : ρ → Bytes} {x : Iteration ρ}

/-- Field 11 of an order is the id that the session makes of the clock. -/
theorem get?_clOrdID_message (h : x.req.type = .new) :
    (x.message cfg toText).fields.get? FIXField.clOrdID
      = some (ascii "ORD" ++ decimalInt x.count) := by
  rw [Iteration.message, Iteration.outgoing, h, Outbound.message]
  simp only [Outgoing.fields, List.foldl_cons, List.foldl_nil]
  rw [Fields.get?_set_of_ne _ (by decide), Fields.get?_set_of_ne _ (by decide),
    Fields.get?_set_of_ne _ (by decide), Fields.get?_set_of_ne _ (by decide),
    Fields.get?_set_of_ne _ (by decide), Fields.get?_set_of_ne _ (by decide), Fields.get?_set_self]

/-- Field 41 of a cancel is the id of the request. -/
theorem get?_origClOrdID_message (h : x.req.type = .cancel) :
    (x.message cfg toText).fields.get? FIXField.origClOrdID = some x.req.order_id := by
  rw [Iteration.message, Iteration.outgoing, h, Outbound.message]
  simp only [Outgoing.fields, List.foldl_cons, List.foldl_nil]
  rw [Fields.get?_set_of_ne _ (by decide), Fields.get?_set_of_ne _ (by decide),
    Fields.get?_set_of_ne _ (by decide), Fields.get?_set_of_ne _ (by decide), Fields.get?_set_self]

/-- The message of a request that is written. -/
theorem getElem?_tradingLoop {xs : List (Iteration ρ)} {i : ℕ}
    (h : (xs.filter Iteration.written)[i]? = some x) :
    (tradingLoop cfg toText xs)[i]? = some (x.message cfg toText) := by
  rw [tradingLoop, List.getElem?_map, h]
  rfl

/-- **When every cancel names its order**: the order was requested with the very id that the
session made of the clock when it sent the order. -/
theorem namesOrders_iff (xs : List (Iteration ρ)) :
    NamesOrders cfg toText xs ↔ ∀ i j new cancel, Cancels xs i j new cancel →
      new.req.order_id = ascii "ORD" ++ decimalInt new.count := by
  constructor
  · intro h i j new cancel hcancels
    have hfields := h i j new cancel hcancels _ _ (getElem?_tradingLoop hcancels.new_sent)
      (getElem?_tradingLoop hcancels.cancel_sent)
    rw [get?_origClOrdID_message hcancels.cancel_type, get?_clOrdID_message hcancels.new_type]
      at hfields
    exact hcancels.order_id.symm.trans (Option.some.inj hfields)
  · intro h i j new cancel hcancels order_msg cancel_msg horder hmsg
    obtain rfl := Option.some.inj ((getElem?_tradingLoop hcancels.new_sent).symm.trans horder)
    obtain rfl := Option.some.inj ((getElem?_tradingLoop hcancels.cancel_sent).symm.trans hmsg)
    rw [get?_origClOrdID_message hcancels.cancel_type, get?_clOrdID_message hcancels.new_type,
      hcancels.order_id]
    exact congrArg some (h i j new cancel hcancels)

/-! ## One order -/

/-- The session of the failing run. -/
def config : Config := ⟨⟨ascii "CLIENT", ascii "SERVER"⟩, 30⟩

/-- An order with the id of the algorithm module is requested and cancelled. -/
def oneOrder : List (Iteration Bytes) :=
  [⟨⟨.new, ascii "ALGO_ORD_1", ascii "AAPL", .buy, ascii "150.000000", 100⟩, 1700000000000000000, 2,
      ascii "20240101-00:00:00.000", [], true⟩,
    ⟨⟨.cancel, ascii "ALGO_ORD_1", ascii "AAPL", .buy, ascii "150.000000", 0⟩,
      1700000001000000000, 3, ascii "20240101-00:00:01.000", [], true⟩]

/-- **The cancel names `ALGO_ORD_1`**, and the order was sent as `ORD1700000000000000000`. -/
theorem not_namesOrders_oneOrder : ¬ NamesOrders config id oneOrder := by
  intro h
  have hcancels : Cancels oneOrder 0 1 oneOrder[0] oneOrder[1] :=
    ⟨by decide, rfl, rfl, rfl, rfl, rfl⟩
  have hfields := h 0 1 _ _ hcancels _ _ (getElem?_tradingLoop hcancels.new_sent)
    (getElem?_tradingLoop hcancels.cancel_sent)
  rw [get?_origClOrdID_message rfl, get?_clOrdID_message rfl] at hfields
  revert hfields
  decide +kernel

end Trader
