/-
# The order ids of the algorithm module

`AlgoModule::handle_market_data` buys when there is no active order and cancels when there is
one.  The id that it remembers for the cancel counts the orders; the id in the request is
made of the clock.
-/
import FastServer.Decimal
import FastServer.MachineInt

/-! ## Requests -/

inductive OrderRequestType
  | new
  | cancel
deriving DecidableEq

inductive OrderRequestSide
  | buy
  | sell
deriving DecidableEq

/-- `OrderRequest`; prices are rationals, or what else stands for a `double`. -/
structure OrderRequest (ρ : Type) where
  type : OrderRequestType
  order_id : List UInt8
  symbol : List UInt8
  side : OrderRequestSide
  price : ρ
  quantity : ℤ
deriving DecidableEq

namespace AlgoModule

/-- The fields of `MarketData` that decide what is done. -/
structure MarketData where
  symbol : List UInt8
  bid_price : ℚ
  ask_price : ℚ

/-- A call of `handle_market_data`: the market data, the reading of the clock if there is one,
and what an uninitialised `OrderRequest` holds. -/
structure Tick where
  md : MarketData
  clock : ℤ
  req : OrderRequest ℚ

/-- The static variables, and the requests pushed so far. -/
structure State where
  order_counter : ℤ
  active_order_id : List UInt8
  order_queue_ : List (OrderRequest ℚ)

def start : State := ⟨0, [], []⟩

/-- `"ALGO_ORD_" + std::to_string(n)`. -/
def orderId (n : ℤ) : List UInt8 := ascii "ALGO_ORD_" ++ decimalInt n

def generateOrder (clock : ℤ) (req : OrderRequest ℚ) (symbol : List UInt8)
    (side : OrderRequestSide) (price : ℚ) (quantity : ℤ) : OrderRequest ℚ :=
  { req with
    type := .new, order_id := orderId clock, symbol := symbol, side := side, price := price
    quantity := quantity }

/-- The side, the price and the quantity stay as they are. -/
def cancelOrder (req : OrderRequest ℚ) (order_id symbol : List UInt8) : OrderRequest ℚ :=
  { req with type := .cancel, order_id := order_id, symbol := symbol }

def State.handleMarketData (s : State) (t : Tick) : State :=
  if s.active_order_id = [] ∧ t.md.bid_price < 155 then
    let counter := toI32 (s.order_counter + 1)
    { order_counter := counter
      active_order_id := orderId counter
      order_queue_ := s.order_queue_ ++
        [generateOrder t.clock t.req t.md.symbol .buy t.md.bid_price 100] }
  else if s.active_order_id ≠ [] ∧ t.md.ask_price > t.md.bid_price + 1 / 2 then
    { s with
      active_order_id := []
      order_queue_ := s.order_queue_ ++ [cancelOrder t.req s.active_order_id t.md.symbol] }
  else s

/-- The state after a sequence of market data. -/
def run (ticks : List Tick) : State := ticks.foldl State.handleMarketData start

/-! ## What should hold -/

/-- The id and the symbol of the orders that were requested and not cancelled since. -/
def outstanding (requests : List (OrderRequest ℚ)) : List (List UInt8 × List UInt8) :=
  requests.foldl (fun orders r =>
    match r.type with
    | .new => orders ++ [(r.order_id, r.symbol)]
    | .cancel => orders.filter fun order => order.1 ≠ r.order_id) []

/-- **Every cancel names an order** that was requested before it and not cancelled since. -/
def Justified (requests : List (OrderRequest ℚ)) : Prop :=
  ∀ before r after, requests = before ++ r :: after → r.type = .cancel →
    (r.order_id, r.symbol) ∈ outstanding before

theorem outstanding_concat_new {requests : List (OrderRequest ℚ)} {r : OrderRequest ℚ}
    (h : r.type = .new) :
    outstanding (requests ++ [r]) = outstanding requests ++ [(r.order_id, r.symbol)] := by
  rw [outstanding, List.foldl_append, List.foldl_cons, h]
  rfl

theorem outstanding_concat_cancel {requests : List (OrderRequest ℚ)} {r : OrderRequest ℚ}
    (h : r.type = .cancel) :
    outstanding (requests ++ [r])
      = (outstanding requests).filter fun order => order.1 ≠ r.order_id := by
  rw [outstanding, List.foldl_append, List.foldl_cons, h]
  rfl

theorem justified_nil : Justified [] := by
  intro before r after h
  exact absurd h.symm (List.append_ne_nil_of_right_ne_nil _ (List.cons_ne_nil _ _))

/-- The last request is justified or not by those before it. -/
theorem justified_concat {requests : List (OrderRequest ℚ)} {r : OrderRequest ℚ} :
    Justified (requests ++ [r]) ↔ Justified requests ∧
      (r.type = .cancel → (r.order_id, r.symbol) ∈ outstanding requests) := by
  constructor
  · intro h
    refine ⟨?_, h requests r [] rfl⟩
    intro before c after hsplit
    apply h before c (after ++ [r])
    rw [hsplit, List.append_assoc, List.cons_append]
  · rintro ⟨hall, hlast⟩ before c after hsplit
    rcases List.eq_nil_or_concat' after with rfl | ⟨rest, x, rfl⟩
    · obtain ⟨rfl, hr⟩ := List.append_inj' hsplit rfl
      obtain rfl : r = c := (List.cons.inj hr).1
      exact hlast
    · rw [← List.cons_append, ← List.append_assoc] at hsplit
      obtain ⟨hrequests, -⟩ := List.append_inj' hsplit rfl
      exact hall before c rest hrequests

theorem justified_concat_new {requests : List (OrderRequest ℚ)} {r : OrderRequest ℚ}
    (h : r.type = .new) : Justified (requests ++ [r]) ↔ Justified requests := by
  rw [justified_concat, h]
  exact and_iff_left fun hcancel => nomatch hcancel

/-! ## Rounds -/

/-- The calls that requested and cancelled an order, in pairs, and the one whose order is
active. -/
structure Rounds where
  completed : List (Tick × Tick)
  active : Option Tick

/-- A call requests an order if none is active and the bid is low, and cancels the active one
if the spread is wide. -/
def Rounds.next (r : Rounds) (t : Tick) : Rounds :=
  match r.active with
  | none => if t.md.bid_price < 155 then { r with active := some t } else r
  | some opened =>
      if t.md.ask_price > t.md.bid_price + 1 / 2 then ⟨r.completed ++ [(opened, t)], none⟩ else r

def rounds (ticks : List Tick) : Rounds := ticks.foldl Rounds.next ⟨[], none⟩

/-- The request of an order. -/
def newRequest (t : Tick) : OrderRequest ℚ :=
  generateOrder t.clock t.req t.md.symbol .buy t.md.bid_price 100

/-- The requests of round `k`. -/
def roundRequests (round : (Tick × Tick) × ℕ) : List (OrderRequest ℚ) :=
  [newRequest round.1.1,
    cancelOrder round.1.2.req (orderId (toI32 (round.2 + 1))) round.1.2.md.symbol]

def requestsOf (completed : List (Tick × Tick)) : List (OrderRequest ℚ) :=
  completed.zipIdx.flatMap roundRequests

/-- The state after the rounds. -/
def Rounds.state (r : Rounds) : State :=
  match r.active with
  | none => ⟨toI32 r.completed.length, [], requestsOf r.completed⟩
  | some opened =>
      ⟨toI32 (r.completed.length + 1), orderId (toI32 (r.completed.length + 1)),
        requestsOf r.completed ++ [newRequest opened]⟩

theorem requestsOf_concat (completed : List (Tick × Tick)) (round : Tick × Tick) :
    requestsOf (completed ++ [round]) = requestsOf completed ++ [newRequest round.1]
      ++ [cancelOrder round.2.req (orderId (toI32 (completed.length + 1))) round.2.md.symbol] := by
  rw [requestsOf, List.zipIdx_append, List.flatMap_append, List.append_assoc]
  simp [requestsOf, roundRequests]

theorem orderId_ne_nil (n : ℤ) : orderId n ≠ [] := List.cons_ne_nil _ _

theorem orderId_injective : Function.Injective orderId := by
  intro m n h
  have hdecimal : decimalInt m = decimalInt n := List.append_cancel_left h
  have hread := congrArg readInt hdecimal
  rw [readInt_decimalInt, readInt_decimalInt] at hread
  exact Option.some.inj hread

/-- The counter is the number of orders, as an `int`. -/
theorem toI32_toI32_add_one (n : ℤ) : toI32 (toI32 n + 1) = toI32 (n + 1) :=
  Int.bmod_add_bmod ..

/-- **A call** takes the state after the rounds to the state after the next rounds. -/
theorem handleMarketData_state (r : Rounds) (t : Tick) :
    r.state.handleMarketData t = (r.next t).state := by
  obtain ⟨completed, active⟩ := r
  cases active with
  | none =>
    by_cases hopen : t.md.bid_price < 155
    · rw [State.handleMarketData, if_pos ⟨rfl, hopen⟩]
      simp only [Rounds.next, if_pos hopen, Rounds.state, toI32_toI32_add_one]
      rfl
    · rw [State.handleMarketData, if_neg fun h => hopen h.2, if_neg fun h => h.1 rfl]
      simp only [Rounds.next, if_neg hopen]
  | some opened =>
    have hactive : (Rounds.state ⟨completed, some opened⟩).active_order_id ≠ [] := orderId_ne_nil _
    rw [State.handleMarketData, if_neg fun h => hactive h.1]
    by_cases hclose : t.md.ask_price > t.md.bid_price + 1 / 2
    · rw [if_pos ⟨hactive, hclose⟩]
      simp only [Rounds.next, if_pos hclose, Rounds.state, requestsOf_concat, List.length_append,
        List.length_singleton, Nat.cast_add, Nat.cast_one]
    · rw [if_neg fun h => hclose h.2]
      simp only [Rounds.next, if_neg hclose]

/-- **A sequence of market data** leads to the state after its rounds. -/
theorem run_eq (ticks : List Tick) : run ticks = (rounds ticks).state := by
  induction ticks using List.reverseRecOn with
  | nil =>
    have hzero : toI32 ((0 : ℕ) : ℤ) = 0 := toI32_of_range (by decide) (by decide)
    show start = State.mk (toI32 ((0 : ℕ) : ℤ)) [] []
    rw [hzero]
    rfl
  | append_singleton ticks t ih =>
    rw [run, List.foldl_append, rounds, List.foldl_append]
    show (run ticks).handleMarketData t = ((rounds ticks).next t).state
    rw [ih, handleMarketData_state]

/-! ## The cancels of the rounds -/

/-- The orders outstanding after complete rounds are those whose id no later cancel names. -/
theorem mem_outstanding_requestsOf (completed : List (Tick × Tick)) (id symbol : List UInt8) :
    (id, symbol) ∈ outstanding (requestsOf completed) ↔
      ∃ i round, completed[i]? = some round ∧ orderId round.1.clock = id ∧
        round.1.md.symbol = symbol ∧
        ∀ j, i ≤ j → j < completed.length → orderId (toI32 (j + 1)) ≠ id := by
  induction completed using List.reverseRecOn with
  | nil =>
    constructor
    · intro h
      exact absurd h List.not_mem_nil
    · rintro ⟨i, round, hround, -⟩
      exact absurd hround.symm (Option.some_ne_none _)
  | append_singleton completed last ih =>
    have hlength : (completed ++ [last]).length = completed.length + 1 := by simp
    rw [requestsOf_concat, outstanding_concat_cancel rfl, outstanding_concat_new rfl,
      List.mem_filter, List.mem_append, ih]
    have hid : decide ((id, symbol).1 ≠ orderId (toI32 (completed.length + 1))) = true ↔
        orderId (toI32 (completed.length + 1)) ≠ id := by
      rw [decide_eq_true_iff]
      exact ne_comm
    rw [show (cancelOrder last.2.req (orderId (toI32 (completed.length + 1)))
      last.2.md.symbol).order_id = orderId (toI32 (completed.length + 1)) from rfl, hid]
    constructor
    · rintro ⟨⟨i, round, hround, hclock, hsymbol, hlater⟩ | hlast, hne⟩
      · -- an order of an earlier round
        have hlt : i < completed.length := (List.getElem?_eq_some_iff.mp hround).1
        refine ⟨i, round, by rw [List.getElem?_append_left hlt, hround], hclock, hsymbol, ?_⟩
        intro j hij hj
        by_cases hlast : j = completed.length
        · rw [hlast]
          exact hne
        · exact hlater j hij (by omega)
      · -- the order of the last round
        obtain ⟨hclock, hsymbol⟩ := Prod.mk.inj (List.mem_singleton.mp hlast)
        refine ⟨completed.length, last, List.getElem?_concat_length, hclock.symm, hsymbol.symm, ?_⟩
        intro j hij hj
        rw [show j = completed.length by omega]
        exact hne
    · rintro ⟨i, round, hround, hclock, hsymbol, hlater⟩
      refine ⟨?_, hlater completed.length ?_ (by omega)⟩
      · by_cases hlt : i < completed.length
        · rw [List.getElem?_append_left hlt] at hround
          refine Or.inl ⟨i, round, hround, hclock, hsymbol, fun j hij hj => ?_⟩
          exact hlater j hij (by omega)
        · have hi : i = completed.length := by
            have := (List.getElem?_eq_some_iff.mp hround).1
            omega
          rw [hi, List.getElem?_concat_length] at hround
          obtain rfl := Option.some.inj hround
          refine Or.inr (List.mem_singleton.mpr ?_)
          rw [← hclock, ← hsymbol]
          rfl
      · have := (List.getElem?_eq_some_iff.mp hround).1
        omega

/-- Round `k` cancels an order: the id of one of the orders up to round `k` is `k + 1`, its
symbol is that of the cancel, and no cancel in between has that number. -/
def CancelsOrder (completed : List (Tick × Tick)) (k : ℕ) (closed : Tick) : Prop :=
  ∃ i ≤ k, ∃ round, completed[i]? = some round ∧ round.1.clock = toI32 (k + 1) ∧
    round.1.md.symbol = closed.md.symbol ∧
    ∀ j, i ≤ j → j < k → toI32 (j + 1) ≠ toI32 (k + 1)

/-- The cancel of the last round is justified by the requests before it. -/
theorem cancelsOrder_concat {completed : List (Tick × Tick)} {opened closed : Tick} :
    (orderId (toI32 (completed.length + 1)), closed.md.symbol)
        ∈ outstanding (requestsOf completed ++ [newRequest opened]) ↔
      CancelsOrder (completed ++ [(opened, closed)]) completed.length closed := by
  have hids : ∀ m n, orderId m = orderId n ↔ m = n := fun m n => orderId_injective.eq_iff
  rw [outstanding_concat_new rfl, List.mem_append, mem_outstanding_requestsOf]
  simp only [hids, ne_eq]
  constructor
  · rintro (⟨i, round, hround, hclock, hsymbol, hlater⟩ | hlast)
    · have hlt : i < completed.length := (List.getElem?_eq_some_iff.mp hround).1
      refine ⟨i, hlt.le, round, ?_, hclock, hsymbol, hlater⟩
      rw [List.getElem?_append_left hlt, hround]
    · obtain ⟨hclock, hsymbol⟩ := Prod.mk.inj (List.mem_singleton.mp hlast)
      refine ⟨completed.length, le_refl _, _, List.getElem?_concat_length, ?_, hsymbol.symm, ?_⟩
      · exact orderId_injective hclock.symm
      · intro j hij hj
        omega
  · rintro ⟨i, hi, round, hround, hclock, hsymbol, hlater⟩
    by_cases hlt : i < completed.length
    · rw [List.getElem?_append_left hlt] at hround
      exact Or.inl ⟨i, round, hround, hclock, hsymbol, hlater⟩
    · rw [show i = completed.length by omega, List.getElem?_concat_length] at hround
      obtain rfl := Option.some.inj hround
      refine Or.inr (List.mem_singleton.mpr ?_)
      rw [← hclock, ← hsymbol]
      rfl

/-- What comes behind a round does not matter for it. -/
theorem cancelsOrder_append {completed rest : List (Tick × Tick)} {k : ℕ} {closed : Tick}
    (hk : k < completed.length) :
    CancelsOrder (completed ++ rest) k closed ↔ CancelsOrder completed k closed := by
  constructor
  · rintro ⟨i, hi, round, hround, hrest⟩
    rw [List.getElem?_append_left (by omega)] at hround
    exact ⟨i, hi, round, hround, hrest⟩
  · rintro ⟨i, hi, round, hround, hrest⟩
    refine ⟨i, hi, round, ?_, hrest⟩
    rw [List.getElem?_append_left (by omega), hround]

/-- The requests of complete rounds are justified if every round cancels an order. -/
theorem justified_requestsOf (completed : List (Tick × Tick)) :
    Justified (requestsOf completed) ↔
      ∀ k round, completed[k]? = some round → CancelsOrder completed k round.2 := by
  induction completed using List.reverseRecOn with
  | nil =>
    refine iff_of_true justified_nil ?_
    intro k round hround
    exact absurd hround.symm (Option.some_ne_none _)
  | append_singleton completed last ih =>
    obtain ⟨opened, closed⟩ := last
    rw [requestsOf_concat, justified_concat, justified_concat_new rfl, ih]
    constructor
    · rintro ⟨hall, hlast⟩ k round hround
      by_cases hlt : k < completed.length
      · rw [List.getElem?_append_left hlt] at hround
        exact (cancelsOrder_append hlt).mpr (hall k round hround)
      · have hk : k = completed.length := by
          have hlength : (completed ++ [(opened, closed)]).length = completed.length + 1 := by simp
          have := (List.getElem?_eq_some_iff.mp hround).1
          omega
        subst hk
        rw [List.getElem?_concat_length] at hround
        obtain rfl := Option.some.inj hround
        exact cancelsOrder_concat.mp (hlast rfl)
    · intro hall
      constructor
      · intro k round hround
        have hlt : k < completed.length := (List.getElem?_eq_some_iff.mp hround).1
        refine (cancelsOrder_append hlt).mp (hall k round ?_)
        rw [List.getElem?_append_left hlt, hround]
      · intro _
        exact cancelsOrder_concat.mpr (hall completed.length _ List.getElem?_concat_length)

/-- **When every cancel names an order.**  The clock of some order up to that of the cancel read
the number of the cancel, for the same symbol, and the number was not cancelled since. -/
theorem justified_run_iff (ticks : List Tick) :
    Justified (run ticks).order_queue_ ↔
      ∀ k round, (rounds ticks).completed[k]? = some round →
        CancelsOrder (rounds ticks).completed k round.2 := by
  rw [run_eq, ← justified_requestsOf]
  obtain ⟨completed, active⟩ := rounds ticks
  cases active with
  | none => exact Iff.rfl
  | some opened => exact justified_concat_new rfl

/-! ## One order -/

/-- What an uninitialised request holds. -/
def garbage : OrderRequest ℚ := ⟨.new, [], [], .buy, 0, 0⟩

/-- An order is requested at a low bid and cancelled when the spread is wide. -/
def oneOrder : List Tick :=
  [⟨⟨ascii "AAPL", 150, 150⟩, 1700000000000000000, garbage⟩,
    ⟨⟨ascii "AAPL", 150, 151⟩, 1700000001000000000, garbage⟩]

/-- **The cancel does not name the order**: `ALGO_ORD_1` was never requested. -/
theorem not_justified_oneOrder : ¬ Justified (run oneOrder).order_queue_ := by
  intro h
  have hrequests : (run oneOrder).order_queue_
      = [generateOrder 1700000000000000000 garbage (ascii "AAPL") .buy 150 100] ++
        cancelOrder garbage (ascii "ALGO_ORD_1") (ascii "AAPL") :: [] := by decide +kernel
  have hmem := h _ _ _ hrequests rfl
  revert hmem
  decide +kernel

end AlgoModule
