/-
# The matching loop

The order-by-order walk of `flushStatus`.  Either side is a queue in price
priority; after volume `M` has been matched, an order, or a price level, has
received the overlap of `[0, M)` with the interval it occupies in the queue.  The
walk stops only when no price could trade more.
-/
import FastServer.AuctionPrice

namespace Obr

open CallAuction PriorityFill OrderIterator

/-! ## Queues of orders -/

/-- The orders of some levels as lots, in iteration order. -/
abbrev queueLots (levels : List (ℕ × PriceLevel)) : List (ℤ × ℕ) := orderLots (ordersOf levels)

/-- A side the walk can consume: in price priority, without empty orders. -/
structure Queue (lt : ℤ → ℤ → Prop) (levels : List (ℕ × PriceLevel)) : Prop where
  prioritised : Prioritised lt (queueLots levels)
  quantity_pos : ∀ o ∈ ordersOf levels, 0 < o.quantity

theorem length_queueLots (levels : List (ℕ × PriceLevel)) :
    (queueLots levels).length = (ordersOf levels).length := List.length_map ..

/-- The quantities of the queue add up to its total. -/
theorem sum_orderLots (os : List Order) : ((orderLots os).map Prod.snd).sum = totalOf os := by
  rw [orderLots, List.map_map]
  rfl

/-! ## One side of the walk -/

/-- The walk stands at order `index` of the side, of which `order.quantity` is
left after volume `M`. -/
structure AtOrder (levels : List (ℕ × PriceLevel)) (order : Order) (it : OrderIterator)
    (index M : ℕ) : Prop where
  within : it.Within levels
  remaining_eq : it.remaining = (ordersOf levels).drop index
  lt_length : index < (ordersOf levels).length
  price_eq : order.price = (ordersOf levels)[index].price
  cum_le : cum (queueLots levels) index ≤ M
  add_quantity : M + order.quantity = cum (queueLots levels) (index + 1)

/-- The walk has consumed the side. -/
structure AtEnd (levels : List (ℕ × PriceLevel)) (it : OrderIterator) (M : ℕ) : Prop where
  mapIter_eq : it.mapIter = []
  total_eq : M = totalOf (ordersOf levels)

section Side

variable {levels : List (ℕ × PriceLevel)} {order : Order} {it : OrderIterator} {index M v : ℕ}

theorem cum_queueLots_succ (h : index < (ordersOf levels).length) :
    cum (queueLots levels) (index + 1)
      = cum (queueLots levels) index + (ordersOf levels)[index].quantity := by
  rw [cum_succ (by rw [length_queueLots]; exact h)]
  simp only [orderLots, List.getElem_map]

/-- The current order is a lot of the queue at its price. -/
theorem AtOrder.exists_lot (h : AtOrder levels order it index M) :
    ∃ hk : index < (queueLots levels).length, (queueLots levels)[index].1 = order.price := by
  refine ⟨by rw [length_queueLots]; exact h.lt_length, ?_⟩
  rw [h.price_eq]
  simp only [orderLots, List.getElem_map]

/-- Taking volume off the current order. -/
theorem AtOrder.take (h : AtOrder levels order it index M) (hv : v ≤ order.quantity) :
    AtOrder levels { order with quantity := order.quantity - v } it index (M + v) where
  within := h.within
  remaining_eq := h.remaining_eq
  lt_length := h.lt_length
  price_eq := h.price_eq
  cum_le := le_trans h.cum_le (Nat.le_add_right _ _)
  add_quantity := by
    have := h.add_quantity
    show M + v + (order.quantity - v) = _
    omega

/-- Arriving at an order: the volume so far is what stands before it. -/
theorem AtOrder.of_arrive (hw : it.Within levels)
    (hr : it.remaining = (ordersOf levels).drop index) {o : Order} (ho : it.deref? = some o)
    (hM : M = cum (queueLots levels) index) : AtOrder levels o it index M := by
  have hget : (ordersOf levels)[index]? = some o := by
    rw [← List.head?_drop, ← hr, ← deref?_eq_head?, ho]
  obtain ⟨hlt, heq⟩ := List.getElem?_eq_some_iff.mp hget
  refine ⟨hw, hr, hlt, ?_, le_of_eq hM.symm, ?_⟩
  · rw [heq]
  · rw [cum_queueLots_succ hlt, heq, hM]

/-- A side the iterator has run through is consumed. -/
theorem AtEnd.of_arrive (hr : it.remaining = (ordersOf levels).drop index)
    (ho : it.deref? = none) (hM : M = cum (queueLots levels) index) : AtEnd levels it M := by
  have hlist : it.listIter = [] := by
    rw [deref?] at ho
    exact List.head?_eq_none_iff.mp ho
  have hlen : (ordersOf levels).length ≤ index := by
    rw [deref?_eq_head?, hr] at ho
    exact List.drop_eq_nil_iff.mp (List.head?_eq_none_iff.mp ho)
  refine ⟨?_, ?_⟩
  · by_contra hne
    exact it.valid hne hlist
  · rw [hM, ← sum_orderLots]
    unfold cum
    rw [List.take_of_length_le (by rw [length_queueLots]; exact hlen)]

/-- What `advanceBuy` and `advanceSell` do to their side. -/
def advance (order : Order) (it : OrderIterator) (index : ℕ) :
    (Order × OrderIterator × ℕ) × Bool :=
  if order.quantity = 0 then
    match it.next.deref? with
    | none => ((order, it.next, index + 1), true)
    | some o => ((o, it.next, index + 1), false)
  else ((order, it, index), false)

theorem MatchState.advanceBuy_eq (st : MatchState) :
    st.advanceBuy =
      ({ st with
          buyOrder := (advance st.buyOrder st.buyOrderIt st.buyIndex).1.1
          buyOrderIt := (advance st.buyOrder st.buyOrderIt st.buyIndex).1.2.1
          buyIndex := (advance st.buyOrder st.buyOrderIt st.buyIndex).1.2.2 },
        (advance st.buyOrder st.buyOrderIt st.buyIndex).2) := by
  unfold MatchState.advanceBuy advance
  split_ifs
  · cases hd : st.buyOrderIt.next.deref? <;> simp only [hd]
  · rfl

theorem MatchState.advanceSell_eq (st : MatchState) :
    st.advanceSell =
      ({ st with
          sellOrder := (advance st.sellOrder st.sellOrderIt st.sellIndex).1.1
          sellOrderIt := (advance st.sellOrder st.sellOrderIt st.sellIndex).1.2.1
          sellIndex := (advance st.sellOrder st.sellOrderIt st.sellIndex).1.2.2 },
        (advance st.sellOrder st.sellOrderIt st.sellIndex).2) := by
  unfold MatchState.advanceSell advance
  split_ifs
  · cases hd : st.sellOrderIt.next.deref? <;> simp only [hd]
  · rfl

/-- Where a side stands between two turns: at an order with something left, or
at the end. -/
def Standing (levels : List (ℕ × PriceLevel)) (side : Order × OrderIterator × ℕ) (M : ℕ) : Prop :=
  (AtOrder levels side.1 side.2.1 side.2.2 M ∧ 0 < side.1.quantity) ∨ AtEnd levels side.2.1 M

/-- **Advancing a side.**  The flag tells whether the side is consumed; an
exhausted order is passed, any other is kept. -/
theorem AtOrder.advance (hpos : ∀ o ∈ ordersOf levels, 0 < o.quantity)
    (h : AtOrder levels order it index M) {side : Order × OrderIterator × ℕ} {finished : Bool}
    (hadv : Obr.advance order it index = (side, finished)) :
    (if finished then AtEnd levels side.2.1 M
      else AtOrder levels side.1 side.2.1 side.2.2 M ∧ 0 < side.1.quantity) ∧
    side.2.2 = index + (if order.quantity = 0 then 1 else 0) := by
  unfold Obr.advance at hadv
  by_cases hq : order.quantity = 0
  · have hr : it.next.remaining = (ordersOf levels).drop (index + 1) := by
      rw [remaining_next, h.remaining_eq, List.tail_drop]
    have hM : M = cum (queueLots levels) (index + 1) := by
      rw [← h.add_quantity, hq, add_zero]
    rw [if_pos hq] at hadv ⊢
    cases hd : it.next.deref? with
    | none =>
        rw [hd] at hadv
        obtain ⟨rfl, rfl⟩ := Prod.mk.inj hadv
        exact ⟨AtEnd.of_arrive hr hd hM, rfl⟩
    | some o =>
        rw [hd] at hadv
        obtain ⟨rfl, rfl⟩ := Prod.mk.inj hadv
        have hat : AtOrder levels o it.next (index + 1) M := AtOrder.of_arrive h.within.next hr hd hM
        refine ⟨⟨hat, hpos o ?_⟩, rfl⟩
        rw [deref?_eq_head?, hr] at hd
        exact List.mem_of_mem_drop (List.mem_of_mem_head? hd)
  · rw [if_neg hq] at hadv ⊢
    obtain ⟨rfl, rfl⟩ := Prod.mk.inj hadv
    exact ⟨⟨h, Nat.pos_of_ne_zero hq⟩, rfl⟩

end Side

/-! ## The trades so far -/

/-- The volume of the trades with key `x`. -/
def filled {κ : Type*} [DecidableEq κ] (key : Trade → κ) (trades : List Trade) (x : κ) : ℕ :=
  ((trades.filter (fun t => key t = x)).map Trade.tradeVolume).sum

theorem filled_append {κ : Type*} [DecidableEq κ] (key : Trade → κ) (trades : List Trade)
    (t : Trade) (x : κ) :
    filled key (trades ++ [t]) x = filled key trades x + if key t = x then t.tradeVolume else 0 := by
  unfold filled
  by_cases h : key t = x <;> simp [h]

/-- The volume matched so far. -/
def MatchState.volume (st : MatchState) : ℕ := (st.trades.map Trade.tradeVolume).sum

/-- The trades of one side are those of a queue filled from the front: order by
order and price by price. -/
structure FilledFrom (lt : ℤ → ℤ → Prop) [DecidableRel lt] (levels : List (ℕ × PriceLevel))
    (index : Trade → ℕ) (price : Trade → ℤ) (st : MatchState) : Prop where
  by_index : ∀ i, filled index st.trades i
    = overlap (cum (queueLots levels) i) (cum (queueLots levels) (i + 1)) st.volume
  by_price : ∀ p, filled price st.trades p
    = overlap (ahead lt (queueLots levels) p) (upTo lt (queueLots levels) p) st.volume

/-- What the trades so far say, at any point of the walk. -/
structure Logged (bids asks : List (ℕ × PriceLevel)) (st : MatchState) : Prop where
  buy_filled : FilledFrom (fun a b => b < a) bids Trade.buyIndex Trade.buyPrice st
  sell_filled : FilledFrom (fun a b => a < b) asks Trade.sellIndex Trade.sellPrice st
  some_price : ∃ p, st.volume ≤ executable (queueLots bids) (queueLots asks) p
  tradeCount_eq : st.tradeCount = toI64 st.trades.length
  volume_pos : ∀ t ∈ st.trades, 0 < t.tradeVolume
  in_turn : st.trades.Pairwise (fun t t' => t.buyIndex ≤ t'.buyIndex ∧ t.sellIndex ≤ t'.sellIndex)
  trade_of : ∀ t ∈ st.trades,
    (∃ o, (ordersOf bids)[t.buyIndex]? = some o ∧ o.price = t.buyPrice) ∧
      ∃ o, (ordersOf asks)[t.sellIndex]? = some o ∧ o.price = t.sellPrice

/-- Between two turns both sides stand at an order with something left. -/
structure Walking (bids asks : List (ℕ × PriceLevel)) (st : MatchState) : Prop where
  logged : Logged bids asks st
  buy : AtOrder bids st.buyOrder st.buyOrderIt st.buyIndex st.volume
  buy_pos : 0 < st.buyOrder.quantity
  sell : AtOrder asks st.sellOrder st.sellOrderIt st.sellIndex st.volume
  sell_pos : 0 < st.sellOrder.quantity
  length_le : st.trades.length ≤ st.buyIndex + st.sellIndex
  index_le : ∀ t ∈ st.trades, t.buyIndex ≤ st.buyIndex ∧ t.sellIndex ≤ st.sellIndex

/-- When the loop is left: no price could trade more, and either side stands at
an order with something left or is consumed. -/
structure Walked (bids asks : List (ℕ × PriceLevel)) (st : MatchState) : Prop where
  logged : Logged bids asks st
  buy : Standing bids (st.buyOrder, st.buyOrderIt, st.buyIndex) st.volume
  sell : Standing asks (st.sellOrder, st.sellOrderIt, st.sellIndex) st.volume
  executable_le : ∀ p, executable (queueLots bids) (queueLots asks) p ≤ st.volume
  length_lt : st.trades.length < (ordersOf bids).length + (ordersOf asks).length

section Turn

variable {bids asks : List (ℕ × PriceLevel)} {st st' : MatchState}

theorem MatchState.trade_trades (st : MatchState) :
    st.trade.trades = st.trades ++
      [⟨st.buyIndex, st.sellIndex, st.buyOrder.price, st.sellOrder.price, st.tradeVolume⟩] := rfl

theorem MatchState.volume_trade (st : MatchState) :
    st.trade.volume = st.volume + st.tradeVolume := by
  unfold MatchState.volume
  rw [st.trade_trades]
  simp

/-- **A trade is credited to the order it is taken from.** -/
theorem FilledFrom.trade {lt : ℤ → ℤ → Prop} [DecidableRel lt] [IsStrictTotalOrder ℤ lt]
    {levels : List (ℕ × PriceLevel)} {index : Trade → ℕ} {price : Trade → ℤ}
    {order : Order} {it : OrderIterator} {k : ℕ} {t : Trade}
    (hq : Queue lt levels) (h : FilledFrom lt levels index price st)
    (hat : AtOrder levels order it k st.volume) (hv : st.tradeVolume ≤ order.quantity)
    (htrades : st.trade.trades = st.trades ++ [t]) (hvol : t.tradeVolume = st.tradeVolume)
    (hi : index t = k) (hp : price t = order.price) :
    FilledFrom lt levels index price st.trade := by
  have hlo := hat.cum_le
  have hhi : st.volume + st.tradeVolume ≤ cum (queueLots levels) (k + 1) := by
    have := hat.add_quantity
    omega
  obtain ⟨hk, hprice⟩ := hat.exists_lot
  rw [← hp] at hprice
  constructor
  · intro i
    rw [htrades, filled_append, h.by_index, st.volume_trade, overlap_cum_add hlo hhi, hi, hvol]
  · intro p
    rw [htrades, filled_append, h.by_price, st.volume_trade,
      overlap_price_add hq.prioritised hk hlo hhi, hprice, hvol]

/-- What the two orders of a trade allow can be executed at the bid's price. -/
theorem Walking.executable_ge (hB : Queue (fun a b => b < a) bids)
    (hA : Queue (fun a b => a < b) asks) (h : Walking bids asks st)
    (hp : ¬ st.buyOrder.price < st.sellOrder.price) :
    st.volume + st.tradeVolume
      ≤ executable (queueLots bids) (queueLots asks) st.buyOrder.price := by
  have hb := h.buy.add_quantity
  have ha := h.sell.add_quantity
  obtain ⟨hk, hbp⟩ := h.buy.exists_lot
  obtain ⟨hj, hap⟩ := h.sell.exists_lot
  have h1 : cum (queueLots bids) (st.buyIndex + 1) ≤ demand (queueLots bids) st.buyOrder.price :=
    cum_succ_le_mass hB.prioritised (fun x y hy hyx => by omega) hk (by rw [hbp])
  have h2 : cum (queueLots asks) (st.sellIndex + 1)
      ≤ supply (queueLots asks) st.buyOrder.price :=
    cum_succ_le_mass hA.prioritised (fun x y hy hyx => by omega) hj (by rw [hap]; omega)
  have hv1 : st.tradeVolume ≤ st.buyOrder.quantity := min_le_left _ _
  have hv2 : st.tradeVolume ≤ st.sellOrder.quantity := min_le_right _ _
  exact le_min (by omega) (by omega)

/-- **One trade.**  The log stays that of two queues filled from the front. -/
theorem Walking.logged_trade (hB : Queue (fun a b => b < a) bids)
    (hA : Queue (fun a b => a < b) asks) (h : Walking bids asks st)
    (hp : ¬ st.buyOrder.price < st.sellOrder.price) : Logged bids asks st.trade where
  buy_filled := h.logged.buy_filled.trade hB h.buy (min_le_left _ _) st.trade_trades rfl rfl rfl
  sell_filled := h.logged.sell_filled.trade hA h.sell (min_le_right _ _) st.trade_trades rfl rfl rfl
  some_price := ⟨_, by rw [st.volume_trade]; exact h.executable_ge hB hA hp⟩
  tradeCount_eq := by
    show toI64 (st.tradeCount + 1) = _
    rw [h.logged.tradeCount_eq, st.trade_trades, List.length_append, Nat.cast_add]
    exact Int.bmod_add_bmod
  volume_pos := by
    intro t ht
    rw [st.trade_trades] at ht
    rcases List.mem_append.mp ht with ht | ht
    · exact h.logged.volume_pos t ht
    · rw [List.mem_singleton.mp ht]
      exact lt_min h.buy_pos h.sell_pos
  in_turn := by
    rw [st.trade_trades, List.pairwise_append]
    refine ⟨h.logged.in_turn, List.pairwise_singleton _ _, ?_⟩
    intro t ht t' ht'
    rw [List.mem_singleton.mp ht']
    exact h.index_le t ht
  trade_of := by
    intro t ht
    rw [st.trade_trades] at ht
    rcases List.mem_append.mp ht with ht | ht
    · exact h.logged.trade_of t ht
    · rw [List.mem_singleton.mp ht]
      exact ⟨⟨_, List.getElem?_eq_getElem h.buy.lt_length, h.buy.price_eq.symm⟩,
        ⟨_, List.getElem?_eq_getElem h.sell.lt_length, h.sell.price_eq.symm⟩⟩

/-- A side consumed means that no price could trade more. -/
theorem executable_le_of_bids_atEnd {it : OrderIterator} {M : ℕ} (h : AtEnd bids it M) (p : ℤ) :
    executable (queueLots bids) (queueLots asks) p ≤ M := by
  rw [h.total_eq, ← sum_orderLots]
  exact le_trans (min_le_left _ _) mass_le_sum

theorem executable_le_of_asks_atEnd {it : OrderIterator} {M : ℕ} (h : AtEnd asks it M) (p : ℤ) :
    executable (queueLots bids) (queueLots asks) p ≤ M := by
  rw [h.total_eq, ← sum_orderLots]
  exact le_trans (min_le_right _ _) mass_le_sum

/-- Two orders that do not cross mean that no price could trade more. -/
theorem Walking.executable_le (hB : Queue (fun a b => b < a) bids)
    (hA : Queue (fun a b => a < b) asks) (h : Walking bids asks st)
    (hp : st.buyOrder.price < st.sellOrder.price) (p : ℤ) :
    executable (queueLots bids) (queueLots asks) p ≤ st.volume := by
  obtain ⟨hk, hbp⟩ := h.buy.exists_lot
  obtain ⟨hj, hap⟩ := h.sell.exists_lot
  rcases lt_or_ge st.buyOrder.price p with hlt | hge
  · calc executable (queueLots bids) (queueLots asks) p ≤ demand (queueLots bids) p :=
          min_le_left _ _
      _ ≤ cum (queueLots bids) st.buyIndex :=
          mass_le_cum hB.prioritised (fun x y hy hyx => by omega) hk (by rw [hbp]; omega)
      _ ≤ st.volume := h.buy.cum_le
  · calc executable (queueLots bids) (queueLots asks) p ≤ supply (queueLots asks) p :=
          min_le_right _ _
      _ ≤ cum (queueLots asks) st.sellIndex :=
          mass_le_cum hA.prioritised (fun x y hy hyx => by omega) hj (by rw [hap]; omega)
      _ ≤ st.volume := h.sell.cum_le

/-- Both sides of the state moved. -/
def MatchState.moveTo (st : MatchState) (buy sell : Order × OrderIterator × ℕ) : MatchState :=
  { st with
    buyOrder := buy.1, buyOrderIt := buy.2.1, buyIndex := buy.2.2
    sellOrder := sell.1, sellOrderIt := sell.2.1, sellIndex := sell.2.2 }

/-- A turn that trades moves both sides and looks at the two flags. -/
theorem MatchState.turn_eq (hp : ¬ st.buyOrder.price < st.sellOrder.price)
    {buy sell : Order × OrderIterator × ℕ} {b₁ b₂ : Bool}
    (hb : advance st.trade.buyOrder st.buyOrderIt st.buyIndex = (buy, b₁))
    (hs : advance st.trade.sellOrder st.sellOrderIt st.sellIndex = (sell, b₂)) :
    st.turn = if b₁ || b₂ then .done (st.trade.moveTo buy sell)
      else .again (st.trade.moveTo buy sell) := by
  have e1 : st.trade.advanceBuy = ({ st.trade with
      buyOrder := buy.1, buyOrderIt := buy.2.1, buyIndex := buy.2.2 }, b₁) := by
    rw [MatchState.advanceBuy_eq,
      show advance st.trade.buyOrder st.trade.buyOrderIt st.trade.buyIndex = (buy, b₁) from hb]
  have e2 : ({ st.trade with buyOrder := buy.1, buyOrderIt := buy.2.1, buyIndex := buy.2.2 } :
      MatchState).advanceSell = (st.trade.moveTo buy sell, b₂) := by
    rw [MatchState.advanceSell_eq]
    show (_, (advance st.trade.sellOrder st.sellOrderIt st.sellIndex).2) = _
    simp only [show advance st.trade.sellOrder st.trade.sellOrderIt st.trade.sellIndex
      = (sell, b₂) from hs, hs]
    rfl
  unfold MatchState.turn
  rw [if_neg hp]
  simp only [e1, e2]

/-- The log does not depend on where the iterators stand. -/
theorem Logged.of_frame (h : Logged bids asks st) (ht : st'.trades = st.trades)
    (hc : st'.tradeCount = st.tradeCount) : Logged bids asks st' := by
  have hv : st'.volume = st.volume := by
    unfold MatchState.volume
    rw [ht]
  obtain ⟨⟨hb1, hb2⟩, ⟨hs1, hs2⟩, hp, hn, hpos, hturn, hlt⟩ := h
  refine ⟨⟨?_, ?_⟩, ⟨?_, ?_⟩, ?_, ?_, ?_, ?_, ?_⟩ <;> simpa only [ht, hc, hv]

/-- **One turn.**  From a state of the walk a turn leads to another, or leaves the
loop when no price could trade more. -/
theorem Walking.turn (hB : Queue (fun a b => b < a) bids)
    (hA : Queue (fun a b => a < b) asks) (h : Walking bids asks st) :
    (∀ st', st.turn = .again st' → Walking bids asks st') ∧
      ∀ st', st.turn = .done st' → Walked bids asks st' := by
  by_cases hp : st.buyOrder.price < st.sellOrder.price
  · -- the best orders left do not cross
    rw [show st.turn = .done st from if_pos hp]
    refine ⟨fun st' hst' => by simp at hst', fun st' hst' => ?_⟩
    obtain rfl : st = st' := by simpa using hst'
    refine ⟨h.logged, Or.inl ⟨h.buy, h.buy_pos⟩, Or.inl ⟨h.sell, h.sell_pos⟩,
      h.executable_le hB hA hp, ?_⟩
    have h1 := h.length_le
    have h2 := h.buy.lt_length
    have h3 := h.sell.lt_length
    omega
  · have hlog := h.logged_trade hB hA hp
    have hbuy : AtOrder bids st.trade.buyOrder st.buyOrderIt st.buyIndex st.trade.volume := by
      rw [st.volume_trade]
      exact h.buy.take (min_le_left _ _)
    have hsell : AtOrder asks st.trade.sellOrder st.sellOrderIt st.sellIndex st.trade.volume := by
      rw [st.volume_trade]
      exact h.sell.take (min_le_right _ _)
    rcases hb : advance st.trade.buyOrder st.buyOrderIt st.buyIndex with ⟨buy, b₁⟩
    rcases hs : advance st.trade.sellOrder st.sellOrderIt st.sellIndex with ⟨sell, b₂⟩
    obtain ⟨hbuy', hbi⟩ := hbuy.advance hB.quantity_pos hb
    obtain ⟨hsell', hsi⟩ := hsell.advance hA.quantity_pos hs
    rw [MatchState.turn_eq hp hb hs]
    have hmove : st.trades.length + 1 ≤ buy.2.2 + sell.2.2 := by
      have h1 := h.length_le
      rw [hbi, hsi]
      rcases st.trade_exhausts with hz | hz <;> rw [if_pos hz] <;> omega
    have hlen : (st.trade.moveTo buy sell).trades.length = st.trades.length + 1 := by
      show st.trade.trades.length = _
      rw [st.trade_trades, List.length_append, List.length_singleton]
    have hlog' : Logged bids asks (st.trade.moveTo buy sell) := hlog.of_frame rfl rfl
    refine ⟨fun st' hst' => ?_, fun st' hst' => ?_⟩
    · -- neither side is consumed
      obtain ⟨rfl, rfl, rfl⟩ : b₁ = false ∧ b₂ = false ∧ st.trade.moveTo buy sell = st' := by
        split_ifs at hst' with hf
        simp only [Bool.or_eq_true, not_or, Bool.not_eq_true] at hf
        exact ⟨hf.1, hf.2, by simpa using hst'⟩
      refine ⟨hlog', hbuy'.1, hbuy'.2, hsell'.1, hsell'.2, hlen ▸ hmove, ?_⟩
      intro t ht
      rw [show (st.trade.moveTo buy sell).trades = st.trade.trades from rfl, st.trade_trades] at ht
      have hle : st.buyIndex ≤ buy.2.2 ∧ st.sellIndex ≤ sell.2.2 := by omega
      rcases List.mem_append.mp ht with ht | ht
      · have := h.index_le t ht
        exact ⟨le_trans this.1 hle.1, le_trans this.2 hle.2⟩
      · rw [List.mem_singleton.mp ht]
        exact hle
    · -- at least one side is consumed
      obtain ⟨hf, rfl⟩ : (b₁ = true ∨ b₂ = true) ∧ st.trade.moveTo buy sell = st' := by
        split_ifs at hst' with hf
        exact ⟨by simpa using hf, by simpa using hst'⟩
      refine ⟨hlog', ?_, ?_, ?_, ?_⟩
      · cases b₁
        · exact Or.inl hbuy'
        · exact Or.inr hbuy'
      · cases b₂
        · exact Or.inl hsell'
        · exact Or.inr hsell'
      · rcases hf with rfl | rfl
        · exact executable_le_of_bids_atEnd hbuy'
        · exact executable_le_of_asks_atEnd hsell'
      · have h1 := h.length_le
        have h2 := h.buy.lt_length
        have h3 := h.sell.lt_length
        rw [hlen]
        omega

end Turn

/-! ## The whole loop -/

/-- **The loop rule.**  What every turn that goes on keeps, and every turn that
leaves turns into `Q`, makes the loop end in `Q`. -/
theorem MatchState.matchLoop_rule {P Q : MatchState → Prop}
    (hagain : ∀ st st', P st → st.turn = .again st' → P st')
    (hdone : ∀ st st', P st → st.turn = .done st' → Q st') {st : MatchState} (h : P st) :
    Q st.matchLoop := by
  induction st using MatchState.matchLoop.induct with
  | case1 st st' hturn =>
      rw [MatchState.matchLoop]
      split
      · rename_i st'' heq
        exact hdone _ _ h heq
      · rename_i st'' heq
        rw [hturn] at heq
        exact absurd heq (by simp)
  | case2 st st' hturn ih =>
      rw [MatchState.matchLoop]
      split
      · rename_i st'' heq
        rw [hturn] at heq
        exact absurd heq (by simp)
      · rename_i st'' heq
        rw [hturn] at heq
        obtain rfl : st' = st'' := by simpa using heq
        exact ih (hagain _ _ h hturn)

/-- The first order of a side, nothing matched yet. -/
theorem atOrder_begin {c : ConfigurableComparator} {m : OrderBookMap c} {o : Order}
    (ho : (OrderIterator.begin m).deref? = some o) :
    AtOrder m.entries o (OrderIterator.begin m) 0 0 :=
  AtOrder.of_arrive (within_begin m) (by rw [remaining_begin, List.drop_zero]) ho
    (cum_zero _).symm

/-- **The run.**  On two queues the loop ends, and ends when no price could trade
more. -/
theorem OrderBook.walked {book : OrderBook} {st : MatchState}
    (hB : Queue (fun a b => b < a) book.bidPriceMaps.entries)
    (hA : Queue (fun a b => a < b) book.askPriceMaps.entries) (hst : book.matchOrders = .ok st) :
    Walked book.bidPriceMaps.entries book.askPriceMaps.entries st := by
  unfold OrderBook.matchOrders at hst
  cases hb : (OrderIterator.begin book.bidPriceMaps).deref? with
  | none => simp [hb] at hst
  | some buyOrder =>
      cases ha : (OrderIterator.begin book.askPriceMaps).deref? with
      | none => simp [hb, ha] at hst
      | some sellOrder =>
          simp only [hb, ha, Except.ok.injEq] at hst
          subst hst
          have hbuy := atOrder_begin hb
          have hsell := atOrder_begin ha
          have hmem : ∀ {c : ConfigurableComparator} {m : OrderBookMap c} {o : Order},
              (OrderIterator.begin m).deref? = some o → o ∈ ordersOf m.entries := by
            intro c m o ho
            rw [deref?_eq_head?, remaining_begin] at ho
            exact List.mem_of_mem_head? ho
          apply MatchState.matchLoop_rule
            (P := Walking book.bidPriceMaps.entries book.askPriceMaps.entries)
            (fun st st' h => (h.turn hB hA).1 st') (fun st st' h => (h.turn hB hA).2 st')
          refine ⟨⟨⟨?_, ?_⟩, ⟨?_, ?_⟩, ⟨0, Nat.zero_le _⟩, ?_, ?_, List.Pairwise.nil, ?_⟩,
            hbuy, hB.quantity_pos _ (hmem hb), hsell, hA.quantity_pos _ (hmem ha), le_rfl, ?_⟩
          · exact fun i => (overlap_zero _ _).symm
          · exact fun p => (overlap_zero _ _).symm
          · exact fun i => (overlap_zero _ _).symm
          · exact fun p => (overlap_zero _ _).symm
          · show (0 : ℤ) = toI64 ((0 : ℕ) : ℤ)
            decide
          · exact fun t ht => absurd ht List.not_mem_nil
          · exact fun t ht => absurd ht List.not_mem_nil
          · exact fun t ht => absurd ht List.not_mem_nil

/-! ## Who is filled when the loop is left -/

/-- The orders of a queue are filled from the front, with at most one of them in
part. -/
def ConsumedInOrder (queue : List Order) (fill : ℕ → ℕ) : Prop :=
  ∃ k, ∀ i o, queue[i]? = some o →
    (i < k → fill i = o.quantity) ∧ (i = k → fill i ≤ o.quantity) ∧ (k < i → fill i = 0)

section Fill

variable {levels : List (ℕ × PriceLevel)} {i : ℕ} {o : Order}

/-- The interval of an order is as long as its quantity. -/
theorem cum_queueLots_of_getElem? (hi : (ordersOf levels)[i]? = some o) :
    cum (queueLots levels) (i + 1) = cum (queueLots levels) i + o.quantity := by
  obtain ⟨hlt, heq⟩ := List.getElem?_eq_some_iff.mp hi
  rw [cum_queueLots_succ hlt, heq]

theorem queueLots_getElem_of_getElem? (hi : (ordersOf levels)[i]? = some o) :
    ∃ hk : i < (queueLots levels).length, (queueLots levels)[i].1 = o.price := by
  obtain ⟨hlt, heq⟩ := List.getElem?_eq_some_iff.mp hi
  refine ⟨by rw [length_queueLots]; exact hlt, ?_⟩
  simp only [orderLots, List.getElem_map, heq]

variable {lt : ℤ → ℤ → Prop} [DecidableRel lt] {index : Trade → ℕ} {price : Trade → ℤ}
  {st : MatchState} {q : ℤ}

/-- Orders are consumed in queue order. -/
theorem FilledFrom.consumed (h : FilledFrom lt levels index price st)
    {side : Order × OrderIterator × ℕ} (hs : Standing levels side st.volume) :
    ConsumedInOrder (ordersOf levels) (filled index st.trades) := by
  rcases hs with ⟨hat, hpos⟩ | hend
  · have hle := hat.cum_le
    have hadd := hat.add_quantity
    refine ⟨side.2.2, fun i o hi => ?_⟩
    have hc := cum_queueLots_of_getElem? hi
    refine ⟨fun hlt => ?_, fun heq => ?_, fun hgt => ?_⟩
    · have := cum_mono (queueLots levels) (show i + 1 ≤ side.2.2 by omega)
      rw [h.by_index, overlap_of_le (by omega) (by omega)]
      omega
    · rw [h.by_index, overlap]
      omega
    · have := cum_mono (queueLots levels) (show side.2.2 + 1 ≤ i by omega)
      rw [h.by_index, overlap_of_ge (by omega)]
  · refine ⟨(ordersOf levels).length, fun i o hi => ?_⟩
    have hc := cum_queueLots_of_getElem? hi
    obtain ⟨hlt, -⟩ := List.getElem?_eq_some_iff.mp hi
    have hle := cum_le_sum (queueLots levels) (i + 1)
    rw [sum_orderLots, ← hend.total_eq] at hle
    refine ⟨fun _ => ?_, fun heq => by omega, fun hgt => by omega⟩
    rw [h.by_index, overlap_of_le (by omega) (by omega)]
    omega

variable [IsStrictTotalOrder ℤ lt]

/-- An order priced better than a price everything better than which is matched
is filled. -/
theorem FilledFrom.fill_better (hq : Queue lt levels) (h : FilledFrom lt levels index price st)
    (hM : ahead lt (queueLots levels) q ≤ st.volume) (hi : (ordersOf levels)[i]? = some o)
    (hlt : lt o.price q) : filled index st.trades i = o.quantity := by
  obtain ⟨hk, hp⟩ := queueLots_getElem_of_getElem? hi
  have hc := cum_queueLots_of_getElem? hi
  have hle : cum (queueLots levels) (i + 1) ≤ ahead lt (queueLots levels) q :=
    cum_succ_le_ahead hq.prioritised hk (by rw [hp]; exact hlt)
  rw [h.by_index, overlap_of_le (by omega) (by omega)]
  omega

/-- An order priced worse than a price up to which nothing is left receives
nothing. -/
theorem FilledFrom.fill_worse (hq : Queue lt levels) (h : FilledFrom lt levels index price st)
    (hM : st.volume ≤ upTo lt (queueLots levels) q) (hi : (ordersOf levels)[i]? = some o)
    (hlt : lt q o.price) : filled index st.trades i = 0 := by
  obtain ⟨hk, hp⟩ := queueLots_getElem_of_getElem? hi
  have hle : upTo lt (queueLots levels) q ≤ cum (queueLots levels) i :=
    upTo_le_cum hq.prioritised hk (by rw [hp]; exact hlt)
  rw [h.by_index, overlap_of_ge (by omega)]

end Fill

end Obr
