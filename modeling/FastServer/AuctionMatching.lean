/-
# The loop agrees with the price

Two algorithms run in `flushStatus`: the scans, which choose a price from
cumulative quantities, and the walk, which matches order by order.  They agree:
the walk trades the published volume, fills everything better than the published
price, nothing worse, and consumes either side in price-then-insertion order.
-/
import FastServer.MatchingWalk

namespace Obr

open CallAuction PriorityFill OrderIterator

/-! ## The queues of a book -/

/-- `queue` lists the orders `os` by price, and by insertion within a price. -/
structure PriceTime (lt : ℤ → ℤ → Prop) (queue os : List Order) : Prop where
  perm : queue.Perm os
  by_price : queue.Pairwise (fun o o' => ¬ lt o'.price o.price)
  by_insertion : ∀ p, atPrice p queue = atPrice p os

theorem atPrice_eq_nil {os : List Order} {p : ℤ} (h : ∀ o ∈ os, o.price ≠ p) :
    atPrice p os = [] :=
  List.filter_eq_nil_iff.mpr (by simpa using h)

theorem atPrice_append (p : ℤ) (os os' : List Order) :
    atPrice p (os ++ os') = atPrice p os ++ atPrice p os' :=
  List.filter_append ..

theorem mem_ordersOf {levels : List (ℕ × PriceLevel)} {o : Order} :
    o ∈ ordersOf levels ↔ ∃ e ∈ levels, o ∈ e.2.orders := List.mem_flatMap

theorem ordersOf_append (es es' : List (ℕ × PriceLevel)) :
    ordersOf (es ++ es') = ordersOf es ++ ordersOf es' := List.flatMap_append

section Side

variable {c : ConfigurableComparator} {m : OrderBookMap c} {os : List Order}

/-- Two entries under one key are one entry. -/
theorem key_ne_of_split {pre post : List (ℕ × PriceLevel)} {e : ℕ × PriceLevel}
    (hs : m.entries = pre ++ e :: post) : ∀ e' ∈ pre ++ post, e'.1 ≠ e.1 := by
  have hsorted := m.sorted
  rw [hs, List.pairwise_append, List.pairwise_cons] at hsorted
  obtain ⟨-, ⟨hpost, -⟩, hpre⟩ := hsorted
  intro e' he' heq
  rcases List.mem_append.mp he' with h | h
  · exact irrefl_of c.lt e.1 (heq ▸ hpre e' h e List.mem_cons_self)
  · exact irrefl_of c.lt e.1 (heq ▸ hpost e' h)

/-- Walking the levels keeps the insertion order of the orders at one price. -/
theorem Holds.atPrice_ordersOf (h : Holds m os) (p : ℤ) :
    atPrice p (ordersOf m.entries) = atPrice p os := by
  have hnone : ∀ es, (∀ e ∈ es, e ∈ m.entries) → (∀ e ∈ es, (e.1 : ℤ) ≠ p) →
      atPrice p (ordersOf es) = [] := by
    intro es hes hne
    apply atPrice_eq_nil
    intro o ho
    obtain ⟨e, he, hoe⟩ := mem_ordersOf.mp ho
    rw [h.price_eq e (hes e he) o hoe]
    exact hne e he
  by_cases hp : ∃ e ∈ m.entries, (e.1 : ℤ) = p
  · obtain ⟨e, he, rfl⟩ := hp
    obtain ⟨pre, post, hs⟩ := List.append_of_mem he
    have hne := key_ne_of_split hs
    have hmem : ∀ e', e' ∈ pre ++ post → e' ∈ m.entries := by
      intro e' he'
      rw [hs]
      rcases List.mem_append.mp he' with h' | h'
      · exact List.mem_append_left _ h'
      · exact List.mem_append_right _ (List.mem_cons_of_mem _ h')
    rw [hs, ordersOf_append, ordersOf_cons, atPrice_append, atPrice_append,
      hnone pre (fun e' he' => hmem e' (List.mem_append_left _ he'))
        (fun e' he' => Nat.cast_injective.ne (hne e' (List.mem_append_left _ he'))),
      hnone post (fun e' he' => hmem e' (List.mem_append_right _ he'))
        (fun e' he' => Nat.cast_injective.ne (hne e' (List.mem_append_right _ he'))),
      h.orders_eq e he, List.nil_append, List.append_nil, atPrice, atPrice, List.filter_filter]
    simp only [Bool.and_self]
  · push Not at hp
    rw [hnone m.entries (fun _ he => he) hp]
    symm
    apply atPrice_eq_nil
    intro o ho hop
    obtain ⟨e, he, hoe⟩ := mem_ordersOf.mp (h.perm.mem_iff.mpr ho)
    exact hp e he (h.price_eq e he o hoe ▸ hop)

/-- The orders of a map, level by level, stand in price priority. -/
theorem Stores.pairwise_price (h : Stores m os) {lt : ℤ → ℤ → Prop} (hirr : ∀ p, ¬ lt p p)
    (hlt : ∀ a b : ℕ, c.lt a b → ¬ lt b a) :
    (ordersOf m.entries).Pairwise (fun o o' => ¬ lt o'.price o.price) := by
  rw [ordersOf, List.pairwise_flatMap]
  constructor
  · intro e he
    apply List.pairwise_of_forall_mem_list
    intro o ho o' ho'
    rw [h.price_eq e he o ho, h.price_eq e he o' ho']
    exact hirr _
  · refine m.sorted.imp_of_mem ?_
    intro e e' he he' hee o ho o' ho'
    rw [h.price_eq e he o ho, h.price_eq e' he' o' ho']
    exact hlt _ _ hee

/-- The walk meets the orders of a side by price, and by insertion within a price. -/
theorem Holds.priceTime (h : Holds m os) {lt : ℤ → ℤ → Prop} (hirr : ∀ p, ¬ lt p p)
    (hlt : ∀ a b : ℕ, c.lt a b → ¬ lt b a) : PriceTime lt (ordersOf m.entries) os :=
  ⟨h.perm, h.toStores.pairwise_price hirr hlt, h.atPrice_ordersOf⟩

/-- The queue of a side weighs what its orders weigh. -/
theorem Stores.mass_queueLots (h : Stores m os) (s : ℤ → Prop) [DecidablePred s] :
    mass (queueLots m.entries) s = mass (orderLots os) s :=
  mass_perm (h.perm.map _) s

/-- A side of the book is a queue the walk can consume. -/
theorem Stores.queue (h : Stores m os) (hpos : ∀ o ∈ os, 0 < o.quantity) {lt : ℤ → ℤ → Prop}
    (hirr : ∀ p, ¬ lt p p) (hlt : ∀ a b : ℕ, c.lt a b → ¬ lt b a) : Queue lt m.entries where
  prioritised := by
    rw [Prioritised, queueLots, orderLots, List.pairwise_map]
    exact h.pairwise_price hirr hlt
  quantity_pos := fun o ho => hpos o (h.perm.mem_iff.mp ho)

end Side

/-! ## A crossed book after the walk -/

/-- What is settled once the walk over a crossed book is done; `q` is the auction price of the
orders. -/
structure OrderBook.Settled (book : OrderBook) (os : List Order) (q : ℤ) (st : MatchState) :
    Prop where
  keeps : book.Keeps os
  price : IsAuctionPrice (bidsOf os) (asksOf os) q
  matched : book.matchOrders = .ok st
  bid_queue : Queue (fun a b => b < a) book.bidPriceMaps.entries
  ask_queue : Queue (fun a b => a < b) book.askPriceMaps.entries
  walked : Walked book.bidPriceMaps.entries book.askPriceMaps.entries st

/-- What is settled once a book with all orders below `INT64_MAX` is published at that price. -/
structure OrderBook.Cleared (book : OrderBook) (os : List Order) (q : ℤ) (st : MatchState) : Prop
    extends book.Settled os q st where
  holds : book.HoldsOrders os
  flushed : ∀ uninit, book.flushStatus uninit
    = .ok (book, publish (candidate book.bidLots book.askLots q) st)

/-- The walk over crossing orders with positive quantities. -/
theorem OrderBook.Keeps.settled {book : OrderBook} {os : List Order} {q : ℤ} {st : MatchState}
    (h : book.Keeps os) (hpos : ∀ o ∈ os, 0 < o.quantity)
    (hq : IsAuctionPrice (bidsOf os) (asksOf os) q) (hst : book.matchOrders = .ok st) :
    book.Settled os q st := by
  have hside : ∀ side, ∀ o ∈ onSide side os, 0 < o.quantity :=
    fun side o ho => hpos o (List.mem_filter.mp ho).1
  have hB : Queue (fun a b => b < a) book.bidPriceMaps.entries :=
    h.bid.toStores.queue (hside 1) (fun p => lt_irrefl p) (fun a b hab hba => by
      rw [descending_lt] at hab
      omega)
  have hA : Queue (fun a b => a < b) book.askPriceMaps.entries :=
    h.ask_stored.queue (hside 2) (fun p => lt_irrefl p) (fun a b hab hba => by
      rw [ascending_lt] at hab
      omega)
  exact ⟨h, hq, hst, hB, hA, walked hB hA hst⟩

/-- Crossing orders with positive quantities are cleared. -/
theorem OrderBook.HoldsOrders.exists_cleared {book : OrderBook} {os : List Order}
    (h : book.HoldsOrders os) (hpos : ∀ o ∈ os, 0 < o.quantity)
    (hx : Crossed (bidsOf os) (asksOf os)) : ∃ q st, book.Cleared os q st := by
  obtain ⟨q, st, hp⟩ := h.exists_priced hx
  exact ⟨q, st, h.toKeeps.settled hpos hp.price hp.matched, h, hp.flushed⟩

section Settled

variable {book : OrderBook} {os : List Order} {q : ℤ} {st : MatchState}

/-- The queues weigh what the orders weigh. -/
theorem OrderBook.Settled.mass_bids (h : book.Settled os q st) (s : ℤ → Prop) [DecidablePred s] :
    mass (queueLots book.bidPriceMaps.entries) s = mass (bidsOf os) s :=
  h.keeps.bid.toStores.mass_queueLots s

theorem OrderBook.Settled.mass_asks (h : book.Settled os q st) (s : ℤ → Prop) [DecidablePred s] :
    mass (queueLots book.askPriceMaps.entries) s = mass (asksOf os) s :=
  h.keeps.ask_stored.mass_queueLots s

theorem OrderBook.Settled.executable_eq (h : book.Settled os q st) (p : ℤ) :
    executable (queueLots book.bidPriceMaps.entries) (queueLots book.askPriceMaps.entries) p
      = executable (bidsOf os) (asksOf os) p := by
  rw [executable, executable, demand, demand, supply, supply, h.mass_bids, h.mass_asks]

/-- **The walk trades the volume of the auction price.** -/
theorem OrderBook.Settled.volume_eq (h : book.Settled os q st) :
    st.volume = executable (bidsOf os) (asksOf os) q := by
  obtain ⟨p, hp⟩ := h.walked.logged.some_price
  apply le_antisymm
  · calc st.volume ≤ executable (bidsOf os) (asksOf os) p := by rw [← h.executable_eq]; exact hp
      _ ≤ executable (bidsOf os) (asksOf os) q := h.price.executable_le p
  · rw [← h.executable_eq]
    exact h.walked.executable_le q

/-- What the bid queue holds up to a price is the demand there. -/
theorem OrderBook.Settled.upTo_bids (h : book.Settled os q st) (p : ℤ) :
    upTo (fun a b => b < a) (queueLots book.bidPriceMaps.entries) p = demand (bidsOf os) p := by
  rw [upTo, h.mass_bids]
  exact mass_congr fun _ _ => not_lt

/-- What the ask queue holds up to a price is the supply there. -/
theorem OrderBook.Settled.upTo_asks (h : book.Settled os q st) (p : ℤ) :
    upTo (fun a b => a < b) (queueLots book.askPriceMaps.entries) p = supply (asksOf os) p := by
  rw [upTo, h.mass_asks]
  exact mass_congr fun _ _ => not_lt

/-- What stands before a price in either queue is the curve there. -/
theorem OrderBook.Settled.ahead_eq (h : book.Settled os q st) (p : ℤ) :
    ahead (fun a b => b < a) (queueLots book.bidPriceMaps.entries) p = demandAbove (bidsOf os) p ∧
      ahead (fun a b => a < b) (queueLots book.askPriceMaps.entries) p
        = supplyBelow (asksOf os) p :=
  ⟨h.mass_bids (p < ·), h.mass_asks (· < p)⟩

/-- The volume reaches into the bids at the auction price, or ends just before
or behind them. -/
theorem OrderBook.Settled.bid_bounds (h : book.Settled os q st) :
    demandAbove (bidsOf os) q ≤ st.volume ∧ st.volume ≤ demand (bidsOf os) q := by
  rw [h.volume_eq]
  exact ⟨le_min demandAbove_le_demand h.price.candidate.admissible.1, min_le_left _ _⟩

/-- The same for the asks. -/
theorem OrderBook.Settled.ask_bounds (h : book.Settled os q st) :
    supplyBelow (asksOf os) q ≤ st.volume ∧ st.volume ≤ supply (asksOf os) q := by
  rw [h.volume_eq]
  exact ⟨le_min h.price.candidate.admissible.2 supplyBelow_le_supply, min_le_right _ _⟩

/-- Crossing orders with positive quantities trade something. -/
theorem executable_pos_of_crossed (hpos : ∀ o ∈ os, 0 < o.quantity)
    (hx : Crossed (bidsOf os) (asksOf os)) : ∃ p, 0 < executable (bidsOf os) (asksOf os) p := by
  have hlot : ∀ side, ∀ x ∈ orderLots (onSide side os), 0 < x.2 := by
    intro side x hx
    obtain ⟨o, ho, rfl⟩ := List.mem_map.mp hx
    exact hpos o (List.mem_filter.mp ho).1
  obtain ⟨b, hb, a, ha, hab⟩ := hx
  refine ⟨b.1, lt_min ?_ ?_⟩
  · exact mass_pos hb (le_refl b.1) (hlot 1 b hb)
  · exact mass_pos ha hab (hlot 2 a ha)

/-- **The trade count.**  It is the number of trades: at least one, and fewer than
there are orders. -/
theorem OrderBook.Settled.nts (h : book.Settled os q st) (hpos : ∀ o ∈ os, 0 < o.quantity) :
    toU64 st.tradeCount = st.trades.length ∧ 1 ≤ st.trades.length ∧
      st.trades.length < (onSide 1 os).length + (onSide 2 os).length := by
  have hvol := h.volume_eq
  have hlen : st.trades.length ≤ st.volume := by
    have e : (st.trades.map Trade.tradeVolume).length = st.trades.length := List.length_map ..
    rw [← e]
    apply List.length_le_sum_of_one_le
    intro v hv
    obtain ⟨t, ht, rfl⟩ := List.mem_map.mp hv
    exact h.walked.logged.volume_pos t ht
  have hbound : st.volume < 2 ^ 63 := by
    rw [hvol, ← h.keeps.executable_eq]
    exact lt_of_le_of_lt (min_le_left _ _) (h.keeps.sound.curves_lt q).1.1
  refine ⟨?_, ?_, ?_⟩
  · rw [h.walked.logged.tradeCount_eq, toI64_natCast (by omega), toU64_natCast (by omega)]
  · by_contra hzero
    have hnil : st.trades = [] := List.length_eq_zero_iff.mp (by omega)
    have hv0 : st.volume = 0 := by
      unfold MatchState.volume
      rw [hnil]
      rfl
    obtain ⟨p, hp⟩ := executable_pos_of_crossed hpos h.price.candidate.spread.crossed
    have := h.price.executable_le p
    omega
  · have := h.walked.length_lt
    rw [h.keeps.bid.perm.length_eq, h.keeps.ask_stored.perm.length_eq] at this
    exact this

end Settled

/-! ## Agreement -/

/-- The trades of the walk agree with the status published: they add up to `cvl`,
fill what is priced better than `lpr` and leave what is priced worse, and take the
orders of either queue in turn; `nts` counts them. -/
structure AgreesWithPrice (os : List Order) (status : OrderBookStatus)
    (bidQueue askQueue : List Order) (trades : List Trade) : Prop where
  bid_queue : PriceTime (fun a b => b < a) bidQueue (onSide 1 os)
  ask_queue : PriceTime (fun a b => a < b) askQueue (onSide 2 os)
  trade_of : ∀ t ∈ trades,
    (∃ o, bidQueue[t.buyIndex]? = some o ∧ o.price = t.buyPrice) ∧
      ∃ o, askQueue[t.sellIndex]? = some o ∧ o.price = t.sellPrice
  in_turn : trades.Pairwise (fun t t' => t.buyIndex ≤ t'.buyIndex ∧ t.sellIndex ≤ t'.sellIndex)
  volume : ((trades.map Trade.tradeVolume).sum : ℤ) = status.cvl
  bid_above : ∀ (i : ℕ) o, bidQueue[i]? = some o → status.lpr < o.price →
    filled Trade.buyIndex trades i = o.quantity
  bid_below : ∀ (i : ℕ) o, bidQueue[i]? = some o → o.price < status.lpr →
    filled Trade.buyIndex trades i = 0
  ask_below : ∀ (i : ℕ) o, askQueue[i]? = some o → o.price < status.lpr →
    filled Trade.sellIndex trades i = o.quantity
  ask_above : ∀ (i : ℕ) o, askQueue[i]? = some o → status.lpr < o.price →
    filled Trade.sellIndex trades i = 0
  bid_consumed : ConsumedInOrder bidQueue (filled Trade.buyIndex trades)
  ask_consumed : ConsumedInOrder askQueue (filled Trade.sellIndex trades)
  nts_eq : status.nts = trades.length
  one_le_nts : 1 ≤ status.nts
  nts_le : status.nts ≤ (onSide 1 os).length + (onSide 2 os).length - 1

/-- **Two algorithms, one outcome.**  On a crossed book of orders with positive
quantities the matching loop ends, and its trades agree with the price and volume
computed before it. -/
theorem OrderBook.flushStatus_agrees (calls : List (OptimPriceInfo × Order))
    (hr : ∀ call ∈ calls, call.2.InRange) (ht : TotalsFit (calls.map Prod.snd))
    (hpos : ∀ call ∈ calls, 0 < call.2.quantity)
    (hx : Crossed (bidsOf (calls.map Prod.snd)) (asksOf (calls.map Prod.snd))) :
    ∃ book status st, OrderBook.insertOrders calls = .ok book ∧
      (∀ uninit, book.flushStatus uninit = .ok (book, status)) ∧
      book.matchOrders = .ok st ∧
      AgreesWithPrice (calls.map Prod.snd) status (ordersOf book.bidPriceMaps.entries)
        (ordersOf book.askPriceMaps.entries) st.trades := by
  have hpos' : ∀ o ∈ calls.map Prod.snd, 0 < o.quantity := by
    intro o ho
    obtain ⟨call, hcall, rfl⟩ := List.mem_map.mp ho
    exact hpos call hcall
  obtain ⟨book, hrun, hbook⟩ := OrderBook.exists_holdsOrders calls hr ht
  obtain ⟨q, st, h⟩ := hbook.exists_cleared hpos' hx
  obtain ⟨hlpr, hcvl⟩ := hbook.lpr_cvl q st
  have hnts := (publish_fields (candidate book.bidLots book.askLots q) st).2.2
  obtain ⟨hcount, hone, hlt⟩ := h.nts hpos'
  obtain ⟨hb1, hb2⟩ := h.bid_bounds
  obtain ⟨ha1, ha2⟩ := h.ask_bounds
  rw [← (h.ahead_eq q).1] at hb1
  rw [← h.upTo_bids] at hb2
  rw [← (h.ahead_eq q).2] at ha1
  rw [← h.upTo_asks] at ha2
  have hlog := h.walked.logged
  refine ⟨book, _, st, hrun, h.flushed, h.matched, ?_⟩
  constructor
  case bid_queue =>
    refine hbook.bid.priceTime (fun p => ?_) (fun a b hab => ?_)
    · exact lt_irrefl p
    · rw [descending_lt] at hab
      omega
  case ask_queue =>
    refine hbook.ask.priceTime (fun p => ?_) (fun a b hab => ?_)
    · exact lt_irrefl p
    · rw [ascending_lt] at hab
      omega
  case trade_of => exact hlog.trade_of
  case in_turn => exact hlog.in_turn
  case volume =>
    rw [hcvl, ← h.volume_eq]
    rfl
  case bid_above =>
    intro i o hi hlt
    rw [hlpr] at hlt
    exact hlog.buy_filled.fill_better h.bid_queue hb1 hi hlt
  case bid_below =>
    intro i o hi hlt
    rw [hlpr] at hlt
    exact hlog.buy_filled.fill_worse h.bid_queue hb2 hi hlt
  case ask_below =>
    intro i o hi hlt
    rw [hlpr] at hlt
    exact hlog.sell_filled.fill_better h.ask_queue ha1 hi hlt
  case ask_above =>
    intro i o hi hlt
    rw [hlpr] at hlt
    exact hlog.sell_filled.fill_worse h.ask_queue ha2 hi hlt
  case bid_consumed => exact hlog.buy_filled.consumed h.walked.buy
  case ask_consumed => exact hlog.sell_filled.consumed h.walked.sell
  case nts_eq => rw [hnts, hcount]
  case one_le_nts => rw [hnts, hcount]; exact hone
  case nts_le => rw [hnts, hcount]; omega

/-- The walk over the crossing calls agrees with their price. -/
theorem OrderBook.flushStatus_agrees_crossingCalls :
    ∃ book status st, OrderBook.insertOrders crossingCalls = .ok book ∧
      (∀ uninit, book.flushStatus uninit = .ok (book, status)) ∧
      book.matchOrders = .ok st ∧
      AgreesWithPrice (crossingCalls.map Prod.snd) status (ordersOf book.bidPriceMaps.entries)
        (ordersOf book.askPriceMaps.entries) st.trades :=
  OrderBook.flushStatus_agrees crossingCalls (by decide) (by decide) (by decide)
    crossed_crossingCalls

end Obr
