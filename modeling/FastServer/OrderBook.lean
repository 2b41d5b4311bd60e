/-
# The order book and its call auction

`OrderBook` of `full_order.cpp`: `insertOrder` and `flushStatus`, which picks the
auction price from cumulative quantities, matches order by order and publishes
a five-level ladder.  The scans of `flushStatus` index the live maps with
`operator[]`, so the maps are part of what it returns.
-/
import FastServer.OrderBookMap

namespace Obr

/-! ## The candidate price -/

/-- `struct OptimPriceInfo`. -/
structure OptimPriceInfo where
  dealPrice : ℤ
  expectedDealQuantity : ℤ
  buyAboveQuantity : ℤ
  askBelowQuantity : ℤ
  buyDealPriceLeftQuantity : ℤ
  askDealPriceRightQuantity : ℤ
  deriving DecidableEq, Repr

/-- `std::abs(buyAboveQuantity - askBelowQuantity)`. -/
def OptimPriceInfo.quantityDiff (info : OptimPriceInfo) : ℕ :=
  (toI64 (info.buyAboveQuantity - info.askBelowQuantity)).natAbs

/-- `OptimPriceInfo::operator>`. -/
def OptimPriceInfo.gt (info other : OptimPriceInfo) : Prop :=
  info.expectedDealQuantity > other.expectedDealQuantity ∨
    (info.expectedDealQuantity = other.expectedDealQuantity ∧
      info.quantityDiff < other.quantityDiff)

instance (info other : OptimPriceInfo) : Decidable (info.gt other) :=
  inferInstanceAs (Decidable (_ ∨ _))

/-- The `ok` flag of both scans. -/
def priceOk (currBuy buyAboveQuantity currSell askBelowQuantity : ℤ) : Bool :=
  if toI64 (buyAboveQuantity + currBuy) > toI64 (askBelowQuantity + currSell) then
    !decide (buyAboveQuantity > toI64 (askBelowQuantity + currSell))
  else if toI64 (buyAboveQuantity + currBuy) < toI64 (askBelowQuantity + currSell) then
    !decide (askBelowQuantity > toI64 (buyAboveQuantity + currBuy))
  else true

/-- The part of the loop body both scans share: build the candidate `current`
and keep it if it beats the best so far. -/
def considerPrice (curPrice currBuy buyAboveQuantity currSell askBelowQuantity : ℤ)
    (optimPriceInfo : OptimPriceInfo) : OptimPriceInfo :=
  if priceOk currBuy buyAboveQuantity currSell askBelowQuantity then
    let expectedDealQuantity :=
      min (toI64 (buyAboveQuantity + currBuy)) (toI64 (askBelowQuantity + currSell))
    let current : OptimPriceInfo :=
      { dealPrice := curPrice
        expectedDealQuantity := expectedDealQuantity
        buyAboveQuantity := buyAboveQuantity
        askBelowQuantity := askBelowQuantity
        buyDealPriceLeftQuantity := toI64 (currBuy + buyAboveQuantity - expectedDealQuantity)
        askDealPriceRightQuantity := toI64 (currSell + askBelowQuantity - expectedDealQuantity) }
    if current.gt optimPriceInfo then current else optimPriceInfo
  else optimPriceInfo

/-! ## The book -/

/-- `class OrderBook`. -/
structure OrderBook where
  askPriceMaps : OrderBookMap ascending
  bidPriceMaps : OrderBookMap descending

/-- The book before any order. -/
def OrderBook.empty : OrderBook := ⟨SortedMap.empty, SortedMap.empty⟩

/-- `struct OrderBookStatus`, value-initialised to zeros. -/
structure OrderBookStatus where
  nts : ℕ := 0
  cvl : ℤ := 0
  cto : ℤ := 0
  lpr : ℤ := 0
  bp : Fin 5 → ℤ := fun _ => 0
  ap : Fin 5 → ℤ := fun _ => 0
  bs : Fin 5 → ℤ := fun _ => 0
  as : Fin 5 → ℤ := fun _ => 0

/-- Where a run of `flushStatus` stops short: one of the two assertions fails,
or the end iterator is dereferenced. -/
inductive Abort
  | assertAskIt
  | assertBidIt
  | derefEnd
  deriving DecidableEq, Repr

/-- `bidPriceMaps[curPrice]`, which creates a missing level. -/
def OrderBook.bidLevel (book : OrderBook) (curPrice : ℤ) : OrderBook × PriceLevel :=
  ({ book with bidPriceMaps := book.bidPriceMaps.upsert (toU64 curPrice) {} id },
    (book.bidPriceMaps.get? (toU64 curPrice)).getD {})

/-- `askPriceMaps[curPrice]`, which creates a missing level. -/
def OrderBook.askLevel (book : OrderBook) (curPrice : ℤ) : OrderBook × PriceLevel :=
  ({ book with askPriceMaps := book.askPriceMaps.upsert (toU64 curPrice) {} id },
    (book.askPriceMaps.get? (toU64 curPrice)).getD {})

/-! ## Prefix sums -/

/-- One turn of the loops that fill the prefix-sum maps: the key gets the total
so far, the total grows by the level. -/
def prefixSumStep (lt : ℕ → ℕ → Prop) [DecidableRel lt] [IsTrans ℕ lt]
    (acc : SortedMap lt ℕ × ℕ) (e : ℕ × PriceLevel) : SortedMap lt ℕ × ℕ :=
  (acc.1.upsert e.1 0 (fun _ => acc.2), toU64 (acc.2 + e.2.quantity))

/-- A prefix-sum map over the given levels, closed by a sentinel key that holds
the total. -/
def prefixSum (lt : ℕ → ℕ → Prop) [DecidableRel lt] [IsTrans ℕ lt] (sentinel : ℕ)
    (levels : List (ℕ × PriceLevel)) : SortedMap lt ℕ :=
  let acc := levels.foldl (prefixSumStep lt) (SortedMap.empty, 0)
  acc.1.upsert sentinel 0 (fun _ => acc.2)

/-- `bidPrefixSum`, with `bidPrefixSum[0] = totalBidQuantity`. -/
def OrderBook.bidPrefixSum (book : OrderBook) : SortedMap (fun a b : ℕ => a > b) ℕ :=
  prefixSum (fun a b => a > b) 0 book.bidPriceMaps.entries

/-- `askPrefixSum`, with `askPrefixSum[INT64_MAX] = totalAskQuantity`. -/
def OrderBook.askPrefixSum (book : OrderBook) : SortedMap (fun a b : ℕ => a < b) ℕ :=
  prefixSum (fun a b => a < b) (toU64 int64Max) book.askPriceMaps.entries

/-! ## The two scans -/

/-- The bid scan: from the best bid down to `minBidPrice`.  The list is what is
left of `bidPrefixSum` from `bidIt` on. -/
def bidScan (askPrefixSum : SortedMap (fun a b : ℕ => a < b) ℕ) (minBidPrice : ℤ) :
    List (ℕ × ℕ) → OrderBook → OptimPriceInfo → Except Abort (OrderBook × OptimPriceInfo)
  | [], book, optimPriceInfo => .ok (book, optimPriceInfo)
  | bidIt :: rest, book, optimPriceInfo =>
      if bidIt.1 < toU64 minBidPrice then .ok (book, optimPriceInfo)
      else
        let curPrice := toI64 bidIt.1
        let (book, bidLevel) := book.bidLevel curPrice
        let currBuy := toI64 bidLevel.quantity
        let buyAboveQuantity := toI64 bidIt.2
        match askPrefixSum.lowerBound (toU64 curPrice) with
        | none => .error .assertAskIt
        | some askIt =>
            -- the level is indexed only if `lower_bound` hit its very key
            let (book, currSell) :=
              if askIt.1 = toU64 curPrice then
                let (book, askLevel) := book.askLevel curPrice
                (book, toI64 askLevel.quantity)
              else (book, 0)
            let askBelowQuantity := toI64 askIt.2
            bidScan askPrefixSum minBidPrice rest book
              (considerPrice curPrice currBuy buyAboveQuantity currSell askBelowQuantity
                optimPriceInfo)

/-- The ask scan: from the best ask up to `maxAskPrice`. -/
def askScan (bidPrefixSum : SortedMap (fun a b : ℕ => a > b) ℕ) (maxAskPrice : ℤ) :
    List (ℕ × ℕ) → OrderBook → OptimPriceInfo → Except Abort (OrderBook × OptimPriceInfo)
  | [], book, optimPriceInfo => .ok (book, optimPriceInfo)
  | askIt :: rest, book, optimPriceInfo =>
      if askIt.1 > toU64 maxAskPrice then .ok (book, optimPriceInfo)
      else
        let curPrice := toI64 askIt.1
        let (book, askLevel) := book.askLevel curPrice
        let currSell := toI64 askLevel.quantity
        let askBelowQuantity := toI64 askIt.2
        match bidPrefixSum.lowerBound (toU64 curPrice) with
        | none => .error .assertBidIt
        | some bidIt =>
            let (book, currBuy) :=
              if bidIt.1 = toU64 curPrice then
                let (book, bidLevel) := book.bidLevel curPrice
                (book, toI64 bidLevel.quantity)
              else (book, 0)
            let buyAboveQuantity := toI64 bidIt.2
            askScan bidPrefixSum maxAskPrice rest book
              (considerPrice curPrice currBuy buyAboveQuantity currSell askBelowQuantity
                optimPriceInfo)

/-! ## The matching loop -/

/-- One trade of the matching loop.  The code only counts trades; which orders
met, and at what volume, is recorded for the theorems: an order is named by its
position in iteration order. -/
structure Trade where
  buyIndex : ℕ
  sellIndex : ℕ
  buyPrice : ℤ
  sellPrice : ℤ
  tradeVolume : ℕ
  deriving DecidableEq, Repr

/-- The local variables of the matching loop, with the trades so far and the
positions of the two iterators. -/
structure MatchState where
  buyOrder : Order
  sellOrder : Order
  buyOrderIt : OrderIterator
  sellOrderIt : OrderIterator
  tradeCount : ℤ := 0
  trades : List Trade := []
  buyIndex : ℕ := 0
  sellIndex : ℕ := 0

/-- How a turn of `while (1)` ends. -/
inductive Turn
  | done (st : MatchState)
  | again (st : MatchState)

namespace MatchState

/-- `tradeVolume`. -/
def tradeVolume (st : MatchState) : ℕ := min st.buyOrder.quantity st.sellOrder.quantity

/-- Take `tradeVolume` off both orders and count the trade. -/
def trade (st : MatchState) : MatchState :=
  { st with
    buyOrder := { st.buyOrder with quantity := st.buyOrder.quantity - st.tradeVolume }
    sellOrder := { st.sellOrder with quantity := st.sellOrder.quantity - st.tradeVolume }
    tradeCount := toI64 (st.tradeCount + 1)
    trades := st.trades ++
      [⟨st.buyIndex, st.sellIndex, st.buyOrder.price, st.sellOrder.price, st.tradeVolume⟩] }

/-- `if (buyOrder.quantity == 0) { ++buyOrderIt; ... }`; the flag is
`finished`. -/
def advanceBuy (st : MatchState) : MatchState × Bool :=
  if st.buyOrder.quantity = 0 then
    let st := { st with buyOrderIt := st.buyOrderIt.next, buyIndex := st.buyIndex + 1 }
    match st.buyOrderIt.deref? with
    | none => (st, true)
    | some o => ({ st with buyOrder := o }, false)
  else (st, false)

/-- `if (sellOrder.quantity == 0) { ++sellOrderIt; ... }`. -/
def advanceSell (st : MatchState) : MatchState × Bool :=
  if st.sellOrder.quantity = 0 then
    let st := { st with sellOrderIt := st.sellOrderIt.next, sellIndex := st.sellIndex + 1 }
    match st.sellOrderIt.deref? with
    | none => (st, true)
    | some o => ({ st with sellOrder := o }, false)
  else (st, false)

/-- One turn of the matching loop. -/
def turn (st : MatchState) : Turn :=
  if st.buyOrder.price < st.sellOrder.price then .done st
  else
    let (st, buyFinished) := st.trade.advanceBuy
    let (st, sellFinished) := st.advanceSell
    if buyFinished || sellFinished then .done st else .again st

/-- Orders ahead of the two iterators. -/
def ordersLeft (st : MatchState) : ℕ :=
  st.buyOrderIt.remaining.length + st.sellOrderIt.remaining.length

/-- A turn that moves the bid iterator on and finds an order has one order less
ahead of it; otherwise the iterator is where it was. -/
theorem advanceBuy_remaining_le {st st' : MatchState} (h : st.advanceBuy = (st', false)) :
    st'.buyOrderIt.remaining.length + (if st.buyOrder.quantity = 0 then 1 else 0)
        ≤ st.buyOrderIt.remaining.length ∧
      st'.sellOrderIt = st.sellOrderIt ∧ st'.sellOrder = st.sellOrder := by
  unfold advanceBuy at h
  by_cases hq : st.buyOrder.quantity = 0
  · simp only [if_pos hq] at h ⊢
    cases hd : st.buyOrderIt.next.deref? with
    | none => simp [hd] at h
    | some o =>
        simp only [hd, Prod.mk.injEq, and_true] at h
        subst h
        rw [OrderIterator.deref?_eq_head?, OrderIterator.remaining_next] at hd
        have hpos : st.buyOrderIt.remaining ≠ [] := by
          intro hnil
          simp [hnil] at hd
        have hlen : 0 < st.buyOrderIt.remaining.length := List.length_pos_iff.mpr hpos
        refine ⟨?_, rfl, rfl⟩
        simp only [OrderIterator.remaining_next, List.length_tail]
        omega
  · simp only [if_neg hq, Prod.mk.injEq, and_true] at h
    subst h
    simp [hq]

/-- The same for the ask iterator. -/
theorem advanceSell_remaining_le {st st' : MatchState} (h : st.advanceSell = (st', false)) :
    st'.sellOrderIt.remaining.length + (if st.sellOrder.quantity = 0 then 1 else 0)
        ≤ st.sellOrderIt.remaining.length ∧ st'.buyOrderIt = st.buyOrderIt := by
  unfold advanceSell at h
  by_cases hq : st.sellOrder.quantity = 0
  · simp only [if_pos hq] at h ⊢
    cases hd : st.sellOrderIt.next.deref? with
    | none => simp [hd] at h
    | some o =>
        simp only [hd, Prod.mk.injEq, and_true] at h
        subst h
        rw [OrderIterator.deref?_eq_head?, OrderIterator.remaining_next] at hd
        have hpos : st.sellOrderIt.remaining ≠ [] := by
          intro hnil
          simp [hnil] at hd
        have hlen : 0 < st.sellOrderIt.remaining.length := List.length_pos_iff.mpr hpos
        refine ⟨?_, rfl⟩
        simp only [OrderIterator.remaining_next, List.length_tail]
        omega
  · simp only [if_neg hq, Prod.mk.injEq, and_true] at h
    subst h
    simp [hq]

/-- A trade exhausts at least one of the two orders. -/
theorem trade_exhausts (st : MatchState) :
    st.trade.buyOrder.quantity = 0 ∨ st.trade.sellOrder.quantity = 0 := by
  simp only [trade, tradeVolume]
  omega

/-- **The loop makes progress.**  Every turn that goes on leaves fewer orders
ahead of the iterators. -/
theorem ordersLeft_lt_of_turn {st st' : MatchState} (h : st.turn = .again st') :
    st'.ordersLeft < st.ordersLeft := by
  unfold turn at h
  split_ifs at h with hp
  rcases hb : st.trade.advanceBuy with ⟨st₁, b₁⟩
  rcases hs : st₁.advanceSell with ⟨st₂, b₂⟩
  simp only [hb, hs] at h
  split_ifs at h with hf
  simp only [Bool.or_eq_true, not_or, Bool.not_eq_true] at hf
  obtain ⟨rfl, rfl⟩ := hf
  injection h with h
  subst h
  obtain ⟨hbuy, hit, hord⟩ := advanceBuy_remaining_le hb
  obtain ⟨hsell, hit'⟩ := advanceSell_remaining_le hs
  have hz := trade_exhausts st
  have e1 : st.trade.buyOrderIt = st.buyOrderIt := rfl
  have e2 : st.trade.sellOrderIt = st.sellOrderIt := rfl
  rw [hit, e2, hord] at hsell
  rw [e1] at hbuy
  unfold ordersLeft
  rw [hit']
  split_ifs at hbuy hsell with h1 h2 <;> omega

/-- `while (1)`: turns until one breaks out. -/
def matchLoop (st : MatchState) : MatchState :=
  match _h : st.turn with
  | .done st' => st'
  | .again st' => matchLoop st'
termination_by st.ordersLeft
decreasing_by exact ordersLeft_lt_of_turn _h

end MatchState

/-- The matching part of `flushStatus`: both iterators start at their first
order, which must exist. -/
def OrderBook.matchOrders (book : OrderBook) : Except Abort MatchState :=
  let buyOrderIt := OrderIterator.begin book.bidPriceMaps
  let sellOrderIt := OrderIterator.begin book.askPriceMaps
  match buyOrderIt.deref?, sellOrderIt.deref? with
  | some buyOrder, some sellOrder =>
      .ok (MatchState.matchLoop
        { buyOrder := buyOrder
          sellOrder := sellOrder
          buyOrderIt := buyOrderIt
          sellOrderIt := sellOrderIt })
  | _, _ => .error .derefEnd

/-! ## The ladder -/

/-- The loop that writes `bp` and `bs` from index `count - 1` down. -/
def writeBids (optimPriceInfo : OptimPriceInfo) :
    ℕ → List (ℕ × PriceLevel) → OrderBookStatus → OrderBookStatus
  | 0, _, status => status
  | _, [], status => status
  | count + 1, bidIter :: rest, status =>
      let bs :=
        if bidIter.1 = toU64 optimPriceInfo.dealPrice then
          toI32 optimPriceInfo.buyDealPriceLeftQuantity
        else toI32 bidIter.2.quantity
      writeBids optimPriceInfo count rest
        { status with
          bp := Function.update status.bp (Fin.ofNat 5 count) (toI32 bidIter.1)
          bs := Function.update status.bs (Fin.ofNat 5 count) bs }

/-- The loop that writes `ap` and `as` from index `count` up. -/
def writeAsks (optimPriceInfo : OptimPriceInfo) :
    ℕ → List (ℕ × PriceLevel) → OrderBookStatus → OrderBookStatus
  | _, [], status => status
  | count, askIter :: rest, status =>
      if count < 5 then
        let as :=
          if askIter.1 = toU64 optimPriceInfo.dealPrice then
            toI32 optimPriceInfo.askDealPriceRightQuantity
          else toI32 askIter.2.quantity
        writeAsks optimPriceInfo (count + 1) rest
          { status with
            ap := Function.update status.ap (Fin.ofNat 5 count) (toI32 askIter.1)
            as := Function.update status.as (Fin.ofNat 5 count) as }
      else status

/-- What `flushStatus` stores into `status` once the price is chosen and the
loop is over. -/
def publish (optimPriceInfo : OptimPriceInfo) (st : MatchState) : OrderBookStatus :=
  let lpr := optimPriceInfo.dealPrice
  let cvl := optimPriceInfo.expectedDealQuantity
  let status : OrderBookStatus :=
    { lpr := lpr
      cvl := cvl
      cto := (toI64 (cvl * optimPriceInfo.dealPrice)).tdiv 10000
      nts := toU64 st.tradeCount }
  let status := writeBids optimPriceInfo 5 st.buyOrderIt.getMapIter status
  writeAsks optimPriceInfo 0 st.sellOrderIt.getMapIter status

/-! ## flushStatus and insertOrder -/

/-- `flushStatus`.  `uninit` is what the uninitialised local `optimPriceInfo`
happens to hold. -/
def OrderBook.flushStatus (uninit : OptimPriceInfo) (book : OrderBook) :
    Except Abort (OrderBook × OrderBookStatus) :=
  match book.bidPriceMaps.entries.head?, book.askPriceMaps.entries.head? with
  | some bestBid, some bestAsk =>
      if bestBid.1 < bestAsk.1 then .ok (book, {})
      else do
        let bidPrefixSum := book.bidPrefixSum
        let askPrefixSum := book.askPrefixSum
        let optimPriceInfo := { uninit with expectedDealQuantity := -1 }
        let minBidPrice := toI64 ((askPrefixSum.entries.head?.map Prod.fst).getD 0)
        let (book, optimPriceInfo) ←
          bidScan askPrefixSum minBidPrice bidPrefixSum.entries book optimPriceInfo
        let maxAskPrice := toI64 ((bidPrefixSum.entries.head?.map Prod.fst).getD 0)
        let (book, optimPriceInfo) ←
          askScan bidPrefixSum maxAskPrice askPrefixSum.entries book optimPriceInfo
        let st ← book.matchOrders
        return (book, publish optimPriceInfo st)
  | _, _ => .ok (book, {})

/-- `level.quantity += order.quantity; level.orders.push_back(order)`. -/
def PriceLevel.push (level : PriceLevel) (order : Order) : PriceLevel :=
  { quantity := toU64 (level.quantity + order.quantity)
    orders := level.orders ++ [order] }

/-- The part of `insertOrder` before the status is flushed. -/
def OrderBook.place (book : OrderBook) (order : Order) : OrderBook :=
  if order.side = 1 then
    { book with
      bidPriceMaps := book.bidPriceMaps.upsert (toU64 order.price) {} (·.push order) }
  else if order.side = 2 then
    { book with
      askPriceMaps := book.askPriceMaps.upsert (toU64 order.price) {} (·.push order) }
  else book

/-- `insertOrder`; the status it prints is dropped. -/
def OrderBook.insertOrder (uninit : OptimPriceInfo) (book : OrderBook) (order : Order) :
    Except Abort OrderBook := do
  let (book, _) ← (book.place order).flushStatus uninit
  return book

/-- A sequence of `insertOrder` calls on an empty book.  Each call comes with
what its uninitialised local holds. -/
def OrderBook.insertOrders (calls : List (OptimPriceInfo × Order)) : Except Abort OrderBook :=
  calls.foldlM (fun book call => book.insertOrder call.1 call.2) OrderBook.empty

end Obr
