/-
# Orders that arrive

What further orders do to the price and the volume that `insertOrder` publishes: the volume
grows, by no more than what has arrived on one side; orders that meet nothing, neither on
arrival nor among themselves, change neither the price nor the volume nor the turnover; and
the price of a crossed book moves with the side that arrives, or onto its best new order.
-/
import FastServer.ArrivalOrder

namespace Obr

open CallAuction

/-- Orders that arrive are lots that arrive. -/
theorem orderLots_onSide_append (side : ℤ) (os os' : List Order) :
    orderLots (onSide side (os ++ os'))
      = orderLots (onSide side os) ++ orderLots (onSide side os') := by
  rw [onSide_append, orderLots, List.map_append]
  rfl

theorem bidsOf_append (os os' : List Order) : bidsOf (os ++ os') = bidsOf os ++ bidsOf os' :=
  orderLots_onSide_append 1 os os'

theorem asksOf_append (os os' : List Order) : asksOf (os ++ os') = asksOf os ++ asksOf os' :=
  orderLots_onSide_append 2 os os'

/-- The turnover follows from the price and the volume. -/
theorem publish_cto_eq (o : OptimPriceInfo) (st : MatchState) :
    (publish o st).cto = (toI64 ((publish o st).cvl * (publish o st).lpr)).tdiv 10000 := by
  rw [publish_cto, (publish_fields o st).1, (publish_fields o st).2.1]

/-! ## What is published for the orders -/

/-- The price, the volume and the turnover of a status, in terms of the orders. -/
structure PublishedFor (os : List Order) (status : OrderBookStatus) : Prop where
  lpr : Crossed (bidsOf os) (asksOf os) → IsAuctionPrice (bidsOf os) (asksOf os) status.lpr
  lpr_zero : ¬ Crossed (bidsOf os) (asksOf os) → status.lpr = 0
  cvl : status.cvl = executable (bidsOf os) (asksOf os) status.lpr
  executable_le : ∀ p : ℤ, (executable (bidsOf os) (asksOf os) p : ℤ) ≤ status.cvl
  cto : status.cto = (toI64 (status.cvl * status.lpr)).tdiv 10000

variable {os os' : List Order} {book : OrderBook} {status status' : OrderBookStatus}

/-- **Every flush publishes for the orders held**, crossed or not. -/
theorem OrderBook.HoldsOrders.exists_publishedFor (h : book.HoldsOrders os) :
    ∃ status, (∀ uninit, book.flushStatus uninit = .ok (book, status)) ∧
      PublishedFor os status := by
  by_cases hx : Crossed (bidsOf os) (asksOf os)
  · obtain ⟨q, st, hp⟩ := h.exists_priced hx
    obtain ⟨hlpr, hcvl⟩ := h.lpr_cvl q st
    refine ⟨_, hp.flushed, ?_⟩
    constructor
    case lpr =>
      intro _
      rw [hlpr]
      exact hp.price
    case lpr_zero => exact fun hnot => absurd hx hnot
    case cvl => rw [hcvl, hlpr]
    case executable_le =>
      intro p
      rw [hcvl]
      exact Nat.cast_le.mpr (hp.price.executable_le p)
    case cto => exact publish_cto_eq _ _
  · have hnone := executable_of_not_crossed hx
    refine ⟨{}, OrderBook.flushStatus_of_not_crossed (mt h.crossed_iff.mp hx), ?_⟩
    constructor
    case lpr => exact fun hx' => absurd hx' hx
    case lpr_zero => exact fun _ => rfl
    case cvl => rw [hnone]; rfl
    case executable_le =>
      intro p
      rw [hnone]
      exact le_refl _
    case cto => rfl

/-- The volume grows with the orders, and by no more than they bring on one side. -/
theorem PublishedFor.cvl_append (h : PublishedFor os status)
    (h' : PublishedFor (os ++ os') status') :
    status.cvl ≤ status'.cvl ∧
      status'.cvl ≤ status.cvl + max (totalOf (onSide 1 os')) (totalOf (onSide 2 os')) := by
  have hle := h'.executable_le
  have hcvl := h'.cvl
  rw [bidsOf_append, asksOf_append] at hcvl hle
  constructor
  · rw [h.cvl]
    exact le_trans (Nat.cast_le.mpr (executable_le_append _)) (hle status.lpr)
  · have hgrown := @executable_append_le ℤ _ (bidsOf os) (asksOf os) (bidsOf os') (asksOf os')
      status'.lpr
    have hbid : demand (bidsOf os') status'.lpr ≤ totalOf (onSide 1 os') := mass_orderLots_le _ _
    have hask : supply (asksOf os') status'.lpr ≤ totalOf (onSide 2 os') := mass_orderLots_le _ _
    have hold := h.executable_le status'.lpr
    omega

/-- Orders of one side only. -/
theorem orderLots_onSide_of_forall {side : ℤ} (hside : ∀ o ∈ os, o.side = side) :
    orderLots (onSide side os) = orderLots os := by
  rw [onSide, List.filter_eq_self.mpr fun o ho => decide_eq_true (hside o ho)]

theorem orderLots_onSide_eq_nil {side : ℤ} (hside : ∀ o ∈ os, o.side ≠ side) :
    orderLots (onSide side os) = [] := by
  rw [onSide, List.filter_eq_nil_iff.mpr fun o ho => by simpa using hside o ho]
  rfl

/-- Further buy orders do not lower the price, unless it falls onto the best of them. -/
theorem PublishedFor.le_or_newBid (h : PublishedFor os status)
    (h' : PublishedFor (os ++ os') status') (hx : Crossed (bidsOf os) (asksOf os))
    (hside : ∀ o ∈ os', o.side = 1) (hpos : ∀ o ∈ os', 0 < o.quantity) :
    status.lpr ≤ status'.lpr ∨
      (∃ o ∈ os', o.price = status'.lpr) ∧ ∀ o ∈ os', o.price ≤ status'.lpr := by
  have hprice := h'.lpr
  have hasks : asksOf os' = [] :=
    orderLots_onSide_eq_nil fun o ho heq => absurd ((hside o ho).symm.trans heq) (by decide)
  have hbids : bidsOf os' = orderLots os' := orderLots_onSide_of_forall hside
  rw [bidsOf_append, asksOf_append, hasks, hbids, List.append_nil] at hprice
  have hlots : ∀ x ∈ orderLots os', 0 < x.2 := by simpa [orderLots] using hpos
  simpa [orderLots] using (h.lpr hx).le_or_newBid (hprice hx.append_left) hlots

/-- Further sell orders do not raise the price, unless it rises onto the best of them. -/
theorem PublishedFor.ge_or_newAsk (h : PublishedFor os status)
    (h' : PublishedFor (os ++ os') status') (hx : Crossed (bidsOf os) (asksOf os))
    (hside : ∀ o ∈ os', o.side = 2) (hpos : ∀ o ∈ os', 0 < o.quantity) :
    status'.lpr ≤ status.lpr ∨
      (∃ o ∈ os', o.price = status'.lpr) ∧ ∀ o ∈ os', status'.lpr ≤ o.price := by
  have hprice := h'.lpr
  have hbids : bidsOf os' = [] :=
    orderLots_onSide_eq_nil fun o ho heq => absurd ((hside o ho).symm.trans heq) (by decide)
  have hasks : asksOf os' = orderLots os' := orderLots_onSide_of_forall hside
  rw [bidsOf_append, asksOf_append, hbids, hasks, List.append_nil] at hprice
  have hlots : ∀ x ∈ orderLots os', 0 < x.2 := by simpa [orderLots] using hpos
  simpa [orderLots] using (h.lpr hx).ge_or_newAsk (hprice hx.append_right) hlots

/-- Orders that meet nothing change none of the three. -/
theorem PublishedFor.of_passive (h : PublishedFor os status)
    (h' : PublishedFor (os ++ os') status')
    (hpassive : Passive (bidsOf os) (asksOf os) (bidsOf os') (asksOf os')) :
    status'.lpr = status.lpr ∧ status'.cvl = status.cvl ∧ status'.cto = status.cto := by
  obtain ⟨hprice, hzero, hcvl, -, hcto⟩ := h'
  rw [bidsOf_append, asksOf_append] at hprice hzero hcvl
  rw [hpassive.crossed_iff] at hprice hzero
  have hlpr : status'.lpr = status.lpr := by
    by_cases hx : Crossed (bidsOf os) (asksOf os)
    · exact (hprice hx).unique (hpassive.isAuctionPrice (h.lpr hx))
    · rw [hzero hx, h.lpr_zero hx]
  have hsame : status'.cvl = status.cvl := by
    rw [hcvl, h.cvl, hlpr]
    by_cases hx : Crossed (bidsOf os) (asksOf os)
    · rw [(hpassive.agreeAt (h.lpr hx).candidate.spread).volume]
    · rw [executable_of_not_crossed hx, executable_of_not_crossed (mt hpassive.crossed_iff.mp hx)]
  refine ⟨hlpr, hsame, ?_⟩
  rw [hcto, h.cto, hlpr, hsame]

/-! ## Two moments of a session -/

section Session

variable {calls more : List (OptimPriceInfo × Order)}

/-- Both statuses, before and after further calls. -/
theorem OrderBook.exists_publishedFor_append (hr : ∀ call ∈ calls ++ more, call.2.InRange)
    (ht : TotalsFit ((calls ++ more).map Prod.snd)) :
    ∃ book book' status status', OrderBook.insertOrders calls = .ok book ∧
      OrderBook.insertOrders (calls ++ more) = .ok book' ∧
      (∀ uninit, book.flushStatus uninit = .ok (book, status)) ∧
      (∀ uninit, book'.flushStatus uninit = .ok (book', status')) ∧
      PublishedFor (calls.map Prod.snd) status ∧
      PublishedFor (calls.map Prod.snd ++ more.map Prod.snd) status' := by
  obtain ⟨book', hrun', hbook'⟩ := OrderBook.exists_holdsOrders (calls ++ more) hr ht
  rw [List.map_append] at ht hbook'
  obtain ⟨book, hrun, hbook⟩ := OrderBook.exists_holdsOrders calls
    (fun call hcall => hr call (List.mem_append_left _ hcall)) ht.of_append
  obtain ⟨status, hflush, hpublished⟩ := hbook.exists_publishedFor
  obtain ⟨status', hflush', hpublished'⟩ := hbook'.exists_publishedFor
  exact ⟨book, book', status, status', hrun, hrun', hflush, hflush', hpublished, hpublished'⟩

end Session

/-- **The published volume never falls** as orders arrive, and it grows by no more than the
quantity that has arrived on the heavier side. -/
theorem OrderBook.flushStatus_cvl_append (calls more : List (OptimPriceInfo × Order))
    (hr : ∀ call ∈ calls ++ more, call.2.InRange)
    (ht : TotalsFit ((calls ++ more).map Prod.snd)) :
    ∃ book book' status status', OrderBook.insertOrders calls = .ok book ∧
      OrderBook.insertOrders (calls ++ more) = .ok book' ∧
      (∀ uninit, book.flushStatus uninit = .ok (book, status)) ∧
      (∀ uninit, book'.flushStatus uninit = .ok (book', status')) ∧
      status.cvl ≤ status'.cvl ∧
      status'.cvl ≤ status.cvl + max (totalOf (onSide 1 (more.map Prod.snd)))
        (totalOf (onSide 2 (more.map Prod.snd))) := by
  obtain ⟨book, book', status, status', hrun, hrun', hflush, hflush', hpublished, hpublished'⟩ :=
    OrderBook.exists_publishedFor_append hr ht
  exact ⟨book, book', status, status', hrun, hrun', hflush, hflush',
    hpublished.cvl_append hpublished'⟩

/-- The crossing calls, in two parts. -/
theorem OrderBook.flushStatus_cvl_append_crossingCalls :
    ∃ book book' status status', OrderBook.insertOrders (crossingCalls.take 1) = .ok book ∧
      OrderBook.insertOrders (crossingCalls.take 1 ++ crossingCalls.drop 1) = .ok book' ∧
      (∀ uninit, book.flushStatus uninit = .ok (book, status)) ∧
      (∀ uninit, book'.flushStatus uninit = .ok (book', status')) ∧
      status.cvl ≤ status'.cvl ∧
      status'.cvl ≤ status.cvl + max (totalOf (onSide 1 ((crossingCalls.drop 1).map Prod.snd)))
        (totalOf (onSide 2 ((crossingCalls.drop 1).map Prod.snd))) :=
  OrderBook.flushStatus_cvl_append _ _ (by decide) (by decide)

/-- **Orders that meet nothing**, neither an order held nor one another, leave the price, the
volume and the turnover published as they are. -/
theorem OrderBook.flushStatus_passive (calls more : List (OptimPriceInfo × Order))
    (hr : ∀ call ∈ calls ++ more, call.2.InRange)
    (ht : TotalsFit ((calls ++ more).map Prod.snd))
    (hpassive : Passive (bidsOf (calls.map Prod.snd)) (asksOf (calls.map Prod.snd))
      (bidsOf (more.map Prod.snd)) (asksOf (more.map Prod.snd))) :
    ∃ book book' status status', OrderBook.insertOrders calls = .ok book ∧
      OrderBook.insertOrders (calls ++ more) = .ok book' ∧
      (∀ uninit, book.flushStatus uninit = .ok (book, status)) ∧
      (∀ uninit, book'.flushStatus uninit = .ok (book', status')) ∧
      status'.lpr = status.lpr ∧ status'.cvl = status.cvl ∧ status'.cto = status.cto := by
  obtain ⟨book, book', status, status', hrun, hrun', hflush, hflush', hpublished, hpublished'⟩ :=
    OrderBook.exists_publishedFor_append hr ht
  exact ⟨book, book', status, status', hrun, hrun', hflush, hflush',
    hpublished.of_passive hpublished' hpassive⟩

/-- A bid below the ask of the crossing calls and an ask above their bids. -/
def passiveCalls : List (OptimPriceInfo × Order) :=
  [(⟨0, 0, 0, 0, 0, 0⟩, ⟨4, 99, 15, 1⟩), (⟨0, 0, 0, 0, 0, 0⟩, ⟨5, 102, 25, 2⟩)]

/-- They change nothing. -/
theorem OrderBook.flushStatus_passive_crossingCalls :
    ∃ book book' status status', OrderBook.insertOrders crossingCalls = .ok book ∧
      OrderBook.insertOrders (crossingCalls ++ passiveCalls) = .ok book' ∧
      (∀ uninit, book.flushStatus uninit = .ok (book, status)) ∧
      (∀ uninit, book'.flushStatus uninit = .ok (book', status')) ∧
      status'.lpr = status.lpr ∧ status'.cvl = status.cvl ∧ status'.cto = status.cto :=
  OrderBook.flushStatus_passive _ _ (by decide) (by decide) ⟨by decide, by decide⟩

/-- **The price follows the newcomers.**  In a crossed book further buy orders do not lower the
published price and further sell orders do not raise it, unless the new price is the one of the
best of the new orders themselves. -/
theorem OrderBook.flushStatus_lpr_append (calls more : List (OptimPriceInfo × Order))
    (hr : ∀ call ∈ calls ++ more, call.2.InRange)
    (ht : TotalsFit ((calls ++ more).map Prod.snd))
    (hpos : ∀ call ∈ more, 0 < call.2.quantity)
    (hx : Crossed (bidsOf (calls.map Prod.snd)) (asksOf (calls.map Prod.snd))) :
    ∃ book book' status status', OrderBook.insertOrders calls = .ok book ∧
      OrderBook.insertOrders (calls ++ more) = .ok book' ∧
      (∀ uninit, book.flushStatus uninit = .ok (book, status)) ∧
      (∀ uninit, book'.flushStatus uninit = .ok (book', status')) ∧
      ((∀ call ∈ more, call.2.side = 1) → status.lpr ≤ status'.lpr ∨
        (∃ call ∈ more, call.2.price = status'.lpr) ∧
          ∀ call ∈ more, call.2.price ≤ status'.lpr) ∧
      ((∀ call ∈ more, call.2.side = 2) → status'.lpr ≤ status.lpr ∨
        (∃ call ∈ more, call.2.price = status'.lpr) ∧
          ∀ call ∈ more, status'.lpr ≤ call.2.price) := by
  obtain ⟨book, book', status, status', hrun, hrun', hflush, hflush', hpublished, hpublished'⟩ :=
    OrderBook.exists_publishedFor_append hr ht
  have hpos' : ∀ o ∈ more.map Prod.snd, 0 < o.quantity := List.forall_mem_map.mpr hpos
  refine ⟨book, book', status, status', hrun, hrun', hflush, hflush', fun hside => ?_,
    fun hside => ?_⟩
  · have hprice := hpublished.le_or_newBid hpublished' hx (List.forall_mem_map.mpr hside) hpos'
    simpa only [List.mem_map, exists_exists_and_eq_and, forall_exists_index, and_imp,
      forall_apply_eq_imp_iff₂] using hprice
  · have hprice := hpublished.ge_or_newAsk hpublished' hx (List.forall_mem_map.mpr hside) hpos'
    simpa only [List.mem_map, exists_exists_and_eq_and, forall_exists_index, and_imp,
      forall_apply_eq_imp_iff₂] using hprice

/-- A bid and an ask that leave a gap between them. -/
def gapCalls : List (OptimPriceInfo × Order) :=
  [(⟨0, 0, 0, 0, 0, 0⟩, ⟨1, 105, 10, 1⟩), (⟨0, 0, 0, 0, 0, 0⟩, ⟨2, 90, 10, 2⟩)]

/-- A bid within the gap. -/
def gapBid : List (OptimPriceInfo × Order) := [(⟨0, 0, 0, 0, 0, 0⟩, ⟨3, 100, 1, 1⟩)]

/-- The new bid trades nothing, and the price falls onto it. -/
theorem OrderBook.flushStatus_lpr_append_gapBid :
    ∃ book book' status status', OrderBook.insertOrders gapCalls = .ok book ∧
      OrderBook.insertOrders (gapCalls ++ gapBid) = .ok book' ∧
      (∀ uninit, book.flushStatus uninit = .ok (book, status)) ∧
      (∀ uninit, book'.flushStatus uninit = .ok (book', status')) ∧
      (status.lpr ≤ status'.lpr ∨ (∃ call ∈ gapBid, call.2.price = status'.lpr) ∧
        ∀ call ∈ gapBid, call.2.price ≤ status'.lpr) := by
  obtain ⟨book, book', status, status', hrun, hrun', hflush, hflush', hbids, -⟩ :=
    OrderBook.flushStatus_lpr_append gapCalls gapBid (by decide) (by decide) (by decide)
      ⟨(105, 10), by decide, (90, 10), by decide, by decide⟩
  exact ⟨book, book', status, status', hrun, hrun', hflush, hflush', hbids (by decide)⟩

example : (do
    let book ← OrderBook.insertOrders gapCalls
    let book' ← OrderBook.insertOrders (gapCalls ++ gapBid)
    let (_, status) ← book.flushStatus ⟨0, 0, 0, 0, 0, 0⟩
    let (_, status') ← book'.flushStatus ⟨0, 0, 0, 0, 0, 0⟩
    pure (status.lpr, status'.lpr)) = .ok (105, 100) := by decide +kernel

end Obr
