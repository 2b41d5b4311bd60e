/-
# Which numbers are exact

The turnover is computed in an `int64_t` and the ladders are arrays of `int`.  The numbers
published are the exact ones as long as the product fits in the former, and the best five
levels left on either side, prices and quantities, in the latter.  At `INT64_MAX`, the key of the
sentinel of the asks, two things more matter: a level without orders may be shown, and the price
may move down behind the asks.
-/
import FastServer.SentinelPrice

namespace Obr

open CallAuction PriorityFill OrderIterator

/-! ## Exact numbers -/

/-- The numbers published are exact: the turnover is the quotient of volume times price, and
either ladder shows the best five prices at which the trades leave something, with what they
leave. -/
structure PublishedExactly (os : List Order) (status : OrderBookStatus) (trades : List Trade) :
    Prop where
  cto : status.cto = status.cvl * status.lpr / 10000
  bid : LeftBook (fun a b => b < a) (bidsOf os) (filled Trade.buyPrice trades)
    fun i => status.bidAt i.rev
  ask : LeftBook (fun a b => a < b) (asksOf os) (filled Trade.sellPrice trades) status.askAt

/-- At the auction price `q` every number fits where it is stored, and the level without orders
is not shown. -/
structure FitsAt (os : List Order) (q : ℤ) : Prop where
  price : IsAuctionPrice (bidsOf os) (asksOf os) q
  turnover : (executable (bidsOf os) (asksOf os) q : ℤ) * q < 2 ^ 63
  bid : LadderFits (fun a b => b < a) (bidsOf os)
    (bidLeft (bidsOf os) (executable (bidsOf os) (asksOf os) q))
  ask : LadderFits (fun a b => a < b) (asksOf os)
    (askLeft (asksOf os) (executable (bidsOf os) (asksOf os) q))
  sentinel : ¬ SentinelShown os (executable (bidsOf os) (asksOf os) q)

/-- Behind the asks at `INT64_MAX`, where the price has moved down to `p` and all asks are
traded, every number fits. -/
structure FitsBehind (os : List Order) (p : ℤ) : Prop where
  price : IsSentinelPrice (bidsOf os) (asksOf os) p
  turnover : (supply (asksOf os) int64Max : ℤ) * p < 2 ^ 63
  bid : LadderFits (fun a b => b < a) (bidsOf os)
    (bidLeft (bidsOf os) (supply (asksOf os) int64Max))

/-- Every number fits where it is stored. -/
def NumbersFit (os : List Order) : Prop := (∃ q, FitsAt os q) ∨ ∃ p, FitsBehind os p

section Settled

variable {book : OrderBook} {os : List Order} {p q : ℤ} {st : MatchState}

/-- **The turnover is exact** if the product fits. -/
theorem publish_cto_iff {info : OptimPriceInfo}
    (h0 : 0 ≤ info.expectedDealQuantity * info.dealPrice) :
    (publish info st).cto = (publish info st).cvl * (publish info st).lpr / 10000 ↔
      info.expectedDealQuantity * info.dealPrice < 2 ^ 63 := by
  obtain ⟨hlpr, hcvl, -⟩ := publish_fields info st
  rw [hlpr, hcvl, publish_cto]
  exact tdiv_toI64_eq_iff h0

/-- **When the numbers are exact**, if the scans settle on figures that fit the walk. -/
theorem OrderBook.Settled.publishedExactly_iff (h : book.Settled os q st)
    (hr : ∀ o ∈ os, o.Valid) {info : OptimPriceInfo} (hdeal : 0 ≤ info.dealPrice)
    (hvolume : info.expectedDealQuantity = st.volume)
    (hbid : info.FitsBids (bidsOf os) st.volume)
    (hcell : ∀ e ∈ st.sellOrderIt.mapIter, askCell info e
      = (toI32 e.1, toI32 ((e.2.quantity - filled Trade.sellPrice st.trades e.1 : ℕ) : ℤ))) :
    PublishedExactly os (publish info st) st.trades ↔
      (st.volume : ℤ) * info.dealPrice < 2 ^ 63 ∧
      LadderFits (fun a b => b < a) (bidsOf os) (bidLeft (bidsOf os) st.volume) ∧
      LadderFits (fun a b => a < b) (asksOf os) (askLeft (asksOf os) st.volume) ∧
      ¬ SentinelShown os st.volume := by
  have hcto := @publish_cto_iff st info
    (hvolume ▸ mul_nonneg (Int.natCast_nonneg _) hdeal)
  rw [hvolume] at hcto
  constructor
  · rintro ⟨h1, h2, h3⟩
    exact ⟨hcto.mp h1, (h.bid_iff hbid).mp h2, (h.ask_iff hr hcell).mp h3⟩
  · rintro ⟨h1, h2, h3⟩
    exact ⟨hcto.mpr h1, (h.bid_iff hbid).mpr h2, (h.ask_iff hr hcell).mpr h3⟩

/-- At the auction price. -/
theorem OrderBook.Settled.candidate_exact_iff (h : book.Settled os q st)
    (hr : ∀ o ∈ os, o.Valid) :
    PublishedExactly os (publish (candidate book.bidLots book.askLots q) st) st.trades
      ↔ FitsAt os q := by
  obtain ⟨hbid, hask⟩ := h.candidate_fits hr
  have hvolume : (candidate book.bidLots book.askLots q).expectedDealQuantity = st.volume := by
    rw [h.volume_eq, ← h.keeps.executable_eq]
    rfl
  rw [h.publishedExactly_iff hr (h.price_range hr).1.le hvolume hbid
    fun e he => h.askCell_toI32 hask he, h.volume_eq]
  exact ⟨fun ⟨h1, h2, h3, h4⟩ => ⟨h.price, h1, h2, h3, h4⟩,
    fun ⟨_, h1, h2, h3, h4⟩ => ⟨h1, h2, h3, h4⟩⟩

/-- The supply at `INT64_MAX` is that of all asks. -/
theorem LotsFit.supply_le_max {bids asks : List (ℤ × ℕ)} (hfit : LotsFit bids asks) (p : ℤ) :
    supply asks p ≤ supply asks int64Max :=
  mass_le_mass fun x hx _ => hfit.ask_le x hx

/-- If all asks are traded, no number of theirs is too large. -/
theorem LotsFit.asks_fit {bids asks : List (ℤ × ℕ)} (hfit : LotsFit bids asks) :
    LadderFits (fun a b => a < b) asks (askLeft asks (supply asks int64Max)) := by
  rintro p ⟨hleft, -⟩
  have := hfit.supply_le_max p
  rw [askLeft] at hleft
  omega

/-- If some ask stands at `INT64_MAX`, the level there has orders. -/
theorem not_sentinelShown (hmax : ∃ x ∈ asksOf os, x.1 = int64Max) (volume : ℕ) :
    ¬ SentinelShown os volume := by
  rintro ⟨-, hno, -, -⟩
  obtain ⟨x, hx, hprice⟩ := hmax
  obtain ⟨o, ho, rfl⟩ := List.mem_map.mp hx
  exact hno o ho hprice

/-- If all asks are traded, no ask level is left. -/
theorem OrderBook.Settled.sellLevels_eq_nil (h : book.Settled os q st)
    (hfit : LotsFit (bidsOf os) (asksOf os)) (hall : st.volume = supply (asksOf os) int64Max) :
    st.sellOrderIt.mapIter = [] := by
  refine List.eq_nil_iff_forall_not_mem.mpr fun e he => ?_
  have hlt := (h.mem_sellLevels_iff (h.walked.sell.mapIter_suffix.mem he)).mp he
  have := hfit.supply_le_max e.1
  omega

/-- At a price where all asks are traded, with a full book at `INT64_MAX`. -/
theorem OrderBook.Settled.readLast_exact_iff (h : book.Settled os q st)
    (hr : ∀ o ∈ os, o.Valid) (hfit : LotsFit (bidsOf os) (asksOf os))
    (hfull : FullAtMax (bidsOf os) (asksOf os)) (h0 : 0 ≤ p) (hp : p ≤ int64Max)
    (habove : demandAbove (bidsOf os) p ≤ supply (asksOf os) int64Max)
    (hmin : demand (bidsOf os) p = supply (asksOf os) int64Max ∨ mass (asksOf os) (· = p) = 0) :
    PublishedExactly os (publish (readLast (bidsOf os) (asksOf os) p) st) st.trades ↔
      (supply (asksOf os) int64Max : ℤ) * p < 2 ^ 63 ∧
      LadderFits (fun a b => b < a) (bidsOf os)
        (bidLeft (bidsOf os) (supply (asksOf os) int64Max)) := by
  have hvolume : st.volume = supply (asksOf os) int64Max :=
    h.volume_eq.trans (hfull.auctionPrice_eq hfit h.price).2
  have hcover : supply (asksOf os) int64Max ≤ demand (bidsOf os) p :=
    hfull.max_bid ▸ demand_anti hp
  have hprice : ((toU64 p : ℕ) : ℤ) = p := by
    unfold int64Max at hp
    exact toU64_of_nonneg h0 (by omega)
  have hbid : (readLast (bidsOf os) (asksOf os) p).FitsBids (bidsOf os) st.volume := by
    rw [hvolume, readLast_eq hcover hmin]
    exact ⟨hprice, habove, hcover, rfl⟩
  rw [h.publishedExactly_iff hr h0 (by rw [hvolume, readLast_eq hcover hmin]) hbid
    (by simp [h.sellLevels_eq_nil hfit hvolume]), hvolume,
    and_iff_left (not_sentinelShown hfull.max_ask _), and_iff_left hfit.asks_fit]
  rfl

/-- With a full book at `INT64_MAX` the auction price is there. -/
theorem FullAtMax.fitsAt_iff (hfull : FullAtMax (bidsOf os) (asksOf os))
    (hfit : LotsFit (bidsOf os) (asksOf os)) (hq : IsAuctionPrice (bidsOf os) (asksOf os) q) :
    FitsAt os p ↔ p = int64Max ∧ (supply (asksOf os) int64Max : ℤ) * int64Max < 2 ^ 63 ∧
      LadderFits (fun a b => b < a) (bidsOf os)
        (bidLeft (bidsOf os) (supply (asksOf os) int64Max)) := by
  obtain ⟨rfl, hvolume⟩ := hfull.auctionPrice_eq hfit hq
  constructor
  · intro hfits
    obtain rfl := hfits.price.unique hq
    obtain ⟨-, hturnover, hbid, -, -⟩ := hfits
    rw [hvolume] at hturnover hbid
    exact ⟨rfl, hturnover, hbid⟩
  · rintro ⟨rfl, hturnover, hbid⟩
    rw [← hvolume] at hturnover hbid
    exact ⟨hq, hturnover, hbid, hvolume ▸ hfit.asks_fit, not_sentinelShown hfull.max_ask _⟩

/-- If the turnover fits there, one share is asked. -/
theorem supply_le_one {asks : List (ℤ × ℕ)}
    (h : (supply asks int64Max : ℤ) * int64Max < 2 ^ 63) : supply asks int64Max ≤ 1 := by
  by_contra hgt
  have htwo : (2 : ℤ) ≤ supply asks int64Max := by omega
  have := mul_le_mul_of_nonneg_right htwo (by decide : (0 : ℤ) ≤ int64Max)
  unfold int64Max at *
  omega

/-- **The price that moved down is no auction price** whose turnover fits. -/
theorem IsSentinelPrice.numbersFit_iff (hp : IsSentinelPrice (bidsOf os) (asksOf os) p)
    (hfit : LotsFit (bidsOf os) (asksOf os)) (hq : IsAuctionPrice (bidsOf os) (asksOf os) q) :
    NumbersFit os ↔ (supply (asksOf os) int64Max : ℤ) * p < 2 ^ 63 ∧
      LadderFits (fun a b => b < a) (bidsOf os)
        (bidLeft (bidsOf os) (supply (asksOf os) int64Max)) := by
  have hfull : FullAtMax (bidsOf os) (asksOf os) := ⟨hp.max_ask, hp.max_bid⟩
  constructor
  · rintro (⟨r, hfits⟩ | ⟨r, hprice, hturnover, hbid⟩)
    · -- one ask is at `INT64_MAX` and another below: more than one share is traded
      obtain ⟨-, hturnover, -⟩ := (hfull.fitsAt_iff hfit hq).mp hfits
      have hone := supply_le_one hturnover
      obtain ⟨x, hx, hlt⟩ := hp.some_ask
      have hbelow : 0 < supplyBelow (asksOf os) int64Max :=
        mass_pos hx (lt_trans hlt hp.lt_max) (hfit.ask_pos x hx)
      have := hfull.max_pos hfit
      have := supply_eq_add (asksOf os) int64Max
      omega
    · obtain rfl := hprice.unique hp
      exact ⟨hturnover, hbid⟩
  · rintro ⟨hturnover, hbid⟩
    exact Or.inr ⟨p, hp, hturnover, hbid⟩

end Settled

/-! ## Books -/

/-- What is published if it does not depend on the uninitialised local. -/
theorem exists_status_iff {book : OrderBook} {status : OrderBookStatus}
    {s : OrderBookStatus → Prop}
    (hflush : ∀ uninit, book.flushStatus uninit = .ok (book, status)) :
    (∃ status, (∀ uninit, book.flushStatus uninit = .ok (book, status)) ∧ s status)
      ↔ s status := by
  constructor
  · rintro ⟨status', hflush', hs⟩
    let any : OptimPriceInfo := ⟨0, 0, 0, 0, 0, 0⟩
    have heq := Except.ok.inj ((hflush' any).symm.trans (hflush any))
    exact (Prod.mk.inj heq).2 ▸ hs
  · exact fun hs => ⟨status, hflush, hs⟩

section Book

variable {book : OrderBook} {os : List Order} {q : ℤ} {st : MatchState}

/-- **Where the bids do not cover the asks below `INT64_MAX`** the auction price is published. -/
theorem OrderBook.Keeps.exact_iff_of_uncovered (h : book.Keeps os) (hr : ∀ o ∈ os, o.Valid)
    (hpos : ∀ o ∈ os, 0 < o.quantity) (hx : Crossed (bidsOf os) (asksOf os))
    (hst : book.matchOrders = .ok st)
    (hun : (∀ x ∈ asksOf os, x.1 ≠ int64Max) ∨ Uncovered (bidsOf os) (asksOf os)) :
    (∃ status, (∀ uninit, book.flushStatus uninit = .ok (book, status)) ∧
      PublishedExactly os status st.trades) ↔ NumbersFit os := by
  have hfit := h.lotsFit hr hpos
  obtain ⟨q, hq, hflush⟩ := h.exists_isAuctionPrice hx
  rw [exists_status_iff (hflush (h.scansExactly hfit hun) st hst),
    (h.settled hpos hq hst).candidate_exact_iff hr]
  constructor
  · exact fun hfits => Or.inl ⟨q, hfits⟩
  · rintro (⟨r, hfits⟩ | ⟨p, hp, -, -⟩)
    · exact hfits.price.unique hq ▸ hfits
    · rcases hun with hno | hun
      · obtain ⟨x, hx, hmax⟩ := hp.max_ask
        exact absurd hmax (hno x hx)
      · have hlt := hun p hp.above_asks
        have hcover : demand (bidsOf os) int64Max ≤ demand (bidsOf os) p :=
          demand_anti hp.lt_max.le
        have hbelow : supplyBelow (asksOf os) int64Max ≤ supply (asksOf os) int64Max :=
          supplyBelow_le_supply
        have := hp.max_bid
        omega

/-- **With a full book at `INT64_MAX`** either the price moves down, or it is there, or, if the sum
of the asks wraps, nothing is chosen at all. -/
theorem OrderBook.Settled.exact_iff_of_full (h : book.Settled os q st) (hr : ∀ o ∈ os, o.Valid)
    (hfit : LotsFit (bidsOf os) (asksOf os)) (hfull : FullAtMax (bidsOf os) (asksOf os)) :
    (∃ status, (∀ uninit, book.flushStatus uninit = .ok (book, status)) ∧
      PublishedExactly os status st.trades) ↔ NumbersFit os := by
  obtain ⟨ps, hps, hflush⟩ := h.keeps.exists_visited h.price.candidate.spread.crossed
  have hflush := hflush st h.matched
  by_cases hex : ∃ p, IsSentinelPrice (bidsOf os) (asksOf os) p
  · obtain ⟨p, hp⟩ := hex
    simp only [hp.foldl_eq hfit hps] at hflush
    rw [exists_status_iff hflush, hp.numbersFit_iff hfit h.price]
    refine h.readLast_exact_iff hr hfit hfull ?_ hp.lt_max.le hp.demandAbove_eq.le
      (Or.inr (hp.above_asks.mass_eq_zero hp.lt_max))
    obtain ⟨x, hx, rfl⟩ := hp.level
    obtain ⟨o, ho, rfl⟩ := List.mem_map.mp hx
    exact (hr o (List.mem_filter.mp ho).1).2.1.le
  · push Not at hex
    have hnumbers : NumbersFit os ↔ FitsAt os int64Max := by
      constructor
      · rintro (⟨r, hfits⟩ | ⟨p, hp, -, -⟩)
        · exact ((hfull.fitsAt_iff hfit h.price).mp hfits).1 ▸ hfits
        · exact absurd hp (hex p)
      · exact fun hfits => Or.inl ⟨_, hfits⟩
    rw [hnumbers]
    by_cases hsum : supply (asksOf os) int64Max + mass (asksOf os) (· = int64Max) < 2 ^ 63
    · simp only [hfull.foldl_eq_max hfit hps hex hsum] at hflush
      rw [exists_status_iff hflush, hfull.fitsAt_iff hfit h.price, h.readLast_exact_iff hr hfit
        hfull (by decide) (le_refl _) (hfit.demandAbove_max ▸ Nat.zero_le _) (Or.inl hfull.max_bid)]
      exact (and_iff_right rfl).symm
    · simp only [hfull.foldl_eq_init hfit hps hex hsum] at hflush
      constructor
      · rintro ⟨status, hstatus, -⟩
        -- the price published is the one the local held
        have hlpr : ∀ price : ℤ, status.lpr = price := by
          intro price
          let held : OptimPriceInfo := ⟨price, 0, 0, 0, 0, 0⟩
          have heq := Except.ok.inj ((hstatus held).symm.trans (hflush held))
          rw [(Prod.mk.inj heq).2]
          exact (publish_fields _ st).1
        exact absurd ((hlpr 0).symm.trans (hlpr 1)) (by decide)
      · intro hfits
        obtain ⟨-, hturnover, -⟩ := (hfull.fitsAt_iff hfit h.price).mp hfits
        have := supply_le_one hturnover
        have := supply_eq_add (asksOf os) int64Max
        omega

/-- **When the numbers are exact**, for any crossing orders. -/
theorem OrderBook.Keeps.exact_iff (h : book.Keeps os) (hr : ∀ o ∈ os, o.Valid)
    (hpos : ∀ o ∈ os, 0 < o.quantity) (hx : Crossed (bidsOf os) (asksOf os))
    (hst : book.matchOrders = .ok st) :
    (∃ status, (∀ uninit, book.flushStatus uninit = .ok (book, status)) ∧
      PublishedExactly os status st.trades) ↔ NumbersFit os := by
  by_cases hun : (∀ x ∈ asksOf os, x.1 ≠ int64Max) ∨ Uncovered (bidsOf os) (asksOf os)
  · exact h.exact_iff_of_uncovered hr hpos hx hst hun
  · rw [not_or] at hun
    obtain ⟨hmax, hcovered⟩ := hun
    push Not at hmax
    have hfit := h.lotsFit hr hpos
    obtain ⟨q, hq, -⟩ := h.exists_isAuctionPrice hx
    have hs := h.settled hpos hq hst
    by_cases hfull : FullAtMax (bidsOf os) (asksOf os)
    · exact hs.exact_iff_of_full hr hfit hfull
    · -- neither ladder nor condition is possible
      have hfits := fun hbid hask => hfull (fullAtMax_of_fits hfit hmax hcovered hq hbid hask)
      refine iff_of_false ?_ ?_
      · rintro ⟨status, hstatus, -, hbid, hask⟩
        obtain ⟨ps, -, hflush⟩ := h.exists_visited hx
        let any : OptimPriceInfo := ⟨0, 0, 0, 0, 0, 0⟩
        have heq := Except.ok.inj ((hstatus any).symm.trans (hflush st hst any))
        rw [(Prod.mk.inj heq).2] at hbid hask
        obtain ⟨hbids, hasks⟩ := hs.fits_of_leftBook hbid hask
        rw [hs.volume_eq] at hbids hasks
        exact hfits hbids hasks
      · rintro (⟨r, hat⟩ | ⟨p, hp, -, -⟩)
        · obtain rfl := hat.price.unique hq
          exact hfits hat.bid hat.ask
        · exact hfull ⟨hp.max_ask, hp.max_bid⟩

end Book

/-! ## Runs -/

/-- Small prices and totals make a ladder that fits. -/
theorem ladderFits_of_lt {better : ℤ → ℤ → Prop} [DecidableRel better] {os : List Order}
    {left : ℤ → ℕ} (hp : ∀ o ∈ os, o.price < 2 ^ 31) (ht : totalOf os < 2 ^ 31)
    (hle : ∀ p, left p ≤ mass (orderLots os) (· = p)) : LadderFits better (orderLots os) left := by
  rintro p ⟨hpos, -⟩
  have hmass := hle p
  have htotal := mass_orderLots_le os (· = p)
  refine ⟨?_, by omega⟩
  by_contra hge
  have hzero : mass (orderLots os) (· = p) = 0 := by
    apply mass_eq_zero
    rintro x hx rfl
    obtain ⟨o, ho, rfl⟩ := List.mem_map.mp hx
    exact hge (hp o ho)
  omega

/-- Small prices and totals fit at any price. -/
theorem fitsAt_of_lt {os : List Order} {q : ℤ} (h : IsAuctionPrice (bidsOf os) (asksOf os) q)
    (hp : ∀ o ∈ os, o.price < 2 ^ 31)
    (ht : totalOf (onSide 1 os) < 2 ^ 31 ∧ totalOf (onSide 2 os) < 2 ^ 31) : FitsAt os q := by
  have hside : ∀ side, ∀ o ∈ onSide side os, o.price < 2 ^ 31 :=
    fun side o ho => hp o (List.mem_filter.mp ho).1
  refine ⟨h, ?_, ladderFits_of_lt (hside 1) ht.1 fun p => min_le_left _ _,
    ladderFits_of_lt (hside 2) ht.2 fun p => min_le_left _ _, fun hshown => ?_⟩
  rotate_left
  · obtain ⟨o, ho, hmax⟩ := hshown.bid
    exact absurd (hmax ▸ hside 1 o ho) (by decide)
  have hvolume : executable (bidsOf os) (asksOf os) q ≤ totalOf (onSide 1 os) :=
    (min_le_left _ _).trans (mass_orderLots_le _ _)
  have hprice : q < 2 ^ 31 := by
    obtain ⟨x, hx, rfl⟩ := h.candidate.level
    rcases List.mem_append.mp hx with hx | hx <;>
    · obtain ⟨o, ho, rfl⟩ := List.mem_map.mp hx
      exact hside _ o ho
  have hlt : (executable (bidsOf os) (asksOf os) q : ℤ) ≤ 2 ^ 31 := by omega
  calc (executable (bidsOf os) (asksOf os) q : ℤ) * q
      ≤ executable (bidsOf os) (asksOf os) q * 2 ^ 31 :=
        mul_le_mul_of_nonneg_left hprice.le (Int.natCast_nonneg _)
    _ ≤ 2 ^ 31 * 2 ^ 31 := mul_le_mul_of_nonneg_right hlt (by norm_num)
    _ < 2 ^ 63 := by norm_num

/-- A run of calls, the status flushed after it, and the walk the status comes from. -/
structure OrderBook.Flushes (calls : List (OptimPriceInfo × Order)) (book : OrderBook)
    (status : OrderBookStatus) (st : MatchState) : Prop where
  inserted : OrderBook.insertOrders calls = .ok book
  flushed : ∀ uninit, book.flushStatus uninit = .ok (book, status)
  matched : book.matchOrders = .ok st

/-- One run, one walk. -/
theorem OrderBook.Flushes.of_inserted {calls : List (OptimPriceInfo × Order)}
    {book book' : OrderBook} {status : OrderBookStatus} {st st' : MatchState}
    (h : OrderBook.Flushes calls book' status st') (hrun : OrderBook.insertOrders calls = .ok book)
    (hst : book.matchOrders = .ok st) : book' = book ∧ st' = st := by
  obtain rfl : book' = book := Except.ok.inj (h.inserted.symm.trans hrun)
  exact ⟨rfl, Except.ok.inj (h.matched.symm.trans hst)⟩

/-- **The numbers published are exact if and only if they fit.** -/
theorem OrderBook.flushStatus_exact (calls : List (OptimPriceInfo × Order))
    (hr : ∀ call ∈ calls, (call.2.side = 1 ∨ call.2.side = 2) ∧ 0 < call.2.price ∧
      call.2.price < 2 ^ 63)
    (hpos : ∀ call ∈ calls, 0 < call.2.quantity) (ht : TotalsFit (calls.map Prod.snd))
    (hx : Crossed (bidsOf (calls.map Prod.snd)) (asksOf (calls.map Prod.snd))) :
    (∃ book status st, OrderBook.Flushes calls book status st ∧
      PublishedExactly (calls.map Prod.snd) status st.trades) ↔
        NumbersFit (calls.map Prod.snd) := by
  have hr' : ∀ o ∈ calls.map Prod.snd, o.Valid := List.forall_mem_map.mpr hr
  have hpos' : ∀ o ∈ calls.map Prod.snd, 0 < o.quantity := List.forall_mem_map.mpr hpos
  obtain ⟨book, hrun, hrep⟩ := exists_insertOrders calls hr ht
  have hkeeps := hrep.keeps hr' ht
  obtain ⟨st, hst⟩ := hkeeps.exists_matched hx
  rw [← hkeeps.exact_iff hr' hpos' hx hst]
  constructor
  · rintro ⟨book', status, st', hflushes, hexact⟩
    obtain ⟨rfl, rfl⟩ := hflushes.of_inserted hrun hst
    exact ⟨status, hflushes.flushed, hexact⟩
  · rintro ⟨status, hflush, hexact⟩
    exact ⟨_, status, st, ⟨hrun, hflush, hst⟩, hexact⟩

/-- The numbers of the crossing calls are exact. -/
theorem OrderBook.flushStatus_exact_crossingCalls :
    ∃ book status st, OrderBook.Flushes crossingCalls book status st ∧
      PublishedExactly (crossingCalls.map Prod.snd) status st.trades := by
  obtain ⟨book, -, hbook⟩ := exists_holdsOrders crossingCalls (by decide) (by decide)
  obtain ⟨q, st, hp⟩ := hbook.exists_priced crossed_crossingCalls
  exact (OrderBook.flushStatus_exact crossingCalls (by decide) (by decide) (by decide)
    crossed_crossingCalls).mpr (Or.inl ⟨q, fitsAt_of_lt hp.price (by decide) (by decide)⟩)

/-- A bid and an ask at a price above `2^32`, with a volume to match. -/
def bigCalls : List (OptimPriceInfo × Order) :=
  [(⟨0, 0, 0, 0, 0, 0⟩, ⟨1, 5000000000, 3000000000, 1⟩),
    (⟨0, 0, 0, 0, 0, 0⟩, ⟨2, 5000000000, 2000000000, 2⟩)]

/-- The turnover of the big calls is published as a negative number. -/
theorem OrderBook.not_publishedExactly_bigCalls :
    ∃ book status st, OrderBook.Flushes bigCalls book status st ∧
      ¬ PublishedExactly (bigCalls.map Prod.snd) status st.trades ∧
      status.cvl = 2000000000 ∧ status.lpr = 5000000000 ∧ status.cto = -844674407370955 := by
  have hx : Crossed (bidsOf (bigCalls.map Prod.snd)) (asksOf (bigCalls.map Prod.snd)) :=
    ⟨(5000000000, 3000000000), by decide, (5000000000, 2000000000), by decide, by decide⟩
  obtain ⟨book, hrun, hbook⟩ := exists_holdsOrders bigCalls (by decide) (by decide)
  obtain ⟨q, st, h⟩ := hbook.exists_cleared (by decide) hx
  obtain ⟨hlpr, hcvl⟩ := h.holds.lpr_cvl q st
  have hq : q = 5000000000 := by
    obtain ⟨x, hmem, rfl⟩ := h.price.candidate.level
    have hall : ∀ x ∈ bidsOf (bigCalls.map Prod.snd) ++ asksOf (bigCalls.map Prod.snd),
        x.1 = 5000000000 := by decide
    exact hall x hmem
  subst hq
  have hvol : executable (bidsOf (bigCalls.map Prod.snd)) (asksOf (bigCalls.map Prod.snd))
      5000000000 = 2000000000 := by decide
  have hcto : (publish (candidate book.bidLots book.askLots 5000000000) st).cto
      = -844674407370955 := by
    rw [publish_cto]
    show (toI64 ((executable book.bidLots book.askLots 5000000000 : ℕ) * 5000000000)).tdiv 10000
      = _
    rw [h.holds.executable_eq, hvol]
    decide
  rw [hvol] at hcvl
  refine ⟨book, _, st, ⟨hrun, h.flushed, h.matched⟩, fun hexact => ?_, hcvl, hlpr, hcto⟩
  have hquotient := hexact.cto
  rw [hcto, hcvl, hlpr] at hquotient
  norm_num at hquotient

end Obr
