/-
# The published price and volume

What `flushStatus` publishes as `lpr` and `cvl`, in terms of the orders inserted:
the price is an admissible level of the spread that no admissible level beats,
and the volume is the largest executable at any price.
-/
import FastServer.BookInvariant
import FastServer.AuctionTies

namespace Obr

open CallAuction OrderIterator

/-! ## Orders as lots -/

/-- Orders as lots. -/
def orderLots (os : List Order) : List (ℤ × ℕ) := os.map (fun o => (o.price, o.quantity))

/-- The buy orders as lots. -/
abbrev bidsOf (os : List Order) : List (ℤ × ℕ) := orderLots (onSide 1 os)

/-- The sell orders as lots. -/
abbrev asksOf (os : List Order) : List (ℤ × ℕ) := orderLots (onSide 2 os)

/-- The quantity of lots all at one price. -/
theorem mass_orderLots_of_price {os : List Order} {p : ℤ} (h : ∀ o ∈ os, o.price = p)
    (s : ℤ → Prop) [DecidablePred s] :
    mass (orderLots os) s = if s p then totalOf os else 0 := by
  induction os with
  | nil => simp [orderLots, totalOf]
  | cons o os ih =>
      have ho : o.price = p := h o List.mem_cons_self
      rw [orderLots, List.map_cons, mass_cons, ← orderLots,
        ih fun o' ho' => h o' (List.mem_cons_of_mem _ ho')]
      simp only [ho, totalOf, List.map_cons, List.sum_cons]
      split_ifs <;> simp

/-- The levels weigh what the orders in them weigh. -/
theorem mass_lots_eq_ordersOf {levels : List (ℕ × PriceLevel)}
    (hp : ∀ e ∈ levels, ∀ o ∈ e.2.orders, o.price = e.1)
    (hq : ∀ e ∈ levels, e.2.quantity = totalOf e.2.orders) (s : ℤ → Prop) [DecidablePred s] :
    mass (lots levels) s = mass (orderLots (ordersOf levels)) s := by
  induction levels with
  | nil => rfl
  | cons e es ih =>
      rw [lots_cons, mass_cons, ordersOf_cons, orderLots, List.map_append, mass_append,
        ← orderLots, ← orderLots, mass_orderLots_of_price (hp e List.mem_cons_self),
        hq e List.mem_cons_self,
        ih (fun e' he' => hp e' (List.mem_cons_of_mem _ he'))
          (fun e' he' => hq e' (List.mem_cons_of_mem _ he'))]

section Side

variable {c : ConfigurableComparator} {m : OrderBookMap c} {os : List Order}

/-- **Levels and orders weigh the same.** -/
theorem Stores.mass_eq (h : Stores m os) (s : ℤ → Prop) [DecidablePred s] :
    mass (lots m.entries) s = mass (orderLots os) s := by
  rw [mass_lots_eq_ordersOf h.price_eq h.quantity_eq]
  exact mass_perm (h.perm.map _) s

/-- Every order has a level. -/
theorem Stores.exists_level (h : Stores m os) (t : ℤ → Prop) (hex : ∃ x ∈ orderLots os, t x.1) :
    ∃ x ∈ lots m.entries, t x.1 := by
  obtain ⟨x, hx, ht⟩ := hex
  obtain ⟨o, ho, rfl⟩ := List.mem_map.mp hx
  obtain ⟨e, he, hoe⟩ := List.mem_flatMap.mp (h.perm.mem_iff.mpr ho)
  refine ⟨_, mem_lots_of_mem he, ?_⟩
  rw [← h.price_eq e he o hoe]
  exact ht

/-- A level has an order, or it is empty. -/
theorem Stores.of_level (h : Stores m os) (t : ℤ → Prop) (hex : ∃ x ∈ lots m.entries, t x.1) :
    (∃ x ∈ orderLots os, t x.1) ∨ ∃ e ∈ m.entries, e.2.orders = [] ∧ t e.1 := by
  obtain ⟨x, hx, ht⟩ := hex
  obtain ⟨e, he, hk, -⟩ := mem_lots.mp hx
  rw [← hk] at ht
  by_cases hnil : e.2.orders = []
  · exact Or.inr ⟨e, he, hnil, ht⟩
  · obtain ⟨o, ho⟩ := List.exists_mem_of_ne_nil _ hnil
    have hmem : o ∈ os := h.perm.mem_iff.mp (List.mem_flatMap.mpr ⟨e, he, ho⟩)
    refine Or.inl ⟨_, List.mem_map_of_mem hmem, ?_⟩
    rw [h.price_eq e he o ho]
    exact ht

/-- Levels and orders stand at the same prices. -/
theorem Holds.exists_price_iff (h : Holds m os) (t : ℤ → Prop) :
    (∃ x ∈ lots m.entries, t x.1) ↔ ∃ x ∈ orderLots os, t x.1 := by
  refine ⟨fun hex => ?_, h.toStores.exists_level t⟩
  rcases h.toStores.of_level t hex with hex | ⟨e, he, hnil, -⟩
  · exact hex
  · exact absurd hnil (h.orders_ne e he)

end Side

/-- The first bid and the ask of the crossing calls cross. -/
theorem crossed_crossingCalls :
    Crossed (bidsOf (crossingCalls.map Prod.snd)) (asksOf (crossingCalls.map Prod.snd)) :=
  ⟨(101, 30), by decide, (100, 40), by decide, by decide⟩

/-! ## A crossed book and its orders -/

/-- Both sides of the book hold the orders `os`, and no ask shares the key of the sentinel. -/
structure OrderBook.HoldsOrders (book : OrderBook) (os : List Order) : Prop
    extends book.Keeps os where
  ask : Holds book.askPriceMaps (onSide 2 os)
  ask_lt : ∀ o ∈ onSide 2 os, o.price < int64Max

/-- Calls in range leave a book that holds their orders. -/
theorem OrderBook.exists_holdsOrders (calls : List (OptimPriceInfo × Order))
    (hr : ∀ call ∈ calls, call.2.InRange) (ht : TotalsFit (calls.map Prod.snd)) :
    ∃ book, OrderBook.insertOrders calls = .ok book ∧
      book.HoldsOrders (calls.map Prod.snd) := by
  obtain ⟨book, hrun, hrep⟩ := exists_insertOrders calls (fun c hc => (hr c hc).valid) ht
  have hr' : ∀ o ∈ calls.map Prod.snd, o.InRange := List.forall_mem_map.mpr hr
  have hvalid : ∀ o ∈ calls.map Prod.snd, o.Valid := fun o ho => (hr' o ho).valid
  have hkeeps := hrep.keeps hvalid ht
  rw [hrep.indexed_eq hr'] at hrun hkeeps
  exact ⟨book, hrun, hkeeps, (hrep.holds hvalid).2,
    fun o ho => (hr' o (List.mem_filter.mp ho).1).2.2⟩

section Book

variable {book : OrderBook} {os : List Order}

/-- The curves of the levels are the curves of the orders. -/
theorem OrderBook.Keeps.curves (h : book.Keeps os) (p : ℤ) :
    demand book.bidLots p = demand (bidsOf os) p ∧
      demandAbove book.bidLots p = demandAbove (bidsOf os) p ∧
      supply book.askLots p = supply (asksOf os) p ∧
      supplyBelow book.askLots p = supplyBelow (asksOf os) p :=
  ⟨h.bid.mass_eq _, h.bid.mass_eq _, h.ask_stored.mass_eq _, h.ask_stored.mass_eq _⟩

/-- The executable volume of the levels is that of the orders. -/
theorem OrderBook.Keeps.executable_eq (h : book.Keeps os) (p : ℤ) :
    executable book.bidLots book.askLots p = executable (bidsOf os) (asksOf os) p := by
  obtain ⟨h1, -, h2, -⟩ := h.curves p
  rw [executable, executable, h1, h2]

/-- Admissible among the levels is admissible among the orders. -/
theorem OrderBook.Keeps.admissible_iff (h : book.Keeps os) (p : ℤ) :
    Admissible book.bidLots book.askLots p ↔ Admissible (bidsOf os) (asksOf os) p := by
  obtain ⟨h1, h2, h3, h4⟩ := h.curves p
  rw [Admissible, Admissible, h1, h2, h3, h4]

/-- The levels of the book are the prices of the orders: where a level is empty, bids stand. -/
theorem OrderBook.Keeps.isLevel_iff (h : book.Keeps os) (p : ℤ) :
    IsLevel book.bidLots book.askLots p ↔ IsLevel (bidsOf os) (asksOf os) p := by
  have hb := h.bid.exists_price_iff (· = p)
  simp only [IsLevel, List.mem_append, or_and_right, exists_or]
  rw [hb]
  constructor
  · rintro (hbid | hask)
    · exact Or.inl hbid
    · rcases h.ask_stored.of_level (· = p) hask with hask | ⟨e, he, hnil, rfl⟩
      · exact Or.inr hask
      · obtain ⟨hmax, ⟨e', he', hk⟩, -⟩ := h.ask_level e he hnil
        exact Or.inl (hb.mp ⟨_, mem_lots_of_mem he', by rw [hk, hmax]⟩)
  · exact Or.imp_right (h.ask_stored.exists_level (· = p))

/-- The spread of the levels is the spread of the orders: no bid is above an empty level, and
some ask is below it. -/
theorem OrderBook.Keeps.inSpread_iff (h : book.Keeps os) (p : ℤ) :
    InSpread book.bidLots book.askLots p ↔ InSpread (bidsOf os) (asksOf os) p := by
  rw [InSpread, InSpread, h.bid.exists_price_iff (p ≤ ·)]
  refine ⟨fun ⟨hask, hbid⟩ => ⟨?_, hbid⟩, And.imp_left (h.ask_stored.exists_level (· ≤ p))⟩
  rcases h.ask_stored.of_level (· ≤ p) hask with hask | ⟨e, he, hnil, hle⟩
  · exact hask
  · obtain ⟨hmax, -, hne⟩ := h.ask_level e he hnil
    obtain ⟨o, ho⟩ := List.exists_mem_of_ne_nil _ hne
    obtain ⟨x, hx, hprice⟩ := h.ask_stored.exists_level (· = o.price)
      ⟨_, List.mem_map_of_mem ho, rfl⟩
    obtain ⟨e', he', hk, -⟩ := mem_lots.mp hx
    have := h.sound.ask.key_lt e' he'
    exact ⟨_, List.mem_map_of_mem ho, by simp only; omega⟩

/-- The levels and the orders have the same auction price. -/
theorem OrderBook.Keeps.isAuctionPrice_iff (h : book.Keeps os) (q : ℤ) :
    IsAuctionPrice book.bidLots book.askLots q ↔ IsAuctionPrice (bidsOf os) (asksOf os) q := by
  have hcand : ∀ p, IsCandidate book.bidLots book.askLots p ↔
      IsCandidate (bidsOf os) (asksOf os) p := by
    intro p
    constructor
    · exact fun ⟨hl, hs, had⟩ => ⟨(h.isLevel_iff p).mp hl, (h.inSpread_iff p).mp hs,
        (h.admissible_iff p).mp had⟩
    · exact fun ⟨hl, hs, had⟩ => ⟨(h.isLevel_iff p).mpr hl, (h.inSpread_iff p).mpr hs,
        (h.admissible_iff p).mpr had⟩
  have himb : ∀ p, imbalance book.bidLots book.askLots p = imbalance (bidsOf os) (asksOf os) p := by
    intro p
    rw [imbalance, imbalance, (h.curves p).2.1, (h.curves p).2.2.2]
  have hvol := h.executable_eq
  have hlevel : ∀ p, IsBidLevel book.bidLots p ↔ IsBidLevel (bidsOf os) p :=
    fun p => h.bid.exists_price_iff (· = p)
  constructor
  · exact IsAuctionPrice.congr hcand hvol himb hlevel
  · exact IsAuctionPrice.congr (fun p => (hcand p).symm) (fun p => (hvol p).symm)
      (fun p => (himb p).symm) (fun p => (hlevel p).symm)

/-- A book that holds crossing orders has two best levels, and they cross. -/
theorem OrderBook.Keeps.exists_best (h : book.Keeps os)
    (hx : Crossed (bidsOf os) (asksOf os)) :
    ∃ b a, book.bidPriceMaps.entries.head? = some b ∧
      book.askPriceMaps.entries.head? = some a ∧ a.1 ≤ b.1 := by
  obtain ⟨x, hxb, y, hya, hle⟩ := hx
  obtain ⟨x', hx', hge⟩ := h.bid.toStores.exists_level (y.1 ≤ ·) ⟨x, hxb, hle⟩
  obtain ⟨y', hy', hle'⟩ := h.ask_stored.exists_level (· ≤ x'.1) ⟨y, hya, hge⟩
  obtain ⟨e, he, hk, -⟩ := mem_lots.mp hx'
  obtain ⟨e', he', hk', -⟩ := mem_lots.mp hy'
  have hb := List.head?_eq_some_head (List.ne_nil_of_mem he)
  have ha := List.head?_eq_some_head (List.ne_nil_of_mem he')
  have h1 := le_bestBid hb he
  have h2 := bestAsk_le ha he'
  exact ⟨_, _, hb, ha, by omega⟩

/-- Without asks under the sentinel key the scans read the curves. -/
theorem OrderBook.HoldsOrders.mass_int64Max (h : book.HoldsOrders os) :
    mass book.askLots (· = int64Max) = 0 := by
  rw [h.ask_stored.mass_eq]
  apply mass_eq_zero
  intro x hx
  obtain ⟨o, ho, rfl⟩ := List.mem_map.mp hx
  exact (h.ask_lt o ho).ne

/-- No curve exceeds the total of its side. -/
theorem OrderBook.Sound.curves_lt {book : OrderBook} (h : book.Sound) (p : ℤ) :
    (demand book.bidLots p < 2 ^ 63 ∧ supply book.askLots p < 2 ^ 63) ∧
      demandAbove book.bidLots p < 2 ^ 63 ∧ supplyBelow book.askLots p < 2 ^ 63 :=
  ⟨⟨lt_of_le_of_lt (mass_lots_le _ _) h.bid.total_lt,
    lt_of_le_of_lt (mass_lots_le _ _) h.ask.total_lt⟩,
    lt_of_le_of_lt (mass_lots_le _ _) h.bid.total_lt,
    lt_of_le_of_lt (mass_lots_le _ _) h.ask.total_lt⟩

end Book

/-! ## What publication keeps -/

/-- The bid ladder is written without touching the other fields. -/
theorem writeBids_frame (o : OptimPriceInfo) :
    ∀ (count : ℕ) (levels : List (ℕ × PriceLevel)) (status : OrderBookStatus),
      (writeBids o count levels status).lpr = status.lpr ∧
        (writeBids o count levels status).cvl = status.cvl ∧
        (writeBids o count levels status).nts = status.nts ∧
        (writeBids o count levels status).ap = status.ap ∧
        (writeBids o count levels status).as = status.as
  | 0, _, _ => by simp [writeBids]
  | _ + 1, [], _ => by simp [writeBids]
  | count + 1, e :: es, status => by
      rw [writeBids]
      exact writeBids_frame o count es _

/-- The ask ladder is written without touching the other fields. -/
theorem writeAsks_frame (o : OptimPriceInfo) :
    ∀ (levels : List (ℕ × PriceLevel)) (count : ℕ) (status : OrderBookStatus),
      (writeAsks o count levels status).lpr = status.lpr ∧
        (writeAsks o count levels status).cvl = status.cvl ∧
        (writeAsks o count levels status).nts = status.nts ∧
        (writeAsks o count levels status).bp = status.bp ∧
        (writeAsks o count levels status).bs = status.bs
  | [], _, _ => by simp [writeAsks]
  | e :: es, count, status => by
      by_cases hc : count < 5
      · simp only [writeAsks, if_pos hc]
        exact writeAsks_frame o es (count + 1) _
      · simp only [writeAsks, if_neg hc]
        simp only [and_self]

/-- `lpr`, `cvl` and `nts` are published as computed. -/
theorem publish_fields (o : OptimPriceInfo) (st : MatchState) :
    (publish o st).lpr = o.dealPrice ∧ (publish o st).cvl = o.expectedDealQuantity ∧
      (publish o st).nts = toU64 st.tradeCount := by
  unfold publish
  refine ⟨?_, ?_, ?_⟩
  · rw [(writeAsks_frame o _ _ _).1, (writeBids_frame o _ _ _).1]
  · rw [(writeAsks_frame o _ _ _).2.1, (writeBids_frame o _ _ _).2.1]
  · rw [(writeAsks_frame o _ _ _).2.2.1, (writeBids_frame o _ _ _).2.2.1]

/-- The turnover is written before both ladders, which keep it. -/
theorem writeBids_cto (o : OptimPriceInfo) :
    ∀ (count : ℕ) (levels : List (ℕ × PriceLevel)) (status : OrderBookStatus),
      (writeBids o count levels status).cto = status.cto
  | 0, _, _ => by simp [writeBids]
  | _ + 1, [], _ => by simp [writeBids]
  | count + 1, e :: es, status => by
      rw [writeBids]
      exact writeBids_cto o count es _

theorem writeAsks_cto (o : OptimPriceInfo) :
    ∀ (levels : List (ℕ × PriceLevel)) (count : ℕ) (status : OrderBookStatus),
      (writeAsks o count levels status).cto = status.cto
  | [], _, _ => by simp [writeAsks]
  | e :: es, count, status => by
      by_cases hc : count < 5
      · simp only [writeAsks, if_pos hc]
        exact writeAsks_cto o es (count + 1) _
      · simp only [writeAsks, if_neg hc]

/-- `cto` is published as computed. -/
theorem publish_cto (o : OptimPriceInfo) (st : MatchState) :
    (publish o st).cto = (toI64 (o.expectedDealQuantity * o.dealPrice)).tdiv 10000 := by
  unfold publish
  rw [writeAsks_cto, writeBids_cto]

/-! ## The published price -/

/-- What is settled when `flushStatus` returns on a book that keeps the crossing orders `os`: the
price `q` it publishes and the state `st` the matching loop ends in. -/
structure OrderBook.Priced (book : OrderBook) (os : List Order) (q : ℤ) (st : MatchState) :
    Prop where
  matched : book.matchOrders = .ok st
  flushed : ∀ uninit, book.flushStatus uninit
    = .ok (book, publish (candidate book.bidLots book.askLots q) st)
  price : IsAuctionPrice (bidsOf os) (asksOf os) q

section Priced

variable {book : OrderBook} {os : List Order}

/-- With orders on both sides the matching loop runs. -/
theorem OrderBook.Keeps.exists_matched (h : book.Keeps os)
    (hx : Crossed (bidsOf os) (asksOf os)) : ∃ st, book.matchOrders = .ok st := by
  obtain ⟨b, a, hb, ha, -⟩ := h.exists_best hx
  exact matchOrders_ok (h.orders_ne.1 (List.ne_nil_of_mem (List.mem_of_mem_head? hb)))
    (h.orders_ne.2 (List.ne_nil_of_mem (List.mem_of_mem_head? ha)))

/-- The scans of a book step in exact arithmetic. -/
def OrderBook.ScansExactly (book : OrderBook) : Prop :=
  ∀ best p, IsLevel book.bidLots book.askLots p → InSpread book.bidLots book.askLots p →
    considerLevel book.bidLots book.askLots best p = keepCandidate book.bidLots book.askLots best p

/-- **Crossing orders have an auction price**, and scans in exact arithmetic end with it, whatever
the uninitialised local held. -/
theorem OrderBook.Keeps.exists_isAuctionPrice (h : book.Keeps os)
    (hx : Crossed (bidsOf os) (asksOf os)) :
    ∃ q, IsAuctionPrice (bidsOf os) (asksOf os) q ∧
      (book.ScansExactly → ∀ st, book.matchOrders = .ok st → ∀ uninit, book.flushStatus uninit
        = .ok (book, publish (candidate book.bidLots book.askLots q) st)) := by
  obtain ⟨b, a, hb, ha, hab⟩ := h.exists_best hx
  have hscans := scans h.sound hb ha
  have hcross : Crossed book.bidLots book.askLots :=
    ⟨_, mem_lots_of_mem (List.mem_of_mem_head? hb), _, mem_lots_of_mem (List.mem_of_mem_head? ha),
      by simpa using hab⟩
  obtain ⟨q, hq, hkept⟩ := hscans.exists_isAuctionPrice hcross
    (fun p => (h.sound.curves_lt p).2.1) (fun p => (h.sound.curves_lt p).2.2)
  refine ⟨q, (h.isAuctionPrice_iff q).mp hq, fun hexact st hst uninit => ?_⟩
  have hopt : book.optimum b.1 a.1 uninit = candidate book.bidLots book.askLots q := by
    rw [← hkept uninit, optimum]
    refine List.foldl_ext _ _ _ fun best p hp => ?_
    obtain ⟨hl, hs⟩ := (hscans.mem_iff p).mp hp
    exact hexact best p hl hs
  rw [flushStatus_eq h.sound hb ha hab, hst, hopt]
  rfl

/-- Below `INT64_MAX` the scans step in exact arithmetic. -/
theorem OrderBook.HoldsOrders.scansExactly (h : book.HoldsOrders os) : book.ScansExactly :=
  fun best p _ _ => considerLevel_eq h.mass_int64Max best p (h.sound.curves_lt p).1.1
    (h.sound.curves_lt p).1.2

/-- Crossing orders are published at their auction price. -/
theorem OrderBook.HoldsOrders.exists_priced (h : book.HoldsOrders os)
    (hx : Crossed (bidsOf os) (asksOf os)) : ∃ q st, book.Priced os q st := by
  obtain ⟨st, hst⟩ := h.exists_matched hx
  obtain ⟨q, hq, hflush⟩ := h.exists_isAuctionPrice hx
  exact ⟨q, st, hst, hflush h.scansExactly st hst, hq⟩

/-- The fields of the published status that do not depend on the loop. -/
theorem OrderBook.Keeps.lpr_cvl (h : book.Keeps os) (q : ℤ) (st : MatchState) :
    (publish (candidate book.bidLots book.askLots q) st).lpr = q ∧
      (publish (candidate book.bidLots book.askLots q) st).cvl
        = executable (bidsOf os) (asksOf os) q := by
  obtain ⟨hl, hc, -⟩ := publish_fields (candidate book.bidLots book.askLots q) st
  refine ⟨hl, ?_⟩
  rw [hc, ← h.executable_eq]
  rfl

end Priced

/-- **The auction price.**  On a crossed book `flushStatus` ends normally, with
the same status whatever the uninitialised local held.  The price is an admissible
level of the spread; among the admissible levels of the spread none has a larger
volume, and none with the same volume a smaller imbalance. -/
theorem OrderBook.flushStatus_lpr (calls : List (OptimPriceInfo × Order))
    (hr : ∀ call ∈ calls, call.2.InRange) (ht : TotalsFit (calls.map Prod.snd))
    (hx : Crossed (bidsOf (calls.map Prod.snd)) (asksOf (calls.map Prod.snd))) :
    ∃ book status, OrderBook.insertOrders calls = .ok book ∧
      (∀ uninit, book.flushStatus uninit = .ok (book, status)) ∧
      let bids := bidsOf (calls.map Prod.snd)
      let asks := asksOf (calls.map Prod.snd)
      IsLevel book.bidLots book.askLots status.lpr ∧ IsLevel bids asks status.lpr ∧
        InSpread bids asks status.lpr ∧ Admissible bids asks status.lpr ∧
        status.cvl = executable bids asks status.lpr ∧
        ∀ p, IsLevel bids asks p → InSpread bids asks p → Admissible bids asks p →
          executable bids asks p ≤ executable bids asks status.lpr ∧
            (executable bids asks p = executable bids asks status.lpr →
              |(demandAbove bids status.lpr : ℤ) - supplyBelow asks status.lpr|
                ≤ |(demandAbove bids p : ℤ) - supplyBelow asks p|) := by
  obtain ⟨book, hrun, hbook⟩ := OrderBook.exists_holdsOrders calls hr ht
  obtain ⟨q, st, hp⟩ := hbook.exists_priced hx
  obtain ⟨hlpr, hcvl⟩ := hbook.lpr_cvl q st
  obtain ⟨hlevel, hspread, hadmissible⟩ := hp.price.candidate
  refine ⟨book, _, hrun, hp.flushed, ?_⟩
  intro bids asks
  rw [hlpr]
  refine ⟨(hbook.isLevel_iff q).mpr hlevel, hlevel, hspread, hadmissible, hcvl, ?_⟩
  exact fun p hl hs had => ⟨hp.price.volume p ⟨hl, hs, had⟩, hp.price.balance p ⟨hl, hs, had⟩⟩

/-- The crossing calls are given an admissible price. -/
theorem OrderBook.flushStatus_lpr_crossingCalls :
    ∃ book status, OrderBook.insertOrders crossingCalls = .ok book ∧
      (∀ uninit, book.flushStatus uninit = .ok (book, status)) ∧
      Admissible (bidsOf (crossingCalls.map Prod.snd)) (asksOf (crossingCalls.map Prod.snd))
        status.lpr := by
  obtain ⟨book, status, hrun, hflush, -, -, -, had, -⟩ :=
    OrderBook.flushStatus_lpr crossingCalls (by decide) (by decide) crossed_crossingCalls
  exact ⟨book, status, hrun, hflush, had⟩

/-- **The auction volume.**  `cvl` is the largest volume executable at any integer
price, not only at the prices the scans consider. -/
theorem OrderBook.flushStatus_cvl (calls : List (OptimPriceInfo × Order))
    (hr : ∀ call ∈ calls, call.2.InRange) (ht : TotalsFit (calls.map Prod.snd))
    (hx : Crossed (bidsOf (calls.map Prod.snd)) (asksOf (calls.map Prod.snd))) :
    ∃ book status, OrderBook.insertOrders calls = .ok book ∧
      (∀ uninit, book.flushStatus uninit = .ok (book, status)) ∧
      IsGreatest
        (Set.range fun p : ℤ =>
          (executable (bidsOf (calls.map Prod.snd)) (asksOf (calls.map Prod.snd)) p : ℤ))
        status.cvl := by
  obtain ⟨book, hrun, hbook⟩ := OrderBook.exists_holdsOrders calls hr ht
  obtain ⟨q, st, hp⟩ := hbook.exists_priced hx
  obtain ⟨-, hcvl⟩ := hbook.lpr_cvl q st
  refine ⟨book, _, hrun, hp.flushed, ?_, ?_⟩
  · exact ⟨q, hcvl.symm⟩
  · rintro _ ⟨p, rfl⟩
    rw [hcvl]
    exact Nat.cast_le.mpr (hp.price.executable_le p)

/-- No price whatever trades more of the crossing calls than the volume published. -/
theorem OrderBook.flushStatus_cvl_crossingCalls :
    ∃ book status, OrderBook.insertOrders crossingCalls = .ok book ∧
      (∀ uninit, book.flushStatus uninit = .ok (book, status)) ∧
      IsGreatest
        (Set.range fun p : ℤ => (executable (bidsOf (crossingCalls.map Prod.snd))
          (asksOf (crossingCalls.map Prod.snd)) p : ℤ))
        status.cvl :=
  OrderBook.flushStatus_cvl crossingCalls (by decide) (by decide) crossed_crossingCalls

end Obr
