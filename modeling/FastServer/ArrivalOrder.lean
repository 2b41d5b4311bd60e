/-
# Arrival order does not matter

Two lists of orders with the same quantity at every price of either side leave books with
the same levels, although the orders in them differ.  What `flushStatus` publishes, but for
the number of trades, depends on the levels alone: the scans read nothing else, and where the
walk over the orders stops is decided by the volume.
-/
import FastServer.AuctionTies
import FastServer.Ladder

namespace Obr

open CallAuction PriorityFill OrderIterator

/-! ## Rearrangements -/

/-- The orders come in another order, or an order comes in several parts. -/
inductive Rearranged : List Order → List Order → Prop
  | perm {os os' : List Order} : os.Perm os' → Rearranged os os'
  | split {pre post parts : List Order} {o : Order} :
      (∀ x ∈ parts, x.side = o.side ∧ x.price = o.price ∧ 0 < x.quantity) →
      totalOf parts = o.quantity → Rearranged (pre ++ o :: post) (pre ++ parts ++ post)
  | trans {os os' os'' : List Order} : Rearranged os os' → Rearranged os' os'' →
      Rearranged os os''

/-- What both statuses say, the number of trades apart. -/
structure SamePublished (status status' : OrderBookStatus) : Prop where
  lpr : status.lpr = status'.lpr
  cvl : status.cvl = status'.cvl
  cto : status.cto = status'.cto
  bp : status.bp = status'.bp
  ap : status.ap = status'.ap
  bs : status.bs = status'.bs
  as : status.as = status'.as

/-- The quantity of either side is the same at all prices. -/
def SameMass (os os' : List Order) : Prop :=
  ∀ (side : ℤ) (s : ℤ → Prop) [DecidablePred s],
    mass (orderLots (onSide side os)) s = mass (orderLots (onSide side os')) s

/-- The parts of an order weigh what the order weighs. -/
theorem mass_parts {parts : List Order} {o : Order}
    (hparts : ∀ x ∈ parts, x.side = o.side ∧ x.price = o.price ∧ 0 < x.quantity)
    (htotal : totalOf parts = o.quantity) (side : ℤ) (s : ℤ → Prop) [DecidablePred s] :
    mass (orderLots (onSide side [o])) s = mass (orderLots (onSide side parts)) s := by
  by_cases hside : o.side = side
  · have hone : onSide side [o] = [o] := by simp [onSide, hside]
    have hall : onSide side parts = parts := by
      apply List.filter_eq_self.mpr
      intro x hx
      simpa using (hparts x hx).1.trans hside
    rw [hone, hall, mass_orderLots_of_price (fun x hx => (hparts x hx).2.1), htotal]
    simp [orderLots, mass_cons]
  · have hone : onSide side [o] = [] := by simp [onSide, hside]
    have hnone : onSide side parts = [] := by
      apply List.filter_eq_nil_iff.mpr
      intro x hx hxside
      exact hside ((hparts x hx).1.symm.trans (of_decide_eq_true hxside))
    rw [hone, hnone]

/-- **A rearrangement** keeps the quantity at every price. -/
theorem Rearranged.sameMass {os os' : List Order} (h : Rearranged os os') : SameMass os os' := by
  induction h with
  | perm hperm =>
    intro side s _
    exact mass_perm ((hperm.filter _).map _) s
  | @split pre post parts o hparts htotal =>
    intro side s _
    have hcons : onSide side (o :: post) = onSide side [o] ++ onSide side post :=
      onSide_append side [o] post
    have happend : ∀ xs ys : List Order, orderLots (xs ++ ys) = orderLots xs ++ orderLots ys :=
      fun xs ys => List.map_append
    rw [onSide_append, onSide_append, onSide_append, hcons, happend, happend, happend, happend,
      mass_append, mass_append, mass_append, mass_append, mass_parts hparts htotal, Nat.add_assoc]
  | trans _ _ ih ih' =>
    intro side s _
    exact (ih side s).trans (ih' side s)

/-- A rearrangement keeps what is said of sides, prices and positive quantities. -/
theorem Rearranged.forall {os os' : List Order} (h : Rearranged os os')
    (hr : ∀ o ∈ os, o.InRange ∧ 0 < o.quantity) : ∀ o ∈ os', o.InRange ∧ 0 < o.quantity := by
  induction h with
  | perm hperm =>
    intro o ho
    exact hr o (hperm.mem_iff.mpr ho)
  | @split pre post parts o hparts htotal =>
    intro x hx
    rw [List.mem_append, List.mem_append] at hx
    rcases hx with (hx | hx) | hx
    · exact hr x (List.mem_append_left _ hx)
    · obtain ⟨hside, hprice, hpos⟩ := hparts x hx
      obtain ⟨hrange, -⟩ := hr o (List.mem_append_right _ List.mem_cons_self)
      refine ⟨?_, hpos⟩
      rw [Order.InRange, hside, hprice]
      exact hrange
    · exact hr x (List.mem_append_right _ (List.mem_cons_of_mem _ hx))
  | trans _ _ ih ih' => exact ih' (ih hr)

/-- The totals are quantities at all prices. -/
theorem SameMass.totalsFit {os os' : List Order} (h : SameMass os os') (ht : TotalsFit os) :
    TotalsFit os' := by
  have htotal : ∀ side, totalOf (onSide side os) = totalOf (onSide side os') := by
    intro side
    have hall := h side (fun _ => True)
    rwa [mass_eq_sum (fun _ _ => trivial), mass_eq_sum (fun _ _ => trivial), sum_orderLots,
      sum_orderLots] at hall
  rwa [TotalsFit, htotal, htotal] at ht

/-! ## The levels -/

section Side

variable {c : ConfigurableComparator} {m m' : OrderBookMap c} {os os' : List Order}

/-- A level is a price with a quantity. -/
theorem Holds.mem_keyLots_iff (h : Holds m os) (hpos : ∀ o ∈ os, 0 < o.quantity) {x : ℕ × ℕ} :
    x ∈ keyLots m.entries ↔ 0 < x.2 ∧ mass (orderLots os) (· = (x.1 : ℤ)) = x.2 := by
  have hpos' : ∀ o ∈ ordersOf m.entries, 0 < o.quantity := fun o ho => hpos o (h.perm.mem_iff.mp ho)
  constructor
  · intro hx
    obtain ⟨e, he, rfl⟩ := List.mem_map.mp hx
    refine ⟨h.toStores.quantity_pos hpos' he (h.orders_ne e he), ?_⟩
    rw [← h.mass_eq]
    exact (quantity_of_mem he).symm
  · rintro ⟨hqty, hmass⟩
    obtain ⟨y, hy, hprice⟩ : ∃ y ∈ orderLots os, y.1 = (x.1 : ℤ) := by
      by_contra hnone
      push Not at hnone
      rw [mass_eq_zero hnone] at hmass
      omega
    obtain ⟨z, hz, hzprice⟩ := (h.exists_price_iff (· = (x.1 : ℤ))).mpr ⟨y, hy, hprice⟩
    obtain ⟨e, he, hkey, -⟩ := mem_lots.mp hz
    have hkey : e.1 = x.1 := by omega
    refine List.mem_map.mpr ⟨e, he, Prod.ext hkey ?_⟩
    rw [← hmass, ← h.mass_eq, ← hkey]
    exact quantity_of_mem he

/-- **The same quantities make the same levels.** -/
theorem Holds.keyLots_eq (h : Holds m os) (h' : Holds m' os') (hpos : ∀ o ∈ os, 0 < o.quantity)
    (hpos' : ∀ o ∈ os', 0 < o.quantity)
    (hmass : ∀ p, mass (orderLots os) (· = p) = mass (orderLots os') (· = p)) :
    keyLots m.entries = keyLots m'.entries := by
  refine SortedMap.eq_of_pairwise_fst (List.pairwise_map.mpr m.sorted)
    (List.pairwise_map.mpr m'.sorted) ?_
  intro x
  rw [h.mem_keyLots_iff hpos, h'.mem_keyLots_iff hpos', hmass]

end Side

/-- Prices and quantities, as they are looked at by the curves. -/
theorem lots_eq_map_keyLots (levels : List (ℕ × PriceLevel)) :
    lots levels = (keyLots levels).map fun x => ((x.1 : ℤ), x.2) := by
  rw [lots, keyLots, List.map_map]
  rfl

/-- Two books with the same levels. -/
structure OrderBook.SameLevels (book book' : OrderBook) : Prop where
  bid : keyLots book.bidPriceMaps.entries = keyLots book'.bidPriceMaps.entries
  ask : keyLots book.askPriceMaps.entries = keyLots book'.askPriceMaps.entries

section Levels

variable {book book' : OrderBook} {os os' : List Order}

theorem OrderBook.SameLevels.bidLots_eq (h : book.SameLevels book') :
    book.bidLots = book'.bidLots := by
  rw [bidLots, bidLots, lots_eq_map_keyLots, lots_eq_map_keyLots, h.bid]

theorem OrderBook.SameLevels.askLots_eq (h : book.SameLevels book') :
    book.askLots = book'.askLots := by
  rw [askLots, askLots, lots_eq_map_keyLots, lots_eq_map_keyLots, h.ask]

/-- The orders cross if the levels do. -/
theorem OrderBook.HoldsOrders.crossed_iff (h : book.HoldsOrders os) :
    Crossed book.bidLots book.askLots ↔ Crossed (bidsOf os) (asksOf os) := by
  constructor
  · rintro ⟨b, hb, a, ha, hab⟩
    obtain ⟨b', hb', hab'⟩ := (h.bid.exists_price_iff (a.1 ≤ ·)).mp ⟨b, hb, hab⟩
    obtain ⟨a', ha', hab''⟩ := (h.ask.exists_price_iff (· ≤ b'.1)).mp ⟨a, ha, hab'⟩
    exact ⟨b', hb', a', ha', hab''⟩
  · rintro ⟨b, hb, a, ha, hab⟩
    obtain ⟨b', hb', hab'⟩ := (h.bid.exists_price_iff (a.1 ≤ ·)).mpr ⟨b, hb, hab⟩
    obtain ⟨a', ha', hab''⟩ := (h.ask.exists_price_iff (· ≤ b'.1)).mpr ⟨a, ha, hab'⟩
    exact ⟨b', hb', a', ha', hab''⟩

/-- A book that is not crossed publishes nothing. -/
theorem OrderBook.flushStatus_of_not_crossed (hx : ¬ Crossed book.bidLots book.askLots)
    (uninit : OptimPriceInfo) : book.flushStatus uninit = .ok (book, {}) := by
  cases hb : book.bidPriceMaps.entries.head? with
  | none => rw [flushStatus, hb]
  | some b =>
    cases ha : book.askPriceMaps.entries.head? with
    | none => rw [flushStatus, hb, ha]
    | some a =>
      have hlt : b.1 < a.1 := by
        by_contra hle
        refine hx ⟨_, mem_lots_of_mem (List.mem_of_mem_head? hb), _,
          mem_lots_of_mem (List.mem_of_mem_head? ha), ?_⟩
        exact Nat.cast_le.mpr (not_lt.mp hle)
      rw [flushStatus, hb, ha]
      simp only [if_pos hlt]

end Levels

/-! ## Where the walk stops -/

/-- A suffix is made of the members that satisfy `s`, if those are its members. -/
theorem suffix_eq_filter {α : Type*} {l l' : List α} (hl : l.Nodup) (hs : l' <:+ l) (s : α → Prop)
    [DecidablePred s] (hmem : ∀ x ∈ l, x ∈ l' ↔ s x) : l' = l.filter s := by
  obtain ⟨pre, rfl⟩ := hs
  have hdisjoint := (List.nodup_append.mp hl).2.2
  have hpre : pre.filter s = [] := by
    apply List.filter_eq_nil_iff.mpr
    intro x hx hsx
    have hx' := (hmem x (List.mem_append_left _ hx)).mpr (of_decide_eq_true hsx)
    exact hdisjoint x hx x hx' rfl
  have hpost : l'.filter s = l' := by
    apply List.filter_eq_self.mpr
    intro x hx
    exact decide_eq_true ((hmem x (List.mem_append_right _ hx)).mp hx)
  rw [List.filter_append, hpre, hpost, List.nil_append]

section Side

variable {c : ConfigurableComparator} {m : OrderBookMap c} {os : List Order}
  {lt : ℤ → ℤ → Prop} [DecidableRel lt] [IsStrictTotalOrder ℤ lt] {st : MatchState}
  {side : Order × OrderIterator × ℕ}

/-- **The levels left**, by price and quantity: those the volume has not passed. -/
theorem Standing.keyLots_mapIter (hm : Holds m os) (hq : Queue lt m.entries)
    (hlt : ∀ a b : ℕ, c.lt a b → lt a b) (hs : Standing m.entries side st.volume) :
    keyLots side.2.1.mapIter
      = (keyLots m.entries).filter fun x => st.volume < upTo lt (queueLots m.entries) x.1 := by
  have hnodup : m.entries.Nodup := by
    refine m.sorted.imp ?_
    rintro e e' hee rfl
    exact irrefl_of c.lt e.1 hee
  have hfilter := suffix_eq_filter hnodup hs.mapIter_suffix
    (fun e => st.volume < upTo lt (queueLots m.entries) e.1)
    (fun e he => Standing.mem_mapIter_iff hm.toStores hq hlt hs he)
  rw [hfilter, keyLots, keyLots, List.filter_map]
  rfl

end Side

/-! ## What is published -/

/-- A cell of either ladder, from the price and the quantity of its level. -/
def shownCell (dealPrice left : ℤ) (x : ℕ × ℕ) : ℤ × ℤ :=
  (toI32 x.1, if x.1 = toU64 dealPrice then toI32 left else toI32 x.2)

theorem map_bidCell (o : OptimPriceInfo) (levels : List (ℕ × PriceLevel)) :
    levels.map (bidCell o)
      = (keyLots levels).map (shownCell o.dealPrice o.buyDealPriceLeftQuantity) := by
  rw [keyLots, List.map_map]
  rfl

theorem map_askCell (o : OptimPriceInfo) (levels : List (ℕ × PriceLevel)) :
    levels.map (askCell o)
      = (keyLots levels).map (shownCell o.dealPrice o.askDealPriceRightQuantity) := by
  rw [keyLots, List.map_map]
  rfl

/-- **The status depends on the levels left**, not on the orders in them. -/
theorem publish_samePublished (o : OptimPriceInfo) {st st' : MatchState}
    (hbuy : keyLots st.buyOrderIt.getMapIter = keyLots st'.buyOrderIt.getMapIter)
    (hsell : keyLots st.sellOrderIt.getMapIter = keyLots st'.sellOrderIt.getMapIter) :
    SamePublished (publish o st) (publish o st') := by
  have hbid : ∀ j, (publish o st).bidAt j = (publish o st').bidAt j := by
    intro j
    have h := (publish_ladder o st j.rev).1
    have h' := (publish_ladder o st' j.rev).1
    rw [Fin.rev_rev, ← List.getElem?_map, map_bidCell] at h h'
    rw [h, h', hbuy]
  have hask : ∀ j, (publish o st).askAt j = (publish o st').askAt j := by
    intro j
    rw [(publish_ladder o st j).2, (publish_ladder o st' j).2, ← List.getElem?_map,
      ← List.getElem?_map, map_askCell, map_askCell, hsell]
  obtain ⟨hlpr, hcvl, -⟩ := publish_fields o st
  obtain ⟨hlpr', hcvl', -⟩ := publish_fields o st'
  constructor
  case lpr => rw [hlpr, hlpr']
  case cvl => rw [hcvl, hcvl']
  case cto => rw [publish_cto, publish_cto]
  case bp => exact funext fun j => congrArg Prod.fst (hbid j)
  case ap => exact funext fun j => congrArg Prod.fst (hask j)
  case bs => exact funext fun j => congrArg Prod.snd (hbid j)
  case as => exact funext fun j => congrArg Prod.snd (hask j)

/-! ## Two runs -/

section Runs

variable {book book' : OrderBook} {os os' : List Order}

/-- Orders of the same mass make the same levels. -/
theorem OrderBook.HoldsOrders.sameLevels (h : book.HoldsOrders os) (h' : book'.HoldsOrders os')
    (hpos : ∀ o ∈ os, 0 < o.quantity) (hpos' : ∀ o ∈ os', 0 < o.quantity)
    (hmass : SameMass os os') : book.SameLevels book' := by
  have hside : ∀ side, ∀ o ∈ onSide side os, 0 < o.quantity :=
    fun side o ho => hpos o (List.mem_filter.mp ho).1
  have hside' : ∀ side, ∀ o ∈ onSide side os', 0 < o.quantity :=
    fun side o ho => hpos' o (List.mem_filter.mp ho).1
  constructor
  · exact h.bid.keyLots_eq h'.bid (hside 1) (hside' 1) fun p => hmass 1 (· = p)
  · exact h.ask.keyLots_eq h'.ask (hside 2) (hside' 2) fun p => hmass 2 (· = p)

variable {q q' : ℤ} {st st' : MatchState}

/-- **The same levels, the same price**, ties included. -/
theorem OrderBook.SameLevels.price_eq (hlev : book.SameLevels book') (h : book.Cleared os q st)
    (h' : book'.Cleared os' q' st') : q = q' := by
  have hq := (h.holds.isAuctionPrice_iff q).mpr h.price
  have hq' := (h'.holds.isAuctionPrice_iff q').mpr h'.price
  rw [hlev.bidLots_eq, hlev.askLots_eq] at hq
  exact hq.unique hq'

/-- The walks trade the same volume. -/
theorem OrderBook.Cleared.volume_congr (h : book.Cleared os q st) (h' : book'.Cleared os' q st')
    (hmass : SameMass os os') : st.volume = st'.volume := by
  rw [h.volume_eq, h'.volume_eq, executable, executable, demand, demand, supply, supply,
    hmass 1, hmass 2]

/-- The walks leave the same bids. -/
theorem OrderBook.Cleared.bidsLeft_eq (h : book.Cleared os q st) (h' : book'.Cleared os' q st')
    (hlev : book.SameLevels book') (hvol : st.volume = st'.volume) (hmass : SameMass os os') :
    keyLots st.buyOrderIt.getMapIter = keyLots st'.buyOrderIt.getMapIter := by
  have hleft := Standing.keyLots_mapIter h.holds.bid h.bid_queue
    (fun a b hab => Nat.cast_lt.mpr hab) h.walked.buy
  have hleft' := Standing.keyLots_mapIter h'.holds.bid h'.bid_queue
    (fun a b hab => Nat.cast_lt.mpr hab) h'.walked.buy
  simp only [h.upTo_bids, h'.upTo_bids] at hleft hleft'
  have hdemand : ∀ p, demand (bidsOf os) p = demand (bidsOf os') p := fun p => hmass 1 (p ≤ ·)
  simp only [hlev.bid, hvol, hdemand] at hleft
  exact hleft.trans hleft'.symm

/-- The walks leave the same asks. -/
theorem OrderBook.Cleared.asksLeft_eq (h : book.Cleared os q st) (h' : book'.Cleared os' q st')
    (hlev : book.SameLevels book') (hvol : st.volume = st'.volume) (hmass : SameMass os os') :
    keyLots st.sellOrderIt.getMapIter = keyLots st'.sellOrderIt.getMapIter := by
  have hleft := Standing.keyLots_mapIter h.holds.ask h.ask_queue
    (fun a b hab => Nat.cast_lt.mpr hab) h.walked.sell
  have hleft' := Standing.keyLots_mapIter h'.holds.ask h'.ask_queue
    (fun a b hab => Nat.cast_lt.mpr hab) h'.walked.sell
  simp only [h.upTo_asks, h'.upTo_asks] at hleft hleft'
  have hsupply : ∀ p, supply (asksOf os) p = supply (asksOf os') p := fun p => hmass 2 (· ≤ p)
  simp only [hlev.ask, hvol, hsupply] at hleft
  exact hleft.trans hleft'.symm

/-- Two cleared books of the same mass publish the same. -/
theorem OrderBook.Cleared.samePublished (h : book.Cleared os q st) (h' : book'.Cleared os' q' st')
    (hlev : book.SameLevels book') (hmass : SameMass os os') :
    SamePublished (publish (candidate book.bidLots book.askLots q) st)
      (publish (candidate book'.bidLots book'.askLots q') st') := by
  obtain rfl : q = q' := hlev.price_eq h h'
  have hvol := h.volume_congr h' hmass
  rw [hlev.bidLots_eq, hlev.askLots_eq]
  exact publish_samePublished _ (h.bidsLeft_eq h' hlev hvol hmass)
    (h.asksLeft_eq h' hlev hvol hmass)

end Runs

/-- **Arrival order and splitting do not matter.**  Two lists of calls with the same orders up to
permutation and splitting publish the same price, volume, turnover and ladders. -/
theorem OrderBook.flushStatus_rearranged {calls calls' : List (OptimPriceInfo × Order)}
    (hr : ∀ call ∈ calls, call.2.InRange) (hpos : ∀ call ∈ calls, 0 < call.2.quantity)
    (ht : TotalsFit (calls.map Prod.snd))
    (h : Rearranged (calls.map Prod.snd) (calls'.map Prod.snd)) :
    ∃ book book' status status', OrderBook.insertOrders calls = .ok book ∧
      OrderBook.insertOrders calls' = .ok book' ∧
      (∀ uninit, book.flushStatus uninit = .ok (book, status)) ∧
      (∀ uninit, book'.flushStatus uninit = .ok (book', status')) ∧
      SamePublished status status' := by
  have hos : ∀ o ∈ calls.map Prod.snd, o.InRange ∧ 0 < o.quantity := by
    intro o ho
    obtain ⟨call, hcall, rfl⟩ := List.mem_map.mp ho
    exact ⟨hr call hcall, hpos call hcall⟩
  have hos' := h.forall hos
  have hr' : ∀ call ∈ calls', call.2.InRange :=
    fun call hcall => (hos' _ (List.mem_map_of_mem hcall)).1
  have hmass := h.sameMass
  obtain ⟨book, hrun, hbook⟩ := OrderBook.exists_holdsOrders calls hr ht
  obtain ⟨book', hrun', hbook'⟩ := OrderBook.exists_holdsOrders calls' hr' (hmass.totalsFit ht)
  have hlev := hbook.sameLevels hbook' (fun o ho => (hos o ho).2) (fun o ho => (hos' o ho).2) hmass
  by_cases hx : Crossed book.bidLots book.askLots
  · have hx' : Crossed book'.bidLots book'.askLots := by
      rwa [hlev.bidLots_eq, hlev.askLots_eq] at hx
    rw [hbook.crossed_iff] at hx
    rw [hbook'.crossed_iff] at hx'
    obtain ⟨q, st, hcleared⟩ := hbook.exists_cleared (fun o ho => (hos o ho).2) hx
    obtain ⟨q', st', hcleared'⟩ := hbook'.exists_cleared (fun o ho => (hos' o ho).2) hx'
    exact ⟨book, book', _, _, hrun, hrun', hcleared.flushed, hcleared'.flushed,
      hcleared.samePublished hcleared' hlev hmass⟩
  · have hx' : ¬ Crossed book'.bidLots book'.askLots := by
      rwa [hlev.bidLots_eq, hlev.askLots_eq] at hx
    refine ⟨book, book', {}, {}, hrun, hrun', OrderBook.flushStatus_of_not_crossed hx,
      OrderBook.flushStatus_of_not_crossed hx', ?_⟩
    constructor <;> rfl

/-- The crossing calls in another order, the ask in two parts. -/
def crossingCallsRearranged : List (OptimPriceInfo × Order) :=
  [(⟨0, 0, 0, 0, 0, 0⟩, ⟨4, 100, 15, 2⟩), (⟨3, 1, 4, 1, 5, 9⟩, ⟨5, 100, 25, 2⟩),
    (⟨2, 2, 2, 2, 2, 2⟩, ⟨2, 100, 20, 1⟩), (⟨0, 0, 0, 0, 0, 0⟩, ⟨1, 101, 30, 1⟩)]

/-- The crossing calls and their rearrangement publish the same. -/
theorem OrderBook.flushStatus_rearranged_crossingCalls :
    ∃ book book' status status', OrderBook.insertOrders crossingCalls = .ok book ∧
      OrderBook.insertOrders crossingCallsRearranged = .ok book' ∧
      (∀ uninit, book.flushStatus uninit = .ok (book, status)) ∧
      (∀ uninit, book'.flushStatus uninit = .ok (book', status')) ∧
      SamePublished status status' := by
  have hsplit := @Rearranged.split [⟨1, 101, 30, 1⟩, ⟨2, 100, 20, 1⟩] []
    [⟨4, 100, 15, 2⟩, ⟨5, 100, 25, 2⟩] ⟨3, 100, 40, 2⟩ (by decide) (by decide)
  have hperm : ([⟨1, 101, 30, 1⟩, ⟨2, 100, 20, 1⟩, ⟨4, 100, 15, 2⟩, ⟨5, 100, 25, 2⟩] :
      List Order).Perm (crossingCallsRearranged.map Prod.snd) := by decide
  exact OrderBook.flushStatus_rearranged (by decide) (by decide) (by decide)
    (hsplit.trans (.perm hperm))

end Obr
