/-
# The price scans

On a sound book the two scans of `flushStatus` visit the price levels between
the best ask and the best bid, read there the points of the demand and supply
curves, and keep the best admissible one.  They change no map and no assertion
fails.  Only asks at `INT64_MAX`, the sentinel of their prefix sums, bend the
supply that the scans read.
-/
import FastServer.KeepBest
import FastServer.PrefixSum

namespace Obr

open CallAuction PriorityFill

/-! ## Sound books -/

/-- The levels of a map as lots under their prices. -/
def lots (levels : List (ℕ × PriceLevel)) : List (ℤ × ℕ) :=
  levels.map (fun e => ((e.1 : ℤ), e.2.quantity))

/-- One side of a book with positive keys that are an `int64_t`, as is its total. -/
structure SideSound {c : ConfigurableComparator} (m : OrderBookMap c) : Prop where
  key_pos : ∀ e ∈ m.entries, 0 < e.1
  key_lt : ∀ e ∈ m.entries, e.1 < 2 ^ 63
  total_lt : totalQuantity m.entries < 2 ^ 63

/-- The bid scan reads the sentinel of the asks: it starts at a bid under its key. -/
def OrderBook.IndexesMax (book : OrderBook) : Prop :=
  book.bidPriceMaps.HasKey (2 ^ 63 - 1) ∧ book.askPriceMaps.entries ≠ []

instance (book : OrderBook) : Decidable book.IndexesMax := inferInstanceAs (Decidable (_ ∧ _))

/-- A book both sides of which are sound.  If the bid scan reads the sentinel of the asks, a
level is there to be indexed. -/
structure OrderBook.Sound (book : OrderBook) : Prop where
  bid : SideSound book.bidPriceMaps
  ask : SideSound book.askPriceMaps
  sentinel : book.IndexesMax → book.askPriceMaps.HasKey (2 ^ 63 - 1)

/-- The bid levels as lots. -/
abbrev OrderBook.bidLots (book : OrderBook) : List (ℤ × ℕ) := lots book.bidPriceMaps.entries

/-- The ask levels as lots. -/
abbrev OrderBook.askLots (book : OrderBook) : List (ℤ × ℕ) := lots book.askPriceMaps.entries

theorem lots_cons (e : ℕ × PriceLevel) (es : List (ℕ × PriceLevel)) :
    lots (e :: es) = ((e.1 : ℤ), e.2.quantity) :: lots es := rfl

theorem mem_lots {levels : List (ℕ × PriceLevel)} {x : ℤ × ℕ} :
    x ∈ lots levels ↔ ∃ e ∈ levels, (e.1 : ℤ) = x.1 ∧ e.2.quantity = x.2 := by
  unfold lots
  rw [List.mem_map]
  constructor
  · rintro ⟨e, he, rfl⟩
    exact ⟨e, he, rfl, rfl⟩
  · rintro ⟨e, he, h1, h2⟩
    exact ⟨e, he, Prod.ext h1 h2⟩

theorem mem_lots_of_mem {levels : List (ℕ × PriceLevel)} {e : ℕ × PriceLevel} (he : e ∈ levels) :
    ((e.1 : ℤ), e.2.quantity) ∈ lots levels :=
  List.mem_map_of_mem he

/-- Lots under prices and lots under keys weigh the same. -/
theorem mass_keyLots (levels : List (ℕ × PriceLevel)) (s : ℤ → Prop) [DecidablePred s]
    (t : ℕ → Prop) [DecidablePred t] (h : ∀ k, t k ↔ s k) :
    mass (keyLots levels) t = mass (lots levels) s := by
  induction levels with
  | nil => rfl
  | cons e es ih =>
      rw [keyLots_cons, mass_cons, ih, lots_cons, mass_cons]
      congr 1
      exact if_congr (h e.1) rfl rfl

/-- No part of a side exceeds its total. -/
theorem mass_lots_le (levels : List (ℕ × PriceLevel)) (s : ℤ → Prop) [DecidablePred s] :
    mass (lots levels) s ≤ totalQuantity levels := by
  have h := mass_le_sum (l := lots levels) (s := s)
  have e : (lots levels).map Prod.snd = (keyLots levels).map Prod.snd := by
    simp [lots, keyLots]
  rwa [e] at h

/-- What `operator[]` reads at a price is the quantity the side holds there. -/
theorem quantity_getD {c : ConfigurableComparator} (m : OrderBookMap c) (k : ℕ) :
    ((m.get? k).getD {}).quantity = mass (lots m.entries) (· = (k : ℤ)) := by
  obtain ⟨es, hs⟩ := m
  unfold SortedMap.get?
  simp only
  induction es with
  | nil => rfl
  | cons e es ih =>
      obtain ⟨he, hes⟩ := List.pairwise_cons.mp hs
      rw [lots_cons, mass_cons]
      by_cases hk : e.1 = k
      · have hzero : mass (lots es) (· = (k : ℤ)) = 0 := by
          apply mass_eq_zero
          intro x hx hxk
          obtain ⟨e', he', h1, -⟩ := mem_lots.mp hx
          have : e'.1 = e.1 := by omega
          exact irrefl_of c.lt e.1 (this ▸ he e' he')
        rw [List.find?_cons_of_pos (by simpa using hk), if_pos (by omega)]
        simpa using hzero
      · rw [List.find?_cons_of_neg (by simpa using hk), if_neg (by omega), zero_add]
        exact ih hes

/-! ## Candidates -/

/-- The candidate `current` for price `p`, in exact arithmetic. -/
def candidate (bids asks : List (ℤ × ℕ)) (p : ℤ) : OptimPriceInfo where
  dealPrice := p
  expectedDealQuantity := executable bids asks p
  buyAboveQuantity := demandAbove bids p
  askBelowQuantity := supplyBelow asks p
  buyDealPriceLeftQuantity := demand bids p - executable bids asks p
  askDealPriceRightQuantity := supply asks p - executable bids asks p

/-- `operator>` is a strict order. -/
instance : IsStrictOrder OptimPriceInfo OptimPriceInfo.gt where
  irrefl := by
    rintro a (h | ⟨-, h⟩) <;> omega
  trans := by
    rintro a b c (h | ⟨h, h'⟩) (g | ⟨g, g'⟩)
    · exact Or.inl (by omega)
    · exact Or.inl (by omega)
    · exact Or.inl (by omega)
    · exact Or.inr ⟨by omega, by omega⟩

/-- One step of either scan, in exact arithmetic. -/
def keepCandidate (bids asks : List (ℤ × ℕ)) (best : OptimPriceInfo) (p : ℤ) : OptimPriceInfo :=
  KeepBest.keep OptimPriceInfo.gt (Admissible bids asks) (candidate bids asks) best p

/-- The candidate `current` for price `p` when `curBuy` is bid at `p` and `above` above it, and
`curSell` is asked at `p` and `below` below it. -/
def readCandidate (p : ℤ) (curBuy above curSell below : ℕ) : OptimPriceInfo where
  dealPrice := p
  expectedDealQuantity := (min (above + curBuy) (below + curSell) : ℕ)
  buyAboveQuantity := above
  askBelowQuantity := below
  buyDealPriceLeftQuantity := (above + curBuy : ℕ) - (min (above + curBuy) (below + curSell) : ℕ)
  askDealPriceRightQuantity := (below + curSell : ℕ) - (min (above + curBuy) (below + curSell) : ℕ)

/-- **One pass through the loop body.**  If no sum wraps, a level is accepted when either side
covers what is better on the other, and then the better candidate is kept. -/
theorem considerPrice_natCast (p : ℤ) {curBuy above curSell below : ℕ} (best : OptimPriceInfo)
    (hB : above + curBuy < 2 ^ 63) (hA : below + curSell < 2 ^ 63) :
    considerPrice p curBuy above curSell below best
      = if above ≤ below + curSell ∧ below ≤ above + curBuy then
          if (readCandidate p curBuy above curSell below).gt best then
            readCandidate p curBuy above curSell below
          else best
        else best := by
  have hb : toI64 ((above : ℤ) + curBuy) = (above + curBuy : ℕ) := by
    rw [← Nat.cast_add, toI64_natCast hB]
  have ha : toI64 ((below : ℤ) + curSell) = (below + curSell : ℕ) := by
    rw [← Nat.cast_add, toI64_natCast hA]
  have hok : priceOk curBuy above curSell below = true ↔
      above ≤ below + curSell ∧ below ≤ above + curBuy := by
    rw [priceOk, hb, ha]
    split_ifs with h1 h2
    · rw [Bool.not_eq_true', decide_eq_false_iff_not]
      omega
    · rw [Bool.not_eq_true', decide_eq_false_iff_not]
      omega
    · simp only [true_iff]
      omega
  have hmin : min ((above + curBuy : ℕ) : ℤ) (below + curSell : ℕ)
      = (min (above + curBuy) (below + curSell) : ℕ) := (Nat.cast_min _ _).symm
  have hleft : toI64 ((curBuy : ℤ) + above - (min (above + curBuy) (below + curSell) : ℕ))
      = (above + curBuy : ℕ) - (min (above + curBuy) (below + curSell) : ℕ) := by
    rw [toI64_of_range (by omega) (by omega)]
    omega
  have hright : toI64 ((curSell : ℤ) + below - (min (above + curBuy) (below + curSell) : ℕ))
      = (below + curSell : ℕ) - (min (above + curBuy) (below + curSell) : ℕ) := by
    rw [toI64_of_range (by omega) (by omega)]
    omega
  rw [considerPrice]
  simp only [hok, hb, ha, hmin, hleft, hright]
  rfl

/-- If the sum of the asks wraps it is read as negative, and the level is not accepted. -/
theorem considerPrice_of_wraps (p : ℤ) {curBuy above curSell below : ℕ} (best : OptimPriceInfo)
    (hB : above + curBuy < 2 ^ 63) (hA : 2 ^ 63 ≤ below + curSell)
    (hlt : below + curSell < 2 ^ 64) :
    considerPrice p curBuy above curSell below best = best := by
  have hb : toI64 ((above : ℤ) + curBuy) = (above + curBuy : ℕ) := by
    rw [← Nat.cast_add, toI64_natCast hB]
  have ha : toI64 ((below : ℤ) + curSell) < 0 := toI64_neg (by omega) (by omega)
  have hok : priceOk curBuy above curSell below = false := by
    rw [priceOk, hb, if_pos (by omega), Bool.not_eq_false', decide_eq_true_eq]
    omega
  rw [considerPrice, hok]
  rfl

/-- **One step of a scan.**  Within range, the loop body keeps the better of the
best so far and the admissible candidate. -/
theorem considerPrice_eq {bids asks : List (ℤ × ℕ)} {p : ℤ} (best : OptimPriceInfo)
    (hB : demand bids p < 2 ^ 63) (hA : supply asks p < 2 ^ 63) :
    considerPrice p (toI64 (mass bids (· = p))) (toI64 (demandAbove bids p))
        (toI64 (mass asks (· = p))) (toI64 (supplyBelow asks p)) best
      = keepCandidate bids asks best p := by
  have eB := demand_eq_add bids p
  have eA := supply_eq_add asks p
  have hread : readCandidate p (mass bids (· = p)) (demandAbove bids p) (mass asks (· = p))
      (supplyBelow asks p) = candidate bids asks p := by
    rw [readCandidate, candidate, executable, eB, eA]
  have hok : Admissible bids asks p ↔
      demandAbove bids p ≤ supplyBelow asks p + mass asks (· = p) ∧
        supplyBelow asks p ≤ demandAbove bids p + mass bids (· = p) := by
    rw [← eB, ← eA]
    rfl
  rw [toI64_natCast (by omega), toI64_natCast (by omega), toI64_natCast (by omega),
    toI64_natCast (by omega), considerPrice_natCast p best (by omega) (by omega), hread]
  simp only [keepCandidate, KeepBest.keep, hok]

/-- The price is above all asks but those at `INT64_MAX`. -/
def AboveAsks (asks : List (ℤ × ℕ)) (p : ℤ) : Prop := ∀ x ∈ asks, x.1 < int64Max → x.1 < p

instance (asks : List (ℤ × ℕ)) (p : ℤ) : Decidable (AboveAsks asks p) :=
  inferInstanceAs (Decidable (∀ x ∈ asks, x.1 < int64Max → x.1 < p))

/-- What the scans read as the supply below a price: once no ask below `INT64_MAX` is at the
price or above it, the asks at `INT64_MAX` count as well. -/
def sumBelow (asks : List (ℤ × ℕ)) (p : ℤ) : ℕ :=
  supplyBelow asks p + if AboveAsks asks p then mass asks (· = int64Max) else 0

/-- One step of either scan. -/
def considerLevel (bids asks : List (ℤ × ℕ)) (best : OptimPriceInfo) (p : ℤ) : OptimPriceInfo :=
  considerPrice p (toI64 (mass bids (· = p))) (toI64 (demandAbove bids p))
    (toI64 (mass asks (· = p))) (toI64 (sumBelow asks p)) best

/-- At a price where one side has no lots no level of it is read. -/
theorem considerLevel_of_mass_eq_zero (bids asks : List (ℤ × ℕ)) (p : ℤ) (best : OptimPriceInfo) :
    (mass asks (· = p) = 0 →
      considerPrice p (toI64 (mass bids (· = p))) (toI64 (demandAbove bids p)) 0
        (toI64 (sumBelow asks p)) best = considerLevel bids asks best p) ∧
    (mass bids (· = p) = 0 →
      considerPrice p 0 (toI64 (demandAbove bids p)) (toI64 (mass asks (· = p)))
        (toI64 (sumBelow asks p)) best = considerLevel bids asks best p) := by
  have h0 : toI64 ((0 : ℕ) : ℤ) = 0 := by decide
  constructor <;>
  · intro h
    rw [considerLevel, h, h0]

/-- Without asks at `INT64_MAX` the scans read the supply below a price. -/
theorem sumBelow_eq {asks : List (ℤ × ℕ)} (h : mass asks (· = int64Max) = 0) (p : ℤ) :
    sumBelow asks p = supplyBelow asks p := by
  rw [sumBelow, h, ite_self, Nat.add_zero]

/-- Without asks at `INT64_MAX` a step of the scans is one in exact arithmetic. -/
theorem considerLevel_eq {bids asks : List (ℤ × ℕ)} (h : mass asks (· = int64Max) = 0)
    (best : OptimPriceInfo) (p : ℤ) (hB : demand bids p < 2 ^ 63) (hA : supply asks p < 2 ^ 63) :
    considerLevel bids asks best p = keepCandidate bids asks best p := by
  rw [considerLevel, sumBelow_eq h, considerPrice_eq best hB hA]

/-! ## The bid scan -/

/-- Every key of a sound side is below `2^64` and survives the conversions. -/
theorem SideSound.toI64_key {c : ConfigurableComparator} {m : OrderBookMap c} (h : SideSound m)
    {e : ℕ × PriceLevel} (he : e ∈ m.entries) : toI64 (e.1 : ℤ) = e.1 := by
  have := h.key_lt e he
  exact toI64_natCast (by omega)

theorem SideSound.toU64_key {c : ConfigurableComparator} {m : OrderBookMap c} (h : SideSound m)
    {e : ℕ × PriceLevel} (he : e ∈ m.entries) : toU64 (e.1 : ℤ) = e.1 := by
  have := h.key_lt e he
  exact toU64_natCast (by omega)

/-- **Indexing a present level changes nothing.** -/
theorem OrderBook.bidLevel_eq {book : OrderBook} {e : ℕ × PriceLevel}
    (h : book.Sound) (he : e ∈ book.bidPriceMaps.entries) : book.bidLevel e.1 = (book, e.2) := by
  have hget : book.bidPriceMaps.get? e.1 = some e.2 := SortedMap.get?_of_mem_entries he
  rw [bidLevel, h.bid.toU64_key he, SortedMap.upsert_id_of_get? _ hget, hget]
  rfl

/-- The same on the ask side. -/
theorem OrderBook.askLevel_eq {book : OrderBook} {e : ℕ × PriceLevel}
    (h : book.Sound) (he : e ∈ book.askPriceMaps.entries) : book.askLevel e.1 = (book, e.2) := by
  have hget : book.askPriceMaps.get? e.1 = some e.2 := SortedMap.get?_of_mem_entries he
  rw [askLevel, h.ask.toU64_key he, SortedMap.upsert_id_of_get? _ hget, hget]
  rfl

/-- The quantity of a level is what its side holds at its price. -/
theorem quantity_of_mem {c : ConfigurableComparator} {m : OrderBookMap c} {e : ℕ × PriceLevel}
    (he : e ∈ m.entries) : e.2.quantity = mass (lots m.entries) (· = (e.1 : ℤ)) := by
  rw [← quantity_getD, SortedMap.get?_of_mem_entries he]
  rfl

/-- A price without a level holds nothing. -/
theorem mass_eq_zero_of_no_level {levels : List (ℕ × PriceLevel)} {k : ℕ}
    (h : ¬ ∃ e ∈ levels, e.1 = k) : mass (lots levels) (· = (k : ℤ)) = 0 := by
  apply mass_eq_zero
  intro x hx hxk
  obtain ⟨e, he, h1, -⟩ := mem_lots.mp hx
  exact h ⟨e, he, by omega⟩

/-- The running sums of the asks, with the sentinel `INT64_MAX`. -/
theorem sumBefore_asks (levels : List (ℕ × PriceLevel)) (k : ℕ) :
    sumBefore (fun a b => a < b) (2 ^ 63 - 1) levels k = sumBelow (lots levels) k := by
  have hbefore : mass (keyLots levels) (· < k) = supplyBelow (lots levels) k :=
    mass_keyLots levels (· < (k : ℤ)) (· < k) fun _ => Nat.cast_lt.symm
  have hlast : mass (keyLots levels) (· = 2 ^ 63 - 1) = mass (lots levels) (· = int64Max) := by
    refine mass_keyLots levels (· = int64Max) (· = 2 ^ 63 - 1) fun n => ?_
    unfold int64Max
    omega
  have hall : (∀ e ∈ levels, e.1 < 2 ^ 63 - 1 → e.1 < k) ↔ AboveAsks (lots levels) k := by
    unfold AboveAsks int64Max
    constructor
    · intro h x hx hlt
      obtain ⟨e, he, h1, -⟩ := mem_lots.mp hx
      have := h e he (by omega)
      omega
    · intro h e he hlt
      have := h _ (mem_lots_of_mem he) (by simp only; omega)
      simpa using this
  rw [sumBefore, sumBelow, hbefore, hlast]
  simp only [hall]

/-- The running sums of the bids, with the sentinel 0, below all of them. -/
theorem sumBefore_bids {levels : List (ℕ × PriceLevel)} (hpos : ∀ e ∈ levels, 0 < e.1) (k : ℕ) :
    sumBefore (fun a b => a > b) 0 levels k = demandAbove (lots levels) k := by
  have hbefore : mass (keyLots levels) (· > k) = demandAbove (lots levels) k :=
    mass_keyLots levels ((k : ℤ) < ·) (· > k) fun _ => Nat.cast_lt.symm
  have hlast : mass (keyLots levels) (· = 0) = 0 := by
    apply mass_eq_zero
    intro y hy
    obtain ⟨e, he, rfl⟩ := List.mem_map.mp hy
    exact (hpos e he).ne'
  rw [sumBefore, hbefore, hlast, ite_self, Nat.add_zero]

/-- What `lower_bound` on `askPrefixSum` finds for a price in range. -/
theorem OrderBook.askPrefixSum_lowerBound {book : OrderBook} (h : book.Sound) {k : ℕ}
    (hk : k < 2 ^ 63) :
    ∃ askIt, book.askPrefixSum.lowerBound k = some askIt ∧
      askIt.2 = sumBelow book.askLots k ∧
      (askIt.1 = k ↔ (∃ e ∈ book.askPriceMaps.entries, e.1 = k) ∨ 2 ^ 63 - 1 = k) := by
  have htot := h.ask.total_lt
  obtain ⟨k', hk', hiff⟩ := lowerBound_prefixSum (fun a b : ℕ => a < b) (2 ^ 63 - 1) k
    book.askPriceMaps.sorted
    (fun e he => by have := h.ask.key_lt e he; omega) (by omega) (by omega)
  rw [sumBefore_asks, ← toU64_int64Max] at hk'
  exact ⟨_, hk', rfl, hiff⟩

/-- What `lower_bound` on `bidPrefixSum` finds for a positive price. -/
theorem OrderBook.bidPrefixSum_lowerBound {book : OrderBook} (h : book.Sound) {k : ℕ}
    (hk : 0 < k) :
    ∃ bidIt, book.bidPrefixSum.lowerBound k = some bidIt ∧
      bidIt.2 = demandAbove book.bidLots k ∧
      (bidIt.1 = k ↔ ∃ e ∈ book.bidPriceMaps.entries, e.1 = k) := by
  have htot := h.bid.total_lt
  obtain ⟨k', hk', hiff⟩ := lowerBound_prefixSum (fun a b : ℕ => a > b) 0 k
    book.bidPriceMaps.sorted (fun e he => by omega) (by omega) (by omega)
  rw [sumBefore_bids h.bid.key_pos] at hk'
  exact ⟨_, hk', rfl, hiff.trans (or_iff_left hk.ne)⟩

/-- The prices a scan visits: the keys up to where it breaks off. -/
def visited (stop : ℕ → Bool) (sums : List (ℕ × ℕ)) : List ℤ :=
  (sums.takeWhile (fun x => !stop x.1)).map (fun x => (x.1 : ℤ))

theorem visited_cons_stop {stop : ℕ → Bool} {x : ℕ × ℕ} (xs : List (ℕ × ℕ))
    (h : stop x.1 = true) : visited stop (x :: xs) = [] := by
  rw [visited, List.takeWhile_cons_of_neg (by simp [h])]
  rfl

theorem visited_cons_go {stop : ℕ → Bool} {x : ℕ × ℕ} (xs : List (ℕ × ℕ))
    (h : stop x.1 = false) : visited stop (x :: xs) = (x.1 : ℤ) :: visited stop xs := by
  rw [visited, List.takeWhile_cons_of_pos (by simp [h])]
  rfl

/-- At a price of the bids `lower_bound` on `askPrefixSum` finds an ask level at that price, or
no ask is there. -/
theorem OrderBook.Sound.askIt_cases {book : OrderBook} (h : book.Sound) {k : ℕ} {askIt : ℕ × ℕ}
    (hiff : askIt.1 = k ↔ (∃ e ∈ book.askPriceMaps.entries, e.1 = k) ∨ 2 ^ 63 - 1 = k)
    (hne : book.askPriceMaps.entries ≠ []) (hk : book.bidPriceMaps.HasKey k) :
    (askIt.1 = k ∧ ∃ e ∈ book.askPriceMaps.entries, e.1 = k) ∨
      (askIt.1 ≠ k ∧ mass book.askLots (· = (k : ℤ)) = 0) := by
  by_cases hak : askIt.1 = k
  · refine Or.inl ⟨hak, (hiff.mp hak).elim id fun hmax => ?_⟩
    exact hmax ▸ h.sentinel ⟨hmax ▸ hk, hne⟩
  · exact Or.inr ⟨hak, mass_eq_zero_of_no_level fun hex => hak (hiff.mpr (Or.inl hex))⟩

/-- **The bid scan.**  It leaves the book alone, no assertion fails, and every price visited is
considered with what the curves are there. -/
theorem OrderBook.bidScan_eq {book : OrderBook} (h : book.Sound)
    (hne : book.askPriceMaps.entries ≠ []) (minBidPrice : ℤ) :
    ∀ (sums : List (ℕ × ℕ)) (best : OptimPriceInfo),
      (∀ x ∈ sums, ¬ x.1 < toU64 minBidPrice →
        (∃ e ∈ book.bidPriceMaps.entries, e.1 = x.1) ∧ x.2 = demandAbove book.bidLots x.1) →
      bidScan book.askPrefixSum minBidPrice sums book best
        = .ok (book, (visited (fun k => k < toU64 minBidPrice) sums).foldl
            (considerLevel book.bidLots book.askLots) best)
  | [], best, _ => rfl
  | x :: xs, best, hx => by
      rw [bidScan]
      by_cases hlt : x.1 < toU64 minBidPrice
      · rw [if_pos hlt, visited_cons_stop xs (by simpa using hlt)]
        rfl
      · obtain ⟨⟨e, he, hk⟩, hsum⟩ := hx x List.mem_cons_self hlt
        have hkey := h.bid.key_lt e he
        obtain ⟨askIt, hfind, hbelow, hiff⟩ := OrderBook.askPrefixSum_lowerBound h (k := x.1)
          (by omega)
        have hq := quantity_of_mem he
        rw [hk] at hq
        have ih := OrderBook.bidScan_eq h hne minBidPrice xs
          (considerLevel book.bidLots book.askLots best x.1)
          (fun y hy => hx y (List.mem_cons_of_mem _ hy))
        rw [if_neg hlt, visited_cons_go xs (by simpa using hlt), List.foldl_cons]
        have hI : toI64 (x.1 : ℤ) = x.1 := hk ▸ h.bid.toI64_key he
        have hU : toU64 (x.1 : ℤ) = x.1 := hk ▸ h.bid.toU64_key he
        have hL : book.bidLevel x.1 = (book, e.2) := hk ▸ OrderBook.bidLevel_eq h he
        simp only [hI, hL, hU, hfind, hsum, hbelow, hq]
        rcases h.askIt_cases hiff hne ⟨e, he, hk⟩ with ⟨hak, e', he', hk'⟩ | ⟨hak, hzero⟩
        · have hq' := quantity_of_mem he'
          rw [hk'] at hq'
          have hL' : book.askLevel x.1 = (book, e'.2) := hk' ▸ OrderBook.askLevel_eq h he'
          simp only [hak, if_true, hL', hq']
          exact ih
        · have hstep := (considerLevel_of_mass_eq_zero book.bidLots book.askLots x.1 best).1 hzero
          simp only [hak, if_false, hstep]
          exact ih

/-- **The ask scan**, likewise. -/
theorem OrderBook.askScan_eq {book : OrderBook} (h : book.Sound) (maxAskPrice : ℤ) :
    ∀ (sums : List (ℕ × ℕ)) (best : OptimPriceInfo),
      (∀ x ∈ sums, ¬ x.1 > toU64 maxAskPrice →
        (∃ e ∈ book.askPriceMaps.entries, e.1 = x.1) ∧ x.2 = sumBelow book.askLots x.1) →
      askScan book.bidPrefixSum maxAskPrice sums book best
        = .ok (book, (visited (fun k => k > toU64 maxAskPrice) sums).foldl
            (considerLevel book.bidLots book.askLots) best)
  | [], best, _ => rfl
  | x :: xs, best, hx => by
      rw [askScan]
      by_cases hlt : x.1 > toU64 maxAskPrice
      · rw [if_pos hlt, visited_cons_stop xs (by simpa using hlt)]
        rfl
      · obtain ⟨⟨e, he, hk⟩, hsum⟩ := hx x List.mem_cons_self hlt
        have hkey := h.ask.key_pos e he
        obtain ⟨bidIt, hfind, habove, hiff⟩ := OrderBook.bidPrefixSum_lowerBound h (k := x.1)
          (by omega)
        have hq := quantity_of_mem he
        rw [hk] at hq
        have ih := OrderBook.askScan_eq h maxAskPrice xs
          (considerLevel book.bidLots book.askLots best x.1)
          (fun y hy => hx y (List.mem_cons_of_mem _ hy))
        rw [if_neg hlt, visited_cons_go xs (by simpa using hlt), List.foldl_cons]
        have hI : toI64 (x.1 : ℤ) = x.1 := hk ▸ h.ask.toI64_key he
        have hU : toU64 (x.1 : ℤ) = x.1 := hk ▸ h.ask.toU64_key he
        have hL : book.askLevel x.1 = (book, e.2) := hk ▸ OrderBook.askLevel_eq h he
        simp only [hI, hL, hU, hfind, hsum, habove, hq]
        by_cases hbk : bidIt.1 = x.1
        · obtain ⟨e', he', hk'⟩ := hiff.mp hbk
          have hq' := quantity_of_mem he'
          rw [hk'] at hq'
          have hL' : book.bidLevel x.1 = (book, e'.2) := hk' ▸ OrderBook.bidLevel_eq h he'
          simp only [hbk, if_true, hL', hq']
          exact ih
        · have hzero := mass_eq_zero_of_no_level (fun h => hbk (hiff.mpr h))
          have hstep := (considerLevel_of_mass_eq_zero book.bidLots book.askLots x.1 best).2 hzero
          simp only [hbk, if_false, hstep]
          exact ih

/-! ## The prices visited -/

/-- Every price visited is a key at which the scan does not stop. -/
theorem of_mem_visited {stop : ℕ → Bool} {sums : List (ℕ × ℕ)} {p : ℤ}
    (h : p ∈ visited stop sums) : ∃ x ∈ sums, stop x.1 = false ∧ (x.1 : ℤ) = p := by
  obtain ⟨x, hx, rfl⟩ := List.mem_map.mp h
  refine ⟨x, (List.takeWhile_sublist _).subset hx, ?_, rfl⟩
  simpa using List.mem_takeWhile_imp hx

/-- In a sorted map a scan that stops for good visits every key before that. -/
theorem mem_visited (lt : ℕ → ℕ → Prop) {stop : ℕ → Bool}
    (hstop : ∀ a b, lt a b → stop a = true → stop b = true) {x : ℕ × ℕ} :
    ∀ {sums : List (ℕ × ℕ)}, sums.Pairwise (fun a b => lt a.1 b.1) → x ∈ sums →
      stop x.1 = false → (x.1 : ℤ) ∈ visited stop sums
  | y :: ys, hs, hx, hgo => by
      obtain ⟨hy, hys⟩ := List.pairwise_cons.mp hs
      have hygo : stop y.1 = false := by
        rcases List.mem_cons.mp hx with rfl | hx
        · exact hgo
        · by_contra hc
          rw [Bool.not_eq_false] at hc
          rw [hstop _ _ (hy x hx) hc] at hgo
          exact absurd hgo (by decide)
      rw [visited_cons_go ys hygo]
      rcases List.mem_cons.mp hx with rfl | hx
      · exact List.mem_cons_self
      · exact List.mem_cons_of_mem _ (mem_visited lt hstop hys hx hgo)

theorem OrderBook.hasKey_bidPrefixSum {book : OrderBook} {k : ℕ} :
    book.bidPrefixSum.HasKey k ↔ k = 0 ∨ book.bidPriceMaps.HasKey k := hasKey_prefixSum

theorem OrderBook.hasKey_askPrefixSum {book : OrderBook} {k : ℕ} :
    book.askPrefixSum.HasKey k ↔ k = 2 ^ 63 - 1 ∨ book.askPriceMaps.HasKey k := by
  rw [← toU64_int64Max]
  exact hasKey_prefixSum

/-- `bidPrefixSum`, in iteration order. -/
theorem OrderBook.bidPrefixSum_entries {book : OrderBook} (h : book.Sound) :
    book.bidPrefixSum.entries
      = runningSums book.bidPriceMaps.entries 0
        ++ [(0, totalQuantity book.bidPriceMaps.entries)] := by
  have htot := h.bid.total_lt
  have hall : levelsBefore (fun a b => a > b) 0 book.bidPriceMaps.entries
      = book.bidPriceMaps.entries :=
    List.filter_eq_self.mpr fun e he => decide_eq_true (h.bid.key_pos e he)
  have hentries := prefixSum_entries (fun a b => a > b) 0
    book.bidPriceMaps.sorted (fun e _ => Nat.not_lt_zero _) (by omega)
  rwa [hall] at hentries

/-- `askPrefixSum`, in iteration order. -/
theorem OrderBook.askPrefixSum_entries {book : OrderBook} (h : book.Sound) :
    book.askPrefixSum.entries
      = runningSums (levelsBefore (fun a b => a < b) (2 ^ 63 - 1) book.askPriceMaps.entries) 0
        ++ [(2 ^ 63 - 1, totalQuantity book.askPriceMaps.entries)] := by
  have htot := h.ask.total_lt
  have hentries := prefixSum_entries (fun a b => a < b) (2 ^ 63 - 1)
    book.askPriceMaps.sorted (fun e he => by have := h.ask.key_lt e he; omega) (by omega)
  rwa [← toU64_int64Max] at hentries ⊢

/-- The entries of `bidPrefixSum` at positive keys are the bid levels with the
quantity above them. -/
theorem OrderBook.of_mem_bidPrefixSum {book : OrderBook} (h : book.Sound) {x : ℕ × ℕ}
    (hx : x ∈ book.bidPrefixSum.entries) (hpos : 0 < x.1) :
    (∃ e ∈ book.bidPriceMaps.entries, e.1 = x.1) ∧ x.2 = demandAbove book.bidLots x.1 := by
  rw [bidPrefixSum_entries h] at hx
  rcases List.mem_append.mp hx with hx | hx
  · refine ⟨exists_level_of_mem_runningSums hx, ?_⟩
    rw [snd_of_mem_runningSums book.bidPriceMaps.sorted hx, zero_add]
    exact mass_keyLots _ ((x.1 : ℤ) < ·) (x.1 < ·) (fun _ => Nat.cast_lt.symm)
  · rw [List.mem_singleton] at hx
    subst hx
    exact absurd hpos (lt_irrefl 0)

/-- The entries of `askPrefixSum` hold what is read as the quantity below their keys. -/
theorem OrderBook.of_mem_askPrefixSum {book : OrderBook} (h : book.Sound) {x : ℕ × ℕ}
    (hx : x ∈ book.askPrefixSum.entries) : x.2 = sumBelow book.askLots x.1 := by
  have hsent : ∀ e ∈ book.askPriceMaps.entries, ¬ 2 ^ 63 - 1 < e.1 := by
    intro e he
    have := h.ask.key_lt e he
    omega
  rw [askPrefixSum_entries h] at hx
  rw [← sumBefore_asks]
  rcases List.mem_append.mp hx with hx | hx
  · obtain ⟨e, he, hk⟩ := exists_level_of_mem_runningSums hx
    obtain ⟨he, hlt⟩ := mem_levelsBefore.mp he
    have hs : book.askPriceMaps.entries.Pairwise fun a b => a.1 < b.1 := book.askPriceMaps.sorted
    have hbefore : (levelsBefore (fun a b => a < b) (2 ^ 63 - 1)
        book.askPriceMaps.entries).Pairwise fun a b => a.1 < b.1 := hs.sublist List.filter_sublist
    rw [snd_of_mem_runningSums hbefore hx, zero_add, mass_levelsBefore hs hsent (by omega),
      sumBefore, if_neg, Nat.add_zero]
    -- the level itself is not below its own price
    intro hall
    have := hall e he hlt
    omega
  · rw [List.mem_singleton] at hx
    subst hx
    rw [sumBefore, if_pos fun e _ hlt => hlt,
      mass_before_add_last hsent (lt_irrefl _) fun e _ hlt => hlt]

end Obr
