/-
# Exact ladders

The ladders are arrays of `int`.  They show the book left exactly if the best five prices at
which something is left, and what is left there, fit in an `int`, and the level without orders
that a bid at `INT64_MAX` has the scans create is not among the levels shown.
-/
import FastServer.Ladder

namespace Obr

open CallAuction PriorityFill OrderIterator

/-! ## Positions in a ladder -/

/-- The number of prices at which something is left. -/
def pricesLeft (lots : List (ℤ × ℕ)) (left : ℤ → ℕ) : ℕ :=
  ((lots.map Prod.fst).toFinset.filter fun p => 0 < left p).card

section Positions

variable {lt : ℤ → ℤ → Prop} [DecidableRel lt] [IsStrictTotalOrder ℤ lt]

/-- An entry of a sorted list stands behind as many entries as have a better price. -/
theorem card_better_of_getElem? {L : List (ℤ × ℕ)} {x : ℤ × ℕ} {i : ℕ}
    (hs : L.Pairwise fun y z => lt y.1 z.1) (hx : L[i]? = some x) :
    ((L.map Prod.fst).toFinset.filter (lt · x.1)).card = i := by
  induction L generalizing i with
  | nil => simp at hx
  | cons y ys ih =>
    obtain ⟨hy, hys⟩ := List.pairwise_cons.mp hs
    have hkeys : ∀ k ∈ (ys.map Prod.fst).toFinset, lt y.1 k := by
      intro k hk
      obtain ⟨z, hz, rfl⟩ := List.mem_map.mp (List.mem_toFinset.mp hk)
      exact hy z hz
    rw [List.map_cons, List.toFinset_cons]
    cases i with
    | zero =>
      obtain rfl : y = x := Option.some.inj hx
      rw [Finset.card_eq_zero, Finset.filter_eq_empty_iff]
      intro k hk hlt
      rcases Finset.mem_insert.mp hk with rfl | hk
      · exact irrefl_of lt _ hlt
      · exact irrefl_of lt _ (trans_of lt hlt (hkeys k hk))
    | succ i =>
      have hx' : ys[i]? = some x := hx
      have hlt : lt y.1 x.1 := hy x (List.mem_of_getElem? hx')
      rw [Finset.filter_insert, if_pos hlt, Finset.card_insert_of_notMem, ih hys hx']
      intro hmem
      exact irrefl_of lt _ (hkeys y.1 (Finset.mem_filter.mp hmem).1)

variable {lots L : List (ℤ × ℕ)} {left : ℤ → ℕ}

/-- The prices of a list of what is left are those of the lots at which something is left. -/
theorem mem_left_iff (hmem : ∀ p r, (p, r) ∈ L ↔ 0 < r ∧ left p = r)
    (hlots : ∀ p, 0 < left p → p ∈ lots.map Prod.fst) {p : ℤ} :
    p ∈ L.map Prod.fst ↔ p ∈ lots.map Prod.fst ∧ 0 < left p := by
  constructor
  · intro hp
    obtain ⟨⟨p, r⟩, hpr, rfl⟩ := List.mem_map.mp hp
    obtain ⟨hr, rfl⟩ := (hmem p r).mp hpr
    exact ⟨hlots p hr, hr⟩
  · rintro ⟨-, hp⟩
    exact List.mem_map.mpr ⟨_, (hmem p _).mpr ⟨hp, rfl⟩, rfl⟩

/-- **The best prices are the first entries** of a sorted list of what is left. -/
theorem amongBest_iff (n : ℕ)
    (hs : L.Pairwise fun y z => lt y.1 z.1) (hmem : ∀ p r, (p, r) ∈ L ↔ 0 < r ∧ left p = r)
    (hlots : ∀ p, 0 < left p → p ∈ lots.map Prod.fst) (p : ℤ) :
    AmongBest n lt lots left p ↔ ∃ i < n, L[i]? = some (p, left p) := by
  have hkeys : (lots.map Prod.fst).toFinset.filter (fun p' => lt p' p ∧ 0 < left p')
      = (L.map Prod.fst).toFinset.filter (lt · p) := by
    ext k
    simp only [Finset.mem_filter, List.mem_toFinset, mem_left_iff hmem hlots]
    tauto
  rw [AmongBest, hkeys]
  constructor
  · rintro ⟨hp, hcard⟩
    obtain ⟨i, hi⟩ := List.mem_iff_getElem?.mp ((hmem p _).mpr ⟨hp, rfl⟩)
    exact ⟨i, card_better_of_getElem? hs hi ▸ hcard, hi⟩
  · rintro ⟨i, hin, hi⟩
    refine ⟨((hmem p _).mp (List.mem_of_getElem? hi)).1, ?_⟩
    rw [card_better_of_getElem? hs hi]
    exact hin

omit [DecidableRel lt] in
/-- A sorted list of what is left has an entry for each price. -/
theorem length_eq_pricesLeft (hs : L.Pairwise fun y z => lt y.1 z.1)
    (hmem : ∀ p r, (p, r) ∈ L ↔ 0 < r ∧ left p = r)
    (hlots : ∀ p, 0 < left p → p ∈ lots.map Prod.fst) : L.length = pricesLeft lots left := by
  have hnodup : (L.map Prod.fst).Nodup := by
    rw [List.Nodup, List.pairwise_map]
    refine hs.imp ?_
    rintro x y hxy heq
    exact irrefl_of lt _ (heq ▸ hxy)
  have hkeys : (lots.map Prod.fst).toFinset.filter (fun p => 0 < left p)
      = (L.map Prod.fst).toFinset := by
    ext k
    simp only [Finset.mem_filter, List.mem_toFinset, mem_left_iff hmem hlots]
  rw [pricesLeft, hkeys, List.toFinset_card_of_nodup hnodup, List.length_map]

omit [DecidableRel lt] [IsStrictTotalOrder ℤ lt] in
/-- **Empty entries stand last**, if nothing comes behind one. -/
theorem eq_append_empty {X : List (ℤ × ℕ)} (hs : X.Pairwise fun x y => lt x.1 y.1)
    (hlast : ∀ x ∈ X, x.2 = 0 → ∀ y ∈ X, ¬ lt x.1 y.1) :
    X = X.filter (fun x => 0 < x.2) ++ X.filter (fun x => x.2 = 0) := by
  induction X with
  | nil => rfl
  | cons x xs ih =>
    obtain ⟨hx, hxs⟩ := List.pairwise_cons.mp hs
    by_cases hzero : x.2 = 0
    · have hnil : xs = [] := by
        refine List.eq_nil_iff_forall_not_mem.mpr fun y hy => ?_
        exact hlast x List.mem_cons_self hzero y (List.mem_cons_of_mem _ hy) (hx y hy)
      rw [hnil, List.filter_cons_of_neg (by simp [hzero]),
        List.filter_cons_of_pos (by simp [hzero])]
      rfl
    · have hih := ih hxs fun z hz h0 y hy =>
        hlast z (List.mem_cons_of_mem _ hz) h0 y (List.mem_cons_of_mem _ hy)
      rw [List.filter_cons_of_pos (by simpa using Nat.pos_of_ne_zero hzero),
        List.filter_cons_of_neg (by simpa using hzero), List.cons_append, ← hih]

end Positions

/-! ## Ladders of `int`s -/

/-- The best five prices left, and what is left at them, fit in an `int`. -/
def LadderFits (better : ℤ → ℤ → Prop) [DecidableRel better] (lots : List (ℤ × ℕ))
    (left : ℤ → ℕ) : Prop :=
  ∀ p, AmongBest 5 better lots left p → p < 2 ^ 31 ∧ left p < 2 ^ 31

section Ladder

variable {lt : ℤ → ℤ → Prop} [DecidableRel lt] [IsStrictTotalOrder ℤ lt]
  {lots : List (ℤ × ℕ)} {matched left : ℤ → ℕ} {shown : Fin 5 → ℤ × ℤ}

omit [DecidableRel lt] [IsStrictTotalOrder ℤ lt] in
/-- Something is left only at the price of a lot. -/
theorem mem_of_left_pos (hleft : ∀ p, matched p + left p = mass lots (· = p)) {p : ℤ}
    (hp : 0 < left p) : p ∈ lots.map Prod.fst := by
  by_contra hno
  have hzero : mass lots (· = p) = 0 := by
    apply mass_eq_zero
    rintro x hx rfl
    exact hno (List.mem_map_of_mem hx)
  have := hleft p
  omega

/-- **What is shown as an `int` fits in one.**  If the book left is shown exactly and only
numbers below `2^31` are shown, the best five prices left fit. -/
theorem LeftBook.fits (h : LeftBook lt lots matched shown)
    (hleft : ∀ p, matched p + left p = mass lots (· = p))
    (hlt : ∀ i, (shown i).1 < 2 ^ 31 ∧ (shown i).2 < 2 ^ 31) : LadderFits lt lots left := by
  obtain ⟨-, L, hs, hmem, hshown⟩ := h
  have hmemLeft : ∀ p r, (p, r) ∈ L ↔ 0 < r ∧ left p = r := by
    intro p r
    have := hleft p
    rw [hmem]
    omega
  intro p hp
  obtain ⟨i, hi, hget⟩ :=
    (amongBest_iff 5 hs hmemLeft (fun _ => mem_of_left_pos hleft) p).mp hp
  have hfit := hlt ⟨i, hi⟩
  simp only [hshown, hget, Option.map_some, Option.getD_some] at hfit
  omega

/-- **A ladder of `int`s.**  If the levels left are shown after a conversion to `int`, the book
left is shown exactly if the best five of them fit and no level without quantity is among the
first five. -/
theorem leftBook_iff {X : List (ℤ × ℕ)} (hs : X.Pairwise fun x y => lt x.1 y.1)
    (hleft : ∀ p, matched p + left p = mass lots (· = p))
    (hmem : ∀ p r, 0 < r → ((p, r) ∈ X ↔ matched p + r = mass lots (· = p)))
    (h0 : ∀ x ∈ X, 0 ≤ x.1)
    (hlast : ∀ x ∈ X, x.2 = 0 → toI32 x.1 ≠ 0 ∧ ∀ y ∈ X, ¬ lt x.1 y.1)
    (hshown : ∀ i : Fin 5, shown i
      = (X[(i : ℕ)]?.map fun x => (toI32 x.1, toI32 (x.2 : ℤ))).getD (0, 0)) :
    LeftBook lt lots matched shown ↔
      LadderFits lt lots left ∧ ((∃ x ∈ X, x.2 = 0) → 5 ≤ pricesLeft lots left) := by
  obtain ⟨L, hL⟩ : ∃ L, L = X.filter fun x => 0 < x.2 := ⟨_, rfl⟩
  obtain ⟨empty, hempty⟩ : ∃ empty, empty = X.filter fun x => x.2 = 0 := ⟨_, rfl⟩
  have hX : X = L ++ empty := by
    rw [hL, hempty]
    exact eq_append_empty hs fun x hx hx0 => (hlast x hx hx0).2
  have hsL : L.Pairwise fun x y => lt x.1 y.1 := hL ▸ hs.sublist List.filter_sublist
  have hmemL : ∀ p r, (p, r) ∈ L ↔ 0 < r ∧ matched p + r = mass lots (· = p) := by
    intro p r
    rw [hL, List.mem_filter, decide_eq_true_eq, and_comm]
    exact and_congr_right fun hr => hmem p r hr
  have hmemLeft : ∀ p r, (p, r) ∈ L ↔ 0 < r ∧ left p = r := by
    intro p r
    have := hleft p
    rw [hmemL]
    omega
  have hlots : ∀ p, 0 < left p → p ∈ lots.map Prod.fst := fun _ => mem_of_left_pos hleft
  have hbest := amongBest_iff 5 hsL hmemLeft hlots
  rw [← length_eq_pricesLeft hsL hmemLeft hlots]
  constructor
  · intro h
    refine ⟨h.fits hleft fun i => ?_, ?_⟩
    · rw [hshown]
      cases X[(i : ℕ)]? with
      | none => simp
      | some x =>
        simp only [Option.map_some, Option.getD_some]
        exact ⟨toI32_lt _, toI32_lt _⟩
    · rintro ⟨x, hx, hx0⟩
      by_contra hlen
      obtain ⟨-, L', hs', hmem', hshown'⟩ := h
      obtain rfl : L' = L := by
        refine SortedMap.eq_of_pairwise_fst hs' hsL ?_
        rintro ⟨k, r⟩
        rw [hmem', hmemL]
      -- behind the levels left the first empty one is shown
      have hne : empty ≠ [] := by
        rw [hempty]
        exact List.ne_nil_of_mem (List.mem_filter.mpr ⟨hx, by simpa using hx0⟩)
      obtain ⟨y, ys, hy⟩ := List.exists_cons_of_ne_nil hne
      have hymem : y ∈ X.filter fun x => x.2 = 0 := hempty ▸ hy ▸ List.mem_cons_self
      have hget : X[L'.length]? = some y := by
        rw [hX, hy, List.getElem?_append_right (le_refl _), Nat.sub_self,
          List.getElem?_cons_zero]
      have heq := (hshown' ⟨L'.length, by omega⟩).symm.trans (hshown ⟨L'.length, by omega⟩)
      simp only [hget, List.getElem?_eq_none (le_refl _), Option.map_none, Option.getD_none,
        Option.map_some, Option.getD_some, Prod.mk.injEq] at heq
      refine (hlast y (List.mem_of_mem_filter hymem) ?_).1 heq.1.symm
      simpa using (List.mem_filter.mp hymem).2
  · rintro ⟨hfits, hroom⟩
    refine ⟨fun p => ?_, L, hsL, hmemL, fun i => ?_⟩
    · have := hleft p
      omega
    · have hget : X[(i : ℕ)]? = L[(i : ℕ)]? := by
        by_cases hex : ∃ x ∈ X, x.2 = 0
        · have hi := i.isLt
          have hlen := hroom hex
          rw [hX, List.getElem?_append_left (by omega)]
        · have hnil : empty = [] := by
            rw [hempty, List.filter_eq_nil_iff]
            exact fun x hx hx0 => hex ⟨x, hx, of_decide_eq_true hx0⟩
          rw [hX, hnil, List.append_nil]
      rw [hshown, hget]
      cases hi : L[(i : ℕ)]? with
      | none => rfl
      | some x =>
        have hx := List.mem_of_getElem? hi
        obtain ⟨-, hr⟩ := (hmemLeft x.1 x.2).mp hx
        obtain ⟨hp, hq⟩ := hfits x.1 ((hbest x.1).mpr ⟨i, i.isLt, by rw [hi, hr]⟩)
        have := h0 x (hX ▸ List.mem_append_left _ hx)
        simp only [Option.map_some, Option.getD_some]
        rw [toI32_of_range (by omega) hp, toI32_of_range (by omega) (by omega)]

end Ladder

/-! ## The ladders of a book -/

/-- The level without orders is shown: a bid at `INT64_MAX` has the scans create it among the
asks, no ask is there, and what is left of the asks does not fill the ladder. -/
structure SentinelShown (os : List Order) (volume : ℕ) : Prop where
  bid : ∃ o ∈ onSide 1 os, o.price = int64Max
  no_ask : ∀ o ∈ onSide 2 os, o.price ≠ int64Max
  some_left : 0 < pricesLeft (asksOf os) (askLeft (asksOf os) volume)
  room : pricesLeft (asksOf os) (askLeft (asksOf os) volume) < 5

/-- Every price of the levels left is a key. -/
theorem nonneg_of_mem_leftLevels {price : Trade → ℤ} {trades : List Trade}
    {levels : List (ℕ × PriceLevel)} {x : ℤ × ℕ} (hx : x ∈ leftLevels price trades levels) :
    0 ≤ x.1 := by
  obtain ⟨e, -, rfl⟩ := List.mem_map.mp hx
  exact Int.natCast_nonneg _

/-- A ladder shows the levels left after a conversion to `int`. -/
theorem getElem?_leftLevels {price : Trade → ℤ} {trades : List Trade}
    {levels : List (ℕ × PriceLevel)} {cell : ℕ × PriceLevel → ℤ × ℤ}
    (hcell : ∀ e ∈ levels, cell e
      = (toI32 e.1, toI32 ((e.2.quantity - filled price trades e.1 : ℕ) : ℤ))) (i : ℕ) :
    levels[i]?.map cell
      = (leftLevels price trades levels)[i]?.map fun x => (toI32 x.1, toI32 (x.2 : ℤ)) := by
  rw [leftLevels, List.getElem?_map]
  cases hi : levels[i]? with
  | none => rfl
  | some e => simp only [Option.map_some, hcell e (List.mem_of_getElem? hi)]

/-- What the loops store are `int`s. -/
theorem cells_lt (info : OptimPriceInfo) (e : ℕ × PriceLevel) :
    ((bidCell info e).1 < 2 ^ 31 ∧ (bidCell info e).2 < 2 ^ 31) ∧
      (askCell info e).1 < 2 ^ 31 ∧ (askCell info e).2 < 2 ^ 31 := by
  simp only [bidCell, askCell]
  refine ⟨⟨toI32_lt _, ?_⟩, toI32_lt _, ?_⟩ <;>
  · split_ifs <;> exact toI32_lt _

/-- Only numbers below `2^31` are published in the ladders. -/
theorem publish_lt (info : OptimPriceInfo) (st : MatchState) (i : Fin 5) :
    (((publish info st).bidAt i.rev).1 < 2 ^ 31 ∧ ((publish info st).bidAt i.rev).2 < 2 ^ 31) ∧
      ((publish info st).askAt i).1 < 2 ^ 31 ∧ ((publish info st).askAt i).2 < 2 ^ 31 := by
  rw [(publish_ladder info st i).1, (publish_ladder info st i).2]
  constructor
  · cases st.buyOrderIt.getMapIter[(i : ℕ)]? with
    | none => simp
    | some e => exact (cells_lt info e).1
  · cases st.sellOrderIt.getMapIter[(i : ℕ)]? with
    | none => simp
    | some e => exact (cells_lt info e).2

section Settled

variable {book : OrderBook} {os : List Order} {q : ℤ} {st : MatchState} {info : OptimPriceInfo}

/-- What the trades leave of the bids is what their volume leaves. -/
theorem OrderBook.Settled.filled_add_bidLeft (h : book.Settled os q st) (p : ℤ) :
    filled Trade.buyPrice st.trades p + bidLeft (bidsOf os) st.volume p
      = mass (bidsOf os) (· = p) := by
  have hadd := upTo_eq_add (fun a b => b < a) (queueLots book.bidPriceMaps.entries) p
  rw [h.upTo_bids, h.mass_bids] at hadd
  rw [h.walked.logged.buy_filled.by_price, h.upTo_bids, overlap, bidLeft]
  omega

/-- The same for the asks. -/
theorem OrderBook.Settled.filled_add_askLeft (h : book.Settled os q st) (p : ℤ) :
    filled Trade.sellPrice st.trades p + askLeft (asksOf os) st.volume p
      = mass (asksOf os) (· = p) := by
  have hadd := upTo_eq_add (fun a b => a < b) (queueLots book.askPriceMaps.entries) p
  rw [h.upTo_asks, h.mass_asks] at hadd
  rw [h.walked.logged.sell_filled.by_price, h.upTo_asks, overlap, askLeft]
  omega

/-- **Exact ladders fit**, whatever the scans settled on. -/
theorem OrderBook.Settled.fits_of_leftBook (h : book.Settled os q st)
    (hbid : LeftBook (fun a b => b < a) (bidsOf os) (filled Trade.buyPrice st.trades)
      fun i => (publish info st).bidAt i.rev)
    (hask : LeftBook (fun a b => a < b) (asksOf os) (filled Trade.sellPrice st.trades)
      (publish info st).askAt) :
    LadderFits (fun a b => b < a) (bidsOf os) (bidLeft (bidsOf os) st.volume) ∧
      LadderFits (fun a b => a < b) (asksOf os) (askLeft (asksOf os) st.volume) :=
  ⟨hbid.fits h.filled_add_bidLeft fun i => (publish_lt info st i).1,
    hask.fits h.filled_add_askLeft fun i => (publish_lt info st i).2⟩

/-- **The bids are shown exactly** if the best five left fit. -/
theorem OrderBook.Settled.bid_iff (h : book.Settled os q st)
    (hinfo : info.FitsBids (bidsOf os) st.volume) :
    LeftBook (fun a b => b < a) (bidsOf os) (filled Trade.buyPrice st.trades)
        (fun i => (publish info st).bidAt i.rev)
      ↔ LadderFits (fun a b => b < a) (bidsOf os) (bidLeft (bidsOf os) st.volume) := by
  have hlt : ∀ a b : ℕ, descending.lt a b → (b : ℤ) < a := fun a b hab => Nat.cast_lt.mpr hab
  have hfilled := h.walked.logged.buy_filled
  have hpos : ∀ x ∈ leftLevels Trade.buyPrice st.trades st.buyOrderIt.mapIter, 0 < x.2 :=
    fun x hx => hfilled.pos_of_mem_leftLevels h.keeps.bid h.bid_queue hlt h.walked.buy hx
  rw [leftBook_iff (pairwise_leftLevels hlt h.walked.buy) h.filled_add_bidLeft
    (fun p r hr =>
      hfilled.mem_leftLevels_iff h.keeps.bid.toStores h.bid_queue hlt h.walked.buy hr)
    (fun x hx => nonneg_of_mem_leftLevels hx) (fun x hx hx0 => absurd hx0 (hpos x hx).ne')]
  · refine and_iff_left ?_
    rintro ⟨x, hx, hx0⟩
    exact absurd hx0 (hpos x hx).ne'
  · intro i
    rw [(publish_ladder _ st i).1]
    exact congrArg (Option.getD · (0, 0))
      (getElem?_leftLevels (fun e he => h.bidCell_toI32 hinfo he) i)

/-- A level left of which nothing is left has no orders. -/
theorem OrderBook.Settled.orders_eq_nil (h : book.Settled os q st) {e : ℕ × PriceLevel}
    (he : e ∈ st.sellOrderIt.mapIter)
    (h0 : e.2.quantity - filled Trade.sellPrice st.trades e.1 = 0) : e.2.orders = [] := by
  by_contra hne
  have := h.walked.logged.sell_filled.left_pos h.keeps.ask_stored h.ask_queue
    (fun a b hab => Nat.cast_lt.mpr hab) h.walked.sell he hne
  omega

/-- An ask level is left if the volume does not cover the supply at it. -/
theorem OrderBook.Settled.mem_sellLevels_iff (h : book.Settled os q st) {e : ℕ × PriceLevel}
    (he : e ∈ book.askPriceMaps.entries) :
    e ∈ st.sellOrderIt.mapIter ↔ st.volume < supply (asksOf os) e.1 := by
  rw [← h.upTo_asks]
  exact Standing.mem_mapIter_iff h.keeps.ask_stored h.ask_queue
    (fun a b hab => Nat.cast_lt.mpr hab) h.walked.sell he

/-- Every ask has a quantity. -/
theorem OrderBook.Settled.asks_pos (h : book.Settled os q st) : ∀ x ∈ asksOf os, 0 < x.2 := by
  intro x hx
  obtain ⟨o, ho, rfl⟩ := List.mem_map.mp hx
  exact h.ask_queue.quantity_pos o (h.keeps.ask_stored.perm.mem_iff.mpr ho)

/-- Some ask price is left if the volume does not cover the supply. -/
theorem OrderBook.Settled.pricesLeft_pos_iff (h : book.Settled os q st) :
    0 < pricesLeft (asksOf os) (askLeft (asksOf os) st.volume) ↔
      ∃ p, st.volume < supply (asksOf os) p := by
  rw [pricesLeft, Finset.card_pos]
  constructor
  · rintro ⟨p, hp⟩
    have hleft : 0 < askLeft (asksOf os) st.volume p := (Finset.mem_filter.mp hp).2
    rw [askLeft] at hleft
    exact ⟨p, by omega⟩
  · rintro ⟨p, hp⟩
    obtain ⟨x, hx, hleft⟩ := exists_askLeft_pos h.asks_pos hp
    exact ⟨x.1, Finset.mem_filter.mpr ⟨List.mem_toFinset.mpr (List.mem_map_of_mem hx), hleft⟩⟩

/-- A level left of which nothing is left stands under the sentinel key, and is shown. -/
theorem OrderBook.Settled.exists_empty_iff (h : book.Settled os q st) (hr : ∀ o ∈ os, o.Valid) :
    (∃ x ∈ leftLevels Trade.sellPrice st.trades st.sellOrderIt.mapIter, x.2 = 0) ↔
      (∃ o ∈ onSide 1 os, o.price = int64Max) ∧ (∀ o ∈ onSide 2 os, o.price ≠ int64Max) ∧
        0 < pricesLeft (asksOf os) (askLeft (asksOf os) st.volume) := by
  have hmax : ((2 ^ 63 - 1 : ℕ) : ℤ) = int64Max := by decide
  rw [h.pricesLeft_pos_iff]
  constructor
  · rintro ⟨x, hx, hx0⟩
    obtain ⟨e, he, rfl⟩ := List.mem_map.mp hx
    have hent := h.walked.sell.mapIter_suffix.mem he
    have hnil := h.orders_eq_nil he hx0
    obtain ⟨hkey, hbid, -⟩ := h.keeps.ask_level e hent hnil
    refine ⟨?_, ?_, ⟨e.1, (h.mem_sellLevels_iff hent).mp he⟩⟩
    · obtain ⟨o, ho, hprice⟩ := h.keeps.bid.hasKey_iff.mp hbid
      exact ⟨o, ho, hprice.trans hmax⟩
    · intro o ho hprice
      have hzero : mass (asksOf os) (· = (e.1 : ℤ)) = 0 := by
        rw [← h.mass_asks, ← h.keeps.ask_stored.quantity_eq_mass hent,
          h.keeps.ask_stored.quantity_eq e hent, hnil]
        rfl
      have hpos : 0 < mass (asksOf os) (· = (e.1 : ℤ)) :=
        mass_pos (List.mem_map_of_mem ho) (by rw [hprice, hkey, hmax])
          (h.asks_pos _ (List.mem_map_of_mem ho))
      omega
  · rintro ⟨⟨o, ho, hprice⟩, hno, p, hp⟩
    have hbid : book.bidPriceMaps.HasKey (2 ^ 63 - 1) :=
      h.keeps.bid.hasKey_iff.mpr ⟨o, ho, hprice.trans hmax.symm⟩
    have hsides : onSide 2 os ≠ [] := by
      intro hnil
      rw [asksOf, hnil] at hp
      exact absurd hp (Nat.not_lt_zero _)
    have hask : book.askPriceMaps.entries ≠ [] := by
      intro hnil
      have hperm := h.keeps.ask_stored.perm
      rw [hnil] at hperm
      exact hsides hperm.symm.eq_nil
    obtain ⟨e, he, hkey⟩ := h.keeps.sound.sentinel ⟨hbid, hask⟩
    have hle : supply (asksOf os) p ≤ supply (asksOf os) e.1 := by
      refine mass_le_mass fun x hx _ => ?_
      obtain ⟨o', ho', rfl⟩ := List.mem_map.mp hx
      have := (hr o' (List.mem_filter.mp ho').1).2.2
      simp only [hkey, hmax]
      unfold int64Max
      omega
    have hleft : e ∈ st.sellOrderIt.mapIter :=
      (h.mem_sellLevels_iff he).mpr (lt_of_lt_of_le hp hle)
    refine ⟨_, List.mem_map_of_mem hleft, ?_⟩
    have hzero : mass (asksOf os) (· = (e.1 : ℤ)) = 0 := by
      apply mass_eq_zero
      intro x hx hxe
      obtain ⟨o', ho', rfl⟩ := List.mem_map.mp hx
      exact hno o' ho' (hxe.trans (by rw [hkey, hmax]))
    rw [h.keeps.ask_stored.quantity_eq_mass he, h.mass_asks, hzero, Nat.zero_sub]

/-- **The asks are shown exactly** if the best five left fit and the level without orders is not
shown. -/
theorem OrderBook.Settled.ask_iff (h : book.Settled os q st) (hr : ∀ o ∈ os, o.Valid)
    (hcell : ∀ e ∈ st.sellOrderIt.mapIter, askCell info e
      = (toI32 e.1, toI32 ((e.2.quantity - filled Trade.sellPrice st.trades e.1 : ℕ) : ℤ))) :
    LeftBook (fun a b => a < b) (asksOf os) (filled Trade.sellPrice st.trades)
        (publish info st).askAt
      ↔ LadderFits (fun a b => a < b) (asksOf os) (askLeft (asksOf os) st.volume) ∧
          ¬ SentinelShown os st.volume := by
  have hlt : ∀ a b : ℕ, ascending.lt a b → (a : ℤ) < b := fun a b hab => Nat.cast_lt.mpr hab
  have hlast : ∀ x ∈ leftLevels Trade.sellPrice st.trades st.sellOrderIt.mapIter, x.2 = 0 →
      toI32 x.1 ≠ 0 ∧
        ∀ y ∈ leftLevels Trade.sellPrice st.trades st.sellOrderIt.mapIter, ¬ x.1 < y.1 := by
    intro x hx hx0
    obtain ⟨e, he, rfl⟩ := List.mem_map.mp hx
    obtain ⟨hkey, -, -⟩ := h.keeps.ask_level e (h.walked.sell.mapIter_suffix.mem he)
      (h.orders_eq_nil he hx0)
    refine ⟨by simp only [hkey]; decide, fun y hy => ?_⟩
    obtain ⟨e', he', rfl⟩ := List.mem_map.mp hy
    have := h.keeps.sound.ask.key_lt e' (h.walked.sell.mapIter_suffix.mem he')
    simp only [hkey, Nat.cast_lt]
    omega
  rw [leftBook_iff (pairwise_leftLevels hlt h.walked.sell) h.filled_add_askLeft
    (fun p r hr => h.walked.logged.sell_filled.mem_leftLevels_iff h.keeps.ask_stored h.ask_queue
      hlt h.walked.sell hr) (fun x hx => nonneg_of_mem_leftLevels hx) hlast]
  · refine and_congr_right fun _ => ?_
    rw [h.exists_empty_iff hr]
    constructor
    · rintro himp ⟨hbid, hno, hleft, hroom⟩
      have := himp ⟨hbid, hno, hleft⟩
      omega
    · rintro hnot ⟨hbid, hno, hleft⟩
      by_contra hroom
      exact hnot ⟨hbid, hno, hleft, by omega⟩
  · intro i
    rw [(publish_ladder _ st i).2]
    exact congrArg (Option.getD · (0, 0)) (getElem?_leftLevels hcell i)

end Settled

end Obr
