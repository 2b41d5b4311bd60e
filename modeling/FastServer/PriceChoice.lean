/-
# The auction price

The scans of `flushStatus` visit the price levels between the best ask and the best
bid, and what they settle on is what it publishes.
-/
import FastServer.PriceScan

namespace Obr

open CallAuction

/-! ## The price selection as a whole -/

/-- The prices both scans visit, given the keys of the best bid and best ask. -/
def OrderBook.scanned (book : OrderBook) (bestBid bestAsk : ℕ) : List ℤ :=
  visited (fun k => k < bestAsk) book.bidPrefixSum.entries
    ++ visited (fun k => k > bestBid) book.askPrefixSum.entries

/-- What the scans leave in `optimPriceInfo`. -/
def OrderBook.optimum (book : OrderBook) (bestBid bestAsk : ℕ) (uninit : OptimPriceInfo) :
    OptimPriceInfo :=
  (book.scanned bestBid bestAsk).foldl (considerLevel book.bidLots book.askLots)
    { uninit with expectedDealQuantity := -1 }

section Crossed

variable {book : OrderBook} {b a : ℕ × PriceLevel}

/-- The first bid level has the highest key. -/
theorem OrderBook.le_bestBid (hb : book.bidPriceMaps.entries.head? = some b)
    {e : ℕ × PriceLevel} (he : e ∈ book.bidPriceMaps.entries) : e.1 ≤ b.1 := by
  have hs := book.bidPriceMaps.sorted
  cases hent : book.bidPriceMaps.entries with
  | nil => simp [hent] at he
  | cons x xs =>
      rw [hent] at he hs hb
      rw [List.head?_cons, Option.some.injEq] at hb
      subst hb
      rcases List.mem_cons.mp he with rfl | he
      · exact le_refl _
      · exact le_of_lt ((List.pairwise_cons.mp hs).1 e he)

/-- The first ask level has the lowest key. -/
theorem OrderBook.bestAsk_le (ha : book.askPriceMaps.entries.head? = some a)
    {e : ℕ × PriceLevel} (he : e ∈ book.askPriceMaps.entries) : a.1 ≤ e.1 := by
  have hs := book.askPriceMaps.sorted
  cases hent : book.askPriceMaps.entries with
  | nil => simp [hent] at he
  | cons x xs =>
      rw [hent] at he hs ha
      rw [List.head?_cons, Option.some.injEq] at ha
      subst ha
      rcases List.mem_cons.mp he with rfl | he
      · exact le_refl _
      · exact le_of_lt ((List.pairwise_cons.mp hs).1 e he)

/-- A level belongs to the spread exactly if it is between the two best keys. -/
theorem OrderBook.inSpread_iff (hb : book.bidPriceMaps.entries.head? = some b)
    (ha : book.askPriceMaps.entries.head? = some a) {p : ℤ} :
    InSpread book.bidLots book.askLots p ↔ (a.1 : ℤ) ≤ p ∧ p ≤ b.1 := by
  constructor
  · rintro ⟨⟨x, hx, hxp⟩, ⟨y, hy, hpy⟩⟩
    obtain ⟨e, he, h1, -⟩ := mem_lots.mp hx
    obtain ⟨e', he', h1', -⟩ := mem_lots.mp hy
    have := bestAsk_le ha he
    have := le_bestBid hb he'
    omega
  · rintro ⟨h1, h2⟩
    exact ⟨⟨_, mem_lots_of_mem (List.mem_of_mem_head? ha), h1⟩,
      _, mem_lots_of_mem (List.mem_of_mem_head? hb), h2⟩

/-- The bid scan visits the bid levels from the best ask up. -/
theorem OrderBook.mem_bidsVisited (h : book.Sound)
    (ha : book.askPriceMaps.entries.head? = some a) {p : ℤ} :
    p ∈ visited (fun k => k < a.1) book.bidPrefixSum.entries
      ↔ IsBidLevel book.bidLots p ∧ a.1 ≤ p := by
  have hapos := h.ask.key_pos a (List.mem_of_mem_head? ha)
  constructor
  · intro hp
    obtain ⟨x, hx, hgo, rfl⟩ := of_mem_visited hp
    simp only [decide_eq_false_iff_not, not_lt] at hgo
    obtain ⟨⟨e, he, hk⟩, -⟩ := of_mem_bidPrefixSum h hx (by omega)
    exact ⟨⟨_, mem_lots_of_mem he, by simp only [hk]⟩, by omega⟩
  · rintro ⟨⟨y, hy, rfl⟩, hap⟩
    obtain ⟨e, he, h1, -⟩ := mem_lots.mp hy
    obtain ⟨x, hx, hk⟩ := hasKey_bidPrefixSum.mpr (Or.inr (SortedMap.hasKey_fst he))
    have hstop : ∀ m n : ℕ, m > n → decide (m < a.1) = true → decide (n < a.1) = true := by
      intro m n hmn hm
      rw [decide_eq_true_eq] at hm ⊢
      omega
    rw [← h1, ← hk]
    exact mem_visited (fun m n : ℕ => m > n) hstop book.bidPrefixSum.sorted hx
      (decide_eq_false (by omega))

/-- An entry of `askPrefixSum` up to the best bid is an ask level. -/
theorem OrderBook.hasKey_of_mem_askPrefixSum (h : book.Sound)
    (hb : book.bidPriceMaps.entries.head? = some b)
    (ha : book.askPriceMaps.entries.head? = some a) {x : ℕ × ℕ}
    (hx : x ∈ book.askPrefixSum.entries) (hle : x.1 ≤ b.1) : book.askPriceMaps.HasKey x.1 := by
  have hbmem := List.mem_of_mem_head? hb
  have hblt := h.bid.key_lt b hbmem
  refine (hasKey_askPrefixSum.mp (SortedMap.hasKey_fst hx)).elim (fun hmax => ?_) id
  -- the sentinel is reached only from a bid at its key
  rw [hmax]
  exact h.sentinel ⟨⟨b, hbmem, by omega⟩, List.ne_nil_of_mem (List.mem_of_mem_head? ha)⟩

/-- The ask scan visits the ask levels up to the best bid. -/
theorem OrderBook.mem_asksVisited (h : book.Sound)
    (hb : book.bidPriceMaps.entries.head? = some b)
    (ha : book.askPriceMaps.entries.head? = some a) {p : ℤ} :
    p ∈ visited (fun k => k > b.1) book.askPrefixSum.entries
      ↔ (∃ y ∈ book.askLots, y.1 = p) ∧ p ≤ b.1 := by
  constructor
  · intro hp
    obtain ⟨x, hx, hgo, rfl⟩ := of_mem_visited hp
    simp only [decide_eq_false_iff_not, not_lt] at hgo
    obtain ⟨e, he, hk⟩ := hasKey_of_mem_askPrefixSum h hb ha hx hgo
    exact ⟨⟨_, mem_lots_of_mem he, by simp only [hk]⟩, by omega⟩
  · rintro ⟨⟨y, hy, rfl⟩, hpb⟩
    obtain ⟨e, he, h1, -⟩ := mem_lots.mp hy
    obtain ⟨x, hx, hk⟩ := hasKey_askPrefixSum.mpr (Or.inr (SortedMap.hasKey_fst he))
    have hstop : ∀ m n : ℕ, m < n → decide (m > b.1) = true → decide (n > b.1) = true := by
      intro m n hmn hm
      rw [decide_eq_true_eq] at hm ⊢
      omega
    rw [← h1, ← hk]
    exact mem_visited (fun m n : ℕ => m < n) hstop book.askPrefixSum.sorted hx
      (decide_eq_false (by omega))

/-- The first key of `askPrefixSum` is the best ask. -/
theorem OrderBook.askPrefixSum_head (hlt : ∀ e ∈ book.askPriceMaps.entries, e.1 < 2 ^ 63)
    (ha : book.askPriceMaps.entries.head? = some a) :
    ((book.askPrefixSum.entries.head?.map Prod.fst).getD 0) = a.1 := by
  have hmem := List.mem_of_mem_head? ha
  have hkey : book.askPrefixSum.HasKey a.1 :=
    hasKey_askPrefixSum.mpr (Or.inr (SortedMap.hasKey_fst hmem))
  have hfirst : ∀ k, book.askPrefixSum.HasKey k → ¬ k < a.1 := by
    intro k hk
    rcases hasKey_askPrefixSum.mp hk with rfl | ⟨e, he, rfl⟩
    · have := hlt a hmem
      omega
    · exact not_lt_of_ge (bestAsk_le ha he)
  cases hhead : book.askPrefixSum.entries.head? with
  | none =>
    obtain ⟨e, he, -⟩ := hkey
    exact absurd he (List.head?_eq_none_iff.mp hhead ▸ List.not_mem_nil)
  | some e => exact SortedMap.head?_fst hhead hkey hfirst

/-- The first key of `bidPrefixSum` is the best bid. -/
theorem OrderBook.bidPrefixSum_head (hb : book.bidPriceMaps.entries.head? = some b) :
    ((book.bidPrefixSum.entries.head?.map Prod.fst).getD 0) = b.1 := by
  have hkey : book.bidPrefixSum.HasKey b.1 :=
    hasKey_bidPrefixSum.mpr (Or.inr (SortedMap.hasKey_fst (List.mem_of_mem_head? hb)))
  have hfirst : ∀ k, book.bidPrefixSum.HasKey k → ¬ k > b.1 := by
    intro k hk
    rcases hasKey_bidPrefixSum.mp hk with rfl | ⟨e, he, rfl⟩
    · exact Nat.not_lt_zero _
    · exact not_lt_of_ge (le_bestBid hb he)
  cases hhead : book.bidPrefixSum.entries.head? with
  | none =>
    obtain ⟨e, he, -⟩ := hkey
    exact absurd he (List.head?_eq_none_iff.mp hhead ▸ List.not_mem_nil)
  | some e => exact SortedMap.head?_fst hhead hkey hfirst

/-- **`flushStatus` on a crossed book.**  The scans compute the optimum and leave
the book alone; the rest is the matching loop and the publication. -/
theorem OrderBook.flushStatus_eq (h : book.Sound)
    (hb : book.bidPriceMaps.entries.head? = some b)
    (ha : book.askPriceMaps.entries.head? = some a) (hx : a.1 ≤ b.1) (uninit : OptimPriceInfo) :
    book.flushStatus uninit
      = book.matchOrders.map (fun st => (book, publish (book.optimum b.1 a.1 uninit) st)) := by
  have hapos := h.ask.key_pos a (List.mem_of_mem_head? ha)
  have hmin : toI64 (((book.askPrefixSum.entries.head?.map Prod.fst).getD 0 : ℕ) : ℤ) = a.1 := by
    rw [askPrefixSum_head h.ask.key_lt ha]
    exact h.ask.toI64_key (List.mem_of_mem_head? ha)
  have hmax : toI64 (((book.bidPrefixSum.entries.head?.map Prod.fst).getD 0 : ℕ) : ℤ) = b.1 := by
    rw [bidPrefixSum_head hb]
    exact h.bid.toI64_key (List.mem_of_mem_head? hb)
  have hUa : toU64 (a.1 : ℤ) = a.1 := h.ask.toU64_key (List.mem_of_mem_head? ha)
  have hUb : toU64 (b.1 : ℤ) = b.1 := h.bid.toU64_key (List.mem_of_mem_head? hb)
  have hne := List.ne_nil_of_mem (List.mem_of_mem_head? ha)
  have hbid := fun best => bidScan_eq h hne (a.1 : ℤ) book.bidPrefixSum.entries best
    (fun x hx hgo => of_mem_bidPrefixSum h hx (by omega))
  have hask := fun best => askScan_eq h (b.1 : ℤ) book.askPrefixSum.entries best
    (fun x hx hgo => ⟨hasKey_of_mem_askPrefixSum h hb ha hx (by omega),
      of_mem_askPrefixSum h hx⟩)
  rw [hUa] at hbid
  rw [hUb] at hask
  rw [flushStatus, hb, ha]
  simp only [if_neg (not_lt.mpr hx), hmin, hmax, hbid, hask, bind, Except.bind]
  rw [optimum, scanned, List.foldl_append]
  cases book.matchOrders <;> rfl

end Crossed

end Obr
