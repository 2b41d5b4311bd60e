/-
# What a query leaves behind

`flushStatus` reads levels through `operator[]`.  The keys it reads are those of the
prefix-sum maps, and among them is the sentinel 0 of the bids: once an ask at price 0 lets the
bid scan run down to it, a level without orders stands at 0.  As long as no order is at
`INT64_MAX`, the sentinel of the asks, that is all `flushStatus` ever does to a book, whatever
the quantities.
-/
import FastServer.BookInvariant

namespace Obr

open OrderIterator

/-! ## The scans -/

/-- What the scans need of a side: its keys are below `INT64_MAX`, and if it has a level, it has
an order. -/
structure SideKeys {c : ConfigurableComparator} (m : OrderBookMap c) : Prop where
  key_lt : ∀ {k}, m.HasKey k → k < 2 ^ 63 - 1
  has_order : m.entries ≠ [] → ordersOf m.entries ≠ []

/-- The same of a book. -/
structure OrderBook.Keyed (book : OrderBook) : Prop where
  bid : SideKeys book.bidPriceMaps
  ask : SideKeys book.askPriceMaps

/-- The keys a scan reads. -/
def scannedKeys (stop : ℕ → Bool) (sums : List (ℕ × ℕ)) : List ℕ :=
  (visited stop sums).map Int.toNat

theorem scannedKeys_cons_stop {stop : ℕ → Bool} {x : ℕ × ℕ} (xs : List (ℕ × ℕ))
    (h : stop x.1 = true) : scannedKeys stop (x :: xs) = [] := by
  rw [scannedKeys, visited_cons_stop xs h]
  rfl

theorem scannedKeys_cons_go {stop : ℕ → Bool} {x : ℕ × ℕ} (xs : List (ℕ × ℕ))
    (h : stop x.1 = false) : scannedKeys stop (x :: xs) = x.1 :: scannedKeys stop xs := by
  rw [scannedKeys, visited_cons_go xs h]
  rfl

/-- The conversions keep a key. -/
theorem toU64_toI64_key {k : ℕ} (hk : k < 2 ^ 63 - 1) : toU64 (toI64 k) = k := by
  rw [toI64_natCast (by omega), toU64_natCast (by omega)]

/-- **The bid scan** indexes the bids at every key it visits and the asks nowhere but at a
level; no assertion fails. -/
theorem bidScan_touch {asks : OrderBookMap ascending} {askPrefixSum : SortedMap (· < ·) ℕ}
    (hfind : ∀ k < 2 ^ 63 - 1, ∃ e, askPrefixSum.lowerBound k = some e ∧
      (e.1 = k → asks.HasKey k)) (minBidPrice : ℤ) (sums : List (ℕ × ℕ))
    (bids : OrderBookMap descending) (best : OptimPriceInfo) (hlt : ∀ x ∈ sums, x.1 < 2 ^ 63 - 1) :
    ∃ best', bidScan askPrefixSum minBidPrice sums ⟨asks, bids⟩ best
      = .ok (⟨asks, bids.touchAll {} (scannedKeys (fun k => k < toU64 minBidPrice) sums)⟩,
          best') := by
  induction sums generalizing bids best with
  | nil => exact ⟨best, rfl⟩
  | cons x xs ih =>
    rw [bidScan]
    by_cases hstop : x.1 < toU64 minBidPrice
    · rw [if_pos hstop, scannedKeys_cons_stop xs (by simpa using hstop)]
      exact ⟨best, rfl⟩
    · have hx := hlt x List.mem_cons_self
      obtain ⟨askIt, hfound, hask⟩ := hfind x.1 hx
      have hxs : ∀ y ∈ xs, y.1 < 2 ^ 63 - 1 := fun y hy => hlt y (List.mem_cons_of_mem _ hy)
      rw [if_neg hstop, scannedKeys_cons_go xs (by simpa using hstop)]
      simp only [toU64_toI64_key hx, OrderBook.bidLevel, OrderBook.askLevel, hfound]
      by_cases heq : askIt.1 = x.1
      · simp only [if_pos heq, SortedMap.upsert_id_of_hasKey {} (hask heq)]
        exact ih _ _ hxs
      · simp only [if_neg heq]
        exact ih _ _ hxs

/-- **The ask scan** leaves the book alone if it finds the levels it indexes. -/
theorem askScan_pure {book : OrderBook} {bidPrefixSum : SortedMap (· > ·) ℕ} (maxAskPrice : ℤ)
    (sums : List (ℕ × ℕ)) (best : OptimPriceInfo)
    (hx : ∀ x ∈ sums, ¬ x.1 > toU64 maxAskPrice → x.1 < 2 ^ 63 - 1 ∧
      book.askPriceMaps.HasKey x.1 ∧ ∃ e, bidPrefixSum.lowerBound x.1 = some e ∧
        (e.1 = x.1 → book.bidPriceMaps.HasKey x.1)) :
    ∃ best', askScan bidPrefixSum maxAskPrice sums book best = .ok (book, best') := by
  induction sums generalizing best with
  | nil => exact ⟨best, rfl⟩
  | cons x xs ih =>
    rw [askScan]
    by_cases hstop : x.1 > toU64 maxAskPrice
    · rw [if_pos hstop]
      exact ⟨best, rfl⟩
    · obtain ⟨hlt, hask, bidIt, hfound, hbid⟩ := hx x List.mem_cons_self hstop
      have hxs := fun best => ih best fun y hy => hx y (List.mem_cons_of_mem _ hy)
      rw [if_neg hstop]
      simp only [toU64_toI64_key hlt, OrderBook.bidLevel, OrderBook.askLevel, hfound,
        SortedMap.upsert_id_of_hasKey {} hask]
      by_cases heq : bidIt.1 = x.1
      · simp only [if_pos heq, SortedMap.upsert_id_of_hasKey {} (hbid heq)]
        exact hxs _
      · simp only [if_neg heq]
        exact hxs _

/-! ## What `flushStatus` does to a book -/

/-- The bid scan reads the sentinel: there is a bid to start from, the lowest ask is at 0, and
no bid is. -/
def OrderBook.IndexesZero (book : OrderBook) : Prop :=
  book.bidPriceMaps.entries ≠ [] ∧ book.askPriceMaps.HasKey 0 ∧ ¬ book.bidPriceMaps.HasKey 0

instance (book : OrderBook) : Decidable book.IndexesZero := inferInstanceAs (Decidable (_ ∧ _))

/-- The book after `flushStatus`. -/
def OrderBook.flushed (book : OrderBook) : OrderBook :=
  if book.IndexesZero then (book.bidLevel 0).1 else book

/-- Indexing price 0 is indexing key 0. -/
theorem OrderBook.bidLevel_zero (book : OrderBook) :
    (book.bidLevel 0).1 = { book with bidPriceMaps := book.bidPriceMaps.upsert 0 {} id } := rfl

section Flush

variable {book : OrderBook} {b a : ℕ × PriceLevel}

/-- The bid scan reads the keys of the bids from the best ask up, and 0 if that is an ask. -/
theorem OrderBook.mem_scannedKeys {k : ℕ} :
    k ∈ scannedKeys (fun k => k < a.1) book.bidPrefixSum.entries ↔
      a.1 ≤ k ∧ (k = 0 ∨ book.bidPriceMaps.HasKey k) := by
  rw [← hasKey_bidPrefixSum]
  constructor
  · intro hk
    obtain ⟨p, hp, rfl⟩ := List.mem_map.mp hk
    obtain ⟨x, hx, hgo, rfl⟩ := of_mem_visited hp
    rw [Int.toNat_natCast]
    exact ⟨by simpa using hgo, SortedMap.hasKey_fst hx⟩
  · rintro ⟨hle, x, hx, rfl⟩
    have hstop : ∀ m n : ℕ, m > n → decide (m < a.1) = true → decide (n < a.1) = true := by
      intro m n hmn hm
      rw [decide_eq_true_eq] at hm ⊢
      omega
    have hmem := mem_visited (fun m n : ℕ => m > n) hstop book.bidPrefixSum.sorted hx
      (by simpa using hle)
    exact List.mem_map.mpr ⟨_, hmem, Int.toNat_natCast _⟩

/-- **The levels created.**  Reading these keys creates level 0 or nothing. -/
theorem OrderBook.touchAll_scannedKeys (hb : book.bidPriceMaps.entries.head? = some b)
    (ha : book.askPriceMaps.entries.head? = some a) :
    { book with
      bidPriceMaps := book.bidPriceMaps.touchAll {}
        (scannedKeys (fun k => k < a.1) book.bidPrefixSum.entries) } = book.flushed := by
  have hne : book.bidPriceMaps.entries ≠ [] := List.ne_nil_of_mem (List.mem_of_mem_head? hb)
  rw [flushed]
  split_ifs with hzero
  · obtain ⟨-, hask, -⟩ := hzero
    have hle : a.1 ≤ 0 := by
      obtain ⟨e, he, hk⟩ := hask
      exact hk ▸ bestAsk_le ha he
    rw [bidLevel_zero, SortedMap.touchAll_eq_upsert (mem_scannedKeys.mpr ⟨hle, Or.inl rfl⟩)
      fun k hk => (mem_scannedKeys.mp hk).2]
  · rw [SortedMap.touchAll_eq_self_iff.mpr]
    intro k hk
    obtain ⟨hle, hk | hk⟩ := mem_scannedKeys.mp hk
    · by_contra hno
      have hask : book.askPriceMaps.HasKey 0 :=
        ⟨a, List.mem_of_mem_head? ha, by omega⟩
      exact hzero ⟨hne, hask, hk ▸ hno⟩
    · exact hk

/-- `lower_bound` on `askPrefixSum` finds an ask level or the sentinel. -/
theorem OrderBook.exists_askIt {k : ℕ} (hk : k < 2 ^ 63 - 1) :
    ∃ e, book.askPrefixSum.lowerBound k = some e ∧ (e.1 = k → book.askPriceMaps.HasKey k) := by
  obtain ⟨e, he, hkey⟩ := SortedMap.exists_lowerBound
    (hasKey_askPrefixSum.mpr (Or.inl rfl) : book.askPrefixSum.HasKey (2 ^ 63 - 1))
    (k := k) (by omega)
  refine ⟨e, he, ?_⟩
  rintro rfl
  exact (hasKey_askPrefixSum.mp hkey).resolve_left (by omega)

/-- `lower_bound` on `bidPrefixSum` finds a bid level or the sentinel. -/
theorem OrderBook.exists_bidIt (k : ℕ) :
    ∃ e, book.bidPrefixSum.lowerBound k = some e ∧
      (e.1 = k → k = 0 ∨ book.bidPriceMaps.HasKey k) := by
  obtain ⟨e, he, hkey⟩ := SortedMap.exists_lowerBound
    (hasKey_bidPrefixSum.mpr (Or.inl rfl) : book.bidPrefixSum.HasKey 0) (k := k) (by omega)
  refine ⟨e, he, ?_⟩
  rintro rfl
  exact hasKey_bidPrefixSum.mp hkey

end Flush

/-! ### The sides keep what the scans need -/

section Side

variable {c : ConfigurableComparator} {m : OrderBookMap c}

/-- A level with orders has them among the orders of its side. -/
theorem ordersOf_ne_nil {e : ℕ × PriceLevel} (he : e ∈ m.entries) (ho : e.2.orders ≠ []) :
    ordersOf m.entries ≠ [] := by
  obtain ⟨o, ho⟩ := List.exists_mem_of_ne_nil _ ho
  exact List.ne_nil_of_mem (List.mem_flatMap.mpr ⟨e, he, ho⟩)

/-- Indexing the sentinel keeps a side that has levels. -/
theorem SideKeys.upsert_zero (h : SideKeys m) (hne : m.entries ≠ []) :
    SideKeys (m.upsert 0 {} id) := by
  constructor
  · intro k hk
    rcases (SortedMap.hasKey_upsert _ _).mp hk with rfl | hk
    · omega
    · exact h.key_lt hk
  · intro _
    obtain ⟨o, ho⟩ := List.exists_mem_of_ne_nil _ (h.has_order hne)
    obtain ⟨e, he, hoe⟩ := List.mem_flatMap.mp ho
    exact ordersOf_ne_nil (SortedMap.mem_touchAll _ [0] he) (List.ne_nil_of_mem hoe)

/-- Placing an order keeps the side. -/
theorem SideKeys.push (h : SideKeys m) {o : Order} (h0 : 0 ≤ o.price) (hlt : o.price < int64Max) :
    SideKeys (m.upsert (toU64 o.price) {} (·.push o)) := by
  unfold int64Max at hlt
  have hkey := toU64_of_nonneg h0 (by omega)
  constructor
  · intro k hk
    rcases (SortedMap.hasKey_upsert _ _).mp hk with rfl | hk
    · omega
    · exact h.key_lt hk
  · intro _
    have hget := SortedMap.get?_upsert_self m (toU64 o.price) {} fun level => level.push o
    exact ordersOf_ne_nil (SortedMap.mem_entries_of_get? hget) (by simp [PriceLevel.push])

end Side

section Book

variable {book : OrderBook}

theorem OrderBook.keyed_empty : OrderBook.empty.Keyed := by
  constructor <;> constructor
  · exact fun hk => absurd hk (SortedMap.not_hasKey_empty _)
  · exact fun hne => absurd rfl hne
  · exact fun hk => absurd hk (SortedMap.not_hasKey_empty _)
  · exact fun hne => absurd rfl hne

theorem OrderBook.Keyed.place (h : book.Keyed) {o : Order} (h0 : 0 ≤ o.price)
    (hlt : o.price < int64Max) : (book.place o).Keyed := by
  rw [OrderBook.place]
  split_ifs
  · exact ⟨h.bid.push h0 hlt, h.ask⟩
  · exact ⟨h.bid, h.ask.push h0 hlt⟩
  · exact h

theorem OrderBook.Keyed.flushed (h : book.Keyed) : book.flushed.Keyed := by
  rw [OrderBook.flushed]
  split_ifs with hzero
  · exact ⟨h.bid.upsert_zero hzero.1, h.ask⟩
  · exact h

@[simp] theorem OrderBook.flushed_askPriceMaps : book.flushed.askPriceMaps = book.askPriceMaps := by
  rw [OrderBook.flushed]
  split_ifs <;> rfl

/-- No key is lost. -/
theorem OrderBook.hasKey_flushed {k : ℕ} (hk : book.bidPriceMaps.HasKey k) :
    book.flushed.bidPriceMaps.HasKey k := by
  rw [OrderBook.flushed]
  split_ifs
  · exact (SortedMap.hasKey_upsert _ _).mpr (Or.inr hk)
  · exact hk

/-- With an ask at 0, level 0 is there afterwards. -/
theorem OrderBook.hasKey_zero_flushed (hne : book.bidPriceMaps.entries ≠ [])
    (hask : book.askPriceMaps.HasKey 0) : book.flushed.bidPriceMaps.HasKey 0 := by
  by_cases hkey : book.bidPriceMaps.HasKey 0
  · exact hasKey_flushed hkey
  · rw [OrderBook.flushed, if_pos ⟨hne, hask, hkey⟩]
    exact (SortedMap.hasKey_upsert _ _).mpr (Or.inl rfl)

/-- What the ask scan finds on the book the bid scan leaves. -/
theorem OrderBook.Keyed.askScan_found (h : book.Keyed) {b : ℕ × PriceLevel}
    (hb : book.bidPriceMaps.entries.head? = some b) {x : ℕ × ℕ}
    (hx : x ∈ book.askPrefixSum.entries) (hgo : ¬ x.1 > toU64 (toI64 b.1)) :
    x.1 < 2 ^ 63 - 1 ∧ book.flushed.askPriceMaps.HasKey x.1 ∧
      ∃ e, book.bidPrefixSum.lowerBound x.1 = some e ∧
        (e.1 = x.1 → book.flushed.bidPriceMaps.HasKey x.1) := by
  have hbmem := List.mem_of_mem_head? hb
  have hblt := h.bid.key_lt (SortedMap.hasKey_fst hbmem)
  rw [toU64_toI64_key hblt] at hgo
  have hask : book.askPriceMaps.HasKey x.1 :=
    (hasKey_askPrefixSum.mp (SortedMap.hasKey_fst hx)).resolve_left (by omega)
  obtain ⟨e, he, hbid⟩ := @exists_bidIt book x.1
  refine ⟨by omega, by rwa [flushed_askPriceMaps], e, he, fun heq => ?_⟩
  rcases hbid heq with h0 | hk
  · rw [h0] at hask ⊢
    exact hasKey_zero_flushed (List.ne_nil_of_mem hbmem) hask
  · exact hasKey_flushed hk

/-- The level is created once. -/
theorem OrderBook.not_indexesZero_flushed : ¬ book.flushed.IndexesZero := by
  rw [OrderBook.flushed]
  split_ifs with hzero
  · rintro ⟨-, -, hno⟩
    exact hno ((SortedMap.hasKey_upsert _ _).mpr (Or.inl rfl))
  · exact hzero

/-- The book is left as it was unless the sentinel is read. -/
theorem OrderBook.flushed_eq_self_iff : book.flushed = book ↔ ¬ book.IndexesZero := by
  rw [OrderBook.flushed]
  split_ifs with hzero
  · refine iff_of_false ?_ (not_not.mpr hzero)
    intro heq
    have hbids : book.bidPriceMaps.upsert 0 {} id = book.bidPriceMaps :=
      congrArg OrderBook.bidPriceMaps heq
    have hkey : (book.bidPriceMaps.upsert 0 {} id).HasKey 0 :=
      (SortedMap.hasKey_upsert _ _).mpr (Or.inl rfl)
    rw [hbids] at hkey
    exact hzero.2.2 hkey
  · exact iff_of_true rfl hzero

/-- **The effect of `flushStatus`**, on any book with keys below `INT64_MAX`: it ends normally
and leaves the book, or the book with a level 0 created. -/
theorem OrderBook.Keyed.flushStatus_eq (h : book.Keyed) (uninit : OptimPriceInfo) :
    ∃ status, book.flushStatus uninit = .ok (book.flushed, status) := by
  cases hb : book.bidPriceMaps.entries.head? with
  | none =>
    have hnil := List.head?_eq_none_iff.mp hb
    rw [flushed_eq_self_iff.mpr fun hzero => hzero.1 hnil]
    exact ⟨{}, by rw [flushStatus, hb]⟩
  | some b =>
    cases ha : book.askPriceMaps.entries.head? with
    | none =>
      have hnil := List.head?_eq_none_iff.mp ha
      rw [flushed_eq_self_iff.mpr]
      · exact ⟨{}, by rw [flushStatus, hb, ha]⟩
      · rintro ⟨-, ⟨e, he, -⟩, -⟩
        exact absurd he (hnil ▸ List.not_mem_nil)
    | some a =>
      have hbmem := List.mem_of_mem_head? hb
      have hamem := List.mem_of_mem_head? ha
      by_cases hx : b.1 < a.1
      · rw [flushed_eq_self_iff.mpr]
        · exact ⟨{}, by rw [flushStatus, hb, ha]; simp only [if_pos hx]⟩
        · rintro ⟨-, ⟨e, he, hk⟩, -⟩
          have := bestAsk_le ha he
          omega
      · have halt := h.ask.key_lt (SortedMap.hasKey_fst hamem)
        have hblt := h.bid.key_lt (SortedMap.hasKey_fst hbmem)
        have hmin := askPrefixSum_head (fun e he => by
          have := h.ask.key_lt (SortedMap.hasKey_fst he)
          omega) ha
        have hmax := bidPrefixSum_head hb
        -- the keys of the bid prefix sums are levels or 0
        have hsums : ∀ x ∈ book.bidPrefixSum.entries, x.1 < 2 ^ 63 - 1 := by
          intro x hx
          rcases hasKey_bidPrefixSum.mp (SortedMap.hasKey_fst hx) with h0 | hk
          · omega
          · exact h.bid.key_lt hk
        obtain ⟨best, hbid⟩ := bidScan_touch (fun k hk => exists_askIt hk) (toI64 a.1)
          book.bidPrefixSum.entries book.bidPriceMaps { uninit with expectedDealQuantity := -1 }
          hsums
        rw [toU64_toI64_key halt, touchAll_scannedKeys hb ha] at hbid
        obtain ⟨best', hask⟩ := @askScan_pure book.flushed _ (toI64 b.1)
          book.askPrefixSum.entries best (fun x hx hgo => h.askScan_found hb hx hgo)
        have hbids : book.flushed.bidPriceMaps.entries ≠ [] := by
          obtain ⟨e, he, -⟩ := hasKey_flushed (SortedMap.hasKey_fst hbmem)
          exact List.ne_nil_of_mem he
        have hasks : book.flushed.askPriceMaps.entries ≠ [] := by
          rw [flushed_askPriceMaps]
          exact List.ne_nil_of_mem hamem
        obtain ⟨st, hst⟩ := matchOrders_ok (h.flushed.bid.has_order hbids)
          (h.flushed.ask.has_order hasks)
        refine ⟨publish best' st, ?_⟩
        rw [flushStatus, hb, ha]
        simp only [if_neg hx, hmin, hmax, hbid, hask, hst, bind, Except.bind, pure, Except.pure]

end Book

/-! ## Runs -/

/-- An order that may be inserted; a price of 0 is taken like any other. -/
def Order.Accepted (o : Order) : Prop := 0 ≤ o.price ∧ o.price < int64Max ∧ 0 < o.quantity

instance (o : Order) : Decidable o.Accepted := inferInstanceAs (Decidable (_ ∧ _))

/-- `flushStatus` returns the book it was called on. -/
def OrderBook.PureQuery (book : OrderBook) : Prop :=
  ∀ uninit, ∃ status, book.flushStatus uninit = .ok (book, status)

/-- On a book with keys in range `flushStatus` is a query unless it reads the sentinel. -/
theorem OrderBook.Keyed.pureQuery_iff {book : OrderBook} (h : book.Keyed) :
    book.PureQuery ↔ ¬ book.IndexesZero := by
  rw [← flushed_eq_self_iff]
  constructor
  · intro hpure
    obtain ⟨status, hstatus⟩ := hpure ⟨0, 0, 0, 0, 0, 0⟩
    obtain ⟨status', hstatus'⟩ := h.flushStatus_eq ⟨0, 0, 0, 0, 0, 0⟩
    rw [hstatus] at hstatus'
    exact (Prod.mk.inj (Except.ok.inj hstatus')).1.symm
  · intro heq uninit
    obtain ⟨status, hstatus⟩ := h.flushStatus_eq uninit
    exact ⟨status, by rw [hstatus, heq]⟩

/-- **The run.**  Every sequence of calls ends normally, in a book with keys in range on which
the sentinel is not read. -/
theorem OrderBook.exists_keyed (calls : List (OptimPriceInfo × Order))
    (hr : ∀ call ∈ calls, call.2.Accepted) :
    ∃ book, OrderBook.insertOrders calls = .ok book ∧ book.Keyed ∧ ¬ book.IndexesZero := by
  induction calls using List.reverseRecOn with
  | nil => exact ⟨OrderBook.empty, rfl, keyed_empty, fun hzero => hzero.1 rfl⟩
  | append_singleton calls call ih =>
    obtain ⟨h0, hlt, -⟩ := hr call (by simp)
    obtain ⟨book, hrun, hkeyed, -⟩ := ih fun c hc => hr c (List.mem_append_left _ hc)
    have hplace := hkeyed.place h0 hlt
    obtain ⟨status, hflush⟩ := hplace.flushStatus_eq call.1
    refine ⟨(book.place call.2).flushed, ?_, hplace.flushed, not_indexesZero_flushed⟩
    rw [insertOrders] at hrun ⊢
    rw [List.foldlM_append, hrun]
    simp only [bind, Except.bind, List.foldlM_cons, List.foldlM_nil, insertOrder, hflush]
    rfl

/-- The books `insertOrder` reaches: those it returns, and those on which it calls
`flushStatus`, where the order has been placed. -/
inductive OrderBook.Reached : OrderBook → Prop
  | returned {calls : List (OptimPriceInfo × Order)} {book : OrderBook} :
      (∀ call ∈ calls, call.2.Accepted) → OrderBook.insertOrders calls = .ok book → Reached book
  | placed {calls : List (OptimPriceInfo × Order)} {book : OrderBook} {o : Order} :
      (∀ call ∈ calls, call.2.Accepted) → OrderBook.insertOrders calls = .ok book →
      o.Accepted → Reached (book.place o)

theorem OrderBook.Reached.keyed {book : OrderBook} (h : book.Reached) : book.Keyed := by
  cases h with
  | @returned calls _ hr hrun =>
    obtain ⟨book', hrun', hkeyed, -⟩ := exists_keyed calls hr
    obtain rfl : book = book' := Except.ok.inj (hrun.symm.trans hrun')
    exact hkeyed
  | @placed calls book o hr hrun ho =>
    obtain ⟨book', hrun', hkeyed, -⟩ := exists_keyed calls hr
    obtain rfl : book = book' := Except.ok.inj (hrun.symm.trans hrun')
    exact hkeyed.place ho.1 ho.2.1

/-- Between two calls `flushStatus` is a query: the call before has read the sentinel if it is
ever read. -/
theorem OrderBook.insertOrders_pureQuery {calls : List (OptimPriceInfo × Order)} {book : OrderBook}
    (hr : ∀ call ∈ calls, call.2.Accepted) (hrun : OrderBook.insertOrders calls = .ok book) :
    book.PureQuery := by
  obtain ⟨book', hrun', hkeyed, hzero⟩ := exists_keyed calls hr
  obtain rfl : book = book' := Except.ok.inj (hrun.symm.trans hrun')
  exact hkeyed.pureQuery_iff.mpr hzero

/-- **When `flushStatus` is a query.**  On a book `insertOrder` reaches it changes nothing,
unless there are bids, none of them at price 0, and an ask at price 0. -/
theorem OrderBook.reached_pureQuery_iff {book : OrderBook} (h : book.Reached) :
    book.PureQuery ↔ ¬ (book.bidPriceMaps.entries ≠ [] ∧ book.askPriceMaps.HasKey 0 ∧
      ¬ book.bidPriceMaps.HasKey 0) :=
  h.keyed.pureQuery_iff

/-- The book of one bid. -/
def oneBid : OrderBook := OrderBook.empty.place ⟨1, 5, 10, 1⟩

theorem insertOrders_oneBid :
    OrderBook.insertOrders [(⟨0, 0, 0, 0, 0, 0⟩, ⟨1, 5, 10, 1⟩)] = .ok oneBid := rfl

/-- An ask at 3 is placed over a bid at 5. -/
theorem OrderBook.reached_pureQuery_iff_askAtThree :
    (oneBid.place ⟨2, 3, 10, 2⟩).PureQuery ↔
      ¬ ((oneBid.place ⟨2, 3, 10, 2⟩).bidPriceMaps.entries ≠ [] ∧
        (oneBid.place ⟨2, 3, 10, 2⟩).askPriceMaps.HasKey 0 ∧
        ¬ (oneBid.place ⟨2, 3, 10, 2⟩).bidPriceMaps.HasKey 0) :=
  OrderBook.reached_pureQuery_iff (.placed (by decide) insertOrders_oneBid (by decide))

/-- An ask at 0 is placed over a bid at 5: the bids gain a level at 0 that has no orders. -/
theorem OrderBook.not_pureQuery_askAtZero :
    (oneBid.place ⟨2, 0, 10, 2⟩).Reached ∧ ¬ (oneBid.place ⟨2, 0, 10, 2⟩).PureQuery ∧
      ∀ uninit, ∃ book status,
        (oneBid.place ⟨2, 0, 10, 2⟩).flushStatus uninit = .ok (book, status) ∧
        keyLots (oneBid.place ⟨2, 0, 10, 2⟩).bidPriceMaps.entries = [(5, 10)] ∧
        keyLots book.bidPriceMaps.entries = [(5, 10), (0, 0)] := by
  have hreached : (oneBid.place ⟨2, 0, 10, 2⟩).Reached :=
    .placed (by decide) insertOrders_oneBid (by decide)
  refine ⟨hreached, ?_, fun uninit => ?_⟩
  · rw [hreached.keyed.pureQuery_iff]
    decide
  · obtain ⟨status, hstatus⟩ := hreached.keyed.flushStatus_eq uninit
    exact ⟨_, status, hstatus, by decide, by decide⟩

end Obr
