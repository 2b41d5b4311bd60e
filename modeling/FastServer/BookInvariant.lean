/-
# What a book holds

Every sequence of `insertOrder` calls leaves a book whose levels are exactly the
inserted orders: each level has the orders of its price in insertion order, their
total quantity, and no level is empty.  `flushStatus`, which runs inside every
call and indexes the live maps, leaves no trace, unless a bid stands at `INT64_MAX`:
from there it reads the sentinel of the asks, and a level without orders may stay
behind under that key.
-/
import FastServer.PriceChoice

namespace Obr

open CallAuction PriorityFill OrderIterator

/-! ## Lists of orders -/

/-- The orders of one side, in insertion order. -/
def onSide (side : ℤ) (os : List Order) : List Order := os.filter (fun o => o.side = side)

/-- The orders at one price, in insertion order. -/
def atPrice (p : ℤ) (os : List Order) : List Order := os.filter (fun o => o.price = p)

/-- Total quantity of a list of orders. -/
def totalOf (os : List Order) : ℕ := (os.map Order.quantity).sum

/-- An order the book is meant for: side 1 or 2 and a price strictly between 0
and `INT64_MAX`. -/
def Order.InRange (o : Order) : Prop :=
  (o.side = 1 ∨ o.side = 2) ∧ 0 < o.price ∧ o.price < int64Max

instance (o : Order) : Decidable o.InRange := inferInstanceAs (Decidable (_ ∧ _))

/-- An order the book takes: side 1 or 2 and a positive price, `INT64_MAX` included. -/
def Order.Valid (o : Order) : Prop := (o.side = 1 ∨ o.side = 2) ∧ 0 < o.price ∧ o.price < 2 ^ 63

instance (o : Order) : Decidable o.Valid := inferInstanceAs (Decidable (_ ∧ _))

theorem Order.InRange.valid {o : Order} (h : o.InRange) : o.Valid := by
  obtain ⟨hside, hpos, hlt⟩ := h
  unfold int64Max at hlt
  exact ⟨hside, hpos, by omega⟩

/-- The total quantity of each side is below `2^63`. -/
def TotalsFit (os : List Order) : Prop :=
  totalOf (onSide 1 os) < 2 ^ 63 ∧ totalOf (onSide 2 os) < 2 ^ 63

instance (os : List Order) : Decidable (TotalsFit os) := inferInstanceAs (Decidable (_ ∧ _))

theorem totalOf_append (os os' : List Order) : totalOf (os ++ os') = totalOf os + totalOf os' := by
  simp [totalOf]

theorem onSide_append (side : ℤ) (os os' : List Order) :
    onSide side (os ++ os') = onSide side os ++ onSide side os' := by
  simp [onSide]

theorem TotalsFit.of_append {os os' : List Order} (h : TotalsFit (os ++ os')) : TotalsFit os := by
  obtain ⟨h1, h2⟩ := h
  rw [onSide_append, totalOf_append] at h1 h2
  exact ⟨by omega, by omega⟩

/-- Grouping orders by the prices that occur only reorders them. -/
theorem flatMap_atPrice_perm :
    ∀ (keys : List ℕ) (os : List Order), keys.Nodup →
      (∀ o ∈ os, ∃ k ∈ keys, (k : ℤ) = o.price) →
      (keys.flatMap (fun k : ℕ => atPrice k os)).Perm os
  | [], os, _, h => by
      cases os with
      | nil => exact List.Perm.nil
      | cons o os =>
          obtain ⟨k, hk, -⟩ := h o List.mem_cons_self
          simp at hk
  | k :: ks, os, hnd, h => by
      obtain ⟨hk, hks⟩ := List.nodup_cons.mp hnd
      have hcong : ks.flatMap (fun k' : ℕ => atPrice k' os)
          = ks.flatMap (fun k' : ℕ => atPrice k' (os.filter (fun o => !decide (o.price = k)))) := by
        apply List.flatMap_congr
        intro k' hk'
        rw [atPrice, atPrice, List.filter_filter]
        apply List.filter_congr
        intro o _
        by_cases ho : o.price = k'
        · have hne : o.price ≠ k := fun e => hk (by
            have : (k' : ℤ) = k := ho.symm.trans e
            rwa [Nat.cast_inj.mp this] at hk')
          simp [ho, ho ▸ hne]
        · simp [ho]
      have ih := flatMap_atPrice_perm ks (os.filter (fun o => !decide (o.price = k))) hks
        (by
          intro o ho
          obtain ⟨hmem, hne⟩ := List.mem_filter.mp ho
          obtain ⟨k', hk', hp⟩ := h o hmem
          rcases List.mem_cons.mp hk' with rfl | hk'
          · simp [hp] at hne
          · exact ⟨k', hk', hp⟩)
      rw [List.flatMap_cons, hcong]
      exact (List.Perm.append_left _ ih).trans (List.filter_append_perm _ os)

/-! ## What one side holds -/

/-- The levels of one side of the book are made of the orders `os`, level by level. -/
structure Stores {c : ConfigurableComparator} (m : OrderBookMap c) (os : List Order) : Prop where
  price_eq : ∀ e ∈ m.entries, ∀ o ∈ e.2.orders, o.price = e.1
  quantity_eq : ∀ e ∈ m.entries, e.2.quantity = totalOf e.2.orders
  perm : (ordersOf m.entries).Perm os

/-- One side of the book holds exactly the orders `os`: its levels are made of them, in insertion
order, and none is empty. -/
structure Holds {c : ConfigurableComparator} (m : OrderBookMap c) (os : List Order) : Prop
    extends Stores m os where
  orders_eq : ∀ e ∈ m.entries, e.2.orders = atPrice e.1 os
  orders_ne : ∀ e ∈ m.entries, e.2.orders ≠ []

/-- The level the orders `os` make at key `k`. -/
def levelOf (os : List Order) (k : ℕ) : Option PriceLevel :=
  if atPrice k os = [] then none else some ⟨totalOf (atPrice k os), atPrice k os⟩

/-- Every key looks up the level its orders make. -/
def Represents {c : ConfigurableComparator} (m : OrderBookMap c) (os : List Order) : Prop :=
  ∀ k, m.get? k = levelOf os k

theorem represents_empty (c : ConfigurableComparator) :
    Represents (SortedMap.empty : OrderBookMap c) [] := fun _ => rfl

/-- **Placing an order.**  The level at its price gains the order, no other level
changes. -/
theorem Represents.upsert {c : ConfigurableComparator} {m : OrderBookMap c} {os : List Order}
    (h : Represents m os) {o : Order} (hpos : 0 < o.price) (hlt : o.price < 2 ^ 63)
    (ht : totalOf (os ++ [o]) < 2 ^ 63) :
    Represents (m.upsert (toU64 o.price) {} (·.push o)) (os ++ [o]) := by
  have hkey : ((toU64 o.price : ℕ) : ℤ) = o.price :=
    toU64_of_nonneg (le_of_lt hpos) (by omega)
  intro k
  by_cases hk : k = toU64 o.price
  · subst hk
    have hat : atPrice (toU64 o.price) (os ++ [o]) = atPrice (toU64 o.price) os ++ [o] := by
      simp [atPrice, hkey]
    have hsub : totalOf (atPrice (toU64 o.price) os) ≤ totalOf os :=
      List.Sublist.sum_le_sum (List.Sublist.map _ List.filter_sublist) (fun _ _ => Nat.zero_le _)
    have hsum : totalOf (os ++ [o]) = totalOf os + o.quantity := by simp [totalOf]
    have hlev : (levelOf os (toU64 o.price)).getD {}
        = ⟨totalOf (atPrice (toU64 o.price) os), atPrice (toU64 o.price) os⟩ := by
      unfold levelOf
      split_ifs with hnil
      · rw [hnil]
        rfl
      · rfl
    rw [SortedMap.get?_upsert_self, h, hlev, levelOf, hat, if_neg (by simp), totalOf_append]
    have hw : toU64 ((totalOf (atPrice (toU64 o.price) os) : ℤ) + o.quantity)
        = totalOf (atPrice (toU64 o.price) os) + totalOf [o] := by
      have hone : totalOf [o] = o.quantity := by simp [totalOf]
      rw [hone, ← Nat.cast_add, toU64_natCast (by omega)]
    simp only [PriceLevel.push, hw]
  · have hat : atPrice k (os ++ [o]) = atPrice k os := by
      have hne : ¬ o.price = k := by omega
      simp [atPrice, hne]
    rw [SortedMap.get?_upsert_of_ne _ hk, h, levelOf, levelOf, hat]

section Side

variable {c : ConfigurableComparator} {m : OrderBookMap c} {os : List Order}

/-- An entry of a represented side is the level of its key. -/
theorem Represents.entry (h : Represents m os) {e : ℕ × PriceLevel} (he : e ∈ m.entries) :
    atPrice e.1 os ≠ [] ∧ e.2 = ⟨totalOf (atPrice e.1 os), atPrice e.1 os⟩ := by
  have hget : m.get? e.1 = some e.2 := SortedMap.get?_of_mem_entries he
  rw [h, levelOf] at hget
  split_ifs at hget with hnil
  exact ⟨hnil, (Option.some.inj hget).symm⟩

/-- An order with a nonnegative price has a level. -/
theorem Represents.exists_entry (h : Represents m os) {o : Order} (ho : o ∈ os)
    (hpos : 0 < o.price) : ∃ e ∈ m.entries, (e.1 : ℤ) = o.price := by
  have hk : ((o.price.toNat : ℕ) : ℤ) = o.price := Int.toNat_of_nonneg (le_of_lt hpos)
  have hmem : o ∈ atPrice (o.price.toNat : ℕ) os := by
    rw [atPrice, hk]
    exact List.mem_filter.mpr ⟨ho, by simp⟩
  have hget : m.get? o.price.toNat = some _ := (h _).trans (if_neg (List.ne_nil_of_mem hmem))
  exact ⟨_, SortedMap.mem_entries_of_get? hget, hk⟩

/-- **Lookup determines everything.**  A side that looks up right holds exactly
its orders. -/
theorem Represents.holds (h : Represents m os) (hpos : ∀ o ∈ os, 0 < o.price) : Holds m os where
  price_eq := by
    intro e he o ho
    rw [(h.entry he).2] at ho
    simpa using (List.mem_filter.mp ho).2
  quantity_eq := by
    intro e he
    rw [(h.entry he).2]
  orders_eq := by
    intro e he
    rw [(h.entry he).2]
  orders_ne := by
    intro e he
    rw [(h.entry he).2]
    exact (h.entry he).1
  perm := by
    have hflat : ordersOf m.entries = 
        (m.entries.map Prod.fst).flatMap (fun k : ℕ => atPrice k os) := by
      rw [ordersOf, List.flatMap_map]
      apply List.flatMap_congr
      intro e he
      rw [(h.entry he).2]
    rw [hflat]
    apply flatMap_atPrice_perm
    · rw [List.nodup_iff_pairwise_ne, List.pairwise_map]
      refine m.sorted.imp ?_
      intro a b hab heq
      rw [heq] at hab
      exact irrefl_of c.lt b.1 hab
    · intro o ho
      obtain ⟨e, he, hk⟩ := h.exists_entry ho (hpos o ho)
      exact ⟨e.1, List.mem_map_of_mem he, hk⟩

/-- The levels of a side weigh what its orders weigh. -/
theorem totalQuantity_eq_totalOf {levels : List (ℕ × PriceLevel)}
    (h : ∀ e ∈ levels, e.2.quantity = totalOf e.2.orders) :
    totalQuantity levels = totalOf (ordersOf levels) := by
  induction levels with
  | nil => rfl
  | cons e es ih =>
      rw [totalQuantity_cons, ordersOf_cons, totalOf_append, h e List.mem_cons_self,
        ih fun e' he' => h e' (List.mem_cons_of_mem _ he')]

/-- Keys are bounded as the prices are. -/
theorem Holds.key_lt (h : Holds m os) {bound : ℤ} (hp : ∀ o ∈ os, o.price < bound)
    {e : ℕ × PriceLevel} (he : e ∈ m.entries) : (e.1 : ℤ) < bound := by
  obtain ⟨o, ho⟩ := List.exists_mem_of_ne_nil _ (h.orders_ne e he)
  rw [← h.price_eq e he o ho]
  exact hp o (h.perm.mem_iff.mp (List.mem_flatMap.mpr ⟨e, he, ho⟩))

/-- The keys are the prices of the orders. -/
theorem Holds.hasKey_iff (h : Holds m os) {k : ℕ} :
    m.HasKey k ↔ ∃ o ∈ os, o.price = k := by
  constructor
  · rintro ⟨e, he, rfl⟩
    obtain ⟨o, ho⟩ := List.exists_mem_of_ne_nil _ (h.orders_ne e he)
    exact ⟨o, h.perm.mem_iff.mp (List.mem_flatMap.mpr ⟨e, he, ho⟩), h.price_eq e he o ho⟩
  · rintro ⟨o, ho, hk⟩
    obtain ⟨e, he, hoe⟩ := List.mem_flatMap.mp (h.perm.mem_iff.mpr ho)
    have hkey := h.price_eq e he o hoe
    exact ⟨e, he, by omega⟩

/-- A side made of orders with a fitting total is sound if its keys are in range. -/
theorem Stores.sound (h : Stores m os) (hkey : ∀ e ∈ m.entries, 0 < e.1 ∧ e.1 < 2 ^ 63)
    (ht : totalOf os < 2 ^ 63) : SideSound m := by
  refine ⟨fun e he => (hkey e he).1, fun e he => (hkey e he).2, ?_⟩
  rw [totalQuantity_eq_totalOf h.quantity_eq, totalOf, (h.perm.map _).sum_eq]
  exact ht

/-- The keys of a side that holds orders at positive prices are in range. -/
theorem Holds.key_range (h : Holds m os) (hr : ∀ o ∈ os, 0 < o.price ∧ o.price < 2 ^ 63) :
    ∀ e ∈ m.entries, 0 < e.1 ∧ e.1 < 2 ^ 63 := by
  intro e he
  have hlt := h.key_lt (fun o ho => (hr o ho).2) he
  obtain ⟨o, ho, hk⟩ := h.hasKey_iff.mp (SortedMap.hasKey_fst he)
  have hpos := (hr o ho).1
  omega

end Side

/-! ## The level under the sentinel key -/

/-- The book after the bid scan. -/
def OrderBook.indexed (book : OrderBook) : OrderBook :=
  if book.IndexesMax then (book.askLevel int64Max).1 else book

section Indexed

variable {book : OrderBook}

/-- Indexing the price `INT64_MAX` is indexing the sentinel key. -/
theorem OrderBook.askLevel_int64Max (book : OrderBook) : (book.askLevel int64Max).1
    = { book with askPriceMaps := book.askPriceMaps.upsert (2 ^ 63 - 1) {} id } := by
  rw [askLevel, toU64_int64Max]

@[simp] theorem OrderBook.indexed_bidPriceMaps :
    book.indexed.bidPriceMaps = book.bidPriceMaps := by
  rw [indexed]
  split_ifs <;> rfl

theorem OrderBook.indexed_of_not (h : ¬ book.IndexesMax) : book.indexed = book := if_neg h

theorem OrderBook.indexed_askPriceMaps (h : book.IndexesMax) :
    book.indexed.askPriceMaps = book.askPriceMaps.upsert (2 ^ 63 - 1) {} id := by
  rw [indexed, if_pos h, askLevel_int64Max]

/-- The levels of the asks once the sentinel has been read: one more if none is under its key. -/
theorem OrderBook.indexed_entries (hlt : ∀ e ∈ book.askPriceMaps.entries, e.1 < 2 ^ 63) :
    book.indexed.askPriceMaps.entries = book.askPriceMaps.entries ∨
      (book.IndexesMax ∧ ¬ book.askPriceMaps.HasKey (2 ^ 63 - 1) ∧
        book.indexed.askPriceMaps.entries
          = book.askPriceMaps.entries ++ [(2 ^ 63 - 1, ({} : PriceLevel))]) := by
  by_cases hmax : book.IndexesMax
  · by_cases hkey : book.askPriceMaps.HasKey (2 ^ 63 - 1)
    · rw [indexed_askPriceMaps hmax, SortedMap.upsert_id_of_hasKey {} hkey]
      exact Or.inl rfl
    · refine Or.inr ⟨hmax, hkey, ?_⟩
      rw [indexed_askPriceMaps hmax, SortedMap.entries_upsert_of_forall_lt]
      · rfl
      · intro e he
        have hne : e.1 ≠ 2 ^ 63 - 1 := fun heq => hkey ⟨e, he, heq⟩
        have := hlt e he
        show e.1 < 2 ^ 63 - 1
        omega
  · rw [indexed_of_not hmax]
    exact Or.inl rfl

/-- Placing an order commutes with reading the sentinel, unless it is not read yet. -/
theorem OrderBook.place_indexed (book : OrderBook) (o : Order) :
    book.indexed.place o = book.place o ∨ book.indexed.place o = (book.place o).indexed := by
  by_cases hmax : book.IndexesMax
  · obtain ⟨⟨e, he, hk⟩, hne⟩ := hmax
    obtain ⟨e', he'⟩ := List.exists_mem_of_ne_nil _ hne
    refine Or.inr ?_
    have hkeys : (book.place o).IndexesMax := by
      unfold place
      split_ifs
      · exact ⟨(SortedMap.hasKey_upsert _ _).mpr (Or.inr ⟨e, he, hk⟩), hne⟩
      · refine ⟨⟨e, he, hk⟩, ?_⟩
        have hkey : (book.askPriceMaps.upsert (toU64 o.price) {} (·.push o)).HasKey e'.1 :=
          (SortedMap.hasKey_upsert _ _).mpr (Or.inr (SortedMap.hasKey_fst he'))
        obtain ⟨x, hx, -⟩ := hkey
        exact List.ne_nil_of_mem hx
      · exact ⟨⟨e, he, hk⟩, hne⟩
    rw [indexed, indexed, if_pos ⟨⟨e, he, hk⟩, hne⟩, if_pos hkeys, askLevel_int64Max,
      askLevel_int64Max]
    unfold place
    split_ifs
    · rfl
    · rw [SortedMap.upsert_id_upsert]
    · rfl
  · rw [indexed_of_not hmax]
    exact Or.inl rfl

end Indexed

/-! ## The calls -/

/-- The iterator over a side with orders starts at an order. -/
theorem exists_deref?_begin {c : ConfigurableComparator} {m : OrderBookMap c}
    (h : ordersOf m.entries ≠ []) : ∃ o, (OrderIterator.begin m).deref? = some o := by
  rw [deref?_eq_head?, remaining_begin]
  exact ⟨_, List.head?_eq_some_head h⟩

/-- With orders on both sides the matching loop runs. -/
theorem OrderBook.matchOrders_ok {book : OrderBook} (hb : ordersOf book.bidPriceMaps.entries ≠ [])
    (ha : ordersOf book.askPriceMaps.entries ≠ []) : ∃ st, book.matchOrders = .ok st := by
  obtain ⟨o, ho⟩ := exists_deref?_begin hb
  obtain ⟨o', ho'⟩ := exists_deref?_begin ha
  rw [matchOrders, ho, ho']
  exact ⟨_, rfl⟩

section Flush

variable {book : OrderBook} {b a : ℕ × PriceLevel}

/-- A bid scan that starts at the sentinel of the asks might as well find its level there. -/
theorem bidScan_from_max {askPrefixSum : SortedMap (· < ·) ℕ} {minBidPrice : ℤ} {v' : ℕ}
    (hkey : book.bidPriceMaps.HasKey (2 ^ 63 - 1))
    (hfind : askPrefixSum.lowerBound (2 ^ 63 - 1) = some (2 ^ 63 - 1, v'))
    (hgo : ¬ 2 ^ 63 - 1 < toU64 minBidPrice) (v : ℕ) (rest : List (ℕ × ℕ))
    (best : OptimPriceInfo) :
    bidScan askPrefixSum minBidPrice ((2 ^ 63 - 1, v) :: rest) book best
      = bidScan askPrefixSum minBidPrice ((2 ^ 63 - 1, v) :: rest) (book.askLevel int64Max).1
          best := by
  have hI : toI64 ((2 ^ 63 - 1 : ℕ) : ℤ) = int64Max := by decide
  have htwice : ((book.askLevel int64Max).1.askLevel int64Max)
      = ((book.askLevel int64Max).1, (book.askLevel int64Max).2) := by
    have hget : ((book.askLevel int64Max).1.askPriceMaps).get? (toU64 int64Max)
        = some (book.askLevel int64Max).2 := SortedMap.get?_upsert_self ..
    rw [OrderBook.askLevel, hget, SortedMap.upsert_id_of_get? _ hget]
    rfl
  have hbid : ∀ m : OrderBookMap ascending, OrderBook.bidLevel ⟨m, book.bidPriceMaps⟩ int64Max
      = (⟨m, book.bidPriceMaps⟩, (book.bidPriceMaps.get? (2 ^ 63 - 1)).getD {}) := by
    intro m
    rw [OrderBook.bidLevel, toU64_int64Max, SortedMap.upsert_id_of_hasKey {} hkey]
  have hbook : book.bidLevel int64Max
      = (book, (book.bidPriceMaps.get? (2 ^ 63 - 1)).getD {}) := hbid book.askPriceMaps
  have hindexed : (book.askLevel int64Max).1.bidLevel int64Max
      = ((book.askLevel int64Max).1, (book.bidPriceMaps.get? (2 ^ 63 - 1)).getD {}) := hbid _
  rw [bidScan, bidScan]
  simp only [if_neg hgo, hI, toU64_int64Max, hfind, hbook, hindexed, htwice, if_true]

/-- A level without quantity under the sentinel key is not in the prefix sums. -/
theorem OrderBook.askPrefixSum_indexed (hlt : ∀ e ∈ book.askPriceMaps.entries, e.1 < 2 ^ 63)
    (ht : totalQuantity book.askPriceMaps.entries < 2 ^ 63) :
    book.indexed.askPrefixSum = book.askPrefixSum := by
  rcases indexed_entries hlt with heq | ⟨-, -, heq⟩
  · rw [askPrefixSum, heq, askPrefixSum]
  · have hlt' : ∀ e ∈ book.indexed.askPriceMaps.entries, ¬ 2 ^ 63 - 1 < e.1 := by
      intro e he
      rw [heq] at he
      rcases List.mem_append.mp he with he | he
      · have := hlt e he
        omega
      · rw [List.mem_singleton.mp he]
        exact lt_irrefl _
    have htotal : totalQuantity book.indexed.askPriceMaps.entries
        = totalQuantity book.askPriceMaps.entries := by
      rw [heq]
      simp [totalQuantity, keyLots]
    have hbefore : levelsBefore (fun a b => a < b) (2 ^ 63 - 1) book.indexed.askPriceMaps.entries
        = levelsBefore (fun a b => a < b) (2 ^ 63 - 1) book.askPriceMaps.entries := by
      rw [heq, levelsBefore, List.filter_append]
      simp [levelsBefore]
    apply SortedMap.ext
    have hindexed := prefixSum_entries (fun a b => a < b) (2 ^ 63 - 1)
      book.indexed.askPriceMaps.sorted hlt' (by omega)
    have hbook := prefixSum_entries (fun a b => a < b) (2 ^ 63 - 1)
      book.askPriceMaps.sorted (fun e he => by have := hlt e he; omega) (by omega)
    rw [hbefore, htotal] at hindexed
    rw [askPrefixSum, askPrefixSum, toU64_int64Max]
    exact hindexed.trans hbook.symm

/-- The best ask is the same once the sentinel has been read. -/
theorem OrderBook.head?_indexed (hlt : ∀ e ∈ book.askPriceMaps.entries, e.1 < 2 ^ 63)
    (ha : book.askPriceMaps.entries.head? = some a) :
    book.indexed.askPriceMaps.entries.head? = some a := by
  rcases indexed_entries hlt with heq | ⟨-, -, heq⟩
  · rw [heq, ha]
  · rw [heq, List.head?_append, ha]
    rfl

/-- **Reading the sentinel makes no difference to the status**: `flushStatus` ends as it would if
the level that it creates were there already. -/
theorem OrderBook.flushStatus_indexed (hbid : SideSound book.bidPriceMaps)
    (hask : SideSound book.askPriceMaps) (uninit : OptimPriceInfo) :
    book.flushStatus uninit = book.indexed.flushStatus uninit := by
  by_cases hmax : book.IndexesMax
  · obtain ⟨⟨e, he, hk⟩, hne⟩ := id hmax
    have hb := List.head?_eq_some_head (List.ne_nil_of_mem he)
    have ha := List.head?_eq_some_head hne
    generalize book.bidPriceMaps.entries.head _ = b at hb
    generalize book.askPriceMaps.entries.head _ = a at ha
    have hamem := List.mem_of_mem_head? ha
    have hbkey : b.1 = 2 ^ 63 - 1 := by
      have := le_bestBid hb he
      have := hbid.key_lt b (List.mem_of_mem_head? hb)
      omega
    have hx : ¬ b.1 < a.1 := by
      have := hask.key_lt a hamem
      omega
    obtain ⟨v, rest, hentries⟩ : ∃ v rest,
        book.bidPrefixSum.entries = (2 ^ 63 - 1, v) :: rest := by
      have hhead := bidPrefixSum_head hb
      cases hsums : book.bidPrefixSum.entries with
      | nil =>
        rw [hsums] at hhead
        simp only [List.head?_nil, Option.map_none, Option.getD_none] at hhead
        omega
      | cons x xs =>
        rw [hsums] at hhead
        have hx1 : x.1 = 2 ^ 63 - 1 := hhead.trans hbkey
        exact ⟨x.2, xs, by rw [← hx1]⟩
    have hgo : ¬ 2 ^ 63 - 1 < toU64 (toI64 (a.1 : ℤ)) := by
      rw [hask.toI64_key hamem, hask.toU64_key hamem]
      omega
    obtain ⟨v', hfind⟩ : ∃ v', book.askPrefixSum.lowerBound (2 ^ 63 - 1)
        = some (2 ^ 63 - 1, v') := by
      have htot := hask.total_lt
      obtain ⟨k, hk, hiff⟩ := lowerBound_prefixSum (fun a b : ℕ => a < b) (2 ^ 63 - 1) (2 ^ 63 - 1)
        book.askPriceMaps.sorted (fun e he => by have := hask.key_lt e he; omega) (by omega)
        (by omega)
      rw [hiff.mpr (Or.inr rfl), ← toU64_int64Max] at hk
      rw [← toU64_int64Max]
      exact ⟨_, hk⟩
    have hscan := bidScan_from_max hmax.1 hfind hgo v rest
    have hstep : book.indexed = (book.askLevel int64Max).1 := if_pos hmax
    have hsums : book.indexed.bidPrefixSum = book.bidPrefixSum := by
      rw [bidPrefixSum, indexed_bidPriceMaps, bidPrefixSum]
    have hmin := askPrefixSum_head hask.key_lt ha
    rw [← hstep] at hscan
    rw [flushStatus, flushStatus, indexed_bidPriceMaps, head?_indexed hask.key_lt ha, hb, ha]
    simp only [if_neg hx, hsums, askPrefixSum_indexed hask.key_lt hask.total_lt, hmin, hentries,
      hscan]
  · rw [indexed_of_not hmax]

end Flush

/-- The book represents the orders inserted so far, side by side. -/
structure OrderBook.Represents (book : OrderBook) (os : List Order) : Prop where
  bid : Obr.Represents book.bidPriceMaps (onSide 1 os)
  ask : Obr.Represents book.askPriceMaps (onSide 2 os)

/-- **`place` keeps the representation.** -/
theorem OrderBook.Represents.place {book : OrderBook} {os : List Order} (h : book.Represents os)
    {o : Order} (ho : o.Valid) (ht : TotalsFit (os ++ [o])) :
    (book.place o).Represents (os ++ [o]) := by
  obtain ⟨hside, hpos, hlt⟩ := ho
  obtain ⟨ht1, ht2⟩ := ht
  rcases hside with hs | hs
  · have h1 : onSide 1 (os ++ [o]) = onSide 1 os ++ [o] := by simp [onSide, hs]
    have h2 : onSide 2 (os ++ [o]) = onSide 2 os := by simp [onSide, hs]
    rw [OrderBook.place, if_pos hs]
    refine ⟨?_, ?_⟩
    · rw [h1]
      exact h.bid.upsert hpos hlt (h1 ▸ ht1)
    · rw [h2]
      exact h.ask
  · have h1 : onSide 1 (os ++ [o]) = onSide 1 os := by simp [onSide, hs]
    have h2 : onSide 2 (os ++ [o]) = onSide 2 os ++ [o] := by simp [onSide, hs]
    rw [OrderBook.place, if_neg (by omega), if_pos hs]
    refine ⟨?_, ?_⟩
    · rw [h1]
      exact h.bid
    · rw [h2]
      exact h.ask.upsert hpos hlt (h2 ▸ ht2)

/-- A book made of the orders `os`, in which `flushStatus` may have left a level without orders:
under the sentinel key of the asks, if a bid stands there. -/
structure OrderBook.Keeps (book : OrderBook) (os : List Order) : Prop where
  sound : book.Sound
  bid : Holds book.bidPriceMaps (onSide 1 os)
  ask_stored : Stores book.askPriceMaps (onSide 2 os)
  ask_level : ∀ e ∈ book.askPriceMaps.entries, e.2.orders = [] →
    e.1 = 2 ^ 63 - 1 ∧ book.bidPriceMaps.HasKey (2 ^ 63 - 1) ∧ onSide 2 os ≠ []

/-- A level without orders changes nothing in what a side is made of. -/
theorem Stores.append_empty {c : ConfigurableComparator} {m m' : OrderBookMap c} {os : List Order}
    {k : ℕ} (h : Stores m os) (heq : m'.entries = m.entries ++ [(k, ({} : PriceLevel))]) :
    Stores m' os := by
  have hmem : ∀ e ∈ m'.entries, e ∈ m.entries ∨ e = (k, {}) := by
    intro e he
    rw [heq] at he
    exact (List.mem_append.mp he).imp_right List.mem_singleton.mp
  constructor
  · intro e he o ho
    rcases hmem e he with he | rfl
    · exact h.price_eq e he o ho
    · exact absurd ho List.not_mem_nil
  · intro e he
    rcases hmem e he with he | rfl
    · exact h.quantity_eq e he
    · rfl
  · rw [heq, ordersOf, List.flatMap_append]
    simpa [ordersOf] using h.perm

section Represented

variable {book : OrderBook} {os : List Order}

/-- Either side of a represented book holds its orders. -/
theorem OrderBook.Represents.holds (h : book.Represents os) (hr : ∀ o ∈ os, o.Valid) :
    Holds book.bidPriceMaps (onSide 1 os) ∧ Holds book.askPriceMaps (onSide 2 os) :=
  ⟨h.bid.holds fun o ho => (hr o (List.mem_filter.mp ho).1).2.1,
    h.ask.holds fun o ho => (hr o (List.mem_filter.mp ho).1).2.1⟩

/-- A side of valid orders with a fitting total is sound. -/
theorem Holds.sideSound {c : ConfigurableComparator} {m : OrderBookMap c} {side : ℤ}
    (h : Holds m (onSide side os)) (hr : ∀ o ∈ os, o.Valid)
    (ht : totalOf (onSide side os) < 2 ^ 63) : SideSound m :=
  h.toStores.sound (h.key_range fun o ho => (hr o (List.mem_filter.mp ho).1).2) ht

/-- **What a represented book is once the sentinel has been read.** -/
theorem OrderBook.Represents.keeps (h : book.Represents os) (hr : ∀ o ∈ os, o.Valid)
    (ht : TotalsFit os) : book.indexed.Keeps os := by
  obtain ⟨hbid, hask⟩ := h.holds hr
  have hbidSound := hbid.sideSound hr ht.1
  have haskSound := hask.sideSound hr ht.2
  have hne : book.askPriceMaps.entries ≠ [] → onSide 2 os ≠ [] := by
    intro hne
    obtain ⟨e, he⟩ := List.exists_mem_of_ne_nil _ hne
    obtain ⟨o, ho, -⟩ := hask.hasKey_iff.mp (SortedMap.hasKey_fst he)
    exact List.ne_nil_of_mem ho
  rcases indexed_entries haskSound.key_lt with heq | ⟨hmax, -, heq⟩
  · have hmap : book.indexed.askPriceMaps = book.askPriceMaps := SortedMap.ext heq
    refine ⟨⟨?_, hmap ▸ haskSound, ?_⟩, ?_, hmap ▸ hask.toStores, ?_⟩
    · rwa [indexed_bidPriceMaps]
    · rintro ⟨hkey, hne⟩
      rw [indexed_bidPriceMaps] at hkey
      rw [hmap] at hne
      rw [indexed_askPriceMaps ⟨hkey, hne⟩]
      exact (SortedMap.hasKey_upsert _ _).mpr (Or.inl rfl)
    · rwa [indexed_bidPriceMaps]
    · intro e he hnil
      rw [heq] at he
      exact absurd hnil (hask.orders_ne e he)
  · have hlast : (2 ^ 63 - 1, ({} : PriceLevel)) ∈ book.indexed.askPriceMaps.entries := by
      rw [heq]
      exact List.mem_append_right _ List.mem_cons_self
    refine ⟨⟨?_, (hask.toStores.append_empty heq).sound ?_ ht.2, ?_⟩, ?_,
      hask.toStores.append_empty heq, ?_⟩
    · rwa [indexed_bidPriceMaps]
    · intro e he
      rw [heq] at he
      rcases List.mem_append.mp he with he | he
      · exact ⟨haskSound.key_pos e he, haskSound.key_lt e he⟩
      · rw [List.mem_singleton.mp he]
        exact ⟨by norm_num, by norm_num⟩
    · exact fun _ => SortedMap.hasKey_fst hlast
    · rwa [indexed_bidPriceMaps]
    · intro e he hnil
      rw [heq] at he
      rcases List.mem_append.mp he with he | he
      · exact absurd hnil (hask.orders_ne e he)
      · rw [List.mem_singleton.mp he, indexed_bidPriceMaps]
        exact ⟨rfl, hmax.1, hne hmax.2⟩

/-- The sides of a book with levels have orders. -/
theorem OrderBook.Keeps.orders_ne (h : book.Keeps os) :
    (book.bidPriceMaps.entries ≠ [] → ordersOf book.bidPriceMaps.entries ≠ []) ∧
      (book.askPriceMaps.entries ≠ [] → ordersOf book.askPriceMaps.entries ≠ []) := by
  constructor
  · intro hne
    obtain ⟨e, he⟩ := List.exists_mem_of_ne_nil _ hne
    obtain ⟨o, ho⟩ := List.exists_mem_of_ne_nil _ (h.bid.orders_ne e he)
    exact List.ne_nil_of_mem (List.mem_flatMap.mpr ⟨e, he, ho⟩)
  · intro hne
    obtain ⟨e, he⟩ := List.exists_mem_of_ne_nil _ hne
    by_cases hnil : e.2.orders = []
    · obtain ⟨o, ho⟩ := List.exists_mem_of_ne_nil _ (h.ask_level e he hnil).2.2
      exact List.ne_nil_of_mem (h.ask_stored.perm.mem_iff.mpr ho)
    · obtain ⟨o, ho⟩ := List.exists_mem_of_ne_nil _ hnil
      exact List.ne_nil_of_mem (List.mem_flatMap.mpr ⟨e, he, ho⟩)

/-- **`flushStatus` is a query** on such a book: it ends normally and returns the book as it
was. -/
theorem OrderBook.Keeps.flushStatus_ok (h : book.Keeps os) (uninit : OptimPriceInfo) :
    ∃ status, book.flushStatus uninit = .ok (book, status) := by
  cases hb : book.bidPriceMaps.entries.head? with
  | none => exact ⟨{}, by rw [flushStatus, hb]⟩
  | some b =>
      cases ha : book.askPriceMaps.entries.head? with
      | none => exact ⟨{}, by rw [flushStatus, hb, ha]⟩
      | some a =>
          by_cases hx : b.1 < a.1
          · exact ⟨{}, by rw [flushStatus, hb, ha]; simp only [if_pos hx]⟩
          · obtain ⟨st, hst⟩ := matchOrders_ok
              (h.orders_ne.1 (List.ne_nil_of_mem (List.mem_of_mem_head? hb)))
              (h.orders_ne.2 (List.ne_nil_of_mem (List.mem_of_mem_head? ha)))
            rw [flushStatus_eq h.sound hb ha (not_lt.mp hx), hst]
            exact ⟨_, rfl⟩

end Represented

/-- **The run.**  Every sequence of calls ends normally, in a book that represents the orders of
the calls once the sentinel has been read. -/
theorem OrderBook.exists_insertOrders (calls : List (OptimPriceInfo × Order))
    (hr : ∀ call ∈ calls, call.2.Valid) (ht : TotalsFit (calls.map Prod.snd)) :
    ∃ book : OrderBook, OrderBook.insertOrders calls = .ok book.indexed ∧
      book.Represents (calls.map Prod.snd) := by
  induction calls using List.reverseRecOn with
  | nil => exact ⟨OrderBook.empty, rfl, ⟨represents_empty _, represents_empty _⟩⟩
  | append_singleton calls call ih =>
      rw [List.map_append, List.map_singleton] at ht ⊢
      have hr' : ∀ call ∈ calls, call.2.Valid := fun c hc => hr c (List.mem_append_left _ hc)
      have hcall : call.2.Valid := hr call (by simp)
      have hvalid : ∀ o ∈ calls.map Prod.snd ++ [call.2], o.Valid := by
        intro o ho
        rcases List.mem_append.mp ho with ho | ho
        · obtain ⟨c, hc, rfl⟩ := List.mem_map.mp ho
          exact hr' c hc
        · exact List.mem_singleton.mp ho ▸ hcall
      obtain ⟨book, hrun, hrep⟩ := ih hr' ht.of_append
      have hplace := hrep.place hcall ht
      obtain ⟨hbid, hask⟩ := hplace.holds hvalid
      obtain ⟨status, hflush⟩ := (hplace.keeps hvalid ht).flushStatus_ok call.1
      have hplaced : (book.indexed.place call.2).flushStatus call.1
          = .ok ((book.place call.2).indexed, status) := by
        rcases place_indexed book call.2 with heq | heq
        · rw [heq, flushStatus_indexed (hbid.sideSound hvalid ht.1) (hask.sideSound hvalid ht.2),
            hflush]
        · rw [heq, hflush]
      refine ⟨book.place call.2, ?_, hplace⟩
      rw [insertOrders] at hrun ⊢
      rw [List.foldlM_append, hrun]
      simp only [bind, Except.bind, List.foldlM_cons, List.foldlM_nil, insertOrder, hplaced]
      rfl

/-- Below `INT64_MAX` the sentinel is never read. -/
theorem OrderBook.Represents.indexed_eq {book : OrderBook} {os : List Order}
    (h : book.Represents os) (hr : ∀ o ∈ os, o.InRange) : book.indexed = book := by
  apply indexed_of_not
  rintro ⟨hkey, -⟩
  obtain ⟨o, ho, hp⟩ := (h.holds fun o ho => (hr o ho).valid).1.hasKey_iff.mp hkey
  have hlt := (hr o (List.mem_filter.mp ho).1).2.2
  unfold int64Max at hlt
  omega

/-- **The book is its orders.**  After any sequence of `insertOrder` calls, each
with its own `flushStatus` on the live book, either side holds exactly the orders
inserted on it: level by level, in insertion order, none lost, none duplicated,
none on the wrong side, and no level is empty. -/
theorem OrderBook.insertOrders_holds (calls : List (OptimPriceInfo × Order))
    (hr : ∀ call ∈ calls, call.2.InRange) (ht : TotalsFit (calls.map Prod.snd)) :
    ∃ book, OrderBook.insertOrders calls = .ok book ∧
      Holds book.bidPriceMaps (onSide 1 (calls.map Prod.snd)) ∧
      Holds book.askPriceMaps (onSide 2 (calls.map Prod.snd)) := by
  obtain ⟨book, hrun, hrep⟩ := exists_insertOrders calls (fun c hc => (hr c hc).valid) ht
  have hr' : ∀ o ∈ calls.map Prod.snd, o.InRange := List.forall_mem_map.mpr hr
  rw [hrep.indexed_eq hr'] at hrun
  exact ⟨book, hrun, hrep.holds fun o ho => (hr' o ho).valid⟩

/-- Two bids and an ask that crosses both, inserted with different values left in
the uninitialised local. -/
def crossingCalls : List (OptimPriceInfo × Order) :=
  [(⟨0, 0, 0, 0, 0, 0⟩, ⟨1, 101, 30, 1⟩), (⟨7, 7, 7, 7, 7, 7⟩, ⟨2, 100, 20, 1⟩),
    (⟨-1, 9, 0, 0, 3, 0⟩, ⟨3, 100, 40, 2⟩)]

/-- The crossing calls leave a book that holds their orders. -/
theorem OrderBook.insertOrders_holds_crossingCalls :
    ∃ book, OrderBook.insertOrders crossingCalls = .ok book ∧
      Holds book.bidPriceMaps [⟨1, 101, 30, 1⟩, ⟨2, 100, 20, 1⟩] ∧
      Holds book.askPriceMaps [⟨3, 100, 40, 2⟩] :=
  OrderBook.insertOrders_holds crossingCalls (by decide) (by decide)

end Obr
