/-
# Orders, price levels and the order iterator

The data of `full_order.cpp`: `Order`, `PriceLevel`, `OrderBookMap` with its
configurable comparator, and `OrderIterator`, which walks all orders of a map
level by level.
-/
import FastServer.MachineInt
import FastServer.SortedContainer

namespace Obr

/-! ## Data -/

/-- `struct Order`; `side` is 1 for buy and 2 for sell. -/
structure Order where
  id : ℕ
  price : ℤ
  quantity : ℕ
  side : ℤ
  deriving DecidableEq, Repr

/-- `struct PriceLevel`, value-initialised to no quantity and no orders. -/
structure PriceLevel where
  quantity : ℕ := 0
  orders : List Order := []
  deriving DecidableEq, Repr

/-- `struct ConfigurableComparator`. -/
structure ConfigurableComparator where
  is_ascending : Bool

/-- `ConfigurableComparator::operator()`. -/
def ConfigurableComparator.lt (c : ConfigurableComparator) (a b : ℕ) : Prop :=
  match c.is_ascending with
  | true => a < b
  | false => a > b

instance : (c : ConfigurableComparator) → DecidableRel c.lt
  | ⟨true⟩ => fun a b => inferInstanceAs (Decidable (a < b))
  | ⟨false⟩ => fun a b => inferInstanceAs (Decidable (a > b))

/-- Either direction is a strict total order on the keys. -/
instance (c : ConfigurableComparator) : IsStrictTotalOrder ℕ c.lt := by
  obtain ⟨_ | _⟩ := c
  · exact inferInstanceAs (IsStrictTotalOrder ℕ (· > ·))
  · exact inferInstanceAs (IsStrictTotalOrder ℕ (· < ·))

/-- `OrderBookMap`: price levels under `uint64_t` keys. -/
abbrev OrderBookMap (c : ConfigurableComparator) := SortedMap c.lt PriceLevel

/-- The comparator of `askPriceMaps`. -/
def ascending : ConfigurableComparator := ⟨true⟩

/-- The comparator of `bidPriceMaps`. -/
def descending : ConfigurableComparator := ⟨false⟩

theorem ascending_lt {a b : ℕ} : ascending.lt a b ↔ a < b := Iff.rfl

theorem descending_lt {a b : ℕ} : descending.lt a b ↔ b < a := Iff.rfl

/-! ## The order iterator -/

/-- `OrderIterator`: the levels from `map_iter` to the end of the map and the
orders from `list_iter` to the end of the current level.  An iterator that is
not at the end of the map always points at an order. -/
structure OrderIterator where
  mapIter : List (ℕ × PriceLevel)
  listIter : List Order
  valid : mapIter ≠ [] → listIter ≠ []
  at_end : mapIter = [] → listIter = []

/-- The loop of `advance_to_valid`: skip levels without orders left. -/
def advanceToValid : List (ℕ × PriceLevel) → List Order → List (ℕ × PriceLevel) × List Order
  | [], _ => ([], [])
  | level :: rest, o :: os => (level :: rest, o :: os)
  | [_], [] => ([], [])
  | _ :: next :: rest, [] => advanceToValid (next :: rest) next.2.orders

/-- After `advance_to_valid` the iterator is at the end or points at an order. -/
theorem advanceToValid_valid :
    ∀ (levels : List (ℕ × PriceLevel)) (os : List Order),
      (advanceToValid levels os).1 = [] ↔ (advanceToValid levels os).2 = []
  | [], _ => by simp [advanceToValid]
  | _ :: _, _ :: _ => by simp [advanceToValid]
  | [_], [] => by simp [advanceToValid]
  | _ :: next :: rest, [] => by
      rw [advanceToValid]
      exact advanceToValid_valid (next :: rest) next.2.orders

namespace OrderIterator

/-- The iterator left by `advance_to_valid`. -/
def ofAdvance (levels : List (ℕ × PriceLevel)) (os : List Order) : OrderIterator where
  mapIter := (advanceToValid levels os).1
  listIter := (advanceToValid levels os).2
  valid := fun h h' => h ((advanceToValid_valid levels os).mpr h')
  at_end := (advanceToValid_valid levels os).mp

/-- `begin(price_map)`. -/
def begin {c : ConfigurableComparator} (price_map : OrderBookMap c) : OrderIterator :=
  match price_map.entries with
  | [] => ofAdvance [] []
  | level :: rest => ofAdvance (level :: rest) level.2.orders

/-- `operator*`: `none` exactly when the iterator equals `end(price_map)`. -/
def deref? (it : OrderIterator) : Option Order := it.listIter.head?

/-- `operator++`. -/
def next (it : OrderIterator) : OrderIterator :=
  match it.mapIter with
  | [] => it
  | level :: rest => ofAdvance (level :: rest) it.listIter.tail

/-- `getMapIter`. -/
def getMapIter (it : OrderIterator) : List (ℕ × PriceLevel) := it.mapIter

/-! ### The orders still to be visited -/

/-- All orders of a run of levels, in iteration order. -/
def ordersOf (levels : List (ℕ × PriceLevel)) : List Order := levels.flatMap (fun e => e.2.orders)

/-- The orders from the iterator's position to the end. -/
def remaining (it : OrderIterator) : List Order := it.listIter ++ ordersOf it.mapIter.tail

theorem ordersOf_cons (e : ℕ × PriceLevel) (es : List (ℕ × PriceLevel)) :
    ordersOf (e :: es) = e.2.orders ++ ordersOf es := rfl

/-- Skipping exhausted levels skips no order. -/
theorem remaining_ofAdvance_cons :
    ∀ (level : ℕ × PriceLevel) (rest : List (ℕ × PriceLevel)) (os : List Order),
      (ofAdvance (level :: rest) os).remaining = os ++ ordersOf rest
  | _, _, _ :: _ => rfl
  | _, [], [] => rfl
  | _, next :: rest, [] => by
      have h := remaining_ofAdvance_cons next rest next.2.orders
      rw [List.nil_append, ordersOf_cons, ← h]
      simp only [remaining, ofAdvance, advanceToValid]

/-- `begin` has every order of the map ahead of it. -/
theorem remaining_begin {c : ConfigurableComparator} (price_map : OrderBookMap c) :
    (begin price_map).remaining = ordersOf price_map.entries := by
  unfold begin
  cases price_map.entries with
  | nil => rfl
  | cons level rest => exact remaining_ofAdvance_cons level rest level.2.orders

/-- The iterator points at the first order still to be visited. -/
theorem deref?_eq_head? (it : OrderIterator) : it.deref? = it.remaining.head? := by
  unfold deref? remaining
  cases hl : it.listIter with
  | nil =>
      have hm : it.mapIter = [] := by
        by_contra h
        exact it.valid h hl
      simp [hm, ordersOf]
  | cons o os => rfl

/-- `++` moves past exactly one order. -/
theorem remaining_next (it : OrderIterator) : it.next.remaining = it.remaining.tail := by
  unfold next
  cases hm : it.mapIter with
  | nil => simp [remaining, hm, it.at_end hm, ordersOf]
  | cons level rest =>
      have hl : it.listIter ≠ [] := it.valid (by simp [hm])
      simp only [remaining_ofAdvance_cons]
      rw [remaining, hm, List.tail_cons, List.tail_append_of_ne_nil hl]

/-! ### Where the iterator stands -/

/-- The iterator stands in the given levels: what is left of the map is a suffix
of them, and what is left of the current list a suffix of the level's orders. -/
structure Within (levels : List (ℕ × PriceLevel)) (it : OrderIterator) : Prop where
  map_suffix : it.mapIter <:+ levels
  list_suffix : ∀ level, it.mapIter.head? = some level → it.listIter <:+ level.2.orders

/-- Skipping exhausted levels stays within the levels. -/
theorem within_ofAdvance {levels : List (ℕ × PriceLevel)} :
    ∀ (level : ℕ × PriceLevel) (rest : List (ℕ × PriceLevel)) (os : List Order),
      level :: rest <:+ levels → os <:+ level.2.orders →
      (ofAdvance (level :: rest) os).Within levels
  | level, rest, o :: os, hm, ho => by
      refine ⟨hm, ?_⟩
      intro level' h'
      obtain rfl : level = level' := Option.some.inj h'
      exact ho
  | _, [], [], _, _ => by
      refine ⟨List.nil_suffix, ?_⟩
      intro level' h'
      exact absurd h' (by simp [ofAdvance, advanceToValid])
  | level, next :: rest, [], hm, _ => by
      have ih := within_ofAdvance next rest next.2.orders
        ((List.suffix_cons level (next :: rest)).trans hm) List.suffix_rfl
      refine ⟨?_, ?_⟩
      · simpa only [ofAdvance, advanceToValid] using ih.map_suffix
      · simpa only [ofAdvance, advanceToValid] using ih.list_suffix

theorem within_begin {c : ConfigurableComparator} (price_map : OrderBookMap c) :
    (begin price_map).Within price_map.entries := by
  unfold begin
  cases price_map.entries with
  | nil => exact ⟨List.nil_suffix, fun level h => by simp [ofAdvance, advanceToValid] at h⟩
  | cons level rest =>
      exact within_ofAdvance level rest level.2.orders List.suffix_rfl List.suffix_rfl

theorem Within.next {levels : List (ℕ × PriceLevel)} {it : OrderIterator} (h : it.Within levels) :
    it.next.Within levels := by
  unfold OrderIterator.next
  cases hm : it.mapIter with
  | nil => exact h
  | cons level rest =>
      refine within_ofAdvance level rest it.listIter.tail (hm ▸ h.map_suffix) ?_
      exact (List.tail_suffix _).trans (h.list_suffix level (by rw [hm]; rfl))

/-- An iterator with orders ahead stands in a level that has the first of them. -/
theorem Within.exists_level {levels : List (ℕ × PriceLevel)} {it : OrderIterator}
    (h : it.Within levels) {o : Order} {os : List Order} (hr : it.remaining = o :: os) :
    ∃ pre level rest, levels = pre ++ level :: rest ∧ it.mapIter = level :: rest ∧
      o ∈ level.2.orders := by
  have hd := it.deref?_eq_head?
  rw [hr, List.head?_cons, deref?] at hd
  cases hm : it.mapIter with
  | nil => simp [it.at_end hm] at hd
  | cons level rest =>
      obtain ⟨pre, hpre⟩ := h.map_suffix
      refine ⟨pre, level, rest, by rw [← hpre, hm], rfl, ?_⟩
      exact (h.list_suffix level (by rw [hm]; rfl)).mem (List.mem_of_mem_head? hd)

end OrderIterator

end Obr
