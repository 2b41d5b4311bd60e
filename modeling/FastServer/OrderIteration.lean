/-
# The order iterator by its positions

`OrderIterator` of `full_order.cpp` as a pair of positions, one in the map and one in the list
of a level.  What the standard leaves undefined has no result: a past-the-end position that is
moved or looked at, and positions in different lists that are compared.  The iterator goes
where `OrderIterator` over what is left goes, and visits each order of the map once.
-/
import FastServer.OrderBookMap

namespace Obr

/-! ## Positions -/

/-- `std::list<Order>::iterator`: the level the list belongs to, and a position in the list. -/
structure ListPosition where
  level : ℕ
  pos : ℕ
deriving DecidableEq

namespace ListPosition

variable (levels : List (ℕ × PriceLevel))

/-- `orders.begin()` of a level. -/
def first (i : ℕ) : Option ListPosition := (levels[i]?).map fun _ => ⟨i, 0⟩

/-- `orders.end()` of a level. -/
def last (i : ℕ) : Option ListPosition :=
  (levels[i]?).map fun level => ⟨i, level.2.orders.length⟩

/-- `*list_iter`. -/
def deref (l : ListPosition) : Option Order :=
  (levels[l.level]?).bind fun level => level.2.orders[l.pos]?

/-- `++list_iter`. -/
def next (l : ListPosition) : Option ListPosition :=
  (deref levels l).map fun _ => { l with pos := l.pos + 1 }

/-- `==` of positions in one list. -/
def equal (l l' : ListPosition) : Option Bool :=
  if l.level = l'.level then some (decide (l.pos = l'.pos)) else none

end ListPosition

/-- `OrderIterator`; positions in the map are numbers of levels, and `list_iter` may be
singular. -/
structure PositionIterator where
  map_iter : ℕ
  map_end : ℕ
  list_iter : Option ListPosition
deriving DecidableEq

namespace PositionIterator

variable (levels : List (ℕ × PriceLevel))

/-- The loop of `advance_to_valid`, at most so many times. -/
def advanceToValid : ℕ → PositionIterator → Option PositionIterator
  | 0, _ => none
  | n + 1, it =>
      if it.map_iter ≠ it.map_end then
        it.list_iter.bind fun l => (ListPosition.last levels it.map_iter).bind fun last =>
          (l.equal last).bind fun exhausted =>
            if ¬ exhausted then some it
            else
              let it := { it with map_iter := it.map_iter + 1 }
              if it.map_iter ≠ it.map_end then
                (ListPosition.first levels it.map_iter).bind fun first =>
                  advanceToValid n { it with list_iter := some first }
              else advanceToValid n it
      else some it

/-- The constructor. -/
def ofMap (is_end : Bool) : Option PositionIterator :=
  let it : PositionIterator := ⟨if is_end then levels.length else 0, levels.length, none⟩
  if it.map_iter ≠ it.map_end then
    (ListPosition.first levels it.map_iter).bind fun first =>
      advanceToValid levels (levels.length + 1) { it with list_iter := some first }
  else some it

/-- `operator*`. -/
def deref (it : PositionIterator) : Option Order := it.list_iter.bind (ListPosition.deref levels)

/-- `operator++`. -/
def increment (it : PositionIterator) : Option PositionIterator :=
  if it.map_iter = it.map_end then some it
  else
    (it.list_iter.bind (ListPosition.next levels)).bind fun l =>
      advanceToValid levels (levels.length + 1) { it with list_iter := some l }

/-- `getMapIter`. -/
def getMapIter (it : PositionIterator) : ℕ := it.map_iter

/-- `operator==`. -/
def equal (it other : PositionIterator) : Option Bool :=
  if it.map_iter ≠ other.map_iter then some false
  else if it.map_iter = it.map_end then some true
  else it.list_iter.bind fun l => other.list_iter.bind fun l' => l.equal l'

/-- `begin(price_map)`. -/
def begin {c : ConfigurableComparator} (price_map : OrderBookMap c) : Option PositionIterator :=
  ofMap price_map.entries false

/-- `end(price_map)`. -/
def end_ {c : ConfigurableComparator} (price_map : OrderBookMap c) : Option PositionIterator :=
  ofMap price_map.entries true

/-- `operator++` so many times. -/
def incremented : ℕ → PositionIterator → Option PositionIterator
  | 0, it => some it
  | k + 1, it => (increment levels it).bind (incremented k)

/-- The loop from an iterator to the last one by `operator++`, at most so many times: the
orders that are visited and what `getMapIter` returns at each. -/
def visit (last : PositionIterator) : ℕ → PositionIterator → Option (List (ℕ × Order))
  | 0, _ => none
  | n + 1, it =>
      (it.equal last).bind fun finished =>
        if finished then some []
        else
          (deref levels it).bind fun o => (increment levels it).bind fun it' =>
            (visit last n it').map fun visited => (it.getMapIter, o) :: visited

/-! ## The orders of the levels -/

/-- The orders of levels, each with the number of its level; the first level has number `i`. -/
def ordersFrom (i : ℕ) (levels : List (ℕ × PriceLevel)) : List (ℕ × Order) :=
  (levels.zipIdx i).flatMap fun level => level.1.2.orders.map fun o => (level.2, o)

variable {levels}

theorem ordersFrom_cons (i : ℕ) (level : ℕ × PriceLevel) (rest : List (ℕ × PriceLevel)) :
    ordersFrom i (level :: rest)
      = (level.2.orders.map fun o => (i, o)) ++ ordersFrom (i + 1) rest := by
  rw [ordersFrom, List.zipIdx_cons, List.flatMap_cons]
  rfl

/-- Without the numbers they are the orders in iteration order. -/
theorem map_snd_ordersFrom (i : ℕ) (levels : List (ℕ × PriceLevel)) :
    (ordersFrom i levels).map Prod.snd = OrderIterator.ordersOf levels := by
  induction levels generalizing i with
  | nil => rfl
  | cons level rest ih =>
    rw [ordersFrom_cons, List.map_append, ih, OrderIterator.ordersOf_cons, List.map_map]
    simp

/-! ## Where an iterator stands -/

/-- The iterator stands where `at_` does, with the orders `ahead` of it: at the end of the map,
or at an order of a level. -/
inductive Stands (levels : List (ℕ × PriceLevel)) :
    PositionIterator → OrderIterator → List (ℕ × Order) → Prop
  | finished {at_ : OrderIterator} (l : Option ListPosition) (hmap : at_.mapIter = []) :
      Stands levels ⟨levels.length, levels.length, l⟩ at_ []
  | order {at_ : OrderIterator} {pre rest : List (ℕ × PriceLevel)} {level : ℕ × PriceLevel}
      {os more : List Order} {o : Order} (hlevels : levels = pre ++ level :: rest)
      (horders : level.2.orders = os ++ o :: more) (hmap : at_.mapIter = level :: rest)
      (hlist : at_.listIter = o :: more) :
      Stands levels ⟨pre.length, levels.length, some ⟨pre.length, os.length⟩⟩ at_
        ((pre.length, o) :: ((more.map fun o => (pre.length, o))
          ++ ordersFrom (pre.length + 1) rest))

theorem getElem?_split (pre rest : List (ℕ × PriceLevel)) (level : ℕ × PriceLevel) :
    (pre ++ level :: rest)[pre.length]? = some level := by
  rw [List.getElem?_append_right le_rfl, Nat.sub_self, List.getElem?_cons_zero]

theorem last_eq {pre rest : List (ℕ × PriceLevel)} {level : ℕ × PriceLevel}
    (h : levels = pre ++ level :: rest) :
    ListPosition.last levels pre.length = some ⟨pre.length, level.2.orders.length⟩ := by
  rw [ListPosition.last, h, getElem?_split]
  rfl

theorem first_eq {pre rest : List (ℕ × PriceLevel)} {level : ℕ × PriceLevel}
    (h : levels = pre ++ level :: rest) :
    ListPosition.first levels pre.length = some ⟨pre.length, 0⟩ := by
  rw [ListPosition.first, h, getElem?_split]
  rfl

theorem deref_eq {pre rest : List (ℕ × PriceLevel)} {level : ℕ × PriceLevel}
    {os more : List Order} {o : Order} (h : levels = pre ++ level :: rest)
    (horders : level.2.orders = os ++ o :: more) :
    ListPosition.deref levels ⟨pre.length, os.length⟩ = some o := by
  rw [ListPosition.deref, h, getElem?_split, Option.bind_some, horders,
    List.getElem?_append_right le_rfl, Nat.sub_self, List.getElem?_cons_zero]

/-- **The loop ends** at the next order, or at the end of the map. -/
theorem advanceToValid_stands (level : ℕ × PriceLevel) (rest : List (ℕ × PriceLevel))
    (os more : List Order) {pre : List (ℕ × PriceLevel)} {n : ℕ}
    (hlevels : levels = pre ++ level :: rest) (horders : level.2.orders = os ++ more)
    (hn : rest.length + 2 ≤ n) :
    ∃ it, advanceToValid levels n
        ⟨pre.length, levels.length, some ⟨pre.length, os.length⟩⟩ = some it ∧
      Stands levels it (OrderIterator.ofAdvance (level :: rest) more)
        ((more.map fun o => (pre.length, o)) ++ ordersFrom (pre.length + 1) rest) := by
  induction rest generalizing pre level os more n with
  | nil =>
    obtain ⟨n, rfl⟩ : ∃ k, n = k + 2 := ⟨n - 2, by simp at hn; omega⟩
    have hlength : levels.length = pre.length + 1 := by rw [hlevels]; simp
    cases more with
    | cons o more =>
      refine ⟨_, ?_, .order hlevels horders rfl rfl⟩
      simp [advanceToValid, last_eq hlevels, ListPosition.equal, hlength, horders]
    | nil =>
      refine ⟨⟨levels.length, levels.length, some ⟨pre.length, os.length⟩⟩, ?_, .finished _ rfl⟩
      simp [advanceToValid, last_eq hlevels, ListPosition.equal, hlength, horders]
  | cons next rest ih =>
    obtain ⟨n, rfl⟩ : ∃ k, n = k + 1 := ⟨n - 1, by simp at hn; omega⟩
    have hlength : levels.length = pre.length + 2 + rest.length := by
      rw [hlevels]
      simp
      omega
    cases more with
    | cons o more =>
      refine ⟨_, ?_, .order hlevels horders rfl rfl⟩
      have hne : pre.length ≠ levels.length := by omega
      simp [advanceToValid, last_eq hlevels, ListPosition.equal, hne, horders]
    | nil =>
      -- the list of this level is exhausted, and the next level is looked at
      have hnext : levels = (pre ++ [level]) ++ next :: rest := by
        rw [hlevels, List.append_assoc, List.singleton_append]
      have hpre : (pre ++ [level]).length = pre.length + 1 := by
        rw [List.length_append, List.length_singleton]
      obtain ⟨it, hit, hstands⟩ := ih next [] next.2.orders (n := n) hnext rfl
        (by simp at hn; omega)
      have hne : pre.length ≠ levels.length := by omega
      have hne' : pre.length + 1 ≠ levels.length := by omega
      have hfirst := first_eq hnext
      rw [hpre] at hit hstands hfirst
      refine ⟨it, ?_, ?_⟩
      · rw [← hit]
        simp [advanceToValid, last_eq hlevels, ListPosition.equal, hne, hne', horders, hfirst]
      · rw [List.map_nil, List.nil_append, ordersFrom_cons]
        exact hstands

/-! ## The operations -/

variable {c : ConfigurableComparator}

/-- `begin` stands where `OrderIterator.begin` does. -/
theorem begin_stands (price_map : OrderBookMap c) : ∃ it, begin price_map = some it ∧
    Stands price_map.entries it (OrderIterator.begin price_map)
      (ordersFrom 0 price_map.entries) := by
  unfold begin OrderIterator.begin
  cases hentries : price_map.entries with
  | nil => exact ⟨⟨0, 0, none⟩, rfl, .finished none rfl⟩
  | cons level rest =>
    have hfirst : ListPosition.first (level :: rest) 0 = some ⟨0, 0⟩ := rfl
    have hsplit : level :: rest = [] ++ level :: rest := rfl
    obtain ⟨it, hit, hstands⟩ := advanceToValid_stands level rest [] level.2.orders hsplit rfl
      (le_refl (rest.length + 2))
    rw [ordersFrom_cons]
    refine ⟨it, ?_, hstands⟩
    rw [← hit]
    simp [ofMap, hfirst]

theorem end_eq (price_map : OrderBookMap c) :
    end_ price_map = some ⟨price_map.entries.length, price_map.entries.length, none⟩ := by
  rw [end_, ofMap]
  simp

namespace Stands

variable {it : PositionIterator} {at_ : OrderIterator} {ahead : List (ℕ × Order)}

/-- The orders ahead, without the numbers of their levels. -/
theorem map_snd (h : Stands levels it at_ ahead) : ahead.map Prod.snd = at_.remaining := by
  cases h with
  | finished l hmap => rw [OrderIterator.remaining, hmap, at_.at_end hmap]; rfl
  | order hlevels horders hmap hlist =>
    rw [OrderIterator.remaining, hmap, hlist, List.map_cons, List.map_append, map_snd_ordersFrom,
      List.map_map]
    simp

/-- **One increment** moves both models past one order, and at the end nothing. -/
theorem increment (h : Stands levels it at_ ahead) :
    ∃ it', PositionIterator.increment levels it = some it' ∧ Stands levels it' at_.next ahead.tail ∧
      (ahead = [] → it' = it) := by
  cases h with
  | finished l hmap =>
    have hnext : at_.next = at_ := by rw [OrderIterator.next, hmap]
    rw [hnext]
    exact ⟨_, if_pos rfl, .finished l hmap, fun _ => rfl⟩
  | @order _ pre rest level os more o hlevels horders hmap hlist =>
    have hlength : levels.length = pre.length + 1 + rest.length := by
      rw [hlevels]
      simp
      omega
    have hne : pre.length ≠ levels.length := by omega
    have hsplit : level.2.orders = (os ++ [o]) ++ more := by
      rw [horders, List.append_assoc, List.singleton_append]
    have hpos : (os ++ [o]).length = os.length + 1 := by
      rw [List.length_append, List.length_singleton]
    obtain ⟨it', hit', hstands⟩ := advanceToValid_stands level rest (os ++ [o]) more hlevels hsplit
      (n := levels.length + 1) (by omega)
    have hnext : at_.next = OrderIterator.ofAdvance (level :: rest) more := by
      rw [OrderIterator.next, hmap, hlist]
      rfl
    rw [hpos] at hit'
    rw [hnext]
    refine ⟨it', ?_, hstands, fun h => absurd h (List.cons_ne_nil _ _)⟩
    rw [← hit']
    simp [PositionIterator.increment, ListPosition.next, deref_eq hlevels horders, hne]

/-- The iterator points at the first order ahead, and `getMapIter` at its level. -/
theorem deref {i : ℕ} {o : Order} (h : Stands levels it at_ ((i, o) :: ahead)) :
    it.deref levels = some o ∧ it.getMapIter = i := by
  cases h with
  | order hlevels horders hmap hlist => exact ⟨deref_eq hlevels horders, rfl⟩

/-- **Comparison with the end** tells whether orders are ahead. -/
theorem equal_end (h : Stands levels it at_ ahead) (l : Option ListPosition) :
    it.equal ⟨levels.length, levels.length, l⟩ = some (decide (ahead = [])) := by
  cases h with
  | finished l' hmap => simp [equal]
  | @order _ pre rest level os more o hlevels horders hmap hlist =>
    have hne : pre.length ≠ levels.length := by
      rw [hlevels]
      simp
    simp [equal, hne]

/-- **Any number of increments.** -/
theorem incremented (h : Stands levels it at_ ahead) (k : ℕ) :
    ∃ it', PositionIterator.incremented levels k it = some it' ∧
      Stands levels it' (OrderIterator.next^[k] at_) (ahead.drop k) := by
  induction k generalizing it at_ ahead with
  | zero => exact ⟨it, rfl, h⟩
  | succ k ih =>
    obtain ⟨it', hit', hstands, -⟩ := h.increment
    obtain ⟨it'', hit'', hend⟩ := ih hstands
    rw [← List.drop_one, List.drop_drop, Nat.add_comm] at hend
    exact ⟨it'', by rw [PositionIterator.incremented, hit', Option.bind_some, hit''], hend⟩

/-- **The loop** visits the orders ahead and stops. -/
theorem visit (h : Stands levels it at_ ahead) (l : Option ListPosition) {n : ℕ}
    (hn : ahead.length < n) :
    PositionIterator.visit levels ⟨levels.length, levels.length, l⟩ n it = some ahead := by
  induction n generalizing it at_ ahead with
  | zero => exact absurd hn (Nat.not_lt_zero _)
  | succ n ih =>
    rw [PositionIterator.visit, h.equal_end l, Option.bind_some]
    cases ahead with
    | nil => rfl
    | cons first ahead =>
      obtain ⟨hderef, hmap⟩ := h.deref
      obtain ⟨it', hit', hstands, -⟩ := h.increment
      rw [List.length_cons] at hn
      have hrest := ih hstands (Nat.lt_of_succ_lt_succ hn)
      rw [if_neg (by simp), hderef, Option.bind_some, hit', Option.bind_some, hrest, hmap]
      rfl

end Stands

/-- **Iteration visits each order once.**  From `begin` the `k`-th increment stands at the
`k`-th order of the map and its level; the end is reached behind the last order and is not left;
and the loop up to `end` stops with all orders visited. -/
theorem iterates (price_map : OrderBookMap c) :
    ∃ first last, begin price_map = some first ∧ end_ price_map = some last ∧
      (∀ k, ∃ it, incremented price_map.entries k first = some it ∧
        it.equal last = some (decide ((ordersFrom 0 price_map.entries).length ≤ k)) ∧
        (∀ i o, (ordersFrom 0 price_map.entries)[k]? = some (i, o) →
          it.deref price_map.entries = some o ∧ it.getMapIter = i) ∧
        ((ordersFrom 0 price_map.entries).length ≤ k →
          increment price_map.entries it = some it ∧
            it.getMapIter = price_map.entries.length)) ∧
      increment price_map.entries last = some last ∧
      ∀ n, (ordersFrom 0 price_map.entries).length < n →
        visit price_map.entries last n first = some (ordersFrom 0 price_map.entries) := by
  obtain ⟨first, hfirst, hstands⟩ := begin_stands price_map
  refine ⟨first, _, hfirst, end_eq price_map, ?_, if_pos rfl, fun n hn => hstands.visit none hn⟩
  intro k
  obtain ⟨it, hit, hk⟩ := hstands.incremented k
  refine ⟨it, hit, ?_, ?_, ?_⟩
  · rw [hk.equal_end none]
    simp only [List.drop_eq_nil_iff]
  · intro i o ho
    have hdrop : (ordersFrom 0 price_map.entries).drop k
        = (i, o) :: (ordersFrom 0 price_map.entries).drop (k + 1) := by
      obtain ⟨hlt, hget⟩ := List.getElem?_eq_some_iff.mp ho
      rw [List.drop_eq_getElem_cons hlt, hget]
    rw [hdrop] at hk
    exact hk.deref
  · intro hle
    rw [List.drop_eq_nil_iff.mpr hle] at hk
    obtain ⟨it', hit', -, hsame⟩ := hk.increment
    rw [hsame rfl] at hit'
    refine ⟨hit', ?_⟩
    cases hk
    rfl

end PositionIterator

end Obr
