/-
# The published ladder

The five levels of either side that `flushStatus` publishes are the best ones
left after the auction.  Only the level at the auction price is corrected, by a
figure from the scan; this is right because the level the walk leaves in part can
only be that one.
-/
import FastServer.AuctionMatching

namespace Obr

open CallAuction PriorityFill OrderIterator

/-! ## The two writing loops -/

/-- What the bid loop stores for a level. -/
def bidCell (o : OptimPriceInfo) (e : ℕ × PriceLevel) : ℤ × ℤ :=
  (toI32 e.1,
    if e.1 = toU64 o.dealPrice then toI32 o.buyDealPriceLeftQuantity else toI32 e.2.quantity)

/-- What the ask loop stores for a level. -/
def askCell (o : OptimPriceInfo) (e : ℕ × PriceLevel) : ℤ × ℤ :=
  (toI32 e.1,
    if e.1 = toU64 o.dealPrice then toI32 o.askDealPriceRightQuantity else toI32 e.2.quantity)

/-- The bid level published at index `j`. -/
def OrderBookStatus.bidAt (status : OrderBookStatus) (j : Fin 5) : ℤ × ℤ :=
  (status.bp j, status.bs j)

/-- The ask level published at index `j`. -/
def OrderBookStatus.askAt (status : OrderBookStatus) (j : Fin 5) : ℤ × ℤ :=
  (status.ap j, status.as j)

/-- Publish a bid level at index `k`. -/
def OrderBookStatus.setBid (status : OrderBookStatus) (k : Fin 5) (cell : ℤ × ℤ) :
    OrderBookStatus :=
  { status with
    bp := Function.update status.bp k cell.1
    bs := Function.update status.bs k cell.2 }

/-- Publish an ask level at index `k`. -/
def OrderBookStatus.setAsk (status : OrderBookStatus) (k : Fin 5) (cell : ℤ × ℤ) :
    OrderBookStatus :=
  { status with
    ap := Function.update status.ap k cell.1
    as := Function.update status.as k cell.2 }

theorem OrderBookStatus.bidAt_setBid (status : OrderBookStatus) (j k : Fin 5) (cell : ℤ × ℤ) :
    (status.setBid k cell).bidAt j = if j = k then cell else status.bidAt j := by
  unfold OrderBookStatus.bidAt OrderBookStatus.setBid
  by_cases h : j = k
  · subst h
    simp only [Function.update_self, if_true]
  · simp only [Function.update_of_ne h, if_neg h]

theorem OrderBookStatus.askAt_setAsk (status : OrderBookStatus) (j k : Fin 5) (cell : ℤ × ℤ) :
    (status.setAsk k cell).askAt j = if j = k then cell else status.askAt j := by
  unfold OrderBookStatus.askAt OrderBookStatus.setAsk
  by_cases h : j = k
  · subst h
    simp only [Function.update_self, if_true]
  · simp only [Function.update_of_ne h, if_neg h]

theorem writeBids_cons (o : OptimPriceInfo) (count : ℕ) (e : ℕ × PriceLevel)
    (es : List (ℕ × PriceLevel)) (status : OrderBookStatus) :
    writeBids o (count + 1) (e :: es) status
      = writeBids o count es (status.setBid (Fin.ofNat 5 count) (bidCell o e)) := by
  simp only [writeBids, OrderBookStatus.setBid, bidCell]

theorem writeAsks_cons (o : OptimPriceInfo) {count : ℕ} (hc : count < 5) (e : ℕ × PriceLevel)
    (es : List (ℕ × PriceLevel)) (status : OrderBookStatus) :
    writeAsks o count (e :: es) status
      = writeAsks o (count + 1) es (status.setAsk (Fin.ofNat 5 count) (askCell o e)) := by
  simp only [writeAsks, if_pos hc, OrderBookStatus.setAsk, askCell]

theorem eq_ofNat_iff {j : Fin 5} {count : ℕ} (hc : count < 5) :
    j = Fin.ofNat 5 count ↔ (j : ℕ) = count := by
  rw [Fin.ext_iff, Fin.val_ofNat, Nat.mod_eq_of_lt hc]

/-- The bid loop fills the indices below `count` from the top down. -/
theorem writeBids_apply (o : OptimPriceInfo) (j : Fin 5) :
    ∀ (count : ℕ) (levels : List (ℕ × PriceLevel)) (status : OrderBookStatus), count ≤ 5 →
      (writeBids o count levels status).bidAt j
        = if (j : ℕ) < count then
            (levels[count - 1 - j]?.map (bidCell o)).getD (status.bidAt j)
          else status.bidAt j
  | 0, _, _, _ => by simp [writeBids]
  | _ + 1, [], _, _ => by simp [writeBids]
  | count + 1, e :: es, status, hc => by
      rw [writeBids_cons, writeBids_apply o j count es _ (by omega), OrderBookStatus.bidAt_setBid]
      simp only [eq_ofNat_iff (show count < 5 by omega)]
      rcases lt_trichotomy (j : ℕ) count with h | h | h
      · have hidx : count + 1 - 1 - (j : ℕ) = (count - 1 - j) + 1 := by omega
        rw [if_pos h, if_neg (ne_of_lt h), if_pos (Nat.lt_succ_of_lt h), hidx,
          List.getElem?_cons_succ]
      · have hidx : count + 1 - 1 - (j : ℕ) = 0 := by omega
        rw [if_neg (not_lt_of_ge h.ge), if_pos h, if_pos (Nat.lt_succ_of_le h.le), hidx,
          List.getElem?_cons_zero]
        rfl
      · rw [if_neg (lt_asymm h), if_neg (ne_of_gt h), if_neg (Nat.not_lt_of_le h)]

/-- The ask loop fills the indices from `count` up. -/
theorem writeAsks_apply (o : OptimPriceInfo) (j : Fin 5) :
    ∀ (levels : List (ℕ × PriceLevel)) (count : ℕ) (status : OrderBookStatus),
      (writeAsks o count levels status).askAt j
        = if count ≤ j then (levels[j - count]?.map (askCell o)).getD (status.askAt j)
          else status.askAt j
  | [], _, _ => by simp [writeAsks]
  | e :: es, count, status => by
      by_cases hc : count < 5
      · rw [writeAsks_cons o hc, writeAsks_apply o j es (count + 1) _,
          OrderBookStatus.askAt_setAsk]
        simp only [eq_ofNat_iff hc]
        rcases lt_trichotomy (j : ℕ) count with h | h | h
        · rw [if_neg (by omega), if_neg (by omega), if_neg (by omega)]
        · have hidx : (j : ℕ) - count = 0 := by omega
          rw [if_neg (by omega), if_pos h, if_pos (by omega), hidx, List.getElem?_cons_zero]
          rfl
        · have hidx : (j : ℕ) - count = (j - (count + 1)) + 1 := by omega
          rw [if_pos (by omega), if_neg (by omega), if_pos (by omega), hidx,
            List.getElem?_cons_succ]
      · have hj := j.isLt
        rw [writeAsks, if_neg hc, if_neg (by omega)]

/-- **What is published.**  Index `4 - i` shows the `i`-th bid level from where the
bid iterator stopped, index `i` the `i`-th ask level from where the ask iterator
stopped. -/
theorem publish_ladder (o : OptimPriceInfo) (st : MatchState) (i : Fin 5) :
    (publish o st).bidAt i.rev
        = (st.buyOrderIt.getMapIter[(i : ℕ)]?.map (bidCell o)).getD (0, 0) ∧
      (publish o st).askAt i
        = (st.sellOrderIt.getMapIter[(i : ℕ)]?.map (askCell o)).getD (0, 0) := by
  have hi := i.isLt
  unfold publish
  constructor
  · have hframe := writeAsks_frame o st.sellOrderIt.getMapIter 0
      (writeBids o 5 st.buyOrderIt.getMapIter
        { lpr := o.dealPrice, cvl := o.expectedDealQuantity
          cto := (toI64 (o.expectedDealQuantity * o.dealPrice)).tdiv 10000
          nts := toU64 st.tradeCount })
    have hidx : 5 - 1 - ((i.rev : Fin 5) : ℕ) = i := by
      rw [Fin.val_rev]
      omega
    rw [OrderBookStatus.bidAt, hframe.2.2.2.1, hframe.2.2.2.2, ← OrderBookStatus.bidAt,
      writeBids_apply o i.rev 5 _ _ le_rfl, if_pos i.rev.isLt, hidx]
    rfl
  · rw [writeAsks_apply o i _ 0, if_pos (Nat.zero_le _), Nat.sub_zero]
    have hframe := writeBids_frame o 5 st.buyOrderIt.getMapIter
        { lpr := o.dealPrice, cvl := o.expectedDealQuantity
          cto := (toI64 (o.expectedDealQuantity * o.dealPrice)).tdiv 10000
          nts := toU64 st.tradeCount }
    rw [OrderBookStatus.askAt, hframe.2.2.2.1, hframe.2.2.2.2]

/-! ## What is left of a side -/

/-- `shown` lists, best first, the prices at which the lots exceed the volume
matched, each with the excess; beyond them it shows zeros. -/
structure LeftBook (lt : ℤ → ℤ → Prop) (lots : List (ℤ × ℕ)) (matched : ℤ → ℕ)
    (shown : Fin 5 → ℤ × ℤ) : Prop where
  matched_le : ∀ p, matched p ≤ mass lots (· = p)
  shows : ∃ left : List (ℤ × ℕ), left.Pairwise (fun x y => lt x.1 y.1) ∧
    (∀ p r, (p, r) ∈ left ↔ 0 < r ∧ matched p + r = mass lots (· = p)) ∧
    ∀ i : Fin 5, shown i = (left[(i : ℕ)]?.map (fun x => (x.1, (x.2 : ℤ)))).getD (0, 0)

/-- A shown quantity is the excess at the price shown with it. -/
theorem LeftBook.excess {lt : ℤ → ℤ → Prop} {lots : List (ℤ × ℕ)} {matched : ℤ → ℕ}
    {shown : Fin 5 → ℤ × ℤ} (h : LeftBook lt lots matched shown) {i : Fin 5}
    (hpos : 0 < (shown i).2) :
    ∃ r, 0 < r ∧ matched (shown i).1 + r = mass lots (· = (shown i).1) := by
  obtain ⟨left, -, hmem, hshown⟩ := h.shows
  rw [hshown i] at hpos ⊢
  cases hl : left[(i : ℕ)]? with
  | none => simp [hl] at hpos
  | some x => exact ⟨x.2, (hmem x.1 x.2).mp (List.mem_of_getElem? hl)⟩

section Left

variable {c : ConfigurableComparator} {m : OrderBookMap c} {os : List Order}

/-- The quantity of a level is what the queue holds at its price. -/
theorem Stores.quantity_eq_mass (h : Stores m os) {e : ℕ × PriceLevel} (he : e ∈ m.entries) :
    e.2.quantity = mass (queueLots m.entries) (· = (e.1 : ℤ)) := by
  rw [quantity_of_mem he, h.mass_eq, h.mass_queueLots]

/-- A level with orders in it has a quantity. -/
theorem Stores.quantity_pos (h : Stores m os) (hpos : ∀ o ∈ ordersOf m.entries, 0 < o.quantity)
    {e : ℕ × PriceLevel} (he : e ∈ m.entries) (hne : e.2.orders ≠ []) : 0 < e.2.quantity := by
  obtain ⟨o, ho⟩ := List.exists_mem_of_ne_nil _ hne
  rw [h.quantity_eq e he]
  have hmem : o.quantity ∈ e.2.orders.map Order.quantity := List.mem_map_of_mem ho
  exact lt_of_lt_of_le (hpos o (mem_ordersOf.mpr ⟨e, he, ho⟩)) (List.le_sum_of_mem hmem)

/-- No part of a side exceeds its total. -/
theorem mass_orderLots_le (os : List Order) (s : ℤ → Prop) [DecidablePred s] :
    mass (orderLots os) s ≤ totalOf os := by
  rw [← sum_orderLots]
  exact mass_le_sum

/-- **What a writing loop stores.**  The corrected figure at the price `q` and the
full quantity elsewhere are what is left of the level, converted to an `int`. -/
theorem cell_eq {e : ℕ × PriceLevel} {q corrected : ℤ} {reach vol left : ℕ}
    (hq : ((toU64 q : ℕ) : ℤ) = q) (hvol : vol ≤ reach) (hcorr : corrected = (reach : ℤ) - vol)
    (hleft : left = if (e.1 : ℤ) = q then reach - vol else e.2.quantity) :
    (toI32 e.1, if e.1 = toU64 q then toI32 corrected else toI32 e.2.quantity)
      = (toI32 e.1, toI32 left) := by
  have hiff : e.1 = toU64 q ↔ (e.1 : ℤ) = q := by
    rw [← Nat.cast_inj (R := ℤ), hq]
  rw [hleft, hcorr]
  by_cases heq : (e.1 : ℤ) = q
  · rw [if_pos (hiff.mpr heq), if_pos heq, Nat.cast_sub hvol]
  · rw [if_neg (fun hc => heq (hiff.mp hc)), if_neg heq]

variable {lt : ℤ → ℤ → Prop} [DecidableRel lt] [IsStrictTotalOrder ℤ lt]
  {index : Trade → ℕ} {price : Trade → ℤ} {st : MatchState} {side : Order × OrderIterator × ℕ}

/-- What is left of the levels is an end of them. -/
theorem Standing.mapIter_suffix {levels : List (ℕ × PriceLevel)} {M : ℕ}
    (h : Standing levels side M) : side.2.1.mapIter <:+ levels := by
  rcases h with ⟨hat, -⟩ | hend
  · exact hat.within.map_suffix
  · rw [hend.mapIter_eq]
    exact List.nil_suffix

/-- **Where the map iterator stops.**  The levels from it on are those the volume
has not passed. -/
theorem Standing.mem_mapIter_iff (hm : Stores m os) (hq : Queue lt m.entries)
    (hlt : ∀ a b : ℕ, c.lt a b → lt a b) (hs : Standing m.entries side st.volume)
    {e : ℕ × PriceLevel} (he : e ∈ m.entries) :
    e ∈ side.2.1.mapIter ↔ st.volume < upTo lt (queueLots m.entries) e.1 := by
  rcases hs with ⟨hat, hpos⟩ | hend
  · have hlen := hat.lt_length
    have hrem : side.2.1.remaining
        = (ordersOf m.entries)[side.2.2] :: (ordersOf m.entries).drop (side.2.2 + 1) := by
      rw [hat.remaining_eq]
      exact List.drop_eq_getElem_cons hlen
    obtain ⟨pre, level, rest, hsplit, hmap, hmem⟩ := hat.within.exists_level hrem
    obtain ⟨hk, hprice⟩ := hat.exists_lot
    have hlevel : level ∈ m.entries := by
      rw [hsplit]
      exact List.mem_append_right _ List.mem_cons_self
    have hkey : (queueLots m.entries)[side.2.2].1 = (level.1 : ℤ) := by
      rw [hprice, hat.price_eq]
      exact hm.price_eq level hlevel _ hmem
    have hcum := hat.cum_le
    have hadd := hat.add_quantity
    have hsorted := m.sorted
    rw [hsplit, List.pairwise_append, List.pairwise_cons] at hsorted
    obtain ⟨-, ⟨hrest, -⟩, hpre⟩ := hsorted
    rw [hsplit] at he
    rw [hmap]
    rcases List.mem_append.mp he with h | h
    · -- a level the walk has passed
      have hbefore : lt e.1 level.1 := hlt _ _ (hpre e h level List.mem_cons_self)
      have hle := upTo_le_cum hq.prioritised hk (hkey.symm ▸ hbefore)
      have hnot : e ∉ level :: rest := fun hc => irrefl_of c.lt e.1 (hpre e h e hc)
      exact iff_of_false hnot (by omega)
    · rcases List.mem_cons.mp h with rfl | h'
      · -- the level the walk stands in
        have hle : cum (queueLots m.entries) (side.2.2 + 1) ≤ upTo lt (queueLots m.entries) e.1 :=
          cum_succ_le_upTo hq.prioritised hk (by rw [hkey]; exact irrefl_of lt _)
        exact iff_of_true List.mem_cons_self (by omega)
      · have hafter : lt level.1 e.1 := hlt _ _ (hrest e h')
        have hle := cum_succ_le_ahead hq.prioritised hk (hkey.symm ▸ hafter)
        have hle' := ahead_le_upTo lt (queueLots m.entries) (e.1 : ℤ)
        exact iff_of_true h (by omega)
  · rw [hend.mapIter_eq]
    have hle : upTo lt (queueLots m.entries) e.1 ≤ st.volume := by
      rw [hend.total_eq, ← sum_orderLots]
      exact mass_le_sum
    exact iff_of_false List.not_mem_nil (by omega)

/-- No price receives more than it holds. -/
theorem FilledFrom.filled_le (h : FilledFrom lt m.entries index price st) (p : ℤ) :
    filled price st.trades p ≤ mass (queueLots m.entries) (· = p) := by
  have hadd := upTo_eq_add lt (queueLots m.entries) p
  rw [h.by_price, overlap]
  omega

/-- A price holds more than it receives exactly if the volume has not passed it. -/
theorem FilledFrom.filled_lt_iff (h : FilledFrom lt m.entries index price st) {p : ℤ}
    (hp : 0 < mass (queueLots m.entries) (· = p)) :
    filled price st.trades p < mass (queueLots m.entries) (· = p)
      ↔ st.volume < upTo lt (queueLots m.entries) p := by
  have hadd := upTo_eq_add lt (queueLots m.entries) p
  rw [h.by_price, overlap]
  omega

/-- **Only one level is left in part.**  If the volume ends within the reach of
the price `q`, a level not yet passed is untouched, unless it is the level at
`q`. -/
theorem FilledFrom.left_eq (h : FilledFrom lt m.entries index price st) {p q : ℤ}
    (hlo : ahead lt (queueLots m.entries) q ≤ st.volume)
    (hhi : st.volume ≤ upTo lt (queueLots m.entries) q)
    (hp : st.volume < upTo lt (queueLots m.entries) p) :
    mass (queueLots m.entries) (· = p) - filled price st.trades p
      = if p = q then upTo lt (queueLots m.entries) q - st.volume
        else mass (queueLots m.entries) (· = p) := by
  have hadd := upTo_eq_add lt (queueLots m.entries) p
  rw [h.by_price, overlap]
  split_ifs with hpq
  · subst hpq
    omega
  · rcases trichotomous_of lt p q with hlt | heq | hlt
    · have hle : upTo lt (queueLots m.entries) p ≤ ahead lt (queueLots m.entries) q :=
        upTo_le_ahead hlt
      omega
    · exact absurd heq hpq
    · have hle : upTo lt (queueLots m.entries) q ≤ ahead lt (queueLots m.entries) p :=
        upTo_le_ahead hlt
      omega

/-- Levels with their prices and what is left of them. -/
def leftLevels (price : Trade → ℤ) (trades : List Trade) (levels : List (ℕ × PriceLevel)) :
    List (ℤ × ℕ) :=
  levels.map fun e => ((e.1 : ℤ), e.2.quantity - filled price trades e.1)

omit [DecidableRel lt] [IsStrictTotalOrder ℤ lt] in
/-- The levels left stand best first. -/
theorem pairwise_leftLevels (hlt : ∀ a b : ℕ, c.lt a b → lt a b)
    (hs : Standing m.entries side st.volume) :
    (leftLevels price st.trades side.2.1.mapIter).Pairwise fun x y => lt x.1 y.1 := by
  rw [leftLevels, List.pairwise_map]
  exact (m.sorted.sublist hs.mapIter_suffix.sublist).imp fun hab => hlt _ _ hab

/-- **The levels left** with something in them are the prices that hold more than they received,
with the excess. -/
theorem FilledFrom.mem_leftLevels_iff (hm : Stores m os) (hq : Queue lt m.entries)
    (hlt : ∀ a b : ℕ, c.lt a b → lt a b) (h : FilledFrom lt m.entries index price st)
    (hs : Standing m.entries side st.volume) {p : ℤ} {r : ℕ} (hr : 0 < r) :
    (p, r) ∈ leftLevels price st.trades side.2.1.mapIter
      ↔ filled price st.trades p + r = mass (orderLots os) (· = p) := by
  rw [← hm.mass_queueLots]
  constructor
  · intro hmem
    obtain ⟨e, he, heq⟩ := List.mem_map.mp hmem
    obtain ⟨rfl, rfl⟩ := Prod.mk.inj heq
    have hqty := hm.quantity_eq_mass (hs.mapIter_suffix.mem he)
    rw [← hqty]
    omega
  · intro hsum
    have hpos : 0 < mass (queueLots m.entries) (· = p) := by omega
    obtain ⟨e, he, rfl⟩ : ∃ e ∈ m.entries, (e.1 : ℤ) = p := by
      by_contra hnone
      push Not at hnone
      have hzero : mass (queueLots m.entries) (· = p) = 0 := by
        apply mass_eq_zero
        intro x hx hxp
        obtain ⟨o, ho, rfl⟩ := List.mem_map.mp hx
        obtain ⟨e, he, hoe⟩ := mem_ordersOf.mp ho
        exact hnone e he (hm.price_eq e he o hoe ▸ hxp)
      omega
    have hqty := hm.quantity_eq_mass he
    have hmem : e ∈ side.2.1.mapIter := by
      rw [Standing.mem_mapIter_iff hm hq hlt hs he, ← h.filled_lt_iff hpos]
      omega
    refine List.mem_map.mpr ⟨e, hmem, ?_⟩
    rw [hqty]
    exact Prod.ext rfl (by simp only; omega)

/-- Of a level left that has orders in it something is left. -/
theorem FilledFrom.left_pos (hm : Stores m os) (hq : Queue lt m.entries)
    (hlt : ∀ a b : ℕ, c.lt a b → lt a b) (h : FilledFrom lt m.entries index price st)
    (hs : Standing m.entries side st.volume) {e : ℕ × PriceLevel} (he : e ∈ side.2.1.mapIter)
    (hne : e.2.orders ≠ []) : 0 < e.2.quantity - filled price st.trades e.1 := by
  have hent := hs.mapIter_suffix.mem he
  have hqty := hm.quantity_eq_mass hent
  have hlt' := (Standing.mem_mapIter_iff hm hq hlt hs hent).mp he
  rw [← h.filled_lt_iff (hqty ▸ hm.quantity_pos hq.quantity_pos hent hne), ← hqty] at hlt'
  omega

/-- If no level is empty, something is in every level left. -/
theorem FilledFrom.pos_of_mem_leftLevels (hm : Holds m os) (hq : Queue lt m.entries)
    (hlt : ∀ a b : ℕ, c.lt a b → lt a b) (h : FilledFrom lt m.entries index price st)
    (hs : Standing m.entries side st.volume) {x : ℤ × ℕ}
    (hx : x ∈ leftLevels price st.trades side.2.1.mapIter) : 0 < x.2 := by
  obtain ⟨e, he, rfl⟩ := List.mem_map.mp hx
  exact h.left_pos hm.toStores hq hlt hs he (hm.orders_ne e (hs.mapIter_suffix.mem he))

/-- **The ladder of a side.**  If every level from the map iterator on is shown
with its price and what is left of it, the side shown is the book left. -/
theorem FilledFrom.leftBook (hm : Holds m os) (hq : Queue lt m.entries)
    (hlt : ∀ a b : ℕ, c.lt a b → lt a b) (h : FilledFrom lt m.entries index price st)
    (hs : Standing m.entries side st.volume) {cell : ℕ × PriceLevel → ℤ × ℤ}
    (hcell : ∀ e ∈ m.entries, e ∈ side.2.1.mapIter →
      cell e = ((e.1 : ℤ), ((e.2.quantity - filled price st.trades e.1 : ℕ) : ℤ)))
    {shown : Fin 5 → ℤ × ℤ}
    (hshown : ∀ i : Fin 5, shown i = (side.2.1.mapIter[(i : ℕ)]?.map cell).getD (0, 0)) :
    LeftBook lt (orderLots os) (filled price st.trades) shown := by
  refine ⟨fun p => ?_, leftLevels price st.trades side.2.1.mapIter, pairwise_leftLevels hlt hs,
    fun p r => ⟨fun hmem => ?_, fun ⟨hr, hsum⟩ => ?_⟩, ?_⟩
  · rw [← hm.toStores.mass_queueLots]
    exact h.filled_le p
  · have hr := h.pos_of_mem_leftLevels hm hq hlt hs hmem
    exact ⟨hr, (h.mem_leftLevels_iff hm.toStores hq hlt hs hr).mp hmem⟩
  · exact (h.mem_leftLevels_iff hm.toStores hq hlt hs hr).mpr hsum
  · intro i
    rw [hshown i, leftLevels, List.getElem?_map]
    cases hi : side.2.1.mapIter[(i : ℕ)]? with
    | none => rfl
    | some e =>
      have hmem := List.mem_of_getElem? hi
      simp only [Option.map_some, Option.getD_some,
        hcell e (hs.mapIter_suffix.mem hmem) hmem]

end Left

/-! ## The ladder is the book left -/

/-- The figures of `info` fit the bids when `volume` is traded: the volume ends at its price, and
what it says is left there is left. -/
structure OptimPriceInfo.FitsBids (info : OptimPriceInfo) (bids : List (ℤ × ℕ)) (volume : ℕ) :
    Prop where
  price : ((toU64 info.dealPrice : ℕ) : ℤ) = info.dealPrice
  above_le : demandAbove bids info.dealPrice ≤ volume
  le_demand : volume ≤ demand bids info.dealPrice
  left_eq : info.buyDealPriceLeftQuantity = (demand bids info.dealPrice : ℤ) - volume

/-- The same for the asks. -/
structure OptimPriceInfo.FitsAsks (info : OptimPriceInfo) (asks : List (ℤ × ℕ)) (volume : ℕ) :
    Prop where
  price : ((toU64 info.dealPrice : ℕ) : ℤ) = info.dealPrice
  below_le : supplyBelow asks info.dealPrice ≤ volume
  le_supply : volume ≤ supply asks info.dealPrice
  right_eq : info.askDealPriceRightQuantity = (supply asks info.dealPrice : ℤ) - volume

section Settled

variable {book : OrderBook} {os : List Order} {q : ℤ} {st : MatchState}

/-- The auction price is the price of an order. -/
theorem OrderBook.Settled.exists_order (h : book.Settled os q st) : ∃ o ∈ os, o.price = q := by
  obtain ⟨x, hx, rfl⟩ := h.price.candidate.level
  rcases List.mem_append.mp hx with hx | hx <;>
  · obtain ⟨o, ho, rfl⟩ := List.mem_map.mp hx
    exact ⟨o, (List.mem_filter.mp ho).1, rfl⟩

/-- It is a positive `int64_t`. -/
theorem OrderBook.Settled.price_range (h : book.Settled os q st) (hr : ∀ o ∈ os, o.Valid) :
    0 < q ∧ q < 2 ^ 63 := by
  obtain ⟨o, ho, rfl⟩ := h.exists_order
  exact (hr o ho).2

/-- The candidate of the auction price has the figures of both sides. -/
theorem OrderBook.Settled.candidate_fits (h : book.Settled os q st) (hr : ∀ o ∈ os, o.Valid) :
    (candidate book.bidLots book.askLots q).FitsBids (bidsOf os) st.volume ∧
      (candidate book.bidLots book.askLots q).FitsAsks (asksOf os) st.volume := by
  obtain ⟨hpos, hlt⟩ := h.price_range hr
  have hprice : ((toU64 q : ℕ) : ℤ) = q := toU64_of_nonneg hpos.le (by omega)
  obtain ⟨hdemand, -, hsupply, -⟩ := h.keeps.curves q
  refine ⟨⟨hprice, h.bid_bounds.1, h.bid_bounds.2, ?_⟩, hprice, h.ask_bounds.1, h.ask_bounds.2, ?_⟩
  · show (demand book.bidLots q : ℤ) - executable book.bidLots book.askLots q = _
    rw [hdemand, h.keeps.executable_eq, ← h.volume_eq]
    rfl
  · show (supply book.askLots q : ℤ) - executable book.bidLots book.askLots q = _
    rw [hsupply, h.keeps.executable_eq, ← h.volume_eq]
    rfl

variable {info : OptimPriceInfo}

/-- **What is shown of a bid level.**  Its price and what the walk left of it,
converted to an `int`. -/
theorem OrderBook.Settled.bidCell_toI32 (h : book.Settled os q st)
    (hinfo : info.FitsBids (bidsOf os) st.volume) {e : ℕ × PriceLevel}
    (hmem : e ∈ st.buyOrderIt.mapIter) :
    bidCell info e
      = (toI32 e.1, toI32 ((e.2.quantity - filled Trade.buyPrice st.trades e.1 : ℕ) : ℤ)) := by
  have hbid := h.keeps.bid.toStores
  have he := h.walked.buy.mapIter_suffix.mem hmem
  have hpass : st.volume < upTo (fun a b => b < a) (queueLots book.bidPriceMaps.entries) e.1 :=
    (Standing.mem_mapIter_iff hbid h.bid_queue (fun a b hab => Nat.cast_lt.mpr hab)
      h.walked.buy he).mp hmem
  have hleft := h.walked.logged.buy_filled.left_eq (q := info.dealPrice)
    ((h.ahead_eq _).1.trans_le hinfo.above_le) ((h.upTo_bids _).symm ▸ hinfo.le_demand) hpass
  rw [← hbid.quantity_eq_mass he, h.upTo_bids] at hleft
  exact cell_eq hinfo.price hinfo.le_demand hinfo.left_eq hleft

/-- The same for an ask level. -/
theorem OrderBook.Settled.askCell_toI32 (h : book.Settled os q st)
    (hinfo : info.FitsAsks (asksOf os) st.volume) {e : ℕ × PriceLevel}
    (hmem : e ∈ st.sellOrderIt.mapIter) :
    askCell info e
      = (toI32 e.1, toI32 ((e.2.quantity - filled Trade.sellPrice st.trades e.1 : ℕ) : ℤ)) := by
  have hask := h.keeps.ask_stored
  have he := h.walked.sell.mapIter_suffix.mem hmem
  have hpass : st.volume < upTo (fun a b => a < b) (queueLots book.askPriceMaps.entries) e.1 :=
    (Standing.mem_mapIter_iff hask h.ask_queue (fun a b hab => Nat.cast_lt.mpr hab)
      h.walked.sell he).mp hmem
  have hleft := h.walked.logged.sell_filled.left_eq (q := info.dealPrice)
    ((h.ahead_eq _).2.trans_le hinfo.below_le) ((h.upTo_asks _).symm ▸ hinfo.le_supply) hpass
  rw [← hask.quantity_eq_mass he, h.upTo_asks] at hleft
  exact cell_eq hinfo.price hinfo.le_supply hinfo.right_eq hleft

/-- **No crossing is left.**  A price with bids left is below every price with asks
left. -/
theorem OrderBook.Settled.uncrossed (h : book.Settled os q st) {b a : ℤ} {r r' : ℕ}
    (hr : 0 < r) (hb : filled Trade.buyPrice st.trades b + r = mass (bidsOf os) (· = b))
    (hr' : 0 < r') (ha : filled Trade.sellPrice st.trades a + r' = mass (asksOf os) (· = a)) :
    b < a := by
  have hbuy : st.volume < demand (bidsOf os) b := by
    rw [← h.mass_bids] at hb
    rw [← h.upTo_bids, ← h.walked.logged.buy_filled.filled_lt_iff (by omega)]
    omega
  have hsell : st.volume < supply (asksOf os) a := by
    rw [← h.mass_asks] at ha
    rw [← h.upTo_asks, ← h.walked.logged.sell_filled.filled_lt_iff (by omega)]
    omega
  by_contra hle
  push Not at hle
  have hlt : st.volume < executable (bidsOf os) (asksOf os) b :=
    lt_min hbuy (lt_of_lt_of_le hsell (supply_mono hle))
  have hge := h.walked.executable_le b
  rw [h.executable_eq] at hge
  omega

end Settled

/-- A level whose key and quantity fit in an `int` is shown as it is. -/
theorem Holds.cell_of_fits {c : ConfigurableComparator} {m : OrderBookMap c} {side : List Order}
    (h : Holds m side) (hp : ∀ o ∈ side, o.price < 2 ^ 31) (ht : totalOf side < 2 ^ 31)
    {e : ℕ × PriceLevel} (he : e ∈ m.entries) (taken : ℕ) :
    (toI32 e.1, toI32 ((e.2.quantity - taken : ℕ) : ℤ))
      = ((e.1 : ℤ), ((e.2.quantity - taken : ℕ) : ℤ)) := by
  have hkey := h.key_lt hp he
  have hquantity : e.2.quantity ≤ totalOf side := by
    rw [quantity_of_mem he, h.mass_eq]
    exact mass_orderLots_le _ _
  rw [toI32_of_range (by omega) hkey, toI32_of_range (by omega) (by omega)]

/-- **The ladder is the book left after the auction.**  On a crossed book of
positive orders whose prices and totals fit in an `int`, `bp[4], bp[3], …` and
`ap[0], ap[1], …` show the best levels with quantity left, and that quantity, best
first; the best bid left is below the best ask left. -/
theorem OrderBook.flushStatus_ladder (calls : List (OptimPriceInfo × Order))
    (hr : ∀ call ∈ calls, call.2.InRange) (hpos : ∀ call ∈ calls, 0 < call.2.quantity)
    (hp : ∀ call ∈ calls, call.2.price < 2 ^ 31)
    (ht : totalOf (onSide 1 (calls.map Prod.snd)) < 2 ^ 31 ∧
      totalOf (onSide 2 (calls.map Prod.snd)) < 2 ^ 31)
    (hx : Crossed (bidsOf (calls.map Prod.snd)) (asksOf (calls.map Prod.snd))) :
    ∃ book status st, OrderBook.insertOrders calls = .ok book ∧
      (∀ uninit, book.flushStatus uninit = .ok (book, status)) ∧
      book.matchOrders = .ok st ∧
      LeftBook (fun a b => b < a) (bidsOf (calls.map Prod.snd))
        (filled Trade.buyPrice st.trades) (fun i => (status.bp i.rev, status.bs i.rev)) ∧
      LeftBook (fun a b => a < b) (asksOf (calls.map Prod.snd))
        (filled Trade.sellPrice st.trades) (fun i => (status.ap i, status.as i)) ∧
      (0 < status.bs 4 → 0 < status.as 0 → status.bp 4 < status.ap 0) := by
  have hcall : ∀ {s : Order → Prop}, (∀ call ∈ calls, s call.2) →
      ∀ o ∈ calls.map Prod.snd, s o := by
    intro s hs o ho
    obtain ⟨call, hmem, rfl⟩ := List.mem_map.mp ho
    exact hs call hmem
  obtain ⟨ht1, ht2⟩ := ht
  obtain ⟨book, hrun, hbook⟩ := OrderBook.exists_holdsOrders calls hr ⟨by omega, by omega⟩
  obtain ⟨q, st, h⟩ := hbook.exists_cleared (hcall hpos) hx
  have hprice : ∀ o ∈ calls.map Prod.snd, o.price < 2 ^ 31 := hcall hp
  have hvalid : ∀ o ∈ calls.map Prod.snd, o.Valid := hcall fun c hc => (hr c hc).valid
  have hside : ∀ side, ∀ o ∈ onSide side (calls.map Prod.snd), o.price < 2 ^ 31 :=
    fun side o ho => hprice o (List.mem_filter.mp ho).1
  have hbids : LeftBook (fun a b => b < a) (bidsOf (calls.map Prod.snd))
      (filled Trade.buyPrice st.trades)
      (fun i => (publish (candidate book.bidLots book.askLots q) st).bidAt i.rev) :=
    h.walked.logged.buy_filled.leftBook hbook.bid h.bid_queue
      (fun a b hab => Nat.cast_lt.mpr hab) h.walked.buy
      (fun e he hmem => (h.bidCell_toI32 (h.candidate_fits hvalid).1 hmem).trans
        (hbook.bid.cell_of_fits (hside 1) ht1 he _))
      (fun i => (publish_ladder _ st i).1)
  have hasks : LeftBook (fun a b => a < b) (asksOf (calls.map Prod.snd))
      (filled Trade.sellPrice st.trades)
      (publish (candidate book.bidLots book.askLots q) st).askAt :=
    h.walked.logged.sell_filled.leftBook hbook.ask h.ask_queue
      (fun a b hab => Nat.cast_lt.mpr hab) h.walked.sell
      (fun e he hmem => (h.askCell_toI32 (h.candidate_fits hvalid).2 hmem).trans
        (hbook.ask.cell_of_fits (hside 2) ht2 he _))
      (fun i => (publish_ladder _ st i).2)
  refine ⟨book, _, st, hrun, h.flushed, h.matched, hbids, hasks, ?_⟩
  intro hb ha
  obtain ⟨r, hr0, hbr⟩ := hbids.excess (i := 0) hb
  obtain ⟨r', hr0', har⟩ := hasks.excess (i := 0) ha
  exact h.uncrossed hr0 hbr hr0' har

/-- The ladder of the crossing calls is the book left. -/
theorem OrderBook.flushStatus_ladder_crossingCalls :
    ∃ book status st, OrderBook.insertOrders crossingCalls = .ok book ∧
      (∀ uninit, book.flushStatus uninit = .ok (book, status)) ∧
      book.matchOrders = .ok st ∧
      LeftBook (fun a b => b < a) (bidsOf (crossingCalls.map Prod.snd))
        (filled Trade.buyPrice st.trades) (fun i => (status.bp i.rev, status.bs i.rev)) ∧
      LeftBook (fun a b => a < b) (asksOf (crossingCalls.map Prod.snd))
        (filled Trade.sellPrice st.trades) (fun i => (status.ap i, status.as i)) ∧
      (0 < status.bs 4 → 0 < status.as 0 → status.bp 4 < status.ap 0) :=
  OrderBook.flushStatus_ladder crossingCalls (by decide) (by decide) (by decide) (by decide)
    crossed_crossingCalls

end Obr
