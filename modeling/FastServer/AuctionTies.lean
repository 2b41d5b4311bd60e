/-
# The best of the prices scanned

A scan that goes down the bids and then up the asks, and keeps the best candidate it meets, ends
with the auction price.  Several prices may have the largest volume and the smallest imbalance:
the first of them is kept, so that the price is determined by the lots alone, whatever the
uninitialised local held.
-/
import FastServer.PriceChoice

namespace Obr

open CallAuction

/-! ## The order of the scans -/

/-- What beats `b` beats whatever does not beat `b`. -/
theorem OptimPriceInfo.gt_of_not_gt {a b x : OptimPriceInfo} (hab : a.gt b) (hxb : ¬ x.gt b) :
    a.gt x := by
  unfold OptimPriceInfo.gt at *
  omega

/-- The prices visited stand in the order of the map. -/
theorem pairwise_visited {lt : ℕ → ℕ → Prop} (lt' : ℤ → ℤ → Prop)
    (hlt : ∀ {a b : ℕ}, lt a b → lt' a b) (stop : ℕ → Bool) {sums : List (ℕ × ℕ)}
    (hs : sums.Pairwise fun x y => lt x.1 y.1) : (visited stop sums).Pairwise lt' := by
  rw [visited, List.pairwise_map]
  exact (hs.sublist (List.takeWhile_sublist _)).imp hlt

/-- **What comes first.**  In a list that goes down through `B` and then up through `A`, an
element that is not before `q` is preceded by it. -/
theorem precedes_of_split {B A pre post : List ℤ} {q p : ℤ} (hB : B.Pairwise (· > ·))
    (hA : A.Pairwise (· < ·)) (hs : B ++ A = pre ++ q :: post) (hq : q ∉ pre) (hp : p ∉ pre)
    (hmem : p ∈ B ++ A) : (q ∈ B ∧ (p ∈ B → p ≤ q)) ∨ (q ∉ B ∧ p ∉ B ∧ q ≤ p) := by
  rcases List.append_eq_append_iff.mp hs with ⟨as, rfl, rfl⟩ | ⟨bs, rfl, hbs⟩
  · -- `q` stands in `A`, and all of `B` before it
    rw [List.mem_append, not_or] at hq hp
    refine Or.inr ⟨hq.1, hp.1, ?_⟩
    have hpa : p ∈ q :: post := by
      have h := (List.mem_append.mp hmem).resolve_left hp.1
      exact (List.mem_append.mp h).resolve_left hp.2
    obtain ⟨-, hpost, -⟩ := List.pairwise_append.mp hA
    rcases List.mem_cons.mp hpa with rfl | hpa
    · exact le_refl p
    · exact le_of_lt ((List.pairwise_cons.mp hpost).1 p hpa)
  · cases bs with
    | nil =>
      rw [List.nil_append] at hbs
      subst hbs
      rw [List.append_nil] at hB hmem ⊢
      refine Or.inr ⟨hq, hp, ?_⟩
      rcases List.mem_cons.mp ((List.mem_append.mp hmem).resolve_left hp) with rfl | hpa
      · exact le_refl p
      · exact le_of_lt ((List.pairwise_cons.mp hA).1 p hpa)
    | cons b bs =>
      -- `q` stands in `B`
      obtain ⟨rfl, -⟩ := List.cons.inj hbs
      refine Or.inl ⟨by simp, fun hpB => ?_⟩
      obtain ⟨-, hpost, -⟩ := List.pairwise_append.mp hB
      rcases List.mem_cons.mp ((List.mem_append.mp hpB).resolve_left hp) with rfl | hpb
      · exact le_refl p
      · exact le_of_lt ((List.pairwise_cons.mp hpost).1 p hpb)

/-! ## The first of the best -/

/-- The `candidate` with the larger volume is better. -/
theorem candidate_gt_iff {bids asks : List (ℤ × ℕ)} {p q : ℤ}
    (hp : demandAbove bids p < 2 ^ 63) (hp' : supplyBelow asks p < 2 ^ 63)
    (hq : demandAbove bids q < 2 ^ 63) (hq' : supplyBelow asks q < 2 ^ 63) :
    (candidate bids asks p).gt (candidate bids asks q) ↔
      executable bids asks q < executable bids asks p ∨
        (executable bids asks p = executable bids asks q ∧
          |(demandAbove bids p : ℤ) - supplyBelow asks p|
            < |(demandAbove bids q : ℤ) - supplyBelow asks q|) := by
  have hdiff : ∀ r, demandAbove bids r < 2 ^ 63 → supplyBelow asks r < 2 ^ 63 →
      ((candidate bids asks r).quantityDiff : ℤ)
        = |(demandAbove bids r : ℤ) - supplyBelow asks r| := by
    intro r h1 h2
    have hr : toI64 ((demandAbove bids r : ℤ) - supplyBelow asks r)
        = (demandAbove bids r : ℤ) - supplyBelow asks r := toI64_of_range (by omega) (by omega)
    show ((toI64 ((demandAbove bids r : ℤ) - supplyBelow asks r)).natAbs : ℤ) = _
    rw [hr, Int.natCast_natAbs]
  rw [← hdiff p hp hp', ← hdiff q hq hq', OptimPriceInfo.gt, Nat.cast_lt]
  simp only [candidate, gt_iff_lt, Nat.cast_lt, Nat.cast_inj]

/-- The prices that the scans visit: down the bids of the spread, then up its asks. -/
structure Scans (bids asks : List (ℤ × ℕ)) (down up : List ℤ) : Prop where
  down_sorted : down.Pairwise (· > ·)
  up_sorted : up.Pairwise (· < ·)
  mem_iff : ∀ p, p ∈ down ++ up ↔ IsLevel bids asks p ∧ InSpread bids asks p
  mem_down : ∀ p, InSpread bids asks p → (p ∈ down ↔ IsBidLevel bids p)

section Scans

variable {bids asks : List (ℤ × ℕ)} {down up : List ℤ}

/-- The candidates are what the scans visit and accept. -/
theorem Scans.isCandidate_iff (h : Scans bids asks down up) {p : ℤ} :
    IsCandidate bids asks p ↔ p ∈ down ++ up ∧ Admissible bids asks p := by
  rw [h.mem_iff]
  constructor
  · exact fun ⟨hl, hs, had⟩ => ⟨⟨hl, hs⟩, had⟩
  · exact fun ⟨⟨hl, hs⟩, had⟩ => ⟨hl, hs, had⟩

/-- Every candidate has a volume of at least 0 and so beats the initial -1. -/
theorem candidate_gt_init (bids asks : List (ℤ × ℕ)) (uninit : OptimPriceInfo) (p : ℤ) :
    (candidate bids asks p).gt { uninit with expectedDealQuantity := -1 } := by
  left
  simp only [candidate]
  omega

/-- What the scans keep is the candidate of an accepted price, and no accepted price is better. -/
theorem Scans.exists_kept (h : Scans bids asks down up) (hx : Crossed bids asks) :
    ∃ q, IsCandidate bids asks q ∧
      (∀ uninit : OptimPriceInfo, (down ++ up).foldl (keepCandidate bids asks)
        { uninit with expectedDealQuantity := -1 } = candidate bids asks q) ∧
      ∀ p, IsCandidate bids asks p → ¬ (candidate bids asks p).gt (candidate bids asks q) := by
  obtain ⟨q₀, hl₀, hs₀, had₀, -⟩ := exists_admissible_optimal hx
  have hmem₀ : q₀ ∈ down ++ up := (h.mem_iff q₀).mpr ⟨hl₀, hs₀⟩
  have hindep : ∀ uninit uninit' : OptimPriceInfo,
      (down ++ up).foldl (keepCandidate bids asks) { uninit with expectedDealQuantity := -1 }
        = (down ++ up).foldl (keepCandidate bids asks)
            { uninit' with expectedDealQuantity := -1 } :=
    fun uninit uninit' => KeepBest.foldl_keep_congr _ _ _ ⟨q₀, hmem₀, had₀⟩
      (fun p _ _ => candidate_gt_init bids asks uninit p)
      (fun p _ _ => candidate_gt_init bids asks uninit' p)
  let any : OptimPriceInfo := ⟨0, 0, 0, 0, 0, 0⟩
  have hmax : ∀ p ∈ down ++ up, Admissible bids asks p → ¬ (candidate bids asks p).gt
      ((down ++ up).foldl (keepCandidate bids asks) { any with expectedDealQuantity := -1 }) :=
    fun p hp hok => KeepBest.foldl_keep_max _ _ _ _ _ hp hok
  rcases KeepBest.foldl_keep_mem OptimPriceInfo.gt (Admissible bids asks) (candidate bids asks)
    { any with expectedDealQuantity := -1 } (down ++ up) with hres | ⟨q, hq, hok, hres⟩
  · have hbad := hmax q₀ hmem₀ had₀
    rw [show (down ++ up).foldl (keepCandidate bids asks) _ = _ from hres] at hbad
    exact absurd (candidate_gt_init bids asks any q₀) hbad
  · have hopt : (down ++ up).foldl (keepCandidate bids asks)
        { any with expectedDealQuantity := -1 } = candidate bids asks q := hres
    refine ⟨q, h.isCandidate_iff.mpr ⟨hq, hok⟩, fun uninit => (hindep uninit any).trans hopt,
      fun p hp => ?_⟩
    obtain ⟨hmem, had⟩ := h.isCandidate_iff.mp hp
    rw [← hopt]
    exact hmax p hmem had

/-- **The scans end with the auction price**, ties included. -/
theorem Scans.exists_isAuctionPrice (h : Scans bids asks down up) (hx : Crossed bids asks)
    (hB : ∀ p, demandAbove bids p < 2 ^ 63) (hA : ∀ p, supplyBelow asks p < 2 ^ 63) :
    ∃ q, IsAuctionPrice bids asks q ∧
      ∀ uninit : OptimPriceInfo, (down ++ up).foldl (keepCandidate bids asks)
        { uninit with expectedDealQuantity := -1 } = candidate bids asks q := by
  obtain ⟨q, hq, hkept, hmax⟩ := h.exists_kept hx
  have hgt := fun p r => candidate_gt_iff (hB p) (hA p) (hB r) (hA r)
  refine ⟨q, ⟨hq, ?_, ?_, ?_⟩, hkept⟩
  · intro p hp
    have hnot := hmax p hp
    rw [hgt, not_or, not_lt] at hnot
    exact hnot.1
  · intro p hp hvol
    have hnot := hmax p hp
    rw [hgt, not_or] at hnot
    exact not_lt.mp fun hlt => hnot.2 ⟨hvol, hlt⟩
  · intro p hp hvol hbal
    let any : OptimPriceInfo := ⟨0, 0, 0, 0, 0, 0⟩
    rcases KeepBest.foldl_keep_first OptimPriceInfo.gt (Admissible bids asks)
      (candidate bids asks) OptimPriceInfo.gt_of_not_gt { any with expectedDealQuantity := -1 }
      (down ++ up) with hinit | ⟨pre, q', post, hsplit, -, hres, hpre⟩
    · -- the initial value has a negative volume
      have hneg : ((executable bids asks q : ℕ) : ℤ) = -1 :=
        congrArg OptimPriceInfo.expectedDealQuantity ((hkept any).symm.trans hinit)
      omega
    · obtain rfl : q = q' := congrArg OptimPriceInfo.dealPrice ((hkept any).symm.trans hres)
      have hqpre : q ∉ pre := fun hmem => irrefl_of OptimPriceInfo.gt _ (hpre q hmem hq.admissible)
      have hppre : p ∉ pre := by
        intro hmem
        have hbeats := (hgt q p).mp (hpre p hmem hp.admissible)
        rw [hvol] at hbeats
        exact hbeats.elim (lt_irrefl _) fun hlt => absurd hbal (ne_of_gt hlt.2)
      have hfirst := precedes_of_split h.down_sorted h.up_sorted hsplit hqpre hppre
        (h.isCandidate_iff.mp hp).1
      rwa [h.mem_down q hq.spread, h.mem_down p hp.spread] at hfirst

end Scans

/-! ## The prices of a book -/

/-- **The scans of a sound book** visit the prices of its spread. -/
theorem OrderBook.scans {book : OrderBook} {b a : ℕ × PriceLevel} (h : book.Sound)
    (hb : book.bidPriceMaps.entries.head? = some b)
    (ha : book.askPriceMaps.entries.head? = some a) :
    Scans book.bidLots book.askLots (visited (fun k => k < a.1) book.bidPrefixSum.entries)
      (visited (fun k => k > b.1) book.askPrefixSum.entries) := by
  constructor
  case down_sorted =>
    exact pairwise_visited (fun x y : ℤ => x > y) (fun hab => Nat.cast_lt.mpr hab) _
      book.bidPrefixSum.sorted
  case up_sorted =>
    exact pairwise_visited (fun x y : ℤ => x < y) (fun hab => Nat.cast_lt.mpr hab) _
      book.askPrefixSum.sorted
  case mem_iff =>
    intro p
    rw [List.mem_append, mem_bidsVisited h ha, mem_asksVisited h hb ha, inSpread_iff hb ha]
    have hbest : ∀ {y}, y ∈ book.bidLots → y.1 ≤ b.1 := by
      intro y hy
      obtain ⟨e, he, h1, -⟩ := mem_lots.mp hy
      have := le_bestBid hb he
      omega
    have hbest' : ∀ {y}, y ∈ book.askLots → (a.1 : ℤ) ≤ y.1 := by
      intro y hy
      obtain ⟨e, he, h1, -⟩ := mem_lots.mp hy
      have := bestAsk_le ha he
      omega
    constructor
    · rintro (⟨⟨y, hy, rfl⟩, hap⟩ | ⟨⟨y, hy, rfl⟩, hpb⟩)
      · exact ⟨⟨y, List.mem_append_left _ hy, rfl⟩, hap, hbest hy⟩
      · exact ⟨⟨y, List.mem_append_right _ hy, rfl⟩, hbest' hy, hpb⟩
    · rintro ⟨⟨y, hy, rfl⟩, hap, hpb⟩
      rcases List.mem_append.mp hy with hy | hy
      · exact Or.inl ⟨⟨y, hy, rfl⟩, hap⟩
      · exact Or.inr ⟨⟨y, hy, rfl⟩, hpb⟩
  case mem_down =>
    intro p hs
    rw [mem_bidsVisited h ha, and_iff_left ((inSpread_iff hb ha).mp hs).1]

end Obr
