/-
# Asks at `INT64_MAX`

Asks at `INT64_MAX` share their key with the sentinel of the ask sums.  Above all other asks the
scans count them below the price, where they are not.  As long as the bids there do not cover the
other asks this makes no difference; if they do, the published ladders can only be exact when the
bids at `INT64_MAX` are as much as all asks.  Then the price moves down to the best bid below.
-/
import FastServer.ExactLadder

namespace Obr

open CallAuction

/-! ## What the scans read above the other asks -/

/-- Lots with prices up to `INT64_MAX` and positive quantities, whose totals are an `int64_t`. -/
structure LotsFit (bids asks : List (ℤ × ℕ)) : Prop where
  bid_le : ∀ x ∈ bids, x.1 ≤ int64Max
  ask_le : ∀ x ∈ asks, x.1 ≤ int64Max
  bid_pos : ∀ x ∈ bids, 0 < x.2
  ask_pos : ∀ x ∈ asks, 0 < x.2
  demand_lt : ∀ p, demand bids p < 2 ^ 63
  supply_lt : ∀ p, supply asks p < 2 ^ 63

/-- At no price above the other asks do the bids cover these. -/
def Uncovered (bids asks : List (ℤ × ℕ)) : Prop :=
  ∀ p, AboveAsks asks p → demand bids p < supplyBelow asks int64Max

section Lots

variable {bids asks : List (ℤ × ℕ)} {p : ℤ}

/-- Above the other asks all that is below `INT64_MAX` is below the price. -/
theorem AboveAsks.supplyBelow_eq (h : AboveAsks asks p) (hp : p ≤ int64Max) :
    supplyBelow asks p = supplyBelow asks int64Max :=
  mass_congr fun x hx => ⟨fun hlt => lt_of_lt_of_le hlt hp, h x hx⟩

/-- There the scans read all asks as below the price. -/
theorem AboveAsks.sumBelow_eq (h : AboveAsks asks p) (hp : p ≤ int64Max) :
    sumBelow asks p = supply asks int64Max := by
  rw [sumBelow, if_pos h, h.supplyBelow_eq hp, supply_eq_add]

/-- Elsewhere they read the supply below. -/
theorem sumBelow_of_not_above (h : ¬ AboveAsks asks p) : sumBelow asks p = supplyBelow asks p := by
  rw [sumBelow, if_neg h, Nat.add_zero]

/-- Elsewhere the supply is without the asks at `INT64_MAX`. -/
theorem supply_le_of_not_above (h : ¬ AboveAsks asks p) :
    supply asks p ≤ supplyBelow asks int64Max := by
  unfold AboveAsks at h
  push Not at h
  obtain ⟨x, -, hlt, hle⟩ := h
  exact supply_le_supplyBelow (lt_of_le_of_lt hle hlt)

/-- The candidate that the scans build above the other asks. -/
def readLast (bids asks : List (ℤ × ℕ)) (p : ℤ) : OptimPriceInfo :=
  readCandidate p (mass bids (· = p)) (demandAbove bids p) (mass asks (· = p))
    (supply asks int64Max)

/-- The scans accept the price above the other asks: the sum of the asks does not wrap, and either
side covers what is read as better on the other. -/
def TakesLast (bids asks : List (ℤ × ℕ)) (p : ℤ) : Prop :=
  AboveAsks asks p ∧ supply asks int64Max + mass asks (· = p) < 2 ^ 63 ∧
    demandAbove bids p ≤ supply asks int64Max + mass asks (· = p) ∧
    supply asks int64Max ≤ demand bids p

instance (bids asks : List (ℤ × ℕ)) : DecidablePred (TakesLast bids asks) :=
  fun _ => inferInstanceAs (Decidable (_ ∧ _))

/-- **A step above the other asks.** -/
theorem AboveAsks.considerLevel_eq (h : AboveAsks asks p) (hfit : LotsFit bids asks)
    (hp : p ≤ int64Max) (best : OptimPriceInfo) :
    considerLevel bids asks best p
      = KeepBest.keep OptimPriceInfo.gt (TakesLast bids asks) (readLast bids asks) best p := by
  have eB := demand_eq_add bids p
  have eA := supply_eq_add asks p
  have hB := hfit.demand_lt p
  have hA := hfit.supply_lt p
  have hS := hfit.supply_lt int64Max
  rw [considerLevel, h.sumBelow_eq hp, toI64_natCast (by omega), toI64_natCast (by omega),
    toI64_natCast (by omega), toI64_natCast hS]
  by_cases hwrap : supply asks int64Max + mass asks (· = p) < 2 ^ 63
  · rw [considerPrice_natCast p best (by omega) hwrap, KeepBest.keep, ← eB]
    simp only [TakesLast, h, hwrap, true_and]
    rfl
  · rw [considerPrice_of_wraps p best (by omega) (by omega) (by omega), KeepBest.keep,
      if_neg fun htakes => hwrap htakes.2.1]

/-- **Where the bids do not cover the other asks the steps are exact**: above them the scans
reject what the curves reject. -/
theorem considerLevel_of_uncovered (hfit : LotsFit bids asks)
    (h : mass asks (· = int64Max) = 0 ∨ Uncovered bids asks) (hp : p ≤ int64Max)
    (best : OptimPriceInfo) : considerLevel bids asks best p = keepCandidate bids asks best p := by
  rcases h with hzero | hun
  · exact considerLevel_eq hzero best p (hfit.demand_lt p) (hfit.supply_lt p)
  · by_cases habove : AboveAsks asks p
    · have hlt := hun p habove
      have hle : supplyBelow asks int64Max ≤ supply asks int64Max := supplyBelow_le_supply
      rw [habove.considerLevel_eq hfit hp, KeepBest.keep, keepCandidate, KeepBest.keep,
        if_neg fun htakes => absurd htakes.2.2.2 (by omega), if_neg fun hadm => ?_]
      have := hadm.2
      rw [habove.supplyBelow_eq hp] at this
      omega
    · rw [considerLevel, sumBelow_of_not_above habove,
        considerPrice_eq best (hfit.demand_lt p) (hfit.supply_lt p)]

end Lots

/-! ## As many bids at `INT64_MAX` as asks -/

/-- The best bid below `INT64_MAX` and the price that is published if some ask stands at
`INT64_MAX`, the bids there are as much as all asks, and the other asks, of which there is one,
are below it. -/
structure IsSentinelPrice (bids asks : List (ℤ × ℕ)) (p : ℤ) : Prop where
  level : IsBidLevel bids p
  lt_max : p < int64Max
  no_bid : ∀ x ∈ bids, p < x.1 → x.1 = int64Max
  above_asks : AboveAsks asks p
  some_ask : ∃ x ∈ asks, x.1 < p
  max_ask : ∃ x ∈ asks, x.1 = int64Max
  max_bid : demand bids int64Max = supply asks int64Max

section Full

variable {bids asks : List (ℤ × ℕ)} {p q : ℤ}

/-- There is one such price. -/
theorem IsSentinelPrice.unique (h : IsSentinelPrice bids asks p)
    (h' : IsSentinelPrice bids asks q) : p = q := by
  obtain ⟨x, hx, rfl⟩ := h.level
  obtain ⟨y, hy, rfl⟩ := h'.level
  rcases lt_trichotomy x.1 y.1 with hlt | heq | hlt
  · exact absurd (h.no_bid y hy hlt) h'.lt_max.ne
  · exact heq
  · exact absurd (h'.no_bid x hx hlt) h.lt_max.ne

/-- The bids above it are those at `INT64_MAX`. -/
theorem IsSentinelPrice.demandAbove_eq (h : IsSentinelPrice bids asks p) :
    demandAbove bids p = supply asks int64Max := by
  rw [← h.max_bid]
  exact mass_congr fun x hx => ⟨fun hlt => (h.no_bid x hx hlt).ge, fun hle =>
    lt_of_lt_of_le h.lt_max hle⟩

/-- No ask is at it. -/
theorem AboveAsks.mass_eq_zero (h : AboveAsks asks p) (hp : p < int64Max) :
    mass asks (· = p) = 0 :=
  CallAuction.mass_eq_zero fun x hx heq => absurd (h x hx (heq ▸ hp)) heq.not_lt

/-- No bid is above `INT64_MAX`. -/
theorem LotsFit.demandAbove_max (hfit : LotsFit bids asks) : demandAbove bids int64Max = 0 :=
  CallAuction.mass_eq_zero fun x hx => not_lt.mpr (hfit.bid_le x hx)

/-- No price visited is above `INT64_MAX`. -/
theorem LotsFit.le_max (hfit : LotsFit bids asks) (hs : InSpread bids asks p) : p ≤ int64Max := by
  obtain ⟨-, x, hx, hle⟩ := hs
  exact le_trans hle (hfit.bid_le x hx)

/-- A bid between the price and `INT64_MAX` is more than what is bid there. -/
theorem LotsFit.demandAbove_gt (hfit : LotsFit bids asks) {x : ℤ × ℕ} (hx : x ∈ bids)
    (hp : p < x.1) (hlt : x.1 < int64Max) : demand bids int64Max < demandAbove bids p := by
  have hpos : 0 < mass bids (· = x.1) := mass_pos hx rfl (hfit.bid_pos x hx)
  calc demand bids int64Max ≤ demandAbove bids x.1 := demand_le_demandAbove hlt
    _ < demandAbove bids x.1 + mass bids (· = x.1) := Nat.lt_add_of_pos_right hpos
    _ = demand bids x.1 := (demand_eq_add bids x.1).symm
    _ ≤ demandAbove bids p := demand_le_demandAbove hp

/-- The bids at `INT64_MAX` are as much as all asks, some of which are there. -/
structure FullAtMax (bids asks : List (ℤ × ℕ)) : Prop where
  max_ask : ∃ x ∈ asks, x.1 = int64Max
  max_bid : demand bids int64Max = supply asks int64Max

/-- Then something is asked at `INT64_MAX`. -/
theorem FullAtMax.max_pos (h : FullAtMax bids asks) (hfit : LotsFit bids asks) :
    0 < mass asks (· = int64Max) := by
  obtain ⟨x, hx, heq⟩ := h.max_ask
  exact mass_pos hx heq (hfit.ask_pos x hx)

/-- **The prices accepted.** -/
theorem FullAtMax.takesLast_iff (h : FullAtMax bids asks) (hfit : LotsFit bids asks)
    (hl : IsLevel bids asks p) (hs : InSpread bids asks p) :
    TakesLast bids asks p ↔ IsSentinelPrice bids asks p ∨
      (p = int64Max ∧ supply asks int64Max + mass asks (· = int64Max) < 2 ^ 63) := by
  constructor
  · rintro ⟨habove, hsum, hle, hcover⟩
    rcases lt_or_eq_of_le (hfit.le_max hs) with hlt | rfl
    · rw [habove.mass_eq_zero hlt, Nat.add_zero] at hle
      have hnoask : ∀ x ∈ asks, x.1 ≤ p → x.1 < p := fun x hx hxp =>
        habove x hx (lt_of_le_of_lt hxp hlt)
      refine Or.inl ⟨?_, hlt, ?_, habove, ?_, h.max_ask, h.max_bid⟩
      · obtain ⟨x, hx, rfl⟩ := hl
        rcases List.mem_append.mp hx with hx | hx
        · exact ⟨x, hx, rfl⟩
        · exact absurd (hnoask x hx (le_refl _)) (lt_irrefl _)
      · intro x hx hpx
        refine eq_of_le_of_not_lt (hfit.bid_le x hx) fun hxm => ?_
        have := hfit.demandAbove_gt hx hpx hxm
        have := h.max_bid
        omega
      · obtain ⟨⟨x, hx, hxp⟩, -⟩ := hs
        exact ⟨x, hx, hnoask x hx hxp⟩
    · exact Or.inr ⟨rfl, hsum⟩
  · rintro (hp | ⟨rfl, hsum⟩)
    · refine ⟨hp.above_asks, ?_, ?_, ?_⟩
      · rw [hp.above_asks.mass_eq_zero hp.lt_max]
        exact hfit.supply_lt _
      · rw [hp.demandAbove_eq]
        exact Nat.le_add_right _ _
      · rw [← hp.max_bid]
        exact demand_anti hp.lt_max.le
    · refine ⟨fun x _ hlt => hlt, hsum, ?_, h.max_bid.ge⟩
      rw [hfit.demandAbove_max]
      exact Nat.zero_le _

/-- Every step keeps what it accepts above the other asks: up to them too much is bid. -/
theorem FullAtMax.considerLevel_eq (h : FullAtMax bids asks) (hfit : LotsFit bids asks)
    (hp : p ≤ int64Max) (best : OptimPriceInfo) :
    considerLevel bids asks best p
      = KeepBest.keep OptimPriceInfo.gt (TakesLast bids asks) (readLast bids asks) best p := by
  by_cases habove : AboveAsks asks p
  · exact habove.considerLevel_eq hfit hp best
  · have hlt : p < int64Max := by
      refine lt_of_le_of_ne hp ?_
      rintro rfl
      exact habove fun x _ hlt => hlt
    have hnot : ¬ Admissible bids asks p := by
      intro hadm
      have hdemand : demand bids int64Max ≤ demandAbove bids p := demand_le_demandAbove hlt
      have hsupply := supply_le_of_not_above habove
      have hadd := supply_eq_add asks int64Max
      have := h.max_pos hfit
      have := h.max_bid
      have := hadm.1
      omega
    rw [considerLevel, sumBelow_of_not_above habove,
      considerPrice_eq best (hfit.demand_lt p) (hfit.supply_lt p), keepCandidate, KeepBest.keep,
      if_neg hnot, KeepBest.keep, if_neg fun htakes => habove htakes.1]

/-- Where the bids cover all asks, these are the volume of the candidate. -/
theorem readLast_eq (hcover : supply asks int64Max ≤ demand bids p)
    (hmin : demand bids p = supply asks int64Max ∨ mass asks (· = p) = 0) :
    readLast bids asks p =
      { dealPrice := p
        expectedDealQuantity := supply asks int64Max
        buyAboveQuantity := demandAbove bids p
        askBelowQuantity := supply asks int64Max
        buyDealPriceLeftQuantity := (demand bids p : ℤ) - supply asks int64Max
        askDealPriceRightQuantity := mass asks (· = p) } := by
  have hvolume : min (demand bids p) (supply asks int64Max + mass asks (· = p))
      = supply asks int64Max := by
    omega
  rw [readLast, readCandidate, ← demand_eq_add, hvolume]
  simp only [OptimPriceInfo.mk.injEq, true_and]
  push_cast
  ring

/-- The candidate of the price below `INT64_MAX`: everything is balanced there. -/
theorem IsSentinelPrice.readLast_eq (h : IsSentinelPrice bids asks p) :
    readLast bids asks p =
      { dealPrice := p
        expectedDealQuantity := supply asks int64Max
        buyAboveQuantity := supply asks int64Max
        askBelowQuantity := supply asks int64Max
        buyDealPriceLeftQuantity := (demand bids p : ℤ) - supply asks int64Max
        askDealPriceRightQuantity := 0 } := by
  have hzero := h.above_asks.mass_eq_zero h.lt_max
  have hcover : supply asks int64Max ≤ demand bids p := h.max_bid ▸ demand_anti h.lt_max.le
  rw [Obr.readLast_eq hcover (Or.inr hzero), h.demandAbove_eq, hzero]
  rfl

/-- The candidate of `INT64_MAX`. -/
theorem FullAtMax.readLast_eq (h : FullAtMax bids asks) (hfit : LotsFit bids asks) :
    readLast bids asks int64Max =
      { dealPrice := int64Max
        expectedDealQuantity := supply asks int64Max
        buyAboveQuantity := 0
        askBelowQuantity := supply asks int64Max
        buyDealPriceLeftQuantity := 0
        askDealPriceRightQuantity := mass asks (· = int64Max) } := by
  rw [Obr.readLast_eq h.max_bid.ge (Or.inl h.max_bid), hfit.demandAbove_max, h.max_bid, sub_self]
  rfl

/-- The prices visited are those of the spread. -/
def Visits (bids asks : List (ℤ × ℕ)) (ps : List ℤ) : Prop :=
  ∀ p, p ∈ ps ↔ IsLevel bids asks p ∧ InSpread bids asks p

variable {ps : List ℤ}

/-- The scans keep the best of what they accept. -/
theorem FullAtMax.foldl_eq (h : FullAtMax bids asks) (hfit : LotsFit bids asks)
    (hps : Visits bids asks ps) (best : OptimPriceInfo) :
    ps.foldl (considerLevel bids asks) best
      = ps.foldl (KeepBest.keep OptimPriceInfo.gt (TakesLast bids asks) (readLast bids asks))
          best :=
  List.foldl_ext _ _ _ fun best p hp =>
    h.considerLevel_eq hfit (hfit.le_max ((hps p).mp hp).2) best

/-- **The price moves down** to the best bid below `INT64_MAX`: there the asks read as lower
balance the higher bids. -/
theorem IsSentinelPrice.foldl_eq (hp : IsSentinelPrice bids asks p) (hfit : LotsFit bids asks)
    (hps : Visits bids asks ps) (uninit : OptimPriceInfo) :
    ps.foldl (considerLevel bids asks) { uninit with expectedDealQuantity := -1 }
      = readLast bids asks p := by
  have hfull : FullAtMax bids asks := ⟨hp.max_ask, hp.max_bid⟩
  have hlevel : IsLevel bids asks p := by
    obtain ⟨x, hx, heq⟩ := hp.level
    exact ⟨x, List.mem_append_left _ hx, heq⟩
  have hspread : InSpread bids asks p := by
    obtain ⟨x, hx, heq⟩ := hp.level
    obtain ⟨y, hy, hlt⟩ := hp.some_ask
    exact ⟨⟨y, hy, hlt.le⟩, x, hx, heq.ge⟩
  rw [hfull.foldl_eq hfit hps]
  refine KeepBest.foldl_keep_eq _ _ _ ((hps p).mpr ⟨hlevel, hspread⟩)
    ((hfull.takesLast_iff hfit hlevel hspread).mpr (Or.inl hp)) ?_ fun r hr htakes => ?_
  · left
    rw [hp.readLast_eq]
    simp only
    omega
  · obtain ⟨hl, hs⟩ := (hps r).mp hr
    rcases (hfull.takesLast_iff hfit hl hs).mp htakes with hr' | ⟨rfl, -⟩
    · exact Or.inl (by rw [hp.unique hr'])
    · have hpos : 0 < supply asks int64Max :=
        lt_of_lt_of_le (hfull.max_pos hfit) (by rw [supply_eq_add]; exact Nat.le_add_left _ _)
      have hlt := hfit.supply_lt int64Max
      refine Or.inr (Or.inr ?_)
      rw [hp.readLast_eq, hfull.readLast_eq hfit]
      refine ⟨rfl, ?_⟩
      simp only [OptimPriceInfo.quantityDiff, sub_self, zero_sub]
      rw [toI64_of_range (z := 0) (by omega) (by omega), toI64_of_range (by omega) (by omega)]
      omega

/-- Without such a price, `INT64_MAX` is the only one accepted. -/
theorem FullAtMax.foldl_eq_max (h : FullAtMax bids asks) (hfit : LotsFit bids asks)
    (hps : Visits bids asks ps) (hno : ∀ p, ¬ IsSentinelPrice bids asks p)
    (hsum : supply asks int64Max + mass asks (· = int64Max) < 2 ^ 63) (uninit : OptimPriceInfo) :
    ps.foldl (considerLevel bids asks) { uninit with expectedDealQuantity := -1 }
      = readLast bids asks int64Max := by
  obtain ⟨x, hx, heq⟩ := h.max_ask
  have hbid : ∃ y ∈ bids, int64Max ≤ y.1 := by
    by_contra hnone
    push Not at hnone
    have hzero : demand bids int64Max = 0 :=
      CallAuction.mass_eq_zero fun y hy => (hnone y hy).not_ge
    have := h.max_pos hfit
    have := supply_eq_add asks int64Max
    have := h.max_bid
    omega
  have hlevel : IsLevel bids asks int64Max := ⟨x, List.mem_append_right _ hx, heq⟩
  have hspread : InSpread bids asks int64Max := ⟨⟨x, hx, heq.le⟩, hbid⟩
  rw [h.foldl_eq hfit hps]
  refine KeepBest.foldl_keep_eq _ _ _ ((hps _).mpr ⟨hlevel, hspread⟩)
    ((h.takesLast_iff hfit hlevel hspread).mpr (Or.inr ⟨rfl, hsum⟩)) ?_ fun r hr htakes => ?_
  · left
    rw [h.readLast_eq hfit]
    simp only
    omega
  · obtain ⟨hl, hs⟩ := (hps r).mp hr
    rcases (h.takesLast_iff hfit hl hs).mp htakes with hr' | ⟨rfl, -⟩
    · exact absurd hr' (hno r)
    · exact Or.inl rfl

/-- If the sum of the asks wraps there, nothing is accepted. -/
theorem FullAtMax.foldl_eq_init (h : FullAtMax bids asks) (hfit : LotsFit bids asks)
    (hps : Visits bids asks ps) (hno : ∀ p, ¬ IsSentinelPrice bids asks p)
    (hsum : ¬ supply asks int64Max + mass asks (· = int64Max) < 2 ^ 63) (best : OptimPriceInfo) :
    ps.foldl (considerLevel bids asks) best = best := by
  rw [h.foldl_eq hfit hps]
  refine KeepBest.foldl_keep_eq_init _ _ _ _ fun r hr htakes => ?_
  obtain ⟨hl, hs⟩ := (hps r).mp hr
  rcases (h.takesLast_iff hfit hl hs).mp htakes with hr' | ⟨-, hlt⟩
  · exact hno r hr'
  · exact hsum hlt

/-- There the auction price is `INT64_MAX`, and all asks are traded. -/
theorem FullAtMax.auctionPrice_eq (h : FullAtMax bids asks) (hfit : LotsFit bids asks)
    (hq : IsAuctionPrice bids asks q) :
    q = int64Max ∧ executable bids asks q = supply asks int64Max := by
  have hle := hfit.le_max hq.candidate.spread
  have hvolume : supply asks int64Max ≤ executable bids asks q := by
    have hmax := hq.executable_le int64Max
    rwa [executable, h.max_bid, min_self] at hmax
  have hsupply : executable bids asks q ≤ supply asks q := min_le_right _ _
  have hmono : supply asks q ≤ supply asks int64Max := supply_mono hle
  refine ⟨eq_of_le_of_not_lt hle fun hlt => ?_, by omega⟩
  have hbelow : supply asks q ≤ supplyBelow asks int64Max := supply_le_supplyBelow hlt
  have := h.max_pos hfit
  have := supply_eq_add asks int64Max
  omega

/-- **Where the bids cover the other asks, exact ladders need a full book.**  Otherwise
`INT64_MAX` is the best price left on one of the sides. -/
theorem fullAtMax_of_fits (hfit : LotsFit bids asks) (hmax : ∃ x ∈ asks, x.1 = int64Max)
    (hcovered : ¬ Uncovered bids asks) (hq : IsAuctionPrice bids asks q)
    (hbid : LadderFits (fun a b => b < a) bids (bidLeft bids (executable bids asks q)))
    (hask : LadderFits (fun a b => a < b) asks (askLeft asks (executable bids asks q))) :
    FullAtMax bids asks := by
  obtain ⟨x, hx, hxmax⟩ := hmax
  have hpos : 0 < mass asks (· = int64Max) := mass_pos hx hxmax (hfit.ask_pos x hx)
  have hadd := supply_eq_add asks int64Max
  have hle := hfit.le_max hq.candidate.spread
  have hmono : supply asks q ≤ supply asks int64Max := supply_mono hle
  have hexec : executable bids asks q ≤ supply asks q ∧
      executable bids asks q ≤ demand bids q := ⟨min_le_right _ _, min_le_left _ _⟩
  -- the volume takes all asks below `INT64_MAX`
  have hbelow : supplyBelow asks int64Max ≤ executable bids asks q := by
    unfold Uncovered at hcovered
    push Not at hcovered
    obtain ⟨p, habove, hcover⟩ := hcovered
    have hsupply : supplyBelow asks int64Max ≤ supply asks p :=
      mass_le_mass fun y hy hlt => (habove y hy hlt).le
    exact le_trans (le_min hcover hsupply) (hq.executable_le p)
  -- so it takes those at `INT64_MAX` as well
  have hall : supply asks int64Max ≤ executable bids asks q := by
    by_contra hlt
    refine absurd (hask int64Max ⟨?_, ?_⟩).1 (by decide)
    · rw [askLeft]
      omega
    · rw [Finset.card_eq_zero.mpr]
      · decide
      · refine Finset.filter_eq_empty_iff.mpr fun p _ hp => ?_
        have hle' : supply asks p ≤ supplyBelow asks int64Max := supply_le_supplyBelow hp.1
        have hleft := hp.2
        rw [askLeft] at hleft
        omega
  have hqmax : q = int64Max := by
    refine eq_of_le_of_not_lt hle fun hlt => ?_
    have : supply asks q ≤ supplyBelow asks int64Max := supply_le_supplyBelow hlt
    omega
  subst hqmax
  -- and no bid is left there
  refine ⟨⟨x, hx, hxmax⟩, le_antisymm ?_ (by omega)⟩
  by_contra hgt
  refine absurd (hbid int64Max ⟨?_, ?_⟩).1 (by decide)
  · have := demand_eq_add bids int64Max
    have := hfit.demandAbove_max
    rw [bidLeft]
    omega
  · rw [Finset.card_eq_zero.mpr]
    · decide
    · refine Finset.filter_eq_empty_iff.mpr fun p hp hlt => ?_
      obtain ⟨y, hy, rfl⟩ := List.mem_map.mp (List.mem_toFinset.mp hp)
      exact absurd (hfit.bid_le y hy) (not_le.mpr hlt.1)

end Full

/-! ## The prices of a book -/

section Book

variable {book : OrderBook} {os : List Order}

/-- The orders of a book as lots. -/
theorem OrderBook.Keeps.lotsFit (h : book.Keeps os) (hr : ∀ o ∈ os, o.Valid)
    (hpos : ∀ o ∈ os, 0 < o.quantity) : LotsFit (bidsOf os) (asksOf os) := by
  have hlot : ∀ side, ∀ x ∈ orderLots (onSide side os), x.1 ≤ int64Max ∧ 0 < x.2 := by
    intro side x hx
    obtain ⟨o, ho, rfl⟩ := List.mem_map.mp hx
    have hmem := (List.mem_filter.mp ho).1
    have := (hr o hmem).2.2
    refine ⟨?_, hpos o hmem⟩
    unfold int64Max
    simp only
    omega
  constructor
  case bid_le => exact fun x hx => (hlot 1 x hx).1
  case ask_le => exact fun x hx => (hlot 2 x hx).1
  case bid_pos => exact fun x hx => (hlot 1 x hx).2
  case ask_pos => exact fun x hx => (hlot 2 x hx).2
  case demand_lt => exact fun p => (h.curves p).1 ▸ (h.sound.curves_lt p).1.1
  case supply_lt => exact fun p => (h.curves p).2.2.1 ▸ (h.sound.curves_lt p).1.2

/-- The scans read the levels as they would read the orders. -/
theorem OrderBook.Keeps.considerLevel_eq (h : book.Keeps os) (best : OptimPriceInfo) (p : ℤ) :
    considerLevel book.bidLots book.askLots best p
      = considerLevel (bidsOf os) (asksOf os) best p := by
  have habove : AboveAsks book.askLots p ↔ AboveAsks (asksOf os) p := by
    have hnot : (∃ x ∈ book.askLots, x.1 < int64Max ∧ p ≤ x.1) ↔
        ∃ x ∈ asksOf os, x.1 < int64Max ∧ p ≤ x.1 := by
      refine ⟨fun hex => ?_, h.ask_stored.exists_level fun k => k < int64Max ∧ p ≤ k⟩
      rcases h.ask_stored.of_level (fun k => k < int64Max ∧ p ≤ k) hex with
        hex | ⟨e, he, hnil, hlt, -⟩
      · exact hex
      · rw [(h.ask_level e he hnil).1] at hlt
        exact absurd hlt (by decide)
    unfold AboveAsks
    rw [← not_iff_not]
    push Not
    exact hnot
  have hsum : sumBelow book.askLots p = sumBelow (asksOf os) p := by
    rw [sumBelow, sumBelow, (h.curves p).2.2.2, h.ask_stored.mass_eq]
    simp only [habove]
  rw [considerLevel, considerLevel, hsum, (h.curves p).2.1, h.bid.mass_eq, h.ask_stored.mass_eq]

/-- **`flushStatus` on crossing orders.**  Their prices in the spread are considered one after the
other. -/
theorem OrderBook.Keeps.exists_visited (h : book.Keeps os)
    (hx : Crossed (bidsOf os) (asksOf os)) :
    ∃ ps, Visits (bidsOf os) (asksOf os) ps ∧ ∀ st, book.matchOrders = .ok st →
      ∀ uninit : OptimPriceInfo, book.flushStatus uninit
        = .ok (book, publish (ps.foldl (considerLevel (bidsOf os) (asksOf os))
            { uninit with expectedDealQuantity := -1 }) st) := by
  obtain ⟨b, a, hb, ha, hab⟩ := h.exists_best hx
  refine ⟨book.scanned b.1 a.1, fun p => ?_, fun st hst uninit => ?_⟩
  · rw [← h.isLevel_iff, ← h.inSpread_iff]
    exact (scans h.sound hb ha).mem_iff p
  · rw [flushStatus_eq h.sound hb ha hab, hst, optimum,
      List.foldl_ext _ _ _ fun best p _ => h.considerLevel_eq best p]
    rfl

/-- Where the bids do not cover the asks below `INT64_MAX`, the scans step in exact
arithmetic. -/
theorem OrderBook.Keeps.scansExactly (h : book.Keeps os) (hfit : LotsFit (bidsOf os) (asksOf os))
    (hun : (∀ x ∈ asksOf os, x.1 ≠ int64Max) ∨ Uncovered (bidsOf os) (asksOf os)) :
    book.ScansExactly := by
  intro best p _ hs
  have hzero : mass (asksOf os) (· = int64Max) = 0 ∨ Uncovered (bidsOf os) (asksOf os) :=
    hun.imp_left fun hno => CallAuction.mass_eq_zero hno
  have hcand : candidate book.bidLots book.askLots p = candidate (bidsOf os) (asksOf os) p := by
    obtain ⟨h1, h2, h3, h4⟩ := h.curves p
    rw [candidate, candidate, h.executable_eq, h1, h2, h3, h4]
  rw [h.considerLevel_eq, considerLevel_of_uncovered hfit hzero
    (hfit.le_max ((h.inSpread_iff p).mp hs)), keepCandidate, keepCandidate, KeepBest.keep,
    KeepBest.keep, hcand]
  simp only [h.admissible_iff]

end Book

end Obr
