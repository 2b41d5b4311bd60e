/-
# Demand and supply curves of a call auction

A lot is a price and a quantity.  Summing the lots of the bid side down from a
price and those of the ask side up to it gives two step curves; the theory below
is about where they cross.  Prices come from any linear order.
-/
import Mathlib

namespace CallAuction

variable {P : Type*}

/-! ## Quantity at the prices satisfying a predicate -/

/-- The total quantity of the lots whose price satisfies `s`. -/
def mass (l : List (P × ℕ)) (s : P → Prop) [DecidablePred s] : ℕ :=
  ((l.filter (fun x => s x.1)).map Prod.snd).sum

@[simp] theorem mass_nil (s : P → Prop) [DecidablePred s] : mass [] s = 0 := rfl

theorem mass_cons (x : P × ℕ) (l : List (P × ℕ)) (s : P → Prop) [DecidablePred s] :
    mass (x :: l) s = (if s x.1 then x.2 else 0) + mass l s := by
  unfold mass
  by_cases h : s x.1 <;> simp [h]

theorem mass_append (l m : List (P × ℕ)) (s : P → Prop) [DecidablePred s] :
    mass (l ++ m) s = mass l s + mass m s := by
  simp [mass]

/-- The order of the lots does not matter. -/
theorem mass_perm {l m : List (P × ℕ)} (h : l.Perm m) (s : P → Prop) [DecidablePred s] :
    mass l s = mass m s :=
  ((h.filter _).map _).sum_eq

/-- A weaker predicate collects at least as much. -/
theorem mass_le_mass {l : List (P × ℕ)} {s t : P → Prop} [DecidablePred s] [DecidablePred t]
    (h : ∀ x ∈ l, s x.1 → t x.1) : mass l s ≤ mass l t := by
  induction l with
  | nil => simp
  | cons x l ih =>
      rw [mass_cons, mass_cons]
      have hx := h x List.mem_cons_self
      have hl := ih fun y hy => h y (List.mem_cons_of_mem _ hy)
      by_cases hs : s x.1
      · rw [if_pos hs, if_pos (hx hs)]
        omega
      · rw [if_neg hs]
        omega

/-- Predicates that agree on the lots collect the same. -/
theorem mass_congr {l : List (P × ℕ)} {s t : P → Prop} [DecidablePred s] [DecidablePred t]
    (h : ∀ x ∈ l, s x.1 ↔ t x.1) : mass l s = mass l t :=
  le_antisymm (mass_le_mass fun x hx => (h x hx).mp) (mass_le_mass fun x hx => (h x hx).mpr)

/-- A predicate no lot satisfies collects nothing. -/
theorem mass_eq_zero {l : List (P × ℕ)} {s : P → Prop} [DecidablePred s]
    (h : ∀ x ∈ l, ¬ s x.1) : mass l s = 0 := by
  have hnone : l.filter (fun x => s x.1) = [] :=
    List.filter_eq_nil_iff.mpr fun x hx hs => h x hx (of_decide_eq_true hs)
  rw [mass, hnone]
  rfl

/-- Lots that do not satisfy a predicate add nothing to what it collects. -/
theorem mass_append_of_forall {l m : List (P × ℕ)} {s : P → Prop} [DecidablePred s]
    (h : ∀ x ∈ m, ¬ s x.1) : mass (l ++ m) s = mass l s := by
  rw [mass_append, mass_eq_zero h, Nat.add_zero]

/-- Splitting a predicate into two exclusive ones splits the quantity. -/
theorem mass_or {l : List (P × ℕ)} {s t u : P → Prop} [DecidablePred s] [DecidablePred t]
    [DecidablePred u] (h : ∀ x ∈ l, u x.1 ↔ s x.1 ∨ t x.1) (hst : ∀ x ∈ l, ¬ (s x.1 ∧ t x.1)) :
    mass l u = mass l s + mass l t := by
  induction l with
  | nil => simp
  | cons x l ih =>
      rw [mass_cons, mass_cons, mass_cons,
        ih (fun y hy => h y (List.mem_cons_of_mem _ hy))
          (fun y hy => hst y (List.mem_cons_of_mem _ hy))]
      have hu := h x List.mem_cons_self
      have hx := hst x List.mem_cons_self
      by_cases hs : s x.1
      · have ht : ¬ t x.1 := fun ht => hx ⟨hs, ht⟩
        rw [if_pos (hu.mpr (Or.inl hs)), if_pos hs, if_neg ht]
        omega
      · by_cases ht : t x.1
        · rw [if_pos (hu.mpr (Or.inr ht)), if_neg hs, if_pos ht]
          omega
        · have hnot : ¬ u x.1 := fun h => (hu.mp h).elim hs ht
          rw [if_neg hnot, if_neg hs, if_neg ht]
          omega

/-- A lot with a positive quantity makes the quantity collected positive. -/
theorem mass_pos {l : List (P × ℕ)} {s : P → Prop} [DecidablePred s] {x : P × ℕ} (hx : x ∈ l)
    (hs : s x.1) (hq : 0 < x.2) : 0 < mass l s := by
  unfold mass
  have hmem : x.2 ∈ (l.filter (fun x => s x.1)).map Prod.snd :=
    List.mem_map_of_mem (List.mem_filter.mpr ⟨hx, by simpa using hs⟩)
  exact lt_of_lt_of_le hq (List.le_sum_of_mem hmem)

/-! ## The two curves -/

section Curves

variable [LinearOrder P]

/-- Total bid quantity at prices `≥ p`. -/
def demand (bids : List (P × ℕ)) (p : P) : ℕ := mass bids (p ≤ ·)

/-- Total bid quantity at prices `> p`. -/
def demandAbove (bids : List (P × ℕ)) (p : P) : ℕ := mass bids (p < ·)

/-- Total ask quantity at prices `≤ p`. -/
def supply (asks : List (P × ℕ)) (p : P) : ℕ := mass asks (· ≤ p)

/-- Total ask quantity at prices `< p`. -/
def supplyBelow (asks : List (P × ℕ)) (p : P) : ℕ := mass asks (· < p)

/-- The volume that can trade at price `p`. -/
def executable (bids asks : List (P × ℕ)) (p : P) : ℕ := min (demand bids p) (supply asks p)

/-- Everything strictly better than `p` can be served at `p`, on both sides. -/
def Admissible (bids asks : List (P × ℕ)) (p : P) : Prop :=
  demandAbove bids p ≤ supply asks p ∧ supplyBelow asks p ≤ demand bids p

instance (bids asks : List (P × ℕ)) (p : P) : Decidable (Admissible bids asks p) :=
  inferInstanceAs (Decidable (_ ∧ _))

/-- `p` is the price of some lot. -/
def IsLevel (bids asks : List (P × ℕ)) (p : P) : Prop := ∃ x ∈ bids ++ asks, x.1 = p

/-- `p` lies between the best ask and the best bid. -/
def InSpread (bids asks : List (P × ℕ)) (p : P) : Prop :=
  (∃ a ∈ asks, a.1 ≤ p) ∧ ∃ b ∈ bids, p ≤ b.1

/-- The best bid is at least the best ask. -/
def Crossed (bids asks : List (P × ℕ)) : Prop := ∃ b ∈ bids, ∃ a ∈ asks, a.1 ≤ b.1

variable {bids asks : List (P × ℕ)} {p q : P}

theorem demandAbove_le_demand : demandAbove bids p ≤ demand bids p :=
  mass_le_mass fun _ _ h => le_of_lt h

theorem supplyBelow_le_supply : supplyBelow asks p ≤ supply asks p :=
  mass_le_mass fun _ _ h => le_of_lt h

theorem demand_anti (h : p ≤ q) : demand bids q ≤ demand bids p :=
  mass_le_mass fun _ _ hx => le_trans h hx

theorem supply_mono (h : p ≤ q) : supply asks p ≤ supply asks q :=
  mass_le_mass fun _ _ hx => le_trans hx h

theorem demand_le_demandAbove (h : p < q) : demand bids q ≤ demandAbove bids p :=
  mass_le_mass fun _ _ hx => lt_of_lt_of_le h hx

theorem supply_le_supplyBelow (h : p < q) : supply asks p ≤ supplyBelow asks q :=
  mass_le_mass fun _ _ hx => lt_of_le_of_lt hx h

/-- The quantity at `p` itself is what separates the two demand curves. -/
theorem demand_eq_add (bids : List (P × ℕ)) (p : P) :
    demand bids p = demandAbove bids p + mass bids (· = p) :=
  mass_or (fun x _ => by rw [le_iff_lt_or_eq, eq_comm (a := p)])
    (fun _ _ h => absurd h.2 (ne_of_gt h.1))

/-- The quantity at `p` itself is what separates the two supply curves. -/
theorem supply_eq_add (asks : List (P × ℕ)) (p : P) :
    supply asks p = supplyBelow asks p + mass asks (· = p) :=
  mass_or (fun _ _ => le_iff_lt_or_eq) (fun _ _ h => absurd h.2 (ne_of_lt h.1))

/-! ## An admissible level with the largest volume -/

/-- The price levels between the best ask and the best bid. -/
def spreadLevels (bids asks : List (P × ℕ)) : Finset P :=
  ((bids ++ asks).map Prod.fst).toFinset.filter
    (fun q => (∃ a ∈ asks, a.1 ≤ q) ∧ ∃ b ∈ bids, q ≤ b.1)

theorem mem_spreadLevels :
    q ∈ spreadLevels bids asks ↔ IsLevel bids asks q ∧ InSpread bids asks q := by
  simp only [spreadLevels, Finset.mem_filter, List.mem_toFinset, List.mem_map]
  rfl

/-- A bid above some ask is a level of the spread. -/
theorem bid_mem_spreadLevels {a b : P × ℕ} (hb : b ∈ bids) (ha : a ∈ asks) (h : a.1 ≤ b.1) :
    b.1 ∈ spreadLevels bids asks :=
  mem_spreadLevels.mpr
    ⟨⟨b, List.mem_append_left _ hb, rfl⟩, ⟨a, ha, h⟩, ⟨b, hb, le_refl _⟩⟩

/-- An ask below some bid is a level of the spread. -/
theorem ask_mem_spreadLevels {a b : P × ℕ} (hb : b ∈ bids) (ha : a ∈ asks) (h : a.1 ≤ b.1) :
    a.1 ∈ spreadLevels bids asks :=
  mem_spreadLevels.mpr
    ⟨⟨a, List.mem_append_right _ ha, rfl⟩, ⟨a, ha, le_refl _⟩, ⟨b, hb, h⟩⟩

/-- The lowest level of the spread has no supply below it. -/
theorem ask_ge_of_least (hm : q ∈ spreadLevels bids asks)
    (hmin : ∀ r ∈ spreadLevels bids asks, q ≤ r) {a : P × ℕ} (ha : a ∈ asks) : q ≤ a.1 := by
  obtain ⟨-, -, b, hb, hqb⟩ := mem_spreadLevels.mp hm
  by_contra hlt
  push Not at hlt
  exact absurd (hmin _ (ask_mem_spreadLevels hb ha (le_of_lt (lt_of_lt_of_le hlt hqb))))
    (not_le.mpr hlt)

/-- If demand is short at the lowest level, that level is optimal. -/
theorem optimal_of_least (hm : q ∈ spreadLevels bids asks)
    (hmin : ∀ r ∈ spreadLevels bids asks, q ≤ r) (hlt : demand bids q < supply asks q) :
    Admissible bids asks q ∧ ∀ p, executable bids asks p ≤ executable bids asks q := by
  have hask : ∀ a ∈ asks, q ≤ a.1 := fun a ha => ask_ge_of_least hm hmin ha
  have hbelow : supplyBelow asks q = 0 := mass_eq_zero fun a ha => not_lt.mpr (hask a ha)
  refine ⟨⟨le_trans demandAbove_le_demand (le_of_lt hlt), by omega⟩, fun p => ?_⟩
  by_cases hp : p < q
  · have : supply asks p = 0 := mass_eq_zero fun a ha => not_le.mpr (lt_of_lt_of_le hp (hask a ha))
    simp [executable, this]
  · push Not at hp
    calc executable bids asks p ≤ demand bids p := min_le_left _ _
      _ ≤ demand bids q := demand_anti hp
      _ = executable bids asks q := (min_eq_left (le_of_lt hlt)).symm

/-- If demand suffices at the highest level, that level is optimal. -/
theorem optimal_of_greatest (hm : q ∈ spreadLevels bids asks)
    (hmax : ∀ r ∈ spreadLevels bids asks, r ≤ q) (hle : supply asks q ≤ demand bids q) :
    Admissible bids asks q ∧ ∀ p, executable bids asks p ≤ executable bids asks q := by
  obtain ⟨-, ⟨a, ha, haq⟩, -⟩ := mem_spreadLevels.mp hm
  have hbid : ∀ b ∈ bids, b.1 ≤ q := by
    intro b hb
    by_contra hlt
    push Not at hlt
    exact absurd (hmax _ (bid_mem_spreadLevels hb ha (le_of_lt (lt_of_le_of_lt haq hlt))))
      (not_le.mpr hlt)
  have habove : demandAbove bids q = 0 := mass_eq_zero fun b hb => not_lt.mpr (hbid b hb)
  refine ⟨⟨by omega, le_trans supplyBelow_le_supply hle⟩, fun p => ?_⟩
  by_cases hp : q < p
  · have : demand bids p = 0 := mass_eq_zero fun b hb => not_le.mpr (lt_of_le_of_lt (hbid b hb) hp)
    simp [executable, this]
  · push Not at hp
    calc executable bids asks p ≤ supply asks p := min_le_right _ _
      _ ≤ supply asks q := supply_mono hp
      _ = executable bids asks q := (min_eq_right hle).symm

/-- **The crossing.**  Between two neighbouring levels where the curves cross,
one of the two is optimal: the lower one if its supply covers the demand of the
upper one, the upper one otherwise. -/
theorem optimal_of_neighbours {p₁ p₂ : P} (h₁ : p₁ ∈ spreadLevels bids asks)
    (h₂ : p₂ ∈ spreadLevels bids asks) (hlt : p₁ < p₂)
    (hnext : ∀ r ∈ spreadLevels bids asks, p₁ < r → p₂ ≤ r)
    (hle : supply asks p₁ ≤ demand bids p₁) (hgt : demand bids p₂ < supply asks p₂) :
    ∃ q, (q = p₁ ∨ q = p₂) ∧ Admissible bids asks q ∧
      ∀ p, executable bids asks p ≤ executable bids asks q := by
  obtain ⟨-, ⟨a₀, ha₀, hap⟩, -⟩ := mem_spreadLevels.mp h₁
  obtain ⟨-, -, b₀, hb₀, hpb⟩ := mem_spreadLevels.mp h₂
  -- no lot is priced strictly between the two levels
  have hbid : ∀ b ∈ bids, p₁ < b.1 → p₂ ≤ b.1 := fun b hb h =>
    hnext _ (bid_mem_spreadLevels hb ha₀ (le_of_lt (lt_of_le_of_lt hap h))) h
  have hask : ∀ a ∈ asks, a.1 < p₂ → a.1 ≤ p₁ := by
    intro a ha h
    by_contra hc
    push Not at hc
    exact absurd (hnext _ (ask_mem_spreadLevels hb₀ ha (le_of_lt (lt_of_lt_of_le h hpb))) hc)
      (not_le.mpr h)
  have hB : demandAbove bids p₁ = demand bids p₂ :=
    mass_congr fun b hb => ⟨hbid b hb, fun h => lt_of_lt_of_le hlt h⟩
  have hA : supplyBelow asks p₂ = supply asks p₁ :=
    mass_congr fun a ha => ⟨hask a ha, fun h => lt_of_le_of_lt h hlt⟩
  by_cases hcase : demand bids p₂ ≤ supply asks p₁
  · refine ⟨p₁, Or.inl rfl, ⟨by omega, le_trans supplyBelow_le_supply hle⟩, fun p => ?_⟩
    have hq : executable bids asks p₁ = supply asks p₁ := min_eq_right hle
    rw [hq]
    by_cases hp : p ≤ p₁
    · exact le_trans (min_le_right _ _) (supply_mono hp)
    · push Not at hp
      calc executable bids asks p ≤ demand bids p := min_le_left _ _
        _ ≤ demandAbove bids p₁ := demand_le_demandAbove hp
        _ ≤ supply asks p₁ := by omega
  · push Not at hcase
    refine ⟨p₂, Or.inr rfl, ⟨le_trans demandAbove_le_demand (le_of_lt hgt), by omega⟩, fun p => ?_⟩
    have hq : executable bids asks p₂ = demand bids p₂ := min_eq_left (le_of_lt hgt)
    rw [hq]
    by_cases hp : p₂ ≤ p
    · exact le_trans (min_le_left _ _) (demand_anti hp)
    · push Not at hp
      calc executable bids asks p ≤ supply asks p := min_le_right _ _
        _ ≤ supplyBelow asks p₂ := supply_le_supplyBelow hp
        _ ≤ demand bids p₂ := by omega

/-- **An admissible level trades the most.**  A crossed book has an admissible
level inside the spread, and no price whatever has a larger executable volume. -/
theorem exists_admissible_optimal (hx : Crossed bids asks) :
    ∃ q, IsLevel bids asks q ∧ InSpread bids asks q ∧ Admissible bids asks q ∧
      ∀ p, executable bids asks p ≤ executable bids asks q := by
  obtain ⟨b, hb, a, ha, hab⟩ := hx
  suffices h : ∃ q ∈ spreadLevels bids asks, Admissible bids asks q ∧
      ∀ p, executable bids asks p ≤ executable bids asks q by
    obtain ⟨q, hq, h⟩ := h
    exact ⟨q, (mem_spreadLevels.mp hq).1, (mem_spreadLevels.mp hq).2, h⟩
  have hne : (spreadLevels bids asks).Nonempty := ⟨_, bid_mem_spreadLevels hb ha hab⟩
  -- split the levels at the last one where demand covers supply
  let T := (spreadLevels bids asks).filter (fun q => supply asks q ≤ demand bids q)
  by_cases hT : T.Nonempty
  · obtain ⟨p₁, hp₁, hmax⟩ := T.exists_max_image id hT
    obtain ⟨h₁, hle⟩ := Finset.mem_filter.mp hp₁
    let U := (spreadLevels bids asks).filter (fun q => p₁ < q)
    by_cases hU : U.Nonempty
    · obtain ⟨p₂, hp₂, hmin⟩ := U.exists_min_image id hU
      obtain ⟨h₂, hlt⟩ := Finset.mem_filter.mp hp₂
      have hgt : demand bids p₂ < supply asks p₂ := by
        by_contra hc
        exact absurd (hmax p₂ (Finset.mem_filter.mpr ⟨h₂, not_lt.mp hc⟩)) (not_le.mpr hlt)
      have hnext : ∀ r ∈ spreadLevels bids asks, p₁ < r → p₂ ≤ r := fun r hr h =>
        hmin r (Finset.mem_filter.mpr ⟨hr, h⟩)
      obtain ⟨q, rfl | rfl, hq⟩ := optimal_of_neighbours h₁ h₂ hlt hnext hle hgt
      · exact ⟨q, h₁, hq⟩
      · exact ⟨q, h₂, hq⟩
    · refine ⟨p₁, h₁, optimal_of_greatest h₁ (fun r hr => ?_) hle⟩
      by_contra hc
      exact hU ⟨r, Finset.mem_filter.mpr ⟨hr, not_le.mp hc⟩⟩
  · obtain ⟨m, hm, hmin⟩ := (spreadLevels bids asks).exists_min_image id hne
    refine ⟨m, hm, optimal_of_least hm hmin ?_⟩
    by_contra hc
    exact hT ⟨m, Finset.mem_filter.mpr ⟨hm, not_lt.mp hc⟩⟩

/-! ## The auction price -/

/-- How far the better orders of the two sides are from balancing at `p`. -/
def imbalance (bids asks : List (P × ℕ)) (p : P) : ℤ :=
  |(demandAbove bids p : ℤ) - supplyBelow asks p|

/-- `p` is the price of a bid. -/
def IsBidLevel (bids : List (P × ℕ)) (p : P) : Prop := ∃ x ∈ bids, x.1 = p

/-- Which of two equally good prices comes first: bid levels before others, the highest bid
level and the lowest other. -/
def Precedes (bids : List (P × ℕ)) (q p : P) : Prop :=
  (IsBidLevel bids q ∧ (IsBidLevel bids p → p ≤ q)) ∨
    (¬ IsBidLevel bids q ∧ ¬ IsBidLevel bids p ∧ q ≤ p)

/-- An admissible level of the spread. -/
structure IsCandidate (bids asks : List (P × ℕ)) (p : P) : Prop where
  level : IsLevel bids asks p
  spread : InSpread bids asks p
  admissible : Admissible bids asks p

/-- The price of the auction: among the candidates one with the largest volume, of these one
with the smallest imbalance, and of these the first. -/
structure IsAuctionPrice (bids asks : List (P × ℕ)) (q : P) : Prop where
  candidate : IsCandidate bids asks q
  volume : ∀ p, IsCandidate bids asks p → executable bids asks p ≤ executable bids asks q
  balance : ∀ p, IsCandidate bids asks p → executable bids asks p = executable bids asks q →
    imbalance bids asks q ≤ imbalance bids asks p
  first : ∀ p, IsCandidate bids asks p → executable bids asks p = executable bids asks q →
    imbalance bids asks p = imbalance bids asks q → Precedes bids q p

theorem Precedes.antisymm (h : Precedes bids q p) (h' : Precedes bids p q) : q = p := by
  rcases h with ⟨hq, hp⟩ | ⟨hq, hp, hle⟩
  · rcases h' with ⟨hp', hq'⟩ | ⟨-, hnot, -⟩
    · exact le_antisymm (hq' hq) (hp hp')
    · exact absurd hq hnot
  · rcases h' with ⟨hp', -⟩ | ⟨-, -, hle'⟩
    · exact absurd hp' hp
    · exact le_antisymm hle hle'

/-- **There is one auction price.** -/
theorem IsAuctionPrice.unique (h : IsAuctionPrice bids asks q) (h' : IsAuctionPrice bids asks p) :
    q = p := by
  have hvol : executable bids asks p = executable bids asks q :=
    le_antisymm (h.volume p h'.candidate) (h'.volume q h.candidate)
  have hbal : imbalance bids asks p = imbalance bids asks q :=
    le_antisymm (h'.balance q h.candidate hvol.symm) (h.balance p h'.candidate hvol)
  exact (h.first p h'.candidate hvol hbal).antisymm
    (h'.first q h.candidate hvol.symm hbal.symm)

/-- Between an ask and a bid that reaches it the book is crossed. -/
theorem InSpread.crossed (h : InSpread bids asks p) : Crossed bids asks := by
  obtain ⟨⟨a, ha, hap⟩, b, hb, hpb⟩ := h
  exact ⟨b, hb, a, ha, le_trans hap hpb⟩

/-- **No price at all has a larger volume** than the auction price. -/
theorem IsAuctionPrice.executable_le (h : IsAuctionPrice bids asks q) (p : P) :
    executable bids asks p ≤ executable bids asks q := by
  obtain ⟨r, hl, hs, had, hmax⟩ := exists_admissible_optimal h.candidate.spread.crossed
  exact le_trans (hmax p) (h.volume r ⟨hl, hs, had⟩)

/-- The auction price depends on the candidates, their volumes and imbalances, and on which of
them are bid levels. -/
theorem IsAuctionPrice.congr {bids' asks' : List (P × ℕ)}
    (hcand : ∀ p, IsCandidate bids asks p ↔ IsCandidate bids' asks' p)
    (hvol : ∀ p, executable bids asks p = executable bids' asks' p)
    (hbal : ∀ p, imbalance bids asks p = imbalance bids' asks' p)
    (hlevel : ∀ p, IsBidLevel bids p ↔ IsBidLevel bids' p) (h : IsAuctionPrice bids asks q) :
    IsAuctionPrice bids' asks' q := by
  constructor
  case candidate => exact (hcand q).mp h.candidate
  case volume =>
    intro p hp
    rw [← hvol, ← hvol]
    exact h.volume p ((hcand p).mpr hp)
  case balance =>
    intro p hp heq
    rw [← hvol, ← hvol] at heq
    rw [← hbal, ← hbal]
    exact h.balance p ((hcand p).mpr hp) heq
  case first =>
    intro p hp heq heq'
    rw [← hvol, ← hvol] at heq
    rw [← hbal, ← hbal] at heq'
    rw [Precedes, ← hlevel, ← hlevel]
    exact h.first p ((hcand p).mpr hp) heq heq'

/-! ## What a volume leaves -/

/-- What is left of the bids at `p` when a volume has been taken from the best bids on. -/
def bidLeft (bids : List (P × ℕ)) (volume : ℕ) (p : P) : ℕ :=
  min (mass bids (· = p)) (demand bids p - volume)

/-- What is left of the asks at `p` when a volume has been taken from the best asks on. -/
def askLeft (asks : List (P × ℕ)) (volume : ℕ) (p : P) : ℕ :=
  min (mass asks (· = p)) (supply asks p - volume)

/-- A volume short of the supply up to some price leaves something at an ask price. -/
theorem exists_askLeft_pos {volume : ℕ} (hpos : ∀ x ∈ asks, 0 < x.2)
    (h : volume < supply asks p) : ∃ x ∈ asks, 0 < askLeft asks volume x.1 := by
  let below := (asks.map Prod.fst).toFinset.filter (· ≤ p)
  have hmem : ∀ x ∈ asks, x.1 ≤ p → x.1 ∈ below := fun x hx hle =>
    Finset.mem_filter.mpr ⟨List.mem_toFinset.mpr (List.mem_map_of_mem hx), hle⟩
  have hne : below.Nonempty := by
    by_contra hempty
    have hzero : supply asks p = 0 :=
      mass_eq_zero fun x hx hle => hempty ⟨x.1, hmem x hx hle⟩
    omega
  -- at the highest ask up to `p` the supply is that at `p`
  obtain ⟨q, hq, hmax⟩ := below.exists_max_image id hne
  obtain ⟨hkey, hqp⟩ := Finset.mem_filter.mp hq
  obtain ⟨x, hx, rfl⟩ := List.mem_map.mp (List.mem_toFinset.mp hkey)
  have hsupply : supply asks x.1 = supply asks p :=
    mass_congr fun y hy => ⟨fun hle => le_trans hle hqp, fun hle => hmax _ (hmem y hy hle)⟩
  have hmass : 0 < mass asks (· = x.1) := mass_pos hx rfl (hpos x hx)
  refine ⟨x, hx, ?_⟩
  rw [askLeft]
  omega

/-- Something is left at `p`, and at fewer than `n` better prices. -/
def AmongBest (n : ℕ) (better : P → P → Prop) [DecidableRel better] (lots : List (P × ℕ))
    (left : P → ℕ) (p : P) : Prop :=
  0 < left p ∧
    (((lots.map Prod.fst).toFinset.filter fun p' => better p' p ∧ 0 < left p').card < n)

/-! ## Lots that arrive -/

variable {newBids newAsks : List (P × ℕ)}

/-- Without a bid that reaches an ask no price trades anything. -/
theorem executable_of_not_crossed (hx : ¬ Crossed bids asks) (p : P) :
    executable bids asks p = 0 := by
  by_cases hask : ∃ a ∈ asks, a.1 ≤ p
  · obtain ⟨a, ha, hap⟩ := hask
    have hdemand : demand bids p = 0 :=
      mass_eq_zero fun b hb hpb => hx ⟨b, hb, a, ha, le_trans hap hpb⟩
    rw [executable, hdemand, Nat.zero_min]
  · have hsupply : supply asks p = 0 := mass_eq_zero fun a ha hap => hask ⟨a, ha, hap⟩
    rw [executable, hsupply, Nat.min_zero]

/-- A crossed book stays crossed. -/
theorem Crossed.append_left (h : Crossed bids asks) : Crossed (bids ++ newBids) asks := by
  obtain ⟨b, hb, hcross⟩ := h
  exact ⟨b, List.mem_append_left _ hb, hcross⟩

theorem Crossed.append_right (h : Crossed bids asks) : Crossed bids (asks ++ newAsks) := by
  obtain ⟨b, hb, a, ha, hab⟩ := h
  exact ⟨b, hb, a, List.mem_append_left _ ha, hab⟩

/-- Lots that arrive take no volume away. -/
theorem executable_le_append (p : P) :
    executable bids asks p ≤ executable (bids ++ newBids) (asks ++ newAsks) p := by
  rw [executable, executable, demand, demand, supply, supply, mass_append, mass_append]
  exact min_le_min (Nat.le_add_right _ _) (Nat.le_add_right _ _)

/-- Lots that arrive add no more volume than the heavier side of them. -/
theorem executable_append_le (p : P) :
    executable (bids ++ newBids) (asks ++ newAsks) p
      ≤ executable bids asks p + max (demand newBids p) (supply newAsks p) := by
  have hdemand : demand (bids ++ newBids) p = demand bids p + demand newBids p := mass_append ..
  have hsupply : supply (asks ++ newAsks) p = supply asks p + supply newAsks p := mass_append ..
  rw [executable, executable, hdemand, hsupply, ← min_add_add_right]
  exact min_le_min (Nat.add_le_add_left (le_max_left _ _) _)
    (Nat.add_le_add_left (le_max_right _ _) _)

/-! ### Prices that the new lots do not reach -/

/-- Two books agree at a price on what the auction compares. -/
structure AgreeAt (bids asks bids' asks' : List (P × ℕ)) (p : P) : Prop where
  candidate : IsCandidate bids asks p ↔ IsCandidate bids' asks' p
  volume : executable bids asks p = executable bids' asks' p
  balance : imbalance bids asks p = imbalance bids' asks' p
  bidLevel : IsBidLevel bids p ↔ IsBidLevel bids' p

omit [LinearOrder P] in
/-- Lots beyond a price are no level there. -/
theorem exists_append_iff {l m : List (P × ℕ)} (h : ∀ x ∈ m, x.1 ≠ p) :
    (∃ x ∈ l ++ m, x.1 = p) ↔ ∃ x ∈ l, x.1 = p := by
  constructor
  · rintro ⟨x, hx, hp⟩
    rcases List.mem_append.mp hx with hold | hnew
    · exact ⟨x, hold, hp⟩
    · exact absurd hp (h x hnew)
  · rintro ⟨x, hx, hp⟩
    exact ⟨x, List.mem_append_left _ hx, hp⟩

/-- **New bids below a price and new asks above it** change nothing there. -/
theorem agreeAt_append (hb : ∀ b ∈ newBids, b.1 < p) (ha : ∀ a ∈ newAsks, p < a.1) :
    AgreeAt bids asks (bids ++ newBids) (asks ++ newAsks) p := by
  have hdemand : demand (bids ++ newBids) p = demand bids p :=
    mass_append_of_forall fun b h => not_le.mpr (hb b h)
  have habove : demandAbove (bids ++ newBids) p = demandAbove bids p :=
    mass_append_of_forall fun b h => lt_asymm (hb b h)
  have hsupply : supply (asks ++ newAsks) p = supply asks p :=
    mass_append_of_forall fun a h => not_le.mpr (ha a h)
  have hbelow : supplyBelow (asks ++ newAsks) p = supplyBelow asks p :=
    mass_append_of_forall fun a h => lt_asymm (ha a h)
  have hbid : IsBidLevel (bids ++ newBids) p ↔ IsBidLevel bids p :=
    exists_append_iff fun b h => (hb b h).ne
  have hask : (∃ a ∈ asks ++ newAsks, a.1 = p) ↔ ∃ a ∈ asks, a.1 = p :=
    exists_append_iff fun a h => (ha a h).ne'
  have hlevel : IsLevel (bids ++ newBids) (asks ++ newAsks) p ↔ IsLevel bids asks p := by
    have hsplit : ∀ l m : List (P × ℕ),
        IsLevel l m p ↔ IsBidLevel l p ∨ ∃ a ∈ m, a.1 = p := by
      intro l m
      simp only [IsLevel, IsBidLevel, List.mem_append, or_and_right, exists_or]
    rw [hsplit, hsplit, hbid, hask]
  have hspread : InSpread (bids ++ newBids) (asks ++ newAsks) p ↔ InSpread bids asks p := by
    constructor
    · rintro ⟨⟨a, hmem, hap⟩, b, hmem', hpb⟩
      refine ⟨⟨a, ?_, hap⟩, b, ?_, hpb⟩
      · exact (List.mem_append.mp hmem).resolve_right fun h => not_le.mpr (ha a h) hap
      · exact (List.mem_append.mp hmem').resolve_right fun h => not_le.mpr (hb b h) hpb
    · rintro ⟨⟨a, hmem, hap⟩, b, hmem', hpb⟩
      exact ⟨⟨a, List.mem_append_left _ hmem, hap⟩, b, List.mem_append_left _ hmem', hpb⟩
  have hadmissible : Admissible (bids ++ newBids) (asks ++ newAsks) p ↔ Admissible bids asks p := by
    rw [Admissible, Admissible, hdemand, habove, hsupply, hbelow]
  refine ⟨⟨?_, ?_⟩, ?_, ?_, hbid.symm⟩
  · rintro ⟨hl, hs, had⟩
    exact ⟨hlevel.mpr hl, hspread.mpr hs, hadmissible.mpr had⟩
  · rintro ⟨hl, hs, had⟩
    exact ⟨hlevel.mp hl, hspread.mp hs, hadmissible.mp had⟩
  · rw [executable, executable, hdemand, hsupply]
  · rw [imbalance, imbalance, habove, hbelow]

/-- Two books that agree at the auction price of each have the same one. -/
theorem IsAuctionPrice.eq_of_agreeAt {bids' asks' : List (P × ℕ)}
    (h : IsAuctionPrice bids asks q) (h' : IsAuctionPrice bids' asks' p)
    (hq : AgreeAt bids asks bids' asks' q) (hp : AgreeAt bids asks bids' asks' p) : q = p := by
  have hq' : IsCandidate bids' asks' q := hq.candidate.mp h.candidate
  have hp' : IsCandidate bids asks p := hp.candidate.mpr h'.candidate
  have hvol : executable bids asks p = executable bids asks q := by
    refine le_antisymm (h.volume p hp') ?_
    rw [hp.volume, hq.volume]
    exact h'.volume q hq'
  have hvol' : executable bids' asks' q = executable bids' asks' p := by
    rw [← hp.volume, ← hq.volume, hvol]
  have hbal : imbalance bids asks p = imbalance bids asks q := by
    refine le_antisymm ?_ (h.balance p hp' hvol)
    rw [hp.balance, hq.balance]
    exact h'.balance q hq' hvol'
  have hfirst : Precedes bids p q := by
    have hfirst := h'.first q hq' hvol' (by rw [← hp.balance, ← hq.balance, hbal])
    rwa [Precedes, ← hp.bidLevel, ← hq.bidLevel] at hfirst
  exact (h.first p hp' hvol hbal).antisymm hfirst

/-! ### New lots on one side -/

/-- **New bids do not lower the price**, unless it falls onto the best of them: a lower price
serves the orders that are better than it only if all new bids are at it or below. -/
theorem IsAuctionPrice.le_or_newBid (h : IsAuctionPrice bids asks q)
    (h' : IsAuctionPrice (bids ++ newBids) asks p) (hpos : ∀ b ∈ newBids, 0 < b.2) :
    q ≤ p ∨ (∃ b ∈ newBids, b.1 = p) ∧ ∀ b ∈ newBids, b.1 ≤ p := by
  rcases le_or_gt q p with hle | hlt
  · exact Or.inl hle
  have hle : ∀ b ∈ newBids, b.1 ≤ p := by
    intro b hb
    by_contra hnot
    have hnew : 0 < demandAbove newBids p := mass_pos hb (not_le.mp hnot) (hpos b hb)
    have hsplit : demandAbove (bids ++ newBids) p = demandAbove bids p + demandAbove newBids p :=
      mass_append ..
    have hserved := h'.candidate.admissible.1
    have hsupply : supply asks p ≤ supplyBelow asks q := supply_le_supplyBelow hlt
    have hfilled := h.candidate.admissible.2
    have hdemand : demand bids q ≤ demandAbove bids p := demand_le_demandAbove hlt
    omega
  refine Or.inr ⟨?_, hle⟩
  by_contra hnone
  -- no new bid reaches either price, so nothing has changed between the two
  have hbelow : ∀ b ∈ newBids, b.1 < p :=
    fun b hb => lt_of_le_of_ne (hle b hb) fun heq => hnone ⟨b, hb, heq⟩
  have hask : ∀ r : P, ∀ a ∈ ([] : List (P × ℕ)), r < a.1 :=
    fun _ _ ha => absurd ha List.not_mem_nil
  have hagree : ∀ r, p ≤ r → AgreeAt bids asks (bids ++ newBids) asks r := by
    intro r hr
    have hr := @agreeAt_append P _ bids asks r newBids []
      (fun b hb => (hbelow b hb).trans_le hr) (hask r)
    rwa [List.append_nil] at hr
  exact hlt.ne (h.eq_of_agreeAt h' (hagree q hlt.le) (hagree p le_rfl)).symm

/-- **New asks do not raise the price**, unless it rises onto the best of them. -/
theorem IsAuctionPrice.ge_or_newAsk (h : IsAuctionPrice bids asks q)
    (h' : IsAuctionPrice bids (asks ++ newAsks) p) (hpos : ∀ a ∈ newAsks, 0 < a.2) :
    p ≤ q ∨ (∃ a ∈ newAsks, a.1 = p) ∧ ∀ a ∈ newAsks, p ≤ a.1 := by
  rcases le_or_gt p q with hle | hlt
  · exact Or.inl hle
  have hle : ∀ a ∈ newAsks, p ≤ a.1 := by
    intro a ha
    by_contra hnot
    have hnew : 0 < supplyBelow newAsks p := mass_pos ha (not_le.mp hnot) (hpos a ha)
    have hsplit : supplyBelow (asks ++ newAsks) p = supplyBelow asks p + supplyBelow newAsks p :=
      mass_append ..
    have hserved := h'.candidate.admissible.2
    have hdemand : demand bids p ≤ demandAbove bids q := demand_le_demandAbove hlt
    have hfilled := h.candidate.admissible.1
    have hsupply : supply asks q ≤ supplyBelow asks p := supply_le_supplyBelow hlt
    omega
  refine Or.inr ⟨?_, hle⟩
  by_contra hnone
  have habove : ∀ a ∈ newAsks, p < a.1 :=
    fun a ha => lt_of_le_of_ne (hle a ha) fun heq => hnone ⟨a, ha, heq.symm⟩
  have hbid : ∀ r : P, ∀ b ∈ ([] : List (P × ℕ)), b.1 < r :=
    fun _ _ hb => absurd hb List.not_mem_nil
  have hagree : ∀ r, r ≤ p → AgreeAt bids asks bids (asks ++ newAsks) r := by
    intro r hr
    have hr := @agreeAt_append P _ bids asks r [] newAsks (hbid r)
      fun a ha => hr.trans_lt (habove a ha)
    rwa [List.append_nil] at hr
  exact hlt.ne (h.eq_of_agreeAt h' (hagree q hlt.le) (hagree p le_rfl))

/-! ### New lots that meet nothing -/

/-- The lots that arrive meet nothing: each bid is below all asks, each ask above all bids. -/
structure Passive (bids asks newBids newAsks : List (P × ℕ)) : Prop where
  bid : ∀ b ∈ newBids, ∀ a ∈ asks ++ newAsks, b.1 < a.1
  ask : ∀ a ∈ newAsks, ∀ b ∈ bids ++ newBids, b.1 < a.1

/-- They do not reach the spread. -/
theorem Passive.agreeAt (h : Passive bids asks newBids newAsks) (hs : InSpread bids asks p) :
    AgreeAt bids asks (bids ++ newBids) (asks ++ newAsks) p := by
  obtain ⟨⟨a, ha, hap⟩, b, hb, hpb⟩ := hs
  refine agreeAt_append (fun b' hb' => ?_) fun a' ha' => ?_
  · exact lt_of_lt_of_le (h.bid b' hb' a (List.mem_append_left _ ha)) hap
  · exact lt_of_le_of_lt hpb (h.ask a' ha' b (List.mem_append_left _ hb))

/-- The spread stays where it is. -/
theorem Passive.inSpread_iff (h : Passive bids asks newBids newAsks) (p : P) :
    InSpread (bids ++ newBids) (asks ++ newAsks) p ↔ InSpread bids asks p := by
  constructor
  · rintro ⟨⟨a, ha, hap⟩, b, hb, hpb⟩
    have hab := le_trans hap hpb
    rcases List.mem_append.mp hb with hold | hnew
    · rcases List.mem_append.mp ha with hold' | hnew'
      · exact ⟨⟨a, hold', hap⟩, b, hold, hpb⟩
      · exact absurd hab (not_le.mpr (h.ask a hnew' b hb))
    · exact absurd hab (not_le.mpr (h.bid b hnew a ha))
  · rintro ⟨⟨a, ha, hap⟩, b, hb, hpb⟩
    exact ⟨⟨a, List.mem_append_left _ ha, hap⟩, b, List.mem_append_left _ hb, hpb⟩

/-- **Lots that meet nothing leave the auction price as it is.** -/
theorem Passive.isAuctionPrice (h : Passive bids asks newBids newAsks)
    (hq : IsAuctionPrice bids asks q) :
    IsAuctionPrice (bids ++ newBids) (asks ++ newAsks) q := by
  have hagree := h.agreeAt hq.candidate.spread
  have hcand : ∀ p, IsCandidate (bids ++ newBids) (asks ++ newAsks) p →
      IsCandidate bids asks p ∧ AgreeAt bids asks (bids ++ newBids) (asks ++ newAsks) p := by
    intro p hp
    have hp' := h.agreeAt ((h.inSpread_iff p).mp hp.spread)
    exact ⟨hp'.candidate.mpr hp, hp'⟩
  constructor
  case candidate => exact hagree.candidate.mp hq.candidate
  case volume =>
    intro p hp
    obtain ⟨hp, hp'⟩ := hcand p hp
    rw [← hp'.volume, ← hagree.volume]
    exact hq.volume p hp
  case balance =>
    intro p hp heq
    obtain ⟨hp, hp'⟩ := hcand p hp
    rw [← hp'.volume, ← hagree.volume] at heq
    rw [← hp'.balance, ← hagree.balance]
    exact hq.balance p hp heq
  case first =>
    intro p hp heq heq'
    obtain ⟨hp, hp'⟩ := hcand p hp
    rw [← hp'.volume, ← hagree.volume] at heq
    rw [← hp'.balance, ← hagree.balance] at heq'
    rw [Precedes, ← hp'.bidLevel, ← hagree.bidLevel]
    exact hq.first p hp heq heq'

theorem Passive.crossed_iff (h : Passive bids asks newBids newAsks) :
    Crossed (bids ++ newBids) (asks ++ newAsks) ↔ Crossed bids asks := by
  constructor
  · rintro ⟨b, hb, a, ha, hab⟩
    obtain ⟨⟨a', ha', hab'⟩, b', hb', hbb'⟩ :=
      (h.inSpread_iff b.1).mp ⟨⟨a, ha, hab⟩, b, hb, le_refl _⟩
    exact ⟨b', hb', a', ha', le_trans hab' hbb'⟩
  · exact fun hx => hx.append_left.append_right

end Curves

end CallAuction
