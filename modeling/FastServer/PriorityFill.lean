/-
# Filling a queue of lots from the front

Lots stand in a queue, best price first, and a volume `M` is taken from the
front.  What a lot, or all lots at one price, receive is the overlap of `[0, M)`
with the interval the lot, or the price, occupies in the queue.
-/
import FastServer.CallAuction

namespace PriorityFill

open CallAuction

variable {P : Type*}

/-! ## Running totals -/

/-- Total quantity of the first `k` lots. -/
def cum (l : List (P × ℕ)) (k : ℕ) : ℕ := ((l.take k).map Prod.snd).sum

@[simp] theorem cum_zero (l : List (P × ℕ)) : cum l 0 = 0 := by simp [cum]

@[simp] theorem cum_cons_succ (x : P × ℕ) (l : List (P × ℕ)) (k : ℕ) :
    cum (x :: l) (k + 1) = x.2 + cum l k := by simp [cum]

theorem cum_succ {l : List (P × ℕ)} {k : ℕ} (hk : k < l.length) :
    cum l (k + 1) = cum l k + l[k].2 := by
  unfold cum
  rw [List.take_add_one, List.getElem?_eq_getElem hk, List.map_append, List.sum_append]
  rfl

theorem cum_mono (l : List (P × ℕ)) {i j : ℕ} (h : i ≤ j) : cum l i ≤ cum l j := by
  unfold cum
  exact List.Sublist.sum_le_sum
    ((List.take_sublist_take_left h).map Prod.snd) (fun _ _ => Nat.zero_le _)

theorem cum_length (l : List (P × ℕ)) : cum l l.length = (l.map Prod.snd).sum := by
  simp [cum]

/-! ## Queues in price priority -/

/-- Best price first: no lot stands behind a lot with a worse price. -/
def Prioritised (lt : P → P → Prop) (l : List (P × ℕ)) : Prop :=
  l.Pairwise (fun x y => ¬ lt y.1 x.1)

/-- A price at least as good as one in `s` is in `s`. -/
def BetterClosed (lt : P → P → Prop) (s : P → Prop) : Prop :=
  ∀ x y, s y → ¬ lt y x → s x

section Mass

variable {lt : P → P → Prop} {s : P → Prop} [DecidablePred s] {l : List (P × ℕ)}

/-- If all lots satisfy the predicate, the mass is the total. -/
theorem mass_eq_sum (h : ∀ x ∈ l, s x.1) : mass l s = (l.map Prod.snd).sum := by
  unfold mass
  rw [List.filter_eq_self.mpr (by simpa using h)]

/-- The mass never exceeds the total. -/
theorem mass_le_sum : mass l s ≤ (l.map Prod.snd).sum := by
  have h : mass l s ≤ mass l (fun _ => True) := mass_le_mass fun _ _ _ => trivial
  rwa [mass_eq_sum (s := fun _ => True) fun _ _ => trivial] at h

/-- A lot inside a better-closed set has everything before it inside too. -/
theorem cum_succ_le_mass (hl : Prioritised lt l) (hs : BetterClosed lt s) {k : ℕ}
    (hk : k < l.length) (h : s l[k].1) : cum l (k + 1) ≤ mass l s := by
  induction l generalizing k with
  | nil => simp at hk
  | cons x l ih =>
      obtain ⟨hx, hl⟩ := List.pairwise_cons.mp hl
      rw [cum_cons_succ, mass_cons]
      cases k with
      | zero =>
          rw [if_pos (by simpa using h)]
          simp
      | succ k =>
          have hk' : k < l.length := by simpa using hk
          have hsk : s l[k].1 := by simpa using h
          have hsx : s x.1 := hs _ _ hsk (hx _ (List.getElem_mem hk'))
          rw [if_pos hsx]
          have := ih hl hk' hsk
          omega

/-- A lot outside a better-closed set has everything from it on outside too. -/
theorem mass_le_cum (hl : Prioritised lt l) (hs : BetterClosed lt s) {k : ℕ}
    (hk : k < l.length) (h : ¬ s l[k].1) : mass l s ≤ cum l k := by
  induction l generalizing k with
  | nil => simp at hk
  | cons x l ih =>
      obtain ⟨hx, hl⟩ := List.pairwise_cons.mp hl
      rw [mass_cons]
      cases k with
      | zero =>
          have hsx : ¬ s x.1 := by simpa using h
          have hnone : mass l s = 0 :=
            mass_eq_zero fun y hy hsy => hsx (hs _ _ hsy (hx y hy))
          rw [if_neg hsx, hnone, cum_zero]
      | succ k =>
          have hk' : k < l.length := by simpa using hk
          have := ih hl hk' (by simpa using h)
          rw [cum_cons_succ]
          split_ifs <;> omega

end Mass

/-! ## Overlap of the filled volume with an interval of the queue -/

/-- How much of `[0, M)` falls into `[lo, hi)`. -/
def overlap (lo hi M : ℕ) : ℕ := min hi M - min lo M

/-- Nothing is filled at the start. -/
@[simp] theorem overlap_zero (lo hi : ℕ) : overlap lo hi 0 = 0 := by simp [overlap]

/-- Volume taken inside the interval is credited to it. -/
theorem overlap_add_inside {lo hi M v : ℕ} (hlo : lo ≤ M) (hhi : M + v ≤ hi) :
    overlap lo hi (M + v) = overlap lo hi M + v := by
  unfold overlap
  omega

/-- Volume taken outside the interval is not. -/
theorem overlap_add_outside {lo hi M v : ℕ} (h : hi ≤ M ∨ M + v ≤ lo) :
    overlap lo hi (M + v) = overlap lo hi M := by
  unfold overlap
  omega

/-- An interval the volume has passed is full. -/
theorem overlap_of_le {lo hi M : ℕ} (hlo : lo ≤ hi) (h : hi ≤ M) : overlap lo hi M = hi - lo := by
  unfold overlap
  omega

/-- An interval the volume has not reached is empty. -/
theorem overlap_of_ge {lo hi M : ℕ} (h : M ≤ lo) : overlap lo hi M = 0 := by
  unfold overlap
  omega

/-! ## Who is filled -/

section Credit

variable {l : List (P × ℕ)} {k M v : ℕ}

/-- The running total never grows past the last lot. -/
theorem cum_le_sum (l : List (P × ℕ)) (k : ℕ) : cum l k ≤ (l.map Prod.snd).sum := by
  rw [← cum_length]
  rcases le_total k l.length with h | h
  · exact cum_mono l h
  · unfold cum
    rw [List.take_of_length_le h, List.take_of_length_le le_rfl]

/-- **Credit by position.**  Volume taken within lot `k` is credited to lot `k`
alone. -/
theorem overlap_cum_add (hlo : cum l k ≤ M) (hhi : M + v ≤ cum l (k + 1)) (i : ℕ) :
    overlap (cum l i) (cum l (i + 1)) (M + v)
      = overlap (cum l i) (cum l (i + 1)) M + if k = i then v else 0 := by
  rcases lt_trichotomy i k with h | h | h
  · have hle : cum l (i + 1) ≤ cum l k := cum_mono l h
    rw [if_neg (by omega), overlap_add_outside (Or.inl (by omega)), add_zero]
  · subst h
    rw [if_pos rfl, overlap_add_inside hlo hhi]
  · have hle : cum l (k + 1) ≤ cum l i := cum_mono l h
    rw [if_neg (by omega), overlap_add_outside (Or.inr (by omega)), add_zero]

/-- The quantity at prices better than `p`. -/
def ahead (lt : P → P → Prop) [DecidableRel lt] (l : List (P × ℕ)) (p : P) : ℕ :=
  mass l (fun x => lt x p)

/-- The quantity at prices at least as good as `p`. -/
def upTo (lt : P → P → Prop) [DecidableRel lt] (l : List (P × ℕ)) (p : P) : ℕ :=
  mass l (fun x => ¬ lt p x)

variable {lt : P → P → Prop} [IsStrictTotalOrder P lt]

theorem betterClosed_ahead (p : P) : BetterClosed lt (fun x => lt x p) := by
  intro x y hy hyx
  rcases trichotomous_of lt x y with h | rfl | h
  · exact trans_of lt h hy
  · exact hy
  · exact absurd h hyx

theorem betterClosed_upTo (p : P) : BetterClosed lt (fun x => ¬ lt p x) := by
  intro x y hy hyx hpx
  rcases trichotomous_of lt x y with h | rfl | h
  · exact hy (trans_of lt hpx h)
  · exact hy hpx
  · exact hyx h

variable [DecidableRel lt]

theorem ahead_le_upTo (lt : P → P → Prop) [DecidableRel lt] [IsStrictTotalOrder P lt]
    (l : List (P × ℕ)) (p : P) : ahead lt l p ≤ upTo lt l p :=
  mass_le_mass fun _ _ h => asymm_of lt h

/-- The quantity at a price is what separates the two. -/
theorem upTo_eq_add [DecidableEq P] (lt : P → P → Prop) [DecidableRel lt]
    [IsStrictTotalOrder P lt] (l : List (P × ℕ)) (p : P) :
    upTo lt l p = ahead lt l p + mass l (· = p) := by
  apply mass_or
  · intro x _
    constructor
    · intro h
      rcases trichotomous_of lt x.1 p with h' | h' | h'
      · exact Or.inl h'
      · exact Or.inr h'
      · exact absurd h' h
    · rintro (h | h)
      · exact asymm_of lt h
      · exact h ▸ irrefl_of lt x.1
  · rintro x _ ⟨h, rfl⟩
    exact irrefl_of lt _ h

/-- What is at least as good as a price is better than any worse price. -/
theorem upTo_le_ahead {p q : P} (h : lt p q) : upTo lt l p ≤ ahead lt l q := by
  apply mass_le_mass
  intro x _ hx
  rcases trichotomous_of lt x.1 p with h' | h' | h'
  · exact trans_of lt h' h
  · exact h' ▸ h
  · exact absurd h' hx

/-- Everything up to a lot's price has been queued when the lot is passed. -/
theorem cum_succ_le_ahead (hl : Prioritised lt l) (hk : k < l.length) {p : P}
    (h : lt l[k].1 p) : cum l (k + 1) ≤ ahead lt l p :=
  cum_succ_le_mass hl (betterClosed_ahead p) hk h

theorem cum_succ_le_upTo (hl : Prioritised lt l) (hk : k < l.length) {p : P}
    (h : ¬ lt p l[k].1) : cum l (k + 1) ≤ upTo lt l p :=
  cum_succ_le_mass hl (betterClosed_upTo p) hk h

/-- Nothing queued before a lot has a worse price. -/
theorem ahead_le_cum (hl : Prioritised lt l) (hk : k < l.length) {p : P}
    (h : ¬ lt l[k].1 p) : ahead lt l p ≤ cum l k :=
  mass_le_cum hl (betterClosed_ahead p) hk h

theorem upTo_le_cum (hl : Prioritised lt l) (hk : k < l.length) {p : P}
    (h : lt p l[k].1) : upTo lt l p ≤ cum l k :=
  mass_le_cum hl (betterClosed_upTo p) hk (not_not.mpr h)

/-- **Credit by price.**  Volume taken within lot `k` is credited to the price of
lot `k` alone. -/
theorem overlap_price_add [DecidableEq P] (hl : Prioritised lt l) (hk : k < l.length)
    (hlo : cum l k ≤ M) (hhi : M + v ≤ cum l (k + 1)) (p : P) :
    overlap (ahead lt l p) (upTo lt l p) (M + v)
      = overlap (ahead lt l p) (upTo lt l p) M + if l[k].1 = p then v else 0 := by
  by_cases hp : l[k].1 = p
  · have hle : cum l (k + 1) ≤ upTo lt l p := cum_succ_le_upTo hl hk (hp ▸ irrefl_of lt p)
    have hge : ahead lt l p ≤ cum l k := ahead_le_cum hl hk (hp ▸ irrefl_of lt p)
    rw [if_pos hp, overlap_add_inside (le_trans hge hlo) (le_trans hhi hle)]
  · rw [if_neg hp, add_zero]
    apply overlap_add_outside
    rcases trichotomous_of lt l[k].1 p with h | h | h
    · exact Or.inr (le_trans hhi (cum_succ_le_ahead hl hk h))
    · exact absurd h hp
    · exact Or.inl (le_trans (upTo_le_cum hl hk h) hlo)

end Credit

end PriorityFill
