/-
# Sums that are reduced at each step

A sum of integers whose remainder is taken after each summand, by a division that rounds
towards zero.  The result has the sign of where the partial sums came from: it is the sum less
the last multiple of the modulus that the partial sums reached or crossed.
-/
import Mathlib

namespace RunningRemainder

/-- The remainder after all steps. -/
def remainder (m : ℤ) (steps : List ℤ) : ℤ := steps.foldl (fun r c => (r + c).tmod m) 0

/-- The partial sums are at `m * q` or below it once, and from there on below the next
multiple. -/
def EndsBelow (m q : ℤ) (steps : List ℤ) : Prop :=
  ∃ k ≤ steps.length, (steps.take k).sum ≤ m * q ∧
    ∀ j, k ≤ j → j ≤ steps.length → (steps.take j).sum < m * (q + 1)

instance (m q : ℤ) (steps : List ℤ) : Decidable (EndsBelow m q steps) :=
  inferInstanceAs (Decidable (∃ k ≤ steps.length, _ ∧ _))

variable {m q : ℤ} {steps : List ℤ}

theorem remainder_concat (c : ℤ) :
    remainder m (steps ++ [c]) = (remainder m steps + c).tmod m := by
  rw [remainder, List.foldl_concat, ← remainder]

/-- A dividend of less than twice the modulus. -/
theorem tmod_cases {x : ℤ} (hlow : -(2 * m) < x) (hhigh : x < 2 * m) :
    (m ≤ x ∧ x.tmod m = x - m) ∨ (x ≤ -m ∧ x.tmod m = x + m) ∨
      ((-m < x ∧ x < m) ∧ x.tmod m = x) := by
  have hsmall : ∀ {y : ℤ}, 0 ≤ y → y < 2 * m → m ≤ y ∧ y.tmod m = y - m ∨ y < m ∧ y.tmod m = y := by
    intro y hy hy'
    rcases le_or_gt m y with hle | hlt
    · refine Or.inl ⟨hle, ?_⟩
      rw [Int.tmod_eq_emod_of_nonneg hy, Int.emod_eq_sub_self_emod, Int.emod_eq_of_lt] <;> omega
    · exact Or.inr ⟨hlt, Int.tmod_eq_of_lt hy hlt⟩
  rcases le_or_gt 0 x with hpos | hneg
  · rcases hsmall hpos hhigh with h | h
    · exact Or.inl h
    · exact Or.inr (Or.inr ⟨⟨by omega, h.1⟩, h.2⟩)
  · have hmirror := hsmall (y := -x) (by omega) (by omega)
    rw [Int.neg_tmod] at hmirror
    omega

/-- One more step. -/
theorem endsBelow_concat (hm : 0 < m) (c : ℤ) : EndsBelow m q (steps ++ [c]) ↔
    (EndsBelow m q steps ∧ steps.sum + c < m * (q + 1)) ∨ steps.sum + c ≤ m * q := by
  have hlength : (steps ++ [c]).length = steps.length + 1 := by
    rw [List.length_append, List.length_singleton]
  have hbefore : ∀ {k}, k ≤ steps.length → (steps ++ [c]).take k = steps.take k :=
    fun hk => List.take_append_of_le_length hk
  have hwhole : ((steps ++ [c]).take (steps.length + 1)).sum = steps.sum + c := by
    rw [← hlength, List.take_length, List.sum_append, List.sum_singleton]
  have hnext : m * (q + 1) = m * q + m := mul_add_one m q
  constructor
  · rintro ⟨k, hk, hat, hafter⟩
    rw [hlength] at hk hafter
    rcases Nat.lt_or_ge steps.length k with hlast | hle
    · obtain rfl : k = steps.length + 1 := by omega
      rw [hwhole] at hat
      exact Or.inr hat
    · refine Or.inl ⟨⟨k, hle, ?_, ?_⟩, ?_⟩
      · rwa [← hbefore hle]
      · intro j hj hj'
        rw [← hbefore hj']
        exact hafter j hj (by omega)
      · rw [← hwhole]
        exact hafter _ hk le_rfl
  · rintro (⟨⟨k, hk, hat, hafter⟩, hlast⟩ | hlast)
    · refine ⟨k, by omega, by rwa [hbefore hk], ?_⟩
      intro j hj hj'
      rcases Nat.lt_or_ge steps.length j with hend | hle
      · obtain rfl : j = steps.length + 1 := by omega
        rwa [hwhole]
      · rw [hbefore hle]
        exact hafter j hj hle
    · refine ⟨steps.length + 1, hlength.ge, by rwa [hwhole], ?_⟩
      intro j hj hj'
      obtain rfl : j = steps.length + 1 := by omega
      rw [hwhole]
      omega

/-- The next multiple `b'` is at a level or below it, if the one before was and the sum has not
reached the level above, or if the sum is at the level or below. -/
theorem le_iff_of_step (hm : 0 < m) {b b' s : ℤ} (hup : b' ≤ b ∨ b' = b + 1 ∧ m * b' ≤ s)
    (hdown : b ≤ b' ∨ s ≤ m * b') (hlow : m * b' - m < s) (hhigh : s < m * b' + m) :
    b' ≤ q ↔ (b ≤ q ∧ s < m * (q + 1)) ∨ s ≤ m * q := by
  have hnext : m * (q + 1) = m * q + m := mul_add_one m q
  rw [hnext]
  constructor
  · intro h
    have hle := mul_le_mul_of_nonneg_left h hm.le
    omega
  · intro h
    by_contra hlt
    have hle := mul_le_mul_of_nonneg_left (by omega : q + 1 ≤ b') hm.le
    omega

/-- **The last multiple that was reached.**  The remainder is below the modulus, and the sum
less the remainder is the multiple above which the partial sums have not come to an end. -/
theorem exists_multiple (hm : 0 < m) (hsteps : ∀ c ∈ steps, -m ≤ c ∧ c ≤ m) :
    ∃ b, steps.sum = m * b + remainder m steps ∧
      (-m < remainder m steps ∧ remainder m steps < m) ∧ ∀ q, b ≤ q ↔ EndsBelow m q steps := by
  induction steps using List.reverseRecOn with
  | nil =>
    refine ⟨0, ?_, ⟨?_, hm⟩, ?_⟩
    · rw [mul_zero]
      rfl
    · show -m < 0
      omega
    · intro q
      have hzero : m * 0 = 0 := mul_zero m
      constructor
      · intro h
        refine ⟨0, le_rfl, ?_, ?_⟩
        · exact hzero.ge.trans (mul_le_mul_of_nonneg_left h hm.le)
        · intro j _ _
          rw [List.take_nil, List.sum_nil]
          exact mul_pos hm (by omega)
      · rintro ⟨k, -, hat, -⟩
        rw [List.take_nil, List.sum_nil] at hat
        exact nonneg_of_mul_nonneg_right hat hm
  | append_singleton steps c ih =>
    obtain ⟨hinit, hc⟩ := List.forall_mem_append.mp hsteps
    obtain ⟨hlow, hhigh⟩ := hc c (List.mem_singleton_self c)
    obtain ⟨b, hsum, ⟨hr, hr'⟩, hbelow⟩ := ih hinit
    rw [remainder_concat, List.sum_append, List.sum_singleton]
    have hb : m * (b + 1) = m * b + m := mul_add_one m b
    have hb' : m * (b - 1) = m * b - m := mul_sub_one m b
    -- the multiple moves by one at most, as the partial sum reaches a neighbour or not
    rcases tmod_cases (x := remainder m steps + c) (m := m) (by omega) (by omega) with
      ⟨hcase, htmod⟩ | ⟨hcase, htmod⟩ | ⟨hcase, htmod⟩
    · refine ⟨b + 1, by omega, by omega, fun q => ?_⟩
      rw [endsBelow_concat hm, ← hbelow]
      exact le_iff_of_step hm (Or.inr ⟨rfl, by omega⟩) (Or.inl (by omega)) (by omega) (by omega)
    · refine ⟨b - 1, by omega, by omega, fun q => ?_⟩
      rw [endsBelow_concat hm, ← hbelow]
      exact le_iff_of_step hm (Or.inl (by omega)) (Or.inr (by omega)) (by omega) (by omega)
    · refine ⟨b, by omega, by omega, fun q => ?_⟩
      rw [endsBelow_concat hm, ← hbelow]
      exact le_iff_of_step hm (Or.inl le_rfl) (Or.inl le_rfl) (by omega) (by omega)

/-- **The sign of the remainder.** -/
theorem remainder_nonneg_iff (hm : 0 < m) (hsteps : ∀ c ∈ steps, -m ≤ c ∧ c ≤ m) :
    0 ≤ remainder m steps ↔ EndsBelow m (steps.sum / m) steps := by
  obtain ⟨b, hsum, -, hbelow⟩ := exists_multiple hm hsteps
  rw [← hbelow, Int.le_ediv_iff_mul_le hm, mul_comm]
  omega

/-- A remainder that is not negative is the one of the whole sum. -/
theorem remainder_eq_emod (hm : 0 < m) (hsteps : ∀ c ∈ steps, -m ≤ c ∧ c ≤ m)
    (h : 0 ≤ remainder m steps) : remainder m steps = steps.sum % m := by
  obtain ⟨b, hsum, ⟨-, hlt⟩, -⟩ := exists_multiple hm hsteps
  rw [hsum, Int.mul_add_emod_self_left, Int.emod_eq_of_lt h hlt]

/-- Steps that are not negative have no negative remainder. -/
theorem remainder_nonneg (h : ∀ c ∈ steps, 0 ≤ c) : 0 ≤ remainder m steps := by
  induction steps using List.reverseRecOn with
  | nil => exact le_rfl
  | append_singleton steps c ih =>
    obtain ⟨hinit, hc⟩ := List.forall_mem_append.mp h
    rw [remainder_concat]
    exact Int.tmod_nonneg m (add_nonneg (ih hinit) (hc c (List.mem_singleton_self c)))

end RunningRemainder
