/-
# Fixed-width integer conversions

The conversions between `uint64_t`, `int64_t` and `int` that the program makes
implicitly.  Values live in `ℤ` and `ℕ`; a conversion is where a value wraps.
-/
import Mathlib

/-! ## Conversions -/

/-- Conversion to `uint64_t`: reduction modulo `2^64`. -/
def toU64 (z : ℤ) : ℕ := (z % 2 ^ 64).toNat

/-- Conversion to `uint32_t`: reduction modulo `2^32`. -/
def toU32 (z : ℤ) : ℕ := (z % 2 ^ 32).toNat

/-- Conversion to `int64_t`: the representative in `[-2^63, 2^63)`.  It also
stands for the result of a signed 64-bit operation, which wraps on the targets
the program is built for. -/
def toI64 (z : ℤ) : ℤ := z.bmod (2 ^ 64)

/-- Conversion to a 32-bit `int`. -/
def toI32 (z : ℤ) : ℤ := z.bmod (2 ^ 32)

/-- `INT64_MAX`. -/
def int64Max : ℤ := 2 ^ 63 - 1

/-! ## Values in range are unchanged -/

/-- A value in range survives conversion to `uint64_t`. -/
theorem toU64_natCast {n : ℕ} (h : n < 2 ^ 64) : toU64 (n : ℤ) = n := by
  unfold toU64
  omega

/-- A nonnegative value below `2^64` is its own `uint64_t` image. -/
theorem toU64_of_nonneg {z : ℤ} (h0 : 0 ≤ z) (h : z < 2 ^ 64) : (toU64 z : ℤ) = z := by
  unfold toU64
  omega

/-- A value in range survives conversion to `int64_t`. -/
theorem toI64_of_range {z : ℤ} (h0 : -2 ^ 63 ≤ z) (h : z < 2 ^ 63) : toI64 z = z := by
  unfold toI64
  exact Int.bmod_eq_of_le (by omega) (by omega)

/-- An `int64_t` is below `2^63`. -/
theorem toI64_lt (z : ℤ) : toI64 z < 2 ^ 63 := by
  unfold toI64
  have h := Int.bmod_lt (x := z) (m := 2 ^ 64) (by decide)
  omega

/-- A natural number below `2^63` survives conversion to `int64_t`. -/
theorem toI64_natCast {n : ℕ} (h : n < 2 ^ 63) : toI64 (n : ℤ) = n :=
  toI64_of_range (by omega) (by omega)

/-- A value that needs the sign bit is read as negative. -/
theorem toI64_neg {z : ℤ} (h0 : 2 ^ 63 ≤ z) (h : z < 2 ^ 64) : toI64 z < 0 := by
  unfold toI64
  rw [Int.bmod_def, Int.emod_eq_of_lt (by omega) (by omega), if_neg (by omega)]
  omega

/-- A value in range survives conversion to `int`. -/
theorem toI32_of_range {z : ℤ} (h0 : -2 ^ 31 ≤ z) (h : z < 2 ^ 31) : toI32 z = z := by
  unfold toI32
  exact Int.bmod_eq_of_le (by omega) (by omega)

/-- An `int` is below `2^31`. -/
theorem toI32_lt (z : ℤ) : toI32 z < 2 ^ 31 := by
  unfold toI32
  have h := @Int.bmod_lt z (2 ^ 32) (by decide)
  omega

/-- A quotient survives the conversion of its dividend exactly if the dividend does. -/
theorem tdiv_toI64_eq_iff {z : ℤ} (h0 : 0 ≤ z) :
    (toI64 z).tdiv 10000 = z / 10000 ↔ z < 2 ^ 63 := by
  constructor
  · intro h
    by_contra hge
    have hlt := toI64_lt z
    obtain ⟨n, hn⟩ : ((2 ^ 64 : ℕ) : ℤ) ∣ z - toI64 z := Int.dvd_self_sub_bmod
    rcases le_or_gt 0 (toI64 z) with hz | hz
    · rw [Int.tdiv_eq_ediv_of_nonneg hz] at h
      omega
    · -- a negative value has no positive quotient
      have hneg := Int.tdiv_nonneg (neg_nonneg.mpr hz.le) (show (0 : ℤ) ≤ 10000 by decide)
      rw [Int.neg_tdiv] at hneg
      omega
  · intro hlt
    rw [toI64_of_range (by omega) hlt, Int.tdiv_eq_ediv_of_nonneg h0]

/-- The sentinel key `INT64_MAX` as a `uint64_t`. -/
theorem toU64_int64Max : toU64 int64Max = 2 ^ 63 - 1 := by decide

/-- The signed difference of two `uint64_t` that stand for positions less than `2^63` apart. -/
theorem toI64_sub_natCast_mod {a b : ℕ} (hle : b ≤ a + 2 ^ 63) (hlt : a < b + 2 ^ 63) :
    toI64 (toI64 ((a % 2 ^ 64 : ℕ) : ℤ) - toI64 ((b % 2 ^ 64 : ℕ) : ℤ)) = (a : ℤ) - b := by
  have hbmod : ∀ n : ℕ, toI64 ((n % 2 ^ 64 : ℕ) : ℤ) = Int.bmod n (2 ^ 64) := by
    intro n
    rw [toI64, Int.natCast_mod]
    exact Int.emod_bmod _ _
  rw [hbmod, hbmod, toI64, Int.bmod_sub_bmod, Int.sub_bmod_bmod]
  exact toI64_of_range (by omega) (by omega)

/-! ## The difference of two `size_t` -/

/-- The subtraction of two `size_t`. -/
def subU64 (a b : ℕ) : ℕ := toU64 ((a : ℤ) - b)

/-- A difference that does not wrap. -/
theorem subU64_of_le {a b : ℕ} (hle : b ≤ a) (ha : a < 2 ^ 64) : subU64 a b = a - b := by
  unfold subU64 toU64
  omega

/-- A small difference tells how far two positions are apart at most. -/
theorem le_add_of_subU64_le {a b n : ℕ} (ha : a < 2 ^ 64) (h : subU64 a b ≤ n) : a ≤ b + n := by
  rcases le_total a b with hle | hle
  · omega
  · rw [subU64_of_le hle ha] at h
    omega

/-- The difference of two positions that are counted modulo `2^64`. -/
theorem subU64_mod (p n : ℕ) : subU64 ((p + n) % 2 ^ 64) (p % 2 ^ 64) = n % 2 ^ 64 := by
  unfold subU64 toU64
  omega
