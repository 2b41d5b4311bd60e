/-
# Calendar time

Seconds since 1970 as a date and a time of day: the split of a number by the starts of
periods (days, years, months), each of which keeps the order, and what `gmtime` and `timegm`
compute from it.
-/
import Mathlib

namespace Calendar

/-! ## Periods -/

/-- The last of the periods up to `bound` that has begun at `x`. -/
def period (starts : ℕ → ℕ) (bound x : ℕ) : ℕ := Nat.findGreatest (fun i => starts i ≤ x) bound

section Periods

variable {starts : ℕ → ℕ} {bound x y i j : ℕ}

/-- **The period has begun**, and the next one has not. -/
theorem period_spec (hzero : starts 0 ≤ x) (hbound : x < starts (bound + 1)) :
    starts (period starts bound x) ≤ x ∧ x < starts (period starts bound x + 1) := by
  constructor
  · exact Nat.findGreatest_spec (P := fun i => starts i ≤ x) (Nat.zero_le bound) hzero
  · have hle : period starts bound x ≤ bound := Nat.findGreatest_le bound
    rcases Nat.lt_or_ge (period starts bound x) bound with hlt | hge
    · have hlater := Nat.findGreatest_is_greatest (P := fun i => starts i ≤ x)
        (Nat.lt_succ_self (period starts bound x)) hlt
      exact not_le.mp hlater
    · rwa [le_antisymm hle hge]

/-- **A split keeps the order**: of two numbers, the smaller one is in an earlier period, or
earlier in the same one. -/
theorem split_lt (hstarts : StrictMono starts) (hxy : x < y) (hx : starts i ≤ x)
    (hy : y < starts (j + 1)) : i < j ∨ i = j ∧ x - starts i < y - starts j := by
  rcases Nat.lt_trichotomy i j with hlt | rfl | hgt
  · exact .inl hlt
  · exact .inr ⟨rfl, by omega⟩
  · have hle : starts (j + 1) ≤ starts i := hstarts.monotone hgt
    omega

end Periods

/-! ## Years and months -/

/-- The rule of the Gregorian calendar. -/
def isLeap (year : ℕ) : Bool := year % 4 = 0 ∧ year % 100 ≠ 0 ∨ year % 400 = 0

/-- The days before the year `i` years behind 1970. -/
def yearStart (i : ℕ) : ℕ := 365 * i + (i + 1) / 4 + (i + 369) / 400 - (i + 69) / 100

/-- The days before a month, the first of which is 0; the months behind the last are none. -/
def monthStart (leap : Bool) : ℕ → ℕ
  | 0 => 0
  | 1 => 31
  | 2 => 59 + leap.toNat
  | 3 => 90 + leap.toNat
  | 4 => 120 + leap.toNat
  | 5 => 151 + leap.toNat
  | 6 => 181 + leap.toNat
  | 7 => 212 + leap.toNat
  | 8 => 243 + leap.toNat
  | 9 => 273 + leap.toNat
  | 10 => 304 + leap.toNat
  | 11 => 334 + leap.toNat
  | n + 12 => 365 + leap.toNat + n

/-- A year has 365 days, or 366. -/
theorem yearStart_succ (i : ℕ) :
    yearStart (i + 1) = yearStart i + 365 + (isLeap (1970 + i)).toNat := by
  have hfour : (i + 1 + 1) / 4 = (i + 1) / 4 + if (1970 + i) % 4 = 0 then 1 else 0 := by
    split_ifs <;> omega
  have hhundred : (i + 1 + 69) / 100
      = (i + 69) / 100 + if (1970 + i) % 100 = 0 then 1 else 0 := by
    split_ifs <;> omega
  have hfourHundred : (i + 1 + 369) / 400
      = (i + 369) / 400 + if (1970 + i) % 400 = 0 then 1 else 0 := by
    split_ifs <;> omega
  have hle : (i + 69) / 100 ≤ 365 * i + (i + 1) / 4 + (i + 369) / 400 := by omega
  have hcentury : (1970 + i) % 400 = 0 → (1970 + i) % 100 = 0 := by omega
  have holympiad : (1970 + i) % 100 = 0 → (1970 + i) % 4 = 0 := by omega
  unfold yearStart isLeap
  rw [hfour, hhundred, hfourHundred]
  by_cases h4 : (1970 + i) % 4 = 0 <;> by_cases h100 : (1970 + i) % 100 = 0 <;>
    by_cases h400 : (1970 + i) % 400 = 0 <;> simp [h4, h100, h400] at * <;> omega

theorem strictMono_yearStart : StrictMono yearStart := by
  apply strictMono_nat_of_lt_succ
  intro i
  rw [yearStart_succ]
  omega

theorem strictMono_monthStart (leap : Bool) : StrictMono (monthStart leap) := by
  apply strictMono_nat_of_lt_succ
  intro m
  have hone : leap.toNat ≤ 1 := Bool.toNat_le leap
  unfold monthStart
  split
  all_goals
    simp
    try omega

/-- No more days than years of 365. -/
theorem le_yearStart (i : ℕ) : 365 * i ≤ yearStart i := by
  unfold yearStart
  omega

/-! ## Dates -/

/-- `struct tm`: years since 1900, months since January, and the others as they are written. -/
structure Tm where
  tm_year : ℕ
  tm_mon : ℕ
  tm_mday : ℕ
  tm_hour : ℕ
  tm_min : ℕ
  tm_sec : ℕ

/-- The year of a day, counted from 1970. -/
def yearOf (days : ℕ) : ℕ := period yearStart (days / 365) days

/-- The day of the year, from 0. -/
def dayOf (days : ℕ) : ℕ := days - yearStart (yearOf days)

/-- Whether the year of a day is a leap year. -/
def leapOf (days : ℕ) : Bool := isLeap (1970 + yearOf days)

/-- The month of a day, from 0. -/
def monthOf (days : ℕ) : ℕ := period (monthStart (leapOf days)) 11 (dayOf days)

/-- The date and the time of day of `t` seconds behind the start of 1970. -/
def gmtime (t : ℕ) : Tm where
  tm_year := 70 + yearOf (t / 86400)
  tm_mon := monthOf (t / 86400)
  tm_mday := dayOf (t / 86400) - monthStart (leapOf (t / 86400)) (monthOf (t / 86400)) + 1
  tm_hour := t % 86400 / 3600
  tm_min := t % 86400 % 3600 / 60
  tm_sec := t % 86400 % 3600 % 60

/-- The seconds behind the start of 1970. -/
def timegm (tm : Tm) : ℕ :=
  (yearStart (tm.tm_year - 70) + monthStart (isLeap (1900 + tm.tm_year)) tm.tm_mon
    + (tm.tm_mday - 1)) * 86400 + tm.tm_hour * 3600 + tm.tm_min * 60 + tm.tm_sec

/-- A day is in its year. -/
theorem yearOf_spec (days : ℕ) :
    yearStart (yearOf days) ≤ days ∧ days < yearStart (yearOf days + 1) := by
  apply period_spec
  · exact Nat.zero_le days
  · have hle := le_yearStart (days / 365 + 1)
    omega

/-- A day is in its month. -/
theorem monthOf_spec (days : ℕ) :
    monthStart (leapOf days) (monthOf days) ≤ dayOf days ∧
      dayOf days < monthStart (leapOf days) (monthOf days + 1) := by
  apply period_spec
  · exact Nat.zero_le _
  · obtain ⟨hbegun, hnext⟩ := yearOf_spec days
    rw [yearStart_succ] at hnext
    show days - yearStart (yearOf days) < 365 + (leapOf days).toNat + 0
    unfold leapOf
    omega

/-- There are twelve months. -/
theorem monthOf_le (days : ℕ) : monthOf days ≤ 11 := by
  unfold monthOf period
  exact Nat.findGreatest_le 11

/-- No month has more than 31 days. -/
theorem monthStart_succ_le (leap : Bool) {m : ℕ} (hm : m ≤ 11) :
    monthStart leap (m + 1) ≤ monthStart leap m + 31 := by
  revert m
  cases leap <;> decide

/-- **The seconds come back.** -/
theorem timegm_gmtime (t : ℕ) : timegm (gmtime t) = t := by
  obtain ⟨hyear, -⟩ := yearOf_spec (t / 86400)
  obtain ⟨hmonth, -⟩ := monthOf_spec (t / 86400)
  have hday : dayOf (t / 86400) = t / 86400 - yearStart (yearOf (t / 86400)) := rfl
  have hleap : isLeap (1900 + (70 + yearOf (t / 86400))) = leapOf (t / 86400) := by
    rw [leapOf, ← Nat.add_assoc]
  simp only [timegm, gmtime, hleap, Nat.add_sub_cancel_left, Nat.add_sub_cancel]
  omega

/-- The fields, the heaviest first. -/
def Tm.fields (tm : Tm) : List ℕ :=
  [tm.tm_year, tm.tm_mon, tm.tm_mday, tm.tm_hour, tm.tm_min, tm.tm_sec]

/-- Smaller fields are not of a later year. -/
theorem Tm.tm_year_le {tm tm' : Tm} (h : tm.fields < tm'.fields) : tm.tm_year ≤ tm'.tm_year := by
  rcases List.cons_lt_cons_iff.mp h with hlt | ⟨heq, -⟩
  · exact le_of_lt hlt
  · exact le_of_eq heq

/-- Of two days, the earlier one has the smaller date. -/
theorem date_lt {s t : ℕ} (h : s < t) :
    yearOf s < yearOf t ∨ yearOf s = yearOf t ∧
      (monthOf s < monthOf t ∨ monthOf s = monthOf t ∧
        dayOf s - monthStart (leapOf s) (monthOf s)
          < dayOf t - monthStart (leapOf t) (monthOf t)) := by
  rcases split_lt strictMono_yearStart h (yearOf_spec s).1 (yearOf_spec t).2 with hlt | ⟨heq, hday⟩
  · exact .inl hlt
  · have hleap : leapOf s = leapOf t := by rw [leapOf, leapOf, heq]
    have hmonth := (monthOf_spec s).1
    rw [hleap] at hmonth ⊢
    exact .inr ⟨heq, split_lt (strictMono_monthStart _) hday hmonth (monthOf_spec t).2⟩

/-- **Of two instants**, the earlier one has the smaller fields. -/
theorem gmtime_lt {s t : ℕ} (h : s < t) : (gmtime s).fields < (gmtime t).fields := by
  simp only [Tm.fields, gmtime, List.cons_lt_cons_iff, List.not_lt_nil, and_false, or_false]
  rcases Nat.lt_or_ge (s / 86400) (t / 86400) with hlt | hge
  · rcases date_lt hlt with hyear | ⟨hyear, hmonth | ⟨hmonth, hday⟩⟩
    · exact .inl (by omega)
    · exact .inr ⟨by omega, .inl hmonth⟩
    · exact .inr ⟨by omega, .inr ⟨hmonth, .inl (by omega)⟩⟩
  · -- the instants are in the same day
    have hday : s / 86400 = t / 86400 := by omega
    rw [hday]
    refine .inr ⟨rfl, .inr ⟨rfl, .inr ⟨rfl, ?_⟩⟩⟩
    omega

end Calendar
