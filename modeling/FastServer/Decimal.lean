/-
# Numbers as text

Text is a list of bytes.  Decimal numbers as `std::to_string` writes them, and as the
number parsers of the standard library read them: leading blanks and a sign are
accepted, and what follows the digits is ignored.
-/
import Mathlib

/-! ## Bytes -/

/-- The bytes of a string literal. -/
def ascii (s : String) : List UInt8 := s.toList.map fun c => UInt8.ofNat c.toNat

/-- `isspace` in the "C" locale. -/
def isSpace (b : UInt8) : Bool := b = 32 ∨ (9 ≤ b ∧ b ≤ 13)

/-- `isdigit`. -/
def isDigit (b : UInt8) : Bool := 48 ≤ b ∧ b ≤ 57

/-- The byte of a digit. -/
def digit (d : ℕ) : UInt8 := UInt8.ofNat (48 + d)

/-! ## Writing -/

/-- `std::to_string` of an unsigned number. -/
def decimal (n : ℕ) : List UInt8 := (Nat.toDigits 10 n).map fun c => UInt8.ofNat c.toNat

/-- `std::to_string` of a signed number. -/
def decimalInt (z : ℤ) : List UInt8 :=
  if z < 0 then 45 :: decimal z.natAbs else decimal z.natAbs

/-- The last digits of a number, as many as asked for. -/
def fixedDigits : ℕ → ℕ → List UInt8
  | 0, _ => []
  | width + 1, n => fixedDigits width (n / 10) ++ [digit (n % 10)]

/-- The last three digits of a number. -/
def threeDigits (n : ℕ) : List UInt8 := [digit (n / 100 % 10), digit (n / 10 % 10), digit (n % 10)]

/-! ## Reading -/

/-- The number written by a list of digits. -/
def readDigits (text : List UInt8) : ℕ := text.foldl (fun n b => 10 * n + (b.toNat - 48)) 0

/-- The number written by the digits at the front, if there are any. -/
def readNumber (text : List UInt8) : Option ℕ :=
  if text.takeWhile isDigit = [] then none else some (readDigits (text.takeWhile isDigit))

/-- The sign and the number that `strtol` and `strtoul` find at the front, in base ten:
blanks are skipped, a sign may follow, and there has to be a digit. -/
def readSigned (text : List UInt8) : Option (Bool × ℕ) :=
  match text.dropWhile isSpace with
  | 45 :: rest => (readNumber rest).map fun n => (true, n)
  | 43 :: rest => (readNumber rest).map fun n => (false, n)
  | rest => (readNumber rest).map fun n => (false, n)

/-- `std::stoi` without its bounds: the value `strtol` finds. -/
def readInt (text : List UInt8) : Option ℤ :=
  (readSigned text).map fun r => if r.1 then -(r.2 : ℤ) else r.2

/-- `std::stoul`: what does not fit 64 bits throws, and a sign negates modulo `2^64`. -/
def stoul (text : List UInt8) : Option ℕ :=
  (readSigned text).bind fun r =>
    if r.2 < 2 ^ 64 then some (if r.1 then (2 ^ 64 - r.2) % 2 ^ 64 else r.2) else none

/-! ## Digits -/

/-- A digit character is a digit byte. -/
theorem isDigit_ofNat_toNat {c : Char} (h : c.isDigit = true) :
    isDigit (UInt8.ofNat c.toNat) = true ∧ (UInt8.ofNat c.toNat).toNat = c.toNat := by
  have hbounds : 48 ≤ c.toNat ∧ c.toNat ≤ 57 := by
    simpa [Char.isDigit, UInt32.le_iff_toNat_le] using h
  have hval : (UInt8.ofNat c.toNat).toNat = c.toNat := by
    rw [UInt8.toNat_ofNat']
    omega
  refine ⟨?_, hval⟩
  rw [isDigit, decide_eq_true_iff, UInt8.le_iff_toNat_le, UInt8.le_iff_toNat_le, hval]
  exact hbounds

/-- A written number consists of digits. -/
theorem isDigit_of_mem_decimal {n : ℕ} {b : UInt8} (h : b ∈ decimal n) : isDigit b = true := by
  obtain ⟨c, hc, rfl⟩ := List.mem_map.mp h
  exact (isDigit_ofNat_toNat (Nat.isDigit_of_mem_toDigits (by decide) (by decide) hc)).1

theorem decimal_ne_nil (n : ℕ) : decimal n ≠ [] :=
  fun h => Nat.toDigits_ne_nil (List.map_eq_nil_iff.mp h)

/-- A number is recovered from its digits. -/
theorem readDigits_decimal (n : ℕ) : readDigits (decimal n) = n := by
  have hdigits : ∀ (cs : List Char) (k : ℕ), (∀ c ∈ cs, c.isDigit = true) →
      (cs.map fun c => UInt8.ofNat c.toNat).foldl (fun n b => 10 * n + (b.toNat - 48)) k
        = Nat.ofDigitChars 10 cs k := by
    intro cs
    induction cs with
    | nil => intro k _; rfl
    | cons c cs ih =>
      intro k h
      rw [List.map_cons, List.foldl_cons, (isDigit_ofNat_toNat (h c List.mem_cons_self)).2,
        ih _ fun c' hc' => h c' (List.mem_cons_of_mem _ hc')]
      rfl
  rw [readDigits, decimal, hdigits _ _ fun c hc =>
    Nat.isDigit_of_mem_toDigits (by decide) (by decide) hc, Nat.ofDigitChars_ten_toDigits]

/-- The digits at the front are a written number that no digit follows. -/
theorem readNumber_decimal (n : ℕ) : readNumber (decimal n) = some n := by
  have htake : (decimal n).takeWhile isDigit = decimal n :=
    List.takeWhile_eq_self_iff.mpr fun b hb => isDigit_of_mem_decimal hb
  rw [readNumber, htake, if_neg (decimal_ne_nil n), readDigits_decimal]

/-! ## Round trips -/

/-- A digit is neither a blank nor a sign. -/
theorem readSigned_of_isDigit {b : UInt8} {rest : List UInt8} (h : isDigit b = true) :
    readSigned (b :: rest) = (readNumber (b :: rest)).map fun n => (false, n) := by
  have hspace : isSpace b = false := by
    revert h
    revert b
    decide +kernel
  have hminus : b ≠ 45 := by rintro rfl; exact absurd h (by decide)
  have hplus : b ≠ 43 := by rintro rfl; exact absurd h (by decide)
  rw [readSigned, List.dropWhile_cons_of_neg (by rw [hspace]; decide)]
  split
  · rename_i heq
    exact absurd (List.cons.inj heq).1 hminus
  · rename_i heq
    exact absurd (List.cons.inj heq).1 hplus
  · rfl

/-- An unsigned number is read back. -/
theorem readSigned_decimal (n : ℕ) : readSigned (decimal n) = some (false, n) := by
  obtain ⟨b, rest, hcons⟩ := List.exists_cons_of_ne_nil (decimal_ne_nil n)
  have hb : isDigit b = true := isDigit_of_mem_decimal (hcons ▸ List.mem_cons_self)
  rw [hcons, readSigned_of_isDigit hb, ← hcons, readNumber_decimal]
  rfl

/-- **Signed numbers are read back.** -/
theorem readInt_decimalInt (z : ℤ) : readInt (decimalInt z) = some z := by
  rw [readInt, decimalInt]
  split_ifs with h
  · have hsigned : readSigned (45 :: decimal z.natAbs) = some (true, z.natAbs) := by
      show (readNumber (decimal z.natAbs)).map _ = _
      rw [readNumber_decimal]
      rfl
    rw [hsigned, Option.map_some, if_pos rfl]
    congr 1
    omega
  · rw [readSigned_decimal, Option.map_some, if_neg Bool.false_ne_true]
    congr 1
    omega

/-- A written number is made of digits and perhaps a minus sign. -/
theorem mem_decimalInt {z : ℤ} {b : UInt8} (h : b ∈ decimalInt z) : b = 45 ∨ isDigit b = true := by
  unfold decimalInt at h
  split_ifs at h
  · rcases List.mem_cons.mp h with h | h
    · exact Or.inl h
    · exact Or.inr (isDigit_of_mem_decimal h)
  · exact Or.inr (isDigit_of_mem_decimal h)

/-- One digit. -/
theorem decimal_of_lt {d : ℕ} (h : d < 10) : decimal d = [digit d] := by
  have hchar : ∀ d < 10, UInt8.ofNat d.digitChar.toNat = digit d := by decide
  rw [decimal, Nat.toDigits_of_lt_base h, List.map_singleton, hchar d h]

/-- The last digit stands behind the others. -/
theorem decimal_of_le {n : ℕ} (h : 10 ≤ n) : decimal n = decimal (n / 10) ++ [digit (n % 10)] := by
  rw [← decimal_of_lt (Nat.mod_lt n (by decide)), decimal, decimal, decimal,
    Nat.toDigits_of_base_le (by decide) h, List.map_append,
    Nat.toDigits_of_lt_base (Nat.mod_lt n (by decide))]

/-- A number that has so many digits is written with them. -/
theorem decimal_eq_fixedDigits {width n : ℕ} (hle : 10 ^ width ≤ n) (hlt : n < 10 ^ (width + 1)) :
    decimal n = fixedDigits (width + 1) n := by
  induction width generalizing n with
  | zero =>
    rw [decimal_of_lt (by omega), fixedDigits, fixedDigits, Nat.mod_eq_of_lt (by omega)]
    rfl
  | succ width ih =>
    rw [pow_succ] at hle hlt
    have hten : 10 ≤ n := by
      have hpos : 0 < 10 ^ width := by positivity
      omega
    rw [decimal_of_le hten, fixedDigits, ih (by omega) (by omega)]

/-- No digits but zeros. -/
theorem fixedDigits_zero (width : ℕ) : fixedDigits width 0 = List.replicate width 48 := by
  induction width with
  | zero => rfl
  | succ width ih =>
    rw [fixedDigits, Nat.zero_div, ih, List.replicate_succ']
    rfl

/-- **A number padded with zeros** to a width that holds it. -/
theorem leftpad_decimal {width n : ℕ} (h : n < 10 ^ (width + 1)) :
    List.leftpad (width + 1) 48 (decimal n) = fixedDigits (width + 1) n := by
  induction width generalizing n with
  | zero =>
    rw [decimal_of_lt (by omega), fixedDigits, fixedDigits, Nat.mod_eq_of_lt (by omega)]
    rfl
  | succ width ih =>
    rcases Nat.lt_or_ge n 10 with hten | hten
    · rw [decimal_of_lt hten, fixedDigits, Nat.div_eq_of_lt hten, Nat.mod_eq_of_lt hten,
        fixedDigits_zero]
      rfl
    · rw [pow_succ] at h
      have hpad := ih (by omega : n / 10 < 10 ^ (width + 1))
      rw [decimal_of_le hten, fixedDigits, ← hpad, List.leftpad, List.leftpad, List.length_append,
        List.length_singleton, Nat.add_sub_add_right, List.append_assoc]

/-- A number below 1000, padded with zeros to a width of three. -/
theorem leftpad_three {n : ℕ} (h : n < 1000) :
    List.leftpad 3 48 (decimal n) = threeDigits n := by
  rw [leftpad_decimal h, threeDigits, ← Nat.div_div_eq_div_mul n 10 10]
  rfl
