/-
# Texts of fixed width

Decimal numbers padded with zeros, laid out with separators between them.  Such a text has
a shape that depends on the layout alone, it is read back, and it sorts as its numbers do.
-/
import FastServer.Decimal

namespace FixedWidth

/-- What stands in a text: the width of a number and the separator behind it, and so on. -/
abbrev Layout := List (ℕ × List UInt8)

/-- The text of the numbers `values`. -/
def render : Layout → List ℕ → List UInt8
  | part :: layout, value :: values =>
      fixedDigits part.1 value ++ (part.2 ++ render layout values)
  | _, _ => []

/-- The numbers of a text. -/
def parse : Layout → List UInt8 → List ℕ
  | [], _ => []
  | part :: layout, text =>
      readDigits (text.take part.1) :: parse layout (text.drop (part.1 + part.2.length))

/-- A digit of any kind is a zero, and everything else is kept. -/
def mask (b : UInt8) : UInt8 := if isDigit b then 48 else b

/-- Every number has its place. -/
def Fits (layout : Layout) (values : List ℕ) : Prop :=
  List.Forall₂ (fun part value => value < 10 ^ part.1) layout values

/-! ## One number -/

@[simp] theorem length_fixedDigits (width n : ℕ) : (fixedDigits width n).length = width := by
  induction width generalizing n with
  | zero => rfl
  | succ width ih => rw [fixedDigits, List.length_append, ih, List.length_singleton]

theorem digit_toNat {d : ℕ} (h : d < 10) : (digit d).toNat = 48 + d := by
  rw [digit, UInt8.toNat_ofNat']
  omega

/-- A digit of a number is a digit. -/
theorem mask_digit (n : ℕ) : mask (digit (n % 10)) = 48 := by
  have hten : n % 10 < 10 := Nat.mod_lt n (by decide)
  revert hten
  generalize n % 10 = d
  revert d
  decide

/-- The shape of a number. -/
theorem map_mask_fixedDigits (width n : ℕ) :
    (fixedDigits width n).map mask = List.replicate width 48 := by
  induction width generalizing n with
  | zero => rfl
  | succ width ih =>
    rw [fixedDigits, List.map_append, ih, List.map_singleton, mask_digit, List.replicate_succ']

/-- **A number is read back.** -/
theorem readDigits_fixedDigits {width n : ℕ} (h : n < 10 ^ width) :
    readDigits (fixedDigits width n) = n := by
  induction width generalizing n with
  | zero =>
    have hzero : n = 0 := by omega
    rw [hzero]
    rfl
  | succ width ih =>
    rw [pow_succ] at h
    have hfront := ih (by omega : n / 10 < 10 ^ width)
    rw [readDigits] at hfront
    rw [fixedDigits, readDigits, List.foldl_append, hfront, List.foldl_cons, List.foldl_nil,
      digit_toNat (Nat.mod_lt n (by decide))]
    omega

/-! ## Order -/

/-- A smaller text of the same length stays smaller, whatever follows. -/
theorem append_lt_append {s t : List UInt8} (hlen : s.length = t.length) (h : s < t)
    (s' t' : List UInt8) : s ++ s' < t ++ t' := by
  induction s generalizing t with
  | nil =>
    rw [List.eq_nil_of_length_eq_zero hlen.symm] at h
    exact absurd h (List.not_lt_nil [])
  | cons b s ih =>
    obtain ⟨c, t, rfl⟩ := List.exists_cons_of_length_eq_add_one hlen.symm
    rw [List.cons_append, List.cons_append, List.cons_lt_cons_iff]
    rcases List.cons_lt_cons_iff.mp h with hlt | ⟨rfl, hrest⟩
    · exact .inl hlt
    · exact .inr ⟨rfl, ih (Nat.succ.inj hlen) hrest⟩

/-- **Numbers of one width sort as their texts.** -/
theorem fixedDigits_lt {width m n : ℕ} (hmn : m < n) (hn : n < 10 ^ width) :
    fixedDigits width m < fixedDigits width n := by
  induction width generalizing m n with
  | zero => omega
  | succ width ih =>
    rw [pow_succ] at hn
    rw [fixedDigits, fixedDigits]
    rcases Nat.lt_or_ge (m / 10) (n / 10) with hlt | hge
    · exact append_lt_append (by simp) (ih hlt (by omega)) _ _
    · have hfront : m / 10 = n / 10 := by omega
      rw [hfront]
      apply List.append_left_lt
      rw [List.cons_lt_cons_iff, UInt8.lt_iff_toNat_lt, digit_toNat (Nat.mod_lt m (by decide)),
        digit_toNat (Nat.mod_lt n (by decide))]
      omega

/-! ## The text -/

/-- A text is as long as its layout says. -/
theorem length_render {layout : Layout} {values : List ℕ}
    (h : layout.length = values.length) :
    (render layout values).length = (layout.map fun part => part.1 + part.2.length).sum := by
  induction layout generalizing values with
  | nil => rfl
  | cons part layout ih =>
    obtain ⟨value, values, rfl⟩ := List.exists_cons_of_length_eq_add_one h.symm
    rw [render, List.length_append, List.length_append, length_fixedDigits,
      ih (Nat.succ.inj h), List.map_cons, List.sum_cons, Nat.add_assoc]

/-- The shape of a text. -/
theorem map_mask_render {layout : Layout} {values : List ℕ} (h : layout.length = values.length) :
    (render layout values).map mask
      = layout.flatMap fun part => List.replicate part.1 48 ++ part.2.map mask := by
  induction layout generalizing values with
  | nil => rfl
  | cons part layout ih =>
    obtain ⟨value, values, rfl⟩ := List.exists_cons_of_length_eq_add_one h.symm
    rw [render, List.map_append, List.map_append, map_mask_fixedDigits, ih (Nat.succ.inj h),
      List.flatMap_cons, List.append_assoc]

/-- **The numbers of a text are read back.** -/
theorem parse_render {layout : Layout} {values : List ℕ} (h : Fits layout values) :
    parse layout (render layout values) = values := by
  induction h with
  | nil => rfl
  | @cons part value layout values hvalue _ ih =>
    have hdrop : (render (part :: layout) (value :: values)).drop (part.1 + part.2.length)
        = render layout values := by
      rw [render, ← List.append_assoc, List.drop_left' (by simp)]
    rw [parse, hdrop, ih, render, List.take_left' (length_fixedDigits part.1 value),
      readDigits_fixedDigits hvalue]

/-- **Texts of one layout sort as their numbers.** -/
theorem render_lt {layout : Layout} {values values' : List ℕ}
    (hlen : layout.length = values.length) (hfits : Fits layout values')
    (h : values < values') : render layout values < render layout values' := by
  induction hfits generalizing values with
  | nil => exact absurd h (List.not_lt_nil _)
  | @cons part value' layout values' hvalue hrest ih =>
    obtain ⟨value, values, rfl⟩ := List.exists_cons_of_length_eq_add_one hlen.symm
    rcases List.cons_lt_cons_iff.mp h with hlt | ⟨rfl, hlt⟩
    · exact append_lt_append (by simp) (fixedDigits_lt hlt hvalue) _ _
    · rw [render, render]
      apply List.append_left_lt
      apply List.append_left_lt
      exact ih (Nat.succ.inj hlen) hlt

/-- A text stands in front of another one. -/
theorem render_append {layout layout' : Layout} {values values' : List ℕ}
    (h : layout.length = values.length) :
    render (layout ++ layout') (values ++ values')
      = render layout values ++ render layout' values' := by
  induction layout generalizing values with
  | nil =>
    rw [List.eq_nil_of_length_eq_zero h.symm]
    rfl
  | cons part layout ih =>
    obtain ⟨value, values, rfl⟩ := List.exists_cons_of_length_eq_add_one h.symm
    rw [List.cons_append, List.cons_append, render, render, ih (Nat.succ.inj h),
      List.append_assoc, List.append_assoc]

end FixedWidth
