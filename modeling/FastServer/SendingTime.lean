/-
# The time in field 52

`createBaseMessage` writes the time as `YYYYMMDD-HH:MM:SS`, a point and the milliseconds.  The
date and the time of day have a fixed width; the milliseconds are written by
`std::to_string`, which pads nothing.
-/
import FastServer.Calendar
import FastServer.FixedWidth
import FastServer.FixSession

namespace FIX42Protocol

open Framing Calendar FixedWidth

/-! ## The text -/

/-- `strftime` with `%Y%m%d-%H:%M:%S`. -/
def strftime (tm : Tm) : Bytes :=
  decimal (1900 + tm.tm_year) ++ List.leftpad 2 48 (decimal (tm.tm_mon + 1))
    ++ List.leftpad 2 48 (decimal tm.tm_mday) ++ ascii "-"
    ++ List.leftpad 2 48 (decimal tm.tm_hour) ++ ascii ":"
    ++ List.leftpad 2 48 (decimal tm.tm_min) ++ ascii ":"
    ++ List.leftpad 2 48 (decimal tm.tm_sec)

/-- The milliseconds of an instant, in nanoseconds since 1970, within its second. -/
def milliseconds (now : ℕ) : ℕ := now % 1000000000 / 1000000

/-- The text of an instant, in nanoseconds since 1970. -/
def sendingTime (now : ℕ) : Bytes :=
  strftime (gmtime (now / 1000000000)) ++ ascii "." ++ decimal (milliseconds now)

/-- **The text is in field 52** of the message. -/
theorem get?_sendingTime_createBaseMessage (cfg : Config) (msg_type : MessageType)
    (seq_num now : ℕ) :
    (createBaseMessage cfg msg_type seq_num (sendingTime now)).fields.get? FIXField.sendingTime
      = some (sendingTime now) := by
  rw [createBaseMessage, Fields.get?_set_of_ne _ (by decide), Fields.get?_set_self]

/-! ## The documented form -/

/-- The date and the time of day, up to the point. -/
def dateLayout : Layout :=
  [(4, []), (2, []), (2, ascii "-"), (2, ascii ":"), (2, ascii ":"), (2, ascii ".")]

/-- `YYYYMMDD-HH:MM:SS.sss`. -/
def timeLayout : Layout := dateLayout ++ [(3, [])]

/-- The form `YYYYMMDD-HH:MM:SS.sss`, with a zero for every digit. -/
def HasForm (text : Bytes) : Prop := text.map mask = ascii "00000000-00:00:00.000"

/-- The numbers in the text of a date. -/
def dateValues (tm : Tm) : List ℕ :=
  [1900 + tm.tm_year, tm.tm_mon + 1, tm.tm_mday, tm.tm_hour, tm.tm_min, tm.tm_sec]

/-- The milliseconds since 1970 that a text of the documented form stands for. -/
def readTime (text : Bytes) : ℕ :=
  match parse timeLayout text with
  | [year, month, day, hour, minute, second, millisecond] =>
      timegm ⟨year - 1900, month - 1, day, hour, minute, second⟩ * 1000 + millisecond
  | _ => 0

/-- What the texts of an instant and of a later one should be. -/
structure Documented (now now' : ℕ) : Prop where
  lt : sendingTime now < sendingTime now'
  form : HasForm (sendingTime now)
  form' : HasForm (sendingTime now')
  recovered : readTime (sendingTime now) = now / 1000000
  recovered' : readTime (sendingTime now') = now' / 1000000

/-! ## The date -/

/-- The last year of four digits. -/
def YearFits (tm : Tm) : Prop := 1900 + tm.tm_year ≤ 9999

/-- The numbers of a date have their places. -/
theorem fits_dateValues (t : ℕ) (hyear : YearFits (gmtime t)) :
    Fits dateLayout (dateValues (gmtime t)) := by
  have hmonth := monthOf_le (t / 86400)
  have hday := (monthOf_spec (t / 86400)).2
  have hlength := monthStart_succ_le (leapOf (t / 86400)) hmonth
  unfold YearFits at hyear
  simp only [Fits, dateLayout, dateValues, List.forall₂_cons, List.Forall₂.nil, and_true]
  refine ⟨by omega, ?_, ?_, ?_, ?_, ?_⟩
  all_goals
    simp only [gmtime]
    omega

/-- **`strftime` writes texts of fixed width.** -/
theorem strftime_append_point (t : ℕ) (hyear : YearFits (gmtime t)) :
    strftime (gmtime t) ++ ascii "." = render dateLayout (dateValues (gmtime t)) := by
  have hfits := fits_dateValues t hyear
  simp only [Fits, dateLayout, dateValues, List.forall₂_cons, List.Forall₂.nil, and_true]
    at hfits
  obtain ⟨hfour, hmonth, hday, hhour, hmin, hsec⟩ := hfits
  have hyears : 10 ^ 3 ≤ 1900 + (gmtime t).tm_year := by omega
  rw [strftime, decimal_eq_fixedDigits hyears hfour, leftpad_decimal hmonth, leftpad_decimal hday,
    leftpad_decimal hhour, leftpad_decimal hmin, leftpad_decimal hsec]
  simp only [dateLayout, dateValues, render, List.append_assoc, List.nil_append,
    List.append_nil]

/-- The text of an instant. -/
theorem sendingTime_eq (now : ℕ) (hyear : YearFits (gmtime (now / 1000000000))) :
    sendingTime now = render dateLayout (dateValues (gmtime (now / 1000000000)))
      ++ decimal (milliseconds now) := by
  rw [sendingTime, strftime_append_point _ hyear]

/-- The dates of two instants are in their order. -/
theorem dateValues_lt {s t : ℕ} (h : s < t) : dateValues (gmtime s) < dateValues (gmtime t) := by
  have hfields := gmtime_lt h
  simp only [Tm.fields, List.cons_lt_cons_iff, List.not_lt_nil, and_false, or_false] at hfields
  simp only [dateValues, List.cons_lt_cons_iff, List.not_lt_nil, and_false, or_false]
  omega

/-! ## The milliseconds -/

theorem milliseconds_lt (now : ℕ) : milliseconds now < 1000 := by
  unfold milliseconds
  omega

/-- An instant in milliseconds. -/
theorem div_eq_milliseconds (now : ℕ) :
    now / 1000000 = now / 1000000000 * 1000 + milliseconds now := by
  unfold milliseconds
  omega

/-- Three digits from 100 on, and fewer before. -/
theorem length_decimal_eq_three {n : ℕ} (h : n < 1000) : (decimal n).length = 3 ↔ 100 ≤ n := by
  constructor
  · intro hlength
    by_contra hlt
    rcases Nat.lt_or_ge n 10 with hten | hten
    · rw [decimal_of_lt hten, List.length_singleton] at hlength
      exact absurd hlength (by decide)
    · rw [decimal_eq_fixedDigits (by omega : 10 ^ 1 ≤ n) (by omega), length_fixedDigits] at hlength
      exact absurd hlength (by decide)
  · intro hle
    rw [decimal_eq_fixedDigits (by omega : 10 ^ 2 ≤ n) (by omega), length_fixedDigits]

/-- **From 100 milliseconds on**, the text has the documented form. -/
theorem sendingTime_eq_render {now : ℕ} (hyear : YearFits (gmtime (now / 1000000000)))
    (hms : 100 ≤ milliseconds now) :
    sendingTime now = render timeLayout
      (dateValues (gmtime (now / 1000000000)) ++ [milliseconds now]) := by
  have hlt := milliseconds_lt now
  rw [sendingTime_eq now hyear, timeLayout, render_append rfl,
    decimal_eq_fixedDigits (by omega : 10 ^ 2 ≤ milliseconds now) (by omega)]
  simp only [render, List.append_nil]

/-- The numbers of a time have their places. -/
theorem fits_timeValues {now : ℕ} (hyear : YearFits (gmtime (now / 1000000000))) :
    Fits timeLayout (dateValues (gmtime (now / 1000000000)) ++ [milliseconds now]) := by
  apply List.rel_append (fits_dateValues _ hyear)
  exact .cons (milliseconds_lt now) .nil

/-- **The form is exact**: it is the documented one from 100 milliseconds on. -/
theorem hasForm_iff {now : ℕ} (hyear : YearFits (gmtime (now / 1000000000))) :
    HasForm (sendingTime now) ↔ 100 ≤ milliseconds now := by
  constructor
  · intro hform
    have hlength := congrArg List.length hform
    rw [List.length_map, sendingTime_eq now hyear, List.length_append, length_render rfl]
      at hlength
    rw [← length_decimal_eq_three (milliseconds_lt now)]
    change 18 + (decimal (milliseconds now)).length = 18 + 3 at hlength
    exact Nat.add_left_cancel hlength
  · intro hms
    rw [HasForm, sendingTime_eq_render hyear hms, map_mask_render rfl]
    decide

/-- The instant is read from a text of the documented form. -/
theorem readTime_sendingTime {now : ℕ} (hyear : YearFits (gmtime (now / 1000000000)))
    (hms : 100 ≤ milliseconds now) : readTime (sendingTime now) = now / 1000000 := by
  have hback := timegm_gmtime (now / 1000000000)
  rw [readTime, sendingTime_eq_render hyear hms, parse_render (fits_timeValues hyear),
    div_eq_milliseconds now]
  simp only [dateValues, List.cons_append, List.nil_append, Nat.add_sub_cancel_left,
    Nat.add_sub_cancel]
  rw [hback]

/-- Texts of the documented form sort as their instants do. -/
theorem sendingTime_lt {now now' : ℕ} (hlt : now / 1000000 < now' / 1000000)
    (hyear : YearFits (gmtime (now / 1000000000))) (hyear' : YearFits (gmtime (now' / 1000000000)))
    (hms : 100 ≤ milliseconds now) (hms' : 100 ≤ milliseconds now') :
    sendingTime now < sendingTime now' := by
  rw [sendingTime_eq_render hyear hms, sendingTime_eq_render hyear' hms']
  apply render_lt rfl (fits_timeValues hyear')
  rw [div_eq_milliseconds now, div_eq_milliseconds now'] at hlt
  have hbound := milliseconds_lt now
  have hbound' := milliseconds_lt now'
  rcases Nat.lt_or_ge (now / 1000000000) (now' / 1000000000) with hsecond | hsecond
  · have hdate := dateValues_lt hsecond
    simp only [dateValues, List.cons_append, List.nil_append, List.cons_lt_cons_iff,
      List.not_lt_nil, and_false, or_false] at hdate ⊢
    omega
  · have heq : now / 1000000000 = now' / 1000000000 := by omega
    rw [heq]
    apply List.append_left_lt
    rw [List.cons_lt_cons_iff]
    exact .inl (by omega)

/-! ## Two instants -/

/-- An earlier year is not a longer one. -/
theorem yearFits_of_le {s t : ℕ} (h : s ≤ t) (hyear : YearFits (gmtime t)) :
    YearFits (gmtime s) := by
  rcases Nat.lt_or_ge s t with hlt | hge
  · exact le_trans (Nat.add_le_add_left (Tm.tm_year_le (gmtime_lt hlt)) 1900) hyear
  · rwa [le_antisymm h hge]

/-- **The texts of two instants** are in their order, of the documented form and can be read
back if and only if both instants are at least 100 milliseconds into their seconds. -/
theorem documented_iff {now now' : ℕ} (hlt : now / 1000000 < now' / 1000000)
    (hyear' : YearFits (gmtime (now' / 1000000000))) :
    Documented now now' ↔ 100 ≤ milliseconds now ∧ 100 ≤ milliseconds now' := by
  have hyear := yearFits_of_le (by omega : now / 1000000000 ≤ now' / 1000000000) hyear'
  constructor
  · intro h
    exact ⟨(hasForm_iff hyear).mp h.form, (hasForm_iff hyear').mp h.form'⟩
  · rintro ⟨hms, hms'⟩
    exact ⟨sendingTime_lt hlt hyear hyear' hms hms', (hasForm_iff hyear).mpr hms,
      (hasForm_iff hyear').mpr hms', readTime_sendingTime hyear hms,
      readTime_sendingTime hyear' hms'⟩

/-- Across a year: 999 milliseconds before midnight and 100 behind it. -/
theorem documented_newYear : Documented 1704067199999000000 1704067200100000000 :=
  (documented_iff (by decide) (by unfold YearFits; decide +kernel)).mpr
    ⟨by decide, by decide⟩

/-- **Out of order**: 5 milliseconds are written as `5`, and 40 as `40`. -/
theorem not_documented_sameSecond :
    sendingTime 1704067200005000000 = ascii "20240101-00:00:00.5" ∧
      sendingTime 1704067200040000000 = ascii "20240101-00:00:00.40" ∧
      ¬ Documented 1704067200005000000 1704067200040000000 := by
  have hfive : sendingTime 1704067200005000000 = ascii "20240101-00:00:00.5" := by
    decide +kernel
  have hforty : sendingTime 1704067200040000000 = ascii "20240101-00:00:00.40" := by
    decide +kernel
  refine ⟨hfive, hforty, ?_⟩
  intro h
  have hlt := h.lt
  rw [hfive, hforty] at hlt
  exact absurd hlt (by decide)

end FIX42Protocol
