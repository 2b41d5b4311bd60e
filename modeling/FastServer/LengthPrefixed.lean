/-
# Records that start with their length

A record is a header of `k` elements and as many elements of data as the header says.  Every
list is a sequence of records and a rest with no whole record in front, in one way only; so the
loops that walk over such a list by positions all find the same records.
-/
import FastServer.Framing

/-- A header of `k` elements and the data it announces. -/
@[ext] structure LengthPrefixed {β : Type*} (k : ℕ) (value : List β → ℕ) where
  header : List β
  data : List β
  length_header : header.length = k
  length_data : data.length = value header

namespace LengthPrefixed

variable {β : Type*} {k : ℕ} {value : List β → ℕ}

/-! ## Records -/

/-- The elements of a record. -/
def whole (r : LengthPrefixed k value) : List β := r.header ++ r.data

/-- The elements of a list of records. -/
def stream (rs : List (LengthPrefixed k value)) : List β := rs.flatMap whole

/-- There is no whole record in front. -/
def Ends (k : ℕ) (value : List β → ℕ) (s : List β) : Prop :=
  ∀ r : LengthPrefixed k value, ¬ r.whole <+: s

@[simp] theorem length_whole (r : LengthPrefixed k value) :
    r.whole.length = k + r.data.length := by
  rw [whole, List.length_append, r.length_header]

@[simp] theorem stream_nil : stream ([] : List (LengthPrefixed k value)) = [] := rfl

theorem stream_cons (r : LengthPrefixed k value) (rs : List (LengthPrefixed k value)) :
    stream (r :: rs) = r.whole ++ stream rs := rfl

theorem stream_append (rs rs' : List (LengthPrefixed k value)) :
    stream (rs ++ rs') = stream rs ++ stream rs' := List.flatMap_append

/-- The header of a record in front. -/
theorem take_whole (r : LengthPrefixed k value) (t : List β) :
    (r.whole ++ t).take k = r.header := by
  rw [whole, List.append_assoc, List.take_left' r.length_header]

/-- What follows the header. -/
theorem drop_whole (r : LengthPrefixed k value) (t : List β) :
    (r.whole ++ t).drop k = r.data ++ t := by
  rw [whole, List.append_assoc, List.drop_left' r.length_header]

/-- **The first record of a list** is determined, and so is what follows it. -/
theorem whole_inj {r r' : LengthPrefixed k value} {s t : List β}
    (h : r.whole ++ s = r'.whole ++ t) : r = r' ∧ s = t := by
  have hheader : r.header = r'.header := by
    rw [← take_whole r s, ← take_whole r' t, h]
  have hrest : r.data ++ s = r'.data ++ t := by
    rw [← drop_whole r s, ← drop_whole r' t, h]
  have hlength : r.data.length = r'.data.length := by
    rw [r.length_data, r'.length_data, hheader]
  obtain ⟨hdata, hs⟩ := List.append_inj hrest hlength
  exact ⟨LengthPrefixed.ext hheader hdata, hs⟩

/-! ## Cutting records off -/

/-- The record in front, if it is whole. -/
def cut (s : List β) : Cut β (LengthPrefixed k value) :=
  if h : k + value (s.take k) ≤ s.length then
    .message ⟨s.take k, (s.drop k).take (value (s.take k)),
        by rw [List.length_take]; omega, by rw [List.length_take, List.length_drop]; omega⟩
      (s.drop (k + value (s.take k)))
  else .more

theorem cut_whole (r : LengthPrefixed k value) (t : List β) :
    cut (r.whole ++ t) = .message r t := by
  have hheader := take_whole r t
  have hle : k + value ((r.whole ++ t).take k) ≤ (r.whole ++ t).length := by
    rw [hheader, List.length_append, length_whole, ← r.length_data]
    omega
  have hdata : ((r.whole ++ t).drop k).take (value ((r.whole ++ t).take k)) = r.data := by
    rw [hheader, drop_whole, List.take_left' r.length_data]
  have hrest : (r.whole ++ t).drop (k + value ((r.whole ++ t).take k)) = t := by
    rw [hheader, ← List.drop_drop, drop_whole, List.drop_left' r.length_data]
  rw [cut, dif_pos hle]
  exact congrArg₂ Cut.message (LengthPrefixed.ext hheader hdata) hrest

theorem of_cut {s t : List β} {r : LengthPrefixed k value} (h : cut s = .message r t) :
    s = r.whole ++ t := by
  rw [cut] at h
  split_ifs at h with hle
  injection h with hr ht
  subst hr ht
  rw [whole, List.append_assoc, ← List.drop_drop, List.take_append_drop, List.take_append_drop]

theorem cut_eq_more_iff {s : List β} :
    (cut s : Cut β (LengthPrefixed k value)) = .more ↔ Ends k value s := by
  constructor
  · rintro h r ⟨t, rfl⟩
    rw [cut_whole] at h
    exact nomatch h
  · intro h
    cases hcut : (cut s : Cut β (LengthPrefixed k value)) with
    | more => rfl
    | bad =>
      rw [cut] at hcut
      split_ifs at hcut
    | message r t => exact absurd ⟨t, (of_cut hcut).symm⟩ (h r)

/-- **No record is whole** where the header is not, or the data. -/
theorem ends_iff {s : List β} : Ends k value s ↔ s.length < k + value (s.take k) := by
  rw [← cut_eq_more_iff, cut]
  split_ifs with hle
  · exact iff_of_false id (not_lt.mpr hle)
  · exact iff_of_true rfl (not_le.mp hle)

instance (s : List β) : Decidable (Ends k value s) := decidable_of_iff _ ends_iff.symm

/-- The records are the messages of a framing. -/
def framing (hk : 0 < k) : Framing β (LengthPrefixed k value) where
  cut := cut
  shorter := by
    intro s r t h
    rw [of_cut h, List.length_append, length_whole]
    omega
  message_append := by
    intro s r t h u
    rw [of_cut h, List.append_assoc, cut_whole]
  bad_append := by
    intro s h
    rw [cut] at h
    split_ifs at h

/-! ## The longest sequence of records -/

/-- **Induction along the records** in front. -/
theorem record_induction (value : List β → ℕ) {P : List β → Prop} (hk : 0 < k)
    (ends : ∀ s, Ends k value s → P s)
    (whole : ∀ (r : LengthPrefixed k value) s, P s → P (r.whole ++ s)) (s : List β) : P s := by
  induction s using (@framing β k value hk).split_induction with
  | more s h => exact ends s (cut_eq_more_iff.mp h)
  | bad s h =>
    have hbad : (cut s : Cut β (LengthPrefixed k value)) = .bad := h
    rw [cut] at hbad
    split_ifs at hbad
  | message s r t h ih =>
    rw [of_cut h]
    exact whole r t ih

/-- Every list is a sequence of records and a rest. -/
theorem exists_longest (value : List β → ℕ) (hk : 0 < k) (s : List β) :
    ∃ (rs : List (LengthPrefixed k value)) (rest : List β), s = stream rs ++ rest ∧
      Ends k value rest := by
  induction s using record_induction value hk with
  | ends s h => exact ⟨[], s, rfl, h⟩
  | whole r s ih =>
    obtain ⟨rs, rest, rfl, hends⟩ := ih
    exact ⟨r :: rs, rest, by rw [stream_cons, List.append_assoc], hends⟩

/-- **In one way only.** -/
theorem longest_unique {rs rs' : List (LengthPrefixed k value)} {rest rest' : List β}
    (hends : Ends k value rest) (hends' : Ends k value rest')
    (h : stream rs ++ rest = stream rs' ++ rest') : rs = rs' ∧ rest = rest' := by
  induction rs generalizing rs' with
  | nil =>
    cases rs' with
    | nil => exact ⟨rfl, h⟩
    | cons r' rs' =>
      rw [stream_cons, List.append_assoc] at h
      exact absurd ⟨_, h.symm⟩ (hends r')
  | cons r rs ih =>
    rw [stream_cons, List.append_assoc] at h
    cases rs' with
    | nil => exact absurd ⟨_, h⟩ (hends' r)
    | cons r' rs' =>
      rw [stream_cons, List.append_assoc] at h
      obtain ⟨rfl, hrest⟩ := whole_inj h
      obtain ⟨rfl, hsame⟩ := ih hrest
      exact ⟨rfl, hsame⟩

/-- Nothing is left of a sequence of records. -/
theorem ends_nil (hk : 0 < k) : Ends k value ([] : List β) := by
  rw [ends_iff, List.length_nil]
  omega

end LengthPrefixed
