/-
# Whether the loop of the streaming parser ends

The rounds of `process_buffer` in `parser.cpp`, one by one.  The length of a message is a sum of
type `size_t` that contains a number read from the stream without a check, so it may wrap to
zero; then nothing is erased.
-/
import FastServer.StreamParser
import FastServer.FixValidation

namespace FixParser.Stream

open FIX42Protocol

/-! ## One round -/

/-- The loop of `parse_length`: the number, and the place where it ends.  It throws at a byte
that is no digit. -/
def parseLength : ℕ → Bytes → Option (ℕ × Bytes)
  | out_len, [] => some (out_len, [])
  | out_len, b :: s =>
      if b = soh then some (out_len, b :: s)
      else if isDigit b then parseLength ((out_len * 10 + (b.toNat - 48)) % 2 ^ 64) s
      else none

/-- What a round does: it returns, uses an iterator past the end, throws, or erases the buffer
up to the end of a message of `total_msg_len` bytes at `it`, of which there are `available`. -/
inductive Round
  | returns
  | undefined
  | throws
  | erases (it available total_msg_len : ℕ) (callback : Option Bytes)
deriving DecidableEq

/-- A round of the loop of `process_buffer`. -/
def round (buffer : Bytes) : Round :=
  let it := (textBefore (ascii "8=FIX") buffer).length
  if it = buffer.length then .returns
  else
    let s := buffer.drop it
    match s.dropWhile (· ≠ 57) with
    | [] => .returns
    | [_] => .undefined
    | _ :: _ :: start =>
        match parseLength 0 start with
        | none => .throws
        | some (body_length, num_end) =>
            if num_end = [] then .returns
            else
              let header_len := s.length - num_end.length
              let total_msg_len := (header_len + body_length + 7) % 2 ^ 64
              let available := buffer.length - it
              if available < total_msg_len then .returns
              else
                match validateChecksum (s.take total_msg_len) with
                | none => .throws
                | some valid =>
                    .erases it available total_msg_len
                      (if valid then some (s.take total_msg_len) else none)

/-- The round erases the buffer up to `rest`. -/
def Erases (buffer rest : Bytes) : Prop :=
  ∃ it available total_msg_len callback,
    round buffer = .erases it available total_msg_len callback ∧
      rest = buffer.drop (it + total_msg_len)

/-- The rounds lead from one content of the buffer to another. -/
def Leads : Bytes → Bytes → Prop := Relation.ReflTransGen Erases

/-! ## What should hold -/

/-- **What the loop promises**, whatever the buffer contains: it ends, with a return or an
exception; each round that does neither erases at least one byte; the length of a message is at
most what is available; and no iterator past the end is used. -/
structure Terminates (buffer : Bytes) : Prop where
  ends : ∃ last, Leads buffer last ∧ (round last = .returns ∨ round last = .throws)
  removes : ∀ current rest, Leads buffer current → Erases current rest →
    rest.length < current.length
  within : ∀ current it available total_msg_len callback, Leads buffer current →
    round current = .erases it available total_msg_len callback → total_msg_len ≤ available
  defined : ∀ current, Leads buffer current → round current ≠ .undefined

/-- The first `9` behind the first `8=FIX` is the last byte; or a number is read behind it that
makes the length of the message zero. -/
def Stuck (buffer : Bytes) : Prop :=
  ∃ pre, 57 ∉ pre ∧
    (found buffer = pre ++ [57] ∨
      ∃ c digits t, found buffer = pre ++ 57 :: c :: (digits ++ soh :: t) ∧
        (∀ b ∈ digits, isDigit b = true) ∧
        (pre.length + 2 + digits.length + readDigits digits % 2 ^ 64 + 7) % 2 ^ 64 = 0)

/-! ## The number -/

/-- **The number is read modulo 2^64**, however many digits it has. -/
theorem parseLength_eq (s : Bytes) (n : ℕ) :
    parseLength (n % 2 ^ 64) s =
      if (s.takeWhile (· ≠ soh)).all isDigit then
        some ((s.takeWhile (· ≠ soh)).foldl (fun n b => 10 * n + (b.toNat - 48)) n % 2 ^ 64,
          s.dropWhile (· ≠ soh))
      else none := by
  induction s generalizing n with
  | nil => rfl
  | cons b s ih =>
    rw [parseLength]
    by_cases hsoh : b = soh
    · subst hsoh
      rfl
    · have hnext : (n % 2 ^ 64 * 10 + (b.toNat - 48)) % 2 ^ 64
          = (10 * n + (b.toNat - 48)) % 2 ^ 64 := by omega
      rw [if_neg hsoh, List.takeWhile_cons_of_pos (by simpa using hsoh),
        List.dropWhile_cons_of_pos (by simpa using hsoh), List.all_cons, List.foldl_cons]
      by_cases hdigit : isDigit b = true
      · rw [if_pos hdigit, hdigit, Bool.true_and, hnext, ih]
      · rw [if_neg hdigit, Bool.eq_false_of_not_eq_true hdigit, Bool.false_and]
        rfl

/-- The first `8=FIX` is missing where nothing is left from it on. -/
theorem found_eq_nil_iff (buffer : Bytes) :
    found buffer = [] ↔ (textBefore (ascii "8=FIX") buffer).length = buffer.length := by
  have hle := (textBefore_isPrefix (ascii "8=FIX") buffer).length_le
  rw [found, List.drop_eq_nil_iff]
  omega

/-- **A round** by what the header says. -/
theorem round_eq (buffer : Bytes) : round buffer =
    if found buffer = [] then .returns
    else
      match header (found buffer) with
      | .more => .returns
      | .undefined => .undefined
      | .thrown => .throws
      | .total total_msg_len =>
          if (found buffer).length < total_msg_len then .returns
          else
            match validateChecksum ((found buffer).take total_msg_len) with
            | none => .throws
            | some valid =>
                .erases (textBefore (ascii "8=FIX") buffer).length (found buffer).length
                  total_msg_len
                  (if valid then some ((found buffer).take total_msg_len) else none) := by
  have hlength : (found buffer).length
      = buffer.length - (textBefore (ascii "8=FIX") buffer).length := List.length_drop
  have hparse := fun start => parseLength_eq start 0
  rw [Nat.zero_mod] at hparse
  have hfound : buffer.drop (textBefore (ascii "8=FIX") buffer).length = found buffer := rfl
  unfold round header
  simp only [hfound, ← hlength]
  by_cases hnil : found buffer = []
  · rw [if_pos hnil, if_pos ((found_eq_nil_iff buffer).mp hnil)]
  · rw [if_neg hnil, if_neg (mt (found_eq_nil_iff buffer).mpr hnil)]
    cases hnine : (found buffer).dropWhile (· ≠ 57) with
    | nil => rfl
    | cons nine rest =>
      cases rest with
      | nil => rfl
      | cons c start =>
        dsimp only
        rw [hparse]
        by_cases hdigits : (start.takeWhile (· ≠ soh)).all isDigit = true
        · rw [if_pos hdigits, if_pos hdigits]
          dsimp only
          by_cases hend : start.dropWhile (· ≠ soh) = []
          · rw [if_pos hend, if_pos hend]
          · rw [if_neg hend, if_neg hend]
            rfl
        · rw [if_neg hdigits, if_neg hdigits]

/-! ## What a header can say -/

/-- **The header of a text** that contains a `9`: past the end; not yet a number, or none; or a
number with an `SOH` behind it. -/
theorem header_cases (s : Bytes) :
    (∃ pre, 57 ∉ pre ∧ s = pre ++ [57] ∧ header s = .undefined) ∨
      (∃ pre c digits t, 57 ∉ pre ∧ (∀ b ∈ digits, isDigit b = true) ∧
        s = pre ++ 57 :: c :: (digits ++ soh :: t) ∧
        header s = .total
          ((pre.length + 2 + digits.length + readDigits digits % 2 ^ 64 + 7) % 2 ^ 64)) ∨
      header s = .more ∨ header s = .thrown := by
  by_cases hnine : 57 ∈ s
  · obtain ⟨pre, rest, rfl, hpre⟩ := List.eq_append_cons_of_mem hnine
    rcases rest with - | ⟨c, t⟩
    · exact .inl ⟨pre, hpre, rfl, header_nine hpre⟩
    · right
      by_cases hdigits : (t.takeWhile (· ≠ soh)).all isDigit = true
      · by_cases hend : t.dropWhile (· ≠ soh) = []
        · rw [header_cons hpre, if_pos hdigits, if_pos hend]
          exact .inr (.inl rfl)
        · left
          have hmem : soh ∈ t := by
            by_contra hmem
            exact hend (Framing.takeWhile_of_notMem hmem).2
          obtain ⟨digits, t, rfl, hsoh⟩ := List.eq_append_cons_of_mem hmem
          rw [(Framing.takeWhile_piece hsoh t).1, List.all_eq_true] at hdigits
          exact ⟨pre, c, digits, t, hpre, hdigits, rfl, header_total hpre hdigits t⟩
      · rw [header_cons hpre, if_neg hdigits]
        exact .inr (.inr rfl)
  · exact .inr (.inr (.inl (header_of_notMem_nine hnine)))

/-- Where a round is stuck, the header is past the end or of length zero. -/
theorem stuck_iff (buffer : Bytes) :
    Stuck buffer ↔ header (found buffer) = .undefined ∨ header (found buffer) = .total 0 := by
  constructor
  · rintro ⟨pre, hpre, hfound | ⟨c, digits, t, hfound, hdigits, hzero⟩⟩
    · rw [hfound, header_nine hpre]
      exact .inl rfl
    · rw [hfound, header_total hpre hdigits, hzero]
      exact .inr rfl
  · intro h
    rcases header_cases (found buffer) with ⟨pre, hpre, hfound, -⟩ |
      ⟨pre, c, digits, t, hpre, hdigits, hfound, hheader⟩ | hheader | hheader
    · exact ⟨pre, hpre, .inl hfound⟩
    · rw [hheader] at h
      rcases h with h | h
      · exact Header.noConfusion h
      · exact ⟨pre, hpre, .inr ⟨c, digits, t, hfound, hdigits, Header.total.inj h⟩⟩
    · rw [hheader] at h
      exact h.elim (fun h => Header.noConfusion h) fun h => Header.noConfusion h
    · rw [hheader] at h
      exact h.elim (fun h => Header.noConfusion h) fun h => Header.noConfusion h

/-! ## What a round can do -/

variable {buffer rest : Bytes} {it available total_msg_len : ℕ} {callback : Option Bytes}

/-- **What a round has found** when it erases a message. -/
theorem of_round (h : round buffer = .erases it available total_msg_len callback) :
    it = (textBefore (ascii "8=FIX") buffer).length ∧ available = (found buffer).length ∧
      header (found buffer) = .total total_msg_len ∧ total_msg_len ≤ available ∧
      ∃ valid, validateChecksum ((found buffer).take total_msg_len) = some valid ∧
        callback = if valid then some ((found buffer).take total_msg_len) else none := by
  rw [round_eq] at h
  split_ifs at h with hnil
  cases hheader : header (found buffer) with
  | total n =>
    rw [hheader] at h
    dsimp only at h
    split_ifs at h with hshort
    cases hvalid : validateChecksum ((found buffer).take n) with
    | none =>
      rw [hvalid] at h
      exact Round.noConfusion h
    | some valid =>
      rw [hvalid] at h
      obtain ⟨rfl, rfl, rfl, rfl⟩ := Round.erases.inj h
      exact ⟨rfl, rfl, rfl, not_lt.mp hshort, valid, hvalid, rfl⟩
  | _ =>
    rw [hheader] at h
    exact Round.noConfusion h

/-- A round uses an iterator past the end exactly where the header does. -/
theorem round_eq_undefined_iff (buffer : Bytes) :
    round buffer = .undefined ↔ header (found buffer) = .undefined := by
  by_cases hnil : found buffer = []
  · rw [round_eq, if_pos hnil, hnil]
    exact ⟨fun h => Round.noConfusion h, fun h => Header.noConfusion h⟩
  · rw [round_eq, if_neg hnil]
    cases hheader : header (found buffer) with
    | undefined => exact iff_of_true rfl rfl
    | total n =>
      refine iff_of_false (fun h => ?_) Header.noConfusion
      dsimp only at h
      split_ifs at h
      cases hvalid : validateChecksum ((found buffer).take n) with
      | _ =>
        rw [hvalid] at h
        exact Round.noConfusion h
    | _ => exact iff_of_false Round.noConfusion Header.noConfusion

/-- What is left is what follows the message. -/
theorem drop_it (n : ℕ) :
    buffer.drop ((textBefore (ascii "8=FIX") buffer).length + n) = (found buffer).drop n := by
  rw [found, List.drop_drop]

/-- A round that erases leaves less, unless the message has length zero. -/
theorem length_of_erases (h : Erases buffer rest) (hstuck : ¬ Stuck buffer) :
    rest.length < buffer.length := by
  obtain ⟨it, available, n, callback, hround, rfl⟩ := h
  obtain ⟨rfl, rfl, hheader, hle, -⟩ := of_round hround
  have hzero : n ≠ 0 := by
    rintro rfl
    exact hstuck ((stuck_iff buffer).mpr (.inr hheader))
  have hfound : (found buffer).length ≤ buffer.length := by
    rw [found, List.length_drop]
    omega
  rw [drop_it, List.length_drop]
  omega

/-- A round that is stuck with a message of length zero leaves what starts there. -/
theorem erases_of_zero (h : header (found buffer) = .total 0) : Erases buffer (found buffer) := by
  have hne : found buffer ≠ [] := by
    intro hnil
    rw [hnil] at h
    exact Header.noConfusion h
  refine ⟨_, (found buffer).length, 0, none, ?_, (drop_it 0).symm⟩
  rw [round_eq, if_neg hne, h]
  rfl

/-- What starts with `8=FIX` is found where it starts. -/
theorem found_found (hne : found buffer ≠ []) : found (found buffer) = found buffer :=
  found_of_start (prefix_fromFirst hne)

/-- **The loop ends** if no round is stuck: each leaves less than the one before. -/
theorem exists_last (h : ∀ current, Leads buffer current → ¬ Stuck current) :
    ∃ last, Leads buffer last ∧ (round last = .returns ∨ round last = .throws) := by
  induction hn : buffer.length using Nat.strong_induction_on generalizing buffer with
  | _ n ih =>
    cases hround : round buffer with
    | returns => exact ⟨buffer, .refl, .inl hround⟩
    | throws => exact ⟨buffer, .refl, .inr hround⟩
    | undefined =>
      have hheader := (round_eq_undefined_iff buffer).mp hround
      exact absurd ((stuck_iff buffer).mpr (.inl hheader)) (h buffer .refl)
    | erases it available total_msg_len callback =>
      have herases : Erases buffer (buffer.drop (it + total_msg_len)) :=
        ⟨it, available, total_msg_len, callback, hround, rfl⟩
      have hlt := length_of_erases herases (h buffer .refl)
      obtain ⟨last, hlast, hend⟩ := ih _ (by omega)
        (fun current hcurrent => h current (.head herases hcurrent)) rfl
      exact ⟨last, .head herases hlast, hend⟩

/-! ## When it holds -/

/-- **When the loop ends**: when no round finds its first `9` at the end of the buffer, or a
number that makes the length of the message zero. -/
theorem terminates_iff (buffer : Bytes) :
    Terminates buffer ↔ ∀ current, Leads buffer current → ¬ Stuck current := by
  constructor
  · intro h current hleads hstuck
    rcases (stuck_iff current).mp hstuck with hheader | hheader
    · exact h.defined current hleads ((round_eq_undefined_iff current).mpr hheader)
    · -- the next round starts at the same message, and erases nothing
      have hne : found current ≠ [] := by
        intro hnil
        rw [hnil] at hheader
        exact Header.noConfusion hheader
      have hsame := found_found hne
      have hagain : Erases (found current) (found (found current)) :=
        erases_of_zero (by rw [hsame]; exact hheader)
      have hlt := h.removes _ _ (hleads.tail (erases_of_zero hheader)) hagain
      rw [hsame] at hlt
      exact absurd hlt (lt_irrefl _)
  · intro h
    constructor
    · exact exists_last h
    · exact fun current rest hleads herases => length_of_erases herases (h current hleads)
    · intro current it available n callback hleads hround
      exact (of_round hround).2.2.2.1
    · intro current hleads hround
      have hheader := (round_eq_undefined_iff current).mp hround
      exact h current hleads ((stuck_iff current).mpr (.inl hheader))

/-- A message whose length is zero modulo 2^64. -/
def wrappingText : Bytes := ascii "8=FIX.4.2\x019=18446744073709551577\x01"

/-- **The loop does not end.**  The length is 32 for the header, 2^64 - 39 for the body and 7. -/
theorem not_terminates_wrappingText : ¬ Terminates wrappingText := by
  have hround : round wrappingText = .erases 0 33 0 none := by decide +kernel
  intro h
  have herases : Erases wrappingText wrappingText := ⟨0, 33, 0, none, hround, rfl⟩
  exact absurd (h.removes _ _ .refl herases) (lt_irrefl _)

end FixParser.Stream
