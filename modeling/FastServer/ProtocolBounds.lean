/-
# Which bytes the echo protocol touches

The tests of `protocol.hpp` compare a size with `5 + length` of type `uint32_t`.  In memories
that are as long as the sizes say, every access is inside exactly when this sum does not wrap,
or the test fails all the same, or the sizes are as large as the sum.
-/
import FastServer.EchoServer

open ArrayCopy

namespace Protocol

/-! ## Loops over arrays -/

variable {f : ℕ → UInt8 → UInt8} {src dst : List UInt8} {srcAt dstAt : ℕ → ℕ} {n : ℕ}

/-- **A loop over two arrays** is defined exactly if all of its places are inside, and does not
change their lengths. -/
theorem copyLoop_spec : ((copyLoop f src srcAt dstAt dst n).isSome ↔
      ∀ i < n, srcAt i < src.length ∧ dstAt i < dst.length) ∧
    ∀ dst', copyLoop f src srcAt dstAt dst n = some dst' → dst'.length = dst.length := by
  induction n with
  | zero =>
    refine ⟨iff_of_true rfl fun i hi => absurd hi (Nat.not_lt_zero i), ?_⟩
    rintro dst' h
    rw [← Option.some.inj h]
  | succ n ih =>
    obtain ⟨hbefore, hlength⟩ := ih
    rw [copyLoop]
    cases hloop : copyLoop f src srcAt dstAt dst n with
    | none =>
      rw [hloop] at hbefore
      refine ⟨iff_of_false Bool.false_ne_true fun h => ?_, fun dst' h => by cases h⟩
      exact absurd (hbefore.mpr fun i hi => h i (Nat.lt_succ_of_lt hi)) Bool.false_ne_true
    | some dst' =>
      rw [hloop] at hbefore
      have hall := hbefore.mp rfl
      have hsame := hlength dst' hloop
      rw [Option.bind_some]
      by_cases hsrc : srcAt n < src.length
      · rw [List.getElem?_eq_getElem hsrc, Option.bind_some, writeRange_isSome_iff,
          List.length_singleton, hsame]
        constructor
        · constructor
          · intro h i hi
            rcases Nat.lt_succ_iff_lt_or_eq.mp hi with hlt | rfl
            · exact hall i hlt
            · exact ⟨hsrc, h⟩
          · exact fun h => (h n (Nat.lt_succ_self n)).2
        · exact fun dst'' h => (length_writeRange h).trans hsame
      · rw [List.getElem?_eq_none (not_lt.mp hsrc)]
        refine ⟨iff_of_false Bool.false_ne_true fun h => ?_, fun dst'' h => by cases h⟩
        exact hsrc (h n (Nat.lt_succ_self n)).1

theorem plusHeader_eq_mod (n : UInt32) : plusHeader n = (5 + n.toNat) % 2 ^ 32 :=
  UInt32.toNat_add 5 n

theorem plusHeader_ofNat_mod {i : ℕ} (h : i < 2 ^ 32) :
    plusHeader (UInt32.ofNat i) = (5 + i) % 2 ^ 32 := by
  rw [plusHeader_eq_mod, UInt32.toNat_ofNat_of_lt' h]

/-! ## What should hold -/

/-- **What is promised of `encoder`**: every byte it writes is in the `out_size` bytes of the
output. -/
def EncoderInside (data_len : UInt32) (out_size : ℕ) : Prop :=
  ∀ type data output, data_len.toNat ≤ data.length →
    (∀ bytes, output = some bytes → bytes.length = out_size) →
    (encoder type data data_len output out_size).isSome

/-- **What is promised of `decoder`**: every byte it reads is in the input, every byte it writes
in the `in_size - 5` bytes of the data, and the test lets complete frames pass only. -/
structure DecoderInside (input : List UInt8) : Prop where
  inside : ∀ outs : Outputs, (∀ bytes, outs.out_data = some bytes →
    bytes.length = input.length - 5) → (decoder (some input) input.length outs).isSome
  test : 5 ≤ input.length → ¬ input.length < plusHeader (UInt32.ofNat (lengthField input)) →
    5 + lengthField input ≤ input.length

/-- The sum does not wrap, or the output is shorter than what is left of it, or has a place for
every `uint32_t`. -/
def EncoderFits (data_len : UInt32) (out_size : ℕ) : Prop :=
  5 + data_len.toNat < 2 ^ 32 ∨ out_size < (5 + data_len.toNat) % 2 ^ 32 ∨ 2 ^ 32 ≤ out_size

/-- There is no length, or the sum with it does not wrap, or the frame is complete. -/
def DecoderFits (input : List UInt8) : Prop :=
  input.length < 5 ∨ 5 + lengthField input < 2 ^ 32 ∨ 5 + lengthField input ≤ input.length

/-! ## `encoder` -/

/-- The places of an output that is not too short for the test. -/
theorem encoder_isSome_iff {data output : List UInt8} {data_len : UInt32} {out_size : ℕ}
    (type : UInt8) (hdata : data_len.toNat ≤ data.length) (hout : output.length = out_size) :
    (encoder type data data_len (some output) out_size).isSome ↔
      out_size < (5 + data_len.toNat) % 2 ^ 32 ∨
        5 ≤ out_size ∧ ∀ i < data_len.toNat, (5 + i) % 2 ^ 32 < out_size := by
  have hlen : data_len.toNat < 2 ^ 32 := data_len.toNat_lt
  rw [encoder, plusHeader_eq_mod]
  by_cases htest : out_size < (5 + data_len.toNat) % 2 ^ 32
  · rw [if_pos htest]
    exact iff_of_true rfl (.inl htest)
  · rw [if_neg htest, or_iff_right htest]
    cases htype : writeRange output 0 [type] with
    | none =>
      have hshort : ¬ (writeRange output 0 [type]).isSome := by
        rw [htype]
        exact Bool.false_ne_true
      rw [writeRange_isSome_iff, List.length_singleton] at hshort
      exact iff_of_false Bool.false_ne_true (by omega)
    | some first =>
      have hfirst := length_writeRange htype
      rw [Option.bind_some]
      cases hfield : writeRange first 1 (leBytes 4 data_len.toNat) with
      | none =>
        have hshort : ¬ (writeRange first 1 (leBytes 4 data_len.toNat)).isSome := by
          rw [hfield]
          exact Bool.false_ne_true
        rw [writeRange_isSome_iff, length_leBytes] at hshort
        exact iff_of_false Bool.false_ne_true (by omega)
      | some second =>
        have hroom : (writeRange first 1 (leBytes 4 data_len.toNat)).isSome := by
          rw [hfield]
          rfl
        rw [writeRange_isSome_iff, length_leBytes] at hroom
        have hsecond := length_writeRange hfield
        rw [Option.bind_some, Option.isSome_map, copyLoop_spec.1]
        constructor
        · intro h
          refine ⟨by omega, fun i hi => ?_⟩
          have hplace := (h i hi).2
          rw [plusHeader_ofNat_mod (by omega)] at hplace
          omega
        · rintro ⟨-, h⟩ i hi
          have hplace := h i hi
          rw [plusHeader_ofNat_mod (by omega)]
          exact ⟨hi.trans_le hdata, by omega⟩

theorem encoderInside_iff (data_len : UInt32) (out_size : ℕ) :
    EncoderInside data_len out_size ↔ EncoderFits data_len out_size := by
  have hlen : data_len.toNat < 2 ^ 32 := data_len.toNat_lt
  constructor
  · intro h
    have hinside := h 0 (List.replicate data_len.toNat 0) (some (List.replicate out_size 0))
      List.length_replicate.ge fun bytes hbytes => by
        rw [← Option.some.inj hbytes, List.length_replicate]
    rw [encoder_isSome_iff 0 List.length_replicate.ge List.length_replicate] at hinside
    rcases hinside with htest | ⟨hfive, hplaces⟩
    · exact .inr (.inl htest)
    · by_contra hno
      rw [EncoderFits] at hno
      -- one of the places is just behind the output
      have hplace := hplaces (out_size - 5) (by omega)
      omega
  · rintro hfits type data (_ | output) hdata houtput
    · rfl
    · rw [encoder_isSome_iff type hdata (houtput output rfl)]
      rcases hfits with hwrap | htest | hlarge
      · by_cases hshort : out_size < (5 + data_len.toNat) % 2 ^ 32
        · exact .inl hshort
        · exact .inr ⟨by omega, fun i hi => by omega⟩
      · exact .inl htest
      · exact .inr ⟨by omega, fun i hi => by omega⟩

/-! ## `decoder` -/

/-- The places in the input and in the data, for a length that passes the test. -/
theorem decoder_isSome_iff {input out_data : List UInt8} (out_type : UInt8) (out_len : UInt32)
    (hfive : 5 ≤ input.length) :
    (decoder (some input) input.length ⟨some out_type, some out_data, some out_len⟩).isSome ↔
      input.length < (5 + lengthField input) % 2 ^ 32 ∨
        ∀ i < lengthField input, (5 + i) % 2 ^ 32 < input.length ∧ i < out_data.length := by
  have hlen := lengthField_lt input
  rw [decoder_header out_type out_len hfive le_rfl, plusHeader_ofNat_mod hlen,
    toNat_lengthField]
  by_cases htest : input.length < (5 + lengthField input) % 2 ^ 32
  · rw [if_pos htest]
    exact iff_of_true rfl (.inl htest)
  · rw [if_neg htest, or_iff_right htest, Option.isSome_map, copyLoop_spec.1]
    constructor
    · intro h i hi
      obtain ⟨hsrc, hdst⟩ := h i hi
      rw [plusHeader_ofNat_mod (by omega)] at hsrc
      exact ⟨hsrc, hdst⟩
    · intro h i hi
      rw [plusHeader_ofNat_mod (by omega)]
      exact h i hi

/-- Every byte is inside: the length is not read, or the loop ends before the input does. -/
theorem decoder_inside_iff (input : List UInt8) :
    (∀ outs : Outputs, (∀ bytes, outs.out_data = some bytes → bytes.length = input.length - 5) →
      (decoder (some input) input.length outs).isSome) ↔ DecoderFits input := by
  have hlen := lengthField_lt input
  constructor
  · intro h
    by_contra hno
    rw [DecoderFits] at hno
    have hinside := h ⟨some 0, some (List.replicate (input.length - 5) 0), some 0⟩
      fun bytes hbytes => by rw [← Option.some.inj hbytes, List.length_replicate]
    rw [decoder_isSome_iff 0 0 (by omega), List.length_replicate] at hinside
    rcases hinside with htest | hplaces
    · omega
    · -- one of the places is just behind the data
      have hplace := hplaces (input.length - 5) (by omega)
      omega
  · rintro hfits ⟨out_type, out_data, out_len⟩ hdata
    by_cases hshort : input.length < 5
    · rw [EchoServer.decoder_short hshort]
      rfl
    · rcases out_type with _ | out_type
      · rfl
      rcases out_data with _ | out_data
      · rfl
      rcases out_len with _ | out_len
      · rfl
      have hroom : out_data.length = input.length - 5 := hdata out_data rfl
      rw [decoder_isSome_iff out_type out_len (not_lt.mp hshort)]
      rcases hfits with h | hwrap | hcomplete
      · exact absurd h hshort
      · by_cases htest : input.length < (5 + lengthField input) % 2 ^ 32
        · exact .inl htest
        · exact .inr fun i hi => by omega
      · exact .inr fun i hi => by omega

/-- The test lets an incomplete frame pass exactly where the sum wraps. -/
theorem test_iff (input : List UInt8) : (5 ≤ input.length →
      ¬ input.length < plusHeader (UInt32.ofNat (lengthField input)) →
      5 + lengthField input ≤ input.length) ↔ DecoderFits input := by
  have hlen := lengthField_lt input
  rw [plusHeader_ofNat_mod hlen, DecoderFits]
  omega

theorem decoderInside_iff (input : List UInt8) : DecoderInside input ↔ DecoderFits input :=
  ⟨fun h => (decoder_inside_iff input).mp h.inside,
    fun h => ⟨(decoder_inside_iff input).mpr h, (test_iff input).mpr h⟩⟩

/-! ## Both sides -/

/-- **When every access is inside.** -/
theorem inside_iff (data_len : UInt32) (out_size : ℕ) (input : List UInt8) :
    (EncoderInside data_len out_size ↔ EncoderFits data_len out_size) ∧
      (DecoderInside input ↔ DecoderFits input) :=
  ⟨encoderInside_iff data_len out_size, decoderInside_iff input⟩

/-- **A length of `2^32 - 5` passes both tests**: the sum is zero. -/
theorem not_inside_wrapping :
    ¬ EncoderInside 0xFFFFFFFB 4096 ∧ ¬ DecoderInside [1, 0xFB, 0xFF, 0xFF, 0xFF] := by
  rw [encoderInside_iff, decoderInside_iff, EncoderFits, DecoderFits]
  decide +kernel

end Protocol
