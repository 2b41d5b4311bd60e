/-
# The frames of the echo protocol

`encoder` and `decoder` of `protocol.hpp`.  A frame is a type byte, the length of the data as
four bytes and the data, each byte moved by an offset that alternates.  The sums `5 + length`
and `5 + i` are of type `uint32_t`; an access outside an array is undefined.
-/
import FastServer.ArrayCopy
import FastServer.Framing

open ArrayCopy

namespace Protocol

/-! ## Loops over arrays -/

/-- The loops of `encoder` and `decoder`: in round `i` the byte at `from i` is changed by
`f i` and put at `to i`. -/
def copyLoop (f : ℕ → UInt8 → UInt8) (src : List UInt8) (srcAt dstAt : ℕ → ℕ)
    (dst : List UInt8) : ℕ → Option (List UInt8)
  | 0 => some dst
  | i + 1 => (copyLoop f src srcAt dstAt dst i).bind fun dst =>
      (src[srcAt i]?).bind fun byte => writeRange dst (dstAt i) [f i byte]

/-- The sum `5 + n` of type `uint32_t`. -/
def plusHeader (n : UInt32) : ℕ := (5 + n).toNat

/-! ## The functions -/

/-- The offset `i % 2 ? 0x51 : 0x4A`. -/
def offset (i : ℕ) : ℤ := if i % 2 ≠ 0 then 0x51 else 0x4A

/-- `static_cast<char>(data[i] + ...)`, where `data[i]` is a signed `char`. -/
def encodeByte (i : ℕ) (byte : UInt8) : UInt8 := (Int8.ofInt (byte.toInt8.toInt + offset i)).toUInt8

/-- `byte - ...` as a `char`, where `byte` is a `uint8_t`. -/
def decodeByte (i : ℕ) (byte : UInt8) : UInt8 := (Int8.ofInt ((byte.toNat : ℤ) - offset i)).toUInt8

/-- `encoder`: the output and the size returned. -/
def encoder (type : UInt8) (data : List UInt8) (data_len : UInt32) (output : Option (List UInt8))
    (out_size : ℕ) : Option (Option (List UInt8) × ℕ) :=
  match output with
  | none => some (none, 0)
  | some output =>
      if out_size < plusHeader data_len then some (some output, 0)
      else
        (writeRange output 0 [type]).bind fun output =>
        (writeRange output 1 (leBytes 4 data_len.toNat)).bind fun output =>
        (copyLoop encodeByte data id (fun i => plusHeader (UInt32.ofNat i)) output
          data_len.toNat).map fun output => (some output, plusHeader data_len)

/-- What the pointers of `decoder` point to, if they are not null. -/
structure Outputs where
  out_type : Option UInt8
  out_data : Option (List UInt8)
  out_len : Option UInt32
deriving DecidableEq

/-- `decoder`. -/
def decoder (input : Option (List UInt8)) (in_size : ℕ) (outs : Outputs) : Option Outputs :=
  match input, outs with
  | some input, ⟨some _, some data, some _⟩ =>
      if in_size < 5 then some outs
      else
        (readRange input 0 1).bind fun type =>
        (readRange input 1 4).bind fun bytes =>
        let len := UInt32.ofNat (ofLeBytes bytes)
        if in_size < plusHeader len then some ⟨type.head?, some data, some len⟩
        else
          (copyLoop decodeByte input (fun i => plusHeader (UInt32.ofNat i)) id data
            len.toNat).map fun data => ⟨type.head?, some data, some len⟩
  | _, _ => some outs

/-! ## Bytes -/

/-- A byte as a `uint8_t` and as a `char`. -/
theorem ofInt_toNat (byte : UInt8) : Int8.ofInt (byte.toNat : ℤ) = byte.toInt8 := by
  have hbits : ∀ b : Int8, Int8.ofInt (b.toUInt8.toNat : ℤ) = b := by
    intro b
    rw [Int8.ofInt_eq_ofNat]
    exact Int8.toBitVec_inj.mp (by simp)
  have hbyte := hbits byte.toInt8
  rwa [UInt8.toUInt8_toInt8] at hbyte

/-- Encoding adds the offset modulo 256. -/
theorem encodeByte_eq (i : ℕ) (byte : UInt8) :
    encodeByte i byte = (byte.toInt8 + Int8.ofInt (offset i)).toUInt8 := by
  rw [encodeByte, Int8.ofInt_add, Int8.ofInt_toInt]

/-- Decoding subtracts it. -/
theorem decodeByte_eq (i : ℕ) (byte : UInt8) :
    decodeByte i byte = (byte.toInt8 - Int8.ofInt (offset i)).toUInt8 := by
  rw [decodeByte, Int8.ofInt_sub, ofInt_toNat]

/-- The offsets cancel. -/
theorem decodeByte_encodeByte (i : ℕ) (byte : UInt8) :
    decodeByte i (encodeByte i byte) = byte := by
  rw [decodeByte_eq, encodeByte_eq, Int8.toInt8_toUInt8, Int8.add_sub_cancel,
    UInt8.toUInt8_toInt8]

theorem encodeByte_decodeByte (i : ℕ) (byte : UInt8) :
    encodeByte i (decodeByte i byte) = byte := by
  rw [encodeByte_eq, decodeByte_eq, Int8.toInt8_toUInt8, Int8.sub_add_cancel,
    UInt8.toUInt8_toInt8]

/-- The bytes of the data in a frame, and back. -/
theorem mapIdx_decodeByte_encodeByte (data : List UInt8) :
    (data.mapIdx encodeByte).mapIdx decodeByte = data := by
  refine List.ext_getElem (by simp) fun i _ _ => ?_
  rw [List.getElem_mapIdx, List.getElem_mapIdx, decodeByte_encodeByte]

theorem mapIdx_encodeByte_decodeByte (data : List UInt8) :
    (data.mapIdx decodeByte).mapIdx encodeByte = data := by
  refine List.ext_getElem (by simp) fun i _ _ => ?_
  rw [List.getElem_mapIdx, List.getElem_mapIdx, encodeByte_decodeByte]

/-! ## Frames as lists -/

/-- A sum that does not wrap. -/
theorem plusHeader_eq {n : UInt32} (h : 5 + n.toNat < 2 ^ 32) : plusHeader n = 5 + n.toNat := by
  rw [plusHeader, UInt32.toNat_add]
  exact Nat.mod_eq_of_lt h

theorem plusHeader_ofNat {i : ℕ} (h : 5 + i < 2 ^ 32) : plusHeader (UInt32.ofNat i) = 5 + i := by
  have hi : (UInt32.ofNat i).toNat = i := UInt32.toNat_ofNat_of_lt' (by
    show i < 2 ^ 32
    omega)
  rw [plusHeader_eq (by rw [hi]; exact h), hi]

/-- **A loop over two ranges** that lie in their arrays changes the one to the images of the
bytes in the other. -/
theorem copyLoop_eq {f : ℕ → UInt8 → UInt8} {src dst : List UInt8} {srcAt dstAt : ℕ → ℕ}
    {s d n : ℕ} (hsrc : ∀ i < n, srcAt i = s + i) (hdst : ∀ i < n, dstAt i = d + i)
    (hs : s + n ≤ src.length) (hd : d + n ≤ dst.length) :
    copyLoop f src srcAt dstAt dst n =
      some (dst.take d ++ ((src.drop s).take n).mapIdx f ++ dst.drop (d + n)) := by
  induction n with
  | zero => simp [copyLoop]
  | succ n ih =>
    have hbefore := ih (fun i hi => hsrc i (Nat.lt_succ_of_lt hi))
      (fun i hi => hdst i (Nat.lt_succ_of_lt hi)) (by omega) (by omega)
    have hlt : s + n < src.length := by omega
    -- the last round adds the image of the last byte
    have hlast : (src.drop s).take (n + 1) = (src.drop s).take n ++ [src[s + n]] := by
      rw [List.take_add_one, List.getElem?_drop, List.getElem?_eq_getElem hlt]
      rfl
    have htake : ((src.drop s).take n).length = n := by
      rw [List.length_take, List.length_drop]
      omega
    have hfront : (dst.take d ++ ((src.drop s).take n).mapIdx f).length = d + n := by
      rw [List.length_append, List.length_mapIdx, htake, List.length_take]
      omega
    rw [copyLoop, hbefore, Option.bind_some, hsrc n (Nat.lt_succ_self n),
      List.getElem?_eq_getElem hlt, Option.bind_some, hdst n (Nat.lt_succ_self n)]
    have hroom : d + n + [f n src[s + n]].length ≤
        (dst.take d ++ ((src.drop s).take n).mapIdx f ++ dst.drop (d + n)).length := by
      rw [List.length_append, hfront, List.length_drop, List.length_singleton]
      omega
    rw [writeRange_eq hroom, List.take_left' hfront, hlast, List.mapIdx_append]
    have hdrop : (dst.take d ++ ((src.drop s).take n).mapIdx f ++ dst.drop (d + n)).drop
        (d + n + [f n src[s + n]].length) = dst.drop (d + (n + 1)) := by
      rw [← List.drop_drop, List.drop_left' hfront, List.drop_drop, List.length_singleton,
        Nat.add_assoc]
    rw [hdrop, htake]
    simp [List.append_assoc]

/-! ## Frames -/

/-- The bytes of a frame. -/
def frame (type : UInt8) (data : List UInt8) : List UInt8 :=
  [type] ++ leBytes 4 data.length ++ data.mapIdx encodeByte

theorem length_frame (type : UInt8) (data : List UInt8) :
    (frame type data).length = 5 + data.length := by
  simp only [frame, List.length_append, List.length_singleton, length_leBytes, List.length_mapIdx]

/-- The length field of a frame. -/
def lengthField (input : List UInt8) : ℕ := ofLeBytes ((input.drop 1).take 4)

theorem lengthField_lt (input : List UInt8) : lengthField input < 2 ^ 32 := by
  refine (ofLeBytes_lt _).trans_le ?_
  calc 256 ^ ((input.drop 1).take 4).length
      ≤ 256 ^ 4 := Nat.pow_le_pow_right (by decide) (List.length_take_le _ _)
    _ = 2 ^ 32 := by decide

theorem toNat_lengthField (input : List UInt8) :
    (UInt32.ofNat (lengthField input)).toNat = lengthField input :=
  UInt32.toNat_ofNat_of_lt' (lengthField_lt input)

/-- The type, a number of four bytes and the data are written one behind the other. -/
theorem store_header {data output : List UInt8} {data_len : UInt32} (type : UInt8) (field : ℕ)
    (hwrap : 5 + data_len.toNat < 2 ^ 32) (hdata : data_len.toNat ≤ data.length)
    (hout : 5 + data_len.toNat ≤ output.length) :
    ((writeRange output 0 [type]).bind fun output =>
      (writeRange output 1 (leBytes 4 field)).bind fun output =>
      copyLoop encodeByte data id (fun i => plusHeader (UInt32.ofNat i)) output data_len.toNat) =
        some ([type] ++ leBytes 4 field ++ (data.take data_len.toNat).mapIdx encodeByte ++
          output.drop (5 + data_len.toNat)) := by
  have htype : writeRange output 0 [type] = some ([type] ++ output.drop 1) :=
    writeRange_eq (by rw [List.length_singleton]; omega)
  have hfield : writeRange ([type] ++ output.drop 1) 1 (leBytes 4 field) =
      some ([type] ++ leBytes 4 field ++ output.drop 5) := by
    have hroom : 1 + (leBytes 4 field).length ≤ ([type] ++ output.drop 1).length := by
      simp only [length_leBytes, List.length_append, List.length_singleton, List.length_drop]
      omega
    rw [writeRange_eq hroom, length_leBytes]
    simp
  have hfront : ([type] ++ leBytes 4 field).length = 5 := by
    rw [List.length_append, length_leBytes, List.length_singleton]
  have hloop := @copyLoop_eq encodeByte data ([type] ++ leBytes 4 field ++ output.drop 5)
    id (fun i => plusHeader (UInt32.ofNat i)) 0 5 data_len.toNat
    (fun i _ => (Nat.zero_add i).symm) (fun i hi => plusHeader_ofNat (by omega)) (by omega)
    (by rw [List.length_append, hfront, List.length_drop]; omega)
  rw [htype, Option.bind_some, hfield, Option.bind_some, hloop, List.take_left' hfront,
    List.drop_zero, ← List.drop_drop, List.drop_left' hfront, List.drop_drop]

/-- **`encoder`** writes a frame. -/
theorem encoder_eq {data output : List UInt8} {data_len : UInt32} {out_size : ℕ} (type : UInt8)
    (hwrap : 5 + data_len.toNat < 2 ^ 32) (hdata : data_len.toNat ≤ data.length)
    (hsize : 5 + data_len.toNat ≤ out_size) (hout : 5 + data_len.toNat ≤ output.length) :
    encoder type data data_len (some output) out_size =
      some (some (frame type (data.take data_len.toNat) ++ output.drop (5 + data_len.toNat)),
        5 + data_len.toNat) := by
  have hheader : plusHeader data_len = 5 + data_len.toNat := plusHeader_eq hwrap
  have hlen : (data.take data_len.toNat).length = data_len.toNat := List.length_take_of_le hdata
  have hwritten := store_header type data_len.toNat hwrap hdata hout
  have hresult := congrArg (Option.map fun output => (some output, 5 + data_len.toNat)) hwritten
  simp only [Option.map_bind, Function.comp_def, Option.map_some] at hresult
  rw [encoder, if_neg (by rw [hheader]; omega), hheader, frame, hlen]
  exact hresult

/-- The header is read, whatever follows. -/
theorem decoder_header {input out_data : List UInt8} {in_size : ℕ} (out_type : UInt8)
    (out_len : UInt32) (hfive : 5 ≤ in_size) (hin : in_size ≤ input.length) :
    decoder (some input) in_size ⟨some out_type, some out_data, some out_len⟩ =
      if in_size < plusHeader (UInt32.ofNat (lengthField input)) then
        some ⟨input.head?, some out_data, some (UInt32.ofNat (lengthField input))⟩
      else
        (copyLoop decodeByte input (fun i => plusHeader (UInt32.ofNat i)) id out_data
          (UInt32.ofNat (lengthField input)).toNat).map fun data =>
            ⟨input.head?, some data, some (UInt32.ofNat (lengthField input))⟩ := by
  have hhead : ((input.drop 0).take 1).head? = input.head? := by
    rw [List.drop_zero, List.head?_take, if_neg Nat.one_ne_zero]
  rw [decoder]
  dsimp only
  rw [if_neg (by omega), readRange_eq (by omega), Option.bind_some, readRange_eq (by omega),
    Option.bind_some, hhead]
  rfl

/-- **`decoder`** reads the type, the length and the data of a frame that is there. -/
theorem decoder_eq {input out_data : List UInt8} {in_size : ℕ} (out_type : UInt8)
    (out_len : UInt32) (hwrap : 5 + lengthField input < 2 ^ 32)
    (hsize : 5 + lengthField input ≤ in_size) (hin : in_size ≤ input.length)
    (hdata : lengthField input ≤ out_data.length) :
    decoder (some input) in_size ⟨some out_type, some out_data, some out_len⟩ =
      some ⟨input.head?, some ((((input.drop 5).take (lengthField input)).mapIdx decodeByte) ++
        out_data.drop (lengthField input)), some (UInt32.ofNat (lengthField input))⟩ := by
  have hnat := toNat_lengthField input
  have hheader : plusHeader (UInt32.ofNat (lengthField input)) = 5 + lengthField input :=
    plusHeader_ofNat hwrap
  have hloop := @copyLoop_eq decodeByte input out_data (fun i => plusHeader (UInt32.ofNat i)) id
    5 0 (lengthField input) (fun i hi => plusHeader_ofNat (by omega))
    (fun i _ => (Nat.zero_add i).symm) (by omega) (by omega)
  rw [decoder_header out_type out_len (by omega) hin, if_neg (by rw [hheader]; omega), hnat, hloop,
    Option.map_some, List.take_zero, List.nil_append, Nat.zero_add]

/-- A frame at the front of the input. -/
theorem frame_decode {input : List UInt8} (hin : 5 + lengthField input ≤ input.length) :
    ∃ type, input.head? = some type ∧
      frame type (((input.drop 5).take (lengthField input)).mapIdx decodeByte) =
        input.take (5 + lengthField input) := by
  rcases input with _ | ⟨type, rest⟩
  · exact absurd hin (by simp)
  · refine ⟨type, rfl, ?_⟩
    have hrest : 4 + lengthField (type :: rest) ≤ rest.length := by
      rw [List.length_cons] at hin
      omega
    have hfield : ((type :: rest).drop 1).take 4 = rest.take 4 := rfl
    have hfour : (rest.take 4).length = 4 := List.length_take_of_le (by omega)
    have hbytes : leBytes 4 (lengthField (type :: rest)) = rest.take 4 := by
      rw [lengthField, hfield]
      have hrecover := leBytes_ofLeBytes (rest.take 4)
      rwa [hfour] at hrecover
    have hpayload : (((type :: rest).drop 5).take (lengthField (type :: rest))).length =
        lengthField (type :: rest) := by
      rw [List.length_take_of_le]
      rw [List.length_drop, List.length_cons]
      omega
    rw [frame, List.length_mapIdx, hpayload, hbytes, mapIdx_encodeByte_decodeByte,
      show 5 + lengthField (type :: rest) = (4 + lengthField (type :: rest)) + 1 by omega,
      List.take_succ_cons, List.take_add]
    rfl

/-- The parts of a frame that is followed by more bytes. -/
theorem lengthField_frame (type : UInt8) {data : List UInt8} (more : List UInt8)
    (hlen : data.length < 2 ^ 32) : lengthField (frame type data ++ more) = data.length := by
  have hfield : ((frame type data ++ more).drop 1).take 4 = leBytes 4 data.length := by
    show (leBytes 4 data.length ++ data.mapIdx encodeByte ++ more).take 4 = _
    rw [List.append_assoc, List.take_left' (length_leBytes 4 _)]
  rw [lengthField, hfield]
  exact ofLeBytes_leBytes hlen

theorem payload_frame (type : UInt8) (data more : List UInt8) :
    ((frame type data ++ more).drop 5).take data.length = data.mapIdx encodeByte := by
  have hfront : ([type] ++ leBytes 4 data.length).length = 5 := by
    rw [List.length_append, length_leBytes, List.length_singleton]
  rw [frame, List.append_assoc, List.drop_left' hfront, List.take_left' List.length_mapIdx]

/-- Encoding what was decoded from a frame. -/
theorem encoder_of_decoder {input out_data output : List UInt8} {in_size out_size : ℕ}
    (out_type : UInt8) (out_len : UInt32) (hin : in_size ≤ input.length)
    (hfits : 5 + lengthField input ≤ in_size) (hwrap : 5 + lengthField input < 2 ^ 32)
    (hroom : lengthField input ≤ out_data.length) (hsize : 5 + lengthField input ≤ out_size)
    (hout : out_size ≤ output.length) :
    ∃ type data data_len, decoder (some input) in_size
          ⟨some out_type, some out_data, some out_len⟩ =
        some ⟨some type, some data, some data_len⟩ ∧
      encoder type data data_len (some output) out_size =
        some (some (input.take (5 + lengthField input) ++ output.drop (5 + lengthField input)),
          5 + lengthField input) := by
  have hnat := toNat_lengthField input
  have hdecoded := decoder_eq out_type out_len hwrap hfits hin hroom
  obtain ⟨type, hhead, hframe⟩ := frame_decode (hfits.trans hin)
  rw [hhead] at hdecoded
  refine ⟨type, _, _, hdecoded, ?_⟩
  have hpayload : ((((input.drop 5).take (lengthField input)).mapIdx decodeByte)).length =
      lengthField input := by
    rw [List.length_mapIdx, List.length_take_of_le]
    rw [List.length_drop]
    omega
  rw [encoder_eq type (by rw [hnat]; exact hwrap) (by rw [hnat, List.length_append, hpayload]; omega)
    (by rw [hnat]; exact hsize) (by rw [hnat]; exact hsize.trans hout), hnat,
    List.take_left' hpayload, hframe]

/-- **`encoder` and `decoder` are inverse to each other.**  Decoding what was encoded, with any
bytes behind it, gives the type, the length and the data; and encoding what was decoded from a
frame gives the bytes of the frame. -/
theorem decoder_encoder :
    (∀ (type : UInt8) (data : List UInt8) (data_len : UInt32) (output more : List UInt8)
        (out_size : ℕ) (out_type : UInt8) (out_data : List UInt8) (out_len : UInt32),
      data.length = data_len.toNat → 5 + data.length < 2 ^ 32 → 5 + data.length ≤ out_size →
      out_size ≤ output.length → data.length ≤ out_data.length →
      ∃ output', encoder type data data_len (some output) out_size =
          some (some output', 5 + data.length) ∧
        decoder (some (output'.take (5 + data.length) ++ more)) (5 + data.length + more.length)
            ⟨some out_type, some out_data, some out_len⟩ =
          some ⟨some type, some (data ++ out_data.drop data.length), some data_len⟩) ∧
    ∀ (input : List UInt8) (in_size : ℕ) (output : List UInt8) (out_size : ℕ) (out_type : UInt8)
        (out_data : List UInt8) (out_len : UInt32),
      in_size ≤ input.length → 5 + lengthField input ≤ min in_size (2 ^ 32 - 1) →
      lengthField input ≤ out_data.length → 5 + lengthField input ≤ out_size →
      out_size ≤ output.length →
      ∃ type data data_len, decoder (some input) in_size
            ⟨some out_type, some out_data, some out_len⟩ =
          some ⟨some type, some data, some data_len⟩ ∧
        encoder type data data_len (some output) out_size =
          some (some (input.take (5 + lengthField input) ++ output.drop (5 + lengthField input)),
            5 + lengthField input) := by
  constructor
  · intro type data data_len output more out_size out_type out_data out_len hlen hwrap hsize hout
      hroom
    have hall : data.take data.length = data := List.take_length
    have hencoded := @encoder_eq data output data_len out_size type (by rw [← hlen]; exact hwrap)
      hlen.ge (by rw [← hlen]; exact hsize) (by rw [← hlen]; exact hsize.trans hout)
    rw [← hlen, hall] at hencoded
    refine ⟨_, hencoded, ?_⟩
    rw [List.take_left' (length_frame type data)]
    have hfield := lengthField_frame type more (show data.length < 2 ^ 32 by omega)
    have hbound : 5 + data.length + more.length ≤ (frame type data ++ more).length := by
      rw [List.length_append, length_frame]
    rw [decoder_eq out_type out_len (by rw [hfield]; exact hwrap) (by rw [hfield]; omega) hbound
      (by rw [hfield]; exact hroom), hfield, payload_frame, mapIdx_decodeByte_encodeByte, hlen,
      UInt32.ofNat_toNat]
    rfl
  · intro input in_size output out_size out_type out_data out_len hin hfits hroom hsize hout
    obtain ⟨hfits, hwrap⟩ := le_min_iff.mp hfits
    exact encoder_of_decoder out_type out_len hin hfits (by omega) hroom hsize hout

/-- Bytes on both sides of the sign, with a carry, at even and odd places. -/
theorem decoder_encoder_signs :
    (∃ output', encoder 0xFF [0x80, 0xFF, 0x35, 0x36] 4 (some (List.replicate 12 0)) 12 =
        some (some output', 9) ∧
      decoder (some (output'.take 9 ++ [1, 2])) 11 ⟨some 0, some [0, 0, 0, 0, 7], some 9⟩ =
        some ⟨some 0xFF, some [0x80, 0xFF, 0x35, 0x36, 7], some 4⟩) ∧
    ∃ type data data_len, decoder (some [9, 2, 0, 0, 0, 0x10, 0xF0, 1]) 8
        ⟨some 0, some [0, 0, 0], some 0⟩ = some ⟨some type, some data, some data_len⟩ ∧
      encoder type data data_len (some (List.replicate 7 0)) 7 =
        some (some [9, 2, 0, 0, 0, 0x10, 0xF0], 7) :=
  ⟨decoder_encoder.1 0xFF [0x80, 0xFF, 0x35, 0x36] 4 (List.replicate 12 0) [1, 2] 12 0
      [0, 0, 0, 0, 7] 9 rfl (by decide) (by decide) (by decide) (by decide),
    decoder_encoder.2 [9, 2, 0, 0, 0, 0x10, 0xF0, 1] 8 (List.replicate 7 0) 7 0 [0, 0, 0] 0
      (by decide) (by decide) (by decide) (by decide) (by decide)⟩

end Protocol
