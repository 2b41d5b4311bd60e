/-
# The echo server

`handle_client` of `echo_server.cpp`: each chunk that `recv` returns is decoded, and what the
decode buffer, the type and the length hold then is encoded and sent back.  The three are not
initialized, and `decoder` does not say whether it filled them.
-/
import FastServer.ProtocolCodec

namespace EchoServer

open ArrayCopy Protocol

/-! ## One chunk -/

/-- `BUFFER_SIZE`. -/
def bufferSize : ℕ := 4096

/-- What the variables of `handle_client` hold before a chunk is received. -/
structure Locals where
  buffer : List UInt8
  decode : List UInt8
  type : UInt8
  data_len : UInt32
  out : List UInt8
  length_buffer : buffer.length = bufferSize
  length_decode : decode.length = bufferSize
  length_out : out.length = bufferSize

/-- The bytes that are passed to `send` for a chunk. -/
def handleChunk (l : Locals) (chunk : List UInt8) : Option (List UInt8) :=
  let buffer := chunk ++ l.buffer.drop chunk.length
  (decoder (some buffer) chunk.length ⟨some l.type, some l.decode, some l.data_len⟩).bind
    fun outs =>
      match outs with
      | ⟨some type, some decode, some data_len⟩ =>
          (encoder type decode data_len (some l.out) bufferSize).bind fun sent =>
            sent.1.bind fun out => readRange out 0 sent.2
      | _ => none

/-! ## The property -/

/-- The chunk has a complete frame. -/
def Complete (chunk : List UInt8) : Prop := 5 + lengthField chunk ≤ chunk.length

instance (chunk : List UInt8) : Decidable (Complete chunk) := inferInstanceAs (Decidable (_ ≤ _))

/-- The chunk alone determines the reply, and nothing is sent without a complete frame. -/
def Determined (chunk : List UInt8) : Prop :=
  ∃ reply, (∀ l, handleChunk l chunk = some reply) ∧ (¬ Complete chunk → reply = [])

/-- The length field is there and the sum with it does not wrap, and the frame is complete or
too long for the output. -/
def Definite (chunk : List UInt8) : Prop :=
  5 ≤ chunk.length ∧ 5 + lengthField chunk < 2 ^ 32 ∧
    (Complete chunk ∨ bufferSize < 5 + lengthField chunk)

/-! ## The buffer -/

variable {l : Locals} {chunk : List UInt8}

theorem length_buffer (hchunk : chunk.length ≤ bufferSize) :
    (chunk ++ l.buffer.drop chunk.length).length = bufferSize := by
  rw [List.length_append, List.length_drop, l.length_buffer]
  omega

/-- The length field is inside the chunk. -/
theorem lengthField_buffer (hfive : 5 ≤ chunk.length) :
    lengthField (chunk ++ l.buffer.drop chunk.length) = lengthField chunk := by
  rw [lengthField, lengthField, List.drop_append_of_le_length (by omega),
    List.take_append_of_le_length (by rw [List.length_drop]; omega)]

/-- A loop that leaves its source is undefined. -/
theorem copyLoop_eq_none {f : ℕ → UInt8 → UInt8} {src dst : List UInt8} {srcAt dstAt : ℕ → ℕ}
    {i n : ℕ} (hi : i < n) (hsrc : src.length ≤ srcAt i) :
    copyLoop f src srcAt dstAt dst n = none := by
  induction n with
  | zero => exact absurd hi (Nat.not_lt_zero i)
  | succ n ih =>
    rw [copyLoop]
    rcases Nat.lt_succ_iff_lt_or_eq.mp hi with hlt | rfl
    · rw [ih hlt]
      rfl
    · rw [List.getElem?_eq_none hsrc]
      cases copyLoop f src srcAt dstAt dst i <;> rfl

/-! ## The cases of `decoder` -/

/-- A chunk that is too short for the header leaves all as it was. -/
theorem decoder_short {input : List UInt8} {in_size : ℕ} {outs : Outputs} (h : in_size < 5) :
    decoder (some input) in_size outs = some outs := by
  rcases outs with ⟨_ | type, _ | data, _ | len⟩ <;> try rfl
  rw [decoder]
  exact if_pos h

/-! ## The replies -/

/-- A frame that was encoded is sent as it is. -/
theorem send_frame {data : List UInt8} {data_len : UInt32} (type : UInt8)
    (hdata : data_len.toNat ≤ data.length) (hsize : 5 + data_len.toNat ≤ bufferSize) :
    (encoder type data data_len (some l.out) bufferSize).bind
        (fun sent => sent.1.bind fun out => readRange out 0 sent.2) =
      some (frame type (data.take data_len.toNat)) := by
  have hsmall : bufferSize < 2 ^ 32 := by decide
  have hframe : (frame type (data.take data_len.toNat)).length = 5 + data_len.toNat := by
    rw [length_frame, List.length_take_of_le hdata]
  rw [encoder_eq type (by omega) hdata hsize (by rw [l.length_out]; exact hsize), Option.bind_some,
    Option.bind_some, readRange_eq (by rw [List.length_append, hframe]; omega), List.drop_zero,
    List.take_left' hframe]

/-- A complete frame is sent back. -/
theorem handleChunk_complete (hchunk : chunk.length ≤ bufferSize) (hcomplete : Complete chunk) :
    handleChunk l chunk = some (chunk.take (5 + lengthField chunk)) := by
  have hbound : 5 + lengthField chunk ≤ chunk.length := hcomplete
  have hfield := @lengthField_buffer l chunk (by omega)
  have hlength := @length_buffer l chunk hchunk
  have hsmall : bufferSize < 2 ^ 32 := by decide
  obtain ⟨type, data, data_len, hdecoded, hencoded⟩ := @encoder_of_decoder
    (chunk ++ l.buffer.drop chunk.length) l.decode l.out chunk.length bufferSize l.type l.data_len
    (by rw [hlength]; exact hchunk) (by rw [hfield]; exact hbound) (by rw [hfield]; omega)
    (by rw [hfield, l.length_decode]; omega) (by rw [hfield]; omega) l.length_out.ge
  rw [hfield] at hencoded
  have htake : ((chunk ++ l.buffer.drop chunk.length).take (5 + lengthField chunk)).length =
      5 + lengthField chunk := by
    rw [List.length_take_of_le]
    rw [hlength]
    omega
  rw [handleChunk, hdecoded, Option.bind_some]
  dsimp only
  rw [hencoded, Option.bind_some, Option.bind_some,
    readRange_eq (by rw [List.length_append, htake]; omega), List.drop_zero, List.take_left' htake,
    List.take_append_of_le_length hbound]

/-- What is encoded after a header without its data is what the decode buffer held. -/
theorem handleChunk_header (hchunk : chunk.length ≤ bufferSize) (hfive : 5 ≤ chunk.length)
    (hwrap : 5 + lengthField chunk < 2 ^ 32) (hpart : ¬ Complete chunk) :
    ∃ type, handleChunk l chunk = (encoder type l.decode (UInt32.ofNat (lengthField chunk))
      (some l.out) bufferSize).bind fun sent => sent.1.bind fun out => readRange out 0 sent.2 := by
  have hfield := @lengthField_buffer l chunk hfive
  have hheader : chunk.length < plusHeader (UInt32.ofNat (lengthField chunk)) := by
    rw [plusHeader_ofNat hwrap]
    exact not_le.mp hpart
  rcases chunk with _ | ⟨type, rest⟩
  · exact absurd hfive (by decide)
  · refine ⟨type, ?_⟩
    rw [handleChunk, decoder_header l.type l.data_len hfive (by rw [length_buffer hchunk]; exact hchunk),
      hfield, if_pos hheader, Option.bind_some]
    rfl

/-- Where the sum with the length wraps, the loop leaves the buffer. -/
theorem handleChunk_wraps (hchunk : chunk.length ≤ bufferSize) (hfive : 5 ≤ chunk.length)
    (hwrap : 2 ^ 32 ≤ 5 + lengthField chunk) : handleChunk l chunk = none := by
  have hfield := @lengthField_buffer l chunk hfive
  have hlength := @length_buffer l chunk hchunk
  have hlt := lengthField_lt chunk
  have hnat := toNat_lengthField chunk
  have hheader : plusHeader (UInt32.ofNat (lengthField chunk)) = 5 + lengthField chunk - 2 ^ 32 := by
    rw [plusHeader, UInt32.toNat_add, hnat]
    show (5 + lengthField chunk) % 2 ^ 32 = _
    omega
  -- the loop comes to the byte behind the buffer before it comes to its end
  have hfar : (chunk ++ l.buffer.drop chunk.length).length ≤ plusHeader (UInt32.ofNat 4091) := by
    rw [hlength]
    decide
  rw [handleChunk, decoder_header l.type l.data_len hfive (by rw [hlength]; exact hchunk), hfield,
    if_neg (by rw [hheader]; omega), hnat, copyLoop_eq_none (by omega : 4091 < lengthField chunk) hfar]
  rfl

/-- Variables that hold zeros. -/
def zeros : Locals where
  buffer := List.replicate bufferSize 0
  decode := List.replicate bufferSize 0
  type := 0
  data_len := 0
  out := List.replicate bufferSize 0
  length_buffer := List.length_replicate
  length_decode := List.length_replicate
  length_out := List.length_replicate

/-- **The reply is determined exactly if** the chunk has its length field, the sum with it does
not wrap, and the frame is complete or too long for the output. -/
theorem determined_iff_definite {chunk : List UInt8} (hchunk : chunk.length ≤ bufferSize) :
    Determined chunk ↔ Definite chunk := by
  have hsmall : bufferSize < 2 ^ 32 := by decide
  constructor
  · rintro ⟨reply, hreply, hnothing⟩
    have hzeros := hreply zeros
    rcases Nat.lt_or_ge chunk.length 5 with hshort | hfive
    · -- an empty frame is sent for a chunk without a header
      have hpart : ¬ Complete chunk := fun hcomplete => by
        have hbound : 5 + lengthField chunk ≤ chunk.length := hcomplete
        omega
      have hsent : handleChunk zeros chunk = some (frame 0 []) := by
        rw [handleChunk, decoder_short hshort, Option.bind_some]
        exact send_frame 0 (Nat.zero_le _) (by decide)
      rw [hsent, hnothing hpart] at hzeros
      cases hzeros
    · rcases Nat.lt_or_ge (5 + lengthField chunk) (2 ^ 32) with hwrap | hwrap
      · refine ⟨hfive, hwrap, ?_⟩
        -- otherwise the decode buffer is encoded as it was
        by_contra hneither
        obtain ⟨hpart, hfits⟩ := not_or.mp hneither
        obtain ⟨type, hsent⟩ := @handleChunk_header zeros chunk hchunk hfive hwrap hpart
        have hnat := toNat_lengthField chunk
        rw [send_frame type (by rw [hnat, zeros.length_decode]; omega)
          (by rw [hnat]; exact not_lt.mp hfits), hzeros, hnothing hpart] at hsent
        cases hsent
      · rw [handleChunk_wraps hchunk hfive hwrap] at hzeros
        cases hzeros
  · rintro ⟨hfive, hwrap, hcomplete | hlong⟩
    · exact ⟨_, fun l => handleChunk_complete hchunk hcomplete,
        fun hpart => absurd hcomplete hpart⟩
    · refine ⟨[], fun l => ?_, fun _ => rfl⟩
      have hpart : ¬ Complete chunk := fun hcomplete => by
        have hbound : 5 + lengthField chunk ≤ chunk.length := hcomplete
        omega
      obtain ⟨type, hsent⟩ := @handleChunk_header l chunk hchunk hfive hwrap hpart
      have hheader : bufferSize < plusHeader (UInt32.ofNat (lengthField chunk)) := by
        rw [plusHeader_ofNat hwrap]
        exact hlong
      rw [hsent, encoder, if_pos hheader, Option.bind_some, Option.bind_some,
        readRange_eq (Nat.zero_le _), List.take_zero]

/-- A frame with one byte of data and the beginning of another one. -/
theorem determined_oneFrame : Determined [7, 1, 0, 0, 0, 0x4B, 7, 9] :=
  (determined_iff_definite (by decide)).mpr ⟨by decide, by decide, Or.inl (by decide)⟩

/-- Two runs in which `recv` returns one byte and the type held different values: what is sent
differs. -/
theorem not_determined_oneByte :
    handleChunk zeros [1] = some [0, 0, 0, 0, 0] ∧
      handleChunk { zeros with type := 7 } [1] = some [7, 0, 0, 0, 0] ∧ ¬ Determined [1] := by
  have hzeros : handleChunk zeros [1] = some [0, 0, 0, 0, 0] := by decide +kernel
  have hseven : handleChunk { zeros with type := 7 } [1] = some [7, 0, 0, 0, 0] := by
    decide +kernel
  refine ⟨hzeros, hseven, ?_⟩
  rintro ⟨reply, hreply, -⟩
  have hsame := hzeros.symm.trans ((hreply zeros).trans
    ((hreply { zeros with type := 7 }).symm.trans hseven))
  exact absurd hsame (by decide)

end EchoServer
