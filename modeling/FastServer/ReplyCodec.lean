/-
# The bytes of requests and replies

`encoder` and `Coder::encodeData` of the example program, and what a reply of `CubeServer`
is made of.  Both functions write the size of the whole frame into its length field, and
`Coder::decode` reads it so; the reply has the length of the request's body there.
-/
import FastServer.FrameServer
import FastServer.ProtocolCodec

namespace Muduo

/-! ## Writing frames -/

/-- `encoder` of `main.cpp`: the output and the size returned. -/
def encoder (type : UInt8) (data : List UInt8) (data_len : UInt32) (output : Option (List UInt8))
    (out_size : ℕ) : Option (Option (List UInt8) × ℕ) :=
  match output with
  | none => some (none, 0)
  | some output =>
      if out_size < Protocol.plusHeader data_len then some (some output, 0)
      else
        let total_len := Protocol.plusHeader data_len
        (ArrayCopy.writeRange output 0 [type]).bind fun output =>
        (ArrayCopy.writeRange output 1 (leBytes 4 total_len)).bind fun output =>
        (Protocol.copyLoop Protocol.encodeByte data id
          (fun i => Protocol.plusHeader (UInt32.ofNat i)) output data_len.toNat).map
            fun output => (some output, total_len)

/-- `Data`.  A price of type `double` is its 64 bits. -/
structure Data where
  id : UInt64
  cvl : UInt32
  cto : UInt32
  lpr : UInt32
  opx : UInt32
  cpx : UInt64
  cpx_len : UInt32
  opx_len : UInt32
  bp : Vector Int32 5
  ap : Vector Int32 5
  bs : Vector Int32 5
  as : Vector Int32 5

namespace Data

/-- An array of five numbers in memory. -/
def levels (v : Vector Int32 5) : List UInt8 := v.toList.flatMap fun n => leBytes 4 n.toUInt32.toNat

/-- The memory of a packed `Data`. -/
def bytes (d : Data) : List UInt8 :=
  leBytes 8 d.id.toNat ++ leBytes 4 d.cvl.toNat ++ leBytes 4 d.cto.toNat ++ leBytes 4 d.lpr.toNat ++
    leBytes 4 d.opx.toNat ++ leBytes 8 d.cpx.toNat ++ leBytes 4 d.cpx_len.toNat ++
    leBytes 4 d.opx_len.toNat ++ levels d.bp ++ levels d.ap ++ levels d.bs ++ levels d.as

/-- `sizeof(Data)`. -/
def size : ℕ := 120

theorem length_levels (v : Vector Int32 5) : (levels v).length = 20 := by
  unfold levels
  rw [List.length_flatMap]
  simp only [length_leBytes]
  rw [List.map_const', List.sum_replicate, Vector.length_toList]
  rfl

theorem length_bytes (d : Data) : d.bytes.length = size := by
  simp only [bytes, List.length_append, length_leBytes, length_levels]
  rfl

end Data

/-- The `encodeData` of `Coder`: the output, which it resizes. -/
def Coder.encodeData (data : Data) : List UInt8 :=
  1 :: leBytes 4 (Data.size + 5) ++ data.bytes.mapIdx Protocol.encodeByte

/-! ## Bytes moved by their place -/

/-- The bytes as `encoder` writes them. -/
def obfuscate (bytes : List UInt8) : List UInt8 := bytes.mapIdx fun i byte => byte + Coder.kOffset i

/-- The offsets taken back. -/
def deobfuscate (bytes : List UInt8) : List UInt8 :=
  bytes.mapIdx fun i byte => byte - Coder.kOffset i

@[simp] theorem length_obfuscate (bytes : List UInt8) : (obfuscate bytes).length = bytes.length :=
  List.length_mapIdx

theorem deobfuscate_obfuscate (bytes : List UInt8) : deobfuscate (obfuscate bytes) = bytes := by
  refine List.ext_getElem (by simp [deobfuscate]) fun i _ _ => ?_
  simp only [deobfuscate, obfuscate, List.getElem_mapIdx]
  exact UInt8.add_sub_cancel _ _

/-- Offsets depend on the parity of the place. -/
theorem kOffset_add_of_even {n : ℕ} (hn : n % 2 = 0) (i : ℕ) :
    Coder.kOffset (i + n) = Coder.kOffset i := by
  have hparity : (i + n) % 2 = i % 2 := by omega
  unfold Coder.kOffset
  rw [hparity]

/-- An even number of bytes in front changes nothing. -/
theorem obfuscate_append {front : List UInt8} (heven : front.length % 2 = 0)
    (bytes : List UInt8) : obfuscate (front ++ bytes) = obfuscate front ++ obfuscate bytes := by
  unfold obfuscate
  rw [List.mapIdx_append]
  simp only [kOffset_add_of_even heven]

/-- The signed sum of `encoder` is the one of the other functions. -/
theorem encodeByte_eq_add (i : ℕ) (byte : UInt8) :
    Protocol.encodeByte i byte = byte + Coder.kOffset i := by
  rw [Protocol.encodeByte_eq, Int8.toUInt8_add, UInt8.toUInt8_toInt8]
  unfold Protocol.offset Coder.kOffset
  by_cases heven : i % 2 = 0
  · rw [if_pos heven, if_neg (not_not_intro heven)]
    rfl
  · rw [if_neg heven, if_pos heven]
    rfl

theorem mapIdx_encodeByte (bytes : List UInt8) :
    bytes.mapIdx Protocol.encodeByte = obfuscate bytes := by
  unfold obfuscate
  congr 1
  funext i byte
  exact encodeByte_eq_add i byte

/-- **`encoder`** writes the type, the size of the frame and the data moved. -/
theorem encoder_eq {data output : List UInt8} {data_len : UInt32} {out_size : ℕ} (type : UInt8)
    (hlen : data.length = data_len.toNat) (hwrap : 5 + data.length < 2 ^ 32)
    (hsize : 5 + data.length ≤ out_size) (hout : out_size ≤ output.length) :
    encoder type data data_len (some output) out_size =
      some (some ([type] ++ leBytes 4 (5 + data.length) ++ obfuscate data ++
        output.drop (5 + data.length)), 5 + data.length) := by
  have hheader : Protocol.plusHeader data_len = 5 + data.length := by
    rw [Protocol.plusHeader_eq (by omega), hlen]
  have hwritten := @Protocol.store_header data output data_len type (5 + data.length) (by omega)
    (by omega) (by omega)
  rw [← hlen, List.take_length, mapIdx_encodeByte] at hwritten
  have hresult := congrArg (Option.map fun output => (some output, 5 + data.length)) hwritten
  simp only [Option.map_bind, Function.comp_def, Option.map_some] at hresult
  rw [encoder, if_neg (by rw [hheader]; omega), hheader, ← hlen]
  exact hresult

/-! ## Replies -/

namespace CubeServer

/-- Whatever arrives, the answers are replies to some bodies. -/
theorem exists_replies {clock : ℕ → UInt64} {chunks : List (List UInt8)} {s : CubeServer}
    {answers : List Reply} (h : run clock new chunks = some (s, answers)) :
    ∃ bodies, answers = replies clock 0 bodies := by
  rcases run_spec clock waits_new chunks with ⟨-, hnone⟩ | ⟨bodies, rest, s', -, hsome, -⟩
  · rw [hnone] at h
    exact absurd h.symm (Option.some_ne_none _)
  · exact ⟨bodies, (Prod.mk.inj (Option.some.inj (h.symm.trans hsome))).2⟩

end CubeServer

/-! ## Time stamps -/

namespace Coder

/-- The bytes of a number, by their places. -/
theorem leBytes_eq_map_range (k n : ℕ) :
    leBytes k n = (List.range k).map fun i => UInt8.ofNat (n / 256 ^ i) := by
  induction k generalizing n with
  | zero => rfl
  | succ k ih =>
    have hrest : ((List.range k).map fun i => UInt8.ofNat (n / 256 / 256 ^ i)) =
        (List.range k).map fun i => UInt8.ofNat (n / 256 ^ (i + 1)) := by
      refine List.map_congr_left fun i _ => ?_
      rw [Nat.div_div_eq_div_mul, pow_succ']
    rw [leBytes, ih, hrest, List.range_succ_eq_map, List.map_cons, List.map_map, pow_zero,
      Nat.div_one]
    rfl

/-- A shift amount of whole bytes. -/
theorem two_pow_eight_mul (k : ℕ) : 2 ^ (8 * k) = 256 ^ k := by
  rw [pow_mul]
  norm_num

theorem toNat_eight_mul {k : ℕ} (hk : k < 8) : ((8 * k).toUInt64).toNat % 64 = 8 * k := by
  have hshift : ((8 * k).toUInt64).toNat = 8 * k :=
    UInt64.toNat_ofNat_of_lt' (by show 8 * k < 2 ^ 64; omega)
  omega

/-- A shift by whole bytes. -/
theorem shiftRight_toUInt8 (n : UInt64) {i : ℕ} (hi : i < 8) :
    (n >>> (8 * i).toUInt64).toUInt8 = UInt8.ofNat (n.toNat / 256 ^ i) := by
  apply UInt8.toNat_inj.mp
  rw [UInt64.toNat_toUInt8, UInt64.toNat_shiftRight, toNat_eight_mul hi,
    Nat.shiftRight_eq_div_pow, two_pow_eight_mul, UInt8.toNat_ofNat']

/-- The header of a reply: the type, a length and the clock as `encoder` writes it. -/
theorem encodeHeaderWithTimeStamp_eq (totalLen : ℕ) (current_time : UInt64) :
    encodeHeaderWithTimeStamp totalLen current_time =
      [3] ++ leBytes 4 totalLen ++ obfuscate (leBytes 8 current_time.toNat) := by
  have hstamp : ((List.range 8).map fun i =>
      ((current_time >>> (8 * i).toUInt64) + (kOffset i).toUInt64).toUInt8) =
        obfuscate (leBytes 8 current_time.toNat) := by
    unfold obfuscate
    rw [leBytes_eq_map_range]
    refine List.ext_getElem (by simp) fun i hi _ => ?_
    have hi : i < 8 := by simpa using hi
    simp only [List.getElem_map, List.getElem_range, List.getElem_mapIdx]
    rw [UInt64.toUInt8_add, UInt8.toUInt8_toUInt64, shiftRight_toUInt8 _ hi]
  rw [encodeHeaderWithTimeStamp, hstamp]
  rfl

/-- Or-ing a byte in above the bytes that are there. -/
theorem or_shiftLeft_toNat {acc : UInt64} {k : ℕ} (hk : k < 8) (hacc : acc.toNat < 256 ^ k)
    (byte : UInt8) :
    (acc ||| byte.toUInt64 <<< (8 * k).toUInt64).toNat = acc.toNat + 256 ^ k * byte.toNat := by
  have hbyte : byte.toNat < 2 ^ 8 := byte.toNat_lt
  have hroom : byte.toNat * 2 ^ (8 * k) < 2 ^ 64 := by
    calc byte.toNat * 2 ^ (8 * k)
        < 2 ^ 8 * 2 ^ (8 * k) := Nat.mul_lt_mul_of_pos_right hbyte (Nat.two_pow_pos _)
      _ = 2 ^ (8 + 8 * k) := (pow_add 2 8 (8 * k)).symm
      _ ≤ 2 ^ 64 := Nat.pow_le_pow_right (by decide) (by omega)
  rw [← two_pow_eight_mul] at hacc ⊢
  rw [UInt64.toNat_or, UInt64.toNat_shiftLeft, toNat_eight_mul hk, UInt8.toNat_toUInt64,
    Nat.shiftLeft_eq, Nat.mod_eq_of_lt hroom, ← Nat.shiftLeft_eq, Nat.or_comm,
    ← Nat.shiftLeft_add_eq_or_of_lt hacc, Nat.shiftLeft_eq, Nat.add_comm, Nat.mul_comm]

/-- **The loop of `decodeTimeStamp`** collects the bytes as the digits of a number. -/
theorem foldl_or_toNat (data : List UInt8) {k : ℕ} {acc : UInt64}
    (hk : k + data.length ≤ 8) (hacc : acc.toNat < 256 ^ k) :
    (((data.zipIdx k).map fun (byte, i) =>
        (byte - kOffset i).toUInt64 <<< (8 * i).toUInt64).foldl (· ||| ·) acc).toNat =
      acc.toNat + 256 ^ k * ofLeBytes ((data.zipIdx k).map fun (byte, i) => byte - kOffset i) := by
  induction data generalizing k acc with
  | nil => rfl
  | cons byte data ih =>
    rw [List.length_cons] at hk
    have hnext := or_shiftLeft_toNat (show k < 8 by omega) hacc (byte - kOffset k)
    have hbyte := (byte - kOffset k).toNat_lt
    have hgrown : acc.toNat + 256 ^ k * (byte - kOffset k).toNat < 256 ^ (k + 1) := by
      have hmul : 256 ^ k * (byte - kOffset k).toNat ≤ 256 ^ k * 255 :=
        Nat.mul_le_mul_left _ (by omega)
      rw [pow_succ]
      omega
    rw [List.zipIdx_cons, List.map_cons, List.map_cons, List.foldl_cons,
      ih (by omega) (by rw [hnext]; exact hgrown), hnext, ofLeBytes, pow_succ]
    ring

/-- **`decodeTimeStamp`** reads the number whose bytes were moved. -/
theorem decodeTimeStamp_eq {data : List UInt8} (h : data.length = 8) :
    decodeTimeStamp data = UInt64.ofNat (ofLeBytes (deobfuscate data)) := by
  have hloop := @foldl_or_toNat data 0 0 (by omega) (by decide)
  have hmoved : (data.zipIdx.map fun (byte, i) => byte - kOffset i) = deobfuscate data := by
    rw [deobfuscate, List.mapIdx_eq_zipIdx_map]
  have hlt := ofLeBytes_lt (deobfuscate data)
  rw [hmoved, UInt64.toNat_zero, pow_zero, one_mul, Nat.zero_add] at hloop
  apply UInt64.toNat_inj.mp
  rw [decodeTimeStamp, hloop, UInt64.toNat_ofNat_of_lt']
  rwa [deobfuscate, List.length_mapIdx, h] at hlt

/-- A time stamp and a payload behind it. -/
def stamped (timestamp : UInt64) (payload : List UInt8) : List UInt8 :=
  leBytes 8 timestamp.toNat ++ payload

/-- The time stamp is read whatever the payload. -/
theorem decodeTimeStamp_obfuscate (timestamp : UInt64) (payload : List UInt8) :
    decodeTimeStamp ((obfuscate (stamped timestamp payload)).take 8) = timestamp := by
  have hlen : (leBytes 8 timestamp.toNat).length = 8 := length_leBytes 8 _
  have heven : (leBytes 8 timestamp.toNat).length % 2 = 0 := by rw [hlen]
  have hfront : (obfuscate (leBytes 8 timestamp.toNat)).length = 8 := by
    rw [length_obfuscate, hlen]
  have hlt : timestamp.toNat < 256 ^ 8 := timestamp.toNat_lt
  rw [stamped, obfuscate_append heven, List.take_left' hfront, decodeTimeStamp_eq hfront,
    deobfuscate_obfuscate, ofLeBytes_leBytes hlt, UInt64.ofNat_toNat]

/-- What follows the first header of a reply, with the offsets taken back. -/
theorem deobfuscate_reply (server client : UInt64) (payload : List UInt8) :
    deobfuscate ((CubeServer.reply server (obfuscate (stamped client payload))).bytes.drop
      kHeaderLen) = leBytes 8 server.toNat ++ stamped client payload := by
  have heven : (leBytes 8 server.toNat).length % 2 = 0 := by rw [length_leBytes]
  unfold CubeServer.reply Reply.bytes
  dsimp only
  rw [encodeHeaderWithTimeStamp_eq, List.append_assoc, List.drop_left' (by
    rw [List.length_append, length_leBytes]; rfl), ← obfuscate_append heven, deobfuscate_obfuscate]

/-- **`decode`** logs the time stamp of the request in front. -/
theorem decode_timestamp {b : SimpleBuffer} {f : Frame} {rest : List UInt8}
    (h : b.Holds (f.bytes ++ rest)) :
    ∃ d, decode b = some d ∧ d.valid = true ∧
      d.timestamp = some (decodeTimeStamp (f.body.take 8)) := by
  have hlength := f.length_bytes
  have hstamped := f.stamped
  have hclaim := f.claimedLen_bytes rest
  have hlen : f.len = f.body.length + 5 := rfl
  have hall : (f.bytes ++ rest).length = f.len + rest.length := by
    rw [List.length_append, hlength]
  have hheader : kHeaderLen ≤ (f.bytes ++ rest).length := by
    unfold kHeaderLen
    omega
  obtain ⟨b', timestamp, hdecode, -, hread⟩ :=
    decode_of_ready h hheader rfl (by omega) (by omega)
  rw [f.drop_bytes, List.take_append_of_le_length hstamped] at hread
  exact ⟨_, hdecode, rfl, hread (by rw [List.length_append]; omega)⟩

/-- **Time stamps and payloads arrive.**  In a body that is a time stamp and a payload as
`encoder` writes them, `decodeTimeStamp` finds the time stamp; and behind the first five bytes
of the reply the offsets, counted from there, give the time stamp of the server, the one of the
client and the payload. -/
theorem timeStamps_recovered (client : UInt64) (payload : List UInt8) :
    decodeTimeStamp ((obfuscate (stamped client payload)).take 8) = client ∧
    (∀ server, deobfuscate
        ((CubeServer.reply server (obfuscate (stamped client payload))).bytes.drop kHeaderLen) =
      leBytes 8 server.toNat ++ stamped client payload) ∧
    (∀ (type : UInt8) (data_len : UInt32) (output : List UInt8) (out_size : ℕ),
      (stamped client payload).length = data_len.toNat →
      5 + (stamped client payload).length < 2 ^ 32 →
      5 + (stamped client payload).length ≤ out_size → out_size ≤ output.length →
      ∃ output' n, encoder type (stamped client payload) data_len (some output) out_size =
          some (some output', n) ∧
        (output'.take n).drop kHeaderLen = obfuscate (stamped client payload)) ∧
    (∀ (f : Frame) (b : SimpleBuffer) (rest : List UInt8), b.Holds (f.bytes ++ rest) →
      f.body = obfuscate (stamped client payload) →
      ∃ d, decode b = some d ∧ d.valid = true ∧ d.timestamp = some client) ∧
    ∀ (clock : ℕ → UInt64) (chunks : List (List UInt8)) (s : CubeServer) (answers : List Reply),
      CubeServer.run clock CubeServer.new chunks = some (s, answers) →
      ∀ (i : ℕ) (r : Reply), answers[i]? = some r → r.body = obfuscate (stamped client payload) →
        deobfuscate (r.bytes.drop kHeaderLen) =
          leBytes 8 (clock i).toNat ++ stamped client payload := by
  refine ⟨decodeTimeStamp_obfuscate client payload,
    fun server => deobfuscate_reply server client payload, ?_, ?_, ?_⟩
  · intro type data_len output out_size hlen hwrap hsize hout
    refine ⟨_, _, encoder_eq type hlen hwrap hsize hout, ?_⟩
    have hheader : ([type] ++ leBytes 4 (5 + (stamped client payload).length)).length = 5 := by
      rw [List.length_append, length_leBytes, List.length_singleton]
    rw [List.take_left' (by rw [List.length_append, hheader, length_obfuscate])]
    exact List.drop_left' hheader
  · intro f b rest h hbody
    obtain ⟨d, hd, hvalid, htimestamp⟩ := decode_timestamp h
    rw [hbody, decodeTimeStamp_obfuscate] at htimestamp
    exact ⟨d, hd, hvalid, htimestamp⟩
  · intro clock chunks s answers hrun i r hr hbody
    obtain ⟨bodies, rfl⟩ := CubeServer.exists_replies hrun
    rw [CubeServer.getElem?_replies, Nat.zero_add] at hr
    obtain ⟨body, -, rfl⟩ := Option.map_eq_some_iff.mp hr
    obtain rfl : body = obfuscate (stamped client payload) := hbody
    exact deobfuscate_reply (clock i) client payload

/-- A time stamp with all kinds of bytes and a payload of three, that is written, sent to a
server at clock 258 and answered. -/
theorem timeStamps_recovered_threeBytes :
    decodeTimeStamp ((obfuscate (stamped 0xFFB6AF0080352001 [0, 0xB6, 0xFF])).take 8) =
        0xFFB6AF0080352001 ∧
    deobfuscate ((CubeServer.reply 258
        (obfuscate (stamped 0xFFB6AF0080352001 [0, 0xB6, 0xFF]))).bytes.drop kHeaderLen) =
      [2, 1, 0, 0, 0, 0, 0, 0, 1, 0x20, 0x35, 0x80, 0, 0xAF, 0xB6, 0xFF, 0, 0xB6, 0xFF] ∧
    (∃ output' n, encoder 2 (stamped 0xFFB6AF0080352001 [0, 0xB6, 0xFF]) 11
        (some (List.replicate 20 0)) 20 = some (some output', n) ∧
      (output'.take n).drop kHeaderLen = obfuscate (stamped 0xFFB6AF0080352001 [0, 0xB6, 0xFF])) ∧
    ∃ s r, CubeServer.run (fun _ => 258) CubeServer.new
        [[2, 16, 0, 0, 0] ++ obfuscate (stamped 0xFFB6AF0080352001 [0, 0xB6, 0xFF])] =
          some (s, [r]) ∧
      deobfuscate (r.bytes.drop kHeaderLen) =
        leBytes 8 258 ++ stamped 0xFFB6AF0080352001 [0, 0xB6, 0xFF] := by
  obtain ⟨hread, hreply, hencoder, -, hrun⟩ :=
    timeStamps_recovered 0xFFB6AF0080352001 [0, 0xB6, 0xFF]
  refine ⟨hread, hreply 258, ?_, ?_⟩
  · exact hencoder 2 11 (List.replicate 20 0) 20 (by decide) (by decide) (by decide) (by decide)
  · have hanswers : (CubeServer.run (fun _ => 258) CubeServer.new [[2, 16, 0, 0, 0] ++
        obfuscate (stamped 0xFFB6AF0080352001 [0, 0xB6, 0xFF])]).map Prod.snd =
          some [CubeServer.reply 258 (obfuscate (stamped 0xFFB6AF0080352001 [0, 0xB6, 0xFF]))] := by
      decide +kernel
    obtain ⟨⟨s, answers⟩, hs, rfl⟩ := Option.map_eq_some_iff.mp hanswers
    exact ⟨s, _, hs, hrun (fun _ => 258) _ s _ hs 0 _ rfl rfl⟩

end Coder

/-! ## Cutting by the length field -/

namespace Coder

/-- The length field counts the bytes of the frame, header included. -/
def SelfFramed (bytes : List UInt8) : Prop :=
  kHeaderLen ≤ bytes.length ∧ Protocol.lengthField bytes = bytes.length

/-- A receiver's cut by the length field. -/
def cutByLength (s : List UInt8) : Cut UInt8 (List UInt8) :=
  if s.length < kHeaderLen ∨ s.length < Protocol.lengthField s then .more
  else if Protocol.lengthField s < kHeaderLen then .bad
  else .message (s.take (Protocol.lengthField s)) (s.drop (Protocol.lengthField s))

/-- A length field is not affected by the bytes after it. -/
theorem lengthField_append {s : List UInt8} (h : kHeaderLen ≤ s.length) (t : List UInt8) :
    Protocol.lengthField (s ++ t) = Protocol.lengthField s := by
  unfold kHeaderLen at h
  unfold Protocol.lengthField
  rw [List.drop_append_of_le_length (by omega), List.take_append_of_le_length]
  rw [List.length_drop]
  omega

/-- The length field behind any type. -/
theorem lengthField_header (type : UInt8) {n : ℕ} (hn : n < 2 ^ 32) (bytes : List UInt8) :
    Protocol.lengthField (type :: leBytes 4 n ++ bytes) = n := by
  have hfield : ((type :: leBytes 4 n ++ bytes).drop 1).take 4 = leBytes 4 n := by
    rw [List.cons_append, List.drop_one, List.tail_cons, List.take_left' (length_leBytes 4 n)]
  rw [Protocol.lengthField, hfield]
  exact ofLeBytes_leBytes hn

theorem cutByLength_of_ready {s : List UInt8} (hheader : kHeaderLen ≤ s.length)
    (hall : Protocol.lengthField s ≤ s.length) (hcover : kHeaderLen ≤ Protocol.lengthField s) :
    cutByLength s =
      .message (s.take (Protocol.lengthField s)) (s.drop (Protocol.lengthField s)) := by
  unfold cutByLength
  rw [if_neg (by omega), if_neg (by omega)]

theorem ready_of_cutByLength {s : List UInt8} {a rest : List UInt8}
    (h : cutByLength s = .message a rest) :
    kHeaderLen ≤ s.length ∧ Protocol.lengthField s ≤ s.length ∧
      kHeaderLen ≤ Protocol.lengthField s := by
  unfold cutByLength at h
  split_ifs at h with hmore hbad
  exact ⟨by omega, by omega, by omega⟩

/-- **The framing by the length field.** -/
def byLength : Framing UInt8 (List UInt8) where
  cut := cutByLength
  shorter := by
    intro s a rest h
    obtain ⟨hheader, hall, hcover⟩ := ready_of_cutByLength h
    rw [cutByLength_of_ready hheader hall hcover] at h
    obtain ⟨-, rfl⟩ := Cut.message.inj h
    unfold kHeaderLen at hcover
    rw [List.length_drop]
    omega
  message_append := by
    intro s a rest h t
    obtain ⟨hheader, hall, hcover⟩ := ready_of_cutByLength h
    rw [cutByLength_of_ready hheader hall hcover] at h
    obtain ⟨rfl, rfl⟩ := Cut.message.inj h
    have hlength : s.length ≤ (s ++ t).length := by simp
    have hfield := lengthField_append hheader t
    rw [cutByLength_of_ready (hheader.trans hlength) (by omega) (by omega), hfield,
      List.take_append_of_le_length hall, List.drop_append_of_le_length hall]
  bad_append := by
    intro s h t
    unfold cutByLength at h ⊢
    split_ifs at h with hmore hbad
    have hfield := lengthField_append (show kHeaderLen ≤ s.length by omega) t
    rw [hfield, List.length_append, if_neg (by omega), if_pos hbad]

theorem byLength_cut (s : List UInt8) : byLength.cut s = cutByLength s := rfl

/-- A frame in front that counts its bytes is cut off. -/
theorem cutByLength_append {f : List UInt8} (hf : SelfFramed f) (t : List UInt8) :
    cutByLength (f ++ t) = .message f t := by
  obtain ⟨hheader, hfield⟩ := hf
  have hsame := lengthField_append hheader t
  have hlength : f.length ≤ (f ++ t).length := by simp
  rw [cutByLength_of_ready (hheader.trans hlength) (by omega) (by omega), hsame, hfield,
    List.take_left, List.drop_left]

/-- **A receiver recovers the frames of a stream if and only if** each counts its bytes. -/
theorem split_byLength_iff (frames : List (List UInt8)) :
    byLength.split frames.flatten = some (frames, []) ↔ ∀ f ∈ frames, SelfFramed f := by
  induction frames with
  | nil =>
    have hmore : cutByLength [] = .more := if_pos (Or.inl (by decide))
    exact iff_of_true (Framing.split_of_more hmore) (by simp)
  | cons f frames ih =>
    rw [List.flatten_cons, List.forall_mem_cons]
    constructor
    · intro h
      cases hcut : byLength.cut (f ++ frames.flatten) with
      | more =>
        rw [Framing.split_of_more hcut] at h
        simp at h
      | bad =>
        rw [Framing.split_of_bad hcut] at h
        simp at h
      | message a rest =>
        rw [Framing.split_of_message hcut] at h
        obtain ⟨⟨frames', last⟩, hrest, heq⟩ := Option.map_eq_some_iff.mp h
        obtain ⟨hcons, rfl⟩ := Prod.mk.inj heq
        obtain ⟨rfl, rfl⟩ := List.cons.inj hcons
        obtain ⟨hheader, hall, hcover⟩ := ready_of_cutByLength hcut
        rw [byLength_cut, cutByLength_of_ready hheader hall hcover] at hcut
        obtain ⟨hfront, hback⟩ := Cut.message.inj hcut
        -- what was cut off is as long as the field says
        have hcount : a.length = Protocol.lengthField (a ++ frames'.flatten) := by
          rw [← hfront, List.length_take_of_le hall, hfront]
        have hself : kHeaderLen ≤ a.length := hcount ▸ hcover
        have hfield := lengthField_append hself frames'.flatten
        rw [← hcount, List.drop_left] at hback
        exact ⟨⟨hself, by omega⟩, ih.mp (hback ▸ hrest)⟩
    · rintro ⟨hf, hframes⟩
      have hcut : byLength.cut (f ++ frames.flatten) = .message f frames.flatten :=
        cutByLength_append hf _
      rw [Framing.split_of_message hcut, ih.mpr hframes]
      rfl

/-! ## Who counts the bytes -/

/-- `encoder` does. -/
theorem selfFramed_encoder (type : UInt8) {data : List UInt8} (h : 5 + data.length < 2 ^ 32) :
    SelfFramed ([type] ++ leBytes 4 (5 + data.length) ++ obfuscate data) := by
  have hlength : ([type] ++ leBytes 4 (5 + data.length) ++ obfuscate data).length =
      5 + data.length := by
    rw [List.length_append, List.length_append, length_leBytes, length_obfuscate,
      List.length_singleton]
  refine ⟨?_, ?_⟩
  · rw [hlength]
    exact Nat.le_add_right _ _
  · rw [hlength]
    exact lengthField_header type h _

/-- `encodeData` does. -/
theorem selfFramed_encodeData (data : Data) : SelfFramed (encodeData data) := by
  have hlength : (encodeData data).length = Data.size + 5 := by
    rw [encodeData, List.length_append, List.length_cons, length_leBytes, List.length_mapIdx,
      data.length_bytes]
    omega
  refine ⟨?_, ?_⟩
  · rw [hlength]
    decide
  · rw [hlength]
    exact lengthField_header 1 (by decide) _

/-- The requests that `decode` reads do. -/
theorem selfFramed_request (f : Frame) : SelfFramed f.bytes := by
  have hlength := f.length_bytes
  have hshort := f.short
  refine ⟨?_, ?_⟩
  · rw [hlength]
    exact Nat.le_add_left _ _
  · rw [hlength]
    exact lengthField_header 2 (by unfold Frame.len; omega) _

end Coder

namespace CubeServer

/-- The length field of a reply is the length of the body in it. -/
theorem lengthField_reply (t : UInt64) {body : List UInt8} (h : body.length < 2 ^ 32) :
    Protocol.lengthField (reply t body).bytes = body.length := by
  unfold reply Reply.bytes
  dsimp only
  rw [Coder.encodeHeaderWithTimeStamp_eq, List.append_assoc]
  exact Coder.lengthField_header 3 h _

/-- The answers to a sequence of requests, in any chunks. -/
theorem run_frames (clock : ℕ → UInt64) {frames : List Frame} {chunks : List (List UInt8)}
    (h : chunks.flatten = (frames.map Frame.bytes).flatten) :
    ∃ s, run clock new chunks = some (s, replies clock 0 (frames.map Frame.body)) := by
  have hsplit := Frame.encodes.split_flatten frames
  have hreceive := Framing.receive_eq_split Frame.encodes.empty chunks
  rw [List.nil_append, h, hsplit] at hreceive
  rcases run_spec clock waits_new chunks with ⟨hnone, -⟩ | ⟨bodies, rest, s, hsome, hrun, -⟩
  · rw [hreceive] at hnone
    exact absurd hnone (Option.some_ne_none _)
  · obtain ⟨rfl, -⟩ := Prod.mk.inj (Option.some.inj (hsome.symm.trans hreceive))
    exact ⟨s, hrun⟩

/-- **No reply counts its own bytes.**  The length field of each is 13 less than its size, and
a receiver that cuts the stream of replies by that field recovers them only if there are none. -/
theorem recovers_iff_nil (clock : ℕ → UInt64) (frames : List Frame) (chunks : List (List UInt8))
    (h : chunks.flatten = (frames.map Frame.bytes).flatten) :
    ∃ s answers, run clock new chunks = some (s, answers) ∧
      answers.length = frames.length ∧
      (∀ r ∈ answers, Protocol.lengthField r.bytes + 13 = r.bytes.length) ∧
      (Coder.byLength.split (answers.map Reply.bytes).flatten =
        some (answers.map Reply.bytes, []) ↔ frames = []) := by
  obtain ⟨s, hrun⟩ := run_frames clock h
  have hfields : ∀ r ∈ replies clock 0 (frames.map Frame.body),
      Protocol.lengthField r.bytes + 13 = r.bytes.length := by
    intro r hr
    obtain ⟨i, hi⟩ := List.mem_iff_getElem?.mp hr
    rw [getElem?_replies, List.getElem?_map, Option.map_map] at hi
    obtain ⟨f, -, rfl⟩ := Option.map_eq_some_iff.mp hi
    have hshort := f.short
    rw [Function.comp_apply, length_bytes_reply, lengthField_reply _ (by omega)]
    omega
  refine ⟨s, _, hrun, ?_, hfields, ?_⟩
  · rw [length_replies, List.length_map]
  · rw [Coder.split_byLength_iff, List.forall_mem_map]
    constructor
    · intro hframed
      cases frames with
      | nil => rfl
      | cons f frames =>
        have hfirst : reply (clock 0) f.body ∈ replies clock 0 ((f :: frames).map Frame.body) :=
          List.mem_cons_self
        have hself := (hframed _ hfirst).2
        have hfield := hfields _ hfirst
        omega
    · rintro rfl r hr
      exact absurd hr List.not_mem_nil

/-- A request with a time stamp only. -/
def stampOnly : Frame := ⟨[1, 2, 3, 4, 5, 6, 7, 8], by decide, by decide⟩

/-- **Two requests.**  Each reply has 21 bytes and 8 in its length field; the receiver takes the
first 8 bytes for a frame and the next 5 for a header that asks for more than 2 ^ 30 bytes. -/
theorem not_recovered_stampOnly :
    ∃ s answers, run (fun _ => 0) new [(stampOnly.bytes ++ stampOnly.bytes)] = some (s, answers) ∧
      answers.map (fun r => (Protocol.lengthField r.bytes, r.bytes.length)) = [(8, 21), (8, 21)] ∧
      (Coder.byLength.split (answers.map Reply.bytes).flatten).map (fun r =>
        (r.1, r.2.length, Protocol.lengthField r.2)) =
          some ([[3, 8, 0, 0, 0, 0x4A, 0x51, 0x4A]], 34, 0x514A514A) ∧
      Coder.byLength.split (answers.map Reply.bytes).flatten ≠
        some (answers.map Reply.bytes, []) := by
  have hanswers : (run (fun _ => 0) new [stampOnly.bytes ++ stampOnly.bytes]).map Prod.snd =
      some [reply 0 stampOnly.body, reply 0 stampOnly.body] := by
    decide +kernel
  obtain ⟨⟨s, answers⟩, hs, rfl⟩ := Option.map_eq_some_iff.mp hanswers
  refine ⟨s, _, hs, by decide +kernel, by decide +kernel, ?_⟩
  rw [ne_eq, Coder.split_byLength_iff]
  intro hframed
  exact absurd (hframed _ List.mem_cons_self).2 (by decide +kernel)

/-- The receiver recovers no reply to one request. -/
theorem recovers_iff_nil_stampOnly :
    ∃ s answers, run (fun _ => 0) new [stampOnly.bytes] = some (s, answers) ∧
      answers.length = 1 ∧
      ∀ r ∈ answers, Protocol.lengthField r.bytes + 13 = r.bytes.length := by
  obtain ⟨s, answers, hrun, hlength, hfields, -⟩ :=
    recovers_iff_nil (fun _ => 0) [stampOnly] [stampOnly.bytes] (by decide)
  exact ⟨s, answers, hrun, hlength, hfields⟩

end CubeServer

end Muduo
