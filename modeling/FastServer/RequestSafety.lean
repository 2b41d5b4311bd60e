/-
# Which byte streams the frame server survives

`Coder::decode` believes the length that a header claims.  The calls of `decode` that
`CubeServer::onMessage` makes are followed through a whole connection, and they are safe
exactly if the stream is a sequence of well-formed requests and the beginning of another
one.
-/
import FastServer.FrameServer

namespace Muduo

namespace Coder

/-! ## Safe calls of `decode` -/

/-- A header is there that no further bytes make a valid message of. -/
def Stuck (b : SimpleBuffer) : Prop :=
  kHeaderLen ≤ b.size ∧ ∃ header ∈ getMessageTypeLength b, header.1 ≠ 2 ∨ header.2 < 0

/-- A call of `decode` that is safe, with the calls that follow on a valid message: the
length of the body is not negative and at most what is left in the buffer, the eight bytes
of the time stamp are in the body, `send` reads the body inside the buffer and `advance`
goes past it, and a header that never becomes a message is discarded. -/
structure SafeDecode (b : SimpleBuffer) : Prop where
  nonneg : ∀ d ∈ decode b, d.valid = true → 0 ≤ d.messageBodyLen
  body : ∀ d ∈ decode b, d.valid = true → d.messageBodyLen ≤ d.buffer.size
  timestamp : ∀ d ∈ decode b, d.valid = true → 8 ≤ d.messageBodyLen
  send : ∀ d ∈ decode b, d.valid = true → (d.buffer.readBytes d.messageBodyLen.toNat).isSome
  advance : ∀ d ∈ decode b, d.valid = true → (d.buffer.advance d.messageBodyLen.toNat).isSome
  discards : Stuck b → ∀ d ∈ decode b, d.buffer.size < b.size

end Coder

namespace CubeServer

/-- The buffers that the loop of `onMessage` calls `decode` with. -/
def decodeCalls : ℕ → SimpleBuffer → List SimpleBuffer
  | 0, _ => []
  | n + 1, b =>
      b :: (((Coder.decode b).filter fun d => d.valid && decide (0 ≤ d.messageBodyLen)).bind
        fun d => (d.buffer.advance d.messageBodyLen.toNat).map (decodeCalls n)).getD []

/-- The buffers that `decode` is called with while the chunks of a connection arrive. -/
def calls (clock : ℕ → UInt64) : CubeServer → List (List UInt8) → List SimpleBuffer
  | _, [] => []
  | s, data :: chunks =>
      ((s.buffer.write data).map fun b => decodeCalls (b.size + 1) b).getD [] ++
        ((s.onMessage clock data).map fun r => calls clock r.1 chunks).getD []

end CubeServer

/-! ## The streams that are safe -/

namespace Coder

/-- The beginning of a request: too short for a header, or a header of type 2 with a
length that is not negative and not reached yet. -/
def Beginning (s : List UInt8) : Prop :=
  s.length < kHeaderLen ∨
    s.head? = some 2 ∧ 0 ≤ claimedLen s ∧ (s.length : ℤ) < claimedLen s

/-- A header of another type or with a negative length, or a whole message without room
for a time stamp. -/
def Malformed (s : List UInt8) : Prop :=
  kHeaderLen ≤ s.length ∧
    (s.head? ≠ some 2 ∨ claimedLen s < 0 ∨ claimedLen s ≤ s.length ∧ claimedLen s < 13)

/-- A whole request stands in front. -/
structure Whole (s : List UInt8) : Prop where
  header : kHeaderLen ≤ s.length
  type : s.head? = some 2
  stamped : 13 ≤ claimedLen s
  complete : claimedLen s ≤ s.length

instance : DecidablePred Beginning := fun s =>
  inferInstanceAs (Decidable (s.length < kHeaderLen ∨
    s.head? = some 2 ∧ 0 ≤ claimedLen s ∧ (s.length : ℤ) < claimedLen s))

instance : DecidablePred Malformed := fun s =>
  inferInstanceAs (Decidable (kHeaderLen ≤ s.length ∧
    (s.head? ≠ some 2 ∨ claimedLen s < 0 ∨ claimedLen s ≤ s.length ∧ claimedLen s < 13)))

/-- A sequence of well-formed requests and the beginning of another one. -/
def WellFramed (s : List UInt8) : Prop :=
  ∃ (frames : List Frame) (tail : List UInt8),
    s = (frames.map Frame.bytes).flatten ++ tail ∧ Beginning tail

/-- There is nothing else. -/
theorem whole_of_not {s : List UInt8} (hbeginning : ¬ Beginning s) (hmalformed : ¬ Malformed s) :
    Whole s := by
  unfold Beginning at hbeginning
  unfold Malformed at hmalformed
  push Not at hbeginning hmalformed
  obtain ⟨hheader, hcomplete⟩ := hbeginning
  obtain ⟨htype, hpos, hlong⟩ := hmalformed hheader
  have hall := hcomplete htype hpos
  exact ⟨hheader, htype, hlong hall, hall⟩

theorem Whole.not_beginning {s : List UInt8} (h : Whole s) : ¬ Beginning s := by
  rintro (hshort | ⟨-, -, hmore⟩)
  · exact absurd h.header (not_le.mpr hshort)
  · exact absurd h.complete (not_le.mpr hmore)

theorem Whole.not_malformed {s : List UInt8} (h : Whole s) : ¬ Malformed s := by
  rintro ⟨-, htype | hneg | ⟨-, hsmall⟩⟩
  · exact htype h.type
  · exact absurd h.stamped (by omega)
  · exact absurd h.stamped (by omega)

theorem Malformed.not_beginning {s : List UInt8} (h : Malformed s) : ¬ Beginning s := by
  obtain ⟨hheader, hwrong⟩ := h
  rintro (hshort | ⟨htype, hpos, hmore⟩)
  · omega
  · rcases hwrong with hwrong | hneg | ⟨hall, -⟩
    · exact hwrong htype
    · omega
    · omega

/-- A type does not depend on the bytes after the header. -/
theorem head?_append {s : List UInt8} (h : kHeaderLen ≤ s.length) (t : List UInt8) :
    (s ++ t).head? = s.head? := by
  cases s with
  | nil => exact absurd h (by decide)
  | cons b s => rfl

theorem Whole.append {s : List UInt8} (h : Whole s) (t : List UInt8) : Whole (s ++ t) := by
  have hclaim := claimedLen_append h.header t
  have hlength : s.length ≤ (s ++ t).length := by simp
  refine ⟨h.header.trans hlength, (head?_append h.header t).trans h.type, ?_, ?_⟩
  · rw [hclaim]
    exact h.stamped
  · rw [hclaim]
    have hall := h.complete
    omega

theorem Malformed.append {s : List UInt8} (h : Malformed s) (t : List UInt8) :
    Malformed (s ++ t) := by
  obtain ⟨hheader, hwrong⟩ := h
  have hlength : s.length ≤ (s ++ t).length := by simp
  refine ⟨hheader.trans hlength, ?_⟩
  rw [claimedLen_append hheader t, head?_append hheader t]
  rcases hwrong with htype | hneg | ⟨hall, hsmall⟩
  · exact Or.inl htype
  · exact Or.inr (Or.inl hneg)
  · exact Or.inr (Or.inr ⟨by omega, hsmall⟩)

/-- Cutting off well-formed requests only. -/
def strictCut (s : List UInt8) : Cut UInt8 (List UInt8) :=
  if Beginning s then .more
  else if Malformed s then .bad
  else .message ((s.drop kHeaderLen).take ((claimedLen s).toNat - kHeaderLen))
    (s.drop (claimedLen s).toNat)

theorem strictCut_of_whole {s : List UInt8} (h : Whole s) :
    strictCut s = .message ((s.drop kHeaderLen).take ((claimedLen s).toNat - kHeaderLen))
      (s.drop (claimedLen s).toNat) := by
  unfold strictCut
  rw [if_neg h.not_beginning, if_neg h.not_malformed]

theorem strictCut_of_malformed {s : List UInt8} (h : Malformed s) : strictCut s = .bad := by
  unfold strictCut
  rw [if_neg h.not_beginning, if_pos h]

theorem strictCut_of_beginning {s : List UInt8} (h : Beginning s) : strictCut s = .more :=
  if_pos h

/-- What is cut off is a whole request. -/
theorem whole_of_strictCut {s a rest : List UInt8} (h : strictCut s = .message a rest) :
    Whole s := by
  apply whole_of_not
  · intro hbeginning
    rw [strictCut_of_beginning hbeginning] at h
    exact absurd h (by simp)
  · intro hmalformed
    rw [strictCut_of_malformed hmalformed] at h
    exact absurd h (by simp)

theorem malformed_of_strictCut {s : List UInt8} (h : strictCut s = .bad) : Malformed s := by
  by_contra hmalformed
  by_cases hbeginning : Beginning s
  · rw [strictCut_of_beginning hbeginning] at h
    exact absurd h (by simp)
  · rw [strictCut_of_whole (whole_of_not hbeginning hmalformed)] at h
    exact absurd h (by simp)

theorem beginning_of_strictCut {s : List UInt8} (h : strictCut s = .more) : Beginning s := by
  by_contra hbeginning
  by_cases hmalformed : Malformed s
  · rw [strictCut_of_malformed hmalformed] at h
    exact absurd h (by simp)
  · rw [strictCut_of_whole (whole_of_not hbeginning hmalformed)] at h
    exact absurd h (by simp)

/-- The server cuts off a whole request. -/
theorem Whole.requestCut {s : List UInt8} (h : Whole s) : requestCut s = strictCut s := by
  have hstamped := h.stamped
  rw [requestCut_of_ready h.header h.type (by omega) h.complete, strictCut_of_whole h, if_neg]
  unfold kHeaderLen
  omega

/-- It waits for more of the beginning of one. -/
theorem Beginning.requestCut {s : List UInt8} (h : Beginning s) : requestCut s = .more := by
  unfold Coder.requestCut
  rw [if_pos]
  rcases h with hshort | ⟨-, -, hmore⟩
  · exact Or.inl hshort
  · exact Or.inr (Or.inr (Or.inr hmore))

/-- **The framing of well-formed requests.** -/
def strict : Framing UInt8 (List UInt8) where
  cut := strictCut
  shorter := by
    intro s a rest h
    have hwhole := whole_of_strictCut h
    have hheader := hwhole.header
    have hstamped := hwhole.stamped
    rw [strictCut_of_whole hwhole] at h
    obtain ⟨-, rfl⟩ := Cut.message.inj h
    unfold kHeaderLen at hheader
    rw [List.length_drop]
    omega
  message_append := by
    intro s a rest h t
    have hwhole := whole_of_strictCut h
    have hmessage : requestCut s = .message a rest := hwhole.requestCut.trans h
    exact (hwhole.append t).requestCut.symm.trans (requests.message_append hmessage t)
  bad_append := by
    intro s h t
    exact strictCut_of_malformed ((malformed_of_strictCut h).append t)

theorem strict_cut (s : List UInt8) : strict.cut s = strictCut s := rfl

theorem strict_nil : strict.cut [] = .more := by
  have hnil : Beginning [] := Or.inl (by decide)
  rw [strict_cut, strictCut_of_beginning hnil]

/-- Where only well-formed requests turn up, the server splits the stream as they do. -/
theorem split_of_strict {s rest : List UInt8} {bodies : List (List UInt8)}
    (h : strict.split s = some (bodies, rest)) : requests.split s = some (bodies, rest) := by
  induction s using strict.split_induction generalizing bodies with
  | more s hcut =>
    have hmore : requests.cut s = .more := (beginning_of_strictCut hcut).requestCut
    rw [Framing.split_of_more hcut] at h
    rw [Framing.split_of_more hmore, h]
  | bad s hcut =>
    rw [Framing.split_of_bad hcut] at h
    exact absurd h.symm (Option.some_ne_none _)
  | message s body rest' hcut ih =>
    rw [Framing.split_of_message hcut] at h
    obtain ⟨r, hr, heq⟩ := Option.map_eq_some_iff.mp h
    obtain ⟨rfl, rfl⟩ := Prod.mk.inj heq
    have hrequest : requests.cut s = .message body rest' :=
      (whole_of_strictCut hcut).requestCut.trans hcut
    rw [Framing.split_of_message hrequest, ih hr]
    rfl

/-- A whole request in front is a frame. -/
theorem Whole.exists_frame {s : List UInt8} (h : Whole s) :
    ∃ f : Frame, strictCut s = .message f.body (s.drop (claimedLen s).toNat) ∧
      s = f.bytes ++ s.drop (claimedLen s).toNat := by
  have hstamped := h.stamped
  have hcomplete := h.complete
  have hint := claimedLen_lt s
  have hlength : ((s.drop kHeaderLen).take ((claimedLen s).toNat - kHeaderLen)).length
      = (claimedLen s).toNat - 5 := by
    unfold kHeaderLen
    rw [List.length_take, List.length_drop]
    omega
  have hroom : 8 ≤ ((s.drop kHeaderLen).take ((claimedLen s).toNat - kHeaderLen)).length := by
    rw [hlength]
    omega
  have hshort : ((s.drop kHeaderLen).take ((claimedLen s).toNat - kHeaderLen)).length + 5
      < 2 ^ 31 := by
    rw [hlength]
    omega
  refine ⟨⟨_, hroom, hshort⟩, ?_, ?_⟩
  · rw [strictCut_of_whole h]
  · -- the header is the one that the frame writes
    have hfour : ((s.drop 1).take 4).length = 4 := by
      rw [List.length_take, List.length_drop]
      have hheader := h.header
      unfold kHeaderLen at hheader
      omega
    have hlt := ofLeBytes_lt ((s.drop 1).take 4)
    rw [hfour] at hlt
    have hclaim : claimedLen s = ofLeBytes ((s.drop 1).take 4) := by
      have hpos : 0 ≤ claimedLen s := by omega
      unfold claimedLen toI32 at hpos hint ⊢
      rw [Int.bmod_def] at hpos hint ⊢
      split_ifs at hpos hint ⊢ <;> omega
    have hbytes : leBytes 4 (claimedLen s).toNat = (s.drop 1).take 4 := by
      rw [hclaim, Int.toNat_natCast]
      have hback := leBytes_ofLeBytes ((s.drop 1).take 4)
      rwa [hfour] at hback
    have hhead : s = 2 :: s.drop 1 := by
      have htype := h.type
      cases s with
      | nil => exact absurd htype (by simp)
      | cons b s =>
        obtain rfl := Option.some.inj htype
        rfl
    have hcount : (claimedLen s).toNat - 5 + 5 = (claimedLen s).toNat := by omega
    unfold Frame.bytes Frame.len
    dsimp only
    rw [hlength, hcount, hbytes, List.append_assoc]
    have hsum : kHeaderLen + ((claimedLen s).toNat - kHeaderLen) = (claimedLen s).toNat := by
      unfold kHeaderLen
      omega
    have hdrop : s.drop (claimedLen s).toNat
        = (s.drop kHeaderLen).drop ((claimedLen s).toNat - kHeaderLen) := by
      rw [List.drop_drop, hsum]
    rw [hdrop, List.take_append_drop, List.cons_append]
    have hfive : s.drop kHeaderLen = (s.drop 1).drop 4 := by
      rw [List.drop_drop]
      rfl
    rw [hfive, List.take_append_drop]
    exact hhead

/-- **The safe streams** are those that are cut to the end. -/
theorem wellFramed_iff (s : List UInt8) : WellFramed s ↔ ∃ r, strict.split s = some r := by
  constructor
  · rintro ⟨frames, tail, rfl, htail⟩
    induction frames with
    | nil =>
      have hmore : strict.cut tail = .more := strictCut_of_beginning htail
      exact ⟨_, Framing.split_of_more hmore⟩
    | cons f frames ih =>
      obtain ⟨r, hr⟩ := ih
      rw [List.map_cons, List.flatten_cons, List.append_assoc]
      generalize (frames.map Frame.bytes).flatten ++ tail = rest at hr ⊢
      have hwhole : Whole (f.bytes ++ rest) := by
        have hstamped := f.stamped
        have hlen := f.length_bytes
        have hclaim := f.claimedLen_bytes rest
        refine ⟨?_, rfl, ?_, ?_⟩
        · rw [List.length_append, hlen]
          unfold Frame.len kHeaderLen
          omega
        · rw [hclaim]
          unfold Frame.len
          omega
        · rw [hclaim, List.length_append, hlen]
          omega
      have hcut : strict.cut (f.bytes ++ rest) = .message f.body rest := by
        rw [strict_cut, ← hwhole.requestCut, f.requestCut_bytes rest]
      exact ⟨_, (Framing.split_of_message hcut).trans (by rw [hr]; rfl)⟩
  · rintro ⟨r, hr⟩
    induction s using strict.split_induction generalizing r with
    | more s hcut => exact ⟨[], s, rfl, beginning_of_strictCut hcut⟩
    | bad s hcut =>
      rw [Framing.split_of_bad hcut] at hr
      exact absurd hr.symm (Option.some_ne_none _)
    | message s body rest hcut ih =>
      rw [Framing.split_of_message hcut] at hr
      obtain ⟨r', hr', -⟩ := Option.map_eq_some_iff.mp hr
      obtain ⟨frames, tail, hrest, htail⟩ := ih r' hr'
      obtain ⟨f, hmessage, hs⟩ := (whole_of_strictCut hcut).exists_frame
      obtain ⟨-, hsame⟩ := Cut.message.inj (hmessage.symm.trans hcut)
      refine ⟨f :: frames, tail, ?_, htail⟩
      rw [List.map_cons, List.flatten_cons, List.append_assoc, ← hrest, ← hsame]
      exact hs

/-! ## Which calls are safe -/

variable {b : SimpleBuffer} {bytes : List UInt8}

/-- Nothing happens to the beginning of a request. -/
theorem safeDecode_of_beginning (h : b.Holds bytes) (hbytes : Beginning bytes) :
    SafeDecode b := by
  have hdecode := decode_of_more h hbytes.requestCut
  have hinvalid : ∀ d ∈ decode b, d.valid ≠ true := by
    intro d hd
    obtain rfl := Option.some.inj (hdecode.symm.trans hd)
    simp
  refine ⟨?_, ?_, ?_, ?_, ?_, ?_⟩
  · exact fun d hd hvalid => absurd hvalid (hinvalid d hd)
  · exact fun d hd hvalid => absurd hvalid (hinvalid d hd)
  · exact fun d hd hvalid => absurd hvalid (hinvalid d hd)
  · exact fun d hd hvalid => absurd hvalid (hinvalid d hd)
  · exact fun d hd hvalid => absurd hvalid (hinvalid d hd)
  · -- the header, if it is there, is a good one
    rintro ⟨hheader, header, hread, hwrong⟩
    have hsize := h.size_eq
    rcases hbytes with hshort | ⟨htype, hpos, -⟩
    · omega
    · rw [getMessageTypeLength_eq h (by omega), htype, Option.map_some] at hread
      obtain rfl := Option.some.inj hread
      dsimp only at hwrong
      rcases hwrong with hwrong | hneg
      · exact absurd rfl hwrong
      · omega

/-- A whole request is decoded, and its body is inside the buffer. -/
theorem decode_of_whole (h : b.Holds bytes) (hbytes : Whole bytes) :
    ∃ d b', decode b = some d ∧ d.valid = true ∧ d.messageBodyLen = claimedLen bytes - 5 ∧
      d.buffer.Holds (bytes.drop kHeaderLen) ∧
      d.buffer.advance d.messageBodyLen.toNat = some b' ∧
      b'.Holds (bytes.drop (claimedLen bytes).toNat) := by
  have hstamped := hbytes.stamped
  have hcomplete := hbytes.complete
  obtain ⟨b₁, timestamp, hdecode, hholds, -⟩ :=
    decode_of_ready h hbytes.header hbytes.type (by omega) hcomplete
  have hbody : (claimedLen bytes - 5).toNat ≤ (bytes.drop kHeaderLen).length := by
    rw [List.length_drop]
    unfold kHeaderLen
    omega
  obtain ⟨b', hb', hholds', -⟩ := hholds.advance hbody
  have hcount : kHeaderLen + (claimedLen bytes - 5).toNat = (claimedLen bytes).toNat := by
    unfold kHeaderLen
    omega
  rw [List.drop_drop, hcount] at hholds'
  exact ⟨_, b', hdecode, rfl, rfl, hholds, hb', hholds'⟩

/-- Such a call is safe. -/
theorem safeDecode_of_whole (h : b.Holds bytes) (hbytes : Whole bytes) : SafeDecode b := by
  obtain ⟨d, b', hdecode, -, hlen, hholds, hb', -⟩ := decode_of_whole h hbytes
  have hstamped := hbytes.stamped
  have hcomplete := hbytes.complete
  have hsize := hholds.size_eq
  rw [List.length_drop] at hsize
  have hheader := hbytes.header
  unfold kHeaderLen at hsize hheader
  have heq : ∀ d' ∈ decode b, d' = d := fun d' hd' =>
    (Option.some.inj (hdecode.symm.trans hd')).symm
  refine ⟨?_, ?_, ?_, ?_, ?_, ?_⟩
  · intro d' hd' _
    rw [heq d' hd', hlen]
    omega
  · intro d' hd' _
    rw [heq d' hd', hlen, hsize]
    omega
  · intro d' hd' _
    rw [heq d' hd', hlen]
    omega
  · intro d' hd' _
    have hbody : d.messageBodyLen.toNat ≤ (bytes.drop kHeaderLen).length := by
      rw [List.length_drop, hlen]
      unfold kHeaderLen
      omega
    rw [heq d' hd', hholds.readBytes hbody]
    rfl
  · intro d' hd' _
    rw [heq d' hd', hb']
    rfl
  · intro _ d' hd'
    have hbefore := h.size_eq
    rw [heq d' hd', hsize]
    omega

/-- On malformed bytes the call is not safe. -/
theorem not_safeDecode_of_malformed (h : b.Holds bytes) (hbytes : Malformed bytes) :
    ¬ SafeDecode b := by
  intro hsafe
  obtain ⟨hheader, hwrong⟩ := hbytes
  have hsize := h.size_eq
  have hread := getMessageTypeLength_eq h hheader
  by_cases hstuck : bytes.head? ≠ some 2 ∨ claimedLen bytes < 0
  · -- the header stays in the buffer
    have hmore : requestCut bytes = .more := by
      unfold requestCut
      rw [if_pos]
      rcases hstuck with htype | hneg
      · exact Or.inr (Or.inl htype)
      · exact Or.inr (Or.inr (Or.inl hneg))
    have hdecode := decode_of_more h hmore
    have hblocked : Stuck b := by
      refine ⟨by omega, ?_⟩
      cases htype : bytes.head? with
      | none =>
        rw [List.head?_eq_none_iff.mp htype] at hheader
        exact absurd hheader (by decide)
      | some type =>
        rw [htype, Option.map_some] at hread
        refine ⟨_, hread, ?_⟩
        dsimp only
        refine hstuck.imp_left ?_
        intro hne heq
        exact hne (by rw [htype, heq])
    exact absurd (hsafe.discards hblocked _ hdecode) (lt_irrefl _)
  · push Not at hstuck
    rcases hwrong with htype | hneg | ⟨hcomplete, hsmall⟩
    · exact htype hstuck.1
    · exact absurd hneg (not_lt.mpr hstuck.2)
    · obtain ⟨b₁, timestamp, hdecode, -⟩ :=
        decode_of_ready h hheader hstuck.1 hstuck.2 hcomplete
      have hroom := hsafe.timestamp _ hdecode rfl
      unfold kHeaderLen at hroom
      dsimp only at hroom
      omega

end Coder

namespace CubeServer

variable {clock : ℕ → UInt64} {s : CubeServer} {b : SimpleBuffer} {bytes : List UInt8}

/-- The loop of `onMessage` goes on after a whole request only. -/
theorem decodeCalls_of_beginning {n : ℕ} (h : b.Holds bytes) (hbytes : Coder.Beginning bytes) :
    decodeCalls (n + 1) b = [b] := by
  rw [decodeCalls, Coder.decode_of_more h hbytes.requestCut]
  rfl

theorem decodeCalls_of_whole {n : ℕ} (h : b.Holds bytes) (hbytes : Coder.Whole bytes) :
    ∃ b' : SimpleBuffer, b'.Holds (bytes.drop (Coder.claimedLen bytes).toNat) ∧
      decodeCalls (n + 1) b = b :: decodeCalls n b' := by
  obtain ⟨d, b', hdecode, hvalid, hlen, -, hb', hholds⟩ := Coder.decode_of_whole h hbytes
  have hstamped := hbytes.stamped
  have hnonneg : 0 ≤ d.messageBodyLen := by omega
  refine ⟨b', hholds, ?_⟩
  rw [decodeCalls, hdecode, Option.filter_some_pos (by simp [hvalid, hnonneg]), Option.bind_some,
    hb']
  rfl

/-- **The calls of `decode` in one `onMessage`** are safe if only well-formed requests turn
up. -/
theorem decodeCalls_safe_iff {n : ℕ} (hn : bytes.length < n) (h : b.Holds bytes) :
    (∀ c ∈ decodeCalls n b, Coder.SafeDecode c) ↔ ∃ r, Coder.strict.split bytes = some r := by
  induction bytes using Coder.strict.split_induction generalizing n b with
  | more bytes hcut =>
    obtain ⟨n, rfl⟩ := Nat.exists_eq_succ_of_ne_zero (Nat.ne_zero_of_lt hn)
    have hbytes := Coder.beginning_of_strictCut hcut
    rw [decodeCalls_of_beginning h hbytes, Framing.split_of_more hcut]
    refine iff_of_true ?_ ⟨_, rfl⟩
    intro c hc
    obtain rfl := List.mem_singleton.mp hc
    exact Coder.safeDecode_of_beginning h hbytes
  | bad bytes hcut =>
    obtain ⟨n, rfl⟩ := Nat.exists_eq_succ_of_ne_zero (Nat.ne_zero_of_lt hn)
    have hbytes := Coder.malformed_of_strictCut hcut
    rw [Framing.split_of_bad hcut]
    refine iff_of_false ?_ ?_
    · intro hsafe
      exact Coder.not_safeDecode_of_malformed h hbytes (hsafe b List.mem_cons_self)
    · rintro ⟨r, hr⟩
      exact absurd hr.symm (Option.some_ne_none _)
  | message bytes body rest hcut ih =>
    have hshort := Coder.strict.shorter hcut
    obtain ⟨n, rfl⟩ := Nat.exists_eq_succ_of_ne_zero (Nat.ne_zero_of_lt hn)
    have hbytes := Coder.whole_of_strictCut hcut
    obtain ⟨b', hholds, hcalls⟩ := decodeCalls_of_whole (n := n) h hbytes
    obtain ⟨-, rfl⟩ := Cut.message.inj ((Coder.strictCut_of_whole hbytes).symm.trans hcut)
    have hrest := ih (n := n) (by omega) hholds
    rw [hcalls, List.forall_mem_cons, hrest, Framing.split_of_message hcut]
    constructor
    · rintro ⟨-, r, hr⟩
      exact ⟨_, by rw [hr]; rfl⟩
    · rintro ⟨r, hr⟩
      obtain ⟨r', hr', -⟩ := Option.map_eq_some_iff.mp hr
      exact ⟨Coder.safeDecode_of_whole h hbytes, r', hr'⟩

/-- The calls of `decode` from some point on. -/
theorem calls_safe_iff {k : ℕ} (h : s.Waits k bytes) (chunks : List (List UInt8)) :
    (∀ c ∈ calls clock s chunks, Coder.SafeDecode c) ↔
      ∃ r, Coder.strict.receive bytes chunks = some r := by
  induction chunks generalizing s k bytes with
  | nil => exact iff_of_true (fun c hc => absurd hc List.not_mem_nil) ⟨_, rfl⟩
  | cons data chunks ih =>
    obtain ⟨b, hb, hholds⟩ := h.holds.write data
    have hcalls : ∀ c, c ∈ calls clock s (data :: chunks) ↔ c ∈ decodeCalls (b.size + 1) b ∨
        c ∈ ((s.onMessage clock data).map fun r => calls clock r.1 chunks).getD [] := by
      intro c
      rw [calls, hb, List.mem_append]
      rfl
    have hsafe := decodeCalls_safe_iff (n := b.size + 1)
      (by rw [hholds.size_eq]; exact Nat.lt_succ_self _) hholds
    simp only [hcalls, or_imp, forall_and]
    rw [hsafe, Framing.receive]
    cases hsplit : Coder.strict.split (bytes ++ data) with
    | none =>
      refine iff_of_false ?_ ?_
      · rintro ⟨⟨r, hr⟩, -⟩
        exact absurd hr.symm (Option.some_ne_none _)
      · rintro ⟨r, hr⟩
        exact absurd hr.symm (Option.some_ne_none _)
    | some r =>
      obtain ⟨bodies, rest⟩ := r
      rcases onMessage_spec clock h data with ⟨hnone, -⟩ | ⟨bodies', rest', s', hsome, hmessage, hw⟩
      · rw [Coder.split_of_strict hsplit] at hnone
        exact absurd hnone (Option.some_ne_none _)
      · obtain ⟨rfl, rfl⟩ := Prod.mk.inj
          (Option.some.inj (hsome.symm.trans (Coder.split_of_strict hsplit)))
        rw [hmessage, Option.bind_some]
        have hrest := ih hw
        constructor
        · rintro ⟨-, hafter⟩
          obtain ⟨r, hr⟩ := hrest.mp hafter
          exact ⟨_, by rw [hr]; rfl⟩
        · rintro ⟨r, hr⟩
          obtain ⟨r', hr', -⟩ := Option.map_eq_some_iff.mp hr
          exact ⟨⟨_, rfl⟩, hrest.mpr ⟨r', hr'⟩⟩

/-- **The server is safe on a connection if and only if** the bytes that arrive are a
sequence of well-formed requests and the beginning of another one, whatever the chunks. -/
theorem safe_iff_wellFramed (clock : ℕ → UInt64) (chunks : List (List UInt8)) :
    (∀ b ∈ calls clock new chunks, Coder.SafeDecode b) ↔ Coder.WellFramed chunks.flatten := by
  rw [calls_safe_iff waits_new, Framing.receive_eq_split Coder.strict_nil, List.nil_append,
    Coder.wellFramed_iff]

/-- Headers that claim 3 and 9 bytes, one of type 1 and one with a negative length. -/
def badHeaders : List (List UInt8) :=
  [[2, 3, 0, 0, 0], [2, 9, 0, 0, 0, 1, 1, 1, 1], [1, 13, 0, 0, 0], [2, 0, 0, 0, 128]]

/-- **Four ways to go wrong.**  The first header is reported as a message with a body of
length -2, the second as one with a body of 4 bytes, of which 8 are read; the last two
stay in the buffer for good. -/
theorem not_safe_badHeaders :
    (badHeaders.map fun stream => (calls (fun _ => 0) new [stream]).map fun b =>
        (Coder.decode b).map fun d => (d.messageBodyLen, d.valid, d.buffer.size))
      = [[some (-2, true, 0)], [some (4, true, 4), some (0, false, 0)], [some (0, false, 5)],
        [some (0, false, 5)]] ∧
    ∀ stream ∈ badHeaders, ¬ ∀ b ∈ calls (fun _ => 0) new [stream], Coder.SafeDecode b := by
  refine ⟨by decide +kernel, ?_⟩
  have hmalformed : ∀ stream ∈ badHeaders, Coder.Malformed stream := by decide +kernel
  intro stream hstream hsafe
  obtain ⟨r, hr⟩ := (calls_safe_iff waits_new [stream]).mp hsafe
  have hbad : Coder.strict.cut stream = .bad :=
    Coder.strictCut_of_malformed (hmalformed stream hstream)
  rw [Framing.receive_eq_split Coder.strict_nil, List.nil_append, List.flatten_singleton,
    Framing.split_of_bad hbad] at hr
  exact absurd hr.symm (Option.some_ne_none _)

end CubeServer

end Muduo
