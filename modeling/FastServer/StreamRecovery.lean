/-
# How the streaming parser goes on behind bytes that are no message

Nothing in `parser.cpp` catches what a round of `process_buffer` throws, and what made it throw
stays in the buffer.  A part of the stream that is no message is passed over if every `8=FIX` in
it starts what the parser takes for a message, and this ends within the part.
-/
import FastServer.StreamTermination

namespace FixParser.Stream

open FIX42Protocol

/-! ## Calls of the callback with their places -/

/-- What the callback gets in `n` rounds, with the place of each message in the stream; the
buffer stands at `pos`. -/
def callsUpTo : ℕ → ℕ → Bytes → List (ℕ × Bytes)
  | 0, _, _ => []
  | n + 1, pos, buffer =>
      match step buffer with
      | .message callback rest =>
          (callback.toList.map fun msg =>
              (pos + (textBefore (ascii "8=FIX") buffer).length, msg))
            ++ callsUpTo n (pos + (buffer.length - rest.length)) rest
      | _ => []

def callsOf (pos : ℕ) (buffer : Bytes) : List (ℕ × Bytes) :=
  callsUpTo (buffer.length + 1) pos buffer

/-- What the callback gets in the calls of `on_data`, up to one that does not return. -/
def calls : ℕ → Bytes → List Bytes → List (ℕ × Bytes)
  | _, _, [] => []
  | pos, buffer, chunk :: chunks =>
      let received := buffer ++ chunk
      match (processBuffer received).2 with
      | .more left =>
          callsOf pos received ++ calls (pos + (received.length - left.length)) left chunks
      | _ => callsOf pos received

/-! ## What should hold -/

/-- A stream of messages, each behind bytes that are no message, and what follows the last. -/
def mixed (segments : List (Bytes × Msg)) (tail : Bytes) : Bytes :=
  (segments.flatMap fun e => e.1 ++ e.2.text) ++ tail

/-- The callback gets the message that stands at `q`, whole or without the `SOH` that ends it. -/
def GotAt (m : Msg) (q : ℕ) (cs : List (ℕ × Bytes)) : Prop :=
  ∃ msg, (msg = m.text ∨ msg = m.text.dropLast) ∧ (q, msg) ∈ cs

/-- **What the parser promises** for such a stream, in chunks: every call of `on_data` returns,
and the callback gets every message from where it stands. -/
structure Recovers (segments : List (Bytes × Msg)) (chunks : List Bytes) : Prop where
  returns : ∃ left, (run [] chunks).2 = .more left
  delivered : ∀ before junk m after, segments = before ++ (junk, m) :: after →
    GotAt m (mixed before junk).length (calls 0 [] chunks)

/-- The text starts with what the parser takes for a message of `n` bytes, and if there is a
`10=` in it, there is a number behind it. -/
structure Frame (s : Bytes) (n : ℕ) : Prop where
  header : header s = .total n
  pos : n ≠ 0
  within : n ≤ s.length
  number : validateChecksum (s.take n) ≠ none

/-- Every `8=FIX` that is found in the text, in front of `s`, starts a frame that ends within the
text. -/
inductive Skips (s : Bytes) : Bytes → Prop
  | garbage {g : Bytes} : found g = [] → Skips s g
  | frame {g : Bytes} {n : ℕ} : Frame (found g ++ s) n → n ≤ (found g).length →
      Skips s ((found g).drop n) → Skips s g

/-- The text is a sequence of frames, with bytes between them, and the beginning of another one:
without a complete number, or shorter than its length. -/
inductive Calm : Bytes → Prop
  | waits {s : Bytes} : header (found s) = .more → Calm s
  | short {s : Bytes} {n : ℕ} : header (found s) = .total n → (found s).length < n → Calm s
  | frame {s : Bytes} {n : ℕ} : Frame (found s) n → Calm ((found s).drop n) → Calm s

/-- The parser finds where the message ends, or the byte before. -/
def Msg.Readable (m : Msg) : Prop :=
  header m.text = .total m.text.length ∨ header m.text = .total (m.text.length - 1)

/-- Each part that is no message is passed over, and each message is readable. -/
def Passable : List (Bytes × Msg) → Bytes → Prop
  | [], _ => True
  | (junk, m) :: segments, tail =>
      Skips (m.text ++ mixed segments tail) junk ∧ m.Readable ∧ Passable segments tail

/-! ## The first `8=FIX` -/

/-- **A pattern is found where it starts** behind a text without it, if its first byte occurs
only once in it. -/
theorem textBefore_append_start {a : UInt8} {pat s g : Bytes} (ha : a ∉ pat) (hs : a :: pat <+: s)
    (hg : ¬ a :: pat <:+: g) : textBefore (a :: pat) (g ++ s) = g := by
  induction g with
  | nil => exact textBefore_eq_nil hs
  | cons b g ih =>
    rw [List.infix_cons_iff, not_or] at hg
    have hfront : ¬ a :: pat <+: b :: (g ++ s) := by
      intro hprefix
      rcases Nat.lt_or_ge (b :: g).length (a :: pat).length with hlt | hle
      · -- the pattern would reach over the place where it starts again
        have hpart : b :: g <+: a :: pat :=
          List.prefix_of_prefix_length_le (List.prefix_append (b :: g) s) hprefix hlt.le
        obtain ⟨u, hu⟩ := hpart
        rw [List.cons_append] at hu
        obtain ⟨rfl, rfl⟩ := List.cons.inj hu
        rw [List.cons_prefix_cons, List.prefix_append_right_inj] at hprefix
        obtain ⟨t, rfl⟩ := hs
        cases u with
        | nil => exact absurd hlt (by simp)
        | cons c u =>
          obtain ⟨rfl, -⟩ := List.cons_prefix_cons.mp hprefix.2
          exact ha (by simp)
      · exact hg.1 (List.prefix_of_prefix_length_le hprefix (List.prefix_append (b :: g) s) hle)
    rw [List.cons_append, textBefore_cons hfront, ih hg.2]

variable {buffer rest s g : Bytes} {callback : Option Bytes} {m : Msg}

/-- What is found in a text is found in a longer one. -/
theorem found_append (h : found buffer ≠ []) (t : Bytes) :
    found (buffer ++ t) = found buffer ++ t := by
  have hinfix : ascii "8=FIX" <:+: buffer := by
    have hsplit := textBefore_append_fromFirst (ascii "8=FIX") buffer
    rw [← hsplit]
    exact (prefix_fromFirst h).isInfix.trans (List.suffix_append _ _).isInfix
  have hle := (textBefore_isPrefix (ascii "8=FIX") buffer).length_le
  rw [found, textBefore_append_of_infix hinfix, List.drop_append_of_le_length hle, found]

/-- What is found is the text without what comes before. -/
theorem length_before_add (buffer : Bytes) :
    (textBefore (ascii "8=FIX") buffer).length + (found buffer).length = buffer.length := by
  have hsplit := congrArg List.length (textBefore_append_fromFirst (ascii "8=FIX") buffer)
  rw [List.length_append] at hsplit
  exact hsplit

/-- A start is found behind a text without one. -/
theorem found_append_start (hg : found g = []) (hs : ascii "8=FIX" <+: s) :
    found (g ++ s) = s ∧ (textBefore (ascii "8=FIX") (g ++ s)).length = g.length := by
  have hinfix : ¬ ascii "8=FIX" <:+: g := (fromFirst_eq_nil_iff (by decide)).mp hg
  have hbefore : textBefore (ascii "8=FIX") (g ++ s) = g :=
    textBefore_append_start (by decide) hs hinfix
  rw [found, hbefore, List.drop_left]
  exact ⟨rfl, rfl⟩

/-! ## Frames -/

/-- A length that was read does not change with more input. -/
theorem header_append {n : ℕ} (h : header s = .total n) (t : Bytes) :
    header (s ++ t) = .total n := by
  rcases header_cases s with ⟨pre, -, -, hheader⟩ | ⟨pre, c, digits, u, hpre, hdigits, rfl, hheader⟩
    | hheader | hheader
  · rw [hheader] at h
    exact Header.noConfusion h
  · rw [hheader] at h
    rw [List.append_assoc, List.cons_append, List.cons_append, List.append_assoc, List.cons_append,
      header_total hpre hdigits, h]
  · rw [hheader] at h
    exact Header.noConfusion h
  · rw [hheader] at h
    exact Header.noConfusion h

/-- A frame is one in a longer text. -/
theorem Frame.append {n : ℕ} (h : Frame s n) (t : Bytes) : Frame (s ++ t) n where
  header := header_append h.header t
  pos := h.pos
  within := le_trans h.within (by rw [List.length_append]; omega)
  number := by
    rw [List.take_append_of_le_length h.within]
    exact h.number

theorem Frame.ne_nil {n : ℕ} (h : Frame s n) : s ≠ [] := by
  rintro rfl
  exact h.pos (Nat.le_zero.mp h.within)

/-- There is one length only. -/
theorem Frame.unique {n k : ℕ} (h : Frame s n) (h' : Frame s k) : n = k := by
  have heq := h.header
  rw [h'.header] at heq
  exact (Header.total.inj heq).symm

/-- What the callback gets of a frame. -/
def frameCall (msg : Bytes) : Option Bytes :=
  if validateChecksum msg = some true then some msg else none

/-- **A round erases a frame**, -/
theorem step_of_frame {n : ℕ} (h : Frame (found buffer) n) :
    step buffer = .message (frameCall ((found buffer).take n)) ((found buffer).drop n) := by
  obtain ⟨valid, hvalid⟩ := Option.ne_none_iff_exists'.mp h.number
  rw [step, if_neg h.ne_nil, h.header]
  dsimp only
  rw [if_neg (not_lt.mpr h.within), hvalid]
  dsimp only
  rw [if_neg h.pos, frameCall, hvalid]
  cases valid <;> rfl

/-- and nothing else. -/
theorem frame_of_step (h : step buffer = .message callback rest) :
    ∃ n, Frame (found buffer) n ∧ callback = frameCall ((found buffer).take n) ∧
      rest = (found buffer).drop n := by
  obtain ⟨n, hheader, hzero, hle, -, -⟩ := of_step h
  have hnumber : validateChecksum ((found buffer).take n) ≠ none := by
    intro hnone
    rw [step] at h
    split_ifs at h
    rw [hheader] at h
    dsimp only at h
    rw [if_neg (not_lt.mpr hle), hnone] at h
    exact Step.noConfusion h
  have hframe : Frame (found buffer) n := ⟨hheader, hzero, hle, hnumber⟩
  rw [step_of_frame hframe] at h
  obtain ⟨rfl, rfl⟩ := Step.message.inj h
  exact ⟨n, hframe, rfl, rfl⟩

/-- **A round goes on as before** when there is more input. -/
theorem step_append (h : step buffer = .message callback rest) (t : Bytes) :
    step (buffer ++ t) = .message callback (rest ++ t) ∧
      (textBefore (ascii "8=FIX") (buffer ++ t)).length
        = (textBefore (ascii "8=FIX") buffer).length := by
  obtain ⟨n, hframe, rfl, rfl⟩ := frame_of_step h
  have hfound := found_append hframe.ne_nil t
  have hframe' : Frame (found (buffer ++ t)) n := by
    rw [hfound]
    exact hframe.append t
  have hsame : (textBefore (ascii "8=FIX") (buffer ++ t)).length
      = (textBefore (ascii "8=FIX") buffer).length := by
    have hlong := length_before_add (buffer ++ t)
    have hshort := length_before_add buffer
    rw [hfound, List.length_append, List.length_append] at hlong
    omega
  refine ⟨?_, hsame⟩
  rw [step_of_frame hframe', hfound, List.take_append_of_le_length hframe.within,
    List.drop_append_of_le_length hframe.within]

/-- A round waits for more where there is no number yet, or less than a message. -/
theorem step_eq_more_iff : step buffer = .more ↔
    header (found buffer) = .more ∨
      ∃ n, header (found buffer) = .total n ∧ (found buffer).length < n := by
  rw [step]
  by_cases hnil : found buffer = []
  · rw [if_pos hnil, hnil]
    exact iff_of_true rfl (.inl rfl)
  · rw [if_neg hnil]
    cases hheader : header (found buffer) with
    | more => exact iff_of_true rfl (.inl rfl)
    | total n =>
      dsimp only
      by_cases hshort : (found buffer).length < n
      · rw [if_pos hshort]
        exact iff_of_true rfl (.inr ⟨n, rfl, hshort⟩)
      · rw [if_neg hshort]
        refine iff_of_false (fun h => ?_) ?_
        · cases hvalid : validateChecksum ((found buffer).take n) with
          | none =>
            rw [hvalid] at h
            exact Step.noConfusion h
          | some valid =>
            rw [hvalid] at h
            dsimp only at h
            split_ifs at h
        · rintro (h | ⟨k, h, hlt⟩)
          · exact Header.noConfusion h
          · obtain rfl := Header.total.inj h
            exact hshort hlt
    | _ =>
      refine iff_of_false Step.noConfusion ?_
      rintro (h | ⟨k, h, -⟩)
      · exact Header.noConfusion h
      · exact Header.noConfusion h

/-- **A call returns** exactly when the buffer is calm. -/
theorem calm_iff (buffer : Bytes) :
    Calm buffer ↔ ∃ left, (processBuffer buffer).2 = .more left := by
  constructor
  · intro h
    induction h with
    | waits hheader =>
      exact ⟨_, by rw [processBuffer_of_more (step_eq_more_iff.mpr (.inl hheader))]⟩
    | short hheader hlt =>
      exact ⟨_, by rw [processBuffer_of_more (step_eq_more_iff.mpr (.inr ⟨_, hheader, hlt⟩))]⟩
    | frame hframe _ ih =>
      rw [processBuffer_of_message (step_of_frame hframe)]
      exact ih
  · induction buffer using process_induction with
    | more buffer hstep =>
      intro _
      rcases step_eq_more_iff.mp hstep with hheader | ⟨n, hheader, hlt⟩
      · exact .waits hheader
      · exact .short hheader hlt
    | fail buffer outcome hstep hprocess houtcome =>
      rintro ⟨left, hleft⟩
      rw [hprocess] at hleft
      exact absurd hleft (houtcome left)
    | message buffer callback rest hstep ih =>
      intro h
      rw [processBuffer_of_message hstep] at h
      obtain ⟨n, hframe, -, rfl⟩ := frame_of_step hstep
      exact .frame hframe (ih h)

/-! ## The calls of one buffer -/

/-- **Induction along the messages** that are erased, up to whatever ends the call. -/
theorem erase_induction {P : Bytes → Prop}
    (last : ∀ buffer, (∀ callback rest, step buffer ≠ .message callback rest) → P buffer)
    (message : ∀ buffer callback rest, step buffer = .message callback rest → P rest → P buffer)
    (buffer : Bytes) : P buffer := by
  induction hn : buffer.length using Nat.strong_induction_on generalizing buffer with
  | _ n ih =>
    cases hstep : step buffer with
    | message callback rest =>
      have hshort := (length_of_step hstep).1
      exact message buffer callback rest hstep (ih rest.length (by omega) rest rfl)
    | _ => exact last buffer fun _ _ h => Step.noConfusion (hstep.symm.trans h)

theorem callsUpTo_congr {n k : ℕ} (pos : ℕ) (hn : buffer.length < n) (hk : buffer.length < k) :
    callsUpTo n pos buffer = callsUpTo k pos buffer := by
  induction n generalizing k pos buffer with
  | zero => exact absurd hn (Nat.not_lt_zero _)
  | succ n ih =>
    cases k with
    | zero => exact absurd hk (Nat.not_lt_zero _)
    | succ k =>
      rw [callsUpTo, callsUpTo]
      cases hstep : step buffer with
      | message callback rest =>
        have hshort := (length_of_step hstep).1
        have hrest : callsUpTo n (pos + (buffer.length - rest.length)) rest
            = callsUpTo k (pos + (buffer.length - rest.length)) rest :=
          ih _ (by omega) (by omega)
        dsimp only
        rw [hrest]
      | _ => rfl

theorem callsOf_of_message (pos : ℕ) (h : step buffer = .message callback rest) :
    callsOf pos buffer = (callback.toList.map fun msg =>
        (pos + (textBefore (ascii "8=FIX") buffer).length, msg))
      ++ callsOf (pos + (buffer.length - rest.length)) rest := by
  have hshort := (length_of_step h).1
  rw [callsOf, callsUpTo, h]
  dsimp only
  rw [callsOf, callsUpTo_congr _ hshort (Nat.lt_succ_self _)]

theorem callsOf_of_last (pos : ℕ) (h : ∀ callback rest, step buffer ≠ .message callback rest) :
    callsOf pos buffer = [] := by
  cases hstep : step buffer with
  | message callback rest => exact absurd hstep (h callback rest)
  | _ => rw [callsOf, callsUpTo, hstep]

/-- No call has a place before the buffer. -/
theorem le_of_mem_callsOf {pos q : ℕ} {msg : Bytes} (h : (q, msg) ∈ callsOf pos buffer) :
    pos ≤ q := by
  induction buffer using erase_induction generalizing pos with
  | last buffer hlast =>
    rw [callsOf_of_last pos hlast] at h
    exact absurd h List.not_mem_nil
  | message buffer callback rest hstep ih =>
    rw [callsOf_of_message pos hstep] at h
    rcases List.mem_append.mp h with h | h
    · obtain ⟨msg', -, heq⟩ := List.mem_map.mp h
      obtain ⟨rfl, -⟩ := Prod.mk.inj heq
      omega
    · have hlater := ih h
      omega

/-- The length of what is left in front of a text. -/
theorem length_erased {n : ℕ} (hn : n ≤ (found buffer).length) :
    buffer.length - ((found buffer).drop n).length
      = (textBefore (ascii "8=FIX") buffer).length + n := by
  have hlength := length_before_add buffer
  rw [List.length_drop]
  omega

/-- **A call with more input** does what it did with less, and goes on with what it left. -/
theorem callsOf_append {left : Bytes} (h : (processBuffer buffer).2 = .more left) (t : Bytes)
    (pos : ℕ) : left.length ≤ buffer.length ∧
      callsOf pos (buffer ++ t)
        = callsOf pos buffer ++ callsOf (pos + (buffer.length - left.length)) (left ++ t) ∧
      (processBuffer (buffer ++ t)).2 = (processBuffer (left ++ t)).2 := by
  induction buffer using erase_induction generalizing pos with
  | last buffer hlast =>
    have hstep : step buffer = .more := by
      have hlength := length_of_more h
      cases hstep : step buffer with
      | more => rfl
      | message callback rest => exact absurd hstep (hlast callback rest)
      | _ =>
        rw [processBuffer, processUpTo, hstep] at h
        exact Outcome.noConfusion h
    rw [processBuffer_of_more hstep] at h
    obtain rfl := Outcome.more.inj h
    rw [callsOf_of_last pos hlast, Nat.sub_self, Nat.add_zero]
    exact ⟨le_rfl, rfl, rfl⟩
  | message buffer callback rest hstep ih =>
    rw [processBuffer_of_message hstep] at h
    have hshort := (length_of_step hstep).1
    obtain ⟨hstep', hplace⟩ := step_append hstep t
    obtain ⟨hle, hcalls, hprocess⟩ := ih h (pos + (buffer.length - rest.length))
    have hsame : (buffer ++ t).length - (rest ++ t).length = buffer.length - rest.length := by
      rw [List.length_append, List.length_append]
      omega
    have hplaces : pos + (buffer.length - rest.length) + (rest.length - left.length)
        = pos + (buffer.length - left.length) := by omega
    refine ⟨by omega, ?_, ?_⟩
    · rw [callsOf_of_message pos hstep', hplace, hsame, hcalls, callsOf_of_message pos hstep,
        hplaces, List.append_assoc]
    · rw [processBuffer_of_message hstep', hprocess]

/-! ## The calls of all chunks -/

/-- **Every call returns** exactly when what was received is calm after each of them. -/
theorem returns_iff {chunks : List Bytes} (hbuffer : step buffer = .more) :
    (∃ left, (run buffer chunks).2 = .more left) ↔
      ∀ received, received <+: chunks → Calm (buffer ++ received.flatten) := by
  induction chunks generalizing buffer with
  | nil =>
    refine iff_of_true ⟨buffer, rfl⟩ fun received hreceived => ?_
    rw [List.prefix_nil.mp hreceived, List.flatten_nil, List.append_nil]
    exact (calm_iff buffer).mpr ⟨buffer, by rw [processBuffer_of_more hbuffer]⟩
  | cons chunk chunks ih =>
    have hempty : Calm (buffer ++ ([] : List Bytes).flatten) := by
      rw [List.flatten_nil, List.append_nil]
      exact (calm_iff buffer).mpr ⟨buffer, by rw [processBuffer_of_more hbuffer]⟩
    by_cases hcalm : ∃ left, (processBuffer (buffer ++ chunk)).2 = .more left
    · obtain ⟨left, hleft⟩ := hcalm
      rw [run_of_more chunks hleft, ih (length_of_more hleft).1]
      constructor
      · intro h received hreceived
        cases received with
        | nil => exact hempty
        | cons first received =>
          obtain ⟨rfl, hlater⟩ := List.cons_prefix_cons.mp hreceived
          have hcalm := h received hlater
          rw [calm_iff] at hcalm ⊢
          rw [List.flatten_cons, ← List.append_assoc, (callsOf_append hleft _ 0).2.2]
          exact hcalm
      · intro h received hreceived
        have hcalm := h (chunk :: received) (List.cons_prefix_cons.mpr ⟨rfl, hreceived⟩)
        rw [calm_iff] at hcalm ⊢
        rw [List.flatten_cons, ← List.append_assoc, (callsOf_append hleft _ 0).2.2] at hcalm
        exact hcalm
    · refine iff_of_false ?_ fun h => hcalm ?_
      · rw [run_of_fail chunks fun left hleft => hcalm ⟨left, hleft⟩]
        exact hcalm
      · have hfirst := h [chunk] (List.cons_prefix_cons.mpr ⟨rfl, List.nil_prefix⟩)
        rw [List.flatten_singleton] at hfirst
        exact (calm_iff _).mp hfirst

/-- **The chunks do not matter** when every call returns. -/
theorem calls_eq {chunks : List Bytes} (pos : ℕ) (hbuffer : step buffer = .more)
    (h : ∃ left, (run buffer chunks).2 = .more left) :
    calls pos buffer chunks = callsOf pos (buffer ++ chunks.flatten) := by
  induction chunks generalizing pos buffer with
  | nil =>
    rw [calls, List.flatten_nil, List.append_nil, callsOf_of_last pos]
    rw [hbuffer]
    exact fun _ _ => Step.noConfusion
  | cons chunk chunks ih =>
    by_cases hcalm : ∃ left, (processBuffer (buffer ++ chunk)).2 = .more left
    · obtain ⟨left, hleft⟩ := hcalm
      rw [run_of_more chunks hleft] at h
      rw [calls, hleft]
      dsimp only
      rw [ih _ (length_of_more hleft).1 h, List.flatten_cons, ← List.append_assoc,
        (callsOf_append hleft _ pos).2.1]
    · rw [run_of_fail chunks fun left hleft => hcalm ⟨left, hleft⟩] at h
      exact absurd h hcalm

/-- **What the callback gets** is what `run` says. -/
theorem map_snd_callsOf (pos : ℕ) (buffer : Bytes) :
    (callsOf pos buffer).map Prod.snd = (processBuffer buffer).1 := by
  induction buffer using erase_induction generalizing pos with
  | last buffer hlast =>
    rw [callsOf_of_last pos hlast]
    cases hstep : step buffer with
    | message callback rest => exact absurd hstep (hlast callback rest)
    | _ => rw [processBuffer, processUpTo, hstep]; rfl
  | message buffer callback rest hstep ih =>
    rw [callsOf_of_message pos hstep, processBuffer_of_message hstep, List.map_append, ih,
      List.map_map]
    congr 1
    exact List.map_id _

theorem map_snd_calls (pos : ℕ) (buffer : Bytes) (chunks : List Bytes) :
    (calls pos buffer chunks).map Prod.snd = (run buffer chunks).1.flatten := by
  induction chunks generalizing pos buffer with
  | nil => rfl
  | cons chunk chunks ih =>
    by_cases hcalm : ∃ left, (processBuffer (buffer ++ chunk)).2 = .more left
    · obtain ⟨left, hleft⟩ := hcalm
      have hprocess : processBuffer (buffer ++ chunk)
          = ((processBuffer (buffer ++ chunk)).1, .more left) := Prod.ext rfl hleft
      rw [calls, run, hleft, hprocess]
      dsimp only
      rw [List.map_append, map_snd_callsOf, ih, List.flatten_cons]
    · rw [run_of_fail chunks fun left hleft => hcalm ⟨left, hleft⟩, List.flatten_singleton,
        ← map_snd_callsOf pos]
      cases houtcome : (processBuffer (buffer ++ chunk)).2 with
      | more left => exact absurd ⟨left, houtcome⟩ hcalm
      | _ => rw [calls, houtcome]

/-! ## One message behind other bytes -/

/-- What follows a message does not change how it is read. -/
theorem header_text_append (m : Msg) (t : Bytes) : header (m.text ++ t) = header m.text := by
  have hnone : ∀ u, header (m.text ++ u) = header (m.text ++ []) := by
    intro u
    by_cases hmem : 57 ∈ m.version
    · obtain ⟨before, rest, hversion, hnine⟩ := List.eq_append_cons_of_mem hmem
      cases rest with
      | nil => rw [header_of_last hversion hnine, header_of_last hversion hnine]
      | cons c word =>
        by_cases hword : ∀ b ∈ word, isDigit b = true
        · rw [header_of_digits hversion hnine hword, header_of_digits hversion hnine hword]
        · rw [header_of_word hversion hnine hword, header_of_word hversion hnine hword]
    · rw [header_of_notMem hmem, header_of_notMem hmem]
  rw [hnone t, List.append_nil]

/-- A message ends with the `SOH` behind its check sum. -/
theorem text_eq_concat (m : Msg) : m.text = (front m.version m.length m.body ++ (ascii "10="
    ++ checksumText (front m.version m.length m.body))) ++ [soh] := by
  rw [Msg.text, text]
  simp only [List.append_assoc]

/-- The check sum is right without the `SOH` behind it, too. -/
theorem validateChecksum_dropLast (m : Msg) : validateChecksum m.text.dropLast = some true := by
  obtain ⟨tag, htag, hvalue⟩ := stoi_threeDigits
    (Nat.mod_lt ((front m.version m.length m.body).map UInt8.toNat).sum (by decide : 0 < 256))
  have hlast : m.text.dropLast = front m.version m.length m.body ++ (ascii "10="
      ++ checksumText (front m.version m.length m.body)) := by
    rw [text_eq_concat, List.dropLast_concat]
  have hbefore : textBefore (ascii "10=") m.text.dropLast = front m.version m.length m.body := by
    have hinfix : ascii "10=" <:+: m.text.dropLast := by
      rw [hlast]
      exact (List.prefix_append _ _).isInfix.trans (List.suffix_append _ _).isInfix
    have halone : textBefore (ascii "10=") m.text = front m.version m.length m.body := m.alone
    rw [← textBefore_append_of_infix hinfix [soh], ← halone, hlast, ← text_eq_concat]
  have hlength : (front m.version m.length m.body).length ≠ m.text.dropLast.length := by
    rw [hlast, List.length_append]
    show _ ≠ _ + (3 + 3)
    omega
  have hdigits : (m.text.dropLast.drop ((front m.version m.length m.body).length + 3)).take 3
      = checksumText (front m.version m.length m.body) := by
    rw [hlast, ← List.drop_drop, List.drop_left]
    rfl
  have hfront : m.text.dropLast.take (front m.version m.length m.body).length
      = front m.version m.length m.body := by rw [hlast, List.take_left]
  rw [validateChecksum, hbefore, if_neg hlength, hdigits, checksumText, htag, hfront]
  simp only [Option.map_some, hvalue, decide_true]

/-- A readable message is a frame, and the callback gets it. -/
theorem frame_of_readable (h : m.Readable) (t : Bytes) :
    ∃ n msg, Frame (m.text ++ t) n ∧ (m.text ++ t).take n = msg ∧
      (msg = m.text ∨ msg = m.text.dropLast) ∧ frameCall msg = some msg ∧
      (n = m.text.length ∨ n = m.text.length - 1) := by
  have hpos : 1 < m.text.length := by
    have hprefix := m.prefix_text.length_le
    exact lt_of_lt_of_le (by decide) hprefix
  have htext : (m.text ++ t).take m.text.length = m.text := List.take_left
  have hshort : (m.text ++ t).take (m.text.length - 1) = m.text.dropLast := by
    rw [List.take_append_of_le_length (Nat.sub_le _ _), List.dropLast_eq_take]
  rcases h with h | h
  · refine ⟨m.text.length, m.text, ⟨?_, by omega, ?_, ?_⟩, htext, .inl rfl, ?_, .inl rfl⟩
    · rw [header_text_append, h]
    · rw [List.length_append]
      omega
    · rw [htext, validateChecksum_text]
      exact Option.some_ne_none _
    · rw [frameCall, if_pos (validateChecksum_text m)]
  · refine ⟨m.text.length - 1, m.text.dropLast, ⟨?_, by omega, ?_, ?_⟩, hshort, .inr rfl, ?_,
      .inr rfl⟩
    · rw [header_text_append, h]
    · rw [List.length_append]
      omega
    · rw [hshort, validateChecksum_dropLast]
      exact Option.some_ne_none _
    · rw [frameCall, if_pos (validateChecksum_dropLast m)]

/-- **A readable message is called back** behind what is passed over, and the parser goes on
behind it, or at the `SOH` that ends it. -/
theorem callsOf_of_skips {t : Bytes} (hskips : Skips (m.text ++ t) g) (hm : m.Readable) (pos : ℕ) :
    ∃ cs lead, (lead = [] ∨ lead = [soh]) ∧ lead.length ≤ m.text.length ∧
      callsOf pos (g ++ (m.text ++ t))
        = cs ++ callsOf (pos + g.length + (m.text.length - lead.length)) (lead ++ t) ∧
      GotAt m (pos + g.length) cs ∧ ∀ c ∈ cs, c.1 ≤ pos + g.length := by
  induction hskips generalizing pos with
  | @garbage g hg =>
    obtain ⟨n, msg, hframe, htake, hmsg, hcall, hn⟩ := frame_of_readable hm t
    have hstart : ascii "8=FIX" <+: m.text ++ t := m.prefix_text.trans (List.prefix_append _ _)
    obtain ⟨hfound, hplace⟩ := found_append_start hg hstart
    have hstep : step (g ++ (m.text ++ t)) = .message (some msg) ((m.text ++ t).drop n) := by
      have hframe' : Frame (found (g ++ (m.text ++ t))) n := by
        rw [hfound]
        exact hframe
      rw [step_of_frame hframe', hfound, htake, hcall]
    have herased : (g ++ (m.text ++ t)).length - ((m.text ++ t).drop n).length = g.length + n := by
      have hle := hframe.within
      rw [List.length_drop, List.length_append]
      omega
    have hpos : 0 < m.text.length := List.length_pos_of_ne_nil m.text_ne_nil
    have hlead : ∃ lead, (lead = [] ∨ lead = [soh]) ∧ lead.length ≤ m.text.length ∧
        n = m.text.length - lead.length ∧ (m.text ++ t).drop n = lead ++ t := by
      rcases hn with rfl | rfl
      · exact ⟨[], .inl rfl, Nat.zero_le _, rfl, List.drop_left⟩
      · refine ⟨[soh], .inr rfl, hpos, rfl, ?_⟩
        rw [List.drop_append_of_le_length (Nat.sub_le _ _)]
        congr 1
        rw [text_eq_concat, List.length_append, List.length_singleton, Nat.add_sub_cancel,
          List.drop_left]
    obtain ⟨lead, hform, hle, rfl, hdrop⟩ := hlead
    refine ⟨[(pos + g.length, msg)], lead, hform, hle, ?_, ⟨msg, hmsg, by simp⟩, by simp⟩
    rw [callsOf_of_message pos hstep, herased, hplace, hdrop, Nat.add_assoc]
    rfl
  | @frame g n hframe hle _ ih =>
    have hne : found g ≠ [] := by
      intro hnil
      rw [hnil] at hle
      exact hframe.pos (Nat.le_zero.mp hle)
    have hfound := found_append hne (m.text ++ t)
    have hframe' : Frame (found (g ++ (m.text ++ t))) n := by
      rw [hfound]
      exact hframe
    have hstep := step_of_frame hframe'
    have herased := length_erased hframe'.within
    rw [hfound, List.drop_append_of_le_length hle] at hstep herased
    have hplace : (textBefore (ascii "8=FIX") (g ++ (m.text ++ t))).length + (found g).length
        = g.length := by
      have hlong := length_before_add (g ++ (m.text ++ t))
      simp only [hfound, List.length_append] at hlong
      omega
    obtain ⟨cs, lead, hlead, hshort, hcalls, hgot, hbefore⟩ := ih
      (pos + ((textBefore (ascii "8=FIX") (g ++ (m.text ++ t))).length + n))
    have hsame : pos + ((textBefore (ascii "8=FIX") (g ++ (m.text ++ t))).length + n)
        + ((found g).drop n).length = pos + g.length := by
      rw [List.length_drop]
      omega
    rw [hsame] at hcalls hgot hbefore
    rw [callsOf_of_message pos hstep, herased, hcalls, ← List.append_assoc]
    refine ⟨_, lead, hlead, hshort, rfl, ?_, ?_⟩
    · obtain ⟨msg, hmsg, hmem⟩ := hgot
      exact ⟨msg, hmsg, List.mem_append_right _ hmem⟩
    · intro c hc
      rcases List.mem_append.mp hc with hc | hc
      · obtain ⟨msg, -, rfl⟩ := List.mem_map.mp hc
        dsimp only
        omega
      · exact hbefore c hc

/-- **A message that is called back** is readable, and what stands in front of it is passed
over. -/
theorem skips_of_gotAt {t : Bytes} {pos : ℕ}
    (h : GotAt m (pos + g.length) (callsOf pos (g ++ (m.text ++ t)))) :
    Skips (m.text ++ t) g ∧ m.Readable := by
  induction hlength : g.length using Nat.strong_induction_on generalizing g pos with
  | _ k ih =>
    obtain ⟨msg, hmsg, hmem⟩ := h
    cases hstep : step (g ++ (m.text ++ t)) with
    | message callback rest =>
      obtain ⟨n, hframe, rfl, rfl⟩ := frame_of_step hstep
      have herased := length_erased hframe.within
      have hplace := length_before_add (g ++ (m.text ++ t))
      rw [callsOf_of_message pos hstep, herased] at hmem
      by_cases hg : found g = []
      · have hstart : ascii "8=FIX" <+: m.text ++ t :=
          m.prefix_text.trans (List.prefix_append _ _)
        obtain ⟨hfound, hbefore⟩ := found_append_start hg hstart
        rw [hfound] at hframe hmem
        rw [hbefore] at hmem
        rcases List.mem_append.mp hmem with hmem | hmem
        · obtain ⟨taken, htaken, heq⟩ := List.mem_map.mp hmem
          obtain ⟨-, rfl⟩ := Prod.mk.inj heq
          have hcall : taken = (m.text ++ t).take n := by
            rw [frameCall] at htaken
            split_ifs at htaken
            · exact List.mem_singleton.mp htaken
            · exact absurd htaken List.not_mem_nil
          have hn : taken.length = n := by
            rw [hcall, List.length_take, Nat.min_eq_left hframe.within]
          have hheader := hframe.header
          rw [header_text_append, ← hn] at hheader
          refine ⟨.garbage hg, ?_⟩
          rcases hmsg with rfl | rfl
          · exact .inl hheader
          · rw [List.length_dropLast] at hheader
            exact .inr hheader
        · -- a later call has a later place
          have hlate := le_of_mem_callsOf hmem
          have hpos := hframe.pos
          omega
      · have hfound := found_append hg (m.text ++ t)
        have hfront := List.length_pos_of_ne_nil hg
        simp only [hfound, List.length_append] at hplace
        rw [hfound] at hframe hmem
        rcases List.mem_append.mp hmem with hmem | hmem
        · obtain ⟨taken, -, heq⟩ := List.mem_map.mp hmem
          have hsame := (Prod.mk.inj heq).1
          omega
        · have hlate := le_of_mem_callsOf hmem
          have hn : n ≤ (found g).length := by omega
          have hpos := hframe.pos
          rw [List.drop_append_of_le_length hn] at hmem
          have hshort : ((found g).drop n).length = (found g).length - n := List.length_drop
          have hgot : GotAt m (pos + ((textBefore (ascii "8=FIX") (g ++ (m.text ++ t))).length + n)
                + ((found g).drop n).length)
              (callsOf (pos + ((textBefore (ascii "8=FIX") (g ++ (m.text ++ t))).length + n))
                ((found g).drop n ++ (m.text ++ t))) := by
            refine ⟨msg, hmsg, ?_⟩
            convert hmem using 2
            omega
          obtain ⟨hskips, hm⟩ := ih _ (by omega) hgot rfl
          exact ⟨.frame hframe hn hskips, hm⟩
    | _ =>
      rw [callsOf_of_last pos fun _ _ h => Step.noConfusion (hstep.symm.trans h)] at hmem
      exact absurd hmem List.not_mem_nil

/-! ## All messages of a stream -/

/-- Bytes in front of what is found do not matter. -/
theorem skips_congr {g' : Bytes} (h : found g = found g') : Skips s g ↔ Skips s g' := by
  have one : ∀ {g g' : Bytes}, found g = found g' → Skips s g → Skips s g' := by
    intro g g' h hskips
    cases hskips with
    | garbage hg => exact .garbage (h ▸ hg)
    | frame hframe hn hrest =>
      rw [h] at hframe hn hrest
      exact .frame hframe hn hrest
  exact ⟨one h, one h.symm⟩

theorem found_soh_cons (g : Bytes) : found (soh :: g) = found g := by
  have hfront : ¬ ascii "8=FIX" <+: soh :: g := by
    intro hprefix
    exact absurd (List.cons_prefix_cons.mp hprefix).1 (by decide)
  rw [found, textBefore_cons hfront]
  rfl

theorem mixed_cons (junk : Bytes) (m : Msg) (segments : List (Bytes × Msg)) (tail : Bytes) :
    mixed ((junk, m) :: segments) tail = junk ++ (m.text ++ mixed segments tail) := by
  simp only [mixed, List.flatMap_cons, List.append_assoc]

/-- **All messages are called back** exactly when each part in front of one is passed over. -/
theorem all_gotAt_iff {lead : Bytes} (segments : List (Bytes × Msg)) (tail : Bytes) (pos : ℕ)
    (hlead : lead = [] ∨ lead = [soh]) :
    (∀ before junk m after, segments = before ++ (junk, m) :: after →
        GotAt m (pos + lead.length + (mixed before junk).length)
          (callsOf pos (lead ++ mixed segments tail))) ↔
      Passable segments tail := by
  induction segments generalizing pos lead with
  | nil =>
    refine iff_of_true (fun before junk m after h => ?_) trivial
    exact absurd h (by simp)
  | cons segment segments ih =>
    obtain ⟨junk, m⟩ := segment
    have hsame : ∀ s, Skips s (lead ++ junk) ↔ Skips s junk := by
      rcases hlead with rfl | rfl
      · exact fun s => Iff.rfl
      · exact fun s => skips_congr (found_soh_cons junk)
    have hstream : lead ++ mixed ((junk, m) :: segments) tail
        = (lead ++ junk) ++ (m.text ++ mixed segments tail) := by
      rw [mixed_cons, List.append_assoc]
    have hfirst : pos + lead.length + (mixed [] junk).length = pos + (lead ++ junk).length := by
      rw [List.length_append, Nat.add_assoc]
      rfl
    have hpos : 0 < m.text.length := List.length_pos_of_ne_nil m.text_ne_nil
    rw [hstream, Passable, ← hsame]
    constructor
    · intro h
      have hgot := h [] junk m segments rfl
      rw [hfirst] at hgot
      obtain ⟨hskips, hm⟩ := skips_of_gotAt hgot
      refine ⟨hskips, hm, ?_⟩
      obtain ⟨cs, lead', hlead', hle, hcalls, -, hbefore⟩ := callsOf_of_skips hskips hm pos
      refine (ih (pos + (lead ++ junk).length + (m.text.length - lead'.length)) hlead').mp ?_
      intro before junk' m' after hsegments
      obtain ⟨msg, hmsg, hmem⟩ := h ((junk, m) :: before) junk' m' after
        (by rw [hsegments, List.cons_append])
      refine ⟨msg, hmsg, ?_⟩
      rw [hcalls, mixed_cons] at hmem
      simp only [List.length_append] at hmem hbefore ⊢
      rcases List.mem_append.mp hmem with hmem | hmem
      · have hearly := hbefore _ hmem
        dsimp only at hearly
        omega
      · convert hmem using 2
        omega
    · rintro ⟨hskips, hm, hpassable⟩ before junk' m' after hsegments
      obtain ⟨cs, lead', hlead', hle, hcalls, hgot, -⟩ := callsOf_of_skips hskips hm pos
      rw [hcalls]
      cases before with
      | nil =>
        obtain ⟨heq, -⟩ := List.cons.inj hsegments
        obtain ⟨rfl, rfl⟩ := Prod.mk.inj heq
        obtain ⟨msg, hmsg, hmem⟩ := hgot
        rw [hfirst]
        exact ⟨msg, hmsg, List.mem_append_left _ hmem⟩
      | cons first before =>
        obtain ⟨rfl, hlater⟩ := List.cons.inj hsegments
        obtain ⟨msg, hmsg, hmem⟩ := (ih _ hlead').mpr hpassable before junk' m' after hlater
        refine ⟨msg, hmsg, List.mem_append_right _ ?_⟩
        convert hmem using 2
        rw [mixed_cons]
        simp only [List.length_append]
        omega

/-! ## When it holds -/

/-- **When the parser recovers**: when what was received is calm after each call, and what is no
message is passed over in front of each message. -/
theorem recovers_iff {segments : List (Bytes × Msg)} {tail : Bytes} {chunks : List Bytes}
    (hchunks : chunks.flatten = mixed segments tail) :
    Recovers segments chunks ↔
      (∀ received, received <+: chunks → Calm received.flatten) ∧ Passable segments tail := by
  have hempty : step [] = .more := rfl
  have hreturns : (∃ left, (run [] chunks).2 = .more left) ↔
      ∀ received, received <+: chunks → Calm received.flatten := returns_iff hempty
  have hall := all_gotAt_iff segments tail 0 (.inl rfl)
  simp only [List.length_nil, List.nil_append, Nat.zero_add, Nat.add_zero] at hall
  constructor
  · rintro ⟨hreturn, hdelivered⟩
    refine ⟨hreturns.mp hreturn, hall.mp ?_⟩
    intro before junk m after hsegments
    have hgot := hdelivered before junk m after hsegments
    rwa [calls_eq 0 hempty hreturn, List.nil_append, hchunks] at hgot
  · rintro ⟨hcalm, hpassable⟩
    have hreturn := hreturns.mpr hcalm
    refine ⟨hreturn, ?_⟩
    intro before junk m after hsegments
    rw [calls_eq 0 hempty hreturn, List.nil_append, hchunks]
    exact hall.mpr hpassable before junk m after hsegments

/-- A message is readable if there is no `9` in its version and the length does not wrap. -/
theorem readable_of_notMem (hnine : 57 ∉ m.version) (hlength : m.text.length < 2 ^ 64) :
    m.Readable := by
  have htext := m.length_text
  have hheader := header_of_notMem hnine []
  rw [List.append_nil, Nat.mod_eq_of_lt (by omega : m.body.length < 2 ^ 64)] at hheader
  refine .inr (hheader.trans (congrArg Header.total ?_))
  rw [Nat.mod_eq_of_lt (by omega)]
  omega

/-- Bytes with no `8=FIX` are passed over, in front of a heartbeat and behind it. -/
theorem recovers_garbage :
    Recovers [(ascii "8=FI", heartbeat), (ascii "9=1x", heartbeat)]
      [mixed [(ascii "8=FI", heartbeat), (ascii "9=1x", heartbeat)] []] := by
  have hheartbeat : heartbeat.Readable :=
    readable_of_notMem (by decide) (by rw [heartbeat.length_text]; decide)
  refine (recovers_iff (List.append_nil _)).mpr ⟨?_, ?_⟩
  · intro received hreceived
    rw [calm_iff]
    rcases received with - | ⟨chunk, rest⟩
    · exact ⟨[], rfl⟩
    · obtain ⟨rfl, hrest⟩ := List.cons_prefix_cons.mp hreceived
      obtain rfl := List.prefix_nil.mp hrest
      exact ⟨[soh], by decide +kernel⟩
  · exact ⟨.garbage (by decide), hheartbeat, .garbage (by decide), hheartbeat, trivial⟩

/-- A call that throws lets an exception escape. -/
theorem not_recovers_of_thrown {segments : List (Bytes × Msg)} {chunks : List Bytes}
    (h : (run [] chunks).2 = .thrown) : ¬ Recovers segments chunks := by
  rintro ⟨⟨left, hleft⟩, -⟩
  rw [h] at hleft
  exact Outcome.noConfusion hleft

/-- A message with a body length that is no number, one with such a check sum, and one that has
no check sum. -/
def badLength : Bytes := ascii "8=FIX.4.2\x019=1x\x01"
def badChecksum : Bytes := ascii "8=FIX.4.2\x019=5\x0135=0\x0110=ab\x01"
def noChecksum : Bytes := ascii "8=FIX.4.2\x019=5\x0135=0\x01"

/-- **No message is delivered behind a bad one**: the first two throw, and the length of the last
reaches into the next message. -/
theorem not_recovers_badMessage :
    ¬ Recovers [(badLength, heartbeat)] [mixed [(badLength, heartbeat)] []] ∧
      ¬ Recovers [(badChecksum, heartbeat)] [mixed [(badChecksum, heartbeat)] []] ∧
      ¬ Recovers [(noChecksum, heartbeat)] [mixed [(noChecksum, heartbeat)] []] := by
  refine ⟨not_recovers_of_thrown (by decide +kernel), not_recovers_of_thrown (by decide +kernel),
    ?_⟩
  rintro ⟨-, hdelivered⟩
  obtain ⟨msg, -, hmem⟩ := hdelivered [] noChecksum heartbeat [] rfl
  have hcalls : calls 0 [] [mixed [(noChecksum, heartbeat)] []] = [] := by decide +kernel
  rw [hcalls] at hmem
  exact absurd hmem List.not_mem_nil

end FixParser.Stream
