/-
# The numbers of a FIX session

A message gets its number in `createBaseMessage`, under `mutex_`, and is sent later
without it.  Between the two another thread may draw the next number and send first, and
a send that fails has used its number up.
-/
import FastServer.FixSession

namespace FIX42Protocol

open TransitionSystem

variable {ι : Type} {cfg : Config}

/-! ## Numbers in use -/

/-- The number of a message on its way. -/
def Sending.seq_num : Sending → ℕ
  | .drawn _ seq_num => seq_num
  | .numbered _ seq_num => seq_num
  | .composed o => o.seq_num
  | .checked o => o.seq_num

/-- The number that thread `t` has drawn for the message it is about to send. -/
def Session.held (s : Session ι) (t : ThreadId ι) : Option ℕ :=
  ((s.threads t).bind Thread.sending).map Sending.seq_num

/-- The messages written completely carry the numbers 1, 2, 3 and so on. -/
def Session.InOrder (cfg : Config) (s : Session ι) : Prop :=
  s.shared.wire.map (fun o => (o.message cfg).fields.get? FIXField.msgSeqNum)
    = (List.range' 1 s.shared.wire.length).map fun n => some (decimal n)

/-- Whether the step draws a number. -/
def Session.draws (s : Session ι) (a : Action ι) : Bool :=
  match s.threads a.thread with
  | some ⟨none, .draw _ :: _⟩ => true
  | _ => false

/-- The message that the step writes completely. -/
def Session.written (s : Session ι) (a : Action ι) : Option Outbound :=
  match (s.threads a.thread).bind Thread.sending, a.choice with
  | some (.checked o), .sent true => some o
  | _, _ => none

/-- The step is not a draw after the counter has wrapped to 0, and not a complete write of
a message while a smaller number is held by a thread, or was used up by a failed send. -/
def Session.InTurn (s : Session ι) (a : Action ι) : Prop :=
  (s.draws a = true → s.shared.sender_msg_seq_num_ ≠ 0) ∧
    ∀ o ∈ s.written a, (∀ u, ∀ n ∈ s.held u, o.seq_num ≤ n) ∧
      ∀ o' ∈ s.shared.failed, o.seq_num ≤ o'.seq_num

/-! ## What a step does to the numbers -/

/-- From `s` to `s'` the counter, the history and the number of thread `t` are what is
given, and the other threads keep their numbers. -/
structure Becomes (s s' : Session ι) (t : ThreadId ι) (seq_num : ℕ) (held : Option ℕ)
    (wire failed : List Outbound) : Prop where
  seq_num : s'.shared.sender_msg_seq_num_ = seq_num
  wire : s'.shared.wire = wire
  failed : s'.shared.failed = failed
  self : s'.held t = held
  others : ∀ u, u ≠ t → s'.held u = s.held u

theorem held_of_thread {s : Session ι} {t : ThreadId ι} {thread : Thread}
    (h : s.threads t = some thread) : s.held t = thread.sending.map Sending.seq_num := by
  rw [Session.held, h]
  rfl

/-- The step that writes a message completely. -/
theorem written_eq_some_iff {s : Session ι} {a : Action ι} {o : Outbound} :
    s.written a = some o
      ↔ (s.threads a.thread).bind Thread.sending = some (.checked o) ∧ a.choice = .sent true := by
  constructor
  · intro h
    unfold Session.written at h
    split at h
    · rename_i o' hsending hchoice
      rw [Option.some.inj h] at hsending
      exact ⟨hsending, hchoice⟩
    · exact absurd h.symm (Option.some_ne_none _)
  · rintro ⟨hsending, hchoice⟩
    rw [Session.written, hsending, hchoice]

/-- **A statement** other than a draw leaves the counter and the history alone, and puts no
message on its way. -/
theorem stmt_next_frame {t : ThreadId ι} {s s' : Shared ι} {choice : Choice} {stmt : Stmt}
    {rest : List Stmt} {thread : Thread} (h : stmt.next cfg t s choice rest = some (s', thread))
    (hdraw : ∀ out, stmt ≠ .draw out) :
    thread.sending = none ∧ s'.sender_msg_seq_num_ = s.sender_msg_seq_num_ ∧ s'.wire = s.wire ∧
      s'.failed = s.failed := by
  cases stmt with
  | draw out => exact absurd rfl (hdraw out)
  | assign flag value =>
    obtain ⟨rfl, rfl⟩ := Prod.mk.inj (Option.some.inj h)
    cases flag <;> exact ⟨rfl, rfl, rfl, rfl⟩
  | lock =>
    rw [Stmt.next] at h
    split_ifs at h
    obtain ⟨rfl, rfl⟩ := Prod.mk.inj (Option.some.inj h)
    exact ⟨rfl, rfl, rfl, rfl⟩
  | user =>
    cases choice with
    | call c =>
      obtain ⟨rfl, rfl⟩ := Prod.mk.inj (Option.some.inj h)
      exact ⟨rfl, rfl, rfl, rfl⟩
    | finish =>
      obtain ⟨rfl, rfl⟩ := Prod.mk.inj (Option.some.inj h)
      exact ⟨rfl, rfl, rfl, rfl⟩
    | _ => exact absurd h.symm (Option.some_ne_none _)
  | openSocket =>
    cases choice with
    | opened success =>
      obtain ⟨rfl, rfl⟩ := Prod.mk.inj (Option.some.inj h)
      exact ⟨rfl, rfl, rfl, rfl⟩
    | _ => exact absurd h.symm (Option.some_ne_none _)
  | recv =>
    cases choice with
    | received result =>
      cases result with
      | _ =>
        obtain ⟨rfl, rfl⟩ := Prod.mk.inj (Option.some.inj h)
        exact ⟨rfl, rfl, rfl, rfl⟩
    | _ => exact absurd h.symm (Option.some_ne_none _)
  | cut =>
    rw [Stmt.next] at h
    split at h
    · obtain ⟨rfl, rfl⟩ := Prod.mk.inj (Option.some.inj h)
      exact ⟨rfl, rfl, rfl, rfl⟩
    · obtain ⟨rfl, rfl⟩ := Prod.mk.inj (Option.some.inj h)
      exact ⟨rfl, rfl, rfl, rfl⟩
  | start w => exact absurd h.symm (Option.some_ne_none _)
  | join w => exact absurd h.symm (Option.some_ne_none _)
  | _ =>
    obtain ⟨rfl, rfl⟩ := Prod.mk.inj (Option.some.inj h)
    exact ⟨rfl, rfl, rfl, rfl⟩

/-- **A message on its way** keeps its number until it is written, or its send fails. -/
theorem sending_next_cases {s s' : Shared ι} {choice : Choice} {sending : Sending}
    {sending' : Option Sending} (h : sending.next s choice = some (s', sending')) :
    s'.sender_msg_seq_num_ = s.sender_msg_seq_num_ ∧
      ((s'.wire = s.wire ∧ s'.failed = s.failed ∧
          sending'.map Sending.seq_num = some sending.seq_num ∧
          ¬ ∃ o, sending = .checked o ∧ choice = .sent true) ∨
        (∃ o, sending = .checked o ∧ choice = .sent true ∧ sending' = none ∧
          s'.wire = s.wire ++ [o] ∧ s'.failed = s.failed) ∨
        (∃ o, sending.seq_num = o.seq_num ∧ sending' = none ∧ s'.wire = s.wire ∧
          s'.failed = s.failed ++ [o] ∧ ¬ ∃ o, sending = .checked o ∧ choice = .sent true)) := by
  cases sending with
  | drawn out seq_num =>
    obtain ⟨rfl, rfl⟩ := Prod.mk.inj (Option.some.inj h)
    exact ⟨rfl, Or.inl ⟨rfl, rfl, rfl, by simp⟩⟩
  | numbered out seq_num =>
    cases choice with
    | time sending_time =>
      obtain ⟨rfl, rfl⟩ := Prod.mk.inj (Option.some.inj h)
      exact ⟨rfl, Or.inl ⟨rfl, rfl, rfl, by simp⟩⟩
    | _ => exact absurd h.symm (Option.some_ne_none _)
  | composed o =>
    rw [Sending.next] at h
    split_ifs at h
    · obtain ⟨rfl, rfl⟩ := Prod.mk.inj (Option.some.inj h)
      exact ⟨rfl, Or.inl ⟨rfl, rfl, rfl, by simp⟩⟩
    · obtain ⟨rfl, rfl⟩ := Prod.mk.inj (Option.some.inj h)
      exact ⟨rfl, Or.inr (Or.inr ⟨o, rfl, rfl, rfl, rfl, by simp⟩)⟩
  | checked o =>
    cases choice with
    | sent complete =>
      cases complete with
      | true =>
        obtain ⟨rfl, rfl⟩ := Prod.mk.inj (Option.some.inj h)
        exact ⟨rfl, Or.inr (Or.inl ⟨o, rfl, rfl, rfl, rfl, rfl⟩)⟩
      | false =>
        obtain ⟨rfl, rfl⟩ := Prod.mk.inj (Option.some.inj h)
        exact ⟨rfl, Or.inr (Or.inr ⟨o, rfl, rfl, rfl, rfl, by simp⟩)⟩
    | _ => exact absurd h.symm (Option.some_ne_none _)

/-- A step that changes no number and no shared variable. -/
theorem becomes_of_held {s s' : Session ι} (t : ThreadId ι) (hshared : s'.shared = s.shared)
    (hheld : ∀ u, s'.held u = s.held u) :
    Becomes s s' t s.shared.sender_msg_seq_num_ (s.held t) s.shared.wire s.shared.failed where
  seq_num := by rw [hshared]
  wire := by rw [hshared]
  failed := by rw [hshared]
  self := hheld t
  others := fun u _ => hheld u

/-! ## The invariant -/

/-- The last number drawn: the counter is one ahead of it, and may have wrapped. -/
def Shared.lastDrawn (s : Shared ι) : ℕ := (s.sender_msg_seq_num_ + (2 ^ 32 - 1)) % 2 ^ 32

/-- The messages written carry the numbers 1, 2, 3 and so on, and every number drawn after
those is held by one thread or was used up by a failed send. -/
structure Numbered (s : Session ι) : Prop where
  range : s.shared.sender_msg_seq_num_ < 2 ^ 32
  consecutive : s.shared.wire.map Outbound.seq_num = List.range' 1 s.shared.wire.length
  wire_le : s.shared.wire.length ≤ s.shared.lastDrawn
  held : ∀ t n, s.held t = some n → s.shared.wire.length < n ∧ n ≤ s.shared.lastDrawn
  distinct : ∀ t u n, s.held t = some n → s.held u = some n → t = u
  failed : ∀ o ∈ s.shared.failed, s.shared.wire.length < o.seq_num ∧
    o.seq_num ≤ s.shared.lastDrawn ∧ ∀ t, s.held t ≠ some o.seq_num
  accounted : ∀ n, s.shared.wire.length < n → n ≤ s.shared.lastDrawn →
    (∃ o ∈ s.shared.failed, o.seq_num = n) ∨ ∃ t, s.held t = some n

variable {s s' : Session ι} {t : ThreadId ι}

/-- No number has been drawn. -/
theorem numbered_start : Numbered (start : Session ι) := by
  have hheld : ∀ t, (start : Session ι).held t = none := by
    intro t
    cases t with
    | app i => rfl
    | worker w => rfl
  have hlast : (start : Session ι).shared.lastDrawn = 0 := by
    show (1 + (2 ^ 32 - 1)) % 2 ^ 32 = 0
    decide
  refine ⟨show 1 < 2 ^ 32 by decide, rfl, Nat.zero_le _, ?_, ?_, ?_, ?_⟩
  · intro t n h
    exact absurd (h.symm.trans (hheld t)) (Option.some_ne_none n)
  · intro t u n h
    exact absurd (h.symm.trans (hheld t)) (Option.some_ne_none n)
  · intro o ho
    exact absurd ho List.not_mem_nil
  · intro n h h'
    rw [hlast] at h'
    exact absurd h (Nat.not_lt.mpr (le_trans h' (Nat.zero_le _)))

/-- A step that leaves the numbers alone. -/
theorem Numbered.quiet (h : Numbered s)
    (hb : Becomes s s' t s.shared.sender_msg_seq_num_ (s.held t) s.shared.wire s.shared.failed) :
    Numbered s' := by
  have hheld : ∀ u, s'.held u = s.held u := by
    intro u
    by_cases hu : u = t
    · rw [hu]
      exact hb.self
    · exact hb.others u hu
  have hlast : s'.shared.lastDrawn = s.shared.lastDrawn := by
    rw [Shared.lastDrawn, hb.seq_num, Shared.lastDrawn]
  obtain ⟨hrange, hconsecutive, hwire, hholds, hdistinct, hfailed, haccounted⟩ := h
  refine ⟨?_, ?_, ?_, ?_, ?_, ?_, ?_⟩
  all_goals simp only [hb.seq_num, hb.wire, hb.failed, hheld, hlast]
  · exact hrange
  · exact hconsecutive
  · exact hwire
  · exact hholds
  · exact hdistinct
  · exact hfailed
  · exact haccounted

/-- **A draw** of a number that has not wrapped. -/
theorem Numbered.draw (h : Numbered s) (hidle : s.held t = none)
    (hturn : s.shared.sender_msg_seq_num_ ≠ 0)
    (hb : Becomes s s' t ((s.shared.sender_msg_seq_num_ + 1) % 2 ^ 32)
      (some s.shared.sender_msg_seq_num_) s.shared.wire s.shared.failed) : Numbered s' := by
  have hlast : s'.shared.lastDrawn = s.shared.sender_msg_seq_num_ := by
    have := h.range
    rw [Shared.lastDrawn, hb.seq_num]
    omega
  have hbefore : s.shared.lastDrawn + 1 = s.shared.sender_msg_seq_num_ := by
    have := h.range
    rw [Shared.lastDrawn]
    omega
  -- the thread that draws held nothing, so every number is where it was
  have hkept : ∀ u n, s.held u = some n → s'.held u = some n := by
    intro u n hu
    have hne : u ≠ t := by
      rintro rfl
      exact absurd (hu.symm.trans hidle) (Option.some_ne_none n)
    rw [hb.others u hne]
    exact hu
  have hsplit : ∀ u n, s'.held u = some n →
      (u = t ∧ n = s.shared.sender_msg_seq_num_) ∨ (u ≠ t ∧ s.held u = some n) := by
    intro u n hu
    by_cases hut : u = t
    · rw [hut, hb.self] at hu
      exact Or.inl ⟨hut, (Option.some.inj hu).symm⟩
    · exact Or.inr ⟨hut, (hb.others u hut) ▸ hu⟩
  have hle := h.wire_le
  refine ⟨?_, ?_, ?_, ?_, ?_, ?_, ?_⟩
  · rw [hb.seq_num]
    exact Nat.mod_lt _ (by decide)
  · rw [hb.wire]
    exact h.consecutive
  · rw [hb.wire, hlast]
    omega
  · intro u n hu
    rw [hb.wire, hlast]
    rcases hsplit u n hu with ⟨-, rfl⟩ | ⟨-, hu⟩
    · exact ⟨by omega, le_refl _⟩
    · obtain ⟨hlt, hle⟩ := h.held u n hu
      exact ⟨hlt, by omega⟩
  · intro u v n hu hv
    rcases hsplit u n hu with ⟨rfl, hn⟩ | ⟨-, hu⟩
    · rcases hsplit v n hv with ⟨rfl, -⟩ | ⟨-, hv⟩
      · rfl
      · have := (h.held v n hv).2
        omega
    · rcases hsplit v n hv with ⟨rfl, hn⟩ | ⟨-, hv⟩
      · have := (h.held u n hu).2
        omega
      · exact h.distinct u v n hu hv
  · intro o ho
    rw [hb.failed] at ho
    obtain ⟨hlt, hle, hnot⟩ := h.failed o ho
    rw [hb.wire, hlast]
    refine ⟨hlt, by omega, ?_⟩
    intro u hu
    rcases hsplit u _ hu with ⟨-, hn⟩ | ⟨-, hu⟩
    · omega
    · exact hnot u hu
  · intro n hlt hn
    rw [hb.wire] at hlt
    rw [hlast] at hn
    rw [hb.failed]
    -- the new number is held by `t`, and the others are where they were
    by_cases hlast' : n = s.shared.sender_msg_seq_num_
    · exact Or.inr ⟨t, by rw [hb.self, hlast']⟩
    · rcases h.accounted n hlt (by omega) with hfailed | ⟨u, hu⟩
      · exact Or.inl hfailed
      · exact Or.inr ⟨u, hkept u n hu⟩

/-- **The message written is the next one** exactly if no smaller number is held or was
used up. -/
theorem Numbered.next_iff (h : Numbered s) {o : Outbound} (hheld : s.held t = some o.seq_num) :
    o.seq_num = s.shared.wire.length + 1
      ↔ (∀ u, ∀ n ∈ s.held u, o.seq_num ≤ n) ∧ ∀ o' ∈ s.shared.failed, o.seq_num ≤ o'.seq_num := by
  obtain ⟨hlt, hle⟩ := h.held t _ hheld
  constructor
  · intro hnext
    constructor
    · intro u n hu
      have := (h.held u n hu).1
      omega
    · intro o' ho'
      have := (h.failed o' ho').1
      omega
  · rintro ⟨hholds, hfailed⟩
    by_contra hne
    -- the number after the last one on the wire was drawn, so somebody has it
    rcases h.accounted (s.shared.wire.length + 1) (by omega) (by omega) with
      ⟨o', ho', hnum⟩ | ⟨u, hu⟩
    · have := hfailed o' ho'
      omega
    · have := hholds u _ hu
      omega

/-- Numbers of other threads, after thread `t` has given its own up. -/
theorem held_of_becomes_none {n : ℕ} {seq_num : ℕ} {wire failed : List Outbound}
    (hb : Becomes s s' t seq_num none wire failed) {u : ThreadId ι} (hu : s'.held u = some n) :
    u ≠ t ∧ s.held u = some n := by
  have hne : u ≠ t := by
    rintro rfl
    exact absurd (hu.symm.trans hb.self) (Option.some_ne_none n)
  exact ⟨hne, (hb.others u hne) ▸ hu⟩

/-- **A complete write** of the next message. -/
theorem Numbered.write (h : Numbered s) {o : Outbound} (hheld : s.held t = some o.seq_num)
    (hnext : o.seq_num = s.shared.wire.length + 1)
    (hb : Becomes s s' t s.shared.sender_msg_seq_num_ none (s.shared.wire ++ [o])
      s.shared.failed) : Numbered s' := by
  have hlast : s'.shared.lastDrawn = s.shared.lastDrawn := by
    rw [Shared.lastDrawn, hb.seq_num, Shared.lastDrawn]
  have hlength : s'.shared.wire.length = s.shared.wire.length + 1 := by
    rw [hb.wire, List.length_append, List.length_singleton]
  have hle := (h.held t _ hheld).2
  refine ⟨?_, ?_, ?_, ?_, ?_, ?_, ?_⟩
  · rw [hb.seq_num]
    exact h.range
  · rw [hlength, hb.wire, List.map_append, h.consecutive, List.range'_concat, List.map_singleton,
      hnext, Nat.one_mul, Nat.add_comm]
  · rw [hlength, hlast]
    omega
  · intro u n hu
    obtain ⟨hne, hu⟩ := held_of_becomes_none hb hu
    obtain ⟨hlt, hle⟩ := h.held u n hu
    -- the number written was held by `t` only
    have hother : n ≠ o.seq_num := by
      rintro rfl
      exact hne (h.distinct u t _ hu hheld)
    rw [hlength, hlast]
    omega
  · intro u v n hu hv
    exact h.distinct u v n (held_of_becomes_none hb hu).2 (held_of_becomes_none hb hv).2
  · intro o' ho'
    rw [hb.failed] at ho'
    obtain ⟨hlt, hle, hnot⟩ := h.failed o' ho'
    have hother : o'.seq_num ≠ o.seq_num := by
      intro heq
      exact hnot t (heq ▸ hheld)
    rw [hlength, hlast]
    refine ⟨by omega, hle, ?_⟩
    intro u hu
    exact hnot u (held_of_becomes_none hb hu).2
  · intro n hlt hn
    rw [hlength] at hlt
    rw [hlast] at hn
    rw [hb.failed]
    rcases h.accounted n (by omega) hn with hfailed | ⟨u, hu⟩
    · exact Or.inl hfailed
    · have hne : u ≠ t := by
        rintro rfl
        have := Option.some.inj (hu.symm.trans hheld)
        omega
      exact Or.inr ⟨u, (hb.others u hne).trans hu⟩

/-- **A failed send** uses its number up. -/
theorem Numbered.fail (h : Numbered s) {o : Outbound} (hheld : s.held t = some o.seq_num)
    (hb : Becomes s s' t s.shared.sender_msg_seq_num_ none s.shared.wire
      (s.shared.failed ++ [o])) : Numbered s' := by
  have hlast : s'.shared.lastDrawn = s.shared.lastDrawn := by
    rw [Shared.lastDrawn, hb.seq_num, Shared.lastDrawn]
  refine ⟨?_, ?_, ?_, ?_, ?_, ?_, ?_⟩
  · rw [hb.seq_num]
    exact h.range
  · rw [hb.wire]
    exact h.consecutive
  · rw [hb.wire, hlast]
    exact h.wire_le
  · intro u n hu
    rw [hb.wire, hlast]
    exact h.held u n (held_of_becomes_none hb hu).2
  · intro u v n hu hv
    exact h.distinct u v n (held_of_becomes_none hb hu).2 (held_of_becomes_none hb hv).2
  · intro o' ho'
    rw [hb.failed] at ho'
    rw [hb.wire, hlast]
    rcases List.mem_append.mp ho' with ho' | ho'
    · obtain ⟨hlt, hle, hnot⟩ := h.failed o' ho'
      exact ⟨hlt, hle, fun u hu => hnot u (held_of_becomes_none hb hu).2⟩
    · obtain rfl := List.mem_singleton.mp ho'
      obtain ⟨hlt, hle⟩ := h.held t _ hheld
      refine ⟨hlt, hle, ?_⟩
      intro u hu
      obtain ⟨hne, hu⟩ := held_of_becomes_none hb hu
      exact hne (h.distinct u t _ hu hheld)
  · intro n hlt hn
    rw [hb.wire] at hlt
    rw [hlast] at hn
    rw [hb.failed]
    rcases h.accounted n hlt hn with ⟨o', ho', hnum⟩ | ⟨u, hu⟩
    · exact Or.inl ⟨o', List.mem_append_left _ ho', hnum⟩
    · by_cases hut : u = t
      · -- what `t` held is what the failed send has used up
        subst hut
        have hnum : o.seq_num = n := Option.some.inj (hheld.symm.trans hu)
        exact Or.inl ⟨o, List.mem_append_right _ (List.mem_singleton_self o), hnum⟩
      · exact Or.inr ⟨u, (hb.others u hut).trans hu⟩

/-! ## The order on the wire -/

theorem decimal_injective : Function.Injective decimal := by
  intro n m h
  rw [← readDigits_decimal n, h, readDigits_decimal]

/-- The numbers on the wire, as the fields of the messages and as what was drawn. -/
theorem inOrder_iff : s.InOrder cfg
    ↔ s.shared.wire.map Outbound.seq_num = List.range' 1 s.shared.wire.length := by
  have htext : s.shared.wire.map (fun o => (o.message cfg).fields.get? FIXField.msgSeqNum)
      = (s.shared.wire.map Outbound.seq_num).map fun n => some (decimal n) := by
    rw [List.map_map]
    exact List.map_congr_left fun o _ => get?_msgSeqNum_message cfg o
  have hinjective : Function.Injective fun n => some (decimal n) :=
    fun n m h => decimal_injective (Option.some.inj h)
  rw [Session.InOrder, htext]
  exact (List.map_injective_iff.mpr hinjective).eq_iff

/-- One more message on the wire. -/
theorem Numbered.inOrder_write_iff (h : Numbered s) {o : Outbound} {seq_num : ℕ}
    {held : Option ℕ} {failed : List Outbound}
    (hb : Becomes s s' t seq_num held (s.shared.wire ++ [o]) failed) :
    s'.InOrder cfg ↔ o.seq_num = s.shared.wire.length + 1 := by
  rw [inOrder_iff, hb.wire, List.map_append, h.consecutive, List.length_append,
    List.length_singleton, List.range'_concat, List.map_singleton, List.append_cancel_left_eq,
    Nat.one_mul, Nat.add_comm 1]
  exact ⟨fun heq => (List.cons.inj heq).1, fun heq => by rw [heq]⟩

/-! ## Steps of the session -/

variable [DecidableEq ι]

theorem held_set_self (s : Session ι) (t : ThreadId ι) (thread : Option Thread) :
    (s.set t thread).held t = (thread.bind Thread.sending).map Sending.seq_num := by
  show ((Function.update s.threads t thread t).bind _).map _ = _
  rw [Function.update_self]

theorem held_set_of_ne (s : Session ι) {t u : ThreadId ι} (h : u ≠ t) (thread : Option Thread) :
    (s.set t thread).held u = s.held u := by
  show ((Function.update s.threads t thread u).bind _).map _ = _
  rw [Function.update_of_ne h]
  rfl

/-- One thread goes on and the shared variables change; the other threads do not. -/
theorem becomes_set (s : Session ι) (t : ThreadId ι) (s₁ : Shared ι) (thread : Thread) :
    Becomes s ({ s with shared := s₁ }.set t (some thread)) t s₁.sender_msg_seq_num_
      (thread.sending.map Sending.seq_num) s₁.wire s₁.failed where
  seq_num := rfl
  wire := rfl
  failed := rfl
  self := held_set_self _ t _
  others := fun _ hu => held_set_of_ne _ hu _

/-- A thread is replaced by one that is about to send nothing, as it was itself. -/
theorem held_set_idle {thread : Option Thread}
    (hidle : s.held t = none) (hthread : thread.bind Thread.sending = none) (u : ThreadId ι) :
    (s.set t thread).held u = s.held u := by
  by_cases hu : u = t
  · rw [hu, held_set_self, hthread, hidle]
    rfl
  · exact held_set_of_ne s hu thread

/-- Starting a worker changes no number. -/
theorem becomes_startWorker (hidle : s.held t = none)
    (rest : List Stmt) (w : Worker) :
    Becomes s (s.startWorker t rest w) t s.shared.sender_msg_seq_num_ (s.held t) s.shared.wire
      s.shared.failed := by
  unfold Session.startWorker
  split_ifs with hjoinable
  · exact becomes_of_held t rfl fun _ => rfl
  · have hnone : s.threads (.worker w) = none := Option.not_isSome_iff_eq_none.mp hjoinable
    have hworker : s.held (.worker w) = none := by rw [Session.held, hnone]; rfl
    refine becomes_of_held t rfl fun u => ?_
    rw [held_set_idle _ rfl, held_set_idle hidle rfl]
    rw [held_set_idle hidle rfl, hworker]

/-- Joining a worker changes no number. -/
theorem becomes_joinWorker (hidle : s.held t = none)
    {rest : List Stmt} {w : Worker} (h : s.joinWorker t rest w = some s') :
    Becomes s s' t s.shared.sender_msg_seq_num_ (s.held t) s.shared.wire s.shared.failed := by
  rcases joinWorker_cases h with rfl | rfl | ⟨hended, rfl⟩
  · exact becomes_of_held t rfl (held_set_idle hidle rfl)
  · exact becomes_of_held t rfl fun _ => rfl
  · have hworker : s.held (.worker w) = none := held_of_thread hended
    refine becomes_of_held t rfl fun u => ?_
    rw [held_set_idle _ rfl, held_set_idle hidle rfl]
    rw [held_set_idle hidle rfl, hworker]

/-- **What a step does to the numbers.**  It leaves them alone, draws one, writes a message
completely, or fails to send one. -/
theorem next_numbers {a : Action ι} (h : next cfg s a = some s') :
    (s.draws a = false ∧ s.written a = none ∧
      Becomes s s' a.thread s.shared.sender_msg_seq_num_ (s.held a.thread) s.shared.wire
        s.shared.failed) ∨
    (s.draws a = true ∧ s.written a = none ∧ s.held a.thread = none ∧
      Becomes s s' a.thread ((s.shared.sender_msg_seq_num_ + 1) % 2 ^ 32)
        (some s.shared.sender_msg_seq_num_) s.shared.wire s.shared.failed) ∨
    (∃ o, s.draws a = false ∧ s.written a = some o ∧ s.held a.thread = some o.seq_num ∧
      Becomes s s' a.thread s.shared.sender_msg_seq_num_ none (s.shared.wire ++ [o])
        s.shared.failed) ∨
    (∃ o, s.written a = none ∧ s.held a.thread = some o.seq_num ∧
      Becomes s s' a.thread s.shared.sender_msg_seq_num_ none s.shared.wire
        (s.shared.failed ++ [o])) := by
  rcases next_cases h with ⟨sending, stack, s₁, sending', hthread, hnext, rfl⟩ |
    ⟨w, rest, hthread, rfl⟩ | ⟨w, rest, hthread, hjoin⟩ |
    ⟨stmt, rest, s₁, thread, hthread, hnext, rfl⟩
  · -- a message on its way
    have hheld : s.held a.thread = some sending.seq_num := held_of_thread hthread
    have hdraws : s.draws a = false := by rw [Session.draws, hthread]
    have hsending : (s.threads a.thread).bind Thread.sending = some sending := by rw [hthread]; rfl
    have hwritten : (¬ ∃ o, sending = .checked o ∧ a.choice = .sent true) →
        s.written a = none := by
      intro hnot
      by_contra hsome
      obtain ⟨o, ho⟩ := Option.ne_none_iff_exists'.mp hsome
      obtain ⟨hchecked, hchoice⟩ := written_eq_some_iff.mp ho
      exact hnot ⟨o, Option.some.inj (hsending.symm.trans hchecked), hchoice⟩
    have hbecomes := becomes_set s a.thread s₁ ⟨sending', stack⟩
    obtain ⟨hseq, hcases⟩ := sending_next_cases hnext
    rw [hseq] at hbecomes
    rcases hcases with ⟨hwire, hfailed, hnum, hnot⟩ | ⟨o, rfl, hchoice, rfl, hwire, hfailed⟩ |
      ⟨o, hnum, rfl, hwire, hfailed, hnot⟩
    · rw [hwire, hfailed, hnum, ← hheld] at hbecomes
      exact Or.inl ⟨hdraws, hwritten hnot, hbecomes⟩
    · rw [hwire, hfailed] at hbecomes
      exact Or.inr (Or.inr (Or.inl ⟨o, hdraws, written_eq_some_iff.mpr ⟨hsending, hchoice⟩, hheld,
        hbecomes⟩))
    · rw [hwire, hfailed] at hbecomes
      exact Or.inr (Or.inr (Or.inr ⟨o, hwritten hnot, hheld.trans (congrArg some hnum), hbecomes⟩))
  · -- the start of a worker
    have hwritten : s.written a = none := by rw [Session.written, hthread]; rfl
    have hdraws : s.draws a = false := by rw [Session.draws, hthread]
    exact Or.inl ⟨hdraws, hwritten, becomes_startWorker (held_of_thread hthread) rest w⟩
  · -- the end of a worker
    have hwritten : s.written a = none := by rw [Session.written, hthread]; rfl
    have hdraws : s.draws a = false := by rw [Session.draws, hthread]
    exact Or.inl ⟨hdraws, hwritten, becomes_joinWorker (held_of_thread hthread) hjoin⟩
  · -- another statement: only a draw puts a message on its way
    have hheld : s.held a.thread = none := held_of_thread hthread
    have hwritten : s.written a = none := by rw [Session.written, hthread]; rfl
    have hbecomes := becomes_set s a.thread s₁ thread
    by_cases hdraw : ∃ out, stmt = .draw out
    · obtain ⟨out, rfl⟩ := hdraw
      obtain ⟨rfl, rfl⟩ := Prod.mk.inj (Option.some.inj hnext)
      exact Or.inr (Or.inl ⟨by rw [Session.draws, hthread], hwritten, hheld, hbecomes⟩)
    · have hnot : ∀ out, stmt ≠ .draw out := fun out heq => hdraw ⟨out, heq⟩
      obtain ⟨hsending, hseq, hwire, hfailed⟩ := stmt_next_frame hnext hnot
      have hdraws : s.draws a = false := by
        rw [Session.draws, hthread]
        cases stmt with
        | draw out => exact absurd rfl (hnot out)
        | _ => rfl
      rw [hsending, hseq, hwire, hfailed] at hbecomes
      exact Or.inl ⟨hdraws, hwritten, hheld ▸ hbecomes⟩

/-- **A step in turn** keeps the numbers in order. -/
theorem numbered_next {a : Action ι} (h : Numbered s) (hturn : s.InTurn a)
    (hstep : next cfg s a = some s') : Numbered s' := by
  rcases next_numbers hstep with ⟨-, -, hb⟩ | ⟨hdraws, -, hidle, hb⟩ |
    ⟨o, -, hwritten, hheld, hb⟩ | ⟨o, -, hheld, hb⟩
  · exact h.quiet hb
  · exact h.draw hidle (hturn.1 hdraws) hb
  · exact h.write hheld ((h.next_iff hheld).mpr (hturn.2 o hwritten)) hb
  · exact h.fail hheld hb

/-! ## Runs -/

/-- **The messages on the wire are numbered 1, 2, 3 and so on** in every run whose steps
are in turn; and the next complete write carries the next number if and only if it is in
turn as well. -/
theorem inOrder_of_inTurn (h : (system ι cfg).ReachableBy Session.InTurn s) :
    s.InOrder cfg ∧ ∀ a o s', next cfg s a = some s' → s.written a = some o →
      (s'.InOrder cfg ↔ s.InTurn a) := by
  have hnumbered : Numbered s := by
    apply h.invariant
    · rintro s rfl
      exact numbered_start
    · intro s a s' hs hok hstep
      exact numbered_next hs hok hstep
  refine ⟨inOrder_iff.mpr hnumbered.consecutive, ?_⟩
  intro a o s' hstep hwritten
  rcases next_numbers hstep with ⟨-, hnone, -⟩ | ⟨-, hnone, -⟩ | ⟨o', hdraws, ho', hheld, hb⟩ |
    ⟨-, hnone, -⟩
  · exact absurd (hwritten.symm.trans hnone) (Option.some_ne_none o)
  · exact absurd (hwritten.symm.trans hnone) (Option.some_ne_none o)
  · obtain rfl : o = o' := Option.some.inj (hwritten.symm.trans ho')
    rw [hnumbered.inOrder_write_iff hb, hnumbered.next_iff hheld]
    constructor
    · intro hfirst
      refine ⟨fun hdraw => absurd (hdraws.symm.trans hdraw) Bool.false_ne_true, ?_⟩
      intro o' ho'
      obtain rfl : o = o' := Option.some.inj (hwritten.symm.trans ho')
      exact hfirst
    · intro hturn
      exact hturn.2 o hwritten
  · exact absurd (hwritten.symm.trans hnone) (Option.some_ne_none o)

instance [Fintype ι] : Fintype (ThreadId ι) :=
  Fintype.ofEquiv (ι ⊕ Bool)
    { toFun := fun x => x.elim .app fun b => .worker (if b then .receive else .heartbeat)
      invFun := fun t =>
        match t with
        | .app i => .inl i
        | .worker .receive => .inr true
        | .worker .heartbeat => .inr false
      left_inv := by rintro (i | (_ | _)) <;> rfl
      right_inv := by rintro (i | (_ | _)) <;> rfl }

instance [Fintype ι] (s : Session ι) : DecidablePred s.InTurn := fun _ =>
  inferInstanceAs (Decidable (_ ∧ _))

/-- Steps of one of two application threads. -/
def threadSteps (thread : Bool) (choices : List Choice) : List (Action Bool) :=
  choices.map fun choice => ⟨.app thread, choice⟩

/-- One thread connects.  Both log on: each draws its number, and then the messages are
composed and sent, in the order of the numbers. -/
def loggingOnTogether : List (Action Bool) :=
  let draw := [.call (.logon true), .none, .none, .none, .none, .none]
  let write := [.time (ascii "20240101-09:30:00.0"), .none, .sent true, .none]
  List.flatten [threadSteps false [.call .connect, .none, .opened true, .none, .none, .none],
    threadSteps false draw, threadSteps true draw, threadSteps false write,
    threadSteps true write]

/-- Two logons on different threads that are sent completely. -/
theorem inOrder_loggingOnTogether :
    ∃ s, (system Bool clientConfig).ReachableBy Session.InTurn s ∧
      s.shared.wire.map Outbound.seq_num = [1, 2] ∧ s.InOrder clientConfig := by
  have hrun : ∃ s ∈ runFrom (next clientConfig) Session.InTurn start loggingOnTogether,
      s.shared.wire.map Outbound.seq_num = [1, 2] := by decide +kernel
  obtain ⟨s, hreach, hwire⟩ := exists_of_runFrom hrun
  exact ⟨s, hreach, hwire, (inOrder_of_inTurn hreach).1⟩

/-- The application logs on, and `send` returns what is given. -/
def loggingOn (complete : Bool) : List (Action Unit) :=
  appSteps [.call (.logon true), .none, .none, .none, .none, .none,
    .time (ascii "20240101-09:30:00.0"), .none, .sent complete, .none]

/-- **The first message on the wire has the number 2**, if `send` did not take all of the
first logon and the application logs on again. -/
theorem not_inOrder_loggingOnAgain :
    ∃ s, (system Unit clientConfig).Reachable s ∧ s.shared.wire.length = 1 ∧
      ¬ s.InOrder clientConfig := by
  have hrun : ∃ s ∈ runFrom (next clientConfig) (fun _ _ => True) start
      (connecting ++ loggingOn false ++ loggingOn true),
      s.shared.wire.map Outbound.seq_num = [2] := by decide +kernel
  obtain ⟨s, hreach, hwire⟩ := exists_of_runFrom hrun
  have hlength : s.shared.wire.length = 1 := by simpa using congrArg List.length hwire
  refine ⟨s, hreach, hlength, ?_⟩
  rw [inOrder_iff, hwire, hlength]
  decide

end FIX42Protocol
