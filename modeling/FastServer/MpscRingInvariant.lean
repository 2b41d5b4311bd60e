/-
# The ring of many producers is correct

The invariant of `MPSCRingBuffer` ties the sequence number of every slot to the positions
reserved and released and to where every producer stands.  It holds as long as no producer
is overtaken by so many others that the 64-bit positions come round again; a run in which
one is shows why.
-/
import FastServer.MpscRingBuffer

namespace MPSCRingBuffer

open Ring TransitionSystem

variable {α ι : Type} (N : PowerOfTwo)

/-! ## The invariant -/

/-- Producer `i` is filling position `p`. -/
def State.Fills (s : State α ι) (i : ι) (p : ℕ) : Prop :=
  (s.producers i).writing = some (p % 2 ^ 64) ∧ s.seen i = p

/-- What the slot of a position says that is not released: it is filled with the item of the
position, reserved by a producer that is filling it, or free. -/
inductive State.Slot (s : State α ι) (p : ℕ) : Prop
  | filled : s.sequence (p % N.size) = (p + 1) % 2 ^ 64 →
      s.reserved[p]? = some (s.data (p % N.size)) → Slot s p
  | filling (i : ι) : s.sequence (p % N.size) = p % 2 ^ 64 → p < s.reserved.length →
      s.Fills i p → Slot s p
  | free : s.sequence (p % N.size) = p % 2 ^ 64 → s.reserved.length ≤ p → Slot s p

/-- What a producer at `pc` knows that read the tail when `seen` positions were reserved. -/
def State.ProducerOk (s : State α ι) (seen : ℕ) : Producer α → Prop
  | .idle => True
  | .loadTail _ => True
  | .loadSequence _ t => t = seen % 2 ^ 64 ∧ seen ≤ s.reserved.length
  | .reserve _ t => t = seen % 2 ^ 64 ∧ seen ≤ s.reserved.length ∧
      (seen = s.reserved.length → seen < s.released + N.size)
  | .write item t => t = seen % 2 ^ 64 ∧ s.released ≤ seen ∧ s.reserved[seen]? = some item ∧
      s.sequence (seen % N.size) = seen % 2 ^ 64
  | .publish t => t = seen % 2 ^ 64 ∧ s.released ≤ seen ∧
      s.reserved[seen]? = some (s.data (seen % N.size)) ∧
      s.sequence (seen % N.size) = seen % 2 ^ 64

/-- What the consumer knows. -/
def State.ConsumerOk (s : State α ι) : Consumer α → Prop
  | .idle => s.released = s.popped.length
  | .loadSequence h => s.released = s.popped.length ∧ h = s.released % 2 ^ 64
  | .read h => s.released = s.popped.length ∧ h = s.released % 2 ^ 64 ∧
      s.sequence (s.released % N.size) = (s.released + 1) % 2 ^ 64
  | .reset h item => s.released = s.popped.length ∧ h = s.released % 2 ^ 64 ∧
      s.sequence (s.released % N.size) = (s.released + 1) % 2 ^ 64 ∧
      s.reserved[s.released]? = some item
  | .advance h item => s.released = s.popped.length + 1 ∧ h = s.popped.length % 2 ^ 64 ∧
      s.reserved[s.popped.length]? = some item

/-- The counters count the positions, at most one round of them is reserved and not
released, and every slot and every thread is where they say. -/
structure State.Invariant (s : State α ι) : Prop where
  head : s.head_ = s.popped.length % 2 ^ 64
  tail : s.tail_ = s.reserved.length % 2 ^ 64
  released_le : s.released ≤ s.reserved.length
  reserved_le : s.reserved.length ≤ s.released + N.size
  popped : s.popped <+: s.reserved
  slots : ∀ p, s.released ≤ p → p < s.released + N.size → s.Slot N p
  producers : ∀ i, s.ProducerOk N (s.seen i) (s.producers i)
  distinct : ∀ i j p, s.Fills i p → s.Fills j p → i = j
  consumer : s.ConsumerOk N s.consumer
  refused : ∀ n ∈ s.refused, n = N.size

variable {N} {s s' : State α ι} {i : ι}

/-- The sequence number of a position and the one after it differ. -/
theorem succ_mod_ne (p : ℕ) : (p + 1) % 2 ^ 64 ≠ p % 2 ^ 64 := by omega

/-- The number after the 64-bit number of a position. -/
theorem mod_succ_mod (p : ℕ) : (p % 2 ^ 64 + 1) % 2 ^ 64 = (p + 1) % 2 ^ 64 := by omega

/-- A slot says the same as long as nobody changes it, or stops filling it. -/
theorem State.Slot.congr {p : ℕ} (h : s.Slot N p) (hsequence : s'.sequence = s.sequence)
    (hdata : s'.data = s.data) (hreserved : s'.reserved = s.reserved)
    (hfills : ∀ j, s.Fills j p → s'.Fills j p) : s'.Slot N p := by
  cases h with
  | filled hseq hitem => exact .filled (hsequence ▸ hseq) (hreserved ▸ hdata ▸ hitem)
  | filling j hseq hlt hj => exact .filling j (hsequence ▸ hseq) (hreserved ▸ hlt) (hfills j hj)
  | free hseq hle => exact .free (hsequence ▸ hseq) (hreserved ▸ hle)

/-- The items reserved stay where they are. -/
theorem getElem?_reserve {reserved : List α} {p : ℕ} {x : α} (h : reserved[p]? = some x)
    (item : α) : (reserved ++ [item])[p]? = some x := by
  rw [List.getElem?_append_left (List.getElem?_eq_some_iff.mp h).1]
  exact h

/-- What a producer knows stays true when another position is reserved. -/
theorem State.ProducerOk.append {seen : ℕ} {pc : Producer α} (h : s.ProducerOk N seen pc)
    (item : α) :
    ({ s with reserved := s.reserved ++ [item] } : State α ι).ProducerOk N seen pc := by
  have hlength : (s.reserved ++ [item]).length = s.reserved.length + 1 := by simp
  cases pc with
  | idle => trivial
  | loadTail => trivial
  | loadSequence _ t =>
    refine ⟨h.1, ?_⟩
    show seen ≤ (s.reserved ++ [item]).length
    have := h.2
    omega
  | reserve _ t =>
    obtain ⟨ht, hle, -⟩ := h
    refine ⟨ht, ?_, ?_⟩
    · show seen ≤ (s.reserved ++ [item]).length
      omega
    · intro hseen
      have hseen : seen = (s.reserved ++ [item]).length := hseen
      omega
  | write item' t => exact ⟨h.1, h.2.1, getElem?_reserve h.2.2.1 item, h.2.2.2⟩
  | publish t => exact ⟨h.1, h.2.1, getElem?_reserve h.2.2.1 item, h.2.2.2⟩

/-- What the consumer knows stays true when another position is reserved. -/
theorem State.ConsumerOk.append {pc : Consumer α} (h : s.ConsumerOk N pc) (item : α) :
    ({ s with reserved := s.reserved ++ [item] } : State α ι).ConsumerOk N pc := by
  cases pc with
  | idle => exact h
  | loadSequence => exact h
  | read => exact h
  | reset _ x => exact ⟨h.1, h.2.1, h.2.2.1, getElem?_reserve h.2.2.2 item⟩
  | advance _ x => exact ⟨h.1, h.2.1, getElem?_reserve h.2.2 item⟩

section Fills

variable [DecidableEq ι] {pc : Producer α} {j : ι} {p : ℕ}

/-- What another producer fills when producer `i` goes on. -/
theorem fills_setProducer_of_ne (hj : j ≠ i) : (s.setProducer i pc).Fills j p ↔ s.Fills j p := by
  unfold State.Fills
  rw [State.setProducer_of_ne s hj]
  rfl

theorem fills_setProducer_self :
    (s.setProducer i pc).Fills i p ↔ pc.writing = some (p % 2 ^ 64) ∧ s.seen i = p := by
  unfold State.Fills
  rw [State.setProducer_self]
  rfl

end Fills

namespace State.Invariant

/-- What a producer knows of the slot it is writing. -/
theorem of_writing (h : s.Invariant N) {t : ℕ} (hw : (s.producers i).writing = some t) :
    t = s.seen i % 2 ^ 64 ∧ s.released ≤ s.seen i ∧ s.seen i < s.reserved.length ∧
      s.sequence (s.seen i % N.size) = s.seen i % 2 ^ 64 := by
  have hok := h.producers i
  cases hpc : s.producers i with
  | write item t' =>
    rw [hpc] at hok hw
    obtain ⟨ht, hreleased, hitem, hseq⟩ := hok
    obtain rfl : t' = t := Option.some.inj hw
    exact ⟨ht, hreleased, (List.getElem?_eq_some_iff.mp hitem).1, hseq⟩
  | publish t' =>
    rw [hpc] at hok hw
    obtain ⟨ht, hreleased, hitem, hseq⟩ := hok
    obtain rfl : t' = t := Option.some.inj hw
    exact ⟨ht, hreleased, (List.getElem?_eq_some_iff.mp hitem).1, hseq⟩
  | _ =>
    rw [hpc] at hw
    exact absurd hw.symm (Option.some_ne_none t)

/-- A producer that is writing fills the position it has seen. -/
theorem fills (h : s.Invariant N) {t : ℕ} (hw : (s.producers i).writing = some t) :
    s.Fills i (s.seen i) :=
  ⟨(h.of_writing hw).1 ▸ hw, rfl⟩

/-- **The invariant is what the ring promises.** -/
theorem correct (h : s.Invariant N) : s.Correct N where
  popped := h.popped
  nothing := by
    intro current_head hconsumer hseq
    have hok := h.consumer
    rw [hconsumer] at hok
    obtain ⟨hreleased, rfl⟩ := hok
    rw [N.mask_mod, mod_succ_mod] at hseq
    have hpos := N.size_pos
    cases h.slots s.released (le_refl _) (by omega) with
    | filled hfilled _ => exact absurd hfilled hseq
    | filling i _ _ hfills =>
      exact Or.inr ⟨i, _, hfills.1, rfl⟩
    | free _ hfree =>
      exact Or.inl (h.popped.eq_of_length_le (by omega))
  writers := by
    intro i j t t' hi hj hmask
    obtain ⟨rfl, hi₁, hi₂, -⟩ := h.of_writing hi
    obtain ⟨rfl, hj₁, hj₂, -⟩ := h.of_writing hj
    rw [N.mask_mod, N.mask_mod] at hmask
    have hle := h.reserved_le
    have hseen := eq_of_mod_eq hmask (by omega) (by omega)
    exact h.distinct i j _ (h.fills hi) (hseen ▸ h.fills hj)
  reader := by
    intro i t current_head hi hreading hmask
    obtain ⟨rfl, hi₁, hi₂, hseq⟩ := h.of_writing hi
    have hle := h.reserved_le
    have hfilled : current_head = s.released % 2 ^ 64 ∧
        s.sequence (s.released % N.size) = (s.released + 1) % 2 ^ 64 := by
      have hok := h.consumer
      cases hpc : s.consumer with
      | read h' =>
        rw [hpc] at hok hreading
        obtain rfl : h' = current_head := Option.some.inj hreading
        exact hok.2
      | reset h' item =>
        rw [hpc] at hok hreading
        obtain rfl : h' = current_head := Option.some.inj hreading
        exact ⟨hok.2.1, hok.2.2.1⟩
      | _ =>
        rw [hpc] at hreading
        exact absurd hreading.symm (Option.some_ne_none _)
    obtain ⟨rfl, hfilled⟩ := hfilled
    rw [N.mask_mod, N.mask_mod] at hmask
    have hseen := eq_of_mod_eq hmask (by omega) (by omega)
    rw [hseen] at hseq
    exact succ_mod_ne _ (hfilled.symm.trans hseq)
  refused := h.refused

/-- The constructor has numbered the slots. -/
theorem start_invariant [Inhabited α] : (start : State α ι).Invariant N where
  head := rfl
  tail := rfl
  released_le := le_refl 0
  reserved_le := Nat.zero_le _
  popped := List.prefix_rfl
  slots := by
    intro p _ hp
    have hp : p < 0 + N.size := hp
    have hsize := N.size_le
    refine .free ?_ (Nat.zero_le p)
    show p % N.size = p % 2 ^ 64
    rw [Nat.mod_eq_of_lt (by omega), Nat.mod_eq_of_lt (by omega)]
  producers := fun _ => trivial
  distinct := fun i _ p hi _ => absurd hi.1.symm (Option.some_ne_none (p % 2 ^ 64))
  consumer := rfl
  refused := fun n hn => absurd hn List.not_mem_nil

/-! ## Steps of a producer -/

variable [DecidableEq ι]

/-- A producer that is not writing goes on, and does not begin to write. -/
theorem move (h : s.Invariant N) {pc : Producer α} {seen : ι → ℕ}
    (hold : (s.producers i).writing = none) (hnew : pc.writing = none)
    (hseen : ∀ j, j ≠ i → seen j = s.seen j) (hok : s.ProducerOk N (seen i) pc) :
    ({ s.setProducer i pc with seen := seen } : State α ι).Invariant N := by
  -- the positions are filled by the same producers as before
  have hfills : ∀ {j p},
      ({ s.setProducer i pc with seen := seen } : State α ι).Fills j p ↔ s.Fills j p := by
    intro j p
    show ((s.setProducer i pc).producers j).writing = _ ∧ seen j = p ↔ _
    by_cases hj : j = i
    · subst hj
      rw [State.setProducer_self, hnew]
      constructor
      · intro hfills
        exact absurd hfills.1.symm (Option.some_ne_none _)
      · intro hfills
        exact absurd (hfills.1.symm.trans hold) (Option.some_ne_none _)
    · rw [State.setProducer_of_ne s hj, hseen j hj]
      rfl
  refine ⟨h.head, h.tail, h.released_le, h.reserved_le, h.popped, ?_, ?_, ?_, h.consumer,
    h.refused⟩
  · exact fun p hp hp' => (h.slots p hp hp').congr rfl rfl rfl fun j => hfills.mpr
  · intro j
    show s.ProducerOk N (seen j) ((s.setProducer i pc).producers j)
    by_cases hj : j = i
    · subst hj
      rw [State.setProducer_self]
      exact hok
    · rw [State.setProducer_of_ne s hj, hseen j hj]
      exact h.producers j
  · intro j k p hj hk
    exact h.distinct j k p (hfills.mp hj) (hfills.mp hk)

/-- A producer that is not writing loads the tail. -/
theorem loadTail (h : s.Invariant N) (hold : (s.producers i).writing = none) (item : α) :
    (s.loadTail i item).Invariant N := by
  refine h.move hold rfl (fun j hj => Function.update_of_ne hj _ _) ?_
  rw [Function.update_self]
  exact ⟨h.tail, le_refl _⟩

/-- **A position is reserved** by a compare-and-swap. -/
theorem reserve (h : s.Invariant N) (item : α) (hold : (s.producers i).writing = none)
    (hseen : s.seen i = s.reserved.length) (hroom : s.reserved.length < s.released + N.size) :
    ({ s.setProducer i (.write item (s.reserved.length % 2 ^ 64)) with
      tail_ := (s.reserved.length + 1) % 2 ^ 64
      reserved := s.reserved ++ [item] } : State α ι).Invariant N := by
  have hfree : s.sequence (s.reserved.length % N.size) = s.reserved.length % 2 ^ 64 := by
    cases h.slots s.reserved.length h.released_le hroom with
    | filled _ hitem => exact absurd (List.getElem?_eq_some_iff.mp hitem).1 (lt_irrefl _)
    | filling _ _ hlt => exact absurd hlt (lt_irrefl _)
    | free hseq _ => exact hseq
  have hlength : (s.reserved ++ [item]).length = s.reserved.length + 1 := by simp
  have hreleased := h.released_le
  refine ⟨h.head, ?_, ?_, ?_, h.popped.trans (List.prefix_append _ _), ?_, ?_, ?_,
    h.consumer.append item, h.refused⟩
  · show _ = (s.reserved ++ [item]).length % 2 ^ 64
    rw [hlength]
  · show s.released ≤ (s.reserved ++ [item]).length
    omega
  · show (s.reserved ++ [item]).length ≤ s.released + N.size
    omega
  · intro p hp hp'
    cases h.slots p hp hp' with
    | filled hseq hdata => exact .filled hseq (getElem?_reserve hdata item)
    | filling j hseq hlt hfills =>
      have hj : j ≠ i := by
        rintro rfl
        exact Option.some_ne_none _ (hfills.1.symm.trans hold)
      refine .filling j hseq ?_ ((fills_setProducer_of_ne hj).mpr hfills)
      show p < (s.reserved ++ [item]).length
      omega
    | free hseq hle =>
      by_cases hp : p = s.reserved.length
      · subst hp
        refine .filling i hseq ?_ (fills_setProducer_self.mpr ⟨rfl, hseen⟩)
        show s.reserved.length < (s.reserved ++ [item]).length
        omega
      · refine .free hseq ?_
        show (s.reserved ++ [item]).length ≤ p
        omega
  · intro j
    show State.ProducerOk N _ (s.seen j) ((s.setProducer i _).producers j)
    by_cases hj : j = i
    · subst hj
      rw [State.setProducer_self, hseen]
      exact ⟨rfl, hreleased, List.getElem?_concat_length, hfree⟩
    · rw [State.setProducer_of_ne s hj]
      exact (h.producers j).append item
  · intro j k p hj hk
    -- the position is the new one, or was filled before by another producer
    have hcases : ∀ j, (s.setProducer i (.write item (s.reserved.length % 2 ^ 64))).Fills j p →
        (j = i ∧ p = s.reserved.length) ∨ (s.Fills j p ∧ p < s.reserved.length) := by
      intro j hfills
      by_cases hji : j = i
      · exact Or.inl ⟨hji, by rw [← hseen, ← hji]; exact hfills.2.symm⟩
      · have hfills := (fills_setProducer_of_ne hji).mp hfills
        exact Or.inr ⟨hfills, hfills.2 ▸ (h.of_writing hfills.1).2.2.1⟩
    rcases hcases j hj with ⟨rfl, hp⟩ | ⟨hj, hlt⟩
    · rcases hcases k hk with ⟨rfl, -⟩ | ⟨-, hlt⟩
      · rfl
      · exact absurd hlt (by omega)
    · rcases hcases k hk with ⟨rfl, hp⟩ | ⟨hk, -⟩
      · exact absurd hlt (by omega)
      · exact h.distinct j k p hj hk

/-- **The item is written** into the slot of the position. -/
theorem write (h : s.Invariant N) {item : α} {t : ℕ} (hpc : s.producers i = .write item t) :
    ({ s.setProducer i (.publish t) with
      data := Function.update s.data (N.mask t) item } : State α ι).Invariant N := by
  have hok := h.producers i
  rw [hpc] at hok
  obtain ⟨rfl, hge, hitem, hseq⟩ := hok
  have hlt : s.seen i < s.reserved.length := (List.getElem?_eq_some_iff.mp hitem).1
  have hround := h.reserved_le
  rw [N.mask_mod]
  -- the other slots keep their items
  have hdata : ∀ p, s.released ≤ p → p < s.released + N.size → p ≠ s.seen i →
      Function.update s.data (s.seen i % N.size) item (p % N.size) = s.data (p % N.size) := by
    intro p hp hp' hne
    exact Function.update_of_ne (mod_ne hp hp' hge (by omega) hne) _ _
  have hfills : ∀ {j p}, (s.setProducer i (.publish (s.seen i % 2 ^ 64))).Fills j p
      ↔ s.Fills j p := by
    intro j p
    by_cases hj : j = i
    · subst hj
      rw [fills_setProducer_self, State.Fills, hpc]
      rfl
    · exact fills_setProducer_of_ne hj
  refine ⟨h.head, h.tail, h.released_le, h.reserved_le, h.popped, ?_, ?_, ?_, h.consumer,
    h.refused⟩
  · intro p hp hp'
    cases h.slots p hp hp' with
    | filled hfilled hold =>
      have hne : p ≠ s.seen i := by
        rintro rfl
        exact succ_mod_ne _ (hfilled.symm.trans hseq)
      refine .filled hfilled ?_
      show s.reserved[p]? = some (Function.update s.data (s.seen i % N.size) item (p % N.size))
      rw [hdata p hp hp' hne]
      exact hold
    | filling j hfree hlt hj => exact .filling j hfree hlt (hfills.mpr hj)
    | free hfree hle => exact .free hfree hle
  · intro j
    show State.ProducerOk N _ (s.seen j) ((s.setProducer i _).producers j)
    by_cases hj : j = i
    · subst hj
      rw [State.setProducer_self]
      refine ⟨rfl, hge, ?_, hseq⟩
      show s.reserved[s.seen j]? = some (Function.update s.data (s.seen j % N.size) item _)
      rw [Function.update_self]
      exact hitem
    · rw [State.setProducer_of_ne s hj]
      have hother := h.producers j
      cases hpcj : s.producers j with
      | publish t' =>
        rw [hpcj] at hother
        obtain ⟨ht, hge', hold, hfree⟩ := hother
        have hlt' := (List.getElem?_eq_some_iff.mp hold).1
        have hne : s.seen j ≠ s.seen i := by
          intro heq
          refine hj (h.distinct j i (s.seen i) ⟨?_, heq⟩ ⟨?_, rfl⟩)
          · rw [hpcj, ht, heq]
            rfl
          · rw [hpc]
            rfl
        refine ⟨ht, hge', ?_, hfree⟩
        show s.reserved[s.seen j]? = some (Function.update s.data _ item (s.seen j % N.size))
        rw [hdata _ hge' (by omega) hne]
        exact hold
      | _ =>
        rw [hpcj] at hother
        exact hother
  · intro j k p hj hk
    exact h.distinct j k p (hfills.mp hj) (hfills.mp hk)

/-- **The item is published**: the sequence number says that the slot is filled. -/
theorem publish (h : s.Invariant N) {t : ℕ} (hpc : s.producers i = .publish t) :
    ({ s.setProducer i .idle with
      sequence := Function.update s.sequence (N.mask t) ((t + 1) % 2 ^ 64) } :
        State α ι).Invariant N := by
  have hok := h.producers i
  rw [hpc] at hok
  obtain ⟨rfl, hge, hitem, hseq⟩ := hok
  have hlt : s.seen i < s.reserved.length := (List.getElem?_eq_some_iff.mp hitem).1
  have hround := h.reserved_le
  rw [N.mask_mod, mod_succ_mod]
  have hself : s.Fills i (s.seen i) := ⟨by rw [hpc]; rfl, rfl⟩
  -- the other slots keep their sequence numbers
  have hother : ∀ p, s.released ≤ p → p < s.released + N.size → p ≠ s.seen i →
      Function.update s.sequence (s.seen i % N.size) ((s.seen i + 1) % 2 ^ 64) (p % N.size)
        = s.sequence (p % N.size) := by
    intro p hp hp' hne
    exact Function.update_of_ne (mod_ne hp hp' hge (by omega) hne) _ _
  refine ⟨h.head, h.tail, h.released_le, h.reserved_le, h.popped, ?_, ?_, ?_, ?_, h.refused⟩
  · intro p hp hp'
    by_cases hp₀ : p = s.seen i
    · subst hp₀
      exact .filled (Function.update_self ..) hitem
    · cases h.slots p hp hp' with
      | filled hfilled hold => exact .filled ((hother p hp hp' hp₀).trans hfilled) hold
      | filling j hfree hlt hj =>
        have hne : j ≠ i := by
          rintro rfl
          exact hp₀ hj.2.symm
        exact .filling j ((hother p hp hp' hp₀).trans hfree) hlt
          ((fills_setProducer_of_ne hne).mpr hj)
      | free hfree hle => exact .free ((hother p hp hp' hp₀).trans hfree) hle
  · intro j
    show State.ProducerOk N _ (s.seen j) ((s.setProducer i _).producers j)
    by_cases hj : j = i
    · subst hj
      rw [State.setProducer_self]
      trivial
    · rw [State.setProducer_of_ne s hj]
      have hokj := h.producers j
      have hne : ∀ {t}, (s.producers j).writing = some t → s.seen j ≠ s.seen i := by
        intro t hw heq
        exact hj (h.distinct j i (s.seen i) (heq ▸ h.fills hw) hself)
      have hkept : ∀ {t}, (s.producers j).writing = some t →
          Function.update s.sequence (s.seen i % N.size) ((s.seen i + 1) % 2 ^ 64)
            (s.seen j % N.size) = s.seen j % 2 ^ 64 := by
        intro t hw
        obtain ⟨-, hge', hlt', hfree⟩ := h.of_writing hw
        exact (hother _ hge' (by omega) (hne hw)).trans hfree
      cases hpcj : s.producers j with
      | write item' t' =>
        rw [hpcj] at hokj
        exact ⟨hokj.1, hokj.2.1, hokj.2.2.1, hkept (by rw [hpcj]; rfl)⟩
      | publish t' =>
        rw [hpcj] at hokj
        exact ⟨hokj.1, hokj.2.1, hokj.2.2.1, hkept (by rw [hpcj]; rfl)⟩
      | _ =>
        rw [hpcj] at hokj
        exact hokj
  · have hfills : ∀ j p, (s.setProducer i .idle).Fills j p → s.Fills j p := by
      intro j p hj
      by_cases hji : j = i
      · subst hji
        exact absurd (fills_setProducer_self.mp hj).1.symm (Option.some_ne_none _)
      · exact (fills_setProducer_of_ne hji).mp hj
    intro j k p hj hk
    exact h.distinct j k p (hfills j p hj) (hfills k p hk)
  · -- the slot that the consumer looks at is filled already
    have hpos := N.size_pos
    have hkept : s.sequence (s.released % N.size) = (s.released + 1) % 2 ^ 64 →
        Function.update s.sequence (s.seen i % N.size) ((s.seen i + 1) % 2 ^ 64)
          (s.released % N.size) = (s.released + 1) % 2 ^ 64 := by
      intro hfilled
      by_cases hp : s.released = s.seen i
      · rw [hp, Function.update_self]
      · exact (hother _ (le_refl _) (by omega) hp).trans hfilled
    have hokc := h.consumer
    show State.ConsumerOk N _ s.consumer
    cases hpcc : s.consumer with
    | read h' =>
      rw [hpcc] at hokc
      exact ⟨hokc.1, hokc.2.1, hkept hokc.2.2⟩
    | reset h' x =>
      rw [hpcc] at hokc
      exact ⟨hokc.1, hokc.2.1, hkept hokc.2.2.1, hokc.2.2.2⟩
    | _ =>
      rw [hpcc] at hokc
      exact hokc

omit [DecidableEq ι] in
/-- **What the test of a slot tells** a producer that read the tail in time: the slot is free
only if its position is, and too old only if all slots are reserved and not released. -/
theorem test (hN : 2 ≤ N.size) (h : s.Invariant N) {seen : ℕ} (hseen : seen ≤ s.reserved.length)
    (htimely : s.reserved.length + N.size ≤ seen + 2 ^ 63) :
    (diff (s.sequence (N.mask (seen % 2 ^ 64))) (seen % 2 ^ 64) = 0 → seen = s.reserved.length →
      seen < s.released + N.size) ∧
    (diff (s.sequence (N.mask (seen % 2 ^ 64))) (seen % 2 ^ 64) < 0 →
      s.reserved.length = s.released + N.size) := by
  have hreleased := h.released_le
  have hround := h.reserved_le
  have hsize := N.size_le
  -- the slot belongs to one position that is not released, and has one of its two numbers
  obtain ⟨p, hp, hp', hmod⟩ := exists_mod_eq N.size_pos s.released seen
  have hnumber : ∃ q, s.sequence (p % N.size) = q % 2 ^ 64 ∧
      ((q = p + 1 ∧ p < s.reserved.length) ∨ q = p) := by
    cases h.slots p hp hp' with
    | filled hseq hitem => exact ⟨_, hseq, Or.inl ⟨rfl, (List.getElem?_eq_some_iff.mp hitem).1⟩⟩
    | filling _ hseq _ _ => exact ⟨_, hseq, Or.inr rfl⟩
    | free hseq _ => exact ⟨_, hseq, Or.inr rfl⟩
  obtain ⟨q, hseq, hq⟩ := hnumber
  have hdiff : diff (s.sequence (N.mask (seen % 2 ^ 64))) (seen % 2 ^ 64) = (q : ℤ) - seen := by
    rw [N.mask_mod, ← hmod, hseq, diff]
    exact toI64_sub_natCast_mod (by omega) (by omega)
  rw [hdiff]
  clear hdiff hseq htimely hsize
  constructor
  · intro hzero hlast
    rcases hq with ⟨rfl, hlt⟩ | rfl
    · -- the number after the last position is in the next slot
      have := eq_of_mod_eq hmod (by omega) (by omega)
      omega
    · omega
  · intro hneg
    have hbefore : p + N.size ≤ seen := by
      by_contra hlt
      have := eq_of_mod_eq hmod (by omega) (by omega)
      omega
    omega

omit [DecidableEq ι] in
/-- The slots and the producers are not looked at. -/
theorem moveRest (h : s.Invariant N) {pc : Consumer α} {refused : List ℕ}
    (hok : s.ConsumerOk N pc) (hrefused : ∀ n ∈ refused, n = N.size) :
    ({ s with consumer := pc, refused := refused } : State α ι).Invariant N where
  head := h.head
  tail := h.tail
  released_le := h.released_le
  reserved_le := h.reserved_le
  popped := h.popped
  slots := fun p hp hp' => (h.slots p hp hp').congr rfl rfl rfl fun _ => id
  producers := h.producers
  distinct := h.distinct
  consumer := hok
  refused := hrefused

omit [DecidableEq ι] in
/-- One more `push` has returned `false`. -/
theorem refuse (h : s.Invariant N) {refused : List ℕ} (hrefused : ∀ n ∈ refused, n = N.size) :
    ({ s with refused := refused } : State α ι).Invariant N :=
  h.moveRest h.consumer hrefused

/-! ## Steps of the consumer -/

omit [DecidableEq ι] in
/-- A step of the consumer that only reads. -/
theorem moveConsumer (h : s.Invariant N) {pc : Consumer α} (hok : s.ConsumerOk N pc) :
    ({ s with consumer := pc } : State α ι).Invariant N :=
  h.moveRest hok h.refused

omit [DecidableEq ι] in
/-- **A slot is released** for the position one round later. -/
theorem reset (h : s.Invariant N) {current_head : ℕ} {item : α}
    (hpc : s.consumer = .reset current_head item) :
    ({ s with
      sequence :=
        Function.update s.sequence (N.mask current_head) ((current_head + N.size) % 2 ^ 64)
      consumer := .advance current_head item
      released := s.released + 1 } : State α ι).Invariant N := by
  have hok := h.consumer
  rw [hpc] at hok
  obtain ⟨hpopped, rfl, hfilled, hitem⟩ := hok
  have hlt : s.released < s.reserved.length := (List.getElem?_eq_some_iff.mp hitem).1
  have hround := h.reserved_le
  have hpos := N.size_pos
  rw [N.mask_mod, Nat.mod_add_mod]
  have hother : ∀ p, s.released ≤ p → p < s.released + N.size → p ≠ s.released →
      Function.update s.sequence (s.released % N.size) ((s.released + N.size) % 2 ^ 64)
        (p % N.size) = s.sequence (p % N.size) := by
    intro p hp hp' hne
    exact Function.update_of_ne (mod_ne hp hp' (le_refl _) (by omega) hne) _ _
  have hwriting : ∀ {i t}, (s.producers i).writing = some t → s.seen i ≠ s.released := by
    intro i t hw heq
    have hseq := (h.of_writing hw).2.2.2
    rw [heq] at hseq
    exact succ_mod_ne _ (hfilled.symm.trans hseq)
  -- the slots that producers are writing to are further on
  have hwrites : ∀ {i t}, (s.producers i).writing = some t → s.released + 1 ≤ s.seen i ∧
      Function.update s.sequence (s.released % N.size) ((s.released + N.size) % 2 ^ 64)
        (s.seen i % N.size) = s.seen i % 2 ^ 64 := by
    intro i t hw
    obtain ⟨-, hge, hlt', hseq⟩ := h.of_writing hw
    have hne := hwriting hw
    exact ⟨by omega, (hother _ hge (by omega) hne).trans hseq⟩
  refine ⟨h.head, h.tail, hlt, ?_, h.popped, ?_, ?_, h.distinct, ?_, h.refused⟩
  · show s.reserved.length ≤ s.released + 1 + N.size
    omega
  · intro p hp hp'
    have hp : s.released + 1 ≤ p := hp
    have hp' : p < s.released + 1 + N.size := hp'
    by_cases hlast : p = s.released + N.size
    · subst hlast
      refine .free ?_ hround
      show Function.update s.sequence (s.released % N.size) _ _ = _
      rw [Nat.add_mod_right, Function.update_self]
    · have hkept := hother p (by omega) (by omega) (by omega)
      cases h.slots p (by omega) (by omega) with
      | filled hseq hdata => exact .filled (hkept.trans hseq) hdata
      | filling j hseq hlt hj => exact .filling j (hkept.trans hseq) hlt hj
      | free hseq hle => exact .free (hkept.trans hseq) hle
  · intro i
    show State.ProducerOk N _ (s.seen i) (s.producers i)
    have hoki := h.producers i
    cases hpci : s.producers i with
    | idle => trivial
    | loadTail => trivial
    | loadSequence _ t =>
      rw [hpci] at hoki
      exact hoki
    | reserve _ t =>
      rw [hpci] at hoki
      obtain ⟨ht, hle, hroom⟩ := hoki
      refine ⟨ht, hle, fun hlast => ?_⟩
      have := hroom hlast
      show s.seen i < s.released + 1 + N.size
      omega
    | write item' t =>
      have hw : (s.producers i).writing = some t := by rw [hpci]; rfl
      rw [hpci] at hoki
      exact ⟨hoki.1, (hwrites hw).1, hoki.2.2.1, (hwrites hw).2⟩
    | publish t =>
      have hw : (s.producers i).writing = some t := by rw [hpci]; rfl
      rw [hpci] at hoki
      exact ⟨hoki.1, (hwrites hw).1, hoki.2.2.1, (hwrites hw).2⟩
  · rw [hpopped] at hitem
    exact ⟨congrArg (· + 1) hpopped, by rw [hpopped], hitem⟩

omit [DecidableEq ι] in
/-- **An item is returned.** -/
theorem advance (h : s.Invariant N) {current_head : ℕ} {item : α}
    (hpc : s.consumer = .advance current_head item) :
    ({ s with
      head_ := (current_head + 1) % 2 ^ 64
      consumer := .idle
      popped := s.popped ++ [item] } : State α ι).Invariant N := by
  have hok := h.consumer
  rw [hpc] at hok
  obtain ⟨hreleased, rfl, hitem⟩ := hok
  have hlength : (s.popped ++ [item]).length = s.popped.length + 1 := by simp
  refine ⟨?_, h.tail, h.released_le, h.reserved_le, ?_, ?_, h.producers, h.distinct, ?_, h.refused⟩
  · show (s.popped.length % 2 ^ 64 + 1) % 2 ^ 64 = (s.popped ++ [item]).length % 2 ^ 64
    rw [hlength, mod_succ_mod]
  · obtain ⟨rest, hrest⟩ := h.popped
    rw [← hrest, List.getElem?_append_right (le_refl _), Nat.sub_self] at hitem
    cases rest with
    | nil => exact absurd hitem.symm (Option.some_ne_none item)
    | cons first rest =>
      obtain rfl : first = item := Option.some.inj hitem
      exact ⟨rest, by rw [← hrest, List.append_assoc, List.singleton_append]⟩
  · exact fun p hp hp' => (h.slots p hp hp').congr rfl rfl rfl fun _ => id
  · exact hreleased.trans hlength.symm

omit [DecidableEq ι] in
/-- **A step of the consumer** keeps the invariant. -/
theorem stepConsumer (h : s.Invariant N) : (s.stepConsumer N).Invariant N := by
  have hok := h.consumer
  unfold State.stepConsumer
  cases hpc : s.consumer with
  | idle =>
    rw [hpc] at hok
    have hok : s.released = s.popped.length := hok
    exact h.moveConsumer ⟨hok, by rw [h.head, hok]⟩
  | loadSequence current_head =>
    rw [hpc] at hok
    obtain ⟨hpopped, rfl⟩ := hok
    dsimp only
    split_ifs with hready
    · rw [N.mask_mod, mod_succ_mod] at hready
      exact h.moveConsumer ⟨hpopped, rfl, hready⟩
    · exact h.moveConsumer hpopped
  | read current_head =>
    rw [hpc] at hok
    obtain ⟨hpopped, rfl, hfilled⟩ := hok
    have hpos := N.size_pos
    dsimp only
    rw [N.mask_mod]
    refine h.moveConsumer ⟨hpopped, rfl, hfilled, ?_⟩
    cases h.slots s.released (le_refl _) (by omega) with
    | filled _ hitem => exact hitem
    | filling _ hseq _ _ => exact absurd (hfilled.symm.trans hseq) (succ_mod_ne _)
    | free hseq _ => exact absurd (hfilled.symm.trans hseq) (succ_mod_ne _)
  | reset current_head item => exact h.reset hpc
  | advance current_head item => exact h.advance hpc

/-- **A step of a producer** that is in time keeps the invariant. -/
theorem stepProducer (hN : 2 ≤ N.size) (h : s.Invariant N) {spurious : Bool}
    (htimely : s.Timely N (.producer i spurious))
    (hstep : s.stepProducer N i spurious = some s') : s'.Invariant N := by
  have hok := h.producers i
  unfold State.stepProducer at hstep
  cases hpc : s.producers i with
  | idle =>
    rw [hpc] at hstep
    exact absurd hstep.symm (Option.some_ne_none _)
  | loadTail item =>
    rw [hpc] at hstep
    obtain rfl := Option.some.inj hstep
    exact h.loadTail (by rw [hpc]; rfl) item
  | loadSequence item t =>
    rw [hpc] at hstep hok
    obtain ⟨rfl, hseen⟩ := hok
    have hold : (s.producers i).writing = none := by rw [hpc]; rfl
    have htimely : s.reserved.length + N.size ≤ s.seen i + 2 ^ 63 := htimely (by rw [hpc]; rfl)
    obtain ⟨hfree, hfull⟩ := h.test hN hseen htimely
    dsimp only at hstep
    split_ifs at hstep with hzero hneg
    · obtain rfl := Option.some.inj hstep
      exact h.move hold rfl (fun _ _ => rfl) ⟨rfl, hseen, hfree hzero⟩
    · obtain rfl := Option.some.inj hstep
      have hmoved : (s.setProducer i .idle).Invariant N := h.move hold rfl (fun _ _ => rfl) trivial
      refine hmoved.refuse fun n hn => ?_
      rcases List.mem_append.mp hn with hn | hn
      · exact h.refused n hn
      · have := hfull hneg
        rw [List.mem_singleton.mp hn]
        omega
    · obtain rfl := Option.some.inj hstep
      exact h.move hold rfl (fun _ _ => rfl) trivial
  | reserve item t =>
    rw [hpc] at hstep hok
    obtain ⟨rfl, hseen, hroom⟩ := hok
    have hold : (s.producers i).writing = none := by rw [hpc]; rfl
    have htimely : s.reserved.length + N.size ≤ s.seen i + 2 ^ 63 := htimely (by rw [hpc]; rfl)
    dsimp only at hstep
    split_ifs at hstep with hswap
    · obtain rfl := Option.some.inj hstep
      -- in time, the tail has the same number only if it has not moved
      have hlast : s.seen i = s.reserved.length := by
        have htail := h.tail.symm.trans hswap.1
        have hpos := N.size_pos
        omega
      have hres := h.reserve item hold hlast (hlast ▸ hroom hlast)
      rw [hlast, mod_succ_mod]
      exact hres
    · obtain rfl := Option.some.inj hstep
      exact h.loadTail hold item
  | write item t =>
    rw [hpc] at hstep
    obtain rfl := Option.some.inj hstep
    exact h.write hpc
  | publish t =>
    rw [hpc] at hstep
    obtain rfl := Option.some.inj hstep
    exact h.publish hpc

/-- **A step** that is in time keeps the invariant. -/
theorem next (hN : 2 ≤ N.size) (h : s.Invariant N) {a : Action α ι} (htimely : s.Timely N a)
    (hstep : MPSCRingBuffer.next N s a = some s') : s'.Invariant N := by
  cases a with
  | push i item =>
    have hstep : s.push i item = some s' := hstep
    unfold State.push at hstep
    cases hpc : s.producers i with
    | idle =>
      rw [hpc] at hstep
      obtain rfl := Option.some.inj hstep
      exact h.move (by rw [hpc]; rfl) rfl (fun _ _ => rfl) trivial
    | _ =>
      rw [hpc] at hstep
      exact absurd hstep.symm (Option.some_ne_none _)
  | producer i spurious => exact h.stepProducer hN htimely hstep
  | consumer =>
    obtain rfl := Option.some.inj hstep
    exact h.stepConsumer

end State.Invariant

variable [DecidableEq ι] [Inhabited α]

/-- **The ring is correct**, for any number of producers and any order of the steps, in every
run in which no producer looks at its slot, or tries to reserve it, after `2^63` positions
or more, less one round, were reserved since it read the tail. -/
theorem correct_of_timely (hN : 2 ≤ N.size)
    (h : (system α ι N).ReachableBy (State.Timely N) s) : s.Correct N := by
  have hinvariant : s.Invariant N := by
    apply h.invariant
    · rintro s rfl
      exact State.Invariant.start_invariant
    · intro s a s' hs hok hstep
      exact hs.next hN hok hstep
  exact hinvariant.correct

instance (s : State α ι) : DecidablePred (State.Timely N s)
  | .producer _ _ => inferInstanceAs (Decidable (_ → _))
  | .push _ _ => .isTrue trivial
  | .consumer => .isTrue trivial

/-! ## Two producers -/

open PowerOfTwo (two)

/-- A whole `push`, undisturbed. -/
def pushSteps (i : Bool) (item : ℕ) : List (Action ℕ Bool) :=
  .push i item :: List.replicate 5 (.producer i false)

/-- Both producers push, a third item finds the ring full, and one item is popped. -/
def fullRing : List (Action ℕ Bool) :=
  pushSteps false 1 ++ pushSteps true 2
    ++ .push false 3 :: List.replicate 2 (.producer false false) ++ List.replicate 5 .consumer

/-- The items come out in order, and the ring was full when it said so. -/
theorem correct_fullRing :
    ∃ s, (system ℕ Bool two).ReachableBy (State.Timely two) s ∧ s.reserved = [1, 2] ∧
      s.popped = [1] ∧ s.refused = [2] ∧ s.Correct two := by
  have hrun : ∃ s ∈ runFrom (next two) (State.Timely two) start fullRing,
      s.reserved = [1, 2] ∧ s.popped = [1] ∧ s.refused = [2] := by decide +kernel
  obtain ⟨s, hreach, hreserved, hpopped, hrefused⟩ := exists_of_runFrom hrun
  exact ⟨s, hreach, hreserved, hpopped, hrefused, correct_of_timely (by decide) hreach⟩

/-! ## A producer that is overtaken by a round of the counters -/

variable {s : State ℕ Bool}

/-- A producer at a step that is not a spurious failure. -/
theorem reachable_producer {s' : State ℕ Bool} (h : (system ℕ Bool two).Reachable s) (i : Bool)
    (hstep : s.stepProducer two i false = some s') : (system ℕ Bool two).Reachable s' :=
  .step (a := .producer i false) h trivial hstep

/-- A step of the consumer. -/
theorem reachable_consumer (h : (system ℕ Bool two).Reachable s) :
    (system ℕ Bool two).Reachable (s.stepConsumer two) :=
  .step (a := .consumer) h trivial rfl

/-- An undisturbed `push` of the other producer. -/
theorem exists_fill (h : (system ℕ Bool two).Reachable s) (hidle : s.producers false = .idle)
    (hfree : s.sequence (two.mask s.tail_) = s.tail_) :
    ∃ s', (system ℕ Bool two).Reachable s' ∧ s'.producers false = .idle ∧
      s'.producers true = s.producers true ∧ s'.consumer = s.consumer ∧ s'.head_ = s.head_ ∧
      s'.tail_ = (s.tail_ + 1) % 2 ^ 64 ∧
      s'.sequence = Function.update s.sequence (two.mask s.tail_) ((s.tail_ + 1) % 2 ^ 64) := by
  let s₁ := s.setProducer false (.loadTail 0)
  let s₂ := s₁.loadTail false 0
  let s₃ := s₂.setProducer false (.reserve 0 s.tail_)
  let s₄ : State ℕ Bool := { s₃.setProducer false (.write 0 s.tail_) with
    tail_ := (s.tail_ + 1) % 2 ^ 64
    reserved := s.reserved ++ [0] }
  let s₅ : State ℕ Bool := { s₄.setProducer false (.publish s.tail_) with
    data := Function.update s.data (two.mask s.tail_) 0 }
  let s₆ : State ℕ Bool := { s₅.setProducer false .idle with
    sequence := Function.update s.sequence (two.mask s.tail_) ((s.tail_ + 1) % 2 ^ 64) }
  have hdiff : diff (s.sequence (two.mask s.tail_)) s.tail_ = 0 := by
    rw [hfree, diff, sub_self]
    decide
  have h₁ : (system ℕ Bool two).Reachable s₁ := by
    refine .step (a := .push false 0) h trivial ?_
    show s.push false 0 = _
    rw [State.push, hidle]
  have h₂ : (system ℕ Bool two).Reachable s₂ := by
    apply reachable_producer h₁ false
    rw [State.stepProducer, State.setProducer_self]
  have h₃ : (system ℕ Bool two).Reachable s₃ := by
    apply reachable_producer h₂ false
    have hpc : s₂.producers false = .loadSequence 0 s.tail_ := rfl
    rw [State.stepProducer, hpc]
    exact if_pos hdiff
  have h₄ : (system ℕ Bool two).Reachable s₄ := by
    apply reachable_producer h₃ false
    rw [State.stepProducer, State.setProducer_self]
    exact if_pos ⟨rfl, rfl⟩
  have h₅ : (system ℕ Bool two).Reachable s₅ := by
    apply reachable_producer h₄ false
    have hpc : s₄.producers false = .write 0 s.tail_ := rfl
    rw [State.stepProducer, hpc]
    rfl
  have h₆ : (system ℕ Bool two).Reachable s₆ := by
    apply reachable_producer h₅ false
    have hpc : s₅.producers false = .publish s.tail_ := rfl
    rw [State.stepProducer, hpc]
    rfl
  -- the consumer and the first producer have not moved
  have hidle₆ : s₆.producers false = .idle := State.setProducer_self s₅ false .idle
  have hstale : s₆.producers true = s.producers true := by
    simp [s₆, s₅, s₄, s₃, s₂, s₁, State.setProducer, State.loadTail]
  have hconsumer : s₆.consumer = s.consumer := by
    dsimp only [s₆, s₅, s₄, s₃, s₂, s₁, State.setProducer, State.loadTail]
  have hhead : s₆.head_ = s.head_ := by
    dsimp only [s₆, s₅, s₄, s₃, s₂, s₁, State.setProducer, State.loadTail]
  exact ⟨s₆, h₆, hidle₆, hstale, hconsumer, hhead, rfl, rfl⟩

/-- A `pop` that finds an item. -/
theorem exists_drain (h : (system ℕ Bool two).Reachable s) (hidle : s.consumer = .idle)
    (hfilled : s.sequence (two.mask s.head_) = (s.head_ + 1) % 2 ^ 64) :
    ∃ s', (system ℕ Bool two).Reachable s' ∧ s'.producers = s.producers ∧
      s'.consumer = .idle ∧ s'.tail_ = s.tail_ ∧ s'.head_ = (s.head_ + 1) % 2 ^ 64 ∧
      s'.sequence = Function.update s.sequence (two.mask s.head_) ((s.head_ + 2) % 2 ^ 64) := by
  have h₁ := reachable_consumer h
  rw [State.stepConsumer, hidle] at h₁
  have h₂ := reachable_consumer h₁
  rw [State.stepConsumer] at h₂
  dsimp only at h₂
  rw [if_pos hfilled] at h₂
  have h₃ := reachable_consumer h₂
  have h₄ := reachable_consumer h₃
  have h₅ := reachable_consumer h₄
  exact ⟨_, h₅, rfl, rfl, rfl, rfl, rfl⟩

/-- After `n` laps the other producer and the consumer stand where they started, one position
further each, and the first producer has not moved since it saw its slot free. -/
structure Lap (s : State ℕ Bool) (n : ℕ) : Prop where
  reachable : (system ℕ Bool two).Reachable s
  stale : s.producers true = .reserve 7 0
  idle : s.producers false = .idle
  consumer : s.consumer = .idle
  head : s.head_ = n % 2 ^ 64
  tail : s.tail_ = n % 2 ^ 64
  first : s.sequence (n % 2) = n % 2 ^ 64
  second : s.sequence ((n + 1) % 2) = (n + 1) % 2 ^ 64

/-- The first producer sees slot `0` free and does not go on. -/
theorem exists_lap_zero : ∃ s, Lap s 0 := by
  have hrun : ∃ s ∈ runFrom (next two) (fun _ _ => True) (start : State ℕ Bool)
      (.push true 7 :: List.replicate 2 (.producer true false)),
      s.producers true = .reserve 7 0 ∧ s.producers false = .idle ∧ s.consumer = .idle ∧
        s.head_ = 0 ∧ s.tail_ = 0 ∧ s.sequence 0 = 0 ∧ s.sequence 1 = 1 :=
    ⟨_, rfl, rfl, rfl, rfl, rfl, rfl, rfl, rfl⟩
  obtain ⟨s, hreach, hstale, hidle, hconsumer, hhead, htail, hfirst, hsecond⟩ :=
    exists_of_runFrom hrun
  exact ⟨s, hreach, hstale, hidle, hconsumer, hhead, htail, hfirst, hsecond⟩

theorem mask_two (n : ℕ) : two.mask (n % 2 ^ 64) = n % 2 := two.mask_mod n

/-- **One more lap**: an item is pushed and popped. -/
theorem Lap.succ {n : ℕ} (h : Lap s n) : ∃ s', Lap s' (n + 1) := by
  obtain ⟨s₁, h₁, hidle₁, hstale₁, hconsumer₁, hhead₁, htail₁, hsequence₁⟩ :=
    exists_fill h.reachable h.idle (by rw [h.tail, mask_two, h.first])
  rw [h.tail, mask_two, mod_succ_mod] at hsequence₁
  rw [h.tail, mod_succ_mod] at htail₁
  rw [h.head] at hhead₁
  obtain ⟨s₂, h₂, hproducers₂, hconsumer₂, htail₂, hhead₂, hsequence₂⟩ :=
    exists_drain h₁ (hconsumer₁.trans h.consumer)
      (by rw [hhead₁, hsequence₁, mask_two, mod_succ_mod, Function.update_self])
  rw [hhead₁, mask_two, hsequence₁, Function.update_idem] at hsequence₂
  rw [hhead₁, mod_succ_mod] at hhead₂
  have hne : (n + 1) % 2 ≠ n % 2 := by omega
  refine ⟨s₂, h₂, ?_, ?_, hconsumer₂, hhead₂, htail₂.trans htail₁, ?_, ?_⟩
  · rw [hproducers₂, hstale₁, h.stale]
  · rw [hproducers₂, hidle₁]
  · rw [hsequence₂, Function.update_of_ne hne, h.second]
  · rw [hsequence₂, show (n + 1 + 1) % 2 = n % 2 by omega, Function.update_self]
    omega

/-- Any number of laps. -/
theorem exists_lap : ∀ n, ∃ s, Lap s n
  | 0 => exists_lap_zero
  | n + 1 => by
    obtain ⟨s, h⟩ := exists_lap n
    exact h.succ

/-- **A round of the counters**: when the tail is back at `0`, the compare-and-swap of the
first producer succeeds although both slots are filled, and it writes the slot that the
consumer reads. -/
theorem not_correct_overrun : ∃ s, (system ℕ Bool two).Reachable s ∧ ¬ s.Correct two := by
  obtain ⟨s, h⟩ := exists_lap (2 ^ 64 - 2)
  have htail : s.tail_ = 2 ^ 64 - 2 := h.tail
  have hhead : s.head_ = 2 ^ 64 - 2 := h.head
  have hfirst : s.sequence 0 = 2 ^ 64 - 2 := h.first
  have hsecond : s.sequence 1 = 2 ^ 64 - 1 := h.second
  have hmask : two.mask (2 ^ 64 - 2) = 0 := two.mask_eq_mod _
  have hmask' : two.mask (2 ^ 64 - 1) = 1 := two.mask_eq_mod _
  -- the other producer fills both slots, and the tail wraps to `0`
  obtain ⟨s₁, h₁, hidle₁, hstale₁, hconsumer₁, hhead₁, htail₁, hsequence₁⟩ :=
    exists_fill h.reachable h.idle (by rw [htail, hmask, hfirst])
  have hlast : (2 ^ 64 - 2 + 1) % 2 ^ 64 = 2 ^ 64 - 1 := by norm_num
  have hwrap : (2 ^ 64 - 1 + 1) % 2 ^ 64 = 0 := by norm_num
  rw [htail, hmask, hlast] at hsequence₁
  rw [htail, hlast] at htail₁
  obtain ⟨s₂, h₂, -, hstale₂, hconsumer₂, hhead₂, htail₂, hsequence₂⟩ :=
    exists_fill h₁ hidle₁
      (by rw [htail₁, hmask', hsequence₁, Function.update_of_ne (by decide), hsecond])
  rw [htail₁, hmask', hwrap] at hsequence₂
  rw [htail₁, hwrap] at htail₂
  have hfilled : s₂.sequence 0 = 2 ^ 64 - 1 := by
    rw [hsequence₂, Function.update_of_ne (by decide), hsequence₁, Function.update_self]
  -- the first producer reserves position `0` again
  have hstale₂ : s₂.producers true = .reserve 7 0 := by rw [hstale₂, hstale₁, h.stale]
  let s₃ : State ℕ Bool := { s₂.setProducer true (.write 7 0) with
    tail_ := 1
    reserved := s₂.reserved ++ [7] }
  have h₃ : (system ℕ Bool two).Reachable s₃ := by
    apply reachable_producer h₂ true
    rw [State.stepProducer, hstale₂]
    exact if_pos ⟨htail₂, rfl⟩
  -- and the consumer finds the item of position `2 ^ 64 - 2` in the same slot
  have h₄ := reachable_consumer h₃
  rw [State.stepConsumer, show s₃.consumer = .idle by
    rw [show s₃.consumer = s₂.consumer from rfl, hconsumer₂, hconsumer₁, h.consumer]] at h₄
  have h₅ := reachable_consumer h₄
  rw [State.stepConsumer] at h₅
  dsimp only at h₅
  have hhead₃ : s₃.head_ = 2 ^ 64 - 2 := by
    rw [show s₃.head_ = s₂.head_ from rfl, hhead₂, hhead₁, hhead]
  have hfilled₃ : s₃.sequence 0 = 2 ^ 64 - 1 := hfilled
  rw [hhead₃, hmask, hfilled₃, if_pos (by decide)] at h₅
  refine ⟨_, h₅, fun hcorrect => ?_⟩
  exact hcorrect.reader true 0 (2 ^ 64 - 2) rfl rfl (hmask.symm ▸ two.mask_eq_mod 0)

end MPSCRingBuffer
