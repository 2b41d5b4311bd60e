/-
# The lock-free queue

`LockFreeQueue` of `system.cpp`: a ring whose head is stored by `pop` and whose tail is stored
by `push`, each in steps of its own.  It is written for one producer and one consumer, and
keeps its items under any number of them as long as no two stand between the read and the
store of one index.
-/
import FastServer.Ring

namespace LockFreeQueue

open Ring

variable {α π γ : Type}

/-! ## State -/

/-- Where a producer stands in `push`: about to load the tail, to compare the next one with the
head, to load the tail again, to write the item, or to store the tail. -/
inductive Producer (α : Type)
  | idle
  | loadTail (item : α)
  | loadHead (item : α) (next_tail : ℕ)
  | loadIndex (item : α) (next_tail : ℕ)
  | write (item : α) (next_tail tail : ℕ)
  | storeTail (item : α) (next_tail : ℕ)

/-- Where a consumer stands in `pop`: about to compare the head with the tail, to move the item
out, or to store the head. -/
inductive Consumer (α : Type)
  | idle
  | loadTail (current_head : ℕ)
  | move (current_head : ℕ)
  | storeHead (current_head : ℕ) (item : α)

/-- The ring, the two indices and the threads.  The other fields are history: the items for
which `push` returned `true`, and the items that were moved out, each with its consumer. -/
structure State (α π γ : Type) where
  ring : ℕ → α
  head : ℕ
  tail : ℕ
  producers : π → Producer α
  consumers : γ → Consumer α
  pushed : List α
  popped : List (γ × α)

/-- An empty queue. -/
def start [Inhabited α] : State α π γ where
  ring := fun _ => default
  head := 0
  tail := 0
  producers := fun _ => .idle
  consumers := fun _ => .idle
  pushed := []
  popped := []

/-! ## Steps -/

variable (Size : ℕ)

section Steps

variable [DecidableEq π] [DecidableEq γ]

/-- Producer `i` goes on at `pc`. -/
def State.setProducer (s : State α π γ) (i : π) (pc : Producer α) : State α π γ :=
  { s with producers := Function.update s.producers i pc }

/-- Consumer `c` goes on at `pc`. -/
def State.setConsumer (s : State α π γ) (c : γ) (pc : Consumer α) : State α π γ :=
  { s with consumers := Function.update s.consumers c pc }

omit [DecidableEq γ] in
@[simp] theorem State.setProducer_self (s : State α π γ) (i : π) (pc : Producer α) :
    (s.setProducer i pc).producers i = pc := Function.update_self ..

omit [DecidableEq γ] in
theorem State.setProducer_of_ne (s : State α π γ) {i j : π} (hj : j ≠ i) (pc : Producer α) :
    (s.setProducer i pc).producers j = s.producers j := Function.update_of_ne hj ..

omit [DecidableEq π] in
@[simp] theorem State.setConsumer_self (s : State α π γ) (c : γ) (pc : Consumer α) :
    (s.setConsumer c pc).consumers c = pc := Function.update_self ..

omit [DecidableEq π] in
theorem State.setConsumer_of_ne (s : State α π γ) {c d : γ} (hd : d ≠ c) (pc : Consumer α) :
    (s.setConsumer c pc).consumers d = s.consumers d := Function.update_of_ne hd ..

omit [DecidableEq γ] in
/-- The next step of `push` in producer `i`.  Every caller calls `push` again when it returns
`false`. -/
def State.stepProducer (s : State α π γ) (i : π) : State α π γ :=
  match s.producers i with
  | .idle => s
  | .loadTail item => s.setProducer i (.loadHead item ((s.tail + 1) % Size))
  | .loadHead item next_tail =>
      if next_tail = s.head then
        -- the queue is full
        s.setProducer i (.loadTail item)
      else s.setProducer i (.loadIndex item next_tail)
  | .loadIndex item next_tail => s.setProducer i (.write item next_tail s.tail)
  | .write item next_tail tail =>
      { s.setProducer i (.storeTail item next_tail) with ring := Function.update s.ring tail item }
  | .storeTail item next_tail =>
      { s.setProducer i .idle with tail := next_tail, pushed := s.pushed ++ [item] }

variable (moved : α → α)

omit [DecidableEq π] in
/-- The next step of `pop` in consumer `c`; a new `pop` starts with the load of the head.  What
`std::move` leaves of an item in the ring is given by `moved`. -/
def State.stepConsumer (s : State α π γ) (c : γ) : State α π γ :=
  match s.consumers c with
  | .idle => s.setConsumer c (.loadTail s.head)
  | .loadTail current_head =>
      if current_head = s.tail then s.setConsumer c .idle
      else s.setConsumer c (.move current_head)
  | .move current_head =>
      { s.setConsumer c (.storeHead current_head (s.ring current_head)) with
        ring := Function.update s.ring current_head (moved (s.ring current_head))
        popped := s.popped ++ [(c, s.ring current_head)] }
  | .storeHead current_head _ =>
      { s.setConsumer c .idle with head := (current_head + 1) % Size }

end Steps

/-! ## What should hold -/

/-- Whether a producer has written an item and not yet stored the tail. -/
def Producer.written : Producer α → Bool
  | .storeTail _ _ => true
  | _ => false

/-- Whether a consumer has moved an item out and not yet stored the head. -/
def Consumer.moved : Consumer α → Bool
  | .storeHead _ _ => true
  | _ => false

/-- The index of the first item that was not moved out. -/
def State.front [Fintype γ] (s : State α π γ) : ℕ :=
  if ∃ c, (s.consumers c).moved = true then (s.head + 1) % Size else s.head

/-- **What the queue promises.**  The items accepted are those moved out, each by one consumer,
followed by those that stand in the ring, in that order; and one place stays free. -/
structure State.Correct [Fintype γ] (s : State α π γ) : Prop where
  fifo : s.pushed = s.popped.map Prod.snd ++ queued Size s.ring (s.front Size) s.tail
  room : s.pushed.length < s.popped.length + Size

/-- The next step of producer `i` is not a write to a place that is not its own: both tails
that it read are the present one, the queue is not full, and no other producer has written an
item and not yet stored the tail. -/
def State.WriteAlone (s : State α π γ) (i : π) : Prop :=
  match s.producers i with
  | .write _ next_tail tail =>
      s.tail = tail ∧ next_tail = (tail + 1) % Size ∧ next_tail ≠ s.head ∧
        ∀ j, (s.producers j).written = false
  | _ => True

/-- The next step of consumer `c` does not move an item out that is not its own: the head that
it read is the present one, the queue is not empty, and no other consumer has moved an item
out and not yet stored the head. -/
def State.MoveAlone (s : State α π γ) (c : γ) : Prop :=
  match s.consumers c with
  | .move current_head =>
      s.head = current_head ∧ current_head ≠ s.tail ∧ ∀ d, (s.consumers d).moved = false
  | _ => True

instance [Fintype π] (s : State α π γ) (i : π) : Decidable (s.WriteAlone Size i) := by
  unfold State.WriteAlone
  split <;> infer_instance

instance [Fintype γ] (s : State α π γ) (c : γ) : Decidable (s.MoveAlone c) := by
  unfold State.MoveAlone
  split <;> infer_instance

/-! ## The invariant -/

/-- What a producer at `pc` knows. -/
def State.ProducerOk (s : State α π γ) : Producer α → Prop
  | .storeTail item next_tail => next_tail = (s.tail + 1) % Size ∧ next_tail ≠ s.head ∧
      s.ring s.tail = item
  | _ => True

/-- What a consumer at `pc` knows. -/
def State.ConsumerOk (s : State α π γ) : Consumer α → Prop
  | .storeHead current_head _ => current_head = s.head ∧ s.head ≠ s.tail
  | _ => True

/-- The indices are those of places in the ring, the places between them hold what they should,
at most one producer has written the place at the tail, and at most one consumer has moved
out the item at the head. -/
structure State.Invariant [Fintype γ] (s : State α π γ) : Prop where
  head : s.head < Size
  tail : s.tail < Size
  fifo : s.pushed = s.popped.map Prod.snd ++ queued Size s.ring (s.front Size) s.tail
  producers : ∀ i, s.ProducerOk Size (s.producers i)
  consumers : ∀ c, s.ConsumerOk (s.consumers c)
  writer : ∀ i j, (s.producers i).written → (s.producers j).written → i = j
  mover : ∀ c d, (s.consumers c).moved → (s.consumers d).moved → c = d

variable {Size} {s : State α π γ} {i : π} {c : γ}

/-- A producer that has not written knows nothing. -/
theorem producerOk_of_not_written {pc : Producer α} (h : pc.written = false) :
    s.ProducerOk Size pc := by
  cases pc with
  | storeTail => exact absurd h.symm Bool.false_ne_true
  | _ => trivial

/-- A consumer that has not moved an item out knows nothing. -/
theorem consumerOk_of_not_moved {pc : Consumer α} (h : pc.moved = false) : s.ConsumerOk pc := by
  cases pc with
  | storeHead => exact absurd h.symm Bool.false_ne_true
  | _ => trivial

variable [Fintype γ]

theorem front_of_moved (h : (s.consumers c).moved = true) :
    s.front Size = (s.head + 1) % Size :=
  if_pos ⟨c, h⟩

theorem front_of_not_moved (h : ∀ c, (s.consumers c).moved = false) : s.front Size = s.head := by
  apply if_neg
  rintro ⟨c, hc⟩
  rw [h c] at hc
  exact Bool.false_ne_true hc

namespace State.Invariant

theorem front_lt (h : s.Invariant Size) : s.front Size < Size := by
  unfold State.front
  split_ifs with hmoved
  · exact Nat.mod_lt _ (lt_of_le_of_lt (Nat.zero_le _) h.head)
  · exact h.head

/-- A consumer that has moved an item out found one. -/
theorem head_ne_tail (h : s.Invariant Size) (hmoved : (s.consumers c).moved = true) :
    s.head ≠ s.tail := by
  have hok := h.consumers c
  cases hpc : s.consumers c with
  | storeHead =>
    rw [hpc] at hok
    exact hok.2
  | _ =>
    rw [hpc] at hmoved
    exact absurd hmoved Bool.false_ne_true

/-- The tail can move on without running onto the first item that was not moved out. -/
theorem succ_tail_ne_front (h : s.Invariant Size) (hroom : (s.tail + 1) % Size ≠ s.head) :
    (s.tail + 1) % Size ≠ s.front Size := by
  unfold State.front
  split_ifs with hmoved
  · obtain ⟨c, hc⟩ := hmoved
    exact succ_mod_ne_succ_mod h.tail h.head (h.head_ne_tail hc).symm
  · exact hroom

/-- **The invariant is what the queue promises.** -/
theorem correct (h : s.Invariant Size) : s.Correct Size where
  fifo := h.fifo
  room := by
    have hlength := congrArg List.length h.fifo
    rw [List.length_append, List.length_map, queued, length_contents] at hlength
    have hlt := used_lt h.front_lt s.tail
    omega

theorem start_invariant [Inhabited α] (hSize : 0 < Size) :
    (start : State α π γ).Invariant Size where
  head := hSize
  tail := hSize
  fifo := by
    rw [front_of_not_moved fun _ => rfl]
    exact ((queued_eq_nil_iff hSize hSize).mpr rfl).symm
  producers := fun _ => trivial
  consumers := fun _ => trivial
  writer := fun _ _ hi _ => absurd hi Bool.false_ne_true
  mover := fun _ _ hc _ => absurd hc Bool.false_ne_true

/-! ## Steps of a producer -/

section Producers

variable [DecidableEq π]

/-- A producer goes on without a change of the queue, and has not written. -/
theorem moveProducer (h : s.Invariant Size) {pc : Producer α} (hwritten : pc.written = false) :
    (s.setProducer i pc).Invariant Size where
  head := h.head
  tail := h.tail
  fifo := h.fifo
  producers := by
    intro j
    by_cases hj : j = i
    · subst hj
      rw [State.setProducer_self]
      exact producerOk_of_not_written hwritten
    · rw [State.setProducer_of_ne s hj]
      exact h.producers j
  consumers := h.consumers
  writer := unique_update h.writer fun hw => absurd (hwritten.symm.trans hw) Bool.false_ne_true
  mover := h.mover

/-- **An item is written** to the place at the tail. -/
theorem write (h : s.Invariant Size) {item : α} (hroom : (s.tail + 1) % Size ≠ s.head)
    (hall : ∀ j, (s.producers j).written = false) :
    ({ s.setProducer i (.storeTail item ((s.tail + 1) % Size)) with
      ring := Function.update s.ring s.tail item } : State α π γ).Invariant Size := by
  refine ⟨h.head, h.tail, ?_, ?_, h.consumers, ?_, h.mover⟩
  · exact h.fifo.trans
      (congrArg (s.popped.map Prod.snd ++ ·) (queued_update h.front_lt h.tail item).symm)
  · intro j
    show State.ProducerOk Size _ ((s.setProducer i _).producers j)
    by_cases hj : j = i
    · subst hj
      rw [State.setProducer_self]
      exact ⟨rfl, hroom, Function.update_self ..⟩
    · rw [State.setProducer_of_ne s hj]
      exact producerOk_of_not_written (hall j)
  · -- no other producer has written
    exact unique_update_of_others fun j _ => hall j

/-- **An item is accepted**: the tail moves on. -/
theorem storeTail (h : s.Invariant Size) {item : α} {next_tail : ℕ}
    (hpc : s.producers i = .storeTail item next_tail) :
    ({ s.setProducer i .idle with tail := next_tail, pushed := s.pushed ++ [item] } :
      State α π γ).Invariant Size := by
  have hok := h.producers i
  rw [hpc] at hok
  obtain ⟨rfl, hroom, hitem⟩ := hok
  have hothers : ∀ {j}, j ≠ i → (s.producers j).written = false := by
    intro j hj
    by_contra hwritten
    exact hj (h.writer j i (Bool.not_eq_false _ ▸ hwritten) (by rw [hpc]; rfl))
  refine ⟨h.head, Nat.mod_lt _ (lt_of_le_of_lt (Nat.zero_le _) h.head), ?_, ?_, ?_, ?_, h.mover⟩
  · have hpush : queued Size s.ring _ _ = queued Size s.ring _ _ ++ [s.ring s.tail] :=
      queued_push h.front_lt h.tail (h.succ_tail_ne_front hroom)
    rw [hitem] at hpush
    show s.pushed ++ [item]
      = s.popped.map Prod.snd ++ queued Size s.ring (s.front Size) ((s.tail + 1) % Size)
    rw [hpush, ← List.append_assoc, ← h.fifo]
  · intro j
    show State.ProducerOk Size _ ((s.setProducer i .idle).producers j)
    by_cases hj : j = i
    · subst hj
      rw [State.setProducer_self]
      trivial
    · rw [State.setProducer_of_ne s hj]
      exact producerOk_of_not_written (hothers hj)
  · intro c
    have hok := h.consumers c
    show State.ConsumerOk _ (s.consumers c)
    cases hc : s.consumers c with
    | storeHead =>
      rw [hc] at hok
      exact ⟨hok.1, hroom.symm⟩
    | _ => trivial
  · exact unique_update_of_others fun j => hothers

/-- **A step of a producer** that writes alone keeps the invariant. -/
theorem stepProducer (h : s.Invariant Size) (halone : s.WriteAlone Size i) :
    (s.stepProducer Size i).Invariant Size := by
  unfold State.stepProducer
  unfold State.WriteAlone at halone
  cases hpc : s.producers i with
  | idle => exact h
  | loadTail item => exact h.moveProducer rfl
  | loadHead item next_tail =>
    dsimp only
    split_ifs with hfull
    · exact h.moveProducer rfl
    · exact h.moveProducer rfl
  | loadIndex item next_tail => exact h.moveProducer rfl
  | write item next_tail tail =>
    rw [hpc] at halone
    obtain ⟨rfl, rfl, hroom, hall⟩ := halone
    exact h.write hroom hall
  | storeTail item next_tail => exact h.storeTail hpc

end Producers

/-! ## Steps of a consumer -/

section Consumers

variable [DecidableEq γ]

/-- A consumer that has not moved an item out goes on, and does not do so. -/
theorem moveConsumer (h : s.Invariant Size) {pc : Consumer α}
    (hold : (s.consumers c).moved = false) (hnew : pc.moved = false) :
    (s.setConsumer c pc).Invariant Size := by
  have hmoved : ∀ d, ((s.setConsumer c pc).consumers d).moved = (s.consumers d).moved := by
    intro d
    by_cases hd : d = c
    · subst hd
      rw [State.setConsumer_self, hold, hnew]
    · rw [State.setConsumer_of_ne s hd]
  have hfront : (s.setConsumer c pc).front Size = s.front Size := by
    simp only [State.front, hmoved]
    rfl
  refine ⟨h.head, h.tail, ?_, h.producers, ?_, h.writer, ?_⟩
  · rw [hfront]
    exact h.fifo
  · intro d
    by_cases hd : d = c
    · subst hd
      rw [State.setConsumer_self]
      exact consumerOk_of_not_moved hnew
    · rw [State.setConsumer_of_ne s hd]
      exact h.consumers d
  · intro d e hd he
    rw [hmoved] at hd he
    exact h.mover d e hd he

/-- **An item is moved out** of the place at the head. -/
theorem moveOut (h : s.Invariant Size) {moved : α → α} (hne : s.head ≠ s.tail)
    (hall : ∀ d, (s.consumers d).moved = false) :
    ({ s.setConsumer c (.storeHead s.head (s.ring s.head)) with
      ring := Function.update s.ring s.head (moved (s.ring s.head))
      popped := s.popped ++ [(c, s.ring s.head)] } : State α π γ).Invariant Size := by
  have hself : ((s.setConsumer c (.storeHead s.head (s.ring s.head))).consumers c).moved
      = true := by rw [State.setConsumer_self]; rfl
  refine ⟨h.head, h.tail, ?_, ?_, ?_, h.writer, ?_⟩
  · have hfifo := h.fifo
    rw [front_of_not_moved hall, queued_pop h.head h.tail hne] at hfifo
    have hfront : ({ s.setConsumer c (.storeHead s.head (s.ring s.head)) with
        ring := Function.update s.ring s.head (moved (s.ring s.head))
        popped := s.popped ++ [(c, s.ring s.head)] } : State α π γ).front Size
          = (s.head + 1) % Size := front_of_moved hself
    rw [hfront]
    show s.pushed = (s.popped ++ [(c, s.ring s.head)]).map Prod.snd ++
      queued Size (Function.update s.ring s.head _) ((s.head + 1) % Size) s.tail
    rw [queued_update_head h.head h.tail hne, hfifo, List.map_append, List.append_assoc]
    rfl
  · intro j
    have hok := h.producers j
    show State.ProducerOk Size _ (s.producers j)
    cases hpc : s.producers j with
    | storeTail item next_tail =>
      rw [hpc] at hok
      exact ⟨hok.1, hok.2.1, (Function.update_of_ne hne.symm _ _).trans hok.2.2⟩
    | _ => trivial
  · intro d
    show State.ConsumerOk _ ((s.setConsumer c _).consumers d)
    by_cases hd : d = c
    · subst hd
      rw [State.setConsumer_self]
      exact ⟨rfl, hne⟩
    · rw [State.setConsumer_of_ne s hd]
      exact consumerOk_of_not_moved (hall d)
  · -- no other consumer has moved an item out
    exact unique_update_of_others fun d _ => hall d

/-- **The head moves on** past the item that was moved out. -/
theorem storeHead (h : s.Invariant Size) {current_head : ℕ} {item : α}
    (hpc : s.consumers c = .storeHead current_head item) :
    ({ s.setConsumer c .idle with head := (current_head + 1) % Size } :
      State α π γ).Invariant Size := by
  have hok := h.consumers c
  rw [hpc] at hok
  obtain ⟨rfl, hne⟩ := hok
  have hmoved : (s.consumers c).moved = true := by rw [hpc]; rfl
  have hothers : ∀ d, ((s.setConsumer c .idle).consumers d).moved = false := by
    intro d
    by_cases hd : d = c
    · subst hd
      rw [State.setConsumer_self]
      rfl
    · rw [State.setConsumer_of_ne s hd]
      by_contra hd'
      exact hd (h.mover d c (Bool.not_eq_false _ ▸ hd') hmoved)
  refine ⟨Nat.mod_lt _ (lt_of_le_of_lt (Nat.zero_le _) h.head), h.tail, ?_, ?_, ?_, h.writer, ?_⟩
  · have hfifo := h.fifo
    rw [front_of_moved hmoved] at hfifo
    have hfront : ({ s.setConsumer c .idle with head := (s.head + 1) % Size } :
        State α π γ).front Size = (s.head + 1) % Size := front_of_not_moved hothers
    rw [hfront]
    exact hfifo
  · intro j
    have hok := h.producers j
    show State.ProducerOk Size _ (s.producers j)
    cases hpcj : s.producers j with
    | storeTail next_tail =>
      rw [hpcj] at hok
      obtain ⟨rfl, -, hitem⟩ := hok
      exact ⟨rfl, succ_mod_ne_succ_mod h.tail h.head hne.symm, hitem⟩
    | _ => trivial
  · exact fun d => consumerOk_of_not_moved (hothers d)
  · intro d e hd _
    exact absurd ((hothers d).symm.trans hd) Bool.false_ne_true

/-- **A step of a consumer** that moves an item out alone keeps the invariant. -/
theorem stepConsumer (h : s.Invariant Size) (moved : α → α) (halone : s.MoveAlone c) :
    (s.stepConsumer Size moved c).Invariant Size := by
  unfold State.stepConsumer
  unfold State.MoveAlone at halone
  cases hpc : s.consumers c with
  | idle => exact h.moveConsumer (by rw [hpc]; rfl) rfl
  | loadTail current_head =>
    have hold : (s.consumers c).moved = false := by rw [hpc]; rfl
    dsimp only
    split_ifs with hempty
    · exact h.moveConsumer hold rfl
    · exact h.moveConsumer hold rfl
  | move current_head =>
    rw [hpc] at halone
    obtain ⟨rfl, hne, hall⟩ := halone
    exact h.moveOut hne hall
  | storeHead current_head item => exact h.storeHead hpc

end Consumers

end State.Invariant

end LockFreeQueue
