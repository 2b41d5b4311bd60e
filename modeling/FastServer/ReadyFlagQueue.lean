/-
# The lock-free queue with flags

The `LockFreeQueue` with `try_push` and `try_pop`: as the one without flags, but every slot has
a flag that the producer raises before it stores the tail, and that the consumer tests behind
the load of the tail and lowers before it stores the head.  The flags never say anything else
than the indices, so both queues return the same.
-/
import FastServer.FlaglessQueue

namespace LockFreeQueue.Ready

open Ring TransitionSystem BoundedFifo

variable {α : Type}

/-! ## State -/

/-- Where the producer stands in `try_push`: about to load the tail, to compare the next one
with the head, to write the value, to raise the flag, or to store the tail. -/
inductive Producer (α : Type)
  | idle
  | loadTail (value : α)
  | loadHead (value : α) (current_tail next_tail : ℕ)
  | write (value : α) (current_tail next_tail : ℕ)
  | setReady (value : α) (current_tail next_tail : ℕ)
  | storeTail (value : α) (next_tail : ℕ)

/-- Where the consumer stands in `try_pop`: about to compare the head with the tail, to test
the flag, to read the value, to lower the flag, or to store the head. -/
inductive Consumer (α : Type)
  | idle
  | loadTail (current_head : ℕ)
  | loadReady (current_head : ℕ)
  | read (current_head : ℕ)
  | clearReady (current_head : ℕ) (value : α)
  | storeHead (current_head : ℕ) (value : α)

/-- The slots with their values and flags, the indices and the two threads; then the history of
the answers and of the loads and stores of the indices. -/
structure State (α : Type) where
  value : ℕ → α
  ready : ℕ → Bool
  head : ℕ
  tail : ℕ
  producer : Producer α
  consumer : Consumer α
  answers : List (Answer α)
  accesses : List (Access α)

/-- The constructor has run. -/
def start [Inhabited α] : State α where
  value := fun _ => default
  ready := fun _ => false
  head := 0
  tail := 0
  producer := .idle
  consumer := .idle
  answers := []
  accesses := []

/-! ## Steps -/

variable (Capacity : PowerOfTwo)

/-- The next step of `try_push`. -/
def State.stepProducer (s : State α) : Option (State α) :=
  match s.producer with
  | .idle => none
  | .loadTail value =>
      some { s with
        producer := .loadHead value s.tail (nextIndex Capacity s.tail)
        accesses := s.accesses ++ [.addTail value] }
  | .loadHead value current_tail next_tail =>
      if next_tail = s.head then
        -- the queue is full
        some { s with
          producer := .idle
          answers := s.answers ++ [.full]
          accesses := s.accesses ++ [.addHead] }
      else
        some { s with
          producer := .write value current_tail next_tail
          accesses := s.accesses ++ [.addHead] }
  | .write value current_tail next_tail =>
      some { s with
        value := Function.update s.value current_tail value
        producer := .setReady value current_tail next_tail }
  | .setReady value current_tail next_tail =>
      some { s with
        ready := Function.update s.ready current_tail true
        producer := .storeTail value next_tail }
  | .storeTail value next_tail =>
      some { s with
        tail := next_tail
        producer := .idle
        answers := s.answers ++ [.enqueued value]
        accesses := s.accesses ++ [.storeTail] }

/-- The next step of `try_pop`; a new call starts with the load of the head. -/
def State.stepConsumer (s : State α) : State α :=
  match s.consumer with
  | .idle => { s with consumer := .loadTail s.head, accesses := s.accesses ++ [.takeHead] }
  | .loadTail current_head =>
      if current_head = s.tail then
        -- the queue is empty
        { s with
          consumer := .idle
          answers := s.answers ++ [.empty]
          accesses := s.accesses ++ [.takeTail] }
      else { s with consumer := .loadReady current_head, accesses := s.accesses ++ [.takeTail] }
  | .loadReady current_head =>
      if s.ready current_head = true then { s with consumer := .read current_head }
      else
        -- the element is not ready
        { s with consumer := .idle, answers := s.answers ++ [.empty] }
  | .read current_head =>
      { s with consumer := .clearReady current_head (s.value current_head) }
  | .clearReady current_head value =>
      { s with
        ready := Function.update s.ready current_head false
        consumer := .storeHead current_head value }
  | .storeHead current_head value =>
      { s with
        head := nextIndex Capacity current_head
        consumer := .idle
        answers := s.answers ++ [.dequeued value]
        accesses := s.accesses ++ [.storeHead] }

/-- A call of `try_push` by a producer that is not in one. -/
def State.tryPush (s : State α) (value : α) : Option (State α) :=
  match s.producer with
  | .idle => some { s with producer := .loadTail value }
  | _ => none

/-- The state after a step, if it is enabled. -/
def next (s : State α) : Action α → Option (State α)
  | .add value => s.tryPush value
  | .producer => s.stepProducer Capacity
  | .consumer => some (s.stepConsumer Capacity)

variable (α) in
/-- The producer and the consumer of a queue of the given capacity. -/
def system [Inhabited α] : TransitionSystem (State α) (Action α) :=
  TransitionSystem.ofFunction start (next Capacity)

/-! ## What should hold -/

/-- 1 if the producer has raised a flag and not yet stored the tail. -/
def Producer.raised : Producer α → ℕ
  | .storeTail _ _ => 1
  | _ => 0

/-- 1 if the consumer has lowered a flag and not yet stored the head. -/
def Consumer.lowered : Consumer α → ℕ
  | .storeHead _ _ => 1
  | _ => 0

/-- The slot is one of those between the head and the tail. -/
def State.Occupied (s : State α) (i : ℕ) : Prop :=
  ∃ k < used Capacity.size s.head s.tail, (s.head + k) % Capacity.size = i

/-- **What the queue promises.**  It answers as a bounded queue.  A flag is up exactly in the
occupied slots, up to the one that is taken out and the one that is added.  A consumer that
found an item finds its flag up; and the flag that it lowers is that of the value that it has
read, and not of one that the producer has put there since. -/
structure State.Correct (s : State α) : Prop where
  fifo : ∃ items, Trace (Capacity.size - 1) s.answers items
  flags : ∀ i < Capacity.size, s.ready i = true ↔
    s.Occupied Capacity i ∧ ¬ (s.consumer.lowered = 1 ∧ i = s.head) ∨
      s.producer.raised = 1 ∧ i = s.tail
  found : ∀ current_head, s.consumer = .loadReady current_head → s.ready current_head = true
  cleared : ∀ current_head value, s.consumer = .clearReady current_head value →
    current_head = s.head ∧ s.Occupied Capacity s.head ∧ s.head ≠ s.tail ∧
      s.value current_head = value

/-! ## The queue without flags -/

/-- Where the producer stands if there are no flags. -/
def Producer.flagless : Producer α → Flagless.Producer α
  | .idle => .idle
  | .loadTail value => .loadTail value
  | .loadHead value current_tail next_tail => .loadHead value current_tail next_tail
  | .write value current_tail next_tail => .copy value current_tail next_tail
  | .setReady value _ next_tail => .storeTail value next_tail
  | .storeTail value next_tail => .storeTail value next_tail

/-- Where the consumer stands if there are no flags. -/
def Consumer.flagless : Consumer α → Flagless.Consumer α
  | .idle => .idle
  | .loadTail current_head => .loadTail current_head
  | .loadReady current_head => .copy current_head
  | .read current_head => .copy current_head
  | .clearReady current_head value => .storeHead current_head value
  | .storeHead current_head value => .storeHead current_head value

/-- The queue without its flags. -/
def State.flagless (s : State α) : Flagless.State α where
  buffer_ := s.value
  head_ := s.head
  tail_ := s.tail
  producer := s.producer.flagless
  consumer := s.consumer.flagless
  answers := s.answers
  accesses := s.accesses

/-! ## The invariant -/

/-- The queue without the flags holds `items` from position `first` on; the flags are up from
there on, up to the one that was lowered, and down behind the items, up to the one that was
raised. -/
structure State.Holds (s : State α) (first : ℕ) (items : List α) : Prop where
  flagless : s.flagless.Holds Capacity first items
  up : ∀ p, first + s.consumer.lowered ≤ p → p < first + items.length + s.producer.raised →
    s.ready (p % Capacity.size) = true
  down : ∀ p, first + items.length + s.producer.raised ≤ p →
    p < first + s.consumer.lowered + Capacity.size → s.ready (p % Capacity.size) = false
  producer : ∀ value current_tail next_tail,
    s.producer = .setReady value current_tail next_tail →
      current_tail = (first + items.length) % Capacity.size
  consumer : ∀ current_head value, s.consumer = .clearReady current_head value →
    s.value current_head = value

variable {Capacity} {s s' : State α} {first : ℕ} {items : List α}

namespace State.Holds

/-- The empty queue. -/
theorem start_holds [Inhabited α] : (start : State α).Holds Capacity 0 [] where
  flagless := Flagless.State.Holds.start_holds fun _ => default
  up := fun _ _ hp => absurd hp (Nat.not_lt_zero _)
  down := fun _ _ _ => rfl
  producer := by simp [start]
  consumer := by simp [start]

/-- A flag is lowered only if there is an item. -/
theorem lowered_le (h : s.Holds Capacity first items) : s.consumer.lowered ≤ items.length := by
  have hok := h.flagless.consumer
  cases hpc : s.consumer with
  | storeHead current_head value =>
    simp only [State.flagless, hpc] at hok
    obtain ⟨-, rest, rfl⟩ := hok
    simp [Consumer.lowered]
  | _ => exact Nat.zero_le _

/-- A flag is raised only if there is room. -/
theorem raised_lt (h : s.Holds Capacity first items) :
    items.length + s.producer.raised < Capacity.size := by
  have hok := h.flagless.producer
  have hroom := h.flagless.room
  cases hpc : s.producer with
  | storeTail value next_tail =>
    simp only [State.flagless, hpc] at hok
    exact hok.2.1
  | _ => exact hroom

/-- The consumer finds the flag of the first item up. -/
theorem ready_head (h : s.Holds Capacity first items) {current_head : ℕ}
    (hpc : s.consumer = .loadReady current_head) : s.ready current_head = true := by
  have hok := h.flagless.consumer
  have hup := h.up first
  simp only [State.flagless, hpc] at hok hup
  obtain ⟨rfl, hne⟩ := hok
  have hpos := List.length_pos_of_ne_nil hne
  apply hup
  · exact le_refl first
  · omega

/-- The number of items is that of the slots between the head and the tail. -/
theorem used_eq (h : s.Holds Capacity first items) :
    used Capacity.size s.head s.tail = items.length := by
  have hhead : s.head = first % Capacity.size := h.flagless.head
  have htail : s.tail = (first + items.length) % Capacity.size := h.flagless.tail
  apply Ring.used_eq
  · rw [hhead]
    exact Nat.mod_lt _ Capacity.size_pos
  · exact h.flagless.room
  · rw [hhead, htail, Nat.mod_add_mod]

/-- The positions of the items are those of the occupied slots. -/
theorem occupied_iff (h : s.Holds Capacity first items) {p : ℕ} (hfirst : first ≤ p)
    (hp : p < first + Capacity.size) :
    s.Occupied Capacity (p % Capacity.size) ↔ p < first + items.length := by
  have hhead : s.head = first % Capacity.size := h.flagless.head
  have hroom := h.flagless.room
  unfold State.Occupied
  rw [h.used_eq, hhead]
  constructor
  · rintro ⟨k, hk, hmod⟩
    rw [Nat.mod_add_mod] at hmod
    have heq := eq_of_mod_eq hmod (by omega) (by omega)
    omega
  · intro hlt
    refine ⟨p - first, by omega, ?_⟩
    rw [Nat.mod_add_mod, Nat.add_sub_cancel' hfirst]

/-- **The flags** are those of the occupied slots. -/
theorem flags (h : s.Holds Capacity first items) (i : ℕ) (hi : i < Capacity.size) :
    s.ready i = true ↔
      s.Occupied Capacity i ∧ ¬ (s.consumer.lowered = 1 ∧ i = s.head) ∨
        s.producer.raised = 1 ∧ i = s.tail := by
  have hhead : s.head = first % Capacity.size := h.flagless.head
  have htail : s.tail = (first + items.length) % Capacity.size := h.flagless.tail
  have hlowered := h.lowered_le
  have hraised := h.raised_lt
  obtain ⟨p, hfirst, hp, hmod⟩ := exists_mod_eq Capacity.size_pos first i
  rw [Nat.mod_eq_of_lt hi] at hmod
  subst hmod
  have hat_head : p % Capacity.size = s.head ↔ p = first := by
    rw [hhead]
    exact ⟨fun hmod => eq_of_mod_eq hmod (by omega) (by omega), by rintro rfl; rfl⟩
  have hat_tail : p % Capacity.size = s.tail ↔ p = first + items.length := by
    rw [htail]
    exact ⟨fun hmod => eq_of_mod_eq hmod (by omega) (by omega), by rintro rfl; rfl⟩
  rw [h.occupied_iff hfirst hp, hat_head, hat_tail]
  rcases Nat.lt_or_ge p (first + s.consumer.lowered) with hlt | hge
  · -- the slot is the one whose flag was lowered
    have hdown := h.down (p + Capacity.size) (by omega) (by omega)
    rw [Nat.add_mod_right] at hdown
    rw [hdown]
    have hone : s.consumer.lowered ≤ 1 := by cases s.consumer <;> simp [Consumer.lowered]
    simp
    omega
  · rcases Nat.lt_or_ge p (first + items.length + s.producer.raised) with hlt | hge'
    · rw [h.up p hge hlt]
      have hone : s.producer.raised ≤ 1 := by cases s.producer <;> simp [Producer.raised]
      simp
      omega
    · rw [h.down p hge' (by omega)]
      simp
      omega

/-- **The invariant is what the queue promises.** -/
theorem correct (h : s.Holds Capacity first items) : s.Correct Capacity where
  fifo := ⟨items, h.flagless.answers⟩
  flags := h.flags
  found := fun _ hpc => h.ready_head hpc
  cleared := by
    intro current_head value hpc
    have hok := h.flagless.consumer
    simp only [State.flagless, hpc] at hok
    obtain ⟨hhead, rest, hitems⟩ := hok
    have hhead' : s.head = first % Capacity.size := h.flagless.head
    have hne : items ≠ [] := by simp [hitems]
    have hpos := List.length_pos_of_ne_nil hne
    refine ⟨hhead.trans hhead'.symm, ?_, mt h.flagless.eq_nil_iff.mp hne, h.consumer _ _ hpc⟩
    rw [hhead', h.occupied_iff (le_refl first) (by have := Capacity.size_pos; omega)]
    omega

/-! ## Steps of the producer -/

/-- **The value is written** into the slot at the tail. -/
theorem write (h : s.Holds Capacity first items) {value : α} {current_tail next_tail : ℕ}
    (hpc : s.producer = .write value current_tail next_tail) :
    ({ s with
      value := Function.update s.value current_tail value
      producer := .setReady value current_tail next_tail } : State α).Holds Capacity first
        items := by
  have hok := h.flagless.producer
  have hroom := h.flagless.room
  have hup := h.up
  have hdown := h.down
  simp only [State.flagless, hpc] at hok
  rw [hpc] at hup hdown
  have htail : current_tail = (first + items.length) % Capacity.size := hok.1
  refine ⟨h.flagless.copyIn (congrArg Producer.flagless hpc), hup, hdown, ?_, ?_⟩
  · intro x ct nt hpc'
    cases hpc'
    exact htail
  · intro current_head x hpc'
    have hpc' : s.consumer = .clearReady current_head x := hpc'
    have hok' := h.flagless.consumer
    simp only [State.flagless, hpc'] at hok'
    obtain ⟨rfl, rest, rfl⟩ := hok'
    have hslot : (first + (x :: rest).length) % Capacity.size ≠ first % Capacity.size :=
      mod_ne_of_lt (by simp) (by omega)
    show Function.update s.value current_tail value _ = x
    rw [htail, Function.update_of_ne hslot.symm]
    exact h.consumer _ _ hpc'

/-- **The flag is raised.** -/
theorem setReady (h : s.Holds Capacity first items) {value : α} {current_tail next_tail : ℕ}
    (hpc : s.producer = .setReady value current_tail next_tail) :
    ({ s with
      ready := Function.update s.ready current_tail true
      producer := .storeTail value next_tail } : State α).Holds Capacity first items := by
  obtain rfl := h.producer _ _ _ hpc
  have hroom := h.flagless.room
  have hlowered := h.lowered_le
  have hup := h.up
  have hdown := h.down
  have hflagless := h.flagless
  rw [hpc] at hup hdown
  simp only [State.flagless, hpc] at hflagless
  refine ⟨hflagless, ?_, ?_, by simp, h.consumer⟩
  · intro p hfirst hp
    have hfirst' : first + s.consumer.lowered ≤ p := hfirst
    have hp' : p < first + items.length + 1 := hp
    by_cases hat : p = first + items.length
    · subst hat
      exact Function.update_self ..
    · have hslot : (first + items.length) % Capacity.size ≠ p % Capacity.size :=
        mod_ne_of_lt (by omega) (by omega)
      refine (Function.update_of_ne hslot.symm _ _).trans (hup p hfirst ?_)
      show p < first + items.length + 0
      omega
  · intro p hback hp
    have hback' : first + items.length + 1 ≤ p := hback
    have hp' : p < first + s.consumer.lowered + Capacity.size := hp
    have hslot : p % Capacity.size ≠ (first + items.length) % Capacity.size :=
      mod_ne_of_lt (by omega) (by omega)
    refine (Function.update_of_ne hslot _ _).trans (hdown p ?_ hp)
    exact Nat.le_of_succ_le hback'

/-- **The value is accepted**: the tail moves on. -/
theorem storeTail (h : s.Holds Capacity first items) {value : α} {next_tail : ℕ}
    (hpc : s.producer = .storeTail value next_tail) :
    ({ s with
      tail := next_tail
      producer := .idle
      answers := s.answers ++ [.enqueued value]
      accesses := s.accesses ++ [.storeTail] } : State α).Holds Capacity first
        (items ++ [value]) := by
  have hup := h.up
  have hdown := h.down
  rw [hpc] at hup hdown
  have hlength : (items ++ [value]).length = items.length + 1 := by simp
  refine ⟨h.flagless.storeTail (congrArg Producer.flagless hpc), ?_, ?_, by simp, h.consumer⟩
  · rw [hlength]
    exact hup
  · rw [hlength]
    exact hdown

/-- **A step of the producer** keeps the invariant. -/
theorem stepProducer (h : s.Holds Capacity first items)
    (hstep : s.stepProducer Capacity = some s') : ∃ items', s'.Holds Capacity first items' := by
  have hup := h.up
  have hdown := h.down
  unfold State.stepProducer at hstep
  cases hpc : s.producer with
  | idle =>
    rw [hpc] at hstep
    exact absurd hstep.symm (Option.some_ne_none _)
  | loadTail value =>
    rw [hpc] at hstep hup hdown
    obtain rfl := Option.some.inj hstep
    exact ⟨items, h.flagless.loadTail value, hup, hdown, by simp, h.consumer⟩
  | loadHead value current_tail next_tail =>
    rw [hpc] at hstep hup hdown
    dsimp only at hstep
    split_ifs at hstep with hfull
    · obtain rfl := Option.some.inj hstep
      exact ⟨items, h.flagless.full (congrArg Producer.flagless hpc) hfull, hup, hdown, by simp,
        h.consumer⟩
    · obtain rfl := Option.some.inj hstep
      exact ⟨items, h.flagless.reserve (congrArg Producer.flagless hpc) hfull, hup, hdown,
        by simp, h.consumer⟩
  | write value current_tail next_tail =>
    rw [hpc] at hstep
    obtain rfl := Option.some.inj hstep
    exact ⟨items, h.write hpc⟩
  | setReady value current_tail next_tail =>
    rw [hpc] at hstep
    obtain rfl := Option.some.inj hstep
    exact ⟨items, h.setReady hpc⟩
  | storeTail value next_tail =>
    rw [hpc] at hstep
    obtain rfl := Option.some.inj hstep
    exact ⟨items ++ [value], h.storeTail hpc⟩

/-! ## Steps of the consumer -/

/-- **The flag is found up.** -/
theorem loadReady (h : s.Holds Capacity first items) {current_head : ℕ}
    (hpc : s.consumer = .loadReady current_head) :
    ({ s with consumer := .read current_head } : State α).Holds Capacity first items := by
  have hup := h.up
  have hdown := h.down
  have hflagless := h.flagless
  rw [hpc] at hup hdown
  simp only [State.flagless, hpc] at hflagless
  exact ⟨hflagless, hup, hdown, h.producer, by simp⟩

/-- **The flag is lowered.** -/
theorem clearReady (h : s.Holds Capacity first items) {current_head : ℕ} {value : α}
    (hpc : s.consumer = .clearReady current_head value) :
    ({ s with
      ready := Function.update s.ready current_head false
      consumer := .storeHead current_head value } : State α).Holds Capacity first items := by
  have hraised := h.raised_lt
  have hup := h.up
  have hdown := h.down
  have hflagless := h.flagless
  have hok := h.flagless.consumer
  rw [hpc] at hup hdown
  simp only [State.flagless, hpc] at hflagless hok
  obtain ⟨rfl, rest, rfl⟩ := hok
  rw [List.length_cons] at hraised
  refine ⟨hflagless, ?_, ?_, h.producer, by simp⟩
  · intro p hfirst hp
    have hfirst' : first + 1 ≤ p := hfirst
    have hp' : p < first + (rest.length + 1) + s.producer.raised := hp
    have hslot : p % Capacity.size ≠ first % Capacity.size :=
      mod_ne_of_lt (by omega) (by omega)
    refine (Function.update_of_ne hslot _ _).trans (hup p ?_ hp)
    exact Nat.le_of_succ_le hfirst'
  · intro p hback hp
    have hback' : first + (rest.length + 1) + s.producer.raised ≤ p := hback
    have hp' : p < first + 1 + Capacity.size := hp
    by_cases hround : p = first + Capacity.size
    · -- the slot is the one whose flag was lowered
      rw [hround, Nat.add_mod_right]
      exact Function.update_self ..
    · have hslot : p % Capacity.size ≠ first % Capacity.size :=
        mod_ne_of_lt (by omega) (by omega)
      refine (Function.update_of_ne hslot _ _).trans (hdown p hback ?_)
      show p < first + 0 + Capacity.size
      omega

/-- **The value is returned**: the head moves on. -/
theorem storeHead (h : s.Holds Capacity first items) {current_head : ℕ} {value : α}
    (hpc : s.consumer = .storeHead current_head value) :
    ∃ rest, ({ s with
      head := nextIndex Capacity current_head
      consumer := .idle
      answers := s.answers ++ [.dequeued value]
      accesses := s.accesses ++ [.storeHead] } : State α).Holds Capacity (first + 1) rest := by
  have hup := h.up
  have hdown := h.down
  have hok := h.flagless.consumer
  rw [hpc] at hup hdown
  simp only [State.flagless, hpc] at hok
  obtain ⟨rfl, rest, rfl⟩ := hok
  obtain ⟨rest', hflagless⟩ := h.flagless.storeHead (congrArg Consumer.flagless hpc)
  have hrest : rest' = rest :=
    hflagless.answers.items_eq (h.flagless.answers.concat (.dequeued value rest))
  subst hrest
  have hback : first + 1 + rest'.length = first + (value :: rest').length := by
    rw [List.length_cons]
    omega
  refine ⟨rest', hflagless, ?_, ?_, ?_, by simp⟩
  · rw [hback]
    exact hup
  · rw [hback]
    exact hdown
  · rw [hback]
    exact h.producer

/-- **A step of the consumer** keeps the invariant. -/
theorem stepConsumer (h : s.Holds Capacity first items) :
    ∃ first' items', (s.stepConsumer Capacity).Holds Capacity first' items' := by
  have hup := h.up
  have hdown := h.down
  unfold State.stepConsumer
  cases hpc : s.consumer with
  | idle =>
    rw [hpc] at hup hdown
    exact ⟨first, items, h.flagless.loadHead, hup, hdown, h.producer, by simp⟩
  | loadTail current_head =>
    rw [hpc] at hup hdown
    dsimp only
    split_ifs with hempty
    · exact ⟨first, items, h.flagless.empty (congrArg Consumer.flagless hpc) hempty, hup, hdown,
        h.producer, by simp⟩
    · exact ⟨first, items, h.flagless.find (congrArg Consumer.flagless hpc) hempty, hup, hdown,
        h.producer, by simp⟩
  | loadReady current_head =>
    dsimp only
    rw [if_pos (h.ready_head hpc)]
    exact ⟨first, items, h.loadReady hpc⟩
  | read current_head =>
    rw [hpc] at hup hdown
    refine ⟨first, items, h.flagless.copyOut (congrArg Consumer.flagless hpc), hup, hdown,
      h.producer, ?_⟩
    intro ch value hpc'
    cases hpc'
    rfl
  | clearReady current_head value => exact ⟨first, items, h.clearReady hpc⟩
  | storeHead current_head value =>
    obtain ⟨rest, hrest⟩ := h.storeHead hpc
    exact ⟨first + 1, rest, hrest⟩

/-! ## Runs -/

/-- **A step** keeps the invariant. -/
theorem next (h : s.Holds Capacity first items) {a : Action α}
    (hstep : Ready.next Capacity s a = some s') :
    ∃ first' items', s'.Holds Capacity first' items' := by
  cases a with
  | add value =>
    have hstep : s.tryPush value = some s' := hstep
    unfold State.tryPush at hstep
    cases hpc : s.producer with
    | idle =>
      have hup := h.up
      have hdown := h.down
      have hflagless := h.flagless
      rw [hpc] at hstep hup hdown
      obtain rfl := Option.some.inj hstep
      have hindex := hflagless.index
      simp only [State.flagless, hpc] at hindex
      exact ⟨first, items, { hflagless with index := hindex, producer := trivial }, hup, hdown,
        by simp, h.consumer⟩
    | _ =>
      rw [hpc] at hstep
      exact absurd hstep.symm (Option.some_ne_none _)
  | producer =>
    obtain ⟨items', h'⟩ := h.stepProducer hstep
    exact ⟨first, items', h'⟩
  | consumer =>
    obtain rfl := Option.some.inj hstep
    exact h.stepConsumer

end State.Holds

/-! ## The same answers as without flags -/

/-- **A step** is one of the queue without flags, or one that tests or moves a flag. -/
theorem next_flagless (h : s.Holds Capacity first items) {a : Action α}
    (hstep : next Capacity s a = some s') :
    s'.flagless = s.flagless ∨ Flagless.next Capacity s.flagless a = some s'.flagless := by
  cases a with
  | add value =>
    right
    have hstep : s.tryPush value = some s' := hstep
    show Flagless.State.enqueue _ value = _
    unfold State.tryPush at hstep
    cases hpc : s.producer with
    | idle =>
      rw [hpc] at hstep
      obtain rfl := Option.some.inj hstep
      simp [Flagless.State.enqueue, State.flagless, hpc, Producer.flagless]
    | _ =>
      rw [hpc] at hstep
      exact absurd hstep.symm (Option.some_ne_none _)
  | producer =>
    have hstep : s.stepProducer Capacity = some s' := hstep
    show _ ∨ Flagless.State.stepProducer Capacity _ = _
    unfold State.stepProducer at hstep
    cases hpc : s.producer with
    | idle =>
      rw [hpc] at hstep
      exact absurd hstep.symm (Option.some_ne_none _)
    | loadHead value current_tail next_tail =>
      right
      rw [hpc] at hstep
      dsimp only at hstep
      split_ifs at hstep with hfull
      · obtain rfl := Option.some.inj hstep
        simp [Flagless.State.stepProducer, State.flagless, hpc, Producer.flagless, hfull]
      · obtain rfl := Option.some.inj hstep
        simp [Flagless.State.stepProducer, State.flagless, hpc, Producer.flagless, hfull]
    | setReady value current_tail next_tail =>
      left
      rw [hpc] at hstep
      obtain rfl := Option.some.inj hstep
      simp [State.flagless, hpc, Producer.flagless]
    | _ =>
      right
      rw [hpc] at hstep
      obtain rfl := Option.some.inj hstep
      simp [Flagless.State.stepProducer, State.flagless, hpc, Producer.flagless]
  | consumer =>
    obtain rfl := Option.some.inj hstep
    show _ ∨ some (Flagless.State.stepConsumer Capacity _) = _
    unfold State.stepConsumer
    cases hpc : s.consumer with
    | loadTail current_head =>
      right
      dsimp only
      split_ifs with hempty
      · simp [Flagless.State.stepConsumer, State.flagless, hpc, Consumer.flagless, hempty]
      · simp [Flagless.State.stepConsumer, State.flagless, hpc, Consumer.flagless, hempty]
    | loadReady current_head =>
      left
      dsimp only
      rw [if_pos (h.ready_head hpc)]
      simp [State.flagless, hpc, Consumer.flagless]
    | clearReady current_head value =>
      left
      simp [State.flagless, hpc, Consumer.flagless]
    | _ =>
      right
      simp [Flagless.State.stepConsumer, State.flagless, hpc, Consumer.flagless]

variable [Inhabited α]

/-- **Every state reached** is one of the queue without flags, with the flags that go with it. -/
theorem reachable_flagless (h : (system α Capacity).Reachable s) :
    (∃ first items, s.Holds Capacity first items) ∧
      (Flagless.system Capacity fun _ => default).Reachable s.flagless := by
  apply h.invariant
  · rintro s rfl
    exact ⟨⟨0, [], State.Holds.start_holds⟩, .init rfl⟩
  · rintro s a s' ⟨⟨first, items, hs⟩, hreach⟩ hstep
    refine ⟨hs.next hstep, ?_⟩
    rcases next_flagless hs hstep with heq | hflagless
    · rw [heq]
      exact hreach
    · exact hreach.step trivial hflagless

/-- No thread is about to test or to move a flag. -/
def State.Settled (s : State α) : Prop :=
  (∀ value current_tail next_tail, s.producer ≠ .setReady value current_tail next_tail) ∧
    (∀ current_head, s.consumer ≠ .loadReady current_head) ∧
    ∀ current_head value, s.consumer ≠ .clearReady current_head value

/-- The producer raises the flag if it is about to. -/
theorem exists_producer_settled (h : (system α Capacity).Reachable s) :
    ∃ s', (system α Capacity).Reachable s' ∧ s'.flagless = s.flagless ∧
      s'.consumer = s.consumer ∧
      ∀ value current_tail next_tail, s'.producer ≠ .setReady value current_tail next_tail := by
  cases hpc : s.producer with
  | setReady value current_tail next_tail =>
    have hstep : next Capacity s .producer = some { s with
        ready := Function.update s.ready current_tail true
        producer := .storeTail value next_tail } := by
      simp only [next, State.stepProducer, hpc]
    refine ⟨_, h.step trivial hstep, ?_, rfl, by simp⟩
    simp [State.flagless, hpc, Producer.flagless]
  | _ => exact ⟨s, h, rfl, rfl, by simp [hpc]⟩

/-- Both threads can be past what they do to the flags. -/
theorem exists_settled (h : (system α Capacity).Reachable s) :
    ∃ s', (system α Capacity).Reachable s' ∧ s'.flagless = s.flagless ∧ s'.Settled := by
  obtain ⟨t, ht, heq, hconsumer, hproducer⟩ := exists_producer_settled h
  obtain ⟨⟨first, items, hholds⟩, -⟩ := reachable_flagless ht
  cases hpc : t.consumer with
  | loadReady current_head =>
    have hstep : next Capacity t .consumer = some { t with consumer := .read current_head } := by
      simp only [next, State.stepConsumer, hpc, hholds.ready_head hpc, if_true]
    refine ⟨_, ht.step trivial hstep, ?_, hproducer, by simp, by simp⟩
    rw [← heq]
    simp [State.flagless, hpc, Consumer.flagless]
  | clearReady current_head value =>
    have hstep : next Capacity t .consumer = some { t with
        ready := Function.update t.ready current_head false
        consumer := .storeHead current_head value } := by
      simp only [next, State.stepConsumer, hpc]
    refine ⟨_, ht.step trivial hstep, ?_, hproducer, by simp, by simp⟩
    rw [← heq]
    simp [State.flagless, hpc, Consumer.flagless]
  | _ => exact ⟨t, ht, heq, hproducer, by simp [hpc], by simp [hpc]⟩

omit [Inhabited α] in
/-- **A step of the queue without flags** is one with flags. -/
theorem exists_next {t : Flagless.State α} {a : Action α} (hsettled : s.Settled)
    (hstep : Flagless.next Capacity s.flagless a = some t) :
    ∃ s', next Capacity s a = some s' ∧ s'.flagless = t := by
  obtain ⟨hproducer, hloadReady, hclearReady⟩ := hsettled
  cases a with
  | add value =>
    cases hpc : s.producer with
    | idle =>
      refine ⟨{ s with producer := .loadTail value }, ?_, ?_⟩
      · simp only [next, State.tryPush, hpc]
      · apply Option.some.inj
        rw [← hstep]
        simp [Flagless.next, Flagless.State.enqueue, State.flagless, hpc, Producer.flagless]
    | _ => simp [Flagless.next, Flagless.State.enqueue, State.flagless, hpc,
        Producer.flagless] at hstep
  | producer =>
    have hstep : Flagless.State.stepProducer Capacity s.flagless = some t := hstep
    cases hpc : s.producer with
    | idle => simp [Flagless.State.stepProducer, State.flagless, hpc, Producer.flagless] at hstep
    | setReady value current_tail next_tail => exact absurd hpc (hproducer _ _ _)
    | loadHead value current_tail next_tail =>
      simp only [Flagless.State.stepProducer, State.flagless, hpc, Producer.flagless] at hstep
      simp only [next, State.stepProducer, hpc]
      split_ifs at hstep ⊢ with hfull
      · exact ⟨_, rfl, Option.some.inj hstep⟩
      · exact ⟨_, rfl, Option.some.inj hstep⟩
    | _ =>
      simp only [Flagless.State.stepProducer, State.flagless, hpc, Producer.flagless] at hstep
      simp only [next, State.stepProducer, hpc]
      exact ⟨_, rfl, Option.some.inj hstep⟩
  | consumer =>
    have hstep := Option.some.inj hstep
    cases hpc : s.consumer with
    | loadReady current_head => exact absurd hpc (hloadReady _)
    | clearReady current_head value => exact absurd hpc (hclearReady _ _)
    | loadTail current_head =>
      simp only [Flagless.State.stepConsumer, State.flagless, hpc, Consumer.flagless] at hstep
      simp only [next, State.stepConsumer, hpc]
      split_ifs at hstep ⊢ with hempty
      · exact ⟨_, rfl, hstep⟩
      · exact ⟨_, rfl, hstep⟩
    | _ =>
      simp only [Flagless.State.stepConsumer, State.flagless, hpc, Consumer.flagless] at hstep
      simp only [next, State.stepConsumer, hpc]
      exact ⟨_, rfl, hstep⟩

/-- **Every run of the queue without flags** is one with flags. -/
theorem exists_flagless {t : Flagless.State α}
    (h : (Flagless.system Capacity fun _ => default).Reachable t) :
    ∃ s, (system α Capacity).Reachable s ∧ s.flagless = t := by
  induction h with
  | init hinit =>
    obtain rfl := hinit
    exact ⟨start, .init rfl, rfl⟩
  | step _ _ hstep ih =>
    obtain ⟨s, hs, rfl⟩ := ih
    obtain ⟨u, hu, heq, hsettled⟩ := exists_settled hs
    rw [← heq] at hstep
    obtain ⟨s', hstep', rfl⟩ := exists_next hsettled hstep
    exact ⟨s', hu.step trivial hstep', rfl⟩

/-- **The queue with flags is the queue without them**, for every capacity and any order of the
steps of the producer and the consumer.  It answers as a bounded queue, with its flags up where
the items are.  Both queues load and store their indices in the same orders, and the order
decides what the calls return. -/
theorem same_as_flagless (memory : ℕ → α) :
    (∀ s, (system α Capacity).Reachable s → s.Correct Capacity) ∧
      (∀ accesses, (∃ s, (system α Capacity).Reachable s ∧ s.accesses = accesses) ↔
        ∃ t, (Flagless.system Capacity memory).Reachable t ∧ t.accesses = accesses) ∧
      ∀ s t, (system α Capacity).Reachable s → (Flagless.system Capacity memory).Reachable t →
        s.accesses = t.accesses → s.answers = t.answers := by
  refine ⟨?_, ?_, ?_⟩
  · intro s h
    obtain ⟨⟨first, items, hholds⟩, -⟩ := reachable_flagless h
    exact hholds.correct
  · intro accesses
    constructor
    · rintro ⟨s, h, rfl⟩
      obtain ⟨-, hreach⟩ := reachable_flagless h
      obtain ⟨buffer, hreach'⟩ := Flagless.reachable_memory memory hreach
      exact ⟨_, hreach', rfl⟩
    · rintro ⟨t, h, rfl⟩
      obtain ⟨buffer, hreach⟩ := Flagless.reachable_memory (fun _ => default) h
      obtain ⟨s, hs, heq⟩ := exists_flagless hreach
      exact ⟨s, hs, congrArg Flagless.State.accesses heq⟩
  · intro s t h ht haccesses
    obtain ⟨-, hreach⟩ := reachable_flagless h
    have hanswers : s.answers = (replay Capacity s.accesses).answers :=
      Flagless.answers_eq hreach
    rw [hanswers, Flagless.answers_eq ht, haccesses]

/-! ## A queue of two slots -/

open PowerOfTwo (two)

/-- A value is pushed and another one refused, then the first is popped, and the queue is
empty. -/
def onePlace : List (Action ℕ) :=
  Action.add 1 :: List.replicate 5 Action.producer
    ++ Action.add 2 :: List.replicate 2 Action.producer ++ List.replicate 8 Action.consumer

/-- The flags are as they should be. -/
theorem correct_onePlace :
    ∃ s, (system ℕ two).Reachable s ∧
      s.answers = [.enqueued 1, .full, .dequeued 1, .empty] ∧ s.Correct two := by
  have hrun : ∃ s ∈ runFrom (next two) (fun _ _ => True) start onePlace,
      s.answers = [.enqueued 1, .full, .dequeued 1, .empty] := by decide +kernel
  obtain ⟨s, hreach, hanswers⟩ := exists_of_runFrom hrun
  exact ⟨s, hreach, hanswers, (same_as_flagless fun _ => 0).1 s hreach⟩

end LockFreeQueue.Ready
