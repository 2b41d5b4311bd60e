/-
# The counter queue of many producers and one consumer

The `MPSCQueue` with the counters `head` and `tail` and a copy of the tail that the producers
share.  A producer writes its item at the head that it has read and stores the head plus one;
nothing keeps a second producer from reading the same head.  The queue is correct as long as
no two producers are between their reads and stores of one head, and the counters do not wrap.
-/
import FastServer.MachineInt
import FastServer.Ring
import FastServer.TransitionSystem

namespace MPSCQueue.Counter

open Ring TransitionSystem

variable {α ι : Type}

/-! ## State -/

/-- Where a producer stands in `enqueue`: about to load the head, to test the cached tail, to
load the tail, to store it in the cache, to test the cached tail again, to write the value, or
to store the head. -/
inductive Producer (α : Type)
  | idle
  | loadHead (value : α)
  | testCache (value : α) (current_head : ℕ)
  | loadTail (value : α) (current_head : ℕ)
  | storeCache (value : α) (current_head tail : ℕ)
  | retestCache (value : α) (current_head : ℕ)
  | write (value : α) (current_head : ℕ)
  | storeHead (value : α) (current_head : ℕ)

/-- Where the consumer stands in `dequeue`: about to load the head, to read the value, or to
store the tail. -/
inductive Consumer (α : Type)
  | idle
  | loadHead (current_tail : ℕ)
  | read (current_tail : ℕ)
  | storeTail (current_tail : ℕ) (value : α)

/-- The buffer, the counters and the threads.  The other fields are history: the values for
which `enqueue` returned `true`, in the order of the stores of the head, and the values that
`dequeue` returned. -/
structure State (α ι : Type) where
  buffer : ℕ → α
  head : ℕ
  tail : ℕ
  cache_tail : ℕ
  producers : ι → Producer α
  consumer : Consumer α
  published : List α
  dequeued : List α

/-- The constructor has run. -/
def start [Inhabited α] : State α ι where
  buffer := fun _ => default
  head := 0
  tail := 0
  cache_tail := 0
  producers := fun _ => .idle
  consumer := .idle
  published := []
  dequeued := []

/-! ## Steps -/

variable (Capacity : PowerOfTwo)

/-- `next_head - cache_tail > capacity`. -/
def full (current_head cache_tail : ℕ) : Prop :=
  Capacity.size < subU64 ((current_head + 1) % 2 ^ 64) cache_tail

instance (current_head cache_tail : ℕ) : Decidable (full Capacity current_head cache_tail) :=
  inferInstanceAs (Decidable (_ < _))

section Steps

variable [DecidableEq ι]

/-- Producer `i` goes on at `pc`. -/
def State.setProducer (s : State α ι) (i : ι) (pc : Producer α) : State α ι :=
  { s with producers := Function.update s.producers i pc }

@[simp] theorem State.setProducer_self (s : State α ι) (i : ι) (pc : Producer α) :
    (s.setProducer i pc).producers i = pc := Function.update_self ..

theorem State.setProducer_of_ne (s : State α ι) {i j : ι} (hj : j ≠ i) (pc : Producer α) :
    (s.setProducer i pc).producers j = s.producers j := Function.update_of_ne hj ..

/-- The next step of `enqueue` in producer `i`. -/
def State.stepProducer (s : State α ι) (i : ι) : Option (State α ι) :=
  match s.producers i with
  | .idle => none
  | .loadHead value => some (s.setProducer i (.testCache value s.head))
  | .testCache value current_head =>
      if full Capacity current_head s.cache_tail then
        some (s.setProducer i (.loadTail value current_head))
      else some (s.setProducer i (.write value current_head))
  | .loadTail value current_head => some (s.setProducer i (.storeCache value current_head s.tail))
  | .storeCache value current_head tail =>
      some { s.setProducer i (.retestCache value current_head) with cache_tail := tail }
  | .retestCache value current_head =>
      if full Capacity current_head s.cache_tail then
        -- the queue is full
        some (s.setProducer i .idle)
      else some (s.setProducer i (.write value current_head))
  | .write value current_head =>
      some { s.setProducer i (.storeHead value current_head) with
        buffer := Function.update s.buffer (Capacity.mask current_head) value }
  | .storeHead value current_head =>
      some { s.setProducer i .idle with
        head := (current_head + 1) % 2 ^ 64
        published := s.published ++ [value] }

omit [DecidableEq ι] in
/-- The next step of the consumer; a new `dequeue` starts with the load of the tail. -/
def State.stepConsumer (s : State α ι) : State α ι :=
  match s.consumer with
  | .idle => { s with consumer := .loadHead s.tail }
  | .loadHead current_tail =>
      if current_tail ≥ s.head then { s with consumer := .idle }
      else { s with consumer := .read current_tail }
  | .read current_tail =>
      { s with consumer := .storeTail current_tail (s.buffer (Capacity.mask current_tail)) }
  | .storeTail current_tail value =>
      { s with
        tail := (current_tail + 1) % 2 ^ 64
        consumer := .idle
        dequeued := s.dequeued ++ [value] }

/-- A step of one thread. -/
inductive Action (α ι : Type)
  | enqueue (i : ι) (value : α)
  | producer (i : ι)
  | consumer

/-- A call of `enqueue` by a producer that is not in one. -/
def State.enqueue (s : State α ι) (i : ι) (value : α) : Option (State α ι) :=
  match s.producers i with
  | .idle => some (s.setProducer i (.loadHead value))
  | _ => none

/-- The state after a step, if it is enabled. -/
def next (s : State α ι) : Action α ι → Option (State α ι)
  | .enqueue i value => s.enqueue i value
  | .producer i => s.stepProducer Capacity i
  | .consumer => some (s.stepConsumer Capacity)

variable (α ι) in
/-- The producers and the consumer of a queue of the given capacity. -/
def system [Inhabited α] : TransitionSystem (State α ι) (Action α ι) :=
  TransitionSystem.ofFunction start (next Capacity)

end Steps

/-! ## What should hold -/

/-- The values in the buffer from the tail to the head. -/
def State.pending (s : State α ι) : List α :=
  contents Capacity.size s.buffer s.tail (subU64 s.head s.tail)

/-- **What the queue promises.**  The values published are those dequeued followed by those
in the buffer, in that order; no more are in the buffer than fit; and a `dequeue` that finds
nothing has nothing to find. -/
structure State.Correct (s : State α ι) : Prop where
  fifo : s.published = s.dequeued ++ s.pending Capacity
  room : subU64 s.head s.tail ≤ Capacity.size
  nothing : ∀ current_tail, s.consumer = .loadHead current_tail → current_tail ≥ s.head →
    s.dequeued = s.published

/-- Whether a producer has written its value and not yet stored the head. -/
def Producer.written : Producer α → Bool
  | .storeHead _ _ => true
  | _ => false

/-- The step is not a write into a slot that is not the producer's: the head is the one that
it read, which is not the last `size_t`, and no other producer has written its value and not
yet stored the head. -/
def State.Uncontended (s : State α ι) : Action α ι → Prop
  | .producer i =>
      match s.producers i with
      | .write _ current_head =>
          s.head = current_head ∧ current_head + 1 < 2 ^ 64 ∧
            ∀ j, (s.producers j).written = false
      | _ => True
  | _ => True

/-! ## The invariant -/

/-- What a producer at `pc` knows. -/
def State.ProducerOk (s : State α ι) : Producer α → Prop
  | .storeCache _ _ tail => tail ≤ s.tail
  | .write _ current_head =>
      current_head + 1 < 2 ^ 64 → current_head + 1 ≤ s.tail + Capacity.size
  | .storeHead value current_head => current_head = s.head ∧ current_head + 1 < 2 ^ 64 ∧
      current_head + 1 ≤ s.tail + Capacity.size ∧
      s.buffer (current_head % Capacity.size) = value
  | _ => True

/-- What the consumer knows. -/
def State.ConsumerOk (s : State α ι) : Consumer α → Prop
  | .idle => True
  | .loadHead current_tail => current_tail = s.tail
  | .read current_tail => current_tail = s.tail ∧ s.tail < s.head
  | .storeTail current_tail value => current_tail = s.tail ∧ s.tail < s.head ∧
      s.buffer (s.tail % Capacity.size) = value

/-- The counters count the values, which stand in the buffer; the cached tail is an old tail;
and at most one producer has written a slot that is not yet published: the one at the head. -/
structure State.Invariant (s : State α ι) : Prop where
  head : s.head = s.published.length
  tail : s.tail = s.dequeued.length
  head_lt : s.head < 2 ^ 64
  tail_le : s.tail ≤ s.head
  room : s.head ≤ s.tail + Capacity.size
  cache : s.cache_tail ≤ s.tail
  fifo : s.published = s.dequeued ++ contents Capacity.size s.buffer s.tail (s.head - s.tail)
  producers : ∀ i, s.ProducerOk Capacity (s.producers i)
  distinct : ∀ i j, (s.producers i).written → (s.producers j).written → i = j
  consumer : s.ConsumerOk Capacity s.consumer

variable {Capacity} {s s' : State α ι} {i : ι}

/-- A producer that finds the queue not full with an old tail finds room with the tail. -/
theorem room_of_not_full {current_head : ℕ} (hcache : s.cache_tail ≤ s.tail)
    (h : ¬ full Capacity current_head s.cache_tail) (hlt : current_head + 1 < 2 ^ 64) :
    current_head + 1 ≤ s.tail + Capacity.size := by
  unfold full at h
  rw [Nat.mod_eq_of_lt hlt, not_lt] at h
  have hroom := le_add_of_subU64_le hlt h
  omega

namespace State.Invariant

/-- **The invariant is what the queue promises.** -/
theorem correct (h : s.Invariant Capacity) : s.Correct Capacity := by
  have hdiff : subU64 s.head s.tail = s.head - s.tail := subU64_of_le h.tail_le h.head_lt
  have hroom := h.room
  refine ⟨?_, ?_, ?_⟩
  · rw [State.pending, hdiff]
    exact h.fifo
  · omega
  · intro current_tail hconsumer hempty
    have hok := h.consumer
    rw [hconsumer] at hok
    obtain rfl : current_tail = s.tail := hok
    have hfifo := h.fifo
    rw [Nat.sub_eq_zero_of_le hempty] at hfifo
    exact (hfifo.trans (List.append_nil _)).symm

theorem start_invariant [Inhabited α] : (start : State α ι).Invariant Capacity where
  head := rfl
  tail := rfl
  head_lt := Nat.two_pow_pos 64
  tail_le := le_refl 0
  room := Nat.zero_le _
  cache := le_refl 0
  fifo := rfl
  producers := fun _ => trivial
  distinct := fun _ _ hi _ => absurd hi Bool.false_ne_true
  consumer := trivial

/-! ## Steps of a producer -/

variable [DecidableEq ι]

/-- A producer that has not written goes on without a change of the buffer and the head. -/
theorem move (h : s.Invariant Capacity) {pc : Producer α} {cache_tail : ℕ}
    (hcache : cache_tail ≤ s.tail) (hwritten : pc.written = false)
    (hok : s.ProducerOk Capacity pc) :
    ({ s.setProducer i pc with cache_tail := cache_tail } : State α ι).Invariant Capacity where
  head := h.head
  tail := h.tail
  head_lt := h.head_lt
  tail_le := h.tail_le
  room := h.room
  cache := hcache
  fifo := h.fifo
  producers := by
    intro j
    show s.ProducerOk Capacity ((s.setProducer i pc).producers j)
    by_cases hj : j = i
    · subst hj
      rw [State.setProducer_self]
      exact hok
    · rw [State.setProducer_of_ne s hj]
      exact h.producers j
  distinct := unique_update h.distinct fun hw => absurd (hwritten.symm.trans hw) Bool.false_ne_true
  consumer := h.consumer

/-- **A value is written** into the slot at the head. -/
theorem write (h : s.Invariant Capacity) {value : α} (hlt : s.head + 1 < 2 ^ 64)
    (hroom : s.head + 1 ≤ s.tail + Capacity.size)
    (hall : ∀ j, (s.producers j).written = false) :
    ({ s.setProducer i (.storeHead value s.head) with
      buffer := Function.update s.buffer (Capacity.mask s.head) value } :
        State α ι).Invariant Capacity := by
  have htail := h.tail_le
  rw [Capacity.mask_eq_mod]
  refine ⟨h.head, h.tail, h.head_lt, h.tail_le, h.room, h.cache, ?_, ?_, ?_, ?_⟩
  · have hkept : contents _ (Function.update s.buffer ((s.tail + _) % _) value) s.tail _
        = contents _ s.buffer s.tail _ :=
      contents_update (show s.head - s.tail < Capacity.size by omega) value
    rw [show s.tail + (s.head - s.tail) = s.head by omega] at hkept
    exact h.fifo.trans (congrArg (s.dequeued ++ ·) hkept.symm)
  · intro j
    show State.ProducerOk Capacity _ ((s.setProducer i _).producers j)
    by_cases hj : j = i
    · subst hj
      rw [State.setProducer_self]
      exact ⟨rfl, hlt, hroom, Function.update_self ..⟩
    · rw [State.setProducer_of_ne s hj]
      have hok := h.producers j
      have hwritten := hall j
      cases hpc : s.producers j with
      | storeHead =>
        rw [hpc] at hwritten
        exact absurd hwritten.symm Bool.false_ne_true
      | _ =>
        rw [hpc] at hok
        exact hok
  · -- no other producer has written
    exact unique_update_of_others fun j _ => hall j
  · have hok := h.consumer
    show State.ConsumerOk Capacity _ s.consumer
    cases hpc : s.consumer with
    | storeTail current_tail x =>
      rw [hpc] at hok
      obtain ⟨rfl, hne, hx⟩ := hok
      have hslot : s.tail % Capacity.size ≠ s.head % Capacity.size :=
        mod_ne (le_refl _) (by omega) htail (by omega) (by omega)
      exact ⟨rfl, hne, (Function.update_of_ne hslot _ _).trans hx⟩
    | _ =>
      rw [hpc] at hok
      exact hok

/-- **A value is published.** -/
theorem storeHead (h : s.Invariant Capacity) {value : α} {current_head : ℕ}
    (hpc : s.producers i = .storeHead value current_head) :
    ({ s.setProducer i .idle with
      head := (current_head + 1) % 2 ^ 64
      published := s.published ++ [value] } : State α ι).Invariant Capacity := by
  have hok := h.producers i
  rw [hpc] at hok
  obtain ⟨rfl, hlt, hroom, hvalue⟩ := hok
  have htail := h.tail_le
  have hothers : ∀ {j}, j ≠ i → (s.producers j).written = false := by
    intro j hj
    by_contra hwritten
    exact hj (h.distinct j i (Bool.not_eq_false _ ▸ hwritten) (by rw [hpc]; rfl))
  rw [Nat.mod_eq_of_lt hlt]
  refine ⟨?_, h.tail, hlt, Nat.le_succ_of_le htail, hroom, h.cache, ?_, ?_, ?_, ?_⟩
  · show s.head + 1 = (s.published ++ [value]).length
    rw [List.length_append, List.length_singleton, h.head]
  · show s.published ++ [value] = s.dequeued ++ contents _ s.buffer s.tail (s.head + 1 - s.tail)
    rw [Nat.succ_sub htail, contents_succ, show s.tail + (s.head - s.tail) = s.head by omega, hvalue,
      ← List.append_assoc, ← h.fifo]
  · intro j
    show State.ProducerOk Capacity _ ((s.setProducer i .idle).producers j)
    by_cases hj : j = i
    · subst hj
      rw [State.setProducer_self]
      trivial
    · rw [State.setProducer_of_ne s hj]
      have hok := h.producers j
      have hwritten := hothers hj
      cases hpcj : s.producers j with
      | storeHead =>
        rw [hpcj] at hwritten
        exact absurd hwritten.symm Bool.false_ne_true
      | _ =>
        rw [hpcj] at hok
        exact hok
  · exact unique_update_of_others fun j => hothers
  · have hok := h.consumer
    show State.ConsumerOk Capacity _ s.consumer
    cases hc : s.consumer with
    | idle => trivial
    | loadHead current_tail =>
      rw [hc] at hok
      exact hok
    | read current_tail =>
      rw [hc] at hok
      exact ⟨hok.1, Nat.lt_succ_of_lt hok.2⟩
    | storeTail current_tail x =>
      rw [hc] at hok
      exact ⟨hok.1, Nat.lt_succ_of_lt hok.2.1, hok.2.2⟩

/-- **A step of a producer** that does not write into a slot that is not its own. -/
theorem stepProducer (h : s.Invariant Capacity) (huncontended : s.Uncontended (.producer i))
    (hstep : s.stepProducer Capacity i = some s') : s'.Invariant Capacity := by
  have hok := h.producers i
  unfold State.stepProducer at hstep
  cases hpc : s.producers i with
  | idle =>
    rw [hpc] at hstep
    exact absurd hstep.symm (Option.some_ne_none _)
  | loadHead value =>
    rw [hpc] at hstep
    obtain rfl := Option.some.inj hstep
    exact h.move h.cache rfl trivial
  | testCache value current_head =>
    rw [hpc] at hstep
    dsimp only at hstep
    split_ifs at hstep with hfull
    · obtain rfl := Option.some.inj hstep
      exact h.move h.cache rfl trivial
    · obtain rfl := Option.some.inj hstep
      exact h.move h.cache rfl (room_of_not_full h.cache hfull)
  | loadTail value current_head =>
    rw [hpc] at hstep
    obtain rfl := Option.some.inj hstep
    exact h.move h.cache rfl (le_refl s.tail)
  | storeCache value current_head tail =>
    rw [hpc] at hstep hok
    obtain rfl := Option.some.inj hstep
    exact h.move hok rfl trivial
  | retestCache value current_head =>
    rw [hpc] at hstep
    dsimp only at hstep
    split_ifs at hstep with hfull
    · obtain rfl := Option.some.inj hstep
      exact h.move h.cache rfl trivial
    · obtain rfl := Option.some.inj hstep
      exact h.move h.cache rfl (room_of_not_full h.cache hfull)
  | write value current_head =>
    rw [hpc] at hstep hok
    simp only [State.Uncontended, hpc] at huncontended
    obtain ⟨rfl, hlt, hall⟩ := huncontended
    obtain rfl := Option.some.inj hstep
    exact h.write hlt (hok hlt) hall
  | storeHead value current_head =>
    rw [hpc] at hstep
    obtain rfl := Option.some.inj hstep
    exact h.storeHead hpc

/-! ## Steps of the consumer -/

omit [DecidableEq ι] in
/-- The consumer goes on without a change of the tail. -/
theorem moveConsumer (h : s.Invariant Capacity) {pc : Consumer α}
    (hok : s.ConsumerOk Capacity pc) :
    ({ s with consumer := pc } : State α ι).Invariant Capacity where
  head := h.head
  tail := h.tail
  head_lt := h.head_lt
  tail_le := h.tail_le
  room := h.room
  cache := h.cache
  fifo := h.fifo
  producers := h.producers
  distinct := h.distinct
  consumer := hok

omit [DecidableEq ι] in
/-- **A value is returned**, and the tail moves on. -/
theorem storeTail (h : s.Invariant Capacity) {value : α} {current_tail : ℕ}
    (hpc : s.consumer = .storeTail current_tail value) :
    ({ s with
      tail := (current_tail + 1) % 2 ^ 64
      consumer := .idle
      dequeued := s.dequeued ++ [value] } : State α ι).Invariant Capacity := by
  have hok := h.consumer
  rw [hpc] at hok
  obtain ⟨rfl, hlt, hvalue⟩ := hok
  have hhead := h.head_lt
  have hroom := h.room
  have hcache := h.cache
  rw [Nat.mod_eq_of_lt (by omega)]
  refine ⟨h.head, ?_, h.head_lt, hlt, ?_, ?_, ?_, ?_, h.distinct, trivial⟩
  · show s.tail + 1 = (s.dequeued ++ [value]).length
    rw [List.length_append, List.length_singleton, h.tail]
  · show s.head ≤ s.tail + 1 + Capacity.size
    omega
  · show s.cache_tail ≤ s.tail + 1
    omega
  · show s.published
      = s.dequeued ++ [value] ++ contents _ s.buffer (s.tail + 1) (s.head - (s.tail + 1))
    rw [h.fifo, show s.head - s.tail = s.head - (s.tail + 1) + 1 by omega, contents_cons, hvalue,
      List.append_assoc, List.singleton_append]
  · intro j
    have hok := h.producers j
    show State.ProducerOk Capacity _ (s.producers j)
    cases hpcj : s.producers j with
    | storeCache value current_head tail =>
      rw [hpcj] at hok
      exact Nat.le_succ_of_le hok
    | write value current_head =>
      rw [hpcj] at hok
      intro hlt
      have := hok hlt
      show current_head + 1 ≤ s.tail + 1 + Capacity.size
      omega
    | storeHead value current_head =>
      rw [hpcj] at hok
      obtain ⟨rfl, hlt, hfits, hx⟩ := hok
      refine ⟨rfl, hlt, ?_, hx⟩
      show s.head + 1 ≤ s.tail + 1 + Capacity.size
      omega
    | _ => trivial

omit [DecidableEq ι] in
/-- **A step of the consumer** keeps the invariant. -/
theorem stepConsumer (h : s.Invariant Capacity) : (s.stepConsumer Capacity).Invariant Capacity := by
  have hok := h.consumer
  unfold State.stepConsumer
  cases hpc : s.consumer with
  | idle => exact h.moveConsumer rfl
  | loadHead current_tail =>
    rw [hpc] at hok
    obtain rfl : current_tail = s.tail := hok
    dsimp only
    split_ifs with hempty
    · exact h.moveConsumer trivial
    · exact h.moveConsumer ⟨rfl, not_le.mp hempty⟩
  | read current_tail =>
    rw [hpc] at hok
    obtain ⟨rfl, hlt⟩ := hok
    exact h.moveConsumer ⟨rfl, hlt, by rw [Capacity.mask_eq_mod]⟩
  | storeTail current_tail value => exact h.storeTail hpc

/-- **A step** that is not a write into a slot that is not the producer's. -/
theorem next (h : s.Invariant Capacity) {a : Action α ι} (huncontended : s.Uncontended a)
    (hstep : Counter.next Capacity s a = some s') : s'.Invariant Capacity := by
  cases a with
  | enqueue i value =>
    have hstep : s.enqueue i value = some s' := hstep
    unfold State.enqueue at hstep
    cases hpc : s.producers i with
    | idle =>
      rw [hpc] at hstep
      obtain rfl := Option.some.inj hstep
      exact h.move h.cache rfl trivial
    | _ =>
      rw [hpc] at hstep
      exact absurd hstep.symm (Option.some_ne_none _)
  | producer i => exact h.stepProducer huncontended hstep
  | consumer =>
    obtain rfl := Option.some.inj hstep
    exact h.stepConsumer

end State.Invariant

variable [DecidableEq ι] [Inhabited α]

/-- **The queue is correct**, for any number of producers and any order of the steps, in every
run in which a producer writes only at the present head, below the last `size_t`, and when no
other producer has written there. -/
theorem correct_of_uncontended (h : (system α ι Capacity).ReachableBy State.Uncontended s) :
    s.Correct Capacity := by
  have hinvariant : s.Invariant Capacity := by
    apply h.invariant
    · rintro s rfl
      exact State.Invariant.start_invariant
    · intro s a s' hs huncontended hstep
      exact hs.next huncontended hstep
  exact hinvariant.correct

instance [Fintype ι] (s : State α ι) : DecidablePred s.Uncontended
  | .producer i => by
      unfold State.Uncontended
      dsimp only
      split <;> infer_instance
  | .enqueue _ _ => .isTrue trivial
  | .consumer => .isTrue trivial

/-! ## Two producers -/

/-- A queue of one slot. -/
def one : PowerOfTwo := ⟨0, by decide⟩

/-- The steps of `enqueue` up to the store of the head, when the cached tail will do. -/
def writeSteps (i : Bool) (value : ℕ) : List (Action ℕ Bool) :=
  .enqueue i value :: List.replicate 3 (.producer i)

/-- One producer fills the slot, the value is dequeued, and the other producer, which has to
load the tail, fills it again. -/
def twoValues : List (Action ℕ Bool) :=
  writeSteps false 1 ++ .producer false :: List.replicate 4 .consumer
    ++ writeSteps true 2 ++ List.replicate 4 (.producer true)

/-- The values stay in order. -/
theorem correct_twoValues :
    ∃ s, (system ℕ Bool one).ReachableBy State.Uncontended s ∧ s.published = [1, 2] ∧
      s.dequeued = [1] ∧ s.Correct one := by
  have hrun : ∃ s ∈ runFrom (next one) State.Uncontended start twoValues,
      s.published = [1, 2] ∧ s.dequeued = [1] := by decide +kernel
  obtain ⟨s, hreach, hpublished, hdequeued⟩ := exists_of_runFrom hrun
  exact ⟨s, hreach, hpublished, hdequeued, correct_of_uncontended hreach⟩

/-- Two producers read the same head, write the same slot and store the same head. -/
def sameSlot : List (Action ℕ Bool) :=
  writeSteps false 1 ++ writeSteps true 2 ++ [.producer false, .producer true]
    ++ List.replicate 4 .consumer

/-- **Two values are accepted, and one comes out**: the other is overwritten. -/
theorem not_correct_sameSlot :
    ∃ s, (system ℕ Bool one).Reachable s ∧ s.published = [1, 2] ∧ s.dequeued = [2] ∧
      ¬ s.Correct one := by
  have hrun : ∃ s ∈ runFrom (next one) (fun _ _ => True) (start : State ℕ Bool) sameSlot,
      s.published = [1, 2] ∧ s.dequeued = [2] := by decide +kernel
  obtain ⟨s, hreach, hpublished, hdequeued⟩ := exists_of_runFrom hrun
  refine ⟨s, hreach, hpublished, hdequeued, fun hcorrect => ?_⟩
  have hfifo := hcorrect.fifo
  rw [hpublished, hdequeued] at hfifo
  exact absurd (List.cons.inj hfifo).1 (by decide)

end MPSCQueue.Counter
