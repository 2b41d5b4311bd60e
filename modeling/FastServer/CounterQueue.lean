/-
# The queue with free-running counters

The `SPSCQueue` with the counters `head` of the producer and `tail` of the consumer, which are
only reduced to a slot of the buffer when the slot is used.  `enqueue` compares the difference
of the counters with the capacity, `dequeue` compares the counters themselves.  A `size_t` has
any number of bits here.
-/
import FastServer.BoundedFifo
import FastServer.Ring
import FastServer.TransitionSystem

namespace SPSCQueue.Counter

open Ring TransitionSystem BoundedFifo

variable {α : Type}

/-! ## Counters -/

/-- The number of bits of a `size_t`, and a capacity that is a power of two and fits. -/
structure Sizes where
  width : ℕ
  bits : ℕ
  bits_lt : bits < width

namespace Sizes

variable (N : Sizes)

/-- The values of a `size_t`. -/
def word : ℕ := 2 ^ N.width

def capacity : ℕ := 2 ^ N.bits

/-- `a - b`. -/
def sub (a b : ℕ) : ℕ := (a + N.word - b) % N.word

/-- `a & (capacity - 1)`. -/
def mask (a : ℕ) : ℕ := a &&& (N.capacity - 1)

theorem capacity_pos : 0 < N.capacity := Nat.two_pow_pos _

theorem capacity_lt : N.capacity < N.word := Nat.pow_lt_pow_right (by decide) N.bits_lt

/-- A counter is in the slot of its position. -/
theorem mask_mod (p : ℕ) : N.mask (p % N.word) = p % N.capacity := by
  rw [mask, capacity, Nat.and_two_pow_sub_one_eq_mod]
  exact Nat.mod_mod_of_dvd p (Nat.pow_dvd_pow 2 (le_of_lt N.bits_lt))

/-- The difference of the counters of two positions. -/
theorem sub_mod (p n : ℕ) : N.sub ((p + n) % N.word) (p % N.word) = n % N.word := by
  have hlt : p % N.word < N.word := Nat.mod_lt _ (Nat.two_pow_pos _)
  have hsum : (p + n) % N.word + N.word - p % N.word
      = (p + n) % N.word + (N.word - p % N.word) := by omega
  have hsplit : p + n + (N.word - p % N.word) = n + N.word * (p / N.word + 1) := by
    have hdiv := Nat.div_add_mod p N.word
    rw [Nat.mul_succ]
    omega
  rw [sub, hsum, Nat.mod_add_mod, hsplit, Nat.add_mul_mod_self_left]

end Sizes

/-! ## State -/

/-- Where the producer stands in `enqueue`: about to load the head, to compare the next one
with the tail, to write the value, or to store the head. -/
inductive Producer (α : Type)
  | idle
  | loadHead (value : α)
  | loadTail (value : α) (current_head : ℕ)
  | write (value : α) (current_head : ℕ)
  | storeHead (value : α) (current_head : ℕ)

/-- Where the consumer stands in `dequeue`: about to compare the tail with the head, to read
the value, or to store the tail. -/
inductive Consumer (α : Type)
  | idle
  | loadHead (current_tail : ℕ)
  | read (current_tail : ℕ)
  | storeTail (current_tail : ℕ) (value : α)

/-- The buffer, the counters and the two threads.  What the calls were answered so far is
history. -/
structure State (α : Type) where
  buffer : ℕ → α
  head : ℕ
  tail : ℕ
  producer : Producer α
  consumer : Consumer α
  answers : List (Answer α)

/-- The constructor has run. -/
def start [Inhabited α] : State α where
  buffer := fun _ => default
  head := 0
  tail := 0
  producer := .idle
  consumer := .idle
  answers := []

/-! ## Steps -/

variable (N : Sizes)

/-- `current_head + 1`. -/
def succ (current_head : ℕ) : ℕ := (current_head + 1) % N.word

/-- The next step of `enqueue`. -/
def State.stepProducer (s : State α) : Option (State α) :=
  match s.producer with
  | .idle => none
  | .loadHead value => some { s with producer := .loadTail value s.head }
  | .loadTail value current_head =>
      if N.sub (succ N current_head) s.tail > N.capacity then
        -- the queue is full
        some { s with producer := .idle, answers := s.answers ++ [.full] }
      else some { s with producer := .write value current_head }
  | .write value current_head =>
      some { s with
        buffer := Function.update s.buffer (N.mask current_head) value
        producer := .storeHead value current_head }
  | .storeHead value current_head =>
      some { s with
        head := succ N current_head
        producer := .idle
        answers := s.answers ++ [.enqueued value] }

/-- The next step of `dequeue`; a new call starts with the load of the tail. -/
def State.stepConsumer (s : State α) : State α :=
  match s.consumer with
  | .idle => { s with consumer := .loadHead s.tail }
  | .loadHead current_tail =>
      if current_tail ≥ s.head then
        -- the queue is empty
        { s with consumer := .idle, answers := s.answers ++ [.empty] }
      else { s with consumer := .read current_tail }
  | .read current_tail =>
      { s with consumer := .storeTail current_tail (s.buffer (N.mask current_tail)) }
  | .storeTail current_tail value =>
      { s with
        tail := succ N current_tail
        consumer := .idle
        answers := s.answers ++ [.dequeued value] }

/-- A call of `enqueue`, or a step of one of the threads. -/
inductive Action (α : Type)
  | enqueue (value : α)
  | producer
  | consumer

/-- A call of `enqueue` by a producer that is not in one. -/
def State.enqueue (s : State α) (value : α) : Option (State α) :=
  match s.producer with
  | .idle => some { s with producer := .loadHead value }
  | _ => none

/-- The state after a step, if it is enabled. -/
def next (s : State α) : Action α → Option (State α)
  | .enqueue value => s.enqueue value
  | .producer => s.stepProducer N
  | .consumer => some (s.stepConsumer N)

variable (α) in
/-- The producer and the consumer of a queue. -/
def system [Inhabited α] : TransitionSystem (State α) (Action α) :=
  TransitionSystem.ofFunction start (next N)

/-! ## What should hold -/

/-- **What the queue promises.**  It answers as a bounded queue with the places of the buffer,
and what is returned was accepted, in the same order. -/
structure State.Correct (s : State α) : Prop where
  fifo : ∃ items, Trace N.capacity s.answers items
  order : returned s.answers <+: accepted s.answers

/-- The step is not a comparison of counters of which one has wrapped too far: the consumer
does not find the head behind the tail, and the producer does not find the tail where the next
head is. -/
def State.Unwrapped (s : State α) : Action α → Prop
  | .producer =>
      match s.producer with
      | .loadTail _ current_head => succ N current_head ≠ s.tail
      | _ => True
  | .consumer =>
      match s.consumer with
      | .loadHead current_tail => current_tail ≤ s.head
      | _ => True
  | .enqueue _ => True

instance (s : State α) : DecidablePred (s.Unwrapped N)
  | .producer => by
      unfold State.Unwrapped
      dsimp only
      split <;> infer_instance
  | .consumer => by
      unfold State.Unwrapped
      dsimp only
      split <;> infer_instance
  | .enqueue _ => .isTrue trivial

/-! ## The invariant -/

/-- What a producer at `pc` knows when the queue holds `items` from position `first` on. -/
def State.ProducerOk (s : State α) (first : ℕ) (items : List α) : Producer α → Prop
  | .loadTail _ current_head => current_head = (first + items.length) % N.word
  | .write _ current_head =>
      current_head = (first + items.length) % N.word ∧ items.length < N.capacity
  | .storeHead value current_head =>
      current_head = (first + items.length) % N.word ∧ items.length < N.capacity ∧
        s.buffer ((first + items.length) % N.capacity) = value
  | _ => True

/-- What a consumer at `pc` knows when the queue holds `items` from position `first` on. -/
def ConsumerOk (first : ℕ) (items : List α) : Consumer α → Prop
  | .idle => True
  | .loadHead current_tail => current_tail = first % N.word
  | .read current_tail => current_tail = first % N.word ∧ items ≠ []
  | .storeTail current_tail value =>
      current_tail = first % N.word ∧ ∃ rest, items = value :: rest

/-- The queue holds `items` from position `first` on, and the counters count positions. -/
structure State.Holds (s : State α) (first : ℕ) (items : List α) : Prop where
  head : s.head = (first + items.length) % N.word
  tail : s.tail = first % N.word
  stored : contents N.capacity s.buffer first items.length = items
  answers : Trace N.capacity s.answers items
  producer : s.ProducerOk N first items s.producer
  consumer : ConsumerOk N first items s.consumer

variable {N} {s s' : State α} {first : ℕ} {items : List α}

namespace State.Holds

/-- **The invariant is what the queue promises.** -/
theorem correct (h : s.Holds N first items) : s.Correct N :=
  ⟨⟨items, h.answers⟩, h.answers.returned_prefix⟩

/-- The empty queue. -/
theorem start_holds [Inhabited α] : (start : State α).Holds N 0 [] where
  head := (Nat.zero_mod _).symm
  tail := (Nat.zero_mod _).symm
  stored := rfl
  answers := .nil
  producer := trivial
  consumer := trivial

/-- The counters of different positions of the queue differ. -/
theorem eq_nil_iff (h : s.Holds N first items) : s.head = s.tail ↔ items = [] := by
  have hroom := h.answers.length_le
  have hcapacity := N.capacity_lt
  rw [h.head, h.tail]
  constructor
  · intro hmod
    have heq := eq_of_mod_eq hmod (by omega) (by omega)
    exact List.eq_nil_of_length_eq_zero (by omega)
  · rintro rfl
    rfl

/-! ## Steps of the producer -/

/-- A producer goes on without a change of the buffer and the counters. -/
theorem moveProducer (h : s.Holds N first items) (pc : Producer α)
    (hok : s.ProducerOk N first items pc) :
    ({ s with producer := pc } : State α).Holds N first items :=
  { h with producer := hok }

/-- **The difference of the counters is the number of items**, with the one to come. -/
theorem sub_eq (h : s.Holds N first items) {current_head : ℕ}
    (hhead : current_head = (first + items.length) % N.word)
    (hne : succ N current_head ≠ s.tail) :
    N.sub (succ N current_head) s.tail = items.length + 1 := by
  have hroom := h.answers.length_le
  have hcapacity := N.capacity_lt
  have hsucc : succ N current_head = (first + (items.length + 1)) % N.word := by
    rw [hhead, succ, Nat.mod_add_mod, Nat.add_assoc]
  have hlt : items.length + 1 < N.word := by
    by_contra hge
    apply hne
    rw [hsucc, h.tail, show items.length + 1 = N.word by omega, Nat.add_mod_right]
  rw [hsucc, h.tail, N.sub_mod, Nat.mod_eq_of_lt hlt]

/-- **A value is written** into the slot at the head. -/
theorem write (h : s.Holds N first items) {value : α} {current_head : ℕ}
    (hpc : s.producer = .write value current_head) :
    ({ s with
      buffer := Function.update s.buffer (N.mask current_head) value
      producer := .storeHead value current_head } : State α).Holds N first items := by
  have hok := h.producer
  rw [hpc] at hok
  obtain ⟨rfl, hroom⟩ := hok
  rw [N.mask_mod]
  refine ⟨h.head, h.tail, ?_, h.answers, ⟨rfl, hroom, Function.update_self ..⟩, h.consumer⟩
  exact (contents_update hroom value).trans h.stored

/-- **A value is accepted**: the head moves on. -/
theorem storeHead (h : s.Holds N first items) {value : α} {current_head : ℕ}
    (hpc : s.producer = .storeHead value current_head) :
    ({ s with
      head := succ N current_head
      producer := .idle
      answers := s.answers ++ [.enqueued value] } : State α).Holds N first
        (items ++ [value]) := by
  have hok := h.producer
  rw [hpc] at hok
  obtain ⟨rfl, hroom, hvalue⟩ := hok
  refine ⟨?_, h.tail, ?_, h.answers.concat (.enqueued value hroom), trivial, ?_⟩
  · show succ N _ = _
    rw [succ, Nat.mod_add_mod, List.length_append, List.length_singleton, Nat.add_assoc]
  · show contents _ s.buffer first _ = _
    rw [List.length_append, List.length_singleton, contents_succ, h.stored, hvalue]
  · have hok := h.consumer
    show ConsumerOk N first _ s.consumer
    cases hc : s.consumer with
    | read current_tail =>
      rw [hc] at hok
      exact ⟨hok.1, by simp⟩
    | storeTail current_tail x =>
      rw [hc] at hok
      obtain ⟨htail, rest, rfl⟩ := hok
      exact ⟨htail, rest ++ [value], rfl⟩
    | _ =>
      rw [hc] at hok
      exact hok

/-- **A step of the producer** that does not compare counters of which one has wrapped. -/
theorem stepProducer (h : s.Holds N first items) (hunwrapped : s.Unwrapped N .producer)
    (hstep : s.stepProducer N = some s') : ∃ items', s'.Holds N first items' := by
  have hok := h.producer
  unfold State.stepProducer at hstep
  unfold State.Unwrapped at hunwrapped
  cases hpc : s.producer with
  | idle =>
    rw [hpc] at hstep
    exact absurd hstep.symm (Option.some_ne_none _)
  | loadHead value =>
    rw [hpc] at hstep
    obtain rfl := Option.some.inj hstep
    exact ⟨items, h.moveProducer (.loadTail value _) h.head⟩
  | loadTail value current_head =>
    rw [hpc] at hstep hok
    simp only [hpc] at hunwrapped
    have hroom := h.answers.length_le
    dsimp only at hstep
    rw [h.sub_eq hok hunwrapped] at hstep
    split_ifs at hstep with hfull
    · obtain rfl := Option.some.inj hstep
      have hidle := h.moveProducer .idle trivial
      exact ⟨items, { hidle with answers := h.answers.concat (.full (by omega)) }⟩
    · obtain rfl := Option.some.inj hstep
      exact ⟨items, h.moveProducer (.write value _) ⟨hok, by omega⟩⟩
  | write value current_head =>
    rw [hpc] at hstep
    obtain rfl := Option.some.inj hstep
    exact ⟨items, h.write hpc⟩
  | storeHead value current_head =>
    rw [hpc] at hstep
    obtain rfl := Option.some.inj hstep
    exact ⟨items ++ [value], h.storeHead hpc⟩

/-! ## Steps of the consumer -/

/-- A consumer goes on without a change of the buffer and the counters. -/
theorem moveConsumer (h : s.Holds N first items) (pc : Consumer α)
    (hok : ConsumerOk N first items pc) :
    ({ s with consumer := pc } : State α).Holds N first items :=
  { h with consumer := hok }

/-- **The first value is returned**: the tail moves on. -/
theorem storeTail (h : s.Holds N first items) {value : α} {current_tail : ℕ}
    (hpc : s.consumer = .storeTail current_tail value) :
    ∃ rest, ({ s with
      tail := succ N current_tail
      consumer := .idle
      answers := s.answers ++ [.dequeued value] } : State α).Holds N (first + 1) rest := by
  have hok := h.consumer
  have hstored := h.stored
  rw [hpc] at hok
  obtain ⟨rfl, rest, rfl⟩ := hok
  rw [List.length_cons, contents_cons] at hstored
  have hback : first + 1 + rest.length = first + (value :: rest).length := by
    rw [List.length_cons]
    omega
  refine ⟨rest, ?_, ?_, (List.cons.inj hstored).2, h.answers.concat (.dequeued value rest), ?_,
    trivial⟩
  · rw [hback]
    exact h.head
  · show succ N _ = _
    rw [succ, Nat.mod_add_mod]
  · have hok := h.producer
    show State.ProducerOk N _ (first + 1) rest s.producer
    cases hc : s.producer with
    | loadTail x current_head =>
      rw [hc] at hok
      exact hok.trans (by rw [hback])
    | write x current_head =>
      rw [hc] at hok
      exact ⟨hok.1.trans (by rw [hback]), Nat.lt_of_succ_lt hok.2⟩
    | storeHead x current_head =>
      rw [hc] at hok
      refine ⟨hok.1.trans (by rw [hback]), Nat.lt_of_succ_lt hok.2.1, ?_⟩
      rw [hback]
      exact hok.2.2
    | _ => trivial

/-- **A step of the consumer** that does not compare counters of which one has wrapped. -/
theorem stepConsumer (h : s.Holds N first items) (hunwrapped : s.Unwrapped N .consumer) :
    ∃ first' items', (s.stepConsumer N).Holds N first' items' := by
  have hok := h.consumer
  unfold State.stepConsumer
  unfold State.Unwrapped at hunwrapped
  cases hpc : s.consumer with
  | idle => exact ⟨first, items, h.moveConsumer (.loadHead _) h.tail⟩
  | loadHead current_tail =>
    rw [hpc] at hok
    simp only [hpc] at hunwrapped
    have htail : current_tail = s.tail := hok.trans h.tail.symm
    dsimp only
    split_ifs with hempty
    · have hnil : items = [] := h.eq_nil_iff.mp (by omega)
      subst hnil
      have hidle := h.moveConsumer .idle trivial
      exact ⟨first, [], { hidle with answers := h.answers.concat .empty }⟩
    · refine ⟨first, items, h.moveConsumer (.read _) ⟨hok, fun hnil => ?_⟩⟩
      have heq := h.eq_nil_iff.mpr hnil
      omega
  | read current_tail =>
    rw [hpc] at hok
    obtain ⟨rfl, hne⟩ := hok
    obtain ⟨value, rest, rfl⟩ := List.exists_cons_of_ne_nil hne
    have hstored := h.stored
    rw [List.length_cons, contents_cons] at hstored
    refine ⟨first, value :: rest, h.moveConsumer (.storeTail _ _) ⟨rfl, rest, ?_⟩⟩
    rw [N.mask_mod, (List.cons.inj hstored).1]
  | storeTail current_tail value =>
    obtain ⟨rest, hrest⟩ := h.storeTail hpc
    exact ⟨first + 1, rest, hrest⟩

/-- **A consumer that finds the head behind the tail** says that the queue is empty, and it is
not. -/
theorem not_correct_stepConsumer (h : s.Holds N first items) {current_tail : ℕ}
    (hpc : s.consumer = .loadHead current_tail) (hlt : s.head < current_tail) :
    ¬ (s.stepConsumer N).Correct N := by
  have hok := h.consumer
  rw [hpc] at hok
  have htail : current_tail = s.tail := hok.trans h.tail.symm
  have hstep : s.stepConsumer N
      = { s with consumer := .idle, answers := s.answers ++ [.empty] } := by
    unfold State.stepConsumer
    rw [hpc]
    exact if_pos (le_of_lt hlt)
  rw [hstep]
  rintro ⟨⟨items', htrace⟩, -⟩
  have hnil : items = [] := by
    have hall := h.answers.accepted_eq
    rw [htrace.all_returned] at hall
    exact List.append_right_eq_self.mp hall.symm
  have heq := h.eq_nil_iff.mpr hnil
  omega

/-! ## Runs -/

/-- **A step** that does not compare counters of which one has wrapped. -/
theorem next (h : s.Holds N first items) {a : Action α} (hunwrapped : s.Unwrapped N a)
    (hstep : Counter.next N s a = some s') : ∃ first' items', s'.Holds N first' items' := by
  cases a with
  | enqueue value =>
    have hstep : s.enqueue value = some s' := hstep
    unfold State.enqueue at hstep
    cases hpc : s.producer with
    | idle =>
      rw [hpc] at hstep
      obtain rfl := Option.some.inj hstep
      exact ⟨first, items, h.moveProducer (.loadHead value) trivial⟩
    | _ =>
      rw [hpc] at hstep
      exact absurd hstep.symm (Option.some_ne_none _)
  | producer =>
    obtain ⟨items', h'⟩ := h.stepProducer hunwrapped hstep
    exact ⟨first, items', h'⟩
  | consumer =>
    obtain rfl := Option.some.inj hstep
    exact h.stepConsumer hunwrapped

end State.Holds

variable [Inhabited α]

theorem exists_holds (h : (system α N).ReachableBy (State.Unwrapped N) s) :
    ∃ first items, s.Holds N first items := by
  apply h.invariant
  · rintro s rfl
    exact ⟨0, [], State.Holds.start_holds⟩
  · rintro s a s' ⟨first, items, hs⟩ hunwrapped hstep
    exact hs.next hunwrapped hstep

/-- **The queue is correct**, for every size of the counters, every capacity and any order of
the steps, in every run in which the consumer never finds the head behind the tail, and the
producer never finds the tail where the next head is. -/
theorem correct_of_unwrapped (h : (system α N).ReachableBy (State.Unwrapped N) s) :
    s.Correct N := by
  obtain ⟨first, items, hholds⟩ := exists_holds h
  exact hholds.correct

/-! ## Rounds -/

/-- A value is enqueued and dequeued. -/
def round (value : α) : List (Action α) :=
  Action.enqueue value :: List.replicate 4 Action.producer ++ List.replicate 4 Action.consumer

/-- Both threads are between two calls, and the queue is empty. -/
def rest (buffer : ℕ → α) (count : ℕ) (answers : List (Answer α)) : State α where
  buffer := buffer
  head := count
  tail := count
  producer := .idle
  consumer := .idle
  answers := answers

omit [Inhabited α] in
/-- Neither comparison is wrong as long as the counters do not wrap. -/
theorem runFrom_round (buffer : ℕ → α) {count : ℕ} (answers : List (Answer α)) (value : α)
    (hlt : count + 1 < N.word) :
    runFrom (next N) (State.Unwrapped N) (rest buffer count answers) (round value)
      = some (rest (Function.update buffer (N.mask count) value) (count + 1)
          (answers ++ [.enqueued value] ++ [.dequeued value])) := by
  have hsucc : succ N count = count + 1 := Nat.mod_eq_of_lt hlt
  have hroom : ¬ N.capacity < N.sub (count + 1) count := by
    have hmod := N.sub_mod count 1
    have hpos := N.capacity_pos
    rw [Nat.mod_eq_of_lt hlt, Nat.mod_eq_of_lt (by omega), Nat.mod_eq_of_lt (by omega)] at hmod
    omega
  simp [round, rest, runFrom, next, State.enqueue, State.stepProducer, State.stepConsumer,
    State.Unwrapped, hsucc, hroom]

/-- Any number of values below the last one of a `size_t` can be enqueued and dequeued. -/
theorem reachable_rest (count : ℕ) (hlt : count < N.word) :
    ∃ buffer answers,
      (system α N).ReachableBy (State.Unwrapped N) (rest buffer count answers) := by
  induction count with
  | zero => exact ⟨fun _ => default, [], .init rfl⟩
  | succ count ih =>
    obtain ⟨buffer, answers, hreach⟩ := ih (Nat.lt_of_succ_lt hlt)
    exact ⟨_, _, .of_runFrom hreach (runFrom_round buffer answers default hlt)⟩

/-! ## The last value of a `size_t` -/

/-- A value is enqueued, and the consumer has loaded the tail. -/
def enqueueLast (value : α) : List (Action α) :=
  Action.enqueue value :: List.replicate 4 Action.producer ++ [Action.consumer]

omit [Inhabited α] in
/-- The head wraps around. -/
theorem runFrom_enqueueLast (buffer : ℕ → α) (answers : List (Answer α)) (value : α) :
    runFrom (next N) (State.Unwrapped N) (rest buffer (N.word - 1) answers) (enqueueLast value)
      = some
        { buffer := Function.update buffer (N.mask (N.word - 1)) value
          head := 0
          tail := N.word - 1
          producer := .idle
          consumer := .loadHead (N.word - 1)
          answers := answers ++ [.enqueued value] } := by
  have hpos := N.capacity_pos
  have hcapacity := N.capacity_lt
  have hlast : N.word - 1 + 1 = N.word := by omega
  have hsucc : succ N (N.word - 1) = 0 := by rw [succ, hlast, Nat.mod_self]
  have hne : ¬ 0 = N.word - 1 := by omega
  have hroom : ¬ N.capacity < N.sub 0 (N.word - 1) := by
    have hmod := N.sub_mod (N.word - 1) 1
    rw [hlast, Nat.mod_self, Nat.mod_eq_of_lt (by omega), Nat.mod_eq_of_lt (by omega)] at hmod
    omega
  simp [enqueueLast, rest, runFrom, next, State.enqueue, State.stepProducer, State.stepConsumer,
    State.Unwrapped, hsucc, hne, hroom]

/-- **The value behind the last one of a `size_t` is lost**: for all sizes, there is a run in
which it is accepted and the next `dequeue` finds nothing. -/
theorem exists_lost (N : Sizes) :
    ∃ s answers, (system α N).Reachable s ∧
      s.answers = answers ++ [Answer.enqueued default] ++ [Answer.empty] ∧ ¬ s.Correct N := by
  have hlt : N.word - 1 < N.word := Nat.sub_lt (Nat.two_pow_pos _) Nat.one_pos
  obtain ⟨buffer, answers, hrest⟩ := @reachable_rest α N _ (N.word - 1) hlt
  have hreach := hrest.of_runFrom (runFrom_enqueueLast buffer answers default)
  obtain ⟨first, items, hholds⟩ := exists_holds hreach
  have hcapacity := N.capacity_lt
  have hpos := N.capacity_pos
  have hbehind : 0 < N.word - 1 := by omega
  refine ⟨_, answers, .step (a := .consumer) hreach.reachable trivial rfl, ?_,
    hholds.not_correct_stepConsumer rfl hbehind⟩
  simp [State.stepConsumer]

/-! ## Counters of two bits, and of 64 -/

/-- A buffer of two slots, and counters up to three. -/
def twoBits : Sizes := ⟨2, 1, by decide⟩

/-- The buffer is filled and emptied, up to the last value of the counters. -/
def threeValues : List (Action ℕ) :=
  Action.enqueue 1 :: List.replicate 4 Action.producer
    ++ Action.enqueue 2 :: List.replicate 4 Action.producer
    ++ Action.enqueue 3 :: List.replicate 2 Action.producer ++ List.replicate 8 Action.consumer
    ++ Action.enqueue 4 :: List.replicate 4 Action.producer ++ List.replicate 6 Action.consumer

/-- The queue answers as it should. -/
theorem correct_threeValues :
    ∃ s, (system ℕ twoBits).ReachableBy (State.Unwrapped twoBits) s ∧
      s.answers = [.enqueued 1, .enqueued 2, .full, .dequeued 1, .dequeued 2, .enqueued 4,
        .dequeued 4, .empty] ∧ s.Correct twoBits := by
  have hrun : ∃ s ∈ runFrom (next twoBits) (State.Unwrapped twoBits) start threeValues,
      s.answers = [.enqueued 1, .enqueued 2, .full, .dequeued 1, .dequeued 2, .enqueued 4,
        .dequeued 4, .empty] := by decide +kernel
  obtain ⟨s, hreach, hanswers⟩ := exists_of_runFrom hrun
  exact ⟨s, hreach, hanswers, correct_of_unwrapped hreach⟩

/-- 1024 slots, and a `size_t` of 64 bits. -/
def sixtyFourBits : Sizes := ⟨64, 10, by decide⟩

/-- **A value is accepted, and `dequeue` says that there is none.** -/
theorem not_correct_sixtyFourBits :
    ∃ s answers, (system ℕ sixtyFourBits).Reachable s ∧
      s.answers = answers ++ [.enqueued 0] ++ [.empty] ∧ ¬ s.Correct sixtyFourBits :=
  exists_lost sixtyFourBits

end SPSCQueue.Counter
