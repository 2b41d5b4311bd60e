/-
# The ring buffer of one producer and one consumer

`SPSCRingBuffer`: 64-bit counters that are only masked when a slot is used.  `push` compares
their difference with the size, `pop` compares the counters themselves, and both comparisons
survive the wrap.  The queue is used by `test_SPSC`, whose two threads call it until it does
what they ask.
-/
import FastServer.BoundedFifo
import FastServer.MachineInt
import FastServer.Ring
import FastServer.TransitionSystem

namespace SPSCRingBuffer

open Ring TransitionSystem BoundedFifo

variable {α : Type}

/-! ## State -/

/-- Where `push` stands: about to load the tail, to load the head and compare, to write the
item, or to store the tail. -/
inductive Producer (α : Type)
  | idle
  | loadTail (item : α)
  | loadHead (item : α) (current_tail : ℕ)
  | write (item : α) (current_tail : ℕ)
  | storeTail (item : α) (current_tail : ℕ)

/-- Where `pop` stands: about to load the head, to load the tail and compare, to read the item,
or to store the head. -/
inductive Consumer (α : Type)
  | idle
  | loadHead
  | loadTail (current_head : ℕ)
  | read (current_head : ℕ)
  | storeHead (current_head : ℕ) (item : α)

/-- The buffer, the counters and the two threads.  What the calls were answered so far is
history. -/
structure State (α : Type) where
  buffer_ : ℕ → α
  head_ : ℕ
  tail_ : ℕ
  producer : Producer α
  consumer : Consumer α
  answers : List (Answer α)

/-- The constructor has run; the buffer holds whatever was in its memory. -/
def start (memory : ℕ → α) : State α := ⟨memory, 0, 0, .idle, .idle, []⟩

/-! ## Steps -/

variable (N : PowerOfTwo)

/-- The next step of `push`, with what it returns if it does. -/
def State.stepPush (s : State α) : Option (State α × Option Bool) :=
  match s.producer with
  | .idle => none
  | .loadTail item => some ({ s with producer := .loadHead item s.tail_ }, none)
  | .loadHead item current_tail =>
      if subU64 ((current_tail + 1) % 2 ^ 64) s.head_ > N.size then
        some ({ s with producer := .idle, answers := s.answers ++ [.full] }, some false)
      else some ({ s with producer := .write item current_tail }, none)
  | .write item current_tail =>
      some ({ s with
        buffer_ := Function.update s.buffer_ (N.mask current_tail) item
        producer := .storeTail item current_tail }, none)
  | .storeTail item current_tail =>
      some ({ s with
        tail_ := (current_tail + 1) % 2 ^ 64
        producer := .idle
        answers := s.answers ++ [.enqueued item] }, some true)

/-- The next step of `pop`, with what it returns and the item if it does. -/
def State.stepPop (s : State α) : Option (State α × Option (Option α)) :=
  match s.consumer with
  | .idle => none
  | .loadHead => some ({ s with consumer := .loadTail s.head_ }, none)
  | .loadTail current_head =>
      if current_head = s.tail_ then
        some ({ s with consumer := .idle, answers := s.answers ++ [.empty] }, some none)
      else some ({ s with consumer := .read current_head }, none)
  | .read current_head =>
      some ({ s with
        consumer := .storeHead current_head (s.buffer_ (N.mask current_head)) }, none)
  | .storeHead current_head item =>
      some ({ s with
        head_ := (current_head + 1) % 2 ^ 64
        consumer := .idle
        answers := s.answers ++ [.dequeued item] }, some (some item))

/-- A call, or a step of one of the threads. -/
inductive Action (α : Type)
  | push (item : α)
  | pop
  | producer
  | consumer

/-- A thread that is not in a call makes one. -/
def State.push (s : State α) (item : α) : Option (State α) :=
  match s.producer with
  | .idle => some { s with producer := .loadTail item }
  | _ => none

def State.pop (s : State α) : Option (State α) :=
  match s.consumer with
  | .idle => some { s with consumer := .loadHead }
  | _ => none

/-- The state after a step, if it is enabled. -/
def next (s : State α) : Action α → Option (State α)
  | .push item => s.push item
  | .pop => s.pop
  | .producer => (s.stepPush N).map Prod.fst
  | .consumer => (s.stepPop N).map Prod.fst

/-- A producer and a consumer that call the queue as they like. -/
def system (memory : ℕ → α) : TransitionSystem (State α) (Action α) :=
  TransitionSystem.ofFunction (start memory) (next N)

/-! ## The invariant -/

/-- What a producer knows when the queue holds `items` from position `first` on. -/
def State.ProducerOk (s : State α) (first : ℕ) (items : List α) : Producer α → Prop
  | .loadHead _ current_tail => current_tail = (first + items.length) % 2 ^ 64
  | .write _ current_tail =>
      current_tail = (first + items.length) % 2 ^ 64 ∧ items.length < N.size
  | .storeTail item current_tail =>
      current_tail = (first + items.length) % 2 ^ 64 ∧ items.length < N.size ∧
        s.buffer_ ((first + items.length) % N.size) = item
  | _ => True

/-- What a consumer knows when the queue holds `items` from position `first` on. -/
def ConsumerOk (first : ℕ) (items : List α) : Consumer α → Prop
  | .loadTail current_head => current_head = first % 2 ^ 64
  | .read current_head => current_head = first % 2 ^ 64 ∧ items ≠ []
  | .storeHead current_head item =>
      current_head = first % 2 ^ 64 ∧ ∃ rest, items = item :: rest
  | _ => True

/-- The queue holds `items` from position `first` on, and the counters count positions. -/
structure State.Holds (s : State α) (first : ℕ) (items : List α) : Prop where
  tail : s.tail_ = (first + items.length) % 2 ^ 64
  head : s.head_ = first % 2 ^ 64
  stored : contents N.size s.buffer_ first items.length = items
  answers : Trace N.size s.answers items
  producer : s.ProducerOk N first items s.producer
  consumer : ConsumerOk first items s.consumer

variable {N} {s s' : State α} {first : ℕ} {items : List α}

namespace State.Holds

/-- The empty queue. -/
theorem start_holds (memory : ℕ → α) : (start memory).Holds N 0 [] where
  tail := rfl
  head := rfl
  stored := rfl
  answers := .nil
  producer := trivial
  consumer := trivial

/-- The number of items is a difference of counters. -/
theorem sub_eq (h : s.Holds N first items) : subU64 s.tail_ s.head_ = items.length := by
  have hlength := h.answers.length_le
  have hsize := N.size_le
  rw [h.tail, h.head, subU64_mod, Nat.mod_eq_of_lt (by omega)]

/-- **The test for a full queue** is right on both sides of the wrap. -/
theorem full_iff (h : s.Holds N first items) :
    subU64 (((first + items.length) % 2 ^ 64 + 1) % 2 ^ 64) s.head_ > N.size ↔
      items.length = N.size := by
  have hlength := h.answers.length_le
  have hsize := N.size_le
  rw [Nat.mod_add_mod, Nat.add_assoc, h.head, subU64_mod, Nat.mod_eq_of_lt (by omega)]
  omega

/-- **The test for an empty queue** is right on both sides of the wrap. -/
theorem empty_iff (h : s.Holds N first items) : first % 2 ^ 64 = s.tail_ ↔ items = [] := by
  have hlength := h.answers.length_le
  have hsize := N.size_le
  rw [h.tail, ← List.length_eq_zero_iff]
  constructor
  · intro hmod
    have := eq_of_mod_eq hmod (by omega) (by omega)
    omega
  · intro hzero
    rw [hzero, Nat.add_zero]

/-! ## Steps of the producer -/

/-- A producer goes on without a change of the buffer and the counters. -/
theorem moveProducer (h : s.Holds N first items) (pc : Producer α)
    (hok : s.ProducerOk N first items pc) :
    ({ s with producer := pc } : State α).Holds N first items :=
  { h with producer := hok }

/-- **An item is written** into the slot behind the items. -/
theorem write (h : s.Holds N first items) {item : α} {current_tail : ℕ}
    (hpc : s.producer = .write item current_tail) :
    ({ s with
      buffer_ := Function.update s.buffer_ (N.mask current_tail) item
      producer := .storeTail item current_tail } : State α).Holds N first items := by
  have hok := h.producer
  rw [hpc] at hok
  obtain ⟨rfl, hroom⟩ := hok
  rw [N.mask_mod]
  refine ⟨h.tail, h.head, ?_, h.answers, ⟨rfl, hroom, Function.update_self ..⟩, h.consumer⟩
  exact (contents_update hroom item).trans h.stored

/-- **An item is accepted**: the tail moves on. -/
theorem storeTail (h : s.Holds N first items) {item : α} {current_tail : ℕ}
    (hpc : s.producer = .storeTail item current_tail) :
    ({ s with
      tail_ := (current_tail + 1) % 2 ^ 64
      producer := .idle
      answers := s.answers ++ [.enqueued item] } : State α).Holds N first (items ++ [item]) := by
  have hok := h.producer
  rw [hpc] at hok
  obtain ⟨rfl, hroom, hitem⟩ := hok
  refine ⟨?_, h.head, ?_, h.answers.concat (.enqueued item hroom), trivial, ?_⟩
  · show (_ % 2 ^ 64 + 1) % 2 ^ 64 = _
    rw [Nat.mod_add_mod, List.length_append, List.length_singleton, Nat.add_assoc]
  · show contents _ s.buffer_ first _ = _
    rw [List.length_append, List.length_singleton, contents_succ, h.stored, hitem]
  · have hok := h.consumer
    show ConsumerOk first _ s.consumer
    cases hc : s.consumer with
    | read current_head =>
      rw [hc] at hok
      exact ⟨hok.1, by simp⟩
    | storeHead current_head x =>
      rw [hc] at hok
      obtain ⟨hhead, rest, rfl⟩ := hok
      exact ⟨hhead, rest ++ [item], rfl⟩
    | _ =>
      rw [hc] at hok
      exact hok

/-! ## Steps of the consumer -/

/-- A consumer goes on without a change of the buffer and the counters. -/
theorem moveConsumer (h : s.Holds N first items) (pc : Consumer α)
    (hok : ConsumerOk first items pc) :
    ({ s with consumer := pc } : State α).Holds N first items :=
  { h with consumer := hok }

/-- **The first item is returned**: the head moves on. -/
theorem storeHead (h : s.Holds N first items) {item : α} {current_head : ℕ}
    (hpc : s.consumer = .storeHead current_head item) :
    ∃ rest, items = item :: rest ∧ ({ s with
      head_ := (current_head + 1) % 2 ^ 64
      consumer := .idle
      answers := s.answers ++ [.dequeued item] } : State α).Holds N (first + 1) rest := by
  have hok := h.consumer
  have hstored := h.stored
  rw [hpc] at hok
  obtain ⟨rfl, rest, rfl⟩ := hok
  rw [List.length_cons, contents_cons] at hstored
  have hback : first + 1 + rest.length = first + (item :: rest).length := by
    rw [List.length_cons]
    omega
  refine ⟨rest, rfl, ?_, ?_, (List.cons.inj hstored).2, h.answers.concat (.dequeued item rest),
    ?_, trivial⟩
  · rw [hback]
    exact h.tail
  · show (_ % 2 ^ 64 + 1) % 2 ^ 64 = _
    rw [Nat.mod_add_mod]
  · have hok := h.producer
    show State.ProducerOk N _ (first + 1) rest s.producer
    cases hc : s.producer with
    | loadHead x current_tail =>
      rw [hc] at hok
      exact hok.trans (by rw [hback])
    | write x current_tail =>
      rw [hc] at hok
      exact ⟨hok.1.trans (by rw [hback]), Nat.lt_of_succ_lt hok.2⟩
    | storeTail x current_tail =>
      rw [hc] at hok
      refine ⟨hok.1.trans (by rw [hback]), Nat.lt_of_succ_lt hok.2.1, ?_⟩
      rw [hback]
      exact hok.2.2
    | _ => trivial

end State.Holds

/-! ## What a step is -/

/-- **The steps of `push`**, by where it stands. -/
inductive Pushes (N : PowerOfTwo) (s : State α) (items : List α) :
    State α × Option Bool → Prop
  | loadTail (item : α) : s.producer = .loadTail item →
      Pushes N s items ({ s with producer := .loadHead item s.tail_ }, none)
  | full (item : α) (current_tail : ℕ) : s.producer = .loadHead item current_tail →
      items.length = N.size →
      Pushes N s items
        ({ s with producer := .idle, answers := s.answers ++ [.full] }, some false)
  | room (item : α) (current_tail : ℕ) : s.producer = .loadHead item current_tail →
      items.length < N.size →
      Pushes N s items ({ s with producer := .write item current_tail }, none)
  | write (item : α) (current_tail : ℕ) : s.producer = .write item current_tail →
      Pushes N s items ({ s with
        buffer_ := Function.update s.buffer_ (N.mask current_tail) item
        producer := .storeTail item current_tail }, none)
  | storeTail (item : α) (current_tail : ℕ) : s.producer = .storeTail item current_tail →
      Pushes N s items ({ s with
        tail_ := (current_tail + 1) % 2 ^ 64
        producer := .idle
        answers := s.answers ++ [.enqueued item] }, some true)

/-- **The steps of `pop`**, by where it stands. -/
inductive Pops (N : PowerOfTwo) (s : State α) (items : List α) :
    State α × Option (Option α) → Prop
  | loadHead : s.consumer = .loadHead →
      Pops N s items ({ s with consumer := .loadTail s.head_ }, none)
  | empty (current_head : ℕ) : s.consumer = .loadTail current_head → items = [] →
      Pops N s items ({ s with consumer := .idle, answers := s.answers ++ [.empty] }, some none)
  | some_item (current_head : ℕ) : s.consumer = .loadTail current_head → items ≠ [] →
      Pops N s items ({ s with consumer := .read current_head }, none)
  | read (current_head : ℕ) : s.consumer = .read current_head →
      Pops N s items ({ s with
        consumer := .storeHead current_head (s.buffer_ (N.mask current_head)) }, none)
  | storeHead (current_head : ℕ) (item : α) : s.consumer = .storeHead current_head item →
      Pops N s items ({ s with
        head_ := (current_head + 1) % 2 ^ 64
        consumer := .idle
        answers := s.answers ++ [.dequeued item] }, some (some item))

theorem State.Holds.pushes (h : s.Holds N first items) {r : State α × Option Bool}
    (hstep : s.stepPush N = some r) : Pushes N s items r := by
  have hok := h.producer
  unfold State.stepPush at hstep
  cases hpc : s.producer with
  | idle =>
    rw [hpc] at hstep
    exact absurd hstep.symm (Option.some_ne_none _)
  | loadTail item =>
    rw [hpc] at hstep
    obtain rfl := Option.some.inj hstep
    exact .loadTail item hpc
  | loadHead item current_tail =>
    rw [hpc] at hstep hok
    obtain rfl := hok
    have hfull := h.full_iff
    dsimp only at hstep
    split_ifs at hstep with hsub
    · obtain rfl := Option.some.inj hstep
      exact .full item _ hpc (hfull.mp hsub)
    · obtain rfl := Option.some.inj hstep
      have hlength := h.answers.length_le
      have hne := mt hfull.mpr hsub
      exact .room item _ hpc (by omega)
  | write item current_tail =>
    rw [hpc] at hstep
    obtain rfl := Option.some.inj hstep
    exact .write item current_tail hpc
  | storeTail item current_tail =>
    rw [hpc] at hstep
    obtain rfl := Option.some.inj hstep
    exact .storeTail item current_tail hpc

theorem State.Holds.pops (h : s.Holds N first items) {r : State α × Option (Option α)}
    (hstep : s.stepPop N = some r) : Pops N s items r := by
  have hok := h.consumer
  unfold State.stepPop at hstep
  cases hpc : s.consumer with
  | idle =>
    rw [hpc] at hstep
    exact absurd hstep.symm (Option.some_ne_none _)
  | loadHead =>
    rw [hpc] at hstep
    obtain rfl := Option.some.inj hstep
    exact .loadHead hpc
  | loadTail current_head =>
    rw [hpc] at hstep hok
    obtain rfl := hok
    have hempty := h.empty_iff
    dsimp only at hstep
    split_ifs at hstep with heq
    · obtain rfl := Option.some.inj hstep
      exact .empty _ hpc (hempty.mp heq)
    · obtain rfl := Option.some.inj hstep
      exact .some_item _ hpc (mt hempty.mpr heq)
  | read current_head =>
    rw [hpc] at hstep
    obtain rfl := Option.some.inj hstep
    exact .read current_head hpc
  | storeHead current_head item =>
    rw [hpc] at hstep
    obtain rfl := Option.some.inj hstep
    exact .storeHead current_head item hpc

/-- A step of `push` keeps the invariant. -/
theorem Pushes.holds {r : State α × Option Bool} (hstep : Pushes N s items r)
    (h : s.Holds N first items) : ∃ items', r.1.Holds N first items' := by
  cases hstep with
  | loadTail item hpc => exact ⟨items, h.moveProducer (.loadHead item _) h.tail⟩
  | full item current_tail hpc hfull =>
    have hidle := h.moveProducer .idle trivial
    exact ⟨items, { hidle with answers := h.answers.concat (.full hfull) }⟩
  | room item current_tail hpc hroom =>
    have hok := h.producer
    rw [hpc] at hok
    exact ⟨items, h.moveProducer (.write item current_tail) ⟨hok, hroom⟩⟩
  | write item current_tail hpc => exact ⟨items, h.write hpc⟩
  | storeTail item current_tail hpc => exact ⟨items ++ [item], h.storeTail hpc⟩

/-- A step of `pop` keeps the invariant. -/
theorem Pops.holds {r : State α × Option (Option α)} (hstep : Pops N s items r)
    (h : s.Holds N first items) : ∃ first' items', r.1.Holds N first' items' := by
  have hok := h.consumer
  cases hstep with
  | loadHead hpc => exact ⟨first, items, h.moveConsumer (.loadTail _) h.head⟩
  | empty current_head hpc hempty =>
    subst hempty
    have hidle := h.moveConsumer .idle trivial
    exact ⟨first, [], { hidle with answers := h.answers.concat .empty }⟩
  | some_item current_head hpc hne =>
    rw [hpc] at hok
    exact ⟨first, items, h.moveConsumer (.read current_head) ⟨hok, hne⟩⟩
  | read current_head hpc =>
    rw [hpc] at hok
    obtain ⟨rfl, hne⟩ := hok
    obtain ⟨x, rest, rfl⟩ := List.exists_cons_of_ne_nil hne
    have hstored := h.stored
    rw [List.length_cons, contents_cons] at hstored
    refine ⟨first, x :: rest, h.moveConsumer (.storeHead _ _) ⟨rfl, rest, ?_⟩⟩
    rw [N.mask_mod, (List.cons.inj hstored).1]
  | storeHead current_head item hpc =>
    obtain ⟨rest, -, hrest⟩ := h.storeHead hpc
    exact ⟨first + 1, rest, hrest⟩

/-- Every step keeps the invariant. -/
theorem State.Holds.next (h : s.Holds N first items) {a : Action α} (hstep : next N s a = some s') :
    ∃ first' items', s'.Holds N first' items' := by
  cases a with
  | push item =>
    simp only [SPSCRingBuffer.next, State.push] at hstep
    split at hstep
    · obtain rfl := Option.some.inj hstep
      exact ⟨first, items, h.moveProducer (.loadTail item) trivial⟩
    · exact absurd hstep.symm (Option.some_ne_none _)
  | pop =>
    simp only [SPSCRingBuffer.next, State.pop] at hstep
    split at hstep
    · obtain rfl := Option.some.inj hstep
      exact ⟨first, items, h.moveConsumer .loadHead trivial⟩
    · exact absurd hstep.symm (Option.some_ne_none _)
  | producer =>
    obtain ⟨r, hr, rfl⟩ := Option.map_eq_some_iff.mp hstep
    exact ⟨first, (h.pushes hr).holds h⟩
  | consumer =>
    obtain ⟨r, hr, rfl⟩ := Option.map_eq_some_iff.mp hstep
    exact (h.pops hr).holds h

theorem holds_of_reachable {memory : ℕ → α} (h : (system N memory).Reachable s) :
    ∃ first items, s.Holds N first items := by
  apply h.invariant
  · rintro s rfl
    exact ⟨0, [], .start_holds memory⟩
  · rintro s a s' ⟨first, items, hs⟩ hstep
    exact hs.next hstep

/-- The threads do not use one slot at the same time. -/
theorem State.Holds.mask_ne (h : s.Holds N first items) {item : α} {current_tail current_head : ℕ}
    (hwrite : s.producer = .write item current_tail) (hread : s.consumer = .read current_head) :
    N.mask current_tail ≠ N.mask current_head := by
  have hproducer := h.producer
  have hconsumer := h.consumer
  rw [hwrite] at hproducer
  rw [hread] at hconsumer
  obtain ⟨rfl, hroom⟩ := hproducer
  obtain ⟨rfl, hne⟩ := hconsumer
  have hpos := List.length_pos_iff.mpr hne
  rw [N.mask_mod, N.mask_mod]
  exact mod_ne_of_lt (by omega) (by omega)

/-- **The ring buffer is a bounded queue**, in any order of the steps of the two threads and
however often the counters wrap: the calls are answered as those of a queue with as many places
as the buffer has, the difference of the counters is the number of items held, and the producer
never writes the slot that the consumer reads. -/
theorem linearizable {memory : ℕ → α} (h : (system N memory).Reachable s) :
    (∃ items, Trace N.size s.answers items ∧ subU64 s.tail_ s.head_ = items.length) ∧
      ∀ item current_tail current_head, s.producer = .write item current_tail →
        s.consumer = .read current_head → N.mask current_tail ≠ N.mask current_head := by
  obtain ⟨first, items, hs⟩ := holds_of_reachable h
  exact ⟨⟨items, hs.answers, hs.sub_eq⟩, fun _ _ _ hwrite hread => hs.mask_ne hwrite hread⟩

/-- Two items fill the buffer, a third one is refused, and the first one is returned. -/
def filling : List (Action ℕ) :=
  .pop :: .consumer :: .consumer :: .push 7 :: List.replicate 4 .producer
    ++ .push 8 :: List.replicate 4 .producer ++ .push 9 :: List.replicate 2 .producer
    ++ .pop :: List.replicate 4 .consumer

/-- The answers are those of a queue with two places. -/
theorem linearizable_filling :
    ∃ s, (system PowerOfTwo.two fun _ => 0).Reachable s ∧
      s.answers = [.empty, .enqueued 7, .enqueued 8, .full, .dequeued 7] ∧
      ∃ items, Trace 2 s.answers items := by
  have hrun : ∃ s ∈ runFrom (next PowerOfTwo.two) (fun _ _ => True) (start fun _ => 0) filling,
      s.answers = [.empty, .enqueued 7, .enqueued 8, .full, .dequeued 7] := by decide +kernel
  obtain ⟨s, hreach, hanswers⟩ := exists_of_runFrom hrun
  obtain ⟨⟨items, htrace, -⟩, -⟩ := linearizable hreach
  exact ⟨s, hreach, hanswers, items, htrace⟩

end SPSCRingBuffer
