/-
# The lock-free queue without flags

The `LockFreeQueue` with `enqueue` and `dequeue`: the slots of a ring hold nothing but the
elements, and the two indices tell which of them are in use.  What the calls return depends
on nothing but the order in which the indices are loaded and stored, which a machine without
slots replays.
-/
import FastServer.BoundedFifo
import FastServer.Ring
import FastServer.TransitionSystem

namespace LockFreeQueue

open Ring TransitionSystem BoundedFifo

variable {α : Type}

/-! ## Loads and stores of the indices -/

/-- A load or a store of an index: of the tail, of the head and again of the tail by the thread
that adds an item, and of the head, of the tail and again of the head by the one that takes an
item out. -/
inductive Access (α : Type)
  | addTail (item : α)
  | addHead
  | storeTail
  | takeHead
  | takeTail
  | storeHead
deriving DecidableEq

/-- The indices with what they stand for: the item that is being added, the items of the queue
and what the calls were answered. -/
structure Index (α : Type) where
  head : ℕ
  tail : ℕ
  adding : Option α
  items : List α
  answers : List (Answer α)

variable (Capacity : PowerOfTwo)

/-- `(i + 1) & (Capacity - 1)`. -/
def nextIndex (i : ℕ) : ℕ := Capacity.mask ((i + 1) % 2 ^ 64)

theorem nextIndex_mod (p : ℕ) :
    nextIndex Capacity (p % Capacity.size) = (p + 1) % Capacity.size := by
  rw [nextIndex, PowerOfTwo.mask_mod, Nat.mod_add_mod]

/-- What a load or a store of an index does. -/
def Index.access (m : Index α) : Access α → Index α
  | .addTail item => { m with adding := some item }
  | .addHead =>
      if nextIndex Capacity m.tail = m.head then
        { m with adding := none, answers := m.answers ++ [.full] }
      else m
  | .storeTail =>
      match m.adding with
      | some item =>
          { m with
            tail := nextIndex Capacity m.tail
            adding := none
            items := m.items ++ [item]
            answers := m.answers ++ [.enqueued item] }
      | none => m
  | .takeHead => m
  | .takeTail => if m.head = m.tail then { m with answers := m.answers ++ [.empty] } else m
  | .storeHead =>
      match m.items with
      | item :: items =>
          { m with
            head := nextIndex Capacity m.head
            items := items
            answers := m.answers ++ [.dequeued item] }
      | [] => m

/-- The indices of an empty queue after a sequence of loads and stores. -/
def replay (accesses : List (Access α)) : Index α :=
  accesses.foldl (Index.access Capacity) ⟨0, 0, none, [], []⟩

theorem replay_concat (accesses : List (Access α)) (access : Access α) :
    replay Capacity (accesses ++ [access]) = (replay Capacity accesses).access Capacity access := by
  rw [replay, List.foldl_append]
  rfl

/-- A call that adds an item, or a step of one of the threads. -/
inductive Action (α : Type)
  | add (item : α)
  | producer
  | consumer

namespace Flagless

/-! ## State -/

/-- Where the producer stands in `enqueue`: about to load the tail, to compare the next one
with the head, to copy the element into the buffer, or to store the tail. -/
inductive Producer (α : Type)
  | idle
  | loadTail (element : α)
  | loadHead (element : α) (current_tail next_tail : ℕ)
  | copy (element : α) (current_tail next_tail : ℕ)
  | storeTail (element : α) (next_tail : ℕ)

/-- Where the consumer stands in `dequeue`: about to compare the head with the tail, to copy the
element out of the buffer, or to store the head. -/
inductive Consumer (α : Type)
  | idle
  | loadTail (current_head : ℕ)
  | copy (current_head : ℕ)
  | storeHead (current_head : ℕ) (element : α)

/-- The buffer, the indices and the two threads.  What the calls were answered so far is
history, and so are the loads and stores of the indices. -/
structure State (α : Type) where
  buffer_ : ℕ → α
  head_ : ℕ
  tail_ : ℕ
  producer : Producer α
  consumer : Consumer α
  answers : List (Answer α)
  accesses : List (Access α)

/-- The constructor has run; the buffer holds what was in memory. -/
def start (memory : ℕ → α) : State α where
  buffer_ := memory
  head_ := 0
  tail_ := 0
  producer := .idle
  consumer := .idle
  answers := []
  accesses := []

/-! ## Steps -/

/-- The next step of `enqueue`. -/
def State.stepProducer (s : State α) : Option (State α) :=
  match s.producer with
  | .idle => none
  | .loadTail element =>
      some { s with
        producer := .loadHead element s.tail_ (nextIndex Capacity s.tail_)
        accesses := s.accesses ++ [.addTail element] }
  | .loadHead element current_tail next_tail =>
      if next_tail = s.head_ then
        -- the queue is full
        some { s with
          producer := .idle
          answers := s.answers ++ [.full]
          accesses := s.accesses ++ [.addHead] }
      else
        some { s with
          producer := .copy element current_tail next_tail
          accesses := s.accesses ++ [.addHead] }
  | .copy element current_tail next_tail =>
      some { s with
        buffer_ := Function.update s.buffer_ current_tail element
        producer := .storeTail element next_tail }
  | .storeTail element next_tail =>
      some { s with
        tail_ := next_tail
        producer := .idle
        answers := s.answers ++ [.enqueued element]
        accesses := s.accesses ++ [.storeTail] }

/-- The next step of `dequeue`; a new call starts with the load of the head. -/
def State.stepConsumer (s : State α) : State α :=
  match s.consumer with
  | .idle => { s with consumer := .loadTail s.head_, accesses := s.accesses ++ [.takeHead] }
  | .loadTail current_head =>
      if current_head = s.tail_ then
        -- the queue is empty
        { s with
          consumer := .idle
          answers := s.answers ++ [.empty]
          accesses := s.accesses ++ [.takeTail] }
      else { s with consumer := .copy current_head, accesses := s.accesses ++ [.takeTail] }
  | .copy current_head =>
      { s with consumer := .storeHead current_head (s.buffer_ current_head) }
  | .storeHead current_head element =>
      { s with
        head_ := nextIndex Capacity current_head
        consumer := .idle
        answers := s.answers ++ [.dequeued element]
        accesses := s.accesses ++ [.storeHead] }

/-- A call of `enqueue` by a producer that is not in one. -/
def State.enqueue (s : State α) (element : α) : Option (State α) :=
  match s.producer with
  | .idle => some { s with producer := .loadTail element }
  | _ => none

/-- The state after a step, if it is enabled. -/
def next (s : State α) : Action α → Option (State α)
  | .add element => s.enqueue element
  | .producer => s.stepProducer Capacity
  | .consumer => some (s.stepConsumer Capacity)

/-- The producer and the consumer of a queue of the given capacity. -/
def system (memory : ℕ → α) : TransitionSystem (State α) (Action α) :=
  TransitionSystem.ofFunction (start memory) (next Capacity)

/-! ## The invariant -/

/-- The item whose `enqueue` has loaded the tail. -/
def Producer.adding : Producer α → Option α
  | .loadHead element _ _ => some element
  | .copy element _ _ => some element
  | .storeTail element _ => some element
  | _ => none

/-- What a producer at `pc` knows when the queue holds `items` from position `first` on. -/
def State.ProducerOk (s : State α) (first : ℕ) (items : List α) : Producer α → Prop
  | .loadHead _ current_tail next_tail =>
      current_tail = (first + items.length) % Capacity.size ∧
        next_tail = (first + items.length + 1) % Capacity.size
  | .copy _ current_tail next_tail =>
      current_tail = (first + items.length) % Capacity.size ∧
        next_tail = (first + items.length + 1) % Capacity.size ∧
        items.length + 1 < Capacity.size
  | .storeTail element next_tail =>
      next_tail = (first + items.length + 1) % Capacity.size ∧
        items.length + 1 < Capacity.size ∧
        s.buffer_ ((first + items.length) % Capacity.size) = element
  | _ => True

/-- What a consumer at `pc` knows when the queue holds `items` from position `first` on. -/
def ConsumerOk (first : ℕ) (items : List α) : Consumer α → Prop
  | .idle => True
  | .loadTail current_head => current_head = first % Capacity.size
  | .copy current_head => current_head = first % Capacity.size ∧ items ≠ []
  | .storeHead current_head element =>
      current_head = first % Capacity.size ∧ ∃ rest, items = element :: rest

/-- The queue holds `items` from position `first` on, as the loads and stores of the indices
tell. -/
structure State.Holds (s : State α) (first : ℕ) (items : List α) : Prop where
  head : s.head_ = first % Capacity.size
  tail : s.tail_ = (first + items.length) % Capacity.size
  room : items.length < Capacity.size
  stored : contents Capacity.size s.buffer_ first items.length = items
  answers : Trace (Capacity.size - 1) s.answers items
  index : replay Capacity s.accesses = ⟨s.head_, s.tail_, s.producer.adding, items, s.answers⟩
  producer : s.ProducerOk Capacity first items s.producer
  consumer : ConsumerOk Capacity first items s.consumer

variable {Capacity} {s s' : State α} {first : ℕ} {items : List α}

namespace State.Holds

/-- The empty queue. -/
theorem start_holds (memory : ℕ → α) : (start memory).Holds Capacity 0 [] where
  head := (Nat.zero_mod _).symm
  tail := (Nat.zero_mod _).symm
  room := Capacity.size_pos
  stored := rfl
  answers := .nil
  index := rfl
  producer := trivial
  consumer := trivial

/-- The indices are equal only if there is nothing between them. -/
theorem eq_nil_iff (h : s.Holds Capacity first items) : s.head_ = s.tail_ ↔ items = [] := by
  have hroom := h.room
  rw [h.head, h.tail]
  constructor
  · intro hmod
    have heq := eq_of_mod_eq hmod (by omega) (by omega)
    apply List.eq_nil_of_length_eq_zero
    omega
  · rintro rfl
    rfl

/-- The next tail is the head only if all places are taken. -/
theorem full_iff (h : s.Holds Capacity first items) :
    (first + items.length + 1) % Capacity.size = s.head_ ↔ items.length = Capacity.size - 1 := by
  have hroom := h.room
  rw [h.head]
  constructor
  · intro hmod
    by_contra hne
    have heq := eq_of_mod_eq hmod (by omega) (by omega)
    omega
  · intro hlength
    rw [show first + items.length + 1 = first + Capacity.size by omega, Nat.add_mod_right]

/-- The slot at the head holds the first item. -/
theorem slot (h : s.Holds Capacity first items) (hne : items ≠ []) :
    items = s.buffer_ (first % Capacity.size) :: items.tail := by
  have hstored := h.stored
  obtain ⟨element, rest, rfl⟩ := List.exists_cons_of_ne_nil hne
  rw [List.length_cons, contents_cons] at hstored
  rw [(List.cons.inj hstored).1]
  rfl

/-! ## Steps of the producer -/

/-- **The tail is loaded.** -/
theorem loadTail (h : s.Holds Capacity first items) (element : α) :
    ({ s with
      producer := .loadHead element s.tail_ (nextIndex Capacity s.tail_)
      accesses := s.accesses ++ [.addTail element] } : State α).Holds Capacity first items := by
  refine { h with index := ?_, producer := ⟨h.tail, ?_⟩ }
  · rw [replay_concat, h.index]
    rfl
  · rw [h.tail, nextIndex_mod]

/-- **The head is loaded**, and there is no place left. -/
theorem full (h : s.Holds Capacity first items) {element : α} {current_tail next_tail : ℕ}
    (hpc : s.producer = .loadHead element current_tail next_tail) (hfull : next_tail = s.head_) :
    ({ s with
      producer := .idle
      answers := s.answers ++ [.full]
      accesses := s.accesses ++ [.addHead] } : State α).Holds Capacity first items := by
  have hok := h.producer
  rw [hpc] at hok
  obtain ⟨-, rfl⟩ := hok
  have hlength := h.full_iff.mp hfull
  rw [← nextIndex_mod, ← h.tail] at hfull
  refine { h with answers := h.answers.concat (.full hlength), index := ?_, producer := trivial }
  rw [replay_concat, h.index]
  exact if_pos hfull

/-- **The head is loaded**, and there is a place left. -/
theorem reserve (h : s.Holds Capacity first items) {element : α} {current_tail next_tail : ℕ}
    (hpc : s.producer = .loadHead element current_tail next_tail)
    (hroom : ¬ next_tail = s.head_) :
    ({ s with
      producer := .copy element current_tail next_tail
      accesses := s.accesses ++ [.addHead] } : State α).Holds Capacity first items := by
  have hok := h.producer
  have hlt := h.room
  rw [hpc] at hok
  obtain ⟨rfl, rfl⟩ := hok
  have hlength := mt h.full_iff.mpr hroom
  rw [← nextIndex_mod, ← h.tail] at hroom
  refine { h with index := ?_, producer := ⟨rfl, rfl, by omega⟩ }
  rw [replay_concat, h.index, hpc]
  exact if_neg hroom

/-- **The element is copied** into the slot at the tail. -/
theorem copyIn (h : s.Holds Capacity first items) {element : α} {current_tail next_tail : ℕ}
    (hpc : s.producer = .copy element current_tail next_tail) :
    ({ s with
      buffer_ := Function.update s.buffer_ current_tail element
      producer := .storeTail element next_tail } : State α).Holds Capacity first items := by
  have hok := h.producer
  have hindex := h.index
  rw [hpc] at hok hindex
  obtain ⟨rfl, rfl, hlt⟩ := hok
  refine { h with stored := ?_, index := hindex, producer := ⟨rfl, hlt, ?_⟩ }
  · exact (contents_update h.room element).trans h.stored
  · exact Function.update_self ..

/-- **The element is accepted**: the tail moves on. -/
theorem storeTail (h : s.Holds Capacity first items) {element : α} {next_tail : ℕ}
    (hpc : s.producer = .storeTail element next_tail) :
    ({ s with
      tail_ := next_tail
      producer := .idle
      answers := s.answers ++ [.enqueued element]
      accesses := s.accesses ++ [.storeTail] } : State α).Holds Capacity first
        (items ++ [element]) := by
  have hok := h.producer
  have hindex := h.index
  rw [hpc] at hok hindex
  obtain ⟨rfl, hlt, helement⟩ := hok
  have hlength : (items ++ [element]).length = items.length + 1 := by simp
  refine ⟨h.head, ?_, ?_, ?_, h.answers.concat (.enqueued element (by omega)), ?_, trivial, ?_⟩
  · rw [hlength]
    rfl
  · rw [hlength]
    exact hlt
  · show contents _ s.buffer_ first _ = _
    rw [hlength, contents_succ, h.stored, helement]
  · rw [replay_concat, hindex, h.tail, ← nextIndex_mod]
    rfl
  · have hok := h.consumer
    show ConsumerOk Capacity first _ s.consumer
    cases hc : s.consumer with
    | copy current_head =>
      rw [hc] at hok
      exact ⟨hok.1, by simp⟩
    | storeHead current_head x =>
      rw [hc] at hok
      obtain ⟨hhead, rest, rfl⟩ := hok
      exact ⟨hhead, rest ++ [element], rfl⟩
    | _ =>
      rw [hc] at hok
      exact hok

/-- **A step of the producer** keeps the invariant. -/
theorem stepProducer (h : s.Holds Capacity first items)
    (hstep : s.stepProducer Capacity = some s') : ∃ items', s'.Holds Capacity first items' := by
  unfold State.stepProducer at hstep
  cases hpc : s.producer with
  | idle =>
    rw [hpc] at hstep
    exact absurd hstep.symm (Option.some_ne_none _)
  | loadTail element =>
    rw [hpc] at hstep
    obtain rfl := Option.some.inj hstep
    exact ⟨items, h.loadTail element⟩
  | loadHead element current_tail next_tail =>
    rw [hpc] at hstep
    dsimp only at hstep
    split_ifs at hstep with hfull
    · obtain rfl := Option.some.inj hstep
      exact ⟨items, h.full hpc hfull⟩
    · obtain rfl := Option.some.inj hstep
      exact ⟨items, h.reserve hpc hfull⟩
  | copy element current_tail next_tail =>
    rw [hpc] at hstep
    obtain rfl := Option.some.inj hstep
    exact ⟨items, h.copyIn hpc⟩
  | storeTail element next_tail =>
    rw [hpc] at hstep
    obtain rfl := Option.some.inj hstep
    exact ⟨items ++ [element], h.storeTail hpc⟩

/-! ## Steps of the consumer -/

/-- **The head is loaded.** -/
theorem loadHead (h : s.Holds Capacity first items) :
    ({ s with
      consumer := .loadTail s.head_
      accesses := s.accesses ++ [.takeHead] } : State α).Holds Capacity first items := by
  refine { h with index := ?_, consumer := h.head }
  rw [replay_concat, h.index]
  rfl

/-- **The tail is loaded**, and there is nothing to take out. -/
theorem empty (h : s.Holds Capacity first items) {current_head : ℕ}
    (hpc : s.consumer = .loadTail current_head) (hempty : current_head = s.tail_) :
    ({ s with
      consumer := .idle
      answers := s.answers ++ [.empty]
      accesses := s.accesses ++ [.takeTail] } : State α).Holds Capacity first items := by
  have hok := h.consumer
  rw [hpc] at hok
  have heq : s.head_ = s.tail_ := (hok.trans h.head.symm).symm.trans hempty
  obtain rfl := h.eq_nil_iff.mp heq
  refine { h with answers := h.answers.concat .empty, index := ?_, consumer := trivial }
  rw [replay_concat, h.index]
  exact if_pos heq

/-- **The tail is loaded**, and there is something to take out. -/
theorem find (h : s.Holds Capacity first items) {current_head : ℕ}
    (hpc : s.consumer = .loadTail current_head) (hfound : ¬ current_head = s.tail_) :
    ({ s with
      consumer := .copy current_head
      accesses := s.accesses ++ [.takeTail] } : State α).Holds Capacity first items := by
  have hok := h.consumer
  rw [hpc] at hok
  have hne : ¬ s.head_ = s.tail_ := fun heq => hfound ((hok.trans h.head.symm).trans heq)
  refine { h with index := ?_, consumer := ⟨hok, mt h.eq_nil_iff.mpr hne⟩ }
  rw [replay_concat, h.index]
  exact if_neg hne

/-- **The element is copied** out of the slot at the head. -/
theorem copyOut (h : s.Holds Capacity first items) {current_head : ℕ}
    (hpc : s.consumer = .copy current_head) :
    ({ s with consumer := .storeHead current_head (s.buffer_ current_head) } :
      State α).Holds Capacity first items := by
  have hok := h.consumer
  rw [hpc] at hok
  obtain ⟨rfl, hne⟩ := hok
  exact { h with consumer := ⟨rfl, items.tail, h.slot hne⟩ }

/-- **The element is returned**: the head moves on. -/
theorem storeHead (h : s.Holds Capacity first items) {current_head : ℕ} {element : α}
    (hpc : s.consumer = .storeHead current_head element) :
    ∃ rest, ({ s with
      head_ := nextIndex Capacity current_head
      consumer := .idle
      answers := s.answers ++ [.dequeued element]
      accesses := s.accesses ++ [.storeHead] } : State α).Holds Capacity (first + 1) rest := by
  have hok := h.consumer
  have hstored := h.stored
  have hroom := h.room
  rw [hpc] at hok
  obtain ⟨rfl, rest, rfl⟩ := hok
  rw [List.length_cons, contents_cons] at hstored
  have hback : first + 1 + rest.length = first + (element :: rest).length := by
    rw [List.length_cons]
    omega
  refine ⟨rest, nextIndex_mod .., ?_, Nat.lt_of_succ_lt hroom, (List.cons.inj hstored).2,
    h.answers.concat (.dequeued element rest), ?_, ?_, trivial⟩
  · rw [hback]
    exact h.tail
  · rw [replay_concat, h.index, h.head]
    rfl
  · have hok := h.producer
    show State.ProducerOk Capacity _ (first + 1) rest s.producer
    cases hc : s.producer with
    | loadHead x current_tail next_tail =>
      rw [hc] at hok
      unfold State.ProducerOk
      rw [hback]
      exact hok
    | copy x current_tail next_tail =>
      rw [hc] at hok
      unfold State.ProducerOk
      rw [hback]
      exact ⟨hok.1, hok.2.1, Nat.lt_of_succ_lt hok.2.2⟩
    | storeTail x next_tail =>
      rw [hc] at hok
      unfold State.ProducerOk
      rw [hback]
      exact ⟨hok.1, Nat.lt_of_succ_lt hok.2.1, hok.2.2⟩
    | _ => trivial

/-- **A step of the consumer** keeps the invariant. -/
theorem stepConsumer (h : s.Holds Capacity first items) :
    ∃ first' items', (s.stepConsumer Capacity).Holds Capacity first' items' := by
  unfold State.stepConsumer
  cases hpc : s.consumer with
  | idle => exact ⟨first, items, h.loadHead⟩
  | loadTail current_head =>
    dsimp only
    split_ifs with hempty
    · exact ⟨first, items, h.empty hpc hempty⟩
    · exact ⟨first, items, h.find hpc hempty⟩
  | copy current_head => exact ⟨first, items, h.copyOut hpc⟩
  | storeHead current_head element =>
    obtain ⟨rest, hrest⟩ := h.storeHead hpc
    exact ⟨first + 1, rest, hrest⟩

/-! ## Runs -/

/-- **A step** keeps the invariant. -/
theorem next (h : s.Holds Capacity first items) {a : Action α}
    (hstep : Flagless.next Capacity s a = some s') :
    ∃ first' items', s'.Holds Capacity first' items' := by
  cases a with
  | add element =>
    have hstep : s.enqueue element = some s' := hstep
    unfold State.enqueue at hstep
    cases hpc : s.producer with
    | idle =>
      rw [hpc] at hstep
      obtain rfl := Option.some.inj hstep
      have hindex := h.index
      rw [hpc] at hindex
      exact ⟨first, items, { h with index := hindex, producer := trivial }⟩
    | _ =>
      rw [hpc] at hstep
      exact absurd hstep.symm (Option.some_ne_none _)
  | producer =>
    obtain ⟨items', h'⟩ := h.stepProducer hstep
    exact ⟨first, items', h'⟩
  | consumer =>
    obtain rfl := Option.some.inj hstep
    exact h.stepConsumer

end State.Holds

/-- **Every state reached** holds what the loads and stores of the indices tell. -/
theorem exists_holds {memory : ℕ → α} (h : (system Capacity memory).Reachable s) :
    ∃ first items, s.Holds Capacity first items := by
  apply h.invariant
  · rintro s rfl
    exact ⟨0, [], State.Holds.start_holds memory⟩
  · rintro s a s' ⟨first, items, hs⟩ hstep
    exact hs.next hstep

/-- What the calls return depends on the loads and stores of the indices only. -/
theorem answers_eq {memory : ℕ → α} (h : (system Capacity memory).Reachable s) :
    s.answers = (replay Capacity s.accesses).answers := by
  obtain ⟨first, items, hholds⟩ := exists_holds h
  rw [hholds.index]

/-! ## What was in memory -/

/-- The slots at the head of two queues that answered the same hold the same. -/
theorem State.Holds.slot_eq {first' : ℕ} {items' : List α} (h : s.Holds Capacity first items)
    (h' : s'.Holds Capacity first' items') (hanswers : s'.answers = s.answers)
    (hhead : s'.head_ = s.head_) (hne : items ≠ []) :
    s'.buffer_ s.head_ = s.buffer_ s.head_ := by
  have hitems : items' = items := by
    have htrace := h'.answers
    rw [hanswers] at htrace
    exact htrace.items_eq h.answers
  subst hitems
  have hslot := h.slot hne
  rw [h'.slot hne, ← h.head, ← h'.head, hhead] at hslot
  exact (List.cons.inj hslot).1

/-- **A step** does to the indices what it does to those of a queue with other contents. -/
theorem exists_next_memory {first' : ℕ} {items' : List α} {buffer : ℕ → α} {a : Action α}
    (h : s.Holds Capacity first items)
    (h' : ({ s with buffer_ := buffer } : State α).Holds Capacity first' items')
    (hstep : next Capacity s a = some s') :
    ∃ buffer', next Capacity { s with buffer_ := buffer } a
      = some { s' with buffer_ := buffer' } := by
  cases a with
  | add element =>
    have hstep : s.enqueue element = some s' := hstep
    unfold State.enqueue at hstep
    refine ⟨buffer, ?_⟩
    show State.enqueue _ element = _
    unfold State.enqueue
    cases hpc : s.producer with
    | idle =>
      rw [hpc] at hstep
      obtain rfl := Option.some.inj hstep
      rfl
    | _ =>
      rw [hpc] at hstep
      exact absurd hstep.symm (Option.some_ne_none _)
  | producer =>
    have hstep : s.stepProducer Capacity = some s' := hstep
    show ∃ buffer', State.stepProducer Capacity _ = _
    unfold State.stepProducer at hstep ⊢
    cases hpc : s.producer with
    | idle =>
      rw [hpc] at hstep
      exact absurd hstep.symm (Option.some_ne_none _)
    | loadHead element current_tail next_tail =>
      rw [hpc] at hstep
      dsimp only at hstep ⊢
      split_ifs at hstep ⊢ with hfull
      · obtain rfl := Option.some.inj hstep
        exact ⟨buffer, rfl⟩
      · obtain rfl := Option.some.inj hstep
        exact ⟨buffer, rfl⟩
    | _ =>
      rw [hpc] at hstep
      obtain rfl := Option.some.inj hstep
      exact ⟨_, rfl⟩
  | consumer =>
    obtain rfl := Option.some.inj hstep
    show ∃ buffer', some (State.stepConsumer Capacity _) = _
    unfold State.stepConsumer
    cases hpc : s.consumer with
    | loadTail current_head =>
      dsimp only
      split_ifs with hempty
      · exact ⟨buffer, rfl⟩
      · exact ⟨buffer, rfl⟩
    | copy current_head =>
      have hok := h.consumer
      rw [hpc] at hok
      obtain ⟨hhead, hne⟩ := hok
      rw [← h.head] at hhead
      subst hhead
      have hslot : buffer s.head_ = s.buffer_ s.head_ := h.slot_eq h' rfl rfl hne
      refine ⟨buffer, ?_⟩
      dsimp only
      rw [hslot]
    | _ => exact ⟨buffer, rfl⟩

/-- **What was in memory does not matter**: the indices, the threads and the answers can be the
same. -/
theorem reachable_memory {memory : ℕ → α} (memory' : ℕ → α)
    (h : (system Capacity memory).Reachable s) :
    ∃ buffer, (system Capacity memory').Reachable { s with buffer_ := buffer } := by
  induction h with
  | init hinit =>
    obtain rfl := hinit
    exact ⟨memory', .init rfl⟩
  | step hreach _ hstep ih =>
    obtain ⟨buffer, hreach'⟩ := ih
    obtain ⟨first, items, hholds⟩ := exists_holds hreach
    obtain ⟨first', items', hholds'⟩ := exists_holds hreach'
    obtain ⟨buffer', hstep'⟩ := exists_next_memory hholds hholds' hstep
    exact ⟨buffer', hreach'.step trivial hstep'⟩

end Flagless

end LockFreeQueue
