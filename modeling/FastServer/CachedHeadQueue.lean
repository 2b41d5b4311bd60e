/-
# The queue with a cached head

The `SPSCQueue` with `head_`, `tail_` and `cached_head_`: one producer constructs items in the
slots of a ring, one consumer moves them out and destroys what is left.  One slot stays empty.
The producer compares the next tail with the head that it loaded last, and loads it again only
when the two are equal.
-/
import FastServer.BoundedFifo
import FastServer.Ring
import FastServer.TransitionSystem

namespace SPSCQueue.Cached

open Ring TransitionSystem BoundedFifo

variable {α : Type}

/-! ## State -/

/-- Where the producer stands in `enqueue`: about to load the tail, to load the head again, to
construct the item in the slot at the tail, or to store the tail. -/
inductive Producer (α : Type)
  | idle
  | loadTail (item : α)
  | loadHead (item : α) (tail next_tail : ℕ)
  | construct (item : α) (tail next_tail : ℕ)
  | storeTail (item : α) (next_tail : ℕ)

/-- Where the consumer stands in `dequeue`: about to load the tail, to move the item out of the
slot at the head, to destroy what is left there, or to store the head.  A consumer that moves
out of a slot where nothing was constructed goes no further. -/
inductive Consumer (α : Type)
  | idle
  | loadTail (head : ℕ)
  | move (head : ℕ)
  | destroy (head : ℕ) (item : α)
  | storeHead (head : ℕ) (item : α)
  | emptyRead

/-- The slots, of which some hold an object, the indices and the two threads.  What the calls
were answered so far is history. -/
structure State (α : Type) where
  buffer_ : ℕ → Option α
  head_ : ℕ
  tail_ : ℕ
  cached_head_ : ℕ
  producer : Producer α
  consumer : Consumer α
  answers : List (Answer α)

/-- The constructor has run. -/
def start : State α where
  buffer_ := fun _ => none
  head_ := 0
  tail_ := 0
  cached_head_ := 0
  producer := .idle
  consumer := .idle
  answers := []

/-! ## Steps -/

variable (Capacity : PowerOfTwo)

/-- `(i + 1) & (Capacity - 1)`. -/
def nextIndex (i : ℕ) : ℕ := Capacity.mask ((i + 1) % 2 ^ 64)

theorem nextIndex_mod (p : ℕ) :
    nextIndex Capacity (p % Capacity.size) = (p + 1) % Capacity.size := by
  rw [nextIndex, PowerOfTwo.mask_mod, Nat.mod_add_mod]

/-- The next step of `enqueue`: an access to shared memory, and what the producer does on its
own behind it. -/
def State.stepProducer (s : State α) : Option (State α) :=
  match s.producer with
  | .idle => none
  | .loadTail item =>
      if nextIndex Capacity s.tail_ = s.cached_head_ then
        some { s with producer := .loadHead item s.tail_ (nextIndex Capacity s.tail_) }
      else some { s with producer := .construct item s.tail_ (nextIndex Capacity s.tail_) }
  | .loadHead item tail next_tail =>
      if next_tail = s.head_ then
        -- the queue is full
        some { s with
          cached_head_ := s.head_
          producer := .idle
          answers := s.answers ++ [.full] }
      else some { s with cached_head_ := s.head_, producer := .construct item tail next_tail }
  | .construct item tail next_tail =>
      some { s with
        buffer_ := Function.update s.buffer_ tail (some item)
        producer := .storeTail item next_tail }
  | .storeTail item next_tail =>
      some { s with
        tail_ := next_tail
        producer := .idle
        answers := s.answers ++ [.enqueued item] }

/-- The next step of `dequeue`; a new call starts with the load of the head.  What `std::move`
leaves of an item in its slot is given by `moved`. -/
def State.stepConsumer (moved : α → α) (s : State α) : State α :=
  match s.consumer with
  | .idle => { s with consumer := .loadTail s.head_ }
  | .loadTail head =>
      if head = s.tail_ then
        -- the queue is empty
        { s with consumer := .idle, answers := s.answers ++ [.empty] }
      else { s with consumer := .move head }
  | .move head =>
      match s.buffer_ head with
      | some item =>
          { s with
            buffer_ := Function.update s.buffer_ head (some (moved item))
            consumer := .destroy head item }
      | none => { s with consumer := .emptyRead }
  | .destroy head item =>
      { s with
        buffer_ := Function.update s.buffer_ head none
        consumer := .storeHead head item }
  | .storeHead head item =>
      { s with
        head_ := nextIndex Capacity head
        consumer := .idle
        answers := s.answers ++ [.dequeued item] }
  | .emptyRead => s

/-- A call of `enqueue`, or a step of one of the threads. -/
inductive Action (α : Type)
  | enqueue (item : α)
  | producer
  | consumer

/-- A call of `enqueue` by a producer that is not in one. -/
def State.enqueue (s : State α) (item : α) : Option (State α) :=
  match s.producer with
  | .idle => some { s with producer := .loadTail item }
  | _ => none

/-- The state after a step, if it is enabled. -/
def next (moved : α → α) (s : State α) : Action α → Option (State α)
  | .enqueue item => s.enqueue item
  | .producer => s.stepProducer Capacity
  | .consumer => some (s.stepConsumer Capacity moved)

/-- The producer and the consumer of a queue of the given capacity. -/
def system (moved : α → α) : TransitionSystem (State α) (Action α) :=
  TransitionSystem.ofFunction start (next Capacity moved)

/-- `size()`, if no index is stored between its two loads. -/
def State.size (s : State α) : ℕ :=
  if s.tail_ ≥ s.head_ then s.tail_ - s.head_ else Capacity.size - s.head_ + s.tail_

/-! ## What should hold -/

/-- **What the queue promises.**  It answers as a bounded queue with one place less than it has
slots: in particular it says that it is full only when, at the load of the head, all of them are
taken.  What is returned was accepted, in the same order.  No item is constructed over another
one, and none is read where there is none. -/
structure State.Correct (s : State α) : Prop where
  fifo : ∃ items, Trace (Capacity.size - 1) s.answers items
  order : returned s.answers <+: accepted s.answers
  unread : ∀ item tail next_tail, s.producer = .construct item tail next_tail →
    s.buffer_ tail = none
  found : ∀ head, s.consumer = .move head → ∃ item, s.buffer_ head = some item
  consumer : s.consumer ≠ .emptyRead

/-! ## The invariant -/

/-- The slots that the producer has found free and not published yet. -/
def Producer.reserved : Producer α → ℕ
  | .construct _ _ _ => 1
  | .storeTail _ _ => 1
  | _ => 0

/-- The slots with an item that is not published yet. -/
def Producer.constructed : Producer α → ℕ
  | .storeTail _ _ => 1
  | _ => 0

/-- The slots whose item was moved out and which are not released yet. -/
def Consumer.taken : Consumer α → ℕ
  | .destroy _ _ => 1
  | .storeHead _ _ => 1
  | _ => 0

/-- The slots that are empty and not released yet. -/
def Consumer.emptied : Consumer α → ℕ
  | .storeHead _ _ => 1
  | _ => 0

/-- What a producer at `pc` knows when the tail is at position `back`. -/
def State.ProducerOk (s : State α) (back : ℕ) : Producer α → Prop
  | .idle => True
  | .loadTail _ => True
  | .loadHead _ tail next_tail =>
      tail = back % Capacity.size ∧ next_tail = (back + 1) % Capacity.size
  | .construct _ tail next_tail =>
      tail = back % Capacity.size ∧ next_tail = (back + 1) % Capacity.size
  | .storeTail item next_tail =>
      next_tail = (back + 1) % Capacity.size ∧ s.buffer_ (back % Capacity.size) = some item

/-- What a consumer at `pc` knows when the head is at position `first`, in front of `items`. -/
def ConsumerOk (first : ℕ) (items : List α) : Consumer α → Prop
  | .idle => True
  | .loadTail head => head = first % Capacity.size
  | .move head => head = first % Capacity.size ∧ items ≠ []
  | .destroy head item => head = first % Capacity.size ∧ ∃ rest, items = item :: rest
  | .storeHead head item => head = first % Capacity.size ∧ ∃ rest, items = item :: rest
  | .emptyRead => False

/-- The queue holds `items` from position `first` on.  The cached head is an old one, and the
tail, with the slot that the producer is about to fill, is less than a round ahead of it.  The
slots of the items hold them, up to the one that is taken out, and the others are empty, up to
the one that is filled. -/
structure State.Holds (s : State α) (first : ℕ) (items : List α) : Prop where
  head : s.head_ = first % Capacity.size
  tail : s.tail_ = (first + items.length) % Capacity.size
  cache : ∃ cached ≤ first, s.cached_head_ = cached % Capacity.size ∧
    first + items.length + s.producer.reserved < cached + Capacity.size
  stored : contents Capacity.size s.buffer_ (first + s.consumer.taken)
    (items.length - s.consumer.taken) = (items.drop s.consumer.taken).map some
  free : ∀ p, first + items.length + s.producer.constructed ≤ p →
    p < first + s.consumer.emptied + Capacity.size → s.buffer_ (p % Capacity.size) = none
  answers : Trace (Capacity.size - 1) s.answers items
  producer : s.ProducerOk Capacity (first + items.length) s.producer
  consumer : ConsumerOk Capacity first items s.consumer

variable {Capacity} {s s' : State α} {first : ℕ} {items : List α}

/-- A slot is being taken out only if there is one. -/
theorem taken_le {pc : Consumer α} (h : ConsumerOk Capacity first items pc) :
    pc.emptied ≤ pc.taken ∧ pc.taken ≤ items.length := by
  cases pc with
  | destroy head item =>
    obtain ⟨-, rest, rfl⟩ := h
    simp [Consumer.emptied, Consumer.taken]
  | storeHead head item =>
    obtain ⟨-, rest, rfl⟩ := h
    simp [Consumer.emptied, Consumer.taken]
  | _ => simp [Consumer.emptied, Consumer.taken]

namespace State.Holds

/-- The empty queue. -/
theorem start_holds : (start : State α).Holds Capacity 0 [] where
  head := (Nat.zero_mod _).symm
  tail := (Nat.zero_mod _).symm
  cache := ⟨0, le_refl 0, (Nat.zero_mod _).symm, by
    simpa [start, Producer.reserved] using Capacity.size_pos⟩
  stored := rfl
  free := fun _ _ _ => rfl
  answers := .nil
  producer := trivial
  consumer := trivial

/-- One slot stays empty. -/
theorem length_lt (h : s.Holds Capacity first items) :
    items.length + s.producer.reserved < Capacity.size := by
  obtain ⟨cached, hle, -, hlt⟩ := h.cache
  omega

/-- The slot at the tail is empty until the item is constructed there. -/
theorem slot_empty (h : s.Holds Capacity first items) (hpc : s.producer.constructed = 0) :
    s.buffer_ ((first + items.length) % Capacity.size) = none := by
  have hlt := h.length_lt
  apply h.free
  · omega
  · omega

/-- The slot at the head holds the first item until it is moved out. -/
theorem slot_full (h : s.Holds Capacity first items) (hpc : s.consumer.taken = 0)
    (hne : items ≠ []) : s.buffer_ (first % Capacity.size) = items.head? := by
  have hstored := h.stored
  obtain ⟨item, rest, rfl⟩ := List.exists_cons_of_ne_nil hne
  rw [hpc, Nat.add_zero, Nat.sub_zero, List.drop_zero, List.length_cons, contents_cons,
    List.map_cons] at hstored
  exact (List.cons.inj hstored).1

/-- The size is the number of items, with the one that is being taken out. -/
theorem size_eq (h : s.Holds Capacity first items) : s.size Capacity = items.length := by
  have hpos := Capacity.size_pos
  have hlt := h.length_lt
  have hhead : s.head_ < Capacity.size := h.head ▸ Nat.mod_lt _ hpos
  have htail : s.tail_ < Capacity.size := h.tail ▸ Nat.mod_lt _ hpos
  have hused : used Capacity.size s.head_ s.tail_ = items.length := by
    apply used_eq hhead (by omega)
    rw [h.head, Nat.mod_add_mod, h.tail]
  rw [← hused, used, State.size]
  split_ifs with hle
  · rw [show s.tail_ + Capacity.size - s.head_ = s.tail_ - s.head_ + Capacity.size by omega,
      Nat.add_mod_right, Nat.mod_eq_of_lt (by omega)]
  · rw [Nat.mod_eq_of_lt (by omega)]
    omega

/-- **The invariant is what the queue promises.** -/
theorem correct (h : s.Holds Capacity first items) : s.Correct Capacity where
  fifo := ⟨items, h.answers⟩
  order := h.answers.returned_prefix
  unread := by
    intro item tail next_tail hpc
    have hok := h.producer
    rw [hpc] at hok
    rw [hok.1]
    apply h.slot_empty
    rw [hpc]
    rfl
  found := by
    intro head hpc
    have hok := h.consumer
    rw [hpc] at hok
    obtain ⟨rfl, hne⟩ := hok
    rw [h.slot_full (by rw [hpc]; rfl) hne]
    obtain ⟨item, rest, rfl⟩ := List.exists_cons_of_ne_nil hne
    exact ⟨item, rfl⟩
  consumer := by
    intro hpc
    have hok := h.consumer
    rw [hpc] at hok
    exact hok

/-! ## Steps of the producer -/

/-- A producer that has constructed nothing goes on, maybe with another cached head. -/
theorem moveProducer (h : s.Holds Capacity first items) (pc : Producer α) {cached_head : ℕ}
    (hcache : ∃ cached ≤ first, cached_head = cached % Capacity.size ∧
      first + items.length + pc.reserved < cached + Capacity.size)
    (hold : s.producer.constructed = 0) (hnew : pc.constructed = 0)
    (hok : s.ProducerOk Capacity (first + items.length) pc) :
    ({ s with cached_head_ := cached_head, producer := pc } : State α).Holds Capacity first items
    where
  head := h.head
  tail := h.tail
  cache := hcache
  stored := h.stored
  free := by
    intro p hback hp
    apply h.free p _ hp
    rw [hold]
    rwa [hnew] at hback
  answers := h.answers
  producer := hok
  consumer := h.consumer

/-- The cached head leaves room for one more item unless it is the next tail. -/
theorem reserve (h : s.Holds Capacity first items)
    (hroom : (first + items.length + 1) % Capacity.size ≠ s.cached_head_) :
    ∃ cached ≤ first, s.cached_head_ = cached % Capacity.size ∧
      first + items.length + 1 < cached + Capacity.size := by
  obtain ⟨cached, hle, hcached, hlt⟩ := h.cache
  refine ⟨cached, hle, hcached, ?_⟩
  by_contra hge
  apply hroom
  rw [hcached, show first + items.length + 1 = cached + Capacity.size by omega,
    Nat.add_mod_right]

/-- The head leaves room for one more item unless it is the next tail. -/
theorem refresh (h : s.Holds Capacity first items)
    (hroom : (first + items.length + 1) % Capacity.size ≠ s.head_) :
    ∃ cached ≤ first, s.head_ = cached % Capacity.size ∧
      first + items.length + 1 < cached + Capacity.size := by
  refine ⟨first, le_refl first, h.head, ?_⟩
  have hlt := h.length_lt
  by_contra hge
  apply hroom
  rw [show first + items.length + 1 = first + Capacity.size by omega, Nat.add_mod_right, h.head]

/-- The next tail is the head only if all places are taken. -/
theorem length_eq (h : s.Holds Capacity first items)
    (hfull : (first + items.length + 1) % Capacity.size = first % Capacity.size) :
    items.length = Capacity.size - 1 := by
  have hlt := h.length_lt
  by_contra hne
  have heq := eq_of_mod_eq hfull (by omega) (by omega)
  omega

/-- **The queue is full**: an item is refused. -/
theorem full (h : s.Holds Capacity first items) {item : α} {tail next_tail : ℕ}
    (hpc : s.producer = .loadHead item tail next_tail) (hfull : next_tail = s.head_) :
    ({ s with
      cached_head_ := s.head_
      producer := .idle
      answers := s.answers ++ [.full] } : State α).Holds Capacity first items := by
  have hok := h.producer
  rw [hpc] at hok
  obtain ⟨-, rfl⟩ := hok
  rw [h.head] at hfull
  have hlength := h.length_eq hfull
  have hlt := h.length_lt
  have hidle : ({ s with cached_head_ := s.head_, producer := .idle } : State α).Holds Capacity
      first items :=
    h.moveProducer .idle
      ⟨first, le_refl first, h.head, show first + items.length + 0 < _ by omega⟩
      (by rw [hpc]; rfl) rfl trivial
  exact { hidle with answers := h.answers.concat (.full hlength) }

/-- **An item is constructed** in the slot at the tail. -/
theorem construct (h : s.Holds Capacity first items) {item : α} {tail next_tail : ℕ}
    (hpc : s.producer = .construct item tail next_tail) :
    ({ s with
      buffer_ := Function.update s.buffer_ tail (some item)
      producer := .storeTail item next_tail } : State α).Holds Capacity first items := by
  have hok := h.producer
  have hcache := h.cache
  have hlt := h.length_lt
  rw [hpc] at hok hcache hlt
  obtain ⟨rfl, rfl⟩ := hok
  have hlt : items.length + 1 < Capacity.size := hlt
  obtain ⟨hemptied, htaken⟩ := taken_le h.consumer
  refine ⟨h.head, h.tail, hcache, ?_, ?_, h.answers, ?_, h.consumer⟩
  · have hkept : contents _ (Function.update s.buffer_ ((first + s.consumer.taken + _) % _) _)
        (first + s.consumer.taken) _ = contents _ s.buffer_ _ _ :=
      contents_update (show items.length - s.consumer.taken < Capacity.size by omega) (some item)
    rw [show first + s.consumer.taken + (items.length - s.consumer.taken)
      = first + items.length by omega] at hkept
    exact hkept.trans h.stored
  · intro p hback hp
    have hback : first + items.length + 1 ≤ p := hback
    have hp : p < first + s.consumer.emptied + Capacity.size := hp
    have hslot : p % Capacity.size ≠ (first + items.length) % Capacity.size :=
      mod_ne_of_lt (by omega) (by omega)
    refine (Function.update_of_ne hslot _ _).trans (h.free p ?_ hp)
    rw [hpc]
    exact Nat.le_of_succ_le hback
  · exact ⟨rfl, Function.update_self ..⟩

/-- **An item is accepted**: the tail moves on. -/
theorem storeTail (h : s.Holds Capacity first items) {item : α} {next_tail : ℕ}
    (hpc : s.producer = .storeTail item next_tail) :
    ({ s with
      tail_ := next_tail
      producer := .idle
      answers := s.answers ++ [.enqueued item] } : State α).Holds Capacity first
        (items ++ [item]) := by
  have hok := h.producer
  have hcache := h.cache
  have hlt := h.length_lt
  rw [hpc] at hok hcache hlt
  obtain ⟨rfl, hitem⟩ := hok
  have hlt : items.length + 1 < Capacity.size := hlt
  have hlength : (items ++ [item]).length = items.length + 1 := by simp
  obtain ⟨hemptied, htaken⟩ := taken_le h.consumer
  refine ⟨h.head, ?_, ?_, ?_, ?_, h.answers.concat (.enqueued item (by omega)), trivial, ?_⟩
  · rw [hlength]
    rfl
  · rw [hlength]
    exact hcache
  · show contents _ s.buffer_ (first + s.consumer.taken) _ = _
    rw [hlength, Nat.succ_sub htaken, contents_succ, h.stored, List.drop_append_of_le_length htaken,
      List.map_append, Nat.add_assoc, Nat.add_sub_cancel' htaken, hitem]
    rfl
  · intro p hback hp
    apply h.free p _ hp
    rw [hpc]
    rwa [hlength] at hback
  · have hok := h.consumer
    show ConsumerOk Capacity first _ s.consumer
    cases hc : s.consumer with
    | move head =>
      rw [hc] at hok
      exact ⟨hok.1, by simp⟩
    | destroy head x =>
      rw [hc] at hok
      obtain ⟨hhead, rest, rfl⟩ := hok
      exact ⟨hhead, rest ++ [item], rfl⟩
    | storeHead head x =>
      rw [hc] at hok
      obtain ⟨hhead, rest, rfl⟩ := hok
      exact ⟨hhead, rest ++ [item], rfl⟩
    | _ =>
      rw [hc] at hok
      exact hok

/-- **A step of the producer** keeps the invariant. -/
theorem stepProducer (h : s.Holds Capacity first items)
    (hstep : s.stepProducer Capacity = some s') : ∃ items', s'.Holds Capacity first items' := by
  unfold State.stepProducer at hstep
  cases hpc : s.producer with
  | idle =>
    rw [hpc] at hstep
    exact absurd hstep.symm (Option.some_ne_none _)
  | loadTail item =>
    rw [hpc] at hstep
    dsimp only at hstep
    have hold : s.producer.constructed = 0 := by rw [hpc]; rfl
    have hcache := h.cache
    rw [hpc] at hcache
    have hnext : nextIndex Capacity s.tail_ = (first + items.length + 1) % Capacity.size := by
      rw [h.tail, nextIndex_mod]
    rw [hnext] at hstep
    split_ifs at hstep with hroom
    · obtain rfl := Option.some.inj hstep
      exact ⟨items, h.moveProducer (.loadHead item _ _) hcache hold rfl ⟨h.tail, rfl⟩⟩
    · obtain rfl := Option.some.inj hstep
      have hreserve := h.reserve hroom
      exact ⟨items, h.moveProducer (.construct item _ _) hreserve hold rfl ⟨h.tail, rfl⟩⟩
  | loadHead item tail next_tail =>
    have hok := h.producer
    rw [hpc] at hstep hok
    dsimp only at hstep
    split_ifs at hstep with hfull
    · obtain rfl := Option.some.inj hstep
      exact ⟨items, h.full hpc hfull⟩
    · obtain rfl := Option.some.inj hstep
      obtain ⟨rfl, rfl⟩ := hok
      have hold : s.producer.constructed = 0 := by rw [hpc]; rfl
      have hreserve := h.refresh hfull
      exact ⟨items, h.moveProducer (.construct item _ _) hreserve hold rfl ⟨rfl, rfl⟩⟩
  | construct item tail next_tail =>
    rw [hpc] at hstep
    obtain rfl := Option.some.inj hstep
    exact ⟨items, h.construct hpc⟩
  | storeTail item next_tail =>
    rw [hpc] at hstep
    obtain rfl := Option.some.inj hstep
    exact ⟨items ++ [item], h.storeTail hpc⟩

/-! ## Steps of the consumer -/

/-- A consumer that has taken nothing goes on. -/
theorem moveConsumer (h : s.Holds Capacity first items) (pc : Consumer α)
    (hold : s.consumer.taken = 0) (hnew : pc.taken = 0) (hok : ConsumerOk Capacity first items pc) :
    ({ s with consumer := pc } : State α).Holds Capacity first items := by
  have hstored := h.stored
  have hemptied := (taken_le h.consumer).1
  have hemptied' := (taken_le hok).1
  rw [hold] at hstored
  refine ⟨h.head, h.tail, h.cache, ?_, ?_, h.answers, h.producer, hok⟩
  · show contents _ s.buffer_ (first + pc.taken) _ = _
    rw [hnew]
    exact hstored
  · intro p hback hp
    have hp : p < first + pc.emptied + Capacity.size := hp
    apply h.free p hback
    omega

/-- **The queue is empty**: there is no item. -/
theorem empty (h : s.Holds Capacity first items) {head : ℕ}
    (hpc : s.consumer = .loadTail head) (hempty : head = s.tail_) :
    ({ s with consumer := .idle, answers := s.answers ++ [.empty] } : State α).Holds Capacity
      first items := by
  have hok := h.consumer
  rw [hpc] at hok
  obtain rfl : head = first % Capacity.size := hok
  rw [h.tail] at hempty
  have hlt := h.length_lt
  have hlength := eq_of_mod_eq hempty (by omega) (by omega)
  have hnil : items = [] := List.eq_nil_of_length_eq_zero (by omega)
  have hidle := h.moveConsumer .idle (by rw [hpc]; rfl) rfl trivial
  subst hnil
  exact { hidle with answers := h.answers.concat .empty }

/-- What the producer has constructed is not at the head of a queue that holds items. -/
theorem producer_update (h : s.Holds Capacity first items) (hne : items ≠ []) (x : Option α) :
    ({ s with buffer_ := Function.update s.buffer_ (first % Capacity.size) x } :
      State α).ProducerOk Capacity (first + items.length) s.producer := by
  have hok := h.producer
  have hlt := h.length_lt
  have hpos := List.length_pos_of_ne_nil hne
  cases hpc : s.producer with
  | storeTail item next_tail =>
    rw [hpc] at hok hlt
    have hlt : items.length + 1 < Capacity.size := hlt
    have hslot : (first + items.length) % Capacity.size ≠ first % Capacity.size :=
      mod_ne_of_lt (by omega) (by omega)
    exact ⟨hok.1, (Function.update_of_ne hslot _ _).trans hok.2⟩
  | _ =>
    rw [hpc] at hok
    exact hok

/-- **The first item is moved out** of its slot. -/
theorem move (h : s.Holds Capacity first items) (moved : α → α) {head : ℕ}
    (hpc : s.consumer = .move head) :
    ∃ item, s.buffer_ head = some item ∧
      ({ s with
        buffer_ := Function.update s.buffer_ head (some (moved item))
        consumer := .destroy head item } : State α).Holds Capacity first items := by
  have hok := h.consumer
  have hstored := h.stored
  have hlt := h.length_lt
  have hfree := h.free
  rw [hpc] at hok hstored hfree
  obtain ⟨rfl, hne⟩ := hok
  obtain ⟨item, rest, rfl⟩ := List.exists_cons_of_ne_nil hne
  have hstored : contents Capacity.size s.buffer_ first (rest.length + 1)
      = some item :: rest.map some := hstored
  rw [contents_cons] at hstored
  obtain ⟨hitem, hrest⟩ := List.cons.inj hstored
  rw [List.length_cons] at hlt
  refine ⟨item, hitem, h.head, h.tail, h.cache, ?_, ?_, h.answers, h.producer_update hne _,
    ⟨rfl, rest, rfl⟩⟩
  · exact (contents_update_front (show rest.length < Capacity.size by omega) _).trans hrest
  · intro p hback hp
    have hback' : first + (rest.length + 1) + s.producer.constructed ≤ p := hback
    have hp' : p < first + 0 + Capacity.size := hp
    have hslot : p % Capacity.size ≠ first % Capacity.size :=
      mod_ne_of_lt (by omega) (by omega)
    exact (Function.update_of_ne hslot _ _).trans (hfree p hback hp)

/-- **What is left of the first item is destroyed.** -/
theorem destroy (h : s.Holds Capacity first items) {head : ℕ} {item : α}
    (hpc : s.consumer = .destroy head item) :
    ({ s with
      buffer_ := Function.update s.buffer_ head none
      consumer := .storeHead head item } : State α).Holds Capacity first items := by
  have hok := h.consumer
  have hstored := h.stored
  have hlt := h.length_lt
  have hfree := h.free
  rw [hpc] at hok hstored hfree
  obtain ⟨rfl, rest, rfl⟩ := hok
  have hstored : contents Capacity.size s.buffer_ (first + 1) rest.length = rest.map some :=
    hstored
  rw [List.length_cons] at hlt
  refine ⟨h.head, h.tail, h.cache, ?_, ?_, h.answers, h.producer_update (List.cons_ne_nil _ _) _,
    ⟨rfl, rest, rfl⟩⟩
  · exact (contents_update_front (show rest.length < Capacity.size by omega) _).trans hstored
  · intro p hback hp
    have hback' : first + (rest.length + 1) + s.producer.constructed ≤ p := hback
    have hp' : p < first + 1 + Capacity.size := hp
    by_cases hround : p = first + Capacity.size
    · -- the slot is the one that was destroyed
      rw [hround, Nat.add_mod_right]
      exact Function.update_self ..
    · have hslot : p % Capacity.size ≠ first % Capacity.size :=
        mod_ne_of_lt (by omega) (by omega)
      exact (Function.update_of_ne hslot _ _).trans (hfree p hback (by
        show p < first + 0 + Capacity.size
        omega))

/-- **The first item is returned**: the head moves on. -/
theorem storeHead (h : s.Holds Capacity first items) {head : ℕ} {item : α}
    (hpc : s.consumer = .storeHead head item) :
    ∃ rest, ({ s with
      head_ := nextIndex Capacity head
      consumer := .idle
      answers := s.answers ++ [.dequeued item] } : State α).Holds Capacity (first + 1) rest := by
  have hok := h.consumer
  have hstored := h.stored
  have hfree := h.free
  rw [hpc] at hok hstored hfree
  obtain ⟨rfl, rest, rfl⟩ := hok
  have hback : first + 1 + rest.length = first + (item :: rest).length := by
    rw [List.length_cons]
    omega
  obtain ⟨cached, hle, hcached, hlt⟩ := h.cache
  refine ⟨rest, nextIndex_mod .., ?_, ⟨cached, Nat.le_succ_of_le hle, hcached, ?_⟩, hstored, ?_,
    h.answers.concat (.dequeued item rest), ?_, trivial⟩
  · rw [hback]
    exact h.tail
  · rw [hback]
    exact hlt
  · rw [hback]
    exact hfree
  · rw [hback]
    exact h.producer

/-- **A step of the consumer** keeps the invariant. -/
theorem stepConsumer (h : s.Holds Capacity first items) (moved : α → α) :
    ∃ first' items', (s.stepConsumer Capacity moved).Holds Capacity first' items' := by
  unfold State.stepConsumer
  cases hpc : s.consumer with
  | idle => exact ⟨first, items, h.moveConsumer (.loadTail _) (by rw [hpc]; rfl) rfl h.head⟩
  | loadTail head =>
    dsimp only
    split_ifs with hempty
    · exact ⟨first, items, h.empty hpc hempty⟩
    · have hok := h.consumer
      rw [hpc] at hok
      obtain rfl : head = first % Capacity.size := hok
      refine ⟨first, items, h.moveConsumer (.move _) (by rw [hpc]; rfl) rfl ⟨rfl, ?_⟩⟩
      rintro rfl
      exact hempty h.tail.symm
  | move head =>
    obtain ⟨item, hitem, hmove⟩ := h.move moved hpc
    dsimp only
    rw [hitem]
    exact ⟨first, items, hmove⟩
  | destroy head item => exact ⟨first, items, h.destroy hpc⟩
  | storeHead head item =>
    obtain ⟨rest, hrest⟩ := h.storeHead hpc
    exact ⟨first + 1, rest, hrest⟩
  | emptyRead =>
    have hok := h.consumer
    rw [hpc] at hok
    exact absurd hok not_false

/-! ## Runs -/

/-- **A step** keeps the invariant. -/
theorem next (h : s.Holds Capacity first items) {moved : α → α} {a : Action α}
    (hstep : Cached.next Capacity moved s a = some s') :
    ∃ first' items', s'.Holds Capacity first' items' := by
  cases a with
  | enqueue item =>
    have hstep : s.enqueue item = some s' := hstep
    unfold State.enqueue at hstep
    cases hpc : s.producer with
    | idle =>
      rw [hpc] at hstep
      obtain rfl := Option.some.inj hstep
      have hcache := h.cache
      rw [hpc] at hcache
      exact ⟨first, items, h.moveProducer (.loadTail item) hcache (by rw [hpc]; rfl) rfl trivial⟩
    | _ =>
      rw [hpc] at hstep
      exact absurd hstep.symm (Option.some_ne_none _)
  | producer =>
    obtain ⟨items', h'⟩ := h.stepProducer hstep
    exact ⟨first, items', h'⟩
  | consumer =>
    obtain rfl := Option.some.inj hstep
    exact h.stepConsumer moved

end State.Holds

/-- **The queue is correct**, for every capacity and any order of the steps of the producer and
the consumer. -/
theorem correct_of_reachable {moved : α → α} (h : (system Capacity moved).Reachable s) :
    s.Correct Capacity := by
  have hinvariant : ∃ first items, s.Holds Capacity first items := by
    apply h.invariant
    · rintro s rfl
      exact ⟨0, [], State.Holds.start_holds⟩
    · rintro s a s' ⟨first, items, hs⟩ hstep
      exact hs.next hstep
  obtain ⟨first, items, hholds⟩ := hinvariant
  exact hholds.correct

/-! ## A queue of two slots -/

open PowerOfTwo (two)

/-- An item is accepted and returned.  The producer has to load the head before it accepts
another one, and refuses a third. -/
def threeItems : List (Action ℕ) :=
  Action.enqueue 1 :: List.replicate 3 Action.producer ++ List.replicate 5 Action.consumer
    ++ Action.enqueue 2 :: List.replicate 4 Action.producer
    ++ Action.enqueue 3 :: List.replicate 2 Action.producer

/-- The queue answers as it should. -/
theorem correct_threeItems :
    ∃ s, (system two id).Reachable s ∧
      s.answers = [.enqueued 1, .dequeued 1, .enqueued 2, .full] ∧ s.Correct two := by
  have hrun : ∃ s ∈ runFrom (next two id) (fun _ _ => True) start threeItems,
      s.answers = [.enqueued 1, .dequeued 1, .enqueued 2, .full] := by decide +kernel
  obtain ⟨s, hreach, hanswers⟩ := exists_of_runFrom hrun
  exact ⟨s, hreach, hanswers, correct_of_reachable hreach⟩

end SPSCQueue.Cached
