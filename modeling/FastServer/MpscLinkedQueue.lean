/-
# The linked queue of many producers and one consumer

The `MPSCQueue` whose nodes carry the index of the next node.  A producer writes its item
into the node at the tail before it has reserved the node: its compare-and-swap moves the
tail only afterwards, and takes whatever node the tail has moved to in the meantime.  The
queue is correct as long as every write goes to a node that nobody else is about to take.
-/
import FastServer.Ring
import FastServer.TransitionSystem

namespace MPSCQueue.Linked

open Ring TransitionSystem

variable {α ι : Type}

/-! ## State -/

/-- Where a producer stands in `enqueue`: about to load the tail, to load the index of the
next node, to compare it with the head, to write the item, to compare and swap, or to load
the index of the next node after a compare-and-swap that failed. -/
inductive Producer (α : Type)
  | idle
  | loadTail (item : α)
  | loadNext (item : α) (tail : ℕ)
  | checkFull (item : α) (tail next : ℕ)
  | write (item : α) (tail next : ℕ)
  | swap (item : α) (tail next : ℕ)
  | reloadNext (item : α) (tail : ℕ)

/-- Where the consumer stands in `dequeue`: about to load the tail, to move the item out of
its node, to load the index of the next node, or to store it in the head. -/
inductive Consumer (α : Type)
  | idle
  | loadTail (head : ℕ)
  | move (head : ℕ)
  | loadNext (head : ℕ) (item : α)
  | storeHead (item : α) (next : ℕ)

/-- The items in the nodes, the two indices and the threads.  The other fields are history:
the items in the order of the successful compare-and-swaps, each with its producer, the
items for which `enqueue` returned `true` in the order of each producer's calls, and the
items that `dequeue` returned. -/
structure State (α ι : Type) where
  data : ℕ → α
  head_ : ℕ
  tail_ : ℕ
  producers : ι → Producer α
  consumer : Consumer α
  accepted : List (ι × α)
  returned : ι → List α
  popped : List α

/-- The constructor has run. -/
def start [Inhabited α] : State α ι where
  data := fun _ => default
  head_ := 0
  tail_ := 0
  producers := fun _ => .idle
  consumer := .idle
  accepted := []
  returned := fun _ => []
  popped := []

/-! ## Steps -/

variable (Capacity : PowerOfTwo)

/-- `buffer_[i].next`, which only the constructor stores. -/
def Node.next (i : ℕ) : ℕ := (i + 1) % Capacity.size

section Steps

variable [DecidableEq ι]

/-- Producer `i` goes on at `pc`. -/
def State.setProducer (s : State α ι) (i : ι) (pc : Producer α) : State α ι :=
  { s with producers := Function.update s.producers i pc }

@[simp] theorem State.setProducer_self (s : State α ι) (i : ι) (pc : Producer α) :
    (s.setProducer i pc).producers i = pc := Function.update_self ..

theorem State.setProducer_of_ne (s : State α ι) {i j : ι} (hj : j ≠ i) (pc : Producer α) :
    (s.setProducer i pc).producers j = s.producers j := Function.update_of_ne hj ..

/-- The next step of `enqueue` in producer `i`.  A weak compare-and-swap may fail spuriously. -/
def State.stepProducer (s : State α ι) (i : ι) (spurious : Bool) : Option (State α ι) :=
  match s.producers i with
  | .idle => none
  | .loadTail item => some (s.setProducer i (.loadNext item s.tail_))
  | .loadNext item tail => some (s.setProducer i (.checkFull item tail (Node.next Capacity tail)))
  | .checkFull item tail next =>
      if next = s.head_ then
        -- the queue is full
        some (s.setProducer i .idle)
      else some (s.setProducer i (.write item tail next))
  | .write item tail next =>
      some { s.setProducer i (.swap item tail next) with data := Function.update s.data tail item }
  | .swap item tail next =>
      if s.tail_ = tail ∧ spurious = false then
        some { s.setProducer i .idle with
          tail_ := next
          accepted := s.accepted ++ [(i, item)]
          returned := Function.update s.returned i (s.returned i ++ [item]) }
      else
        -- the loop goes on with the node at the present tail, which it does not write
        some (s.setProducer i (.reloadNext item s.tail_))
  | .reloadNext item tail => some (s.setProducer i (.swap item tail (Node.next Capacity tail)))

variable (moved : α → α)

omit [DecidableEq ι] in
/-- The next step of the consumer; a new `dequeue` starts with the load of the head.  What
`std::move` leaves of an item in its node is given by `moved`. -/
def State.stepConsumer (s : State α ι) : State α ι :=
  match s.consumer with
  | .idle => { s with consumer := .loadTail s.head_ }
  | .loadTail head =>
      if head = s.tail_ then { s with consumer := .idle } else { s with consumer := .move head }
  | .move head =>
      { s with
        data := Function.update s.data head (moved (s.data head))
        consumer := .loadNext head (s.data head) }
  | .loadNext head item => { s with consumer := .storeHead item (Node.next Capacity head) }
  | .storeHead item next =>
      { s with head_ := next, consumer := .idle, popped := s.popped ++ [item] }

/-- A step of one thread. -/
inductive Action (α ι : Type)
  | enqueue (i : ι) (item : α)
  | producer (i : ι) (spurious : Bool)
  | consumer

/-- A call of `enqueue` by a producer that is not in one. -/
def State.enqueue (s : State α ι) (i : ι) (item : α) : Option (State α ι) :=
  match s.producers i with
  | .idle => some (s.setProducer i (.loadTail item))
  | _ => none

/-- The state after a step, if it is enabled. -/
def next (s : State α ι) : Action α ι → Option (State α ι)
  | .enqueue i item => s.enqueue i item
  | .producer i spurious => s.stepProducer Capacity i spurious
  | .consumer => some (s.stepConsumer Capacity moved)

variable (ι) in
/-- The producers and the consumer of a queue of the given capacity. -/
def system [Inhabited α] : TransitionSystem (State α ι) (Action α ι) :=
  TransitionSystem.ofFunction start (next Capacity moved)

end Steps

/-! ## What should hold -/

/-- The items that `dequeue` has yet to return: the one that the consumer has moved out, and
those in the nodes from the head to the tail. -/
def State.pending (s : State α ι) : List α :=
  match s.consumer with
  | .loadNext head item =>
      item :: queued Capacity.size s.data (Node.next Capacity head) s.tail_
  | .storeHead item next => item :: queued Capacity.size s.data next s.tail_
  | _ => queued Capacity.size s.data s.head_ s.tail_

/-- **What the queue promises.**  The items accepted are those returned followed by those
that stand in the nodes from the head to the tail, in that order; the tail has not run onto
the head; and each producer's items are accepted in the order of its calls. -/
structure State.Correct [DecidableEq ι] (s : State α ι) : Prop where
  fifo : s.accepted.map Prod.snd = s.popped ++ s.pending Capacity
  room : s.accepted.length < s.popped.length + Capacity.size
  order : ∀ i, (s.accepted.filter fun a => a.1 = i).map Prod.snd = s.returned i

/-- Whether a producer has written a node and not yet moved the tail. -/
def Producer.written : Producer α → Bool
  | .swap _ _ _ => true
  | .reloadNext _ _ => true
  | _ => false

/-- The step is not a write into a node that the producer may not get: the tail is where the
producer read it, the queue is not full, and no other producer has written a node and not
yet moved the tail. -/
def State.Unraced (s : State α ι) : Action α ι → Prop
  | .producer i _ =>
      match s.producers i with
      | .write _ tail next =>
          s.tail_ = tail ∧ next ≠ s.head_ ∧ ∀ j, (s.producers j).written = false
      | _ => True
  | _ => True

/-! ## The invariant -/

/-- What a producer at `pc` knows. -/
def State.ProducerOk (s : State α ι) : Producer α → Prop
  | .idle => True
  | .loadTail _ => True
  | .loadNext _ _ => True
  | .checkFull _ tail next => next = Node.next Capacity tail
  | .write _ tail next => next = Node.next Capacity tail
  | .swap item tail next => s.tail_ = tail ∧ next = Node.next Capacity tail ∧
      s.data tail = item ∧ next ≠ s.head_
  | .reloadNext item tail => s.tail_ = tail ∧ s.data tail = item ∧
      Node.next Capacity tail ≠ s.head_

/-- What the consumer knows. -/
def State.ConsumerOk (s : State α ι) : Consumer α → Prop
  | .idle => True
  | .loadTail head => s.head_ = head
  | .move head => s.head_ = head ∧ head ≠ s.tail_
  | .loadNext head _ => s.head_ = head ∧ head ≠ s.tail_
  | .storeHead _ next => next = Node.next Capacity s.head_ ∧ s.head_ ≠ s.tail_

/-- The indices are those of nodes, the nodes between them hold what they should, and at most
one producer has written a node that is not yet its own: the one at the tail. -/
structure State.Invariant [DecidableEq ι] (s : State α ι) : Prop where
  head : s.head_ < Capacity.size
  tail : s.tail_ < Capacity.size
  fifo : s.accepted.map Prod.snd = s.popped ++ s.pending Capacity
  order : ∀ i, (s.accepted.filter fun a => a.1 = i).map Prod.snd = s.returned i
  producers : ∀ i, s.ProducerOk Capacity (s.producers i)
  distinct : ∀ i j, (s.producers i).written → (s.producers j).written → i = j
  consumer : s.ConsumerOk Capacity s.consumer

variable {Capacity} {s s' : State α ι} {i : ι}

theorem next_lt (i : ℕ) : Node.next Capacity i < Capacity.size :=
  Nat.mod_lt _ Capacity.size_pos

/-- Different nodes are followed by different nodes. -/
theorem next_ne {i j : ℕ} (hi : i < Capacity.size) (hj : j < Capacity.size) (h : i ≠ j) :
    Node.next Capacity i ≠ Node.next Capacity j :=
  succ_mod_ne_succ_mod hi hj h

/-- What a producer knows that has not written its node does not depend on the queue. -/
theorem State.ProducerOk.of_not_written {pc : Producer α} (h : s.ProducerOk Capacity pc)
    (hwritten : pc.written = false) : s'.ProducerOk Capacity pc := by
  cases pc with
  | swap => exact absurd hwritten.symm Bool.false_ne_true
  | reloadNext => exact absurd hwritten.symm Bool.false_ne_true
  | _ => exact h

namespace State.Invariant

variable [DecidableEq ι]

/-- What is pending are the items between the two indices. -/
theorem length_pending (h : s.Invariant Capacity) :
    (s.pending Capacity).length = used Capacity.size s.head_ s.tail_ := by
  have hok := h.consumer
  unfold State.pending
  cases hpc : s.consumer with
  | loadNext head item =>
    rw [hpc] at hok
    obtain ⟨rfl, hne⟩ := hok
    dsimp only
    rw [List.length_cons, queued, length_contents]
    exact (used_pop h.head h.tail hne).symm
  | storeHead item next =>
    rw [hpc] at hok
    obtain ⟨rfl, hne⟩ := hok
    dsimp only
    rw [List.length_cons, queued, length_contents]
    exact (used_pop h.head h.tail hne).symm
  | _ => exact length_contents ..

/-- **The invariant is what the queue promises.** -/
theorem correct (h : s.Invariant Capacity) : s.Correct Capacity where
  fifo := h.fifo
  room := by
    have hlength := congrArg List.length h.fifo
    rw [List.length_map, List.length_append, h.length_pending] at hlength
    have hlt := used_lt h.head s.tail_
    omega
  order := h.order

theorem start_invariant [Inhabited α] : (start : State α ι).Invariant Capacity where
  head := Capacity.size_pos
  tail := Capacity.size_pos
  fifo := ((queued_eq_nil_iff Capacity.size_pos Capacity.size_pos).mpr rfl).symm
  order := fun _ => rfl
  producers := fun _ => trivial
  distinct := fun _ _ hi _ => absurd hi Bool.false_ne_true
  consumer := trivial

/-! ## Steps of a producer -/

/-- A producer goes on without a change of the queue. -/
theorem move (h : s.Invariant Capacity) {pc : Producer α}
    (hwritten : pc.written → (s.producers i).written) (hok : s.ProducerOk Capacity pc) :
    (s.setProducer i pc).Invariant Capacity where
  head := h.head
  tail := h.tail
  fifo := h.fifo
  order := h.order
  producers := by
    intro j
    by_cases hj : j = i
    · subst hj
      rw [State.setProducer_self]
      exact hok
    · rw [State.setProducer_of_ne s hj]
      exact h.producers j
  distinct := unique_update h.distinct hwritten
  consumer := h.consumer

/-- A write to the node at the tail changes nothing that is pending. -/
theorem pending_write (h : s.Invariant Capacity) (item : α) :
    ({ s with data := Function.update s.data s.tail_ item } : State α ι).pending Capacity
      = s.pending Capacity := by
  have hok := h.consumer
  unfold State.pending
  cases hpc : s.consumer with
  | loadNext head x =>
    rw [hpc] at hok
    dsimp only
    rw [queued_update (next_lt _) h.tail]
  | storeHead x next =>
    rw [hpc] at hok
    obtain ⟨rfl, -⟩ := hok
    dsimp only
    rw [queued_update (next_lt _) h.tail]
  | _ => exact queued_update h.head h.tail item

/-- **An item is written** into the node at the tail. -/
theorem write (h : s.Invariant Capacity) {item : α} {next : ℕ}
    (hnext : next = Node.next Capacity s.tail_) (hroom : next ≠ s.head_)
    (hall : ∀ j, (s.producers j).written = false) :
    ({ s.setProducer i (.swap item s.tail_ next) with
      data := Function.update s.data s.tail_ item } : State α ι).Invariant Capacity := by
  refine ⟨h.head, h.tail, ?_, h.order, ?_, ?_, h.consumer⟩
  · exact h.fifo.trans (congrArg (s.popped ++ ·) (h.pending_write item).symm)
  · intro j
    show State.ProducerOk Capacity _ ((s.setProducer i _).producers j)
    by_cases hj : j = i
    · subst hj
      rw [State.setProducer_self]
      exact ⟨rfl, hnext, Function.update_self .., hroom⟩
    · rw [State.setProducer_of_ne s hj]
      exact (h.producers j).of_not_written (hall j)
  · -- no other producer has written
    exact unique_update_of_others fun j _ => hall j

/-- One more item is pending when the tail moves on. -/
theorem pending_push (h : s.Invariant Capacity) (hroom : Node.next Capacity s.tail_ ≠ s.head_) :
    ({ s with tail_ := Node.next Capacity s.tail_ } : State α ι).pending Capacity
      = s.pending Capacity ++ [s.data s.tail_] := by
  have hok := h.consumer
  unfold State.pending
  cases hpc : s.consumer with
  | loadNext head x =>
    rw [hpc] at hok
    obtain ⟨rfl, hne⟩ := hok
    have hne := next_ne h.tail h.head hne.symm
    exact congrArg (x :: ·) (queued_push (next_lt _) h.tail hne)
  | storeHead x next =>
    rw [hpc] at hok
    obtain ⟨rfl, hne⟩ := hok
    have hne := next_ne h.tail h.head hne.symm
    exact congrArg (x :: ·) (queued_push (next_lt _) h.tail hne)
  | _ => exact queued_push h.head h.tail hroom

/-- **The tail moves on**, and the item of the producer that moves it is accepted. -/
theorem swap (h : s.Invariant Capacity) {item : α} {next : ℕ}
    (hpc : s.producers i = .swap item s.tail_ next) :
    ({ s.setProducer i .idle with
      tail_ := next
      accepted := s.accepted ++ [(i, item)]
      returned := Function.update s.returned i (s.returned i ++ [item]) } :
        State α ι).Invariant Capacity := by
  have hok := h.producers i
  rw [hpc] at hok
  obtain ⟨-, rfl, hitem, hroom⟩ := hok
  have hothers : ∀ {j}, j ≠ i → (s.producers j).written = false := by
    intro j hj
    by_contra hwritten
    exact hj (h.distinct j i (Bool.not_eq_false _ ▸ hwritten) (by rw [hpc]; rfl))
  refine ⟨h.head, next_lt _, ?_, ?_, ?_, ?_, ?_⟩
  · have hpush := h.pending_push hroom
    rw [hitem] at hpush
    show (s.accepted ++ [(i, item)]).map Prod.snd = s.popped ++ _
    rw [List.map_append, h.fifo, List.append_assoc]
    exact congrArg (s.popped ++ ·) hpush.symm
  · intro j
    show ((s.accepted ++ [(i, item)]).filter fun a => a.1 = j).map Prod.snd
      = Function.update s.returned i (s.returned i ++ [item]) j
    rw [List.filter_append, List.map_append, h.order j]
    by_cases hj : j = i
    · subst hj
      rw [Function.update_self, List.filter_singleton, decide_eq_true rfl]
      rfl
    · rw [Function.update_of_ne hj, List.filter_singleton, decide_eq_false (Ne.symm hj)]
      exact List.append_nil _
  · intro j
    show State.ProducerOk Capacity _ ((s.setProducer i .idle).producers j)
    by_cases hj : j = i
    · subst hj
      rw [State.setProducer_self]
      trivial
    · rw [State.setProducer_of_ne s hj]
      exact (h.producers j).of_not_written (hothers hj)
  · exact unique_update_of_others fun j => hothers
  · -- the head is still behind the tail
    have hok := h.consumer
    show State.ConsumerOk Capacity _ s.consumer
    cases hc : s.consumer with
    | idle => trivial
    | loadTail head =>
      rw [hc] at hok
      exact hok
    | storeHead x next =>
      rw [hc] at hok
      exact ⟨hok.1, hroom.symm⟩
    | _ =>
      rw [hc] at hok
      exact ⟨hok.1, fun heq => hroom (heq.symm.trans hok.1.symm)⟩

/-- **A step of a producer** that does not write into a node it may not get. -/
theorem stepProducer (h : s.Invariant Capacity) {spurious : Bool}
    (hunraced : s.Unraced (.producer i spurious))
    (hstep : s.stepProducer Capacity i spurious = some s') : s'.Invariant Capacity := by
  have hok := h.producers i
  unfold State.stepProducer at hstep
  cases hpc : s.producers i with
  | idle =>
    rw [hpc] at hstep
    exact absurd hstep.symm (Option.some_ne_none _)
  | loadTail item =>
    rw [hpc] at hstep
    obtain rfl := Option.some.inj hstep
    exact h.move (fun hw => absurd hw Bool.false_ne_true) trivial
  | loadNext item tail =>
    rw [hpc] at hstep
    obtain rfl := Option.some.inj hstep
    exact h.move (fun hw => absurd hw Bool.false_ne_true) rfl
  | checkFull item tail next =>
    rw [hpc] at hstep hok
    dsimp only at hstep
    split_ifs at hstep with hfull
    · obtain rfl := Option.some.inj hstep
      exact h.move (fun hw => absurd hw Bool.false_ne_true) trivial
    · obtain rfl := Option.some.inj hstep
      exact h.move (fun hw => absurd hw Bool.false_ne_true) hok
  | write item tail next =>
    rw [hpc] at hstep hok
    simp only [State.Unraced, hpc] at hunraced
    obtain ⟨rfl, hroom, hall⟩ := hunraced
    obtain rfl := Option.some.inj hstep
    exact h.write hok hroom hall
  | swap item tail next =>
    rw [hpc] at hstep hok
    obtain ⟨rfl, hnext, hitem, hroom⟩ := hok
    dsimp only at hstep
    split_ifs at hstep with hswap
    · obtain rfl := Option.some.inj hstep
      exact h.swap hpc
    · obtain rfl := Option.some.inj hstep
      exact h.move (fun _ => by rw [hpc]; rfl) ⟨rfl, hitem, hnext ▸ hroom⟩
  | reloadNext item tail =>
    rw [hpc] at hstep hok
    obtain ⟨rfl, hitem, hroom⟩ := hok
    obtain rfl := Option.some.inj hstep
    exact h.move (fun _ => by rw [hpc]; rfl) ⟨rfl, rfl, hitem, hroom⟩

/-! ## Steps of the consumer -/

/-- The consumer goes on without a change of the queue. -/
theorem moveConsumer (h : s.Invariant Capacity) {pc : Consumer α}
    (hpending : ({ s with consumer := pc } : State α ι).pending Capacity = s.pending Capacity)
    (hok : s.ConsumerOk Capacity pc) :
    ({ s with consumer := pc } : State α ι).Invariant Capacity where
  head := h.head
  tail := h.tail
  fifo := h.fifo.trans (congrArg (s.popped ++ ·) hpending.symm)
  order := h.order
  producers := h.producers
  distinct := h.distinct
  consumer := hok

/-- **An item is moved out** of the node at the head. -/
theorem moveOut (h : s.Invariant Capacity) {moved : α → α} (hpc : s.consumer = .move s.head_)
    (hne : s.head_ ≠ s.tail_) :
    ({ s with
      data := Function.update s.data s.head_ (moved (s.data s.head_))
      consumer := .loadNext s.head_ (s.data s.head_) } : State α ι).Invariant Capacity := by
  refine ⟨h.head, h.tail, ?_, h.order, ?_, h.distinct, rfl, hne⟩
  · rw [h.fifo, State.pending, hpc]
    dsimp only
    rw [queued_pop h.head h.tail hne, State.pending]
    exact congrArg (s.popped ++ s.data s.head_ :: ·)
      (queued_update_head h.head h.tail hne _).symm
  · intro j
    have hok := h.producers j
    show State.ProducerOk Capacity _ (s.producers j)
    cases hpcj : s.producers j with
    | swap item tail next =>
      rw [hpcj] at hok
      obtain ⟨rfl, hnext, hitem, hroom⟩ := hok
      exact ⟨rfl, hnext, (Function.update_of_ne hne.symm _ _).trans hitem, hroom⟩
    | reloadNext item tail =>
      rw [hpcj] at hok
      obtain ⟨rfl, hitem, hroom⟩ := hok
      exact ⟨rfl, (Function.update_of_ne hne.symm _ _).trans hitem, hroom⟩
    | _ =>
      rw [hpcj] at hok
      exact hok

/-- **An item is returned**, and the head moves on. -/
theorem storeHead (h : s.Invariant Capacity) {item : α} {next : ℕ}
    (hpc : s.consumer = .storeHead item next) :
    ({ s with head_ := next, consumer := .idle, popped := s.popped ++ [item] } :
      State α ι).Invariant Capacity := by
  have hok := h.consumer
  rw [hpc] at hok
  obtain ⟨rfl, hne⟩ := hok
  refine ⟨next_lt _, h.tail, ?_, h.order, ?_, h.distinct, trivial⟩
  · rw [h.fifo, State.pending, hpc]
    exact (List.append_assoc s.popped [item] _).symm
  · intro j
    have hok := h.producers j
    show State.ProducerOk Capacity _ (s.producers j)
    cases hpcj : s.producers j with
    | swap item tail next =>
      rw [hpcj] at hok
      obtain ⟨rfl, hnext, hitem, -⟩ := hok
      exact ⟨rfl, hnext, hitem, hnext ▸ next_ne h.tail h.head hne.symm⟩
    | reloadNext item tail =>
      rw [hpcj] at hok
      obtain ⟨rfl, hitem, -⟩ := hok
      exact ⟨rfl, hitem, next_ne h.tail h.head hne.symm⟩
    | _ =>
      rw [hpcj] at hok
      exact hok

/-- **A step of the consumer** keeps the invariant. -/
theorem stepConsumer (h : s.Invariant Capacity) (moved : α → α) :
    (s.stepConsumer Capacity moved).Invariant Capacity := by
  have hok := h.consumer
  unfold State.stepConsumer
  cases hpc : s.consumer with
  | idle => exact h.moveConsumer (by rw [State.pending, State.pending, hpc]) rfl
  | loadTail head =>
    rw [hpc] at hok
    dsimp only
    split_ifs with hempty
    · exact h.moveConsumer (by rw [State.pending, State.pending, hpc]) trivial
    · exact h.moveConsumer (by rw [State.pending, State.pending, hpc]) ⟨hok, hempty⟩
  | move head =>
    rw [hpc] at hok
    obtain ⟨rfl, hne⟩ := hok
    exact h.moveOut hpc hne
  | loadNext head item =>
    rw [hpc] at hok
    obtain ⟨rfl, hne⟩ := hok
    exact h.moveConsumer (by rw [State.pending, State.pending, hpc]) ⟨rfl, hne⟩
  | storeHead item next => exact h.storeHead hpc

/-- **A step** that is not a write into a node that the producer may not get. -/
theorem next (h : s.Invariant Capacity) {moved : α → α} {a : Action α ι} (hunraced : s.Unraced a)
    (hstep : Linked.next Capacity moved s a = some s') : s'.Invariant Capacity := by
  cases a with
  | enqueue i item =>
    have hstep : s.enqueue i item = some s' := hstep
    unfold State.enqueue at hstep
    cases hpc : s.producers i with
    | idle =>
      rw [hpc] at hstep
      obtain rfl := Option.some.inj hstep
      exact h.move (fun hw => absurd hw Bool.false_ne_true) trivial
    | _ =>
      rw [hpc] at hstep
      exact absurd hstep.symm (Option.some_ne_none _)
  | producer i spurious => exact h.stepProducer hunraced hstep
  | consumer =>
    obtain rfl := Option.some.inj hstep
    exact h.stepConsumer moved

end State.Invariant

variable [DecidableEq ι] [Inhabited α] {moved : α → α}

/-- **The queue is correct**, for any number of producers and any order of the steps, in every
run in which a producer writes only into the node at the tail, when the queue is not full and
no other producer has written it. -/
theorem correct_of_unraced (h : (system ι Capacity moved).ReachableBy State.Unraced s) :
    s.Correct Capacity := by
  have hinvariant : s.Invariant Capacity := by
    apply h.invariant
    · rintro s rfl
      exact State.Invariant.start_invariant
    · intro s a s' hs hunraced hstep
      exact hs.next hunraced hstep
  exact hinvariant.correct

instance [Fintype ι] (s : State α ι) : DecidablePred s.Unraced
  | .producer i _ => by
      unfold State.Unraced
      dsimp only
      split <;> infer_instance
  | .enqueue _ _ => .isTrue trivial
  | .consumer => .isTrue trivial

/-! ## Two producers -/

open PowerOfTwo (two)

/-- The steps of `enqueue` up to the write. -/
def writeSteps (i : Bool) (item : ℕ) : List (Action ℕ Bool) :=
  .enqueue i item :: List.replicate 4 (.producer i false)

/-- Both producers enqueue, the first of them after a spurious failure; an item is dequeued,
the first producer enqueues once more, and the other items are dequeued. -/
def bothEnqueue : List (Action ℕ Bool) :=
  List.flatten [writeSteps false 1, [.producer false true], List.replicate 2 (.producer false false),
    writeSteps true 2, [.producer true false], List.replicate 5 .consumer,
    writeSteps false 3, [.producer false false], List.replicate 10 .consumer]

/-- The items come out of a queue of four nodes in the order in which they were accepted. -/
theorem correct_bothEnqueue :
    ∃ s, (system Bool ⟨2, by decide⟩ id).ReachableBy State.Unraced s ∧
      s.accepted = [(false, 1), (true, 2), (false, 3)] ∧ s.popped = [1, 2, 3] ∧
      s.Correct ⟨2, by decide⟩ := by
  have hrun : ∃ s ∈ runFrom (next ⟨2, by decide⟩ id) State.Unraced start bothEnqueue,
      s.accepted = [(false, 1), (true, 2), (false, 3)] ∧ s.popped = [1, 2, 3] := by
    decide +kernel
  obtain ⟨s, hreach, haccepted, hpopped⟩ := exists_of_runFrom hrun
  exact ⟨s, hreach, haccepted, hpopped, correct_of_unraced hreach⟩

/-- Two producers write the same node before the first of them moves the tail. -/
def sameNode : List (Action ℕ Bool) :=
  writeSteps false 1 ++ writeSteps true 2 ++ .producer false false :: List.replicate 5 .consumer

/-- **The item accepted is not the one that comes out.** -/
theorem not_correct_sameNode :
    ∃ s, (system Bool two id).Reachable s ∧ s.accepted = [(false, 1)] ∧ s.popped = [2] ∧
      ¬ s.Correct two := by
  have hrun : ∃ s ∈ runFrom (next two id) (fun _ _ => True) (start : State ℕ Bool) sameNode,
      s.accepted = [(false, 1)] ∧ s.popped = [2] := by decide +kernel
  obtain ⟨s, hreach, haccepted, hpopped⟩ := exists_of_runFrom hrun
  refine ⟨s, hreach, haccepted, hpopped, fun hcorrect => ?_⟩
  have hfifo := hcorrect.fifo
  rw [haccepted, hpopped] at hfifo
  exact absurd (List.cons.inj hfifo).1 (by decide)

end MPSCQueue.Linked
