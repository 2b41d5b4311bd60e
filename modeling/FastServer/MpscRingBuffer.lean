/-
# The ring of many producers and one consumer

`MPSCRingBuffer`: every slot carries a sequence number that says for which position it is
free or filled.  A producer reads the tail, looks at the slot, reserves the position by a
compare-and-swap, writes the item and publishes it; the consumer reads, resets the slot
and moves on.  The positions are 64-bit numbers that wrap.
-/
import FastServer.MachineInt
import FastServer.Ring
import FastServer.TransitionSystem

namespace MPSCRingBuffer

open Ring TransitionSystem

variable {α ι : Type}

/-! ## State -/

/-- Where a producer stands in `push`: about to load the tail, to load the sequence number
of its slot, to compare and swap, to write the item, or to store the sequence number. -/
inductive Producer (α : Type)
  | idle
  | loadTail (item : α)
  | loadSequence (item : α) (current_tail : ℕ)
  | reserve (item : α) (current_tail : ℕ)
  | write (item : α) (current_tail : ℕ)
  | publish (current_tail : ℕ)

/-- Where the consumer stands in `pop`: about to load the sequence number, to read the item,
to reset the sequence number, or to store the head. -/
inductive Consumer (α : Type)
  | idle
  | loadSequence (current_head : ℕ)
  | read (current_head : ℕ)
  | reset (current_head : ℕ) (item : α)
  | advance (current_head : ℕ) (item : α)

/-- The slots, the two counters and the threads.  The other fields are history: the items in
the order of the successful compare-and-swaps, the number of slots that the consumer has
reset, the items that `pop` returned, how many positions were reserved when a producer last
loaded the tail, and for every `push` that returned `false` how many positions were reserved
and not released. -/
structure State (α ι : Type) where
  sequence : ℕ → ℕ
  data : ℕ → α
  head_ : ℕ
  tail_ : ℕ
  producers : ι → Producer α
  consumer : Consumer α
  reserved : List α
  released : ℕ
  popped : List α
  seen : ι → ℕ
  refused : List ℕ

variable (N : PowerOfTwo)

/-- The constructor has run. -/
def start [Inhabited α] : State α ι where
  sequence := fun i => i
  data := fun _ => default
  head_ := 0
  tail_ := 0
  producers := fun _ => .idle
  consumer := .idle
  reserved := []
  released := 0
  popped := []
  seen := fun _ => 0
  refused := []

/-! ## Steps -/

/-- `static_cast<int64_t>(expected_seq) - static_cast<int64_t>(current_tail)`. -/
def diff (expected_seq current_tail : ℕ) : ℤ := toI64 (toI64 expected_seq - toI64 current_tail)

section Steps

variable [DecidableEq ι]

/-- Producer `i` goes on at `pc`. -/
def State.setProducer (s : State α ι) (i : ι) (pc : Producer α) : State α ι :=
  { s with producers := Function.update s.producers i pc }

@[simp] theorem State.setProducer_self (s : State α ι) (i : ι) (pc : Producer α) :
    (s.setProducer i pc).producers i = pc := Function.update_self ..

theorem State.setProducer_of_ne (s : State α ι) {i j : ι} (hj : j ≠ i) (pc : Producer α) :
    (s.setProducer i pc).producers j = s.producers j := Function.update_of_ne hj ..

/-- Producer `i` loads the tail, or is given it by a compare-and-swap that fails. -/
def State.loadTail (s : State α ι) (i : ι) (item : α) : State α ι :=
  { s.setProducer i (.loadSequence item s.tail_) with
    seen := Function.update s.seen i s.reserved.length }

/-- The next step of `push` in producer `i`.  A weak compare-and-swap may fail spuriously. -/
def State.stepProducer (s : State α ι) (i : ι) (spurious : Bool) : Option (State α ι) :=
  match s.producers i with
  | .idle => none
  | .loadTail item => some (s.loadTail i item)
  | .loadSequence item current_tail =>
      if diff (s.sequence (N.mask current_tail)) current_tail = 0 then
        some (s.setProducer i (.reserve item current_tail))
      else if diff (s.sequence (N.mask current_tail)) current_tail < 0 then
        -- the queue is full
        some { s.setProducer i .idle with
          refused := s.refused ++ [s.reserved.length - s.released] }
      else some (s.setProducer i (.loadTail item))
  | .reserve item current_tail =>
      if s.tail_ = current_tail ∧ spurious = false then
        some { s.setProducer i (.write item current_tail) with
          tail_ := (current_tail + 1) % 2 ^ 64
          reserved := s.reserved ++ [item] }
      else some (s.loadTail i item)
  | .write item current_tail =>
      some { s.setProducer i (.publish current_tail) with
        data := Function.update s.data (N.mask current_tail) item }
  | .publish current_tail =>
      some { s.setProducer i .idle with
        sequence :=
          Function.update s.sequence (N.mask current_tail) ((current_tail + 1) % 2 ^ 64) }

omit [DecidableEq ι] in
/-- The next step of the consumer; a new `pop` starts with the load of the head. -/
def State.stepConsumer (s : State α ι) : State α ι :=
  match s.consumer with
  | .idle => { s with consumer := .loadSequence s.head_ }
  | .loadSequence current_head =>
      if s.sequence (N.mask current_head) = (current_head + 1) % 2 ^ 64 then
        { s with consumer := .read current_head }
      else { s with consumer := .idle }
  | .read current_head =>
      { s with consumer := .reset current_head (s.data (N.mask current_head)) }
  | .reset current_head item =>
      { s with
        sequence :=
          Function.update s.sequence (N.mask current_head) ((current_head + N.size) % 2 ^ 64)
        consumer := .advance current_head item
        released := s.released + 1 }
  | .advance current_head item =>
      { s with
        head_ := (current_head + 1) % 2 ^ 64
        consumer := .idle
        popped := s.popped ++ [item] }

/-- A step of one thread. -/
inductive Action (α ι : Type)
  | push (i : ι) (item : α)
  | producer (i : ι) (spurious : Bool)
  | consumer

/-- A call of `push` by a producer that is not in one. -/
def State.push (s : State α ι) (i : ι) (item : α) : Option (State α ι) :=
  match s.producers i with
  | .idle => some (s.setProducer i (.loadTail item))
  | _ => none

/-- The state after a step, if it is enabled. -/
def next (s : State α ι) : Action α ι → Option (State α ι)
  | .push i item => s.push i item
  | .producer i spurious => s.stepProducer N i spurious
  | .consumer => some (s.stepConsumer N)

variable (α ι) in
/-- The producers and the consumer of a ring of the given size. -/
def system [Inhabited α] : TransitionSystem (State α ι) (Action α ι) :=
  TransitionSystem.ofFunction start (next N)

end Steps

/-! ## What should hold -/

/-- The tail of the slot that a producer is writing: from its compare-and-swap to the store
of the sequence number. -/
def Producer.writing : Producer α → Option ℕ
  | .write _ current_tail => some current_tail
  | .publish current_tail => some current_tail
  | _ => none

/-- The head of the slot that the consumer is reading: from its test of the sequence number
to the store of the new one. -/
def Consumer.reading : Consumer α → Option ℕ
  | .read current_head => some current_head
  | .reset current_head _ => some current_head
  | _ => none

/-- **What the ring promises.**  The items popped are the first ones reserved, in that order;
a `pop` that finds nothing has nothing to find, or its item is still being written; a slot
that is being written is neither written nor read by another thread; and a `push` that
returns `false` finds every slot reserved and not released. -/
structure State.Correct (s : State α ι) : Prop where
  popped : s.popped <+: s.reserved
  nothing : ∀ current_head, s.consumer = .loadSequence current_head →
    s.sequence (N.mask current_head) ≠ (current_head + 1) % 2 ^ 64 →
    s.popped = s.reserved ∨
      ∃ i t, (s.producers i).writing = some t ∧ N.mask t = N.mask current_head
  writers : ∀ i j t t', (s.producers i).writing = some t → (s.producers j).writing = some t' →
    N.mask t = N.mask t' → i = j
  reader : ∀ i t current_head, (s.producers i).writing = some t →
    s.consumer.reading = some current_head → N.mask t ≠ N.mask current_head
  refused : ∀ n ∈ s.refused, n = N.size

/-- Whether a producer is about to look at its slot or to reserve it. -/
def Producer.looking : Producer α → Bool
  | .loadSequence _ _ => true
  | .reserve _ _ => true
  | _ => false

/-- The step is not one of a producer that looks at its slot, or tries to reserve it, after
so many positions were reserved since it read the tail that their distance may not fit an
`int64_t`. -/
def State.Timely (s : State α ι) : Action α ι → Prop
  | .producer i _ =>
      (s.producers i).looking = true → s.reserved.length + N.size ≤ s.seen i + 2 ^ 63
  | _ => True

end MPSCRingBuffer
