/-
# The test of the ring buffer

`test_SPSC`: a producer pushes the items of a loop, a consumer pops as many, each spinning until
its call succeeds, and each adds up what it has handled.  If both threads keep being scheduled,
both loops end and the sums agree.
-/
import FastServer.Liveness
import FastServer.SpscRingBuffer

namespace SPSCRingBuffer

open Ring TransitionSystem BoundedFifo

variable {α : Type}

/-! ## What a call does to the answers -/

/-- The item that is being pushed. -/
def Producer.item? : Producer α → Option α
  | .idle => none
  | .loadTail item | .loadHead item _ | .write item _ | .storeTail item _ => some item

/-- How far a producer is from the end of its call. -/
def Producer.rank : Producer α → ℕ
  | .idle => 5
  | .loadTail _ => 4
  | .loadHead _ _ => 3
  | .write _ _ => 2
  | .storeTail _ _ => 1

/-- How far a consumer is from the end of its call. -/
def Consumer.rank : Consumer α → ℕ
  | .idle => 5
  | .loadHead => 4
  | .loadTail _ => 3
  | .read _ => 2
  | .storeHead _ _ => 1

variable {N : PowerOfTwo} {q : State α} {items : List α}

/-- A step of `push` accepts its item and returns true, or it accepts nothing; and while there is
room it comes closer to its end. -/
structure Pushed (N : PowerOfTwo) (q : State α) (items : List α) (r : State α × Option Bool) :
    Prop where
  consumer : r.1.consumer = q.consumer
  returned : returned r.1.answers = returned q.answers
  accepted : (r.2 = some true ∧ r.1.producer = .idle ∧
      ∃ x ∈ q.producer.item?, accepted r.1.answers = accepted q.answers ++ [x]) ∨
    (r.2 ≠ some true ∧ accepted r.1.answers = accepted q.answers ∧
      ∀ x ∈ r.1.producer.item?, x ∈ q.producer.item?)
  rank : items.length < N.size → r.2 = some true ∨ r.1.producer.rank < q.producer.rank

/-- A step of `pop` returns an item, or it returns none; and while there is one it comes closer
to its end. -/
structure Popped (q : State α) (items : List α) (r : State α × Option (Option α)) : Prop where
  producer : r.1.producer = q.producer
  accepted : accepted r.1.answers = accepted q.answers
  returned : (∃ x, r.2 = some (some x) ∧ r.1.consumer = .idle ∧
      returned r.1.answers = returned q.answers ++ [x]) ∨
    (∀ x, r.2 ≠ some (some x)) ∧ returned r.1.answers = returned q.answers
  rank : items ≠ [] → (∃ x, r.2 = some (some x)) ∨ r.1.consumer.rank < q.consumer.rank

theorem Pushes.pushed {r : State α × Option Bool} (h : Pushes N q items r) :
    Pushed N q items r := by
  cases h with
  | loadTail x hpc =>
    refine ⟨rfl, rfl, Or.inr ⟨by simp, rfl, ?_⟩, fun _ => Or.inr ?_⟩
    · simp [hpc, Producer.item?]
    · simp [hpc, Producer.rank]
  | full x t hpc hfull =>
    refine ⟨rfl, ?_, Or.inr ⟨by simp, ?_, ?_⟩, fun hroom => ?_⟩
    · simp [Answer.returned]
    · simp [Answer.accepted]
    · simp [Producer.item?]
    · omega
  | room x t hpc hroom =>
    refine ⟨rfl, rfl, Or.inr ⟨by simp, rfl, ?_⟩, fun _ => Or.inr ?_⟩
    · simp [hpc, Producer.item?]
    · simp [hpc, Producer.rank]
  | write x t hpc =>
    refine ⟨rfl, rfl, Or.inr ⟨by simp, rfl, ?_⟩, fun _ => Or.inr ?_⟩
    · simp [hpc, Producer.item?]
    · simp [hpc, Producer.rank]
  | storeTail x t hpc =>
    refine ⟨rfl, ?_, Or.inl ⟨rfl, rfl, x, ?_, ?_⟩, fun _ => Or.inl rfl⟩
    · simp [Answer.returned]
    · simp [hpc, Producer.item?]
    · simp [Answer.accepted]

theorem Pops.popped {r : State α × Option (Option α)} (h : Pops N q items r) :
    Popped q items r := by
  cases h with
  | loadHead hpc =>
    refine ⟨rfl, rfl, Or.inr ⟨by simp, rfl⟩, fun _ => Or.inr ?_⟩
    simp [hpc, Consumer.rank]
  | empty h hpc hempty =>
    refine ⟨rfl, ?_, Or.inr ⟨by simp, ?_⟩, fun hne => absurd hempty hne⟩
    · simp [Answer.accepted]
    · simp [Answer.returned]
  | some_item h hpc hne =>
    refine ⟨rfl, rfl, Or.inr ⟨by simp, rfl⟩, fun _ => Or.inr ?_⟩
    simp [hpc, Consumer.rank]
  | read h hpc =>
    refine ⟨rfl, rfl, Or.inr ⟨by simp, rfl⟩, fun _ => Or.inr ?_⟩
    simp [hpc, Consumer.rank]
  | storeHead h x hpc =>
    refine ⟨rfl, ?_, Or.inl ⟨x, rfl, rfl, ?_⟩, fun _ => Or.inl ⟨x, rfl⟩⟩
    · simp [Answer.accepted]
    · simp [Answer.returned]

/-! ## The two loops -/

section Test

variable [AddMonoid α]

/-- The queue, the indices of the loops and the sums. -/
structure TestState (α : Type) where
  queue : State α
  i : ℕ
  j : ℕ
  producer_sum : α
  consumer_sum : α

/-- Both threads are about to enter their loops. -/
def testStart (memory : ℕ → α) : TestState α := ⟨start memory, 0, 0, 0, 0⟩

/-- The threads of the test. -/
inductive Thread
  | producer
  | consumer
deriving DecidableEq

variable (N : PowerOfTwo) (test_count : ℕ) (item : ℕ → α)

/-- `push` has made a step. -/
def TestState.afterPush (s : TestState α) (r : State α × Option Bool) : TestState α :=
  match r.2 with
  | some true => { s with queue := r.1, i := s.i + 1, producer_sum := s.producer_sum + item s.i }
  | _ => { s with queue := r.1 }

/-- `pop` has made a step. -/
def TestState.afterPop (s : TestState α) (r : State α × Option (Option α)) : TestState α :=
  match r.2 with
  | some (some val) => { s with queue := r.1, j := s.j + 1, consumer_sum := s.consumer_sum + val }
  | _ => { s with queue := r.1 }

/-- The next step of the producer: `push_busywait` calls `push` until it returns true. -/
def TestState.producerStep (s : TestState α) : Option (TestState α) :=
  match s.queue.producer with
  | .idle =>
      if s.i < test_count then (s.queue.push (item s.i)).map fun queue => { s with queue := queue }
      else none
  | _ => (s.queue.stepPush N).map (s.afterPush item)

/-- The next step of the consumer: `pop_busywait` calls `pop` until it returns true. -/
def TestState.consumerStep (s : TestState α) : Option (TestState α) :=
  match s.queue.consumer with
  | .idle =>
      if s.j < test_count then s.queue.pop.map fun queue => { s with queue := queue } else none
  | _ => (s.queue.stepPop N).map s.afterPop

/-- The state after a step of a thread, if it has one. -/
def testNext (s : TestState α) : Thread → Option (TestState α)
  | .producer => s.producerStep N test_count item
  | .consumer => s.consumerStep N test_count

/-- `test_SPSC`. -/
def test_SPSC (memory : ℕ → α) : TransitionSystem (TestState α) Thread :=
  TransitionSystem.ofFunction (testStart memory) (testNext N test_count item)

/-! ## The invariant -/

/-- Between the threads stand the items pushed and not popped yet; the sums are those of the
items on either side. -/
structure TestState.Ok (N : PowerOfTwo) (test_count : ℕ) (item : ℕ → α) (s : TestState α)
    (first : ℕ) (items : List α) : Prop where
  holds : s.queue.Holds N first items
  accepted : accepted s.queue.answers = (List.range s.i).map item
  length : (returned s.queue.answers).length = s.j
  producer_sum : s.producer_sum = ((List.range s.i).map item).sum
  consumer_sum : s.consumer_sum = (returned s.queue.answers).sum
  i_le : s.i ≤ test_count
  j_le : s.j ≤ test_count
  pushing : ∀ x ∈ s.queue.producer.item?, x = item s.i ∧ s.i < test_count
  popping : s.queue.consumer ≠ .idle → s.j < test_count

variable {N test_count item} {s s' : TestState α} {first : ℕ}

namespace TestState

theorem afterPush_of_eq {r : State α × Option Bool} (h : r.2 = some true) :
    s.afterPush item r
      = { s with queue := r.1, i := s.i + 1, producer_sum := s.producer_sum + item s.i } := by
  rw [afterPush, h]

theorem afterPush_of_ne {r : State α × Option Bool} (h : r.2 ≠ some true) :
    s.afterPush item r = { s with queue := r.1 } := by
  rw [afterPush]
  split
  · rename_i htrue
    exact absurd htrue h
  · rfl

theorem afterPop_of_eq {r : State α × Option (Option α)} {x : α} (h : r.2 = some (some x)) :
    s.afterPop r = { s with queue := r.1, j := s.j + 1, consumer_sum := s.consumer_sum + x } := by
  rw [afterPop, h]

theorem afterPop_of_ne {r : State α × Option (Option α)} (h : ∀ x, r.2 ≠ some (some x)) :
    s.afterPop r = { s with queue := r.1 } := by
  rw [afterPop]
  split
  · rename_i x hx
    exact absurd hx (h x)
  · rfl

end TestState

namespace TestState.Ok

/-- What is pushed and not popped is in the queue. -/
theorem i_eq (h : s.Ok N test_count item first items) : s.i = s.j + items.length := by
  have hlength := congrArg List.length h.holds.answers.accepted_eq
  rw [h.accepted, List.length_map, List.length_range, List.length_append, h.length] at hlength
  exact hlength

/-- **The items arrive in order**, none lost and none twice. -/
theorem returned_eq (h : s.Ok N test_count item first items) :
    returned s.queue.answers = (List.range s.j).map item := by
  have hprefix := h.holds.answers.returned_prefix
  rw [h.accepted] at hprefix
  rw [List.prefix_iff_eq_take.mp hprefix, h.length, ← List.map_take, List.take_range,
    Nat.min_eq_left (by have := h.i_eq; omega)]

theorem start_ok (memory : ℕ → α) : (testStart memory).Ok N test_count item 0 [] where
  holds := .start_holds memory
  accepted := rfl
  length := rfl
  producer_sum := rfl
  consumer_sum := rfl
  i_le := Nat.zero_le _
  j_le := Nat.zero_le _
  pushing := by intro x hx; cases hx
  popping := by intro h; exact absurd rfl h

/-- The producer makes its next call. -/
theorem push (h : s.Ok N test_count item first items) (hlt : s.i < test_count) :
    ({ s with queue := { s.queue with producer := .loadTail (item s.i) } } : TestState α).Ok
      N test_count item first items :=
  { h with
    holds := h.holds.moveProducer _ trivial
    pushing := by
      intro x hx
      exact ⟨(Option.some.inj hx).symm, hlt⟩ }

/-- The consumer makes its next call. -/
theorem pop (h : s.Ok N test_count item first items) (hlt : s.j < test_count) :
    ({ s with queue := { s.queue with consumer := .loadHead } } : TestState α).Ok
      N test_count item first items :=
  { h with
    holds := h.holds.moveConsumer _ trivial
    popping := fun _ => hlt }

end TestState.Ok

/-- **A step of the producer**: an item more is accepted, or none and, while there is room, the
call comes closer to its end. -/
theorem TestState.Ok.producerStep (h : s.Ok N test_count item first items)
    (hstep : s.producerStep N test_count item = some s') :
    (∃ first' items', s'.Ok N test_count item first' items') ∧ s'.j = s.j ∧
      s'.queue.consumer = s.queue.consumer ∧
      (s'.i = s.i + 1 ∨ s'.i = s.i ∧
        (s.i < s.j + N.size → s'.queue.producer.rank < s.queue.producer.rank)) := by
  unfold TestState.producerStep at hstep
  split at hstep
  · rename_i hidle
    split_ifs at hstep with hlt
    rw [State.push, hidle, Option.map_some] at hstep
    obtain rfl := Option.some.inj hstep
    refine ⟨⟨first, items, h.push hlt⟩, rfl, rfl, Or.inr ⟨rfl, fun _ => ?_⟩⟩
    rw [hidle]
    exact Nat.lt_succ_self 4
  · obtain ⟨r, hr, rfl⟩ := Option.map_eq_some_iff.mp hstep
    have hpushes := h.holds.pushes hr
    obtain ⟨items', hholds⟩ := hpushes.holds h.holds
    obtain ⟨hconsumer, hreturned, haccepted, hrank⟩ := hpushes.pushed
    have hpopping : r.1.consumer ≠ .idle → s.j < test_count := by
      rw [hconsumer]
      exact h.popping
    rcases haccepted with ⟨htrue, hidle, x, hx, haccepted⟩ | ⟨hnot, haccepted, hitem⟩
    · obtain ⟨rfl, hlt⟩ := h.pushing x hx
      rw [afterPush_of_eq htrue]
      refine ⟨⟨first, items', ?_⟩, rfl, hconsumer, Or.inl rfl⟩
      constructor
      case holds => exact hholds
      case accepted =>
        rw [haccepted, h.accepted, List.range_succ, List.map_append, List.map_singleton]
      case length => exact (congrArg List.length hreturned).trans h.length
      case producer_sum =>
        show s.producer_sum + item s.i = _
        rw [h.producer_sum, List.range_succ, List.map_append, List.sum_append, List.map_singleton,
          List.sum_singleton]
      case consumer_sum => exact h.consumer_sum.trans (congrArg List.sum hreturned).symm
      case i_le => exact hlt
      case j_le => exact h.j_le
      case pushing =>
        intro y hy
        rw [hidle] at hy
        cases hy
      case popping => exact hpopping
    · rw [afterPush_of_ne hnot]
      refine ⟨⟨first, items', ?_⟩, rfl, hconsumer, Or.inr ⟨rfl, fun hroom => ?_⟩⟩
      · exact { h with
          holds := hholds
          accepted := haccepted.trans h.accepted
          length := (congrArg List.length hreturned).trans h.length
          consumer_sum := h.consumer_sum.trans (congrArg List.sum hreturned).symm
          pushing := fun x hx => h.pushing x (hitem x hx)
          popping := hpopping }
      · have hi := h.i_eq
        exact (hrank (by omega)).resolve_left hnot

/-- **A step of the consumer**: an item more is returned, or none and, while there is one, the
call comes closer to its end. -/
theorem TestState.Ok.consumerStep (h : s.Ok N test_count item first items)
    (hstep : s.consumerStep N test_count = some s') :
    (∃ first' items', s'.Ok N test_count item first' items') ∧ s'.i = s.i ∧
      s'.queue.producer = s.queue.producer ∧
      (s'.j = s.j + 1 ∨ s'.j = s.j ∧
        (s.j < s.i → s'.queue.consumer.rank < s.queue.consumer.rank)) := by
  unfold TestState.consumerStep at hstep
  split at hstep
  · rename_i hidle
    split_ifs at hstep with hlt
    rw [State.pop, hidle, Option.map_some] at hstep
    obtain rfl := Option.some.inj hstep
    refine ⟨⟨first, items, h.pop hlt⟩, rfl, rfl, Or.inr ⟨rfl, fun _ => ?_⟩⟩
    rw [hidle]
    exact Nat.lt_succ_self 4
  · rename_i hbusy
    obtain ⟨r, hr, rfl⟩ := Option.map_eq_some_iff.mp hstep
    have hpops := h.holds.pops hr
    obtain ⟨first', items', hholds⟩ := hpops.holds h.holds
    obtain ⟨hproducer, haccepted, hreturned, hrank⟩ := hpops.popped
    have hpushing : ∀ x ∈ r.1.producer.item?, x = item s.i ∧ s.i < test_count := by
      rw [hproducer]
      exact h.pushing
    have hlt : s.j < test_count := h.popping hbusy
    rcases hreturned with ⟨x, hx, hidle, hreturned⟩ | ⟨hnot, hreturned⟩
    · rw [afterPop_of_eq hx]
      refine ⟨⟨first', items', ?_⟩, rfl, hproducer, Or.inl rfl⟩
      constructor
      case holds => exact hholds
      case accepted => exact haccepted.trans h.accepted
      case length =>
        rw [hreturned, List.length_append, h.length]
        rfl
      case producer_sum => exact h.producer_sum
      case consumer_sum =>
        show s.consumer_sum + x = _
        rw [hreturned, h.consumer_sum, List.sum_append, List.sum_singleton]
      case i_le => exact h.i_le
      case j_le => exact hlt
      case pushing => exact hpushing
      case popping => exact fun hne => absurd hidle hne
    · rw [afterPop_of_ne hnot]
      refine ⟨⟨first', items', ?_⟩, rfl, hproducer, Or.inr ⟨rfl, fun hsome => ?_⟩⟩
      · exact { h with
          holds := hholds
          accepted := haccepted.trans h.accepted
          length := (congrArg List.length hreturned).trans h.length
          consumer_sum := h.consumer_sum.trans (congrArg List.sum hreturned).symm
          pushing := hpushing
          popping := fun _ => hlt }
      · have hi := h.i_eq
        refine (hrank ?_).resolve_left (not_exists.mpr hnot)
        rintro rfl
        rw [List.length_nil] at hi
        omega

theorem ok_of_reachable {memory : ℕ → α} (h : (test_SPSC N test_count item memory).Reachable s) :
    ∃ first items, s.Ok N test_count item first items := by
  apply h.invariant
  · rintro s rfl
    exact ⟨0, [], .start_ok memory⟩
  · rintro s a s' ⟨first, items, hs⟩ hstep
    cases a with
    | producer => exact (hs.producerStep hstep).1
    | consumer => exact (hs.consumerStep hstep).1

/-- A thread whose loop has ended has no step left. -/
theorem TestState.Ok.ended (h : s.Ok N test_count item first items) (hi : s.i = test_count)
    (hj : s.j = test_count) (thread : Thread) : testNext N test_count item s thread = none := by
  cases thread with
  | producer =>
    have hidle : s.queue.producer = .idle := by
      cases hpc : s.queue.producer with
      | idle => rfl
      | _ =>
        obtain ⟨-, hlt⟩ := h.pushing _ (by rw [hpc]; rfl)
        omega
    show s.producerStep N test_count item = none
    unfold TestState.producerStep
    rw [hidle]
    exact if_neg (by omega)
  | consumer =>
    have hidle : s.queue.consumer = .idle := by
      by_contra hbusy
      have hlt := h.popping hbusy
      omega
    show s.consumerStep N test_count = none
    unfold TestState.consumerStep
    rw [hidle]
    exact if_neg (by omega)

/-! ## Both loops end -/

/-- Each thread is scheduled again and again as long as its loop has not ended. -/
structure Fair {memory : ℕ → α} (run : InfiniteRun (test_SPSC N test_count item memory)) :
    Prop where
  producer : run.Takes (fun s => s.i < test_count) fun _ a => a = .producer
  consumer : run.Takes (fun s => s.j < test_count) fun _ a => a = .consumer

variable {memory : ℕ → α} {run : InfiniteRun (test_SPSC N test_count item memory)} {k : ℕ}

/-- As long as there is room, the producer gets an item in, unless the consumer gets one out
before. -/
theorem room_leadsTo (hfair : Fair run) :
    run.LeadsTo (fun s => (s.i < test_count ∧ s.i < s.j + N.size) ∧ s.i + s.j = k)
      (fun s => k < s.i + s.j) := by
  apply InfiniteRun.leadsTo_of_rank (C := fun _ a => a = .producer)
    (fun s => s.queue.producer.rank)
  · rintro n ⟨⟨hlt, -⟩, -⟩
    exact hfair.producer n hlt
  · rintro s a s' hreach hstep ⟨⟨hlt, hroom⟩, hk⟩ hother
    obtain ⟨first, items, hs⟩ := ok_of_reachable hreach
    cases a with
    | producer => exact absurd rfl hother
    | consumer =>
      obtain ⟨-, hi, hproducer, hj | ⟨hj, -⟩⟩ := hs.consumerStep hstep
      · exact Or.inl (by omega)
      · exact Or.inr ⟨by omega, by rw [hproducer]⟩
  · rintro s a s' hreach hstep ⟨⟨hlt, hroom⟩, hk⟩ rfl
    obtain ⟨first, items, hs⟩ := ok_of_reachable hreach
    obtain ⟨-, hj, -, hi | ⟨hi, hrank⟩⟩ := hs.producerStep hstep
    · exact Or.inl (by omega)
    · exact Or.inr ⟨by omega, hrank hroom⟩

/-- As long as there is an item, the consumer gets one out, unless the producer gets one in
before. -/
theorem item_leadsTo (hfair : Fair run) :
    run.LeadsTo (fun s => s.j < s.i ∧ s.i + s.j = k) (fun s => k < s.i + s.j) := by
  apply InfiniteRun.leadsTo_of_rank (C := fun _ a => a = .consumer)
    (fun s => s.queue.consumer.rank)
  · rintro n ⟨hlt, -⟩
    obtain ⟨first, items, hs⟩ := ok_of_reachable (run.reachable n)
    exact hfair.consumer n (lt_of_lt_of_le hlt hs.i_le)
  · rintro s a s' hreach hstep ⟨hlt, hk⟩ hother
    obtain ⟨first, items, hs⟩ := ok_of_reachable hreach
    cases a with
    | consumer => exact absurd rfl hother
    | producer =>
      obtain ⟨-, hj, hconsumer, hi | ⟨hi, -⟩⟩ := hs.producerStep hstep
      · exact Or.inl (by omega)
      · exact Or.inr ⟨by omega, by rw [hconsumer]⟩
  · rintro s a s' hreach hstep ⟨hlt, hk⟩ rfl
    obtain ⟨first, items, hs⟩ := ok_of_reachable hreach
    obtain ⟨-, hi, -, hj | ⟨hj, hrank⟩⟩ := hs.consumerStep hstep
    · exact Or.inl (by omega)
    · exact Or.inr ⟨by omega, hrank hlt⟩

/-- As long as a loop has not ended, one of the threads gets on. -/
theorem running_leadsTo (hfair : Fair run) :
    run.LeadsTo (fun s => (s.i < test_count ∨ s.j < test_count) ∧ s.i + s.j = k)
      (fun s => k < s.i + s.j) := by
  rintro n ⟨hrunning, hk⟩
  obtain ⟨first, items, hs⟩ := ok_of_reachable (run.reachable n)
  have hi := hs.i_eq
  have hle := hs.i_le
  have hsize := N.size_pos
  by_cases hroom : (run.state n).i < test_count ∧ (run.state n).i < (run.state n).j + N.size
  · exact room_leadsTo hfair n ⟨hroom, hk⟩
  · exact item_leadsTo hfair n ⟨by omega, hk⟩

/-- **The test passes**: if both threads keep being scheduled, both loops end, the consumer has
the items in the order of the loop, and the sums are equal; in whatever monoid they are added
up, so that an overflow that wraps does no harm. -/
theorem test_SPSC_passes (hfair : Fair run) :
    ∃ n, (∀ thread, testNext N test_count item (run.state n) thread = none) ∧
      returned (run.state n).queue.answers = (List.range test_count).map item ∧
      (run.state n).producer_sum = (run.state n).consumer_sum := by
  have hends : run.LeadsTo (fun s => s.i < test_count ∨ s.j < test_count)
      (fun s => ¬ (s.i < test_count ∨ s.j < test_count)) := by
    apply InfiniteRun.leadsTo_of_grows (fun s => s.i + s.j) (test_count + test_count)
    · intro n _
      obtain ⟨first, items, hs⟩ := ok_of_reachable (run.reachable n)
      exact Nat.add_le_add hs.i_le hs.j_le
    · intro k
      exact running_leadsTo hfair
  obtain ⟨n, hn⟩ : ∃ n, ¬ ((run.state n).i < test_count ∨ (run.state n).j < test_count) := by
    by_contra hnever
    push Not at hnever
    obtain ⟨n, -, hn⟩ := hends 0 (hnever 0)
    exact hn (hnever n)
  obtain ⟨first, items, hs⟩ := ok_of_reachable (run.reachable n)
  have hi := hs.i_le
  have hj := hs.j_le
  have hreturned := hs.returned_eq
  rw [show (run.state n).j = test_count by omega] at hreturned
  refine ⟨n, hs.ended (by omega) (by omega), hreturned, ?_⟩
  rw [hs.producer_sum, hs.consumer_sum, hreturned, show (run.state n).i = test_count by omega]

/-- The steps of a test of three items on a buffer of two slots: the consumer finds the queue
empty first, and the producer finds it full before its third item. -/
def threeItems : List Thread :=
  List.replicate 3 .consumer ++ List.replicate 13 .producer ++ List.replicate 5 .consumer
    ++ List.replicate 5 .producer ++ List.replicate 10 .consumer

theorem isSome_threeItems :
    (runFrom (testNext PowerOfTwo.two 3 fun i => i + 7) (fun _ _ => True) (testStart fun _ => 0)
      threeItems).isSome = true := by decide +kernel

/-- The run in which these steps are all. -/
def runThreeItems : InfiniteRun (test_SPSC PowerOfTwo.two 3 (fun i => i + 7) fun _ => 0) :=
  .ofList threeItems isSome_threeItems

theorem fair_runThreeItems : Fair runThreeItems where
  producer := InfiniteRun.takes_ofList isSome_threeItems (by decide +kernel) (by decide +kernel)
  consumer := InfiniteRun.takes_ofList isSome_threeItems (by decide +kernel) (by decide +kernel)

/-- The consumer gets them all. -/
theorem test_SPSC_passes_threeItems :
    ∃ n, returned (runThreeItems.state n).queue.answers = [7, 8, 9] ∧
      (runThreeItems.state n).producer_sum = (runThreeItems.state n).consumer_sum := by
  obtain ⟨n, -, hreturned, hsum⟩ := test_SPSC_passes fair_runThreeItems
  exact ⟨n, hreturned, hsum⟩

end Test

end SPSCRingBuffer
