/-
# The test of the ring of many producers

`test_MPSC`: every producer pushes the items of a loop and adds its sum to a common one, and the
consumer pops as many items as all of them push.  All threads spin until their calls succeed.  The
ring holds what the loops have pushed and not popped, in every state of every run.
-/
import FastServer.MpscRingInvariant

namespace MPSCRingBuffer

open Ring TransitionSystem

/-! ## The steps of a push -/

section Push

variable {α ι : Type} [DecidableEq ι] {N : PowerOfTwo} {s s' : State α ι} {i : ι}

/-- The item of a push that has no position yet. -/
def Producer.item? : Producer α → Option α
  | .loadTail item | .loadSequence item _ | .reserve item _ => some item
  | _ => none

/-- How far a push is from the end of its call. -/
def Producer.rank : Producer α → ℕ
  | .idle => 5
  | .loadTail _ => 4
  | .loadSequence _ _ => 3
  | .reserve _ _ => 2
  | .write _ _ => 1
  | .publish _ => 0

/-- How far a pop is from the end of its call. -/
def Consumer.rank : Consumer α → ℕ
  | .idle => 5
  | .loadSequence _ => 4
  | .read _ => 3
  | .reset _ _ => 2
  | .advance _ _ => 1

/-- **The steps of `push`**, by where the producer stands. -/
inductive Pushes (N : PowerOfTwo) (s : State α ι) (i : ι) (spurious : Bool) : State α ι → Prop
  | loadTail (item : α) : s.producers i = .loadTail item → Pushes N s i spurious (s.loadTail i item)
  | free (item : α) (t : ℕ) : s.producers i = .loadSequence item t →
      diff (s.sequence (N.mask t)) t = 0 →
      Pushes N s i spurious (s.setProducer i (.reserve item t))
  | full (item : α) (t : ℕ) : s.producers i = .loadSequence item t →
      diff (s.sequence (N.mask t)) t ≠ 0 →
      Pushes N s i spurious { s.setProducer i .idle with
        refused := s.refused ++ [s.reserved.length - s.released] }
  | taken (item : α) (t : ℕ) : s.producers i = .loadSequence item t →
      diff (s.sequence (N.mask t)) t ≠ 0 →
      Pushes N s i spurious (s.setProducer i (.loadTail item))
  | reserve (item : α) (t : ℕ) : s.producers i = .reserve item t →
      Pushes N s i spurious { s.setProducer i (.write item t) with
        tail_ := (t + 1) % 2 ^ 64
        reserved := s.reserved ++ [item] }
  | lost (item : α) (t : ℕ) : s.producers i = .reserve item t →
      ¬ (s.tail_ = t ∧ spurious = false) → Pushes N s i spurious (s.loadTail i item)
  | write (item : α) (t : ℕ) : s.producers i = .write item t →
      Pushes N s i spurious { s.setProducer i (.publish t) with
        data := Function.update s.data (N.mask t) item }
  | publish (t : ℕ) : s.producers i = .publish t →
      Pushes N s i spurious { s.setProducer i .idle with
        sequence := Function.update s.sequence (N.mask t) ((t + 1) % 2 ^ 64) }

theorem pushes_of_step {spurious : Bool} (h : s.stepProducer N i spurious = some s') :
    Pushes N s i spurious s' := by
  unfold State.stepProducer at h
  cases hpc : s.producers i with
  | idle =>
    rw [hpc] at h
    exact absurd h.symm (Option.some_ne_none _)
  | loadTail item =>
    rw [hpc] at h
    obtain rfl := Option.some.inj h
    exact .loadTail item hpc
  | loadSequence item t =>
    rw [hpc] at h
    dsimp only at h
    split_ifs at h with hzero hneg
    · obtain rfl := Option.some.inj h
      exact .free item t hpc hzero
    · obtain rfl := Option.some.inj h
      exact .full item t hpc hzero
    · obtain rfl := Option.some.inj h
      exact .taken item t hpc hzero
  | reserve item t =>
    rw [hpc] at h
    dsimp only at h
    split_ifs at h with hswap
    · obtain rfl := Option.some.inj h
      exact .reserve item t hpc
    · obtain rfl := Option.some.inj h
      exact .lost item t hpc hswap
  | write item t =>
    rw [hpc] at h
    obtain rfl := Option.some.inj h
    exact .write item t hpc
  | publish t =>
    rw [hpc] at h
    obtain rfl := Option.some.inj h
    exact .publish t hpc

/-- What a step of one producer leaves alone. -/
structure Apart (s s' : State α ι) (i : ι) : Prop where
  consumer : s'.consumer = s.consumer
  popped : s'.popped = s.popped
  released : s'.released = s.released
  producers : ∀ j, j ≠ i → s'.producers j = s.producers j
  seen : ∀ j, j ≠ i → s'.seen j = s.seen j

theorem apart_setProducer (s : State α ι) (i : ι) (pc : Producer α) :
    Apart s (s.setProducer i pc) i where
  consumer := rfl
  popped := rfl
  released := rfl
  producers := fun _ hj => State.setProducer_of_ne s hj pc
  seen := fun _ _ => rfl

theorem apart_loadTail (s : State α ι) (i : ι) (item : α) : Apart s (s.loadTail i item) i :=
  { apart_setProducer s i (.loadSequence item s.tail_) with
    seen := fun _ hj => Function.update_of_ne hj _ _ }

theorem Pushes.apart {spurious : Bool} (h : Pushes N s i spurious s') : Apart s s' i := by
  cases h with
  | loadTail item _ => exact apart_loadTail s i item
  | lost item _ _ _ => exact apart_loadTail s i item
  | full item t _ _ => exact { apart_setProducer s i .idle with }
  | reserve item t _ => exact { apart_setProducer s i (.write item t) with }
  | write item t _ => exact { apart_setProducer s i (.publish t) with }
  | publish t _ => exact { apart_setProducer s i .idle with }
  | free item t _ _ => exact apart_setProducer s i _
  | taken item t _ _ => exact apart_setProducer s i _

/-- **What a step of `push` does for its item**: it looks at the ring, it reserves a position for
the item, it writes the item, or it publishes it. -/
inductive Progress (s s' : State α ι) (i : ι) : Prop
  | looks : s'.reserved = s.reserved → (s.producers i).writing = none →
      (s'.producers i).writing = none → (∀ x ∈ (s'.producers i).item?, x ∈ (s.producers i).item?) →
      Progress s s' i
  | reserves (item : α) : s'.reserved = s.reserved ++ [item] → (s.producers i).writing = none →
      (s'.producers i).writing.isSome → item ∈ (s.producers i).item? →
      (s'.producers i).item? = none → Progress s s' i
  | writes (item : α) (t : ℕ) : s'.reserved = s.reserved → s.producers i = .write item t →
      s'.producers i = .publish t → s'.seen i = s.seen i → Progress s s' i
  | publishes (t : ℕ) : s'.reserved = s.reserved → s.producers i = .publish t →
      s'.producers i = .idle → Progress s s' i

/-- A step within a push: without a position before and after, or the one that writes the item. -/
inductive Within (s s' : State α ι) (i : ι) : Prop
  | looks : (s.producers i).writing = none → (s'.producers i).writing = none → Within s s' i
  | writes (item : α) (t : ℕ) : s.producers i = .write item t → s'.producers i = .publish t →
      s'.seen i = s.seen i → Within s s' i

theorem Pushes.progress {spurious : Bool} (h : Pushes N s i spurious s') : Progress s s' i := by
  cases h with
  | loadTail item hpc =>
    refine .looks rfl ?_ ?_ ?_
    · rw [hpc]
      rfl
    · simp [State.loadTail, Producer.writing]
    · simp [State.loadTail, hpc, Producer.item?]
  | free item t hpc _ =>
    refine .looks rfl ?_ ?_ ?_
    · rw [hpc]
      rfl
    · simp [Producer.writing]
    · simp [hpc, Producer.item?]
  | full item t hpc _ =>
    refine .looks rfl ?_ ?_ ?_
    · rw [hpc]
      rfl
    · simp [Producer.writing]
    · simp [Producer.item?]
  | taken item t hpc _ =>
    refine .looks rfl ?_ ?_ ?_
    · rw [hpc]
      rfl
    · simp [Producer.writing]
    · simp [hpc, Producer.item?]
  | lost item t hpc _ =>
    refine .looks rfl ?_ ?_ ?_
    · rw [hpc]
      rfl
    · simp [State.loadTail, Producer.writing]
    · simp [State.loadTail, hpc, Producer.item?]
  | reserve item t hpc =>
    refine .reserves item rfl ?_ ?_ ?_ ?_
    · rw [hpc]
      rfl
    · simp [Producer.writing]
    · simp [hpc, Producer.item?]
    · simp [Producer.item?]
  | write item t hpc => exact .writes item t rfl hpc (State.setProducer_self s i _) rfl
  | publish t hpc => exact .publishes t rfl hpc (State.setProducer_self s i _)

end Push

/-! ## The items of several loops -/

/-- One item more in one of the loops. -/
theorem sum_range_succ {α ι : Type} [DecidableEq ι] [Fintype ι] {item : ι → ℕ → α} {f g : ι → ℕ}
    {i : ι} (hi : g i = f i + 1) (hne : ∀ j, j ≠ i → g j = f j) :
    ∑ j, (Multiset.range (g j)).map (item j)
      = (∑ j, (Multiset.range (f j)).map (item j)) + {item i (f i)} := by
  rw [← Finset.add_sum_erase Finset.univ (fun j => (Multiset.range (g j)).map (item j))
      (Finset.mem_univ i),
    ← Finset.add_sum_erase Finset.univ (fun j => (Multiset.range (f j)).map (item j))
      (Finset.mem_univ i)]
  have hrest : ∑ j ∈ Finset.univ.erase i, (Multiset.range (g j)).map (item j)
      = ∑ j ∈ Finset.univ.erase i, (Multiset.range (f j)).map (item j) := by
    apply Finset.sum_congr rfl
    intro j hj
    rw [hne j (Finset.ne_of_mem_erase hj)]
  rw [hrest, hi, Multiset.range_succ, Multiset.map_cons, ← Multiset.singleton_add, add_assoc,
    add_comm {item i (f i)}]

/-! ## The loops -/

section Test

variable {α ι : Type} [AddCommMonoid α] [DecidableEq ι] [Fintype ι]

/-- The ring, the loops of the producers with their sums, the loop of the consumer with its sum,
and how often the compare-and-swap may still fail without a reason. -/
structure TestState (α ι : Type) where
  ring : State α ι
  j : ι → ℕ
  local_sum : ι → α
  added : ι → Bool
  producer_sum : α
  k : ℕ
  consumer_sum : α
  spurious : ℕ

/-- The threads are about to enter their loops. -/
def testStart [Inhabited α] (spurious : ℕ) : TestState α ι :=
  ⟨start, fun _ => 0, fun _ => 0, fun _ => false, 0, 0, 0, spurious⟩

/-- A thread makes its next step, or the compare-and-swap of a producer fails without a reason. -/
inductive Step (ι : Type)
  | producer (i : ι)
  | fail (i : ι)
  | consumer
deriving DecidableEq

variable (N : PowerOfTwo) (test_count : ℕ) (item : ι → ℕ → α)

/-- The next step of a producer: `push_busywait` calls `push` until it returns true, and behind
the loop the sum is added to the common one. -/
def TestState.producerStep (s : TestState α ι) (i : ι) : Option (TestState α ι) :=
  match s.ring.producers i with
  | .idle =>
      if s.j i < test_count then
        (s.ring.push i (item i (s.j i))).map fun ring => { s with ring := ring }
      else if s.added i then none
      else some { s with
        producer_sum := s.producer_sum + s.local_sum i
        added := Function.update s.added i true }
  | .publish _ => (s.ring.stepProducer N i false).map fun ring =>
      { s with
        ring := ring
        j := Function.update s.j i (s.j i + 1)
        local_sum := Function.update s.local_sum i (s.local_sum i + item i (s.j i)) }
  | _ => (s.ring.stepProducer N i false).map fun ring => { s with ring := ring }

/-- A compare-and-swap fails without a reason. -/
def TestState.failStep (s : TestState α ι) (i : ι) : Option (TestState α ι) :=
  match s.ring.producers i with
  | .reserve _ _ =>
      if s.spurious = 0 then none
      else (s.ring.stepProducer N i true).map fun ring =>
        { s with ring := ring, spurious := s.spurious - 1 }
  | _ => none

/-- The next step of the consumer: `pop_busywait` calls `pop` until it returns true. -/
def TestState.consumerStep (s : TestState α ι) : Option (TestState α ι) :=
  match s.ring.consumer with
  | .idle =>
      if s.k < test_count * Fintype.card ι then some { s with ring := s.ring.stepConsumer N }
      else none
  | .advance _ item => some { s with
      ring := s.ring.stepConsumer N
      k := s.k + 1
      consumer_sum := s.consumer_sum + item }
  | _ => some { s with ring := s.ring.stepConsumer N }

/-- The state after a step, if it is enabled. -/
def testNext (s : TestState α ι) : Step ι → Option (TestState α ι)
  | .producer i => s.producerStep N test_count item i
  | .fail i => s.failStep N i
  | .consumer => s.consumerStep N test_count

/-- `test_MPSC`, with a producer for every element of `ι`. -/
def test_MPSC [Inhabited α] (spurious : ℕ) : TransitionSystem (TestState α ι) (Step ι) :=
  TransitionSystem.ofFunction (testStart spurious) (testNext N test_count item)

/-! ## The invariant -/

/-- How many items of a producer have a position. -/
def TestState.begun (s : TestState α ι) (i : ι) : ℕ :=
  s.j i + if (s.ring.producers i).writing.isSome then 1 else 0

/-- The ring keeps its invariant, and holds what the loops have pushed and not popped. -/
structure TestState.Ok (N : PowerOfTwo) (test_count : ℕ) (item : ι → ℕ → α) (spurious : ℕ)
    (s : TestState α ι) : Prop where
  ring : s.ring.Invariant N
  reserved : (s.ring.reserved : Multiset α)
    = ∑ i, (Multiset.range (s.begun i)).map (item i)
  pushing : ∀ i, ∀ x ∈ (s.ring.producers i).item?, x = item i (s.j i)
  calling : ∀ i, s.ring.producers i ≠ .idle → s.j i < test_count
  j_le : ∀ i, s.j i ≤ test_count
  local_sum : ∀ i, s.local_sum i = ((Multiset.range (s.j i)).map (item i)).sum
  added : ∀ i, s.added i = true → s.j i = test_count
  producer_sum : s.producer_sum = ∑ i, if s.added i then s.local_sum i else 0
  popped : s.ring.popped.length = s.k
  consumer_sum : s.consumer_sum = s.ring.popped.sum
  popping : s.ring.consumer ≠ .idle → s.k < test_count * Fintype.card ι
  spurious_le : s.spurious ≤ spurious

variable {N test_count item} {s s' : TestState α ι} {i : ι} {spurious : ℕ}

namespace TestState.Ok

omit [DecidableEq ι] in
theorem start_ok [Inhabited α] :
    (testStart spurious : TestState α ι).Ok N test_count item spurious where
  ring := State.Invariant.start_invariant
  reserved := (Finset.sum_eq_zero fun _ _ => rfl).symm
  pushing := by
    intro i x hx
    cases hx
  calling := by
    intro i hbusy
    exact absurd rfl hbusy
  j_le := fun _ => Nat.zero_le _
  local_sum := fun _ => rfl
  added := by
    intro i h
    cases h
  producer_sum := (Finset.sum_eq_zero fun _ _ => rfl).symm
  popped := rfl
  consumer_sum := rfl
  popping := fun hbusy => absurd rfl hbusy
  spurious_le := le_rfl

omit [AddCommMonoid α] [DecidableEq ι] [Fintype ι] in
/-- A producer that writes has an item more than it has pushed. -/
theorem begun_eq (s : TestState α ι) (i : ι) :
    s.begun i = s.j i + if (s.ring.producers i).writing.isSome then 1 else 0 := rfl

omit [DecidableEq ι] in
theorem begun_le (h : s.Ok N test_count item spurious) (i : ι) : s.begun i ≤ test_count := by
  rw [begun_eq]
  split_ifs with hwriting
  · apply h.calling i
    intro hidle
    rw [hidle] at hwriting
    exact Bool.false_ne_true hwriting
  · exact h.j_le i

omit [DecidableEq ι] in
/-- The positions are those of the items begun. -/
theorem length_eq (h : s.Ok N test_count item spurious) :
    s.ring.reserved.length = ∑ i, s.begun i := by
  have hcard := congrArg Multiset.card h.reserved
  rw [Multiset.coe_card, Multiset.card_sum] at hcard
  simpa only [Multiset.card_map, Multiset.card_range] using hcard

omit [DecidableEq ι] in
theorem length_le (h : s.Ok N test_count item spurious) :
    s.ring.reserved.length ≤ test_count * Fintype.card ι := by
  rw [h.length_eq, Nat.mul_comm, ← smul_eq_mul, ← Finset.card_univ]
  exact Finset.sum_le_card_nsmul _ _ _ fun i _ => h.begun_le i

omit [DecidableEq ι] in
/-- A producer that has not pushed all its items has not added its sum. -/
theorem not_added (h : s.Ok N test_count item spurious) (hlt : s.j i < test_count) :
    s.added i = false := by
  by_contra hadded
  have := h.added i (Bool.eq_true_of_not_eq_false hadded)
  omega

omit [DecidableEq ι] in
theorem k_le (h : s.Ok N test_count item spurious) :
    s.k ≤ s.ring.reserved.length := by
  rw [← h.popped]
  exact h.ring.popped.length_le

omit [DecidableEq ι] in
/-- So few items that the positions do not come round again. -/
theorem timely (h : s.Ok N test_count item spurious)
    (hfits : test_count * Fintype.card ι + N.size ≤ 2 ^ 63) (a : Action α ι) :
    s.ring.Timely N a := by
  have hlength := h.length_le
  cases a with
  | producer i spurious => exact fun _ => by omega
  | _ => trivial

/-- **A step of a push** that does not end it. -/
theorem of_progress (h : s.Ok N test_count item spurious) {ring : State α ι}
    (hring : ring.Invariant N) (hapart : Apart s.ring ring i) (hprogress : Progress s.ring ring i)
    (hbusy : s.ring.producers i ≠ .idle) (hgoing : ∀ t, s.ring.producers i ≠ .publish t) :
    ({ s with ring := ring } : TestState α ι).Ok N test_count item spurious := by
  have hlt := h.calling i hbusy
  have hbegun : ∀ j, j ≠ i → ({ s with ring := ring } : TestState α ι).begun j = s.begun j := by
    intro j hj
    rw [begun_eq, begun_eq]
    show s.j j + _ = s.j j + _
    rw [hapart.producers j hj]
  have hcalling : ∀ j, ring.producers j ≠ .idle → s.j j < test_count := by
    intro j hbusy
    by_cases hj : j = i
    · exact hj ▸ hlt
    · rw [hapart.producers j hj] at hbusy
      exact h.calling j hbusy
  have hothers : ∀ j, j ≠ i → ∀ x ∈ (ring.producers j).item?, x = item j (s.j j) := by
    intro j hj
    rw [hapart.producers j hj]
    exact h.pushing j
  have hpopped : ring.popped.length = s.k := by rw [hapart.popped, h.popped]
  have hconsumer : s.consumer_sum = ring.popped.sum := by rw [hapart.popped, h.consumer_sum]
  have hpopping : ring.consumer ≠ .idle → s.k < test_count * Fintype.card ι := by
    rw [hapart.consumer]
    exact h.popping
  suffices hmain : (ring.reserved : Multiset α)
      = ∑ j, (Multiset.range (({ s with ring := ring } : TestState α ι).begun j)).map (item j) ∧
      ∀ x ∈ (ring.producers i).item?, x = item i (s.j i) by
    refine { h with
      ring := hring, reserved := hmain.1, pushing := ?_, calling := hcalling, popped := hpopped
      consumer_sum := hconsumer, popping := hpopping }
    intro j
    by_cases hj : j = i
    · subst hj
      exact hmain.2
    · exact hothers j hj
  cases hprogress with
  | looks hreserved hold hnew hitem =>
    refine ⟨?_, fun x hx => h.pushing i x (hitem x hx)⟩
    rw [hreserved, h.reserved]
    apply Finset.sum_congr rfl
    intro j _
    by_cases hj : j = i
    · subst hj
      rw [begun_eq, begun_eq, hold, hnew]
    · rw [hbegun j hj]
  | reserves x hreserved hold hnew hitem hnone =>
    refine ⟨?_, fun y hy => by rw [hnone] at hy; cases hy⟩
    have hfrom : s.begun i = s.j i := by
      rw [begun_eq, hold]
      rfl
    have hto : ({ s with ring := ring } : TestState α ι).begun i = s.begun i + 1 := by
      rw [hfrom, begun_eq, hnew]
      rfl
    rw [sum_range_succ hto hbegun, ← h.reserved, hreserved, ← Multiset.coe_add, hfrom,
      h.pushing i x hitem]
    rfl
  | writes y t hreserved hold hpc _ =>
    refine ⟨?_, fun x hx => by rw [hpc] at hx; cases hx⟩
    rw [hreserved, h.reserved]
    apply Finset.sum_congr rfl
    intro j _
    by_cases hj : j = i
    · subst hj
      rw [begun_eq, begun_eq, hold, hpc]
      rfl
    · rw [hbegun j hj]
  | publishes t _ hpc _ => exact absurd hpc (hgoing t)

/-- **An item is published**: the call ends, and the loop goes on. -/
theorem publish (h : s.Ok N test_count item spurious) {ring : State α ι}
    (hring : ring.Invariant N) (hapart : Apart s.ring ring i) {t : ℕ}
    (hpc : s.ring.producers i = .publish t) (hreserved : ring.reserved = s.ring.reserved)
    (hidle : ring.producers i = .idle) :
    ({ s with
      ring := ring
      j := Function.update s.j i (s.j i + 1)
      local_sum := Function.update s.local_sum i (s.local_sum i + item i (s.j i)) } :
      TestState α ι).Ok N test_count item spurious := by
  have hlt : s.j i < test_count := h.calling i (by rw [hpc]; exact fun hidle => by cases hidle)
  have hnot := h.not_added hlt
  have hj : ∀ k, k ≠ i → Function.update s.j i (s.j i + 1) k = s.j k :=
    fun k hk => Function.update_of_ne hk _ _
  constructor
  case ring => exact hring
  case reserved =>
    rw [hreserved, h.reserved]
    apply Finset.sum_congr rfl
    intro k _
    rw [begun_eq, begun_eq]
    show _ = (Multiset.range (Function.update s.j i (s.j i + 1) k + _)).map _
    by_cases hk : k = i
    · subst hk
      rw [Function.update_self, hidle, hpc]
      rfl
    · rw [hj k hk, hapart.producers k hk]
  case pushing =>
    intro k x hx
    by_cases hk : k = i
    · subst hk
      rw [hidle] at hx
      cases hx
    · rw [hapart.producers k hk] at hx
      exact (h.pushing k x hx).trans (congrArg (item k) (hj k hk).symm)
  case calling =>
    intro k hbusy
    by_cases hk : k = i
    · exact absurd (hk ▸ hidle) hbusy
    · rw [hapart.producers k hk] at hbusy
      exact lt_of_eq_of_lt (hj k hk) (h.calling k hbusy)
  case j_le =>
    intro k
    by_cases hk : k = i
    · subst hk
      exact le_of_eq_of_le (Function.update_self ..) hlt
    · exact le_of_eq_of_le (hj k hk) (h.j_le k)
  case local_sum =>
    intro k
    show Function.update s.local_sum i _ k
      = ((Multiset.range (Function.update s.j i (s.j i + 1) k)).map (item k)).sum
    by_cases hk : k = i
    · subst hk
      rw [Function.update_self, Function.update_self, Multiset.range_succ, Multiset.map_cons,
        Multiset.sum_cons, h.local_sum, add_comm]
    · rw [Function.update_of_ne hk, Function.update_of_ne hk, h.local_sum]
  case added =>
    intro k hadded
    have hk : k ≠ i := by
      rintro rfl
      exact Bool.false_ne_true (hnot.symm.trans hadded)
    exact (hj k hk).trans (h.added k hadded)
  case producer_sum =>
    rw [h.producer_sum]
    apply Finset.sum_congr rfl
    intro k _
    show (if s.added k then _ else _) = if s.added k then Function.update s.local_sum i _ k else _
    by_cases hk : k = i
    · subst hk
      rw [hnot]
      rfl
    · rw [Function.update_of_ne hk]
  case popped => rw [hapart.popped, h.popped]
  case consumer_sum => rw [hapart.popped, h.consumer_sum]
  case popping =>
    rw [hapart.consumer]
    exact h.popping
  case spurious_le => exact h.spurious_le

/-- A producer makes its next call. -/
theorem push (h : s.Ok N test_count item spurious) (hidle : s.ring.producers i = .idle)
    (hlt : s.j i < test_count) :
    ({ s with ring := s.ring.setProducer i (.loadTail (item i (s.j i))) } : TestState α ι).Ok
      N test_count item spurious := by
  have hwriting : (s.ring.producers i).writing = none := by
    rw [hidle]
    rfl
  refine { h with ring := ?_, reserved := ?_, pushing := ?_, calling := ?_ }
  · exact h.ring.move hwriting rfl (fun _ _ => rfl) trivial
  · show (s.ring.reserved : Multiset α) = _
    rw [h.reserved]
    apply Finset.sum_congr rfl
    intro k _
    rw [begun_eq, begun_eq]
    by_cases hk : k = i
    · subst hk
      rw [hwriting, State.setProducer_self]
      rfl
    · rw [State.setProducer_of_ne _ hk]
  · intro k x hx
    by_cases hk : k = i
    · subst hk
      rw [State.setProducer_self] at hx
      exact (Option.some.inj hx).symm
    · rw [State.setProducer_of_ne _ hk] at hx
      exact h.pushing k x hx
  · intro k hbusy
    by_cases hk : k = i
    · exact hk ▸ hlt
    · rw [State.setProducer_of_ne _ hk] at hbusy
      exact h.calling k hbusy

/-- A producer adds its sum to the common one. -/
theorem fetch_add (h : s.Ok N test_count item spurious) (hdone : s.j i = test_count)
    (hnot : s.added i = false) :
    ({ s with
      producer_sum := s.producer_sum + s.local_sum i
      added := Function.update s.added i true } : TestState α ι).Ok N test_count item spurious := by
  refine { h with added := ?_, producer_sum := ?_ }
  · intro k hadded
    by_cases hk : k = i
    · exact hk ▸ hdone
    · have hadded : Function.update s.added i true k = true := hadded
      rw [Function.update_of_ne hk] at hadded
      exact h.added k hadded
  · show s.producer_sum + s.local_sum i
      = ∑ k, if Function.update s.added i true k then s.local_sum k else 0
    rw [h.producer_sum, ← Finset.add_sum_erase _ _ (Finset.mem_univ i),
      ← Finset.add_sum_erase Finset.univ
        (fun k => if Function.update s.added i true k then s.local_sum k else 0)
        (Finset.mem_univ i), hnot, Function.update_self]
    have hrest : ∑ k ∈ Finset.univ.erase i, (if s.added k then s.local_sum k else 0)
        = ∑ k ∈ Finset.univ.erase i,
          if Function.update s.added i true k then s.local_sum k else 0 := by
      apply Finset.sum_congr rfl
      intro k hk
      rw [Function.update_of_ne (Finset.ne_of_mem_erase hk)]
    rw [hrest, if_neg Bool.false_ne_true, zero_add, if_pos rfl, add_comm]

end TestState.Ok

end Test

end MPSCRingBuffer
