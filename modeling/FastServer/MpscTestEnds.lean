/-
# All loops of the test end

`test_MPSC` under fair scheduling: there is always a step to come that ends a call, adds a sum,
reserves a position or pops an item, until every loop has ended.
-/
import FastServer.Liveness
import FastServer.MpscTest

namespace MPSCRingBuffer

open Ring TransitionSystem

section Test

variable {α ι : Type} [AddCommMonoid α] [DecidableEq ι] [Fintype ι] {N : PowerOfTwo}
  {test_count : ℕ} {item : ι → ℕ → α} {s s' : TestState α ι} {i : ι} {spurious : ℕ}

/-! ## How far the loops are -/

/-- The calls that have ended, the sums that have been added, the positions reserved, and the
failures that are used up. -/
def TestState.progress (spurious : ℕ) (s : TestState α ι) : ℕ :=
  (∑ i, (s.j i + if s.added i then 1 else 0)) + s.ring.reserved.length + s.k
    + (spurious - s.spurious)

/-- Nothing has come further. -/
structure TestState.Stays (s s' : TestState α ι) : Prop where
  reserved : s'.ring.reserved = s.ring.reserved
  k : s'.k = s.k
  j : s'.j = s.j
  added : s'.added = s.added
  spurious : s'.spurious = s.spurious

namespace TestState

omit [AddCommMonoid α] [DecidableEq ι] in
theorem Stays.progress_eq (h : s.Stays s') : s'.progress spurious = s.progress spurious := by
  unfold TestState.progress
  rw [h.reserved, h.k, h.j, h.added, h.spurious]

/-- One of the loops has come further. -/
theorem sum_lt_sum_update {f : ι → ℕ} {g : ι → ℕ} (hi : f i < g i) (hne : ∀ j, j ≠ i → f j = g j) :
    ∑ j, f j < ∑ j, g j := by
  apply Finset.sum_lt_sum
  · intro j _
    by_cases hj : j = i
    · exact hj ▸ le_of_lt hi
    · exact le_of_eq (hne j hj)
  · exact ⟨i, Finset.mem_univ i, hi⟩

/-- **A step of a producer** brings the test further, or leaves everything to the others as it
was. -/
theorem Ok.producerStep (hN : 2 ≤ N.size) (hfits : test_count * Fintype.card ι + N.size ≤ 2 ^ 63)
    (h : s.Ok N test_count item spurious) (hstep : s.producerStep N test_count item i = some s') :
    s'.Ok N test_count item spurious ∧ Apart s.ring s'.ring i ∧
      (s.progress spurious < s'.progress spurious ∨
        s.Stays s' ∧ Within s.ring s'.ring i) := by
  unfold TestState.producerStep at hstep
  split at hstep
  · rename_i hidle
    split_ifs at hstep with hlt hadded
    · rw [State.push, hidle, Option.map_some] at hstep
      obtain rfl := Option.some.inj hstep
      refine ⟨h.push hidle hlt, apart_setProducer .., Or.inr ⟨⟨rfl, rfl, rfl, rfl, rfl⟩, ?_⟩⟩
      refine .looks ?_ ?_
      · rw [hidle]
        rfl
      · rw [State.setProducer_self]
        rfl
    · obtain rfl := Option.some.inj hstep
      have hnot := Bool.eq_false_iff.mpr hadded
      have hdone : s.j i = test_count := le_antisymm (h.j_le i) (not_lt.mp hlt)
      refine ⟨h.fetch_add hdone hnot, ⟨rfl, rfl, rfl, fun _ _ => rfl, fun _ _ => rfl⟩, Or.inl ?_⟩
      have hlt : ∑ k, (s.j k + if s.added k then 1 else 0)
          < ∑ k, (s.j k + if Function.update s.added i true k then 1 else 0) := by
        apply sum_lt_sum_update (i := i)
        · rw [hnot, Function.update_self]
          exact Nat.lt_succ_self _
        · intro k hk
          rw [Function.update_of_ne hk]
      unfold TestState.progress
      dsimp only
      omega
  · rename_i t hpc
    obtain ⟨ring, hring, rfl⟩ := Option.map_eq_some_iff.mp hstep
    have hpushes := pushes_of_step hring
    have hinvariant := h.ring.stepProducer hN (h.timely hfits _) hring
    have hapart := hpushes.apart
    cases hpushes with
    | publish t' hpc' =>
      refine ⟨h.publish hinvariant hapart hpc' rfl (State.setProducer_self ..), hapart,
        Or.inl ?_⟩
      have hlt : ∑ k, (s.j k + if s.added k then 1 else 0)
          < ∑ k, (Function.update s.j i (s.j i + 1) k + if s.added k then 1 else 0) := by
        apply sum_lt_sum_update (i := i)
        · rw [Function.update_self]
          omega
        · intro k hk
          rw [Function.update_of_ne hk]
      unfold TestState.progress
      dsimp only
      show _ + s.ring.reserved.length + _ + _ < _ + s.ring.reserved.length + _ + _
      omega
    | loadTail _ hpc' => cases hpc.symm.trans hpc'
    | free _ _ hpc' _ => cases hpc.symm.trans hpc'
    | full _ _ hpc' _ => cases hpc.symm.trans hpc'
    | taken _ _ hpc' _ => cases hpc.symm.trans hpc'
    | reserve _ _ hpc' => cases hpc.symm.trans hpc'
    | lost _ _ hpc' _ => cases hpc.symm.trans hpc'
    | write _ _ hpc' => cases hpc.symm.trans hpc'
  · rename_i hbusy hgoing
    obtain ⟨ring, hring, rfl⟩ := Option.map_eq_some_iff.mp hstep
    have hpushes := pushes_of_step hring
    have hinvariant := h.ring.stepProducer hN (h.timely hfits _) hring
    refine ⟨h.of_progress hinvariant hpushes.apart hpushes.progress hbusy hgoing, hpushes.apart, ?_⟩
    cases hpushes.progress with
    | reserves x hreserved _ _ _ _ =>
      refine Or.inl ?_
      have hlength := congrArg List.length hreserved
      rw [List.length_append, List.length_singleton] at hlength
      unfold TestState.progress
      dsimp only
      omega
    | looks hreserved hold hnew _ =>
      exact Or.inr ⟨⟨hreserved, rfl, rfl, rfl, rfl⟩, .looks hold hnew⟩
    | writes x t hreserved hold hnew hseen =>
      exact Or.inr ⟨⟨hreserved, rfl, rfl, rfl, rfl⟩, .writes x t hold hnew hseen⟩
    | publishes t _ hpc _ => exact absurd hpc (hgoing t)

/-- **A failure without a reason** uses up one of those that may happen. -/
theorem Ok.failStep (hN : 2 ≤ N.size) (hfits : test_count * Fintype.card ι + N.size ≤ 2 ^ 63)
    (h : s.Ok N test_count item spurious) (hstep : s.failStep N i = some s') :
    s'.Ok N test_count item spurious ∧ s.progress spurious < s'.progress spurious := by
  unfold TestState.failStep at hstep
  split at hstep
  · rename_i x t hpc
    split_ifs at hstep with hzero
    obtain ⟨ring, hring, rfl⟩ := Option.map_eq_some_iff.mp hstep
    have hpushes := pushes_of_step hring
    have hinvariant := h.ring.stepProducer hN (h.timely hfits _) hring
    have hok := h.of_progress hinvariant hpushes.apart hpushes.progress
      (by rw [hpc]; exact fun hidle => by cases hidle)
      (by rw [hpc]; exact fun t hpc => by cases hpc)
    have hle := h.spurious_le
    refine ⟨{ hok with spurious_le := (Nat.sub_le _ _).trans hle }, ?_⟩
    have hlength : s.ring.reserved.length ≤ ring.reserved.length := by
      cases hpushes.progress with
      | looks hreserved _ _ _ => rw [hreserved]
      | writes _ _ hreserved _ _ _ => rw [hreserved]
      | publishes _ hreserved _ _ => rw [hreserved]
      | reserves x hreserved _ _ _ _ =>
        rw [hreserved, List.length_append]
        exact Nat.le_add_right _ _
    unfold TestState.progress
    dsimp only
    omega
  · exact absurd hstep.symm (Option.some_ne_none _)

omit [DecidableEq ι] in
/-- The consumer goes on without an item. -/
theorem Ok.consumer (h : s.Ok N test_count item spurious) {ring : State α ι}
    (hring : ring.Invariant N) (hreserved : ring.reserved = s.ring.reserved)
    (hproducers : ring.producers = s.ring.producers) (hpopped : ring.popped = s.ring.popped)
    (hpopping : ring.consumer ≠ .idle → s.k < test_count * Fintype.card ι) :
    ({ s with ring := ring } : TestState α ι).Ok N test_count item spurious := by
  refine { h with
    ring := hring, reserved := ?_, pushing := ?_, calling := ?_, popped := ?_, consumer_sum := ?_
    popping := hpopping }
  · rw [hreserved, h.reserved]
    apply Finset.sum_congr rfl
    intro k _
    rw [Ok.begun_eq, Ok.begun_eq]
    show (Multiset.range (s.j k + _)).map _ = (Multiset.range (s.j k + _)).map _
    rw [hproducers]
  · rw [hproducers]
    exact h.pushing
  · rw [hproducers]
    exact h.calling
  · rw [hpopped]
    exact h.popped
  · rw [hpopped]
    exact h.consumer_sum

omit [DecidableEq ι] in
/-- **A step of the consumer** brings the test further, or leaves everything to the producers as
it was; and it comes closer to the end of its call if nobody fills the position that is next. -/
theorem Ok.consumerStep (h : s.Ok N test_count item spurious)
    (hstep : s.consumerStep N test_count = some s') :
    s'.Ok N test_count item spurious ∧ s'.ring.producers = s.ring.producers ∧
      s'.ring.seen = s.ring.seen ∧
      (s.progress spurious < s'.progress spurious ∨ s.Stays s' ∧
        (s.k < s.ring.reserved.length → (∀ i, ¬ s.ring.Fills i s.k) →
          s'.ring.consumer.rank < s.ring.consumer.rank)) := by
  have hinvariant := h.ring.stepConsumer
  have hok := h.ring.consumer
  unfold TestState.consumerStep at hstep
  cases hpc : s.ring.consumer with
  | idle =>
    rw [hpc] at hstep
    dsimp only at hstep
    split_ifs at hstep with hlt
    obtain rfl := Option.some.inj hstep
    rw [State.stepConsumer, hpc] at hinvariant ⊢
    refine ⟨h.consumer hinvariant rfl rfl rfl fun _ => hlt, rfl, rfl,
      Or.inr ⟨⟨rfl, rfl, rfl, rfl, rfl⟩, fun _ _ => ?_⟩⟩
    exact Nat.lt_succ_self 4
  | loadSequence current_head =>
    rw [hpc] at hstep hok
    obtain rfl := Option.some.inj hstep
    have hlt := h.popping (by rw [hpc]; exact fun hidle => by cases hidle)
    rw [State.stepConsumer, hpc] at hinvariant ⊢
    dsimp only at hinvariant ⊢
    split_ifs at hinvariant ⊢ with hready
    · exact ⟨h.consumer hinvariant rfl rfl rfl fun _ => hlt, rfl, rfl,
        Or.inr ⟨⟨rfl, rfl, rfl, rfl, rfl⟩, fun _ _ => Nat.lt_succ_self 3⟩⟩
    · refine ⟨h.consumer hinvariant rfl rfl rfl fun _ => hlt, rfl, rfl,
        Or.inr ⟨⟨rfl, rfl, rfl, rfl, rfl⟩, fun hsome hnobody => ?_⟩⟩
      -- the slot of the next position is neither free nor being filled
      obtain ⟨hreleased, rfl⟩ := hok
      rw [N.mask_mod, mod_succ_mod] at hready
      have hpos := N.size_pos
      rw [← h.popped, ← hreleased] at hsome hnobody
      cases h.ring.slots s.ring.released (le_refl _) (by omega) with
      | filled hfilled _ => exact absurd hfilled hready
      | filling i _ _ hfills => exact absurd hfills (hnobody i)
      | free _ hfree => omega
  | read current_head =>
    rw [hpc] at hstep
    obtain rfl := Option.some.inj hstep
    have hlt := h.popping (by rw [hpc]; exact fun hidle => by cases hidle)
    rw [State.stepConsumer, hpc] at hinvariant ⊢
    exact ⟨h.consumer hinvariant rfl rfl rfl fun _ => hlt, rfl, rfl,
      Or.inr ⟨⟨rfl, rfl, rfl, rfl, rfl⟩, fun _ _ => Nat.lt_succ_self 2⟩⟩
  | reset current_head x =>
    rw [hpc] at hstep
    obtain rfl := Option.some.inj hstep
    have hlt := h.popping (by rw [hpc]; exact fun hidle => by cases hidle)
    rw [State.stepConsumer, hpc] at hinvariant ⊢
    exact ⟨h.consumer hinvariant rfl rfl rfl fun _ => hlt, rfl, rfl,
      Or.inr ⟨⟨rfl, rfl, rfl, rfl, rfl⟩, fun _ _ => Nat.lt_succ_self 1⟩⟩
  | advance current_head x =>
    rw [hpc] at hstep
    obtain rfl := Option.some.inj hstep
    rw [State.stepConsumer, hpc] at hinvariant ⊢
    refine ⟨?_, rfl, rfl, Or.inl ?_⟩
    · refine { h with
        ring := hinvariant, popped := ?_, consumer_sum := ?_
        popping := fun hbusy => absurd rfl hbusy }
      · show (s.ring.popped ++ [x]).length = s.k + 1
        rw [List.length_append, h.popped, List.length_singleton]
      · show s.consumer_sum + x = (s.ring.popped ++ [x]).sum
        rw [List.sum_append, h.consumer_sum, List.sum_singleton]
    · unfold TestState.progress
      dsimp only
      omega

/-- **A step** brings the test further, or moves nothing but its own thread. -/
theorem Ok.step (hN : 2 ≤ N.size) (hfits : test_count * Fintype.card ι + N.size ≤ 2 ^ 63)
    (h : s.Ok N test_count item spurious) {a : Step ι}
    (hstep : testNext N test_count item s a = some s') :
    s'.Ok N test_count item spurious ∧
      (s.progress spurious < s'.progress spurious ∨ s.Stays s' ∧
        (∀ i, a ≠ .producer i → s'.ring.producers i = s.ring.producers i ∧
          s'.ring.seen i = s.ring.seen i) ∧
        (∀ i, a = .producer i → Within s.ring s'.ring i) ∧
        (a ≠ .consumer → s'.ring.consumer = s.ring.consumer)) := by
  cases a with
  | producer i =>
    obtain ⟨hok, hapart, hgrows | ⟨hstays, hwithin⟩⟩ := h.producerStep hN hfits hstep
    · exact ⟨hok, Or.inl hgrows⟩
    · refine ⟨hok, Or.inr ⟨hstays, fun k hk => ?_, fun k hk => ?_, fun _ => hapart.consumer⟩⟩
      · have hne : k ≠ i := by
          rintro rfl
          exact hk rfl
        exact ⟨hapart.producers k hne, hapart.seen k hne⟩
      · obtain rfl := Step.producer.inj hk
        exact hwithin
  | fail i =>
    obtain ⟨hok, hgrows⟩ := h.failStep hN hfits hstep
    exact ⟨hok, Or.inl hgrows⟩
  | consumer =>
    obtain ⟨hok, hproducers, hseen, hgrows | ⟨hstays, -⟩⟩ := h.consumerStep hstep
    · exact ⟨hok, Or.inl hgrows⟩
    · refine ⟨hok, Or.inr ⟨hstays, fun k _ => ?_, fun k hk => ?_, fun hne => ?_⟩⟩
      · rw [hproducers, hseen]
        exact ⟨rfl, rfl⟩
      · cases hk
      · exact absurd rfl hne

/-- How far a producer is from reserving a position in an empty ring: behind everything, if the
tail that it goes by is an old one. -/
def distance (ring : State α ι) (i : ι) : ℕ :=
  (ring.producers i).rank +
    if (ring.producers i).looking = true ∧ ring.seen i ≠ ring.reserved.length then 10 else 0

omit [AddCommMonoid α] [Fintype ι] in
/-- A producer that has loaded the tail goes by the new one. -/
theorem distance_loadTail (ring : State α ι) (i : ι) (x : α) :
    distance (ring.loadTail i x) i = 3 := by
  have hpc : (ring.loadTail i x).producers i = .loadSequence x ring.tail_ :=
    State.setProducer_self ..
  have hseen : (ring.loadTail i x).seen i = ring.reserved.length := Function.update_self ..
  unfold distance
  rw [if_neg fun hold => hold.2 hseen, hpc]
  rfl

omit [DecidableEq ι] in
/-- In an empty ring the slot of the next position is free. -/
theorem Ok.diff_eq_zero (h : s.Ok N test_count item spurious)
    (hempty : s.ring.reserved.length = s.k) :
    diff (s.ring.sequence (N.mask (s.ring.reserved.length % 2 ^ 64)))
      (s.ring.reserved.length % 2 ^ 64) = 0 := by
  have hpos := N.size_pos
  have hreleased : s.ring.reserved.length = s.ring.released := by
    have hle := h.ring.released_le
    have hok := h.ring.consumer
    have hpopped := h.popped
    cases hpc : s.ring.consumer with
    | idle => rw [hpc] at hok; have hok : _ = _ := hok; omega
    | loadSequence _ => rw [hpc] at hok; have := hok.1; omega
    | read _ => rw [hpc] at hok; have := hok.1; omega
    | reset _ _ => rw [hpc] at hok; have := hok.1; omega
    | advance _ _ => rw [hpc] at hok; have := hok.1; omega
  have hfree : s.ring.sequence (s.ring.reserved.length % N.size)
      = s.ring.reserved.length % 2 ^ 64 := by
    cases h.ring.slots s.ring.reserved.length (le_of_eq hreleased.symm) (by omega) with
    | filled _ hitem => exact absurd (List.getElem?_eq_some_iff.mp hitem).1 (lt_irrefl _)
    | filling _ _ hlt => exact absurd hlt (lt_irrefl _)
    | free hseq _ => exact hseq
  rw [N.mask_mod, hfree, diff, sub_self]
  rfl

/-- **Towards a position**: in an empty ring every step of a producer brings it closer to one, as
long as nobody else gets one. -/
theorem Ok.distance_lt (hN : 2 ≤ N.size) (hfits : test_count * Fintype.card ι + N.size ≤ 2 ^ 63)
    (h : s.Ok N test_count item spurious) (hempty : s.ring.reserved.length = s.k)
    (hlt : s.j i < test_count) (hstep : s.producerStep N test_count item i = some s') :
    s.progress spurious < s'.progress spurious ∨
      s.Stays s' ∧ distance s'.ring i < distance s.ring i := by
  obtain ⟨-, -, hgrows | ⟨hstays, hwithin⟩⟩ := h.producerStep hN hfits hstep
  · exact Or.inl hgrows
  refine Or.inr ⟨hstays, ?_⟩
  have hreserved := hstays.reserved
  unfold TestState.producerStep at hstep
  split at hstep
  · rename_i hidle
    rw [if_pos hlt, State.push, hidle, Option.map_some] at hstep
    obtain rfl := Option.some.inj hstep
    simp [distance, hidle, Producer.rank, Producer.looking]
  · rename_i t hpc
    cases hwithin with
    | looks hold _ =>
      rw [hpc] at hold
      cases hold
    | writes x t' hold _ _ => cases hpc.symm.trans hold
  · rename_i hbusy hgoing
    obtain ⟨ring, hring, rfl⟩ := Option.map_eq_some_iff.mp hstep
    have hok := h.ring.producers i
    -- a slot that is not free is one that an old tail points to
    have hold : ∀ x t, s.ring.producers i = .loadSequence x t →
        diff (s.ring.sequence (N.mask t)) t ≠ 0 → s.ring.seen i ≠ s.ring.reserved.length := by
      intro x t hpc hdiff hseen
      rw [hpc] at hok
      rw [hok.1, hseen] at hdiff
      exact hdiff (h.diff_eq_zero hempty)
    cases pushes_of_step hring with
    | loadTail x hpc =>
      rw [distance_loadTail]
      simp [distance, hpc, Producer.rank, Producer.looking]
    | free x t hpc _ =>
      simp [distance, State.setProducer, hpc, Producer.rank, Producer.looking]
    | full x t hpc hdiff =>
      simp [distance, hpc, hold x t hpc hdiff, Producer.rank, Producer.looking]
    | taken x t hpc hdiff =>
      simp [distance, hpc, hold x t hpc hdiff, Producer.rank, Producer.looking]
    | reserve x t hpc =>
      have hlength : (s.ring.reserved ++ [x]).length = s.ring.reserved.length :=
        congrArg List.length hreserved
      rw [List.length_append, List.length_singleton] at hlength
      omega
    | lost x t hpc hlost =>
      rw [hpc] at hok
      have hold : s.ring.seen i ≠ s.ring.reserved.length := by
        intro hseen
        refine hlost ⟨?_, rfl⟩
        rw [h.ring.tail, hok.1, hseen]
      rw [distance_loadTail]
      simp [distance, hpc, hold, Producer.rank, Producer.looking]
    | write x t hpc => simp [distance, hpc, Producer.rank, Producer.looking]
    | publish t hpc => exact absurd hpc (hgoing t)

end TestState

/-! ## All loops end -/

variable [Inhabited α]

theorem ok_of_reachable (hN : 2 ≤ N.size)
    (hfits : test_count * Fintype.card ι + N.size ≤ 2 ^ 63)
    (h : (test_MPSC N test_count item spurious).Reachable s) :
    s.Ok N test_count item spurious := by
  apply h.invariant
  · rintro s rfl
    exact TestState.Ok.start_ok
  · intro s a s' hs hstep
    exact (hs.step hN hfits hstep).1

/-- Each thread is scheduled again and again as long as it has not ended. -/
structure Fair (run : InfiniteRun (test_MPSC N test_count item spurious)) : Prop where
  producer : ∀ i, run.Takes (fun s => s.added i = false) fun _ a => a = .producer i
  consumer : run.Takes (fun s => s.k < test_count * Fintype.card ι) fun _ a => a = .consumer

variable {run : InfiniteRun (test_MPSC N test_count item spurious)} {n : ℕ}

/-- An item that is being written for the next position is published. -/
theorem fills_leadsTo (hN : 2 ≤ N.size) (hfits : test_count * Fintype.card ι + N.size ≤ 2 ^ 63)
    (hfair : Fair run) (i : ι) :
    run.LeadsTo (fun s => s.ring.Fills i s.k ∧ s.progress spurious = n)
      (fun s => n < s.progress spurious) := by
  apply InfiniteRun.leadsTo_of_rank (C := fun _ a => a = .producer i)
    (fun s => (s.ring.producers i).rank)
  · rintro m ⟨hfills, -⟩
    have hs := ok_of_reachable hN hfits (run.reachable m)
    have hbusy : (run.state m).ring.producers i ≠ .idle := by
      intro hidle
      have hwriting := hfills.1
      rw [hidle] at hwriting
      cases hwriting
    exact hfair.producer i m (hs.not_added (hs.calling i hbusy))
  · rintro s a s' hreach hstep ⟨hfills, hn⟩ hother
    have hs := ok_of_reachable hN hfits hreach
    obtain ⟨-, hgrows | ⟨hstays, hothers, -, -⟩⟩ := hs.step hN hfits hstep
    · exact Or.inl (lt_of_eq_of_lt hn.symm hgrows)
    · obtain ⟨hproducer, hseen⟩ := hothers i hother
      refine Or.inr ⟨⟨?_, hstays.progress_eq.trans hn⟩, by rw [hproducer]⟩
      rw [State.Fills, hproducer, hseen, hstays.k]
      exact hfills
  · rintro s a s' hreach hstep ⟨hfills, hn⟩ rfl
    have hs := ok_of_reachable hN hfits hreach
    obtain ⟨-, hgrows | ⟨hstays, -, hwithin, -⟩⟩ := hs.step hN hfits hstep
    · exact Or.inl (lt_of_eq_of_lt hn.symm hgrows)
    · cases hwithin i rfl with
      | looks hold _ =>
        have hwriting := hold.symm.trans hfills.1
        cases hwriting
      | writes x t hold hnew hseen =>
        refine Or.inr ⟨⟨?_, hstays.progress_eq.trans hn⟩, ?_⟩
        · rw [State.Fills, hnew, hseen, hstays.k]
          rw [State.Fills, hold] at hfills
          exact hfills
        · rw [hnew, hold]
          exact Nat.one_pos

/-- An item whose position nobody fills any more is popped. -/
theorem filled_leadsTo (hN : 2 ≤ N.size) (hfits : test_count * Fintype.card ι + N.size ≤ 2 ^ 63)
    (hfair : Fair run) :
    run.LeadsTo (fun s => (s.k < s.ring.reserved.length ∧ ∀ i, ¬ s.ring.Fills i s.k) ∧
      s.progress spurious = n) (fun s => n < s.progress spurious) := by
  apply InfiniteRun.leadsTo_of_rank (C := fun _ a => a = .consumer)
    (fun s => s.ring.consumer.rank)
  · rintro m ⟨⟨hlt, -⟩, -⟩
    have hs := ok_of_reachable hN hfits (run.reachable m)
    exact hfair.consumer m (lt_of_lt_of_le hlt hs.length_le)
  · rintro s a s' hreach hstep ⟨⟨hlt, hnobody⟩, hn⟩ hother
    have hs := ok_of_reachable hN hfits hreach
    obtain ⟨-, hgrows | ⟨hstays, hothers, hwithin, hconsumer⟩⟩ := hs.step hN hfits hstep
    · exact Or.inl (lt_of_eq_of_lt hn.symm hgrows)
    · refine Or.inr ⟨⟨⟨?_, fun i => ?_⟩, hstays.progress_eq.trans hn⟩, by rw [hconsumer hother]⟩
      · rw [hstays.k, hstays.reserved]
        exact hlt
      · rw [hstays.k]
        by_cases ha : a = .producer i
        · cases hwithin i ha with
          | looks _ hnew =>
            rintro ⟨hwriting, -⟩
            cases hnew.symm.trans hwriting
          | writes x t hold hnew hseen =>
            have hnot := hnobody i
            rw [State.Fills, hold] at hnot
            rw [State.Fills, hnew, hseen]
            exact hnot
        · obtain ⟨hproducer, hseen⟩ := hothers i ha
          rw [State.Fills, hproducer, hseen]
          exact hnobody i
  · rintro s a s' hreach hstep ⟨⟨hlt, hnobody⟩, hn⟩ rfl
    have hs := ok_of_reachable hN hfits hreach
    obtain ⟨-, hproducers, hseen, hgrows | ⟨hstays, hrank⟩⟩ := hs.consumerStep hstep
    · exact Or.inl (lt_of_eq_of_lt hn.symm hgrows)
    · refine Or.inr ⟨⟨⟨?_, fun i => ?_⟩, hstays.progress_eq.trans hn⟩, hrank hlt hnobody⟩
      · rw [hstays.k, hstays.reserved]
        exact hlt
      · rw [State.Fills, hproducers, hseen, hstays.k]
        exact hnobody i

/-- In an empty ring a position is reserved for an item that is still to come. -/
theorem empty_leadsTo (hN : 2 ≤ N.size) (hfits : test_count * Fintype.card ι + N.size ≤ 2 ^ 63)
    (hfair : Fair run) (i : ι) :
    run.LeadsTo (fun s => (s.ring.reserved.length = s.k ∧ s.j i < test_count) ∧
      s.progress spurious = n) (fun s => n < s.progress spurious) := by
  apply InfiniteRun.leadsTo_of_rank (C := fun _ a => a = .producer i)
    (fun s => TestState.distance s.ring i)
  · rintro m ⟨⟨-, hlt⟩, -⟩
    have hs := ok_of_reachable hN hfits (run.reachable m)
    exact hfair.producer i m (hs.not_added hlt)
  · rintro s a s' hreach hstep ⟨⟨hempty, hlt⟩, hn⟩ hother
    have hs := ok_of_reachable hN hfits hreach
    obtain ⟨-, hgrows | ⟨hstays, hothers, -, -⟩⟩ := hs.step hN hfits hstep
    · exact Or.inl (lt_of_eq_of_lt hn.symm hgrows)
    · obtain ⟨hproducer, hseen⟩ := hothers i hother
      refine Or.inr ⟨⟨⟨?_, ?_⟩, hstays.progress_eq.trans hn⟩, ?_⟩
      · rw [hstays.reserved, hstays.k]
        exact hempty
      · rw [hstays.j]
        exact hlt
      · unfold TestState.distance
        rw [hproducer, hseen, hstays.reserved]
  · rintro s a s' hreach hstep ⟨⟨hempty, hlt⟩, hn⟩ rfl
    have hs := ok_of_reachable hN hfits hreach
    rcases hs.distance_lt hN hfits hempty hlt hstep with hgrows | ⟨hstays, hdistance⟩
    · exact Or.inl (lt_of_eq_of_lt hn.symm hgrows)
    · refine Or.inr ⟨⟨⟨?_, ?_⟩, hstays.progress_eq.trans hn⟩, hdistance⟩
      · rw [hstays.reserved, hstays.k]
        exact hempty
      · rw [hstays.j]
        exact hlt

/-- A producer whose loop has ended adds its sum. -/
theorem done_leadsTo (hN : 2 ≤ N.size) (hfits : test_count * Fintype.card ι + N.size ≤ 2 ^ 63)
    (hfair : Fair run) (i : ι) :
    run.LeadsTo (fun s => (s.j i = test_count ∧ s.added i = false) ∧ s.progress spurious = n)
      (fun s => n < s.progress spurious) := by
  apply InfiniteRun.leadsTo_of_rank (C := fun _ a => a = .producer i) (fun _ => 0)
  · rintro m ⟨⟨-, hnot⟩, -⟩
    exact hfair.producer i m hnot
  · rintro s a s' hreach hstep ⟨⟨hdone, hnot⟩, hn⟩ _
    have hs := ok_of_reachable hN hfits hreach
    obtain ⟨-, hgrows | ⟨hstays, -, -, -⟩⟩ := hs.step hN hfits hstep
    · exact Or.inl (lt_of_eq_of_lt hn.symm hgrows)
    · rw [hstays.j, hstays.added]
      exact Or.inr ⟨⟨⟨hdone, hnot⟩, hstays.progress_eq.trans hn⟩, le_rfl⟩
  · rintro s a s' hreach hstep ⟨⟨hdone, hnot⟩, hn⟩ rfl
    have hs := ok_of_reachable hN hfits hreach
    obtain ⟨-, hgrows | ⟨hstays, -, -, -⟩⟩ := hs.step hN hfits hstep
    · exact Or.inl (lt_of_eq_of_lt hn.symm hgrows)
    · have hidle : s.ring.producers i = .idle := by
        by_contra hbusy
        have := hs.calling i hbusy
        omega
      have hstep : s.producerStep N test_count item i = some s' := hstep
      unfold TestState.producerStep at hstep
      rw [hidle] at hstep
      dsimp only at hstep
      rw [if_neg (by omega), hnot, if_neg Bool.false_ne_true] at hstep
      obtain rfl := Option.some.inj hstep
      have hadded : Function.update s.added i true i = s.added i := congrFun hstays.added i
      rw [Function.update_self, hnot] at hadded
      cases hadded

/-- As long as a thread has not ended, the test gets on. -/
theorem running_leadsTo (hN : 2 ≤ N.size)
    (hfits : test_count * Fintype.card ι + N.size ≤ 2 ^ 63) (hfair : Fair run) :
    run.LeadsTo (fun s => ((∃ i, s.added i = false) ∨ s.k < test_count * Fintype.card ι) ∧
      s.progress spurious = n) (fun s => n < s.progress spurious) := by
  rintro m ⟨hrunning, hn⟩
  have hs := ok_of_reachable hN hfits (run.reachable m)
  by_cases hsome : (run.state m).k < (run.state m).ring.reserved.length
  · by_cases hfills : ∃ i, (run.state m).ring.Fills i (run.state m).k
    · obtain ⟨i, hi⟩ := hfills
      exact fills_leadsTo hN hfits hfair i m ⟨hi, hn⟩
    · exact filled_leadsTo hN hfits hfair m ⟨⟨hsome, not_exists.mp hfills⟩, hn⟩
  · have hempty : (run.state m).ring.reserved.length = (run.state m).k :=
      le_antisymm (not_lt.mp hsome) hs.k_le
    by_cases hmore : ∃ i, (run.state m).j i < test_count
    · obtain ⟨i, hi⟩ := hmore
      exact empty_leadsTo hN hfits hfair i m ⟨⟨hempty, hi⟩, hn⟩
    · push Not at hmore
      have hall : test_count * Fintype.card ι ≤ (run.state m).ring.reserved.length := by
        rw [hs.length_eq, Nat.mul_comm, ← smul_eq_mul, ← Finset.card_univ]
        apply Finset.card_nsmul_le_sum
        intro i _
        exact (hmore i).trans (Nat.le_add_right _ _)
      obtain ⟨i, hi⟩ := hrunning.resolve_right (by omega)
      exact done_leadsTo hN hfits hfair i m ⟨⟨le_antisymm (hs.j_le i) (hmore i), hi⟩, hn⟩

namespace TestState.Ok

omit [DecidableEq ι] [Inhabited α] in
theorem progress_le (h : s.Ok N test_count item spurious) :
    s.progress spurious ≤ (test_count + 1) * Fintype.card ι
      + test_count * Fintype.card ι + test_count * Fintype.card ι + spurious := by
  have hsum : ∑ i, (s.j i + if s.added i then 1 else 0) ≤ (test_count + 1) * Fintype.card ι := by
    rw [Nat.mul_comm, ← smul_eq_mul, ← Finset.card_univ]
    apply Finset.sum_le_card_nsmul
    intro i _
    have hj := h.j_le i
    split_ifs <;> omega
  have hreserved := h.length_le
  have hk := h.k_le
  unfold TestState.progress
  omega

omit [DecidableEq ι] [Inhabited α] in
/-- A producer that has added its sum has left its last call. -/
theorem idle_of_added (h : s.Ok N test_count item spurious) (hadded : s.added i = true) :
    s.ring.producers i = .idle := by
  by_contra hbusy
  have hlt := h.calling i hbusy
  have heq := h.added i hadded
  omega

omit [Inhabited α] in
/-- A thread that has ended has no step left. -/
theorem ended (h : s.Ok N test_count item spurious) (hadded : ∀ i, s.added i = true)
    (hk : test_count * Fintype.card ι ≤ s.k) (a : Step ι) :
    testNext N test_count item s a = none := by
  cases a with
  | producer i =>
    have hj := h.added i (hadded i)
    show s.producerStep N test_count item i = none
    unfold TestState.producerStep
    rw [h.idle_of_added (hadded i)]
    dsimp only
    rw [if_neg (by omega), hadded i, if_pos rfl]
  | fail i =>
    show s.failStep N i = none
    unfold TestState.failStep
    rw [h.idle_of_added (hadded i)]
  | consumer =>
    have hidle : s.ring.consumer = .idle := by
      by_contra hbusy
      have hlt := h.popping hbusy
      omega
    show s.consumerStep N test_count = none
    unfold TestState.consumerStep
    rw [hidle]
    exact if_neg (by omega)

omit [DecidableEq ι] [Inhabited α] in
/-- In the end everything has been popped. -/
theorem popped_eq (h : s.Ok N test_count item spurious) (hadded : ∀ i, s.added i = true)
    (hk : test_count * Fintype.card ι ≤ s.k) :
    (s.ring.popped : Multiset α) = ∑ i, (Multiset.range test_count).map (item i) := by
  have hlength := h.length_le
  have hpopped := h.popped
  rw [h.ring.popped.eq_of_length_le (by omega), h.reserved]
  apply Finset.sum_congr rfl
  intro i _
  have hbegun : s.begun i = test_count := by
    apply le_antisymm (h.begun_le i)
    rw [begun_eq, h.added i (hadded i)]
    exact Nat.le_add_right _ _
  rw [hbegun]

omit [DecidableEq ι] [Inhabited α] in
/-- In the end the sums are equal. -/
theorem sum_eq (h : s.Ok N test_count item spurious) (hadded : ∀ i, s.added i = true)
    (hk : test_count * Fintype.card ι ≤ s.k) : s.producer_sum = s.consumer_sum := by
  have hconsumer : s.consumer_sum = ∑ i, ((Multiset.range test_count).map (item i)).sum := by
    rw [h.consumer_sum, ← Multiset.sum_coe, h.popped_eq hadded hk]
    exact map_sum Multiset.sumAddMonoidHom _ _
  rw [hconsumer, h.producer_sum]
  apply Finset.sum_congr rfl
  intro i _
  rw [hadded i, if_pos rfl, h.local_sum, h.added i (hadded i)]

end TestState.Ok

/-- **The test passes**: if all threads keep being scheduled, and the compare-and-swap fails
without a reason only so often, all loops end, every item of every producer has been popped
exactly once, and the sums are equal; in whatever commutative monoid they are added up. -/
theorem test_MPSC_passes (hN : 2 ≤ N.size)
    (hfits : test_count * Fintype.card ι + N.size ≤ 2 ^ 63) (hfair : Fair run) :
    ∃ n, (∀ a, testNext N test_count item (run.state n) a = none) ∧
      ((run.state n).ring.popped : Multiset α)
        = ∑ i, (Multiset.range test_count).map (item i) ∧
      (run.state n).producer_sum = (run.state n).consumer_sum := by
  have hends : run.LeadsTo
      (fun s => (∃ i, s.added i = false) ∨ s.k < test_count * Fintype.card ι)
      (fun s => ¬ ((∃ i, s.added i = false) ∨ s.k < test_count * Fintype.card ι)) := by
    apply InfiniteRun.leadsTo_of_grows (fun s => s.progress spurious)
    · intro n _
      exact (ok_of_reachable hN hfits (run.reachable n)).progress_le
    · intro n
      exact running_leadsTo hN hfits hfair
  obtain ⟨n, hn⟩ : ∃ n, ¬ ((∃ i, (run.state n).added i = false) ∨
      (run.state n).k < test_count * Fintype.card ι) := by
    by_contra hnever
    push Not at hnever
    obtain ⟨n, -, hn⟩ := hends 0 (hnever 0)
    exact hn (hnever n)
  push Not at hn
  obtain ⟨hadded, hk⟩ := hn
  have hadded : ∀ i, (run.state n).added i = true :=
    fun i => Bool.eq_true_of_not_eq_false (hadded i)
  have hs := ok_of_reachable hN hfits (run.reachable n)
  exact ⟨n, hs.ended hadded hk, hs.popped_eq hadded hk, hs.sum_eq hadded hk⟩

end Test

/-- The items of two producers. -/
def twoLoops (i : Bool) (j : ℕ) : ℕ := if i then 20 + j else 10 + j

/-- The steps of a test of one item for each of two producers: the consumer finds nothing first,
and one producer loses the compare-and-swap to the other, and once more without a reason. -/
def contended : List (Step Bool) :=
  List.replicate 2 .consumer ++ List.replicate 3 (.producer true)
    ++ List.replicate 4 (.producer false) ++ List.replicate 2 (.producer true)
    ++ .fail true :: List.replicate 4 (.producer true) ++ List.replicate 3 (.producer false)
    ++ .producer true :: List.replicate 10 .consumer

theorem isSome_contended :
    (runFrom (testNext PowerOfTwo.two 1 twoLoops) (fun _ _ => True) (testStart 1) contended).isSome
      = true := by decide +kernel

/-- The run in which these steps are all. -/
def runContended : InfiniteRun (test_MPSC PowerOfTwo.two 1 twoLoops 1) :=
  .ofList contended isSome_contended

theorem fair_runContended : Fair runContended where
  producer := by
    intro i
    cases i
    · exact InfiniteRun.takes_ofList isSome_contended (by decide +kernel) (by decide +kernel)
    · exact InfiniteRun.takes_ofList isSome_contended (by decide +kernel) (by decide +kernel)
  consumer := InfiniteRun.takes_ofList isSome_contended (by decide +kernel) (by decide +kernel)

/-- Both items are popped. -/
theorem test_MPSC_passes_contended :
    ∃ n, ((runContended.state n).ring.popped : Multiset ℕ)
        = ∑ i, (Multiset.range 1).map (twoLoops i) ∧
      (runContended.state n).producer_sum = (runContended.state n).consumer_sum := by
  obtain ⟨n, -, hpopped, hsum⟩ := test_MPSC_passes (by decide) (by decide) fair_runContended
  exact ⟨n, hpopped, hsum⟩

end MPSCRingBuffer
