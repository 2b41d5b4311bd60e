/-
# The queues of the reactor under their spin locks

`newConnections_` and `sendQueue_` of a `SubReactor` are vectors that other threads push
descriptors onto, and that the reactor thread moves into a local vector and then empties from
its back.  Each has a `Spinlock` of its own.  Pushing and moving take several accesses to the
vector; under the lock they are single steps, as the model of the wake-ups has them.
-/
import FastServer.CriticalSection
import FastServer.WakeUp

namespace Muduo.SpinQueue

open TransitionSystem CriticalSection

/-! ## The vector -/

/-- A `std::vector<int>`: the cells of its allocation, and how many are in use. -/
structure IntVector where
  cells : ℕ → Fd
  size : ℕ

/-- The elements. -/
def IntVector.toList (v : IntVector) : List Fd := (List.range v.size).map v.cells

/-- The vector of a new reactor; nothing is known of the memory. -/
def empty (memory : ℕ → Fd) : IntVector := ⟨memory, 0⟩

/-- What is done under the lock. -/
inductive Call
  | push_back (fd : Fd)
  | move
deriving DecidableEq

/-- `enqueueNewConnection` up to its `unlock`. -/
def enqueueNewConnection (fd : Fd) : Call := .push_back fd

/-- `enqueueSend` up to its `unlock`. -/
def enqueueSend (fd : Fd) : Call := .push_back fd

/-- `processNewConnections` up to its `unlock`. -/
def processNewConnections : Call := .move

/-- `processSendQueue` up to its `unlock`. -/
def processSendQueue : Call := .move

/-- Where a call stands: in `push_back` about to read the size, to store the element, or to
store the size; in the move about to take the elements, or to store the size. -/
inductive At
  | readSize (fd : Fd)
  | storeElement (fd : Fd) (size : ℕ)
  | storeSize (size : ℕ)
  | take
  | clear (taken : List Fd)
deriving DecidableEq

/-- One access to the vector.  A move returns the elements, `push_back` nothing. -/
def access : At → IntVector → IntVector × (At ⊕ List Fd)
  | .readSize fd, v => (v, .inl (.storeElement fd v.size))
  | .storeElement fd size, v =>
      ({ v with cells := Function.update v.cells size fd }, .inl (.storeSize (size + 1)))
  | .storeSize size, v => ({ v with size := size }, .inr [])
  | .take, v => (v, .inl (.clear v.toList))
  | .clear taken, v => ({ v with size := 0 }, .inr taken)

/-- The code under the lock. -/
def code : Code IntVector Call At (List Fd) where
  entry
    | .push_back fd => .readSize fd
    | .move => .take
  step := access
  rank
    | .readSize _ => 2
    | .storeElement _ _ => 1
    | .take => 1
    | _ => 0
  rank_lt := by
    intro c c' v h
    cases c with
    | readSize fd => obtain rfl := Sum.inl.inj h; exact Nat.lt_succ_self 1
    | storeElement fd size => obtain rfl := Sum.inl.inj h; exact Nat.one_pos
    | take => obtain rfl := Sum.inl.inj h; exact Nat.one_pos
    | _ => cases h

/-- Threads that use one of the queues; `ι` is the type of the threads. -/
abbrev system (ι : Type) [DecidableEq ι] (memory : ℕ → Fd) :
    TransitionSystem (State ι IntVector Call At (List Fd)) (Action ι Call) :=
  CriticalSection.system ι code (empty memory)

/-! ## A call as a single step -/

/-- What a call does to a list, and what it returns. -/
def Call.apply (fds : List Fd) : Call → List Fd × List Fd
  | .push_back fd => (fds ++ [fd], [])
  | .move => ([], fds)

/-- **A call that is not interrupted** does to the vector what it does to a list. -/
theorem run_eq (v : IntVector) (k : Call) :
    ((code.run k v).1.toList, (code.run k v).2) = k.apply v.toList := by
  cases k with
  | push_back fd =>
    have hrun : code.run (.push_back fd) v
        = (⟨Function.update v.cells v.size fd, v.size + 1⟩, []) := by
      rw [Code.run, show code.entry (.push_back fd) = .readSize fd from rfl,
        Code.finish_of_inl rfl, Code.finish_of_inl rfl, Code.finish_of_inr rfl]
    rw [hrun]
    refine Prod.ext ?_ rfl
    show (List.range (v.size + 1)).map (Function.update v.cells v.size fd) = v.toList ++ [fd]
    rw [List.range_succ, List.map_append, List.map_singleton, Function.update_self]
    congr 1
    apply List.map_congr_left
    intro n hn
    exact Function.update_of_ne (Nat.ne_of_lt (List.mem_range.mp hn)) _ _
  | move =>
    have hrun : code.run .move v = (⟨v.cells, 0⟩, v.toList) := by
      rw [Code.run, show code.entry .move = .take from rfl, Code.finish_of_inl rfl,
        Code.finish_of_inr rfl]
    rw [hrun]
    rfl

/-- The push of a thread, in the model of the wake-ups. -/
theorem push_queue {w w' : WakeUp} {tid : Tid} {q : Queue} {fd : Fd}
    (h : w.push tid q fd = some w') : w'.queue q = ((Call.push_back fd).apply (w.queue q)).1 := by
  rw [WakeUp.push] at h
  split_ifs at h
  obtain rfl := Option.some.inj h
  exact Function.update_self ..

/-- The swaps of the reactor thread, in the model of the wake-ups. -/
theorem proceed_queue {w w' : WakeUp} (h : w.proceed = some w') :
    (w.stage = .swappingNew →
      w'.queue .newConnections = (Call.move.apply (w.queue .newConnections)).1 ∧
      w'.stage = .accepting (Call.move.apply (w.queue .newConnections)).2) ∧
    (w.stage = .swappingSend →
      w'.queue .sendQueue = (Call.move.apply (w.queue .sendQueue)).1 ∧
      w'.stage = .draining (Call.move.apply (w.queue .sendQueue)).2) := by
  constructor
  · intro hstage
    rw [WakeUp.proceed, hstage] at h
    obtain rfl := Option.some.inj h
    have hswapped := Function.update_self (β := fun _ => List Fd) Queue.newConnections [] w.queue
    exact ⟨hswapped, rfl⟩
  · intro hstage
    rw [WakeUp.proceed, hstage] at h
    obtain rfl := Option.some.inj h
    have hswapped := Function.update_self (β := fun _ => List Fd) Queue.sendQueue [] w.queue
    exact ⟨hswapped, rfl⟩

/-! ## Pushed and handled -/

/-- The descriptor that a call pushed, if it pushed one. -/
def Call.pushed : Call → Option Fd
  | .push_back fd => some fd
  | .move => none

/-- The descriptors pushed, in the order in which the pushes held the lock. -/
def pushed (done : List (Call × List Fd)) : List Fd := done.filterMap fun e => e.1.pushed

/-- What the moves returned, one after the other. -/
def batches (done : List (Call × List Fd)) : List (List Fd) :=
  (done.filter fun e => e.1 = .move).map Prod.snd

@[simp] theorem pushed_concat (done : List (Call × List Fd)) (e : Call × List Fd) :
    pushed (done ++ [e]) = pushed done ++ e.1.pushed.toList := by
  rw [pushed, List.filterMap_append]
  obtain ⟨k, fds⟩ := e
  cases k <;> rfl

@[simp] theorem batches_concat (done : List (Call × List Fd)) (e : Call × List Fd) :
    batches (done ++ [e]) = batches done ++ if e.1 = .move then [e.2] else [] := by
  rw [batches, List.filter_append, List.map_append]
  obtain ⟨k, fds⟩ := e
  cases k <;> rfl

/-- The loop of `processNewConnections` and `processSendQueue`: a batch is taken from its back. -/
def drain (batch : List Fd) : List Fd :=
  match _ : batch.getLast? with
  | none => []
  | some fd => fd :: drain batch.dropLast
termination_by batch.length
decreasing_by
  cases batch with
  | nil => contradiction
  | cons fd fds => simp

/-- A batch is handled backwards. -/
theorem drain_eq (batch : List Fd) : drain batch = batch.reverse := by
  induction batch using List.reverseRecOn with
  | nil =>
    rw [drain]
    rfl
  | append_singleton fds fd ih =>
    rw [drain]
    split
    · rename_i hlast
      simp at hlast
    · rename_i last hlast
      rw [List.getLast?_concat, Option.some.injEq] at hlast
      rw [List.dropLast_concat, ih, List.reverse_append, List.reverse_singleton, hlast,
        List.singleton_append]

/-- **Calls in sequence**: what was pushed is what the moves returned, and what is left. -/
theorem pushed_eq_of_sequence {memory : ℕ → Fd} {done : List (Call × List Fd)} {v : IntVector}
    (h : Sequence code (empty memory) done v) :
    pushed done = (batches done).flatten ++ v.toList := by
  induction h with
  | nil => rfl
  | concat k _ ih =>
    rename_i done v _
    have hrun := run_eq v k
    have hleft := congrArg Prod.fst hrun
    have hresult := congrArg Prod.snd hrun
    dsimp only at hleft hresult
    rw [hleft, hresult]
    cases k with
    | push_back fd =>
      rw [pushed_concat, batches_concat, ih]
      simp [Call.pushed, Call.apply]
    | move =>
      rw [pushed_concat, batches_concat, ih]
      simp [Call.pushed, Call.apply]

variable {ι : Type} [DecidableEq ι] {memory : ℕ → Fd} {s : State ι IntVector Call At (List Fd)}

/-- **Each descriptor is handled once**, for any number of threads and any order of their
steps: at most one thread holds the lock, which is set exactly then; and the descriptors pushed
are those of the batches, each handled backwards, and the ones that wait in the vector. -/
theorem handled_once (h : (system ι memory).Reachable s) :
    (∀ i j, (s.point i).Holds → (s.point j).Holds → i = j) ∧
    (s.lock_ = true ↔ ∃ i, (s.point i).Holds) ∧
    ∃ waiting, pushed s.done = (batches s.done).flatten ++ waiting ∧
      (pushed s.done).Perm ((batches s.done).flatMap drain ++ waiting) ∧
      ((∀ i, ¬ (s.point i).Holds) → s.object.toList = waiting) := by
  have hatomic := atomic_of_reachable h
  refine ⟨fun i j => hatomic.eq_of_holds, hatomic.lock_iff, ?_⟩
  obtain ⟨v, hseq, -⟩ := id hatomic
  have hpushed := pushed_eq_of_sequence hseq
  have hdrain : (batches s.done).flatten.Perm ((batches s.done).flatMap drain) := by
    rw [← List.flatMap_id]
    refine List.Perm.flatMap_left _ fun batch _ => ?_
    rw [drain_eq]
    exact batch.reverse_perm.symm
  refine ⟨v.toList, hpushed, ?_, fun hnobody => ?_⟩
  · rw [hpushed]
    exact hdrain.append_right _
  · have hobject := pushed_eq_of_sequence (hatomic.sequence hnobody)
    exact List.append_cancel_left (hobject.symm.trans hpushed)

/-- Two connections are handed over while the reactor thread waits for the lock, and a third
one is on its way. -/
def handingOver : List (Action Bool Call) :=
  [.call false (enqueueNewConnection 7), .step false, .call true processNewConnections,
      .step true, .step true]
    ++ List.replicate 4 (.step false)
    ++ [.call false (enqueueNewConnection 8)] ++ List.replicate 5 (.step false)
    ++ List.replicate 4 (.step true)
    ++ [.call false (enqueueNewConnection 9), .step false, .step true, .step false, .step false]

/-- The reactor thread gets both and handles the second one first. -/
theorem handled_once_handingOver :
    ∃ s, (system Bool fun _ => 0).Reachable s ∧ pushed s.done = [7, 8] ∧
      (batches s.done).flatMap drain = [8, 7] ∧
      ∃ waiting, pushed s.done = (batches s.done).flatten ++ waiting ∧
        (pushed s.done).Perm ((batches s.done).flatMap drain ++ waiting) := by
  have hrun : ∃ s ∈ runFrom (next code) (fun _ _ => True) (start (empty fun _ => 0)) handingOver,
      s.done = [(.push_back 7, []), (.push_back 8, []), (.move, [7, 8])] := by decide +kernel
  obtain ⟨s, hreach, hdone⟩ := exists_of_runFrom hrun
  obtain ⟨-, -, waiting, hpushed, hperm, -⟩ := handled_once hreach
  refine ⟨s, hreach, ?_, ?_, waiting, hpushed, hperm⟩
  · rw [hdone]
    rfl
  · rw [hdone]
    simp [batches, drain_eq]

/-- **The lock is never stuck**: in a run in which every thread that is in a call is scheduled
again and again, one more call comes to its end as long as some thread is in one. -/
theorem call_leadsTo_end {run : InfiniteRun (system ι memory)} (hfair : Fair run) (n : ℕ) :
    run.LeadsTo (fun s => (∃ i, (s.point i).Wants) ∧ s.done.length = n)
      (fun s => n < s.done.length) :=
  wants_leadsTo hfair

/-- Two threads push at the same time, and the one that finds the lock taken tries again. -/
def takingTurns : List (Action Bool Call) :=
  [.call false (enqueueSend 7), .call true (enqueueSend 8), .step false, .step true, .step true]
    ++ List.replicate 4 (.step false) ++ List.replicate 6 (.step true)

theorem isSome_takingTurns :
    (runFrom (next code) (fun _ _ => True) (start (empty fun _ => 0)) takingTurns).isSome
      = true := by decide +kernel

/-- The run in which these steps are all. -/
def runTakingTurns : InfiniteRun (system Bool fun _ => 0) :=
  .ofList takingTurns isSome_takingTurns

theorem fair_runTakingTurns : Fair runTakingTurns := by
  intro i
  cases i
  · exact InfiniteRun.takes_ofList isSome_takingTurns (by decide +kernel) (by decide +kernel)
  · exact InfiniteRun.takes_ofList isSome_takingTurns (by decide +kernel) (by decide +kernel)

/-- The second push comes to its end. -/
theorem call_leadsTo_end_takingTurns :
    ∃ m, 8 ≤ m ∧ 1 < (runTakingTurns.state m).done.length := by
  refine call_leadsTo_end fair_runTakingTurns 1 8 ⟨⟨true, Or.inl ?_⟩, by decide +kernel⟩
  have hpoint : (runTakingTurns.state 8).point true = .spin (.push_back 8) := by decide +kernel
  rw [hpoint]
  trivial

end Muduo.SpinQueue
