/-
# The packet buffers of the UDP receiver

`what.cpp`: the main loop takes a buffer from the memory pool, receives a packet into it and
pushes it on the queue of a worker, which gives it back to the pool.  Every buffer is at every
step in exactly one place.
-/
import FastServer.Conservation
import FastServer.Ring
import FastServer.TransitionSystem

namespace UdpReceiver

open Conservation Ring TransitionSystem

/-! ## State -/

def packetsPerBurst : ℕ := 1000

/-- The number of buffers that `main` creates the memory pool with. -/
def poolSize : ℕ := packetsPerBurst * 2

/-- The size of a worker's queue. -/
def queueSize : ℕ := 1024

/-- The workers, of which there are `WORKER_THREADS`. -/
abbrev WorkerIndex : Type := Fin 4

local instance neZero_workerIndex : NeZero 4 := ⟨by decide⟩

/-- Where `main` stands: in `epoll_wait`, about to acquire a buffer, to throw a packet away, to
receive one, to release the buffer again (and to leave the loop if there was nothing to
receive), in one of the steps of `push`, or about to stop the workers. -/
inductive Main
  | wait
  | acquire
  | discard
  | receive (buf : ℕ)
  | release (buf : ℕ) (again : Bool)
  | loadTail (buf : ℕ)
  | loadHead (buf next_tail : ℕ)
  | write (buf next_tail : ℕ)
  | storeTail (buf next_tail : ℕ)
  | stop
  | stopped

/-- Where a worker stands: about to test `running`, in one of the steps of `pop`, about to
release the buffer, or behind its loop. -/
inductive Worker
  | test
  | loadHead
  | loadTail (head : ℕ)
  | read
  | storeHead (item : ℕ)
  | release (packet : ℕ)
  | stopped

/-- The memory pool, the queues of the workers, the variables of `main` and the threads.
Buffers are numbered in the order in which they were created. -/
structure State where
  free_list : List ℕ
  head : WorkerIndex → ℕ
  tail : WorkerIndex → ℕ
  ring : WorkerIndex → ℕ → ℕ
  worker_index : WorkerIndex
  events : ℕ
  running : Bool
  main : Main
  workers : WorkerIndex → Worker

/-- The workers are started. -/
def start : State where
  free_list := List.range poolSize
  head := fun _ => 0
  tail := fun _ => 0
  ring := fun _ _ => 0
  worker_index := 0
  events := 0
  running := true
  main := .wait
  workers := fun _ => .test

/-! ## Steps -/

/-- What `recvfrom` says: a packet was received, there is none, or another error (also a packet
without data, whatever `errno` is then). -/
inductive Recv
  | data
  | again
  | failed

/-- `main` goes on with the next event that is ready, or waits. -/
def State.nextEvent (s : State) : State :=
  match s.events with
  | 0 => { s with main := .wait }
  | k + 1 => { s with events := k, main := .acquire }

/-- `epoll_wait` returns the number of events, all of the only socket, or fails. -/
def State.epollWait (s : State) (n : Option ℕ) : Option State :=
  match s.main with
  | .wait =>
      match n with
      | none => some { s with main := .stop }
      | some 0 => some s
      | some (k + 1) => some { s with events := k, main := .acquire }
  | _ => none

/-- `recvfrom` returns. -/
def State.recvfrom (s : State) (result : Recv) : Option State :=
  match s.main with
  | .discard => some { s with main := .acquire }
  | .receive buf =>
      match result with
      | .data => some { s with main := .loadTail buf }
      | .again => some { s with main := .release buf true }
      | .failed => some { s with main := .release buf false }
  | _ => none

/-- The other steps of `main`. -/
def State.stepMain (s : State) : Option State :=
  match s.main with
  | .acquire =>
      match s.free_list with
      | [] => some { s with main := .discard }
      | buf :: rest => some { s with free_list := rest, main := .receive buf }
  | .release buf again =>
      let released : State := { s with free_list := s.free_list ++ [buf] }
      if again then some released.nextEvent else some { released with main := .acquire }
  | .loadTail buf =>
      some { s with main := .loadHead buf ((s.tail s.worker_index + 1) % queueSize) }
  | .loadHead buf next_tail =>
      if next_tail = s.head s.worker_index then
        -- the queue is full: the next worker is tried
        some { s with worker_index := s.worker_index + 1, main := .loadTail buf }
      else some { s with main := .write buf next_tail }
  | .write buf next_tail =>
      some { s with
        ring := Function.update s.ring s.worker_index
          (Function.update (s.ring s.worker_index) (s.tail s.worker_index) buf)
        main := .storeTail buf next_tail }
  | .storeTail _ next_tail =>
      some { s with
        tail := Function.update s.tail s.worker_index next_tail
        worker_index := s.worker_index + 1
        main := .acquire }
  | .stop => some { s with running := false, main := .stopped }
  | _ => none

/-- Worker `w` goes on at `pc`. -/
def State.setWorker (s : State) (w : WorkerIndex) (pc : Worker) : State :=
  { s with workers := Function.update s.workers w pc }

/-- The next step of worker `w`. -/
def State.stepWorker (s : State) (w : WorkerIndex) : Option State :=
  match s.workers w with
  | .test =>
      if s.running then some (s.setWorker w .loadHead) else some (s.setWorker w .stopped)
  | .loadHead => some (s.setWorker w (.loadTail (s.head w)))
  | .loadTail head =>
      if head = s.tail w then
        -- nothing to do: the worker sleeps
        some (s.setWorker w .test)
      else some (s.setWorker w .read)
  | .read => some (s.setWorker w (.storeHead (s.ring w (s.head w))))
  | .storeHead item =>
      some { s.setWorker w (.release item) with
        head := Function.update s.head w ((s.head w + 1) % queueSize) }
  | .release packet => some { s.setWorker w .test with free_list := s.free_list ++ [packet] }
  | .stopped => none

/-- A step of `main` or of a worker. -/
inductive Action
  | epollWait (n : Option ℕ)
  | recvfrom (result : Recv)
  | main
  | worker (w : WorkerIndex)

/-- The state after a step, if it is enabled. -/
def next (s : State) : Action → Option State
  | .epollWait n => s.epollWait n
  | .recvfrom result => s.recvfrom result
  | .main => s.stepMain
  | .worker w => s.stepWorker w

/-- `main` and the workers. -/
def system : TransitionSystem State Action := TransitionSystem.ofFunction start next

/-! ## Places -/

/-- Where a buffer can be. -/
inductive Place
  | freeList
  | queue (w : WorkerIndex)
  | main
  | worker (w : WorkerIndex)
  deriving DecidableEq, Fintype

/-- The buffer in the hands of `main`: up to the store of the tail. -/
def Main.held : Main → List ℕ
  | .receive buf => [buf]
  | .release buf _ => [buf]
  | .loadTail buf => [buf]
  | .loadHead buf _ => [buf]
  | .write buf _ => [buf]
  | .storeTail buf _ => [buf]
  | _ => []

/-- The buffer in the hands of a worker: from the store of the head on. -/
def Worker.held : Worker → List ℕ
  | .release packet => [packet]
  | _ => []

/-- The buffers at a place; in a queue those in the slots from the head to the tail. -/
def State.held (s : State) : Place → List ℕ
  | .freeList => s.free_list
  | .queue w => queued queueSize (s.ring w) (s.head w) (s.tail w)
  | .main => s.main.held
  | .worker w => (s.workers w).held

/-- **What should hold.**  Every buffer of the pool is in exactly one place, nothing is in a
place twice (in two slots of a queue, or released twice), and there are no other buffers. -/
structure State.Conserved (s : State) : Prop where
  place : ∀ buf < poolSize, ∃! p, buf ∈ s.held p
  once : ∀ p, (s.held p).Nodup
  only : ∀ p, ∀ buf ∈ s.held p, buf < poolSize

/-! ## The invariant -/

/-- What `main` knows at `pc` about the queue that it pushes on. -/
def State.MainOk (s : State) : Main → Prop
  | .loadHead _ next_tail => next_tail = (s.tail s.worker_index + 1) % queueSize
  | .write _ next_tail => next_tail = (s.tail s.worker_index + 1) % queueSize ∧
      next_tail ≠ s.head s.worker_index
  | .storeTail buf next_tail => next_tail = (s.tail s.worker_index + 1) % queueSize ∧
      next_tail ≠ s.head s.worker_index ∧ s.ring s.worker_index (s.tail s.worker_index) = buf
  | _ => True

/-- What worker `w` knows at `pc` about its queue. -/
def State.WorkerOk (s : State) (w : WorkerIndex) : Worker → Prop
  | .loadTail head => head = s.head w
  | .read => s.head w ≠ s.tail w
  | .storeHead item => s.head w ≠ s.tail w ∧ s.ring w (s.head w) = item
  | _ => True

/-- The indices are those of slots, the threads stand where they say, and the places together
hold every buffer once. -/
structure State.Invariant (s : State) : Prop where
  head : ∀ w, s.head w < queueSize
  tail : ∀ w, s.tail w < queueSize
  main : s.MainOk s.main
  workers : ∀ w, s.WorkerOk w (s.workers w)
  conserved : everything s.held = Multiset.range poolSize

variable {s s' : State} {w : WorkerIndex}

@[simp] theorem setWorker_self (s : State) (w : WorkerIndex) (pc : Worker) :
    (s.setWorker w pc).workers w = pc := Function.update_self ..

theorem setWorker_of_ne (s : State) {v : WorkerIndex} (hv : v ≠ w) (pc : Worker) :
    (s.setWorker w pc).workers v = s.workers v := Function.update_of_ne hv ..

namespace State.Invariant

/-- **The invariant conserves the buffers.** -/
theorem conserves (h : s.Invariant) : s.Conserved := by
  have hnodup : (everything s.held).Nodup := by
    rw [h.conserved]
    exact Multiset.nodup_range poolSize
  refine ⟨?_, nodup_held hnodup, ?_⟩
  · intro buf hbuf
    apply existsUnique_place hnodup
    rw [h.conserved]
    exact Multiset.mem_range.mpr hbuf
  · intro p buf hbuf
    have hmem : buf ∈ everything s.held := mem_everything.mpr ⟨p, hbuf⟩
    rw [h.conserved] at hmem
    exact Multiset.mem_range.mp hmem

/-- At the start all buffers are free. -/
theorem start_invariant : start.Invariant where
  head := fun _ => Nat.two_pow_pos 10
  tail := fun _ => Nat.two_pow_pos 10
  main := trivial
  workers := fun _ => trivial
  conserved := by
    rw [everything, Finset.sum_eq_single Place.freeList]
    · simp only [State.held, start, Multiset.coe_range]
    · intro p _ hp
      cases p with
      | freeList => exact absurd rfl hp
      | queue w =>
        have hnil : start.held (.queue w) = [] :=
          (queued_eq_nil_iff (Nat.two_pow_pos 10) (Nat.two_pow_pos 10)).mpr rfl
        rw [hnil]
        rfl
      | main => rfl
      | worker w => rfl
    · exact fun hp => absurd (Finset.mem_univ _) hp

/-! ## Steps of `main` -/

/-- `main` goes on with the same buffer in its hands. -/
theorem moveMain (h : s.Invariant) (pc : Main) {index : WorkerIndex} {events : ℕ}
    {running : Bool} (hheld : pc.held = s.main.held)
    (hok : ({ s with worker_index := index } : State).MainOk pc) :
    ({ s with main := pc, worker_index := index, events := events, running := running } :
      State).Invariant where
  head := h.head
  tail := h.tail
  main := by
    cases pc <;> exact hok
  workers := h.workers
  conserved := by
    rw [← h.conserved]
    apply everything_congr
    intro p
    cases p with
    | main => exact hheld
    | _ => rfl

/-- **A buffer is acquired** from the pool. -/
theorem acquire (h : s.Invariant) {buf : ℕ} {rest : List ℕ} (hfree : s.free_list = buf :: rest)
    (hmain : s.main.held = []) :
    ({ s with free_list := rest, main := .receive buf } : State).Invariant where
  head := h.head
  tail := h.tail
  main := trivial
  workers := h.workers
  conserved := by
    rw [← h.conserved]
    apply everything_move (p := .freeList) (q := .main) (x := buf) (by nofun)
    · show s.free_list.Perm (buf :: rest)
      rw [hfree]
    · show [buf].Perm (buf :: s.main.held)
      rw [hmain]
    · intro r hfree hmain
      cases r with
      | freeList => exact absurd rfl hfree
      | main => exact absurd rfl hmain
      | _ => rfl

/-- **A buffer is released** by `main`. -/
theorem release (h : s.Invariant) {buf : ℕ} (hmain : s.main.held = [buf]) (pc : Main)
    (hpc : pc.held = []) (hok : ∀ t : State, t.MainOk pc) {events : ℕ} :
    ({ s with free_list := s.free_list ++ [buf], main := pc, events := events } :
      State).Invariant where
  head := h.head
  tail := h.tail
  main := hok _
  workers := h.workers
  conserved := by
    rw [← h.conserved]
    apply everything_move (p := .main) (q := .freeList) (x := buf) (by nofun)
    · show s.main.held.Perm (buf :: pc.held)
      rw [hmain, hpc]
    · exact List.perm_append_singleton buf s.free_list
    · intro r hmain hfree
      cases r with
      | freeList => exact absurd rfl hfree
      | main => exact absurd rfl hmain
      | _ => rfl

/-- A buffer is written into the slot at the tail of a queue. -/
theorem write (h : s.Invariant) {buf next_tail : ℕ} (hmain : s.main.held = [buf])
    (hnext : next_tail = (s.tail s.worker_index + 1) % queueSize)
    (hroom : next_tail ≠ s.head s.worker_index) :
    ({ s with
      ring := Function.update s.ring s.worker_index
        (Function.update (s.ring s.worker_index) (s.tail s.worker_index) buf)
      main := .storeTail buf next_tail } : State).Invariant := by
  refine ⟨h.head, h.tail, ⟨hnext, hroom, ?_⟩, ?_, ?_⟩
  · show Function.update s.ring s.worker_index _ s.worker_index _ = buf
    rw [Function.update_self, Function.update_self]
  · intro w
    have hok := h.workers w
    show State.WorkerOk _ w (s.workers w)
    cases hpc : s.workers w with
    | storeHead item =>
      rw [hpc] at hok
      obtain ⟨hne, hitem⟩ := hok
      refine ⟨hne, ?_⟩
      show Function.update s.ring s.worker_index _ w (s.head w) = item
      by_cases hw : w = s.worker_index
      · rw [hw] at hne hitem ⊢
        rw [Function.update_self, Function.update_of_ne hne, hitem]
      · rw [Function.update_of_ne hw, hitem]
    | _ =>
      rw [hpc] at hok
      exact hok
  · rw [← h.conserved]
    apply everything_congr
    intro p
    cases p with
    | main => exact hmain.symm
    | queue w =>
      show queued queueSize (Function.update s.ring s.worker_index _ w) _ _ = queued queueSize _ _ _
      by_cases hw : w = s.worker_index
      · rw [hw, Function.update_self, queued_update (h.head _) (h.tail _)]
      · rw [Function.update_of_ne hw]
    | _ => rfl

/-- **A buffer is handed to a queue**: its tail moves on. -/
theorem storeTail (h : s.Invariant) {buf next_tail : ℕ}
    (hmain : s.main = .storeTail buf next_tail) {index : WorkerIndex} :
    ({ s with
      tail := Function.update s.tail s.worker_index next_tail
      worker_index := index
      main := .acquire } : State).Invariant := by
  have hok := h.main
  rw [hmain] at hok
  obtain ⟨rfl, hroom, hbuf⟩ := hok
  refine ⟨h.head, ?_, trivial, ?_, ?_⟩
  · intro w
    show Function.update s.tail s.worker_index _ w < queueSize
    by_cases hw : w = s.worker_index
    · rw [hw, Function.update_self]
      exact Nat.mod_lt _ (Nat.two_pow_pos 10)
    · rw [Function.update_of_ne hw]
      exact h.tail w
  · intro w
    have hok := h.workers w
    have hne : s.head w ≠ s.tail w → s.head w
        ≠ Function.update s.tail s.worker_index ((s.tail s.worker_index + 1) % queueSize) w := by
      intro hne
      by_cases hw : w = s.worker_index
      · rw [hw, Function.update_self]
        exact hroom.symm
      · rw [Function.update_of_ne hw]
        exact hne
    show State.WorkerOk _ w (s.workers w)
    cases hpc : s.workers w with
    | read =>
      rw [hpc] at hok
      exact hne hok
    | storeHead item =>
      rw [hpc] at hok
      exact ⟨hne hok.1, hok.2⟩
    | _ =>
      rw [hpc] at hok
      exact hok
  · rw [← h.conserved]
    apply everything_move (p := .main) (q := .queue s.worker_index) (x := buf) (by nofun)
    · show s.main.held.Perm [buf]
      rw [hmain]
      exact List.Perm.refl _
    · show (queued queueSize _ _ (Function.update s.tail s.worker_index _ s.worker_index)).Perm
        (buf :: queued queueSize (s.ring s.worker_index) (s.head s.worker_index) _)
      rw [Function.update_self, queued_push (h.head _) (h.tail _) hroom, hbuf]
      exact List.perm_append_singleton buf _
    · intro r hr hqueue
      cases r with
      | main => exact absurd rfl hr
      | queue w =>
        have hw : w ≠ s.worker_index := fun heq => hqueue (heq ▸ rfl)
        show queued queueSize _ _ (Function.update s.tail s.worker_index _ w) = queued _ _ _ _
        rw [Function.update_of_ne hw]
      | _ => rfl

/-- **A step of `main`** keeps the invariant. -/
theorem stepMain (h : s.Invariant) (hstep : s.stepMain = some s') : s'.Invariant := by
  have hok := h.main
  unfold State.stepMain at hstep
  cases hpc : s.main with
  | acquire =>
    rw [hpc] at hstep
    dsimp only at hstep
    split at hstep
    · obtain rfl := Option.some.inj hstep
      exact h.moveMain .discard (by rw [hpc]; rfl) trivial
    · rename_i buf rest hfree
      obtain rfl := Option.some.inj hstep
      exact h.acquire hfree (by rw [hpc]; rfl)
  | release buf again =>
    rw [hpc] at hstep
    have hheld : s.main.held = [buf] := by rw [hpc]; rfl
    cases again with
    | false =>
      obtain rfl := Option.some.inj hstep
      exact h.release hheld .acquire rfl fun _ => trivial
    | true =>
      obtain rfl := Option.some.inj hstep
      unfold State.nextEvent
      cases s.events with
      | zero => exact h.release hheld .wait rfl fun _ => trivial
      | succ k => exact h.release hheld .acquire rfl fun _ => trivial
  | loadTail buf =>
    rw [hpc] at hstep
    obtain rfl := Option.some.inj hstep
    exact h.moveMain (.loadHead buf _) (by rw [hpc]; rfl) rfl
  | loadHead buf next_tail =>
    rw [hpc] at hstep hok
    dsimp only at hstep
    split_ifs at hstep with hfull
    · obtain rfl := Option.some.inj hstep
      exact h.moveMain (.loadTail buf) (by rw [hpc]; rfl) trivial
    · obtain rfl := Option.some.inj hstep
      exact h.moveMain (.write buf next_tail) (by rw [hpc]; rfl) ⟨hok, hfull⟩
  | write buf next_tail =>
    rw [hpc] at hstep hok
    obtain rfl := Option.some.inj hstep
    exact h.write (by rw [hpc]; rfl) hok.1 hok.2
  | storeTail buf next_tail =>
    rw [hpc] at hstep
    obtain rfl := Option.some.inj hstep
    exact h.storeTail hpc
  | stop =>
    rw [hpc] at hstep
    obtain rfl := Option.some.inj hstep
    exact h.moveMain .stopped (by rw [hpc]; rfl) trivial
  | _ =>
    rw [hpc] at hstep
    exact absurd hstep.symm (Option.some_ne_none _)

/-- `epoll_wait` returns. -/
theorem epollWait (h : s.Invariant) {n : Option ℕ} (hstep : s.epollWait n = some s') :
    s'.Invariant := by
  unfold State.epollWait at hstep
  cases hpc : s.main with
  | wait =>
    rw [hpc] at hstep
    cases n with
    | none =>
      obtain rfl := Option.some.inj hstep
      exact h.moveMain .stop (by rw [hpc]; rfl) trivial
    | some n =>
      cases n with
      | zero =>
        obtain rfl := Option.some.inj hstep
        exact h
      | succ k =>
        obtain rfl := Option.some.inj hstep
        exact h.moveMain .acquire (by rw [hpc]; rfl) trivial
  | _ =>
    rw [hpc] at hstep
    exact absurd hstep.symm (Option.some_ne_none _)

/-- `recvfrom` returns, whatever it says. -/
theorem recvfrom (h : s.Invariant) {result : Recv} (hstep : s.recvfrom result = some s') :
    s'.Invariant := by
  unfold State.recvfrom at hstep
  cases hpc : s.main with
  | discard =>
    rw [hpc] at hstep
    obtain rfl := Option.some.inj hstep
    exact h.moveMain .acquire (by rw [hpc]; rfl) trivial
  | receive buf =>
    rw [hpc] at hstep
    cases result with
    | data =>
      obtain rfl := Option.some.inj hstep
      exact h.moveMain (.loadTail buf) (by rw [hpc]; rfl) trivial
    | again =>
      obtain rfl := Option.some.inj hstep
      exact h.moveMain (.release buf true) (by rw [hpc]; rfl) trivial
    | failed =>
      obtain rfl := Option.some.inj hstep
      exact h.moveMain (.release buf false) (by rw [hpc]; rfl) trivial
  | _ =>
    rw [hpc] at hstep
    exact absurd hstep.symm (Option.some_ne_none _)

/-! ## Steps of a worker -/

/-- A worker goes on with the same buffer in its hands. -/
theorem moveWorker (h : s.Invariant) (pc : Worker) (hheld : pc.held = (s.workers w).held)
    (hok : s.WorkerOk w pc) : (s.setWorker w pc).Invariant where
  head := h.head
  tail := h.tail
  main := h.main
  workers := by
    intro v
    by_cases hv : v = w
    · subst hv
      rw [setWorker_self]
      exact hok
    · rw [setWorker_of_ne s hv]
      exact h.workers v
  conserved := by
    rw [← h.conserved]
    apply everything_congr
    intro p
    cases p with
    | worker v =>
      show ((s.setWorker w pc).workers v).held = (s.workers v).held
      by_cases hv : v = w
      · subst hv
        rw [setWorker_self, hheld]
      · rw [setWorker_of_ne s hv]
    | _ => rfl

/-- **A buffer is taken from a queue**: its head moves on. -/
theorem storeHead (h : s.Invariant) {item : ℕ} (hpc : s.workers w = .storeHead item) :
    ({ s.setWorker w (.release item) with
      head := Function.update s.head w ((s.head w + 1) % queueSize) } : State).Invariant := by
  have hok := h.workers w
  rw [hpc] at hok
  obtain ⟨hne, hitem⟩ := hok
  refine ⟨?_, h.tail, ?_, ?_, ?_⟩
  · intro v
    show Function.update s.head w _ v < queueSize
    by_cases hv : v = w
    · rw [hv, Function.update_self]
      exact Nat.mod_lt _ (Nat.two_pow_pos 10)
    · rw [Function.update_of_ne hv]
      exact h.head v
  · -- there is still room behind the tail
    have hroom : (s.tail s.worker_index + 1) % queueSize ≠ s.head s.worker_index →
        (s.tail s.worker_index + 1) % queueSize
          ≠ Function.update s.head w ((s.head w + 1) % queueSize) s.worker_index := by
      intro hroom
      by_cases hw : s.worker_index = w
      · rw [hw, Function.update_self]
        exact succ_mod_ne_succ_mod (h.tail w) (h.head w) hne.symm
      · rw [Function.update_of_ne hw]
        exact hroom
    have hok := h.main
    show State.MainOk _ s.main
    cases hmain : s.main with
    | write buf next_tail =>
      rw [hmain] at hok
      obtain ⟨rfl, hnext⟩ := hok
      exact ⟨rfl, hroom hnext⟩
    | storeTail buf next_tail =>
      rw [hmain] at hok
      obtain ⟨rfl, hnext, hbuf⟩ := hok
      exact ⟨rfl, hroom hnext, hbuf⟩
    | _ =>
      rw [hmain] at hok
      exact hok
  · intro v
    show State.WorkerOk _ v ((s.setWorker w (.release item)).workers v)
    by_cases hv : v = w
    · subst hv
      rw [setWorker_self]
      trivial
    · rw [setWorker_of_ne s hv]
      have hok := h.workers v
      have hhead : Function.update s.head w ((s.head w + 1) % queueSize) v = s.head v :=
        Function.update_of_ne hv ..
      cases hpcv : s.workers v with
      | loadTail head =>
        rw [hpcv] at hok
        exact hok.trans hhead.symm
      | read =>
        rw [hpcv] at hok
        show Function.update s.head w _ v ≠ s.tail v
        rw [hhead]
        exact hok
      | storeHead x =>
        rw [hpcv] at hok
        show Function.update s.head w _ v ≠ s.tail v ∧ s.ring v (Function.update s.head w _ v) = x
        rw [hhead]
        exact hok
      | _ => trivial
  · rw [← h.conserved]
    apply everything_move (p := .queue w) (q := .worker w) (x := item) (by nofun)
    · show (queued queueSize (s.ring w) (s.head w) (s.tail w)).Perm
        (item :: queued queueSize _ (Function.update s.head w _ w) _)
      rw [Function.update_self, queued_pop (h.head w) (h.tail w) hne, hitem]
      exact List.Perm.refl _
    · show ((s.setWorker w (.release item)).workers w).held.Perm (item :: (s.workers w).held)
      rw [setWorker_self, hpc]
      exact List.Perm.refl _
    · intro r hqueue hworker
      cases r with
      | queue v =>
        have hv : v ≠ w := fun heq => hqueue (heq ▸ rfl)
        show queued queueSize _ (Function.update s.head w _ v) _ = queued _ _ _ _
        rw [Function.update_of_ne hv]
        rfl
      | worker v =>
        have hv : v ≠ w := fun heq => hworker (heq ▸ rfl)
        show ((s.setWorker w (.release item)).workers v).held = (s.workers v).held
        rw [setWorker_of_ne s hv]
      | _ => rfl

/-- **A buffer is released** by a worker. -/
theorem releaseWorker (h : s.Invariant) {packet : ℕ} (hpc : s.workers w = .release packet) :
    ({ s.setWorker w .test with free_list := s.free_list ++ [packet] } : State).Invariant := by
  have hmoved : ∀ v, s.WorkerOk v ((s.setWorker w .test).workers v) := by
    intro v
    by_cases hv : v = w
    · subst hv
      rw [setWorker_self]
      trivial
    · rw [setWorker_of_ne s hv]
      exact h.workers v
  refine ⟨h.head, h.tail, h.main, hmoved, ?_⟩
  rw [← h.conserved]
  apply everything_move (p := .worker w) (q := .freeList) (x := packet) (by nofun)
  · show (s.workers w).held.Perm (packet :: ((s.setWorker w .test).workers w).held)
    rw [setWorker_self, hpc]
    exact List.Perm.refl _
  · exact List.perm_append_singleton packet s.free_list
  · intro r hworker hfree
    cases r with
    | freeList => exact absurd rfl hfree
    | worker v =>
      have hv : v ≠ w := fun heq => hworker (heq ▸ rfl)
      show ((s.setWorker w .test).workers v).held = (s.workers v).held
      rw [setWorker_of_ne s hv]
    | _ => rfl

/-- **A step of a worker** keeps the invariant. -/
theorem stepWorker (h : s.Invariant) (hstep : s.stepWorker w = some s') : s'.Invariant := by
  have hok := h.workers w
  unfold State.stepWorker at hstep
  cases hpc : s.workers w with
  | test =>
    rw [hpc] at hstep
    dsimp only at hstep
    split_ifs at hstep with hrunning
    · obtain rfl := Option.some.inj hstep
      exact h.moveWorker .loadHead (by rw [hpc]; rfl) trivial
    · obtain rfl := Option.some.inj hstep
      exact h.moveWorker .stopped (by rw [hpc]; rfl) trivial
  | loadHead =>
    rw [hpc] at hstep
    obtain rfl := Option.some.inj hstep
    exact h.moveWorker (.loadTail (s.head w)) (by rw [hpc]; rfl) rfl
  | loadTail head =>
    rw [hpc] at hstep hok
    obtain rfl : head = s.head w := hok
    dsimp only at hstep
    split_ifs at hstep with hempty
    · obtain rfl := Option.some.inj hstep
      exact h.moveWorker .test (by rw [hpc]; rfl) trivial
    · obtain rfl := Option.some.inj hstep
      exact h.moveWorker .read (by rw [hpc]; rfl) hempty
  | read =>
    rw [hpc] at hstep hok
    obtain rfl := Option.some.inj hstep
    exact h.moveWorker (.storeHead _) (by rw [hpc]; rfl) ⟨hok, rfl⟩
  | storeHead item =>
    rw [hpc] at hstep
    obtain rfl := Option.some.inj hstep
    exact h.storeHead hpc
  | release packet =>
    rw [hpc] at hstep
    obtain rfl := Option.some.inj hstep
    exact h.releaseWorker hpc
  | stopped =>
    rw [hpc] at hstep
    exact absurd hstep.symm (Option.some_ne_none _)

/-- **A step** of any thread keeps the invariant. -/
theorem next (h : s.Invariant) {a : Action} (hstep : UdpReceiver.next s a = some s') :
    s'.Invariant := by
  cases a with
  | epollWait n => exact h.epollWait hstep
  | recvfrom result => exact h.recvfrom hstep
  | main => exact h.stepMain hstep
  | worker w => exact h.stepWorker hstep

end State.Invariant

/-- **Buffers are conserved**, whatever `epoll_wait` and `recvfrom` return and in whatever order
`main` and the workers take their steps. -/
theorem conserved_of_reachable (h : system.Reachable s) : s.Conserved := by
  have hinvariant : s.Invariant := by
    apply h.invariant
    · rintro s rfl
      exact State.Invariant.start_invariant
    · intro s a s' hs hstep
      exact hs.next hstep
  exact hinvariant.conserves

/-- A packet is received and handled, then an error and the end of the packets. -/
def onePacket : List Action :=
  [.epollWait (some 1), .main, .recvfrom .data, .main, .main, .main, .main, .main,
    .recvfrom .failed, .main, .main, .recvfrom .again, .main]
    ++ List.replicate 6 (.worker 0)

/-- All buffers are free again, the first of them last. -/
theorem conserved_onePacket :
    ∃ s, system.Reachable s ∧ s.free_list.head? = some 3 ∧ s.free_list.getLast? = some 0 ∧
      s.Conserved := by
  have hrun : ∃ s ∈ runFrom next (fun _ _ => True) start onePacket,
      s.free_list.head? = some 3 ∧ s.free_list.getLast? = some 0 := by decide +kernel
  obtain ⟨s, hreach, hhead, hlast⟩ := exists_of_runFrom hrun
  exact ⟨s, hreach, hhead, hlast, conserved_of_reachable hreach⟩

end UdpReceiver
