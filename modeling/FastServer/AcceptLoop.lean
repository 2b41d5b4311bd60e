/-
# Accepting connections

The listening socket of the `MainReactor` is registered with `EPOLLET`, so `epoll_wait`
reports it once after any number of arrivals, and `handleAccept` accepts one connection
for each report.
-/
import FastServer.MachineInt
import FastServer.TransitionSystem

namespace Muduo

open TransitionSystem

/-! ## Runs -/

/-- The listening socket and the thread of the `MainReactor`.  `backlog` holds the
completed connections, numbered as they arrived; `edge` is an edge that `epoll_wait` has
not reported; `handling` says that an event was reported and is to be handled.  The
last field is history: the connections enqueued, with the index of their `SubReactor`. -/
structure AcceptLoop where
  backlog : List ℕ
  arrived : ℕ
  edge : Bool
  handling : Bool
  next_sub_idx : ℤ
  dispatched : List (ℕ × ℕ)
deriving DecidableEq

/-- What `accept` returns: a descriptor, or an error that takes nothing from the backlog. -/
inductive AcceptResult
  | accepted
  | failed
deriving DecidableEq

namespace AcceptLoop

/-- No connection has arrived. -/
def start : AcceptLoop := ⟨[], 0, false, false, 0, []⟩

/-- A peer's connection is completed. -/
def arrive (s : AcceptLoop) : AcceptLoop :=
  { s with
    backlog := s.backlog ++ [s.arrived]
    arrived := s.arrived + 1
    edge := true }

/-- `doEpoll` returns with the event of the listening socket. -/
def doEpoll (s : AcceptLoop) : Option AcceptLoop :=
  if s.handling = false ∧ s.edge = true ∧ s.backlog ≠ [] then
    some { s with
      edge := false
      handling := true }
  else none

/-- `handleAccept`, with `n` reactors. -/
def handleAccept (n : ℕ) (s : AcceptLoop) (result : AcceptResult) : Option AcceptLoop :=
  if s.handling = true then
    match result, s.backlog with
    | .accepted, client :: backlog =>
        some { s with
          backlog := backlog
          handling := false
          next_sub_idx := toI32 (s.next_sub_idx + 1)
          dispatched := s.dispatched ++ [(client, toU64 s.next_sub_idx % n)] }
    | .accepted, [] => none
    | .failed, _ => some { s with handling := false }
  else none

/-- A step of the peers or of the loop. -/
inductive Action
  | arrive
  | doEpoll
  | handleAccept (result : AcceptResult)
deriving DecidableEq

/-- The state after a step, if it is enabled. -/
def next (n : ℕ) (s : AcceptLoop) : Action → Option AcceptLoop
  | .arrive => some s.arrive
  | .doEpoll => s.doEpoll
  | .handleAccept result => s.handleAccept n result

/-- The runs of a `MainReactor` with `n` reactors. -/
def system (n : ℕ) : TransitionSystem AcceptLoop Action :=
  TransitionSystem.ofFunction start (next n)

/-- When no event is to be handled and no edge is pending, nobody waits to be accepted. -/
def NoneWaiting (s : AcceptLoop) : Prop :=
  s.handling = false → s.edge = false → s.backlog = []

/-- The step is not a `handleAccept` that leaves a connection in the backlog without a
further edge pending. -/
def TakesLast (s : AcceptLoop) : Action → Prop
  | .handleAccept .accepted => s.edge = true ∨ s.backlog.length ≤ 1
  | .handleAccept .failed => s.edge = true ∨ s.backlog = []
  | _ => True

/-! ## Nobody is left waiting -/

variable {n : ℕ} {s s' : AcceptLoop}

/-- **What `handleAccept` does.** -/
theorem handleAccept_cases {result : AcceptResult} (h : s.handleAccept n result = some s') :
    s.handling = true ∧ s'.handling = false ∧ s'.edge = s.edge ∧
      ((result = .accepted ∧ ∃ client, s.backlog = client :: s'.backlog) ∨
        (result = .failed ∧ s'.backlog = s.backlog)) := by
  unfold handleAccept at h
  split_ifs at h with hhandling
  cases result with
  | accepted =>
    cases hbacklog : s.backlog with
    | nil =>
      simp only [hbacklog] at h
      exact absurd h.symm (Option.some_ne_none _)
    | cons client backlog =>
      simp only [hbacklog, Option.some.injEq] at h
      subst h
      exact ⟨hhandling, rfl, rfl, Or.inl ⟨rfl, client, rfl⟩⟩
  | failed =>
    obtain rfl := Option.some.inj h
    exact ⟨hhandling, rfl, rfl, Or.inr ⟨rfl, rfl⟩⟩

/-- **A `handleAccept`** leaves nobody waiting exactly if it takes the last connection, or
an edge is pending. -/
theorem noneWaiting_handleAccept_iff {result : AcceptResult}
    (h : s.handleAccept n result = some s') :
    s'.NoneWaiting ↔ s.TakesLast (.handleAccept result) := by
  obtain ⟨-, hdone, hedge, hresult⟩ := handleAccept_cases h
  -- `handleAccept` neither sets nor clears the edge, and takes one connection at most
  have hiff : s'.NoneWaiting ↔ (s.edge = true ∨ s'.backlog = []) := by
    unfold NoneWaiting
    rw [hedge]
    cases s.edge with
    | true => simp
    | false => simp [hdone]
  rw [hiff]
  rcases hresult with ⟨rfl, client, hbacklog⟩ | ⟨rfl, hbacklog⟩
  · show _ ↔ s.edge = true ∨ s.backlog.length ≤ 1
    have hlast : s'.backlog.length + 1 ≤ 1 ↔ s'.backlog.length = 0 := by omega
    rw [hbacklog, List.length_cons, hlast, List.length_eq_zero_iff]
  · rw [hbacklog]
    rfl

/-- **A step** that leaves nobody waiting. -/
theorem noneWaiting_next {a : Action} (hok : s.TakesLast a) (hstep : s.next n a = some s') :
    s'.NoneWaiting := by
  cases a with
  | arrive =>
    obtain rfl := Option.some.inj hstep
    exact fun _ hedge => absurd hedge (by simp [arrive])
  | doEpoll =>
    have hstep : s.doEpoll = some s' := hstep
    unfold doEpoll at hstep
    split_ifs at hstep
    obtain rfl := Option.some.inj hstep
    exact fun hhandling => absurd hhandling (by simp)
  | handleAccept result => exact (noneWaiting_handleAccept_iff hstep).mpr hok

/-- **Nobody is left waiting** in a run in which every `handleAccept` takes the last
connection of the backlog or finds an edge pending; and the next `handleAccept` leaves
nobody waiting if and only if it does so as well. -/
theorem noneWaiting_of_takesLast (h : (system n).ReachableBy TakesLast s) :
    s.NoneWaiting ∧ ∀ result s', s.next n (.handleAccept result) = some s' →
      (s'.NoneWaiting ↔ s.TakesLast (.handleAccept result)) := by
  constructor
  · apply h.invariant
    · rintro s rfl
      exact fun _ _ => rfl
    · intro s a s' _ hok hstep
      exact noneWaiting_next hok hstep
  · intro result s' hstep
    exact noneWaiting_handleAccept_iff hstep

instance (s : AcceptLoop) : DecidablePred s.TakesLast
  | .handleAccept .accepted => inferInstanceAs (Decidable (_ ∨ _))
  | .handleAccept .failed => inferInstanceAs (Decidable (_ ∨ _))
  | .arrive => .isTrue trivial
  | .doEpoll => .isTrue trivial

/-- Two peers arrive one after the other, the second one after the event of the first was
reported. -/
def oneByOne : List Action :=
  [.arrive, .doEpoll, .arrive, .handleAccept .accepted, .doEpoll, .handleAccept .accepted]

/-- Both are accepted, and dispatched in turn. -/
theorem noneWaiting_oneByOne :
    ∃ s, (system 2).ReachableBy TakesLast s ∧ s.dispatched = [(0, 0), (1, 1)] ∧
      s.NoneWaiting := by
  have hrun : ∃ s ∈ runFrom (next 2) TakesLast start oneByOne,
      s.dispatched = [(0, 0), (1, 1)] := by decide +kernel
  obtain ⟨s, hreach, hdispatched⟩ := exists_of_runFrom hrun
  exact ⟨s, hreach, hdispatched, (noneWaiting_of_takesLast hreach).1⟩

/-- Two peers arrive before `epoll_wait` returns. -/
def together : List Action := [.arrive, .arrive, .doEpoll, .handleAccept .accepted]

/-- **The second peer is left waiting**, and the loop waits for a third. -/
theorem not_noneWaiting_together :
    ∃ s, (system 2).Reachable s ∧ s.backlog = [1] ∧ s.edge = false ∧ s.doEpoll = none ∧
      ¬ s.NoneWaiting := by
  have hrun : ∃ s ∈ runFrom (next 2) (fun _ _ => True) start together,
      s.backlog = [1] ∧ s.edge = false ∧ s.handling = false ∧ s.doEpoll = none := by
    decide +kernel
  obtain ⟨s, hreach, hbacklog, hedge, hhandling, hwait⟩ := exists_of_runFrom hrun
  refine ⟨s, hreach, hbacklog, hedge, hwait, ?_⟩
  intro hnone
  rw [hnone hhandling hedge] at hbacklog
  exact absurd hbacklog (by decide)

end AcceptLoop

end Muduo
