/-
# The pipeline of the trading system

`TradingSystem` of `system.cpp`: the receiver pushes raw messages, four parser workers pop
them and push the market data that they parse, and two algorithm workers pop these.  The
parsers share both queues and the algorithm workers the second one, although a
`LockFreeQueue` is made for one producer and one consumer.
-/
import FastServer.LockFreeQueue
import FastServer.TransitionSystem

namespace TradingSystem

open TransitionSystem

variable {ρ μ : Type}

/-- The two queues with the workers at them. -/
structure State (ρ μ : Type) where
  raw_md_queue : LockFreeQueue.State ρ Unit (Fin 4)
  parsed_md_queue : LockFreeQueue.State μ (Fin 4) (Fin 2)

/-- Nothing was received yet. -/
def start [Inhabited ρ] [Inhabited μ] : State ρ μ where
  raw_md_queue := LockFreeQueue.start
  parsed_md_queue := LockFreeQueue.start

/-! ## Steps -/

section Steps

-- what `sscanf` makes of a message, and what `std::move` leaves of the items of either queue
variable (parse : ρ → Option μ) (movedRaw : ρ → ρ) (movedData : μ → μ)

/-- The receiver has a message and calls `push`. -/
def State.receive (s : State ρ μ) (raw_data : ρ) : Option (State ρ μ) :=
  match s.raw_md_queue.producers () with
  | .idle => some { s with raw_md_queue := s.raw_md_queue.setProducer () (.loadTail raw_data) }
  | _ => none

/-- The next step of parser `i`: of its `push`, or of its `pop`, behind which it parses the
message and calls `push` if there is something to push. -/
def State.stepParser (s : State ρ μ) (i : Fin 4) : State ρ μ :=
  match s.parsed_md_queue.producers i with
  | .idle =>
      match s.raw_md_queue.consumers i with
      | .storeHead _ raw_data =>
          { raw_md_queue := s.raw_md_queue.stepConsumer 1024 movedRaw i
            parsed_md_queue :=
              match parse raw_data with
              | some data => s.parsed_md_queue.setProducer i (.loadTail data)
              | none => s.parsed_md_queue }
      | _ => { s with raw_md_queue := s.raw_md_queue.stepConsumer 1024 movedRaw i }
  | _ => { s with parsed_md_queue := s.parsed_md_queue.stepProducer 1024 i }

/-- A step of one worker. -/
inductive Action (ρ : Type)
  | receive (raw_data : ρ)
  | receiver
  | parser (i : Fin 4)
  | algo (j : Fin 2)

/-- The state after a step, if it is enabled. -/
def next (s : State ρ μ) : Action ρ → Option (State ρ μ)
  | .receive raw_data => s.receive raw_data
  | .receiver => some { s with raw_md_queue := s.raw_md_queue.stepProducer 1024 () }
  | .parser i => some (s.stepParser parse movedRaw i)
  | .algo j =>
      some { s with parsed_md_queue := s.parsed_md_queue.stepConsumer 1024 movedData j }

/-- The receiver and the workers. -/
def system [Inhabited ρ] [Inhabited μ] : TransitionSystem (State ρ μ) (Action ρ) :=
  TransitionSystem.ofFunction start (next parse movedRaw movedData)

end Steps

/-! ## Runs without races -/

/-- The step is not one that writes a place, or moves an item out of one, which another worker
has or may have taken. -/
def State.Exclusive (s : State ρ μ) : Action ρ → Prop
  | .receive _ => True
  | .receiver => s.raw_md_queue.WriteAlone 1024 ()
  | .parser i => s.raw_md_queue.MoveAlone i ∧ s.parsed_md_queue.WriteAlone 1024 i
  | .algo j => s.parsed_md_queue.MoveAlone j

instance (s : State ρ μ) : DecidablePred s.Exclusive
  | .receive _ => .isTrue trivial
  | .receiver => inferInstanceAs (Decidable (LockFreeQueue.State.WriteAlone _ _ _))
  | .parser _ => inferInstanceAs (Decidable (_ ∧ _))
  | .algo _ => inferInstanceAs (Decidable (LockFreeQueue.State.MoveAlone _ _))

/-- Both queues are as they should be. -/
structure State.Invariant (s : State ρ μ) : Prop where
  raw : s.raw_md_queue.Invariant 1024
  parsed : s.parsed_md_queue.Invariant 1024

variable {s s' : State ρ μ} {parse : ρ → Option μ} {movedRaw : ρ → ρ} {movedData : μ → μ}

namespace State.Invariant

/-- **A step of a parser** is one of a consumer of the raw messages or of a producer of the
parsed ones. -/
theorem stepParser (h : s.Invariant) {i : Fin 4} (hraw : s.raw_md_queue.MoveAlone i)
    (hparsed : s.parsed_md_queue.WriteAlone 1024 i) :
    (s.stepParser parse movedRaw i).Invariant := by
  have hpop := h.raw.stepConsumer movedRaw hraw
  have hpush := h.parsed.stepProducer hparsed
  unfold State.stepParser
  cases s.parsed_md_queue.producers i with
  | idle =>
    cases s.raw_md_queue.consumers i with
    | storeHead current_head raw_data =>
      refine ⟨hpop, ?_⟩
      dsimp only
      cases parse raw_data with
      | none => exact h.parsed
      | some data => exact h.parsed.moveProducer rfl
    | _ => exact ⟨hpop, h.parsed⟩
  | _ => exact ⟨h.raw, hpush⟩

/-- **A step** that is exclusive keeps both queues as they should be. -/
theorem next (h : s.Invariant) {a : Action ρ} (hexclusive : s.Exclusive a)
    (hstep : TradingSystem.next parse movedRaw movedData s a = some s') : s'.Invariant := by
  cases a with
  | receive raw_data =>
    have hstep : s.receive raw_data = some s' := hstep
    unfold State.receive at hstep
    cases hpc : s.raw_md_queue.producers () with
    | idle =>
      rw [hpc] at hstep
      obtain rfl := Option.some.inj hstep
      exact ⟨h.raw.moveProducer rfl, h.parsed⟩
    | _ =>
      rw [hpc] at hstep
      exact absurd hstep.symm (Option.some_ne_none _)
  | receiver =>
    obtain rfl := Option.some.inj hstep
    exact ⟨h.raw.stepProducer hexclusive, h.parsed⟩
  | parser i =>
    obtain rfl := Option.some.inj hstep
    exact h.stepParser hexclusive.1 hexclusive.2
  | algo j =>
    obtain rfl := Option.some.inj hstep
    exact ⟨h.raw, h.parsed.stepConsumer movedData hexclusive⟩

end State.Invariant

variable [Inhabited ρ] [Inhabited μ]

/-- **Both queues of the pipeline are correct**, for any messages and any order of the steps, in
every run in which a worker writes only the place at the tail, when no other has written it,
and moves out only the item at the head, when no other has moved it out. -/
theorem correct_of_exclusive
    (h : (system parse movedRaw movedData).ReachableBy State.Exclusive s) :
    s.raw_md_queue.Correct 1024 ∧ s.parsed_md_queue.Correct 1024 := by
  have hinvariant : s.Invariant := by
    apply h.invariant
    · rintro s rfl
      exact ⟨LockFreeQueue.State.Invariant.start_invariant (by decide),
        LockFreeQueue.State.Invariant.start_invariant (by decide)⟩
    · intro s a s' hs hexclusive hstep
      exact hs.next hexclusive hstep
  exact ⟨hinvariant.raw.correct, hinvariant.parsed.correct⟩

/-! ## Two parsers -/

/-- A message of the receiver. -/
def message : String := "MD|1|AAPL|150.25|100|150.30|200"

/-- Another one. -/
def otherMessage : String := "MD|2|MSFT|310.10|50|310.20|75"

/-- The time stamps and the symbols of the messages. -/
def parseMessage (raw_data : String) : Option (ℕ × String) :=
  if raw_data = message then some (1, "AAPL")
  else if raw_data = otherMessage then some (2, "MSFT")
  else none

/-- A moved string is empty. -/
def movedString (_ : String) : String := ""

/-- Two messages are received, popped by two parsers one after the other, parsed, and handed to
the two algorithm workers. -/
def twoMessages : List (Action String) :=
  List.flatten [[.receive message], List.replicate 5 .receiver,
    [.receive otherMessage], List.replicate 5 .receiver,
    List.replicate 4 (.parser 0), List.replicate 4 (.parser 1),
    List.replicate 5 (.parser 0), List.replicate 5 (.parser 1),
    List.replicate 4 (.algo 1), List.replicate 4 (.algo 0)]

/-- Each message goes to one worker of either kind, in order. -/
theorem correct_twoMessages :
    ∃ s, (system parseMessage movedString id).ReachableBy State.Exclusive s ∧
      s.raw_md_queue.popped = [(0, message), (1, otherMessage)] ∧
      s.parsed_md_queue.popped = [(1, 1, "AAPL"), (0, 2, "MSFT")] ∧
      s.raw_md_queue.Correct 1024 ∧ s.parsed_md_queue.Correct 1024 := by
  have hrun : ∃ s ∈ runFrom (next parseMessage movedString id) State.Exclusive start twoMessages,
      s.raw_md_queue.popped = [(0, message), (1, otherMessage)] ∧
        s.parsed_md_queue.popped = [(1, 1, "AAPL"), (0, 2, "MSFT")] := by decide +kernel
  obtain ⟨s, hreach, hraw, hparsed⟩ := exists_of_runFrom hrun
  exact ⟨s, hreach, hraw, hparsed, correct_of_exclusive hreach⟩

/-- Two parsers load the head before either of them moves the message out. -/
def twoParsers : List (Action String) :=
  .receive message :: List.replicate 5 .receiver
    ++ [.parser 0, .parser 1, .parser 0, .parser 1, .parser 0, .parser 1]

/-- **One message is accepted and two are delivered**: the second parser gets what the move of
the first has left. -/
theorem not_correct_twoParsers :
    ∃ s, (system parseMessage movedString id).Reachable s ∧
      s.raw_md_queue.pushed = [message] ∧
      s.raw_md_queue.popped = [(0, message), (1, "")] ∧ ¬ s.raw_md_queue.Correct 1024 := by
  have hrun : ∃ s ∈ runFrom (next parseMessage movedString id) (fun _ _ => True) start twoParsers,
      s.raw_md_queue.pushed = [message] ∧
        s.raw_md_queue.popped = [(0, message), (1, "")] := by decide +kernel
  obtain ⟨s, hreach, hpushed, hpopped⟩ := exists_of_runFrom hrun
  refine ⟨s, hreach, hpushed, hpopped, fun hcorrect => ?_⟩
  have hlength := congrArg List.length hcorrect.fifo
  rw [hpushed, hpopped, List.length_append] at hlength
  have hlength : 1 = 2 + _ := hlength
  omega

end TradingSystem
