/-
# One buffer for all connections

`CubeServer` keeps a single `buffer_` for whatever connection a chunk comes from.  The
connections do not disturb each other as long as a chunk only ever arrives while no
other connection is in the middle of a request.
-/
import FastServer.FrameServer
import FastServer.TransitionSystem

namespace Muduo

open TransitionSystem

variable {κ : Type*} [DecidableEq κ]

/-! ## Runs -/

/-- A server and its connections, which are of type `κ`.  Apart from the server the
fields are history: the chunks of each connection, and the replies with the connection
each was sent on. -/
structure Service (κ : Type*) where
  server : CubeServer
  received : κ → List (List UInt8)
  sent : List (κ × Reply)

namespace Service

/-- No chunk has arrived. -/
def start : Service κ := ⟨CubeServer.new, fun _ => [], []⟩

/-- A chunk of a connection was answered. -/
def record (w : Service κ) (chunk : κ × List UInt8) (r : CubeServer × List Reply) :
    Service κ where
  server := r.1
  received := Function.update w.received chunk.1 (w.received chunk.1 ++ [chunk.2])
  sent := w.sent ++ r.2.map fun reply => (chunk.1, reply)

/-- `onMessage` is called with a chunk of a connection. -/
def next (clock : ℕ → UInt64) (w : Service κ) (chunk : κ × List UInt8) : Option (Service κ) :=
  (w.server.onMessage clock chunk.2).map (w.record chunk)

/-- The runs of a server with its connections' chunks in any order. -/
def system (κ : Type*) [DecidableEq κ] (clock : ℕ → UInt64) :
    TransitionSystem (Service κ) (κ × List UInt8) :=
  TransitionSystem.ofFunction start (next clock)

/-- The replies sent on a connection. -/
def sentOn (w : Service κ) (conn : κ) : List Reply :=
  (w.sent.filter fun entry => entry.1 = conn).map Prod.snd

/-- The requests that a connection's chunks complete when they are taken by themselves,
and what they leave over. -/
def own (w : Service κ) (conn : κ) : Option (List (List UInt8) × List UInt8) :=
  Coder.requests.receive [] (w.received conn)

/-- No connection disturbs another: a server of its own, given the chunks of one
connection, sends the same replies apart from the time stamps. -/
def Separate (w : Service κ) : Prop :=
  ∀ (conn : κ) (clock' : ℕ → UInt64), ∃ s answers,
    CubeServer.run clock' CubeServer.new (w.received conn) = some (s, answers) ∧
      (w.sentOn conn).map Reply.untimed = answers.map Reply.untimed

/-- A chunk that arrives while every other connection is between two requests, and does
not make its own connection claim a length that does not cover a header. -/
def BetweenRequests (w : Service κ) (chunk : κ × List UInt8) : Prop :=
  (∀ conn, conn ≠ chunk.1 → (w.own conn).map Prod.snd = some []) ∧
    Coder.requests.receive [] (w.received chunk.1 ++ [chunk.2]) ≠ none

/-! ## The buffer of the run -/

variable {clock : ℕ → UInt64} {w w' : Service κ}

/-- Every connection has been answered what it completed by itself, and the buffer
holds what one of them left over, the others having left nothing. -/
structure Invariant (w : Service κ) : Prop where
  answered : ∀ conn, ∃ bodies left, w.own conn = some (bodies, left) ∧
    (w.sentOn conn).map Reply.untimed
      = (CubeServer.replies (fun _ => 0) 0 bodies).map Reply.untimed
  buffered : ∃ k rest, w.server.Waits k rest ∧
    (∀ conn bodies left, w.own conn = some (bodies, left) → left = rest ∨ left = []) ∧
    (rest ≠ [] → ∃ conn bodies, w.own conn = some (bodies, rest))

theorem invariant_start : (start : Service κ).Invariant where
  answered _ := ⟨[], [], rfl, rfl⟩
  buffered := by
    refine ⟨0, [], CubeServer.waits_new, ?_, fun h => absurd rfl h⟩
    intro conn bodies left h
    exact Or.inl (Prod.mk.inj (Option.some.inj h)).2.symm

/-- Between requests, the buffer holds what the connection of the chunk left over. -/
theorem Invariant.waits (h : w.Invariant) {chunk : κ × List UInt8}
    (hok : w.BetweenRequests chunk) :
    ∃ k bodies left, w.own chunk.1 = some (bodies, left) ∧ w.server.Waits k left := by
  obtain ⟨k, rest, hwaits, hleft, hrest⟩ := h.buffered
  obtain ⟨bodies, left, hown, -⟩ := h.answered chunk.1
  refine ⟨k, bodies, left, hown, ?_⟩
  rcases hleft chunk.1 bodies left hown with rfl | rfl
  · exact hwaits
  · by_cases hempty : rest = []
    · rw [hempty] at hwaits
      exact hwaits
    · -- what is in the buffer is the connection's own, since the others left nothing
      obtain ⟨conn, bodies', hconn⟩ := hrest hempty
      have hsame : conn = chunk.1 := by
        by_contra hne
        have hothers := hok.1 conn hne
        rw [hconn] at hothers
        exact hempty (Option.some.inj hothers)
      rw [hsame, hown] at hconn
      exact absurd (Prod.mk.inj (Option.some.inj hconn)).2.symm hempty

/-- What the connection of the chunk has completed and left over after it. -/
theorem own_record_self {chunk : κ × List UInt8} {r : CubeServer × List Reply}
    {bodies bodies' : List (List UInt8)} {left left' : List UInt8}
    (hown : w.own chunk.1 = some (bodies, left))
    (hsplit : Coder.requests.split (left ++ chunk.2) = some (bodies', left')) :
    (w.record chunk r).own chunk.1 = some (bodies ++ bodies', left') := by
  have hown : Coder.requests.receive [] (w.received chunk.1) = some (bodies, left) := hown
  show Coder.requests.receive [] (Function.update w.received chunk.1 _ chunk.1) = _
  rw [Function.update_self, Framing.receive_concat, hown, Option.bind_some, hsplit]
  rfl

/-- The other connections received nothing. -/
theorem own_record_of_ne {chunk : κ × List UInt8} {r : CubeServer × List Reply} {conn : κ}
    (hne : conn ≠ chunk.1) : (w.record chunk r).own conn = w.own conn := by
  show Coder.requests.receive [] (Function.update w.received chunk.1 _ conn) = _
  rw [Function.update_of_ne hne]
  rfl

/-- The replies are sent on the connection of the chunk. -/
theorem sentOn_record_self (chunk : κ × List UInt8) (r : CubeServer × List Reply) :
    (w.record chunk r).sentOn chunk.1 = w.sentOn chunk.1 ++ r.2 := by
  have hall : (r.2.map fun reply => (chunk.1, reply)).filter (fun entry => entry.1 = chunk.1)
      = r.2.map fun reply => (chunk.1, reply) := by
    rw [List.filter_eq_self]
    intro entry hentry
    obtain ⟨reply, -, rfl⟩ := List.mem_map.mp hentry
    exact decide_eq_true rfl
  unfold sentOn record
  rw [List.filter_append, List.map_append, hall, List.map_map]
  congr 1
  exact List.map_id r.2

/-- Nothing is sent on the other connections. -/
theorem sentOn_record_of_ne {chunk : κ × List UInt8} (r : CubeServer × List Reply) {conn : κ}
    (hne : conn ≠ chunk.1) : (w.record chunk r).sentOn conn = w.sentOn conn := by
  have hnone : (r.2.map fun reply => (chunk.1, reply)).filter (fun entry => entry.1 = conn)
      = [] := by
    rw [List.filter_eq_nil_iff]
    intro entry hentry
    obtain ⟨reply, -, rfl⟩ := List.mem_map.mp hentry
    exact fun heq => hne (of_decide_eq_true heq).symm
  unfold sentOn record
  rw [List.filter_append, List.map_append, hnone, List.map_nil, List.append_nil]

variable (clock) in
/-- **A chunk between requests** is served: the server does not fail, and answers the
requests that the chunk completes on its own connection. -/
theorem Invariant.next_eq (h : w.Invariant) {chunk : κ × List UInt8}
    (hok : w.BetweenRequests chunk) :
    ∃ k bodies left bodies' left' s', w.own chunk.1 = some (bodies, left) ∧
      Coder.requests.split (left ++ chunk.2) = some (bodies', left') ∧
      s'.Waits (k + bodies'.length) left' ∧
      w.next clock chunk = some (w.record chunk (s', CubeServer.replies clock k bodies')) := by
  obtain ⟨k, bodies, left, hown, hwaits⟩ := h.waits hok
  rcases CubeServer.onMessage_spec clock hwaits chunk.2 with
    ⟨hnone, -⟩ | ⟨bodies', left', s', hsplit, hmessage, hwaits'⟩
  · have hbad := hok.2
    have hown' : Coder.requests.receive [] (w.received chunk.1) = some (bodies, left) := hown
    rw [Framing.receive_concat, hown', Option.bind_some, hnone] at hbad
    exact absurd rfl hbad
  · refine ⟨k, bodies, left, bodies', left', s', hown, hsplit, hwaits', ?_⟩
    unfold Service.next
    rw [hmessage, Option.map_some]

/-- **A step** between requests. -/
theorem Invariant.next (h : w.Invariant) {chunk : κ × List UInt8}
    (hok : w.BetweenRequests chunk) (hstep : w.next clock chunk = some w') : w'.Invariant := by
  obtain ⟨k, bodies, left, bodies', left', s', hown, hsplit, hwaits, hnext⟩ :=
    h.next_eq clock hok
  obtain rfl := Option.some.inj (hnext.symm.trans hstep)
  refine ⟨?_, k + bodies'.length, left', hwaits, ?_, ?_⟩
  · -- the replies to one connection depend on the chunks of the others only by their time
    intro conn
    obtain ⟨bodies₀, left₀, hown₀, hsent₀⟩ := h.answered conn
    by_cases hconn : conn = chunk.1
    · subst hconn
      obtain ⟨rfl, rfl⟩ := Prod.mk.inj (Option.some.inj (hown.symm.trans hown₀))
      refine ⟨bodies ++ bodies', left', own_record_self hown hsplit, ?_⟩
      rw [sentOn_record_self, List.map_append, hsent₀, CubeServer.replies_append,
        List.map_append]
      congr 1
      exact CubeServer.untimed_replies _ _ _ _
    · refine ⟨bodies₀, left₀, ?_, ?_⟩
      · rw [own_record_of_ne hconn]
        exact hown₀
      · rw [sentOn_record_of_ne _ hconn]
        exact hsent₀
  · intro conn bodies₀ left₀ hown₀
    by_cases hconn : conn = chunk.1
    · subst hconn
      rw [own_record_self hown hsplit] at hown₀
      exact Or.inl (Prod.mk.inj (Option.some.inj hown₀)).2.symm
    · -- the other connections stand where they stood
      have hnone := hok.1 conn hconn
      rw [own_record_of_ne hconn] at hown₀
      rw [hown₀] at hnone
      exact Or.inr (Option.some.inj hnone)
  · intro _
    exact ⟨chunk.1, bodies ++ bodies', own_record_self hown hsplit⟩

/-- **Nobody is disturbed** in a run whose chunks all arrive between the requests of the
other connections: each connection gets the replies it would get alone, and the next
such chunk is served again. -/
theorem separate_of_betweenRequests (h : (system κ clock).ReachableBy BetweenRequests w) :
    w.Separate ∧ ∀ chunk, w.BetweenRequests chunk → ∃ w', w.next clock chunk = some w' := by
  have hinv : w.Invariant := by
    apply h.invariant
    · rintro w rfl
      exact invariant_start
    · intro w chunk w' hw hok hstep
      exact hw.next hok hstep
  constructor
  · intro conn clock'
    obtain ⟨bodies, left, hown, hsent⟩ := hinv.answered conn
    have hown : Coder.requests.receive [] (w.received conn) = some (bodies, left) := hown
    rcases CubeServer.run_spec clock' CubeServer.waits_new (w.received conn) with
      ⟨hnone, -⟩ | ⟨bodies', left', s', hsome, hrun, -⟩
    · rw [hown] at hnone
      exact absurd hnone (Option.some_ne_none _)
    · obtain ⟨rfl, rfl⟩ := Prod.mk.inj (Option.some.inj (hsome.symm.trans hown))
      exact ⟨s', _, hrun, hsent.trans (CubeServer.untimed_replies _ _ _ _)⟩
  · intro chunk hok
    obtain ⟨k, bodies, left, bodies', left', s', -, -, -, hnext⟩ := hinv.next_eq clock hok
    exact ⟨_, hnext⟩

instance [Fintype κ] (w : Service κ) : DecidablePred w.BetweenRequests := fun chunk =>
  inferInstanceAs (Decidable
    ((∀ conn, conn ≠ chunk.1 → (w.own conn).map Prod.snd = some []) ∧
      Coder.requests.receive [] (w.received chunk.1 ++ [chunk.2]) ≠ none))

/-- One connection sends a request in two chunks, and then the other sends one. -/
def inTurn : List (Bool × List UInt8) :=
  [(false, [2, 13, 0]), (false, [0, 0, 1, 2, 3, 4, 5, 6, 7, 8]),
    (true, [2, 13, 0, 0, 0, 9, 9, 9, 9, 9, 9, 9, 9])]

/-- Both are answered as if they were alone. -/
theorem separate_inTurn :
    ∃ w, (system Bool fun _ => 0).ReachableBy BetweenRequests w ∧
      w.sent.map (fun entry => (entry.1, entry.2.body))
        = [(false, [1, 2, 3, 4, 5, 6, 7, 8]), (true, [9, 9, 9, 9, 9, 9, 9, 9])] ∧
      w.Separate := by
  have hrun : ∃ w ∈ runFrom (next fun _ => 0) BetweenRequests start inTurn,
      w.sent.map (fun entry => (entry.1, entry.2.body))
        = [(false, [1, 2, 3, 4, 5, 6, 7, 8]), (true, [9, 9, 9, 9, 9, 9, 9, 9])] := by
    decide +kernel
  obtain ⟨w, hreach, hsent⟩ := exists_of_runFrom hrun
  exact ⟨w, hreach, hsent, (separate_of_betweenRequests hreach).1⟩

/-- A request arrives in the middle of another connection's request. -/
def inBetween : List (Bool × List UInt8) :=
  [(false, [2, 13, 0]), (true, [2, 13, 0, 0, 0, 9, 9, 9, 9, 9, 9, 9, 9])]

/-- **A whole request is not answered.**  Its bytes are taken for the rest of the other
connection's header. -/
theorem not_separate_inBetween :
    ∃ w, (system Bool fun _ => 0).Reachable w ∧ w.sent = [] ∧
      (∃ s answers, CubeServer.run (fun _ => 0) CubeServer.new (w.received true)
        = some (s, answers) ∧ answers.map Reply.body = [[9, 9, 9, 9, 9, 9, 9, 9]]) ∧
      ¬ w.Separate := by
  have hrun : ∃ w ∈ runFrom (next fun _ => 0) (fun _ _ => True) start inBetween,
      w.sent = [] ∧ ∃ r ∈ CubeServer.run (fun _ => 0) CubeServer.new (w.received true),
        r.2.map Reply.body = [[9, 9, 9, 9, 9, 9, 9, 9]] := by decide +kernel
  obtain ⟨w, hreach, hsent, ⟨s, answers⟩, hrun, hbody⟩ := exists_of_runFrom hrun
  refine ⟨w, hreach, hsent, ⟨s, answers, hrun, hbody⟩, ?_⟩
  intro hseparate
  obtain ⟨s', answers', hrun', hsame⟩ := hseparate true fun _ => 0
  obtain ⟨-, rfl⟩ := Prod.mk.inj (Option.some.inj (hrun.symm.trans hrun'))
  unfold sentOn at hsame
  rw [hsent] at hsame
  obtain rfl := List.map_eq_nil_iff.mp hsame.symm
  exact List.cons_ne_nil _ _ hbody.symm

end Service

end Muduo
