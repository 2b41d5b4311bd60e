/-
# The market data receiver of `ana.cpp`

The receive loop of `test` and the thread `process_thread_func`.  One flag, of no source in
particular, says whether valid credentials were received; from then on every datagram with a
sequence number is logged and queued, whoever sent it.
-/
import FastServer.ArrayCopy
import FastServer.Framing
import FastServer.TransitionSystem

open ArrayCopy TransitionSystem

namespace Ana

variable {α : Type*}

/-! ## State -/

/-- `ntohl` of four bytes in memory. -/
def ntohl (bytes : List UInt8) : ℕ := ofLeBytes bytes.reverse

/-- `MAX_UDP_SIZE`. -/
def maxUdpSize : ℕ := 65507

/-- `valid_auth`: the user `user1` with the password `pass1`. -/
def validAuth : List UInt8 := [0x75, 0x73, 0x65, 0x72, 0x31, 0x70, 0x61, 0x73, 0x73, 0x31]

/-- The server.  `working` is the packet that the thread takes apart, with its `offset`, and
`callbacks` is what `algo_callback` received.  For each payload that entered the queue,
`entered` has its source and whether it had sent the credentials before; `credentials` are the
sources that have sent them. -/
structure AnaServer (α : Type*) where
  authenticated : Bool
  data_queue : List (ℕ × List UInt8)
  seqno_log : List UInt8
  expected_seqno : ℕ
  working : Option (List UInt8 × ℕ)
  callbacks : List (List UInt8)
  exited : Bool
  entered : List (α × Bool)
  credentials : List α
deriving DecidableEq

namespace AnaServer

/-- The server before its first datagram. -/
def start : AnaServer α := ⟨false, [], [], 1, none, [], false, [], []⟩

/-! ## The thread -/

/-- The packet is done. -/
def finish (s : AnaServer α) : AnaServer α :=
  { s with working := none, expected_seqno := (s.expected_seqno + 1) % 2 ^ 32 }

/-- The thread takes a packet from the queue; a gap in the sequence ends the process. -/
def pop (s : AnaServer α) : Option (AnaServer α) :=
  match s.working, s.data_queue with
  | none, (seqno, packet) :: rest =>
      if seqno ≠ s.expected_seqno then some { s with data_queue := rest, exited := true }
      else some { s with data_queue := rest, working := some (packet, 0) }
  | _, _ => none

/-- One round of the loop over the blocks of a packet. -/
def block (uncompress : List UInt8 → Option (List UInt8)) (s : AnaServer α) :
    Option (AnaServer α) :=
  match s.working with
  | none => none
  | some (packet, offset) =>
      if packet.length ≤ offset then some s.finish
      else if packet.length < offset + 4 then some s.finish
      else
        (readRange packet offset 4).bind fun field =>
        let block_len := ntohl field
        if packet.length < offset + 4 + block_len then some s.finish
        else
          (readRange packet (offset + 4) block_len).bind fun compressed_data =>
          let s := { s with working := some (packet, offset + 4 + block_len) }
          match uncompress compressed_data with
          | none => some s
          | some uncompressed => some { s with callbacks := s.callbacks ++ [uncompressed] }

/-! ## The receive loop -/

variable [DecidableEq α]

/-- What the receive loop does with the bytes of a datagram. -/
def receive (s : AnaServer α) (source : α) (buffer : List UInt8) : AnaServer α :=
  if ¬ s.authenticated then
    if buffer.length = validAuth.length then
      if buffer = validAuth then { s with authenticated := true } else s
    else s
  else if buffer.length < 4 then s
  else
    let seqno := ntohl (buffer.take 4)
    { s with
      seqno_log := s.seqno_log ++ leBytes 4 seqno
      data_queue := s.data_queue ++ [(seqno, buffer.drop 4)]
      entered := s.entered ++ [(source, decide (source ∈ s.credentials))] }

/-- The record of the sources that have sent the credentials. -/
def record (s : AnaServer α) (source : α) (buffer : List UInt8) : AnaServer α :=
  if buffer = validAuth then { s with credentials := source :: s.credentials } else s

/-- What happens to the server. -/
inductive Action (α : Type*)
  | datagram (source : α) (bytes : List UInt8)
  | recvError
  | pop
  | block

/-- The state after a step of one of the two threads, if it is enabled. -/
def next (uncompress : List UInt8 → Option (List UInt8)) (s : AnaServer α) :
    Action α → Option (AnaServer α)
  | .datagram source bytes =>
      if s.exited then none
      else
        let buffer := bytes.take maxUdpSize
        some ((s.receive source buffer).record source buffer)
  | .recvError => if s.exited then none else some s
  | .pop => if s.exited then none else s.pop
  | .block => if s.exited then none else s.block uncompress

/-! ## The property and its condition -/

/-- A run without the datagrams of the sources that are not in the list. -/
def onlyFrom (sources : List α) (as : List (Action α)) : List (Action α) :=
  as.filter fun a =>
    match a with
    | .datagram source _ => source ∈ sources
    | _ => true

/-- Every payload that entered the queue came from a source that had sent the credentials, and
the run without the datagrams of all sources that have not sent them leads to the same queue,
log and callbacks. -/
def Authentic (uncompress : List UInt8 → Option (List UInt8)) (as : List (Action α))
    (s : AnaServer α) : Prop :=
  (∀ e ∈ s.entered, e.2 = true) ∧
    ∃ s', runFrom (next uncompress) (fun _ _ => True) start (onlyFrom s.credentials as) = some s' ∧
      s'.data_queue = s.data_queue ∧ s'.seqno_log = s.seqno_log ∧ s'.callbacks = s.callbacks

/-- Once the flag is set, a datagram with a sequence number comes from a source that has sent
the credentials. -/
def Trusted (s : AnaServer α) : Action α → Prop
  | .datagram source bytes => s.authenticated = true → 4 ≤ (bytes.take maxUdpSize).length →
      source ∈ s.credentials
  | _ => True

instance (s : AnaServer α) (a : Action α) : Decidable (s.Trusted a) := by
  cases a <;> unfold Trusted <;> infer_instance

/-! ## Steps -/

section Steps

variable {uncompress : List UInt8 → Option (List UInt8)} {s s' : AnaServer α} {a : Action α}

omit [DecidableEq α] in
/-- The thread does not touch the records of the sources. -/
theorem pop_keeps (hstep : s.pop = some s') :
    s'.credentials = s.credentials ∧ s'.entered = s.entered := by
  rw [pop.eq_def] at hstep
  split at hstep
  · split_ifs at hstep
    · obtain rfl := Option.some.inj hstep
      exact ⟨rfl, rfl⟩
    · obtain rfl := Option.some.inj hstep
      exact ⟨rfl, rfl⟩
  · cases hstep

omit [DecidableEq α] in
theorem block_keeps (hstep : s.block uncompress = some s') :
    s'.credentials = s.credentials ∧ s'.entered = s.entered := by
  rw [block.eq_def] at hstep
  split at hstep
  · cases hstep
  · split_ifs at hstep
    · obtain rfl := Option.some.inj hstep
      exact ⟨rfl, rfl⟩
    · obtain rfl := Option.some.inj hstep
      exact ⟨rfl, rfl⟩
    · obtain ⟨field, -, hstep⟩ := Option.bind_eq_some_iff.mp hstep
      dsimp only at hstep
      split_ifs at hstep
      · obtain rfl := Option.some.inj hstep
        exact ⟨rfl, rfl⟩
      · obtain ⟨compressed_data, -, hstep⟩ := Option.bind_eq_some_iff.mp hstep
        split at hstep
        · obtain rfl := Option.some.inj hstep
          exact ⟨rfl, rfl⟩
        · obtain rfl := Option.some.inj hstep
          exact ⟨rfl, rfl⟩

@[simp] theorem credentials_receive (s : AnaServer α) (source : α) (buffer : List UInt8) :
    (s.receive source buffer).credentials = s.credentials := by
  unfold receive
  split_ifs <;> rfl

omit [DecidableEq α] in
@[simp] theorem entered_record (s : AnaServer α) (source : α) (buffer : List UInt8) :
    (s.record source buffer).entered = s.entered := by
  unfold record
  split_ifs <;> rfl

omit [DecidableEq α] in
/-- The sources that have sent the credentials. -/
theorem mem_credentials_record {source source' : α} {buffer : List UInt8} :
    source' ∈ (s.record source buffer).credentials ↔
      source' ∈ s.credentials ∨ (source' = source ∧ buffer = validAuth) := by
  unfold record
  split_ifs with hvalid
  · rw [List.mem_cons]
    tauto
  · tauto

/-- Only a datagram touches the records of the sources. -/
theorem next_cases (hstep : s.next uncompress a = some s') :
    (∃ source bytes, a = .datagram source bytes ∧
      s' = (s.receive source (bytes.take maxUdpSize)).record source (bytes.take maxUdpSize)) ∨
    (s'.credentials = s.credentials ∧ s'.entered = s.entered) := by
  cases a with
  | datagram source bytes =>
    obtain ⟨-, hstep⟩ := Option.ite_none_left_eq_some.mp hstep
    exact Or.inl ⟨source, bytes, rfl, (Option.some.inj hstep).symm⟩
  | recvError =>
    obtain ⟨-, hstep⟩ := Option.ite_none_left_eq_some.mp hstep
    obtain rfl := Option.some.inj hstep
    exact Or.inr ⟨rfl, rfl⟩
  | pop =>
    obtain ⟨-, hstep⟩ := Option.ite_none_left_eq_some.mp hstep
    exact Or.inr (pop_keeps hstep)
  | block =>
    obtain ⟨-, hstep⟩ := Option.ite_none_left_eq_some.mp hstep
    exact Or.inr (block_keeps hstep)

/-- Who has sent the credentials, has sent them. -/
theorem credentials_mono (hstep : s.next uncompress a = some s') {source : α}
    (hsource : source ∈ s.credentials) : source ∈ s'.credentials := by
  rcases next_cases hstep with ⟨source', bytes, rfl, rfl⟩ | ⟨hcredentials, -⟩
  · exact mem_credentials_record.mpr (Or.inl (by rwa [credentials_receive]))
  · rwa [hcredentials]

/-- Along a run. -/
theorem credentials_runFrom {as : List (Action α)} {ok : AnaServer α → Action α → Prop}
    [∀ s a, Decidable (ok s a)] (hrun : runFrom (next uncompress) ok s as = some s') {source : α}
    (hsource : source ∈ s.credentials) : source ∈ s'.credentials := by
  refine runFrom_invariant (P := fun s => source ∈ s.credentials) ?_ hrun hsource
  intro s a s' hs _ hstep
  exact credentials_mono hstep hs

/-- **A datagram of a source that never sends the credentials** changes nothing. -/
theorem datagram_ignored {source : α} {bytes : List UInt8}
    (htrusted : s.Trusted (.datagram source bytes))
    (hstep : s.next uncompress (.datagram source bytes) = some s')
    (hnever : source ∉ s'.credentials) : s' = s := by
  obtain ⟨-, hstep⟩ := Option.ite_none_left_eq_some.mp hstep
  obtain rfl := Option.some.inj hstep
  -- neither had the source sent them before, nor does it now
  rw [mem_credentials_record, credentials_receive, not_or] at hnever
  obtain ⟨hnot, hinvalid⟩ := hnever
  have hbuffer : bytes.take maxUdpSize ≠ validAuth := fun heq => hinvalid ⟨rfl, heq⟩
  have hreceive : s.receive source (bytes.take maxUdpSize) = s := by
    rw [receive]
    by_cases hflag : s.authenticated = true
    · rw [if_neg (not_not.mpr hflag)]
      by_cases hshort : (bytes.take maxUdpSize).length < 4
      · rw [if_pos hshort]
      · exact absurd (htrusted hflag (not_lt.mp hshort)) hnot
    · rw [if_pos hflag, if_neg hbuffer, ite_self]
  rw [hreceive, record, if_neg hbuffer]

/-- What enters the queue comes from a source that has sent the credentials. -/
theorem entered_next (htrusted : s.Trusted a) (hstep : s.next uncompress a = some s')
    (hentered : ∀ e ∈ s.entered, e.2 = true) : ∀ e ∈ s'.entered, e.2 = true := by
  rcases next_cases hstep with ⟨source, bytes, rfl, rfl⟩ | ⟨-, hkept⟩
  · rw [entered_record, receive]
    by_cases hflag : s.authenticated = true
    · rw [if_neg (not_not.mpr hflag)]
      split_ifs with hshort
      · exact hentered
      · intro e he
        rcases List.mem_append.mp he with he | he
        · exact hentered e he
        · rw [List.mem_singleton.mp he]
          exact decide_eq_true (htrusted hflag (not_lt.mp hshort))
    · rw [if_pos hflag]
      split_ifs <;> exact hentered
  · rwa [hkept]

/-! ## Runs -/

theorem entered_runFrom {as : List (Action α)}
    (hrun : runFrom (next uncompress) Trusted s as = some s')
    (hentered : ∀ e ∈ s.entered, e.2 = true) : ∀ e ∈ s'.entered, e.2 = true := by
  refine runFrom_invariant (P := fun s => ∀ e ∈ s.entered, e.2 = true) ?_ hrun hentered
  intro s a s' hs htrusted hstep
  exact entered_next htrusted hstep hs

/-- Without the datagrams of the sources that never send the credentials the run is the same. -/
theorem runFrom_onlyFrom {as : List (Action α)}
    (hrun : runFrom (next uncompress) Trusted s as = some s') :
    runFrom (next uncompress) (fun _ _ => True) s (onlyFrom s'.credentials as) = some s' := by
  induction as generalizing s with
  | nil => exact hrun
  | cons a as ih =>
    rw [runFrom] at hrun
    split_ifs at hrun with htrusted
    obtain ⟨t, hstep, hlater⟩ := Option.bind_eq_some_iff.mp hrun
    have hrest := ih hlater
    have hkept : runFrom (next uncompress) (fun _ _ => True) s
        (a :: onlyFrom s'.credentials as) = some s' := by
      rw [runFrom, if_pos trivial, hstep]
      exact hrest
    cases a with
    | datagram source bytes =>
      by_cases hsource : source ∈ s'.credentials
      · rwa [onlyFrom, List.filter_cons_of_pos (by simpa using hsource)]
      · -- what is left out did nothing
        have hsame := datagram_ignored htrusted hstep
          fun hmem => hsource (credentials_runFrom hlater hmem)
        rw [hsame] at hrest
        rwa [onlyFrom, List.filter_cons_of_neg (by simpa using hsource)]
    | recvError => exact hkept
    | pop => exact hkept
    | block => exact hkept

end Steps

/-- **Only sources that have sent the credentials are heard** in every run in which, once the
flag is set, no other source sends a datagram with a sequence number. -/
theorem authentic_of_trusted {uncompress : List UInt8 → Option (List UInt8)}
    {as : List (Action α)} {s : AnaServer α}
    (hrun : runFrom (next uncompress) Trusted start as = some s) : Authentic uncompress as s :=
  ⟨entered_runFrom hrun fun _ he => absurd he List.not_mem_nil, s, runFrom_onlyFrom hrun, rfl, rfl, rfl⟩

/-- Decompression that changes nothing. -/
def stored (bytes : List UInt8) : Option (List UInt8) := some bytes

/-- Two sources; the second one sends data too early, invalid credentials, and then too short
datagrams. -/
def oneClient : List (Action ℕ) :=
  [.datagram 2 [0, 0, 0, 1, 0, 0, 0, 1, 66], .datagram 2 (validAuth.map (· + 1)),
    .datagram 1 validAuth, .datagram 2 [0, 0], .datagram 1 [0, 0, 0, 1, 0, 0, 0, 1, 65], .pop,
    .recvError, .block, .datagram 2 [], .block]

/-- Only the data of the first one are delivered. -/
theorem authentic_oneClient :
    ∃ s : AnaServer ℕ, s.callbacks = [[65]] ∧ s.entered = [(1, true)] ∧
      Authentic stored oneClient s := by
  have hrun : ∃ s ∈ runFrom (next stored) Trusted start oneClient,
      s.callbacks = [[65]] ∧ s.entered = [(1, true)] := by decide +kernel
  obtain ⟨s, hmem, hcallbacks, hentered⟩ := hrun
  exact ⟨s, hcallbacks, hentered, authentic_of_trusted hmem⟩

/-- The second source sends data after the first one has sent the credentials. -/
def twoClients : List (Action ℕ) :=
  [.datagram 1 validAuth, .datagram 2 [0, 0, 0, 1, 0, 0, 0, 1, 66], .pop, .block]

/-- Its data are logged, queued and delivered. -/
theorem not_authentic_twoClients :
    ∃ s : AnaServer ℕ, runFrom (next stored) (fun _ _ => True) start twoClients = some s ∧
      s.entered = [(2, false)] ∧ s.seqno_log = [1, 0, 0, 0] ∧ s.callbacks = [[66]] ∧
      ¬ Authentic stored twoClients s := by
  have hrun : ∃ s ∈ runFrom (next stored) (fun _ _ => True) start twoClients,
      s.entered = [(2, false)] ∧ s.seqno_log = [1, 0, 0, 0] ∧ s.callbacks = [[66]] := by
    decide +kernel
  obtain ⟨s, hmem, hentered, hlog, hcallbacks⟩ := hrun
  refine ⟨s, hmem, hentered, hlog, hcallbacks, fun h => ?_⟩
  have hsource := h.1 (2, false) (by rw [hentered]; exact List.mem_singleton_self _)
  cases hsource

end AnaServer

end Ana
