/-
# The receive loop of a FIX session

`receiveLoop` appends each chunk to `partial_msg` and cuts at the separator.  The
separator stands behind every field, so what is cut off is a field and not a message,
and no field alone passes `validateMessage`.
-/
import FastServer.FixRoundTrip

namespace FIX42Protocol

open Framing

/-! ## The loop -/

/-- The variables of `receiveLoop`.  `processed` is history: the messages handed to
`processReceivedMessage`. -/
structure Receiving where
  partial_msg : Bytes
  processed : List Message

/-- What is read from `raw_msg`, if `deserialize` and `validateMessage` accept it. -/
def accepted (ids : CompIDs) (raw_msg : Bytes) : Option Message :=
  let read := deserialize raw_msg
  if read.1 && validateMessage ids read.2 then some read.2 else none

/-- The inner loop: what ends at a separator is cut off, with the separator. -/
def cutMessages (ids : CompIDs) (r : Receiving) : Receiving :=
  let cut := pieces soh r.partial_msg
  ⟨cut.2, r.processed ++ cut.1.filterMap fun text => accepted ids (text ++ [soh])⟩

/-- What `recv` returns. -/
inductive Recv
  | data (buffer : Bytes)
  | wouldBlock
  | closed

/-- `receiveLoop`, along the results of `recv`. -/
def receiveLoop (ids : CompIDs) : Receiving → List Recv → Receiving
  | r, [] => r
  | r, .data buffer :: results =>
      receiveLoop ids (cutMessages ids { r with partial_msg := r.partial_msg ++ buffer }) results
  | r, .wouldBlock :: results => receiveLoop ids r results
  | r, .closed :: _ => r

/-- The state after the chunks have arrived. -/
def afterChunks (ids : CompIDs) (chunks : List Bytes) : Receiving :=
  receiveLoop ids ⟨[], []⟩ (chunks.map .data)

/-! ## What should arrive -/

/-- A message that the peer of the session `ids` sends: the fields of the standard header
are present, with the identities mirrored, and no value contains the separator or the text
`10=`. -/
structure PeerMessage (ids : CompIDs) where
  msg : Message
  sender : msg.fields.get? FIXField.senderCompID = some ids.target_comp_id
  target : msg.fields.get? FIXField.targetCompID = some ids.sender_comp_id
  header : ∀ tag ∈ [FIXField.msgType, FIXField.msgSeqNum, FIXField.sendingTime],
    (msg.fields.get? tag).isSome
  values : ∀ field ∈ msg.fields.entries, soh ∉ field.2 ∧ ¬ ascii "10=" <:+: field.2

/-- The part of `stream` behind the last of the texts that is complete. -/
def unfinishedTail : List Bytes → Bytes → Bytes
  | [], stream => stream
  | text :: texts, stream =>
      if text.length ≤ stream.length then unfinishedTail texts (stream.drop text.length) else stream

/-- Every message is processed once, in order and with its fields, and between the chunks
`partial_msg` is the part of a message that has not been completed. -/
def ReceivesAll (ids : CompIDs) (msgs : List (PeerMessage ids)) (chunks : List Bytes) : Prop :=
  (afterChunks ids chunks).processed.map Message.fields = msgs.map (fun m => readFields m.msg) ∧
    ∀ k ≤ chunks.length, (afterChunks ids (chunks.take k)).partial_msg
      = unfinishedTail (msgs.map fun m => serialize m.msg) (chunks.take k).flatten

/-! ## One field is no message -/

/-- A piece with its separator holds one field at most. -/
theorem deserialize_piece {text : Bytes} (h : soh ∉ text) :
    (deserialize (text ++ [soh])).2.fields = readField Fields.empty text := by
  have hpieces : pieces soh (text ++ [soh]) = ([text], []) := by
    rw [pieces_piece h, pieces_of_notMem List.not_mem_nil]
  show (pieces soh (text ++ [soh])).1.foldl readField Fields.empty = _
  rw [hpieces]
  rfl

/-- Reading one piece sets one tag at most. -/
theorem readField_empty (text : Bytes) :
    readField Fields.empty text = Fields.empty
      ∨ ∃ tag value, readField Fields.empty text = Fields.empty.set tag value := by
  unfold readField
  split
  · split
    · exact Or.inr ⟨_, _, rfl⟩
    · exact Or.inl rfl
  · exact Or.inl rfl

/-- **Nothing is accepted.**  A single field is not all the fields a message needs. -/
theorem accepted_piece {ids : CompIDs} {text : Bytes} (h : soh ∉ text) :
    accepted ids (text ++ [soh]) = none := by
  have hfields := deserialize_piece h
  have hrequired : ¬ ∀ tag ∈ requiredFields,
      ((readField Fields.empty text).get? tag).isSome = true := by
    intro hall
    -- two of the required tags are enough: a single field has one of them at most
    have hbegin := hall FIXField.beginString (by decide)
    have hlength := hall FIXField.bodyLength (by decide)
    rcases readField_empty text with hread | ⟨tag, value, hread⟩
    · rw [hread] at hbegin
      exact absurd hbegin (by decide)
    · rw [hread, Fields.get?_set] at hbegin hlength
      split_ifs at hbegin hlength with h8 h9
      · exact absurd (h8.trans h9.symm) (by decide)
      · exact absurd hlength (by decide)
      · exact absurd hbegin (by decide)
      · exact absurd hbegin (by decide)
  rw [accepted]
  refine if_neg fun haccept => hrequired ?_
  simp only [Bool.and_eq_true, validateMessage, List.all_eq_true, hfields] at haccept
  exact haccept.2.1.1.1

/-! ## The chunks do not matter -/

/-- After any chunks, `partial_msg` is what follows the last separator, and what was cut
off are the pieces before it. -/
theorem afterChunks_concat (ids : CompIDs) (chunks : List Bytes) (chunk : Bytes) :
    afterChunks ids (chunks ++ [chunk])
      = cutMessages ids { afterChunks ids chunks with
          partial_msg := (afterChunks ids chunks).partial_msg ++ chunk } := by
  have hrun : ∀ (chunks : List Bytes) (r : Receiving),
      receiveLoop ids r ((chunks ++ [chunk]).map .data)
        = cutMessages ids { receiveLoop ids r (chunks.map .data) with
            partial_msg := (receiveLoop ids r (chunks.map .data)).partial_msg ++ chunk } := by
    intro chunks
    induction chunks with
    | nil => intro r; rfl
    | cons first chunks ih => intro r; exact ih _
  exact hrun chunks ⟨[], []⟩

/-- **The loop**, for every stream and every way to cut it into chunks. -/
theorem afterChunks_eq (ids : CompIDs) (chunks : List Bytes) :
    afterChunks ids chunks = ⟨(pieces soh chunks.flatten).2,
      (pieces soh chunks.flatten).1.filterMap fun text => accepted ids (text ++ [soh])⟩ := by
  induction chunks using List.reverseRecOn with
  | nil => rfl
  | append_singleton chunks chunk ih =>
    have hsplit := split_append (F := delimited soh) chunks.flatten chunk
    simp only [split_delimited, Option.bind_some, Option.map_some, Option.some.injEq] at hsplit
    rw [afterChunks_concat, ih, List.flatten_append, List.flatten_singleton, hsplit]
    show Receiving.mk _ _ = Receiving.mk _ _
    rw [List.filterMap_append]

/-- **Nothing is ever processed**, whatever arrives. -/
theorem processed_afterChunks (ids : CompIDs) (chunks : List Bytes) :
    (afterChunks ids chunks).processed = [] := by
  rw [afterChunks_eq]
  refine List.filterMap_eq_nil_iff.mpr fun text htext => ?_
  exact accepted_piece ((notMem_of_pieces chunks.flatten).1 text htext)

/-- **The messages of a peer** are received as they were sent if and only if there are
none. -/
theorem receivesAll_iff_nil {ids : CompIDs} {msgs : List (PeerMessage ids)} {chunks : List Bytes}
    (hchunks : ∀ chunk ∈ chunks, 1 ≤ chunk.length ∧ chunk.length ≤ 4095)
    (hstream : chunks.flatten = msgs.flatMap fun m => serialize m.msg) :
    ReceivesAll ids msgs chunks ↔ msgs = [] := by
  constructor
  · rintro ⟨hprocessed, -⟩
    rw [processed_afterChunks, List.map_nil] at hprocessed
    exact List.map_eq_nil_iff.mp hprocessed.symm
  · rintro rfl
    rw [List.flatMap_nil, List.flatten_eq_nil_iff] at hstream
    -- no message, no byte, and `recv` returns at least one
    have hnil : chunks = [] := by
      refine List.eq_nil_iff_forall_not_mem.mpr fun chunk hmem => ?_
      have hlength := (hchunks chunk hmem).1
      rw [hstream chunk hmem] at hlength
      exact absurd hlength (by decide)
    subst hnil
    refine ⟨rfl, fun k _ => ?_⟩
    rw [List.take_nil]
    rfl

/-- The identities of a client. -/
def client : CompIDs := ⟨ascii "CLIENT", ascii "SERVER"⟩

/-- The answer of its server to a logon. -/
def serverLogon : PeerMessage client where
  msg := ⟨((((Fields.empty.set FIXField.senderCompID (ascii "SERVER")).set
    FIXField.targetCompID (ascii "CLIENT")).set FIXField.msgSeqNum (ascii "1")).set
    FIXField.sendingTime (ascii "20240101-09:30:00.000")).set FIXField.msgType (ascii "A"), []⟩
  sender := by decide +kernel
  target := by decide +kernel
  header := by decide +kernel
  values := by decide +kernel

/-- One message in one chunk. -/
theorem receivesAll_iff_nil_serverLogon :
    ReceivesAll client [serverLogon] [serialize serverLogon.msg] ↔ [serverLogon] = [] :=
  receivesAll_iff_nil (by decide +kernel) (by
    rw [List.flatten_singleton, List.flatMap_singleton])

/-- **The logon of the server is lost**, although it arrives in one piece. -/
theorem not_receivesAll_serverLogon :
    ¬ ReceivesAll client [serverLogon] [serialize serverLogon.msg] := by
  have hnone : (afterChunks client [serialize serverLogon.msg]).processed.isEmpty = true := by
    decide +kernel
  rintro ⟨hprocessed, -⟩
  rw [List.isEmpty_iff.mp hnone] at hprocessed
  exact absurd hprocessed.symm (List.cons_ne_nil _ _)

end FIX42Protocol
