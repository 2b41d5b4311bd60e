/-
# Cutting messages out of a byte stream

A receiver keeps the bytes it has not used yet, appends each chunk that arrives and
cuts off complete messages as long as there are any.  What it cuts off does not
depend on where the chunks end, provided that more input never changes a message
that is complete already.
-/
import Mathlib

/-! ## Little-endian numbers -/

/-- The `k` low bytes of a number, the lowest one first. -/
def leBytes : ℕ → ℕ → List UInt8
  | 0, _ => []
  | k + 1, n => UInt8.ofNat n :: leBytes k (n / 256)

/-- The number of a list of bytes, the lowest one first. -/
def ofLeBytes : List UInt8 → ℕ
  | [] => 0
  | b :: bytes => b.toNat + 256 * ofLeBytes bytes

@[simp] theorem length_leBytes (k n : ℕ) : (leBytes k n).length = k := by
  induction k generalizing n with
  | zero => rfl
  | succ k ih => rw [leBytes, List.length_cons, ih]

/-- A number that fits is recovered from its bytes. -/
theorem ofLeBytes_leBytes {k n : ℕ} (h : n < 256 ^ k) : ofLeBytes (leBytes k n) = n := by
  induction k generalizing n with
  | zero =>
    obtain rfl : n = 0 := by omega
    rfl
  | succ k ih =>
    have hdiv : n / 256 < 256 ^ k := Nat.div_lt_of_lt_mul (by rw [← pow_succ']; exact h)
    rw [leBytes, ofLeBytes, ih hdiv, UInt8.toNat_ofNat']
    omega

theorem ofLeBytes_lt (bytes : List UInt8) : ofLeBytes bytes < 256 ^ bytes.length := by
  induction bytes with
  | nil => exact Nat.one_pos
  | cons b bytes ih =>
    have hb := b.toNat_lt
    rw [ofLeBytes, List.length_cons, pow_succ]
    omega

/-- Bytes are recovered from their number. -/
theorem leBytes_ofLeBytes (bytes : List UInt8) : leBytes bytes.length (ofLeBytes bytes) = bytes := by
  induction bytes with
  | nil => rfl
  | cons b bytes ih =>
    have hb := b.toNat_lt
    have hlow : UInt8.ofNat (b.toNat + 256 * ofLeBytes bytes) = b := by
      apply UInt8.toNat_inj.mp
      rw [UInt8.toNat_ofNat']
      omega
    have hhigh : (b.toNat + 256 * ofLeBytes bytes) / 256 = ofLeBytes bytes := by omega
    rw [List.length_cons, ofLeBytes, leBytes, hlow, hhigh, ih]

/-! ## Cutting once -/

/-- What the bytes at hand are: not yet a message, bytes that can never become one the
receiver survives, or a message followed by more bytes. -/
inductive Cut (β α : Type*)
  | more
  | bad
  | message (a : α) (rest : List β)

/-- A way to cut messages off a stream.  A message takes at least one byte, and more
input changes nothing about a message that is complete, or about bad bytes. -/
structure Framing (β α : Type*) where
  cut : List β → Cut β α
  shorter : ∀ {s a rest}, cut s = .message a rest → rest.length < s.length
  message_append : ∀ {s a rest}, cut s = .message a rest →
    ∀ t, cut (s ++ t) = .message a (rest ++ t)
  bad_append : ∀ {s}, cut s = .bad → ∀ t, cut (s ++ t) = .bad

namespace Framing

variable {β α : Type*} (F : Framing β α)

/-! ## Cutting as often as possible -/

/-- The messages at the front of `s`, and what is left, if fewer than `n` cuts do. -/
def splitUpTo : ℕ → List β → Option (List α × List β)
  | 0, _ => none
  | n + 1, s =>
      match F.cut s with
      | .more => some ([], s)
      | .bad => none
      | .message a rest => (splitUpTo n rest).map fun r => (a :: r.1, r.2)

/-- All messages at the front of `s`, and what is left; none if bad bytes turn up. -/
def split (s : List β) : Option (List α × List β) := F.splitUpTo (s.length + 1) s

/-- Bounds past the length of the input do not differ. -/
theorem splitUpTo_congr {n m : ℕ} {s : List β} (hn : s.length < n) (hm : s.length < m) :
    F.splitUpTo n s = F.splitUpTo m s := by
  induction n generalizing m s with
  | zero => exact absurd hn (Nat.not_lt_zero _)
  | succ n ih =>
    cases m with
    | zero => exact absurd hm (Nat.not_lt_zero _)
    | succ m =>
      rw [splitUpTo, splitUpTo]
      cases hcut : F.cut s with
      | more => rfl
      | bad => rfl
      | message a rest =>
        have hshort := F.shorter hcut
        have hrest : F.splitUpTo n rest = F.splitUpTo m rest := ih (by omega) (by omega)
        show (F.splitUpTo n rest).map _ = (F.splitUpTo m rest).map _
        rw [hrest]

variable {F}

theorem split_of_more {s : List β} (h : F.cut s = .more) : F.split s = some ([], s) := by
  rw [split, splitUpTo, h]

theorem split_of_bad {s : List β} (h : F.cut s = .bad) : F.split s = none := by
  rw [split, splitUpTo, h]

theorem split_of_message {s rest : List β} {a : α} (h : F.cut s = .message a rest) :
    F.split s = (F.split rest).map fun r => (a :: r.1, r.2) := by
  have hshort := F.shorter h
  rw [split, splitUpTo, h]
  show (F.splitUpTo s.length rest).map _ = (F.splitUpTo (rest.length + 1) rest).map _
  rw [F.splitUpTo_congr hshort (Nat.lt_succ_self _)]

/-- **Induction along the messages** at the front of the input. -/
theorem split_induction {P : List β → Prop} (more : ∀ s, F.cut s = .more → P s)
    (bad : ∀ s, F.cut s = .bad → P s)
    (message : ∀ s a rest, F.cut s = .message a rest → P rest → P s) (s : List β) : P s := by
  induction hn : s.length using Nat.strong_induction_on generalizing s with
  | _ n ih =>
    cases hcut : F.cut s with
    | more => exact more s hcut
    | bad => exact bad s hcut
    | message a rest =>
      have hshort := F.shorter hcut
      exact message s a rest hcut (ih rest.length (by omega) rest rfl)

/-- What is left is not yet a message. -/
theorem cut_of_split {s : List β} {as : List α} {rest : List β}
    (h : F.split s = some (as, rest)) : F.cut rest = .more := by
  induction s using F.split_induction generalizing as with
  | more s hcut =>
    rw [split_of_more hcut] at h
    obtain ⟨-, rfl⟩ := Prod.mk.inj (Option.some.inj h)
    exact hcut
  | bad s hcut =>
    rw [split_of_bad hcut] at h
    exact absurd h.symm (Option.some_ne_none _)
  | message s a rest' hcut ih =>
    rw [split_of_message hcut] at h
    obtain ⟨r, hr, heq⟩ := Option.map_eq_some_iff.mp h
    obtain ⟨-, rfl⟩ := Prod.mk.inj heq
    exact ih hr

/-- **Splitting an appended input** is splitting the first part, then what is left of it
with the second. -/
theorem split_append (s t : List β) :
    F.split (s ++ t) = (F.split s).bind fun r =>
      (F.split (r.2 ++ t)).map fun r' => (r.1 ++ r'.1, r'.2) := by
  induction s using F.split_induction with
  | more s hcut =>
    rw [split_of_more hcut, Option.bind_some]
    exact Option.map_id'.symm
  | bad s hcut => rw [split_of_bad hcut, split_of_bad (F.bad_append hcut t), Option.bind_none]
  | message s a rest hcut ih =>
    rw [split_of_message (F.message_append hcut t), ih, split_of_message hcut]
    cases F.split rest with
    | none => rfl
    | some r =>
      show Option.map _ (Option.map _ _) = Option.map _ _
      rw [Option.map_map]
      rfl

/-! ## Chunks -/

variable (F)

/-- The receiver: `rest` is kept from before, and the chunks arrive one by one. -/
def receive : List β → List (List β) → Option (List α × List β)
  | rest, [] => some ([], rest)
  | rest, chunk :: chunks =>
      (F.split (rest ++ chunk)).bind fun r =>
        (receive r.2 chunks).map fun r' => (r.1 ++ r'.1, r'.2)

variable {F}

/-- **The chunks do not matter.**  The receiver cuts off what splitting the whole input
cuts off. -/
theorem receive_eq_split {rest : List β} (h : F.cut rest = .more) (chunks : List (List β)) :
    F.receive rest chunks = F.split (rest ++ chunks.flatten) := by
  induction chunks generalizing rest with
  | nil => rw [receive, List.flatten_nil, List.append_nil, split_of_more h]
  | cons chunk chunks ih =>
    rw [receive, List.flatten_cons, ← List.append_assoc, split_append (rest ++ chunk)]
    cases hsplit : F.split (rest ++ chunk) with
    | none => rfl
    | some r =>
      show (F.receive r.2 chunks).map _ = (F.split (r.2 ++ chunks.flatten)).map _
      rw [ih (cut_of_split hsplit)]

/-- One more chunk. -/
theorem receive_concat (rest : List β) (chunks : List (List β)) (chunk : List β) :
    F.receive rest (chunks ++ [chunk]) = (F.receive rest chunks).bind fun r =>
      (F.split (r.2 ++ chunk)).map fun r' => (r.1 ++ r'.1, r'.2) := by
  induction chunks generalizing rest with
  | nil =>
    rw [List.nil_append, receive, receive, Option.bind_some]
    cases F.split (rest ++ chunk) with
    | none => rfl
    | some r =>
      show some (r.1 ++ [], r.2) = some ([] ++ r.1, r.2)
      rw [List.append_nil, List.nil_append]
  | cons first chunks ih =>
    rw [List.cons_append, receive, receive, Option.bind_assoc]
    congr 1
    funext r
    rw [ih, Option.map_bind, Option.bind_map]
    congr 1
    funext r'
    rw [Function.comp_apply, Function.comp_apply, Option.map_map]
    congr 1
    funext r''
    show (r.1 ++ (r'.1 ++ r''.1), r''.2) = (r.1 ++ r'.1 ++ r''.1, r''.2)
    rw [List.append_assoc]

/-! ## Streams of encoded messages -/

variable {ι : Type*} {encode : ι → List β} {value : ι → α}

/-- A whole message at the front is cut off, and its proper prefixes are waited for. -/
structure Encodes (F : Framing β α) (encode : ι → List β) (value : ι → α) : Prop where
  whole : ∀ i t, F.cut (encode i ++ t) = .message (value i) t
  proper : ∀ i p, p <+: encode i → p ≠ encode i → F.cut p = .more
  empty : F.cut [] = .more

/-- **A prefix of a stream of messages** splits into the messages that are complete and
a proper prefix of the next one. -/
theorem Encodes.split_prefix (h : F.Encodes encode value) {is : List ι} {p : List β}
    (hp : p <+: (is.map encode).flatten) :
    ∃ k tail, F.split p = some ((is.take k).map value, tail) ∧
      p = ((is.take k).map encode).flatten ++ tail ∧ k ≤ is.length ∧
      (tail = [] ∨ ∃ i ∈ is[k]?, tail <+: encode i ∧ tail ≠ encode i) := by
  induction is generalizing p with
  | nil =>
    obtain rfl : p = [] := List.prefix_nil.mp hp
    exact ⟨0, [], split_of_more h.empty, rfl, le_refl 0, Or.inl rfl⟩
  | cons i is ih =>
    rw [List.map_cons, List.flatten_cons] at hp
    by_cases hshort : p.length < (encode i).length
    · -- the first message is not complete
      have hfirst : p <+: encode i := (List.isPrefix_append_of_length (le_of_lt hshort)).mp hp
      have hne : p ≠ encode i := fun heq => absurd (congrArg List.length heq) (ne_of_lt hshort)
      exact ⟨0, p, split_of_more (h.proper i p hfirst hne), rfl, Nat.zero_le _,
        Or.inr ⟨i, rfl, hfirst, hne⟩⟩
    · have hwhole : encode i <+: p :=
        List.prefix_of_prefix_length_le (List.prefix_append _ _) hp (Nat.le_of_not_lt hshort)
      obtain ⟨q, rfl⟩ := hwhole
      have hq : q <+: (is.map encode).flatten := (List.prefix_append_right_inj _).mp hp
      obtain ⟨k, tail, hsplit, hq', hk, htail⟩ := ih hq
      refine ⟨k + 1, tail, ?_, ?_, Nat.succ_le_succ hk, ?_⟩
      · rw [split_of_message (h.whole i q), hsplit]
        rfl
      · rw [List.take_succ_cons, List.map_cons, List.flatten_cons, List.append_assoc, ← hq']
      · rw [List.getElem?_cons_succ]
        exact htail

/-- A stream of whole messages is cut up. -/
theorem Encodes.split_flatten (h : F.Encodes encode value) (is : List ι) :
    F.split (is.map encode).flatten = some (is.map value, []) := by
  induction is with
  | nil => exact split_of_more h.empty
  | cons i is ih =>
    rw [List.map_cons, List.flatten_cons, split_of_message (h.whole i _), ih]
    rfl

/-! ## Delimited pieces -/

section Delimited

variable [DecidableEq β] {sep : β}

/-- A list that starts with a piece and its delimiter. -/
theorem takeWhile_piece {a : List β} (h : sep ∉ a) (t : List β) :
    (a ++ sep :: t).takeWhile (· ≠ sep) = a ∧ (a ++ sep :: t).dropWhile (· ≠ sep) = sep :: t := by
  induction a with
  | nil => simp
  | cons b a ih =>
    have hb : b ≠ sep := fun heq => h (heq ▸ List.mem_cons_self)
    obtain ⟨htake, hdrop⟩ := ih fun hmem => h (List.mem_cons_of_mem _ hmem)
    rw [List.cons_append, List.takeWhile_cons_of_pos (by simpa using hb),
      List.dropWhile_cons_of_pos (by simpa using hb), htake, hdrop]
    exact ⟨rfl, rfl⟩

/-- A list without a delimiter. -/
theorem takeWhile_of_notMem {s : List β} (h : sep ∉ s) :
    s.takeWhile (· ≠ sep) = s ∧ s.dropWhile (· ≠ sep) = [] := by
  have hall : ∀ b ∈ s, decide (b ≠ sep) = true := by
    intro b hb
    simpa using fun heq : b = sep => h (heq ▸ hb)
  exact ⟨List.takeWhile_eq_self_iff.mpr hall, List.dropWhile_eq_nil_iff.mpr hall⟩

/-- The piece before the first delimiter, and what follows the delimiter. -/
def cutAt (sep : β) (s : List β) : Cut β (List β) :=
  match s.dropWhile (· ≠ sep) with
  | [] => .more
  | _ :: rest => .message (s.takeWhile (· ≠ sep)) rest

theorem cutAt_piece {a : List β} (h : sep ∉ a) (t : List β) :
    cutAt sep (a ++ sep :: t) = .message a t := by
  obtain ⟨htake, hdrop⟩ := takeWhile_piece h t
  rw [cutAt, hdrop, htake]

/-- The first piece of a list and what follows it are determined. -/
theorem piece_inj {x y s t : List β} (hx : sep ∉ x) (hy : sep ∉ y)
    (h : x ++ sep :: s = y ++ sep :: t) : x = y ∧ s = t := by
  have hcut : cutAt sep (x ++ sep :: s) = cutAt sep (y ++ sep :: t) := congrArg _ h
  rw [cutAt_piece hx, cutAt_piece hy] at hcut
  exact ⟨by injection hcut, by injection hcut⟩

/-- Without a delimiter there is no piece. -/
theorem cutAt_of_notMem {s : List β} (h : sep ∉ s) : cutAt sep s = .more := by
  rw [cutAt, (takeWhile_of_notMem h).2]

/-- A piece has no delimiter in it, and the delimiter follows it. -/
theorem of_cutAt {s a t : List β} (h : cutAt sep s = .message a t) :
    sep ∉ a ∧ s = a ++ sep :: t := by
  by_cases hmem : sep ∈ s
  · obtain ⟨a', t', rfl, ha'⟩ := List.eq_append_cons_of_mem hmem
    rw [cutAt_piece ha'] at h
    injection h with ha ht
    exact ⟨ha ▸ ha', by rw [ha, ht]⟩
  · rw [cutAt_of_notMem hmem] at h
    exact absurd h (by simp)

/-- No bytes are bad. -/
theorem cutAt_ne_bad (s : List β) : cutAt sep s ≠ .bad := by
  by_cases hmem : sep ∈ s
  · obtain ⟨a', t', rfl, ha'⟩ := List.eq_append_cons_of_mem hmem
    rw [cutAt_piece ha']
    exact fun h => by simp at h
  · rw [cutAt_of_notMem hmem]
    exact fun h => by simp at h

/-- Messages that end at the first delimiter. -/
def delimited (sep : β) : Framing β (List β) where
  cut := cutAt sep
  shorter := by
    intro s a rest h
    rw [(of_cutAt h).2, List.length_append, List.length_cons]
    omega
  message_append := by
    intro s a rest h t
    obtain ⟨ha, rfl⟩ := of_cutAt h
    rw [List.append_assoc, List.cons_append, cutAt_piece ha]
  bad_append := fun h => absurd h (cutAt_ne_bad _)

/-- The pieces at the front of `s`, and what follows the last delimiter. -/
def pieces (sep : β) (s : List β) : List (List β) × List β :=
  ((delimited sep).split s).getD ([], s)

theorem split_delimited (s : List β) : (delimited sep).split s = some (pieces sep s) := by
  have hsome : ∃ r, (delimited sep).split s = some r := by
    induction s using (delimited sep).split_induction with
    | more s hcut => exact ⟨_, split_of_more hcut⟩
    | bad s hcut => exact absurd hcut (cutAt_ne_bad s)
    | message s a rest hcut ih =>
      obtain ⟨r, hr⟩ := ih
      exact ⟨_, by rw [split_of_message hcut, hr]; rfl⟩
  obtain ⟨r, hr⟩ := hsome
  rw [pieces, hr]
  rfl

/-- The first piece, then the others. -/
theorem pieces_piece {a : List β} (h : sep ∉ a) (t : List β) :
    pieces sep (a ++ sep :: t) = (a :: (pieces sep t).1, (pieces sep t).2) := by
  have hcut : (delimited sep).cut (a ++ sep :: t) = .message a t := cutAt_piece h t
  have hsplit := split_of_message hcut
  rw [split_delimited, split_delimited] at hsplit
  exact Option.some.inj hsplit

theorem pieces_of_notMem {s : List β} (h : sep ∉ s) : pieces sep s = ([], s) :=
  Option.some.inj ((split_delimited s).symm.trans (split_of_more (cutAt_of_notMem h)))

/-- **A list of terminated pieces** is cut into them, and what follows is cut on its own. -/
theorem pieces_flatMap_append {as : List (List β)} (h : ∀ a ∈ as, sep ∉ a) (t : List β) :
    pieces sep ((as.flatMap fun a => a ++ [sep]) ++ t)
      = (as ++ (pieces sep t).1, (pieces sep t).2) := by
  induction as with
  | nil => rfl
  | cons a as ih =>
    rw [List.flatMap_cons, List.append_assoc, List.append_assoc, List.singleton_append,
      pieces_piece (h a List.mem_cons_self), ih fun a' ha' => h a' (List.mem_cons_of_mem _ ha'),
      List.cons_append]

theorem pieces_flatMap {as : List (List β)} (h : ∀ a ∈ as, sep ∉ a) :
    pieces sep (as.flatMap fun a => a ++ [sep]) = (as, []) := by
  have hcut := pieces_flatMap_append h []
  rwa [List.append_nil, pieces_of_notMem List.not_mem_nil, List.append_nil] at hcut

/-- The first pieces stand in front, each with its delimiter. -/
theorem exists_of_pieces {as bs : List (List β)} {s : List β}
    (h : (pieces sep s).1 = as ++ bs) :
    ∃ rest, s = (as.flatMap fun a => a ++ [sep]) ++ rest := by
  induction as generalizing s with
  | nil => exact ⟨s, rfl⟩
  | cons a as ih =>
    by_cases hmem : sep ∈ s
    · obtain ⟨a', t, rfl, ha'⟩ := List.eq_append_cons_of_mem hmem
      rw [pieces_piece ha', List.cons_append] at h
      obtain ⟨rfl, htail⟩ := List.cons.inj h
      obtain ⟨rest, rfl⟩ := ih htail
      exact ⟨rest, by rw [List.flatMap_cons, List.append_assoc, List.append_assoc,
        List.singleton_append]⟩
    · rw [pieces_of_notMem hmem] at h
      exact absurd h.symm (List.cons_ne_nil _ _)

/-- No piece has a delimiter in it, and neither has what is left. -/
theorem notMem_of_pieces (s : List β) :
    (∀ a ∈ (pieces sep s).1, sep ∉ a) ∧ sep ∉ (pieces sep s).2 := by
  induction s using (delimited sep).split_induction with
  | more s hcut =>
    have hmem : sep ∉ s := by
      intro hmem
      obtain ⟨a, t, rfl, ha⟩ := List.eq_append_cons_of_mem hmem
      exact absurd ((cutAt_piece ha t).symm.trans hcut) (by simp)
    rw [pieces_of_notMem hmem]
    exact ⟨fun a ha => absurd ha List.not_mem_nil, hmem⟩
  | bad s hcut => exact absurd hcut (cutAt_ne_bad s)
  | message s a rest hcut ih =>
    obtain ⟨ha, rfl⟩ := of_cutAt hcut
    rw [pieces_piece ha]
    refine ⟨?_, ih.2⟩
    intro a' ha'
    rcases List.mem_cons.mp ha' with rfl | ha'
    · exact ha
    · exact ih.1 a' ha'

end Delimited

end Framing
