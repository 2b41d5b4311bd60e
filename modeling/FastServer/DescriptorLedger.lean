/-
# Who owns a descriptor

A connection writes to a descriptor number, and numbers are used again.  The ledger
keeps what decides where those writes go: `connectionMap_`, the descriptor table, the
descriptors on their way to the reactor, and the descriptor and socket each
connection was made with.  As long as no descriptor is closed on its way, a number in
`connectionMap_` stands for the socket its connection was made with.
-/
import FastServer.SendPath

namespace Muduo

/-- What decides where the bytes written to a descriptor go.  `identity` gives the
descriptor and the socket a connection was made with, `holding` the descriptor a thread
has accepted, `arriving` those pushed and not yet made connections, and `sockets` the
number of sockets made. -/
structure Ledger where
  connectionMap : Fd → Option ℕ
  identity : ℕ → Option (Fd × Option ℕ)
  fdTable : Fd → Option Descriptor
  holding : Tid → Option Fd
  arriving : List Fd
  sockets : ℕ

namespace Ledger

/-! ## Operations -/

/-- A number is opened on a new socket. -/
def openSocket (l : Ledger) (fd : Fd) (owner : Owner) : Ledger :=
  { l with
    fdTable := Function.update l.fdTable fd (some ⟨l.sockets, owner⟩)
    sockets := l.sockets + 1 }

/-- A thread takes hold of a descriptor, or lets go of it. -/
def hold (l : Ledger) (tid : Tid) (fd : Option Fd) : Ledger :=
  { l with holding := Function.update l.holding tid fd }

/-- The owner of a descriptor changes. -/
def setOwner (l : Ledger) (fd : Fd) (owner : Owner) : Ledger :=
  { l with
    fdTable := Function.update l.fdTable fd
      ((l.fdTable fd).map fun d => { d with owner := owner }) }

/-- A thread passes its descriptor on. -/
def passOn (l : Ledger) (tid : Tid) (fd : Fd) (owner : Owner) : Ledger :=
  (l.setOwner fd owner).hold tid none

/-- A thread passes its descriptor on to the reactor. -/
def enqueue (l : Ledger) (tid : Tid) (fd : Fd) : Ledger :=
  { l.passOn tid fd .queued with arriving := l.arriving ++ [fd] }

/-- The reactor makes a connection; `rest` are the descriptors still to come. -/
def adopt (l : Ledger) (o : ℕ) (fd : Fd) (rest : List Fd) : Ledger :=
  { l.setOwner fd (.connection o) with
    connectionMap := Function.update l.connectionMap fd (some o)
    identity := Function.update l.identity o
      (some (fd, (l.fdTable fd).map Descriptor.socket))
    arriving := rest }

/-- A number is closed and unmapped. -/
def close (l : Ledger) (fd : Fd) : Ledger :=
  { l with
    connectionMap := Function.update l.connectionMap fd none
    fdTable := Function.update l.fdTable fd none }

/-! ## Soundness -/

/-- The ledger is sound: a mapped number is open on the socket of its connection, and
every open descriptor has the owner that its history says. -/
structure Sound (l : Ledger) : Prop where
  mapped : ∀ {fd o}, l.connectionMap fd = some o →
    ∃ k, l.identity o = some (fd, some k) ∧ l.fdTable fd = some ⟨k, .connection o⟩
  made : ∀ {o fd s}, l.identity o = some (fd, s) → ∃ k < l.sockets, s = some k
  distinct : ∀ {o o' fd fd' k}, l.identity o = some (fd, some k) →
    l.identity o' = some (fd', some k) → o = o'
  owner : ∀ {fd d o fd'}, l.fdTable fd = some d → l.identity o = some (fd', some d.socket) →
    d.owner = .connection o
  unshared : ∀ {fd fd' d d'}, l.fdTable fd = some d → l.fdTable fd' = some d' →
    d.socket = d'.socket → fd = fd'
  opened : ∀ {fd d}, l.fdTable fd = some d → d.socket < l.sockets
  queued : ∀ {fd}, fd ∈ l.arriving → ∃ k, l.fdTable fd = some ⟨k, .queued⟩
  nodup : l.arriving.Nodup
  held : ∀ {tid fd}, l.holding tid = some fd → ∃ k, l.fdTable fd = some ⟨k, .accepted tid⟩

variable {l : Ledger} {fd : Fd} {tid : Tid}

/-- The descriptor table after a change of owner. -/
theorem setOwner_fdTable_self {d : Descriptor} (hd : l.fdTable fd = some d) (owner : Owner) :
    (l.setOwner fd owner).fdTable fd = some { d with owner := owner } := by
  show Function.update l.fdTable fd _ fd = _
  rw [Function.update_self, hd, Option.map_some]

theorem setOwner_fdTable_of_ne {fd' : Fd} (h : fd' ≠ fd) (owner : Owner) :
    (l.setOwner fd owner).fdTable fd' = l.fdTable fd' := Function.update_of_ne h _ _

/-- Every descriptor keeps its socket when an owner changes. -/
theorem exists_of_setOwner {fd' : Fd} {owner : Owner} {d : Descriptor}
    (h : (l.setOwner fd owner).fdTable fd' = some d) :
    ∃ d', l.fdTable fd' = some d' ∧ d'.socket = d.socket ∧ (fd' ≠ fd → d' = d) ∧
      (fd' = fd → d.owner = owner) := by
  by_cases hfd : fd' = fd
  · subst hfd
    obtain ⟨d', hd', rfl⟩ := Option.map_eq_some_iff.mp
      ((Function.update_self fd' _ l.fdTable).symm.trans h)
    exact ⟨d', hd', rfl, fun hne => absurd rfl hne, fun _ => rfl⟩
  · rw [setOwner_fdTable_of_ne hfd] at h
    exact ⟨d, h, rfl, fun _ => rfl, fun heq => absurd heq hfd⟩

namespace Sound

/-- A change of owner leaves the sockets as they are. -/
theorem unshared_setOwner (h : l.Sound) {owner : Owner} {fd₁ fd₂ : Fd} {d₁ d₂ : Descriptor}
    (hd₁ : (l.setOwner fd owner).fdTable fd₁ = some d₁)
    (hd₂ : (l.setOwner fd owner).fdTable fd₂ = some d₂) (hsame : d₁.socket = d₂.socket) :
    fd₁ = fd₂ := by
  obtain ⟨d₁', hd₁', hs₁, -, -⟩ := exists_of_setOwner hd₁
  obtain ⟨d₂', hd₂', hs₂, -, -⟩ := exists_of_setOwner hd₂
  exact h.unshared hd₁' hd₂' (by rw [hs₁, hs₂, hsame])

theorem opened_setOwner (h : l.Sound) {owner : Owner} {fd' : Fd} {d : Descriptor}
    (hd : (l.setOwner fd owner).fdTable fd' = some d) : d.socket < l.sockets := by
  obtain ⟨d', hd', hs, -, -⟩ := exists_of_setOwner hd
  exact hs ▸ h.opened hd'

/-- **Opening.**  A number that is not in use may be opened for anyone. -/
theorem openSocket (h : l.Sound) (hfree : l.fdTable fd = none) (owner : Owner) :
    (l.openSocket fd owner).Sound := by
  -- a number that was open is not the one opened now
  have hne : ∀ {fd' d}, l.fdTable fd' = some d → fd' ≠ fd := by
    rintro fd' d hd rfl
    rw [hfree] at hd
    exact Option.some_ne_none _ hd.symm
  have hkeep : ∀ {fd' d}, l.fdTable fd' = some d →
      (l.openSocket fd owner).fdTable fd' = some d := by
    intro fd' d hd
    exact (Function.update_of_ne (hne hd) _ _).trans hd
  have hcases : ∀ {fd' d}, (l.openSocket fd owner).fdTable fd' = some d →
      (fd' = fd ∧ d = ⟨l.sockets, owner⟩) ∨ l.fdTable fd' = some d := by
    intro fd' d hd
    by_cases hfd : fd' = fd
    · subst hfd
      exact Or.inl
        ⟨rfl, (Option.some.inj ((Function.update_self fd' _ l.fdTable).symm.trans hd)).symm⟩
    · exact Or.inr ((Function.update_of_ne hfd _ _).symm.trans hd)
  constructor
  · intro fd' o ho
    obtain ⟨k, hid, hd⟩ := h.mapped ho
    exact ⟨k, hid, hkeep hd⟩
  · intro o fd' s hid
    obtain ⟨k, hk, rfl⟩ := h.made hid
    exact ⟨k, Nat.lt_succ_of_lt hk, rfl⟩
  · exact h.distinct
  · intro fd' d o fd'' hd hid
    rcases hcases hd with ⟨rfl, rfl⟩ | hd
    · obtain ⟨k, hk, heq⟩ := h.made hid
      exact absurd (Option.some.inj heq) (Nat.ne_of_gt hk)
    · exact h.owner hd hid
  · intro fd₁ fd₂ d₁ d₂ hd₁ hd₂ hsame
    rcases hcases hd₁ with ⟨rfl, rfl⟩ | hold₁ <;> rcases hcases hd₂ with ⟨rfl, rfl⟩ | hold₂
    · rfl
    · exact absurd hsame (Nat.ne_of_gt (h.opened hold₂))
    · exact absurd hsame (Nat.ne_of_lt (h.opened hold₁))
    · exact h.unshared hold₁ hold₂ hsame
  · intro fd' d hd
    rcases hcases hd with ⟨rfl, rfl⟩ | hd
    · exact Nat.lt_succ_self _
    · exact Nat.lt_succ_of_lt (h.opened hd)
  · intro fd' hfd'
    obtain ⟨k, hd⟩ := h.queued hfd'
    exact ⟨k, hkeep hd⟩
  · exact h.nodup
  · intro t fd' ht
    obtain ⟨k, hd⟩ := h.held ht
    exact ⟨k, hkeep hd⟩

/-- A thread takes hold of a descriptor that it owns. -/
theorem hold (h : l.Sound) {k : ℕ} (hown : l.fdTable fd = some ⟨k, .accepted tid⟩) :
    (l.hold tid (some fd)).Sound := by
  refine ⟨h.mapped, h.made, h.distinct, h.owner, h.unshared, h.opened, h.queued, h.nodup, ?_⟩
  intro t fd' ht
  by_cases htid : t = tid
  · subst htid
    obtain rfl : fd = fd' := Option.some.inj ((Function.update_self t _ l.holding).symm.trans ht)
    exact ⟨k, hown⟩
  · exact h.held ((Function.update_of_ne htid _ _).symm.trans ht)

/-- A thread may pass on the descriptor it holds, to anyone. -/
theorem passOn (h : l.Sound) (hhold : l.holding tid = some fd) (owner : Owner) :
    (l.passOn tid fd owner).Sound := by
  obtain ⟨k, hfd⟩ := h.held hhold
  -- no other use of the descriptor is on record
  have hkeep : ∀ {fd' d}, l.fdTable fd' = some d → d.owner ≠ .accepted tid →
      (l.passOn tid fd owner).fdTable fd' = some d := by
    intro fd' d hd howner
    have hne : fd' ≠ fd := by
      rintro rfl
      rw [hfd] at hd
      exact howner (congrArg Descriptor.owner (Option.some.inj hd)).symm
    exact (setOwner_fdTable_of_ne hne _).trans hd
  constructor
  · intro fd' o ho
    obtain ⟨k', hid, hd⟩ := h.mapped ho
    exact ⟨k', hid, hkeep hd (by simp)⟩
  · exact h.made
  · exact h.distinct
  · intro fd' d o fd'' hd hid
    obtain ⟨d', hd', hsocket, hsame, -⟩ := exists_of_setOwner hd
    have howner := h.owner hd' (hsocket ▸ hid)
    by_cases hfd' : fd' = fd
    · rw [hfd', hfd] at hd'
      obtain rfl := Option.some.inj hd'
      exact absurd howner (by simp)
    · rw [← hsame hfd']
      exact howner
  · exact h.unshared_setOwner
  · exact h.opened_setOwner
  · intro fd' hfd'
    obtain ⟨k', hd⟩ := h.queued hfd'
    exact ⟨k', hkeep hd (by simp)⟩
  · exact h.nodup
  · intro t fd' ht
    have htid : t ≠ tid := by
      rintro rfl
      exact Option.some_ne_none _ ((Function.update_self t _ l.holding).symm.trans ht).symm
    obtain ⟨k', hd⟩ := h.held ((Function.update_of_ne htid _ _).symm.trans ht)
    exact ⟨k', hkeep hd (by simpa using htid)⟩

/-- **Enqueueing.**  A thread may pass on the descriptor it holds to the reactor. -/
theorem enqueue (h : l.Sound) (hhold : l.holding tid = some fd) : (l.enqueue tid fd).Sound := by
  obtain ⟨k, hfd⟩ := h.held hhold
  have hpassed := h.passOn hhold .queued
  have hnew : fd ∉ l.arriving := by
    intro hmem
    obtain ⟨k', hd⟩ := h.queued hmem
    rw [hfd] at hd
    exact absurd (congrArg Descriptor.owner (Option.some.inj hd)) (by simp)
  refine ⟨hpassed.mapped, hpassed.made, hpassed.distinct, hpassed.owner, hpassed.unshared,
    hpassed.opened, ?_, ?_, hpassed.held⟩
  · intro fd' hfd'
    rcases List.mem_append.mp hfd' with hmem | hmem
    · exact hpassed.queued hmem
    · obtain rfl := List.mem_singleton.mp hmem
      exact ⟨k, setOwner_fdTable_self hfd _⟩
  · exact List.Nodup.append h.nodup (List.nodup_singleton fd)
      (List.disjoint_singleton.mpr hnew)

/-- **Adopting.**  A descriptor that arrived becomes that of a new connection. -/
theorem adopt (h : l.Sound) {o : ℕ} {rest : List Fd} (hnew : l.identity o = none)
    (hperm : l.arriving.Perm (fd :: rest)) : (l.adopt o fd rest).Sound := by
  obtain ⟨k, hfd⟩ := h.queued (hperm.mem_iff.mpr List.mem_cons_self)
  have hnodup : (fd :: rest).Nodup := hperm.nodup_iff.mp h.nodup
  have hmap : (l.fdTable fd).map Descriptor.socket = some k := by rw [hfd, Option.map_some]
  have hne : ∀ {fd' d}, l.fdTable fd' = some d → d.owner ≠ .queued → fd' ≠ fd := by
    rintro fd' d hd howner rfl
    rw [hfd] at hd
    exact howner (congrArg Descriptor.owner (Option.some.inj hd)).symm
  have hkeep : ∀ {fd' d}, l.fdTable fd' = some d → fd' ≠ fd →
      (l.adopt o fd rest).fdTable fd' = some d := by
    intro fd' d hd hfd'
    exact (setOwner_fdTable_of_ne hfd' _).trans hd
  -- no connection was made with the socket before
  have hunused : ∀ {o' fd'}, l.identity o' ≠ some (fd', some k) := by
    intro o' fd' hid
    exact absurd (h.owner hfd hid) (by simp)
  have hself : (l.adopt o fd rest).identity o = some (fd, some k) := by
    rw [← hmap]
    exact Function.update_self _ _ _
  have hold : ∀ {o'}, o' ≠ o → (l.adopt o fd rest).identity o' = l.identity o' :=
    fun ho => Function.update_of_ne ho _ _
  have hcases : ∀ {o' x}, (l.adopt o fd rest).identity o' = some x →
      (o' = o ∧ x = (fd, some k)) ∨ l.identity o' = some x := by
    intro o' x hid
    by_cases ho : o' = o
    · subst ho
      exact Or.inl ⟨rfl, (Option.some.inj (hself.symm.trans hid)).symm⟩
    · exact Or.inr ((hold ho).symm.trans hid)
  have hkept : ∀ {o' x}, l.identity o' = some x →
      (l.adopt o fd rest).identity o' = some x := by
    intro o' x hid
    have ho : o' ≠ o := by
      rintro rfl
      rw [hnew] at hid
      exact Option.some_ne_none _ hid.symm
    exact (hold ho).trans hid
  constructor
  · intro fd' o' ho'
    by_cases hfd' : fd' = fd
    · subst hfd'
      obtain rfl : o = o' :=
        Option.some.inj ((Function.update_self fd' _ l.connectionMap).symm.trans ho')
      exact ⟨k, hself, setOwner_fdTable_self hfd _⟩
    · obtain ⟨k', hid, hd⟩ := h.mapped ((Function.update_of_ne hfd' _ _).symm.trans ho')
      exact ⟨k', hkept hid, hkeep hd hfd'⟩
  · intro o' fd' s hid
    rcases hcases hid with ⟨-, heq⟩ | hid
    · exact ⟨k, h.opened hfd, (Prod.mk.inj heq).2⟩
    · exact h.made hid
  · intro o₁ o₂ fd₁ fd₂ k' hid₁ hid₂
    rcases hcases hid₁ with ⟨rfl, heq₁⟩ | hold₁ <;> rcases hcases hid₂ with ⟨rfl, heq₂⟩ | hold₂
    · rfl
    · exact absurd ((Prod.mk.inj heq₁).2 ▸ hold₂) hunused
    · exact absurd ((Prod.mk.inj heq₂).2 ▸ hold₁) hunused
    · exact h.distinct hold₁ hold₂
  · intro fd' d o' fd'' hd hid
    obtain ⟨d', hd', hsocket, hsame, howner⟩ := exists_of_setOwner hd
    rcases hcases hid with ⟨rfl, heq⟩ | hid
    · -- the new connection's socket is the one of `fd`
      have hk : d'.socket = k := hsocket.trans (Option.some.inj (Prod.mk.inj heq).2)
      exact howner (h.unshared hd' hfd hk)
    · have hown := h.owner hd' (hsocket ▸ hid)
      have hfd' : fd' ≠ fd := hne hd' (by rw [hown]; simp)
      rw [← hsame hfd']
      exact hown
  · exact h.unshared_setOwner
  · exact h.opened_setOwner
  · intro fd' hfd'
    have hfd'' : fd' ≠ fd := by
      rintro rfl
      exact (List.nodup_cons.mp hnodup).1 hfd'
    obtain ⟨k', hd⟩ := h.queued (hperm.mem_iff.mpr (List.mem_cons_of_mem _ hfd'))
    exact ⟨k', hkeep hd hfd''⟩
  · exact (List.nodup_cons.mp hnodup).2
  · intro t fd' ht
    obtain ⟨k', hd⟩ := h.held ht
    exact ⟨k', hkeep hd (hne hd (by simp))⟩

/-- **Closing.**  A number may be closed if it is not on its way to the reactor. -/
theorem close (h : l.Sound) (hown : ∀ d ∈ l.fdTable fd, d.owner.onItsWay = false) :
    (l.close fd).Sound := by
  have hkeep : ∀ {fd'}, fd' ≠ fd → (l.close fd).fdTable fd' = l.fdTable fd' :=
    fun hfd => Function.update_of_ne hfd _ _
  have hcases : ∀ {fd' d}, (l.close fd).fdTable fd' = some d →
      l.fdTable fd' = some d := by
    intro fd' d hd
    have hfd : fd' ≠ fd := by
      rintro rfl
      exact Option.some_ne_none _ ((Function.update_self fd' _ l.fdTable).symm.trans hd).symm
    exact (hkeep hfd).symm.trans hd
  constructor
  · intro fd' o ho
    have hfd : fd' ≠ fd := by
      rintro rfl
      exact Option.some_ne_none _
        ((Function.update_self fd' _ l.connectionMap).symm.trans ho).symm
    obtain ⟨k, hid, hd⟩ := h.mapped ((Function.update_of_ne hfd _ _).symm.trans ho)
    exact ⟨k, hid, (hkeep hfd).trans hd⟩
  · exact h.made
  · exact h.distinct
  · intro fd' d o fd'' hd hid
    exact h.owner (hcases hd) hid
  · intro fd₁ fd₂ d₁ d₂ hd₁ hd₂ hsame
    exact h.unshared (hcases hd₁) (hcases hd₂) hsame
  · intro fd' d hd
    exact h.opened (hcases hd)
  · intro fd' hfd'
    obtain ⟨k, hd⟩ := h.queued hfd'
    have hfd : fd' ≠ fd := by
      rintro rfl
      exact absurd (hown _ hd) (by simp [Owner.onItsWay])
    exact ⟨k, (hkeep hfd).trans hd⟩
  · exact h.nodup
  · intro t fd' ht
    obtain ⟨k, hd⟩ := h.held ht
    have hfd : fd' ≠ fd := by
      rintro rfl
      exact absurd (hown _ hd) (by simp [Owner.onItsWay])
    exact ⟨k, (hkeep hfd).trans hd⟩

end Sound

end Ledger

/-! ## Descriptors on their way to the reactor -/

/-- The descriptors that `processNewConnections` has swapped out and not yet popped. -/
def Stage.unprocessed : Stage → List Fd
  | .accepting newConnections => newConnections
  | _ => []

namespace WakeUp

variable {capacity : ℕ} {w w' : WakeUp} {tid : Tid} {fd : Fd}

/-- The descriptors pushed onto `newConnections_` that are not yet connections. -/
def arriving (w : WakeUp) : List Fd := w.stage.unprocessed ++ w.queue .newConnections

theorem push_newConnections_arriving (h : w.push tid .newConnections fd = some w') :
    w'.arriving = w.arriving ++ [fd] := by
  unfold push at h
  split_ifs at h with hidle
  obtain rfl := Option.some.inj h
  simp only [arriving, Function.update_self, List.append_assoc]

theorem push_sendQueue_arriving (h : w.push tid .sendQueue fd = some w') :
    w'.arriving = w.arriving := by
  unfold push at h
  split_ifs at h with hidle
  obtain rfl := Option.some.inj h
  simp [arriving]

theorem notify_arriving (h : w.notify capacity tid = some w') : w'.arriving = w.arriving := by
  unfold notify at h
  split_ifs at h <;>
  · obtain rfl := Option.some.inj h
    rfl

theorem epollWait_arriving {events : List Event} (h : w.epollWait events = some w') :
    w'.arriving = w.arriving := by
  unfold epollWait at h
  split_ifs at h with hguard
  obtain rfl := Option.some.inj h
  unfold arriving
  rw [hguard.1]
  rfl

theorem disconnect_arriving (h : w.disconnect = some w') : w'.arriving = w.arriving := by
  unfold disconnect at h
  split at h
  · rename_i hstage
    obtain rfl := Option.some.inj h
    unfold arriving
    rw [hstage]
    rfl
  · exact absurd h.symm (Option.some_ne_none _)

theorem unprocessed_of_following {stage stage' : Stage} (h : stage.following = some stage') :
    stage.unprocessed = [] ∧ stage'.unprocessed = [] := by
  cases stage with
  | timing | reading | disconnecting | writing | hangingUp =>
    obtain rfl := Option.some.inj h
    exact ⟨rfl, rfl⟩
  | _ => exact absurd h.symm (Option.some_ne_none _)

/-- The reactor thread takes a descriptor off the local vector or leaves all in place. -/
theorem proceed_arriving (h : w.proceed = some w') :
    (w.stage.unprocessed = [] ∧ w'.arriving = w.arriving) ∨
      ∃ fds, w.stage = .accepting fds ∧ fds ≠ [] ∧
        w'.arriving = fds.dropLast ++ w.queue .newConnections := by
  cases proceeds_of_proceed h with
  | dispatch event _ hstage =>
    left
    refine ⟨by rw [hstage]; rfl, ?_⟩
    cases event <;> simp [arriving, Stage.unprocessed, Event.stage, hstage]
  | handle _ hnext =>
    obtain ⟨hstage, hstage'⟩ := unprocessed_of_following hnext
    exact Or.inl ⟨hstage, by simp only [arriving, hstage, hstage']⟩
  | wait hstage | readPipe hstage | swapNew hstage | accepted hstage | swapSend hstage
  | drain _ hstage | drained hstage =>
    exact Or.inl ⟨by rw [hstage]; rfl, by simp [arriving, Stage.unprocessed, hstage]⟩
  | accept fds hstage hfds => exact Or.inr ⟨fds, hstage, hfds, rfl⟩

end WakeUp

/-! ## The ledger of a state -/

/-- The descriptor and the socket a connection was made with. -/
def Connection.identity (c : Connection) : Fd × Option ℕ := (c.fdWrapper.fd, c.socket)

/-- The accepted descriptor that a thread holds. -/
def Sender.holding : Sender → Option Fd
  | .accepted fd => some fd
  | _ => none

namespace World

variable {w w' : World} {tid : Tid} {fd : Fd} {o : ℕ}

/-- The ledger that the state keeps. -/
def ledger (w : World) : Ledger where
  connectionMap := w.connectionMap
  identity := fun o => (w.connections[o]?).map Connection.identity
  fdTable := w.fdTable
  holding := fun tid => (w.senders tid).holding
  arriving := w.wake.arriving
  sockets := w.sockets.length

theorem ledger_setWake {wake : WakeUp} (h : wake.arriving = w.wake.arriving) :
    (w.setWake wake).ledger = w.ledger := by
  show ({ w.ledger with arriving := wake.arriving } : Ledger) = w.ledger
  rw [h]
  rfl

theorem ledger_setSender (w : World) (tid : Tid) (p : Sender) :
    (w.setSender tid p).ledger = w.ledger.hold tid p.holding := by
  have hholding : (fun t => (Function.update w.senders tid p t).holding)
      = Function.update w.ledger.holding tid p.holding := by
    funext t
    exact Function.apply_update (fun _ => Sender.holding) w.senders tid p t
  unfold ledger Ledger.hold setSender
  rw [hholding]
  rfl

/-- A thread that neither held a descriptor nor comes to hold one leaves the ledger as
it is. -/
theorem ledger_setSender_of_none {p : Sender} (hbefore : (w.senders tid).holding = none)
    (hafter : p.holding = none) : (w.setSender tid p).ledger = w.ledger := by
  rw [ledger_setSender, hafter]
  unfold Ledger.hold
  rw [Function.update_eq_self_iff.mpr hbefore.symm]

theorem ledger_setConnection {c c' : Connection} (hc : w.connections[o]? = some c)
    (hid : c'.identity = c.identity) : (w.setConnection o c').ledger = w.ledger := by
  have hidentity : (fun i => ((w.connections.set o c')[i]?).map Connection.identity)
      = w.ledger.identity := by
    funext i
    show _ = (w.connections[i]?).map Connection.identity
    by_cases hi : o = i
    · subst hi
      have hlt : o < w.connections.length := (List.getElem?_eq_some_iff.mp hc).1
      rw [List.getElem?_set_self hlt, hc, Option.map_some, Option.map_some, hid]
    · rw [List.getElem?_set_ne hi]
  unfold ledger setConnection
  rw [hidentity]
  rfl

theorem ledger_openSocket (w : World) (fd : Fd) (owner : Owner) :
    (w.openSocket fd owner).ledger = w.ledger.openSocket fd owner := by
  unfold ledger openSocket Ledger.openSocket
  rw [List.length_append]
  rfl

theorem ledger_hand (w : World) (k : ℕ) (bytes : Memory) :
    (w.hand k bytes).ledger = w.ledger := by
  unfold ledger hand
  rw [List.length_modify]

theorem ledger_createConnection (w : World) (fd : Fd) :
    (w.createConnection fd).ledger
      = w.ledger.adopt w.connections.length fd w.wake.arriving := by
  obtain ⟨epoll, heq⟩ := w.createConnection_eq fd
  have hidentity : (fun i => ((w.connections
        ++ [Connection.new fd ((w.fdTable fd).map Descriptor.socket)])[i]?).map
          Connection.identity)
      = Function.update w.ledger.identity w.connections.length
          (some (fd, (w.fdTable fd).map Descriptor.socket)) := by
    funext i
    by_cases hi : i = w.connections.length
    · subst hi
      rw [Function.update_self, List.getElem?_concat_length]
      rfl
    · rw [Function.update_of_ne hi]
      show _ = (w.connections[i]?).map Connection.identity
      rcases Nat.lt_or_gt_of_ne hi with hlt | hgt
      · rw [List.getElem?_append_left hlt]
      · rw [List.getElem?_eq_none (by simp; omega), List.getElem?_eq_none (by omega)]
  rw [heq]
  unfold ledger Ledger.adopt
  rw [hidentity]
  rfl

end World

end Muduo
