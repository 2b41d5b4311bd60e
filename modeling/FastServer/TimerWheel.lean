/-
# The timer wheel of an event loop

`TimerTask` and `TimerWheel` of `server.hpp`.  The slots of the wheel own the tasks, by
shared pointers; `timers_` finds the last task added under an id, by a weak pointer.  A task
is destroyed with the last shared pointer to it: it then runs its callback, unless it was
cancelled, and erases whatever `timers_` has under its id.
-/
import Mathlib

namespace Reactor

/-! ## Data -/

/-- A pointer to a `TimerTask`: the address, and the members that do not change. -/
structure TimerTask (γ : Type*) where
  address : ℕ
  id : ℕ
  timeout : ℕ
  callback : γ
deriving DecidableEq

/-- `TimerWheel`.  `wheel pos` is the slot `wheel_[pos]`; `is_cancel` is the member of the
tasks that changes, by their addresses; `allocated` counts the addresses in use. -/
structure TimerWheel (γ : Type*) where
  tick : ℕ
  wheel : ℕ → List (TimerTask γ)
  timers : ℕ → Option (TimerTask γ)
  is_cancel : ℕ → Bool
  allocated : ℕ

namespace TimerWheel

variable {γ : Type*}

/-- `capacity_`. -/
def capacity : ℕ := 60

/-- A wheel without tasks. -/
def empty : TimerWheel γ := ⟨0, fun _ => [], fun _ => none, fun _ => false, 0⟩

/-- `HasTimerTask`. -/
def hasTimerTask (w : TimerWheel γ) (id : ℕ) : Bool := (w.timers id).isSome

/-- `wheel_[pos].push_back(tsp)` for the slot that is `timeout` steps ahead. -/
def push (w : TimerWheel γ) (timeout : ℕ) (tsp : TimerTask γ) : TimerWheel γ :=
  let pos := (w.tick + timeout) % capacity
  { w with wheel := Function.update w.wheel pos (w.wheel pos ++ [tsp]) }

/-- A new task; its `is_cancel_` is false. -/
def newTask (w : TimerWheel γ) (id timeout : ℕ) (callback : γ) : TimerTask γ :=
  ⟨w.allocated, id, timeout, callback⟩

/-- `AddTimerTaskInLoop`. -/
def addTimerTaskInLoop (w : TimerWheel γ) (id timeout : ℕ) (callback : γ) : TimerWheel γ :=
  let tsp := w.newTask id timeout callback
  let w := { w with allocated := w.allocated + 1 }
  let w := { w with timers := Function.update w.timers id (some tsp) }
  w.push timeout tsp

/-- `ReleaseTimerTaskInLoop`. -/
def releaseTimerTaskInLoop (w : TimerWheel γ) (id : ℕ) : TimerWheel γ :=
  { w with timers := Function.update w.timers id none }

/-- `Step` up to the clearing of the slot. -/
def advance (w : TimerWheel γ) : TimerWheel γ := { w with tick := (w.tick + 1) % capacity }

variable [DecidableEq γ]

/-- Whether a slot has a shared pointer to the task: `lock` succeeds. -/
def Holds (w : TimerWheel γ) (tsp : TimerTask γ) : Prop :=
  ∃ pos ∈ List.range capacity, tsp ∈ w.wheel pos

instance (w : TimerWheel γ) (tsp : TimerTask γ) : Decidable (w.Holds tsp) :=
  inferInstanceAs (Decidable (∃ pos ∈ List.range capacity, tsp ∈ w.wheel pos))

/-- `RefreshTimerTaskInLoop`; it dereferences what `lock` returns. -/
def refreshTimerTaskInLoop (w : TimerWheel γ) (id : ℕ) : Option (TimerWheel γ) :=
  match w.timers id with
  | none => some w
  | some tsp => if w.Holds tsp then some (w.push tsp.timeout tsp) else none

/-- `CancelTimerTaskInLoop`. -/
def cancelTimerTaskInLoop (w : TimerWheel γ) (id : ℕ) : TimerWheel γ :=
  match w.timers id with
  | none => w
  | some tsp =>
      if w.Holds tsp then { w with is_cancel := Function.update w.is_cancel tsp.address true }
      else w

/-- The first pointer of the slot is gone. -/
def pop (w : TimerWheel γ) (rest : List (TimerTask γ)) : TimerWheel γ :=
  { w with wheel := Function.update w.wheel w.tick rest }

/-- `wheel_[tick_].clear()` for a slot with these pointers, with callbacks that leave the
wheel alone: the wheel, and the callbacks that ran. -/
def clear : List (TimerTask γ) → TimerWheel γ → TimerWheel γ × List γ
  | [], w => (w, [])
  | tsp :: rest, w =>
      let w := w.pop rest
      if w.Holds tsp then clear rest w
      else
        let callbacks := if w.is_cancel tsp.address then [] else [tsp.callback]
        let cleared := clear rest (w.releaseTimerTaskInLoop tsp.id)
        (cleared.1, callbacks ++ cleared.2)

/-- `Step`, with callbacks that leave the wheel alone. -/
def step (w : TimerWheel γ) : TimerWheel γ × List γ :=
  let w := w.advance
  clear (w.wheel w.tick) w

/-! ## Slots -/

omit [DecidableEq γ]

theorem holds_iff [DecidableEq γ] {w : TimerWheel γ} {tsp : TimerTask γ} :
    w.Holds tsp ↔ ∃ pos < capacity, tsp ∈ w.wheel pos := by
  simp only [Holds, List.mem_range]

/-- A slot behind a push. -/
theorem mem_wheel_push {w : TimerWheel γ} {timeout pos : ℕ} {tsp u : TimerTask γ} :
    u ∈ (w.push timeout tsp).wheel pos ↔
      u ∈ w.wheel pos ∨ (pos = (w.tick + timeout) % capacity ∧ u = tsp) := by
  by_cases hpos : pos = (w.tick + timeout) % capacity
  · subst hpos
    simp [push]
  · simp [push, hpos]

/-- A slot behind a new task. -/
theorem mem_wheel_addTimerTaskInLoop {w : TimerWheel γ} {id timeout pos : ℕ} {callback : γ}
    {u : TimerTask γ} : u ∈ (w.addTimerTaskInLoop id timeout callback).wheel pos ↔
      u ∈ w.wheel pos ∨
        (pos = (w.tick + timeout) % capacity ∧ u = w.newTask id timeout callback) :=
  mem_wheel_push

@[simp] theorem wheel_pop_self (w : TimerWheel γ) (rest : List (TimerTask γ)) :
    (w.pop rest).wheel w.tick = rest := Function.update_self _ _ _

theorem wheel_pop_of_ne {w : TimerWheel γ} {rest : List (TimerTask γ)} {pos : ℕ}
    (h : pos ≠ w.tick) : (w.pop rest).wheel pos = w.wheel pos := Function.update_of_ne h _ _

@[simp] theorem pop_pop (w : TimerWheel γ) (l l' : List (TimerTask γ)) :
    (w.pop l).pop l' = w.pop l' := by
  simp only [pop, Function.update_idem]

/-- The cursor after a step of the wheel. -/
theorem tick_advance {w : TimerWheel γ} {n : ℕ} (h : w.tick = n % capacity) :
    w.advance.tick = (n + 1) % capacity := by
  rw [advance, h, Nat.mod_add_mod]

/-- The slot a pointer is pushed to. -/
theorem tick_add {w : TimerWheel γ} {n : ℕ} (h : w.tick = n % capacity) (timeout : ℕ) :
    (w.tick + timeout) % capacity = (n + timeout) % capacity := by
  rw [h, Nat.mod_add_mod]

@[simp] theorem timers_releaseTimerTaskInLoop_self (w : TimerWheel γ) (id : ℕ) :
    (w.releaseTimerTaskInLoop id).timers id = none := Function.update_self _ _ _

theorem timers_releaseTimerTaskInLoop_of_ne {w : TimerWheel γ} {id id' : ℕ} (h : id' ≠ id) :
    (w.releaseTimerTaskInLoop id).timers id' = w.timers id' := Function.update_of_ne h _ _

variable [DecidableEq γ]

/-- **Clearing a slot of one task** that is held elsewhere destroys nothing. -/
theorem clear_of_held {t : TimerTask γ} {l : List (TimerTask γ)} {w : TimerWheel γ}
    (hslot : w.wheel w.tick = l) (hall : ∀ u ∈ l, u = t)
    (helsewhere : ∃ pos < capacity, pos ≠ w.tick ∧ t ∈ w.wheel pos) :
    clear l w = (w.pop [], []) := by
  induction l generalizing w with
  | nil =>
    have hpop : w.pop [] = w := by
      rw [pop, ← hslot, Function.update_eq_self]
    rw [clear, hpop]
  | cons u rest ih =>
    obtain rfl := hall u List.mem_cons_self
    obtain ⟨pos, hpos, hne, hmem⟩ := helsewhere
    have hmem' : u ∈ (w.pop rest).wheel pos := by
      rwa [wheel_pop_of_ne hne]
    have hrest := @ih (w.pop rest) (wheel_pop_self w rest)
      (fun v hv => hall v (List.mem_cons_of_mem _ hv)) ⟨pos, hpos, hne, hmem'⟩
    rw [clear, if_pos (holds_iff.mpr ⟨pos, hpos, hmem'⟩), hrest, pop_pop]

/-- **Clearing a slot of one task** that is held nowhere else destroys it. -/
theorem clear_of_last {t : TimerTask γ} {l : List (TimerTask γ)} {w : TimerWheel γ}
    (hslot : w.wheel w.tick = l) (hall : ∀ u ∈ l, u = t) (hne : l ≠ [])
    (htick : w.tick < capacity) (hnowhere : ∀ pos < capacity, pos ≠ w.tick → t ∉ w.wheel pos) :
    clear l w = ((w.pop []).releaseTimerTaskInLoop t.id,
      if w.is_cancel t.address then [] else [t.callback]) := by
  induction l generalizing w with
  | nil => exact absurd rfl hne
  | cons u rest ih =>
    obtain rfl := hall u List.mem_cons_self
    rcases rest with _ | ⟨v, rest⟩
    · have hgone : ¬ (w.pop []).Holds u := by
        rw [holds_iff]
        rintro ⟨pos, hpos, hmem⟩
        by_cases heq : pos = w.tick
        · rw [heq, wheel_pop_self] at hmem
          exact List.not_mem_nil hmem
        · rw [wheel_pop_of_ne heq] at hmem
          exact hnowhere pos hpos heq hmem
      rw [clear, if_neg hgone, clear]
      exact Prod.ext rfl (List.append_nil _)
    · obtain rfl := hall v (List.mem_cons_of_mem _ List.mem_cons_self)
      have hmem : v ∈ (w.pop (v :: rest)).wheel w.tick := by
        rw [wheel_pop_self]
        exact List.mem_cons_self
      have hrest := @ih (w.pop (v :: rest)) (wheel_pop_self w _)
        (fun u hu => hall u (List.mem_cons_of_mem _ hu)) (List.cons_ne_nil _ _) htick
        (fun pos hpos (hpos' : pos ≠ w.tick) => by
          rw [wheel_pop_of_ne hpos']
          exact hnowhere pos hpos hpos')
      rw [clear, if_pos (holds_iff.mpr ⟨w.tick, htick, hmem⟩), hrest, pop_pop]
      rfl

end TimerWheel

end Reactor
