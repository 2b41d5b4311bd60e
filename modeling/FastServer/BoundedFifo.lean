/-
# Bounded queues

What a first-in first-out queue of bounded length may answer to the calls made to it, and
what follows for the items accepted and returned.
-/
import Mathlib

namespace BoundedFifo

variable {α : Type*}

/-- What a call was answered: an item was accepted, or refused because the queue was full; an
item was returned, or there was none. -/
inductive Answer (α : Type*)
  | enqueued (item : α)
  | full
  | dequeued (item : α)
  | empty
deriving DecidableEq

/-- An answer of the queue that holds some items, and the items that it holds then. -/
inductive Step (bound : ℕ) : List α → Answer α → List α → Prop
  | enqueued {items : List α} (item : α) :
      items.length < bound → Step bound items (.enqueued item) (items ++ [item])
  | full {items : List α} : items.length = bound → Step bound items .full items
  | dequeued (item : α) (items : List α) : Step bound (item :: items) (.dequeued item) items
  | empty : Step bound [] .empty []

/-- The answers that an empty queue gives one after the other, and the items it holds then. -/
inductive Trace (bound : ℕ) : List (Answer α) → List α → Prop
  | nil : Trace bound [] []
  | concat {answers : List (Answer α)} {items items' : List α} {answer : Answer α} :
      Trace bound answers items → Step bound items answer items' →
      Trace bound (answers ++ [answer]) items'

/-! ## Items accepted and returned -/

/-- The item that was accepted, if one was. -/
def Answer.accepted : Answer α → Option α
  | .enqueued item => some item
  | _ => none

/-- The item that was returned, if one was. -/
def Answer.returned : Answer α → Option α
  | .dequeued item => some item
  | _ => none

/-- The items accepted, in order. -/
def accepted (answers : List (Answer α)) : List α := answers.filterMap Answer.accepted

/-- The items returned, in order. -/
def returned (answers : List (Answer α)) : List α := answers.filterMap Answer.returned

@[simp] theorem accepted_concat (answers : List (Answer α)) (answer : Answer α) :
    accepted (answers ++ [answer]) = accepted answers ++ answer.accepted.toList := by
  rw [accepted, List.filterMap_append]
  cases answer <;> rfl

@[simp] theorem returned_concat (answers : List (Answer α)) (answer : Answer α) :
    returned (answers ++ [answer]) = returned answers ++ answer.returned.toList := by
  rw [returned, List.filterMap_append]
  cases answer <;> rfl

namespace Trace

variable {bound : ℕ} {answers : List (Answer α)} {items : List α}

/-- **First in, first out**: the items accepted are those returned and those held. -/
theorem accepted_eq (h : Trace bound answers items) :
    accepted answers = returned answers ++ items := by
  induction h with
  | nil => rfl
  | concat _ hstep ih =>
    rw [accepted_concat, returned_concat, ih]
    cases hstep with
    | enqueued item _ => simp [Answer.accepted, Answer.returned]
    | full _ => simp [Answer.accepted, Answer.returned]
    | dequeued item items => simp [Answer.accepted, Answer.returned]
    | empty => simp [Answer.accepted, Answer.returned]

/-- The items returned are the first ones accepted. -/
theorem returned_prefix (h : Trace bound answers items) :
    returned answers <+: accepted answers :=
  ⟨items, h.accepted_eq.symm⟩

/-- The answers tell what is held. -/
theorem items_eq {items' : List α} (h : Trace bound answers items)
    (h' : Trace bound answers items') : items = items' :=
  List.append_cancel_left (h.accepted_eq.symm.trans h'.accepted_eq)

/-- No more items are held than the bound. -/
theorem length_le (h : Trace bound answers items) : items.length ≤ bound := by
  induction h with
  | nil => exact Nat.zero_le bound
  | concat _ hstep ih =>
    cases hstep with
    | enqueued item hroom => simpa using hroom
    | full _ => exact ih
    | dequeued item items => exact Nat.le_of_succ_le ih
    | empty => exact Nat.zero_le bound

/-- A queue that says that it is empty has returned everything that it accepted. -/
theorem all_returned (h : Trace bound (answers ++ [.empty]) items) :
    accepted answers = returned answers := by
  generalize hall : answers ++ [.empty] = all at h
  cases h with
  | nil => exact absurd hall (by simp)
  | concat htrace hstep =>
    obtain ⟨rfl, hlast⟩ := List.append_inj' hall rfl
    obtain rfl := List.singleton_inj.mp hlast
    cases hstep with
    | empty => simpa using htrace.accepted_eq

end Trace

end BoundedFifo
