/-
# Conserved things

Things that move between places.  What all places hold together does not change when a
thing is taken from one place and put into another; and if no thing was there twice at
first, each stays in exactly one place.
-/
import Mathlib

namespace Conservation

variable {place α : Type*} [Fintype place] {held held' : place → List α}

/-- What all places hold together. -/
def everything (held : place → List α) : Multiset α := ∑ p, (held p : Multiset α)

theorem mem_everything {x : α} : x ∈ everything held ↔ ∃ p, x ∈ held p := by
  simp [everything]

theorem everything_congr (h : ∀ p, held' p = held p) : everything held' = everything held :=
  Finset.sum_congr rfl fun p _ => congrArg _ (h p)

/-- **A thing moves** from one place to another. -/
theorem everything_move [DecidableEq place] {p q : place} {x : α} (hne : p ≠ q)
    (hp : (held p).Perm (x :: held' p)) (hq : (held' q).Perm (x :: held q))
    (hother : ∀ r, r ≠ p → r ≠ q → held' r = held r) : everything held' = everything held := by
  have hq' : q ∈ Finset.univ.erase p := Finset.mem_erase.mpr ⟨hne.symm, Finset.mem_univ q⟩
  have hsplit : ∀ f : place → List α, everything f = (f p : Multiset α)
      + ((f q : Multiset α) + ∑ r ∈ (Finset.univ.erase p).erase q, (f r : Multiset α)) := by
    intro f
    rw [Finset.add_sum_erase _ (fun r => (f r : Multiset α)) hq',
      Finset.add_sum_erase _ (fun r => (f r : Multiset α)) (Finset.mem_univ p)]
    rfl
  have hrest : ∑ r ∈ (Finset.univ.erase p).erase q, (held' r : Multiset α)
      = ∑ r ∈ (Finset.univ.erase p).erase q, (held r : Multiset α) := by
    apply Finset.sum_congr rfl
    intro r hr
    have hrq := Finset.mem_erase.mp hr
    rw [hother r (Finset.mem_erase.mp hrq.2).1 hrq.1]
  have hp : (held p : Multiset α) = {x} + (held' p : Multiset α) := Multiset.coe_eq_coe.mpr hp
  have hq : (held' q : Multiset α) = {x} + (held q : Multiset α) := Multiset.coe_eq_coe.mpr hq
  rw [hsplit, hsplit, hrest, hp, hq]
  abel

/-- What a place holds is part of everything. -/
theorem held_le_everything (held : place → List α) (p : place) :
    (held p : Multiset α) ≤ everything held :=
  Finset.single_le_sum (f := fun p => (held p : Multiset α)) (fun _ _ => Multiset.zero_le _)
    (Finset.mem_univ p)

/-- A place holds nothing twice. -/
theorem nodup_held (h : (everything held).Nodup) (p : place) : (held p).Nodup :=
  Multiset.coe_nodup.mp (Multiset.nodup_of_le (held_le_everything held p) h)

/-- **Each thing is in exactly one place.** -/
theorem existsUnique_place (h : (everything held).Nodup) {x : α} (hx : x ∈ everything held) :
    ∃! p, x ∈ held p := by
  classical
  obtain ⟨p, hp⟩ := mem_everything.mp hx
  refine ⟨p, hp, fun q hq => ?_⟩
  by_contra hne
  have hpair : ((held p : Multiset α) + (held q : Multiset α)) ≤ everything held := by
    rw [everything, ← Finset.add_sum_erase _ _ (Finset.mem_univ p)]
    apply add_le_add_right
    exact Finset.single_le_sum (f := fun p => (held p : Multiset α))
      (fun _ _ => Multiset.zero_le _) (Finset.mem_erase.mpr ⟨hne, Finset.mem_univ q⟩)
  have hnodup := Multiset.nodup_of_le hpair h
  exact Multiset.disjoint_left.mp (Multiset.nodup_add.mp hnodup).2.2 hp hq

end Conservation
