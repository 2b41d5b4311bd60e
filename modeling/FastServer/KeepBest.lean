/-
# Scanning for the best candidate

A scan that keeps the best acceptable candidate seen so far, under any strict
order of "better".
-/
import Mathlib

namespace KeepBest

variable {α β : Type*} (better : β → β → Prop) [DecidableRel better]
  (ok : α → Prop) [DecidablePred ok] (f : α → β)

/-- One step of the scan: an acceptable candidate replaces a worse best. -/
def keep (best : β) (a : α) : β :=
  if ok a then (if better (f a) best then f a else best) else best

/-- The result of a scan is the initial value or an accepted candidate. -/
theorem foldl_keep_mem (init : β) (as : List α) :
    as.foldl (keep better ok f) init = init ∨
      ∃ a ∈ as, ok a ∧ as.foldl (keep better ok f) init = f a := by
  induction as generalizing init with
  | nil => exact Or.inl rfl
  | cons a as ih =>
      rw [List.foldl_cons]
      rcases ih (keep better ok f init a) with h | ⟨b, hb, hok, h⟩
      · rw [h, keep]
        split_ifs with h1 h2
        · exact Or.inr ⟨a, List.mem_cons_self, h1, rfl⟩
        · exact Or.inl rfl
        · exact Or.inl rfl
      · exact Or.inr ⟨b, List.mem_cons_of_mem _ hb, hok, h⟩

/-- Without an accepted candidate the initial value stays. -/
theorem foldl_keep_eq_init (init : β) {as : List α} (h : ∀ a ∈ as, ¬ ok a) :
    as.foldl (keep better ok f) init = init := by
  rcases foldl_keep_mem better ok f init as with heq | ⟨a, ha, hok, -⟩
  · exact heq
  · exact absurd hok (h a ha)

/-- Initial values that every accepted candidate beats are forgotten: if some
candidate is accepted, the result does not depend on them. -/
theorem foldl_keep_congr {i j : β} {as : List α} (hex : ∃ a ∈ as, ok a)
    (hi : ∀ a ∈ as, ok a → better (f a) i) (hj : ∀ a ∈ as, ok a → better (f a) j) :
    as.foldl (keep better ok f) i = as.foldl (keep better ok f) j := by
  induction as with
  | nil =>
      obtain ⟨a, ha, -⟩ := hex
      simp at ha
  | cons a as ih =>
      rw [List.foldl_cons, List.foldl_cons]
      by_cases hok : ok a
      · rw [keep, keep, if_pos hok, if_pos hok, if_pos (hi a List.mem_cons_self hok),
          if_pos (hj a List.mem_cons_self hok)]
      · rw [keep, keep, if_neg hok, if_neg hok]
        refine ih ?_ (fun b hb => hi b (List.mem_cons_of_mem _ hb))
          (fun b hb => hj b (List.mem_cons_of_mem _ hb))
        obtain ⟨b, hb, hokb⟩ := hex
        rcases List.mem_cons.mp hb with rfl | hb
        · exact absurd hokb hok
        · exact ⟨b, hb, hokb⟩

section Order

variable [IsStrictOrder β better]

/-- Whatever is not better than the best stays so after a step. -/
theorem not_better_keep {x best : β} (h : ¬ better x best) (a : α) :
    ¬ better x (keep better ok f best a) := by
  unfold keep
  split_ifs with h1 h2
  · exact fun hx => h (trans_of better hx h2)
  · exact h
  · exact h

/-- An accepted candidate is not better than the best after its own step. -/
theorem not_better_keep_self {best : β} {a : α} (hok : ok a) :
    ¬ better (f a) (keep better ok f best a) := by
  unfold keep
  rw [if_pos hok]
  split_ifs with h
  · exact irrefl_of better (f a)
  · exact h

/-- Whatever is not better than the initial value is not better than the result. -/
theorem not_better_foldl {x : β} (init : β) (as : List α) (h : ¬ better x init) :
    ¬ better x (as.foldl (keep better ok f) init) := by
  induction as generalizing init with
  | nil => exact h
  | cons a as ih => exact ih _ (not_better_keep better ok f h a)

/-- **The scan finds a best candidate.**  No accepted candidate is better than
the result. -/
theorem foldl_keep_max (init : β) (as : List α) {a : α} (ha : a ∈ as) (hok : ok a) :
    ¬ better (f a) (as.foldl (keep better ok f) init) := by
  induction as generalizing init with
  | nil => simp at ha
  | cons b as ih =>
      rcases List.mem_cons.mp ha with rfl | ha
      · exact not_better_foldl better ok f _ as (not_better_keep_self better ok f hok)
      · exact ih _ ha

/-- A candidate that beats the initial value and every other accepted one is the result. -/
theorem foldl_keep_eq {init : β} {as : List α} {a : α} (ha : a ∈ as) (hok : ok a)
    (hinit : better (f a) init) (hbest : ∀ b ∈ as, ok b → f b = f a ∨ better (f a) (f b)) :
    as.foldl (keep better ok f) init = f a := by
  have hmax := foldl_keep_max better ok f init as ha hok
  rcases foldl_keep_mem better ok f init as with heq | ⟨b, hb, hokb, heq⟩
  · rw [heq] at hmax
    exact absurd hinit hmax
  · rw [heq] at hmax ⊢
    exact (hbest b hb hokb).resolve_right hmax

/-- **Ties go to the first.**  If whatever beats `b` also beats what does not beat `b`, the
result beats every accepted candidate before it. -/
theorem foldl_keep_first (hweak : ∀ {a b x}, better a b → ¬ better x b → better a x) (init : β)
    (as : List α) :
    as.foldl (keep better ok f) init = init ∨
      ∃ pre a post, as = pre ++ a :: post ∧ ok a ∧ as.foldl (keep better ok f) init = f a ∧
        ∀ x ∈ pre, ok x → better (f a) (f x) := by
  induction as using List.reverseRecOn with
  | nil => exact Or.inl rfl
  | append_singleton as c ih =>
    rw [List.foldl_append, List.foldl_cons, List.foldl_nil]
    by_cases hc : ok c ∧ better (f c) (as.foldl (keep better ok f) init)
    · -- the last candidate is taken: no accepted one before it is as good
      obtain ⟨hok, hbetter⟩ := hc
      refine Or.inr ⟨as, c, [], rfl, hok, ?_, ?_⟩
      · rw [keep, if_pos hok, if_pos hbetter]
      · intro x hx hokx
        exact hweak hbetter (foldl_keep_max better ok f init as hx hokx)
    · have hkeep : keep better ok f (as.foldl (keep better ok f) init) c
          = as.foldl (keep better ok f) init := by
        rw [keep]
        split_ifs with hok hbetter
        · exact absurd ⟨hok, hbetter⟩ hc
        · rfl
        · rfl
      rw [hkeep]
      rcases ih with h | ⟨pre, a, post, rfl, hok, hres, hpre⟩
      · exact Or.inl h
      · exact Or.inr ⟨pre, a, post ++ [c], by simp, hok, hres, hpre⟩

end Order

end KeepBest
