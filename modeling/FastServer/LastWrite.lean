/-
# The last write counts

A loop goes over a list, and some of the elements write a value where the value of the one
before is lost.
-/
import Mathlib

section LastWrite

variable {α ν σ : Type*} {Writes : ν → α → Prop} {as as' : List α} {v v' : ν}

/-- Of the elements that write a value the last one writes `v`. -/
def LastWrite (Writes : ν → α → Prop) (as : List α) (v : ν) : Prop :=
  ∃ before a after, as = before ++ a :: after ∧ Writes v a ∧ ∀ b ∈ after, ∀ v', ¬ Writes v' b

theorem not_lastWrite_nil : ¬ LastWrite Writes [] v := by
  rintro ⟨before, a, after, hnil, -, -⟩
  simp at hnil

/-- The last element decides, or writes nothing. -/
theorem lastWrite_concat_iff (a : α) :
    LastWrite Writes (as ++ [a]) v ↔
      Writes v a ∨ (∀ v', ¬ Writes v' a) ∧ LastWrite Writes as v := by
  constructor
  · rintro ⟨before, b, after, heq, hb, hafter⟩
    rcases List.eq_nil_or_concat after with rfl | ⟨after, last, rfl⟩
    · left
      obtain ⟨-, hlast⟩ := List.append_inj' heq rfl
      rw [List.singleton_inj.mp hlast]
      exact hb
    · right
      rw [List.concat_eq_append, ← List.cons_append, ← List.append_assoc] at heq
      obtain ⟨rfl, hlast⟩ := List.append_inj' heq rfl
      rw [List.singleton_inj.mp hlast]
      rw [List.concat_eq_append] at hafter
      refine ⟨hafter last (by simp), before, b, after, rfl, hb, ?_⟩
      intro c hc
      exact hafter c (List.mem_append_left _ hc)
  · rintro (hlast | ⟨hnone, before, b, after, rfl, hb, hafter⟩)
    · exact ⟨as, a, [], rfl, hlast, by simp⟩
    · refine ⟨before, b, after ++ [a], by simp, hb, ?_⟩
      intro c hc
      rcases List.mem_append.mp hc with hmem | hmem
      · exact hafter c hmem
      · obtain rfl := List.mem_singleton.mp hmem
        exact hnone

/-- Elements behind that write nothing do not count. -/
theorem lastWrite_append_iff (h : ∀ a ∈ as', ∀ v, ¬ Writes v a) :
    LastWrite Writes (as ++ as') v ↔ LastWrite Writes as v := by
  induction as' using List.reverseRecOn with
  | nil => rw [List.append_nil]
  | append_singleton as' a ih =>
    have ha := h a (by simp)
    rw [← List.append_assoc, lastWrite_concat_iff, ih fun b hb => h b (by simp [hb])]
    simp [ha]

/-- If anything is written, there is a last write. -/
theorem exists_lastWrite (h : ∃ a ∈ as, ∃ v, Writes v a) : ∃ v, LastWrite Writes as v := by
  induction as using List.reverseRecOn with
  | nil => simp at h
  | append_singleton as last ih =>
    by_cases hlast : ∃ v, Writes v last
    · obtain ⟨v, hv⟩ := hlast
      exact ⟨v, (lastWrite_concat_iff last).mpr (Or.inl hv)⟩
    · push Not at hlast
      obtain ⟨a, hmem, v, hv⟩ := h
      have hbefore : a ∈ as := by
        rcases List.mem_append.mp hmem with hmem | hmem
        · exact hmem
        · rw [List.mem_singleton.mp hmem] at hv
          exact absurd hv (hlast v)
      obtain ⟨v', hv'⟩ := ih ⟨a, hbefore, v, hv⟩
      exact ⟨v', (lastWrite_concat_iff last).mpr (Or.inr ⟨hlast, hv'⟩)⟩

theorem LastWrite.exists_mem (h : LastWrite Writes as v) : ∃ a ∈ as, Writes v a := by
  obtain ⟨before, a, after, rfl, ha, -⟩ := h
  exact ⟨a, by simp, ha⟩

/-- The last write writes one value, if every element does. -/
theorem LastWrite.unique (hunique : ∀ a v v', Writes v a → Writes v' a → v = v')
    (h : LastWrite Writes as v) (h' : LastWrite Writes as v') : v = v' := by
  induction as using List.reverseRecOn with
  | nil => exact absurd h not_lastWrite_nil
  | append_singleton as last ih =>
    rw [lastWrite_concat_iff] at h h'
    rcases h with h | ⟨hnone, h⟩
    · rcases h' with h' | ⟨hnone', -⟩
      · exact hunique last v v' h h'
      · exact absurd h (hnone' v)
    · rcases h' with h' | ⟨-, h'⟩
      · exact absurd h' (hnone v')
      · exact ih h h'

/-- **What a loop leaves behind** is the last write, if each turn writes a value or keeps the one
that is there. -/
theorem foldl_eq_some_iff {step : σ → α → σ} {get : σ → Option ν} {s : σ}
    (hstep : ∀ s a, (∃ v, Writes v a ∧ get (step s a) = some v) ∨
      (∀ v, ¬ Writes v a) ∧ get (step s a) = get s)
    (hunique : ∀ a v v', Writes v a → Writes v' a → v = v') (hs : get s = none) :
    get (as.foldl step s) = some v ↔ LastWrite Writes as v := by
  induction as using List.reverseRecOn with
  | nil =>
    rw [List.foldl_nil, hs]
    exact iff_of_false (Option.some_ne_none v).symm not_lastWrite_nil
  | append_singleton as a ih =>
    rw [List.foldl_append, List.foldl_cons, List.foldl_nil, lastWrite_concat_iff]
    rcases hstep (as.foldl step s) a with ⟨v', ha, hset⟩ | ⟨hnone, hsame⟩
    · rw [hset, Option.some_inj]
      constructor
      · rintro rfl
        exact Or.inl ha
      · rintro (hlast | ⟨hnone, -⟩)
        · exact hunique a v' v ha hlast
        · exact absurd ha (hnone v')
    · rw [hsame, ih]
      simp [hnone]

end LastWrite
