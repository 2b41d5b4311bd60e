/-
# The prefix-sum maps

What `bidPrefixSum` and `askPrefixSum` hold: under a level's key, the quantity of
the levels before it, and under a sentinel key after all levels, the total.
`lower_bound` then reads off the quantity before any price.
-/
import FastServer.OrderBook
import FastServer.PriorityFill

namespace Obr

open CallAuction PriorityFill

/-! ## Levels as lots -/

/-- The levels of a map as lots under their keys. -/
def keyLots (levels : List (ℕ × PriceLevel)) : List (ℕ × ℕ) :=
  levels.map (fun e => (e.1, e.2.quantity))

/-- Total quantity of the levels. -/
def totalQuantity (levels : List (ℕ × PriceLevel)) : ℕ := ((keyLots levels).map Prod.snd).sum

theorem totalQuantity_cons (e : ℕ × PriceLevel) (es : List (ℕ × PriceLevel)) :
    totalQuantity (e :: es) = e.2.quantity + totalQuantity es := by
  simp [totalQuantity, keyLots]

theorem keyLots_cons (e : ℕ × PriceLevel) (es : List (ℕ × PriceLevel)) :
    keyLots (e :: es) = (e.1, e.2.quantity) :: keyLots es := rfl

/-- Running totals of the levels before each key. -/
def runningSums : List (ℕ × PriceLevel) → ℕ → List (ℕ × ℕ)
  | [], _ => []
  | e :: es, acc => (e.1, acc) :: runningSums es (acc + e.2.quantity)

section Sums

variable {lt : ℕ → ℕ → Prop} [DecidableRel lt] [IsStrictTotalOrder ℕ lt]

/-- Keys of the running sums are keys of the levels. -/
theorem exists_level_of_mem_runningSums {x : ℕ × ℕ} :
    ∀ {levels : List (ℕ × PriceLevel)} {acc : ℕ}, x ∈ runningSums levels acc →
      ∃ e ∈ levels, e.1 = x.1
  | e :: es, acc, h => by
      rcases List.mem_cons.mp h with rfl | h
      · exact ⟨e, List.mem_cons_self, rfl⟩
      · obtain ⟨e', he', hk⟩ := exists_level_of_mem_runningSums h
        exact ⟨e', List.mem_cons_of_mem _ he', hk⟩

/-- Behind a first level, no key is before the first. -/
theorem mass_before_head {e : ℕ × PriceLevel} {es : List (ℕ × PriceLevel)} {x : ℕ}
    (hs : ∀ e' ∈ es, lt e.1 e'.1) (hx : ¬ lt e.1 x) : mass (keyLots (e :: es)) (lt · x) = 0 := by
  apply mass_eq_zero
  intro y hy hlt
  obtain ⟨e', he', rfl⟩ := List.mem_map.mp hy
  rcases List.mem_cons.mp he' with rfl | he'
  · exact hx hlt
  · exact hx (trans_of lt (hs e' he') hlt)

/-- **The running sums.**  Under a key stands the quantity of the levels before
it. -/
theorem snd_of_mem_runningSums {x : ℕ × ℕ} :
    ∀ {levels : List (ℕ × PriceLevel)} {acc : ℕ},
      levels.Pairwise (fun a b => lt a.1 b.1) → x ∈ runningSums levels acc →
      x.2 = acc + mass (keyLots levels) (lt · x.1)
  | e :: es, acc, hs, h => by
      obtain ⟨he, hes⟩ := List.pairwise_cons.mp hs
      rcases List.mem_cons.mp h with rfl | h
      · rw [mass_before_head he (irrefl_of lt e.1)]
        rfl
      · obtain ⟨e', he', hk⟩ := exists_level_of_mem_runningSums h
        have hlt : lt e.1 x.1 := hk ▸ he e' he'
        rw [snd_of_mem_runningSums hes h, keyLots_cons, mass_cons, if_pos hlt]
        omega

/-- The loop that fills a prefix-sum map appends the running sums. -/
theorem foldl_prefixSumStep :
    ∀ (levels : List (ℕ × PriceLevel)) (m : SortedMap lt ℕ) (acc : ℕ),
      levels.Pairwise (fun a b => lt a.1 b.1) → (∀ x ∈ m.entries, ∀ e ∈ levels, lt x.1 e.1) →
      acc + totalQuantity levels < 2 ^ 64 →
      (levels.foldl (prefixSumStep lt) (m, acc)).1.entries = m.entries ++ runningSums levels acc ∧
        (levels.foldl (prefixSumStep lt) (m, acc)).2 = acc + totalQuantity levels
  | [], m, acc, _, _, _ => by simp [runningSums, totalQuantity, keyLots]
  | e :: es, m, acc, hs, hm, ht => by
      obtain ⟨he, hes⟩ := List.pairwise_cons.mp hs
      rw [totalQuantity_cons] at ht
      have hent := SortedMap.entries_upsert_of_forall_lt (m := m) 0 (fun _ => acc)
        (fun x hx => hm x hx e List.mem_cons_self)
      have hacc : toU64 ((acc : ℤ) + e.2.quantity) = acc + e.2.quantity := by
        rw [← Nat.cast_add, toU64_natCast (by omega)]
      have hm' : ∀ x ∈ (m.upsert e.1 0 (fun _ => acc)).entries, ∀ e' ∈ es, lt x.1 e'.1 := by
        intro x hx e' he'
        rw [hent] at hx
        rcases List.mem_append.mp hx with hx | hx
        · exact hm x hx e' (List.mem_cons_of_mem _ he')
        · rw [List.mem_singleton] at hx
          subst hx
          exact he e' he'
      obtain ⟨h1, h2⟩ := foldl_prefixSumStep es (m.upsert e.1 0 (fun _ => acc))
        (acc + e.2.quantity) hes hm' (by omega)
      rw [List.foldl_cons, prefixSumStep, hacc]
      refine ⟨?_, ?_⟩
      · rw [h1, hent, List.append_assoc]
        rfl
      · rw [h2, totalQuantity_cons]
        omega

/-- The levels before a key. -/
def levelsBefore (lt : ℕ → ℕ → Prop) [DecidableRel lt] (x : ℕ) (levels : List (ℕ × PriceLevel)) :
    List (ℕ × PriceLevel) :=
  levels.filter fun e => lt e.1 x

omit [IsStrictTotalOrder ℕ lt] in
theorem mem_levelsBefore {levels : List (ℕ × PriceLevel)} {x : ℕ} {e : ℕ × PriceLevel} :
    e ∈ levelsBefore lt x levels ↔ e ∈ levels ∧ lt e.1 x := by
  rw [levelsBefore, List.mem_filter, decide_eq_true_eq]

/-- Behind the levels before the last key stands a level under that key or none. -/
theorem eq_levelsBefore_append {sentinel : ℕ} :
    ∀ {levels : List (ℕ × PriceLevel)}, levels.Pairwise (fun a b => lt a.1 b.1) →
      (∀ e ∈ levels, ¬ lt sentinel e.1) →
      levels = levelsBefore lt sentinel levels ∨
        ∃ l, levels = levelsBefore lt sentinel levels ++ [(sentinel, l)]
  | [], _, _ => Or.inl rfl
  | e :: es, hs, hsent => by
      obtain ⟨he, hes⟩ := List.pairwise_cons.mp hs
      by_cases hlt : lt e.1 sentinel
      · have hcons : levelsBefore lt sentinel (e :: es) = e :: levelsBefore lt sentinel es :=
          List.filter_cons_of_pos (by simpa using hlt)
        rw [hcons]
        rcases eq_levelsBefore_append hes fun e' he' => hsent e' (List.mem_cons_of_mem _ he') with
          h | ⟨l, h⟩
        · exact Or.inl (congrArg (e :: ·) h)
        · exact Or.inr ⟨l, congrArg (e :: ·) h⟩
      · have heq : e.1 = sentinel :=
          (trichotomous_of lt e.1 sentinel).resolve_left hlt |>.resolve_right
            (hsent e List.mem_cons_self)
        have hnil : es = [] := by
          rw [List.eq_nil_iff_forall_not_mem]
          intro e' he'
          exact hsent e' (List.mem_cons_of_mem _ he') (heq ▸ he e' he')
        have hbefore : levelsBefore lt sentinel (e :: es) = [] := by
          rw [hnil]
          exact List.filter_cons_of_neg (by simpa using hlt)
        rw [hbefore, hnil, ← heq]
        exact Or.inr ⟨e.2, rfl⟩

/-- **The prefix-sum map**, in iteration order.  A level under the sentinel key gives way to the
sentinel, which holds the total. -/
theorem prefixSum_entries (lt : ℕ → ℕ → Prop) [DecidableRel lt] [IsStrictTotalOrder ℕ lt]
    {levels : List (ℕ × PriceLevel)} (sentinel : ℕ)
    (hs : levels.Pairwise (fun a b => lt a.1 b.1)) (hsent : ∀ e ∈ levels, ¬ lt sentinel e.1)
    (ht : totalQuantity levels < 2 ^ 64) :
    (prefixSum lt sentinel levels).entries
      = runningSums (levelsBefore lt sentinel levels) 0 ++ [(sentinel, totalQuantity levels)] := by
  have hbefore : (levelsBefore lt sentinel levels).Pairwise fun a b => lt a.1 b.1 :=
    hs.sublist List.filter_sublist
  have hlast : ∀ x ∈ runningSums (levelsBefore lt sentinel levels) 0, lt x.1 sentinel := by
    intro x hx
    obtain ⟨e, he, hk⟩ := exists_level_of_mem_runningSums hx
    exact hk ▸ (mem_levelsBefore.mp he).2
  have hclose : ∀ (m : SortedMap lt ℕ) (total : ℕ),
      m.entries = runningSums (levelsBefore lt sentinel levels) 0 →
      total = totalQuantity levels →
      (m.upsert sentinel 0 fun _ => total).entries
        = runningSums (levelsBefore lt sentinel levels) 0
          ++ [(sentinel, totalQuantity levels)] := by
    intro m total h1 h2
    rw [SortedMap.entries_upsert_of_forall_lt _ _ (h1 ▸ hlast), h1, h2]
  have hfold := foldl_prefixSumStep (levelsBefore lt sentinel levels) SortedMap.empty 0 hbefore
    (fun x hx => absurd hx List.not_mem_nil)
  rw [zero_add] at hfold
  rcases eq_levelsBefore_append hs hsent with heq | ⟨l, heq⟩
  · obtain ⟨h1, h2⟩ := hfold (heq ▸ ht)
    rw [← heq] at h1 h2 hclose ⊢
    exact hclose _ _ h1 h2
  · -- the step of the last level writes under the sentinel key first
    have htotal : totalQuantity levels
        = totalQuantity (levelsBefore lt sentinel levels) + l.quantity := by
      conv_lhs => rw [heq]
      simp [totalQuantity, keyLots]
    obtain ⟨h1, h2⟩ := hfold (by omega)
    have hsplit : levels.foldl (prefixSumStep lt) (SortedMap.empty, 0)
        = prefixSumStep lt ((levelsBefore lt sentinel levels).foldl (prefixSumStep lt)
            (SortedMap.empty, 0)) (sentinel, l) := by
      conv_lhs => rw [heq]
      rw [List.foldl_append]
      rfl
    show (SortedMap.upsert _ sentinel 0 _).entries = _
    rw [hsplit, prefixSumStep, SortedMap.upsert_const_upsert]
    apply hclose _ _ h1
    simp only [h2]
    rw [htotal, ← Nat.cast_add, toU64_natCast (by omega)]

theorem hasKey_foldl_prefixSumStep (levels : List (ℕ × PriceLevel)) (acc : SortedMap lt ℕ × ℕ)
    {k : ℕ} : (levels.foldl (prefixSumStep lt) acc).1.HasKey k ↔
      (∃ e ∈ levels, e.1 = k) ∨ acc.1.HasKey k := by
  induction levels generalizing acc with
  | nil => simp
  | cons e es ih =>
    rw [List.foldl_cons, ih, prefixSumStep, SortedMap.hasKey_upsert, List.exists_mem_cons_iff,
      eq_comm (a := k), or_left_comm, or_assoc]

/-- A prefix-sum map has the keys of its levels and the sentinel. -/
theorem hasKey_prefixSum {levels : List (ℕ × PriceLevel)} {sentinel k : ℕ} :
    (prefixSum lt sentinel levels).HasKey k ↔ k = sentinel ∨ ∃ e ∈ levels, e.1 = k := by
  unfold prefixSum
  rw [SortedMap.hasKey_upsert, hasKey_foldl_prefixSumStep]
  simp [SortedMap.not_hasKey_empty]

/-- What a prefix-sum map holds for a price: the quantity before it, and the level under the
sentinel key as well once no other level is at the price or behind it. -/
def sumBefore (lt : ℕ → ℕ → Prop) [DecidableRel lt] (sentinel : ℕ)
    (levels : List (ℕ × PriceLevel)) (x : ℕ) : ℕ :=
  mass (keyLots levels) (lt · x) +
    if ∀ e ∈ levels, lt e.1 sentinel → lt e.1 x then mass (keyLots levels) (· = sentinel) else 0

/-- **`lower_bound` among running sums**, closed by a sentinel.  The entry found holds the
quantity before `x`, unless it is the sentinel, and its key is `x` exactly if `x` is the key of a
level or the sentinel. -/
theorem find?_runningSums {x sentinel : ℕ} (total : ℕ) (hx : ¬ lt sentinel x) :
    ∀ (levels : List (ℕ × PriceLevel)) (acc : ℕ), levels.Pairwise (fun a b => lt a.1 b.1) →
      (∀ e ∈ levels, lt e.1 sentinel) →
      ∃ k, (runningSums levels acc ++ [(sentinel, total)]).find? (fun e => ¬ lt e.1 x)
          = some (k, if ∀ e ∈ levels, lt e.1 x then total
              else acc + mass (keyLots levels) (lt · x)) ∧
        (k = x ↔ (∃ e ∈ levels, e.1 = x) ∨ sentinel = x)
  | [], acc, _, _ => by
      refine ⟨sentinel, ?_, ?_⟩
      · simp [runningSums, hx]
      · simp
  | e :: es, acc, hs, hsent => by
      obtain ⟨he, hes⟩ := List.pairwise_cons.mp hs
      rw [runningSums, List.cons_append]
      by_cases hlt : lt e.1 x
      · obtain ⟨k, hk, hkx⟩ := find?_runningSums total hx es (acc + e.2.quantity) hes
          fun e' he' => hsent e' (List.mem_cons_of_mem _ he')
        refine ⟨k, ?_, ?_⟩
        · rw [List.find?_cons_of_neg (by simpa using hlt), hk, keyLots_cons, mass_cons, if_pos hlt,
            ← add_assoc]
          simp only [List.forall_mem_cons, hlt, true_and]
        · rw [hkx, List.exists_mem_cons_iff]
          have hne : e.1 ≠ x := fun h => irrefl_of lt x (h ▸ hlt)
          simp only [hne, false_or]
      · refine ⟨e.1, ?_, ?_⟩
        · rw [List.find?_cons_of_pos (by simpa using hlt), mass_before_head he hlt,
            if_neg fun hall => hlt (hall e List.mem_cons_self)]
          rfl
        · rw [List.exists_mem_cons_iff, or_assoc]
          refine ⟨Or.inl, ?_⟩
          rintro (h | ⟨e', he', rfl⟩ | rfl)
          · exact h
          · exact absurd (he e' he') hlt
          · exact absurd (hsent e List.mem_cons_self) hlt

/-- What stands before a price that is not behind the sentinel stands before the sentinel. -/
theorem mass_levelsBefore {levels : List (ℕ × PriceLevel)} {sentinel x : ℕ}
    (hs : levels.Pairwise (fun a b => lt a.1 b.1)) (hsent : ∀ e ∈ levels, ¬ lt sentinel e.1)
    (hx : ¬ lt sentinel x) :
    mass (keyLots (levelsBefore lt sentinel levels)) (lt · x) = mass (keyLots levels) (lt · x) := by
  rcases eq_levelsBefore_append hs hsent with heq | ⟨l, heq⟩
  · rw [← heq]
  · conv_rhs => rw [heq, keyLots, List.map_append, ← keyLots]
    rw [mass_append_of_forall]
    intro y hy
    rw [List.map_singleton, List.mem_singleton] at hy
    exact hy ▸ hx

/-- Once all levels before the sentinel are before `x`, only the level under it is not. -/
theorem mass_before_add_last {levels : List (ℕ × PriceLevel)} {sentinel x : ℕ}
    (hsent : ∀ e ∈ levels, ¬ lt sentinel e.1) (hx : ¬ lt sentinel x)
    (hall : ∀ e ∈ levels, lt e.1 sentinel → lt e.1 x) :
    mass (keyLots levels) (lt · x) + mass (keyLots levels) (· = sentinel)
      = totalQuantity levels := by
  have hsplit : mass (keyLots levels) (fun k => lt k x ∨ k = sentinel)
      = mass (keyLots levels) (lt · x) + mass (keyLots levels) (· = sentinel) :=
    mass_or (fun _ _ => Iff.rfl) fun _ _ h => hx (h.2 ▸ h.1)
  rw [← hsplit, mass_eq_sum]
  · rfl
  · intro y hy
    obtain ⟨e, he, rfl⟩ := List.mem_map.mp hy
    rcases trichotomous_of lt e.1 sentinel with h | h | h
    · exact Or.inl (hall e he h)
    · exact Or.inr h
    · exact absurd h (hsent e he)

/-- **`lower_bound` on a prefix-sum map** never runs off the end. -/
theorem lowerBound_prefixSum (lt : ℕ → ℕ → Prop) [DecidableRel lt] [IsStrictTotalOrder ℕ lt]
    {levels : List (ℕ × PriceLevel)} (sentinel x : ℕ)
    (hs : levels.Pairwise (fun a b => lt a.1 b.1)) (hsent : ∀ e ∈ levels, ¬ lt sentinel e.1)
    (ht : totalQuantity levels < 2 ^ 64) (hx : ¬ lt sentinel x) :
    ∃ k, (prefixSum lt sentinel levels).lowerBound x
        = some (k, sumBefore lt sentinel levels x) ∧
      (k = x ↔ (∃ e ∈ levels, e.1 = x) ∨ sentinel = x) := by
  obtain ⟨k, hk, hkx⟩ := find?_runningSums (totalQuantity levels) hx
    (levelsBefore lt sentinel levels) 0 (hs.sublist List.filter_sublist)
    fun e he => (mem_levelsBefore.mp he).2
  refine ⟨k, ?_, ?_⟩
  · have hsum : sumBefore lt sentinel levels x
        = if ∀ e ∈ levelsBefore lt sentinel levels, lt e.1 x then totalQuantity levels
          else 0 + mass (keyLots (levelsBefore lt sentinel levels)) (lt · x) := by
      rw [zero_add, mass_levelsBefore hs hsent hx, sumBefore]
      simp only [mem_levelsBefore, and_imp]
      split_ifs with hall
      · exact mass_before_add_last hsent hx hall
      · rw [add_zero]
    rw [SortedMap.lowerBound, prefixSum_entries lt sentinel hs hsent ht, hsum]
    simpa using hk
  · rw [hkx]
    apply or_congr_left'
    intro hne
    constructor
    · rintro ⟨e, he, hex⟩
      exact ⟨e, (mem_levelsBefore.mp he).1, hex⟩
    · rintro ⟨e, he, rfl⟩
      refine ⟨e, mem_levelsBefore.mpr ⟨he, ?_⟩, rfl⟩
      exact (trichotomous_of lt e.1 sentinel).resolve_right
        fun h => h.elim (fun heq => hne heq.symm) (hsent e he)

end Sums

end Obr
