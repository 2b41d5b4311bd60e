/-
# Ordered associative containers

`std::set` and `std::map` as lists kept sorted by their comparator.  The
comparator is a parameter, so one development serves ascending maps, descending
maps and sets whose comparator looks at one field only.  Two elements neither
of which is before the other are equivalent, and a container never holds both.
-/
import Mathlib

/-! ## Sets -/

/-- A `std::set` with comparator `lt`: its elements in iteration order. -/
structure SortedSet {α : Type*} (lt : α → α → Prop) where
  elems : List α
  sorted : elems.Pairwise lt

namespace SortedSet

variable {α : Type*} {lt : α → α → Prop}

/-- The empty set. -/
def empty : SortedSet lt := ⟨[], List.Pairwise.nil⟩

/-- Walk to the place of `a`; an equivalent element keeps its place and `a` is
dropped. -/
def insertList (lt : α → α → Prop) [DecidableRel lt] (a : α) : List α → List α
  | [] => [a]
  | x :: xs =>
      if lt a x then a :: x :: xs
      else if lt x a then x :: insertList lt a xs
      else x :: xs

/-- What insertion can put into a list. -/
theorem mem_of_mem_insertList [DecidableRel lt] {a b : α} :
    ∀ {xs : List α}, b ∈ insertList lt a xs → b = a ∨ b ∈ xs
  | [], h => by simpa [insertList] using h
  | x :: xs, h => by
      rw [insertList] at h
      split_ifs at h with h1 h2
      · simpa using h
      · rcases List.mem_cons.mp h with rfl | h
        · exact Or.inr List.mem_cons_self
        · rcases mem_of_mem_insertList h with rfl | h
          · exact Or.inl rfl
          · exact Or.inr (List.mem_cons_of_mem _ h)
      · exact Or.inr h

/-- Insertion keeps every element that was there. -/
theorem mem_insertList_of_mem [DecidableRel lt] {a b : α} :
    ∀ {xs : List α}, b ∈ xs → b ∈ insertList lt a xs
  | x :: xs, h => by
      rw [insertList]
      split_ifs with h1 h2
      · exact List.mem_cons_of_mem _ h
      · rcases List.mem_cons.mp h with rfl | h
        · exact List.mem_cons_self
        · exact List.mem_cons_of_mem _ (mem_insertList_of_mem h)
      · exact h

/-- If no element is equivalent to `a`, insertion adds it. -/
theorem self_mem_insertList [DecidableRel lt] {a : α} :
    ∀ {xs : List α}, (∀ x ∈ xs, lt a x ∨ lt x a) → a ∈ insertList lt a xs
  | [], _ => by simp [insertList]
  | x :: xs, h => by
      rw [insertList]
      split_ifs with h1 h2
      · exact List.mem_cons_self
      · exact List.mem_cons_of_mem _
          (self_mem_insertList fun y hy => h y (List.mem_cons_of_mem _ hy))
      · exact absurd (h x List.mem_cons_self) (by tauto)

/-- Insertion keeps a list sorted. -/
theorem insertList_sorted [DecidableRel lt] [IsTrans α lt] {a : α} :
    ∀ {xs : List α}, xs.Pairwise lt → (insertList lt a xs).Pairwise lt
  | [], _ => by simp [insertList]
  | x :: xs, h => by
      obtain ⟨hx, hxs⟩ := List.pairwise_cons.mp h
      rw [insertList]
      split_ifs with h1 h2
      · refine List.pairwise_cons.mpr ⟨fun y hy => ?_, h⟩
        rcases List.mem_cons.mp hy with rfl | hy
        · exact h1
        · exact IsTrans.trans _ _ _ h1 (hx y hy)
      · refine List.pairwise_cons.mpr ⟨fun y hy => ?_, insertList_sorted hxs⟩
        rcases mem_of_mem_insertList hy with rfl | hy
        · exact h2
        · exact hx y hy
      · exact h

/-- `insert`: the set is unchanged if an equivalent element is present. -/
def insert [DecidableRel lt] [IsTrans α lt] (s : SortedSet lt) (a : α) : SortedSet lt :=
  ⟨insertList lt a s.elems, insertList_sorted s.sorted⟩

/-- The position of the iterator `insert` returns: the number of elements
before `a`. -/
def insertPos [DecidableRel lt] (s : SortedSet lt) (a : α) : ℕ :=
  (s.elems.takeWhile (fun x => lt x a)).length

/-- If no element is equivalent to `a`, insertion adds exactly `a`. -/
theorem insertList_perm [DecidableRel lt] {a : α} :
    ∀ {xs : List α}, (∀ x ∈ xs, lt a x ∨ lt x a) → (insertList lt a xs).Perm (a :: xs)
  | [], _ => by simp [insertList]
  | x :: xs, h => by
      rw [insertList]
      split_ifs with h1 h2
      · exact List.Perm.refl _
      · have ih := insertList_perm fun y hy => h y (List.mem_cons_of_mem _ hy)
        exact (ih.cons x).trans (List.Perm.swap a x xs)
      · exact absurd (h x List.mem_cons_self) (by tauto)

/-- A batch of elements equivalent neither to each other nor to an element of the
set is inserted as a whole. -/
theorem foldl_insert_perm [DecidableRel lt] [IsTrans α lt] :
    ∀ (as : List α) (s : SortedSet lt), as.Pairwise (fun a b => lt a b ∨ lt b a) →
      (∀ a ∈ as, ∀ x ∈ s.elems, lt a x ∨ lt x a) →
      (as.foldl insert s).elems.Perm (as ++ s.elems)
  | [], _, _, _ => List.Perm.refl _
  | a :: as, s, hpair, h => by
      obtain ⟨ha, has⟩ := List.pairwise_cons.mp hpair
      have hins : (s.insert a).elems.Perm (a :: s.elems) :=
        insertList_perm (h a List.mem_cons_self)
      have ih := foldl_insert_perm as (s.insert a) has (by
        intro b hb x hx
        rcases List.mem_cons.mp (hins.mem_iff.mp hx) with rfl | hx
        · exact (ha b hb).symm
        · exact h b (List.mem_cons_of_mem _ hb) x hx)
      exact ih.trans ((hins.append_left as).trans List.perm_middle)

/-- A batch adds nothing but its elements. -/
theorem mem_of_mem_foldl_insert [DecidableRel lt] [IsTrans α lt] {b : α} :
    ∀ {as : List α} {s : SortedSet lt}, b ∈ (as.foldl insert s).elems → b ∈ as ∨ b ∈ s.elems
  | [], _, h => Or.inr h
  | a :: as, s, h => by
      have h : b ∈ (as.foldl insert (s.insert a)).elems := h
      rcases mem_of_mem_foldl_insert h with h | h
      · exact Or.inl (List.mem_cons_of_mem _ h)
      · rcases mem_of_mem_insertList h with rfl | h
        · exact Or.inl List.mem_cons_self
        · exact Or.inr h

open List in
/-- Insertion adds `a` or nothing. -/
theorem insertList_subperm [DecidableRel lt] {a : α} :
    ∀ xs : List α, insertList lt a xs <+~ a :: xs
  | [] => Subperm.refl _
  | x :: xs => by
      rw [insertList]
      split_ifs with h1 h2
      · exact Subperm.refl _
      · exact ((subperm_cons x).mpr (insertList_subperm xs)).trans (Perm.swap a x xs).subperm
      · exact Subperm.cons_self

open List in
/-- A batch adds some of its elements, each at most once. -/
theorem foldl_insert_subperm [DecidableRel lt] [IsTrans α lt] :
    ∀ (as : List α) (s : SortedSet lt), (as.foldl insert s).elems <+~ as ++ s.elems
  | [], _ => Subperm.refl _
  | a :: as, s => by
      have hone : (s.insert a).elems <+~ a :: s.elems := insertList_subperm s.elems
      have hrest : as ++ (s.insert a).elems <+~ as ++ a :: s.elems :=
        (subperm_append_left as).mpr hone
      exact ((foldl_insert_subperm as (s.insert a)).trans hrest).trans perm_middle.subperm

open List in
/-- Labels without repetition stay so where elements are left out. -/
theorem nodup_map_of_subperm {β : Type*} {f : α → β} {xs ys : List α} (h : xs <+~ ys)
    (hys : (ys.map f).Nodup) : (xs.map f).Nodup := by
  obtain ⟨zs, hperm, hsub⟩ := h
  exact (hperm.map f).nodup_iff.mp (hys.sublist (hsub.map f))

/-- A batch takes nothing away. -/
theorem mem_foldl_insert_of_mem [DecidableRel lt] [IsTrans α lt] {b : α} :
    ∀ (as : List α) {s : SortedSet lt}, b ∈ s.elems → b ∈ (as.foldl insert s).elems
  | [], _, h => h
  | a :: as, s, h => by
      have hone : b ∈ (s.insert a).elems := mem_insertList_of_mem h
      exact mem_foldl_insert_of_mem as hone

/-- The iterator returned is `begin()` exactly if no element is before `a`. -/
theorem insertPos_eq_zero_iff [DecidableRel lt] [IsTrans α lt] {s : SortedSet lt} {a : α} :
    s.insertPos a = 0 ↔ ∀ x ∈ s.elems, ¬ lt x a := by
  obtain ⟨xs, hs⟩ := s
  unfold insertPos
  cases xs with
  | nil => simp
  | cons x xs =>
      obtain ⟨hx, -⟩ := List.pairwise_cons.mp hs
      by_cases h : lt x a
      · simp [h]
      · have hnil : (x :: xs).takeWhile (fun y => decide (lt y a)) = [] :=
          List.takeWhile_cons_of_neg (by simpa using h)
        rw [hnil]
        refine iff_of_true rfl ?_
        intro y hy hya
        rcases List.mem_cons.mp hy with rfl | hy
        · exact h hya
        · exact h (IsTrans.trans _ _ _ (hx y hy) hya)

/-- `erase` of the first element satisfying `p`, as `find_if` and `erase` do. -/
def eraseFirst (s : SortedSet lt) (p : α → Bool) : SortedSet lt :=
  ⟨s.elems.eraseP p, s.sorted.sublist List.eraseP_sublist⟩

/-- `erase` of the leading elements satisfying `p`. -/
def eraseWhile (s : SortedSet lt) (p : α → Bool) : SortedSet lt :=
  ⟨s.elems.dropWhile p, s.sorted.sublist (List.dropWhile_sublist p)⟩

/-- Erasing from the front keeps what does not satisfy `p`. -/
theorem mem_eraseWhile_of_mem {s : SortedSet lt} {p : α → Bool} {b : α} (hb : b ∈ s.elems)
    (hp : p b = false) : b ∈ (s.eraseWhile p).elems := by
  have hsplit : s.elems.takeWhile p ++ s.elems.dropWhile p = s.elems :=
    List.takeWhile_append_dropWhile
  rw [← hsplit] at hb
  rcases List.mem_append.mp hb with hb | hb
  · rw [List.mem_takeWhile_imp hb] at hp
    exact absurd hp (by simp)
  · exact hb

/-- If what is before an element satisfying `p` satisfies it too, erasing from the
front erases all of them. -/
theorem not_of_mem_eraseWhile {s : SortedSet lt} {p : α → Bool}
    (hp : ∀ a b, lt a b → p b → p a) {b : α} (hb : b ∈ (s.eraseWhile p).elems) : p b = false := by
  obtain ⟨xs, hs⟩ := s
  unfold eraseWhile at hb
  simp only at hb
  induction xs with
  | nil => simp at hb
  | cons x xs ih =>
      obtain ⟨hx, hxs⟩ := List.pairwise_cons.mp hs
      by_cases h : p x = true
      · rw [List.dropWhile_cons_of_pos h] at hb
        exact ih hxs hb
      · rw [List.dropWhile_cons_of_neg h] at hb
        rcases List.mem_cons.mp hb with rfl | hb
        · simpa using h
        · by_contra hpb
          exact h (hp x b (hx b hb) (by simpa using hpb))

end SortedSet

/-! ## Maps -/

/-- A `std::map` with key comparator `lt`: its entries in iteration order. -/
structure SortedMap {κ : Type*} (lt : κ → κ → Prop) (ν : Type*) where
  entries : List (κ × ν)
  sorted : entries.Pairwise (fun a b => lt a.1 b.1)

namespace SortedMap

variable {κ ν : Type*} {lt : κ → κ → Prop}

/-- The empty map. -/
def empty : SortedMap lt ν := ⟨[], List.Pairwise.nil⟩

/-- Walk to the place of key `k` and apply `f` to its value, which is created
as `v₀` if the key is missing. -/
def upsertList (lt : κ → κ → Prop) [DecidableRel lt] (k : κ) (v₀ : ν) (f : ν → ν) :
    List (κ × ν) → List (κ × ν)
  | [] => [(k, f v₀)]
  | (k', v) :: rest =>
      if lt k k' then (k, f v₀) :: (k', v) :: rest
      else if lt k' k then (k', v) :: upsertList lt k v₀ f rest
      else (k', f v) :: rest

/-- The keys an upsert leaves. -/
theorem fst_of_mem_upsertList [DecidableRel lt] {k : κ} {v₀ : ν} {f : ν → ν} {e : κ × ν} :
    ∀ {es : List (κ × ν)}, e ∈ upsertList lt k v₀ f es →
      e.1 = k ∨ ∃ e' ∈ es, e'.1 = e.1
  | [], h => by
      rw [upsertList, List.mem_singleton] at h
      exact Or.inl (by rw [h])
  | (k', v) :: rest, h => by
      rw [upsertList] at h
      split_ifs at h with h1 h2
      · rcases List.mem_cons.mp h with rfl | h
        · exact Or.inl rfl
        · exact Or.inr ⟨e, h, rfl⟩
      · rcases List.mem_cons.mp h with rfl | h
        · exact Or.inr ⟨_, List.mem_cons_self, rfl⟩
        · rcases fst_of_mem_upsertList h with h | ⟨e', he', hk⟩
          · exact Or.inl h
          · exact Or.inr ⟨e', List.mem_cons_of_mem _ he', hk⟩
      · rcases List.mem_cons.mp h with rfl | h
        · exact Or.inr ⟨_, List.mem_cons_self, rfl⟩
        · exact Or.inr ⟨e, List.mem_cons_of_mem _ h, rfl⟩

/-- An upsert keeps the entries sorted. -/
theorem upsertList_sorted [DecidableRel lt] [IsTrans κ lt] {k : κ} {v₀ : ν} {f : ν → ν} :
    ∀ {es : List (κ × ν)}, es.Pairwise (fun a b => lt a.1 b.1) →
      (upsertList lt k v₀ f es).Pairwise (fun a b => lt a.1 b.1)
  | [], _ => by simp [upsertList]
  | (k', v) :: rest, h => by
      obtain ⟨hk, hrest⟩ := List.pairwise_cons.mp h
      rw [upsertList]
      split_ifs with h1 h2
      · refine List.pairwise_cons.mpr ⟨fun e he => ?_, h⟩
        rcases List.mem_cons.mp he with rfl | he
        · exact h1
        · exact IsTrans.trans _ _ _ h1 (hk e he)
      · refine List.pairwise_cons.mpr ⟨fun e he => ?_, upsertList_sorted hrest⟩
        rcases fst_of_mem_upsertList he with h | ⟨e', he', h⟩
        · exact h.symm ▸ h2
        · exact h ▸ hk e' he'
      · exact List.pairwise_cons.mpr ⟨hk, hrest⟩

/-- `m[k] = f(m[k])`: `operator[]` creates `v₀` for a missing key. -/
def upsert [DecidableRel lt] [IsTrans κ lt] (m : SortedMap lt ν) (k : κ) (v₀ : ν) (f : ν → ν) :
    SortedMap lt ν :=
  ⟨upsertList lt k v₀ f m.entries, upsertList_sorted m.sorted⟩

/-- `find`: the value stored under `k`. -/
def get? [DecidableEq κ] (m : SortedMap lt ν) (k : κ) : Option ν :=
  (m.entries.find? (fun e => e.1 = k)).map Prod.snd

/-- `lower_bound`: the first entry whose key is not before `k`, `none` for
`end()`. -/
def lowerBound [DecidableRel lt] (m : SortedMap lt ν) (k : κ) : Option (κ × ν) :=
  m.entries.find? (fun e => ¬ lt e.1 k)

@[ext] theorem ext {m m' : SortedMap lt ν} (h : m.entries = m'.entries) : m = m' := by
  cases m
  cases m'
  congr

/-- Lists in the order of their keys are equal if they have the same members. -/
theorem eq_of_pairwise_fst [IsStrictOrder κ lt] {es es' : List (κ × ν)}
    (h : es.Pairwise fun a b => lt a.1 b.1) (h' : es'.Pairwise fun a b => lt a.1 b.1)
    (hmem : ∀ e, e ∈ es ↔ e ∈ es') : es = es' := by
  have : Std.Irrefl fun a b : κ × ν => lt a.1 b.1 := ⟨fun a => irrefl_of lt a.1⟩
  have : Std.Antisymm fun a b : κ × ν => lt a.1 b.1 :=
    ⟨fun a _ hab hba => absurd (trans_of lt hab hba) (irrefl_of lt a.1)⟩
  exact h.eq_of_mem_iff h' hmem

/-! ### Lookup -/

/-- What `find` returns is an entry. -/
theorem mem_entries_of_get? [DecidableEq κ] {m : SortedMap lt ν} {k : κ} {v : ν}
    (h : m.get? k = some v) : (k, v) ∈ m.entries := by
  unfold get? at h
  obtain ⟨e, he, rfl⟩ := Option.map_eq_some_iff.mp h
  have hk : e.1 = k := by simpa using List.find?_some he
  exact hk ▸ List.mem_of_find?_eq_some he

/-- Keys are unique, so every entry is what `find` returns. -/
theorem get?_of_mem_entries [DecidableEq κ] [Std.Irrefl lt] {m : SortedMap lt ν} {k : κ} {v : ν}
    (h : (k, v) ∈ m.entries) : m.get? k = some v := by
  obtain ⟨es, hs⟩ := m
  unfold get?
  simp only at h ⊢
  induction es with
  | nil => simp at h
  | cons e es ih =>
      obtain ⟨he, hes⟩ := List.pairwise_cons.mp hs
      rcases List.mem_cons.mp h with rfl | h
      · simp
      · have hne : e.1 ≠ k := fun hk => Std.Irrefl.irrefl (r := lt) k (by
          have := he _ h
          rwa [hk] at this)
        rw [List.find?_cons_of_neg (by simpa using hne)]
        exact ih hes h

/-- Entries and lookups are the same thing. -/
theorem mem_entries_iff [DecidableEq κ] [Std.Irrefl lt] {m : SortedMap lt ν} {k : κ} {v : ν} :
    (k, v) ∈ m.entries ↔ m.get? k = some v :=
  ⟨get?_of_mem_entries, mem_entries_of_get?⟩

/-- No key has two entries. -/
theorem nodup_keys [Std.Irrefl lt] (m : SortedMap lt ν) : (m.entries.map Prod.fst).Nodup := by
  rw [List.Nodup, List.pairwise_map]
  refine m.sorted.imp ?_
  intro e e' hlt heq
  exact Std.Irrefl.irrefl e'.1 (heq ▸ hlt)

/-- A missing key is not before-equivalent to any entry. -/
theorem get?_eq_none_iff [DecidableEq κ] {m : SortedMap lt ν} {k : κ} :
    m.get? k = none ↔ ∀ e ∈ m.entries, e.1 ≠ k := by
  simp [get?]

/-! ### `operator[]` -/

section Upsert

variable [DecidableRel lt] [DecidableEq κ] [IsStrictTotalOrder κ lt]

/-- The value found under `k` after an upsert of `k`, on lists. -/
theorem find?_upsertList_self (k : κ) (v₀ : ν) (f : ν → ν) :
    ∀ {es : List (κ × ν)}, es.Pairwise (fun a b => lt a.1 b.1) →
      ((upsertList lt k v₀ f es).find? (fun e => e.1 = k)).map Prod.snd
        = some (f (((es.find? (fun e => e.1 = k)).map Prod.snd).getD v₀))
  | [], _ => by simp [upsertList]
  | (k', v) :: rest, h => by
      obtain ⟨hk', hrest⟩ := List.pairwise_cons.mp h
      rw [upsertList]
      split_ifs with h1 h2
      · have hne : k' ≠ k := fun e => irrefl_of lt k (e ▸ h1)
        have hnone : rest.find? (fun e => e.1 = k) = none := by
          rw [List.find?_eq_none]
          intro e he hek
          have hlt : lt k e.1 := trans_of lt h1 (hk' e he)
          exact irrefl_of lt k ((of_decide_eq_true hek) ▸ hlt)
        simp [hne, hnone]
      · have hne : k' ≠ k := fun e => irrefl_of lt k (e ▸ h2)
        simpa [hne] using find?_upsertList_self k v₀ f hrest
      · have heq : k' = k := by
          rcases trichotomous_of lt k k' with h | h | h
          · exact absurd h h1
          · exact h.symm
          · exact absurd h h2
        simp [heq]

/-- An upsert of `k` leaves the value under every other key alone, on lists. -/
theorem find?_upsertList_of_ne {k k₁ : κ} (hne : k₁ ≠ k) (v₀ : ν) (f : ν → ν) :
    ∀ es : List (κ × ν),
      (upsertList lt k v₀ f es).find? (fun e => e.1 = k₁) = es.find? (fun e => e.1 = k₁)
  | [] => by simp [upsertList, hne.symm]
  | (k', v) :: rest => by
      rw [upsertList]
      split_ifs with h1 h2
      · simp [hne.symm]
      · by_cases hk : k' = k₁
        · simp [hk]
        · simpa [hk] using find?_upsertList_of_ne hne v₀ f rest
      · have heq : k' = k := by
          rcases trichotomous_of lt k k' with h | h | h
          · exact absurd h h1
          · exact h.symm
          · exact absurd h h2
        simp [heq, hne.symm]

/-- After an upsert, the key holds `f` of what `operator[]` refers to. -/
theorem get?_upsert_self (m : SortedMap lt ν) (k : κ) (v₀ : ν) (f : ν → ν) :
    (m.upsert k v₀ f).get? k = some (f ((m.get? k).getD v₀)) :=
  find?_upsertList_self k v₀ f m.sorted

/-- An upsert leaves every other key alone. -/
theorem get?_upsert_of_ne (m : SortedMap lt ν) {k k₁ : κ} (hne : k₁ ≠ k) (v₀ : ν) (f : ν → ν) :
    (m.upsert k v₀ f).get? k₁ = m.get? k₁ :=
  congrArg (Option.map Prod.snd) (find?_upsertList_of_ne hne v₀ f m.entries)

omit [DecidableEq κ] in
/-- Indexing a key that is present creates nothing, on lists. -/
theorem upsertList_id_of_mem {k : κ} {v v₀ : ν} :
    ∀ {es : List (κ × ν)}, es.Pairwise (fun a b => lt a.1 b.1) → (k, v) ∈ es →
      upsertList lt k v₀ id es = es
  | (k', v') :: rest, h, hmem => by
      obtain ⟨hk', hrest⟩ := List.pairwise_cons.mp h
      rw [upsertList]
      rcases List.mem_cons.mp hmem with heq | hmem
      · obtain ⟨rfl, rfl⟩ := Prod.mk.inj heq
        simp [irrefl_of lt k]
      · have hlt : lt k' k := hk' _ hmem
        have hnlt : ¬ lt k k' := fun h => irrefl_of lt k (trans_of lt h hlt)
        rw [if_neg hnlt, if_pos hlt, upsertList_id_of_mem hrest hmem]

/-- **Reading through `operator[]`.**  Indexing a key that is present leaves the
map as it is. -/
theorem upsert_id_of_get? {m : SortedMap lt ν} {k : κ} {v : ν} (v₀ : ν) (h : m.get? k = some v) :
    m.upsert k v₀ id = m :=
  SortedMap.ext (upsertList_id_of_mem m.sorted (mem_entries_of_get? h))

omit [DecidableEq κ] in
/-- An upsert of a key after all others appends it. -/
theorem entries_upsert_of_forall_lt {m : SortedMap lt ν} {k : κ} (v₀ : ν) (f : ν → ν)
    (h : ∀ e ∈ m.entries, lt e.1 k) : (m.upsert k v₀ f).entries = m.entries ++ [(k, f v₀)] := by
  show upsertList lt k v₀ f m.entries = _
  obtain ⟨es, hs⟩ := m
  simp only at h ⊢
  clear hs
  induction es with
  | nil => rfl
  | cons e es ih =>
      have hlt : lt e.1 k := h e List.mem_cons_self
      have hnlt : ¬ lt k e.1 := fun h' => irrefl_of lt k (trans_of lt h' hlt)
      rw [upsertList, if_neg hnlt, if_pos hlt, ih fun e' he' => h e' (List.mem_cons_of_mem _ he')]
      rfl

/-! ### Assignments -/

/-- `m[k] = v` for each pair of a list, one after the other. -/
def assignAll (v₀ : ν) (m : SortedMap lt ν) (es : List (κ × ν)) : SortedMap lt ν :=
  es.foldl (fun m e => m.upsert e.1 v₀ fun _ => e.2) m

/-- **The last assignment counts.**  After a list of assignments a key holds the value of
its last pair, or what it held before. -/
theorem get?_assignAll (v₀ : ν) (es : List (κ × ν)) (m : SortedMap lt ν) (k : κ) :
    (m.assignAll v₀ es).get? k
      = ((es.filter (fun e => e.1 = k)).getLast?.map Prod.snd).or (m.get? k) := by
  induction es generalizing m with
  | nil => rfl
  | cons e es ih =>
    rw [show m.assignAll v₀ (e :: es) = (m.upsert e.1 v₀ fun _ => e.2).assignAll v₀ es from rfl, ih]
    by_cases h : e.1 = k
    · rw [List.filter_cons_of_pos (by simpa using h), ← h, get?_upsert_self, List.getLast?_cons]
      cases (es.filter fun e' => e'.1 = e.1).getLast? <;> rfl
    · rw [List.filter_cons_of_neg (by simpa using h), get?_upsert_of_ne _ (Ne.symm h)]

/-- Where no key is assigned twice, each holds the value of its pair, whatever the order. -/
theorem get?_assignAll_iff (v₀ : ν) {es : List (κ × ν)} (h : (es.map Prod.fst).Nodup) {k : κ}
    {v : ν} : ((empty : SortedMap lt ν).assignAll v₀ es).get? k = some v ↔ (k, v) ∈ es := by
  have hempty : (empty : SortedMap lt ν).get? k = none := rfl
  rw [get?_assignAll, hempty, Option.or_none, Option.map_eq_some_iff]
  constructor
  · rintro ⟨e, he, rfl⟩
    obtain ⟨hmem, hkey⟩ := List.mem_filter.mp (List.mem_of_getLast? he)
    rwa [← of_decide_eq_true hkey]
  · intro hmem
    have hne : es.filter (fun e => e.1 = k) ≠ [] :=
      List.ne_nil_of_mem (List.mem_filter.mpr ⟨hmem, decide_eq_true rfl⟩)
    refine ⟨_, List.getLast?_eq_some_getLast hne, ?_⟩
    obtain ⟨hlast, hkey⟩ := List.mem_filter.mp (List.getLast_mem hne)
    exact congrArg Prod.snd (List.inj_on_of_nodup_map h hlast hmem (of_decide_eq_true hkey))

omit [DecidableEq κ] in
/-- Assigning entries in their order to a map whose keys come before them appends them. -/
theorem entries_assignAll (v₀ : ν) (es : List (κ × ν)) (m : SortedMap lt ν)
    (h : (m.entries ++ es).Pairwise fun a b => lt a.1 b.1) :
    (m.assignAll v₀ es).entries = m.entries ++ es := by
  induction es generalizing m with
  | nil => exact (List.append_nil _).symm
  | cons e es ih =>
    have hlast : (m.upsert e.1 v₀ fun _ => e.2).entries = m.entries ++ [e] :=
      entries_upsert_of_forall_lt v₀ _ fun e' he' =>
        (List.pairwise_append.mp h).2.2 e' he' e List.mem_cons_self
    have happend : m.entries ++ [e] ++ es = m.entries ++ e :: es := by
      rw [List.append_assoc, List.singleton_append]
    show ((m.upsert e.1 v₀ fun _ => e.2).assignAll v₀ es).entries = _
    rw [ih _ (by rw [hlast, happend]; exact h), hlast, happend]

omit [DecidableEq κ] in
/-- A map is rebuilt by assigning its entries. -/
theorem assignAll_entries (v₀ : ν) (m : SortedMap lt ν) : empty.assignAll v₀ m.entries = m :=
  SortedMap.ext (entries_assignAll v₀ m.entries empty m.sorted)

omit [DecidableRel lt] in
/-- **Extensionality.**  Maps in which the same is found are equal: their entries are the
same, and both lists of them are sorted. -/
theorem ext_get? {m m' : SortedMap lt ν} (h : ∀ k, m.get? k = m'.get? k) : m = m' := by
  refine SortedMap.ext (eq_of_pairwise_fst m.sorted m'.sorted ?_)
  rintro ⟨k, v⟩
  rw [mem_entries_iff, mem_entries_iff, h]

end Upsert

section Upsert

variable [DecidableRel lt] [IsStrictTotalOrder κ lt] [DecidableEq κ]

/-- The last assignment to a key counts. -/
theorem upsert_const_upsert (m : SortedMap lt ν) (k : κ) (v₀ v : ν) (f : ν → ν) :
    (m.upsert k v₀ f).upsert k v₀ (fun _ => v) = m.upsert k v₀ fun _ => v := by
  apply ext_get?
  intro k₁
  by_cases hk : k₁ = k
  · subst hk
    rw [get?_upsert_self, get?_upsert_self]
  · rw [get?_upsert_of_ne _ hk, get?_upsert_of_ne _ hk, get?_upsert_of_ne _ hk]

/-- Indexing a key may as well be done after an upsert. -/
theorem upsert_id_upsert (m : SortedMap lt ν) (k k' : κ) (v₀ : ν) (f : ν → ν) :
    (m.upsert k' v₀ id).upsert k v₀ f = (m.upsert k v₀ f).upsert k' v₀ id := by
  apply ext_get?
  intro k₁
  by_cases hk : k₁ = k
  · subst hk
    by_cases hk' : k₁ = k'
    · subst hk'
      simp [get?_upsert_self]
    · rw [get?_upsert_self, get?_upsert_of_ne _ hk', get?_upsert_of_ne _ hk', get?_upsert_self]
  · rw [get?_upsert_of_ne _ hk]
    by_cases hk' : k₁ = k'
    · subst hk'
      rw [get?_upsert_self, get?_upsert_self, get?_upsert_of_ne _ hk]
    · rw [get?_upsert_of_ne _ hk', get?_upsert_of_ne _ hk', get?_upsert_of_ne _ hk]

end Upsert

/-! ### Keys -/

/-- `k` is a key of the map. -/
def HasKey (m : SortedMap lt ν) (k : κ) : Prop := ∃ e ∈ m.entries, e.1 = k

instance [DecidableEq κ] (m : SortedMap lt ν) (k : κ) : Decidable (m.HasKey k) :=
  inferInstanceAs (Decidable (∃ e ∈ m.entries, e.1 = k))

theorem hasKey_fst {m : SortedMap lt ν} {e : κ × ν} (he : e ∈ m.entries) : m.HasKey e.1 :=
  ⟨e, he, rfl⟩

theorem not_hasKey_empty (k : κ) : ¬ (empty : SortedMap lt ν).HasKey k := by
  rintro ⟨e, he, -⟩
  exact absurd he List.not_mem_nil

theorem not_hasKey_iff [DecidableEq κ] {m : SortedMap lt ν} {k : κ} :
    ¬ m.HasKey k ↔ m.get? k = none := by
  rw [get?_eq_none_iff]
  constructor
  · exact fun h e he hk => h ⟨e, he, hk⟩
  · rintro h ⟨e, he, hk⟩
    exact h e he hk

/-- `lower_bound` ends at an entry if some key is not before `k`. -/
theorem exists_lowerBound [DecidableRel lt] {m : SortedMap lt ν} {k k' : κ} (h : m.HasKey k')
    (hk : ¬ lt k' k) : ∃ e, m.lowerBound k = some e ∧ m.HasKey e.1 := by
  obtain ⟨e', he', rfl⟩ := h
  cases hfind : m.lowerBound k with
  | none =>
    have hnone := List.find?_eq_none.mp hfind e' he'
    exact absurd (by simpa using hnone) hk
  | some e => exact ⟨e, rfl, hasKey_fst (List.mem_of_find?_eq_some hfind)⟩

/-- The first key is the one no key is before. -/
theorem head?_fst {m : SortedMap lt ν} {e : κ × ν} {k : κ} (he : m.entries.head? = some e)
    (h : m.HasKey k) (hfirst : ∀ k', m.HasKey k' → ¬ lt k' k) : e.1 = k := by
  obtain ⟨es, hs⟩ := m
  cases es with
  | nil => simp at he
  | cons e' es =>
    obtain rfl : e' = e := Option.some.inj he
    obtain ⟨x, hx, rfl⟩ := h
    rcases List.mem_cons.mp hx with rfl | hx
    · rfl
    · have hlt : lt e'.1 x.1 := (List.pairwise_cons.mp hs).1 x hx
      exact absurd hlt (hfirst e'.1 ⟨e', List.mem_cons_self, rfl⟩)

/-! ### Reading a list of keys through `operator[]` -/

section Touch

variable [DecidableRel lt] [IsStrictTotalOrder κ lt]

/-- Index every key of a list: a missing one is created with the value `v₀`. -/
def touchAll (v₀ : ν) (m : SortedMap lt ν) (ks : List κ) : SortedMap lt ν :=
  ks.foldl (fun m k => m.upsert k v₀ id) m

variable [DecidableEq κ]

/-- What a map holds once a list of keys has been indexed. -/
theorem get?_touchAll (v₀ : ν) (ks : List κ) (m : SortedMap lt ν) (k : κ) :
    (m.touchAll v₀ ks).get? k = if k ∈ ks then some ((m.get? k).getD v₀) else m.get? k := by
  induction ks generalizing m with
  | nil => simp [touchAll]
  | cons k' ks ih =>
    rw [show m.touchAll v₀ (k' :: ks) = (m.upsert k' v₀ id).touchAll v₀ ks from rfl, ih]
    by_cases hk : k = k'
    · subst hk
      simp [get?_upsert_self]
    · simp [get?_upsert_of_ne m hk, hk]

omit [DecidableEq κ] in
/-- The keys after an upsert. -/
theorem hasKey_upsert {m : SortedMap lt ν} {k k₁ : κ} (v₀ : ν) (f : ν → ν) :
    (m.upsert k v₀ f).HasKey k₁ ↔ k₁ = k ∨ m.HasKey k₁ := by
  classical
  rw [← not_iff_not, not_or, not_hasKey_iff, not_hasKey_iff]
  by_cases hk : k₁ = k
  · subst hk
    simp [get?_upsert_self]
  · simp [get?_upsert_of_ne m hk, hk]

/-- The keys once a list of keys has been indexed. -/
theorem hasKey_touchAll {m : SortedMap lt ν} {v₀ : ν} {ks : List κ} {k : κ} :
    (m.touchAll v₀ ks).HasKey k ↔ k ∈ ks ∨ m.HasKey k := by
  rw [← not_iff_not, not_or, not_hasKey_iff, not_hasKey_iff, get?_touchAll]
  by_cases hk : k ∈ ks <;> simp [hk]

/-- Entries survive. -/
theorem mem_touchAll {m : SortedMap lt ν} {e : κ × ν} (v₀ : ν) (ks : List κ)
    (he : e ∈ m.entries) : e ∈ (m.touchAll v₀ ks).entries := by
  have hget : m.get? e.1 = some e.2 := get?_of_mem_entries he
  apply mem_entries_of_get?
  rw [get?_touchAll, hget]
  split_ifs <;> rfl

omit [DecidableEq κ] in
/-- Indexing a key changes nothing. -/
theorem upsert_id_of_hasKey {m : SortedMap lt ν} {k : κ} (v₀ : ν) (h : m.HasKey k) :
    m.upsert k v₀ id = m := by
  obtain ⟨e, he, rfl⟩ := h
  exact SortedMap.ext (upsertList_id_of_mem m.sorted he)

/-- If all but one of the keys are there, indexing them creates that one. -/
theorem touchAll_eq_upsert {m : SortedMap lt ν} {v₀ : ν} {ks : List κ} {k₀ : κ} (h₀ : k₀ ∈ ks)
    (h : ∀ k ∈ ks, k = k₀ ∨ m.HasKey k) : m.touchAll v₀ ks = m.upsert k₀ v₀ id := by
  apply ext_get?
  intro k
  rw [get?_touchAll]
  by_cases hk : k = k₀
  · subst hk
    rw [if_pos h₀, get?_upsert_self]
    rfl
  · rw [get?_upsert_of_ne m hk]
    split_ifs with hmem
    · obtain ⟨e, he, rfl⟩ := (h k hmem).resolve_left hk
      rw [get?_of_mem_entries he]
      rfl
    · rfl

/-- **Reading is free only at keys.**  Indexing a list of keys leaves the map as it is exactly
if it has them all. -/
theorem touchAll_eq_self_iff {m : SortedMap lt ν} {v₀ : ν} {ks : List κ} :
    m.touchAll v₀ ks = m ↔ ∀ k ∈ ks, m.HasKey k := by
  constructor
  · intro h k hk
    rw [← h, hasKey_touchAll]
    exact Or.inl hk
  · intro h
    apply ext_get?
    intro k
    rw [get?_touchAll]
    split_ifs with hk
    · obtain ⟨e, he, rfl⟩ := h k hk
      rw [get?_of_mem_entries he]
      rfl
    · rfl

end Touch

end SortedMap
