/-
# Ring buffers

A queue kept in the cells of a ring.  Positions count up without bound and are taken
modulo the size of the ring; or the two ends of the queue are themselves indices of
cells, and one cell stays empty to tell a full ring from an empty one.
-/
import Mathlib

namespace Ring

/-- Positions less than one round apart are in different cells. -/
theorem eq_of_mod_eq {n a b : ℕ} (h : a % n = b % n) (hab : a < b + n) (hba : b < a + n) :
    a = b := by
  rcases le_total a b with hle | hle
  · have hdvd : n ∣ b - a := (Nat.modEq_iff_dvd' hle).mp h
    have hzero : b - a = 0 := Nat.eq_zero_of_dvd_of_lt hdvd (by omega)
    omega
  · have hdvd : n ∣ a - b := (Nat.modEq_iff_dvd' hle).mp h.symm
    have hzero : a - b = 0 := Nat.eq_zero_of_dvd_of_lt hdvd (by omega)
    omega

/-- Different positions of one round are in different cells. -/
theorem mod_ne {n first p q : ℕ} (hp : first ≤ p) (hp' : p < first + n) (hq : first ≤ q)
    (hq' : q < first + n) (hne : p ≠ q) : p % n ≠ q % n :=
  fun hmod => hne (eq_of_mod_eq hmod (by omega) (by omega))

/-- A position behind another one in the same round is in a different cell. -/
theorem mod_ne_of_lt {n first p : ℕ} (hfirst : first < p) (hp : p < first + n) :
    p % n ≠ first % n :=
  mod_ne (le_of_lt hfirst) hp (le_refl _) (by omega) (by omega)

/-- Different cells are followed by different cells. -/
theorem succ_mod_ne_succ_mod {n i j : ℕ} (hi : i < n) (hj : j < n) (h : i ≠ j) :
    (i + 1) % n ≠ (j + 1) % n := by
  intro hmod
  have := eq_of_mod_eq hmod (by omega) (by omega)
  omega

/-- Every cell is the cell of a position in the round from `first` on. -/
theorem exists_mod_eq {n : ℕ} (hn : 0 < n) (first t : ℕ) :
    ∃ p, first ≤ p ∧ p < first + n ∧ p % n = t % n := by
  have hlt := Nat.mod_lt (t + n - first % n) hn
  have hfirst := Nat.mod_lt first hn
  refine ⟨first + (t + n - first % n) % n, by omega, by omega, ?_⟩
  have hsplit : first + (t + n - first % n) = t + n * (first / n + 1) := by
    have hdiv := Nat.div_add_mod first n
    rw [Nat.mul_succ]
    omega
  rw [Nat.add_mod_mod, hsplit, Nat.add_mul_mod_self_left]

/-- A size that is a power of two and fits a `size_t`. -/
structure PowerOfTwo where
  bits : ℕ
  bits_lt : bits < 64

namespace PowerOfTwo

/-- A ring of two cells. -/
def two : PowerOfTwo := ⟨1, by decide⟩

variable (N : PowerOfTwo)

def size : ℕ := 2 ^ N.bits

theorem size_pos : 0 < N.size := Nat.two_pow_pos _

theorem size_le : N.size ≤ 2 ^ 63 := Nat.pow_le_pow_right (by decide) (Nat.le_of_lt_succ N.bits_lt)

/-- `i & (N - 1)`. -/
def mask (i : ℕ) : ℕ := i &&& (N.size - 1)

/-- Masking is the remainder. -/
theorem mask_eq_mod (i : ℕ) : N.mask i = i % N.size := Nat.and_two_pow_sub_one_eq_mod i N.bits

/-- The 64-bit number of a position is in the position's cell. -/
theorem mask_mod (p : ℕ) : N.mask (p % 2 ^ 64) = p % N.size := by
  rw [mask_eq_mod]
  exact Nat.mod_mod_of_dvd p (Nat.pow_dvd_pow 2 (le_of_lt N.bits_lt))

end PowerOfTwo

/-! ## One thread at a time -/

section Threads

variable {ι β : Type*} [DecidableEq ι] {f : ι → β} {p : β → Bool} {i : ι} {b : β}

/-- At most one thread is in a place, if no thread comes there that was not there. -/
theorem unique_update (h : ∀ j k, p (f j) → p (f k) → j = k) (hb : p b → p (f i)) (j k : ι)
    (hj : p (Function.update f i b j)) (hk : p (Function.update f i b k)) : j = k := by
  have hold : ∀ {j}, p (Function.update f i b j) → p (f j) := by
    intro j hj
    by_cases hji : j = i
    · subst hji
      rw [Function.update_self] at hj
      exact hb hj
    · rwa [Function.update_of_ne hji] at hj
  exact h j k (hold hj) (hold hk)

/-- At most one thread is in a place where no other was, wherever it goes. -/
theorem unique_update_of_others (hothers : ∀ j, j ≠ i → p (f j) = false) (j k : ι)
    (hj : p (Function.update f i b j)) (hk : p (Function.update f i b k)) : j = k := by
  have honly : ∀ {j}, p (Function.update f i b j) → j = i := by
    intro j hj
    by_contra hne
    rw [Function.update_of_ne hne, hothers j hne] at hj
    exact Bool.false_ne_true hj
  exact (honly hj).trans (honly hk).symm

end Threads

/-! ## Entries from a position on -/

variable {α : Type*} {size : ℕ} {cells : ℕ → α}

/-- The entries at `count` positions from `first` on. -/
def contents (size : ℕ) (cells : ℕ → α) (first count : ℕ) : List α :=
  (List.range count).map fun k => cells ((first + k) % size)

@[simp] theorem length_contents (size : ℕ) (cells : ℕ → α) (first count : ℕ) :
    (contents size cells first count).length = count := by
  rw [contents, List.length_map, List.length_range]

/-- Only the cells of the entries matter. -/
theorem contents_congr {cells' : ℕ → α} {first count : ℕ}
    (h : ∀ k < count, cells' ((first + k) % size) = cells ((first + k) % size)) :
    contents size cells' first count = contents size cells first count :=
  List.map_congr_left fun k hk => h k (List.mem_range.mp hk)

/-- One more entry at the back. -/
theorem contents_succ (first count : ℕ) :
    contents size cells first (count + 1)
      = contents size cells first count ++ [cells ((first + count) % size)] := by
  rw [contents, List.range_succ, List.map_append, List.map_singleton]
  rfl

/-- The entry at the front, then the others. -/
theorem contents_cons (first count : ℕ) :
    contents size cells first (count + 1)
      = cells (first % size) :: contents size cells (first + 1) count := by
  rw [contents, List.range_succ_eq_map, List.map_cons, List.map_map, contents]
  congr 1
  apply List.map_congr_left
  intro k _
  rw [Function.comp_apply, Nat.succ_eq_add_one, Nat.add_comm k 1, ← Nat.add_assoc]

/-- The first position counts modulo the size only. -/
theorem contents_mod (first count : ℕ) :
    contents size cells (first % size) count = contents size cells first count := by
  apply List.map_congr_left
  intro k _
  rw [Nat.mod_add_mod]

/-- Writing the free cell behind the entries changes none of them. -/
theorem contents_update {first count : ℕ} (h : count < size) (x : α) :
    contents size (Function.update cells ((first + count) % size) x) first count
      = contents size cells first count := by
  apply contents_congr
  intro k hk
  refine Function.update_of_ne ?_ _ _
  intro hmod
  have := eq_of_mod_eq hmod (by omega) (by omega)
  omega

/-- Overwriting the cell of a removed entry changes none of the others. -/
theorem contents_update_front {first count : ℕ} (h : count < size) (x : α) :
    contents size (Function.update cells (first % size) x) (first + 1) count
      = contents size cells (first + 1) count := by
  apply contents_congr
  intro k hk
  refine Function.update_of_ne ?_ _ _
  intro hmod
  have := eq_of_mod_eq hmod (by omega) (by omega)
  omega

/-! ## Entries between two indices -/

/-- The number of entries between the indices `head` and `tail`. -/
def used (size head tail : ℕ) : ℕ := (tail + size - head) % size

variable {head tail : ℕ}

/-- The tail is behind the entries. -/
theorem add_used (hhead : head < size) (htail : tail < size) :
    (head + used size head tail) % size = tail := by
  rw [used, Nat.add_mod_mod, show head + (tail + size - head) = tail + size by omega,
    Nat.add_mod_right, Nat.mod_eq_of_lt htail]

/-- At least one cell is empty. -/
theorem used_lt (hhead : head < size) (tail : ℕ) : used size head tail < size :=
  Nat.mod_lt _ (by omega)

/-- The number of entries is the one that leads from the head to the tail. -/
theorem used_eq {k : ℕ} (hhead : head < size) (hk : k < size) (h : (head + k) % size = tail) :
    used size head tail = k := by
  have htail : tail < size := h ▸ Nat.mod_lt _ (by omega)
  have hmod := (add_used hhead htail).trans h.symm
  have hlt := used_lt hhead tail
  have := eq_of_mod_eq hmod (by omega) (by omega)
  omega

theorem used_eq_zero_iff (hhead : head < size) (htail : tail < size) :
    used size head tail = 0 ↔ head = tail := by
  constructor
  · intro h
    have := add_used hhead htail
    rw [h, Nat.add_zero, Nat.mod_eq_of_lt hhead] at this
    exact this
  · rintro rfl
    exact used_eq hhead (by omega) (Nat.mod_eq_of_lt hhead)

/-- The ring is full if the index behind the tail is the head. -/
theorem used_succ_lt (hhead : head < size) (htail : tail < size)
    (hroom : (tail + 1) % size ≠ head) : used size head tail + 1 < size := by
  have hlt := used_lt hhead tail
  by_contra hge
  apply hroom
  have hused : used size head tail + 1 = size := by omega
  rw [← add_used hhead htail, Nat.mod_add_mod, Nat.add_assoc, hused, Nat.add_mod_right,
    Nat.mod_eq_of_lt hhead]

theorem used_push (hhead : head < size) (htail : tail < size) (hroom : (tail + 1) % size ≠ head) :
    used size head ((tail + 1) % size) = used size head tail + 1 := by
  apply used_eq hhead (used_succ_lt hhead htail hroom)
  rw [← Nat.add_assoc, Nat.add_mod, add_used hhead htail, Nat.add_mod_mod]

theorem used_pop (hhead : head < size) (htail : tail < size) (hne : head ≠ tail) :
    used size head tail = used size ((head + 1) % size) tail + 1 := by
  have hpos : used size head tail ≠ 0 := fun h => hne ((used_eq_zero_iff hhead htail).mp h)
  have hlt := used_lt hhead tail
  have hnext : used size ((head + 1) % size) tail = used size head tail - 1 := by
    apply used_eq (Nat.mod_lt _ (by omega)) (by omega)
    rw [Nat.mod_add_mod, show head + 1 + (used size head tail - 1) = head + used size head tail
      by omega, add_used hhead htail]
  omega

/-- The entries between two indices. -/
def queued (size : ℕ) (cells : ℕ → α) (head tail : ℕ) : List α :=
  contents size cells head (used size head tail)

theorem queued_eq_nil_iff (hhead : head < size) (htail : tail < size) :
    queued size cells head tail = [] ↔ head = tail := by
  rw [← List.length_eq_zero_iff, queued, length_contents, used_eq_zero_iff hhead htail]

/-- Writing the cell at the tail changes no entry. -/
theorem queued_update (hhead : head < size) (htail : tail < size) (x : α) :
    queued size (Function.update cells tail x) head tail = queued size cells head tail := by
  have hfree : contents size (Function.update cells ((head + used size head tail) % size) x) head _
      = contents size cells head _ := contents_update (used_lt hhead tail) x
  rw [add_used hhead htail] at hfree
  exact hfree

/-- **An entry is pushed**: what stands in the cell at the tail, once the tail has moved. -/
theorem queued_push (hhead : head < size) (htail : tail < size)
    (hroom : (tail + 1) % size ≠ head) :
    queued size cells head ((tail + 1) % size) = queued size cells head tail ++ [cells tail] := by
  rw [queued, used_push hhead htail hroom, contents_succ, add_used hhead htail]
  rfl

/-- **An entry is popped**: the one in the cell at the head. -/
theorem queued_pop (hhead : head < size) (htail : tail < size) (hne : head ≠ tail) :
    queued size cells head tail = cells head :: queued size cells ((head + 1) % size) tail := by
  rw [queued, used_pop hhead htail hne, contents_cons, Nat.mod_eq_of_lt hhead, queued,
    contents_mod]

/-- Overwriting the cell at the head changes no entry behind it. -/
theorem queued_update_head (hhead : head < size) (htail : tail < size) (hne : head ≠ tail)
    (x : α) : queued size (Function.update cells head x) ((head + 1) % size) tail
      = queued size cells ((head + 1) % size) tail := by
  have hlt := used_lt hhead tail
  have hpop := used_pop hhead htail hne
  have hcount : used size ((head + 1) % size) tail < size := by omega
  have hfront : contents size (Function.update cells (head % size) x) (head + 1) _
      = contents size cells (head + 1) _ := contents_update_front hcount x
  rw [Nat.mod_eq_of_lt hhead] at hfront
  rw [queued, queued, contents_mod, contents_mod]
  exact hfront

end Ring
