import MustDb.Lib.ByteFile
import Mathlib.Data.List.InsertIdx

/-!
# `MustDb.Lib.Cells`: arrays of elements in a buffer

A buffer holds elements of one width `e`, one behind the other. `cell e l i` is the element `i`, and
`cells e n l` is the list of the first `n`. `pmove` is `memmove`: its two ranges can overlap.

Each lemma says what an operation on the buffer is on the list of elements. A store of one element
is `set`, or `++ [x]` behind the last one. A move of the elements behind `i` by one element, with a
store at `i`, is `insertIdx`. The move the other way is `eraseIdx`. The width can be `0`.
-/

set_option autoImplicit false

namespace MustDb.Lib

variable {α : Type}

/-- The element `i` of a buffer of elements of width `e`. -/
def cell (e : Nat) (l : List α) (i : Nat) : List α := pread l (i * e) e

/-- The first `n` elements of a buffer. -/
def cells (e n : Nat) (l : List α) : List (List α) := (List.range n).map (cell e l)

@[simp] theorem length_cells (e n : Nat) (l : List α) : (cells e n l).length = n := by
  simp [cells]

theorem getElem?_cells (e n : Nat) (l : List α) (i : Nat) :
    (cells e n l)[i]? = if i < n then some (cell e l i) else none := by
  rw [cells, List.getElem?_map]
  by_cases hi : i < n
  · rw [List.getElem?_range hi, if_pos hi, Option.map_some]
  · rw [List.getElem?_eq_none (by rw [List.length_range]; omega), if_neg hi, Option.map_none]

/-- Two buffers with the same elements. -/
theorem cells_congr {e n : Nat} {l l' : List α} (h : ∀ i < n, cell e l i = cell e l' i) :
    cells e n l = cells e n l' :=
  List.map_congr_left fun i hi => h i (List.mem_range.mp hi)

theorem cells_succ (e n : Nat) (l : List α) : cells e (n + 1) l = cells e n l ++ [cell e l n] := by
  rw [cells, List.range_succ, List.map_append]
  rfl

/-- An element behind the first `n` ends behind their bytes. -/
theorem cell_end_le {e i n size : Nat} (hi : i < n) (h : n * e ≤ size) : i * e + e ≤ size := by
  have := Nat.mul_le_mul_right e (Nat.succ_le_of_lt hi)
  rw [Nat.succ_mul] at this
  omega

/-- Two different elements have no byte in common. -/
theorem cell_disjoint (e : Nat) {i j : Nat} (h : i ≠ j) :
    i * e + e ≤ j * e ∨ j * e + e ≤ i * e := by
  rcases Nat.lt_or_gt_of_ne h with hlt | hgt
  · exact Or.inl (cell_end_le hlt (Nat.le_refl _))
  · exact Or.inr (cell_end_le hgt (Nat.le_refl _))

theorem length_cell {e i n : Nat} {l : List α} (hi : i < n) (h : n * e ≤ l.length) :
    (cell e l i).length = e :=
  length_pread_of_le (cell_end_le hi h)

/-- The elements in a first part of the buffer that a change behind it leaves. -/
theorem cell_take_append {e i n k : Nat} {l l' : List α} (hi : i < n) (hk : n * e ≤ k)
    (h : n * e ≤ l.length) : cell e (l.take k ++ l') i = cell e l i := by
  have hend := cell_end_le hi hk
  have hend' := cell_end_le hi h
  apply List.ext_getElem?
  intro j
  simp only [cell, getElem?_pread]
  by_cases hj : j < e
  · rw [if_pos hj, if_pos hj, List.getElem?_append_left (by rw [List.length_take]; omega),
      List.getElem?_take, if_pos (by omega)]
  · rw [if_neg hj, if_neg hj]

/-- The first elements do not depend on the others. -/
theorem cells_take {e m n : Nat} (l : List α) (h : m ≤ n) : (cells e n l).take m = cells e m l := by
  rw [cells, cells, ← List.map_take, List.take_range, Nat.min_eq_left h]

/-! ### Elements one behind the other -/

/-- An element of a list of elements of one width. -/
theorem cell_flatten {e : Nat} : ∀ {xs : List (List α)}, (∀ x ∈ xs, x.length = e) →
    ∀ {i : Nat} {x : List α}, xs[i]? = some x → cell e xs.flatten i = x := by
  intro xs
  induction xs with
  | nil =>
      intro _ i x hx
      simp at hx
  | cons y ys ih =>
      intro hlength i x hx
      obtain ⟨hy, hys⟩ := List.forall_mem_cons.mp hlength
      cases i with
      | zero =>
          cases hx
          rw [cell, pread, Nat.zero_mul, List.drop_zero, List.flatten_cons, ← hy,
            List.take_left]
      | succ i =>
          have htail := ih hys hx
          rw [← htail, cell, cell, pread, pread, Nat.succ_mul, Nat.add_comm, List.flatten_cons,
            ← List.drop_drop]
          congr 2
          rw [← hy, List.drop_left]

theorem length_flatten_of_forall {e : Nat} {xs : List (List α)} (h : ∀ x ∈ xs, x.length = e) :
    xs.flatten.length = xs.length * e := by
  rw [List.length_flatten, List.map_congr_left h, List.map_const', List.sum_replicate_nat]

/-! ### Stores of one element -/

section Write
variable [Zero α] {e i j n : Nat} {l x : List α}

theorem cell_pwrite_self (hx : x.length = e) : cell e (pwrite l (i * e) x) i = x := by
  subst hx
  exact pread_pwrite_same l x _

theorem cell_pwrite_of_ne (hx : x.length = e) (hj : j < n) (h : n * e ≤ l.length) (hne : j ≠ i) :
    cell e (pwrite l (i * e) x) j = cell e l j :=
  pread_pwrite_disjoint (cell_end_le hj h) (hx ▸ cell_disjoint e hne)

/-- A store in an element that is there. -/
theorem cells_pwrite (hx : x.length = e) (h : n * e ≤ l.length) :
    cells e n (pwrite l (i * e) x) = (cells e n l).set i x := by
  apply List.ext_getElem?
  intro j
  rw [getElem?_cells, List.getElem?_set, length_cells, getElem?_cells]
  by_cases hj : j < n
  · by_cases hij : i = j
    · subst hij
      rw [if_pos hj, if_pos rfl, if_pos hj, cell_pwrite_self hx]
    · rw [if_pos hj, if_neg hij, if_pos hj, cell_pwrite_of_ne hx hj h (Ne.symm hij)]
  · by_cases hij : i = j
    · rw [if_neg hj, if_pos hij, if_neg (hij ▸ hj)]
    · rw [if_neg hj, if_neg hij, if_neg hj]

/-- A store in the first free element. -/
theorem cells_push (hx : x.length = e) (h : n * e ≤ l.length) :
    cells e (n + 1) (pwrite l (n * e) x) = cells e n l ++ [x] := by
  rw [cells_succ, cell_pwrite_self hx, cells_pwrite hx h, List.set_eq_of_length_le (by simp)]

/-! ### Moves of elements -/

/-- `memmove`: `n` cells from the offset `src` to the offset `dst`, read before they are written. -/
def pmove (l : List α) (dst src n : Nat) : List α := pwrite l dst (pread l src n)

/-- The elements after a move of `k` elements. -/
theorem cell_pmove {dst src k : Nat} (hj : j < n) (h : n * e ≤ l.length) (hsrc : src + k ≤ n) :
    cell e (pmove l (dst * e) (src * e) (k * e)) j =
      if dst ≤ j ∧ j < dst + k then cell e l (src + (j - dst)) else cell e l j := by
  have hread : (pread l (src * e) (k * e)).length = k * e := by
    apply length_pread_of_le
    rw [← Nat.add_mul]
    exact Nat.le_trans (Nat.mul_le_mul_right e hsrc) h
  by_cases hin : dst ≤ j ∧ j < dst + k
  · -- the element comes from the same place of the source range
    obtain ⟨m, rfl⟩ := Nat.exists_eq_add_of_le hin.1
    have hm : m * e + e ≤ k * e := cell_end_le (by omega) (Nat.le_refl _)
    rw [if_pos hin, Nat.add_sub_cancel_left, cell, cell, pmove, Nat.add_mul,
      pread_pwrite_inside _ _ (hread.symm ▸ hm), pread_pread _ _ _ hm, Nat.add_mul]
  · rw [if_neg hin]
    refine pread_pwrite_disjoint (cell_end_le hj h) ?_
    rw [hread, ← Nat.add_mul]
    rcases Nat.lt_or_ge j dst with hlt | hge
    · exact Or.inl (cell_end_le hlt (Nat.le_refl _))
    · exact Or.inr (Nat.mul_le_mul_right e (by omega))

theorem length_pmove {dst src k : Nat} (h : dst + k ≤ l.length) :
    (pmove l dst src k).length = l.length := by
  refine length_pwrite_of_le ?_
  rw [length_pread]
  omega

/-- The elements from `i` on move up by one, and `x` goes to `i`. -/
theorem cells_insert (hi : i ≤ n) (hx : x.length = e) (h : (n + 1) * e ≤ l.length) :
    cells e (n + 1) (pwrite (pmove l ((i + 1) * e) (i * e) ((n - i) * e)) (i * e) x)
      = (cells e n l).insertIdx i x := by
  have hfits : (i + 1) * e + (n - i) * e ≤ l.length := by
    rw [← Nat.add_mul, show i + 1 + (n - i) = n + 1 by omega]
    exact h
  rw [cells_pwrite hx (by rwa [length_pmove hfits])]
  apply List.ext_getElem?
  intro j
  rw [List.getElem?_set, length_cells, getElem?_cells, List.getElem?_insertIdx, length_cells]
  rcases Nat.lt_trichotomy j i with hlt | rfl | hgt
  · rw [if_neg (by omega), if_pos (by omega), if_pos hlt, getElem?_cells, if_pos (by omega),
      cell_pmove (n := n + 1) (by omega) h (by omega), if_neg (by omega)]
  · rw [if_pos rfl, if_pos (by omega), if_neg (by omega), if_pos rfl, if_pos hi]
  · rw [if_neg (by omega : ¬ i = j), if_neg (by omega : ¬ j < i), if_neg (by omega : ¬ j = i),
      getElem?_cells]
    by_cases hj : j < n + 1
    · rw [if_pos hj, if_pos (by omega : j - 1 < n), cell_pmove (n := n + 1) hj h (by omega),
        if_pos (by omega), show i + (j - (i + 1)) = j - 1 by omega]
    · rw [if_neg hj, if_neg (by omega : ¬ j - 1 < n)]

/-- The elements behind `i` move down by one. -/
theorem cells_erase (hi : i < n) (h : n * e ≤ l.length) :
    cells e (n - 1) (pmove l (i * e) ((i + 1) * e) ((n - i - 1) * e))
      = (cells e n l).eraseIdx i := by
  apply List.ext_getElem?
  intro j
  rw [getElem?_cells, List.getElem?_eraseIdx]
  by_cases hji : j < i
  · rw [if_pos (by omega), if_pos hji, getElem?_cells, if_pos (by omega),
      cell_pmove (n := n) (by omega) h (by omega), if_neg (by omega)]
  · rw [if_neg hji, getElem?_cells]
    by_cases hj : j + 1 < n
    · rw [if_pos (by omega), if_pos hj, cell_pmove (n := n) (by omega) h (by omega),
        if_pos (by omega), show i + 1 + (j - i) = j + 1 by omega]
    · rw [if_neg (by omega), if_neg hj]

end Write

end MustDb.Lib
