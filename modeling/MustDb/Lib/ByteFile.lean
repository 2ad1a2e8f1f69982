import Mathlib.Algebra.Group.Defs
import Mathlib.Data.List.Basic

/-!
# `MustDb.Lib.ByteFile`: positioned reads and writes on an array

A file is a list of cells. `pread l off n` reads up to `n` cells from the offset `off`; it returns
fewer at the end of the file. `pwrite l off bs` stores `bs` at `off`. A write past the end extends
the file, and the hole between reads as `0`. A write of no cells changes nothing.

`pread_pwrite_same` and `pread_pwrite_disjoint` are the two laws of a store: a read of the written
range gives the written cells, and a read of a range that does not meet it is unchanged.
`pread_pwrite_take` is the torn write: only a prefix of `bs` arrives, the rest of the range keeps
its old cells.
-/

set_option autoImplicit false

namespace MustDb.Lib

variable {α : Type}

/-- Up to `n` cells from the offset `off`. -/
def pread (l : List α) (off n : Nat) : List α :=
  (l.drop off).take n

/-- Store `bs` at the offset `off`. A hole before `off` is filled with `0`. -/
def pwrite [Zero α] (l : List α) (off : Nat) (bs : List α) : List α :=
  if bs.isEmpty then l
  else (l ++ List.replicate (off - l.length) 0).take off ++ bs ++ l.drop (off + bs.length)

theorem getElem?_pread (l : List α) (off n i : Nat) :
    (pread l off n)[i]? = if i < n then l[off + i]? else none := by
  simp [pread, List.getElem?_take, List.getElem?_drop]

@[simp] theorem length_pread (l : List α) (off n : Nat) :
    (pread l off n).length = min n (l.length - off) := by
  simp [pread]

@[simp] theorem pread_zero (l : List α) (off : Nat) : pread l off 0 = [] := by
  simp [pread]

/-- A read inside the file returns all the cells it asks for. -/
theorem length_pread_of_le {l : List α} {off n : Nat} (h : off + n ≤ l.length) :
    (pread l off n).length = n := by
  rw [length_pread]
  omega

/-- A read splits at any inner offset. -/
theorem pread_add (l : List α) (off m n : Nat) (h : off + m ≤ l.length) :
    pread l off (m + n) = pread l off m ++ pread l (off + m) n := by
  apply List.ext_getElem?
  intro i
  rw [List.getElem?_append, length_pread_of_le h]
  simp only [getElem?_pread]
  by_cases him : i < m
  · rw [if_pos him, if_pos (by omega), if_pos him]
  · rw [if_neg him, show off + m + (i - m) = off + i from by omega]
    by_cases hin : i < m + n
    · rw [if_pos hin, if_pos (by omega)]
    · rw [if_neg hin, if_neg (by omega)]

/-- A read inside the cells of another read. -/
theorem pread_pread (l : List α) (off n : Nat) {i m : Nat} (h : i + m ≤ n) :
    pread (pread l off n) i m = pread l (off + i) m := by
  apply List.ext_getElem?
  intro j
  simp only [getElem?_pread]
  by_cases hj : j < m
  · rw [if_pos hj, if_pos hj, if_pos (by omega), Nat.add_assoc]
  · rw [if_neg hj, if_neg hj]

/-- A change of a cell inside the range of a read. -/
theorem pread_set (l : List α) (off n k : Nat) (a : α) :
    pread (l.set (off + k) a) off n = (pread l off n).set k a := by
  rw [pread, pread, List.drop_set, if_neg (by omega), Nat.add_sub_cancel_left, List.take_set]

section Write
variable [Zero α]

@[simp] theorem pwrite_nil (l : List α) (off : Nat) : pwrite l off [] = l := rfl

/-- The cells of a file after a write. -/
theorem getElem?_pwrite {l bs : List α} {off : Nat} (hbs : bs ≠ []) (i : Nat) :
    (pwrite l off bs)[i]? =
      if i < off then (if i < l.length then l[i]? else some 0)
      else if i < off + bs.length then bs[i - off]? else l[i]? := by
  have hne : bs.isEmpty = false := by simp [hbs]
  -- `pwrite` fills the file with zeros up to `off` first, so the head has length `off`
  have hhead : ((l ++ List.replicate (off - l.length) (0 : α)).take off).length = off := by
    rw [List.length_take, List.length_append, List.length_replicate]
    omega
  rw [pwrite, hne, if_neg (by decide), List.append_assoc, List.getElem?_append, hhead]
  by_cases hio : i < off
  · -- in front of the write: the old cells, or the zeros that fill the hole
    rw [if_pos hio, if_pos hio, List.getElem?_take, if_pos hio, List.getElem?_append]
    by_cases hil : i < l.length
    · rw [if_pos hil, if_pos hil]
    · rw [if_neg hil, if_neg hil, List.getElem?_replicate, if_pos (by omega)]
  · -- from `off` on: the written cells, then what was behind them
    rw [if_neg hio, if_neg hio, List.getElem?_append]
    by_cases hib : i < off + bs.length
    · rw [if_pos (by omega), if_pos hib]
    · rw [if_neg (by omega), if_neg hib, List.getElem?_drop]
      congr 1
      omega

theorem length_pwrite {l bs : List α} {off : Nat} (hbs : bs ≠ []) :
    (pwrite l off bs).length = max l.length (off + bs.length) := by
  have hne : bs.isEmpty = false := by simp [hbs]
  rw [pwrite, hne, if_neg (by decide)]
  simp only [List.length_append, List.length_take, List.length_replicate, List.length_drop]
  omega

/-- A write never shortens a file. -/
theorem le_length_pwrite (l bs : List α) (off : Nat) : l.length ≤ (pwrite l off bs).length := by
  by_cases hbs : bs = []
  · simp [hbs]
  · rw [length_pwrite hbs]
    exact Nat.le_max_left _ _

/-- A write inside a buffer keeps its length. -/
theorem length_pwrite_of_le {l bs : List α} {off : Nat} (h : off + bs.length ≤ l.length) :
    (pwrite l off bs).length = l.length := by
  by_cases hbs : bs = []
  · simp [hbs]
  · rw [length_pwrite hbs]
    omega

/-- A read of the written range gives the written cells. -/
theorem pread_pwrite_same (l bs : List α) (off : Nat) :
    pread (pwrite l off bs) off bs.length = bs := by
  by_cases hbs : bs = []
  · simp [hbs, pread]
  · apply List.ext_getElem?
    intro i
    rw [getElem?_pread, getElem?_pwrite hbs]
    by_cases hi : i < bs.length
    · rw [if_pos hi, if_neg (by omega), if_pos (by omega), Nat.add_sub_cancel_left]
    · rw [if_neg hi, List.getElem?_eq_none (by omega)]

/-- A read inside the written range gives a part of the written cells. -/
theorem pread_pwrite_inside (l : List α) (off : Nat) {bs : List α} {i n : Nat}
    (h : i + n ≤ bs.length) : pread (pwrite l off bs) (off + i) n = pread bs i n := by
  rw [← pread_pread (pwrite l off bs) off bs.length h, pread_pwrite_same]

/-- A read of a stored range that the write does not meet is unchanged. -/
theorem pread_pwrite_disjoint {l bs : List α} {off off' n : Nat} (hstored : off' + n ≤ l.length)
    (h : off' + n ≤ off ∨ off + bs.length ≤ off') :
    pread (pwrite l off bs) off' n = pread l off' n := by
  by_cases hbs : bs = []
  · simp [hbs]
  · apply List.ext_getElem?
    intro i
    rw [getElem?_pread, getElem?_pread, getElem?_pwrite hbs]
    by_cases hi : i < n
    · rw [if_pos hi, if_pos hi]
      rcases h with h | h
      · rw [if_pos (by omega), if_pos (by omega)]
      · rw [if_neg (by omega), if_neg (by omega)]
    · rw [if_neg hi, if_neg hi]

/-- Two writes, one behind the other. -/
theorem pwrite_pwrite_append (l as bs : List α) (off : Nat) :
    pwrite (pwrite l off as) (off + as.length) bs = pwrite l off (as ++ bs) := by
  by_cases has : as = []
  · simp [has]
  by_cases hbs : bs = []
  · simp [hbs]
  have hne : as ++ bs ≠ [] := by simp [has]
  apply List.ext_getElem?
  intro i
  simp only [getElem?_pwrite has, getElem?_pwrite hbs, getElem?_pwrite hne, length_pwrite has,
    List.getElem?_append, List.length_append]
  by_cases hi : i < off + as.length
  · rw [if_pos hi, if_pos (by omega)]
    by_cases hoff : i < off
    · rw [if_pos hoff, if_pos hoff]
    · rw [if_neg hoff, if_pos hi, if_neg hoff, if_pos (by omega), if_pos (by omega)]
  · have hoff : ¬ i < off := by omega
    have hindex : ¬ i - off < as.length := by omega
    rw [if_neg hi, if_neg hoff, if_neg hi, if_neg hoff, if_neg hindex, Nat.add_assoc,
      Nat.sub_sub]

/-- A write at the border of two parts of a buffer. -/
theorem pwrite_append (as bs new : List α) :
    pwrite (as ++ bs) as.length new = as ++ (new ++ bs.drop new.length) := by
  by_cases hnew : new = []
  · simp [hnew]
  · have hne : new.isEmpty = false := by simp [hnew]
    have hpad : as.length - (as ++ bs).length = 0 := by
      rw [List.length_append]
      omega
    rw [pwrite, hne, if_neg (by decide), hpad, List.replicate_zero, List.append_nil,
      List.take_left, ← List.drop_drop, List.drop_left, List.append_assoc]

/-- A write inside the second part of a buffer. -/
theorem pwrite_append_right {as bs new : List α} {off : Nat} (h : off + new.length ≤ bs.length) :
    pwrite (as ++ bs) (as.length + off) new = as ++ pwrite bs off new := by
  by_cases hnew : new = []
  · simp [hnew]
  · apply List.ext_getElem?
    intro i
    simp only [getElem?_pwrite hnew, List.getElem?_append, List.length_append]
    by_cases hi : i < as.length
    · rw [if_pos (by omega), if_pos (by omega), if_pos hi, if_pos hi]
    · simp only [hi, if_false]
      by_cases hoff : i < as.length + off
      · rw [if_pos hoff, if_pos (by omega), if_pos (by omega), if_pos (by omega)]
      · by_cases hin : i < as.length + off + new.length
        · rw [if_neg hoff, if_pos hin, if_neg (by omega), if_pos (by omega)]
          congr 1
          omega
        · rw [if_neg hoff, if_neg hin, if_neg (by omega), if_neg (by omega)]

/-- A torn write: the first `k` cells of `bs` arrive, the rest of the range keeps its old cells. -/
theorem pread_pwrite_take (l bs : List α) (off k : Nat) :
    pread (pwrite l off (bs.take k)) off bs.length
      = bs.take k ++ (pread l off bs.length).drop k := by
  by_cases hbs : bs.take k = []
  · -- nothing arrives, so the file is as it was: `k` is zero, or there is nothing to write
    have hk : (pread l off bs.length).drop k = pread l off bs.length := by
      rcases List.take_eq_nil_iff.mp hbs with hk | hnil
      · rw [hk, List.drop_zero]
      · simp [hnil, pread]
    rw [hbs, pwrite_nil, hk, List.nil_append]
  · apply List.ext_getElem?
    intro i
    rw [getElem?_pread, getElem?_pwrite hbs, List.getElem?_append, List.getElem?_drop,
      getElem?_pread, List.length_take]
    -- both sides are empty behind the range, and split at `min k bs.length` inside it
    by_cases hi : i < bs.length
    · rw [if_pos hi, if_neg (by omega)]
      by_cases hik : i < min k bs.length
      · rw [if_pos (by omega), if_pos hik, Nat.add_sub_cancel_left]
      · rw [if_neg (by omega), if_neg hik, if_pos (by omega)]
        congr 1
        omega
    · rw [if_neg hi, if_neg (by omega), if_neg (by omega)]

end Write

end MustDb.Lib
