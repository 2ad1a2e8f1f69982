import Mathlib.Algebra.BigOperators.Group.List.Basic
import Mathlib.Algebra.GroupWithZero.Nat
import Mathlib.Order.Basic

/-!
# `MustDb.Lib.Tiling`: consecutive ranges

A range is its start and its size. `Tiles lo ranges hi` says that the ranges are non-empty, that the
first one starts at `lo`, each one starts where the one before it ends, and the last one ends at
`hi`. A tiling is extended at its end (`Tiles.concat`), its sizes add up to the whole (`Tiles.sum`),
and each number between its ends is in exactly one of its ranges (`Tiles.existsUnique`).
-/

set_option autoImplicit false

namespace MustDb.Lib

/-- The ranges are consecutive from `lo` to `hi`, and none is empty. -/
def Tiles : Nat → List (Nat × Nat) → Nat → Prop
  | lo, [], hi => lo = hi
  | lo, (start, size) :: ranges, hi => start = lo ∧ 0 < size ∧ Tiles (lo + size) ranges hi

variable {lo mid hi size : Nat} {ranges : List (Nat × Nat)}

/-- One more range at the end. -/
theorem Tiles.concat (h : Tiles lo ranges mid) (hsize : 0 < size) :
    Tiles lo (ranges ++ [(mid, size)]) (mid + size) := by
  induction ranges generalizing lo with
  | nil =>
      cases h
      exact ⟨rfl, hsize, rfl⟩
  | cons range ranges ih =>
      obtain ⟨hstart, hpos, hrest⟩ := h
      exact ⟨hstart, hpos, ih hrest⟩

/-- The sizes add up to the distance of the ends. -/
theorem Tiles.sum (h : Tiles lo ranges hi) : lo + (ranges.map Prod.snd).sum = hi := by
  induction ranges generalizing lo with
  | nil => exact h
  | cons range ranges ih =>
      obtain ⟨-, -, hrest⟩ := h
      rw [List.map_cons, List.sum_cons, ← Nat.add_assoc]
      exact ih hrest

/-- The ranges lie between the ends. -/
theorem Tiles.bounds (h : Tiles lo ranges hi) :
    ∀ range ∈ ranges, lo ≤ range.1 ∧ range.1 + range.2 ≤ hi := by
  induction ranges generalizing lo with
  | nil => exact fun _ hmem => nomatch hmem
  | cons range ranges ih =>
      obtain ⟨hstart, -, hrest⟩ := h
      have hsum := hrest.sum
      intro other hmem
      rcases List.mem_cons.mp hmem with rfl | hmem
      · omega
      · have hother := ih hrest other hmem
        omega

/-- Each number between the ends is in exactly one range. -/
theorem Tiles.existsUnique (h : Tiles lo ranges hi) {row : Nat} (hlo : lo ≤ row) (hhi : row < hi) :
    ∃! i : Nat, ∃ range : Nat × Nat,
      ranges[i]? = some range ∧ range.1 ≤ row ∧ row < range.1 + range.2 := by
  induction ranges generalizing lo with
  | nil =>
      cases h
      omega
  | cons range ranges ih =>
      obtain ⟨hstart, -, hrest⟩ := h
      by_cases hrow : row < lo + range.2
      · -- the row is in the first range, and the later ones start behind it
        refine ⟨0, ⟨range, rfl, by omega⟩, ?_⟩
        rintro i ⟨other, hother, hle, -⟩
        cases i with
        | zero => rfl
        | succ i =>
            have hbound := hrest.bounds other (List.mem_of_getElem? hother)
            omega
      · -- the row is behind the first range
        obtain ⟨i, hi, hunique⟩ := ih hrest (by omega)
        refine ⟨i + 1, hi, ?_⟩
        rintro j ⟨other, hother, hle, hlt⟩
        cases j with
        | zero =>
            cases hother
            omega
        | succ j => exact congrArg Nat.succ (hunique j ⟨other, hother, hle, hlt⟩)

end MustDb.Lib
