import Mathlib.Algebra.Group.Nat.Defs

/-!
# `MustDb.Lib.Malloc`: allocations that can fail

The outcomes of the next allocations of a program are a list of booleans, oldest first. When the
list is used up, every further allocation succeeds. So the empty list stands for a program with
enough memory, and a property of every list is a property of every way to run out of it.
-/

set_option autoImplicit false

namespace MustDb.Lib

/-- The outcomes of the next allocations. -/
abbrev MallocOutcomes := List Bool

/-- `malloc`: whether it returns memory, and the outcomes after it. -/
def malloc : MallocOutcomes → Bool × MallocOutcomes
  | [] => (true, [])
  | outcome :: outcomes => (outcome, outcomes)

/-- `calloc(n, size)`: it fails when `n * size` does not fit in `size_t`. -/
def calloc (n size : Nat) (outcomes : MallocOutcomes) : Bool × MallocOutcomes :=
  if n * size < 2 ^ 64 then malloc outcomes else (false, outcomes)

@[simp] theorem malloc_nil : malloc [] = (true, []) := rfl

/-- An allocation that fails has its outcome in the list. -/
theorem false_mem_of_malloc {outcomes : MallocOutcomes} (h : (malloc outcomes).1 = false) :
    false ∈ outcomes := by
  cases outcomes with
  | nil => cases h
  | cons outcome outcomes =>
      have houtcome : outcome = false := h
      simp [houtcome]

/-- The outcomes after an allocation are some of those before it. -/
theorem mem_of_mem_malloc {outcomes : MallocOutcomes} {outcome : Bool}
    (h : outcome ∈ (malloc outcomes).2) : outcome ∈ outcomes := by
  cases outcomes with
  | nil => exact h
  | cons first outcomes => exact List.mem_cons_of_mem _ h

/-- An allocation takes the first outcome. -/
theorem malloc_eq_true_iff (outcomes : MallocOutcomes) :
    (malloc outcomes).1 = true ↔ false ∉ outcomes.take 1 := by
  cases outcomes with
  | nil => simp [malloc]
  | cons outcome outcomes => simp [malloc]

theorem malloc_rest (outcomes : MallocOutcomes) : (malloc outcomes).2 = outcomes.drop 1 := by
  cases outcomes with
  | nil => rfl
  | cons outcome outcomes => rfl

theorem mem_of_mem_calloc {n size : Nat} {outcomes : MallocOutcomes} {outcome : Bool}
    (h : outcome ∈ (calloc n size outcomes).2) : outcome ∈ outcomes := by
  rw [calloc] at h
  split at h
  · exact mem_of_mem_malloc h
  · exact h

end MustDb.Lib
