import Mathlib.Algebra.GroupWithZero.Nat
import Mathlib.Algebra.Order.BigOperators.Group.List
import Mathlib.Algebra.Order.Group.Nat

/-!
# `MustDb.Lib.Threads`: threads of which one moves

The threads of a program are a list, each at its own point `τ`. A step of thread `i` replaces the
element `i`. The lemmas say what happens to a property of all threads, to a thread that is
somewhere, and to a sum over the threads.
-/

set_option autoImplicit false

namespace MustDb.Lib

variable {τ : Type} {threads : List τ} {i : Nat} {a : τ}

/-- A property of all threads, after a step of one. -/
theorem forall_mem_set {p : τ → Prop} {b : τ} (h : ∀ x ∈ threads, p x) (hb : p b) :
    ∀ x ∈ threads.set i b, p x := by
  intro x hx
  rcases List.mem_or_eq_of_mem_set hx with hx | rfl
  · exact h x hx
  · exact hb

/-- The thread that has moved is one of the threads. -/
theorem mem_set_of_getElem? (ha : threads[i]? = some a) (b : τ) : b ∈ threads.set i b := by
  obtain ⟨hi, -⟩ := List.getElem?_eq_some_iff.mp ha
  exact List.mem_set hi b

/-- A thread is the one that moves, or it is there after the step. -/
theorem eq_or_mem_set (ha : threads[i]? = some a) {x : τ} (hx : x ∈ threads) (b : τ) :
    x = a ∨ x ∈ threads.set i b := by
  obtain ⟨j, hj⟩ := List.mem_iff_getElem?.mp hx
  by_cases hij : i = j
  · subst hij
    rw [ha] at hj
    exact Or.inl (Option.some.inj hj).symm
  · rw [← List.getElem?_set_ne hij (a := b)] at hj
    exact Or.inr (List.mem_of_getElem? hj)

/-- A sum over the threads, after a step of one. -/
theorem sum_map_set (f : τ → Nat) :
    ∀ {threads : List τ} {i : Nat} {a : τ}, threads[i]? = some a → ∀ b,
      ((threads.set i b).map f).sum + f a = (threads.map f).sum + f b := by
  intro threads
  induction threads with
  | nil =>
      intro i a ha
      cases ha
  | cons x threads ih =>
      intro i a ha b
      cases i with
      | zero =>
          cases ha
          simp only [List.set_cons_zero, List.map_cons, List.sum_cons]
          omega
      | succ i =>
          have hsum := ih ha b
          simp only [List.set_cons_succ, List.map_cons, List.sum_cons]
          omega

/-- A thread has no more than all of them. -/
theorem le_sum_map (f : τ → Nat) (ha : threads[i]? = some a) : f a ≤ (threads.map f).sum :=
  List.le_sum_of_mem (List.mem_map_of_mem (List.mem_of_getElem? ha))

end MustDb.Lib
