import Mathlib.Data.List.Count
import MustDb.Lib.Run

/-!
# `MustDb.Lib.Ledger`: what a program does with its resources

A program acquires resources, uses them, and releases them again. Its deeds are a list, oldest
first. `Accounted deeds` says that the program is even at the end: each resource that it has
acquired is released exactly once, and at each use and each release of a resource the program holds
it. `Accounted.count_eq` is the balance of one resource: a program that is even has as many releases
of it as acquisitions.
-/

set_option autoImplicit false

namespace MustDb.Lib

/-- What a program does with a resource. -/
inductive Deed (ρ : Type) where
  | acquire (r : ρ)
  | release (r : ρ)
  | use (r : ρ)
  deriving DecidableEq

/-- A resource is used or released that the program does not hold. -/
inductive Misdeed where
  | notHeld
  deriving DecidableEq

variable {ρ : Type} [DecidableEq ρ]

/-- The resources that the program holds after a deed. -/
def ledgerStep (held : List ρ) : Deed ρ → Except Misdeed (List ρ)
  | .acquire r => .ok (r :: held)
  | .release r => if r ∈ held then .ok (held.erase r) else .error .notHeld
  | .use r => if r ∈ held then .ok held else .error .notHeld

/-- The program is even at the end. -/
def Accounted (deeds : List (Deed ρ)) : Prop := run ledgerStep [] deeds = .ok []

instance (deeds : List (Deed ρ)) : Decidable (Accounted deeds) :=
  inferInstanceAs (Decidable (_ = _))

/-- What is held, and what was released, has been acquired. -/
theorem run_ledger_count (r : ρ) :
    ∀ {deeds : List (Deed ρ)} {held held' : List ρ}, run ledgerStep held deeds = .ok held' →
      held.count r + deeds.count (.acquire r) = held'.count r + deeds.count (.release r) := by
  intro deeds
  induction deeds with
  | nil =>
      intro held held' h
      cases h
      simp
  | cons deed deeds ih =>
      intro held held' h
      obtain ⟨next, hstep, hrest⟩ := run_cons_ok h
      have hcount := ih hrest
      cases deed with
      | acquire s =>
          cases hstep
          simp only [List.count_cons, beq_iff_eq, Deed.acquire.injEq, reduceCtorEq, if_false] at *
          omega
      | release s =>
          rw [ledgerStep] at hstep
          split at hstep
          case isTrue hmem =>
              cases hstep
              rw [List.count_erase] at hcount
              have hpos := List.count_pos_iff.mpr hmem
              simp only [List.count_cons, beq_iff_eq, Deed.release.injEq, reduceCtorEq, if_false]
                at *
              split at hcount
              case isTrue heq =>
                  subst heq
                  simp only [if_true]
                  omega
              case isFalse hne =>
                  simp only [hne, if_false]
                  omega
          case isFalse => cases hstep
      | use s =>
          rw [ledgerStep] at hstep
          split at hstep
          case isTrue hmem =>
              cases hstep
              simpa [List.count_cons] using hcount
          case isFalse => cases hstep

/-- Each resource is released as often as it is acquired. -/
theorem Accounted.count_eq {deeds : List (Deed ρ)} (h : Accounted deeds) (r : ρ) :
    deeds.count (.acquire r) = deeds.count (.release r) := by
  have hcount := run_ledger_count r h
  simpa using hcount

/-! The deeds of one kind, with the resources of a list. -/

@[simp] theorem count_acquire_map_acquire (rs : List ρ) (r : ρ) :
    (rs.map Deed.acquire).count (.acquire r) = rs.count r :=
  List.count_map_of_injective rs Deed.acquire (fun _ _ => Deed.acquire.inj) r

@[simp] theorem count_release_map_release (rs : List ρ) (r : ρ) :
    (rs.map Deed.release).count (.release r) = rs.count r :=
  List.count_map_of_injective rs Deed.release (fun _ _ => Deed.release.inj) r

@[simp] theorem count_acquire_map_release (rs : List ρ) (r : ρ) :
    (rs.map Deed.release).count (.acquire r) = 0 := by
  simp [List.count_eq_zero]

@[simp] theorem count_release_map_acquire (rs : List ρ) (r : ρ) :
    (rs.map Deed.acquire).count (.release r) = 0 := by
  simp [List.count_eq_zero]

/-- Uses of a resource that is held. -/
theorem run_uses {held : List ρ} {r : ρ} (h : r ∈ held) (n : Nat) :
    run ledgerStep held (List.replicate n (.use r)) = .ok held := by
  induction n with
  | zero => rfl
  | succ n ih => rw [List.replicate_succ, run_cons _ (if_pos h), ih]

/-- A use of a resource that is not held. -/
theorem run_use_of_notMem {held : List ρ} {r : ρ} (h : r ∉ held) (deeds : List (Deed ρ)) :
    run ledgerStep held (.use r :: deeds) = .error .notHeld := by
  rw [run, ledgerStep, if_neg h]
  rfl

end MustDb.Lib
