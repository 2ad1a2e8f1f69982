import Mathlib.Data.UInt
import MustDb.Lib.While

/-!
# `MustDb.Lib.Doubling`: powers of two in 64-bit numbers

A program doubles a number until it reaches a bound: `while (n < bound) n <<= 1`. If the start is a
power of two and the bound is at most `2 ^ 63`, the loop ends at a power of two
(`doubling_ends`). With a greater bound it never ends (`doubling_diverges`): the number goes past
`2 ^ 63` to zero and stays there.

A power of two makes a mask: `x & (n - 1)` is `x % n` (`toNat_and_sub_one`).
-/

set_option autoImplicit false

namespace MustDb.Lib

variable {ε : Type} {timeout : ε} {n bound : UInt64} {k : Nat}

theorem toNat_shiftLeft_one (n : UInt64) : (n <<< 1).toNat = 2 * n.toNat % 2 ^ 64 := by
  have hone : (1 : UInt64).toNat % 64 = 1 := rfl
  rw [UInt64.toNat_shiftLeft, hone, Nat.shiftLeft_eq, Nat.pow_one, Nat.mul_comm]

/-- One turn, below the greatest power of two. -/
theorem toNat_double (h : n.toNat = 2 ^ k) (hk : k < 63) : (n <<< 1).toNat = 2 ^ (k + 1) := by
  have hlt : 2 ^ (k + 1) < 2 ^ 64 := Nat.pow_lt_pow_right (by decide) (by omega)
  rw [toNat_shiftLeft_one, h, Nat.mul_comm, ← Nat.pow_succ, Nat.mod_eq_of_lt hlt]

/-- The mask of a power of two is the remainder. -/
theorem toNat_and_sub_one (h : n.toNat = 2 ^ k) (x : UInt64) :
    (x &&& (n - 1)).toNat = x.toNat % n.toNat := by
  have hle : (1 : UInt64) ≤ n := by
    rw [UInt64.le_iff_toNat_le, h]
    exact Nat.one_le_two_pow
  rw [UInt64.toNat_and, UInt64.toNat_sub_of_le _ _ hle, UInt64.toNat_one, h,
    Nat.and_two_pow_sub_one_eq_mod]

/-- The loop ends. Induction on the turns that are left up to `2 ^ 63`. -/
theorem doubling_ends (hbound : bound.toNat ≤ 2 ^ 63) :
    ∀ (fuel : Nat) {k : Nat} {n : UInt64}, k + fuel = 63 → n.toNat = 2 ^ k →
      ∃ k' n', whileLoop timeout (fun n => decide (n < bound)) (fun n => .ok (n <<< 1)) fuel n
        = .ok n' ∧ k ≤ k' ∧ n'.toNat = 2 ^ k' ∧ bound ≤ n' := by
  intro fuel
  induction fuel with
  | zero =>
      intro k n hk hn
      have hle : bound ≤ n := by
        rw [UInt64.le_iff_toNat_le, hn, show k = 63 by omega]
        exact hbound
      have hcond : decide (n < bound) = false := decide_eq_false (UInt64.not_lt.mpr hle)
      exact ⟨k, n, whileLoop_of_false 0 hcond, Nat.le_refl k, hn, hle⟩
  | succ fuel ih =>
      intro k n hk hn
      by_cases hlt : n < bound
      · obtain ⟨k', n', hloop, hkk', hn', hle⟩ :=
          ih (k := k + 1) (by omega) (toNat_double hn (by omega))
        refine ⟨k', n', ?_, by omega, hn', hle⟩
        rw [whileLoop, if_pos (decide_eq_true hlt)]
        exact hloop
      · exact ⟨k, n, whileLoop_of_false _ (decide_eq_false hlt), Nat.le_refl k, hn,
          UInt64.not_lt.mp hlt⟩

/-- A 64-bit number that is a power of two, or what is left when it was doubled too often. -/
def TwoPowOrZero (n : UInt64) : Prop := n = 0 ∨ ∃ k ≤ 63, n.toNat = 2 ^ k

/-- The loop never ends: no power of two reaches the bound, and zero does not either. -/
theorem doubling_diverges (hbound : 2 ^ 63 < bound.toNat) (fuel : Nat) (hn : TwoPowOrZero n) :
    whileLoop timeout (fun n => decide (n < bound)) (fun n => .ok (n <<< 1)) fuel n
      = .error timeout := by
  refine whileLoop_diverges TwoPowOrZero (fun n hn => ?_) fuel n hn
  have hle : n.toNat ≤ 2 ^ 63 := by
    rcases hn with rfl | ⟨k, hk, hn⟩
    · exact Nat.zero_le _
    · rw [hn]
      exact Nat.pow_le_pow_right (by decide) hk
  have hlt : n < bound := UInt64.lt_iff_toNat_lt.mpr (by omega)
  refine ⟨decide_eq_true hlt, n <<< 1, rfl, ?_⟩
  rcases hn with rfl | ⟨k, hk, hn⟩
  · exact Or.inl rfl
  · rcases Nat.lt_or_ge k 63 with hlt | hge
    · exact Or.inr ⟨k + 1, hlt, toNat_double hn hlt⟩
    · -- the last power of two is shifted out
      have hk : k = 63 := by omega
      subst hk
      refine Or.inl (UInt64.toNat_inj.mp ?_)
      rw [toNat_shiftLeft_one, hn]
      rfl

end MustDb.Lib
