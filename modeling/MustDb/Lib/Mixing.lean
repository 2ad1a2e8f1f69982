import Mathlib.Data.UInt
import Mathlib.Logic.Function.Basic

/-!
# `MustDb.Lib.Mixing`: hash steps that lose nothing

A mixing step of an integer hash maps different words to different words. The two usual ones are
`x ^ (x >> k)` (`xorShift_injective`) and the multiplication by a constant with an inverse
(`mul_const_injective`). A fold whose step is injective in both arguments tells lists apart that
differ in one place (`foldl_set_ne`).
-/

set_option autoImplicit false

namespace MustDb.Lib

open Function

/-- `x ^ (x >> k)` can be undone from the top bit down: bit `i` needs only bit `i + k`. -/
theorem bitVec_xorShift_injective {w k : Nat} (hk : 0 < k) :
    Injective fun x : BitVec w => x ^^^ (x >>> k) := by
  intro x y h
  -- induction on the number of bits above bit `i`
  have hbits : ∀ n i, w ≤ i + n → x.getLsbD i = y.getLsbD i := by
    intro n
    induction n with
    | zero =>
        intro i hi
        rw [BitVec.getLsbD_of_ge x i hi, BitVec.getLsbD_of_ge y i hi]
    | succ n ih =>
        intro i hi
        have hbit := congrArg (BitVec.getLsbD · i) h
        simp only [BitVec.getLsbD_xor, BitVec.getLsbD_ushiftRight] at hbit
        rw [ih (k + i) (by omega)] at hbit
        exact Bool.xor_left_inj.mp hbit
  exact BitVec.eq_of_getLsbD_eq fun i _ => hbits w i (by omega)

/-- `x ^ (x >> k)` on 32-bit words. -/
theorem xorShift_injective {k : UInt32} (hk : 0 < k.toNat % 32) :
    Injective fun x : UInt32 => x ^^^ (x >>> k) := by
  intro x y h
  have hbits := congrArg UInt32.toBitVec h
  simp only [UInt32.toBitVec_xor, UInt32.toBitVec_shiftRight] at hbits
  exact UInt32.toBitVec_inj.mp (bitVec_xorShift_injective hk hbits)

/-- The multiplication by a constant that has an inverse. -/
theorem mul_const_injective {M : Type} [Monoid M] {c d : M} (h : c * d = 1) :
    Injective fun x : M => x * c := by
  intro x y hxy
  have hback := congrArg (· * d) hxy
  simpa only [mul_assoc, h, mul_one] using hback

section Fold
variable {α β : Type} {f : β → α → β}

/-- A fold with an injective step keeps different accumulators apart. -/
theorem foldl_injective (hacc : ∀ a, Injective fun b => f b a) (l : List α) :
    Injective fun b => l.foldl f b := by
  induction l with
  | nil => exact injective_id
  | cons a l ih => exact ih.comp (hacc a)

/-- A fold with an injective step sees every change of one element. -/
theorem foldl_set_ne (hacc : ∀ a, Injective fun b => f b a) (helem : ∀ b, Injective (f b)) :
    ∀ {l : List α} {i : Nat} (hi : i < l.length) {a : α} (b : β), l[i] ≠ a →
      (l.set i a).foldl f b ≠ l.foldl f b := by
  intro l
  induction l with
  | nil =>
      intro i hi
      cases hi
  | cons first l ih =>
      intro i hi a b hne
      cases i with
      | zero =>
          intro h
          exact hne (helem b (foldl_injective hacc l h)).symm
      | succ i => exact ih (Nat.lt_of_succ_lt_succ hi) (f b first) hne

end Fold

end MustDb.Lib
