/-!
# `MustDb.Lib.Alignment`: the next multiple

`padding n a` is the distance from `n` to the next multiple of `a`, as programs compute it: nothing
if `n` is a multiple, and else what the remainder leaves.
-/

set_option autoImplicit false

namespace MustDb.Lib

/-- The distance from `n` to the next multiple of `a`. -/
def padding (n a : Nat) : Nat := if n % a = 0 then 0 else a - n % a

variable {n a : Nat}

theorem padding_lt (ha : 0 < a) : padding n a < a := by
  unfold padding
  split
  · exact ha
  · omega

/-- The padded number is a multiple. -/
theorem dvd_add_padding (ha : 0 < a) : a ∣ n + padding n a := by
  unfold padding
  split
  case isTrue h => exact Nat.dvd_of_mod_eq_zero h
  case isFalse =>
      have hlt := Nat.mod_lt n ha
      have hdiv := Nat.div_add_mod n a
      refine ⟨n / a + 1, ?_⟩
      rw [Nat.mul_add, Nat.mul_one]
      omega

end MustDb.Lib
