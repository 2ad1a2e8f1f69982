import Mathlib.Data.FinEnum
import Mathlib.Data.Set.Function
import MustDb.Proofs.Libv.Checksum
import MustDb.Proofs.Libv.Hmap

/-!
# `MustDb.Proofs.Libv.Mixer`: what the 32-bit mixer keeps apart

`hmap_int_hash` is the mixer without its widening, and it permutes the 32-bit words
(`hmapIntHash_bijective`). It is injective because each of its five steps is, and an injective map
of a finite type into itself is onto. So `murmurhash32` is a bijection from the 32-bit words to the
64-bit words below `2^32` (`murmurhash32_bijOn`).

Two consequences follow. Int keys share a full hash only when they compare equal
(`hmapIntHash_eq_iff`), so two keys in one bucket are there because of the bucket index. And two
buffers of complete words that agree in all words but one have different checksums when they differ
in the low half of this one (`DifferInLowHalf.checksum_ne`): the fold over the words keeps every
single difference that the mixer sees.
-/

set_option autoImplicit false

namespace MustDb.Proofs.Libv

open Function
open MustDb.Lib
open MustDb.Libv

/-! ### The permutation -/

/-- The mixer widens a 32-bit result, and `hmap_int_hash` takes it back. -/
theorem murmurhash32_eq_toUInt64 (x : UInt32) : murmurhash32 x = (hmapIntHash x).toUInt64 := by
  rw [hmapIntHash, murmurhash32, UInt32.toUInt32_toUInt64]

/-- Nothing is lost in the narrowing. -/
theorem hmapIntHash_injective : Injective hmapIntHash := by
  intro x y h
  apply murmurhash32_injective
  rw [murmurhash32_eq_toUInt64, murmurhash32_eq_toUInt64, h]

/-- There are as many hashes as words, so every word is a hash. -/
theorem hmapIntHash_bijective : Bijective hmapIntHash :=
  Finite.injective_iff_bijective.mp hmapIntHash_injective

/-- The hash of an int key is the key up to comparison. -/
theorem hmapIntHash_eq_iff {key key' : UInt32} :
    hmapIntHash key = hmapIntHash key' ↔ hmapIntCmp key key' = 0 := by
  rw [hmapIntHash_injective.eq_iff, hmapIntCmp_eq_zero_iff]

/-- The mixer takes the 32-bit words to the 64-bit words that fit in 32 bits, one to one. -/
theorem murmurhash32_bijOn :
    Set.BijOn murmurhash32 Set.univ {v : UInt64 | v.toNat < 2 ^ 32} := by
  refine ⟨?_, murmurhash32_injective.injOn, ?_⟩
  · intro x _
    show (murmurhash32 x).toNat < 2 ^ 32
    rw [murmurhash32_eq_toUInt64, UInt32.toNat_toUInt64]
    exact UInt32.toNat_lt _
  · intro v (hv : v.toNat < 2 ^ 32)
    obtain ⟨x, hx⟩ := hmapIntHash_bijective.surjective v.toUInt32
    refine ⟨x, Set.mem_univ x, ?_⟩
    -- a word below `2^32` survives the narrowing
    rw [murmurhash32_eq_toUInt64, hx, ← UInt64.toNat_inj, UInt32.toNat_toUInt64,
      UInt64.toNat_toUInt32, Nat.mod_eq_of_lt hv]

/-! ### Buffers of complete words -/

section Buffers
variable {buffer buffer' : List UInt8} {i : Nat}

/-- When two buffers of complete words agree in the low half of every word but one, the checksum
tells whether they agree there too. -/
theorem checksum_eq_iff (h8 : 8 ∣ buffer.length) (hlen : buffer'.length = buffer.length)
    (hi : i < buffer.length / 8)
    (hothers : ∀ j < buffer.length / 8, j ≠ i →
      (wordAt buffer' j).toUInt32 = (wordAt buffer j).toUInt32) :
    checksum buffer' = checksum buffer ↔
      (wordAt buffer' i).toUInt32 = (wordAt buffer i).toUInt32 := by
  rw [checksum_of_dvd h8, checksum_of_dvd (hlen ▸ h8), hlen]
  exact checksumWords_eq_iff hi 5381 hothers

/-- Two buffers of one length whose only difference is in the low half of the aligned word `i`. -/
structure DifferInLowHalf (buffer buffer' : List UInt8) (i : Nat) : Prop where
  length_eq : buffer'.length = buffer.length
  lt : i < buffer.length / 8
  others : ∀ j < buffer.length / 8, j ≠ i → wordAt buffer' j = wordAt buffer j
  high : wordAt buffer' i >>> 32 = wordAt buffer i >>> 32
  low : (wordAt buffer' i).toUInt32 ≠ (wordAt buffer i).toUInt32

/-- A difference in the low half of one word shows in the checksum. -/
theorem DifferInLowHalf.checksum_ne (h : DifferInLowHalf buffer buffer' i)
    (h8 : 8 ∣ buffer.length) : checksum buffer' ≠ checksum buffer := by
  intro heq
  have hothers (j : Nat) (hj : j < buffer.length / 8) (hne : j ≠ i) :
      (wordAt buffer' j).toUInt32 = (wordAt buffer j).toUInt32 := by
    rw [h.others j hj hne]
  exact h.low ((checksum_eq_iff h8 h.length_eq h.lt hothers).mp heq)

end Buffers

/-- The mixer permutes the 32-bit words, and neither the fold over a buffer nor the narrowing to a
hash of a key undoes this. -/
theorem mixer_keeps_apart :
    (∀ x y, murmurhash32 x = murmurhash32 y → x = y) ∧
      Set.BijOn murmurhash32 Set.univ {v : UInt64 | v.toNat < 2 ^ 32} ∧
      (∀ (buffer buffer' : List UInt8) (i : Nat), 8 ∣ buffer.length →
        DifferInLowHalf buffer buffer' i → checksum buffer' ≠ checksum buffer) ∧
      ∀ key key' : UInt32, key ≠ key' → hmapIntHash key ≠ hmapIntHash key' := by
  refine ⟨fun x y h => murmurhash32_injective h, murmurhash32_bijOn, ?_, ?_⟩
  · intro buffer buffer' i h8 h
    exact h.checksum_ne h8
  · intro key key' hne
    exact hmapIntHash_injective.ne hne

/-- Two buffers that differ in the first byte of their second word, and two keys. -/
theorem mixer_keeps_apart_two_words :
    checksum [1, 2, 3, 4, 5, 6, 7, 8, 200, 0, 0, 0, 9, 9, 9, 9] ≠
        checksum [1, 2, 3, 4, 5, 6, 7, 8, 0, 0, 0, 0, 9, 9, 9, 9] ∧
      hmapIntHash 7 ≠ hmapIntHash 8 := by
  refine ⟨mixer_keeps_apart.2.2.1 _ _ 1 (by decide) ⟨rfl, by decide, ?_, by decide, by decide⟩,
    mixer_keeps_apart.2.2.2 7 8 (by decide)⟩
  intro j hj hne
  have hzero : j = 0 := by
    simp only [List.length_cons, List.length_nil] at hj
    omega
  subst hzero
  decide

end MustDb.Proofs.Libv
