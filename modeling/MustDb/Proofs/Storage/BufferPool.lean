import MustDb.Lib.Doubling
import MustDb.Storage.BufferPool

/-!
# `MustDb.Proofs.Storage.BufferPool`: how many buckets a pool gets

`buffer_pool_hash_size` doubles 16 until it reaches twice the number of pages, which is a 64-bit
product. `hashSize_iff` says when this is what the comments promise, a power of two that is large
enough: if and only if there are at most `2 ^ 62` pages. With more pages the product is above
`2 ^ 63` and the loop never ends, or the product has wrapped and the loop ends too early.
-/

set_option autoImplicit false

namespace MustDb.Proofs.Storage

open MustDb.Lib
open MustDb.Storage

/-- What the number of buckets should be for that many pages. -/
structure HashSizeOk (numPages hashSize : UInt64) : Prop where
  power : ∃ k, hashSize.toNat = 2 ^ k
  min_le : BUFFER_POOL_HASH_MIN ≤ hashSize
  double_le : 2 * numPages.toNat ≤ hashSize.toNat
  hash_eq : ∀ blockId, (bufferPoolHash { hashSize } blockId).toNat
    = blockId.toNat % hashSize.toNat
  hash_lt : ∀ blockId, bufferPoolHash { hashSize } blockId < hashSize

theorem toNat_double_pages (numPages : UInt64) :
    (numPages * 2).toNat = 2 * numPages.toNat % 2 ^ 64 := by
  rw [UInt64.toNat_mul, Nat.mul_comm]
  rfl

theorem toNat_hashMin : BUFFER_POOL_HASH_MIN.toNat = 2 ^ 4 := rfl

/-- The mask of a pool with a power of two buckets. -/
theorem bufferPoolHash_eq {hashSize : UInt64} {k : Nat} (h : hashSize.toNat = 2 ^ k)
    (blockId : UInt64) :
    (bufferPoolHash { hashSize } blockId).toNat = blockId.toNat % hashSize.toNat :=
  toNat_and_sub_one h blockId

/-- The loop ends in time if the product is at most `2 ^ 63`. -/
theorem bufferPoolHashSize_ends {numPages : UInt64} (h : (numPages * 2).toNat ≤ 2 ^ 63) :
    ∃ k n, bufferPoolHashSize 59 numPages = .ok n ∧ 4 ≤ k ∧ n.toNat = 2 ^ k ∧ numPages * 2 ≤ n :=
  doubling_ends h 59 rfl toNat_hashMin

/-- The loop never ends if the product is greater. -/
theorem bufferPoolHashSize_diverges {numPages : UInt64} (h : 2 ^ 63 < (numPages * 2).toNat)
    (fuel : Nat) : bufferPoolHashSize fuel numPages = .error .outOfFuel :=
  doubling_diverges h fuel (Or.inr ⟨4, by decide, toNat_hashMin⟩)

/-- The buckets of a pool. -/
theorem hashSize_iff (numPages : UInt64) :
    (∃ fuel n, bufferPoolHashSize fuel numPages = .ok n ∧ HashSizeOk numPages n) ↔
      numPages.toNat ≤ 2 ^ 62 := by
  have hdouble := toNat_double_pages numPages
  constructor
  · rintro ⟨fuel, n, hloop, hok⟩
    have hle := hok.double_le
    by_contra hgt
    -- a power of two in 64 bits is at most `2 ^ 63`, and twice the pages is more
    obtain ⟨k, hk⟩ := hok.power
    have hlt := n.toNat_lt
    rw [hk] at hlt hle
    have hk63 : k ≤ 63 := Nat.le_of_lt_succ ((Nat.pow_lt_pow_iff_right (by decide)).mp hlt)
    have hpow : 2 ^ k ≤ 2 ^ 63 := Nat.pow_le_pow_right (by decide) hk63
    omega
  · intro hle
    have hproduct : (numPages * 2).toNat ≤ 2 ^ 63 := by omega
    obtain ⟨k, n, hloop, hk, hn, hbound⟩ := bufferPoolHashSize_ends hproduct
    have hbound := UInt64.le_iff_toNat_le.mp hbound
    have hhash (blockId : UInt64) := bufferPoolHash_eq hn blockId
    refine ⟨59, n, hloop, ⟨k, hn⟩, ?_, by omega, hhash, fun blockId => ?_⟩
    · rw [UInt64.le_iff_toNat_le, hn, toNat_hashMin]
      exact Nat.pow_le_pow_right (by decide) hk
    · rw [UInt64.lt_iff_toNat_lt, hhash]
      exact Nat.mod_lt _ (hn ▸ Nat.two_pow_pos k)

/-- For `2 ^ 62 + 1` pages the loop never ends. For `2 ^ 63` it ends at once, with 16 buckets. -/
theorem hashSize_fails :
    (∀ fuel, bufferPoolHashSize fuel 0x4000000000000001 = .error .outOfFuel) ∧
      bufferPoolHashSize 0 0x8000000000000000 = .ok 16 :=
  ⟨bufferPoolHashSize_diverges (by decide), rfl⟩

end MustDb.Proofs.Storage
