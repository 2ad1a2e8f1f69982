import MustDb.Lib.Mixing
import MustDb.Libv.Checksum

/-!
# `MustDb.Proofs.Libv.Checksum`: what a change of one byte does to the checksum

`murmurhash32` and `hash1` lose nothing: the first is injective (`murmurhash32_injective`), the
second tells strings apart that differ in one character (`hash1_set_ne`). `hash` is not injective,
because it mixes the low half of its word only.

So a changed byte changes the checksum, except in the high half of a complete 64-bit word, where it
never does. `checksum_set_eq_iff` says this for every buffer and every byte of it.
-/

set_option autoImplicit false

namespace MustDb.Proofs.Libv

open Function
open MustDb.Lib
open MustDb.Libv

/-! ### The mixers -/

/-- The five steps of the finalizer can be undone one by one. -/
theorem murmurhash32_injective : Injective murmurhash32 := by
  have hmul : Injective fun x : UInt32 => x * 0x85ebca6b :=
    mul_const_injective (d := 0xa5cb9243) (by decide)
  have hmul' : Injective fun x : UInt32 => x * 0xc2b2ae35 :=
    mul_const_injective (d := 0x7ed1b41d) (by decide)
  have hshift (k : UInt32) (hk : 0 < k.toNat % 32) := xorShift_injective hk
  have hwiden : Injective UInt32.toUInt64 := fun x y h => UInt32.toUInt64_inj.mp h
  exact hwiden.comp ((hshift 16 (by decide)).comp (hmul'.comp
    ((hshift 13 (by decide)).comp (hmul.comp (hshift 16 (by decide))))))

/-- The low half of a word in memory is its first four bytes. -/
theorem toUInt32_u64OfBytes_eq_iff {as bs : List UInt8} (ha : 4 ≤ as.length)
    (hb : 4 ≤ bs.length) :
    (u64OfBytes as).toUInt32 = (u64OfBytes bs).toUInt32 ↔ as.take 4 = bs.take 4 := by
  have hlow (cs : List UInt8) : (u64OfBytes cs).toUInt32.toNat = leNat (cs.take 4) := by
    rw [UInt64.toNat_toUInt32, toNat_u64OfBytes]
    show leNat (cs.take 8) % 256 ^ 4 = _
    rw [← leNat_take, List.take_take]
    rfl
  rw [← UInt32.toNat_inj, hlow, hlow]
  constructor
  · exact leNat_injective (by simp [ha, hb])
  · intro h
    rw [h]

/-- The step of `hash1`, a multiplication by 33 and an addition. -/
theorem hash1_step_eq (h : UInt64) (c : UInt8) :
    ((h <<< 5) + h) + c.toInt8.toInt64.toUInt64 = h * 33 + c.toInt8.toInt64.toUInt64 := by
  have hmul : (h <<< 5) + h = h * 33 := by
    apply UInt64.toNat_inj.mp
    rw [UInt64.toNat_add, UInt64.toNat_shiftLeft, UInt64.toNat_mul, Nat.shiftLeft_eq]
    show (h.toNat * 2 ^ 5 % 2 ^ 64 + h.toNat) % 2 ^ 64 = h.toNat * 33 % 2 ^ 64
    omega
  rw [hmul]

/-- A signed character keeps its value when it is widened. -/
theorem widen_char_injective : Injective fun c : UInt8 => c.toInt8.toInt64.toUInt64 := by
  intro c d h
  have hint := congrArg (fun x : UInt64 => x.toInt64.toInt) h
  simp only [Int64.toInt64_toUInt64, Int8.toInt_toInt64] at hint
  have hchar := congrArg Int8.toUInt8 (Int8.toInt_inj.mp hint)
  rwa [UInt8.toUInt8_toInt8, UInt8.toUInt8_toInt8] at hchar

/-- The string hash sees every change of one character. -/
theorem hash1_set_ne {bytes : List UInt8} {i : Nat} (hi : i < bytes.length) {b : UInt8}
    (hne : bytes[i] ≠ b) : hash1 (bytes.set i b) ≠ hash1 bytes := by
  refine foldl_set_ne ?_ ?_ hi 5381 hne
  · intro c h h' heq
    simp only [hash1_step_eq, add_left_inj] at heq
    exact mul_const_injective (d := 0x0f83e0f83e0f83e1) (by decide) heq
  · intro h c d heq
    simp only [add_right_inj] at heq
    exact widen_char_injective heq

/-! ### The checksum of a buffer -/

/-- A byte in the high half of a complete 64-bit word of a buffer of `size` bytes. -/
def InHighHalf (size i : Nat) : Prop := i < size / 8 * 8 ∧ 4 ≤ i % 8

instance (size i : Nat) : Decidable (InHighHalf size i) := by
  unfold InHighHalf
  infer_instance

/-- `ptr[j]` in `checksum` -/
def wordAt (buffer : List UInt8) (j : Nat) : UInt64 := u64OfBytes (buffer.drop (8 * j))

/-- The low halves of the first `n` words. -/
def lowHalves (n : Nat) (buffer : List UInt8) : List UInt32 :=
  (List.range n).map fun j => (wordAt buffer j).toUInt32

@[simp] theorem length_lowHalves (n : Nat) (buffer : List UInt8) :
    (lowHalves n buffer).length = n := by
  simp [lowHalves]

@[simp] theorem getElem_lowHalves {n : Nat} {buffer : List UInt8} {j : Nat}
    (h : j < (lowHalves n buffer).length) :
    (lowHalves n buffer)[j] = (wordAt buffer j).toUInt32 := by
  simp [lowHalves]

/-- The word loop folds the mixer over the low halves. -/
theorem checksumWords_eq_foldl (n : Nat) (buffer : List UInt8) (r : UInt64) :
    checksumWords n buffer r = (lowHalves n buffer).foldl (fun r x => r ^^^ murmurhash32 x) r := by
  induction n generalizing buffer r with
  | zero => rfl
  | succ n ih =>
      have hwords (j : Nat) : wordAt buffer (j + 1) = wordAt (buffer.drop 8) j := by
        rw [wordAt, wordAt, List.drop_drop, Nat.mul_add, Nat.mul_one, Nat.add_comm]
      rw [checksumWords, ih, lowHalves, lowHalves, List.range_succ_eq_map, List.map_cons,
        List.map_map, List.foldl_cons]
      simp only [Function.comp_def, Nat.succ_eq_add_one, hwords]
      rfl

section Words
variable {buffer buffer' : List UInt8} {n i : Nat}

/-- Nothing but the low halves of the words counts. -/
theorem checksumWords_congr (r : UInt64)
    (h : ∀ j < n, (wordAt buffer' j).toUInt32 = (wordAt buffer j).toUInt32) :
    checksumWords n buffer' r = checksumWords n buffer r := by
  have hhalves : lowHalves n buffer' = lowHalves n buffer :=
    List.map_congr_left fun j hj => h j (List.mem_range.mp hj)
  rw [checksumWords_eq_foldl, checksumWords_eq_foldl, hhalves]

/-- When two buffers agree in all low halves but one, the loop tells this one apart: the mixer is
injective, and so is `xor` with what the other words leave. -/
theorem checksumWords_eq_iff (hi : i < n) (r : UInt64)
    (hothers : ∀ j < n, j ≠ i → (wordAt buffer' j).toUInt32 = (wordAt buffer j).toUInt32) :
    checksumWords n buffer' r = checksumWords n buffer r ↔
      (wordAt buffer' i).toUInt32 = (wordAt buffer i).toUInt32 := by
  constructor
  · intro heq
    by_contra hne
    have hset : lowHalves n buffer' = (lowHalves n buffer).set i (wordAt buffer' i).toUInt32 := by
      refine List.ext_getElem (by simp) fun j hj hj' => ?_
      rw [List.getElem_set, getElem_lowHalves]
      split
      · next hij => rw [hij]
      · next hij =>
          rw [getElem_lowHalves]
          exact hothers j (by simpa using hj) (Ne.symm hij)
    rw [checksumWords_eq_foldl, checksumWords_eq_foldl, hset] at heq
    refine foldl_set_ne ?_ ?_ (by simpa using hi) r ?_ heq
    · exact fun x r r' h => (UInt64.xor_left_inj _).mp h
    · exact fun r x y h => murmurhash32_injective ((UInt64.xor_right_inj _).mp h)
    · rw [getElem_lowHalves]
      exact Ne.symm hne
  · intro hlow
    refine checksumWords_congr r fun j hj => ?_
    by_cases hij : j = i
    · rw [hij, hlow]
    · exact hothers j hj hij

/-- A changed byte is in one word only. -/
theorem wordAt_set_of_ne {j : Nat} (h : j ≠ i / 8) (b : UInt8) :
    wordAt (buffer.set i b) j = wordAt buffer j := by
  rw [wordAt, wordAt, u64OfBytes, u64OfBytes]
  rcases Nat.lt_or_gt_of_ne h with hlt | hgt
  · rw [List.drop_set, if_neg (by omega), List.take_set_of_le (by omega)]
  · rw [List.drop_set_of_lt (by omega)]

/-- The low half of its word sees a changed byte if it is one of the first four. -/
theorem lowHalf_set_eq_iff (hlen : 8 * (i / 8) + 8 ≤ buffer.length) (hi : i < buffer.length)
    {b : UInt8} (hne : buffer[i] ≠ b) :
    (wordAt (buffer.set i b) (i / 8)).toUInt32 = (wordAt buffer (i / 8)).toUInt32 ↔
      4 ≤ i % 8 := by
  have hset : (buffer.set i b).drop (8 * (i / 8)) = (buffer.drop (8 * (i / 8))).set (i % 8) b := by
    rw [List.drop_set, if_neg (by omega)]
    congr 1
    omega
  have hlength : 8 ≤ (buffer.drop (8 * (i / 8))).length := by
    rw [List.length_drop]
    omega
  have hbyte : (buffer.drop (8 * (i / 8)))[i % 8]? = some buffer[i] := by
    rw [List.getElem?_drop, Nat.div_add_mod, List.getElem?_eq_getElem hi]
  rw [wordAt, wordAt, hset, toUInt32_u64OfBytes_eq_iff (by rw [List.length_set]; omega) (by omega)]
  constructor
  · intro h
    by_contra hlow
    have hchanged := congrArg (fun bytes : List UInt8 => bytes[i % 8]?) h
    have hlt : i % 8 < (buffer.drop (8 * (i / 8))).length := by omega
    simp only [List.getElem?_take, Nat.not_le.mp hlow, if_true, List.getElem?_set_self hlt,
      hbyte, Option.some.injEq] at hchanged
    exact hne hchanged.symm
  · intro h
    rw [List.take_set, List.set_eq_of_length_le]
    rw [List.length_take]
    omega

end Words

/-- A change of one byte in the complete words. -/
theorem checksumWords_set_eq_iff (n : Nat) {buffer : List UInt8} (r : UInt64) {i : Nat}
    (hi : i < buffer.length) {b : UInt8} (hlen : 8 * n ≤ buffer.length) (hin : i < 8 * n)
    (hne : buffer[i] ≠ b) :
    checksumWords n (buffer.set i b) r = checksumWords n buffer r ↔ 4 ≤ i % 8 := by
  have hword : i / 8 < n := by omega
  rw [checksumWords_eq_iff hword r fun j _ hj => by rw [wordAt_set_of_ne hj],
    lowHalf_set_eq_iff (by omega) hi hne]

/-- A change of one byte behind the complete words. -/
theorem checksumWords_set_of_le (n : Nat) (buffer : List UInt8) (r : UInt64) {i : Nat} (b : UInt8)
    (hle : 8 * n ≤ i) : checksumWords n (buffer.set i b) r = checksumWords n buffer r :=
  checksumWords_congr r fun j hj => by rw [wordAt_set_of_ne (by omega)]

/-- A buffer of complete words has no tail. -/
theorem checksum_of_dvd {buffer : List UInt8} (h : 8 ∣ buffer.length) :
    checksum buffer = checksumWords (buffer.length / 8) buffer 5381 := by
  rw [checksum]
  exact if_neg (by omega)

/-- A changed byte changes the checksum, except in the high half of a complete word. -/
theorem checksum_set_eq_iff {buffer : List UInt8} {i : Nat} (hi : i < buffer.length) {b : UInt8}
    (hne : buffer[i] ≠ b) :
    checksum (buffer.set i b) = checksum buffer ↔ InHighHalf buffer.length i := by
  rw [checksum, checksum, List.length_set, InHighHalf]
  by_cases hword : i < buffer.length / 8 * 8
  · -- the tail behind the complete words stays
    have hwords := checksumWords_set_eq_iff (buffer.length / 8) 5381 hi (by omega) (by omega) hne
    simp only [List.drop_set_of_lt hword, hword, true_and]
    split
    · rw [UInt64.xor_left_inj, hwords]
    · exact hwords
  · -- the complete words stay, and the byte is in the tail
    have htail : i - buffer.length / 8 * 8 < (buffer.drop (buffer.length / 8 * 8)).length := by
      rw [List.length_drop]
      omega
    have hbyte : (buffer.drop (buffer.length / 8 * 8))[i - buffer.length / 8 * 8] = buffer[i] := by
      rw [List.getElem_drop]
      congr 1
      omega
    have hchange : hashU8 ((buffer.drop (buffer.length / 8 * 8)).set
        (i - buffer.length / 8 * 8) b) ≠ hashU8 (buffer.drop (buffer.length / 8 * 8)) :=
      hash1_set_ne htail (by rwa [hbyte])
    simp only [checksumWords_set_of_le _ _ _ b (show 8 * (buffer.length / 8) ≤ i by omega),
      List.drop_set, hword, if_false, false_and, iff_false,
      if_pos (show buffer.length - buffer.length / 8 * 8 > 0 by omega), UInt64.xor_right_inj]
    exact hchange

end MustDb.Proofs.Libv
