import Mathlib.Data.List.Basic
import Mathlib.Tactic.Ring

/-!
# `MustDb.Lib.LittleEndian`: little-endian integers

`leBytes n x` is the low `n` bytes of `x`, least significant byte first. `leNat` reads a byte list
back as a number. The round trip is `leNat_leBytes`. `leNat_torn` reads a number of which only
the first bytes have been replaced: the low bytes are new, the high bytes are old.

`u64Bytes` and `u64OfBytes` are the eight-byte case, a `UInt64` in memory.
-/

set_option autoImplicit false

namespace MustDb.Lib

/-- The low `n` bytes of `x`, least significant byte first. -/
def leBytes : Nat → Nat → List UInt8
  | 0, _ => []
  | n + 1, x => UInt8.ofNat (x % 256) :: leBytes n (x / 256)

/-- The number that a byte list denotes, least significant byte first. -/
def leNat : List UInt8 → Nat
  | [] => 0
  | b :: bs => b.toNat + 256 * leNat bs

@[simp] theorem length_leBytes (n x : Nat) : (leBytes n x).length = n := by
  induction n generalizing x with
  | zero => rfl
  | succ n ih => simp [leBytes, ih]

/-- The round trip: the low `n` bytes of `x` denote `x % 256 ^ n`. -/
theorem leNat_leBytes (n x : Nat) : leNat (leBytes n x) = x % 256 ^ n := by
  induction n generalizing x with
  | zero => simp [leBytes, leNat, Nat.mod_one]
  | succ n ih =>
      have hbyte : (UInt8.ofNat (x % 256)).toNat = x % 256 := by simp
      rw [leBytes, leNat, ih, hbyte, Nat.pow_succ, Nat.mul_comm (256 ^ n) 256, Nat.mod_mul]

/-- A list of `n` bytes denotes a number below `256 ^ n`. -/
theorem leNat_lt (bs : List UInt8) : leNat bs < 256 ^ bs.length := by
  induction bs with
  | nil => simp [leNat]
  | cons b bs ih =>
      have hb : b.toNat < 256 := b.toNat_lt
      rw [leNat, List.length_cons, Nat.pow_succ]
      omega

theorem leNat_lt_pow {bs : List UInt8} {k : Nat} (h : bs.length ≤ k) : leNat bs < 256 ^ k :=
  Nat.lt_of_lt_of_le (leNat_lt bs) (Nat.pow_le_pow_right (by decide) h)

/-- The value of a concatenation: the second part is shifted past the first. -/
theorem leNat_append (as bs : List UInt8) :
    leNat (as ++ bs) = leNat as + 256 ^ as.length * leNat bs := by
  induction as with
  | nil => simp [leNat]
  | cons a as ih =>
      rw [List.cons_append, leNat, leNat, ih, List.length_cons, Nat.pow_succ]
      ring

/-- The first `k` bytes denote the number modulo `256 ^ k`. -/
theorem leNat_take (bs : List UInt8) (k : Nat) : leNat (bs.take k) = leNat bs % 256 ^ k := by
  by_cases hk : k ≤ bs.length
  · have hlen : (bs.take k).length = k := by simp [hk]
    have hlt : leNat (bs.take k) < 256 ^ k := leNat_lt_pow hlen.le
    conv_rhs => rw [← List.take_append_drop k bs, leNat_append, hlen]
    rw [Nat.add_mul_mod_self_left, Nat.mod_eq_of_lt hlt]
  · have hlt : leNat bs < 256 ^ k := leNat_lt_pow (by omega)
    rw [List.take_of_length_le (by omega), Nat.mod_eq_of_lt hlt]

/-- The bytes from `k` on denote the number divided by `256 ^ k`. -/
theorem leNat_drop (bs : List UInt8) (k : Nat) : leNat (bs.drop k) = leNat bs / 256 ^ k := by
  by_cases hk : k ≤ bs.length
  · have hlen : (bs.take k).length = k := by simp [hk]
    have hlt : leNat (bs.take k) < 256 ^ k := leNat_lt_pow hlen.le
    conv_rhs => rw [← List.take_append_drop k bs, leNat_append, hlen]
    rw [Nat.add_mul_div_left _ _ (Nat.pow_pos (by decide)), Nat.div_eq_of_lt hlt, Nat.zero_add]
  · have hlt : leNat bs < 256 ^ k := leNat_lt_pow (by omega)
    rw [List.drop_of_length_le (by omega), Nat.div_eq_of_lt hlt, leNat]

/-- Byte lists of one length that denote one number are equal. -/
theorem leNat_injective : ∀ {as bs : List UInt8}, as.length = bs.length →
    leNat as = leNat bs → as = bs := by
  intro as
  induction as with
  | nil =>
      intro bs hlen _
      exact (List.length_eq_zero_iff.mp hlen.symm).symm
  | cons a as ih =>
      intro bs hlen h
      cases bs with
      | nil => simp at hlen
      | cons b bs =>
          have ha : a.toNat < 256 := a.toNat_lt
          have hb : b.toNat < 256 := b.toNat_lt
          simp only [leNat] at h
          have hab : a = b := UInt8.toNat_inj.mp (by omega)
          rw [hab, ih (by simpa using hlen) (by omega)]

/-- The bytes of the number that a byte list denotes are that list. -/
theorem leBytes_leNat (bs : List UInt8) : leBytes bs.length (leNat bs) = bs := by
  apply leNat_injective (length_leBytes _ _)
  rw [leNat_leBytes]
  exact Nat.mod_eq_of_lt (leNat_lt bs)

/-- A number of which the first `k` bytes are new and the rest old. -/
theorem leNat_torn {old new : List UInt8} {k : Nat} (hk : k ≤ new.length) :
    leNat (new.take k ++ old.drop k) = leNat new % 256 ^ k + 256 ^ k * (leNat old / 256 ^ k) := by
  have htake : (new.take k).length = k := by simp [hk]
  rw [leNat_append, leNat_take, leNat_drop, htake]

/-- Let `old` be smaller than `new`. A torn number with a new low byte is either complete or at
least 256 below `new`: when a high byte still differs, it is smaller. -/
theorem torn_eq_or_add_lt {old new k : Nat} (hk : 1 ≤ k) (hlt : old < new) :
    new % 256 ^ k + 256 ^ k * (old / 256 ^ k) = new ∨
      new % 256 ^ k + 256 ^ k * (old / 256 ^ k) + 256 ≤ new := by
  have hpow : 256 ≤ 256 ^ k := Nat.le_self_pow (by omega) 256
  have hdiv : old / 256 ^ k ≤ new / 256 ^ k := Nat.div_le_div_right hlt.le
  have hnew := Nat.mod_add_div new (256 ^ k)
  rcases Nat.lt_or_ge (old / 256 ^ k) (new / 256 ^ k) with hd | hd
  · -- the high part of `old` is smaller by one at least, which is worth `256 ^ k`
    right
    have hmul : 256 ^ k * (old / 256 ^ k) + 256 ^ k ≤ 256 ^ k * (new / 256 ^ k) := by
      have h := Nat.mul_le_mul_left (256 ^ k) (Nat.succ_le_of_lt hd)
      rwa [Nat.mul_succ] at h
    omega
  · -- the high parts agree, and the low bytes are new
    left
    rw [Nat.le_antisymm hdiv hd]
    exact hnew

/-- A 64-bit word as it lies in memory. -/
def u64Bytes (x : UInt64) : List UInt8 := leBytes 8 x.toNat

/-- The 64-bit word that the first eight bytes of `bs` hold. -/
def u64OfBytes (bs : List UInt8) : UInt64 := UInt64.ofNat (leNat (bs.take 8))

@[simp] theorem length_u64Bytes (x : UInt64) : (u64Bytes x).length = 8 :=
  length_leBytes 8 x.toNat

/-- A word in front of other bytes. -/
theorem take_u64Bytes_append (x : UInt64) (bs : List UInt8) :
    (u64Bytes x ++ bs).take 8 = u64Bytes x :=
  List.take_left' (length_u64Bytes x)

theorem drop_u64Bytes_append (x : UInt64) (bs : List UInt8) : (u64Bytes x ++ bs).drop 8 = bs :=
  List.drop_left' (length_u64Bytes x)

/-- A word reads back, whatever bytes follow it. -/
theorem u64OfBytes_append (x : UInt64) (bs : List UInt8) :
    u64OfBytes (u64Bytes x ++ bs) = x := by
  have hlt : x.toNat < 256 ^ 8 := x.toNat_lt
  rw [u64OfBytes, take_u64Bytes_append, u64Bytes, leNat_leBytes, Nat.mod_eq_of_lt hlt,
    UInt64.ofNat_toNat]

@[simp] theorem u64OfBytes_u64Bytes (x : UInt64) : u64OfBytes (u64Bytes x) = x := by
  simpa using u64OfBytes_append x []

/-- The number that a word read from memory is. -/
theorem toNat_u64OfBytes (bs : List UInt8) : (u64OfBytes bs).toNat = leNat (bs.take 8) := by
  have hlt : leNat (bs.take 8) < 256 ^ 8 := leNat_lt_pow (List.length_take_le 8 bs)
  rw [u64OfBytes, UInt64.toNat_ofNat']
  exact Nat.mod_eq_of_lt hlt

/-- Words with the same eight bytes are equal, and only those. -/
theorem u64OfBytes_inj {as bs : List UInt8} (ha : 8 ≤ as.length) (hb : 8 ≤ bs.length) :
    u64OfBytes as = u64OfBytes bs ↔ as.take 8 = bs.take 8 := by
  constructor
  · intro h
    apply leNat_injective (by simp [ha, hb])
    rw [← toNat_u64OfBytes, ← toNat_u64OfBytes, h]
  · intro h
    rw [u64OfBytes, u64OfBytes, h]

end MustDb.Lib
