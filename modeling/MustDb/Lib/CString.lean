import Mathlib.Algebra.Group.Nat.Defs
import Mathlib.Data.List.TakeWhile

/-!
# `MustDb.Lib.CString`: strings that end with a zero byte

A C string is a list of bytes without a zero byte: the terminator is left out, and the field
`nulFree` says that no byte before it is one. `strcmp` compares two of them byte by byte, and it is
zero exactly on equal strings (`strcmp_eq_zero_iff`).
-/

set_option autoImplicit false

namespace MustDb.Lib

/-- The bytes of a C string, up to its terminator. -/
structure CString where
  bytes : List UInt8
  nulFree : 0 ∉ bytes := by decide
  deriving DecidableEq

/-- The string at the start of some bytes that a zero byte follows. -/
def CString.ofBytes (bytes : List UInt8) : CString where
  bytes := bytes.takeWhile (· ≠ 0)
  nulFree := by
    intro h
    have hne := List.mem_takeWhile_imp h
    simp at hne

/-- The bytes of a string are that string again. -/
theorem CString.ofBytes_bytes (s : CString) : CString.ofBytes s.bytes = s := by
  have hall : s.bytes.takeWhile (· ≠ 0) = s.bytes := by
    rw [List.takeWhile_eq_self_iff]
    intro b hb
    have hne : b ≠ 0 := fun h => s.nulFree (h ▸ hb)
    simpa using hne
  cases s
  simp only [ofBytes, mk.injEq]
  exact hall

/-- The string and its terminator have 64-bit addresses. -/
def CString.InMemory (s : CString) : Prop := s.bytes.length + 1 < 2 ^ 64

instance (s : CString) : Decidable s.InMemory := by
  unfold CString.InMemory
  infer_instance

/-- The comparison of two byte strings that go on with a zero byte. -/
def strcmpBytes : List UInt8 → List UInt8 → Int
  | [], [] => 0
  | [], b :: _ => -b.toNat
  | a :: _, [] => a.toNat
  | a :: as, b :: bs => if a = b then strcmpBytes as bs else a.toNat - b.toNat

/-- `strcmp` -/
def strcmp (a b : CString) : Int := strcmpBytes a.bytes b.bytes

theorem strcmpBytes_self (as : List UInt8) : strcmpBytes as as = 0 := by
  induction as with
  | nil => rfl
  | cons a as ih => rw [strcmpBytes, if_pos rfl, ih]

theorem toNat_ne_zero {b : UInt8} (h : (0 : UInt8) ≠ b) : b.toNat ≠ 0 :=
  fun hb => h (UInt8.toNat_inj.mp hb.symm)

theorem eq_of_strcmpBytes : ∀ {as bs : List UInt8}, 0 ∉ as → 0 ∉ bs →
    strcmpBytes as bs = 0 → as = bs := by
  intro as
  induction as with
  | nil =>
      intro bs _ hbs h
      cases bs with
      | nil => rfl
      | cons b bs =>
          rw [List.mem_cons, not_or] at hbs
          -- the strings end apart: `strcmp` compares the terminator with a byte that is not zero
          have hb := toNat_ne_zero hbs.1
          rw [strcmpBytes] at h
          omega
  | cons a as ih =>
      intro bs has hbs h
      rw [List.mem_cons, not_or] at has
      cases bs with
      | nil =>
          have ha := toNat_ne_zero has.1
          rw [strcmpBytes] at h
          omega
      | cons b bs =>
          rw [List.mem_cons, not_or] at hbs
          rw [strcmpBytes] at h
          split at h
          case isTrue hab => rw [hab, ih has.2 hbs.2 h]
          -- the difference of two bytes is zero only when they are equal
          case isFalse hab => exact absurd (UInt8.toNat_inj.mp (by omega)) hab

/-- `strcmp` is zero exactly on equal strings. -/
theorem strcmp_eq_zero_iff {a b : CString} : strcmp a b = 0 ↔ a = b := by
  constructor
  · intro h
    have hbytes := eq_of_strcmpBytes a.nulFree b.nulFree h
    cases a
    cases b
    simp only at hbytes
    subst hbytes
    rfl
  · rintro rfl
    exact strcmpBytes_self _

end MustDb.Lib
