import MustDb.Lib.ByteFile
import Mathlib.Logic.Function.Basic

/-!
# `MustDb.Lib.RegionStore`: a store of disjoint regions in one file

A `Layout` gives each address its own region of a file, and distinct addresses have disjoint
regions. `Holds L file a bytes` says that the region of `a` holds `bytes`. The frame rule
`Holds.write_other` is the reason such a file is a store: a write inside the region of one address
changes no other address.

`Refines L file store` connects the file to the store it implements, a partial function from
addresses to contents. `Refines.write` is its step: the write of a whole region refines one update
of the store.
-/

set_option autoImplicit false

namespace MustDb.Lib

variable {addr α : Type}

/-- A region for each address, disjoint for distinct addresses. -/
structure Layout (addr : Type) where
  start : addr → Nat
  size : addr → Nat
  disjoint : ∀ a b, a ≠ b → start a + size a ≤ start b ∨ start b + size b ≤ start a

variable {L : Layout addr}

/-- The region of `a` holds `bytes`, all of them. -/
structure Holds (L : Layout addr) (file : List α) (a : addr) (bytes : List α) : Prop where
  length_eq : bytes.length = L.size a
  read_eq : pread file (L.start a) (L.size a) = bytes

/-- A region that holds its bytes lies inside the file. -/
theorem Holds.in_file {file : List α} {a : addr} {bytes : List α} (h : Holds L file a bytes)
    (hpos : 0 < L.size a) : L.start a + L.size a ≤ file.length := by
  have hlen := congrArg List.length h.read_eq
  rw [length_pread, h.length_eq] at hlen
  omega

/-- The abstract store: what each address was last given. -/
abbrev RegionStore (addr α : Type) := addr → Option (List α)

/-- The file holds what the store says. -/
def Refines (L : Layout addr) (file : List α) (store : RegionStore addr α) : Prop :=
  ∀ a bytes, store a = some bytes → Holds L file a bytes

/-- A file refines the store that says nothing. -/
theorem Refines.empty (L : Layout addr) (file : List α) : Refines L file fun _ => none :=
  fun _ _ h => nomatch h

section Write
variable [Zero α]

/-- A write of a whole region. -/
theorem Holds.write_same (file : List α) {a : addr} {bytes : List α}
    (hlen : bytes.length = L.size a) : Holds L (pwrite file (L.start a) bytes) a bytes where
  length_eq := hlen
  read_eq := by
    rw [← hlen]
    exact pread_pwrite_same file bytes (L.start a)

/-- The frame rule: a write inside the region of `a` changes no other address. -/
theorem Holds.write_other {file : List α} {a b : addr} {bytes written : List α}
    (h : Holds L file b bytes) (hab : a ≠ b) (hin : written.length ≤ L.size a) :
    Holds L (pwrite file (L.start a) written) b bytes where
  length_eq := h.length_eq
  read_eq := by
    rcases Nat.eq_zero_or_pos (L.size b) with hz | hpos
    · -- an empty region need not lie inside the file, and it holds no bytes
      rw [hz]
      have hnil : bytes = [] := List.length_eq_zero_iff.mp (h.length_eq.trans hz)
      simp [pread, hnil]
    · rw [← h.read_eq]
      exact pread_pwrite_disjoint (h.in_file hpos) (by
        rcases L.disjoint a b hab with hd | hd <;> omega)

variable [DecidableEq addr]

/-- One write of a whole region refines one update of the store. -/
theorem Refines.write {file : List α} {store : RegionStore addr α} (h : Refines L file store)
    {a : addr} {bytes : List α} (hlen : bytes.length = L.size a) :
    Refines L (pwrite file (L.start a) bytes) (Function.update store a (some bytes)) := by
  intro b bytes' hb
  by_cases hab : b = a
  · subst hab
    rw [Function.update_self] at hb
    cases hb
    exact Holds.write_same file hlen
  · rw [Function.update_of_ne hab] at hb
    exact (h b bytes' hb).write_other (Ne.symm hab) (Nat.le_of_eq hlen)

end Write

end MustDb.Lib
