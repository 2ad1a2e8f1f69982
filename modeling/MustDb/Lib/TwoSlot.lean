import Mathlib.Data.Nat.Notation
import Mathlib.Tactic.Common

/-!
# `MustDb.Lib.TwoSlot`: double-buffered commits

Two slots hold versioned records. The record with the greater version is the selected one, and on a
tie the second. A commit puts a record in the other slot, the spare. Three facts make this an atomic
commit:

* `select_put`: a record newer than the selected one becomes the selected one, and the record
  selected before is still there, as the spare;
* `select_put_of_lt`: a record older than the selected one, such as a half-written page, leaves the
  selection as it was;
* in both cases the record selected before the commit is never overwritten by it.

`Ordered` says that the spare is strictly older, `Consecutive` that it is older by exactly one.
-/

set_option autoImplicit false

namespace MustDb.Lib

/-- Two slots of records. -/
structure TwoSlot (α : Type) where
  first : α
  second : α

namespace TwoSlot

variable {α : Type} (ver : α → Nat)

/-- The first slot holds the greater version. -/
def firstActive (s : TwoSlot α) : Bool := ver s.second < ver s.first

/-- The record with the greater version. -/
def select (s : TwoSlot α) : α := if firstActive ver s then s.first else s.second

/-- The record in the other slot. -/
def spare (s : TwoSlot α) : α := if firstActive ver s then s.second else s.first

/-- Overwrite the spare. -/
def put (s : TwoSlot α) (x : α) : TwoSlot α :=
  if firstActive ver s then { s with second := x } else { s with first := x }

/-- The spare is older than the selected record. -/
def Ordered (s : TwoSlot α) : Prop := ver (spare ver s) < ver (select ver s)

/-- The selected record has version `n`, and the spare is its predecessor. -/
def Consecutive (s : TwoSlot α) (n : Nat) : Prop :=
  ver (select ver s) = n ∧ ver (spare ver s) + 1 = n

variable {ver}

theorem put_of_firstActive {s : TwoSlot α} (x : α) (h : firstActive ver s = true) :
    put ver s x = { s with second := x } := by
  simp [put, h]

theorem put_of_not_firstActive {s : TwoSlot α} (x : α) (h : firstActive ver s = false) :
    put ver s x = { s with first := x } := by
  simp [put, h]

theorem firstActive_of_lt {s : TwoSlot α} (h : ver s.second < ver s.first) :
    firstActive ver s = true :=
  decide_eq_true h

theorem firstActive_of_le {s : TwoSlot α} (h : ver s.first ≤ ver s.second) :
    firstActive ver s = false :=
  decide_eq_false (Nat.not_lt.mpr h)

/-- The selected record has the greatest version. -/
theorem first_le_select (s : TwoSlot α) : ver s.first ≤ ver (select ver s) := by
  cases hf : firstActive ver s with
  | true => simp [select, hf]
  | false =>
      rw [firstActive, decide_eq_false_iff_not] at hf
      simp only [select, firstActive, hf, decide_false, Bool.false_eq_true, if_false]
      exact Nat.not_lt.mp hf

theorem second_le_select (s : TwoSlot α) : ver s.second ≤ ver (select ver s) := by
  cases hf : firstActive ver s with
  | true =>
      rw [firstActive, decide_eq_true_eq] at hf
      simp only [select, firstActive, hf, decide_true, if_true]
      exact Nat.le_of_lt hf
  | false => simp [select, hf]

/-- A newer record changes the active slot. -/
theorem firstActive_put {s : TwoSlot α} {x : α} (h : ver (select ver s) < ver x) :
    firstActive ver (put ver s x) = !firstActive ver s := by
  cases hf : firstActive ver s with
  | true =>
      simp only [select, hf, if_true] at h
      rw [put_of_firstActive x hf, firstActive_of_le (Nat.le_of_lt h), Bool.not_true]
  | false =>
      simp only [select, hf, Bool.false_eq_true, if_false] at h
      rw [put_of_not_firstActive x hf, firstActive_of_lt h, Bool.not_false]

/-- A newer record is selected. -/
theorem select_put {s : TwoSlot α} {x : α} (h : ver (select ver s) < ver x) :
    select ver (put ver s x) = x := by
  rw [select, firstActive_put h]
  cases hf : firstActive ver s <;> simp [put, hf]

/-- The record selected before the commit of a newer one is the spare after it. -/
theorem spare_put {s : TwoSlot α} {x : α} (h : ver (select ver s) < ver x) :
    spare ver (put ver s x) = select ver s := by
  rw [spare, firstActive_put h]
  cases hf : firstActive ver s <;> simp [put, select, hf]

theorem ordered_put {s : TwoSlot α} {x : α} (h : ver (select ver s) < ver x) :
    Ordered ver (put ver s x) := by
  rw [Ordered, select_put h, spare_put h]
  exact h

/-- A commit of the successor keeps the versions consecutive. -/
theorem consecutive_put {s : TwoSlot α} {x : α} {n : Nat} (h : Consecutive ver s n)
    (hx : ver x = n + 1) : Consecutive ver (put ver s x) (n + 1) := by
  have hlt : ver (select ver s) < ver x := by
    rw [h.1, hx]
    exact Nat.lt_succ_self n
  rw [Consecutive, select_put hlt, spare_put hlt, hx, h.1]
  exact ⟨rfl, rfl⟩

/-- An older record in the spare slot leaves the active slot as it was. -/
theorem firstActive_put_of_lt {s : TwoSlot α} {x : α} (h : ver x < ver (select ver s)) :
    firstActive ver (put ver s x) = firstActive ver s := by
  cases hf : firstActive ver s with
  | true =>
      simp only [select, hf, if_true] at h
      rw [put_of_firstActive x hf, firstActive_of_lt h]
  | false =>
      simp only [select, hf, Bool.false_eq_true, if_false] at h
      rw [put_of_not_firstActive x hf, firstActive_of_le (Nat.le_of_lt h)]

/-- An older record in the spare slot leaves the selection as it was. -/
theorem select_put_of_lt {s : TwoSlot α} {x : α} (h : ver x < ver (select ver s)) :
    select ver (put ver s x) = select ver s := by
  rw [select, firstActive_put_of_lt h]
  cases hf : firstActive ver s <;> simp [put, select, hf]

/-- An older record in the spare slot is the spare. -/
theorem spare_put_of_lt {s : TwoSlot α} {x : α} (h : ver x < ver (select ver s)) :
    spare ver (put ver s x) = x := by
  rw [spare, firstActive_put_of_lt h]
  cases hf : firstActive ver s <;> simp [put, hf]

theorem ordered_put_of_lt {s : TwoSlot α} {x : α} (h : ver x < ver (select ver s)) :
    Ordered ver (put ver s x) := by
  rw [Ordered, select_put_of_lt h, spare_put_of_lt h]
  exact h

end TwoSlot

end MustDb.Lib
