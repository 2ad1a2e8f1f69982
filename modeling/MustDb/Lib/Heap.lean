import Mathlib.Data.List.Basic
import MustDb.Lib.Malloc

/-!
# `MustDb.Lib.Heap`: objects at addresses

A heap is a list of cells, and an address is a position in it. An allocation puts its object into a
new cell at the end, or fails when its outcome says so. A freed cell stays empty, and no address is
used twice: so a use after a `free` always finds an empty cell.

`alloc`, `put` and `free` are the operations. Each one has its lemmas about `get?` beside it, at its
own address and at the others.
-/

set_option autoImplicit false

namespace MustDb.Lib

abbrev Addr := Nat

/-- The objects, and the outcomes of the next allocations. -/
structure Heap (α : Type) where
  cells : List (Option α)
  outcomes : MallocOutcomes

variable {α : Type}

namespace Heap

/-- The object at an address. -/
def get? (heap : Heap α) (addr : Addr) : Option α := heap.cells[addr]?.join

/-- The address of the next object. -/
def next (heap : Heap α) : Addr := heap.cells.length

/-- A new object, or `none` when the allocation fails. -/
def alloc (heap : Heap α) (obj : α) : Heap α × Option Addr :=
  match malloc heap.outcomes with
  | (true, outcomes) => ({ cells := heap.cells ++ [some obj], outcomes }, some heap.next)
  | (false, outcomes) => ({ heap with outcomes }, none)

/-- A new content of an object. -/
def put (heap : Heap α) (addr : Addr) (obj : α) : Heap α :=
  { heap with cells := heap.cells.set addr (some obj) }

/-- The end of an object. -/
def free (heap : Heap α) (addr : Addr) : Heap α :=
  { heap with cells := heap.cells.set addr none }

theorem lt_next {heap : Heap α} {addr : Addr} {obj : α} (h : heap.get? addr = some obj) :
    addr < heap.next := by
  by_contra hge
  rw [get?, List.getElem?_eq_none (Nat.not_lt.mp hge)] at h
  cases h

/-! ### Allocation -/

/-- The heap after an allocation that succeeds. -/
def push (heap : Heap α) (obj : α) : Heap α := { heap with cells := heap.cells ++ [some obj] }

@[simp] theorem next_push (heap : Heap α) (obj : α) : (heap.push obj).next = heap.next + 1 :=
  List.length_append ..

theorem get?_push_next (heap : Heap α) (obj : α) : (heap.push obj).get? heap.next = some obj := by
  rw [get?, push, next, List.getElem?_concat_length]
  rfl

theorem get?_next (heap : Heap α) : heap.get? heap.next = none := by
  rw [get?, next, List.getElem?_eq_none (Nat.le_refl _)]
  rfl

/-- An allocation leaves the other addresses as they are. -/
theorem get?_push_of_ne {heap : Heap α} {addr : Addr} (h : addr ≠ heap.next) (obj : α) :
    (heap.push obj).get? addr = heap.get? addr := by
  rw [get?, push, get?, List.getElem?_append]
  split
  case isTrue hlt => rfl
  case isFalse hge =>
      have hlt : heap.cells.length < addr := Nat.lt_of_le_of_ne (Nat.not_lt.mp hge) h.symm
      rw [List.getElem?_eq_none (Nat.not_lt.mp hge), List.getElem?_eq_none]
      rw [List.length_singleton]
      omega

/-- An allocation that succeeds. -/
theorem alloc_of_true {heap : Heap α} (h : (malloc heap.outcomes).1 = true) (obj : α) :
    heap.alloc obj
      = ({ heap.push obj with outcomes := (malloc heap.outcomes).2 }, some heap.next) := by
  rw [alloc]
  cases hmalloc : malloc heap.outcomes with
  | mk ok outcomes =>
      rw [hmalloc] at h
      cases h
      rfl

/-- An allocation that fails. -/
theorem alloc_of_false {heap : Heap α} (h : (malloc heap.outcomes).1 = false) (obj : α) :
    heap.alloc obj = ({ heap with outcomes := (malloc heap.outcomes).2 }, none) := by
  rw [alloc]
  cases hmalloc : malloc heap.outcomes with
  | mk ok outcomes =>
      rw [hmalloc] at h
      cases h
      rfl

/-- What an allocation can do. -/
theorem alloc_cases (heap : Heap α) (obj : α) :
    ∃ outcomes, (∀ outcome ∈ outcomes, outcome ∈ heap.outcomes) ∧
      (heap.alloc obj = ({ heap with outcomes }, none) ∨
        heap.alloc obj = ({ heap.push obj with outcomes }, some heap.next)) := by
  refine ⟨(malloc heap.outcomes).2, fun _ => mem_of_mem_malloc, ?_⟩
  cases hok : (malloc heap.outcomes).1 with
  | false => exact Or.inl (alloc_of_false hok obj)
  | true => exact Or.inr (alloc_of_true hok obj)

theorem get?_push_of_get? {heap : Heap α} {addr : Addr} {old : α} (h : heap.get? addr = some old)
    (obj : α) : (heap.push obj).get? addr = some old := by
  have hlt : addr < heap.cells.length := lt_next h
  rw [get?, push, List.getElem?_append_left hlt]
  exact h

/-! ### Stores and frees -/

@[simp] theorem next_put (heap : Heap α) (addr : Addr) (obj : α) :
    (heap.put addr obj).next = heap.next :=
  List.length_set

theorem get?_put_self {heap : Heap α} {addr : Addr} {old : α} (h : heap.get? addr = some old)
    (obj : α) : (heap.put addr obj).get? addr = some obj := by
  have hlt : addr < heap.cells.length := lt_next h
  rw [get?, put, List.getElem?_set_self hlt]
  rfl

theorem get?_put_of_ne {heap : Heap α} {addr other : Addr} (h : other ≠ addr) (obj : α) :
    (heap.put addr obj).get? other = heap.get? other := by
  rw [get?, put, List.getElem?_set_ne h.symm, get?]

theorem put_put (heap : Heap α) (addr : Addr) (old obj : α) :
    (heap.put addr old).put addr obj = heap.put addr obj := by
  rw [put, put, put, List.set_set]

theorem put_comm {addr other : Addr} (h : addr ≠ other) (heap : Heap α) (obj obj' : α) :
    (heap.put addr obj).put other obj' = (heap.put other obj').put addr obj := by
  rw [put, put, put, put, List.set_comm _ _ h]

/-- A store to the object of the last allocation. -/
theorem put_push_next (heap : Heap α) (old obj : α) :
    (heap.push old).put heap.next obj = heap.push obj := by
  rw [put, push, push, next, List.set_append_right _ _ (Nat.le_refl _), Nat.sub_self]
  rfl

@[simp] theorem next_free (heap : Heap α) (addr : Addr) : (heap.free addr).next = heap.next :=
  List.length_set

theorem get?_free_self (heap : Heap α) (addr : Addr) : (heap.free addr).get? addr = none := by
  rw [get?, free, List.getElem?_set]
  by_cases hlt : addr < heap.cells.length
  · simp [hlt]
  · simp [hlt]

theorem get?_free_of_ne {heap : Heap α} {addr other : Addr} (h : other ≠ addr) :
    (heap.free addr).get? other = heap.get? other := by
  rw [get?, free, List.getElem?_set_ne h.symm, get?]

/-- A store to an object that is freed next is lost. -/
theorem free_put (heap : Heap α) (addr : Addr) (obj : α) :
    (heap.put addr obj).free addr = heap.free addr := by
  rw [free, put, free, List.set_set]

/-- The end of several objects. -/
def freeAll (heap : Heap α) (addrs : List Addr) : Heap α := addrs.foldl free heap

theorem get?_freeAll_of_notMem {heap : Heap α} {addrs : List Addr} {addr : Addr}
    (h : addr ∉ addrs) : (heap.freeAll addrs).get? addr = heap.get? addr := by
  induction addrs generalizing heap with
  | nil => rfl
  | cons first addrs ih =>
      obtain ⟨hfirst, hrest⟩ := List.ne_and_not_mem_of_not_mem_cons h
      exact (ih hrest).trans (get?_free_of_ne hfirst)

theorem freeAll_append (heap : Heap α) (addrs addrs' : List Addr) :
    heap.freeAll (addrs ++ addrs') = (heap.freeAll addrs).freeAll addrs' :=
  List.foldl_append

end Heap

end MustDb.Lib
