import Mathlib.Logic.Function.Basic
import MustDb.Lib.Linked

/-!
# `MustDb.Lib.Forest`: all objects of a heap in linked lists

`Forest links heap lists` says that `lists` is a family of doubly linked lists
(`MustDb.Lib.Linked`), one for each index, that no object is in two of them, and that every object
of the heap is in one. So the lists say exactly what there is to free.

An operation makes one list longer (`Forest.grow`), or changes an object and keeps its links
(`Forest.put`).
-/

set_option autoImplicit false

namespace MustDb.Lib

variable {α ι : Type} {links : Links α}

/-- A list that keeps its links is the same list. -/
theorem Linked.keep {heap heap' : Heap α} {before : Option Addr} {addrs : List Addr}
    (h : Linked links heap before addrs)
    (hkeep : ∀ addr ∈ addrs, ∀ obj, heap.get? addr = some obj → ∃ obj',
      heap'.get? addr = some obj' ∧ links.next obj' = links.next obj ∧
        links.previous obj' = links.previous obj) :
    Linked links heap' before addrs := by
  induction addrs generalizing before with
  | nil => trivial
  | cons first rest ih =>
      obtain ⟨⟨obj, hget, hprevious, hnext⟩, hrest⟩ := h
      obtain ⟨obj', hget', hnext', hprevious'⟩ := hkeep first List.mem_cons_self obj hget
      refine ⟨⟨obj', hget', hprevious'.trans hprevious, hnext'.trans hnext⟩, ?_⟩
      exact ih hrest fun addr hmem => hkeep addr (List.mem_cons_of_mem first hmem)

/-- The objects of the heap are those of the lists, each in one of them. -/
structure Forest (links : Links α) (heap : Heap α) (lists : ι → List Addr) : Prop where
  linked : ∀ i, Linked links heap none (lists i)
  disjoint : ∀ i j, i ≠ j → (lists i).Disjoint (lists j)
  covers : ∀ addr obj, heap.get? addr = some obj → ∃ i, addr ∈ lists i

variable {heap heap' : Heap α} {lists : ι → List Addr} {i j : ι} {addr : Addr}

/-- A heap without objects. -/
theorem forest_empty (outcomes : MallocOutcomes) :
    Forest links (⟨[], outcomes⟩ : Heap α) fun _ : ι => [] where
  linked _ := trivial
  disjoint _ _ _ := List.disjoint_nil_left _
  covers addr obj hget := by
    have hnone : (⟨[], outcomes⟩ : Heap α).get? addr = none := by simp [Heap.get?]
    rw [hnone] at hget
    cases hget

theorem Forest.get (h : Forest links heap lists) (hmem : addr ∈ lists i) :
    ∃ obj, heap.get? addr = some obj :=
  (h.linked i).get hmem

/-- An object is in one list only. -/
theorem Forest.index_eq (h : Forest links heap lists) (hi : addr ∈ lists i)
    (hj : addr ∈ lists j) : i = j := by
  by_contra hne
  exact h.disjoint i j hne hi hj

/-- What the heap does not have is in no list. -/
theorem Forest.not_mem (h : Forest links heap lists) (hnone : heap.get? addr = none) (i : ι) :
    addr ∉ lists i := by
  intro hmem
  obtain ⟨obj, hget⟩ := h.get hmem
  rw [hnone] at hget
  cases hget

/-- The lists read the objects only. -/
theorem Forest.congr (h : Forest links heap lists)
    (heq : ∀ addr, heap'.get? addr = heap.get? addr) : Forest links heap' lists where
  linked i := (h.linked i).congr fun addr _ => heq addr
  disjoint := h.disjoint
  covers addr obj hget := h.covers addr obj ((heq addr).symm.trans hget)

/-- A store that keeps the links. -/
theorem Forest.put (h : Forest links heap lists) {obj obj' : α} (hget : heap.get? addr = some obj)
    (hnext : links.next obj' = links.next obj)
    (hprevious : links.previous obj' = links.previous obj) :
    Forest links (heap.put addr obj') lists where
  linked i := by
    refine (h.linked i).keep fun other _ old hold => ?_
    by_cases hother : other = addr
    case pos =>
        subst hother
        cases hget.symm.trans hold
        exact ⟨obj', Heap.get?_put_self hget obj', hnext, hprevious⟩
    case neg => exact ⟨old, (Heap.get?_put_of_ne hother obj').trans hold, rfl, rfl⟩
  disjoint := h.disjoint
  covers other old hold := by
    by_cases hother : other = addr
    case pos =>
        subst hother
        exact h.covers other obj hget
    case neg => exact h.covers other old ((Heap.get?_put_of_ne hother obj').symm.trans hold)

/-- One list has new objects, and keeps the old ones. -/
theorem Forest.grow [DecidableEq ι] (h : Forest links heap lists) (i : ι) {addrs : List Addr}
    (hlinked : Linked links heap' none addrs) (hold : ∀ addr ∈ lists i, addr ∈ addrs)
    (hnew : ∀ addr ∈ addrs, addr ∈ lists i ∨ heap.get? addr = none)
    (hothers : ∀ addr, addr ∉ addrs → heap'.get? addr = heap.get? addr) :
    Forest links heap' (Function.update lists i addrs) := by
  -- the other lists have none of these objects
  have hdisjoint (j : ι) (hj : j ≠ i) : addrs.Disjoint (lists j) := by
    intro addr hmem hother
    rcases hnew addr hmem with hin | hnone
    · exact hj (h.index_eq hother hin)
    · exact h.not_mem hnone j hother
  constructor
  case linked =>
      intro j
      by_cases hj : j = i
      case pos =>
          rw [hj, Function.update_self]
          exact hlinked
      case neg =>
          rw [Function.update_of_ne hj]
          exact (h.linked j).congr fun addr hmem =>
            hothers addr fun hin => hdisjoint j hj hin hmem
  case disjoint =>
      intro j k hjk
      by_cases hj : j = i
      case pos =>
          have hk : k ≠ i := fun heq => hjk (hj.trans heq.symm)
          rw [hj, Function.update_self, Function.update_of_ne hk]
          exact hdisjoint k hk
      case neg =>
          rw [Function.update_of_ne hj]
          by_cases hk : k = i
          case pos =>
              rw [hk, Function.update_self]
              exact fun addr hother hmem => hdisjoint j hj hmem hother
          case neg =>
              rw [Function.update_of_ne hk]
              exact h.disjoint j k hjk
  case covers =>
      intro addr obj hget
      by_cases hmem : addr ∈ addrs
      case pos =>
          refine ⟨i, ?_⟩
          rw [Function.update_self]
          exact hmem
      case neg =>
          obtain ⟨j, hj⟩ := h.covers addr obj ((hothers addr hmem).symm.trans hget)
          refine ⟨j, ?_⟩
          have hji : j ≠ i := by
            rintro rfl
            exact hmem (hold addr hj)
          rw [Function.update_of_ne hji]
          exact hj

end MustDb.Lib
