import MustDb.Lib.Heap

/-!
# `MustDb.Lib.Linked`: doubly linked lists in a heap

An object has links to a next and a previous object, which `Links` reads. `Linked links heap before
addrs` says that the objects at `addrs` are linked in this order, in both directions: the first one
is behind `before`, and the last one has nothing behind it.

The links of the objects decide the list (`Linked.follow`), so no address is in it twice
(`Linked.nodup`). A list reads its own objects only (`Linked.congr`), and `Linked.push` puts a new
object in front of it.
-/

set_option autoImplicit false

namespace MustDb.Lib

variable {α : Type}

/-- The links of an object. -/
structure Links (α : Type) where
  next : α → Option Addr
  previous : α → Option Addr

/-- The object at `addr` is linked to these two. -/
def LinkedAt (links : Links α) (heap : Heap α) (before : Option Addr) (addr : Addr)
    (behind : Option Addr) : Prop :=
  ∃ obj, heap.get? addr = some obj ∧ links.previous obj = before ∧ links.next obj = behind

/-- The objects at the addresses are linked in both directions. -/
def Linked (links : Links α) (heap : Heap α) : Option Addr → List Addr → Prop
  | _, [] => True
  | before, addr :: addrs =>
      LinkedAt links heap before addr addrs.head? ∧ Linked links heap (some addr) addrs

/-- The addresses on the way from `start` along the next objects, at most `n` of them. -/
def follow (links : Links α) (heap : Heap α) : Nat → Option Addr → List Addr
  | 0, _ => []
  | _, none => []
  | n + 1, some addr =>
      match heap.get? addr with
      | none => [addr]
      | some obj => addr :: follow links heap n (links.next obj)

variable {links : Links α} {heap heap' : Heap α} {before : Option Addr} {addrs : List Addr}

theorem LinkedAt.congr {addr : Addr} {behind : Option Addr}
    (h : LinkedAt links heap before addr behind) (heq : heap'.get? addr = heap.get? addr) :
    LinkedAt links heap' before addr behind := by
  obtain ⟨obj, hget, hlinks⟩ := h
  exact ⟨obj, heq.trans hget, hlinks⟩

/-- A list reads its own objects only. -/
theorem Linked.congr (h : Linked links heap before addrs)
    (heq : ∀ addr ∈ addrs, heap'.get? addr = heap.get? addr) :
    Linked links heap' before addrs := by
  induction addrs generalizing before with
  | nil => trivial
  | cons first rest ih =>
      exact ⟨h.1.congr (heq first List.mem_cons_self),
        ih h.2 fun addr hmem => heq addr (List.mem_cons_of_mem first hmem)⟩

/-- The objects of a list are in the heap. -/
theorem Linked.get (h : Linked links heap before addrs) {addr : Addr} (hmem : addr ∈ addrs) :
    ∃ obj, heap.get? addr = some obj := by
  induction addrs generalizing before with
  | nil => exact absurd hmem List.not_mem_nil
  | cons first rest ih =>
      rcases List.mem_cons.mp hmem with rfl | hmem
      · obtain ⟨obj, hget, -⟩ := h.1
        exact ⟨obj, hget⟩
      · exact ih h.2 hmem

/-- The end of a list is a list. -/
theorem Linked.suffix {front : List Addr} (h : Linked links heap before (front ++ addrs)) :
    ∃ before', Linked links heap before' addrs := by
  induction front generalizing before with
  | nil => exact ⟨before, h⟩
  | cons first front ih => exact ih h.2

/-- The way along the next objects visits the list, and ends there. -/
theorem Linked.follow (h : Linked links heap before addrs) {n : Nat} (hn : addrs.length ≤ n) :
    follow links heap n addrs.head? = addrs := by
  induction addrs generalizing before n with
  | nil => cases n <;> rfl
  | cons first rest ih =>
      obtain ⟨⟨obj, hget, -, hnext⟩, hrest⟩ := h
      cases n with
      | zero => exact absurd hn (Nat.not_succ_le_zero _)
      | succ n =>
          rw [List.head?_cons, Lib.follow, hget]
          simp only [hnext, ih hrest (Nat.le_of_succ_le_succ hn)]

/-- No address is in a list twice: the ways from both places would have one length. -/
theorem Linked.nodup (h : Linked links heap before addrs) : addrs.Nodup := by
  induction addrs generalizing before with
  | nil => exact List.nodup_nil
  | cons first rest ih =>
      refine List.nodup_cons.mpr ⟨fun hmem => ?_, ih h.2⟩
      obtain ⟨front, behind, hsplit⟩ := List.append_of_mem hmem
      obtain ⟨before', hagain⟩ := Linked.suffix (hsplit ▸ h.2)
      have hlength : behind.length ≤ rest.length := by
        rw [hsplit, List.length_append, List.length_cons]
        omega
      have hway := (h.follow (Nat.le_refl _)).symm.trans
        (hagain.follow (n := (first :: rest).length) (Nat.succ_le_succ hlength))
      have hshorter := congrArg List.length (List.cons.inj hway).2
      rw [hsplit, List.length_append, List.length_cons] at hshorter
      omega

/-- A new object in front of a list: the old first object is linked to it, and the others stay. -/
theorem Linked.push {head value : Addr} {rest : List Addr}
    (h : Linked links heap before (head :: rest))
    (hvalue : LinkedAt links heap' none value (some head))
    (hhead : LinkedAt links heap' (some value) head rest.head?)
    (hrest : ∀ addr ∈ rest, heap'.get? addr = heap.get? addr) :
    Linked links heap' none (value :: head :: rest) :=
  ⟨hvalue, hhead, h.2.congr hrest⟩

end MustDb.Lib
