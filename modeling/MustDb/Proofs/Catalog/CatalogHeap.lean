import MustDb.Catalog.CatalogSet
import MustDb.Proofs.Libv.Hmap

/-!
# `MustDb.Proofs.Catalog.CatalogHeap`: the heap of the entries

An operation changes the links of entries that are there, and nothing else of them. This is `Kept`.
What the operations do to the heap is put together from reads and stores of single entries, which
are here as rewrite rules for entries that are in the heap.
-/

set_option autoImplicit false

namespace MustDb.Proofs.Catalog

open MustDb.Lib
open MustDb.Libv
open MustDb.Catalog
open MustDb.Proofs.Libv

variable {δ : Type}

/-! ### Heaps that keep their entries -/

/-- The entries differ in their links only. -/
structure SameEntry (e e' : CatalogEntry δ) : Prop where
  type_eq : e'.type = e.type
  name_eq : e'.name = e.name
  deleted_eq : e'.deleted = e.deleted
  body_eq : e'.body = e.body

theorem SameEntry.rfl {e : CatalogEntry δ} : SameEntry e e :=
  ⟨Eq.refl _, Eq.refl _, Eq.refl _, Eq.refl _⟩

theorem SameEntry.trans {e e' e'' : CatalogEntry δ} (h : SameEntry e e') (h' : SameEntry e' e'') :
    SameEntry e e'' :=
  ⟨h'.type_eq.trans h.type_eq, h'.name_eq.trans h.name_eq, h'.deleted_eq.trans h.deleted_eq,
    h'.body_eq.trans h.body_eq⟩

/-- The entries of the old heap are in the new one, with other links at most. -/
structure Kept (heap heap' : CatalogHeap δ) : Prop where
  outcomes_eq : heap'.outcomes = heap.outcomes
  next_le : heap.next ≤ heap'.next
  entry : ∀ addr e, heap.get? addr = some e → ∃ e', heap'.get? addr = some e' ∧ SameEntry e e'

variable {heap heap' heap'' : CatalogHeap δ}

theorem Kept.rfl : Kept heap heap :=
  ⟨Eq.refl _, Nat.le_refl _, fun _ e he => ⟨e, he, SameEntry.rfl⟩⟩

theorem Kept.trans (h : Kept heap heap') (h' : Kept heap' heap'') : Kept heap heap'' where
  outcomes_eq := h'.outcomes_eq.trans h.outcomes_eq
  next_le := Nat.le_trans h.next_le h'.next_le
  entry addr e he := by
    obtain ⟨e', he', hsame⟩ := h.entry addr e he
    obtain ⟨e'', he'', hsame'⟩ := h'.entry addr e' he'
    exact ⟨e'', he'', hsame.trans hsame'⟩

theorem kept_push (e : CatalogEntry δ) : Kept heap (heap.push e) where
  outcomes_eq := Eq.refl _
  next_le := by
    rw [Heap.next_push]
    exact Nat.le_succ _
  entry _ old hold := ⟨old, Heap.get?_push_of_get? hold e, SameEntry.rfl⟩

theorem kept_put {addr : Addr} {e : CatalogEntry δ} (he : heap.get? addr = some e)
    (e' : CatalogEntry δ) (hsame : SameEntry e e') : Kept heap (heap.put addr e') where
  outcomes_eq := Eq.refl _
  next_le := (Heap.next_put ..).ge
  entry other old hold := by
    by_cases hother : other = addr
    · rw [hother, he, Option.some_inj] at hold
      subst hother hold
      exact ⟨e', Heap.get?_put_self he e', hsame⟩
    · exact ⟨old, by rwa [Heap.get?_put_of_ne hother], SameEntry.rfl⟩

/-- The end of an entry that the old heap does not have. -/
theorem Kept.free_new (h : Kept heap heap') {addr : Addr} (hnew : heap.next ≤ addr) :
    Kept heap (heap'.free addr) where
  outcomes_eq := h.outcomes_eq
  next_le := by
    rw [Heap.next_free]
    exact h.next_le
  entry other old hold := by
    have hne : other ≠ addr := Nat.ne_of_lt (Nat.lt_of_lt_of_le (Heap.lt_next hold) hnew)
    rw [Heap.get?_free_of_ne hne]
    exact h.entry other old hold

/-- With enough memory, what is left of the outcomes of a call is nothing. -/
theorem Kept.outcomes_rest (h : Kept heap heap') (hmem : heap.outcomes = [])
    {rest : MallocOutcomes} (hsub : ∀ outcome ∈ rest, outcome ∈ heap.outcomes) :
    Kept heap { heap' with outcomes := rest } where
  outcomes_eq := by
    rw [hmem] at hsub ⊢
    exact List.eq_nil_iff_forall_not_mem.mpr fun o ho => absurd (hsub o ho) List.not_mem_nil
  next_le := h.next_le
  entry := h.entry

/-- The names and the deletion marks of the entries stay. -/
def SameHeads (heap heap' : CatalogHeap δ) : Prop :=
  ∀ addr e, heap.get? addr = some e →
    ∃ e', heap'.get? addr = some e' ∧ e'.name = e.name ∧ e'.deleted = e.deleted

theorem Kept.sameHeads (h : Kept heap heap') : SameHeads heap heap' := by
  intro addr e he
  obtain ⟨e', he', hsame⟩ := h.entry addr e he
  exact ⟨e', he', hsame.name_eq, hsame.deleted_eq⟩

/-- A new body of an entry. -/
theorem sameHeads_put {addr : Addr} {e : CatalogEntry δ} (he : heap.get? addr = some e)
    (body : EntryBody δ) : SameHeads heap (heap.put addr { e with body }) := by
  intro other old hold
  by_cases hother : other = addr
  · rw [hother, he, Option.some_inj] at hold
    subst hother hold
    exact ⟨_, Heap.get?_put_self he _, rfl, rfl⟩
  · exact ⟨old, by rwa [Heap.get?_put_of_ne hother], rfl, rfl⟩

/-! ### Reads and stores -/

theorem readEntry_ok {addr : Addr} {e : CatalogEntry δ} (h : heap.get? addr = some e) :
    readEntry heap addr = .ok e := by
  rw [readEntry, h]

theorem updateEntry_ok {addr : Addr} {e : CatalogEntry δ} (h : heap.get? addr = some e)
    (f : CatalogEntry δ → CatalogEntry δ) :
    updateEntry heap addr f = .ok (heap.put addr (f e)) := by
  rw [updateEntry, readEntry_ok h]
  rfl

theorem strdup_of_nil (h : heap.outcomes = []) (s : CString) : strdup heap s = (heap, some s) := by
  obtain ⟨cells, outcomes⟩ := heap
  simp only at h
  subst h
  rfl

/-! ### The destructors -/

/-- A table is freed. -/
theorem tablecatalogEntryDestroy_ok {entry : Addr} {e : CatalogEntry δ} {fields : TableBody δ}
    (hget : heap.get? entry = some e) (hbody : e.body = .table fields) :
    tablecatalogEntryDestroy heap entry = .ok (heap.free entry) := by
  rw [tablecatalogEntryDestroy, readEntry_ok hget, ok_bind, hbody]
  rfl

/-- A schema whose sets have no entries is freed at once. -/
theorem schemacatalogEntryDestroyWith_ok
    (destroyChain : CatalogHeap δ → Option Addr → Except Fault (CatalogHeap δ)) {entry : Addr}
    {e : CatalogEntry δ} {tables indexes : CatalogSet} (hget : heap.get? entry = some e)
    (hbody : e.body = .schema tables indexes) (htables : tables.data.nodes = [])
    (hindexes : indexes.data.nodes = []) :
    schemacatalogEntryDestroyWith destroyChain heap entry = .ok (heap.free entry) := by
  rw [schemacatalogEntryDestroyWith, readEntry_ok hget, ok_bind, hbody]
  simp only [catalogSetDeinitWith, htables, hindexes, List.foldlM_nil]
  rfl

/-! ### Names -/

/-- The abstract key of a name. -/
abbrev nameKey (name : CString) : lawfulKeys_str.Key := lawfulKeys_str.key name

theorem nameKey_eq_iff {a b : CString} : nameKey a = nameKey b ↔ a = b :=
  lawfulKeys_str.key_eq_iff.trans strcmp_eq_zero_iff

end MustDb.Proofs.Catalog
