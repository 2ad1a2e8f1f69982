import MustDb.Proofs.Catalog.CatalogHeap

/-!
# `MustDb.Proofs.Catalog.SetSteps`: what one call on a set can do

`CreateCase` lists what `catalogSet_create_entry` can do, and `DropCase` is the same for
`catalogSet_drop_entry`, whatever allocations fail in the call. `createEntry_cases` and
`dropEntry_cases` say that there is nothing else. In both, a new value becomes the parent of a
head and nothing else changes (`Pushes`).

The entries may have any names: the map of the set is what decides which chain an entry is in.
-/

set_option autoImplicit false

namespace MustDb.Proofs.Catalog

open MustDb.Lib
open MustDb.Libv
open MustDb.Catalog
open MustDb.Proofs.Libv

variable {δ : Type} {heap heap' : CatalogHeap δ} {set : CatalogSet} {m : lawfulKeys_str.Map Addr}

/-! ### The heaps after a call -/

/-- The heap after `value` was put in front of `head`. -/
def pushed (heap : CatalogHeap δ) (head value : Addr) (e e' : CatalogEntry δ) : CatalogHeap δ :=
  (heap.put value { e' with child := some head }).put head { e with parent := some value }

/-- The entry that ends the chain of a name. -/
def dummyEntry (name : CString) : CatalogEntry δ := catalogEntryInit .invalid (some name) .base

/-- The heap after the dummy of a name was made. -/
def withDummy (heap : CatalogHeap δ) (name : CString) (rest : MallocOutcomes) : CatalogHeap δ :=
  { heap.push (dummyEntry name) with outcomes := rest }

/-- The entry of a drop; its name is a copy of that of `head`, if there was memory for it. -/
def tombstone (name : Option CString) (head : Addr) : CatalogEntry δ :=
  { catalogEntryInit .invalid name .base with child := some head, deleted := true }

/-- `value` has become the parent of `head`, which was `e`, and nothing else has changed. -/
structure Pushes (heap heap' : CatalogHeap δ) (head value : Addr) (e : CatalogEntry δ) : Prop where
  get_old : heap.get? head = some e
  get_head : heap'.get? head = some { e with parent := some value }
  get_value : ∃ e', heap'.get? value = some e' ∧ e'.child = some head ∧ e'.parent = none
  get_other : ∀ addr, addr ≠ head → addr ≠ value → heap'.get? addr = heap.get? addr
  kept : Kept heap heap'

theorem kept_pushed {head value : Addr} {e e' : CatalogEntry δ} (hhead : heap.get? head = some e)
    (hvalue : heap.get? value = some e') (hne : head ≠ value) :
    Kept heap (pushed heap head value e e') := by
  have hhead' : (heap.put value { e' with child := some head }).get? head = some e := by
    rw [Heap.get?_put_of_ne hne, hhead]
  have hchild : Kept heap (heap.put value { e' with child := some head }) :=
    kept_put hvalue _ ⟨rfl, rfl, rfl, rfl⟩
  exact hchild.trans (kept_put hhead' _ ⟨rfl, rfl, rfl, rfl⟩)

/-- The stores of a creation. -/
theorem pushes_pushed {head value : Addr} {e e' : CatalogEntry δ} (hhead : heap.get? head = some e)
    (hvalue : heap.get? value = some e') (hparent : e'.parent = none) (hne : head ≠ value) :
    Pushes heap (pushed heap head value e e') head value e where
  get_old := hhead
  get_head := Heap.get?_put_self (by rw [Heap.get?_put_of_ne hne, hhead]) _
  get_value := by
    refine ⟨{ e' with child := some head }, ?_, rfl, hparent⟩
    rw [pushed, Heap.get?_put_of_ne hne.symm]
    exact Heap.get?_put_self hvalue _
  get_other addr hother hother' := by
    rw [pushed, Heap.get?_put_of_ne hother, Heap.get?_put_of_ne hother']
  kept := kept_pushed hhead hvalue hne

/-- The tombstone of a drop, behind the store to the old head. -/
theorem get?_tombstone {head : Addr} {e : CatalogEntry δ} (hhead : heap.get? head = some e)
    (copy : Option CString) (e' : CatalogEntry δ) :
    ((heap.push (tombstone copy head)).put head e').get? heap.next
      = some (tombstone copy head) := by
  rw [Heap.get?_put_of_ne (Nat.ne_of_gt (Heap.lt_next hhead))]
  exact Heap.get?_push_next heap _

/-- The stores of a drop. -/
theorem pushes_tombstone {head : Addr} {e : CatalogEntry δ} (hhead : heap.get? head = some e)
    (copy : Option CString) :
    Pushes heap ((heap.push (tombstone copy head)).put head { e with parent := some heap.next })
      head heap.next e where
  get_old := hhead
  get_head := Heap.get?_put_self (Heap.get?_push_of_get? hhead _) _
  get_value := ⟨tombstone copy head, get?_tombstone hhead copy _, rfl, rfl⟩
  get_other addr hother hother' := by
    rw [Heap.get?_put_of_ne hother, Heap.get?_push_of_ne hother']
  kept := (kept_push _).trans
    (kept_put (Heap.get?_push_of_get? hhead _) _ ⟨rfl, rfl, rfl, rfl⟩)

theorem linkHead_eq {head value : Addr} {e e' : CatalogEntry δ} (hhead : heap.get? head = some e)
    (hvalue : heap.get? value = some e') (hne : head ≠ value) :
    linkHead heap head value = .ok (pushed heap head value e e') := by
  have hhead' : (heap.put value { e' with child := some head }).get? head = some e := by
    rw [Heap.get?_put_of_ne hne, hhead]
  rw [linkHead, updateEntry_ok hvalue, ok_bind, updateEntry_ok hhead', pushed]

/-- The copy of a string, by the outcome of its allocation. -/
theorem strdup_eq (heap : CatalogHeap δ) (s : CString) :
    strdup heap s = ({ heap with outcomes := (malloc heap.outcomes).2 },
      if (malloc heap.outcomes).1 then some s else none) :=
  rfl

/-- The end of a creation, for a name that is in the map. -/
theorem pushHead_eq {data : Hmap CString Addr} {name : CString} {head value : Addr}
    {e e' : CatalogEntry δ} (hdata : Represents lawfulKeys_str data m) (hmem : nameKey name ∈ m)
    (hhead : heap.get? head = some e) (hvalue : heap.get? value = some e') (hne : head ≠ value) :
    ∃ data', pushHead heap { data } name head value
        = .ok (pushed heap head value e e', { data := data' }) ∧
      Represents lawfulKeys_str data' (m.insert (nameKey name) value) := by
  obtain ⟨data', hset, hdata'⟩ := hdata.setValue hmem value
  refine ⟨data', ?_, hdata'⟩
  rw [pushHead, linkHead_eq hhead hvalue hne, ok_bind, hset]
  rfl

/-! ### Lookup -/

/-- The lookup of a name that the map does not have. -/
theorem getEntry_absent (hdata : Represents lawfulKeys_str set.data m) {name : CString}
    (hnew : m.lookup (nameKey name) = none) : catalogSetGetEntry heap set name = .ok none := by
  obtain ⟨node, hget, hnode, -⟩ := hdata.get name
  rw [hnew, Option.map_eq_none_iff] at hnode
  rw [catalogSetGetEntry, hget, hnode]
  rfl

/-- The deletion mark of the newest version decides a lookup. -/
theorem getEntry_head (hdata : Represents lawfulKeys_str set.data m) {name : CString} {head : Addr}
    {e : CatalogEntry δ} (hlookup : m.lookup (nameKey name) = some head)
    (hhead : heap.get? head = some e) :
    catalogSetGetEntry heap set name = .ok (if e.deleted then none else some head) := by
  obtain ⟨node, hget, hnode, -⟩ := hdata.get name
  rw [hlookup] at hnode
  obtain ⟨node, rfl, rfl⟩ := Option.map_eq_some_iff.mp hnode
  rw [catalogSetGetEntry, hget, ok_bind]
  simp only [readEntry_ok hhead, ok_bind]
  rfl

/-! ### Creation -/

/-- What `catalogSet_create_entry` can do, by the newest version of the name. -/
inductive CreateCase (heap : CatalogHeap δ) (set : CatalogSet) (m : lawfulKeys_str.Map Addr)
    (name : CString) (value : Addr) (e' : CatalogEntry δ) :
    CatalogHeap δ × CatalogSet × Bool → Prop where
  /-- The name is live. -/
  | exists {head : Addr} {e : CatalogEntry δ} (lookup : m.lookup (nameKey name) = some head)
      (get : heap.get? head = some e) (live : e.deleted = false) :
      CreateCase heap set m name value e' (heap, set, false)
  /-- The first creation of the name, and no memory for it. -/
  | refused {heap' : CatalogHeap δ} {set' : CatalogSet} (new : m.lookup (nameKey name) = none)
      (failed : false ∈ heap.outcomes) (data : Represents lawfulKeys_str set'.data m)
      (kept : ∀ addr e, heap.get? addr = some e → heap'.get? addr = some e)
      (next_le : heap.next ≤ heap'.next) :
      CreateCase heap set m name value e' (heap', set', false)
  /-- The first creation of the name, with its dummy. -/
  | first {rest : MallocOutcomes} {data : Hmap CString Addr}
      (new : m.lookup (nameKey name) = none) (sub : ∀ outcome ∈ rest, outcome ∈ heap.outcomes)
      (data_holds : Represents lawfulKeys_str data (m.insert (nameKey name) value)) :
      CreateCase heap set m name value e'
        (pushed (withDummy heap name rest) heap.next value (dummyEntry name) e', { data }, true)
  /-- The name was dropped. -/
  | again {head : Addr} {e : CatalogEntry δ} {data : Hmap CString Addr}
      (lookup : m.lookup (nameKey name) = some head) (get : heap.get? head = some e)
      (dropped : e.deleted = true)
      (data_holds : Represents lawfulKeys_str data (m.insert (nameKey name) value)) :
      CreateCase heap set m name value e' (pushed heap head value e e', { data }, true)

/-- A creation of a live name changes nothing. -/
theorem createEntry_exists (hdata : Represents lawfulKeys_str set.data m) {name : CString}
    {head : Addr} {e : CatalogEntry δ} (hlookup : m.lookup (nameKey name) = some head)
    (hhead : heap.get? head = some e) (hlive : e.deleted = false) (value : Addr) :
    catalogSetCreateEntry heap set name value = .ok (heap, set, false) := by
  obtain ⟨node, hget, hnode, -⟩ := hdata.get name
  rw [hlookup] at hnode
  obtain ⟨node, rfl, rfl⟩ := Option.map_eq_some_iff.mp hnode
  rw [catalogSetCreateEntry, hget, ok_bind]
  simp only [readEntry_ok hhead, ok_bind, hlive]
  rfl

/-- A creation of a dropped name puts the new version in front of the tombstone. -/
theorem createEntry_again (hdata : Represents lawfulKeys_str set.data m) {name : CString}
    {head value : Addr} {e e' : CatalogEntry δ} (hlookup : m.lookup (nameKey name) = some head)
    (hhead : heap.get? head = some e) (hdropped : e.deleted = true)
    (hvalue : heap.get? value = some e') (hne : head ≠ value) :
    ∃ data, catalogSetCreateEntry heap set name value
        = .ok (pushed heap head value e e', { data }, true) ∧
      Represents lawfulKeys_str data (m.insert (nameKey name) value) := by
  obtain ⟨node, hget, hnode, -⟩ := hdata.get name
  rw [hlookup] at hnode
  obtain ⟨node, rfl, rfl⟩ := Option.map_eq_some_iff.mp hnode
  obtain ⟨data, hpush, hdata'⟩ :=
    pushHead_eq hdata (Finmap.mem_of_lookup_eq_some hlookup) hhead hvalue hne
  refine ⟨data, ?_, hdata'⟩
  rw [catalogSetCreateEntry, hget, ok_bind]
  simp only [readEntry_ok hhead, ok_bind, hdropped, hpush]
  rfl

/-- The first creation of a name. -/
theorem createEntry_new (hdata : Represents lawfulKeys_str set.data m) {name : CString}
    (hnew : m.lookup (nameKey name) = none) {value : Addr} {e' : CatalogEntry δ}
    (hvalue : heap.get? value = some e') :
    ∃ result, catalogSetCreateEntry heap set name value = .ok result ∧
      CreateCase heap set m name value e' result := by
  obtain ⟨node, hget, hnode, -⟩ := hdata.get name
  rw [hnew, Option.map_eq_none_iff] at hnode
  rw [catalogSetCreateEntry, hget, ok_bind, hnode]
  -- the outcomes are taken by the copy of the name, the dummy and the map, in this order
  have hsub₁ : ∀ outcome ∈ (malloc heap.outcomes).2, outcome ∈ heap.outcomes :=
    fun _ => mem_of_mem_malloc
  have hsub₂ : ∀ outcome ∈ (malloc (malloc heap.outcomes).2).2, outcome ∈ heap.outcomes :=
    fun _ hmem => hsub₁ _ (mem_of_mem_malloc hmem)
  have hkept : ∀ (outcomes : MallocOutcomes) (addr : Addr) (e : CatalogEntry δ),
      heap.get? addr = some e → ({ heap with outcomes } : CatalogHeap δ).get? addr = some e :=
    fun _ _ _ he => he
  simp only [strdup_eq]
  cases hcopy : (malloc heap.outcomes).1 with
  | false => exact ⟨_, rfl, .refused hnew (false_mem_of_malloc hcopy) hdata (hkept _) le_rfl⟩
  | true =>
      simp only [if_true, makeEntry]
      cases hroom : (malloc (malloc heap.outcomes).2).1 with
      | false =>
          rw [Heap.alloc_of_false hroom]
          exact ⟨_, rfl, .refused hnew (hsub₁ _ (false_mem_of_malloc hroom)) hdata (hkept _)
            le_rfl⟩
      | true =>
          rw [Heap.alloc_of_true hroom]
          obtain ⟨data, node, rest, hinsert, hcases, -, hrest⟩ :=
            hdata.insert name heap.next (malloc (malloc heap.outcomes).2).2
          have hsub : ∀ outcome ∈ rest, outcome ∈ heap.outcomes :=
            fun outcome hmem => hsub₂ outcome (hrest outcome hmem)
          rcases hcases with ⟨rfl, -, hfailed, hdata'⟩ | ⟨node, rfl, -, hnext, hdata'⟩
          · refine ⟨((withDummy heap name rest).free heap.next, { data }, false), ?_,
              .refused hnew (hsub₂ _ hfailed) hdata' ?_ ?_⟩
            · show (hmapInsert set.data name heap.next _ >>= _) = _
              rw [hinsert]
              rfl
            · -- the dummy is freed again, and it was no entry of the old heap
              intro addr e he
              rw [Heap.get?_free_of_ne (Nat.ne_of_lt (Heap.lt_next he))]
              exact Heap.get?_push_of_get? he _
            · rw [Heap.next_free]
              exact (Nat.le_succ _).trans (Heap.next_push heap _).ge
          · have hdummy : (withDummy heap name rest).get? heap.next = some (dummyEntry name) :=
              Heap.get?_push_next heap _
            have hvalue' : (withDummy heap name rest).get? value = some e' :=
              Heap.get?_push_of_get? hvalue _
            obtain ⟨data', hpush, hdata''⟩ := pushHead_eq hdata'
              (Finmap.mem_insert.mpr (Or.inl rfl)) hdummy hvalue'
              (Nat.ne_of_gt (Heap.lt_next hvalue))
            rw [Finmap.insert_insert] at hdata''
            refine ⟨_, ?_, .first hnew hsub hdata''⟩
            show (hmapInsert set.data name heap.next _ >>= _) = _
            rw [hinsert, ok_bind]
            show (pushHead (withDummy heap name rest) { data } name node.value value >>= _) = _
            rw [hnext, hpush]
            rfl

/-- The spec of `catalogSet_create_entry`, for an entry that is not the newest version of a name. -/
theorem createEntry_cases (hdata : Represents lawfulKeys_str set.data m)
    (hheads : ∀ n addr, m.lookup (nameKey n) = some addr → ∃ e, heap.get? addr = some e)
    (name : CString) {value : Addr} {e' : CatalogEntry δ} (hvalue : heap.get? value = some e')
    (hfresh : ∀ n, m.lookup (nameKey n) ≠ some value) :
    ∃ result, catalogSetCreateEntry heap set name value = .ok result ∧
      CreateCase heap set m name value e' result := by
  cases hlookup : m.lookup (nameKey name) with
  | none => exact createEntry_new hdata hlookup hvalue
  | some head =>
      obtain ⟨e, he⟩ := hheads name head hlookup
      cases hdeleted : e.deleted with
      | false =>
          exact ⟨_, createEntry_exists hdata hlookup he hdeleted value,
            .exists hlookup he hdeleted⟩
      | true =>
          have hne : head ≠ value := fun heq => hfresh name (heq ▸ hlookup)
          obtain ⟨data, hrun, hdata'⟩ := createEntry_again hdata hlookup he hdeleted hvalue hne
          exact ⟨_, hrun, .again hlookup he hdeleted hdata'⟩

/-! ### Drops -/

/-- What `catalogSet_drop_entry` can do. It returns `true` for every name that is in the map. -/
inductive DropCase (heap : CatalogHeap δ) (set : CatalogSet) (m : lawfulKeys_str.Map Addr)
    (name : CString) : CatalogHeap δ × CatalogSet × Bool → Prop where
  | absent (new : m.lookup (nameKey name) = none) : DropCase heap set m name (heap, set, false)
  /-- No memory for the tombstone. -/
  | kept {head : Addr} {e : CatalogEntry δ} {rest : MallocOutcomes}
      (lookup : m.lookup (nameKey name) = some head) (get : heap.get? head = some e)
      (failed : (malloc (malloc heap.outcomes).2).1 = false) :
      DropCase heap set m name ({ heap with outcomes := rest }, set, true)
  /-- A tombstone in front of the newest version, whatever that is. -/
  | dropped {head : Addr} {e : CatalogEntry δ} {copy : Option CString} {rest : MallocOutcomes}
      {data : Hmap CString Addr} (lookup : m.lookup (nameKey name) = some head)
      (get : heap.get? head = some e) (room : (malloc (malloc heap.outcomes).2).1 = true)
      (copy_eq : (malloc heap.outcomes).1 = true → copy = e.name)
      (sub : ∀ outcome ∈ rest, outcome ∈ heap.outcomes)
      (data_holds : Represents lawfulKeys_str data (m.insert (nameKey name) heap.next)) :
      DropCase heap set m name
        (({ heap.push (tombstone copy head) with outcomes := rest } : CatalogHeap δ).put head
          { e with parent := some heap.next }, { data }, true)

/-- The stores of a drop are one change of the links, with the tombstone as it is at the end. -/
theorem put_tombstone {head : Addr} {e : CatalogEntry δ} (hget : heap.get? head = some e)
    (copy : Option CString) :
    ∃ heap', linkHead (heap.push (catalogEntryInit .invalid copy .base)) head heap.next
        = .ok heap' ∧
      updateEntry heap' heap.next (fun e => { e with deleted := true })
        = .ok ((heap.push (tombstone copy head)).put head { e with parent := some heap.next }) := by
  have hne : head ≠ heap.next := Nat.ne_of_lt (Heap.lt_next hget)
  have hvalue := Heap.get?_push_next heap (catalogEntryInit .invalid copy .base)
  refine ⟨_, linkHead_eq (Heap.get?_push_of_get? hget _) hvalue hne, ?_⟩
  have hlinked := Heap.get?_put_self hvalue
    { catalogEntryInit .invalid copy .base with child := some head }
  rw [← Heap.get?_put_of_ne hne.symm { e with parent := some heap.next }] at hlinked
  rw [pushed, updateEntry_ok hlinked, Heap.put_comm hne, Heap.put_put, Heap.put_push_next]
  rfl

/-- The spec of `catalogSet_drop_entry`. A newest version without a name is a tombstone of a drop
that had no memory for the name, and a drop of it reads `NULL`. -/
theorem dropEntry_cases (hdata : Represents lawfulKeys_str set.data m)
    (hheads : ∀ n addr, m.lookup (nameKey n) = some addr → ∃ e, heap.get? addr = some e)
    (name : CString) :
    (∃ result, catalogSetDropEntry heap set name = .ok result ∧ DropCase heap set m name result) ∨
      ∃ head e, m.lookup (nameKey name) = some head ∧ heap.get? head = some e ∧ e.name = none ∧
        catalogSetDropEntry heap set name = .error .nullPointer := by
  obtain ⟨node, hget, hnode, -⟩ := hdata.get name
  rw [catalogSetDropEntry, hget, ok_bind]
  cases node with
  | none => exact Or.inl ⟨_, rfl, .absent hnode.symm⟩
  | some node =>
      have hlookup : m.lookup (nameKey name) = some node.value := hnode.symm
      obtain ⟨e, he⟩ := hheads name _ hlookup
      simp only [catalogSetDropEntryImpl, readEntry_ok he, ok_bind]
      cases hname : e.name with
      | none => exact Or.inr ⟨node.value, e, hlookup, he, hname, rfl⟩
      | some entryName =>
          left
          simp only [strdup_eq, makeEntry]
          cases hroom : (malloc (malloc heap.outcomes).2).1 with
          | false =>
              rw [Heap.alloc_of_false hroom]
              exact ⟨_, rfl, .kept hlookup he hroom⟩
          | true =>
              rw [Heap.alloc_of_true hroom]
              obtain ⟨data, hset, hdata'⟩ :=
                hdata.setValue (Finmap.mem_of_lookup_eq_some hlookup) heap.next
              -- both allocations come before the stores
              let heap₁ : CatalogHeap δ :=
                { heap with outcomes := (malloc (malloc heap.outcomes).2).2 }
              let copy := if (malloc heap.outcomes).1 then some entryName else none
              have he₁ : heap₁.get? node.value = some e := he
              obtain ⟨heap', hlink, hdelete⟩ := put_tombstone he₁ copy
              have hcase : DropCase heap set m name
                  ((heap₁.push (tombstone copy node.value)).put node.value
                    { e with parent := some heap.next }, { data }, true) := by
                refine .dropped hlookup he hroom (fun hok => ?_) ?_ hdata'
                · rw [hname]
                  exact if_pos hok
                · exact fun _ hmem => mem_of_mem_malloc (mem_of_mem_malloc hmem)
              refine ⟨_, ?_, hcase⟩
              show (linkHead (heap₁.push (catalogEntryInit .invalid copy .base)) node.value
                heap₁.next >>= _) >>= _ = _
              rw [hlink, ok_bind]
              show (updateEntry heap' heap₁.next _ >>= _) >>= _ = _
              rw [hdelete, ok_bind]
              show (hmapSetValue set.data name heap.next >>= _) >>= _ = _
              rw [hset]
              rfl

end MustDb.Proofs.Catalog
