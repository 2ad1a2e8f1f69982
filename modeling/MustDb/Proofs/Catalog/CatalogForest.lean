import MustDb.Lib.Forest
import MustDb.Proofs.Catalog.Refinement
import MustDb.Proofs.Catalog.VersionChain

/-!
# `MustDb.Proofs.Catalog.CatalogForest`: all entries of a catalog in its version chains

The entries of a catalog are in version chains, one for each name of a schema, and one for each name
of a table in each schema that was ever made. `CatalogForest` says that these chains have all
entries of the heap: also the tombstones and dummies, the schemas that were dropped, and the tables
in them. So nothing leaks in a run, and a creation that finds its name taken frees its entry.

Each call makes at most one chain longer (`GrownChain`). `catalogForest_run` is the invariant of
every run of a new catalog that has enough memory.
-/

set_option autoImplicit false

namespace MustDb.Proofs.Catalog

open MustDb.Lib
open MustDb.Libv
open MustDb.Catalog
open MustDb.Proofs.Libv

variable {σ δ : Type}

/-- A chain: the names of the schemas have one each, and in the entry of each schema the names of
its tables. -/
abbrev Slot := Option Addr × CString

variable {heap heap' : CatalogHeap δ} {set : CatalogSet} {lists : Slot → List Addr}
  {owner : Option Addr} {name : CString}

/-! ### The map of a set -/

/-- The map of the set has these heads. -/
def HasHeads (set : CatalogSet) (heads : CString → Option Addr) : Prop :=
  ∃ m : lawfulKeys_str.Map Addr, Represents lawfulKeys_str set.data m ∧
    ∀ name, m.lookup (nameKey name) = heads name

theorem hasHeads_init : HasHeads (catalogSetInit []).1 fun _ => none := by
  have hdata : Represents lawfulKeys_str (catalogSetInit []).1.data (∅ : lawfulKeys_str.Map Addr) :=
    represents_init lawfulKeys_str HMAP_DEFAULT_NBUCKETS [] (by decide) (by decide)
  exact ⟨∅, hdata, fun _ => Finmap.lookup_empty _⟩

/-- A longer chain has a new head in its map. -/
theorem hasHeads_insert {m : lawfulKeys_str.Map Addr} {data : Hmap CString Addr} {value : Addr}
    {addrs : List Addr} (hheads : ∀ n, m.lookup (nameKey n) = (lists (owner, n)).head?)
    (hdata : Represents lawfulKeys_str data (m.insert (nameKey name) value)) :
    HasHeads { data } fun n =>
      (Function.update lists (owner, name) (value :: addrs) (owner, n)).head? := by
  refine ⟨_, hdata, fun n => ?_⟩
  show _ = (Function.update lists (owner, name) (value :: addrs) (owner, n)).head?
  by_cases hn : n = name
  case pos =>
      subst hn
      rw [Finmap.lookup_insert, Function.update_self]
      rfl
  case neg =>
      have hslot : (owner, n) ≠ (owner, name) := fun heq => hn (Prod.mk.inj heq).2
      rw [Finmap.lookup_insert_of_ne _ fun heq => hn (nameKey_eq_iff.mp heq),
        Function.update_of_ne hslot]
      exact hheads n

/-! ### One chain grows -/

/-- A dummy or a tombstone. -/
def IsBase (e : CatalogEntry δ) : Prop := e.type = .invalid ∧ e.body = .base

/-- The chain of one name has a new entry `value`, perhaps behind it a new dummy, and otherwise
the heap is kept. -/
structure GrownChain (heap heap' : CatalogHeap δ) (lists : Slot → List Addr) (slot : Slot)
    (value : Addr) (addrs : List Addr) : Prop where
  forest : Forest entryLinks heap' (Function.update lists slot (value :: addrs))
  kept : Kept heap heap'
  added : ∀ a ∈ addrs, a ∈ lists slot ∨ ∃ e, heap'.get? a = some e ∧ IsBase e

/-- A new entry in front of a chain that is not empty. The heap in between has the new entry, and is
the old one elsewhere. -/
theorem forest_pushes (h : Forest entryLinks heap lists) {slot : Slot} {mid : CatalogHeap δ}
    {head value : Addr} {rest : List Addr} {e : CatalogEntry δ} (hlist : lists slot = head :: rest)
    (hnew : heap.get? value = none) (hmid : ∀ a, a ≠ value → mid.get? a = heap.get? a)
    (hpushes : Pushes mid heap' head value e) :
    Forest entryLinks heap' (Function.update lists slot (value :: lists slot)) := by
  have hne : ∀ a ∈ lists slot, a ≠ value := fun a hmem heq => h.not_mem hnew slot (heq ▸ hmem)
  have hlinked := h.linked slot
  have hnodup := hlinked.nodup
  rw [hlist] at hlinked hnodup
  obtain ⟨e', hvalue, hchild, hparent⟩ := hpushes.get_value
  -- the old head keeps its child
  have hhead : LinkedAt entryLinks heap' (some value) head rest.head? := by
    obtain ⟨⟨obj, hget, -, hnext⟩, -⟩ := hlinked
    have hold := (hmid head (hne head (hlist ▸ List.mem_cons_self))).symm.trans hpushes.get_old
    cases hget.symm.trans hold
    exact ⟨_, hpushes.get_head, rfl, hnext⟩
  have hothers : ∀ a, a ≠ head → a ≠ value → heap'.get? a = heap.get? a := fun a hhead hvalue =>
    (hpushes.get_other a hhead hvalue).trans (hmid a hvalue)
  refine h.grow slot ?_ (fun a hmem => List.mem_cons_of_mem _ hmem) ?_ ?_
  · rw [hlist]
    refine hlinked.push ⟨e', hvalue, hparent, hchild⟩ hhead fun a hmem => hothers a ?_ ?_
    · rintro rfl
      exact (List.nodup_cons.mp hnodup).1 hmem
    · exact hne a (hlist ▸ List.mem_cons_of_mem _ hmem)
  · intro a hmem
    rcases List.mem_cons.mp hmem with rfl | hmem
    · exact Or.inr hnew
    · exact Or.inl hmem
  · intro a hmem
    refine hothers a ?_ fun heq => hmem (heq ▸ List.mem_cons_self)
    rintro rfl
    exact hmem (List.mem_cons_of_mem _ (hlist ▸ List.mem_cons_self))

/-- The first creation of a name: the chain is the new entry and the dummy. -/
theorem forest_first (h : Forest entryLinks heap lists) {slot : Slot} {mid : CatalogHeap δ}
    {dummy value : Addr} {e : CatalogEntry δ} (hlist : lists slot = [])
    (hvalue : heap.get? value = none) (hdummy : heap.get? dummy = none)
    (hmid : ∀ a, a ≠ value → a ≠ dummy → mid.get? a = heap.get? a)
    (hpushes : Pushes mid heap' dummy value e) (hend : e.child = none) :
    Forest entryLinks heap' (Function.update lists slot [value, dummy]) := by
  obtain ⟨e', hget, hchild, hparent⟩ := hpushes.get_value
  refine h.grow slot ⟨⟨e', hget, hparent, hchild⟩, ⟨_, hpushes.get_head, rfl, hend⟩, trivial⟩ ?_ ?_
    ?_
  · rw [hlist]
    exact fun a hmem => absurd hmem List.not_mem_nil
  · intro a hmem
    rcases List.mem_cons.mp hmem with rfl | hmem
    · exact Or.inr hvalue
    · rw [List.mem_singleton.mp hmem]
      exact Or.inr hdummy
  · intro a hmem
    have hne : a ≠ value ∧ a ≠ dummy := by simpa using hmem
    exact (hpushes.get_other a hne.2 hne.1).trans (hmid a hne.1 hne.2)

/-- The heads of the map are in the heap. -/
theorem heads_in_heap (h : Forest entryLinks heap lists) {m : lawfulKeys_str.Map Addr}
    (hheads : ∀ n, m.lookup (nameKey n) = (lists (owner, n)).head?) {n : CString} {addr : Addr}
    (hlookup : m.lookup (nameKey n) = some addr) : ∃ e, heap.get? addr = some e := by
  rw [hheads] at hlookup
  exact h.get (List.mem_of_mem_head? hlookup)

/-- What a call can do to the chain of a name, and to the map of its set. -/
inductive SetEffect (heap : CatalogHeap δ) (set : CatalogSet) (lists : Slot → List Addr)
    (owner : Option Addr) (name : CString) (value : Addr) :
    CatalogHeap δ × CatalogSet × Bool → Prop where
  | same : SetEffect heap set lists owner name value (heap, set, false)
  | grown {heap' : CatalogHeap δ} {set' : CatalogSet} {addrs : List Addr}
      (grown : GrownChain heap heap' lists (owner, name) value addrs)
      (heads : HasHeads set' fun n =>
        (Function.update lists (owner, name) (value :: addrs) (owner, n)).head?) :
      SetEffect heap set lists owner name value (heap', set', true)

/-- The spec of `catalogSet_create_entry` for an entry that was just made. -/
theorem createEntry_effect (h : Forest entryLinks heap lists)
    (hheads : HasHeads set fun n => (lists (owner, n)).head?) (hmem : heap.outcomes = [])
    (name : CString) (entry : CatalogEntry δ) (hparent : entry.parent = none) :
    ∃ result, catalogSetCreateEntry (heap.push entry) set name heap.next = .ok result ∧
      SetEffect (heap.push entry) set lists owner name heap.next result := by
  obtain ⟨m, hdata, hlookup⟩ := hheads
  have hvalue := Heap.get?_push_next heap entry
  have hnone := Heap.get?_next heap
  have hpush : ∀ a, a ≠ heap.next → (heap.push entry).get? a = heap.get? a := fun a hne =>
    Heap.get?_push_of_ne hne entry
  have hheap : ∀ n addr, m.lookup (nameKey n) = some addr →
      ∃ e, (heap.push entry).get? addr = some e := by
    intro n addr hn
    obtain ⟨e, he⟩ := heads_in_heap h hlookup hn
    exact ⟨e, Heap.get?_push_of_get? he entry⟩
  have hfresh : ∀ n, m.lookup (nameKey n) ≠ some heap.next := by
    intro n hn
    obtain ⟨e, he⟩ := heads_in_heap h hlookup hn
    exact Nat.lt_irrefl _ (Heap.lt_next he)
  obtain ⟨result, hrun, hcase⟩ := createEntry_cases hdata hheap name hvalue hfresh
  refine ⟨result, hrun, ?_⟩
  cases hcase with
  | «exists» lookup get live => exact .same
  | refused new failed data kept next_le =>
      have hfailed : false ∈ heap.outcomes := failed
      rw [hmem] at hfailed
      cases hfailed
  | @first rest data new sub data_holds =>
      have hlist : lists (owner, name) = [] :=
        List.head?_eq_none_iff.mp ((hlookup name).symm.trans new)
      have hne : (heap.push entry).next ≠ heap.next := by
        rw [Heap.next_push]
        exact Nat.succ_ne_self _
      have hdummy : (withDummy (heap.push entry) name rest).get? (heap.push entry).next
          = some (dummyEntry name) := Heap.get?_push_next _ _
      have hvalue' : (withDummy (heap.push entry) name rest).get? heap.next = some entry :=
        Heap.get?_push_of_get? hvalue _
      have hkept : Kept (heap.push entry) (withDummy (heap.push entry) name rest) :=
        Kept.outcomes_rest (kept_push _) (show (heap.push entry).outcomes = [] from hmem) sub
      have hpushes := pushes_pushed hdummy hvalue' hparent hne
      have hmid : ∀ a, a ≠ heap.next → a ≠ (heap.push entry).next →
          (withDummy (heap.push entry) name rest).get? a = heap.get? a := fun a ha hdummy =>
        (Heap.get?_push_of_ne hdummy _).trans (hpush a ha)
      have hforest := forest_first h hlist hnone ((hpush _ hne).symm.trans (Heap.get?_next _)) hmid
        hpushes rfl
      refine .grown ⟨hforest, hkept.trans hpushes.kept, fun a ha => ?_⟩
        (hasHeads_insert hlookup data_holds)
      rw [List.mem_singleton.mp ha]
      exact Or.inr ⟨_, hpushes.get_head, rfl, rfl⟩
  | @again head e data lookup get dropped data_holds =>
      obtain ⟨rest, hlist⟩ := List.head?_eq_some_iff.mp ((hlookup name).symm.trans lookup)
      have hne : head ≠ heap.next := by
        intro heq
        exact h.not_mem hnone (owner, name) (heq ▸ hlist ▸ List.mem_cons_self)
      have hpushes := pushes_pushed get hvalue hparent hne
      exact .grown ⟨forest_pushes h hlist hnone hpush hpushes, hpushes.kept, fun a ha => .inl ha⟩
        (hasHeads_insert hlookup data_holds)

/-- The spec of `catalogSet_drop_entry`, when it returns. -/
theorem dropEntry_effect (h : Forest entryLinks heap lists)
    (hheads : HasHeads set fun n => (lists (owner, n)).head?) (hmem : heap.outcomes = [])
    {name : CString} {result : CatalogHeap δ × CatalogSet × Bool}
    (hrun : catalogSetDropEntry heap set name = .ok result) :
    SetEffect heap set lists owner name heap.next result ∧
      ∀ e, result.1.get? heap.next = some e → IsBase e := by
  obtain ⟨m, hdata, hlookup⟩ := hheads
  have hnone := Heap.get?_next heap
  rcases dropEntry_cases hdata (fun n addr hn => heads_in_heap h hlookup hn) name with
    ⟨result', hrun', hcase⟩ | ⟨-, -, -, -, -, herror⟩
  · cases hrun.symm.trans hrun'
    cases hcase with
    | absent new =>
        refine ⟨.same, fun e he => ?_⟩
        rw [hnone] at he
        cases he
    | kept lookup get failed =>
        rw [hmem] at failed
        cases failed
    | @dropped head e copy rest data lookup get room copy_eq sub data_holds =>
        obtain ⟨behind, hlist⟩ := List.head?_eq_some_iff.mp ((hlookup name).symm.trans lookup)
        have hpushes := pushes_tombstone get copy
        have hheap := forest_pushes h hlist hnone (fun _ _ => rfl) hpushes
        refine ⟨.grown ⟨hheap.congr fun _ => rfl, hpushes.kept.outcomes_rest hmem sub,
          fun a ha => .inl ha⟩ (hasHeads_insert hlookup data_holds), fun e' he' => ?_⟩
        cases (get?_tombstone get copy _).symm.trans he'
        exact ⟨rfl, rfl⟩
  · rw [hrun] at herror
    cases herror

/-! ### The invariant -/

/-- The entry of a table, a dummy or a tombstone. -/
def TableEntry (e : CatalogEntry δ) : Prop :=
  IsBase e ∨ e.type = .table ∧ ∃ fields, e.body = .table fields

/-- The entry of a schema, whose sets are the map of its tables and an empty one; or a dummy or a
tombstone. -/
def SchemaEntry (lists : Slot → List Addr) (a : Addr) (e : CatalogEntry δ) : Prop :=
  IsBase e ∨ e.type = .schema ∧ ∃ tables indexes, e.body = .schema tables indexes ∧
    indexes.data.nodes = [] ∧ HasHeads tables fun name => (lists (some a, name)).head?

/-- The entries of the catalog are in these chains, and each chain has entries of its kind. -/
structure CatalogForest (s : CatalogState σ δ) (lists : Slot → List Addr) : Prop where
  forest : Forest entryLinks s.heap lists
  schemas : HasHeads s.catalog.schemas fun name => (lists (none, name)).head?
  schema : ∀ name, ∀ a ∈ lists (none, name), ∃ e, s.heap.get? a = some e ∧ SchemaEntry lists a e
  table : ∀ owner name, ∀ a ∈ lists (some owner, name),
    ∃ e, s.heap.get? a = some e ∧ TableEntry e
  owner : ∀ owner name, lists (some owner, name) ≠ [] →
    ∃ e, s.heap.get? owner = some e ∧ e.type = .schema

theorem IsBase.same {e e' : CatalogEntry δ} (h : IsBase e) (hsame : SameEntry e e') : IsBase e' :=
  ⟨hsame.type_eq.trans h.1, hsame.body_eq.trans h.2⟩

theorem TableEntry.same {e e' : CatalogEntry δ} (h : TableEntry e) (hsame : SameEntry e e') :
    TableEntry e' := by
  rcases h with hbase | ⟨htype, fields, hbody⟩
  · exact .inl (hbase.same hsame)
  · exact .inr ⟨hsame.type_eq.trans htype, fields, hsame.body_eq.trans hbody⟩

/-- A schema reads the chains of its own tables. -/
theorem SchemaEntry.same {lists' : Slot → List Addr} {a : Addr} {e e' : CatalogEntry δ}
    (h : SchemaEntry lists a e) (hsame : SameEntry e e')
    (hlists : ∀ name, lists' (some a, name) = lists (some a, name)) :
    SchemaEntry lists' a e' := by
  rcases h with hbase | ⟨htype, tables, indexes, hbody, hindexes, hheads⟩
  · exact .inl (hbase.same hsame)
  · refine .inr ⟨hsame.type_eq.trans htype, tables, indexes, hsame.body_eq.trans hbody, hindexes,
      ?_⟩
    simpa only [hlists] using hheads

section Forest
variable {s : CatalogState σ δ} (h : CatalogForest s lists)
include h

/-- What a schema owns is in no other place. -/
theorem CatalogForest.no_tables {a : Addr} (hnone : s.heap.get? a = none) (name : CString) :
    lists (some a, name) = [] := by
  by_contra hne
  obtain ⟨e, hget, -⟩ := h.owner a name hne
  rw [hnone] at hget
  cases hget

/-- An entry of a schema is in the chain of a schema. -/
theorem CatalogForest.schema_slot {a : Addr} {e : CatalogEntry δ} (hget : s.heap.get? a = some e)
    (htype : e.type = .schema) : ∃ name, a ∈ lists (none, name) := by
  obtain ⟨⟨owner, name⟩, hmem⟩ := h.forest.covers a e hget
  cases owner with
  | none => exact ⟨name, hmem⟩
  | some owner =>
      obtain ⟨e', hget', htable⟩ := h.table owner name a hmem
      cases hget.symm.trans hget'
      rcases htable with ⟨hbase, -⟩ | ⟨htable, -⟩
      · rw [htype] at hbase
        cases hbase
      · rw [htype] at htable
        cases htable

/-- A heap with the same entries. -/
theorem CatalogForest.congr {heap' : CatalogHeap δ}
    (heq : ∀ a, heap'.get? a = s.heap.get? a) : CatalogForest { s with heap := heap' } lists where
  forest := h.forest.congr heq
  schemas := h.schemas
  schema name a hmem := by
    obtain ⟨e, hget, hentry⟩ := h.schema name a hmem
    exact ⟨e, (heq a).trans hget, hentry⟩
  table owner name a hmem := by
    obtain ⟨e, hget, hentry⟩ := h.table owner name a hmem
    exact ⟨e, (heq a).trans hget, hentry⟩
  owner owner name hne := by
    obtain ⟨e, hget, htype⟩ := h.owner owner name hne
    exact ⟨e, (heq owner).trans hget, htype⟩

/-- A new entry in the chain of a schema: the entry of a new schema, or a tombstone. -/
theorem CatalogForest.grow_schemas {heap heap' : CatalogHeap δ} {set' : CatalogSet} {name : CString}
    {value : Addr} {addrs : List Addr}
    (hheap : ∀ a e, s.heap.get? a = some e → heap.get? a = some e)
    (hnew : s.heap.get? value = none)
    (hgrown : GrownChain heap heap' lists (none, name) value addrs)
    (hheads : HasHeads set' fun n =>
      (Function.update lists (none, name) (value :: addrs) (none, n)).head?)
    (hvalue : ∃ e, heap'.get? value = some e ∧ (IsBase e ∨ SameEntry (newSchema name) e)) :
    CatalogForest { heap := heap', catalog := { s.catalog with schemas := set' } }
      (Function.update lists (none, name) (value :: addrs)) := by
  have htables : ∀ a n, Function.update lists (none, name) (value :: addrs) (some a, n)
      = lists (some a, n) := fun a n => Function.update_of_ne (by simp) _ _
  have hkept : ∀ a e, s.heap.get? a = some e → ∃ e', heap'.get? a = some e' ∧ SameEntry e e' :=
    fun a e hget => hgrown.kept.entry a e (hheap a e hget)
  refine ⟨hgrown.forest, hheads, ?_, ?_, ?_⟩
  case refine_1 =>
      -- an old entry of a chain keeps its tables
      have hold : ∀ n, ∀ a ∈ lists (none, n), ∃ e, heap'.get? a = some e ∧
          SchemaEntry (Function.update lists (none, name) (value :: addrs)) a e := by
        intro n a hmem
        obtain ⟨e, hget, hentry⟩ := h.schema n a hmem
        obtain ⟨e', hget', hsame⟩ := hkept a e hget
        exact ⟨e', hget', hentry.same hsame (htables a)⟩
      intro n a hmem
      by_cases hn : n = name
      case neg =>
          rw [Function.update_of_ne (by simpa using hn)] at hmem
          exact hold n a hmem
      case pos =>
          subst hn
          rw [Function.update_self] at hmem
          rcases List.mem_cons.mp hmem with rfl | hmem
          · obtain ⟨e, hget, hbase | hsame⟩ := hvalue
            · exact ⟨e, hget, .inl hbase⟩
            · refine ⟨e, hget, .inr ⟨hsame.type_eq, emptySet, emptySet, hsame.body_eq, rfl, ?_⟩⟩
              simp only [htables, h.no_tables hnew]
              exact hasHeads_init
          · rcases hgrown.added a hmem with hmem | ⟨e, hget, hbase⟩
            · exact hold n a hmem
            · exact ⟨e, hget, .inl hbase⟩
  case refine_2 =>
      intro owner n a hmem
      rw [htables] at hmem
      obtain ⟨e, hget, hentry⟩ := h.table owner n a hmem
      obtain ⟨e', hget', hsame⟩ := hkept a e hget
      exact ⟨e', hget', hentry.same hsame⟩
  case refine_3 =>
      intro owner n hne
      rw [htables] at hne
      obtain ⟨e, hget, htype⟩ := h.owner owner n hne
      obtain ⟨e', hget', hsame⟩ := hkept owner e hget
      exact ⟨e', hget', hsame.type_eq.trans htype⟩

/-- A new entry in the chain of a table, whose set is then stored in the entry of its schema. -/
theorem CatalogForest.grow_tables {heap heap' : CatalogHeap δ} {tables' indexes : CatalogSet}
    {schema : Addr} {e : CatalogEntry δ} {name : CString} {value : Addr} {addrs : List Addr}
    (hheap : ∀ a e, s.heap.get? a = some e → heap.get? a = some e)
    (hgrown : GrownChain heap heap' lists (some schema, name) value addrs)
    (hheads : HasHeads tables' fun n =>
      (Function.update lists (some schema, name) (value :: addrs) (some schema, n)).head?)
    (hschema : heap'.get? schema = some e) (htype : e.type = .schema)
    (hindexes : indexes.data.nodes = [])
    (hvalue : ∃ e, heap'.get? value = some e ∧ TableEntry e) :
    CatalogForest { s with heap := heap'.put schema { e with body := .schema tables' indexes } }
      (Function.update lists (some schema, name) (value :: addrs)) := by
  have hschemas : ∀ n, Function.update lists (some schema, name) (value :: addrs) (none, n)
      = lists (none, n) := fun n => Function.update_of_ne (by simp) _ _
  have hkept : ∀ a e, s.heap.get? a = some e → ∃ e', heap'.get? a = some e' ∧ SameEntry e e' :=
    fun a e hget => hgrown.kept.entry a e (hheap a e hget)
  -- the entry of the schema is no entry of a table
  have htable : ∀ a e', heap'.get? a = some e' → TableEntry e' →
      (heap'.put schema { e with body := .schema tables' indexes }).get? a = some e' := by
    intro a e' hget hentry
    refine (Heap.get?_put_of_ne ?_ _).trans hget
    rintro rfl
    cases hget.symm.trans hschema
    rcases hentry with ⟨hbase, -⟩ | ⟨htable, -⟩
    · cases htype.symm.trans hbase
    · cases htype.symm.trans htable
  refine ⟨hgrown.forest.put hschema rfl rfl, ?_, ?_, ?_, ?_⟩
  case refine_1 =>
      simp only [hschemas]
      exact h.schemas
  case refine_2 =>
      intro n a hmem
      rw [hschemas] at hmem
      obtain ⟨e₀, hget₀, hentry⟩ := h.schema n a hmem
      obtain ⟨e', hget', hsame⟩ := hkept a e₀ hget₀
      by_cases ha : a = schema
      case pos =>
          subst ha
          exact ⟨_, Heap.get?_put_self hschema _, .inr ⟨htype, tables', indexes, rfl, hindexes,
            hheads⟩⟩
      case neg =>
          refine ⟨e', (Heap.get?_put_of_ne ha _).trans hget', hentry.same hsame fun n => ?_⟩
          exact Function.update_of_ne (by simp [ha]) _ _
  case refine_3 =>
      have hold : ∀ owner n, ∀ a ∈ lists (some owner, n), ∃ e', heap'.get? a = some e' ∧
          TableEntry e' := by
        intro owner n a hmem
        obtain ⟨e₀, hget₀, hentry⟩ := h.table owner n a hmem
        obtain ⟨e', hget', hsame⟩ := hkept a e₀ hget₀
        exact ⟨e', hget', hentry.same hsame⟩
      intro owner n a hmem
      suffices hentry : ∃ e', heap'.get? a = some e' ∧ TableEntry e' by
        obtain ⟨e', hget', hentry⟩ := hentry
        exact ⟨e', htable a e' hget' hentry, hentry⟩
      by_cases hslot : (some owner, n) = (some schema, name)
      case neg =>
          rw [Function.update_of_ne hslot] at hmem
          exact hold owner n a hmem
      case pos =>
          rw [hslot, Function.update_self] at hmem
          rcases List.mem_cons.mp hmem with rfl | hmem
          · exact hvalue
          · rcases hgrown.added a hmem with hmem | ⟨e', hget', hbase⟩
            · exact hold schema name a hmem
            · exact ⟨e', hget', .inl hbase⟩
  case refine_4 =>
      intro owner n hne
      by_cases howner : owner = schema
      case pos =>
          subst howner
          exact ⟨_, Heap.get?_put_self hschema _, htype⟩
      case neg =>
          rw [Function.update_of_ne (by simp [howner])] at hne
          obtain ⟨e₀, hget₀, htype₀⟩ := h.owner owner n hne
          obtain ⟨e', hget', hsame⟩ := hkept owner e₀ hget₀
          exact ⟨e', (Heap.get?_put_of_ne howner _).trans hget', hsame.type_eq.trans htype₀⟩

/-- The set of the tables in the entry of a live schema. -/
theorem CatalogForest.tablesOf {a : Addr} {e : CatalogEntry δ} (hget : s.heap.get? a = some e)
    {tables indexes : CatalogSet} (hbody : e.body = .schema tables indexes) :
    e.type = .schema ∧ indexes.data.nodes = [] ∧
      HasHeads tables fun name => (lists (some a, name)).head? := by
  obtain ⟨⟨owner, name⟩, hslot⟩ := h.forest.covers a e hget
  cases owner with
  | none =>
      obtain ⟨e', hget', hentry⟩ := h.schema name a hslot
      cases hget.symm.trans hget'
      rcases hentry with ⟨-, hbase⟩ | ⟨htype, tables', indexes', hbody', hindexes, hheads⟩
      · cases hbase.symm.trans hbody
      · cases hbody'.symm.trans hbody
        exact ⟨htype, hindexes, hheads⟩
  | some owner =>
      obtain ⟨e', hget', hentry⟩ := h.table owner name a hslot
      cases hget.symm.trans hget'
      rcases hentry with ⟨-, hbase⟩ | ⟨-, fields, htable⟩
      · cases hbase.symm.trans hbody
      · cases htable.symm.trans hbody

end Forest

/-! ### The calls -/

/-- A new entry that is freed at once leaves the heap as it was. -/
theorem get?_free_push (heap : CatalogHeap δ) (e : CatalogEntry δ) (a : Addr) :
    ((heap.push e).free heap.next).get? a = heap.get? a := by
  by_cases ha : a = heap.next
  · rw [ha, Heap.get?_free_self, Heap.get?_next]
  · rw [Heap.get?_free_of_ne ha, Heap.get?_push_of_ne ha]

/-- A store of what was there before changes nothing. -/
theorem get?_free_put_push (heap : CatalogHeap δ) (new : CatalogEntry δ) {addr : Addr}
    {e : CatalogEntry δ} (hget : heap.get? addr = some e) (a : Addr) :
    (((heap.push new).put addr e).free heap.next).get? a = heap.get? a := by
  have hne : addr ≠ heap.next := Nat.ne_of_lt (Heap.lt_next hget)
  rw [← get?_free_push heap new a]
  by_cases ha : a = heap.next
  · rw [ha, Heap.get?_free_self, Heap.get?_free_self]
  · rw [Heap.get?_free_of_ne ha, Heap.get?_free_of_ne ha]
    by_cases haddr : a = addr
    · rw [haddr, Heap.get?_put_self (Heap.get?_push_of_get? hget new),
        Heap.get?_push_of_get? hget new]
    · rw [Heap.get?_put_of_ne haddr]

section Steps
variable {s : CatalogState σ δ} (h : CatalogForest s lists) (hmem : s.heap.outcomes = [])
include h hmem

theorem CatalogForest.createSchema {fuel : Nat} {info : CreateSchemaInfo}
    {result : CatalogHeap δ × Catalog σ × Int}
    (hrun : catalogCreateSchema fuel s.heap s.catalog info = .ok result) :
    ∃ lists', CatalogForest { heap := result.1, catalog := result.2.1 } lists' := by
  have hget := Heap.get?_push_next s.heap (newSchema info.schemaName)
  obtain ⟨created, hcreate, heffect⟩ := createEntry_effect h.forest h.schemas hmem info.schemaName
    (newSchema info.schemaName) rfl
  rw [catalogCreateSchema, strdup_of_nil hmem] at hrun
  simp only [makeSchemaEntry_of_nil hmem, hcreate, ok_bind] at hrun
  cases heffect with
  | same =>
      -- the name is taken, and the new entry is freed
      simp only [destroy_newSchema fuel hget, ok_bind] at hrun
      cases pure_eq_ok.mp hrun
      exact ⟨lists, h.congr (get?_free_push s.heap _)⟩
  | @grown heap' set' addrs hgrown hheads =>
      cases pure_eq_ok.mp hrun
      obtain ⟨e, hget', hsame⟩ := hgrown.kept.entry _ _ hget
      exact ⟨_, h.grow_schemas (fun a e hold => Heap.get?_push_of_get? hold _)
        (Heap.get?_next s.heap) hgrown hheads ⟨e, hget', .inr hsame⟩⟩

theorem CatalogForest.dropSchema {name : CString} {result : CatalogHeap δ × Catalog σ × Int}
    (hrun : catalogDropSchema s.heap s.catalog name = .ok result) :
    ∃ lists', CatalogForest { heap := result.1, catalog := result.2.1 } lists' := by
  rw [catalogDropSchema] at hrun
  split at hrun
  case isTrue =>
      cases pure_eq_ok.mp hrun
      exact ⟨lists, h⟩
  case isFalse =>
      obtain ⟨dropped, hdrop, hrest⟩ := bind_eq_ok.mp hrun
      obtain ⟨heffect, hbase⟩ := dropEntry_effect h.forest h.schemas hmem hdrop
      cases heffect with
      | same =>
          cases pure_eq_ok.mp hrest
          exact ⟨lists, h⟩
      | @grown heap' set' addrs hgrown hheads =>
          cases pure_eq_ok.mp hrest
          have hnew : ∃ e, heap'.get? s.heap.next = some e := by
            apply hgrown.forest.get (i := (none, name))
            rw [Function.update_self]
            exact List.mem_cons_self
          obtain ⟨e, hget⟩ := hnew
          exact ⟨_, h.grow_schemas (fun a e hold => hold) (Heap.get?_next s.heap) hgrown hheads
            ⟨e, hget, .inl (hbase e hget)⟩⟩

theorem CatalogForest.createTable {datatableCreate : DatatableCreate σ δ} {info : CreateTableInfo}
    {c : CatalogSpec} (hinv : CatalogInv s c) {result : CatalogHeap δ × Catalog σ × Int}
    (hrun : catalogCreateTable datatableCreate s.heap s.catalog info = .ok result) :
    ∃ lists', CatalogForest { heap := result.1, catalog := result.2.1 } lists' := by
  rw [catalogCreateTable, hinv.getSchema, ok_bind] at hrun
  cases hlive : c.schemas info.schemaName with
  | none =>
      rw [hlive] at hrun
      cases pure_eq_ok.mp hrun
      exact ⟨lists, h⟩
  | some schema =>
      obtain ⟨e, tables, indexes, hholds⟩ := hinv.schema _ _ hlive
      obtain ⟨htype, hindexes, hheads⟩ := h.tablesOf hholds.get hholds.body_eq
      let entry := newTable datatableCreate s.catalog schema.entry info
      have hget : (s.heap.push entry).get? s.heap.next = some entry := Heap.get?_push_next ..
      have hschema : (s.heap.push entry).get? schema.entry = some e :=
        Heap.get?_push_of_get? hholds.get _
      have hread : schemaTables (s.heap.push entry) schema.entry = .ok tables := by
        rw [schemaTables, readEntry_ok hschema, ok_bind, hholds.body_eq]
        rfl
      have hmake := makeTableEntry_of_nil datatableCreate hmem s.catalog schema.entry info
      obtain ⟨created, hcreate, heffect⟩ := createEntry_effect h.forest hheads hmem info.tableName
        entry rfl
      rw [hlive] at hrun
      simp only [Option.map_some, strdup_of_nil hmem, hmake] at hrun
      have hpushed : newTable datatableCreate s.catalog schema.entry info = entry := rfl
      rw [hpushed, hread, ok_bind, hcreate, ok_bind] at hrun
      cases heffect with
      | same =>
          -- the name is taken: the set is stored again as it was, and the new entry is freed
          have hne : s.heap.next ≠ schema.entry := Nat.ne_of_gt (Heap.lt_next hholds.get)
          have hget' :=
            (Heap.get?_put_of_ne hne { e with body := .schema tables indexes }).trans hget
          rw [storeSchemaTables_ok hschema hholds.body_eq, ok_bind] at hrun
          simp only [tablecatalogEntryDestroy_ok hget' rfl, ok_bind] at hrun
          cases pure_eq_ok.mp hrun
          have hsame : { e with body := EntryBody.schema tables indexes } = e := by
            rw [← hholds.body_eq]
          rw [hsame]
          exact ⟨lists, h.congr (get?_free_put_push s.heap entry hholds.get)⟩
      | @grown heap' tables' addrs hgrown hheads' =>
          obtain ⟨e₁, hschema₁, hsame₁⟩ := hgrown.kept.entry _ _ hschema
          obtain ⟨e', hget', hsame'⟩ := hgrown.kept.entry _ _ hget
          have hbody₁ := hsame₁.body_eq.trans hholds.body_eq
          rw [storeSchemaTables_ok hschema₁ hbody₁, ok_bind] at hrun
          cases pure_eq_ok.mp hrun
          exact ⟨_, h.grow_tables (fun a e hold => Heap.get?_push_of_get? hold _) hgrown hheads'
            hschema₁ (hsame₁.type_eq.trans htype) hindexes
            ⟨e', hget', .inr ⟨hsame'.type_eq, _, hsame'.body_eq⟩⟩⟩

end Steps

/-! ### The runs -/

/-- The step lemma: each call returns, and its entries are in chains again. -/
theorem CatalogForest.step (datatableCreate : DatatableCreate σ δ) (fuel : Nat)
    {s : CatalogState σ δ} {c : CatalogSpec} (h : CatalogForest s lists) (hinv : CatalogInv s c)
    (call : CatalogCall) :
    ∃ s' code c', catalogStep datatableCreate fuel s call = .ok (s', code) ∧ CatalogInv s' c' ∧
      ∃ lists', CatalogForest s' lists' := by
  obtain ⟨s', code, c', hstep, -, hinv'⟩ := hinv.step_ok datatableCreate fuel call
  refine ⟨s', code, c', hstep, hinv', ?_⟩
  cases call with
  | createSchema info =>
      obtain ⟨result, hrun, hend⟩ := bind_eq_ok.mp hstep
      cases pure_eq_ok.mp hend
      exact h.createSchema hinv.outcomes_eq hrun
  | dropSchema name =>
      obtain ⟨result, hrun, hend⟩ := bind_eq_ok.mp hstep
      cases pure_eq_ok.mp hend
      exact h.dropSchema hinv.outcomes_eq hrun
  | createTable info =>
      obtain ⟨result, hrun, hend⟩ := bind_eq_ok.mp hstep
      cases pure_eq_ok.mp hend
      exact h.createTable hinv.outcomes_eq hinv hrun

/-- A new catalog has no entries. -/
theorem catalogForest_init {s : CatalogState σ δ}
    (hnew : catalogCreate [] = (s.heap, some s.catalog)) :
    CatalogForest s fun _ => [] := by
  obtain ⟨heap, catalog⟩ := s
  obtain ⟨hheap, hcatalog⟩ := Prod.mk.inj hnew
  cases hheap
  cases hcatalog
  exact {
    forest := forest_empty []
    schemas := hasHeads_init
    schema := fun _ _ hmem => absurd hmem List.not_mem_nil
    table := fun _ _ _ hmem => absurd hmem List.not_mem_nil
    owner := fun _ _ hne => absurd rfl hne }

/-- Every run of a new catalog with enough memory returns, and its entries are in chains. -/
theorem catalogForest_run (datatableCreate : DatatableCreate σ δ) (fuel : Nat)
    {s₀ : CatalogState σ δ} (hnew : catalogCreate [] = (s₀.heap, some s₀.catalog))
    (calls : List CatalogCall) :
    ∃ s codes lists, runResults (catalogStep datatableCreate fuel) s₀ calls = .ok (s, codes) ∧
      CatalogForest s lists := by
  obtain ⟨s, codes, c, hrun, -, -, lists, h⟩ := run_simulation (catalogStep datatableCreate fuel)
    (fun _ _ _ _ => True) (fun s c => CatalogInv s c ∧ ∃ lists, CatalogForest s lists)
    (fun s c call hs => by
      obtain ⟨hinv, lists, h⟩ := hs
      obtain ⟨s', code, c', hstep, h'⟩ := h.step datatableCreate fuel hinv call
      exact ⟨s', code, c', hstep, trivial, h'⟩)
    calls s₀ .empty ⟨catalogCreate_inv hnew, _, catalogForest_init hnew⟩
  exact ⟨s, codes, lists, hrun, h⟩

end MustDb.Proofs.Catalog
