import MustDb.Proofs.Catalog.CatalogForest
import MustDb.Proofs.Catalog.Teardown

/-!
# `MustDb.Proofs.Catalog.CatalogTeardown`: the end of a catalog

`catalog_destroy` goes through two levels: the chains of the schemas, and inside the destruction of
each schema the chains of its tables. `Destroys n heap start owned` says what the destruction of a
chain does: it frees exactly `owned`, in every heap that has these entries. So it can be used in
the middle of a larger destruction, and its rules put it together from entry to entry
(`Destroys.leaf`, `Destroys.schema`), and from name to name (`DestroysAll.cons`).

`catalog_ledger` is the result: after any run of a catalog, `catalog_destroy` frees every entry that
is left, each one once.
-/

set_option autoImplicit false

namespace MustDb.Proofs.Catalog

open MustDb.Lib
open MustDb.Libv
open MustDb.Catalog
open MustDb.Proofs.Libv

variable {σ δ : Type} {heap : CatalogHeap δ} {a : Addr} {owned rest : List Addr} {n : Nat}

/-! ### Heaps -/

/-- Stores and frees of different objects can change places. -/
theorem freeAll_put {addrs : List Addr} (heap : CatalogHeap δ) (e : CatalogEntry δ)
    (ha : a ∉ addrs) : (heap.put a e).freeAll addrs = (heap.freeAll addrs).put a e := by
  induction addrs generalizing heap with
  | nil => rfl
  | cons first addrs ih =>
      obtain ⟨hfirst, hrest⟩ := List.ne_and_not_mem_of_not_mem_cons ha
      have hcomm : (heap.put a e).free first = (heap.free first).put a e := by
        rw [Heap.free, Heap.put, Heap.put, Heap.free, List.set_comm _ _ hfirst]
      show ((heap.put a e).free first).freeAll addrs = ((heap.free first).freeAll addrs).put a e
      rw [hcomm, ih _ hrest]

/-- What was freed is gone. -/
theorem get?_freeAll_of_mem {addrs : List Addr} (heap : CatalogHeap δ) (ha : a ∈ addrs) :
    (heap.freeAll addrs).get? a = none := by
  induction addrs generalizing heap with
  | nil => exact absurd ha List.not_mem_nil
  | cons first addrs ih =>
      by_cases hmem : a ∈ addrs
      · exact ih (heap.free first) hmem
      · have hfirst : a = first := (List.mem_cons.mp ha).resolve_right hmem
        rw [hfirst] at hmem ⊢
        exact (Heap.get?_freeAll_of_notMem hmem).trans (Heap.get?_free_self heap first)

/-! ### What a destruction frees -/

/-- From `n` turns on, the destruction of the chain from `start` frees these entries, in every heap
that has them as `heap` does. -/
structure Destroys (n : Nat) (heap : CatalogHeap δ) (start : Option Addr) (owned : List Addr) :
    Prop where
  nodup : owned.Nodup
  run : ∀ fuel heap', n ≤ fuel → (∀ a ∈ owned, heap'.get? a = heap.get? a) →
    destroyChain fuel heap' start = .ok (heap'.freeAll owned)

/-- The same for the chains of several names. -/
structure DestroysAll (n : Nat) (heap : CatalogHeap δ) (nodes : List (HmapNode CString Addr))
    (owned : List Addr) : Prop where
  nodup : owned.Nodup
  run : ∀ fuel heap', n ≤ fuel → (∀ a ∈ owned, heap'.get? a = heap.get? a) →
    nodes.foldlM (fun heap node => destroyChain fuel heap (some node.value)) heap'
      = .ok (heap'.freeAll owned)

theorem destroys_none (n : Nat) (heap : CatalogHeap δ) : Destroys n heap none [] where
  nodup := List.nodup_nil
  run fuel heap' _ _ := by
    cases fuel with
    | zero => rfl
    | succ fuel => rfl

theorem DestroysAll.mono {nodes : List (HmapNode CString Addr)} {n' : Nat}
    (h : DestroysAll n heap nodes owned) (hle : n ≤ n') : DestroysAll n' heap nodes owned where
  nodup := h.nodup
  run fuel heap' hfuel := h.run fuel heap' (hle.trans hfuel)

theorem Destroys.mono {start : Option Addr} {n' : Nat} (h : Destroys n heap start owned)
    (hle : n ≤ n') : Destroys n' heap start owned where
  nodup := h.nodup
  run fuel heap' hfuel := h.run fuel heap' (hle.trans hfuel)

theorem TableEntry.fits {e : CatalogEntry δ} (h : TableEntry e) : BodyFits e.type e.body := by
  rcases h with ⟨htype, hbody⟩ | ⟨htype, fields, hbody⟩
  · rw [htype, hbody]
    trivial
  · rw [htype, hbody]
    trivial

/-- An entry that is not the one of a schema, and the entries behind it. -/
theorem Destroys.leaf {e : CatalogEntry δ} (h : Destroys n heap e.child rest)
    (hget : heap.get? a = some e) (hentry : TableEntry e) (ha : a ∉ rest) :
    Destroys (n + 1) heap (some a) (a :: rest) where
  nodup := List.nodup_cons.mpr ⟨ha, h.nodup⟩
  run fuel heap' hfuel hsame := by
    cases fuel with
    | zero => exact absurd hfuel (Nat.not_succ_le_zero n)
    | succ fuel =>
        have hget' := (hsame a List.mem_cons_self).trans hget
        rw [destroyChain_succ fuel hget' hentry.fits]
        refine h.run fuel _ (Nat.le_of_succ_le_succ hfuel) fun b hb => ?_
        have hne : b ≠ a := fun heq => ha (heq ▸ hb)
        exact (Heap.get?_free_of_ne hne).trans (hsame b (List.mem_cons_of_mem a hb))

/-- The entry of a schema: its tables go first. -/
theorem Destroys.schema {e : CatalogEntry δ} {tables indexes : CatalogSet}
    (h : Destroys n heap e.child rest) (hget : heap.get? a = some e) (htype : e.type = .schema)
    (hbody : e.body = .schema tables indexes) (hindexes : indexes.data.nodes = [])
    (htables : DestroysAll n heap tables.data.nodes owned) (ha : a ∉ owned) (ha' : a ∉ rest)
    (hdisjoint : owned.Disjoint rest) :
    Destroys (n + 1) heap (some a) (owned ++ a :: rest) where
  nodup := by
    refine List.nodup_append'.mpr ⟨htables.nodup, List.nodup_cons.mpr ⟨ha', h.nodup⟩, ?_⟩
    intro b hb hmem
    rcases List.mem_cons.mp hmem with rfl | hmem
    · exact ha hb
    · exact hdisjoint hb hmem
  run fuel heap' hfuel hsame := by
    cases fuel with
    | zero => exact absurd hfuel (Nat.not_succ_le_zero n)
    | succ fuel =>
        have hfuel' := Nat.le_of_succ_le_succ hfuel
        have hget' := (hsame a (List.mem_append_right _ List.mem_cons_self)).trans hget
        obtain ⟨type, name, deleted, parent, child, body⟩ := e
        cases htype
        cases hbody
        let cleared : CatalogEntry δ :=
          ⟨.schema, name, deleted, none, none, .schema tables indexes⟩
        have hcleared : (heap'.put a cleared).get? a = some cleared :=
          Heap.get?_put_self hget' cleared
        have hset : catalogSetDeinitWith (destroyChain fuel) (heap'.put a cleared) tables
            = .ok ((heap'.put a cleared).freeAll owned) := by
          refine htables.run fuel _ hfuel' fun b hb => ?_
          have hne : b ≠ a := fun heq => ha (heq ▸ hb)
          exact (Heap.get?_put_of_ne hne cleared).trans (hsame b (List.mem_append_left _ hb))
        have hempty : ∀ heap'' : CatalogHeap δ,
            catalogSetDeinitWith (destroyChain fuel) heap'' indexes = .ok heap'' := by
          intro heap''
          rw [catalogSetDeinitWith, hindexes]
          rfl
        have hschema : schemacatalogEntryDestroyWith (destroyChain fuel) (heap'.put a cleared) a
            = .ok ((heap'.freeAll owned).free a) := by
          rw [schemacatalogEntryDestroyWith, readEntry_ok hcleared, ok_bind]
          show (catalogSetDeinitWith (destroyChain fuel) (heap'.put a cleared) tables >>= _) = _
          rw [hset, ok_bind, hempty, ok_bind, freeAll_put heap' cleared ha]
          exact congrArg Except.ok (Heap.free_put _ _ _)
        have hrest : destroyChain fuel ((heap'.freeAll owned).free a) child
            = .ok (((heap'.freeAll owned).free a).freeAll rest) := by
          refine h.run fuel _ hfuel' fun b hb => ?_
          have hne : b ≠ a := fun heq => ha' (heq ▸ hb)
          have hnot : b ∉ owned := fun hin => hdisjoint hin hb
          rw [Heap.get?_free_of_ne hne, Heap.get?_freeAll_of_notMem hnot]
          exact hsame b (List.mem_append_right _ (List.mem_cons_of_mem a hb))
        rw [destroyChain, readEntry_ok hget', ok_bind]
        show (schemacatalogEntryDestroyWith (destroyChain fuel) (heap'.put a cleared) a >>= _) = _
        rw [hschema, ok_bind, Heap.freeAll_append]
        exact hrest

theorem destroysAll_nil (n : Nat) (heap : CatalogHeap δ) : DestroysAll n heap [] [] where
  nodup := List.nodup_nil
  run _ _ _ _ := rfl

/-- One more name. -/
theorem DestroysAll.cons {node : HmapNode CString Addr} {nodes : List (HmapNode CString Addr)}
    (h : DestroysAll n heap nodes rest) (hnode : Destroys n heap (some node.value) owned)
    (hdisjoint : owned.Disjoint rest) : DestroysAll n heap (node :: nodes) (owned ++ rest) where
  nodup := List.nodup_append'.mpr ⟨hnode.nodup, h.nodup, hdisjoint⟩
  run fuel heap' hfuel hsame := by
    have hfirst := hnode.run fuel heap' hfuel fun b hb => hsame b (List.mem_append_left _ hb)
    rw [List.foldlM_cons, hfirst, ok_bind, Heap.freeAll_append]
    refine h.run fuel _ hfuel fun b hb => ?_
    have hnot : b ∉ owned := fun hin => hdisjoint hin hb
    rw [Heap.get?_freeAll_of_notMem hnot]
    exact hsame b (List.mem_append_right _ hb)

/-- All names. -/
theorem destroysAll_flatMap {nodes : List (HmapNode CString Addr)}
    {ownedOf : HmapNode CString Addr → List Addr}
    (hnodes : ∀ node ∈ nodes, Destroys n heap (some node.value) (ownedOf node))
    (hdisjoint : nodes.Pairwise fun x y => (ownedOf x).Disjoint (ownedOf y)) :
    DestroysAll n heap nodes (nodes.flatMap ownedOf) := by
  induction nodes with
  | nil => exact destroysAll_nil n heap
  | cons node nodes ih =>
      obtain ⟨hfirst, hrest⟩ := List.pairwise_cons.mp hdisjoint
      rw [List.flatMap_cons]
      refine (ih (fun other hother => hnodes other (List.mem_cons_of_mem _ hother)) hrest).cons
        (hnodes node List.mem_cons_self) fun b hb hmem => ?_
      obtain ⟨other, hother, hb'⟩ := List.mem_flatMap.mp hmem
      exact hfirst other hother hb hb'

/-! ### The entries of a catalog -/

variable {lists : Slot → List Addr} {set : CatalogSet} {owner : Option Addr}

/-- The nodes of a map have the heads of the chains. -/
theorem HasHeads.node_head (h : HasHeads set fun name => (lists (owner, name)).head?)
    {node : HmapNode CString Addr} (hnode : node ∈ set.data.nodes) :
    (lists (owner, node.key)).head? = some node.value := by
  obtain ⟨m, hdata, hheads⟩ := h
  refine (hheads node.key).symm.trans ?_
  exact (hdata.lookup_iff_node _ _).mpr ⟨node, hnode, lawfulKeys_str.refl _, rfl⟩

/-- A chain with an entry has a node. -/
theorem HasHeads.exists_node (h : HasHeads set fun name => (lists (owner, name)).head?)
    {name : CString} (hmem : a ∈ lists (owner, name)) :
    ∃ node ∈ set.data.nodes, node.key = name := by
  obtain ⟨m, hdata, hheads⟩ := h
  obtain ⟨head, rest, hchain⟩ := List.exists_cons_of_ne_nil (List.ne_nil_of_mem hmem)
  have hlookup : m.lookup (nameKey name) = some head := by
    exact (hheads name).trans (congrArg List.head? hchain)
  obtain ⟨node, hnode, hkey, -⟩ := (hdata.lookup_iff_node _ _).mp hlookup
  exact ⟨node, hnode, strcmp_eq_zero_iff.mp hkey⟩

/-- No two nodes have one name. -/
theorem HasHeads.keys_ne (h : HasHeads set fun name => (lists (owner, name)).head?) :
    set.data.nodes.Pairwise fun x y => x.key ≠ y.key := by
  obtain ⟨m, hdata, -⟩ := h
  exact hdata.once.imp fun hne heq => hne (strcmp_eq_zero_iff.mpr heq)

theorem HasHeads.length_eq (h : HasHeads set fun name => (lists (owner, name)).head?) :
    set.data.buckets.length = set.data.nbuckets := by
  obtain ⟨m, hdata, -⟩ := h
  exact hdata.length_eq

/-- A chain of tables. Induction on the chain. -/
theorem destroys_tables {before : Option Addr} {addrs : List Addr}
    (hlinked : Linked entryLinks heap before addrs)
    (hentries : ∀ a ∈ addrs, ∃ e, heap.get? a = some e ∧ TableEntry e) :
    Destroys addrs.length heap addrs.head? addrs := by
  induction addrs generalizing before with
  | nil => exact destroys_none 0 heap
  | cons first rest ih =>
      have hnodup := List.nodup_cons.mp hlinked.nodup
      obtain ⟨⟨obj, hobj, -, hchild⟩, hrest⟩ := hlinked
      obtain ⟨e, hget, hentry⟩ := hentries first List.mem_cons_self
      cases hobj.symm.trans hget
      have htail := ih hrest fun a hmem => hentries a (List.mem_cons_of_mem first hmem)
      rw [← show obj.child = rest.head? from hchild] at htail
      exact htail.leaf hget hentry hnodup.1

/-- The entries that are destroyed with the one at `a`, before it. -/
def tableEntries (heap : CatalogHeap δ) (lists : Slot → List Addr) (a : Addr) : List Addr :=
  match (heap.get? a).map CatalogEntry.body with
  | some (.schema tables _) => tables.data.nodes.flatMap fun node => lists (some a, node.key)
  | _ => []

theorem mem_tableEntries {b : Addr} (hmem : b ∈ tableEntries heap lists a) :
    ∃ name, b ∈ lists (some a, name) := by
  unfold tableEntries at hmem
  split at hmem
  · obtain ⟨node, -, hb⟩ := List.mem_flatMap.mp hmem
    exact ⟨node.key, hb⟩
  · cases hmem

/-- An address list without repetition is no longer than the heap. -/
theorem length_le_next (hnodup : owned.Nodup) (hlt : ∀ a ∈ owned, a < heap.next) :
    owned.length ≤ heap.next := by
  have hsub : owned ⊆ List.range heap.next := fun a hmem => List.mem_range.mpr (hlt a hmem)
  have hle := (hnodup.subperm hsub).length_le
  rwa [List.length_range] at hle

section Forest
variable {s : CatalogState σ δ} (h : CatalogForest s lists)
include h

theorem CatalogForest.length_le (slot : Slot) : (lists slot).length ≤ s.heap.next := by
  refine length_le_next (h.forest.linked slot).nodup fun a hmem => ?_
  obtain ⟨e, hget⟩ := h.forest.get hmem
  exact Heap.lt_next hget

/-- The tables of a schema. -/
theorem CatalogForest.destroys_all_tables {e : CatalogEntry δ} {tables indexes : CatalogSet}
    (hget : s.heap.get? a = some e) (hbody : e.body = .schema tables indexes) :
    DestroysAll s.heap.next s.heap tables.data.nodes (tableEntries s.heap lists a) := by
  obtain ⟨-, -, hheads⟩ := h.tablesOf hget hbody
  have htables : tableEntries s.heap lists a
      = tables.data.nodes.flatMap fun node => lists (some a, node.key) := by
    rw [tableEntries, hget, Option.map_some, hbody]
  rw [htables]
  refine destroysAll_flatMap (fun node hnode => ?_) (hheads.keys_ne.imp fun hne b hb hb' => ?_)
  · have hchain := destroys_tables (h.forest.linked (some a, node.key)) (h.table a node.key)
    rw [hheads.node_head hnode] at hchain
    exact hchain.mono (h.length_le _)
  · exact hne (Prod.mk.inj (h.forest.index_eq hb hb')).2

end Forest

/-- The entries of a chain of schemas, with the tables of each. -/
def ownedBy (heap : CatalogHeap δ) (lists : Slot → List Addr) (addrs : List Addr) : List Addr :=
  addrs.flatMap fun a => tableEntries heap lists a ++ [a]

theorem mem_ownedBy {addrs : List Addr} {b : Addr} :
    b ∈ ownedBy heap lists addrs ↔ b ∈ addrs ∨ ∃ a ∈ addrs, b ∈ tableEntries heap lists a := by
  simp only [ownedBy, List.mem_flatMap, List.mem_append, List.mem_singleton]
  constructor
  · rintro ⟨a, ha, hb | rfl⟩
    · exact Or.inr ⟨a, ha, hb⟩
    · exact Or.inl ha
  · rintro (hb | ⟨a, ha, hb⟩)
    · exact ⟨b, hb, Or.inr rfl⟩
    · exact ⟨a, ha, Or.inl hb⟩

/-- Where an entry that is destroyed with a chain of schemas is. -/
theorem slot_of_ownedBy {addrs : List Addr} {name : CString} {b : Addr}
    (haddrs : ∀ a ∈ addrs, a ∈ lists (none, name)) (hmem : b ∈ ownedBy heap lists addrs) :
    b ∈ lists (none, name) ∨ ∃ a ∈ addrs, ∃ table, b ∈ lists (some a, table) := by
  rcases mem_ownedBy.mp hmem with hb | ⟨a, ha, hb⟩
  · exact Or.inl (haddrs b hb)
  · exact Or.inr ⟨a, ha, mem_tableEntries hb⟩

section Forest
variable {s : CatalogState σ δ} (h : CatalogForest s lists)
include h

/-- An entry of a schema is in no chain of a table. -/
theorem CatalogForest.not_table {name : CString} (ha : a ∈ lists (none, name)) (schema : Addr)
    (table : CString) : a ∉ lists (some schema, table) := by
  intro hmem
  cases h.forest.index_eq ha hmem

/-- A chain of schemas. Induction on the chain: the tables of one schema are not in the others. -/
theorem CatalogForest.destroys_schemas {name : CString} {before : Option Addr} {addrs : List Addr}
    (hlinked : Linked entryLinks s.heap before addrs)
    (haddrs : ∀ a ∈ addrs, a ∈ lists (none, name)) :
    Destroys (s.heap.next + addrs.length) s.heap addrs.head? (ownedBy s.heap lists addrs) := by
  induction addrs generalizing before with
  | nil => exact (destroys_none 0 s.heap).mono (Nat.zero_le _)
  | cons first rest ih =>
      have hnodup := List.nodup_cons.mp hlinked.nodup
      obtain ⟨⟨obj, hobj, -, hchild⟩, hrest⟩ := hlinked
      have hfirst := haddrs first List.mem_cons_self
      have hothers : ∀ a ∈ rest, a ∈ lists (none, name) := fun a hmem =>
        haddrs a (List.mem_cons_of_mem first hmem)
      obtain ⟨e, hget, hentry⟩ := h.schema name first hfirst
      cases hobj.symm.trans hget
      have htail := ih hrest hothers
      rw [← show obj.child = rest.head? from hchild] at htail
      have hnotin : first ∉ ownedBy s.heap lists rest := by
        intro hmem
        rcases mem_ownedBy.mp hmem with hin | ⟨a, -, hin⟩
        · exact hnodup.1 hin
        · obtain ⟨table, hin⟩ := mem_tableEntries hin
          exact h.not_table hfirst a table hin
      have howned : ownedBy s.heap lists (first :: rest)
          = tableEntries s.heap lists first ++ first :: ownedBy s.heap lists rest := by
        rw [ownedBy, List.flatMap_cons, List.append_assoc]
        rfl
      rw [howned]
      rcases hentry with hbase | ⟨htype, tables, indexes, hbody, hindexes, -⟩
      · have hnone : tableEntries s.heap lists first = [] := by
          rw [tableEntries, hget, Option.map_some, hbase.2]
        rw [hnone]
        exact htail.leaf hget (.inl hbase) hnotin
      · have htables := (h.destroys_all_tables hget hbody).mono
          (Nat.le_add_right s.heap.next rest.length)
        refine htail.schema hget htype hbody hindexes htables (fun hmem => ?_) hnotin
          fun b hb hmem => ?_
        · obtain ⟨table, hin⟩ := mem_tableEntries hmem
          exact h.not_table hfirst first table hin
        · obtain ⟨table, hin⟩ := mem_tableEntries hb
          rcases slot_of_ownedBy hothers hmem with hother | ⟨a, ha, table', hother⟩
          · exact h.not_table hother first table hin
          · cases h.forest.index_eq hin hother
            exact hnodup.1 ha

/-- All entries of the catalog. -/
theorem CatalogForest.destroys_all :
    DestroysAll (s.heap.next + s.heap.next) s.heap s.catalog.schemas.data.nodes
      (s.catalog.schemas.data.nodes.flatMap fun node =>
        ownedBy s.heap lists (lists (none, node.key))) := by
  refine destroysAll_flatMap (fun node hnode => ?_) (h.schemas.keys_ne.imp fun hne b hb hb' => ?_)
  · have hchain := h.destroys_schemas (h.forest.linked (none, node.key)) fun _ hmem => hmem
    rw [h.schemas.node_head hnode] at hchain
    exact hchain.mono (Nat.add_le_add_left (h.length_le _) _)
  · rcases slot_of_ownedBy (fun _ hmem => hmem) hb with hin | ⟨a, ha, table, hin⟩
    · rcases slot_of_ownedBy (fun _ hmem => hmem) hb' with hin' | ⟨a', -, table', hin'⟩
      · exact hne (Prod.mk.inj (h.forest.index_eq hin hin')).2
      · exact h.not_table hin a' table' hin'
    · rcases slot_of_ownedBy (fun _ hmem => hmem) hb' with hin' | ⟨a', ha', table', hin'⟩
      · exact h.not_table hin' a table hin
      · -- both are tables of one schema, whose entry has one name
        cases h.forest.index_eq hin hin'
        exact hne (Prod.mk.inj (h.forest.index_eq ha ha')).2

/-- These are the entries of the heap. -/
theorem CatalogForest.mem_all_iff {b : Addr} :
    b ∈ (s.catalog.schemas.data.nodes.flatMap fun node =>
        ownedBy s.heap lists (lists (none, node.key))) ↔ ∃ e, s.heap.get? b = some e := by
  rw [List.mem_flatMap]
  constructor
  · rintro ⟨node, -, hmem⟩
    rcases slot_of_ownedBy (fun _ hin => hin) hmem with hin | ⟨a, -, table, hin⟩
    · exact h.forest.get hin
    · exact h.forest.get hin
  · rintro ⟨e, hget⟩
    obtain ⟨⟨owner, name⟩, hmem⟩ := h.forest.covers b e hget
    cases owner with
    | none =>
        obtain ⟨node, hnode, rfl⟩ := h.schemas.exists_node hmem
        exact ⟨node, hnode, mem_ownedBy.mpr (Or.inl hmem)⟩
    | some schema =>
        obtain ⟨e', hget', htype⟩ := h.owner schema name (List.ne_nil_of_mem hmem)
        obtain ⟨schemaName, hschema⟩ := h.schema_slot hget' htype
        obtain ⟨node, hnode, rfl⟩ := h.schemas.exists_node hschema
        refine ⟨node, hnode, mem_ownedBy.mpr (Or.inr ⟨schema, hschema, ?_⟩)⟩
        obtain ⟨e'', hget'', hentry⟩ := h.schema _ schema hschema
        cases hget'.symm.trans hget''
        rcases hentry with ⟨hbase, -⟩ | ⟨-, tables, indexes, hbody, -, hheads⟩
        · cases htype.symm.trans hbase
        · obtain ⟨table, htable, rfl⟩ := hheads.exists_node hmem
          rw [tableEntries, hget', Option.map_some, hbody]
          exact List.mem_flatMap.mpr ⟨table, htable, hmem⟩

/-- The spec of `catalog_destroy`. -/
theorem CatalogForest.destroy :
    ∃ fuel₀ destroyed, destroyed.Nodup ∧ (∀ b, b ∈ destroyed ↔ ∃ e, s.heap.get? b = some e) ∧
      ∀ fuel, fuel₀ ≤ fuel →
        catalogDestroy fuel s.heap s.catalog = .ok (s.heap.freeAll destroyed) := by
  have hall := h.destroys_all
  refine ⟨s.heap.next + s.heap.next + s.catalog.schemas.data.nodes.length + 1, _, hall.nodup,
    fun b => h.mem_all_iff, fun fuel hfuel => ?_⟩
  have hloop := hall.run fuel s.heap (by omega) fun _ _ => rfl
  rw [catalogDestroy, catalogSetDeinit_eq h.schemas.length_eq (by omega), catalogSetDeinitWith,
    hloop, ok_bind]
  rfl

end Forest

/-! ### The theorem -/

/-- After any run of a new catalog that has enough memory, `catalog_destroy` returns, and it frees
every entry that is left, each one once: the live schemas and tables, the dropped ones with all
their tables, the tombstones and the dummies. -/
theorem catalog_ledger (datatableCreate : DatatableCreate σ δ) (fuel : Nat)
    (s₀ : CatalogState σ δ) (hnew : catalogCreate [] = (s₀.heap, some s₀.catalog))
    (calls : List CatalogCall) :
    ∃ s codes, runResults (catalogStep datatableCreate fuel) s₀ calls = .ok (s, codes) ∧
      ∃ fuel₀ destroyed, destroyed.Nodup ∧
        (∀ b, b ∈ destroyed ↔ ∃ e, s.heap.get? b = some e) ∧
        ∀ fuel', fuel₀ ≤ fuel' → ∃ heap',
          catalogDestroy fuel' s.heap s.catalog = .ok heap' ∧
          heap' = s.heap.freeAll destroyed ∧ ∀ b, heap'.get? b = none := by
  obtain ⟨s, codes, lists, hrun, h⟩ := catalogForest_run datatableCreate fuel hnew calls
  obtain ⟨fuel₀, destroyed, hnodup, hmem, hdestroy⟩ := h.destroy
  refine ⟨s, codes, hrun, fuel₀, destroyed, hnodup, hmem, fun fuel' hfuel' =>
    ⟨_, hdestroy fuel' hfuel', rfl, fun b => ?_⟩⟩
  by_cases hb : b ∈ destroyed
  · exact get?_freeAll_of_mem s.heap hb
  · rw [Heap.get?_freeAll_of_notMem hb]
    exact Option.eq_none_iff_forall_ne_some.mpr fun e hget => hb ((hmem b).mpr ⟨e, hget⟩)

/-- A schema with a table is dropped and made again. Of the entries that were made, one was refused,
and six are left. -/
theorem catalog_ledger_dropped_schema :
    ∃ (s₀ s : CatalogState Unit Unit) (codes : List Int),
      runResults (catalogStep (fun _ _ _ _ _ => ()) 0) s₀
        [.createSchema ⟨{ bytes := [115] }, false⟩,
          .createTable ⟨{ bytes := [115] }, { bytes := [116] }, false, []⟩,
          .createTable ⟨{ bytes := [115] }, { bytes := [116] }, true, []⟩,
          .dropSchema { bytes := [115] },
          .createSchema ⟨{ bytes := [115] }, false⟩] = .ok (s, codes) ∧
      ∃ fuel₀ destroyed, destroyed.Nodup ∧
        ∀ fuel', fuel₀ ≤ fuel' → ∃ heap',
          catalogDestroy fuel' s.heap s.catalog = .ok heap' ∧
          heap' = s.heap.freeAll destroyed ∧ ∀ b, heap'.get? b = none := by
  obtain ⟨s, codes, hrun, fuel₀, destroyed, hnodup, -, hdestroy⟩ := catalog_ledger
    (fun _ _ _ _ _ => ()) 0
    { heap := { cells := [], outcomes := [] }, catalog := { schemas := emptySet, storage := none } }
    rfl
    [.createSchema ⟨{ bytes := [115] }, false⟩,
      .createTable ⟨{ bytes := [115] }, { bytes := [116] }, false, []⟩,
      .createTable ⟨{ bytes := [115] }, { bytes := [116] }, true, []⟩,
      .dropSchema { bytes := [115] },
      .createSchema ⟨{ bytes := [115] }, false⟩]
  exact ⟨_, s, codes, hrun, fuel₀, destroyed, hnodup, hdestroy⟩

end MustDb.Proofs.Catalog
