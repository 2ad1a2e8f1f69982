import MustDb.Catalog.Catalog
import MustDb.Lib.Simulation
import MustDb.Proofs.Catalog.CatalogSet

/-!
# `MustDb.Proofs.Catalog.Refinement`: the catalog is a map of maps

`CatalogSpec` is what a catalog is for: a map from the names of the live schemas to schemas, each
with a map from names to tables. `MapOfMaps` is what the calls mean on it. A creation makes an
entry that no creation made before, and the entry of a table keeps the `CreateTableInfo` of the
call that made it.

`catalog_refinement` says that every run of a new catalog follows `MapOfMaps`, when there is enough
memory. At its end every lookup finds the entry of the abstract catalog, and this entry has the
contents that it was created with (`CatalogAgrees`).

The invariant `CatalogInv` puts the sets together: the set of the schemas, and in the entry of each
live schema the set of its tables. Only the entry of a live schema changes its body, when one of
its tables is created. It is not the entry of another schema, because the names differ, and it is
not the entry of a table.
-/

set_option autoImplicit false

namespace MustDb.Proofs.Catalog

open MustDb.Lib
open MustDb.Libv
open MustDb.Catalog
open MustDb.Proofs.Libv

variable {σ δ : Type}

/-! ### The map of maps -/

/-- A table: its entry, and the call that made it. -/
structure TableSpec where
  entry : Addr
  info : CreateTableInfo

/-- A live schema: its entry, and its tables by name. -/
structure SchemaSpec where
  entry : Addr
  tables : CString → Option TableSpec

/-- The live schemas by name, and all entries that were ever made. -/
structure CatalogSpec where
  schemas : CString → Option SchemaSpec
  made : Set Addr

/-- The catalog without schemas. -/
def CatalogSpec.empty : CatalogSpec := { schemas := fun _ => none, made := ∅ }

/-- The code of a creation of what is there already. -/
def duplicateCode (ifNotExists : Bool) : Int := if ifNotExists then 0 else -2

/-- What a call means on the map of maps. -/
inductive MapOfMaps : CatalogSpec → CatalogCall → Int → CatalogSpec → Prop where
  /-- A schema starts without tables. -/
  | schemaCreated {c : CatalogSpec} {info : CreateSchemaInfo} {entry : Addr}
      (absent : c.schemas info.schemaName = none) (fresh : entry ∉ c.made) :
      MapOfMaps c (.createSchema info) 0
        { schemas := Function.update c.schemas info.schemaName
            (some { entry, tables := fun _ => none })
          made := insert entry c.made }
  | schemaExists {c : CatalogSpec} {info : CreateSchemaInfo} {schema : SchemaSpec}
      (live : c.schemas info.schemaName = some schema) :
      MapOfMaps c (.createSchema info) (duplicateCode info.ifNotExists) c
  /-- The default schema is not dropped. -/
  | defaultKept {c : CatalogSpec} : MapOfMaps c (.dropSchema DEFAULT_SCHEMA) (-1) c
  /-- The name is not live afterwards; this is no error when it was not live before. -/
  | schemaDropped {c : CatalogSpec} {name : CString} (other : name ≠ DEFAULT_SCHEMA) :
      MapOfMaps c (.dropSchema name) 0
        { c with schemas := Function.update c.schemas name none }
  | noSchema {c : CatalogSpec} {info : CreateTableInfo}
      (absent : c.schemas info.schemaName = none) : MapOfMaps c (.createTable info) (-1) c
  /-- The other tables and the other schemas stay as they are. -/
  | tableCreated {c : CatalogSpec} {info : CreateTableInfo} {schema : SchemaSpec} {entry : Addr}
      (live : c.schemas info.schemaName = some schema)
      (absent : schema.tables info.tableName = none) (fresh : entry ∉ c.made) :
      MapOfMaps c (.createTable info) 0
        { schemas := Function.update c.schemas info.schemaName (some { schema with
            tables := Function.update schema.tables info.tableName (some { entry, info }) })
          made := insert entry c.made }
  | tableExists {c : CatalogSpec} {info : CreateTableInfo} {schema : SchemaSpec}
      {table : TableSpec} (live : c.schemas info.schemaName = some schema)
      (old : schema.tables info.tableName = some table) :
      MapOfMaps c (.createTable info) (duplicateCode info.ifNotExists) c

/-- No call removes the default schema or replaces its entry. -/
theorem MapOfMaps.default_kept {c c' : CatalogSpec} {call : CatalogCall} {code : Int}
    (h : MapOfMaps c call code c') {schema : SchemaSpec}
    (hlive : c.schemas DEFAULT_SCHEMA = some schema) :
    ∃ schema', c'.schemas DEFAULT_SCHEMA = some schema' ∧ schema'.entry = schema.entry := by
  have hother {name : CString} (hne : DEFAULT_SCHEMA ≠ name) (value : Option SchemaSpec) :
      Function.update c.schemas name value DEFAULT_SCHEMA = some schema :=
    (Function.update_of_ne hne ..).trans hlive
  cases h with
  | @schemaCreated info entry absent fresh =>
      -- a creation is of an absent name, so it is not the default schema
      refine ⟨schema, hother (fun heq => ?_) _, rfl⟩
      rw [← heq, hlive] at absent
      cases absent
  | schemaExists => exact ⟨schema, hlive, rfl⟩
  | defaultKept => exact ⟨schema, hlive, rfl⟩
  | schemaDropped other => exact ⟨schema, hother other.symm _, rfl⟩
  | noSchema => exact ⟨schema, hlive, rfl⟩
  | @tableCreated info changed entry live absent fresh =>
      -- a table in the default schema changes its tables only
      by_cases heq : DEFAULT_SCHEMA = info.schemaName
      · rw [← heq, hlive, Option.some_inj] at live
        subst live
        rw [← heq]
        exact ⟨_, Function.update_self DEFAULT_SCHEMA _ c.schemas, rfl⟩
      · exact ⟨schema, hother heq _, rfl⟩
  | tableExists => exact ⟨schema, hlive, rfl⟩

/-- Once the default schema is there, no run loses it. -/
theorem default_schema_kept {c c' : CatalogSpec} {calls : List CatalogCall} {codes : List Int}
    (h : SpecRun MapOfMaps c calls codes c') :
    ∀ {schema : SchemaSpec}, c.schemas DEFAULT_SCHEMA = some schema →
      ∃ schema', c'.schemas DEFAULT_SCHEMA = some schema' ∧ schema'.entry = schema.entry := by
  induction h with
  | nil => exact fun hlive => ⟨_, hlive, rfl⟩
  | cons step _ ih =>
      intro schema hlive
      obtain ⟨schema₁, hlive₁, hentry₁⟩ := step.default_kept hlive
      obtain ⟨schema₂, hlive₂, hentry₂⟩ := ih hlive₁
      exact ⟨schema₂, hlive₂, hentry₂.trans hentry₁⟩

/-! ### The invariant -/

/-- The entry of a table has the contents that it was created with. -/
def TableHolds (heap : CatalogHeap δ) (schema : Addr) (table : TableSpec) : Prop :=
  ∃ e fields, heap.get? table.entry = some e ∧ e.type = .table ∧ e.body = .table fields ∧
    fields.schema = schema ∧ fields.columns = table.info.columns ∧
    fields.columnCount = table.info.columns.length

/-- The entry of a live schema has the set of its tables. -/
structure SchemaHolds (heap : CatalogHeap δ) (schema : SchemaSpec) (e : CatalogEntry δ)
    (tables indexes : CatalogSet) : Prop where
  get : heap.get? schema.entry = some e
  type_eq : e.type = .schema
  body_eq : e.body = .schema tables indexes
  tables : SetHolds heap tables (Option.map TableSpec.entry ∘ schema.tables)
  table : ∀ name table, schema.tables name = some table → TableHolds heap schema.entry table

/-- The catalog in memory has the schemas and tables of the map of maps. -/
structure CatalogInv (s : CatalogState σ δ) (c : CatalogSpec) : Prop where
  outcomes_eq : s.heap.outcomes = []
  made_lt : ∀ entry ∈ c.made, entry < s.heap.next
  schemas : SetHolds s.heap s.catalog.schemas (Option.map SchemaSpec.entry ∘ c.schemas)
  schema : ∀ name schema, c.schemas name = some schema →
    ∃ e tables indexes, SchemaHolds s.heap schema e tables indexes

variable {heap heap' : CatalogHeap δ}

theorem TableHolds.kept {schema : Addr} {table : TableSpec} (h : TableHolds heap schema table)
    (hkept : Kept heap heap') : TableHolds heap' schema table := by
  obtain ⟨e, fields, hget, htype, hbody, hfields⟩ := h
  obtain ⟨e', hget', hsame⟩ := hkept.entry _ _ hget
  exact ⟨e', fields, hget', hsame.type_eq.trans htype, hsame.body_eq.trans hbody, hfields⟩

theorem SchemaHolds.kept {schema : SchemaSpec} {e : CatalogEntry δ} {tables indexes : CatalogSet}
    (h : SchemaHolds heap schema e tables indexes) (hkept : Kept heap heap') :
    ∃ e', SchemaHolds heap' schema e' tables indexes := by
  obtain ⟨e', hget', hsame⟩ := hkept.entry _ _ h.get
  exact ⟨e', {
    get := hget'
    type_eq := hsame.type_eq.trans h.type_eq
    body_eq := hsame.body_eq.trans h.body_eq
    tables := h.tables.kept hkept
    table := fun name table htable => (h.table name table htable).kept hkept }⟩

/-- The entry of a table is not that of a schema, so it stays when the schema changes. -/
theorem TableHolds.put_schema {schema addr : Addr} {table : TableSpec} {e : CatalogEntry δ}
    {tables indexes : CatalogSet} (h : TableHolds heap schema table)
    (hget : heap.get? addr = some e) (hbody : e.body = .schema tables indexes)
    (e' : CatalogEntry δ) : TableHolds (heap.put addr e') schema table := by
  obtain ⟨e₁, fields, hget₁, htype₁, hbody₁, hfields⟩ := h
  have hne : table.entry ≠ addr := by
    intro heq
    rw [heq, hget, Option.some_inj] at hget₁
    rw [← hget₁, hbody] at hbody₁
    cases hbody₁
  exact ⟨e₁, fields, by rwa [Heap.get?_put_of_ne hne], htype₁, hbody₁, hfields⟩

/-- Another schema stays as it is when the body of a schema changes. -/
theorem SchemaHolds.put_other {schema : SchemaSpec} {addr : Addr} {e e' : CatalogEntry δ}
    {tables indexes tables' indexes' : CatalogSet} (h : SchemaHolds heap schema e tables indexes)
    (hne : schema.entry ≠ addr) (hget : heap.get? addr = some e')
    (hbody : e'.body = .schema tables' indexes') (body : EntryBody δ) :
    SchemaHolds (heap.put addr { e' with body }) schema e tables indexes where
  get := by rw [Heap.get?_put_of_ne hne, h.get]
  type_eq := h.type_eq
  body_eq := h.body_eq
  tables := h.tables.sameHeads (sameHeads_put hget body)
  table name table htable := (h.table name table htable).put_schema hget hbody _

/-- The schema whose body gets a new set of tables holds the new table beside its old ones. -/
theorem SchemaHolds.put_tables {schema : SchemaSpec} {e : CatalogEntry δ}
    {tables indexes tables' : CatalogSet} {table : CString} {new : TableSpec}
    (h : SchemaHolds heap schema e tables indexes) (hnew : TableHolds heap schema.entry new)
    (htables : SetHolds heap tables' (Function.update (Option.map TableSpec.entry ∘ schema.tables)
      table (some new.entry))) :
    SchemaHolds (heap.put schema.entry { e with body := .schema tables' indexes })
      { schema with tables := Function.update schema.tables table (some new) }
      { e with body := .schema tables' indexes } tables' indexes where
  get := Heap.get?_put_self h.get _
  type_eq := h.type_eq
  body_eq := rfl
  tables := by
    rw [Function.comp_update]
    exact htables.sameHeads (sameHeads_put h.get _)
  table name t ht := by
    -- the new table, or one that was there before
    by_cases htable : name = table
    · rw [htable] at ht
      cases (Function.update_self table _ schema.tables).symm.trans ht
      exact hnew.put_schema h.get h.body_eq _
    · have hold := (Function.update_of_ne htable _ schema.tables).symm.trans ht
      exact (h.table name t hold).put_schema h.get h.body_eq _

section Inv
variable {s : CatalogState σ δ} {c : CatalogSpec} (h : CatalogInv s c)
include h

/-- The schemas and tables stay in a heap that is kept. -/
theorem CatalogInv.kept {heap' : CatalogHeap δ} (hkept : Kept s.heap heap') :
    CatalogInv { s with heap := heap' } c where
  outcomes_eq := hkept.outcomes_eq.trans h.outcomes_eq
  made_lt entry hentry := Nat.lt_of_lt_of_le (h.made_lt entry hentry) hkept.next_le
  schemas := h.schemas.kept hkept
  schema name schema hschema := by
    obtain ⟨e, tables, indexes, hholds⟩ := h.schema name schema hschema
    obtain ⟨e', hholds'⟩ := hholds.kept hkept
    exact ⟨e', tables, indexes, hholds'⟩

theorem CatalogInv.fresh : s.heap.next ∉ c.made :=
  fun hmade => Nat.lt_irrefl _ (h.made_lt _ hmade)

/-- The spec of `catalog_get_schema`. -/
theorem CatalogInv.getSchema (name : CString) :
    catalogGetSchema s.heap s.catalog name = .ok ((c.schemas name).map SchemaSpec.entry) :=
  h.schemas.getEntry name

/-- Two live schemas with one entry have one name. -/
theorem CatalogInv.entry_ne {name name' : CString} {schema schema' : SchemaSpec}
    (hschema : c.schemas name = some schema) (hschema' : c.schemas name' = some schema')
    (hne : name ≠ name') : schema.entry ≠ schema'.entry := by
  intro heq
  have hlive : (Option.map SchemaSpec.entry ∘ c.schemas) name = some schema.entry := by
    rw [Function.comp_apply, hschema]
    rfl
  have hlive' : (Option.map SchemaSpec.entry ∘ c.schemas) name' = some schema.entry := by
    rw [Function.comp_apply, hschema', heq]
    rfl
  obtain ⟨e, hget, hname, -⟩ := h.schemas.live_entry _ _ hlive
  obtain ⟨e', hget', hname', -⟩ := h.schemas.live_entry _ _ hlive'
  rw [hget, Option.some_inj] at hget'
  rw [← hget', hname, Option.some_inj] at hname'
  exact hne hname'

/-- The spec of `catalog_get_table`. -/
theorem CatalogInv.getTable (schemaName tableName : CString) :
    catalogGetTable s.heap s.catalog schemaName tableName
      = .ok ((c.schemas schemaName).bind fun schema =>
          (schema.tables tableName).map TableSpec.entry) := by
  rw [catalogGetTable, h.getSchema, ok_bind]
  cases hschema : c.schemas schemaName with
  | none => rfl
  | some schema =>
      obtain ⟨e, tables, indexes, hholds⟩ := h.schema _ _ hschema
      have htables : schemaTables s.heap schema.entry = .ok tables := by
        rw [schemaTables, readEntry_ok hholds.get, ok_bind, hholds.body_eq]
        rfl
      show (schemaTables s.heap schema.entry >>= _) = _
      rw [htables, ok_bind, hholds.tables.getEntry]
      rfl

end Inv

/-! ### New entries -/

/-- The set of a new schema. -/
def emptySet : CatalogSet := (catalogSetInit []).1

/-- The entry that `make_schema_entry` makes. -/
def newSchema (name : CString) : CatalogEntry δ :=
  catalogEntryInit .schema (some name) (.schema emptySet emptySet)

theorem makeSchemaEntry_of_nil (hmem : heap.outcomes = []) (name : CString) :
    makeSchemaEntry heap name = (heap.push (newSchema name), some heap.next) := by
  obtain ⟨cells, outcomes⟩ := heap
  simp only at hmem
  subst hmem
  rfl

/-- A schema without tables is destroyed at once, with any fuel. -/
theorem destroy_newSchema (fuel : Nat) {entry : Addr} {name : CString}
    (hget : heap.get? entry = some (newSchema name)) :
    schemacatalogEntryDestroy fuel heap entry = .ok (heap.free entry) := by
  exact schemacatalogEntryDestroyWith_ok _ hget rfl rfl rfl

/-- The fields of the entry that `make_table_entry` makes. -/
def newTableBody (datatableCreate : DatatableCreate σ δ) (catalog : Catalog σ) (schema : Addr)
    (info : CreateTableInfo) : TableBody δ where
  schema := schema
  datatable := datatableCreate catalog.storage info.schemaName info.tableName info.columns.length
    (info.columns.map fun column => getInternalType column.type)
  columns := info.columns
  columnCount := info.columns.length

/-- The entry that `make_table_entry` makes. -/
def newTable (datatableCreate : DatatableCreate σ δ) (catalog : Catalog σ) (schema : Addr)
    (info : CreateTableInfo) : CatalogEntry δ :=
  catalogEntryInit .table (some info.tableName)
    (.table (newTableBody datatableCreate catalog schema info))

theorem makeTableEntry_of_nil (datatableCreate : DatatableCreate σ δ) (hmem : heap.outcomes = [])
    (catalog : Catalog σ) (schema : Addr) (info : CreateTableInfo) :
    makeTableEntry datatableCreate heap catalog schema info.tableName info
      = (heap.push (newTable datatableCreate catalog schema info), some heap.next) := by
  obtain ⟨cells, outcomes⟩ := heap
  simp only at hmem
  subst hmem
  rfl

/-- A new set of tables in the entry of a schema. -/
theorem storeSchemaTables_ok {schema : Addr} {e : CatalogEntry δ} {tables indexes : CatalogSet}
    (hget : heap.get? schema = some e) (hbody : e.body = .schema tables indexes)
    (tables' : CatalogSet) :
    storeSchemaTables heap schema tables'
      = .ok (heap.put schema { e with body := .schema tables' indexes }) := by
  rw [storeSchemaTables, updateEntry_ok hget, hbody]

/-! ### The calls -/

section Calls
variable {s : CatalogState σ δ} {c : CatalogSpec} (h : CatalogInv s c)
include h

/-- A creation of a schema. -/
theorem CatalogInv.createSchema (fuel : Nat) (info : CreateSchemaInfo) :
    ∃ heap' catalog' code c',
      catalogCreateSchema fuel s.heap s.catalog info = .ok (heap', catalog', code) ∧
      MapOfMaps c (.createSchema info) code c' ∧
      CatalogInv { heap := heap', catalog := catalog' } c' := by
  have hpush : Kept s.heap (s.heap.push (newSchema info.schemaName)) := kept_push _
  have hget := Heap.get?_push_next s.heap (newSchema info.schemaName)
  have hsets := h.schemas.kept hpush
  cases hlive : c.schemas info.schemaName with
  | some schema =>
      -- the entry is destroyed again
      have hset := hsets.createEntry_live info.schemaName
        (by simp [hlive]) s.heap.next
      have hkept : Kept s.heap ((s.heap.push (newSchema info.schemaName)).free s.heap.next) :=
        hpush.free_new (Nat.le_refl _)
      refine ⟨_, s.catalog, duplicateCode info.ifNotExists, c, ?_, .schemaExists hlive,
        h.kept hkept⟩
      rw [catalogCreateSchema, strdup_of_nil h.outcomes_eq]
      simp only [makeSchemaEntry_of_nil h.outcomes_eq, hset, ok_bind, destroy_newSchema fuel hget]
      rfl
  | none =>
      obtain ⟨heap', set', hset, hkept, hheads⟩ := hsets.createEntry (by exact h.outcomes_eq)
        info.schemaName (by simp [hlive]) hget rfl rfl
      -- the entry is now linked to its dummy, with the same type and the same contents
      obtain ⟨e, he, hsame⟩ := hkept.entry _ _ hget
      refine ⟨heap', { s.catalog with schemas := set' }, 0, _, ?_,
        .schemaCreated hlive h.fresh, ?_⟩
      · rw [catalogCreateSchema, strdup_of_nil h.outcomes_eq]
        simp only [makeSchemaEntry_of_nil h.outcomes_eq, hset, ok_bind]
        rfl
      · have hold := h.kept (hpush.trans hkept)
        refine { outcomes_eq := hold.outcomes_eq, made_lt := ?_, schemas := ?_, schema := ?_ }
        · intro entry hentry
          rcases Set.mem_insert_iff.mp hentry with rfl | hentry
          · have hle := hkept.next_le
            rw [Heap.next_push] at hle
            exact hle
          · exact hold.made_lt entry hentry
        · -- the names of the set are those of the new map of maps
          rw [Function.comp_update]
          exact hheads
        · intro name schema hschema
          -- the new schema has no tables, and the entries of the other schemas have not changed
          by_cases hname : name = info.schemaName
          · rw [hname] at hschema
            have hnew := (Function.update_self info.schemaName _ c.schemas).symm.trans hschema
            cases hnew
            exact ⟨e, emptySet, emptySet, {
              get := he, type_eq := hsame.type_eq, body_eq := hsame.body_eq
              tables := setHolds_init
              table := fun _ _ htable => by cases htable }⟩
          · exact hold.schema name schema
              ((Function.update_of_ne hname _ c.schemas).symm.trans hschema)

/-- A drop of a schema. -/
theorem CatalogInv.dropSchema (name : CString) :
    ∃ heap' catalog' code c',
      catalogDropSchema s.heap s.catalog name = .ok (heap', catalog', code) ∧
      MapOfMaps c (.dropSchema name) code c' ∧
      CatalogInv { heap := heap', catalog := catalog' } c' := by
  by_cases hname : name = DEFAULT_SCHEMA
  · subst hname
    refine ⟨s.heap, s.catalog, -1, c, ?_, .defaultKept, h⟩
    rw [catalogDropSchema, if_pos (strcmp_eq_zero_iff.mpr rfl)]
    rfl
  · obtain ⟨heap', set', dropped, hdrop, hkept, hheads⟩ := h.schemas.dropEntry h.outcomes_eq name
    have hold := h.kept hkept
    refine ⟨heap', { s.catalog with schemas := set' }, 0, _, ?_, .schemaDropped hname, ?_⟩
    · rw [catalogDropSchema, if_neg fun heq => hname (strcmp_eq_zero_iff.mp heq), hdrop]
      rfl
    · refine { outcomes_eq := hold.outcomes_eq, made_lt := hold.made_lt, schemas := ?_,
               schema := ?_ }
      · rw [Function.comp_update]
        exact hheads
      · intro other schema hschema
        -- only `name` is gone, and a schema that is still live is another one
        by_cases hother : other = name
        · rw [hother] at hschema
          cases (Function.update_self name _ c.schemas).symm.trans hschema
        · exact hold.schema other schema
            ((Function.update_of_ne hother _ c.schemas).symm.trans hschema)

/-- The catalog after a live schema has a new set of tables in its entry. -/
theorem CatalogInv.put_schema {name : CString} {schema : SchemaSpec} {e : CatalogEntry δ}
    {tables indexes tables' : CatalogSet} {table : CString} {new : TableSpec}
    (hlive : c.schemas name = some schema)
    (hholds : SchemaHolds s.heap schema e tables indexes)
    (hfresh : new.entry < s.heap.next) (hnew : TableHolds s.heap schema.entry new)
    (htables : SetHolds s.heap tables' (Function.update (Option.map TableSpec.entry ∘ schema.tables)
      table (some new.entry))) :
    CatalogInv
      { s with heap := s.heap.put schema.entry { e with body := .schema tables' indexes } }
      { schemas := Function.update c.schemas name
          (some { schema with tables := Function.update schema.tables table (some new) })
        made := insert new.entry c.made } := by
  -- a new body changes neither the name of an entry nor its place in a chain
  have hsame : SameHeads s.heap
      (s.heap.put schema.entry { e with body := .schema tables' indexes }) :=
    sameHeads_put hholds.get _
  refine { outcomes_eq := h.outcomes_eq, made_lt := ?_, schemas := ?_, schema := ?_ }
  · intro entry hentry
    show entry < (s.heap.put _ _).next
    rw [Heap.next_put]
    rcases Set.mem_insert_iff.mp hentry with rfl | hentry
    · exact hfresh
    · exact h.made_lt entry hentry
  · -- the entry of the schema stays the same
    rw [Function.comp_update]
    have hentry : (Option.map SchemaSpec.entry ∘ c.schemas) name = some schema.entry := by
      rw [Function.comp_apply, hlive]
      rfl
    rw [show Option.map SchemaSpec.entry
        (some { schema with tables := Function.update schema.tables table (some new) })
        = (Option.map SchemaSpec.entry ∘ c.schemas) name from hentry.symm,
      Function.update_eq_self]
    exact h.schemas.sameHeads hsame
  · intro other otherSchema hother
    by_cases hname : other = name
    · rw [hname] at hother
      cases (Function.update_self name _ c.schemas).symm.trans hother
      exact ⟨_, tables', indexes, hholds.put_tables hnew htables⟩
    · -- two live schemas have different entries, so the others keep their contents
      have hold := (Function.update_of_ne hname _ c.schemas).symm.trans hother
      obtain ⟨e', tables₁, indexes₁, hholds'⟩ := h.schema other otherSchema hold
      exact ⟨e', tables₁, indexes₁, hholds'.put_other (h.entry_ne hold hlive hname) hholds.get
        hholds.body_eq _⟩

/-- A creation of a table. -/
theorem CatalogInv.createTable (datatableCreate : DatatableCreate σ δ) (info : CreateTableInfo) :
    ∃ heap' catalog' code c',
      catalogCreateTable datatableCreate s.heap s.catalog info = .ok (heap', catalog', code) ∧
      MapOfMaps c (.createTable info) code c' ∧
      CatalogInv { heap := heap', catalog := catalog' } c' := by
  rw [catalogCreateTable, h.getSchema, ok_bind]
  cases hlive : c.schemas info.schemaName with
  | none => exact ⟨s.heap, s.catalog, -1, c, rfl, .noSchema hlive, h⟩
  | some schema =>
      -- the entry is made before the set is asked whether the name is free
      let entry := newTable datatableCreate s.catalog schema.entry info
      have hpush : Kept s.heap (s.heap.push entry) := kept_push entry
      have hget : (s.heap.push entry).get? s.heap.next = some entry := Heap.get?_push_next ..
      obtain ⟨e₀, tables, indexes, hholds₀⟩ := h.schema _ _ hlive
      obtain ⟨e, hholds⟩ := hholds₀.kept hpush
      have hread : schemaTables (s.heap.push entry) schema.entry = .ok tables := by
        rw [schemaTables, readEntry_ok hholds.get, ok_bind, hholds.body_eq]
        rfl
      have hmake := makeTableEntry_of_nil datatableCreate h.outcomes_eq s.catalog schema.entry info
      simp only [Option.map_some, strdup_of_nil h.outcomes_eq, hmake]
      rw [show schemaTables (s.heap.push (newTable datatableCreate s.catalog schema.entry info))
        schema.entry = .ok tables from hread, ok_bind]
      cases htable : schema.tables info.tableName with
      | some table =>
          -- the entry is destroyed again, and the set of the tables is the old one
          have hset := hholds.tables.createEntry_live info.tableName (by simp [htable])
            s.heap.next
          have hstore : Kept (s.heap.push entry)
              ((s.heap.push entry).put schema.entry { e with body := .schema tables indexes }) :=
            kept_put hholds.get _ ⟨rfl, rfl, rfl, hholds.body_eq.symm⟩
          obtain ⟨e', hget', hsame⟩ := hstore.entry _ _ hget
          refine ⟨_, s.catalog, duplicateCode info.ifNotExists, c, ?_, .tableExists hlive htable,
            h.kept ((hpush.trans hstore).free_new (Nat.le_refl s.heap.next))⟩
          rw [hset, ok_bind]
          simp only [storeSchemaTables_ok hholds.get hholds.body_eq, ok_bind,
            tablecatalogEntryDestroy_ok hget' hsame.body_eq]
          rfl
      | none =>
          obtain ⟨heap₁, tables', hset, hkept, hheads⟩ := hholds.tables.createEntry
            (by exact h.outcomes_eq) info.tableName (by simp [htable]) hget rfl rfl
          obtain ⟨e₁, hholds₁⟩ := hholds.kept hkept
          obtain ⟨e', hget', hsame⟩ := hkept.entry _ _ hget
          have hnew : TableHolds heap₁ schema.entry { entry := s.heap.next, info } :=
            ⟨e', _, hget', hsame.type_eq, hsame.body_eq, rfl, rfl, rfl⟩
          -- the entry was the next address, and the set has only taken more
          have hlt : s.heap.next < heap₁.next := by
            have hle := hkept.next_le
            rw [Heap.next_push] at hle
            exact hle
          refine ⟨_, s.catalog, 0, _, ?_, .tableCreated hlive htable h.fresh,
            (h.kept (hpush.trans hkept)).put_schema hlive hholds₁ hlt hnew hheads⟩
          rw [hset, ok_bind]
          simp only [storeSchemaTables_ok hholds₁.get hholds₁.body_eq, ok_bind]
          rfl

/-- The step lemma: each call follows the map of maps, and the invariant holds after it. -/
theorem CatalogInv.step_ok (datatableCreate : DatatableCreate σ δ) (fuel : Nat)
    (call : CatalogCall) :
    ∃ s' code c', catalogStep datatableCreate fuel s call = .ok (s', code) ∧
      MapOfMaps c call code c' ∧ CatalogInv s' c' := by
  cases call with
  | createSchema info =>
      obtain ⟨heap', catalog', code, c', hrun, hspec, hinv⟩ := h.createSchema fuel info
      refine ⟨_, code, c', ?_, hspec, hinv⟩
      rw [catalogStep, hrun]
      rfl
  | dropSchema name =>
      obtain ⟨heap', catalog', code, c', hrun, hspec, hinv⟩ := h.dropSchema name
      refine ⟨_, code, c', ?_, hspec, hinv⟩
      rw [catalogStep, hrun]
      rfl
  | createTable info =>
      obtain ⟨heap', catalog', code, c', hrun, hspec, hinv⟩ := h.createTable datatableCreate info
      refine ⟨_, code, c', ?_, hspec, hinv⟩
      rw [catalogStep, hrun]
      rfl

end Calls

/-! ### The refinement -/

/-- The catalog in memory answers as the map of maps does, and its entries have the contents that
they were created with. -/
structure CatalogAgrees (s : CatalogState σ δ) (c : CatalogSpec) : Prop where
  getSchema : ∀ name,
    catalogGetSchema s.heap s.catalog name = .ok ((c.schemas name).map SchemaSpec.entry)
  getTable : ∀ schemaName tableName,
    catalogGetTable s.heap s.catalog schemaName tableName
      = .ok ((c.schemas schemaName).bind fun schema =>
          (schema.tables tableName).map TableSpec.entry)
  schema : ∀ name schema, c.schemas name = some schema →
    ∃ e, s.heap.get? schema.entry = some e ∧ e.type = .schema ∧ e.name = some name ∧
      e.deleted = false
  table : ∀ schemaName schema tableName table, c.schemas schemaName = some schema →
    schema.tables tableName = some table →
    ∃ e fields, s.heap.get? table.entry = some e ∧ e.type = .table ∧ e.name = some tableName ∧
      e.deleted = false ∧ e.body = .table fields ∧ fields.schema = schema.entry ∧
      fields.columns = table.info.columns ∧ fields.columnCount = table.info.columns.length

theorem CatalogInv.agrees {s : CatalogState σ δ} {c : CatalogSpec} (h : CatalogInv s c) :
    CatalogAgrees s c where
  getSchema := h.getSchema
  getTable := h.getTable
  schema name schema hschema := by
    obtain ⟨e, tables, indexes, hholds⟩ := h.schema name schema hschema
    obtain ⟨e', hget, hname, hdeleted⟩ := h.schemas.live_entry name schema.entry
      (by simp [hschema])
    rw [hholds.get, Option.some_inj] at hget
    subst hget
    exact ⟨e, hholds.get, hholds.type_eq, hname, hdeleted⟩
  table schemaName schema tableName table hschema htable := by
    obtain ⟨_, tables, indexes, hholds⟩ := h.schema schemaName schema hschema
    obtain ⟨e, fields, hget, htype, hbody, hfields⟩ := hholds.table tableName table htable
    obtain ⟨e', hget', hname, hdeleted⟩ := hholds.tables.live_entry tableName
      table.entry (by simp [htable])
    rw [hget, Option.some_inj] at hget'
    subst hget'
    exact ⟨e, fields, hget, htype, hname, hdeleted, hbody, hfields⟩

/-- A new catalog is empty. -/
theorem catalogCreate_inv {s : CatalogState σ δ}
    (hnew : catalogCreate [] = (s.heap, some s.catalog)) : CatalogInv s .empty := by
  obtain ⟨hheap, hcatalog⟩ := Prod.mk.inj hnew
  have hschemas : s.catalog.schemas = emptySet := by
    rw [← Option.some.inj hcatalog]
    rfl
  refine { outcomes_eq := ?_, made_lt := fun _ hentry => absurd hentry (Set.notMem_empty _)
           schemas := ?_, schema := fun _ _ hschema => by cases hschema }
  · rw [← hheap]
  · rw [hschemas]
    exact setHolds_init

/-- With enough memory, every run of a new catalog follows the map of maps, and the catalog in
memory agrees with it at its end. From there on, no further run loses the default schema or
replaces its entry. -/
theorem catalog_refinement (datatableCreate : DatatableCreate σ δ) (fuel : Nat)
    (s₀ : CatalogState σ δ) (hnew : catalogCreate [] = (s₀.heap, some s₀.catalog))
    (calls : List CatalogCall) :
    ∃ s codes c,
      runResults (catalogStep datatableCreate fuel) s₀ calls = .ok (s, codes) ∧
      SpecRun MapOfMaps .empty calls codes c ∧ CatalogAgrees s c ∧
      ∀ more, ∃ s' codes',
        runResults (catalogStep datatableCreate fuel) s more = .ok (s', codes') ∧
        ∀ entry, catalogGetSchema s.heap s.catalog DEFAULT_SCHEMA = .ok (some entry) →
          catalogGetSchema s'.heap s'.catalog DEFAULT_SCHEMA = .ok (some entry) := by
  have hruns := run_simulation (catalogStep datatableCreate fuel) MapOfMaps CatalogInv
    (fun _ _ call h => h.step_ok datatableCreate fuel call)
  obtain ⟨s, codes, c, hrun, hspec, h⟩ := hruns calls s₀ .empty (catalogCreate_inv hnew)
  refine ⟨s, codes, c, hrun, hspec, h.agrees, fun more => ?_⟩
  obtain ⟨s', codes', c', hrun', hspec', h'⟩ := hruns more s c h
  refine ⟨s', codes', hrun', fun entry hentry => ?_⟩
  -- the entry that the first run answers with is the one that no further run replaces
  rw [h.getSchema, Except.ok.injEq, Option.map_eq_some_iff] at hentry
  obtain ⟨schema, hlive, hschema⟩ := hentry
  obtain ⟨schema', hlive', hschema'⟩ := default_schema_kept hspec' hlive
  rw [h'.getSchema, hlive', Option.map_some, hschema', hschema]

/-- The default schema with a table that is created twice, and a drop that is refused. -/
theorem catalog_refinement_duplicate :
    ∃ (s₀ s : CatalogState Unit Unit) (codes : List Int) (c : CatalogSpec),
      runResults (catalogStep (fun _ _ _ _ _ => ()) 0) s₀
        [.createSchema ⟨DEFAULT_SCHEMA, false⟩,
          .createTable ⟨DEFAULT_SCHEMA, { bytes := [116] }, false, []⟩,
          .createTable ⟨DEFAULT_SCHEMA, { bytes := [116] }, false, []⟩,
          .dropSchema DEFAULT_SCHEMA] = .ok (s, codes) ∧
      codes = [0, 0, -2, -1] ∧ CatalogAgrees s c := by
  obtain ⟨s, codes, c, hrun, -, hagrees, -⟩ := catalog_refinement
    (fun _ _ _ _ _ => ()) 0
    { heap := { cells := [], outcomes := [] }, catalog := { schemas := emptySet, storage := none } }
    rfl
    [.createSchema ⟨DEFAULT_SCHEMA, false⟩,
      .createTable ⟨DEFAULT_SCHEMA, { bytes := [116] }, false, []⟩,
      .createTable ⟨DEFAULT_SCHEMA, { bytes := [116] }, false, []⟩,
      .dropSchema DEFAULT_SCHEMA]
  refine ⟨_, s, codes, c, hrun, ?_, hagrees⟩
  have hcodes := congrArg (fun result => result.toOption.map Prod.snd) hrun
  exact (Option.some.inj (Eq.trans (by decide) hcodes)).symm

end MustDb.Proofs.Catalog
