import MustDb.Catalog.CatalogSet

/-!
# `MustDb.Catalog.Catalog`: schemas and tables

`catalog_create`, `catalog_create_schema`, `catalog_drop_schema`, `catalog_create_table`,
`catalog_destroy` and the lookups of `src/catalog/catalog.c`. The set of the schemas is a field of
the catalog, and the set of the tables of a schema is a field of its entry.

`Datatable_create` is declared and defined outside the repository. It is the parameter
`datatableCreate` here: a function of the arguments that `make_table_entry` passes, into a type `δ`
of data tables. `σ` is the type of the storage manager. The slice of the column types in
`make_table_entry` always gets its memory here.
-/

set_option autoImplicit false

namespace MustDb.Catalog

open MustDb.Lib
open MustDb.Libv

/-- `TypeID` -/
inductive TypeID where
  | invalid
  | int8
  | int16
  | int32
  | int64
  | float32
  | float64
  deriving DecidableEq, Repr

def SQLT_TINYINT : SQLType := 1
def SQLT_SMALLINT : SQLType := 2
def SQLT_INTEGER : SQLType := 3
def SQLT_BIGINT : SQLType := 4
def SQLT_FLOAT : SQLType := 5
def SQLT_DOUBLE : SQLType := 6

/-- `get_internal_type` -/
def getInternalType (type : SQLType) : TypeID :=
  if type = SQLT_TINYINT then .int8
  else if type = SQLT_SMALLINT then .int16
  else if type = SQLT_INTEGER then .int32
  else if type = SQLT_BIGINT then .int64
  else if type = SQLT_FLOAT then .float32
  else if type = SQLT_DOUBLE then .float64
  else .invalid

/-- `CreateSchemaInfo` -/
structure CreateSchemaInfo where
  schemaName : CString
  ifNotExists : Bool

/-- `CreateTableInfo`; `col_count` is the length of `columns`. -/
structure CreateTableInfo where
  schemaName : CString
  tableName : CString
  ifNotExists : Bool
  columns : List ColumnDefinition

set_option linter.dupNamespace false in
/-- `Catalog` -/
structure Catalog (σ : Type) where
  schemas : CatalogSet
  storage : Option σ

/-- `"main"` -/
def DEFAULT_SCHEMA : CString := { bytes := [109, 97, 105, 110] }

variable {σ δ : Type}

/-- `Datatable_create(storage, schema_name, name, col_count, types)` -/
abbrev DatatableCreate (σ δ : Type) := Option σ → CString → CString → Nat → List TypeID → δ

/-- `catalog_create`, with the empty heap that it starts from. -/
def catalogCreate (outcomes : MallocOutcomes) : CatalogHeap δ × Option (Catalog σ) :=
  match malloc outcomes with
  | (false, outcomes) => ({ cells := [], outcomes }, none)
  | (true, outcomes) =>
      let (schemas, outcomes) := catalogSetInit outcomes
      ({ cells := [], outcomes }, some { schemas, storage := none })

/-- `make_schema_entry` -/
def makeSchemaEntry (heap : CatalogHeap δ) (name : CString) : CatalogHeap δ × Option Addr :=
  match malloc heap.outcomes with
  | (false, outcomes) => ({ heap with outcomes }, none)
  | (true, outcomes) =>
      let (tables, outcomes) := catalogSetInit outcomes
      let (indexes, outcomes) := catalogSetInit outcomes
      (({ heap with outcomes } : CatalogHeap δ).push
        (catalogEntryInit .schema (some name) (.schema tables indexes)), some heap.next)

/-- `make_table_entry` -/
def makeTableEntry (datatableCreate : DatatableCreate σ δ) (heap : CatalogHeap δ)
    (catalog : Catalog σ) (schema : Addr) (name : CString) (info : CreateTableInfo) :
    CatalogHeap δ × Option Addr :=
  let types := info.columns.map fun column => getInternalType column.type
  let datatable :=
    datatableCreate catalog.storage info.schemaName name info.columns.length types
  match heap.alloc (catalogEntryInit .table (some name)
      (.table { schema, datatable, columns := info.columns
                columnCount := info.columns.length })) with
  | (heap, none) => (heap, none)
  | (heap, some entry) =>
      -- the array of the columns
      match malloc heap.outcomes with
      | (false, outcomes) => (({ heap with outcomes } : CatalogHeap δ).free entry, none)
      | (true, outcomes) => ({ heap with outcomes }, some entry)

/-- `catalog_create_schema` -/
def catalogCreateSchema (fuel : Nat) (heap : CatalogHeap δ) (catalog : Catalog σ)
    (info : CreateSchemaInfo) : Except Fault (CatalogHeap δ × Catalog σ × Int) := do
  match strdup heap info.schemaName with
  | (heap, none) => return (heap, catalog, -1)
  | (heap, some nameCopy) =>
      match makeSchemaEntry heap nameCopy with
      | (heap, none) => return (heap, catalog, -1)
      | (heap, some entry) =>
          let (heap, schemas, created) ←
            catalogSetCreateEntry heap catalog.schemas info.schemaName entry
          let catalog := { catalog with schemas }
          if created then
            return (heap, catalog, 0)
          else
            let heap ← schemacatalogEntryDestroy fuel heap entry
            return (heap, catalog, if info.ifNotExists then 0 else -2)

/-- `catalog_get_schema` -/
def catalogGetSchema (heap : CatalogHeap δ) (catalog : Catalog σ) (schemaName : CString) :
    Except Fault (Option Addr) :=
  catalogSetGetEntry heap catalog.schemas schemaName

/-- `catalog_drop_schema`: the default schema cannot be dropped. -/
def catalogDropSchema (heap : CatalogHeap δ) (catalog : Catalog σ) (schemaName : CString) :
    Except Fault (CatalogHeap δ × Catalog σ × Int) := do
  if strcmp schemaName DEFAULT_SCHEMA = 0 then
    return (heap, catalog, -1)
  else
    let (heap, schemas, _) ← catalogSetDropEntry heap catalog.schemas schemaName
    return (heap, { catalog with schemas }, 0)

/-- `&schema->tables` -/
def schemaTables (heap : CatalogHeap δ) (schema : Addr) : Except Fault CatalogSet := do
  match (← readEntry heap schema).body with
  | .schema tables _ => return tables
  | _ => throw .badCast

/-- The set of the tables, after a call that changed it in place. -/
def storeSchemaTables (heap : CatalogHeap δ) (schema : Addr) (tables : CatalogSet) :
    Except Fault (CatalogHeap δ) :=
  updateEntry heap schema fun e => { e with
    body := match e.body with
      | .schema _ indexes => .schema tables indexes
      | body => body }

/-- `catalog_create_table` -/
def catalogCreateTable (datatableCreate : DatatableCreate σ δ) (heap : CatalogHeap δ)
    (catalog : Catalog σ) (info : CreateTableInfo) :
    Except Fault (CatalogHeap δ × Catalog σ × Int) := do
  match ← catalogGetSchema heap catalog info.schemaName with
  | none => return (heap, catalog, -1)
  | some schemaEntry =>
      match strdup heap info.tableName with
      | (heap, none) => return (heap, catalog, -1)
      | (heap, some nameCopy) =>
          match makeTableEntry datatableCreate heap catalog schemaEntry nameCopy info with
          | (heap, none) => return (heap, catalog, -1)
          | (heap, some entry) =>
              let tables ← schemaTables heap schemaEntry
              let (heap, tables, created) ←
                catalogSetCreateEntry heap tables info.tableName entry
              -- the set is part of the entry of the schema, so the call has changed it there
              let heap ← storeSchemaTables heap schemaEntry tables
              if created then
                return (heap, catalog, 0)
              else
                -- the name is taken: the new entry is not in any chain and is freed
                let heap ← tablecatalogEntryDestroy heap entry
                return (heap, catalog, if info.ifNotExists then 0 else -2)

/-- `catalog_get_table` -/
def catalogGetTable (heap : CatalogHeap δ) (catalog : Catalog σ) (schemaName tableName : CString) :
    Except Fault (Option Addr) := do
  match ← catalogGetSchema heap catalog schemaName with
  | none => return none
  | some schema =>
      let tables ← schemaTables heap schema
      catalogSetGetEntry heap tables tableName

/-- `catalog_destroy`, for a catalog that is not `NULL`. The fuel is for the loops. -/
def catalogDestroy (fuel : Nat) (heap : CatalogHeap δ) (catalog : Catalog σ) :
    Except Fault (CatalogHeap δ) := do
  let (heap, _) ← catalogSetDeinit fuel heap catalog.schemas
  return heap

/-! ### The calls of a client -/

/-- A catalog and the heap of its entries. -/
structure CatalogState (σ δ : Type) where
  heap : CatalogHeap δ
  catalog : Catalog σ

/-- A call of a client. -/
inductive CatalogCall where
  /-- `catalog_create_schema` -/
  | createSchema (info : CreateSchemaInfo)
  /-- `catalog_drop_schema` -/
  | dropSchema (schemaName : CString)
  /-- `catalog_create_table` -/
  | createTable (info : CreateTableInfo)

/-- The catalog after one call, and its return code. -/
def catalogStep (datatableCreate : DatatableCreate σ δ) (fuel : Nat) (s : CatalogState σ δ) :
    CatalogCall → Except Fault (CatalogState σ δ × Int)
  | .createSchema info => do
      let (heap, catalog, code) ← catalogCreateSchema fuel s.heap s.catalog info
      return ({ heap, catalog }, code)
  | .dropSchema schemaName => do
      let (heap, catalog, code) ← catalogDropSchema s.heap s.catalog schemaName
      return ({ heap, catalog }, code)
  | .createTable info => do
      let (heap, catalog, code) ← catalogCreateTable datatableCreate s.heap s.catalog info
      return ({ heap, catalog }, code)

end MustDb.Catalog
