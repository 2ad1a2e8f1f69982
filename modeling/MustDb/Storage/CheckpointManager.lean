import MustDb.Parse.Parser

/-!
# `MustDb.Storage.CheckpointManager`: a table definition on its way to disk

`checkpointManager_write_table_catalog` of `src/storage/table/storage.c`. It writes to the metadata
writer of the checkpoint manager, which is the sink here. The table is an entry of the catalog heap,
and so is its schema.
-/

set_option autoImplicit false

namespace MustDb.Storage

open MustDb.Lib
open MustDb.Catalog
open MustDb.Parse

variable {σ δ : Type}

/-- `SERIALIZER_WRITE_STRING` of a name that can be `NULL`. -/
def writeName (sw : Serializer σ) (name : Option CString) (s : σ) : Except Fault σ :=
  match name with
  | some str => serializerWriteString sw str s
  | none => throw .nullPointer

/-- The `switch` over the type of a column. -/
def writeOptions (sw : Serializer σ) (column : ColumnDefinition) (s : σ) : Except Fault σ :=
  if column.type = SQLT_VECTOR then serializerWriteI16 sw column.dim s else .ok s

/-- The loop body of `checkpointManager_write_table_catalog`. The `u8` keeps the low byte of the
type. -/
def writeColumn (sw : Serializer σ) (column : ColumnDefinition) (s : σ) : Except Fault σ := do
  let s ← serializerWriteString sw column.name s
  let s ← serializerWriteU8 sw column.type.toUInt8 s
  writeOptions sw column s

/-- The loop of `checkpointManager_write_table_catalog`, from position `i` on. -/
def writeColumns (sw : Serializer σ) (columns : List ColumnDefinition) :
    (count i : Nat) → σ → Except Fault σ
  | 0, _, s => .ok s
  | count + 1, i, s =>
      -- `int i` counts no further
      if 2 ^ 31 ≤ i then .error .outOfBounds
      else
        match columns[i]? with
        | none => .error .outOfBounds
        | some column => do
            let s ← writeColumn sw column s
            writeColumns sw columns count (i + 1) s

/-- The fields of a `TableCatalogEntry`. -/
def tableFields (e : CatalogEntry δ) : Except Fault (TableBody δ) :=
  match e.body with
  | .table fields => .ok fields
  | _ => .error .badCast

/-- `checkpointManager_write_table_catalog` -/
def checkpointManagerWriteTableCatalog (sw : Serializer σ) (heap : CatalogHeap δ) (entry : Addr)
    (s : σ) : Except Fault σ := do
  let e ← readEntry heap entry
  let table ← tableFields e
  let schema ← readEntry heap table.schema
  let s ← writeName sw schema.name s
  let s ← writeName sw e.name s
  let s ← serializerWriteU32 sw (UInt32.ofNat table.columnCount) s
  writeColumns sw table.columns table.columnCount 0 s

end MustDb.Storage
