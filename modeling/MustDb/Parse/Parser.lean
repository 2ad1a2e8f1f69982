import MustDb.Catalog.Catalog
import MustDb.Storage.Serializer

/-!
# `MustDb.Parse.Parser`: what a table definition on disk means

`createTableInfo_deserialize` of `src/parse/parser.c`. The fields of a column that the function does
not set keep what the memory of the array held before. The dimension is such a field, for every type
but `SQLT_VECTOR`, so the old content is a parameter here.
-/

set_option autoImplicit false

namespace MustDb.Parse

open MustDb.Lib
open MustDb.Catalog
open MustDb.Storage

def SQLT_VECTOR : SQLType := 8

variable {ρ : Type}

/-- The options of a column, by its type. `uninit` is what the memory of the column holds. -/
def readOptions (dr : Deserializer ρ) (uninit : Int16) (type : SQLType) (c : Client ρ) :
    Except Fault (Client ρ × Int16) :=
  if type = SQLT_VECTOR then deserializerReadI16 dr c else .ok (c, uninit)

/-- The loop body of `createTableInfo_deserialize`, for the column at position `i`. -/
def readColumn (dr : Deserializer ρ) (uninit : Int16) (i : Nat) (c : Client ρ) :
    Except Fault (Client ρ × ColumnDefinition) := do
  let (c, name) ← deserializerReadString dr c
  let (c, type) ← deserializerReadU8 dr c
  let type : SQLType := UInt32.ofNat type.toNat
  let (c, dim) ← readOptions dr uninit type c
  return (c, { name, oid := UInt64.ofNat i, type, dim })

/-- The loop of `createTableInfo_deserialize`: the columns from position `i` on. -/
def readColumns (dr : Deserializer ρ) (uninit : Nat → Int16) :
    (count i : Nat) → Client ρ → Except Fault (Client ρ × List ColumnDefinition)
  | 0, _, c => .ok (c, [])
  | count + 1, i, c => do
      let (c, column) ← readColumn dr (uninit i) i c
      let (c, columns) ← readColumns dr uninit count (i + 1) c
      return (c, column :: columns)

/-- `info->columns`: the array of `colCount` columns, and the loop that fills it. -/
def readColumnArray (dr : Deserializer ρ) (uninit : Nat → Int16) (colCount : UInt32)
    (c : Client ρ) : Except Fault (Client ρ × List ColumnDefinition) := do
  let (allocated, outcomes) := malloc c.outcomes
  if ¬ allocated ∧ colCount ≠ 0 then
    throw .nullPointer
  readColumns dr uninit colCount.toNat 0 { c with outcomes }

/-- `createTableInfo_deserialize` -/
def createTableInfoDeserialize (dr : Deserializer ρ) (uninit : Nat → Int16) (c : Client ρ) :
    Except Fault (Client ρ × CreateTableInfo) := do
  let (c, schemaName) ← deserializerReadString dr c
  let (c, tableName) ← deserializerReadString dr c
  let (c, colCount) ← deserializerReadU32 dr c
  let (c, columns) ← readColumnArray dr uninit colCount c
  return (c, { schemaName, tableName, ifNotExists := true, columns })

end MustDb.Parse
