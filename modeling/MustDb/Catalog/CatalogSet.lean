import MustDb.Lib.Heap
import MustDb.Libv.HmapIter

/-!
# `MustDb.Catalog.CatalogSet`: the versioned sets of catalog entries

The entries and the `CatalogSet` of `src/catalog/catalog.c`. A set maps a name to the newest version
of its entry. The versions form a chain through `child`, newest first, and end in a dummy entry that
stands for the time before the first creation. A drop puts a tombstone at the front.

An entry lives in the heap, and a set is a value of the struct that contains it.
`SchemaCatalogEntry` and `TableCatalogEntry` extend `CatalogEntry`, so one record has the base and
a `body` with the rest. `body` also says which struct was allocated: a cast to another one is a
fault. The strings of the names are part of their entries, and only their allocations are modelled.
The `destroy` callback of an entry is `NULL` in all of `catalog.c` and left out.

A client of a set makes an entry and passes it to `catalogSet_create_entry` (`FreshEntry`), or drops
a name. `setStep` executes one call.
-/

set_option autoImplicit false

namespace MustDb.Catalog

open MustDb.Lib
open MustDb.Libv

/-- `CatalogType` -/
inductive CatalogType where
  | invalid
  | table
  | schema
  | index
  deriving DecidableEq, Repr

/-- `SQLType`: a C enumeration, whose variables can hold other values too. -/
abbrev SQLType := UInt32

/-- `ColumnDefinition`; `dim` is the vector option. The struct is copied with its pointer to the
name, so a table shares the name strings with the caller that created it. -/
structure ColumnDefinition where
  name : CString
  oid : UInt64
  type : SQLType
  dim : Int16
  deriving DecidableEq

/-- `CatalogSet` -/
structure CatalogSet where
  data : Hmap CString Addr

/-- The fields of `TableCatalogEntry` after its base, without `storage_table`, which is always
`NULL` here. `δ` is the type of the data tables. -/
structure TableBody (δ : Type) where
  schema : Addr
  datatable : δ
  columns : List ColumnDefinition
  columnCount : Nat

/-- What an entry has after its base. -/
inductive EntryBody (δ : Type) where
  /-- `CatalogEntry` itself. -/
  | base
  /-- `SchemaCatalogEntry` -/
  | schema (tables indexes : CatalogSet)
  /-- `TableCatalogEntry` -/
  | table (fields : TableBody δ)

/-- `CatalogEntry`, with the fields of the struct that extends it. -/
structure CatalogEntry (δ : Type) where
  type : CatalogType
  /-- `none` is `NULL`. -/
  name : Option CString
  deleted : Bool
  parent : Option Addr
  child : Option Addr
  body : EntryBody δ

variable {δ : Type}

abbrev CatalogHeap (δ : Type) := Heap (CatalogEntry δ)

/-! ### Entries -/

/-- `*entry` -/
def readEntry (heap : CatalogHeap δ) (entry : Addr) : Except Fault (CatalogEntry δ) :=
  match heap.get? entry with
  | some e => .ok e
  | none => .error .useAfterFree

/-- A store to some fields of `*entry`. -/
def updateEntry (heap : CatalogHeap δ) (entry : Addr) (f : CatalogEntry δ → CatalogEntry δ) :
    Except Fault (CatalogHeap δ) := do
  let e ← readEntry heap entry
  return heap.put entry (f e)

/-- `strdup` -/
def strdup (heap : CatalogHeap δ) (s : CString) : CatalogHeap δ × Option CString :=
  let (ok, outcomes) := malloc heap.outcomes
  ({ heap with outcomes }, if ok then some s else none)

/-- `catalogEntry_init` -/
def catalogEntryInit (type : CatalogType) (name : Option CString) (body : EntryBody δ) :
    CatalogEntry δ :=
  { type, name, deleted := false, parent := none, child := none, body }

/-- `make_entry` -/
def makeEntry (heap : CatalogHeap δ) (type : CatalogType) (name : Option CString) :
    CatalogHeap δ × Option Addr :=
  heap.alloc (catalogEntryInit type name .base)

/-! ### Sets -/

/-- `catalogSet_init` -/
def catalogSetInit (outcomes : MallocOutcomes) : CatalogSet × MallocOutcomes :=
  let (data, outcomes) := hmapInitStr Addr outcomes
  ({ data }, outcomes)

/-- `value` becomes the parent of `head`. -/
def linkHead (heap : CatalogHeap δ) (head value : Addr) : Except Fault (CatalogHeap δ) := do
  let heap ← updateEntry heap value fun e => { e with child := some head }
  updateEntry heap head fun e => { e with parent := some value }

/-- The end of `catalogSet_create_entry`: `value` is put at the front of the chain. -/
def pushHead (heap : CatalogHeap δ) (set : CatalogSet) (name : CString) (head value : Addr) :
    Except Fault (CatalogHeap δ × CatalogSet) := do
  let heap ← linkHead heap head value
  let data ← hmapSetValue set.data name value
  return (heap, { data })

/-- `catalogSet_create_entry` -/
def catalogSetCreateEntry (heap : CatalogHeap δ) (set : CatalogSet) (name : CString)
    (value : Addr) : Except Fault (CatalogHeap δ × CatalogSet × Bool) := do
  match ← hmapGet set.data name with
  | none =>
      -- a new name: the dummy entry is the end of its chain
      match strdup heap name with
      | (heap, none) => return (heap, set, false)
      | (heap, some nameCopy) =>
          match makeEntry heap .invalid (some nameCopy) with
          | (heap, none) => return (heap, set, false)
          | (heap, some dummy) =>
              let (data, node, outcomes) ← hmapInsert set.data nameCopy dummy heap.outcomes
              let heap := { heap with outcomes }
              match node with
              -- the insert may have grown the map before it ran out of memory
              | none => return (heap.free dummy, { data }, false)
              | some node =>
                  let (heap, set) ← pushHead heap { data } name node.value value
                  return (heap, set, true)
  | some node =>
      let current ← readEntry heap node.value
      if !current.deleted then
        return (heap, set, false)
      else
        -- a dropped name: the new version goes in front of the tombstone
        let (heap, set) ← pushHead heap set name node.value value
        return (heap, set, true)

/-- `catalogSet_get_entry` -/
def catalogSetGetEntry (heap : CatalogHeap δ) (set : CatalogSet) (name : CString) :
    Except Fault (Option Addr) := do
  match ← hmapGet set.data name with
  | none => return none
  | some node =>
      let entry ← readEntry heap node.value
      return if entry.deleted then none else some node.value

/-- `catalogSet_scan`. The context of the callback is `ctx`, and its result is the context after the
call. The fuel bounds the turns of the loop. -/
def catalogSetScan {γ : Type} (fuel : Nat) (set : CatalogSet) (scanFn : γ → Addr → Except Fault γ)
    (ctx : γ) : Except Fault γ :=
  hmapForeach scanFn fuel set.data ctx

/-- `count_entry_callback` -/
def countEntryCallback (heap : CatalogHeap δ) (count : UInt32) (entry : Addr) :
    Except Fault UInt32 := do
  let e ← readEntry heap entry
  return if e.deleted then count else count + 1

/-- `catalogSet_get_entry_count` -/
def catalogSetGetEntryCount (fuel : Nat) (heap : CatalogHeap δ) (set : CatalogSet) :
    Except Fault UInt32 :=
  catalogSetScan fuel set (countEntryCallback heap) 0

/-- `catalogSet_drop_entry_impl`, for the node that holds `entry`. A failed `strdup` leaves a
tombstone without a name, and the next `strdup` of that name reads `NULL`. -/
def catalogSetDropEntryImpl (heap : CatalogHeap δ) (set : CatalogSet) (name : CString)
    (entry : Addr) : Except Fault (CatalogHeap δ × CatalogSet) := do
  match (← readEntry heap entry).name with
  | none => throw .nullPointer
  | some entryName =>
      let (heap, nameCopy) := strdup heap entryName
      match makeEntry heap .invalid nameCopy with
      | (heap, none) => return (heap, set)
      | (heap, some value) =>
          let heap ← linkHead heap entry value
          let heap ← updateEntry heap value fun e => { e with deleted := true }
          let data ← hmapSetValue set.data name value
          return (heap, { data })

/-- `catalogSet_drop_entry` -/
def catalogSetDropEntry (heap : CatalogHeap δ) (set : CatalogSet) (name : CString) :
    Except Fault (CatalogHeap δ × CatalogSet × Bool) := do
  match ← hmapGet set.data name with
  | none => return (heap, set, false)
  | some node =>
      let (heap, set) ← catalogSetDropEntryImpl heap set name node.value
      return (heap, set, true)

/-! ### Destruction -/

/-- The loop of `catalogSet_deinit` over the values of a set, in the order of `HMAP_FOREACH`.
`destroyChain` destroys the chain of one value. -/
def catalogSetDeinitWith (destroyChain : CatalogHeap δ → Option Addr → Except Fault (CatalogHeap δ))
    (heap : CatalogHeap δ) (set : CatalogSet) : Except Fault (CatalogHeap δ) :=
  set.data.nodes.foldlM (fun heap node => destroyChain heap (some node.value)) heap

/-- `schemacatalogEntry_destroy` -/
def schemacatalogEntryDestroyWith
    (destroyChain : CatalogHeap δ → Option Addr → Except Fault (CatalogHeap δ))
    (heap : CatalogHeap δ) (entry : Addr) : Except Fault (CatalogHeap δ) := do
  match (← readEntry heap entry).body with
  | .schema tables indexes =>
      let heap ← catalogSetDeinitWith destroyChain heap tables
      let heap ← catalogSetDeinitWith destroyChain heap indexes
      return heap.free entry
  | _ => throw .badCast

/-- `tablecatalogEntry_destroy` -/
def tablecatalogEntryDestroy (heap : CatalogHeap δ) (entry : Addr) :
    Except Fault (CatalogHeap δ) := do
  match (← readEntry heap entry).body with
  | .table _ => return heap.free entry
  | _ => throw .badCast

/-- The inner loop of `catalogSet_deinit`: the entries of a chain are destroyed from `entry` on. The
fuel bounds the entries on the way down, through the chains and the sets of the schemas. -/
def destroyChain : Nat → CatalogHeap δ → Option Addr → Except Fault (CatalogHeap δ)
  | _, heap, none => .ok heap
  | 0, _, some _ => .error .outOfFuel
  | fuel + 1, heap, some entry => do
      let e ← readEntry heap entry
      let heap := heap.put entry { e with child := none, parent := none }
      let heap ← match e.type with
        | .schema => schemacatalogEntryDestroyWith (destroyChain fuel) heap entry
        | .table => tablecatalogEntryDestroy heap entry
        | _ => .ok (heap.free entry)
      destroyChain fuel heap e.child

/-- `schemacatalogEntry_destroy` -/
def schemacatalogEntryDestroy (fuel : Nat) (heap : CatalogHeap δ) (entry : Addr) :
    Except Fault (CatalogHeap δ) :=
  schemacatalogEntryDestroyWith (destroyChain fuel) heap entry

/-- `catalogSet_deinit`: the chains of all names, then the map. -/
def catalogSetDeinit (fuel : Nat) (heap : CatalogHeap δ) (set : CatalogSet) :
    Except Fault (CatalogHeap δ × CatalogSet) := do
  let heap ← hmapForeach (fun heap entry => destroyChain fuel heap (some entry)) fuel set.data heap
  let data ← hmapDeinit set.data
  return (heap, { data })

/-! ### The calls of a client -/

/-- The body is the one of the struct that `type` stands for, so a cast by the type is right. The
sets of a new schema have no entries. -/
def BodyFits : CatalogType → EntryBody δ → Prop
  | .schema, .schema tables indexes => tables.data.nodes = [] ∧ indexes.data.nodes = []
  | .schema, _ => False
  | .table, .table _ => True
  | .table, _ => False
  | _, _ => True

/-- An entry that a client has made for a creation: it is not in any chain yet. -/
structure FreshEntry (δ : Type) where
  type : CatalogType
  name : CString
  /-- The link to an older version is set by the creation, whatever it was. -/
  child : Option Addr
  body : EntryBody δ
  fits : BodyFits type body

/-- The entry in memory. -/
def FreshEntry.entry (fresh : FreshEntry δ) : CatalogEntry δ :=
  { catalogEntryInit fresh.type (some fresh.name) fresh.body with child := fresh.child }

/-- A set, and the heap of its entries. -/
structure SetState (δ : Type) where
  heap : CatalogHeap δ
  set : CatalogSet

/-- A call of a client. -/
inductive SetCall (δ : Type) where
  /-- `catalogSet_create_entry`, with an entry that is made for the call. -/
  | create (name : CString) (fresh : FreshEntry δ)
  /-- `catalogSet_drop_entry` -/
  | drop (name : CString)

/-- What a call returns; a creation also has the address of its entry. -/
inductive SetResult where
  | created (value : Addr) (ok : Bool)
  | dropped (ok : Bool)
  deriving DecidableEq, Repr

/-- A new set. -/
def setStateInit : SetState δ where
  heap := { cells := [], outcomes := [] }
  set := (catalogSetInit []).1

/-- The set after one call, and what the call returns. -/
def setStep (s : SetState δ) : SetCall δ → Except Fault (SetState δ × SetResult)
  | .create name fresh => do
      let value := s.heap.next
      let (heap, set, ok) ← catalogSetCreateEntry (s.heap.push fresh.entry) s.set name value
      return ({ heap, set }, .created value ok)
  | .drop name => do
      let (heap, set, ok) ← catalogSetDropEntry s.heap s.set name
      return ({ heap, set }, .dropped ok)

/-- A call of a client, with the outcomes of the allocations in it. -/
structure AllocCall (δ : Type) where
  call : SetCall δ
  outcomes : MallocOutcomes

/-- The set after one call whose allocations have these outcomes. -/
def allocStep (s : SetState δ) (a : AllocCall δ) : Except Fault (SetState δ × SetResult) :=
  setStep { s with heap := { s.heap with outcomes := a.outcomes } } a.call

end MustDb.Catalog
