import MustDb.Storage.ExtentManager

/-!
# `MustDb.Storage.TableDataWriter`: the column buffers of a checkpoint

`TableDataWriter` of `src/storage/table/storage.c`. Each column of a table has a block that buffers
its values, and three counters: `offsets`, the bytes in the block, `tuple_counts`, the tuples in it,
and `row_numbers`, the tuples of the blocks before it. `TableDataWriter_flush_block` writes the
block under a free id and records it in the `data_pointers` of the column.

The slices are lists, and their growth succeeds in this model. `SLICE_AT` past the end dereferences
`NULL`; `slice_set` past the end changes nothing. `usize` is a wrapping 64-bit integer. The manager
is the block manager of the checkpoint, and is passed along.

The callers of the two flush functions are commented out in the source. `prepareColumns` and
`tableDataWriterWritecolumndata` are the parts of them that use the counters.
-/

set_option autoImplicit false

namespace MustDb.Storage

open MustDb.Lib

/-- `DataPointer`. The two `f64` fields `min` and `max` only get the value 0. -/
structure DataPointer where
  min : Int
  max : Int
  rowStart : UInt64
  tupleCount : UInt64
  blockId : BlockId
  offset : UInt32
  deriving DecidableEq, Repr

/-- `TableDataWriter`. The table and the `indexes`, which no operation reads, are left out. -/
structure TableDataWriter where
  blocks : List Block
  offsets : List UInt64
  tupleCounts : List UInt64
  rowNumbers : List UInt64
  dataPointers : List (List DataPointer)

/-- `SLICE_AT` -/
def sliceAt {α : Type} (slice : List α) (index : Nat) : Except Fault α :=
  match slice[index]? with
  | some element => .ok element
  | none => .error .nullPointer

/-- `TableDataWriter_init` -/
def tableDataWriterInit : TableDataWriter where
  blocks := []
  offsets := []
  tupleCounts := []
  rowNumbers := []
  dataPointers := []

/-- The first loop of `tableDataWriter_write_data`: a block and zero counters for each column. -/
def prepareColumns : Nat → TableDataWriter → TableDataWriter
  | 0, self => self
  | n + 1, self => prepareColumns n
      { blocks := self.blocks ++ [blockCreate INVALID_BLOCK]
        offsets := self.offsets ++ [0]
        tupleCounts := self.tupleCounts ++ [0]
        rowNumbers := self.rowNumbers ++ [0]
        dataPointers := self.dataPointers ++ [[]] }

/-- `TableDataWriter_flush_block`. The last part of the result is the block that it writes, if there
are tuples in it. -/
def tableDataWriterFlushBlock (manager : SingleFileExtentManager) (self : TableDataWriter)
    (col : Nat) : Except Fault (SingleFileExtentManager × TableDataWriter × Option Block) := do
  if (← sliceAt self.tupleCounts col) = 0 then
    return (manager, self, none)
  let blk ← sliceAt self.blocks col
  let (manager, blockId) := singleFileBlockManagerGetFreeBlockId manager
  let blk := { blk with id := blockId }
  let tupleCount ← sliceAt self.tupleCounts col
  let rowStart ← sliceAt self.rowNumbers col
  let data : DataPointer :=
    { min := 0, max := 0, blockId := blk.id, offset := 0, tupleCount, rowStart }
  -- `slice_push_back` to the slice at `col`
  let self := { self with dataPointers := self.dataPointers.modify col (· ++ [data]) }
  let (manager, blk) := singleFileBlockManagerWrite manager blk
  let self := { self with blocks := self.blocks.set col blk }
  let self := { self with offsets := self.offsets.set col 0 }
  let rowNumber ← sliceAt self.rowNumbers col
  let newRowNumber := rowNumber + (← sliceAt self.tupleCounts col)
  let self := { self with rowNumbers := self.rowNumbers.set col newRowNumber }
  let self := { self with tupleCounts := self.tupleCounts.set col 0 }
  return (manager, self, some blk)

/-- `TableDataWriter_flush_if_full`. The test compares with the size of the disk page. -/
def tableDataWriterFlushIfFull (manager : SingleFileExtentManager) (self : TableDataWriter)
    (col : Nat) (writeSize : UInt64) :
    Except Fault (SingleFileExtentManager × TableDataWriter × Option Block) := do
  if ((← sliceAt self.offsets col) + writeSize).toNat ≥ BLOCK_SIZE then
    tableDataWriterFlushBlock manager self col
  else
    return (manager, self, none)

/-- The last lines of `tableDataWriter_writecolumndata`: `count` tuples more. -/
def addTuples (self : TableDataWriter) (col : Nat) (count : UInt64) :
    Except Fault TableDataWriter := do
  let newTc := (← sliceAt self.tupleCounts col) + count
  return { self with tupleCounts := self.tupleCounts.set col newTc }

/-- `tableDataWriter_writecolumndata`. The column of the chunk is its `count` and the bytes of its
values. -/
def tableDataWriterWritecolumndata (manager : SingleFileExtentManager) (self : TableDataWriter)
    (col : Nat) (values : List UInt8) (count : UInt64) :
    Except Fault (SingleFileExtentManager × TableDataWriter × Option Block) := do
  let size := UInt64.ofNat values.length
  let (manager, self, written) ← tableDataWriterFlushIfFull manager self col size
  let blk ← sliceAt self.blocks col
  let offset ← sliceAt self.offsets col
  let fb ← blk.fb.memcpyTo offset.toNat values
  let self := { self with blocks := self.blocks.set col { blk with fb } }
  let newOffset := offset + size
  let self := { self with offsets := self.offsets.set col newOffset }
  let self ← addTuples self col count
  return (manager, self, written)

/-! ### Runs -/

/-- A call on one column of the writer. -/
inductive WriterOp where
  | writecolumndata (col : Nat) (values : List UInt8) (count : UInt64)
  | addTuples (col : Nat) (count : UInt64)
  | flushBlock (col : Nat)
  | flushIfFull (col : Nat) (writeSize : UInt64)

/-- The column of a call. -/
def WriterOp.column : WriterOp → Nat
  | .writecolumndata col _ _ => col
  | .addTuples col _ => col
  | .flushBlock col => col
  | .flushIfFull col _ => col

/-- The values that a call copies into the block. -/
def WriterOp.values : WriterOp → List UInt8
  | .writecolumndata _ values _ => values
  | _ => []

/-- The tuples that a call adds to its column. -/
def WriterOp.count : WriterOp → UInt64
  | .writecolumndata _ _ count => count
  | .addTuples _ count => count
  | _ => 0

/-- The writer and the block manager that it writes to. -/
structure WriterState where
  manager : SingleFileExtentManager
  writer : TableDataWriter

/-- A writer with zero counters for `columns` columns. -/
def writerStart (manager : SingleFileExtentManager) (columns : Nat) : WriterState :=
  { manager, writer := prepareColumns columns tableDataWriterInit }

/-- One call. The result is the block that the call writes. -/
def writerStep (s : WriterState) : WriterOp → Except Fault (WriterState × Option Block)
  | .writecolumndata col values count => do
      let (manager, writer, written) ←
        tableDataWriterWritecolumndata s.manager s.writer col values count
      return ({ manager, writer }, written)
  | .addTuples col count => do
      let writer ← addTuples s.writer col count
      return ({ s with writer }, none)
  | .flushBlock col => do
      let (manager, writer, written) ← tableDataWriterFlushBlock s.manager s.writer col
      return ({ manager, writer }, written)
  | .flushIfFull col writeSize => do
      let (manager, writer, written) ←
        tableDataWriterFlushIfFull s.manager s.writer col writeSize
      return ({ manager, writer }, written)

end MustDb.Storage
