import MustDb.Lib.While
import MustDb.Storage.ExtentManager

/-!
# `MustDb.Storage.MetaBlock`: the metadata stream over a chain of blocks

`MetaBlockWriter` and `MetaBlockReader` of `src/storage/table/storage.c`. A stream is a chain of
blocks. The first eight payload bytes of a block link to the next one, the rest are data. The
`while` loops of the two `_data` functions run on fuel (`MustDb.Lib.whileLoop`), and the sum in
their conditions wraps at `2 ^ 64`, as `usize` does.
-/

set_option autoImplicit false

namespace MustDb.Storage

open MustDb.Lib

/-- `sizeof(block_id_t)`: the link in front of the data of a metadata block. -/
def BLOCK_ID_SIZE : Nat := 8

/-- The condition of both loops: `offset + size > block->fb->size` in 64-bit arithmetic. -/
def crossesBlock (offset size : Nat) : Bool := BLOCK_PAYLOAD < (offset + size) % 2 ^ 64

/-- `MetaBlockWriter`, without its pointer to the manager. -/
structure MetaBlockWriter where
  block : Block
  offset : Nat

/-- `MetaBlockWriter_init` -/
def metaBlockWriterInit (manager : SingleFileExtentManager) :
    SingleFileExtentManager × MetaBlockWriter :=
  let (manager, block) := singleFileBlockManagerCreateBlock manager
  (manager, { block, offset := BLOCK_ID_SIZE })

/-- `metaBlockWriter_flush` -/
def metaBlockWriterFlush (manager : SingleFileExtentManager) (writer : MetaBlockWriter) :
    SingleFileExtentManager × MetaBlockWriter :=
  if writer.offset > BLOCK_ID_SIZE then
    let (manager, block) := singleFileBlockManagerWrite manager writer.block
    (manager, { block, offset := BLOCK_ID_SIZE })
  else (manager, writer)

/-- `metaBlockWriter_deinit`, and so `metaBlockWriter_destroy`: the manager after the last flush. -/
def metaBlockWriterDeinit (manager : SingleFileExtentManager) (writer : MetaBlockWriter) :
    SingleFileExtentManager :=
  (metaBlockWriterFlush manager writer).1

/-- The variables of the loop in `metaBlockWriter_write_data`: the local `offset`, and the bytes
still to write. -/
structure WriteData where
  manager : SingleFileExtentManager
  writer : MetaBlockWriter
  offset : Nat
  buffer : List UInt8

/-- The loop condition of `metaBlockWriter_write_data`. -/
def WriteData.crosses (s : WriteData) : Bool := crossesBlock s.offset s.buffer.length

/-- The loop body of `metaBlockWriter_write_data`. -/
def writeDataBody (s : WriteData) : Except Fault WriteData := do
  if ¬ s.offset ≤ BLOCK_PAYLOAD then
    throw .assertFailed
  let copyAmount := BLOCK_PAYLOAD - s.offset
  let fb ← s.writer.block.fb.memcpyTo s.offset (s.buffer.take copyAmount)
  let buffer := s.buffer.drop copyAmount
  let offset := s.offset + copyAmount
  let (manager, newBlockId) := singleFileBlockManagerGetFreeBlockId s.manager
  -- the link to the new block, at the start of the current one
  let fb ← fb.memcpyTo 0 (u64Bytes newBlockId)
  let (manager, writer) :=
    metaBlockWriterFlush manager { block := { s.writer.block with fb }, offset }
  -- the flush resets `writer->offset`, and the local `offset` stays at the end of the block
  let writer := { writer with block := { writer.block with id := newBlockId } }
  return { manager, writer, offset, buffer }

/-- The lines of `metaBlockWriter_write_data` after its loop. -/
def writeDataFinish (s : WriteData) :
    Except Fault (SingleFileExtentManager × MetaBlockWriter) := do
  let fb ← s.writer.block.fb.memcpyTo s.offset s.buffer
  return (s.manager,
    { block := { s.writer.block with fb }, offset := s.offset + s.buffer.length })

/-- `metaBlockWriter_write_data` -/
def metaBlockWriterWriteData (fuel : Nat) (manager : SingleFileExtentManager)
    (writer : MetaBlockWriter) (buffer : List UInt8) :
    Except Fault (SingleFileExtentManager × MetaBlockWriter) := do
  let s ← whileLoop .outOfFuel WriteData.crosses writeDataBody fuel
    { manager, writer, offset := writer.offset, buffer }
  writeDataFinish s

/-- `MetaBlockReader`, without its pointer to the manager. -/
structure MetaBlockReader where
  block : Block
  offset : Nat
  nextBlockId : BlockId

/-- `metaBlockReader_read_new_block` -/
def metaBlockReaderReadNewBlock (manager : SingleFileExtentManager) (reader : MetaBlockReader)
    (blockId : BlockId) : SingleFileExtentManager × MetaBlockReader :=
  let (manager, block) := singleFileBlockManagerRead manager { reader.block with id := blockId }
  (manager, { block, offset := BLOCK_ID_SIZE, nextBlockId := u64OfBytes block.fb.buffer })

/-- `MetaBlockReader_init` -/
def metaBlockReaderInit (manager : SingleFileExtentManager) (blockId : BlockId) :
    SingleFileExtentManager × MetaBlockReader :=
  metaBlockReaderReadNewBlock manager
    { block := blockCreate blockId, offset := 0, nextBlockId := INVALID_BLOCK } blockId

/-- The variables of the loop in `metaBlockReader_read_data`: the bytes still to read and the bytes
copied so far. -/
structure ReadData where
  manager : SingleFileExtentManager
  reader : MetaBlockReader
  readSize : Nat
  buffer : List UInt8

/-- The loop condition of `metaBlockReader_read_data`. -/
def ReadData.crosses (s : ReadData) : Bool := crossesBlock s.reader.offset s.readSize

/-- The loop body of `metaBlockReader_read_data`. -/
def readDataBody (s : ReadData) : Except Fault ReadData := do
  let toRead := BLOCK_PAYLOAD - s.reader.offset
  let bytes ← s.reader.block.fb.memcpyFrom s.reader.offset toRead
  let (manager, reader) := metaBlockReaderReadNewBlock s.manager s.reader s.reader.nextBlockId
  return { manager, reader, readSize := s.readSize - toRead, buffer := s.buffer ++ bytes }

/-- `metaBlockReader_read_data`: the bytes that it copies to the caller's buffer come last. -/
def metaBlockReaderReadData (fuel : Nat) (manager : SingleFileExtentManager)
    (reader : MetaBlockReader) (readSize : Nat) :
    Except Fault (SingleFileExtentManager × MetaBlockReader × List UInt8) := do
  let s ← whileLoop .outOfFuel ReadData.crosses readDataBody fuel
    { manager, reader, readSize, buffer := [] }
  let bytes ← s.reader.block.fb.memcpyFrom s.reader.offset s.readSize
  return (s.manager, { s.reader with offset := s.reader.offset + s.readSize }, s.buffer ++ bytes)

end MustDb.Storage
