import MustDb.Storage.MetaBlock

/-!
# `MustDb.Storage.Database`: checkpoint headers, creation and reopening

The two alternating database headers of `src/storage/table/storage.c`: `write_header` stores the
free list in a metadata stream and a `DatabaseHeader` in the inactive header slot;
`create_new_database` lays out a fresh file, or adopts the header with the greater iteration.

`write_header` is written in two parts. `writeHeaderPrepare` is the code before the header page
is written, and gives the page and its offset. `writeHeaderFinish` is the code after it.
-/

set_option autoImplicit false

namespace MustDb.Storage

open MustDb.Lib

/-- `MAGIC_NUMBER` -/
def MAGIC_NUMBER : UInt64 := 0x5645434442

/-- `VERSION_NUMBER` -/
def VERSION_NUMBER : UInt64 := 1

/-- `MasterHeader` -/
structure MasterHeader where
  magic : UInt64
  version : UInt64
  flags : List UInt64
  deriving DecidableEq, Repr

/-- `DatabaseHeader` -/
structure DatabaseHeader where
  iteration : UInt64
  metaBlock : BlockId
  freeListId : BlockId
  blockCount : UInt64
  deriving DecidableEq, Repr

/-- A `MasterHeader` in memory. -/
def MasterHeader.bytes (header : MasterHeader) : List UInt8 :=
  u64Bytes header.magic ++ u64Bytes header.version ++ header.flags.flatMap u64Bytes

/-- The `version` field of the `MasterHeader` at the start of `bytes`. -/
def MasterHeader.versionOf (bytes : List UInt8) : UInt64 := u64OfBytes (bytes.drop 8)

/-- A `DatabaseHeader` in memory. -/
def DatabaseHeader.bytes (header : DatabaseHeader) : List UInt8 :=
  u64Bytes header.iteration ++ (u64Bytes header.metaBlock ++
    (u64Bytes header.freeListId ++ u64Bytes header.blockCount))

/-- The `DatabaseHeader` at the start of `bytes`. -/
def DatabaseHeader.ofBytes (bytes : List UInt8) : DatabaseHeader where
  iteration := u64OfBytes bytes
  metaBlock := u64OfBytes (bytes.drop 8)
  freeListId := u64OfBytes (bytes.drop 16)
  blockCount := u64OfBytes (bytes.drop 24)

/-- The header page of the `MasterHeader`. -/
abbrev MASTER_SLOT : Fin 3 := 0

/-- The first header page of a `DatabaseHeader`. -/
abbrev FIRST_SLOT : Fin 3 := 1

/-- The second header page of a `DatabaseHeader`. -/
abbrev SECOND_SLOT : Fin 3 := 2

/-- The file offset of header page `slot`. -/
def headerLocation (slot : Fin 3) : UInt64 := UInt64.ofNat (HEADER_SIZE * slot)

/-- The slot that `write_header` writes: not the active one. -/
def inactiveSlot (activeHeader : UInt8) : Fin 3 :=
  if activeHeader = 1 then FIRST_SLOT else SECOND_SLOT

/-- `SERIALIZER_WRITE_TYPE` over each entry of `used_blocks`, in order. -/
def writeBlockIds (fuel : Nat) : List BlockId → SingleFileExtentManager → MetaBlockWriter →
    Except Fault (SingleFileExtentManager × MetaBlockWriter)
  | [], manager, writer => .ok (manager, writer)
  | blockId :: blockIds, manager, writer => do
      let (manager, writer) ← metaBlockWriterWriteData fuel manager writer (u64Bytes blockId)
      writeBlockIds fuel blockIds manager writer

/-- The free-list stream of `write_header`: the entries of `used_blocks` behind their number. The
result is the manager after the stream is flushed, and the id of its first block. -/
def writeFreeList (fuel : Nat) (manager : SingleFileExtentManager) :
    Except Fault (SingleFileExtentManager × BlockId) := do
  let (manager, writer) := metaBlockWriterInit manager
  let freeListId := writer.block.id
  let (manager, writer) ← metaBlockWriterWriteData fuel manager writer
    (u64Bytes (UInt64.ofNat manager.usedBlocks.length))
  let (manager, writer) ← writeBlockIds fuel manager.usedBlocks manager writer
  return (metaBlockWriterDeinit manager writer, freeListId)

/-- The state of `write_header` at the write of the header page: the header, and the page that holds
it. -/
structure HeaderWrite where
  manager : SingleFileExtentManager
  header : DatabaseHeader
  page : FileBuffer HEADER_PAYLOAD

/-- The file offset of the header page that `write_header` writes. -/
def HeaderWrite.location (w : HeaderWrite) : UInt64 :=
  headerLocation (inactiveSlot w.manager.activeHeader)

/-- `write_header` up to the write of the header page. -/
def writeHeaderPrepare (fuel : Nat) (manager : SingleFileExtentManager)
    (header : DatabaseHeader) : Except Fault HeaderWrite := do
  let manager := { manager with iterationCount := manager.iterationCount + 1 }
  let header := { header with iteration := manager.iterationCount }
  let header := { header with blockCount := manager.maxBlock }
  let (manager, header) ←
    if manager.usedBlocks.length > 0 then do
      let (manager, freeListId) ← writeFreeList fuel manager
      pure (manager, { header with freeListId })
    else pure (manager, { header with freeListId := INVALID_BLOCK })
  let page ← (fileBufferCreate HEADER_PAYLOAD).memcpyTo 0 header.bytes
  return { manager, header, page }

/-- `write_header` after the write of the header page. `file_sync` only flushes. -/
def writeHeaderFinish (manager : SingleFileExtentManager) (header : DatabaseHeader) :
    SingleFileExtentManager :=
  { manager with
    activeHeader := 1 - manager.activeHeader
    metaBlock := header.metaBlock
    freeList := manager.usedBlocks
    usedBlocks := [] }

/-- `single_file_block_manager_write_header`. The status of the header write is ignored. -/
def singleFileBlockManagerWriteHeader (fuel : Nat) (manager : SingleFileExtentManager)
    (header : DatabaseHeader) : Except Fault SingleFileExtentManager := do
  let w ← writeHeaderPrepare fuel manager header
  let (_, fileHandle, _) := fileBufferWrite w.page w.manager.fileHandle w.location
  return writeHeaderFinish { w.manager with fileHandle } w.header

/-- The loop of `initialize_manager`: `n` ids from the free-list stream to the free list. -/
def readBlockIds (fuel : Nat) : Nat → SingleFileExtentManager → MetaBlockReader →
    Except Fault (SingleFileExtentManager × MetaBlockReader)
  | 0, manager, reader => .ok (manager, reader)
  | n + 1, manager, reader => do
      let (manager, reader, bytes) ← metaBlockReaderReadData fuel manager reader 8
      let manager := { manager with freeList := manager.freeList ++ [u64OfBytes bytes] }
      readBlockIds fuel n manager reader

/-- `initialize_manager` -/
def initializeManager (fuel : Nat) (manager : SingleFileExtentManager)
    (header : DatabaseHeader) : Except Fault SingleFileExtentManager := do
  let manager ←
    if header.freeListId ≠ INVALID_BLOCK then do
      let (manager, reader) := metaBlockReaderInit manager header.freeListId
      let (manager, reader, bytes) ← metaBlockReaderReadData fuel manager reader 8
      let (manager, _) ← readBlockIds fuel (u64OfBytes bytes).toNat manager reader
      pure manager
    else pure manager
  return { manager with
    metaBlock := header.metaBlock
    iterationCount := header.iteration
    maxBlock := header.blockCount }

/-- The header pages that `create_new_database` reads from an existing file, in one buffer: the
master version and the two database headers. The checksum status of each read is ignored. -/
def readHeaders (handle : FileHandle) : UInt64 × DatabaseHeader × DatabaseHeader :=
  let headerBuffer := fileBufferCreate HEADER_PAYLOAD
  let headerBuffer := (fileBufferRead headerBuffer handle (headerLocation MASTER_SLOT)).1
  let version := MasterHeader.versionOf headerBuffer.buffer
  let headerBuffer := (fileBufferRead headerBuffer handle (headerLocation FIRST_SLOT)).1
  let dbHeader1 := DatabaseHeader.ofBytes headerBuffer.buffer
  let headerBuffer := (fileBufferRead headerBuffer handle (headerLocation SECOND_SLOT)).1
  (version, dbHeader1, DatabaseHeader.ofBytes headerBuffer.buffer)

/-- The header that `create_new_database` adopts, and the `active_header` it sets. -/
def adoptedHeader (handle : FileHandle) : UInt8 × DatabaseHeader :=
  let (_, dbHeader1, dbHeader2) := readHeaders handle
  if dbHeader1.iteration > dbHeader2.iteration then (0, dbHeader1) else (1, dbHeader2)

/-- The manager before `create_new_database` looks at the file. -/
def managerZero (fileHandle : FileHandle) : SingleFileExtentManager where
  activeHeader := 0
  fileHandle
  freeList := []
  usedBlocks := []
  maxBlock := 0
  metaBlock := 0
  iterationCount := 0

/-- The master header of a fresh file. -/
def freshMaster : MasterHeader :=
  { magic := MAGIC_NUMBER, version := VERSION_NUMBER, flags := [0, 0, 0, 0] }

/-- The database headers of a fresh file, with iterations 0 and 1. -/
def freshHeader (iteration : UInt64) : DatabaseHeader :=
  { iteration, metaBlock := INVALID_BLOCK, freeListId := INVALID_BLOCK, blockCount := 0 }

/-- The `create_new` branch of `create_new_database`: the file after the three header pages. -/
def writeFreshHeaders (handle : FileHandle) : Except Fault FileHandle := do
  let headerBuffer ← (fileBufferCreate HEADER_PAYLOAD).memcpyTo 0 freshMaster.bytes
  let handle := (fileBufferWrite headerBuffer handle (headerLocation MASTER_SLOT)).2.1
  let headerBuffer ← (fileBufferCreate HEADER_PAYLOAD).memcpyTo 0 (freshHeader 0).bytes
  let handle := (fileBufferWrite headerBuffer handle (headerLocation FIRST_SLOT)).2.1
  let headerBuffer ← headerBuffer.memcpyTo 0 (freshHeader 1).bytes
  return (fileBufferWrite headerBuffer handle (headerLocation SECOND_SLOT)).2.1

/-- `create_new_database`. The path is the file behind it, and `none` is `NULL`. `fopen` with
`"w+b"` empties the file. The file exists and opens in this model. -/
def createNewDatabase (fuel : Nat) (file : FileHandle) (createNew : Bool) :
    Except Fault (Option SingleFileExtentManager) :=
  if createNew then do
    let fileHandle ← writeFreshHeaders { file with content := [] }
    return some { managerZero fileHandle with
      activeHeader := 1
      maxBlock := 0
      metaBlock := INVALID_BLOCK
      iterationCount := 1 }
  else do
    if (readHeaders file).1 ≠ VERSION_NUMBER then
      return none
    let (activeHeader, header) := adoptedHeader file
    let manager ← initializeManager fuel { managerZero file with activeHeader } header
    return some manager

end MustDb.Storage
