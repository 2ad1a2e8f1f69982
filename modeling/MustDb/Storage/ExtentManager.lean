import MustDb.Storage.FileBuffer

/-!
# `MustDb.Storage.ExtentManager`: blocks and the single-file extent manager

`SingleFileExtentManager` of `src/storage/table/storage.c` and the block operations of its vtable:
`read`, `write`, `get_free_block_id` and `create_block`. The two slices of block ids are lists,
oldest entry first, and their growth succeeds in this model, as does the allocation of a block.
The asserts `block->id >= 0` compare an unsigned id with zero, so they never fire.
-/

set_option autoImplicit false

namespace MustDb.Storage

/-- `block_id_t` -/
abbrev BlockId := UInt64

/-- `INVALID_BLOCK`, that is `-1` as a `block_id_t`. -/
def INVALID_BLOCK : BlockId := 0xffffffffffffffff

/-- `BLOCK_START`: the blocks come after the master page and the two database headers. -/
def BLOCK_START : UInt64 := 12288

/-- `Block` -/
structure Block where
  id : BlockId
  fb : FileBuffer BLOCK_PAYLOAD

/-- `SingleFileExtentManager`. The fields that no operation reads, `type` and `file_path`, are left
out. So is `header_buffer`: the functions that use it clear it or create it first, and the model
makes a fresh buffer there. -/
structure SingleFileExtentManager where
  activeHeader : UInt8
  fileHandle : FileHandle
  freeList : List BlockId
  usedBlocks : List BlockId
  maxBlock : BlockId
  metaBlock : BlockId
  iterationCount : UInt64

/-- `Block_create` -/
def blockCreate (id : BlockId) : Block := { id, fb := fileBufferCreate BLOCK_PAYLOAD }

/-- The file offset of a block, in wrapping 64-bit arithmetic. -/
def blockLocation (id : BlockId) : UInt64 := BLOCK_START + id * UInt64.ofNat BLOCK_SIZE

/-- `single_file_block_manager_read`: the block is recorded as one of the old checkpoint, then read.
The status of the read is ignored. -/
def singleFileBlockManagerRead (manager : SingleFileExtentManager) (block : Block) :
    SingleFileExtentManager × Block :=
  let manager := { manager with usedBlocks := manager.usedBlocks ++ [block.id] }
  (manager, { block with
    fb := (fileBufferRead block.fb manager.fileHandle (blockLocation block.id)).1 })

/-- `single_file_block_manager_write`. The status of the write is ignored. -/
def singleFileBlockManagerWrite (manager : SingleFileExtentManager) (block : Block) :
    SingleFileExtentManager × Block :=
  let (fb, fileHandle, _) :=
    fileBufferWrite block.fb manager.fileHandle (blockLocation block.id)
  ({ manager with fileHandle }, { block with fb })

/-- `single_file_block_manager_get_free_block_id` -/
def singleFileBlockManagerGetFreeBlockId (manager : SingleFileExtentManager) :
    SingleFileExtentManager × BlockId :=
  match manager.freeList.getLast? with
  | some blockId => ({ manager with freeList := manager.freeList.dropLast }, blockId)
  | none => ({ manager with maxBlock := manager.maxBlock + 1 }, manager.maxBlock)

/-- `single_file_block_manager_create_block` -/
def singleFileBlockManagerCreateBlock (manager : SingleFileExtentManager) :
    SingleFileExtentManager × Block :=
  let (manager, blockId) := singleFileBlockManagerGetFreeBlockId manager
  (manager, blockCreate blockId)

/-- `single_file_block_manager_get_frist_meta_block` -/
def singleFileBlockManagerGetFristMetaBlock (manager : SingleFileExtentManager) : BlockId :=
  manager.metaBlock

end MustDb.Storage
