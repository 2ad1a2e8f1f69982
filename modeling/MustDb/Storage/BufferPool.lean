import Mathlib.Data.UInt
import MustDb.Fault
import MustDb.Lib.While

/-!
# `MustDb.Storage.BufferPool`: the buckets of the buffer pool

`buffer_pool_hash_size` and `buffer_pool_hash` of `src/storage/buffer/pool.c`: how many buckets the
page table of a pool has, and which of them a block belongs to.
-/

set_option autoImplicit false

namespace MustDb.Storage

open MustDb.Lib

/-- `BUFFER_POOL_HASH_MIN` -/
def BUFFER_POOL_HASH_MIN : UInt64 := 16

/-- The part of `BufferPool` that the hash reads. -/
structure BufferPool where
  hashSize : UInt64

/-- `buffer_pool_hash_size`, with at most `fuel` turns of its loop. -/
def bufferPoolHashSize (fuel : Nat) (numPages : UInt64) : Except Fault UInt64 :=
  whileLoop .outOfFuel (fun n => decide (n < numPages * 2)) (fun n => .ok (n <<< 1)) fuel
    BUFFER_POOL_HASH_MIN

/-- `buffer_pool_hash` -/
def bufferPoolHash (pool : BufferPool) (blockId : UInt64) : UInt64 :=
  blockId &&& (pool.hashSize - 1)

end MustDb.Storage
