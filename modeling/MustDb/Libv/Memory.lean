import Mathlib.Data.UInt
import MustDb.Fault

/-!
# `MustDb.Libv.Memory`: the allocator of the C library

What the modelled code relies on of `malloc`, `realloc` and `free`. A `Pointer` keeps apart `NULL`,
a block that is there, and a block that has been freed. A call on a freed block is
`Fault.useAfterFree`.

`malloc` and `realloc` fail for more than `PTRDIFF_MAX` bytes, and for an answer `none`. A new byte
has any value, so an answer `some fresh` has a byte for each offset. A `realloc` that fails leaves
the old block. One case is different: a `realloc` of a block to no bytes frees the block, and it
returns `NULL` as well.
-/

set_option autoImplicit false

namespace MustDb.Libv

/-- What a pointer to the memory of the C library points to. -/
inductive Pointer where
  | null
  | live
  /-- The memory has been freed. -/
  | dangling
  deriving DecidableEq, Repr

/-- `free` -/
def Pointer.free : Pointer → Except Fault Pointer
  | .null => .ok .null
  | .live => .ok .dangling
  | .dangling => .error .useAfterFree

/-- The largest object of the C library. -/
def PTRDIFF_MAX : UInt64 := 0x7FFFFFFFFFFFFFFF

/-- What the allocator does with a request: `none` is `NULL`, and a new block has these bytes. -/
abbrev AllocAnswer := Option (Nat → UInt8)

/-- The block of `size` bytes that keeps the bytes `data` of the old one; without an old one, the
block of `malloc(size)`. -/
def reallocBytes (data : List UInt8) (size : UInt64) (answer : AllocAnswer) :
    Option (List UInt8) :=
  if PTRDIFF_MAX < size then none
  else
    answer.map fun fresh =>
      data.take size.toNat ++
        (List.range' data.length (size.toNat - data.length)).map fresh

/-- What `realloc` returns, with what it does to the old block. -/
inductive ReallocResult where
  /-- A block with these bytes, in place of the old one. -/
  | moved (bytes : List UInt8)
  /-- `NULL`. The old block is as it was. -/
  | refused
  /-- `NULL`. The old block has been freed. -/
  | freed
  deriving DecidableEq, Repr

/-- The block that is there after a request, or `NULL`. -/
def ReallocResult.ofBytes : Option (List UInt8) → ReallocResult
  | some bytes => .moved bytes
  | none => .refused

/-- `realloc(pointer, size)`, where the block at the pointer has the bytes `data`. -/
def realloc (pointer : Pointer) (data : List UInt8) (size : UInt64) (answer : AllocAnswer) :
    Except Fault ReallocResult :=
  match pointer with
  | .null => .ok (.ofBytes (reallocBytes [] size answer))
  | .live => .ok (if size = 0 then .freed else .ofBytes (reallocBytes data size answer))
  | .dangling => .error .useAfterFree

end MustDb.Libv
