import Mathlib.Data.UInt
import MustDb.Catalog.Catalog
import MustDb.Lib.Cells

/-!
# `MustDb.Utils.Operator`: the copy of a column

`generic_copy_loop` and `copy_to_storage` of `src/src/utils/operator.c`, with the column vectors of
`src/src/utils/vector_types.c`. The target is an offset in a buffer that holds nothing of the
source. Offsets and indices are computed in `usize`, so they wrap as in the source, and a `memcpy`
or `memset` that leaves a buffer is a fault. So is a read behind the end of the selection vector or
of the null mask.
-/

set_option autoImplicit false

namespace MustDb.Utils

open MustDb.Lib
open MustDb.Catalog (TypeID)

/-- `get_typeid_size` -/
def getTypeidSize : TypeID → UInt64
  | .int8 => 1
  | .int16 => 2
  | .int32 => 4
  | .int64 => 8
  | .float32 => 4
  | .float64 => 8
  | .invalid => 0

/-- `MustDbVector`: the elements are in memory. -/
structure MustDbVector where
  type : TypeID
  count : UInt64
  data : List UInt8
  count_le : count.toNat * (getTypeidSize type).toNat ≤ data.length
  data_lt : data.length < 2 ^ 64

/-- The `size` bytes at an offset of a buffer. -/
def loadBytes (buf : List UInt8) (src size : UInt64) : Except Fault (List UInt8) :=
  if src.toNat + size.toNat ≤ buf.length then .ok (pread buf src.toNat size.toNat)
  else .error .outOfBounds

/-- A store at an offset of a buffer. -/
def storeBytes (buf : List UInt8) (dst : UInt64) (bytes : List UInt8) :
    Except Fault (List UInt8) :=
  if dst.toNat + bytes.length ≤ buf.length then .ok (pwrite buf dst.toNat bytes)
  else .error .outOfBounds

/-- `array[i]` -/
def readEntry {α : Type} (array : List α) (i : UInt64) : Except Fault α :=
  match array[i.toNat]? with
  | some a => .ok a
  | none => .error .outOfBounds

/-- `sel_vector ? sel_vector[k] : k` -/
def selectedIndex (selVector : Option (List UInt64)) (k : UInt64) : Except Fault UInt64 :=
  match selVector with
  | some sel => readEntry sel k
  | none => .ok k

/-- `for (usize k = offset; k < offset + count; k++)`, with the turns that are left. -/
def forEach (body : UInt64 → List UInt8 → Except Fault (List UInt8)) :
    Nat → UInt64 → List UInt8 → Except Fault (List UInt8)
  | 0, _, buf => .ok buf
  | turns + 1, k, buf => do
      let buf ← body k buf
      forEach body turns (k + 1) buf

/-- The number of turns of this loop. -/
def turnsOf (offset count : UInt64) : Nat := (offset + count).toNat - offset.toNat

/-- `copy_fn` -/
def copyFn (src buf : List UInt8) (dst offset count elemSize : UInt64)
    (selVector : Option (List UInt64)) : Except Fault (List UInt8) :=
  forEach (fun k buf => do
    let i ← selectedIndex selVector k
    let bytes ← loadBytes src (i * elemSize) elemSize
    storeBytes buf (dst + (k - offset) * elemSize) bytes)
    (turnsOf offset count) offset buf

/-- `copy_fn_set_null` -/
def copyFnSetNull (src buf : List UInt8) (dst offset count elemSize : UInt64)
    (selVector : Option (List UInt64)) (nullmask : Option (List UInt8)) :
    Except Fault (List UInt8) :=
  match nullmask with
  | none => copyFn src buf dst offset count elemSize selVector
  | some nullmask =>
      forEach (fun k buf => do
        let i ← selectedIndex selVector k
        if (← readEntry nullmask i) ≠ 0 then
          storeBytes buf (dst + (k - offset) * elemSize) (List.replicate elemSize.toNat 0)
        else
          let bytes ← loadBytes src (i * elemSize) elemSize
          storeBytes buf (dst + (k - offset) * elemSize) bytes)
        (turnsOf offset count) offset buf

/-- An `element_count` of 0 stands for all elements. -/
def copyCount (source : MustDbVector) (elementCount : UInt64) : UInt64 :=
  if elementCount = 0 then source.count else elementCount

/-- `generic_copy_loop` -/
def genericCopyLoop (source : MustDbVector) (buf : List UInt8)
    (target offset elementCount : UInt64) (setNull : Bool) (selVector : Option (List UInt64))
    (nullmask : Option (List UInt8)) : Except Fault (List UInt8) :=
  if source.count = 0 then .ok buf
  else
    let elementCount := copyCount source elementCount
    if ¬ offset + elementCount ≤ source.count then .error .assertFailed
    else
      let elemSize := getTypeidSize source.type
      if setNull then
        copyFnSetNull source.data buf target offset elementCount elemSize selVector nullmask
      else copyFn source.data buf target offset elementCount elemSize selVector

/-- `copy_to_storage` -/
def copyToStorage (source : MustDbVector) (buf : List UInt8)
    (target offset elementCount : UInt64) : Except Fault (List UInt8) :=
  genericCopyLoop source buf target offset elementCount false none none

end MustDb.Utils
