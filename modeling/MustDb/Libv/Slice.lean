import MustDb.Lib.Cells
import MustDb.Lib.Except
import MustDb.Libv.Memory

/-!
# `MustDb.Libv.Slice`: the growable array

`Slice` of `libv/src/slice.c`. The elements are byte strings of one size in a buffer from `malloc`.
`pointer` is what the field `data` of the source points to, and `data` has the bytes of the buffer:
none when there is no buffer. A pointer into the buffer is its offset, computed in `usize`, so it
wraps as in the source. `memcpy`, `memmove` and `memset` check their range against the buffer, and a
touch behind its end is `Fault.outOfBounds`.

The growth calls `realloc`, so a request whose product is `0` frees the buffer
(`MustDb.Libv.Memory`). The slice keeps the pointer to it, and the next growth is a use of the freed
buffer. The product is `0` when the element size is: `slice_create` refuses this size, and
`slice_init` takes it.

An element that a caller passes is `none` for `NULL`, else the bytes at the pointer. The element is
not inside the buffer of the slice, and the pointer to the slice is never `NULL` here.
-/

set_option autoImplicit false

namespace MustDb.Libv

open MustDb.Lib

/-- `Slice` -/
structure Slice where
  pointer : Pointer
  data : List UInt8
  size : UInt64
  capacity : UInt64
  elementSize : UInt64
  deriving DecidableEq, Repr

def SLICE_DEFAULT_CAPACITY : UInt64 := 16

def SLICE_GROWTH_FACTOR : UInt64 := 2

/-! ### Access to the buffer -/

/-- `slice_get_ptr`: the offset of the pointer. -/
def sliceGetPtr (slice : Slice) (index : UInt64) : UInt64 := index * slice.elementSize

/-- The `size` bytes at a pointer into the buffer. -/
def sliceLoad (slice : Slice) (src size : UInt64) : Except Fault (List UInt8) :=
  if src.toNat + size.toNat ≤ slice.data.length then
    .ok (pread slice.data src.toNat size.toNat)
  else
    .error .outOfBounds

/-- `memcpy` or `memset` to a pointer into the buffer. -/
def sliceStore (slice : Slice) (dest : UInt64) (bytes : List UInt8) : Except Fault Slice :=
  if dest.toNat + bytes.length ≤ slice.data.length then
    .ok { slice with data := pwrite slice.data dest.toNat bytes }
  else
    .error .outOfBounds

/-- `memmove` between two pointers into the buffer. -/
def sliceMove (slice : Slice) (dest src size : UInt64) : Except Fault Slice := do
  let bytes ← sliceLoad slice src size
  sliceStore slice dest bytes

/-- The `element_size` bytes at a pointer of the caller. -/
def elementBytes (slice : Slice) (element : List UInt8) : Except Fault (List UInt8) :=
  if slice.elementSize.toNat ≤ element.length then
    .ok (element.take slice.elementSize.toNat)
  else
    .error .outOfBounds

/-- The copy of the element `index` to `out`, which is `NULL` when `out` is `false`. -/
def sliceCopyOut (slice : Slice) (index : UInt64) (out : Bool) :
    Except Fault (Option (List UInt8)) :=
  if out then some <$> sliceLoad slice (sliceGetPtr slice index) slice.elementSize else .ok none

/-! ### Creation and growth -/

/-- The capacity of a new slice: `0` stands for the default. -/
def sliceInitialCapacity (initialCapacity : UInt64) : UInt64 :=
  if initialCapacity = 0 then SLICE_DEFAULT_CAPACITY else initialCapacity

/-- `slice_init`. A failed `malloc` leaves `data` as `NULL`, and the other fields as they were. -/
def sliceInit (slice : Slice) (elementSize initialCapacity : UInt64) (answer : AllocAnswer) :
    Slice × Int :=
  let initialCapacity := sliceInitialCapacity initialCapacity
  match reallocBytes [] (elementSize * initialCapacity) answer with
  | none => ({ slice with pointer := .null, data := [] }, -1)
  | some data =>
      ({ pointer := .live, data, size := 0, capacity := initialCapacity, elementSize }, 0)

/-- `slice_create`. `header` is the result of the `malloc` for the `Slice`, which has any contents;
the result `none` is `NULL`. -/
def sliceCreate (elementSize initialCapacity : UInt64) (header : Option Slice)
    (answer : AllocAnswer) : Option Slice :=
  if elementSize = 0 then none
  else
    match header with
    | none => none
    | some slice =>
        let (slice, code) := sliceInit slice elementSize initialCapacity answer
        if code ≠ 0 then none else some slice

/-- `new_capacity` in `slice_grow` -/
def sliceGrownCapacity (slice : Slice) : UInt64 :=
  if slice.capacity > 0 then slice.capacity * SLICE_GROWTH_FACTOR else SLICE_DEFAULT_CAPACITY

/-- The `realloc` of `slice_grow` and `slice_reserve` to `new_capacity` elements. After a `NULL` the
fields of the slice are as they were, also the pointer to a buffer that has been freed. -/
def sliceReallocate (slice : Slice) (newCapacity : UInt64) (answer : AllocAnswer) :
    Except Fault (Slice × Int) := do
  match ← realloc slice.pointer slice.data (slice.elementSize * newCapacity) answer with
  | .moved data => return ({ slice with pointer := .live, data, capacity := newCapacity }, 0)
  | .refused => return (slice, -1)
  | .freed => return ({ slice with pointer := .dangling, data := [] }, -1)

/-- `slice_grow` -/
def sliceGrow (slice : Slice) (answer : AllocAnswer) : Except Fault (Slice × Int) :=
  sliceReallocate slice (sliceGrownCapacity slice) answer

/-- The growth in `slice_push_back` and in `slice_insert`, when there is no free element. -/
def sliceMakeRoom (slice : Slice) (answer : AllocAnswer) : Except Fault (Slice × Int) :=
  if slice.size ≥ slice.capacity then sliceGrow slice answer else .ok (slice, 0)

/-- `slice_reserve` -/
def sliceReserve (slice : Slice) (newCapacity : UInt64) (answer : AllocAnswer) :
    Except Fault (Slice × Int) :=
  if newCapacity ≤ slice.capacity then .ok (slice, 0)
  else sliceReallocate slice newCapacity answer

/-! ### Changes -/

/-- `slice_push_back` -/
def slicePushBack (slice : Slice) (element : Option (List UInt8)) (answer : AllocAnswer) :
    Except Fault (Slice × Int) :=
  match element with
  | none => .ok (slice, -1)
  | some element => do
      let (slice, code) ← sliceMakeRoom slice answer
      if code ≠ 0 then return (slice, -1)
      else
        let bytes ← elementBytes slice element
        let slice ← sliceStore slice (sliceGetPtr slice slice.size) bytes
        return ({ slice with size := slice.size + 1 }, 0)

/-- `slice_pop_back`. The result has what is copied to `out`. -/
def slicePopBack (slice : Slice) (out : Bool) :
    Except Fault (Slice × Int × Option (List UInt8)) :=
  if slice.size = 0 then .ok (slice, -1, none)
  else do
    let slice := { slice with size := slice.size - 1 }
    let removed ← sliceCopyOut slice slice.size out
    return (slice, 0, removed)

/-- `slice_set` -/
def sliceSet (slice : Slice) (index : UInt64) (element : Option (List UInt8)) :
    Except Fault (Slice × Int) :=
  match element with
  | none => .ok (slice, -1)
  | some element =>
      if index ≥ slice.size then .ok (slice, -1)
      else do
        let bytes ← elementBytes slice element
        let slice ← sliceStore slice (sliceGetPtr slice index) bytes
        return (slice, 0)

/-- `slice_clear` -/
def sliceClear (slice : Slice) : Slice := { slice with size := 0 }

/-- What `slice_resize` stores in a new element: the default value, or zeros. -/
def sliceDefault (slice : Slice) (defaultValue : Option (List UInt8)) :
    Except Fault (List UInt8) :=
  match defaultValue with
  | some value => elementBytes slice value
  | none => .ok (List.replicate slice.elementSize.toNat 0)

/-- The loop of `slice_resize`, from the element `i` on. The number is that of the turns that
`i < new_size` leaves. -/
def sliceFill (defaultValue : Option (List UInt8)) :
    Nat → UInt64 → Slice → Except Fault Slice
  | 0, _, slice => .ok slice
  | turns + 1, i, slice => do
      let bytes ← sliceDefault slice defaultValue
      let slice ← sliceStore slice (sliceGetPtr slice i) bytes
      sliceFill defaultValue turns (i + 1) slice

/-- `slice_resize` -/
def sliceResize (slice : Slice) (newSize : UInt64) (defaultValue : Option (List UInt8))
    (answer : AllocAnswer) : Except Fault (Slice × Int) := do
  let (slice, code) ←
    (if newSize > slice.capacity then sliceReserve slice newSize answer else .ok (slice, 0))
  if code ≠ 0 then return (slice, -1)
  else
    let slice ← sliceFill defaultValue (newSize.toNat - slice.size.toNat) slice.size slice
    return ({ slice with size := newSize }, 0)

/-- The move in `slice_insert` that makes room for the new element. -/
def sliceShiftUp (slice : Slice) (index : UInt64) : Except Fault Slice :=
  if index < slice.size then
    sliceMove slice (sliceGetPtr slice (index + 1)) (sliceGetPtr slice index)
      ((slice.size - index) * slice.elementSize)
  else .ok slice

/-- `slice_insert` -/
def sliceInsert (slice : Slice) (index : UInt64) (element : Option (List UInt8))
    (answer : AllocAnswer) : Except Fault (Slice × Int) :=
  match element with
  | none => .ok (slice, -1)
  | some element =>
      if index > slice.size then .ok (slice, -1)
      else do
        let (slice, code) ← sliceMakeRoom slice answer
        if code ≠ 0 then return (slice, -1)
        else
          let slice ← sliceShiftUp slice index
          let bytes ← elementBytes slice element
          let slice ← sliceStore slice (sliceGetPtr slice index) bytes
          return ({ slice with size := slice.size + 1 }, 0)

/-- The move in `slice_erase` over the removed element. -/
def sliceShiftDown (slice : Slice) (index : UInt64) : Except Fault Slice :=
  if index < slice.size - 1 then
    sliceMove slice (sliceGetPtr slice index) (sliceGetPtr slice (index + 1))
      ((slice.size - index - 1) * slice.elementSize)
  else .ok slice

/-- `slice_erase`. The result has what is copied to `out`. -/
def sliceErase (slice : Slice) (index : UInt64) (out : Bool) :
    Except Fault (Slice × Int × Option (List UInt8)) :=
  if index ≥ slice.size then .ok (slice, -1, none)
  else do
    let removed ← sliceCopyOut slice index out
    let slice ← sliceShiftDown slice index
    return ({ slice with size := slice.size - 1 }, 0, removed)

/-! ### Reads -/

/-- `slice_get` -/
def sliceGet (slice : Slice) (index : UInt64) : Option UInt64 :=
  if index ≥ slice.size then none else some (sliceGetPtr slice index)

/-- `slice_get_copy`. The result has what is copied to `out`, which is `NULL` when `out` is
`false`. -/
def sliceGetCopy (slice : Slice) (index : UInt64) (out : Bool) :
    Except Fault (Int × Option (List UInt8)) :=
  if !out || index ≥ slice.size then .ok (-1, none)
  else do
    let bytes ← sliceLoad slice (sliceGetPtr slice index) slice.elementSize
    return (0, some bytes)

/-- `slice_front` -/
def sliceFront (slice : Slice) : Option UInt64 := if slice.size = 0 then none else some 0

/-- `slice_back` -/
def sliceBack (slice : Slice) : Option UInt64 :=
  if slice.size = 0 then none else some (sliceGetPtr slice (slice.size - 1))

/-- The loop of `slice_find`, from the element `i` on. -/
def sliceFindFrom (slice : Slice) (element : List UInt8) (compare : List UInt8 → List UInt8 → Int) :
    Nat → UInt64 → Except Fault Int
  | 0, _ => .ok (-1)
  | turns + 1, i => do
      let current ← sliceLoad slice (sliceGetPtr slice i) slice.elementSize
      if compare current element = 0 then
        -- the cast to `ssize_t`
        return i.toInt64.toInt
      else
        sliceFindFrom slice element compare turns (i + 1)

/-- `slice_find` -/
def sliceFind (slice : Slice) (element : Option (List UInt8))
    (compare : Option (List UInt8 → List UInt8 → Int)) : Except Fault Int :=
  match element, compare with
  | some element, some compare => sliceFindFrom slice element compare slice.size.toNat 0
  | _, _ => .ok (-1)

/-! ### The iterator -/

/-- `SliceIterator` -/
structure SliceIterator where
  slice : Slice
  index : UInt64

/-- `slice_iter_init`: the index is before the first one. -/
def sliceIterInit (slice : Slice) : SliceIterator := { slice, index := -1 }

/-- `slice_iter_next` -/
def sliceIterNext (iter : SliceIterator) : SliceIterator × Bool :=
  let iter := { iter with index := iter.index + 1 }
  (iter, iter.index < iter.slice.size)

/-- `slice_iter_get` -/
def sliceIterGet (iter : SliceIterator) : Option UInt64 :=
  if iter.index ≥ iter.slice.size then none else some (sliceGetPtr iter.slice iter.index)

/-- The loop of `SLICE_FOREACH`. Its body reads the element at the pointer. -/
def sliceForeachFrom {σ : Type} (body : σ → List UInt8 → Except Fault σ) :
    Nat → SliceIterator → σ → Except Fault σ
  | 0, _, _ => .error .outOfFuel
  | fuel + 1, iter, s =>
      match sliceIterNext iter with
      | (iter, true) =>
          match sliceIterGet iter with
          | some entry => do
              let bytes ← sliceLoad iter.slice entry iter.slice.elementSize
              let s ← body s bytes
              sliceForeachFrom body fuel iter s
          | none => .error .nullPointer
      | (_, false) => .ok s

/-- `SLICE_FOREACH` -/
def sliceForeach {σ : Type} (body : σ → List UInt8 → Except Fault σ) (fuel : Nat) (slice : Slice)
    (s : σ) : Except Fault σ :=
  sliceForeachFrom body fuel (sliceIterInit slice) s

end MustDb.Libv
