import MustDb.Lib.Codec
import MustDb.Lib.CString
import MustDb.Lib.Malloc
import MustDb.Storage.MetaBlock

/-!
# `MustDb.Storage.Serializer`: integers and strings in a stream

The `SERIALIZER_WRITE_` and `DESERIALIZER_READ_` macros of `src/include/storage.h`. They write
through `GENERIC_DISPATCH`, which knows one writer and one reader: `metaBlockWriter_write_data` and
`metaBlockReader_read_data` (`metaBlockSerializer` and `metaBlockDeserializer`). The macros do not
depend on what is behind the dispatch, so here they take any sink and any source.

A string is its length in eight bytes and then its characters, without the terminator.
`DESERIALIZER_READ_STRING` allocates the copy that it returns, and does not check the result. So a
client that reads is a reader together with the outcomes of its next allocations.
-/

set_option autoImplicit false

namespace MustDb.Storage

open MustDb.Lib

/-- What `SERIALIZER_WRITE` dispatches to. -/
abbrev Serializer (σ : Type) := Sink σ Fault

/-- What `DESERIALIZER_READ` dispatches to. -/
abbrev Deserializer (ρ : Type) := Source ρ Fault

/-- A reader, and the outcomes of the next allocations of the function that reads. -/
structure Client (ρ : Type) where
  reader : ρ
  outcomes : MallocOutcomes

/-- `GENERIC_DISPATCH` to `metaBlockWriter_write_data`. -/
def metaBlockSerializer (fuel : Nat) :
    Serializer (SingleFileExtentManager × MetaBlockWriter) where
  write s buffer := metaBlockWriterWriteData fuel s.1 s.2 buffer

/-- `GENERIC_DISPATCH` to `metaBlockReader_read_data`. -/
def metaBlockDeserializer (fuel : Nat) :
    Deserializer (SingleFileExtentManager × MetaBlockReader) where
  read r size := do
    let (manager, reader, bytes) ← metaBlockReaderReadData fuel r.1 r.2 size
    return ((manager, reader), bytes)

variable {σ ρ : Type}

/-! ### Writing -/

/-- `SERIALIZER_WRITE_TYPE`, for an integer of `size` bytes. -/
def serializerWriteType (sw : Serializer σ) (size value : Nat) (s : σ) : Except Fault σ :=
  sw.write s (leBytes size value)

/-- `SERIALIZER_WRITE_U32` -/
def serializerWriteU32 (sw : Serializer σ) (value : UInt32) (s : σ) : Except Fault σ :=
  serializerWriteType sw 4 value.toNat s

/-- `SERIALIZER_WRITE_U8` -/
def serializerWriteU8 (sw : Serializer σ) (value : UInt8) (s : σ) : Except Fault σ :=
  serializerWriteType sw 1 value.toNat s

/-- `SERIALIZER_WRITE_I16`: the two's complement of the value. -/
def serializerWriteI16 (sw : Serializer σ) (value : Int16) (s : σ) : Except Fault σ :=
  serializerWriteType sw 2 value.toUInt16.toNat s

/-- `SERIALIZER_WRITE_STRING` -/
def serializerWriteString (sw : Serializer σ) (str : CString) (s : σ) : Except Fault σ := do
  let s ← serializerWriteType sw 8 str.bytes.length s
  sw.write s str.bytes

/-! ### Reading -/

/-- `DESERIALIZER_READ` -/
def deserializerRead (dr : Deserializer ρ) (size : Nat) (c : Client ρ) :
    Except Fault (Client ρ × List UInt8) := do
  let (reader, bytes) ← dr.read c.reader size
  return ({ c with reader }, bytes)

/-- `DESERIALIZER_READ_TYPE`, for an integer of `size` bytes. -/
def deserializerReadType (dr : Deserializer ρ) (size : Nat) (c : Client ρ) :
    Except Fault (Client ρ × Nat) := do
  let (c, bytes) ← deserializerRead dr size c
  return (c, leNat bytes)

/-- `DESERIALIZER_READ_U32` -/
def deserializerReadU32 (dr : Deserializer ρ) (c : Client ρ) :
    Except Fault (Client ρ × UInt32) := do
  let (c, value) ← deserializerReadType dr 4 c
  return (c, UInt32.ofNat value)

/-- `DESERIALIZER_READ_U8` -/
def deserializerReadU8 (dr : Deserializer ρ) (c : Client ρ) : Except Fault (Client ρ × UInt8) := do
  let (c, value) ← deserializerReadType dr 1 c
  return (c, UInt8.ofNat value)

/-- `DESERIALIZER_READ_I16` -/
def deserializerReadI16 (dr : Deserializer ρ) (c : Client ρ) : Except Fault (Client ρ × Int16) := do
  let (c, value) ← deserializerReadType dr 2 c
  return (c, (UInt16.ofNat value).toInt16)

/-- The characters of `DESERIALIZER_READ_STRING`: `malloc(len + 1)`, and a read of `len` bytes. -/
def deserializerReadChars (dr : Deserializer ρ) (len : Nat) (c : Client ρ) :
    Except Fault (Client ρ × CString) := do
  -- `len + 1` wraps around for the greatest length, and the string has no memory
  if 2 ^ 64 ≤ len + 1 then
    throw .outOfBounds
  let (allocated, outcomes) := malloc c.outcomes
  if ¬ allocated then
    throw .nullPointer
  let (c, bytes) ← deserializerRead dr len { c with outcomes }
  return (c, CString.ofBytes bytes)

/-- `DESERIALIZER_READ_STRING` -/
def deserializerReadString (dr : Deserializer ρ) (c : Client ρ) :
    Except Fault (Client ρ × CString) := do
  let (c, len) ← deserializerReadType dr 8 c
  deserializerReadChars dr len c

end MustDb.Storage
