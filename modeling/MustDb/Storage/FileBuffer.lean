import Mathlib.Data.UInt
import MustDb.Fault
import MustDb.Lib.ByteFile
import MustDb.Libv.Checksum

/-!
# `MustDb.Storage.FileBuffer`: the file and the page buffer

The bottom of `src/storage/table/storage.c`: `FileHandle` over a `FILE*`, and `FileBuffer`, the
buffer of one disk page with its checksum in the first eight bytes.

A file is its bytes. A positioned read returns what the file has. What a positioned write stores is
up to the operating system: `FileHandle.outcomes` lists the outcomes of the next writes, and a
write past the end of the list is stored in full. A handle with no outcomes left is a file whose
writes all succeed.

A `FileBuffer size` has `size` payload bytes, its `buffer`, behind eight header bytes. Its
`internalBuf` is both together, the bytes that go to the disk.
-/

set_option autoImplicit false

namespace MustDb.Storage

open MustDb.Lib
open MustDb.Libv (checksum)

/-- The 8 KiB disk page of a block. -/
def BLOCK_SIZE : Nat := 8192

/-- The 4 KiB disk page of a header. -/
def HEADER_SIZE : Nat := 4096

/-- The checksum in front of the payload of a page. -/
def FILE_BUFFER_HEADER_SIZE : Nat := 8

/-- What the operating system does with one positioned write. -/
inductive WriteOutcome where
  /-- Every byte is stored. -/
  | full
  /-- Only the first `stored` bytes reach the file. -/
  | short (stored : Nat)
  /-- The seek fails and nothing is stored. -/
  | seekError
  deriving DecidableEq, Repr

/-- An open file: its bytes and the outcomes of its next writes. -/
structure FileHandle where
  content : List UInt8
  outcomes : List WriteOutcome
  deriving DecidableEq, Repr

/-- The outcome of the next write. -/
def FileHandle.nextOutcome (handle : FileHandle) : WriteOutcome := handle.outcomes.head?.getD .full

/-- `fseek` takes a signed 64-bit offset and refuses a negative one. -/
def fseekFails (location : UInt64) : Prop := 2 ^ 63 ≤ location.toNat

instance (location : UInt64) : Decidable (fseekFails location) := by
  unfold fseekFails
  infer_instance

/-- `file_read_at`: the bytes of `buffer` after the read, and the result. The part of the buffer
that the file does not cover keeps its old bytes. -/
def fileReadAt (handle : FileHandle) (buffer : List UInt8) (size : Nat) (location : UInt64) :
    List UInt8 × Int :=
  if fseekFails location then (buffer, -1)
  else
    let got := pread handle.content location.toNat size
    (got ++ buffer.drop got.length, got.length)

/-- `file_write_at`: the handle after the write, and the result. -/
def fileWriteAt (handle : FileHandle) (buffer : List UInt8) (location : UInt64) :
    FileHandle × Int :=
  let outcomes := handle.outcomes.tail
  if fseekFails location then ({ handle with outcomes }, -1)
  else
    match handle.nextOutcome with
    | .full =>
        ({ content := pwrite handle.content location.toNat buffer, outcomes }, buffer.length)
    | .short stored =>
        ({ content := pwrite handle.content location.toNat (buffer.take stored), outcomes },
          (buffer.take stored).length)
    | .seekError => ({ handle with outcomes }, -1)

/-- A page buffer with `size` payload bytes. -/
structure FileBuffer (size : Nat) where
  header : List UInt8
  buffer : List UInt8
  length_header : header.length = FILE_BUFFER_HEADER_SIZE
  length_buffer : buffer.length = size

/-- The payload size of a block page. -/
abbrev BLOCK_PAYLOAD : Nat := BLOCK_SIZE - FILE_BUFFER_HEADER_SIZE

/-- The payload size of a header page. -/
abbrev HEADER_PAYLOAD : Nat := HEADER_SIZE - FILE_BUFFER_HEADER_SIZE

namespace FileBuffer

variable {size : Nat}

/-- The bytes of the disk page, header and payload. -/
def internalBuf (fb : FileBuffer size) : List UInt8 := fb.header ++ fb.buffer

/-- The size of the disk page. -/
def internalSize (_ : FileBuffer size) : Nat := size + FILE_BUFFER_HEADER_SIZE

@[simp] theorem length_internalBuf (fb : FileBuffer size) :
    fb.internalBuf.length = fb.internalSize := by
  simp [internalBuf, internalSize, fb.length_header, fb.length_buffer, Nat.add_comm]

/-- The buffer over the bytes of a disk page. -/
def ofInternal (bytes : List UInt8) (h : bytes.length = size + FILE_BUFFER_HEADER_SIZE) :
    FileBuffer size where
  header := bytes.take FILE_BUFFER_HEADER_SIZE
  buffer := bytes.drop FILE_BUFFER_HEADER_SIZE
  length_header := by
    rw [List.length_take]
    omega
  length_buffer := by
    rw [List.length_drop]
    omega

@[simp] theorem internalBuf_ofInternal (bytes : List UInt8)
    (h : bytes.length = size + FILE_BUFFER_HEADER_SIZE) :
    (ofInternal bytes h).internalBuf = bytes :=
  List.take_append_drop _ _

/-- `memcpy(fb->buffer + offset, bytes, bytes.length)` -/
def memcpyTo (fb : FileBuffer size) (offset : Nat) (bytes : List UInt8) :
    Except Fault (FileBuffer size) :=
  if h : offset + bytes.length ≤ size then
    .ok { fb with
      buffer := pwrite fb.buffer offset bytes
      length_buffer := by
        rw [length_pwrite_of_le (by rw [fb.length_buffer]; exact h), fb.length_buffer] }
  else .error .outOfBounds

/-- The bytes that a `memcpy` of `n` bytes from `fb->buffer + offset` reads. -/
def memcpyFrom (fb : FileBuffer size) (offset n : Nat) : Except Fault (List UInt8) :=
  if offset + n ≤ size then .ok (pread fb.buffer offset n) else .error .outOfBounds

end FileBuffer

/-- `FileBuffer_create`: the memory is cleared. The allocation succeeds in this model. -/
def fileBufferCreate (size : Nat) : FileBuffer size where
  header := List.replicate FILE_BUFFER_HEADER_SIZE 0
  buffer := List.replicate size 0
  length_header := List.length_replicate
  length_buffer := List.length_replicate

/-- A read fills the buffer it is given and keeps its length. -/
theorem length_fileReadAt (handle : FileHandle) {buffer : List UInt8} {size : Nat}
    (location : UInt64) (h : buffer.length = size) :
    (fileReadAt handle buffer size location).1.length = size := by
  unfold fileReadAt
  split
  · exact h
  · simp only [List.length_append, List.length_drop, length_pread]
    omega

/-- `fileBuffer_read`: the buffer after the read, and the status. The result of `read_at` is
ignored. -/
def fileBufferRead {size : Nat} (fb : FileBuffer size) (handle : FileHandle) (location : UInt64) :
    FileBuffer size × Int :=
  let fb := FileBuffer.ofInternal (fileReadAt handle fb.internalBuf fb.internalSize location).1
    (length_fileReadAt handle location fb.length_internalBuf)
  let storedChecksum := u64OfBytes fb.header
  let computedChecksum := checksum fb.buffer
  (fb, if storedChecksum ≠ computedChecksum then -1 else 0)

/-- `fileBuffer_write`: the buffer with its checksum, the handle after the write, and the status.
The result of `write_at` is ignored. -/
def fileBufferWrite {size : Nat} (fb : FileBuffer size) (handle : FileHandle)
    (location : UInt64) : FileBuffer size × FileHandle × Int :=
  let sum := checksum fb.buffer
  let fb := { fb with header := u64Bytes sum, length_header := length_u64Bytes sum }
  (fb, (fileWriteAt handle fb.internalBuf location).1, 0)

end MustDb.Storage
