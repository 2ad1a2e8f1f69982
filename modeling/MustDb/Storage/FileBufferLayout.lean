import MustDb.Storage.FileBuffer

/-!
# `MustDb.Storage.FileBufferLayout`: where `FileBuffer_create` puts the page

`MustDb.Storage.FileBuffer` has the bytes of a page buffer. Here are its addresses:
`FileBuffer_create` asks `malloc` for the struct, the page and room for the alignment, and computes
in 64-bit numbers where the page starts. `malloc` is not part of the repository, and its answer is
an argument. The `memset` fills the block with zeros, and is not in the layout.
-/

set_option autoImplicit false

namespace MustDb.Storage

/-- `sizeof(FileBuffer)` -/
def SIZEOF_FILE_BUFFER : UInt64 := 32

/-- The alignment of a page in memory. -/
def FILE_BUFFER_BLOCK_SIZE : UInt64 := 4096

/-- The struct `FileBuffer`. A pointer is its address. -/
structure FileBufferFields where
  size : UInt64
  internalBuf : UInt64
  internalSize : UInt64
  buffer : UInt64
  deriving DecidableEq

/-- `total_size` in `FileBuffer_create`: what it asks `malloc` for. -/
def fileBufferTotalSize (bufsiz : UInt64) : UInt64 :=
  SIZEOF_FILE_BUFFER + bufsiz + (FILE_BUFFER_BLOCK_SIZE - 1)

/-- `FileBuffer_create`, with the answer of `malloc`. -/
def fileBufferCreateAt (answer : Option UInt64) (bufsiz : UInt64) : Option FileBufferFields :=
  let totalSize := fileBufferTotalSize bufsiz
  match answer with
  | none => none
  | some bufPtr =>
      let basePtr := bufPtr + SIZEOF_FILE_BUFFER
      let rem := basePtr % FILE_BUFFER_BLOCK_SIZE
      let offset := if rem = 0 then 0 else FILE_BUFFER_BLOCK_SIZE - rem
      if offset + bufsiz > totalSize then none
      else
        let basePtr := basePtr + offset
        some {
          internalBuf := basePtr
          internalSize := bufsiz
          buffer := basePtr + .ofNat FILE_BUFFER_HEADER_SIZE
          size := bufsiz - .ofNat FILE_BUFFER_HEADER_SIZE }

end MustDb.Storage
