import MustDb.Proofs.Libv.Checksum
import MustDb.Proofs.Storage.Page

/-!
# `MustDb.Proofs.Storage.PageChecks`: what the checksum of a page finds

`fileBuffer_read` returns 0 when the page in its buffer verifies (`Verifies`,
`fileBufferRead_status`). This is a check of the buffer, and the buffer is not always the page of
the file.

`fileBuffer_read` ignores the result of `read_at`, so where the file ends inside the page the buffer
keeps older bytes. `readsFromFile_iff` says when the status can be trusted: the whole page is in the
file, or no page that starts with the bytes of the file verifies.

`corruption_detected_iff` says which changes of one byte of a stored page are found: all but those
in the high half of a 64-bit word, which the checksum does not look at.
-/

set_option autoImplicit false

namespace MustDb.Proofs.Storage

open MustDb.Lib
open MustDb.Libv (checksum)
open MustDb.Proofs.Libv
open MustDb.Storage

/-! ### The status of a read -/

/-- The checksum in front of a page is the one of its payload. -/
def Verifies (page : List UInt8) : Prop :=
  u64OfBytes (page.take FILE_BUFFER_HEADER_SIZE) = checksum (page.drop FILE_BUFFER_HEADER_SIZE)

instance (page : List UInt8) : Decidable (Verifies page) := by
  unfold Verifies
  infer_instance

/-- A page buffer is its disk page. -/
theorem internalBuf_inj {size : Nat} {fb fb' : FileBuffer size}
    (h : fb.internalBuf = fb'.internalBuf) : fb = fb' := by
  obtain ⟨header, buffer, hheader, hbuffer⟩ := fb
  obtain ⟨header', buffer', hheader', hbuffer'⟩ := fb'
  obtain ⟨rfl, rfl⟩ := List.append_inj h (hheader.trans hheader'.symm)
  rfl

/-- The page in a buffer verifies when its header is the checksum of its payload. -/
theorem verifies_internalBuf {size : Nat} (fb : FileBuffer size) :
    Verifies fb.internalBuf ↔ u64OfBytes fb.header = checksum fb.buffer := by
  rw [Verifies, FileBuffer.internalBuf, List.take_left' fb.length_header,
    List.drop_left' fb.length_header]

/-- The bytes of a page of `size` payload bytes that the file has. -/
def presentBytes (size : Nat) (handle : FileHandle) (location : UInt64) : List UInt8 :=
  if fseekFails location then [] else pread handle.content location.toNat (size + 8)

/-- The file has all bytes of the page. -/
def PageInFile (size : Nat) (handle : FileHandle) (location : UInt64) : Prop :=
  ¬ fseekFails location ∧ location.toNat + (size + 8) ≤ handle.content.length

section Read
variable {size : Nat} (fb : FileBuffer size) (handle : FileHandle) (location : UInt64)

/-- The buffer after a read: the bytes of the file, then what was there before. -/
theorem fileBufferRead_internalBuf :
    (fileBufferRead fb handle location).1.internalBuf = presentBytes size handle location
      ++ fb.internalBuf.drop (presentBytes size handle location).length := by
  simp only [fileBufferRead, FileBuffer.internalBuf_ofInternal, fileReadAt, presentBytes,
    FileBuffer.internalSize]
  split <;> rfl

/-- The status says whether the page in the buffer verifies. -/
theorem fileBufferRead_status :
    (fileBufferRead fb handle location).2
      = if Verifies (fileBufferRead fb handle location).1.internalBuf then 0 else -1 := by
  simp only [verifies_internalBuf]
  show (if u64OfBytes _ ≠ checksum _ then (-1 : Int) else 0) = _
  rw [ite_not]
  rfl

/-- Only a page that verifies has the status 0. -/
theorem fileBufferRead_status_eq_zero :
    (fileBufferRead fb handle location).2 = 0
      ↔ Verifies (fileBufferRead fb handle location).1.internalBuf := by
  rw [fileBufferRead_status]
  split <;> simp_all

variable {handle location}

/-- A page that is in the file replaces all bytes of the buffer. -/
theorem PageInFile.internalBuf (h : PageInFile size handle location) :
    (fileBufferRead fb handle location).1.internalBuf
      = pread handle.content location.toNat (size + 8) := by
  have hpresent : presentBytes size handle location
      = pread handle.content location.toNat (size + 8) := if_neg h.1
  have hdrop : fb.internalBuf.drop (size + 8) = [] :=
    List.drop_of_length_le (Nat.le_of_eq fb.length_internalBuf)
  rw [fileBufferRead_internalBuf, hpresent, length_pread_of_le h.2, hdrop, List.append_nil]

end Read

/-! ### Stale bytes -/

/-- The read of the page does not depend on the buffer, and a page that it reports as valid is in
the file. -/
def ReadsFromFile (size : Nat) (handle : FileHandle) (location : UInt64) : Prop :=
  ∀ fb fb' : FileBuffer size,
    (fileBufferRead fb handle location).2 = (fileBufferRead fb' handle location).2 ∧
      ((fileBufferRead fb handle location).2 = 0 → PageInFile size handle location ∧
        (fileBufferRead fb handle location).1.internalBuf
          = pread handle.content location.toNat (size + 8))

/-- A page that starts with the bytes of the file is what a buffer that holds it keeps. -/
theorem fileBufferRead_stale {size : Nat} {handle : FileHandle} {location : UInt64}
    {page : List UInt8} (hlen : page.length = size + FILE_BUFFER_HEADER_SIZE)
    (hpage : presentBytes size handle location <+: page) :
    (fileBufferRead (FileBuffer.ofInternal page hlen) handle location).1.internalBuf = page := by
  obtain ⟨rest, rfl⟩ := hpage
  rw [fileBufferRead_internalBuf, FileBuffer.internalBuf_ofInternal, List.drop_left]

/-- The status can be trusted when the whole page is in the file, or when no completion of the bytes
that are in the file verifies, and only then. -/
theorem readsFromFile_iff (size : Nat) (handle : FileHandle) (location : UInt64) :
    ReadsFromFile size handle location ↔
      PageInFile size handle location ∨
        ∀ page : List UInt8, page.length = size + FILE_BUFFER_HEADER_SIZE →
          presentBytes size handle location <+: page → ¬ Verifies page := by
  constructor
  · intro h
    by_cases hin : PageInFile size handle location
    · exact Or.inl hin
    · -- a buffer that holds a completion which verifies is reported as valid
      refine Or.inr fun page hlen hpage hverifies => hin ?_
      have hstatus : (fileBufferRead (FileBuffer.ofInternal page hlen) handle location).2 = 0 := by
        rw [fileBufferRead_status_eq_zero, fileBufferRead_stale hlen hpage]
        exact hverifies
      exact ((h _ (fileBufferCreate size)).2 hstatus).1
  · rintro (hin | hnone) fb fb'
    · -- the bytes of the file are all there is in either buffer
      refine ⟨?_, fun _ => ⟨hin, hin.internalBuf fb⟩⟩
      rw [fileBufferRead_status, fileBufferRead_status, hin.internalBuf, hin.internalBuf]
    · -- what the buffer holds afterwards is a completion of the bytes of the file
      have hstatus (fb : FileBuffer size) : (fileBufferRead fb handle location).2 = -1 := by
        have hno := hnone _ (FileBuffer.length_internalBuf _)
          (show presentBytes size handle location
            <+: (fileBufferRead fb handle location).1.internalBuf from by
              rw [fileBufferRead_internalBuf]
              exact List.prefix_append _ _)
        rw [fileBufferRead_status, if_neg hno]
      rw [hstatus, hstatus]
      exact ⟨rfl, fun h => absurd h (by decide)⟩

/-- The page of a payload verifies. -/
theorem verifies_pageOf (payload : List UInt8) : Verifies (pageOf payload) := by
  rw [Verifies, pageOf_take, pageOf_drop, u64OfBytes_u64Bytes]

/-- The first block of an empty file: a buffer that still holds another valid page is reported as
read. -/
theorem not_readsFromFile_empty_file :
    ¬ ReadsFromFile BLOCK_PAYLOAD { content := [], outcomes := [] } BLOCK_START := by
  intro h
  have hlen : (pageOf (List.replicate BLOCK_PAYLOAD 0)).length
      = BLOCK_PAYLOAD + FILE_BUFFER_HEADER_SIZE := by
    rw [length_pageOf, List.length_replicate]
    rfl
  have hstatus : (fileBufferRead (FileBuffer.ofInternal _ hlen)
      { content := [], outcomes := [] } BLOCK_START).2 = 0 := by
    rw [fileBufferRead_status_eq_zero, fileBufferRead_stale hlen]
    · exact verifies_pageOf _
    · exact List.nil_prefix
  have hin := ((h _ (fileBufferCreate BLOCK_PAYLOAD)).2 hstatus).1.2
  rw [List.length_nil] at hin
  omega

/-! ### A corrupted byte -/

/-- The file after `fileBuffer_write`, with byte `i` of the stored payload changed to `b`. -/
def corruptedFile {size : Nat} (fb : FileBuffer size) (handle : FileHandle) (location : UInt64)
    (i : Nat) (b : UInt8) : FileHandle :=
  let handle := (fileBufferWrite fb handle location).2.1
  { handle with
    content := handle.content.set (location.toNat + (FILE_BUFFER_HEADER_SIZE + i)) b }

/-- The page that a read finds in the corrupted file. -/
theorem pread_corruptedFile {size : Nat} (fb : FileBuffer size) {handle : FileHandle}
    {location : UInt64} (hseek : ¬ fseekFails location)
    (hall : StoresAll (size + 8) handle.nextOutcome) (i : Nat) (b : UInt8) :
    pread (corruptedFile fb handle location i b).content location.toNat (size + 8)
      = u64Bytes (checksum fb.buffer) ++ fb.buffer.set i b := by
  have hlen : (pageOf fb.buffer).length = size + 8 := by
    rw [length_pageOf, fb.length_buffer, Nat.add_comm]
  have hstored : (fileBufferWrite fb handle location).2.1.content
      = pwrite handle.content location.toNat (pageOf fb.buffer) :=
    fileWriteAt_stored hseek (by rwa [← hlen] at hall)
  -- the stored page reads back, and the change is inside its payload
  have hpage : pread (pwrite handle.content location.toNat (pageOf fb.buffer)) location.toNat
      (size + 8) = pageOf fb.buffer := by
    rw [← hlen, pread_pwrite_same]
  rw [corruptedFile, hstored, pread_set, hpage, pageOf, List.set_append,
    if_neg (by rw [length_u64Bytes, FILE_BUFFER_HEADER_SIZE]; omega), length_u64Bytes,
    FILE_BUFFER_HEADER_SIZE, Nat.add_sub_cancel_left]

/-- The corrupted page is in the file. -/
theorem pageInFile_corruptedFile {size : Nat} (fb : FileBuffer size) {handle : FileHandle}
    {location : UInt64} (hseek : ¬ fseekFails location)
    (hall : StoresAll (size + 8) handle.nextOutcome) (i : Nat) (b : UInt8) :
    PageInFile size (corruptedFile fb handle location i b) location := by
  have hlen := congrArg List.length (pread_corruptedFile fb hseek hall i b)
  rw [length_pread, List.length_append, length_u64Bytes, List.length_set, fb.length_buffer] at hlen
  exact ⟨hseek, by omega⟩

/-- The status of a read of the corrupted page. -/
theorem status_corruptedFile {size : Nat} (fb reader : FileBuffer size) (handle : FileHandle)
    {location : UInt64} (hseek : ¬ fseekFails location)
    (hall : StoresAll (size + 8) handle.nextOutcome) {i : Nat} (hi : i < size) {b : UInt8}
    (hne : fb.buffer[i]? ≠ some b) :
    (fileBufferRead reader (corruptedFile fb handle location i b) location).2
      = if InHighHalf size i then 0 else -1 := by
  have hin : i < fb.buffer.length := by rwa [fb.length_buffer]
  have hbyte : fb.buffer[i] ≠ b := by
    rw [List.getElem?_eq_getElem hin] at hne
    exact fun h => hne (congrArg some h)
  -- the checksum in the page is the old one, so the page verifies when the change keeps it
  have hverifies : Verifies (u64Bytes (checksum fb.buffer) ++ fb.buffer.set i b)
      ↔ InHighHalf size i := by
    rw [Verifies, FILE_BUFFER_HEADER_SIZE, take_u64Bytes_append, drop_u64Bytes_append,
      u64OfBytes_u64Bytes, eq_comm, checksum_set_eq_iff hin hbyte, fb.length_buffer]
  rw [fileBufferRead_status, (pageInFile_corruptedFile fb hseek hall i b).internalBuf,
    pread_corruptedFile fb hseek hall]
  simp only [hverifies]

/-- A changed payload byte of a stored page is found, except in the high half of a complete 64-bit
word of the payload. -/
theorem corruption_detected_iff {size : Nat} (fb reader : FileBuffer size) (handle : FileHandle)
    (location : UInt64) (hseek : ¬ fseekFails location)
    (hall : StoresAll (size + 8) handle.nextOutcome) (i : Nat) (hi : i < size) (b : UInt8)
    (hne : fb.buffer[i]? ≠ some b) :
    (fileBufferRead reader (corruptedFile fb handle location i b) location).2 = -1
      ↔ ¬ InHighHalf size i := by
  rw [status_corruptedFile fb reader handle hseek hall hi hne]
  split <;> simp_all

/-- Byte 3 of a cleared block page. -/
theorem corruption_detected_iff_byte_three :
    (fileBufferRead (fileBufferCreate BLOCK_PAYLOAD) (corruptedFile (fileBufferCreate BLOCK_PAYLOAD)
      { content := [], outcomes := [] } BLOCK_START 3 1) BLOCK_START).2 = -1 :=
  (corruption_detected_iff (fileBufferCreate BLOCK_PAYLOAD) (fileBufferCreate BLOCK_PAYLOAD)
    { content := [], outcomes := [] } BLOCK_START (by decide) trivial 3 (by decide) 1
    (by decide)).mpr (by decide)

/-- Byte 4 of a cleared block page. -/
theorem not_detected_byte_four :
    (fileBufferCreate BLOCK_PAYLOAD).buffer[4]? ≠ some 1 ∧
      (fileBufferRead (fileBufferCreate BLOCK_PAYLOAD)
        (corruptedFile (fileBufferCreate BLOCK_PAYLOAD) { content := [], outcomes := [] }
          BLOCK_START 4 1) BLOCK_START).2 ≠ -1 := by
  have hne : (fileBufferCreate BLOCK_PAYLOAD).buffer[4]? ≠ some 1 := by decide
  refine ⟨hne, ?_⟩
  rw [status_corruptedFile (fileBufferCreate BLOCK_PAYLOAD) _ { content := [], outcomes := [] }
    (by decide) trivial (by decide) hne]
  decide

end MustDb.Proofs.Storage
