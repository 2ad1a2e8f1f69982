import MustDb.Lib.RegionStore
import MustDb.Storage.Database

/-!
# `MustDb.Proofs.Storage.Page`: pages in the file

The file of a database is a region store (`MustDb.Lib.RegionStore`). Its addresses are the three
header pages and the blocks. `pageLayout` gives their regions, and `blockLocation_toNat` and
`headerLocation_toNat` show that the wrapping offset arithmetic of the code computes them. For a
block this needs `Addressable`: the page of the block ends before offset `2 ^ 63`, which is as far
as `fseek` goes.

`fileBufferWrite_eq` and `fileBufferRead_of_holds` are the two facts about page I/O that the rest of
the development uses. The first is for a file whose writes all succeed.
-/

set_option autoImplicit false

namespace MustDb.Proofs.Storage

open MustDb.Lib
open MustDb.Libv (checksum)
open MustDb.Storage

/-- A page of the database file. -/
inductive PageAddr where
  | header (slot : Fin 3)
  | block (id : BlockId)
  deriving DecidableEq

/-- The disk page of a payload: the checksum, then the payload. -/
def pageOf (payload : List UInt8) : List UInt8 := u64Bytes (checksum payload) ++ payload

@[simp] theorem length_pageOf (payload : List UInt8) :
    (pageOf payload).length = 8 + payload.length := by
  simp [pageOf]

/-- The checksum in front of a payload. -/
theorem pageOf_take (payload : List UInt8) :
    (pageOf payload).take FILE_BUFFER_HEADER_SIZE = u64Bytes (checksum payload) :=
  take_u64Bytes_append _ payload

/-- The payload behind the checksum of a page. -/
theorem pageOf_drop (payload : List UInt8) :
    (pageOf payload).drop FILE_BUFFER_HEADER_SIZE = payload :=
  drop_u64Bytes_append _ payload

theorem blockStart_toNat : BLOCK_START.toNat = 12288 := rfl

/-- The regions of the pages: three header pages of 4096 bytes, then the blocks of 8192 bytes. -/
def pageLayout : Layout PageAddr where
  start
    | .header slot => HEADER_SIZE * slot
    | .block id => BLOCK_START.toNat + id.toNat * BLOCK_SIZE
  size
    | .header _ => HEADER_SIZE
    | .block _ => BLOCK_SIZE
  disjoint := by
    rintro (s | i) (t | j) hne <;> simp only [blockStart_toNat, HEADER_SIZE, BLOCK_SIZE]
    · -- two headers
      have hst : (s : Nat) ≠ t := fun h => hne (congrArg _ (Fin.ext h))
      omega
    · -- the headers end where the blocks start
      omega
    · omega
    · -- two blocks
      have hij : i.toNat ≠ j.toNat := fun h => hne (congrArg _ (UInt64.toNat_inj.mp h))
      omega

/-- The page of the block lies within the reach of `fseek`. -/
def Addressable (id : BlockId) : Prop := BLOCK_START.toNat + (id.toNat + 1) * BLOCK_SIZE < 2 ^ 63

instance (id : BlockId) : Decidable (Addressable id) := by
  unfold Addressable
  infer_instance

/-- The bound on an addressable id, in numbers. -/
theorem Addressable.lt {id : BlockId} (h : Addressable id) :
    12288 + (id.toNat + 1) * 8192 < 2 ^ 63 := h

/-- `INVALID_BLOCK` is not addressable. -/
theorem Addressable.ne_invalid {id : BlockId} (h : Addressable id) : id ≠ INVALID_BLOCK := by
  rintro rfl
  exact absurd h (by decide)

/-- The offset arithmetic of an addressable block does not wrap. -/
theorem blockLocation_toNat {id : BlockId} (h : Addressable id) :
    (blockLocation id).toNat = pageLayout.start (.block id) := by
  have hid := h.lt
  have hsize : (UInt64.ofNat 8192).toNat = 8192 := rfl
  simp only [blockLocation, pageLayout, UInt64.toNat_add, UInt64.toNat_mul, blockStart_toNat,
    BLOCK_SIZE, hsize]
  omega

theorem headerLocation_toNat (slot : Fin 3) :
    (headerLocation slot).toNat = pageLayout.start (.header slot) := by
  have hslot := slot.isLt
  simp only [headerLocation, pageLayout, HEADER_SIZE, UInt64.toNat_ofNat']
  omega

theorem not_fseekFails_block {id : BlockId} (h : Addressable id) :
    ¬ fseekFails (blockLocation id) := by
  have hid := h.lt
  rw [fseekFails, blockLocation_toNat h]
  simp only [pageLayout, blockStart_toNat, BLOCK_SIZE]
  omega

theorem not_fseekFails_header (slot : Fin 3) : ¬ fseekFails (headerLocation slot) := by
  have hslot := slot.isLt
  rw [fseekFails, headerLocation_toNat]
  simp only [pageLayout, HEADER_SIZE]
  omega

/-- A positioned write on a file whose writes all succeed. -/
theorem fileWriteAt_full {handle : FileHandle} (hio : handle.outcomes = [])
    (buffer : List UInt8) {location : UInt64} (hseek : ¬ fseekFails location) :
    fileWriteAt handle buffer location =
      (FileHandle.mk (pwrite handle.content location.toNat buffer) [], (buffer.length : Int)) := by
  simp [fileWriteAt, FileHandle.nextOutcome, hseek, hio]

/-- The outcome stores a write of `size` bytes in full. -/
def StoresAll (size : Nat) : WriteOutcome → Prop
  | .full => True
  | .short stored => size ≤ stored
  | .seekError => False

/-- A file whose writes all succeed stores the next one in full. -/
theorem storesAll_of_nil {handle : FileHandle} (hio : handle.outcomes = []) (size : Nat) :
    StoresAll size handle.nextOutcome := by
  simp [FileHandle.nextOutcome, hio, StoresAll]

/-- Whatever its outcome, a positioned write stores a prefix of the buffer. -/
theorem fileWriteAt_prefix (handle : FileHandle) (buffer : List UInt8) (location : UInt64) :
    ∃ k, (fileWriteAt handle buffer location).1.content
      = pwrite handle.content location.toNat (buffer.take k) := by
  unfold fileWriteAt
  split
  · exact ⟨0, by simp⟩
  · -- one case for each outcome: a failed seek stores the empty prefix
    split
    · exact ⟨buffer.length, by simp⟩
    · exact ⟨_, rfl⟩
    · exact ⟨0, by simp⟩

/-- A positioned write that is stored in full. -/
theorem fileWriteAt_stored {handle : FileHandle} {buffer : List UInt8} {location : UInt64}
    (hseek : ¬ fseekFails location) (hall : StoresAll buffer.length handle.nextOutcome) :
    (fileWriteAt handle buffer location).1.content
      = pwrite handle.content location.toNat buffer := by
  cases hout : handle.nextOutcome with
  | full => simp [fileWriteAt, hseek, hout]
  | short stored =>
      rw [hout] at hall
      simp [fileWriteAt, hseek, hout, List.take_of_length_le hall]
  | seekError =>
      rw [hout] at hall
      exact hall.elim

/-- The result of a positioned write says that it is stored in full exactly when it is. -/
theorem fileWriteAt_result (handle : FileHandle) (buffer : List UInt8) {location : UInt64}
    (hseek : ¬ fseekFails location) :
    (fileWriteAt handle buffer location).2 = buffer.length
      ↔ StoresAll buffer.length handle.nextOutcome := by
  cases hout : handle.nextOutcome with
  | full => simp [fileWriteAt, hseek, hout, StoresAll]
  | short stored =>
      simp only [fileWriteAt, hseek, hout, StoresAll, if_false, List.length_take]
      omega
  | seekError =>
      have hresult : (fileWriteAt handle buffer location).2 = -1 := by
        simp [fileWriteAt, hseek, hout]
      rw [hresult, StoresAll, iff_false]
      omega

theorem fileWriteAt_outcomes (handle : FileHandle) (buffer : List UInt8) (location : UInt64) :
    (fileWriteAt handle buffer location).1.outcomes = handle.outcomes.tail := by
  unfold fileWriteAt
  split
  · rfl
  · split <;> rfl

/-- `fileBufferWrite` on a file whose writes all succeed stores the page of the payload. -/
theorem fileBufferWrite_eq {size : Nat} (fb : FileBuffer size) {handle : FileHandle}
    (hio : handle.outcomes = []) {location : UInt64} (hseek : ¬ fseekFails location) :
    (fileBufferWrite fb handle location).2.1 =
      { content := pwrite handle.content location.toNat (pageOf fb.buffer), outcomes := [] } := by
  simp only [fileBufferWrite]
  rw [fileWriteAt_full hio _ hseek]
  rfl

/-- A positioned read inside the file fills the whole buffer. -/
theorem fileReadAt_of_le {handle : FileHandle} {buffer : List UInt8} {size : Nat}
    {location : UInt64} (hseek : ¬ fseekFails location) (hbuffer : buffer.length = size)
    (hin : location.toNat + size ≤ handle.content.length) :
    (fileReadAt handle buffer size location).1 = pread handle.content location.toNat size := by
  have hdrop : buffer.drop size = [] := List.drop_of_length_le (Nat.le_of_eq hbuffer)
  simp [fileReadAt, hseek, length_pread_of_le hin, hdrop]

/-- The payload that `fileBufferRead` finds inside the file, whatever the checksum says. -/
theorem fileBufferRead_buffer {size : Nat} (fb : FileBuffer size) {handle : FileHandle}
    {location : UInt64} (hseek : ¬ fseekFails location)
    (hin : location.toNat + (size + 8) ≤ handle.content.length) :
    (fileBufferRead fb handle location).1.buffer
      = (pread handle.content location.toNat (size + 8)).drop 8 := by
  have hbytes := fileReadAt_of_le hseek fb.length_internalBuf hin
  simp only [fileBufferRead, FileBuffer.ofInternal, FILE_BUFFER_HEADER_SIZE, hbytes]
  rfl

/-- The page of a payload reads back with status 0, into any buffer. -/
theorem fileBufferRead_of_holds {size : Nat} (fb : FileBuffer size) {handle : FileHandle}
    {location : UInt64} (hseek : ¬ fseekFails location) {payload : List UInt8}
    (h : pread handle.content location.toNat (size + 8) = pageOf payload)
    (hlen : payload.length = size) :
    (fileBufferRead fb handle location).1.buffer = payload ∧
      (fileBufferRead fb handle location).2 = 0 := by
  have hin : location.toNat + (size + 8) ≤ handle.content.length := by
    have hlength := congrArg List.length h
    rw [length_pread, length_pageOf, hlen] at hlength
    omega
  have hbytes : (fileReadAt handle fb.internalBuf fb.internalSize location).1 = pageOf payload :=
    (fileReadAt_of_le hseek fb.length_internalBuf hin).trans h
  -- the stored checksum is the one of the payload, which the reader computes again
  simp only [fileBufferRead, FileBuffer.ofInternal, hbytes, pageOf_take, pageOf_drop,
    u64OfBytes_u64Bytes, ne_eq, not_true_eq_false, if_false, and_self]

/-! ### Buffers -/

/-- A `memcpy` inside a page buffer. -/
theorem memcpyTo_of_le {size : Nat} (fb : FileBuffer size) (offset : Nat) (bytes : List UInt8)
    (h : offset + bytes.length ≤ size) :
    ∃ fb', fb.memcpyTo offset bytes = .ok fb' ∧ fb'.buffer = pwrite fb.buffer offset bytes :=
  ⟨_, dif_pos h, rfl⟩

/-- A `memcpy` past the end of a page buffer. -/
theorem memcpyTo_of_lt {size : Nat} (fb : FileBuffer size) {offset : Nat} {bytes : List UInt8}
    (h : size < offset + bytes.length) : fb.memcpyTo offset bytes = .error .outOfBounds :=
  dif_neg (by omega)

theorem memcpyFrom_of_le {size : Nat} (fb : FileBuffer size) {offset n : Nat}
    (h : offset + n ≤ size) : fb.memcpyFrom offset n = .ok (pread fb.buffer offset n) :=
  if_pos h

end MustDb.Proofs.Storage
