import MustDb.Lib.Alignment
import MustDb.Storage.FileBufferLayout

/-!
# `MustDb.Proofs.Storage.BufferGeometry`: the page of a `FileBuffer` is inside its block

`FileBuffer_create` computes the size of the block, the offset of the page and the size of the
payload with 64-bit numbers. `fileBuffer_geometry_iff` says when a buffer that it returns is as its
comments promise: the page is aligned and inside the block, and the payload is the page without its
header. This holds if and only if the page has room for the header and the size of the block does
not wrap.

The check in front of the `return` does not see the wrap of the block size, because its own sum
wraps as well (`fileBuffer_wraps`).
-/

set_option autoImplicit false

namespace MustDb.Proofs.Storage

open MustDb.Lib
open MustDb.Storage

/-- What `malloc` may return for that many bytes. The address behind the block is an address too, as
C has it. -/
structure MallocBlock (address size : UInt64) : Prop where
  nonnull : address ≠ 0
  fits : address.toNat + size.toNat < 2 ^ 64

/-- The layout that `FileBuffer_create` promises for the block at `address`. -/
structure Geometry (address bufsiz : UInt64) (fb : FileBufferFields) : Prop where
  aligned : FILE_BUFFER_BLOCK_SIZE.toNat ∣ fb.internalBuf.toNat
  behind : address.toNat + SIZEOF_FILE_BUFFER.toNat ≤ fb.internalBuf.toNat
  inside : fb.internalBuf.toNat + fb.internalSize.toNat
    ≤ address.toNat + (fileBufferTotalSize bufsiz).toNat
  buffer_eq : fb.buffer.toNat = fb.internalBuf.toNat + FILE_BUFFER_HEADER_SIZE
  size_eq : fb.size.toNat + FILE_BUFFER_HEADER_SIZE = fb.internalSize.toNat

/-- The page has room for its header, and the size of the block is a 64-bit number. -/
def Roomy (bufsiz : UInt64) : Prop :=
  FILE_BUFFER_HEADER_SIZE ≤ bufsiz.toNat ∧
    SIZEOF_FILE_BUFFER.toNat + bufsiz.toNat + (FILE_BUFFER_BLOCK_SIZE.toNat - 1) < 2 ^ 64

instance (bufsiz : UInt64) : Decidable (Roomy bufsiz) := inferInstanceAs (Decidable (_ ∧ _))

/-! ### The numbers of `FileBuffer_create` -/

theorem toNat_sizeof : SIZEOF_FILE_BUFFER.toNat = 32 := rfl

theorem toNat_blockSize : FILE_BUFFER_BLOCK_SIZE.toNat = 4096 := rfl

theorem toNat_totalSize (bufsiz : UInt64) :
    (fileBufferTotalSize bufsiz).toNat = (bufsiz.toNat + 4127) % 2 ^ 64 := by
  have hpad : (FILE_BUFFER_BLOCK_SIZE - 1).toNat = 4095 := rfl
  rw [fileBufferTotalSize, UInt64.toNat_add, UInt64.toNat_add, hpad, toNat_sizeof]
  omega

/-- `offset` in `FileBuffer_create`, for the block at `address`. -/
def pageOffset (address : UInt64) : UInt64 :=
  if (address + SIZEOF_FILE_BUFFER) % FILE_BUFFER_BLOCK_SIZE = 0 then 0
  else FILE_BUFFER_BLOCK_SIZE - (address + SIZEOF_FILE_BUFFER) % FILE_BUFFER_BLOCK_SIZE

/-- The offset is the padding of the address behind the struct. -/
theorem toNat_pageOffset (address : UInt64) :
    (pageOffset address).toNat = padding (address + SIZEOF_FILE_BUFFER).toNat 4096 := by
  have hrem : ((address + SIZEOF_FILE_BUFFER) % FILE_BUFFER_BLOCK_SIZE).toNat
      = (address + SIZEOF_FILE_BUFFER).toNat % 4096 := UInt64.toNat_mod _ _
  have hle : (address + SIZEOF_FILE_BUFFER) % FILE_BUFFER_BLOCK_SIZE ≤ FILE_BUFFER_BLOCK_SIZE := by
    rw [UInt64.le_iff_toNat_le, hrem]
    exact (Nat.mod_lt _ (by decide)).le
  unfold pageOffset padding
  rw [← hrem]
  split
  case isTrue h =>
      have hzero : ((address + SIZEOF_FILE_BUFFER) % FILE_BUFFER_BLOCK_SIZE).toNat = 0 := by
        rw [h]
        rfl
      rw [if_pos hzero]
      rfl
  case isFalse h =>
      have hzero : ((address + SIZEOF_FILE_BUFFER) % FILE_BUFFER_BLOCK_SIZE).toNat ≠ 0 :=
        fun hzero => h (UInt64.toNat_inj.mp hzero)
      rw [if_neg hzero, UInt64.toNat_sub_of_le _ _ hle, toNat_blockSize]

/-- The buffer that `FileBuffer_create` returns. -/
def fileBufferAt (address bufsiz : UInt64) : FileBufferFields where
  internalBuf := address + SIZEOF_FILE_BUFFER + pageOffset address
  internalSize := bufsiz
  buffer := address + SIZEOF_FILE_BUFFER + pageOffset address + 8
  size := bufsiz - 8

theorem fileBufferCreateAt_eq (address bufsiz : UInt64) :
    fileBufferCreateAt (some address) bufsiz =
      if pageOffset address + bufsiz > fileBufferTotalSize bufsiz then none
      else some (fileBufferAt address bufsiz) := rfl

@[simp] theorem internalSize_fileBufferAt (address bufsiz : UInt64) :
    (fileBufferAt address bufsiz).internalSize = bufsiz := rfl

theorem pageOffset_lt (address : UInt64) : (pageOffset address).toNat < 4096 := by
  rw [toNat_pageOffset]
  exact padding_lt (by decide)

/-! ### The layout -/

section Layout
variable {address bufsiz : UInt64}

/-- In a block whose size has not wrapped, the page starts behind the struct and the padding. -/
theorem toNat_internalBuf (hblock : MallocBlock address (fileBufferTotalSize bufsiz))
    (hroomy : Roomy bufsiz) :
    (fileBufferAt address bufsiz).internalBuf.toNat
      = address.toNat + 32 + padding (address.toNat + 32) 4096 := by
  obtain ⟨hheader, hfits⟩ := hroomy
  have hend := hblock.fits
  rw [toNat_totalSize] at hend
  simp only [toNat_sizeof, toNat_blockSize] at hfits
  have hbase : (address + SIZEOF_FILE_BUFFER).toNat = address.toNat + 32 := by
    rw [UInt64.toNat_add, toNat_sizeof]
    omega
  have hlt := pageOffset_lt address
  rw [toNat_pageOffset, hbase] at hlt
  rw [fileBufferAt, UInt64.toNat_add, toNat_pageOffset, hbase]
  omega

/-- The check passes if the size of the block has not wrapped. -/
theorem fileBufferCreateAt_roomy (hroomy : Roomy bufsiz) :
    fileBufferCreateAt (some address) bufsiz = some (fileBufferAt address bufsiz) := by
  obtain ⟨-, hfits⟩ := hroomy
  simp only [toNat_sizeof, toNat_blockSize] at hfits
  have hlt := pageOffset_lt address
  have hle : ¬ pageOffset address + bufsiz > fileBufferTotalSize bufsiz := by
    rw [gt_iff_lt, UInt64.lt_iff_toNat_lt, toNat_totalSize, UInt64.toNat_add]
    omega
  rw [fileBufferCreateAt_eq, if_neg hle]

/-- With enough room, the buffer is as it should be. -/
theorem geometry_of_roomy (hblock : MallocBlock address (fileBufferTotalSize bufsiz))
    (hroomy : Roomy bufsiz) : Geometry address bufsiz (fileBufferAt address bufsiz) := by
  have hbuf := toNat_internalBuf hblock hroomy
  have hend := hblock.fits
  obtain ⟨hheader, hfits⟩ := hroomy
  simp only [toNat_sizeof, toNat_blockSize, FILE_BUFFER_HEADER_SIZE] at hheader hfits
  have hlt : padding (address.toNat + 32) 4096 < 4096 := padding_lt (by decide)
  have height : (8 : UInt64).toNat = 8 := rfl
  refine ⟨?_, ?_, ?_, ?_, ?_⟩
  · rw [hbuf]
    exact dvd_add_padding (by decide)
  · rw [hbuf, toNat_sizeof]
    omega
  · rw [hbuf, toNat_totalSize, internalSize_fileBufferAt]
    omega
  · -- eight bytes from the start of the page are still in the block
    rw [toNat_totalSize] at hend
    have hbuffer : (fileBufferAt address bufsiz).buffer
        = (fileBufferAt address bufsiz).internalBuf + 8 := rfl
    rw [hbuffer, UInt64.toNat_add, hbuf, height, FILE_BUFFER_HEADER_SIZE]
    omega
  · have hle : (8 : UInt64) ≤ bufsiz := UInt64.le_iff_toNat_le.mpr hheader
    have hsize : (fileBufferAt address bufsiz).size = bufsiz - 8 := rfl
    rw [hsize, internalSize_fileBufferAt, UInt64.toNat_sub_of_le _ _ hle, height,
      FILE_BUFFER_HEADER_SIZE]
    omega

/-- A page behind the struct and in the block leaves no place for a wrap: the block would be smaller
than the page. -/
theorem Geometry.roomy (h : Geometry address bufsiz (fileBufferAt address bufsiz)) :
    Roomy bufsiz := by
  obtain ⟨-, hbehind, hinside, -, hsize⟩ := h
  rw [toNat_totalSize] at hinside
  simp only [fileBufferAt, toNat_sizeof] at hbehind hinside hsize
  have hlt := bufsiz.toNat_lt
  refine ⟨?_, ?_⟩
  · omega
  · rw [toNat_sizeof, toNat_blockSize]
    omega

/-- The layout of a buffer. With enough room `FileBuffer_create` returns one, and each buffer that
it returns has the layout if and only if there is enough room. -/
theorem fileBuffer_geometry_iff (hblock : MallocBlock address (fileBufferTotalSize bufsiz)) :
    (Roomy bufsiz → (fileBufferCreateAt (some address) bufsiz).isSome) ∧
      ∀ fb, fileBufferCreateAt (some address) bufsiz = some fb →
        (Geometry address bufsiz fb ↔ Roomy bufsiz) := by
  refine ⟨fun hroomy => ?_, fun fb hfb => ?_⟩
  · rw [fileBufferCreateAt_roomy hroomy]
    rfl
  · have hfb' : fb = fileBufferAt address bufsiz := by
      rw [fileBufferCreateAt_eq] at hfb
      split at hfb
      · cases hfb
      · exact (Option.some.inj hfb).symm
    rw [hfb']
    exact ⟨Geometry.roomy, geometry_of_roomy hblock⟩

/-- The page in memory is that of the bytes model: zeros, as many as header and payload have. -/
theorem fileBufferCreate_layout (hblock : MallocBlock address (fileBufferTotalSize bufsiz))
    (hroomy : Roomy bufsiz) :
    (fileBufferCreate (fileBufferAt address bufsiz).size.toNat).internalBuf
      = List.replicate (fileBufferAt address bufsiz).internalSize.toNat 0 := by
  have hsize := (geometry_of_roomy hblock hroomy).size_eq
  rw [FileBuffer.internalBuf, fileBufferCreate, List.replicate_append_replicate,
    Nat.add_comm FILE_BUFFER_HEADER_SIZE, hsize]

end Layout

theorem mallocBlock_page : MallocBlock 4112 (fileBufferTotalSize (.ofNat BLOCK_SIZE)) :=
  ⟨by decide, by decide⟩

/-- A block page that starts 4048 bytes behind the struct. -/
theorem fileBuffer_geometry_page :
    ∃ fb, fileBufferCreateAt (some 4112) (.ofNat BLOCK_SIZE) = some fb ∧
      Geometry 4112 (.ofNat BLOCK_SIZE) fb := by
  obtain ⟨hsome, hiff⟩ := fileBuffer_geometry_iff mallocBlock_page
  have hroomy : Roomy (.ofNat BLOCK_SIZE) := by decide
  obtain ⟨fb, hfb⟩ := Option.isSome_iff_exists.mp (hsome hroomy)
  exact ⟨fb, hfb, (hiff fb hfb).mpr hroomy⟩

/-- A page of `2 ^ 64 - 1` bytes in a block of 4126 bytes, and a page that is smaller than its
header. `FileBuffer_create` returns both. -/
theorem fileBuffer_wraps :
    (MallocBlock 4112 (fileBufferTotalSize 0xFFFFFFFFFFFFFFFF) ∧
      ∃ fb, fileBufferCreateAt (some 4112) 0xFFFFFFFFFFFFFFFF = some fb ∧
        (fileBufferTotalSize 0xFFFFFFFFFFFFFFFF).toNat = 4126 ∧
        fb.internalSize.toNat = 2 ^ 64 - 1 ∧ ¬ Geometry 4112 0xFFFFFFFFFFFFFFFF fb) ∧
    (MallocBlock 4112 (fileBufferTotalSize 0) ∧
      ∃ fb, fileBufferCreateAt (some 4112) 0 = some fb ∧ fb.size.toNat = 2 ^ 64 - 8 ∧
        ¬ Geometry 4112 0 fb) := by
  refine ⟨⟨⟨by decide, by decide⟩, _, rfl, by decide, by decide, fun h => ?_⟩,
    ⟨⟨by decide, by decide⟩, _, rfl, by decide, fun h => ?_⟩⟩
  · exact absurd h.inside (by decide)
  · exact absurd h.size_eq (by decide)

end MustDb.Proofs.Storage
