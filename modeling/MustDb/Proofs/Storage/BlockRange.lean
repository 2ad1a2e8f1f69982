import Mathlib.Data.Set.BooleanAlgebra
import Mathlib.Order.CompletePartialOrder
import MustDb.Proofs.Storage.PageChecks

/-!
# `MustDb.Proofs.Storage.BlockRange`: where the blocks of all ids lie

A block id is unsigned, so the assert `block->id >= 0` in front of the block I/O accepts all of
them, `INVALID_BLOCK` included. `blockLocation_eq` gives the offset of every id: it counts
pages from 4096 on, and starts again after `2 ^ 51` ids, where the multiplication wraps.

`blockRange` has the bytes that the I/O of a block transfers, and `transfersOnly_blockRange` says
so of the two functions. `block_io_safe_iff` says for which ids these bytes are behind the headers,
and for which pairs of ids they are disjoint.
-/

set_option autoImplicit false

namespace MustDb.Proofs.Storage

open MustDb.Lib
open MustDb.Storage

/-! ### The bytes of a block -/

/-- The offset of any id: the page before the first block belongs to the ids that are congruent to
`INVALID_BLOCK`. -/
theorem blockLocation_eq (id : BlockId) :
    (blockLocation id).toNat = 4096 + (id.toNat + 1) % 2 ^ 51 * 8192 := by
  have hsize : (UInt64.ofNat 8192).toNat = 8192 := rfl
  simp only [blockLocation, UInt64.toNat_add, UInt64.toNat_mul, blockStart_toNat, BLOCK_SIZE, hsize]
  omega

/-- The offsets that the I/O of a block transfers; there are none when the seek fails. -/
def blockRange (id : BlockId) : Set Nat :=
  {i | ¬ fseekFails (blockLocation id) ∧
    (blockLocation id).toNat ≤ i ∧ i < (blockLocation id).toNat + BLOCK_SIZE}

theorem mem_blockRange {id : BlockId} {i : Nat} :
    i ∈ blockRange id ↔ (id.toNat + 1) % 2 ^ 51 < 2 ^ 50 ∧
      4096 + (id.toNat + 1) % 2 ^ 51 * 8192 ≤ i ∧
      i < 4096 + (id.toNat + 1) % 2 ^ 51 * 8192 + 8192 := by
  rw [blockRange, Set.mem_ofPred_eq, fseekFails, blockLocation_eq, BLOCK_SIZE]
  omega

theorem length_blockPage (fb : FileBuffer BLOCK_PAYLOAD) :
    (pageOf fb.buffer).length = BLOCK_SIZE := by
  rw [length_pageOf, fb.length_buffer]
  rfl

/-- The block I/O of an id transfers the bytes of a range and no others. -/
structure TransfersOnly (id : BlockId) (range : Set Nat) : Prop where
  /-- A write keeps the other bytes of the file, whatever its outcome. -/
  write : ∀ (manager : SingleFileExtentManager) (fb : FileBuffer BLOCK_PAYLOAD) (i : Nat),
    i < manager.fileHandle.content.length → i ∉ range →
    (singleFileBlockManagerWrite manager { id, fb }).1.fileHandle.content[i]?
      = manager.fileHandle.content[i]?
  /-- A write that is stored in full leaves the page there. -/
  written : ∀ (manager : SingleFileExtentManager) (fb : FileBuffer BLOCK_PAYLOAD) (i : Nat),
    StoresAll BLOCK_SIZE manager.fileHandle.nextOutcome → i ∈ range →
    (singleFileBlockManagerWrite manager { id, fb }).1.fileHandle.content[i]?
      = (pageOf fb.buffer)[i - (blockLocation id).toNat]?
  /-- A read gives the same bytes from files that agree there. -/
  read : ∀ (manager manager' : SingleFileExtentManager) (fb : FileBuffer BLOCK_PAYLOAD),
    (∀ i ∈ range, manager.fileHandle.content[i]? = manager'.fileHandle.content[i]?) →
    (singleFileBlockManagerRead manager { id, fb }).2
      = (singleFileBlockManagerRead manager' { id, fb }).2

theorem blockRange_of_not_fseekFails {id : BlockId} (hseek : ¬ fseekFails (blockLocation id))
    (i : Nat) : i ∈ blockRange id ↔
      (blockLocation id).toNat ≤ i ∧ i < (blockLocation id).toNat + BLOCK_SIZE :=
  ⟨fun h => h.2, fun h => ⟨hseek, h⟩⟩

/-- The block I/O of an id transfers the bytes of its range. -/
theorem transfersOnly_blockRange (id : BlockId) : TransfersOnly id (blockRange id) where
  write manager fb i hi hnot := by
    -- whatever the outcome, a prefix of the page arrives, and none of it when the seek fails
    show (fileWriteAt manager.fileHandle (pageOf fb.buffer) (blockLocation id)).1.content[i]? = _
    by_cases hseek : fseekFails (blockLocation id)
    · simp [fileWriteAt, hseek]
    · obtain ⟨k, hk⟩ := fileWriteAt_prefix manager.fileHandle (pageOf fb.buffer) (blockLocation id)
      rw [hk]
      by_cases hnil : (pageOf fb.buffer).take k = []
      · rw [hnil, pwrite_nil]
      · rw [blockRange_of_not_fseekFails hseek] at hnot
        have hlen : ((pageOf fb.buffer).take k).length ≤ BLOCK_SIZE :=
          (List.length_take_le' k _).trans (length_blockPage fb).le
        rw [getElem?_pwrite hnil, if_pos hi]
        by_cases hfront : i < (blockLocation id).toNat
        · rw [if_pos hfront]
        · rw [if_neg hfront, if_neg (by omega)]
  written manager fb i hall hmem := by
    have hne : pageOf fb.buffer ≠ [] := by
      rw [← List.length_pos_iff, length_blockPage]
      decide
    have hrange := (blockRange_of_not_fseekFails hmem.1 i).mp hmem
    show (fileWriteAt manager.fileHandle (pageOf fb.buffer) (blockLocation id)).1.content[i]? = _
    rw [fileWriteAt_stored hmem.1 (by rwa [length_blockPage]), getElem?_pwrite hne,
      if_neg (by omega), if_pos (by rw [length_blockPage]; exact hrange.2)]
  read manager manager' fb hagree := by
    have hpresent : presentBytes BLOCK_PAYLOAD manager.fileHandle (blockLocation id)
        = presentBytes BLOCK_PAYLOAD manager'.fileHandle (blockLocation id) := by
      unfold presentBytes
      by_cases hseek : fseekFails (blockLocation id)
      · rw [if_pos hseek, if_pos hseek]
      · rw [if_neg hseek, if_neg hseek]
        apply List.ext_getElem?
        intro i
        rw [getElem?_pread, getElem?_pread]
        by_cases hi : i < BLOCK_PAYLOAD + 8
        · have hmem : (blockLocation id).toNat + i ∈ blockRange id :=
            (blockRange_of_not_fseekFails hseek _).mpr ⟨by omega, by
              simp only [BLOCK_PAYLOAD, BLOCK_SIZE, FILE_BUFFER_HEADER_SIZE] at hi ⊢
              omega⟩
          rw [if_pos hi, if_pos hi, hagree _ hmem]
        · rw [if_neg hi, if_neg hi]
    have hinternal : (fileBufferRead fb manager.fileHandle (blockLocation id)).1.internalBuf
        = (fileBufferRead fb manager'.fileHandle (blockLocation id)).1.internalBuf := by
      rw [fileBufferRead_internalBuf, fileBufferRead_internalBuf, hpresent]
    exact congrArg (Block.mk id) (internalBuf_inj hinternal)

/-! ### The theorem -/

/-- The bytes of a block are behind the three header pages. -/
def BehindHeaders (id : BlockId) : Prop := ∀ i ∈ blockRange id, BLOCK_START.toNat ≤ i

/-- The I/O of two blocks keeps away from the headers, and from each other. -/
structure BlockIoSafe (id id' : BlockId) : Prop where
  behind : BehindHeaders id
  behind' : BehindHeaders id'
  disjoint : id ≠ id' → Disjoint (blockRange id) (blockRange id')

theorem behindHeaders_iff (id : BlockId) : BehindHeaders id ↔ (id.toNat + 1) % 2 ^ 51 ≠ 0 := by
  constructor
  · intro hbehind hzero
    have hmem : 4096 ∈ blockRange id := mem_blockRange.mpr (by omega)
    exact absurd (hbehind 4096 hmem) (by decide)
  · intro hne i hmem
    obtain ⟨-, hle, -⟩ := mem_blockRange.mp hmem
    rw [blockStart_toNat]
    omega

theorem disjoint_blockRange_iff (id id' : BlockId) :
    Disjoint (blockRange id) (blockRange id') ↔
      id.toNat % 2 ^ 51 ≠ id'.toNat % 2 ^ 51 ∨ 2 ^ 50 ≤ (id.toNat + 1) % 2 ^ 51 := by
  constructor
  · intro hdisjoint
    by_contra hsame
    have hmem : 4096 + (id.toNat + 1) % 2 ^ 51 * 8192 ∈ blockRange id :=
      mem_blockRange.mpr (by omega)
    have hmem' : 4096 + (id.toNat + 1) % 2 ^ 51 * 8192 ∈ blockRange id' :=
      mem_blockRange.mpr (by omega)
    exact Set.disjoint_left.mp hdisjoint hmem hmem'
  · intro hdiffer
    refine Set.disjoint_left.mpr fun i hmem hmem' => ?_
    have h := mem_blockRange.mp hmem
    have h' := mem_blockRange.mp hmem'
    omega

/-- For every two ids: the bytes that their I/O transfers are those of `blockRange`, and they keep
away from the headers and from each other exactly when no id is congruent to `INVALID_BLOCK` modulo
`2 ^ 51`, and the two are not congruent to each other, unless they are equal or the seeks fail. -/
theorem block_io_safe_iff (id id' : BlockId) :
    TransfersOnly id (blockRange id) ∧ TransfersOnly id' (blockRange id') ∧
      (BlockIoSafe id id' ↔
        (id.toNat + 1) % 2 ^ 51 ≠ 0 ∧ (id'.toNat + 1) % 2 ^ 51 ≠ 0 ∧
          (id = id' ∨ id.toNat % 2 ^ 51 ≠ id'.toNat % 2 ^ 51 ∨
            2 ^ 50 ≤ (id.toNat + 1) % 2 ^ 51)) := by
  refine ⟨transfersOnly_blockRange id, transfersOnly_blockRange id', ?_, ?_⟩
  · intro h
    refine ⟨(behindHeaders_iff id).mp h.behind, (behindHeaders_iff id').mp h.behind', ?_⟩
    rcases Decidable.em (id = id') with heq | hne
    · exact Or.inl heq
    · exact Or.inr ((disjoint_blockRange_iff id id').mp (h.disjoint hne))
  · rintro ⟨hid, hid', hpair⟩
    refine ⟨(behindHeaders_iff id).mpr hid, (behindHeaders_iff id').mpr hid', fun hne => ?_⟩
    exact (disjoint_blockRange_iff id id').mpr (hpair.resolve_left hne)

/-- The page of `INVALID_BLOCK` is the one of both database headers, and the page of block `2 ^ 51`
is the one of block 0. -/
theorem invalid_block_hits_headers :
    (∀ i, i ∈ blockRange INVALID_BLOCK ↔ 4096 ≤ i ∧ i < 12288) ∧
      ¬ BlockIoSafe INVALID_BLOCK 0 ∧ ¬ BlockIoSafe 0 2251799813685248 := by
  refine ⟨fun i => ?_, fun h => ?_, fun h => ?_⟩
  · rw [mem_blockRange, show INVALID_BLOCK.toNat = 18446744073709551615 from rfl]
    omega
  · exact (behindHeaders_iff _).mp h.behind (by decide)
  · have hdisjoint := (disjoint_blockRange_iff _ _).mp (h.disjoint (by decide))
    exact absurd hdisjoint (by decide)

end MustDb.Proofs.Storage
