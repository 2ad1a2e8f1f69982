import MustDb.Proofs.Storage.MetaChain
import MustDb.Storage.Serializer

/-!
# `MustDb.Proofs.Storage.ReadBounds`: reads of a length from the disk

A length that `DESERIALIZER_READ_STRING` finds in a page is any 64-bit number. It goes into two sums
that wrap: `offset + read_size`, with which `metaBlockReader_read_data` decides whether the read
leaves the block, and the size `length + 1` of the allocation.

`readLoop_stays_inside` follows the loop over arbitrary pages: once the first sum does not wrap, no
later one does. `read_inside_iff` says for which lengths the reads stay inside their buffers.
-/

set_option autoImplicit false

namespace MustDb.Proofs.Storage

open MustDb.Lib
open MustDb.Storage

/-! ### The loop -/

/-- The sum that does not wrap is compared as it is. -/
theorem crossesBlock_of_lt {offset size : Nat} (h : offset + size < 2 ^ 64) :
    crossesBlock offset size = decide (BLOCK_PAYLOAD < offset + size) := by
  rw [crossesBlock, Nat.mod_eq_of_lt h]

/-- A sum that wraps ends in the block. -/
theorem crossesBlock_of_wraps {offset size : Nat} (hoffset : offset ≤ BLOCK_PAYLOAD)
    (hsize : size < 2 ^ 64) (h : 2 ^ 64 ≤ offset + size) : crossesBlock offset size = false := by
  have hpayload : BLOCK_PAYLOAD = 8184 := rfl
  rw [crossesBlock, decide_eq_false_iff_not]
  omega

/-- One turn of the loop, whatever the next page is: the rest of the block is copied, and the reader
is behind the link of the next one. -/
theorem readDataBody_ok {s : ReadData} (hoffset : s.reader.offset ≤ BLOCK_PAYLOAD) :
    ∃ s', readDataBody s = .ok s' ∧ s'.reader.offset = BLOCK_ID_SIZE ∧
      s'.readSize = s.readSize - (BLOCK_PAYLOAD - s.reader.offset) ∧
      s'.buffer.length = s.buffer.length + (BLOCK_PAYLOAD - s.reader.offset) := by
  have hrest : s.reader.offset + (BLOCK_PAYLOAD - s.reader.offset) ≤ BLOCK_PAYLOAD := by omega
  have hlength : (pread s.reader.block.fb.buffer s.reader.offset
      (BLOCK_PAYLOAD - s.reader.offset)).length = BLOCK_PAYLOAD - s.reader.offset :=
    length_pread_of_le (by rw [s.reader.block.fb.length_buffer]; exact hrest)
  refine ⟨_, by rw [readDataBody, memcpyFrom_of_le _ hrest, ok_bind]; rfl, rfl, rfl, ?_⟩
  rw [List.length_append, hlength]

/-- The loop ends inside a block, and has then copied what the read is shorter. Induction on the
fuel: each turn but the first one copies the data of a whole block. -/
theorem readLoop_stays_inside : ∀ (fuel : Nat) (s : ReadData), BLOCK_ID_SIZE ≤ s.reader.offset →
    s.reader.offset ≤ BLOCK_PAYLOAD → s.reader.offset + s.readSize < 2 ^ 64 →
    s.reader.offset + s.readSize ≤ BLOCK_PAYLOAD + fuel * STREAM_CAPACITY →
    ∃ s', whileLoop .outOfFuel ReadData.crosses readDataBody fuel s = .ok s' ∧
      s'.reader.offset + s'.readSize ≤ BLOCK_PAYLOAD ∧
      s'.buffer.length + s'.readSize = s.buffer.length + s.readSize := by
  have hpayload : BLOCK_PAYLOAD = STREAM_CAPACITY + BLOCK_ID_SIZE := rfl
  intro fuel
  induction fuel with
  | zero =>
      intro s _ _ _ hfuel
      have hfits : s.reader.offset + s.readSize ≤ BLOCK_PAYLOAD := by omega
      exact ⟨s, whileLoop_of_false 0 (crossesBlock_of_le hfits), hfits, rfl⟩
  | succ fuel ih =>
      intro s hlow hhigh hwrap hfuel
      by_cases hfits : s.reader.offset + s.readSize ≤ BLOCK_PAYLOAD
      · exact ⟨s, whileLoop_of_false _ (crossesBlock_of_le hfits), hfits, rfl⟩
      · have hcross : s.crosses = true := by
          rw [ReadData.crosses, crossesBlock_of_lt hwrap, decide_eq_true_eq]
          omega
        obtain ⟨t, hbody, hoffset, hsize, hbuffer⟩ := readDataBody_ok hhigh
        rw [Nat.succ_mul] at hfuel
        obtain ⟨s', hloop, hfits', hcopied⟩ :=
          ih t (by omega) (by omega) (by omega) (by omega)
        exact ⟨s', by rw [whileLoop_of_true fuel hcross hbody, hloop], hfits', by omega⟩

/-! ### The theorem -/

/-- The read copies `readSize` bytes, each one from inside the payload of the page in the reader. -/
def ReadsInside (fuel : Nat) (manager : SingleFileExtentManager) (reader : MetaBlockReader)
    (readSize : Nat) : Prop :=
  ∃ manager' reader' bytes,
    metaBlockReaderReadData fuel manager reader readSize = .ok (manager', reader', bytes) ∧
      bytes.length = readSize

/-- A read for which the first sum does not wrap stays inside. -/
theorem readsInside_of_lt {fuel readSize : Nat} (manager : SingleFileExtentManager)
    {reader : MetaBlockReader} (hlow : BLOCK_ID_SIZE ≤ reader.offset)
    (hhigh : reader.offset ≤ BLOCK_PAYLOAD) (hfuel : readSize ≤ fuel * STREAM_CAPACITY)
    (h : reader.offset + readSize < 2 ^ 64) : ReadsInside fuel manager reader readSize := by
  obtain ⟨s, hloop, hfits, hcopied⟩ := readLoop_stays_inside fuel
    { manager, reader, readSize, buffer := [] } hlow hhigh h
    (Nat.add_le_add hhigh hfuel)
  have hlength : (pread s.reader.block.fb.buffer s.reader.offset s.readSize).length = s.readSize :=
    length_pread_of_le (by rw [s.reader.block.fb.length_buffer]; exact hfits)
  refine ⟨s.manager, { s.reader with offset := s.reader.offset + s.readSize },
    s.buffer ++ pread s.reader.block.fb.buffer s.reader.offset s.readSize, ?_, ?_⟩
  · rw [metaBlockReaderReadData, hloop, ok_bind, memcpyFrom_of_le _ hfits]
    rfl
  · rw [List.length_append, hlength, hcopied]
    exact Nat.zero_add _

/-- A read for which it wraps copies from behind the page, with any fuel. -/
theorem readData_of_wraps (fuel : Nat) {readSize : Nat} (manager : SingleFileExtentManager)
    {reader : MetaBlockReader} (hhigh : reader.offset ≤ BLOCK_PAYLOAD) (hsize : readSize < 2 ^ 64)
    (h : 2 ^ 64 ≤ reader.offset + readSize) :
    metaBlockReaderReadData fuel manager reader readSize = .error .outOfBounds := by
  have hpayload : BLOCK_PAYLOAD = 8184 := rfl
  have hcross : ReadData.crosses { manager, reader, readSize, buffer := [] } = false :=
    crossesBlock_of_wraps hhigh hsize h
  have hcopy : reader.block.fb.memcpyFrom reader.offset readSize = .error .outOfBounds :=
    if_neg (by omega)
  rw [metaBlockReaderReadData, whileLoop_of_false fuel hcross, ok_bind, hcopy]
  rfl

theorem readsInside_iff {fuel : Nat} (manager : SingleFileExtentManager) {reader : MetaBlockReader}
    (hlow : BLOCK_ID_SIZE ≤ reader.offset) (hhigh : reader.offset ≤ BLOCK_PAYLOAD)
    {readSize : Nat} (hsize : readSize < 2 ^ 64) (hfuel : readSize ≤ fuel * STREAM_CAPACITY) :
    ReadsInside fuel manager reader readSize ↔ reader.offset + readSize < 2 ^ 64 := by
  constructor
  · rintro ⟨manager', reader', bytes, hread, -⟩
    by_contra hwraps
    rw [readData_of_wraps fuel manager hhigh hsize (Nat.le_of_not_lt hwraps)] at hread
    cases hread
  · exact readsInside_of_lt manager hlow hhigh hfuel

/-- The characters of a string stay inside the pages that they come from, and inside the
`length + 1` bytes that are allocated for them. -/
def StringInside (fuel : Nat) (client : Client (SingleFileExtentManager × MetaBlockReader))
    (length : Nat) : Prop :=
  ∃ client' str,
    deserializerReadChars (metaBlockDeserializer fuel) length client = .ok (client', str)

/-- The size of the allocation wraps for none of the lengths for which the read stays inside,
because the reader is behind the link of its block. -/
theorem stringInside_iff {fuel : Nat} (manager : SingleFileExtentManager)
    {reader : MetaBlockReader} (hlow : BLOCK_ID_SIZE ≤ reader.offset)
    (hhigh : reader.offset ≤ BLOCK_PAYLOAD) {length : Nat} (hsize : length < 2 ^ 64)
    (hfuel : length ≤ fuel * STREAM_CAPACITY) {outcomes : MallocOutcomes}
    (halloc : (malloc outcomes).1 = true) :
    StringInside fuel { reader := (manager, reader), outcomes } length ↔
      reader.offset + length < 2 ^ 64 := by
  have hlink : BLOCK_ID_SIZE = 8 := rfl
  rw [StringInside]
  by_cases hlength : 2 ^ 64 ≤ length + 1
  · -- no memory for the characters, and the other sum wraps too
    rw [deserializerReadChars, if_pos hlength]
    constructor
    · rintro ⟨_, _, hread⟩
      cases hread
    · intro hlt
      omega
  · rw [← readsInside_iff manager hlow hhigh hsize hfuel]
    have hchars : deserializerReadChars (metaBlockDeserializer fuel) length
        { reader := (manager, reader), outcomes }
          = (metaBlockReaderReadData fuel manager reader length).map fun r =>
            ({ reader := (r.1, r.2.1), outcomes := (malloc outcomes).2 },
              CString.ofBytes r.2.2) := by
      simp only [deserializerReadChars, deserializerRead, metaBlockDeserializer, hlength, halloc,
        if_false, not_true_eq_false]
      cases metaBlockReaderReadData fuel manager reader length <;> rfl
    rw [hchars]
    constructor
    · rintro ⟨client', str, hread⟩
      rw [readsInside_iff manager hlow hhigh hsize hfuel]
      by_contra hwraps
      rw [readData_of_wraps fuel manager hhigh hsize (Nat.le_of_not_lt hwraps)] at hread
      cases hread
    · rintro ⟨manager', reader', bytes, hdata, -⟩
      rw [hdata]
      exact ⟨_, _, rfl⟩

/-- For every reader that is behind the link of its block, every 64-bit size, and fuel for as many
turns as the read has blocks: the read stays inside the pages exactly when `offset + read_size` does
not wrap, and so does the read of a string of this length, with its allocation. -/
theorem read_inside_iff (fuel : Nat) (manager : SingleFileExtentManager) (reader : MetaBlockReader)
    (hlow : BLOCK_ID_SIZE ≤ reader.offset) (hhigh : reader.offset ≤ BLOCK_PAYLOAD)
    (readSize : UInt64) (hfuel : readSize.toNat ≤ fuel * STREAM_CAPACITY)
    (outcomes : MallocOutcomes) (halloc : (malloc outcomes).1 = true) :
    (ReadsInside fuel manager reader readSize.toNat ↔
        reader.offset + readSize.toNat < 2 ^ 64) ∧
      (StringInside fuel { reader := (manager, reader), outcomes } readSize.toNat ↔
        reader.offset + readSize.toNat < 2 ^ 64) :=
  ⟨readsInside_iff manager hlow hhigh readSize.toNat_lt hfuel,
    stringInside_iff manager hlow hhigh readSize.toNat_lt hfuel halloc⟩

/-- A page with a string of the length `2 ^ 64 - 16`. -/
def hugeLengthPage : FileBuffer BLOCK_PAYLOAD :=
  { fileBufferCreate BLOCK_PAYLOAD with
    buffer := u64Bytes 0 ++ (u64Bytes 0xfffffffffffffff0 ++ List.replicate 8168 0)
    length_buffer := by
      simp only [List.length_append, length_u64Bytes, List.length_replicate]
      rfl }

/-- The reader in front of the string. -/
def hugeLengthReader : MetaBlockReader :=
  { block := { id := 0, fb := hugeLengthPage }, offset := BLOCK_ID_SIZE, nextBlockId := 0 }

/-- A read over two blocks. -/
theorem read_inside_iff_two_blocks :
    ReadsInside 2 (managerZero { content := [], outcomes := [] }) hugeLengthReader 10000 :=
  (read_inside_iff 2 _ hugeLengthReader (by decide) (by decide) 10000 (by decide) [] rfl).1.mpr
    (by decide)

/-- The string of this length makes the reader copy from behind its page. -/
theorem huge_length_leaves_page :
    let manager := managerZero { content := [], outcomes := [] }
    metaBlockReaderReadData 1 manager { hugeLengthReader with offset := 16 } 18446744073709551600
        = .error .outOfBounds ∧
      deserializerReadString (metaBlockDeserializer 1)
          { reader := (manager, hugeLengthReader), outcomes := [] } = .error .outOfBounds := by
  intro manager
  have hread : metaBlockReaderReadData 1 manager { hugeLengthReader with offset := 16 }
      18446744073709551600 = .error .outOfBounds :=
    readData_of_wraps 1 manager (by decide) (by decide) (by decide)
  -- the eight bytes of the length are in the page, behind its link
  have hlength : deserializerReadType (metaBlockDeserializer 1) 8
      { reader := (manager, hugeLengthReader), outcomes := [] }
        = .ok ({ reader := (manager, { hugeLengthReader with offset := 16 }), outcomes := [] },
            18446744073709551600) := rfl
  refine ⟨hread, ?_⟩
  rw [deserializerReadString, hlength, ok_bind]
  simp only [deserializerReadChars, malloc_nil, deserializerRead, metaBlockDeserializer, hread]
  rfl

end MustDb.Proofs.Storage
