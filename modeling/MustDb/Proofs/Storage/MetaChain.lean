import MustDb.Proofs.Storage.MetaStream
import MustDb.Proofs.Storage.PageChecks

/-!
# `MustDb.Proofs.Storage.MetaChain`: a reader over a chain of blocks

A chain of blocks is a list of ids whose pages are in the file, each page linked to the next one
(`StoredChain`). Its data are the bytes behind the links (`chainData`).

`ReaderAt` says where a reader stands: in which block of the chain, and how many data bytes of it
are behind. `ReaderAt.readData` is the spec of `metaBlockReader_read_data`: the call returns the
next bytes of the data, across any number of blocks. `reader_delivers_slices` is the run of any
calls: they return the successive slices of the data, and the blocks that have been fetched are
those with a byte that was asked for.
-/

set_option autoImplicit false

namespace MustDb.Proofs.Storage

open MustDb.Lib
open MustDb.Storage

/-! ### Chains -/

/-- The payload of a block page in the file. -/
def blockPayload (handle : FileHandle) (id : BlockId) : List UInt8 :=
  (pread handle.content (blockLocation id).toNat BLOCK_SIZE).drop FILE_BUFFER_HEADER_SIZE

/-- The link at the start of a block. -/
def linkOf (handle : FileHandle) (id : BlockId) : BlockId := u64OfBytes (blockPayload handle id)

/-- The data of a block, behind its link. -/
def blockData (handle : FileHandle) (id : BlockId) : List UInt8 :=
  (blockPayload handle id).drop BLOCK_ID_SIZE

/-- The data of a chain of blocks. -/
def chainData (handle : FileHandle) (ids : List BlockId) : List UInt8 :=
  ids.flatMap (blockData handle)

/-- The payload of a page that is in the file. -/
theorem blockPayload_of_holds {handle : FileHandle} {id : BlockId} (hid : Addressable id)
    {payload : List UInt8}
    (hpage : Holds pageLayout handle.content (.block id) (pageOf payload)) :
    blockPayload handle id = payload := by
  have hread : pread handle.content (blockLocation id).toNat BLOCK_SIZE = pageOf payload := by
    rw [blockLocation_toNat hid]
    exact hpage.read_eq
  rw [blockPayload, hread, pageOf_drop]

/-- The pages of the blocks are in the file, and each one links to the next. -/
structure StoredChain (handle : FileHandle) (ids : List BlockId) : Prop where
  inFile : ∀ id ∈ ids, PageInFile BLOCK_PAYLOAD handle (blockLocation id)
  linked : ids.IsChain fun id next => linkOf handle id = next

section Chain
variable {handle : FileHandle} {ids : List BlockId}

/-- The payload of a block that is in the file has its full size. -/
theorem length_blockPayload {id : BlockId}
    (hin : PageInFile BLOCK_PAYLOAD handle (blockLocation id)) :
    (blockPayload handle id).length = BLOCK_PAYLOAD := by
  have hlen : (pread handle.content (blockLocation id).toNat BLOCK_SIZE).length = BLOCK_SIZE :=
    length_pread_of_le hin.2
  rw [blockPayload, List.length_drop, hlen]

theorem length_blockData {id : BlockId}
    (hin : PageInFile BLOCK_PAYLOAD handle (blockLocation id)) :
    (blockData handle id).length = STREAM_CAPACITY := by
  rw [blockData, List.length_drop, length_blockPayload hin]
  rfl

/-- The data of a chain of blocks that are in the file. -/
theorem length_chainData (hin : ∀ id ∈ ids, PageInFile BLOCK_PAYLOAD handle (blockLocation id)) :
    (chainData handle ids).length = ids.length * STREAM_CAPACITY := by
  induction ids with
  | nil => rw [chainData, List.flatMap_nil, List.length_nil, List.length_nil, Nat.zero_mul]
  | cons id ids ih =>
      have hrest := ih fun id' hid' => hin id' (List.mem_cons_of_mem _ hid')
      rw [chainData] at hrest
      rw [chainData, List.flatMap_cons, List.length_append, hrest,
        length_blockData (hin id List.mem_cons_self), List.length_cons, Nat.succ_mul, Nat.add_comm]

/-- Bytes of one block, by their place in the data of the chain. -/
theorem StoredChain.pread_chainData (hchain : StoredChain handle ids) {i : Nat} {id : BlockId}
    (hid : ids[i]? = some id) {o n : Nat} (hfit : o + n ≤ STREAM_CAPACITY) :
    pread (chainData handle ids) (i * STREAM_CAPACITY + o) n
      = pread (blockPayload handle id) (BLOCK_ID_SIZE + o) n := by
  obtain ⟨hi, hget⟩ := List.getElem?_eq_some_iff.mp hid
  have hsplit : chainData handle ids = chainData handle (ids.take i)
      ++ (blockData handle id ++ chainData handle (ids.drop (i + 1))) := by
    conv_lhs => rw [chainData, ← List.take_append_drop i ids, List.drop_eq_getElem_cons hi, hget]
    rw [List.flatMap_append, List.flatMap_cons]
    rfl
  have hbefore : (chainData handle (ids.take i)).length = i * STREAM_CAPACITY := by
    rw [length_chainData fun id' hid' => hchain.inFile id' (List.mem_of_mem_take hid'),
      List.length_take, Nat.min_eq_left hi.le]
  have hblock := length_blockData (hchain.inFile id (List.mem_of_getElem? hid))
  rw [hsplit, pread, pread, ← hbefore, ← List.drop_drop, List.drop_left,
    List.drop_append_of_le_length (by omega), List.take_append_of_le_length
      (by rw [List.length_drop]; omega), blockData, List.drop_drop]

/-- The link to the next block of a chain. -/
theorem StoredChain.linkOf_eq (hchain : StoredChain handle ids) {i : Nat} {id next : BlockId}
    (hid : ids[i]? = some id) (hnext : ids[i + 1]? = some next) : linkOf handle id = next := by
  obtain ⟨hi, rfl⟩ := List.getElem?_eq_some_iff.mp hid
  obtain ⟨hi', rfl⟩ := List.getElem?_eq_some_iff.mp hnext
  exact List.isChain_iff_getElem.mp hchain.linked i hi'

end Chain

/-! ### The place of a reader -/

/-- The reader stands in block `i` of the chain, behind `o` of its data bytes. `manager₀` is the
manager before the reader was made. -/
structure ReaderAt (manager₀ : SingleFileExtentManager) (ids : List BlockId) (i o : Nat)
    (manager : SingleFileExtentManager) (reader : MetaBlockReader) : Prop where
  manager_eq : manager =
    { manager₀ with usedBlocks := manager₀.usedBlocks ++ ids.take (i + 1) }
  page : ∃ id, ids[i]? = some id ∧
    reader.block.fb.buffer = blockPayload manager₀.fileHandle id ∧
    reader.nextBlockId = linkOf manager₀.fileHandle id
  offset_eq : reader.offset = BLOCK_ID_SIZE + o
  le : o ≤ STREAM_CAPACITY

section Reader
variable {manager₀ : SingleFileExtentManager} {ids : List BlockId}

/-- A reader that fetches block `i` stands at its start. -/
theorem StoredChain.readNewBlock (hchain : StoredChain manager₀.fileHandle ids) {i : Nat}
    {id : BlockId} (hid : ids[i]? = some id) {manager : SingleFileExtentManager}
    (hmanager : manager = { manager₀ with usedBlocks := manager₀.usedBlocks ++ ids.take i })
    (reader : MetaBlockReader) :
    ReaderAt manager₀ ids i 0 (metaBlockReaderReadNewBlock manager reader id).1
      (metaBlockReaderReadNewBlock manager reader id).2 := by
  have hin := hchain.inFile id (List.mem_of_getElem? hid)
  have hbuffer : (fileBufferRead reader.block.fb manager₀.fileHandle (blockLocation id)).1.buffer
      = blockPayload manager₀.fileHandle id := fileBufferRead_buffer _ hin.1 hin.2
  subst hmanager
  refine ⟨?_, ⟨id, hid, hbuffer, congrArg u64OfBytes hbuffer⟩, rfl, Nat.zero_le _⟩
  obtain ⟨hi, rfl⟩ := List.getElem?_eq_some_iff.mp hid
  rw [List.take_succ_eq_append_getElem hi, ← List.append_assoc]
  rfl

/-- A new reader stands at the start of the chain. -/
theorem StoredChain.readerInit (hchain : StoredChain manager₀.fileHandle ids) {id : BlockId}
    (hid : ids[0]? = some id) :
    ReaderAt manager₀ ids 0 0 (metaBlockReaderInit manager₀ id).1
      (metaBlockReaderInit manager₀ id).2 :=
  hchain.readNewBlock hid (by rw [List.take_zero, List.append_nil]) _

/-- The buffer of a C call is a memory object, of at most `PTRDIFF_MAX` bytes. -/
def PTRDIFF_MAX : Nat := 2 ^ 63 - 1

/-- The condition of both loops, for the size of a memory object. -/
theorem crossesBlock_eq_true_iff {offset size : Nat} (hoffset : offset ≤ BLOCK_PAYLOAD)
    (hsize : size ≤ PTRDIFF_MAX) :
    crossesBlock offset size = true ↔ BLOCK_PAYLOAD < offset + size := by
  have hpayload : BLOCK_PAYLOAD = 8184 := rfl
  have hmax : PTRDIFF_MAX = 2 ^ 63 - 1 := rfl
  rw [crossesBlock, decide_eq_true_eq]
  omega

/-- One turn of the reader's loop: the rest of the block is copied, and the next one is fetched. -/
theorem ReaderAt.readDataBody (hchain : StoredChain manager₀.fileHandle ids) {i o : Nat}
    {s : ReadData} (h : ReaderAt manager₀ ids i o s.manager s.reader) {next : BlockId}
    (hnext : ids[i + 1]? = some next) :
    ∃ s', readDataBody s = .ok s' ∧ ReaderAt manager₀ ids (i + 1) 0 s'.manager s'.reader ∧
      s'.readSize = s.readSize - (STREAM_CAPACITY - o) ∧
      s'.buffer = s.buffer ++ pread (chainData manager₀.fileHandle ids) (i * STREAM_CAPACITY + o)
        (STREAM_CAPACITY - o) := by
  obtain ⟨id, hid, hbuffer, hlink⟩ := h.page
  have hle := h.le
  -- the local `offset` counts the link, and `o` does not
  have hrest : BLOCK_PAYLOAD - s.reader.offset = STREAM_CAPACITY - o := by
    rw [h.offset_eq, blockPayload_eq]
    omega
  have hcopy : s.reader.block.fb.memcpyFrom s.reader.offset (STREAM_CAPACITY - o)
      = .ok (pread (chainData manager₀.fileHandle ids) (i * STREAM_CAPACITY + o)
        (STREAM_CAPACITY - o)) := by
    rw [memcpyFrom_of_le _ (by rw [h.offset_eq, blockPayload_eq]; omega), hbuffer, h.offset_eq,
      hchain.pread_chainData hid (by omega)]
  refine ⟨{ manager := (metaBlockReaderReadNewBlock s.manager s.reader next).1
            reader := (metaBlockReaderReadNewBlock s.manager s.reader next).2
            readSize := s.readSize - (STREAM_CAPACITY - o)
            buffer := s.buffer ++ pread (chainData manager₀.fileHandle ids)
              (i * STREAM_CAPACITY + o) (STREAM_CAPACITY - o) },
    ?_, hchain.readNewBlock hnext h.manager_eq s.reader, rfl, rfl⟩
  rw [Storage.readDataBody, hrest, hcopy, ok_bind, hlink, hchain.linkOf_eq hid hnext]
  rfl

/-- The loop goes on when the read ends behind the block of the reader. -/
theorem ReaderAt.crosses_eq {i o : Nat} {s : ReadData}
    (h : ReaderAt manager₀ ids i o s.manager s.reader) (hsize : s.readSize ≤ PTRDIFF_MAX) :
    s.crosses = decide (STREAM_CAPACITY < o + s.readSize) := by
  have hle := h.le
  have hoffset : s.reader.offset ≤ BLOCK_PAYLOAD := by
    rw [h.offset_eq, blockPayload_eq]
    omega
  rw [Bool.eq_iff_iff, ReadData.crosses, crossesBlock_eq_true_iff hoffset hsize, h.offset_eq,
    blockPayload_eq, decide_eq_true_eq]
  omega

/-- The loop of a read that stays inside the data of the chain. Induction on the fuel: one turn for
each block that the read goes into. -/
theorem ReaderAt.readLoop (hchain : StoredChain manager₀.fileHandle ids) :
    ∀ (fuel i o : Nat) (s : ReadData), ReaderAt manager₀ ids i o s.manager s.reader →
      i * STREAM_CAPACITY + o + s.readSize ≤ ids.length * STREAM_CAPACITY →
      s.readSize ≤ PTRDIFF_MAX → ids.length ≤ i + 1 + fuel →
      ∃ s' i' o', whileLoop .outOfFuel ReadData.crosses Storage.readDataBody fuel s = .ok s' ∧
        ReaderAt manager₀ ids i' o' s'.manager s'.reader ∧ o' + s'.readSize ≤ STREAM_CAPACITY ∧
        i' * STREAM_CAPACITY + o' + s'.readSize = i * STREAM_CAPACITY + o + s.readSize ∧
        s'.buffer ++ pread (chainData manager₀.fileHandle ids) (i' * STREAM_CAPACITY + o')
            s'.readSize
          = s.buffer ++ pread (chainData manager₀.fileHandle ids) (i * STREAM_CAPACITY + o)
            s.readSize ∧
        (i' = i ∧ o' = o ∨ 0 < s'.readSize) := by
  intro fuel
  induction fuel with
  | zero =>
      intro i o s h hin hsize hfuel
      -- the reader is in the last block, and the read ends there
      obtain ⟨id, hid, -, -⟩ := h.page
      have hi := (List.getElem?_eq_some_iff.mp hid).1
      have hlast : ids.length = i + 1 := by omega
      rw [hlast, Nat.succ_mul] at hin
      have hfits : o + s.readSize ≤ STREAM_CAPACITY := by omega
      have hstop : s.crosses = false :=
        (h.crosses_eq hsize).trans (decide_eq_false (Nat.not_lt.mpr hfits))
      exact ⟨s, i, o, whileLoop_of_false 0 hstop, h, hfits, rfl, rfl, Or.inl ⟨rfl, rfl⟩⟩
  | succ fuel ih =>
      intro i o s h hin hsize hfuel
      have hle := h.le
      by_cases hfits : o + s.readSize ≤ STREAM_CAPACITY
      · -- the read ends in this block, and the loop does not start
        have hstop : s.crosses = false :=
          (h.crosses_eq hsize).trans (decide_eq_false (Nat.not_lt.mpr hfits))
        exact ⟨s, i, o, whileLoop_of_false _ hstop, h, hfits, rfl, rfl, Or.inl ⟨rfl, rfl⟩⟩
      · -- the data of the chain goes on, so there is a next block
        have hi' : i + 1 < ids.length := by
          by_contra hlast
          have hmul : ids.length * STREAM_CAPACITY ≤ (i + 1) * STREAM_CAPACITY :=
            Nat.mul_le_mul_right _ (by omega)
          rw [Nat.succ_mul] at hmul
          omega
        have hcross : s.crosses = true :=
          (h.crosses_eq hsize).trans (decide_eq_true (Nat.not_le.mp hfits))
        obtain ⟨t, hbody, ht, hrest, hbuffer⟩ :=
          h.readDataBody hchain (List.getElem?_eq_getElem hi')
        obtain ⟨s', i', o', hloop, hs', hfits', hpos, hbytes, hneeded⟩ := ih (i + 1) 0 t ht
          (by rw [hrest, Nat.succ_mul]; omega) (by omega) (by omega)
        refine ⟨s', i', o', ?_, hs', hfits', ?_, ?_, Or.inr ?_⟩
        · rw [whileLoop_of_true fuel hcross hbody, hloop]
        · rw [hpos, hrest, Nat.succ_mul]
          omega
        · have hdata := length_chainData hchain.inFile
          -- the bytes of this turn, and the bytes of the blocks behind it
          have hsplit : s.readSize = (STREAM_CAPACITY - o) + t.readSize := by omega
          have hnext : i * STREAM_CAPACITY + o + (STREAM_CAPACITY - o)
              = (i + 1) * STREAM_CAPACITY + 0 := by
            rw [Nat.succ_mul]
            omega
          rw [hbytes, hbuffer, List.append_assoc, hsplit, pread_add _ _ _ _ (by omega), hnext]
        · -- a byte of the new block was still to read
          rcases hneeded with ⟨rfl, rfl⟩ | hneeded
          · omega
          · exact hneeded

/-- The spec of `metaBlockReader_read_data`: the next `n` bytes of the data of the chain. -/
theorem ReaderAt.readData (hchain : StoredChain manager₀.fileHandle ids) (fuel : Nat) {i o n : Nat}
    {manager : SingleFileExtentManager} {reader : MetaBlockReader}
    (h : ReaderAt manager₀ ids i o manager reader)
    (hin : i * STREAM_CAPACITY + o + n ≤ ids.length * STREAM_CAPACITY) (hsize : n ≤ PTRDIFF_MAX)
    (hfuel : ids.length ≤ i + 1 + fuel) :
    ∃ manager' reader' i' o', metaBlockReaderReadData fuel manager reader n
        = .ok (manager', reader',
          pread (chainData manager₀.fileHandle ids) (i * STREAM_CAPACITY + o) n) ∧
      ReaderAt manager₀ ids i' o' manager' reader' ∧
      i' * STREAM_CAPACITY + o' = i * STREAM_CAPACITY + o + n ∧
      (i' = i ∧ o' = o + n ∨ 0 < o') := by
  obtain ⟨s, i', o', hloop, hs, hfits, hpos, hbytes, hneeded⟩ :=
    ReaderAt.readLoop hchain fuel i o { manager, reader, readSize := n, buffer := [] } h hin hsize
      hfuel
  obtain ⟨id, hid, hbuffer, -⟩ := hs.page
  -- the rest of the read is in one block, and is copied behind the loop
  have hcopy : s.reader.block.fb.memcpyFrom s.reader.offset s.readSize
      = .ok (pread (chainData manager₀.fileHandle ids) (i' * STREAM_CAPACITY + o') s.readSize) := by
    rw [memcpyFrom_of_le _ (by rw [hs.offset_eq, blockPayload_eq]; omega), hbuffer, hs.offset_eq,
      hchain.pread_chainData hid hfits]
  refine ⟨s.manager, { s.reader with offset := s.reader.offset + s.readSize }, i',
    o' + s.readSize, ?_, ⟨hs.manager_eq, hs.page, ?_, hfits⟩, ?_, ?_⟩
  · rw [metaBlockReaderReadData, hloop, ok_bind, hcopy, ok_bind, hbytes]
    rfl
  · rw [hs.offset_eq, Nat.add_assoc]
  · rw [← Nat.add_assoc]
    exact hpos
  · rcases hneeded with ⟨rfl, rfl⟩ | hneeded
    · -- no block was fetched, so the whole read was in this one
      have hread : s.readSize = n := by
        simp only at hpos
        omega
      exact Or.inl ⟨rfl, by rw [hread]⟩
    · exact Or.inr (by omega)

end Reader

/-! ### The run of a reader -/

/-- The calls of `metaBlockReader_read_data` for chunks of the sizes `rs`, in order: the manager and
the reader after each call, and the bytes it returns. -/
def readCalls (fuel : Nat) : List Nat → SingleFileExtentManager → MetaBlockReader →
    Except Fault (List (SingleFileExtentManager × MetaBlockReader × List UInt8))
  | [], _, _ => .ok []
  | r :: rs, manager, reader => do
      let (manager, reader, bytes) ← metaBlockReaderReadData fuel manager reader r
      let calls ← readCalls fuel rs manager reader
      return (manager, reader, bytes) :: calls

/-- The number of blocks that hold the first `n` bytes of a chain. The first block always counts. -/
def blocksNeeded (n : Nat) : Nat := (n - 1) / STREAM_CAPACITY + 1

/-- The calls return the successive slices of the data from `pos` on. After each of them the reader
stands inside its block, and has fetched the blocks that hold the data so far, no more. -/
def SlicesFrom (manager₀ : SingleFileExtentManager) (ids : List BlockId) : Nat → List Nat →
    List (SingleFileExtentManager × MetaBlockReader × List UInt8) → Prop
  | _, [], [] => True
  | pos, r :: rs, (manager, reader, bytes) :: calls =>
      bytes = pread (chainData manager₀.fileHandle ids) pos r ∧ bytes.length = r ∧
        (BLOCK_ID_SIZE ≤ reader.offset ∧ reader.offset ≤ BLOCK_PAYLOAD) ∧
        manager.usedBlocks = manager₀.usedBlocks ++ ids.take (blocksNeeded (pos + r)) ∧
        SlicesFrom manager₀ ids (pos + r) rs calls
  | _, _, _ => False

/-- The blocks behind a reader that has fetched its block for a byte of it. -/
theorem blocksNeeded_eq {i o : Nat} (hle : o ≤ STREAM_CAPACITY) (hneeded : i = 0 ∨ 0 < o) :
    blocksNeeded (i * STREAM_CAPACITY + o) = i + 1 := by
  have hcapacity : STREAM_CAPACITY = 8176 := rfl
  rw [blocksNeeded, hcapacity]
  rw [hcapacity] at hle
  omega

/-- The calls of a reader that stands in block `i`, behind `o` bytes of it. -/
theorem ReaderAt.readCalls {manager₀ : SingleFileExtentManager} {ids : List BlockId}
    (hchain : StoredChain manager₀.fileHandle ids) (fuel : Nat) (hfuel : ids.length ≤ fuel + 1) :
    ∀ (rs : List Nat) {i o : Nat} {manager : SingleFileExtentManager} {reader : MetaBlockReader},
      ReaderAt manager₀ ids i o manager reader → (i = 0 ∨ 0 < o) →
      i * STREAM_CAPACITY + o + rs.sum ≤ ids.length * STREAM_CAPACITY →
      (∀ r ∈ rs, r ≤ PTRDIFF_MAX) →
      ∃ calls, readCalls fuel rs manager reader = .ok calls ∧
        SlicesFrom manager₀ ids (i * STREAM_CAPACITY + o) rs calls := by
  intro rs
  induction rs with
  | nil =>
      intro i o manager reader _ _ _ _
      exact ⟨[], rfl, trivial⟩
  | cons r rs ih =>
      intro i o manager reader h hneeded hin hmem
      rw [List.sum_cons] at hin
      obtain ⟨manager', reader', i', o', hread, h', hpos, hstep⟩ := h.readData hchain fuel
        (by omega) (hmem r List.mem_cons_self) (by omega)
      -- a reader that has fetched a block stands behind a byte of it
      have hneeded' : i' = 0 ∨ 0 < o' := by omega
      obtain ⟨calls, hcalls, hslices⟩ := ih h' hneeded' (by omega)
        fun r' hr' => hmem r' (List.mem_cons_of_mem _ hr')
      refine ⟨(manager', reader', pread (chainData manager₀.fileHandle ids)
        (i * STREAM_CAPACITY + o) r) :: calls, ?_, rfl, ?_, ?_, ?_, ?_⟩
      · rw [Storage.readCalls, hread, ok_bind]
        simp only [hcalls, ok_bind]
        rfl
      · exact length_pread_of_le (by rw [length_chainData hchain.inFile]; omega)
      · rw [h'.offset_eq, blockPayload_eq]
        exact ⟨Nat.le_add_right _ _, Nat.add_le_add_left h'.le _⟩
      · rw [← hpos, blocksNeeded_eq h'.le hneeded', h'.manager_eq]
      · rw [← hpos]
        exact hslices

/-- A reader at the first block of a chain, for every split of its data into reads. -/
theorem reader_delivers_slices (manager : SingleFileExtentManager) (first : BlockId)
    (rest : List BlockId) (hchain : StoredChain manager.fileHandle (first :: rest))
    (rs : List Nat) (hsum : rs.sum ≤ (rest.length + 1) * STREAM_CAPACITY)
    (hmem : ∀ r ∈ rs, r ≤ PTRDIFF_MAX) (fuel : Nat) (hfuel : rest.length ≤ fuel) :
    ∃ calls, readCalls fuel rs (metaBlockReaderInit manager first).1
        (metaBlockReaderInit manager first).2 = .ok calls ∧
      SlicesFrom manager (first :: rest) 0 rs calls := by
  have hinit := hchain.readerInit (List.getElem?_cons_zero (a := first))
  have hrun := hinit.readCalls hchain fuel (by rw [List.length_cons]; omega) rs
    (Or.inl rfl) (by rw [List.length_cons]; omega) hmem
  rwa [Nat.zero_mul, Nat.zero_add] at hrun

/-- The manager over a file of zeros, with room for one block. -/
def zeroFileManager : SingleFileExtentManager :=
  managerZero { content := List.replicate 20480 0, outcomes := [] }

/-- Block 0 of a file of zeros links to itself. -/
theorem storedChain_zeros : StoredChain zeroFileManager.fileHandle [0, 0] where
  inFile id hid := by
    have hzero : id = 0 := by simpa using hid
    subst hzero
    refine ⟨by decide, ?_⟩
    show 12288 + (BLOCK_PAYLOAD + 8) ≤ (List.replicate 20480 (0 : UInt8)).length
    rw [List.length_replicate]
    decide
  linked := by
    refine List.isChain_cons_cons.mpr ⟨?_, .singleton 0⟩
    show u64OfBytes ((pread (List.replicate 20480 0) 12288 8192).drop 8) = 0
    rw [pread, List.drop_replicate, List.take_replicate, List.drop_replicate, u64OfBytes,
      List.take_replicate]
    decide

/-- A read that ends in the first block, and one that goes on into the second. -/
theorem reader_delivers_slices_across_blocks :
    ∃ calls, readCalls 1 [8000, 1000] (metaBlockReaderInit zeroFileManager 0).1
        (metaBlockReaderInit zeroFileManager 0).2 = .ok calls ∧
      SlicesFrom zeroFileManager [0, 0] 0 [8000, 1000] calls :=
  reader_delivers_slices zeroFileManager 0 [0] storedChain_zeros [8000, 1000] (by decide)
    (by decide) 1 (by decide)

end MustDb.Proofs.Storage
