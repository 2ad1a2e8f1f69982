import MustDb.Proofs.Storage.HeaderPages

/-!
# `MustDb.Proofs.Storage.MetaStream`: the metadata stream

A client of the stream writes byte strings with `metaBlockWriter_write_data` and destroys the writer
(`writeStream`), then reads chunks with `metaBlockReader_read_data` from the first block
(`readStream`). `WriterHolds writer data` says that the current block of the writer holds `data`
behind its link.

As long as the data fits in the first block, `writeData_fits` and `readData_fits` say what each call
does, and `writeStream_fits` and `readStream_fits` what a client gets. A write that does not fit
never returns (`writeData_crosses`): the flush sets `writer->offset` back to the start of the block,
the loop goes on with its local `offset`, which is the end of the block, and so a turn copies
nothing. `roundTrips_iff` puts both together: the stream is a round trip exactly for the data that
fits in one block.
-/

set_option autoImplicit false

namespace MustDb.Proofs.Storage

open MustDb.Lib
open MustDb.Storage

/-! ### The client of a stream -/

/-- The calls of `metaBlockWriter_write_data` on `ws`, in order. -/
def writeAll (fuel : Nat) : List (List UInt8) → SingleFileExtentManager → MetaBlockWriter →
    Except Fault (SingleFileExtentManager × MetaBlockWriter)
  | [], manager, writer => .ok (manager, writer)
  | w :: ws, manager, writer => do
      let (manager, writer) ← metaBlockWriterWriteData fuel manager writer w
      writeAll fuel ws manager writer

/-- A fresh writer, the writes `ws`, and the destruction of the writer: the manager after it and the
id of the first block. -/
def writeStream (fuel : Nat) (manager : SingleFileExtentManager) (ws : List (List UInt8)) :
    Except Fault (SingleFileExtentManager × BlockId) := do
  let (manager, writer) := metaBlockWriterInit manager
  let blockId := writer.block.id
  let (manager, writer) ← writeAll fuel ws manager writer
  return (metaBlockWriterDeinit manager writer, blockId)

/-- The calls of `metaBlockReader_read_data` for chunks of the sizes `rs`, in order. -/
def readAll (fuel : Nat) : List Nat → SingleFileExtentManager → MetaBlockReader →
    Except Fault (List (List UInt8))
  | [], _, _ => .ok []
  | r :: rs, manager, reader => do
      let (manager, reader, chunk) ← metaBlockReaderReadData fuel manager reader r
      let chunks ← readAll fuel rs manager reader
      return chunk :: chunks

/-- A reader at `blockId`, and the chunks it returns. -/
def readStream (fuel : Nat) (manager : SingleFileExtentManager) (blockId : BlockId)
    (rs : List Nat) : Except Fault (List (List UInt8)) :=
  let (manager, reader) := metaBlockReaderInit manager blockId
  readAll fuel rs manager reader

/-- The writes `ws` make a round trip: every call returns, and a reader that asks for as many bytes,
in chunks of any sizes, gets the concatenation of the writes. -/
def RoundTrips (manager : SingleFileExtentManager) (ws : List (List UInt8)) : Prop :=
  ∃ fuel manager' blockId, writeStream fuel manager ws = .ok (manager', blockId) ∧
    ∀ rs : List Nat, rs.sum = ws.flatten.length →
      ∃ chunks, readStream fuel manager' blockId rs = .ok chunks ∧
        chunks.map List.length = rs ∧ chunks.flatten = ws.flatten

/-! ### The block of a writer -/

/-- The data that fits in one block of a stream, behind the link. -/
def STREAM_CAPACITY : Nat := BLOCK_PAYLOAD - BLOCK_ID_SIZE

/-- The payload of a block with a zero link and the data `data`: the rest is cleared memory. -/
def streamPayload (data : List UInt8) : List UInt8 :=
  List.replicate BLOCK_ID_SIZE 0 ++ (data ++ List.replicate (STREAM_CAPACITY - data.length) 0)

/-- The first block of the writer is not full, and holds `data`. -/
structure WriterHolds (writer : MetaBlockWriter) (data : List UInt8) : Prop where
  offset_eq : writer.offset = BLOCK_ID_SIZE + data.length
  buffer_eq : writer.block.fb.buffer = streamPayload data

/-- A block is its link and the data behind it. -/
theorem blockPayload_eq : BLOCK_PAYLOAD = BLOCK_ID_SIZE + STREAM_CAPACITY := rfl

theorem length_streamPayload {data : List UInt8} (h : data.length ≤ STREAM_CAPACITY) :
    (streamPayload data).length = BLOCK_PAYLOAD := by
  rw [streamPayload, List.length_append, List.length_append, List.length_replicate,
    List.length_replicate, blockPayload_eq]
  omega

theorem WriterHolds.length_le {writer : MetaBlockWriter} {data : List UInt8}
    (h : WriterHolds writer data) : data.length ≤ STREAM_CAPACITY := by
  have hlen := congrArg List.length h.buffer_eq
  rw [writer.block.fb.length_buffer, streamPayload, List.length_append, List.length_append,
    List.length_replicate, List.length_replicate, blockPayload_eq] at hlen
  omega

/-- A fresh writer holds nothing, in the block that the manager gave it. -/
theorem writerInit_holds (manager : SingleFileExtentManager) :
    WriterHolds (metaBlockWriterInit manager).2 [] :=
  ⟨rfl, rfl⟩

/-- The link and the data behind it. -/
theorem length_linked (data : List UInt8) :
    (List.replicate BLOCK_ID_SIZE (0 : UInt8) ++ data).length = BLOCK_ID_SIZE + data.length := by
  rw [List.length_append, List.length_replicate]

/-- Data at the end of the data of a block. -/
theorem pwrite_streamPayload (data w : List UInt8) :
    pwrite (streamPayload data) (BLOCK_ID_SIZE + data.length) w = streamPayload (data ++ w) := by
  have hrest : STREAM_CAPACITY - data.length - w.length
      = STREAM_CAPACITY - (data ++ w).length := by
    rw [List.length_append]
    omega
  rw [streamPayload, ← List.append_assoc, ← length_linked, pwrite_append, List.drop_replicate,
    hrest, streamPayload, List.append_assoc, List.append_assoc]

/-! ### Writes that fit -/

/-- The condition of both loops, for numbers that do not wrap. -/
theorem crossesBlock_of_le {offset size : Nat} (h : offset + size ≤ BLOCK_PAYLOAD) :
    crossesBlock offset size = false := by
  have hpayload : BLOCK_PAYLOAD = 8184 := rfl
  rw [crossesBlock, decide_eq_false_iff_not]
  omega

/-- A write inside the block of a writer leaves the manager alone. -/
theorem writeData_inside (fuel : Nat) (manager : SingleFileExtentManager)
    {writer : MetaBlockWriter} {w : List UInt8}
    (hend : writer.offset + w.length ≤ BLOCK_PAYLOAD) :
    ∃ fb, metaBlockWriterWriteData fuel manager writer w
        = .ok (manager, { block := { writer.block with fb }, offset := writer.offset + w.length }) ∧
      fb.buffer = pwrite writer.block.fb.buffer writer.offset w := by
  have hc : WriteData.crosses { manager, writer, offset := writer.offset, buffer := w } = false :=
    crossesBlock_of_le hend
  obtain ⟨fb, hfb, hbuffer⟩ := memcpyTo_of_le _ _ _ hend
  refine ⟨fb, ?_, hbuffer⟩
  rw [metaBlockWriterWriteData, whileLoop_of_false fuel hc, ok_bind, writeDataFinish, hfb]
  rfl

/-- A write that fits adds its bytes to the block. -/
theorem writeData_fits (fuel : Nat) (manager : SingleFileExtentManager) {writer : MetaBlockWriter}
    {data w : List UInt8} (hw : WriterHolds writer data)
    (hfit : data.length + w.length ≤ STREAM_CAPACITY) :
    ∃ writer', metaBlockWriterWriteData fuel manager writer w = .ok (manager, writer') ∧
      writer'.block.id = writer.block.id ∧ WriterHolds writer' (data ++ w) := by
  have hend : writer.offset + w.length ≤ BLOCK_PAYLOAD := by
    rw [hw.offset_eq, blockPayload_eq]
    omega
  obtain ⟨fb, hrun, hbuffer⟩ := writeData_inside fuel manager hend
  refine ⟨_, hrun, rfl, ?_, ?_⟩
  · rw [hw.offset_eq, List.length_append, Nat.add_assoc]
  · rw [hbuffer, hw.buffer_eq, hw.offset_eq, pwrite_streamPayload]

/-- Writes that fit together. -/
theorem writeAll_fits (fuel : Nat) (manager : SingleFileExtentManager) :
    ∀ (ws : List (List UInt8)) {writer : MetaBlockWriter} {data : List UInt8},
      WriterHolds writer data → data.length + ws.flatten.length ≤ STREAM_CAPACITY →
      ∃ writer', writeAll fuel ws manager writer = .ok (manager, writer') ∧
        writer'.block.id = writer.block.id ∧ WriterHolds writer' (data ++ ws.flatten) := by
  intro ws
  induction ws with
  | nil =>
      intro writer data hw _
      exact ⟨writer, rfl, rfl, by simpa using hw⟩
  | cons w ws ih =>
      intro writer data hw hfit
      rw [List.flatten_cons, List.length_append] at hfit
      obtain ⟨writer₁, hrun₁, hid₁, hw₁⟩ := writeData_fits fuel manager hw (w := w) (by omega)
      obtain ⟨writer₂, hrun₂, hid₂, hw₂⟩ := ih hw₁ (by rw [List.length_append]; omega)
      refine ⟨writer₂, ?_, hid₂.trans hid₁, ?_⟩
      · rw [writeAll, hrun₁]
        exact hrun₂
      · rwa [List.flatten_cons, ← List.append_assoc]

/-! ### Writes that do not fit -/

/-- One turn of the writer's loop: the local `offset` is at the end of the block after it. -/
theorem writeDataBody_ok {s : WriteData} (h : s.offset ≤ BLOCK_PAYLOAD) :
    ∃ s', writeDataBody s = .ok s' ∧ s'.offset = BLOCK_PAYLOAD ∧
      s'.buffer = s.buffer.drop (BLOCK_PAYLOAD - s.offset) := by
  -- the first copy fills the block, and the second one writes the link at its start
  have hcopy : s.offset + (s.buffer.take (BLOCK_PAYLOAD - s.offset)).length ≤ BLOCK_PAYLOAD := by
    rw [List.length_take]
    omega
  obtain ⟨fb₁, hfb₁, -⟩ := memcpyTo_of_le s.writer.block.fb _ _ hcopy
  obtain ⟨fb₂, hfb₂, -⟩ := memcpyTo_of_le fb₁ 0
    (u64Bytes (singleFileBlockManagerGetFreeBlockId s.manager).2)
    (by rw [length_u64Bytes]; decide)
  simp only [writeDataBody, h, not_true_eq_false, if_false, hfb₁, hfb₂, ok_bind]
  exact ⟨_, rfl, Nat.add_sub_of_le h, rfl⟩

/-- With the local `offset` at the end of the block and bytes left to write, the call does not
return: a turn of the loop copies nothing, and out of the loop there is no room. -/
theorem writeData_stuck (fuel : Nat) {s : WriteData} (hoffset : s.offset = BLOCK_PAYLOAD)
    (hbuffer : s.buffer ≠ []) :
    ∃ e, (whileLoop .outOfFuel WriteData.crosses writeDataBody fuel s >>= writeDataFinish)
      = .error e := by
  have hpos : 0 < s.buffer.length := List.length_pos_iff.mpr hbuffer
  cases hc : s.crosses with
  | false =>
      -- only when the sum in the condition wraps
      refine ⟨.outOfBounds, ?_⟩
      rw [whileLoop_of_false fuel hc, ok_bind, writeDataFinish, memcpyTo_of_lt _ (by omega),
        error_bind]
  | true =>
      -- a turn changes neither the local `offset` nor the bytes left, so the loop turns forever
      refine ⟨.outOfFuel, ?_⟩
      rw [whileLoop_diverges (fun t => t.offset = BLOCK_PAYLOAD ∧ t.buffer = s.buffer) _ fuel s
        ⟨hoffset, rfl⟩, error_bind]
      rintro t ⟨ht, hbuf⟩
      obtain ⟨t', hbody, ht', hbuf'⟩ := writeDataBody_ok (Nat.le_of_eq ht)
      refine ⟨by rwa [WriteData.crosses, ht, hbuf, ← hoffset], t', hbody, ht', ?_⟩
      rw [hbuf', ht, Nat.sub_self, List.drop_zero, hbuf]

/-- A write past the end of the block of a writer never returns. -/
theorem writeData_past_end (fuel : Nat) (manager : SingleFileExtentManager)
    {writer : MetaBlockWriter} {w : List UInt8} (hle : writer.offset ≤ BLOCK_PAYLOAD)
    (hcross : BLOCK_PAYLOAD < writer.offset + w.length) :
    ∃ e, metaBlockWriterWriteData fuel manager writer w = .error e := by
  rw [metaBlockWriterWriteData]
  cases hc : WriteData.crosses { manager, writer, offset := writer.offset, buffer := w } with
  | false =>
      -- the sum in the condition has wrapped, and the copy goes behind the end of the block
      refine ⟨.outOfBounds, ?_⟩
      rw [whileLoop_of_false fuel hc, ok_bind, writeDataFinish, memcpyTo_of_lt _ hcross,
        error_bind]
  | true =>
      cases fuel with
      | zero =>
          refine ⟨.outOfFuel, ?_⟩
          rw [whileLoop, if_pos hc, error_bind]
      | succ fuel =>
          -- the first turn fills the block, and the call is stuck from there on
          obtain ⟨s, hbody, hs, hbuf⟩ := writeDataBody_ok
            (s := { manager, writer, offset := writer.offset, buffer := w }) hle
          rw [whileLoop_of_true fuel hc hbody]
          apply writeData_stuck fuel hs
          rw [hbuf, ne_eq, List.drop_eq_nil_iff]
          simp only
          omega

/-- A write that does not fit in the block never returns. -/
theorem writeData_crosses (fuel : Nat) (manager : SingleFileExtentManager)
    {writer : MetaBlockWriter} {data w : List UInt8} (hw : WriterHolds writer data)
    (hcross : STREAM_CAPACITY < data.length + w.length) :
    ∃ e, metaBlockWriterWriteData fuel manager writer w = .error e := by
  have hle := hw.length_le
  have hoff : writer.offset ≤ BLOCK_PAYLOAD ∧ BLOCK_PAYLOAD < writer.offset + w.length := by
    rw [hw.offset_eq, blockPayload_eq]
    omega
  exact writeData_past_end fuel manager hoff.1 hoff.2

/-- Of writes that do not fit together, one never returns. -/
theorem writeAll_crosses (fuel : Nat) (manager : SingleFileExtentManager) :
    ∀ (ws : List (List UInt8)) {writer : MetaBlockWriter} {data : List UInt8},
      WriterHolds writer data → STREAM_CAPACITY < data.length + ws.flatten.length →
      ∃ e, writeAll fuel ws manager writer = .error e := by
  intro ws
  induction ws with
  | nil =>
      intro writer data hw hcross
      have hle := hw.length_le
      rw [List.flatten_nil, List.length_nil] at hcross
      omega
  | cons w ws ih =>
      intro writer data hw hcross
      rw [List.flatten_cons, List.length_append] at hcross
      -- the first write that does not fit is `w` or a later one
      by_cases hfit : data.length + w.length ≤ STREAM_CAPACITY
      · obtain ⟨writer₁, hrun₁, -, hw₁⟩ := writeData_fits fuel manager hw hfit
        have hrest : STREAM_CAPACITY < (data ++ w).length + ws.flatten.length := by
          rw [List.length_append]
          omega
        obtain ⟨e, he⟩ := ih hw₁ hrest
        exact ⟨e, by rw [writeAll, hrun₁]; exact he⟩
      · obtain ⟨e, he⟩ := writeData_crosses fuel manager hw (w := w) (by omega)
        exact ⟨e, by rw [writeAll, he, error_bind]⟩

/-! ### The page of a stream -/

/-- The id that `get_free_block_id` returns next. -/
def nextFreeBlockId (manager : SingleFileExtentManager) : BlockId :=
  (singleFileBlockManagerGetFreeBlockId manager).2

/-- The manager after `get_free_block_id`. -/
def afterGetFree (manager : SingleFileExtentManager) : SingleFileExtentManager :=
  (singleFileBlockManagerGetFreeBlockId manager).1

/-- `get_free_block_id` takes an id and touches nothing else. -/
theorem afterGetFree_eq (manager : SingleFileExtentManager) :
    afterGetFree manager = { manager with
      freeList := manager.freeList.dropLast
      maxBlock := if manager.freeList = [] then manager.maxBlock + 1 else manager.maxBlock } := by
  rw [afterGetFree, singleFileBlockManagerGetFreeBlockId]
  cases hlast : manager.freeList.getLast? with
  | none =>
      have hnil : manager.freeList = [] := List.getLast?_eq_none_iff.mp hlast
      simp [hnil]
  | some blockId =>
      have hne : manager.freeList ≠ [] := by
        intro hnil
        rw [hnil] at hlast
        cases hlast
      simp [hne]

/-- The file after the page of a stream with the data `data` is written to the block `blockId`. A
stream without data writes nothing. -/
def streamFile (handle : FileHandle) (blockId : BlockId) (data : List UInt8) : FileHandle :=
  if data = [] then handle
  else (fileWriteAt handle (pageOf (streamPayload data)) (blockLocation blockId)).1

/-- The destruction of a writer flushes its block, unless it is empty. -/
theorem writerDeinit_eq (manager : SingleFileExtentManager) {writer : MetaBlockWriter}
    {data : List UInt8} (hw : WriterHolds writer data) :
    metaBlockWriterDeinit manager writer =
      { manager with fileHandle := streamFile manager.fileHandle writer.block.id data } := by
  have hpage (h : data ≠ []) : writer.offset > BLOCK_ID_SIZE := by
    have hpos := List.length_pos_iff.mpr h
    rw [hw.offset_eq]
    omega
  by_cases hdata : data = []
  · have hoff : ¬ writer.offset > BLOCK_ID_SIZE := by
      rw [hw.offset_eq, hdata]
      simp
    rw [metaBlockWriterDeinit, metaBlockWriterFlush, if_neg hoff, streamFile, if_pos hdata]
  · rw [metaBlockWriterDeinit, metaBlockWriterFlush, if_pos (hpage hdata), streamFile,
      if_neg hdata, ← hw.buffer_eq]
    rfl

/-- What a client gets that writes data for one block. -/
theorem writeStream_fits (fuel : Nat) (manager : SingleFileExtentManager)
    (ws : List (List UInt8)) (hfit : ws.flatten.length ≤ STREAM_CAPACITY) :
    writeStream fuel manager ws = .ok ({ afterGetFree manager with
      fileHandle := streamFile manager.fileHandle (nextFreeBlockId manager) ws.flatten },
      nextFreeBlockId manager) := by
  obtain ⟨writer, hrun, hid, hw⟩ := writeAll_fits fuel (metaBlockWriterInit manager).1 ws
    (writerInit_holds manager) (by simpa using hfit)
  have hfirst : (metaBlockWriterInit manager).2.block.id = nextFreeBlockId manager := rfl
  have hhandle : (metaBlockWriterInit manager).1.fileHandle = manager.fileHandle := by
    show (afterGetFree manager).fileHandle = _
    rw [afterGetFree_eq]
  rw [writeStream]
  simp only [hrun, ok_bind, writerDeinit_eq _ hw, hid, hfirst, hhandle]
  rfl

/-- A client that writes more does not get an answer. -/
theorem writeStream_crosses (fuel : Nat) (manager : SingleFileExtentManager)
    (ws : List (List UInt8)) (hcross : STREAM_CAPACITY < ws.flatten.length) :
    ∃ e, writeStream fuel manager ws = .error e := by
  obtain ⟨e, he⟩ := writeAll_crosses fuel (metaBlockWriterInit manager).1 ws
    (writerInit_holds manager) (by simpa using hcross)
  exact ⟨e, by rw [writeStream]; simp only [he, error_bind]⟩

/-- The page of a stream, on a file whose writes all succeed. -/
theorem streamFile_holds {handle : FileHandle} (hio : handle.outcomes = []) {blockId : BlockId}
    (hid : Addressable blockId) {data : List UInt8} (hfit : data.length ≤ STREAM_CAPACITY)
    (hdata : data ≠ []) :
    Holds pageLayout (streamFile handle blockId data).content (.block blockId)
      (pageOf (streamPayload data)) := by
  rw [streamFile, if_neg hdata, fileWriteAt_full hio _ (not_fseekFails_block hid),
    blockLocation_toNat hid]
  have hlen : (pageOf (streamPayload data)).length = pageLayout.size (.block blockId) := by
    rw [length_pageOf, length_streamPayload hfit]
    rfl
  exact Holds.write_same _ hlen

/-! ### Reads -/

/-- A read inside the block of the reader. -/
theorem readData_fits (fuel : Nat) (manager : SingleFileExtentManager) (reader : MetaBlockReader)
    (n : Nat) (hfit : reader.offset + n ≤ BLOCK_PAYLOAD) :
    metaBlockReaderReadData fuel manager reader n = .ok (manager,
      { reader with offset := reader.offset + n },
      pread reader.block.fb.buffer reader.offset n) := by
  have hc : ReadData.crosses { manager, reader, readSize := n, buffer := [] } = false :=
    crossesBlock_of_le hfit
  rw [metaBlockReaderReadData, whileLoop_of_false fuel hc, ok_bind, memcpyFrom_of_le _ hfit]
  rfl

/-- Reads inside the block of the reader: the chunks have the sizes asked for, and they are the
bytes of the block in order. -/
theorem readAll_fits (fuel : Nat) (manager : SingleFileExtentManager) :
    ∀ (rs : List Nat) (reader : MetaBlockReader), reader.offset + rs.sum ≤ BLOCK_PAYLOAD →
      ∃ chunks, readAll fuel rs manager reader = .ok chunks ∧ chunks.map List.length = rs ∧
        chunks.flatten = pread reader.block.fb.buffer reader.offset rs.sum := by
  intro rs
  induction rs with
  | nil =>
      intro reader _
      exact ⟨[], rfl, rfl, by simp [pread]⟩
  | cons r rs ih =>
      intro reader hfit
      rw [List.sum_cons, ← Nat.add_assoc] at hfit
      have hread := readData_fits fuel manager reader r (by omega)
      obtain ⟨chunks, hrun, hsizes, hbytes⟩ := ih
        { reader with offset := reader.offset + r } hfit
      -- the sum of the sizes is in the block, so each chunk is
      have hin : reader.offset + r ≤ reader.block.fb.buffer.length := by
        rw [reader.block.fb.length_buffer]
        omega
      refine ⟨pread reader.block.fb.buffer reader.offset r :: chunks, ?_, ?_, ?_⟩
      · rw [readAll, hread]
        simp only [ok_bind, hrun]
        rfl
      · rw [List.map_cons, length_pread_of_le hin, hsizes]
      · rw [List.flatten_cons, hbytes, List.sum_cons, pread_add _ _ _ _ hin]

/-- Some of the data of a stream, by its place behind the link. -/
theorem pread_streamPayload (pre data post : List UInt8) :
    pread (streamPayload (pre ++ (data ++ post))) (BLOCK_ID_SIZE + pre.length) data.length
      = data := by
  rw [pread, streamPayload, List.append_assoc, ← List.append_assoc, ← length_linked, List.drop_left,
    List.append_assoc, List.take_left]

/-- The first block of a reader, from its page in the file. -/
theorem readerInit_payload {manager : SingleFileExtentManager} {blockId : BlockId}
    (hid : Addressable blockId) {payload : List UInt8} (hlen : payload.length = BLOCK_PAYLOAD)
    (hpage : Holds pageLayout manager.fileHandle.content (.block blockId) (pageOf payload)) :
    (metaBlockReaderInit manager blockId).2.block.fb.buffer = payload :=
  (fileBufferRead_of_holds _ (not_fseekFails_block hid)
    (by rw [blockLocation_toNat hid]; exact hpage.read_eq) hlen).1

theorem readerInit_buffer {manager : SingleFileExtentManager} {blockId : BlockId}
    (hid : Addressable blockId) {data : List UInt8} (hfit : data.length ≤ STREAM_CAPACITY)
    (hpage : Holds pageLayout manager.fileHandle.content (.block blockId)
      (pageOf (streamPayload data))) :
    (metaBlockReaderInit manager blockId).2.block.fb.buffer = streamPayload data :=
  readerInit_payload hid (length_streamPayload hfit) hpage

/-- What a client reads in the first block of a stream. -/
theorem readStream_first_block (fuel : Nat) (manager : SingleFileExtentManager)
    (blockId : BlockId) {rs : List Nat} (hfit : rs.sum ≤ STREAM_CAPACITY) :
    ∃ chunks, readStream fuel manager blockId rs = .ok chunks ∧ chunks.map List.length = rs ∧
      chunks.flatten = pread (metaBlockReaderInit manager blockId).2.block.fb.buffer BLOCK_ID_SIZE
        rs.sum := by
  have hoffset : (metaBlockReaderInit manager blockId).2.offset = BLOCK_ID_SIZE := rfl
  obtain ⟨chunks, hrun, hsizes, hbytes⟩ := readAll_fits fuel (metaBlockReaderInit manager blockId).1
    rs (metaBlockReaderInit manager blockId).2 (by rw [hoffset, blockPayload_eq]; omega)
  exact ⟨chunks, hrun, hsizes, by rw [hbytes, hoffset]⟩

/-- What a client reads from a stream of one block. -/
theorem readStream_fits (fuel : Nat) {manager : SingleFileExtentManager} {blockId : BlockId}
    {data : List UInt8} (hfit : data.length ≤ STREAM_CAPACITY)
    (hpage : data ≠ [] →
      (metaBlockReaderInit manager blockId).2.block.fb.buffer = streamPayload data)
    {rs : List Nat} (hsum : rs.sum = data.length) :
    ∃ chunks, readStream fuel manager blockId rs = .ok chunks ∧ chunks.map List.length = rs ∧
      chunks.flatten = data := by
  obtain ⟨chunks, hrun, hsizes, hbytes⟩ := readStream_first_block fuel manager blockId
    (hsum.trans_le hfit)
  refine ⟨chunks, hrun, hsizes, ?_⟩
  rw [hbytes, hsum]
  by_cases hdata : data = []
  · simp [hdata, pread]
  · have hread := pread_streamPayload [] data []
    rw [List.append_nil, List.nil_append] at hread
    rw [hpage hdata]
    exact hread

/-! ### The round trip -/

/-- The stream is a round trip exactly for the data that fits in its first block. -/
theorem roundTrips_iff (manager : SingleFileExtentManager)
    (hio : manager.fileHandle.outcomes = []) (hid : Addressable (nextFreeBlockId manager))
    (ws : List (List UInt8)) :
    RoundTrips manager ws ↔ ws.flatten.length ≤ STREAM_CAPACITY := by
  constructor
  · -- data that does not fit: the client gets no answer at any fuel
    rintro ⟨fuel, manager', blockId, hwrite, -⟩
    by_contra hcross
    obtain ⟨e, he⟩ := writeStream_crosses fuel manager ws (by omega)
    rw [he] at hwrite
    cases hwrite
  · intro hfit
    refine ⟨0, _, _, writeStream_fits 0 manager ws hfit, fun rs hsum => ?_⟩
    exact readStream_fits 0 hfit
      (fun hdata => readerInit_buffer hid hfit (streamFile_holds hio hid hfit hdata)) hsum

/-- Three bytes in two writes on an empty file. -/
theorem roundTrips_iff_three_bytes :
    RoundTrips (managerZero { content := [], outcomes := [] }) [[1, 2], [3]] :=
  (roundTrips_iff (managerZero { content := [], outcomes := [] }) rfl (by decide) [[1, 2], [3]]).mpr
    (by decide)

/-- A write of one byte more than a block holds, on the manager of a fresh database. -/
theorem not_roundTrips_one_byte_too_many :
    ∃ manager, createNewDatabase 0 { content := [], outcomes := [] } true = .ok (some manager) ∧
      manager.fileHandle.outcomes = [] ∧ nextFreeBlockId manager = 0 ∧
      ¬ RoundTrips manager [List.replicate 8177 0] := by
  refine ⟨freshManager, createNewDatabase_fresh 0 [], rfl, rfl, ?_⟩
  rintro ⟨fuel, manager', blockId, hwrite, -⟩
  obtain ⟨e, he⟩ := writeStream_crosses fuel freshManager [List.replicate 8177 0]
    (by rw [List.flatten_singleton, List.length_replicate]; decide)
  rw [he] at hwrite
  cases hwrite

end MustDb.Proofs.Storage
