import MustDb.Proofs.Storage.MetaChain
import MustDb.Proofs.Storage.TableCodec

/-!
# `MustDb.Proofs.Storage.TableStream`: table definitions in the database file

The metadata streams behind the codec of `TableCodec`. A writer collects its bytes as long as they
fit in its first block (`metaBlockSerializer_collects`), and a reader over a chain of blocks yields
the data of the chain (`metaBlockDeserializer_yields`). So a table definition that fits in a block
comes back from the file (`table_survives_file`).
-/

set_option autoImplicit false

namespace MustDb.Proofs.Storage

open MustDb.Lib
open MustDb.Storage
open MustDb.Catalog
open MustDb.Parse

/-- The writer is in its first block `blockId`, with `data` in it, and has not touched the file. -/
def WriterWritten (manager : SingleFileExtentManager) (blockId : BlockId)
    (s : SingleFileExtentManager × MetaBlockWriter) (data : List UInt8) : Prop :=
  s.1 = manager ∧ s.2.block.id = blockId ∧ WriterHolds s.2 data

/-- A writer takes all bytes that fit in its first block. -/
theorem metaBlockSerializer_collects (fuel : Nat) (manager : SingleFileExtentManager)
    (blockId : BlockId) :
    (metaBlockSerializer fuel).Collects (·.length ≤ STREAM_CAPACITY)
      (WriterWritten manager blockId) where
  fits_left h := by
    rw [List.length_append] at h
    exact Nat.le_of_add_right_le h
  write_ok := by
    rintro ⟨_, writer⟩ bytes data ⟨rfl, hid, hw⟩ hfit
    rw [List.length_append] at hfit
    obtain ⟨writer', hrun, hid', hw'⟩ := writeData_fits fuel _ hw hfit
    refine ⟨(_, writer'), ?_, rfl, hid'.trans hid, hw'⟩
    exact hrun

/-- The reader stands in the chain, in front of `bytes`. -/
def ChainPending (manager : SingleFileExtentManager) (ids : List BlockId)
    (r : SingleFileExtentManager × MetaBlockReader) (bytes : List UInt8) : Prop :=
  bytes.length ≤ PTRDIFF_MAX ∧ ∃ i o, ReaderAt manager ids i o r.1 r.2 ∧
    bytes <+: (chainData manager.fileHandle ids).drop (i * STREAM_CAPACITY + o)

/-- The place of a reader is inside the data of its chain. -/
theorem ReaderAt.pos_le {manager₀ manager : SingleFileExtentManager} {ids : List BlockId}
    {i o : Nat} {reader : MetaBlockReader} (h : ReaderAt manager₀ ids i o manager reader) :
    i * STREAM_CAPACITY + o ≤ ids.length * STREAM_CAPACITY := by
  obtain ⟨id, hid, -, -⟩ := h.page
  have hi := (List.getElem?_eq_some_iff.mp hid).1
  have hblocks : (i + 1) * STREAM_CAPACITY ≤ ids.length * STREAM_CAPACITY :=
    Nat.mul_le_mul_right _ hi
  have hle := h.le
  rw [Nat.succ_mul] at hblocks
  omega

/-- A reader gives the data of its chain. -/
theorem metaBlockDeserializer_yields {manager : SingleFileExtentManager} {ids : List BlockId}
    (hchain : StoredChain manager.fileHandle ids) {fuel : Nat} (hfuel : ids.length ≤ fuel + 1) :
    (metaBlockDeserializer fuel).Yields (ChainPending manager ids) where
  read_ok := by
    rintro r data rest ⟨hmem, i, o, hat, tail, htail⟩
    rw [List.length_append] at hmem
    rw [List.append_assoc] at htail
    -- the chain has all of it, so the read does not run past its end
    have hlen := congrArg List.length htail
    rw [List.length_append, List.length_drop, length_chainData hchain.inFile] at hlen
    have hpos_le := hat.pos_le
    obtain ⟨manager', reader', i', o', hread, hat', hpos, -⟩ :=
      hat.readData hchain fuel (n := data.length) (by omega) (by omega) (by omega)
    -- what the reader has left starts with `data`
    have hdata : pread (chainData manager.fileHandle ids) (i * STREAM_CAPACITY + o) data.length
        = data := by
      rw [pread, ← htail, List.take_left]
    refine ⟨(manager', reader'), ?_, by omega, i', o', hat', tail, ?_⟩
    · show (metaBlockReaderReadData fuel r.1 r.2 data.length >>= _) = _
      rw [hread, hdata]
      rfl
    · rw [hpos, ← List.drop_drop, ← htail, List.drop_left]

/-! ### A table in a block -/

section Block
variable {manager : SingleFileExtentManager}

/-- The page of a stream is a chain of one block. -/
theorem storedChain_streamFile {handle : FileHandle} (hio : handle.outcomes = [])
    {blockId : BlockId} (hid : Addressable blockId) {data : List UInt8}
    (hfit : data.length ≤ STREAM_CAPACITY) (hdata : data ≠ []) :
    StoredChain (streamFile handle blockId data) [blockId] := by
  have hpage := streamFile_holds hio hid hfit hdata
  refine ⟨?_, .singleton blockId⟩
  intro id hmem
  have heq : id = blockId := by simpa using hmem
  subst heq
  have hpos : 0 < pageLayout.size (.block id) := by
    show 0 < BLOCK_SIZE
    decide
  refine ⟨not_fseekFails_block hid, ?_⟩
  rw [blockLocation_toNat hid]
  exact hpage.in_file hpos

/-- The data of that chain: those of the stream, and zeros. -/
theorem prefix_chainData_streamFile {handle : FileHandle} (hio : handle.outcomes = [])
    {blockId : BlockId} (hid : Addressable blockId) {data : List UInt8}
    (hfit : data.length ≤ STREAM_CAPACITY) (hdata : data ≠ []) :
    data <+: chainData (streamFile handle blockId data) [blockId] := by
  rw [chainData, List.flatMap_cons, List.flatMap_nil, List.append_nil, blockData,
    blockPayload_of_holds hid (streamFile_holds hio hid hfit hdata), streamPayload,
    List.drop_left' List.length_replicate]
  exact List.prefix_append data _

/-- A table takes at least the length of the name of its schema. -/
theorem tableBytes_ne_nil (schemaName tableName : CString) (columns : List ColumnDefinition) :
    tableBytes schemaName tableName columns ≠ [] := by
  rw [tableBytes, stringBytes, leBytes, List.cons_append, List.cons_append]
  exact List.cons_ne_nil _ _

/-- Part of what fits in a block fits in memory. -/
theorem inMemory_of_le {str : CString} (h : (stringBytes str).length ≤ STREAM_CAPACITY) :
    str.InMemory := by
  have hcapacity : STREAM_CAPACITY = 8176 := rfl
  rw [stringBytes, List.length_append, length_leBytes] at h
  rw [CString.InMemory]
  omega

/-- Every column takes a byte, and at least the length of its name. -/
theorem le_length_columnBytes (columns : List ColumnDefinition) :
    columns.length ≤ (columns.flatMap columnBytes).length ∧
      ∀ column ∈ columns,
        (stringBytes column.name).length ≤ (columns.flatMap columnBytes).length := by
  induction columns with
  | nil => exact ⟨Nat.le_refl _, fun column h => absurd h List.not_mem_nil⟩
  | cons column rest ih =>
      have hcolumn : (stringBytes column.name).length + 1 ≤ (columnBytes column).length := by
        rw [columnBytes, List.length_append, List.length_append, length_leBytes]
        omega
      rw [List.flatMap_cons, List.length_append, List.length_cons]
      refine ⟨by omega, ?_⟩
      intro c hc
      rcases List.mem_cons.mp hc with rfl | hc
      · omega
      · exact (ih.2 c hc).trans (Nat.le_add_left _ _)

/-- A table definition that is written to a new stream, and read from the file. -/
theorem table_survives_file {δ : Type} (hio : manager.fileHandle.outcomes = [])
    (hid : Addressable (nextFreeBlockId manager)) {heap : CatalogHeap δ} {entry : Addr}
    {schemaName tableName : CString} {columns : List ColumnDefinition}
    (htable : TableAt heap entry schemaName tableName columns)
    (hfit : (tableBytes schemaName tableName columns).length ≤ STREAM_CAPACITY)
    (htypes : ∀ column ∈ columns, column.type.toNat < 256) (fuel : Nat) (uninit : Nat → Int16) :
    ∃ manager' writer, checkpointManagerWriteTableCatalog (metaBlockSerializer fuel) heap entry
        (metaBlockWriterInit manager) = .ok (manager', writer) ∧
      ∃ c info, createTableInfoDeserialize (metaBlockDeserializer fuel) uninit
          { reader := metaBlockReaderInit (metaBlockWriterDeinit manager' writer)
              (nextFreeBlockId manager)
            outcomes := [] } = .ok (c, info) ∧
        SameTable schemaName tableName columns info := by
  obtain ⟨hlen, hnames⟩ := le_length_columnBytes columns
  have hfit' := hfit
  rw [tableBytes, List.length_append, List.length_append, List.length_append, length_leBytes]
    at hfit'
  have hcapacity : STREAM_CAPACITY = 8176 := rfl
  -- the encoder writes to a writer that has written nothing yet
  have hinit : WriterWritten (afterGetFree manager) (nextFreeBlockId manager)
      (metaBlockWriterInit manager) [] := ⟨rfl, rfl, writerInit_holds manager⟩
  obtain ⟨⟨manager', writer⟩, hwrite, hwritten⟩ :=
    writes_tableCatalog (metaBlockSerializer_collects fuel (afterGetFree manager)
      (nextFreeBlockId manager)) htable (by omega) _ [] hinit hfit
  obtain ⟨hmanager', hid', hw⟩ : manager' = afterGetFree manager ∧
    writer.block.id = nextFreeBlockId manager ∧
    WriterHolds writer (tableBytes schemaName tableName columns) := hwritten
  refine ⟨manager', writer, hwrite, ?_⟩
  -- the block is on disk after the writer has gone
  have hhandle : (metaBlockWriterDeinit manager' writer).fileHandle
      = streamFile manager.fileHandle (nextFreeBlockId manager)
        (tableBytes schemaName tableName columns) := by
    have hafter : manager'.fileHandle = manager.fileHandle := by
      rw [hmanager', afterGetFree_eq]
    rw [writerDeinit_eq manager' hw, hid', ← hafter]
  have hne := tableBytes_ne_nil schemaName tableName columns
  have hchain := storedChain_streamFile hio hid hfit hne
  have hprefix := prefix_chainData_streamFile hio hid hfit hne
  rw [← hhandle] at hchain hprefix
  -- names that fit in a block fit in memory
  have hmem : ∀ column ∈ columns, column.name.InMemory ∧ column.type.toNat < 256 :=
    fun column hc => ⟨inMemory_of_le ((hnames column hc).trans (by omega)), htypes column hc⟩
  have hschema : schemaName.InMemory := inMemory_of_le (by omega)
  have htableName : tableName.InMemory := inMemory_of_le (by omega)
  have hyields := metaBlockDeserializer_yields hchain (Nat.le_add_left 1 fuel)
  have hpending : ChainPending (metaBlockWriterDeinit manager' writer) [nextFreeBlockId manager]
      (metaBlockReaderInit (metaBlockWriterDeinit manager' writer) (nextFreeBlockId manager))
      (tableBytes schemaName tableName columns ++ []) := by
    have hmax : STREAM_CAPACITY ≤ PTRDIFF_MAX := by decide
    rw [List.append_nil]
    exact ⟨hfit.trans hmax, 0, 0, hchain.readerInit rfl, hprefix⟩
  obtain ⟨c, hc, -⟩ := reads_createTableInfo hyields uninit hschema htableName (by omega) hmem
    ⟨_, []⟩ [] ⟨hpending, rfl⟩
  exact ⟨c, _, hc, sameTable_decoded uninit schemaName tableName (by omega)⟩

end Block

end MustDb.Proofs.Storage
