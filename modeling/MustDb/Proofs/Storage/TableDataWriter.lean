import MustDb.Proofs.Storage.Page
import MustDb.Storage.TableDataWriter

/-!
# `MustDb.Proofs.Storage.TableDataWriter`: what a call does to its column

The writer keeps the data of its columns in five parallel lists. `HasColumn` collects the entries of
one column, and `writerStep_cases` says once what a call does: it flushes the block of its column or
not, adds values and tuples to it, and leaves the other columns alone.

`MustDb.Proofs.Storage.ColumnBlocks` and `MustDb.Proofs.Storage.RowTiling` derive from it what holds
of the blocks and of the rows in every run.
-/

set_option autoImplicit false

namespace MustDb.Proofs.Storage

open MustDb.Lib
open MustDb.Storage

/-! ### Columns -/

/-- The data of one column. -/
structure WriterColumn where
  block : Block
  offset : UInt64
  tupleCount : UInt64
  rowNumber : UInt64
  dataPointers : List DataPointer

/-- The entries of the lists at `col`. -/
structure HasColumn (writer : TableDataWriter) (col : Nat) (c : WriterColumn) : Prop where
  block : writer.blocks[col]? = some c.block
  offset : writer.offsets[col]? = some c.offset
  tupleCount : writer.tupleCounts[col]? = some c.tupleCount
  rowNumber : writer.rowNumbers[col]? = some c.rowNumber
  dataPointers : writer.dataPointers[col]? = some c.dataPointers

/-- Each of the `columns` columns has an entry in every list. -/
structure WriterShape (columns : Nat) (writer : TableDataWriter) : Prop where
  blocks : writer.blocks.length = columns
  offsets : writer.offsets.length = columns
  tupleCounts : writer.tupleCounts.length = columns
  rowNumbers : writer.rowNumbers.length = columns
  dataPointers : writer.dataPointers.length = columns

theorem WriterShape.exists_column {columns : Nat} {writer : TableDataWriter}
    (h : WriterShape columns writer) {col : Nat} (hcol : col < columns) :
    ∃ c, HasColumn writer col c := by
  have hentry {α : Type} {slice : List α} (hlen : slice.length = columns) :
      ∃ a, slice[col]? = some a :=
    ⟨_, List.getElem?_eq_getElem (hlen ▸ hcol)⟩
  obtain ⟨block, hblock⟩ := hentry h.blocks
  obtain ⟨offset, hoffset⟩ := hentry h.offsets
  obtain ⟨tupleCount, htupleCount⟩ := hentry h.tupleCounts
  obtain ⟨rowNumber, hrowNumber⟩ := hentry h.rowNumbers
  obtain ⟨dataPointers, hdataPointers⟩ := hentry h.dataPointers
  exact ⟨{ block, offset, tupleCount, rowNumber, dataPointers },
    hblock, hoffset, htupleCount, hrowNumber, hdataPointers⟩

theorem HasColumn.unique {writer : TableDataWriter} {col : Nat} {c d : WriterColumn}
    (hc : HasColumn writer col c) (hd : HasColumn writer col d) : c = d := by
  cases c
  cases d
  have hblock := Option.some.inj (hc.block.symm.trans hd.block)
  have hoffset := Option.some.inj (hc.offset.symm.trans hd.offset)
  have htupleCount := Option.some.inj (hc.tupleCount.symm.trans hd.tupleCount)
  have hrowNumber := Option.some.inj (hc.rowNumber.symm.trans hd.rowNumber)
  have hdataPointers := Option.some.inj (hc.dataPointers.symm.trans hd.dataPointers)
  simp_all

/-- `SLICE_AT` finds the entry at its index, and needs one. -/
theorem sliceAt_eq_ok {α : Type} {slice : List α} {i : Nat} {a : α} :
    sliceAt slice i = .ok a ↔ slice[i]? = some a := by
  unfold sliceAt
  split <;> simp_all

/-- The writer with other data in the column `col`. -/
def putColumn (writer : TableDataWriter) (col : Nat) (c : WriterColumn) : TableDataWriter where
  blocks := writer.blocks.set col c.block
  offsets := writer.offsets.set col c.offset
  tupleCounts := writer.tupleCounts.set col c.tupleCount
  rowNumbers := writer.rowNumbers.set col c.rowNumber
  dataPointers := writer.dataPointers.set col c.dataPointers

theorem WriterShape.put {columns : Nat} {writer : TableDataWriter}
    (h : WriterShape columns writer) (col : Nat) (c : WriterColumn) :
    WriterShape columns (putColumn writer col c) where
  blocks := List.length_set.trans h.blocks
  offsets := List.length_set.trans h.offsets
  tupleCounts := List.length_set.trans h.tupleCounts
  rowNumbers := List.length_set.trans h.rowNumbers
  dataPointers := List.length_set.trans h.dataPointers

section Put
variable {writer : TableDataWriter} {col : Nat} {c : WriterColumn}

theorem HasColumn.put (h : HasColumn writer col c) (d : WriterColumn) :
    HasColumn (putColumn writer col d) col d := by
  have hset {α : Type} {slice : List α} {a : α} (ha : slice[col]? = some a) (b : α) :
      (slice.set col b)[col]? = some b :=
    List.getElem?_set_self (List.getElem?_eq_some_iff.mp ha).1
  exact ⟨hset h.block _, hset h.offset _, hset h.tupleCount _, hset h.rowNumber _,
    hset h.dataPointers _⟩

/-- The other columns keep their data. -/
theorem hasColumn_put_of_ne {other : Nat} (hne : col ≠ other) (d : WriterColumn) :
    HasColumn (putColumn writer other d) col c ↔ HasColumn writer col c := by
  have hset {α : Type} (slice : List α) (b : α) : (slice.set other b)[col]? = slice[col]? :=
    List.getElem?_set_ne hne.symm
  constructor
  · intro h
    exact ⟨hset _ _ ▸ h.block, hset _ _ ▸ h.offset, hset _ _ ▸ h.tupleCount,
      hset _ _ ▸ h.rowNumber, hset _ _ ▸ h.dataPointers⟩
  · intro h
    exact ⟨(hset _ _).trans h.block, (hset _ _).trans h.offset, (hset _ _).trans h.tupleCount,
      (hset _ _).trans h.rowNumber, (hset _ _).trans h.dataPointers⟩

/-- A list that gets the entry that it has. -/
theorem set_eq_self {α : Type} {slice : List α} {i : Nat} {a : α} (h : slice[i]? = some a) :
    slice.set i a = slice := by
  obtain ⟨hi, rfl⟩ := List.getElem?_eq_some_iff.mp h
  exact List.set_getElem_self hi

theorem HasColumn.put_self (h : HasColumn writer col c) : putColumn writer col c = writer := by
  simp only [putColumn, set_eq_self h.block, set_eq_self h.offset, set_eq_self h.tupleCount,
    set_eq_self h.rowNumber, set_eq_self h.dataPointers]

end Put

/-! ### What a call does to its column -/

/-- The data pointer of the tuples in the block of a column. -/
def WriterColumn.pointer (c : WriterColumn) (id : BlockId) : DataPointer :=
  { min := 0, max := 0, rowStart := c.rowNumber, tupleCount := c.tupleCount, blockId := id,
    offset := 0 }

/-- The column after its block is written as `blk`. -/
def WriterColumn.flush (c : WriterColumn) (blk : Block) : WriterColumn where
  block := blk
  offset := 0
  tupleCount := 0
  rowNumber := c.rowNumber + c.tupleCount
  dataPointers := c.dataPointers ++ [c.pointer blk.id]

/-- The column after `size` bytes and `count` tuples more. -/
def WriterColumn.append (c : WriterColumn) (blk : Block) (size count : UInt64) : WriterColumn :=
  { c with block := blk, offset := c.offset + size, tupleCount := c.tupleCount + count }

/-- A flush of a column: nothing happens to one without tuples, the block of the others is
written. -/
inductive ColumnFlush : WriterColumn → WriterColumn → Option Block → Prop where
  | keep (c : WriterColumn) : ColumnFlush c c none
  | flush {c : WriterColumn} {blk : Block} (hcount : c.tupleCount ≠ 0)
      (hpage : blk.fb.buffer = c.block.fb.buffer) : ColumnFlush c (c.flush blk) (some blk)

/-- The file of `get_free_block_id`. -/
theorem getFreeBlockId_fileHandle (manager : SingleFileExtentManager) :
    (singleFileBlockManagerGetFreeBlockId manager).1.fileHandle = manager.fileHandle := by
  unfold singleFileBlockManagerGetFreeBlockId
  split <;> rfl

/-- `TableDataWriter_flush_block` of a column with tuples. -/
theorem flushBlock_of_ne {writer : TableDataWriter} {col : Nat} {c : WriterColumn}
    (h : HasColumn writer col c) (hcount : c.tupleCount ≠ 0) (manager : SingleFileExtentManager) :
    ∃ manager' blk, blk.fb.buffer = c.block.fb.buffer ∧
      manager'.fileHandle
        = (fileWriteAt manager.fileHandle (pageOf blk.fb.buffer) (blockLocation blk.id)).1 ∧
      tableDataWriterFlushBlock manager writer col
        = .ok (manager', putColumn writer col (c.flush blk), some blk) := by
  rcases hfree : singleFileBlockManagerGetFreeBlockId manager with ⟨manager₁, id⟩
  rcases hwrite : singleFileBlockManagerWrite manager₁ { id, fb := c.block.fb }
    with ⟨manager₂, blk⟩
  -- `write` puts the checksum into the block, and keeps its id and its payload
  have hid : id = blk.id := congrArg (fun r => r.2.id) hwrite
  have hpage : blk.fb.buffer = c.block.fb.buffer :=
    (congrArg (fun r => r.2.fb.buffer) hwrite).symm
  have hpointers : writer.dataPointers.modify col (· ++ [c.pointer blk.id])
      = writer.dataPointers.set col (c.dataPointers ++ [c.pointer blk.id]) := by
    rw [List.modify_eq_set, h.dataPointers]
    rfl
  have hfile : manager₂.fileHandle
      = (fileWriteAt manager.fileHandle (pageOf blk.fb.buffer) (blockLocation blk.id)).1 := by
    have hfree' : manager₁.fileHandle = manager.fileHandle := by
      rw [← getFreeBlockId_fileHandle manager, hfree]
    rw [← congrArg (fun r => r.1.fileHandle) hwrite, hpage, ← hid, ← hfree']
    rfl
  refine ⟨manager₂, blk, hpage, hfile, ?_⟩
  simp only [tableDataWriterFlushBlock, sliceAt_eq_ok.mpr h.tupleCount, sliceAt_eq_ok.mpr h.block,
    sliceAt_eq_ok.mpr h.rowNumber, ok_bind, hcount, if_false, hfree, hwrite]
  rw [hid]
  rw [← WriterColumn.pointer, hpointers]
  rfl

/-- `TableDataWriter_flush_block` changes its own column, as a flush does. -/
theorem flushBlock_cases {writer : TableDataWriter} {col : Nat} {c : WriterColumn}
    (h : HasColumn writer col c) (manager : SingleFileExtentManager) :
    ∃ manager' c' written, ColumnFlush c c' written ∧
      (c.tupleCount ≠ 0 → c'.offset = 0) ∧ (c.tupleCount = 0 → c' = c) ∧
      (∀ blk, written = some blk → manager'.fileHandle
        = (fileWriteAt manager.fileHandle (pageOf blk.fb.buffer) (blockLocation blk.id)).1) ∧
      tableDataWriterFlushBlock manager writer col
        = .ok (manager', putColumn writer col c', written) := by
  by_cases hcount : c.tupleCount = 0
  · refine ⟨manager, c, none, .keep c, fun hne => absurd hcount hne, fun _ => rfl,
      fun _ hnone => (Option.some_ne_none _ hnone.symm).elim, ?_⟩
    simp only [tableDataWriterFlushBlock, sliceAt_eq_ok.mpr h.tupleCount, ok_bind, hcount, if_true,
      h.put_self]
    rfl
  · obtain ⟨manager', blk, hpage, hfile, hflush⟩ := flushBlock_of_ne h hcount manager
    refine ⟨manager', c.flush blk, some blk, .flush hcount hpage, fun _ => rfl,
      fun hzero => absurd hzero hcount, ?_, hflush⟩
    rintro _ ⟨⟩
    exact hfile

/-- `TableDataWriter_flush_if_full` flushes the block of its column or changes nothing. -/
theorem flushIfFull_eq {writer : TableDataWriter} {col : Nat} {c : WriterColumn}
    (h : HasColumn writer col c) (manager : SingleFileExtentManager) (writeSize : UInt64) :
    tableDataWriterFlushIfFull manager writer col writeSize
      = if BLOCK_SIZE ≤ (c.offset + writeSize).toNat
        then tableDataWriterFlushBlock manager writer col else .ok (manager, writer, none) := by
  simp only [tableDataWriterFlushIfFull, sliceAt_eq_ok.mpr h.offset, ok_bind, ge_iff_le]
  rfl

theorem flushIfFull_cases {writer : TableDataWriter} {col : Nat} {c : WriterColumn}
    (h : HasColumn writer col c) (manager : SingleFileExtentManager) (writeSize : UInt64) :
    ∃ manager' c' written, ColumnFlush c c' written ∧
      tableDataWriterFlushIfFull manager writer col writeSize
        = .ok (manager', putColumn writer col c', written) := by
  rw [flushIfFull_eq h]
  split
  · obtain ⟨manager', c', written, hflush, -, -, -, heq⟩ := flushBlock_cases h manager
    exact ⟨manager', c', written, hflush, heq⟩
  · exact ⟨manager, c, none, .keep c, by rw [h.put_self]⟩

theorem addTuples_ok {writer : TableDataWriter} {col : Nat} {c : WriterColumn}
    (h : HasColumn writer col c) (count : UInt64) :
    addTuples writer col count
      = .ok (putColumn writer col { c with tupleCount := c.tupleCount + count }) := by
  simp only [addTuples, sliceAt_eq_ok.mpr h.tupleCount, ok_bind, putColumn, set_eq_self h.block,
    set_eq_self h.offset, set_eq_self h.rowNumber, set_eq_self h.dataPointers]
  rfl

/-- A `memcpy` to a page buffer that returns stays inside it. -/
theorem le_of_memcpyTo {size : Nat} {fb fb' : FileBuffer size} {offset : Nat} {bytes : List UInt8}
    (h : fb.memcpyTo offset bytes = .ok fb') : offset + bytes.length ≤ size := by
  by_contra hlt
  rw [memcpyTo_of_lt fb (Nat.lt_of_not_le hlt)] at h
  cases h

/-- What `tableDataWriter_writecolumndata` does after its flush. -/
theorem writecolumndata_eq {manager manager' : SingleFileExtentManager} {writer : TableDataWriter}
    {col : Nat} {values : List UInt8} {count : UInt64} {written : Option Block}
    {c c₁ : WriterColumn} (h : HasColumn writer col c)
    (hflush : tableDataWriterFlushIfFull manager writer col (UInt64.ofNat values.length)
      = .ok (manager', putColumn writer col c₁, written)) :
    tableDataWriterWritecolumndata manager writer col values count = (do
      let fb ← c₁.block.fb.memcpyTo c₁.offset.toNat values
      let blk := { c₁.block with fb }
      return (manager', putColumn writer col (c₁.append blk (UInt64.ofNat values.length) count),
        written)) := by
  have h₁ := h.put c₁
  simp only [tableDataWriterWritecolumndata, hflush, ok_bind, sliceAt_eq_ok.mpr h₁.block,
    sliceAt_eq_ok.mpr h₁.offset]
  refine congrArg _ (funext fun fb => ?_)
  -- the block and the offset are set first, then the tuples are added
  have hadd := addTuples_ok (h₁.put { c₁ with
    block := { c₁.block with fb }, offset := c₁.offset + UInt64.ofNat values.length }) count
  simp only [putColumn, List.set_set] at hadd ⊢
  rw [hadd]
  rfl

/-- `tableDataWriter_writecolumndata` flushes the block of its column or not, and then copies the
values behind the ones that are there. -/
theorem writecolumndata_cases {manager manager' : SingleFileExtentManager}
    {writer writer' : TableDataWriter} {col : Nat} {values : List UInt8} {count : UInt64}
    {written : Option Block} {c : WriterColumn} (h : HasColumn writer col c)
    (hcall : tableDataWriterWritecolumndata manager writer col values count
      = .ok (manager', writer', written)) :
    ∃ c₁ blk, ColumnFlush c c₁ written ∧ c₁.offset.toNat + values.length ≤ BLOCK_PAYLOAD ∧
      writer' = putColumn writer col (c₁.append blk (UInt64.ofNat values.length) count) := by
  obtain ⟨manager₁, c₁, written₁, hflush, heq⟩ :=
    flushIfFull_cases h manager (UInt64.ofNat values.length)
  rw [writecolumndata_eq h heq] at hcall
  obtain ⟨fb, hcopy, hcall⟩ := bind_eq_ok.mp hcall
  cases hcall
  exact ⟨c₁, { c₁.block with fb }, hflush, le_of_memcpyTo hcopy, rfl⟩

/-- A call flushes the block of its column or not, and then adds its values and its tuples to the
column. Values that are copied have room in the block. -/
theorem writerStep_cases {s s' : WriterState} {op : WriterOp} {written : Option Block}
    {c : WriterColumn} (h : HasColumn s.writer op.column c)
    (hstep : writerStep s op = .ok (s', written)) :
    ∃ c₁ blk, ColumnFlush c c₁ written ∧
      s'.writer = putColumn s.writer op.column
        (c₁.append blk (UInt64.ofNat op.values.length) op.count) ∧
      (op.values ≠ [] → c₁.offset.toNat + op.values.length ≤ BLOCK_PAYLOAD) := by
  -- a call that only flushes adds no bytes and no tuples
  have hnone (c₁ : WriterColumn) : c₁ = c₁.append c₁.block 0 0 := by
    simp [WriterColumn.append]
  cases op with
  | writecolumndata col values count =>
      obtain ⟨⟨manager', writer', written'⟩, hcall, hstep⟩ := bind_eq_ok.mp hstep
      cases hstep
      obtain ⟨c₁, blk, hflush, hroom, hput⟩ := writecolumndata_cases h hcall
      exact ⟨c₁, blk, hflush, hput, fun _ => hroom⟩
  | addTuples col count =>
      obtain ⟨writer', hcall, hstep⟩ := bind_eq_ok.mp hstep
      cases hstep
      have hput : putColumn s.writer col _ = writer' :=
        Except.ok.inj ((addTuples_ok h count).symm.trans hcall)
      refine ⟨c, c.block, .keep c, ?_, fun hne => absurd rfl hne⟩
      show writer' = putColumn s.writer col (c.append c.block 0 count)
      rw [← hput]
      simp [WriterColumn.append]
  | flushBlock col =>
      obtain ⟨manager₁, c₁, written₁, hflush, -, -, -, heq⟩ := flushBlock_cases h s.manager
      obtain ⟨⟨manager', writer', written'⟩, hcall, hstep⟩ := bind_eq_ok.mp hstep
      cases hstep
      cases heq.symm.trans hcall
      exact ⟨c₁, c₁.block, hflush, congrArg (putColumn s.writer col) (hnone c₁),
        fun hne => absurd rfl hne⟩
  | flushIfFull col writeSize =>
      obtain ⟨manager₁, c₁, written₁, hflush, heq⟩ := flushIfFull_cases h s.manager writeSize
      obtain ⟨⟨manager', writer', written'⟩, hcall, hstep⟩ := bind_eq_ok.mp hstep
      cases hstep
      cases heq.symm.trans hcall
      exact ⟨c₁, c₁.block, hflush, congrArg (putColumn s.writer col) (hnone c₁),
        fun hne => absurd rfl hne⟩

/-! ### The start -/

/-- The column that `tableDataWriter_write_data` starts with. -/
def freshColumn : WriterColumn where
  block := blockCreate INVALID_BLOCK
  offset := 0
  tupleCount := 0
  rowNumber := 0
  dataPointers := []

theorem prepareColumns_eq (columns : Nat) (writer : TableDataWriter) :
    prepareColumns columns writer =
      { blocks := writer.blocks ++ List.replicate columns (blockCreate INVALID_BLOCK)
        offsets := writer.offsets ++ List.replicate columns 0
        tupleCounts := writer.tupleCounts ++ List.replicate columns 0
        rowNumbers := writer.rowNumbers ++ List.replicate columns 0
        dataPointers := writer.dataPointers ++ List.replicate columns [] } := by
  induction columns generalizing writer with
  | zero => simp [prepareColumns]
  | succ n ih => simp [prepareColumns, ih, List.replicate_succ]

theorem writerStart_shape (manager : SingleFileExtentManager) (columns : Nat) :
    WriterShape columns (writerStart manager columns).writer := by
  simp only [writerStart, prepareColumns_eq]
  constructor <;> simp [tableDataWriterInit]

theorem writerStart_column (manager : SingleFileExtentManager) {columns col : Nat}
    (hcol : col < columns) : HasColumn (writerStart manager columns).writer col freshColumn := by
  simp only [writerStart, prepareColumns_eq]
  constructor <;> simp [tableDataWriterInit, freshColumn, hcol]

/-- A call that returns is about a column of the writer. -/
theorem column_lt_of_writerStep {columns : Nat} {s s' : WriterState} {op : WriterOp}
    {written : Option Block} (h : WriterShape columns s.writer)
    (hstep : writerStep s op = .ok (s', written)) : op.column < columns := by
  -- each call reads a list at its column
  have hoffset {col : Nat} {offset : UInt64} (hread : sliceAt s.writer.offsets col = .ok offset) :
      col < columns :=
    h.offsets ▸ (List.getElem?_eq_some_iff.mp (sliceAt_eq_ok.mp hread)).1
  have hcount {col : Nat} {count : UInt64}
      (hread : sliceAt s.writer.tupleCounts col = .ok count) : col < columns :=
    h.tupleCounts ▸ (List.getElem?_eq_some_iff.mp (sliceAt_eq_ok.mp hread)).1
  cases op with
  | writecolumndata col values count =>
      obtain ⟨_, hcall, -⟩ := bind_eq_ok.mp hstep
      obtain ⟨_, hflush, -⟩ := bind_eq_ok.mp hcall
      obtain ⟨_, hread, -⟩ := bind_eq_ok.mp hflush
      exact hoffset hread
  | addTuples col count =>
      obtain ⟨_, hcall, -⟩ := bind_eq_ok.mp hstep
      obtain ⟨_, hread, -⟩ := bind_eq_ok.mp hcall
      exact hcount hread
  | flushBlock col =>
      obtain ⟨_, hcall, -⟩ := bind_eq_ok.mp hstep
      obtain ⟨_, hread, -⟩ := bind_eq_ok.mp hcall
      exact hcount hread
  | flushIfFull col writeSize =>
      obtain ⟨_, hcall, -⟩ := bind_eq_ok.mp hstep
      obtain ⟨_, hread, -⟩ := bind_eq_ok.mp hcall
      exact hoffset hread

/-- A call keeps the lists of the columns. -/
theorem writerStep_shape {columns : Nat} {s s' : WriterState} {op : WriterOp}
    {written : Option Block} (h : WriterShape columns s.writer)
    (hstep : writerStep s op = .ok (s', written)) : WriterShape columns s'.writer := by
  obtain ⟨c, hc⟩ := h.exists_column (column_lt_of_writerStep h hstep)
  obtain ⟨c₁, blk, -, hput, -⟩ := writerStep_cases hc hstep
  rw [hput]
  exact h.put _ _

end MustDb.Proofs.Storage
