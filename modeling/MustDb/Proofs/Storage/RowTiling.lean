import MustDb.Lib.Simulation
import MustDb.Lib.Tiling
import MustDb.Proofs.Storage.TableDataWriter

/-!
# `MustDb.Proofs.Storage.RowTiling`: the data pointers of a column tile its rows

A run adds tuples to the columns and flushes their blocks, in any order. `RowsTiled` is what holds
of one column: its data pointers are consecutive ranges from row 0 to `row_numbers`, one for each
block that was written for it, and the tuples behind them are those that wait in the block.

The counters are 64 bits wide and wrap. `RowsTiled` therefore speaks of a column to which fewer
than `2 ^ 64` tuples were added, and `wrapped_tuples_are_lost` has a run that adds more.
-/

set_option autoImplicit false

namespace MustDb.Proofs.Storage

open MustDb.Lib
open MustDb.Storage

/-! ### What a run does to a column -/

/-- The tuples that the calls add to the column `col`. -/
def tuplesAdded (col : Nat) (ops : List WriterOp) : Nat :=
  (ops.map fun op => if op.column = col then op.count.toNat else 0).sum

/-- The blocks that the calls write for the column `col`, in order. -/
def blocksWritten (col : Nat) (ops : List WriterOp) (results : List (Option Block)) : List Block :=
  (ops.zip results).flatMap fun (op, written) => if op.column = col then written.toList else []

/-- The rows of a data pointer: the first one, and their number. -/
def DataPointer.rows (pointer : DataPointer) : Nat × Nat :=
  (pointer.rowStart.toNat, pointer.tupleCount.toNat)

/-- The data pointers of a column tile its rows: `added` tuples were added to it, and the blocks
`written` were written for it. -/
structure RowsTiled (c : WriterColumn) (added : Nat) (written : List Block) : Prop where
  /-- The ranges are non-empty and consecutive, from row 0 to `row_numbers`. -/
  tiles : Tiles 0 (c.dataPointers.map DataPointer.rows) c.rowNumber.toNat
  /-- Their sizes add up to `row_numbers`. -/
  total : (c.dataPointers.map (·.tupleCount.toNat)).sum = c.rowNumber.toNat
  /-- No tuple is lost. -/
  added : c.rowNumber.toNat + c.tupleCount.toNat = added
  /-- Each pointer has the id under which its block was written. -/
  written : c.dataPointers.map DataPointer.blockId = written.map Block.id

namespace RowsTiled

variable {c : WriterColumn} {added : Nat} {written : List Block}

theorem fresh : RowsTiled freshColumn 0 [] where
  tiles := rfl
  total := rfl
  added := rfl
  written := rfl

/-- A flush moves the tuples of the block behind the rows. -/
theorem flush (h : RowsTiled c added written) (hadded : added < 2 ^ 64) {blk : Block}
    (hcount : c.tupleCount ≠ 0) : RowsTiled (c.flush blk) added (written ++ [blk]) := by
  have hpos : 0 < c.tupleCount.toNat :=
    Nat.pos_of_ne_zero fun hzero => hcount (UInt64.toNat_inj.mp hzero)
  have hsum := h.added
  -- all tuples can be counted, so the new row number does not wrap
  have hrow : (c.flush blk).rowNumber.toNat = c.rowNumber.toNat + c.tupleCount.toNat := by
    show (c.rowNumber + c.tupleCount).toNat = _
    rw [UInt64.toNat_add]
    omega
  constructor
  · rw [hrow]
    show Tiles 0 ((c.dataPointers ++ [c.pointer blk.id]).map DataPointer.rows) _
    rw [List.map_append]
    exact h.tiles.concat hpos
  · rw [hrow]
    show ((c.dataPointers ++ [c.pointer blk.id]).map (·.tupleCount.toNat)).sum = _
    rw [List.map_append, List.sum_append, h.total]
    simp [WriterColumn.pointer]
  · rw [hrow]
    exact hsum
  · show (c.dataPointers ++ [c.pointer blk.id]).map DataPointer.blockId = _
    rw [List.map_append, List.map_append, h.written]
    rfl

/-- New tuples wait in the block. -/
theorem append (h : RowsTiled c added written) {count : UInt64}
    (hadded : added + count.toNat < 2 ^ 64) (blk : Block) (size : UInt64) :
    RowsTiled (c.append blk size count) (added + count.toNat) written where
  tiles := h.tiles
  total := h.total
  added := by
    have hsum := h.added
    show c.rowNumber.toNat + (c.tupleCount + count).toNat = _
    rw [UInt64.toNat_add]
    omega
  written := h.written

/-- Each row that is flushed has one data pointer. -/
theorem pointer_of_row (h : RowsTiled c added written) {row : Nat}
    (hrow : row < c.rowNumber.toNat) :
    ∃! i : Nat, ∃ pointer, c.dataPointers[i]? = some pointer ∧ pointer.rowStart.toNat ≤ row ∧
      row < pointer.rowStart.toNat + pointer.tupleCount.toNat := by
  obtain ⟨i, ⟨range, hrange, hbounds⟩, hunique⟩ := h.tiles.existsUnique (Nat.zero_le row) hrow
  rw [List.getElem?_map, Option.map_eq_some_iff] at hrange
  obtain ⟨pointer, hpointer, rfl⟩ := hrange
  refine ⟨i, ⟨pointer, hpointer, hbounds⟩, ?_⟩
  rintro j ⟨other, hother, hrows⟩
  exact hunique j ⟨DataPointer.rows other, by rw [List.getElem?_map, hother]; rfl, hrows⟩

end RowsTiled

/-- The tuples of a column, as long as they can be counted. -/
def Counted (c : WriterColumn) (added : Nat) (written : List Block) : Prop :=
  added < 2 ^ 64 → RowsTiled c added written

/-- What one call does to the rows of a column. -/
theorem Counted.step {columns col : Nat} {s s' : WriterState} {op : WriterOp}
    {result : Option Block} {c : WriterColumn} {added : Nat} {written : List Block}
    (hshape : WriterShape columns s.writer) (hc : HasColumn s.writer col c)
    (hcounted : Counted c added written) (hstep : writerStep s op = .ok (s', result)) :
    ∃ c', HasColumn s'.writer col c' ∧
      Counted c' (added + tuplesAdded col [op]) (written ++ blocksWritten col [op] [result]) := by
  obtain ⟨d, hd⟩ := hshape.exists_column (column_lt_of_writerStep hshape hstep)
  obtain ⟨c₁, blk, hflush, hput, -⟩ := writerStep_cases hd hstep
  rw [hput]
  by_cases hcol : op.column = col
  · subst hcol
    cases hc.unique hd
    refine ⟨_, hd.put _, fun hadded => ?_⟩
    simp only [tuplesAdded, blocksWritten, List.map_cons, List.map_nil, List.sum_cons,
      List.sum_nil, if_true, List.zip_cons_cons, List.zip_nil_right, List.flatMap_cons,
      List.flatMap_nil, Nat.add_zero, List.append_nil] at hadded ⊢
    have htiled := hcounted (by omega)
    cases hflush with
    | keep =>
        rw [Option.toList_none, List.append_nil]
        exact htiled.append hadded blk _
    | flush hcount hpage => exact (htiled.flush (by omega) hcount).append hadded blk _
  · refine ⟨c, (hasColumn_put_of_ne (Ne.symm hcol) _).mpr hc, ?_⟩
    simpa [tuplesAdded, blocksWritten, hcol] using hcounted

/-- What a run does to the rows of a column. Induction on the calls, with the tuples and the blocks
of the earlier ones. -/
theorem Counted.run {columns col : Nat} : ∀ {ops : List WriterOp} {s s' : WriterState}
    {results : List (Option Block)} {c : WriterColumn} {added : Nat} {written : List Block},
    WriterShape columns s.writer → HasColumn s.writer col c → Counted c added written →
    runResults writerStep s ops = .ok (s', results) →
    ∃ c', HasColumn s'.writer col c' ∧
      Counted c' (added + tuplesAdded col ops) (written ++ blocksWritten col ops results) := by
  intro ops
  induction ops with
  | nil =>
      intro s s' results c added written _ hc hcounted hrun
      cases hrun
      exact ⟨c, hc, by simpa [tuplesAdded, blocksWritten] using hcounted⟩
  | cons op ops ih =>
      intro s s' results c added written hshape hc hcounted hrun
      obtain ⟨⟨t, result⟩, hstep, hrun⟩ := bind_eq_ok.mp hrun
      obtain ⟨⟨t', rest⟩, hrest, hrun⟩ := bind_eq_ok.mp hrun
      cases hrun
      obtain ⟨d, hd, hcountedd⟩ := hcounted.step hshape hc hstep
      obtain ⟨c', hc', hcounted'⟩ := ih (writerStep_shape hshape hstep) hd hcountedd hrest
      refine ⟨c', hc', ?_⟩
      simpa [tuplesAdded, blocksWritten, Nat.add_assoc] using hcounted'

/-! ### The calls return -/

/-- The call adds tuples to one of the columns, or flushes its block. -/
def CounterOp (columns : Nat) : WriterOp → Prop
  | .addTuples col _ => col < columns
  | .flushBlock col => col < columns
  | _ => False

theorem counterOp_returns {columns : Nat} {s : WriterState} {op : WriterOp}
    (hshape : WriterShape columns s.writer) (hop : CounterOp columns op) :
    ∃ s' result, writerStep s op = .ok (s', result) ∧ WriterShape columns s'.writer := by
  cases op with
  | writecolumndata col values count => exact hop.elim
  | addTuples col count =>
      obtain ⟨c, hc⟩ := hshape.exists_column hop
      exact ⟨_, _, by simp only [writerStep, addTuples_ok hc, ok_bind]; rfl, hshape.put _ _⟩
  | flushBlock col =>
      obtain ⟨c, hc⟩ := hshape.exists_column hop
      obtain ⟨manager', c', written, -, -, -, -, heq⟩ := flushBlock_cases hc s.manager
      exact ⟨_, _, by simp only [writerStep, heq, ok_bind]; rfl, hshape.put _ _⟩
  | flushIfFull col writeSize => exact hop.elim

/-- A flush of the column returns, writes the page of the column if it writes one, and changes no
other column. If the write is stored, then the file has the page in the block that the data pointer
names. -/
def FlushesAlone (s : WriterState) (col : Nat) : Prop :=
  ∃ manager' writer' written,
    tableDataWriterFlushBlock s.manager s.writer col = .ok (manager', writer', written) ∧
      (∀ blk, written = some blk →
        (∃ c, HasColumn s.writer col c ∧ blk.fb.buffer = c.block.fb.buffer) ∧
        (Addressable blk.id → StoresAll BLOCK_SIZE s.manager.fileHandle.nextOutcome →
          Holds pageLayout manager'.fileHandle.content (.block blk.id) (pageOf blk.fb.buffer))) ∧
      ∀ other ≠ col, ∀ c, HasColumn s.writer other c → HasColumn writer' other c

theorem flushesAlone {columns col : Nat} {s : WriterState} (hshape : WriterShape columns s.writer)
    (hcol : col < columns) : FlushesAlone s col := by
  obtain ⟨c, hc⟩ := hshape.exists_column hcol
  obtain ⟨manager', c', written, hflush, -, -, hfile, heq⟩ := flushBlock_cases hc s.manager
  refine ⟨manager', _, written, heq, ?_, ?_⟩
  · rintro blk rfl
    cases hflush with
    | flush hcount hpage =>
        refine ⟨⟨c, hc, hpage⟩, fun hid hstored => ?_⟩
        have hlen : (pageOf blk.fb.buffer).length = BLOCK_SIZE := by
          rw [length_pageOf, blk.fb.length_buffer]
          rfl
        rw [hfile blk rfl, fileWriteAt_stored (not_fseekFails_block hid) (by rwa [hlen]),
          blockLocation_toNat hid]
        exact Holds.write_same _ hlen
  · intro other hne d hd
    exact (hasColumn_put_of_ne hne c').mpr hd

/-! ### The theorem -/

/-- After every run that adds tuples to the columns and flushes their blocks, in any order: the data
pointers of each column tile its rows, no tuple is lost, and each pointer names the block that was
written for it, as long as fewer than `2 ^ 64` tuples were added to the column. A flush of a column
changes no other one. -/
theorem data_pointers_tile (manager : SingleFileExtentManager) (columns : Nat)
    (ops : List WriterOp) (hops : ∀ op ∈ ops, CounterOp columns op) :
    ∃ s results, runResults writerStep (writerStart manager columns) ops = .ok (s, results) ∧
      ∀ col < columns, FlushesAlone s col ∧
        ∃ c, HasColumn s.writer col c ∧
          (tuplesAdded col ops < 2 ^ 64 →
            RowsTiled c (tuplesAdded col ops) (blocksWritten col ops results)) := by
  have hstart := writerStart_shape manager columns
  obtain ⟨s, results, hrun, hshape⟩ := runResults_total
    (fun s : WriterState => WriterShape columns s.writer) (CounterOp columns)
    (fun _ _ hs ho => counterOp_returns hs ho) ops _ hstart hops
  refine ⟨s, results, hrun, fun col hcol => ⟨flushesAlone hshape hcol, ?_⟩⟩
  obtain ⟨c, hc, hcounted⟩ := Counted.run hstart (writerStart_column manager hcol)
    (fun _ => RowsTiled.fresh) hrun
  rw [Nat.zero_add, List.nil_append] at hcounted
  exact ⟨c, hc, hcounted⟩

/-- Two columns, with a flush that finds no tuples, and tuples that wait in the block. -/
theorem data_pointers_tile_two_columns :
    let ops : List WriterOp :=
      [.addTuples 0 3, .addTuples 1 1, .flushBlock 0, .flushBlock 0, .addTuples 0 2,
        .flushBlock 1, .flushBlock 0, .addTuples 0 4]
    ∃ s results c,
      runResults writerStep (writerStart (managerZero { content := [], outcomes := [] }) 2) ops
          = .ok (s, results) ∧
        HasColumn s.writer 0 c ∧ RowsTiled c 9 (blocksWritten 0 ops results) := by
  intro ops
  have hops : ∀ op ∈ ops, CounterOp 2 op := by
    simp [ops, CounterOp]
  obtain ⟨s, results, hrun, hcols⟩ :=
    data_pointers_tile (managerZero { content := [], outcomes := [] }) 2 ops hops
  obtain ⟨-, c, hc, htiled⟩ := hcols 0 (by decide)
  exact ⟨s, results, c, hrun, hc, htiled (by decide)⟩

/-- A run that adds `2 ^ 64` tuples: the counter is 0 again, and the flush returns early. -/
theorem wrapped_tuples_are_lost :
    let ops : List WriterOp :=
      [.addTuples 0 9223372036854775808, .addTuples 0 9223372036854775808, .flushBlock 0]
    (∀ op ∈ ops, CounterOp 1 op) ∧
      ∃ (s : WriterState) (results : _) (rowNumber tupleCount : UInt64),
      runResults writerStep (writerStart (managerZero { content := [], outcomes := [] }) 1) ops
          = .ok (s, results) ∧
        s.writer.rowNumbers[0]? = some rowNumber ∧ s.writer.tupleCounts[0]? = some tupleCount ∧
        rowNumber.toNat + tupleCount.toNat ≠ tuplesAdded 0 ops :=
  ⟨by simp [CounterOp], _, _, 0, 0, rfl, rfl, rfl, by decide⟩

end MustDb.Proofs.Storage
