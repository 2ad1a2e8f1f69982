import MustDb.Lib.Simulation
import MustDb.Proofs.Storage.TableDataWriter

/-!
# `MustDb.Proofs.Storage.ColumnBlocks`: room in the blocks of the columns

`TableDataWriter_flush_if_full` compares with the size of the disk page, which is eight bytes more
than the page buffer has. `WriterInv` is the invariant of all runs: the values that are in the block
of a column are inside its buffer. `column_block_fits_iff` says for which writes there is room after
the call, and `writecolumndata_returns_iff` that the copy behind it needs this room.
-/

set_option autoImplicit false

namespace MustDb.Proofs.Storage

open MustDb.Lib
open MustDb.Storage

/-! ### The invariant -/

/-- The values in the blocks stay inside them. -/
structure WriterInv (columns : Nat) (s : WriterState) : Prop where
  shape : WriterShape columns s.writer
  room : ∀ col c, HasColumn s.writer col c → c.offset.toNat ≤ BLOCK_PAYLOAD

theorem WriterInv.start (manager : SingleFileExtentManager) (columns : Nat) :
    WriterInv columns (writerStart manager columns) where
  shape := writerStart_shape manager columns
  room col c h := by
    have hcol : col < columns := by
      rw [← (writerStart_shape manager columns).offsets]
      exact (List.getElem?_eq_some_iff.mp h.offset).1
    rw [h.unique (writerStart_column manager hcol)]
    exact Nat.zero_le _

theorem WriterInv.step {columns : Nat} {s s' : WriterState} {op : WriterOp}
    {written : Option Block} (hinv : WriterInv columns s)
    (hstep : writerStep s op = .ok (s', written)) : WriterInv columns s' := by
  obtain ⟨c, hc⟩ := hinv.shape.exists_column (column_lt_of_writerStep hinv.shape hstep)
  obtain ⟨c₁, blk, hflush, hput, hvalues⟩ := writerStep_cases hc hstep
  have hroom : c₁.offset.toNat ≤ BLOCK_PAYLOAD := by
    cases hflush with
    | keep => exact hinv.room op.column c hc
    | flush hcount hpage => exact Nat.zero_le _
  refine ⟨writerStep_shape hinv.shape hstep, fun col d hd => ?_⟩
  rw [hput] at hd
  by_cases hcol : col = op.column
  · subst hcol
    rw [hd.unique (hc.put _)]
    show (c₁.offset + UInt64.ofNat op.values.length).toNat ≤ BLOCK_PAYLOAD
    rw [UInt64.toNat_add, UInt64.toNat_ofNat']
    -- the sum does not wrap, for the values that are copied have room
    by_cases hnil : op.values = []
    · rw [hnil, List.length_nil]
      exact (Nat.mod_le _ _).trans hroom
    · have hfits := hvalues hnil
      exact ((Nat.mod_le _ _).trans (Nat.add_le_add_left (Nat.mod_le _ _) _)).trans hfits
  · exact hinv.room col d ((hasColumn_put_of_ne hcol _).mp hd)

/-! ### Room for a write -/

/-- The column has room for `writeSize` bytes after `TableDataWriter_flush_if_full`. -/
def FitsAfterFlush (s : WriterState) (col : Nat) (writeSize : UInt64) : Prop :=
  ∃ manager' writer' written offset,
    tableDataWriterFlushIfFull s.manager s.writer col writeSize = .ok (manager', writer', written) ∧
      writer'.offsets[col]? = some offset ∧ offset.toNat + writeSize.toNat ≤ BLOCK_PAYLOAD

theorem fitsAfterFlush_iff {s : WriterState} {col : Nat} {writeSize : UInt64} {c : WriterColumn}
    (hc : HasColumn s.writer col c) (hroom : c.offset.toNat ≤ BLOCK_PAYLOAD)
    (hsize : writeSize.toNat ≤ BLOCK_PAYLOAD) :
    FitsAfterFlush s col writeSize ↔
      c.offset.toNat + writeSize.toNat ≤ BLOCK_PAYLOAD ∨
        (BLOCK_SIZE ≤ c.offset.toNat + writeSize.toNat ∧ c.tupleCount ≠ 0) := by
  have hpayload : BLOCK_PAYLOAD = 8184 := rfl
  have hblock : BLOCK_SIZE = 8192 := rfl
  have hadd : (c.offset + writeSize).toNat = c.offset.toNat + writeSize.toNat := by
    rw [UInt64.toNat_add]
    omega
  by_cases hfull : BLOCK_SIZE ≤ (c.offset + writeSize).toNat
  · -- the block is flushed, unless there are no tuples in it
    obtain ⟨manager', c', written, -, hne, hzero, -, heq⟩ := flushBlock_cases hc s.manager
    have hcall : FitsAfterFlush s col writeSize ↔
        c'.offset.toNat + writeSize.toNat ≤ BLOCK_PAYLOAD := by
      have hoffset := (hc.put c').offset
      constructor
      · rintro ⟨_, _, _, offset, hflush, hget, hle⟩
        rw [flushIfFull_eq hc, if_pos hfull, heq] at hflush
        cases hflush
        rwa [← Option.some.inj (hget.symm.trans hoffset)]
      · intro hle
        exact ⟨manager', _, written, c'.offset, by rw [flushIfFull_eq hc, if_pos hfull, heq],
          hoffset, hle⟩
    rw [hcall]
    by_cases hcount : c.tupleCount = 0
    · rw [hzero hcount]
      simp only [hcount, ne_eq, not_true_eq_false, and_false, or_false]
    · have hoffset : c'.offset.toNat = 0 := by
        rw [hne hcount]
        rfl
      simp only [hcount, ne_eq, not_false_eq_true, and_true]
      omega
  · -- the block is kept
    have hcall : FitsAfterFlush s col writeSize ↔
        c.offset.toNat + writeSize.toNat ≤ BLOCK_PAYLOAD := by
      constructor
      · rintro ⟨_, _, _, offset, hflush, hget, hle⟩
        rw [flushIfFull_eq hc, if_neg hfull] at hflush
        cases hflush
        rwa [← Option.some.inj (hget.symm.trans hc.offset)]
      · intro hle
        exact ⟨s.manager, s.writer, none, c.offset, by rw [flushIfFull_eq hc, if_neg hfull],
          hc.offset, hle⟩
    rw [hcall]
    omega

/-- The copy that follows stays inside the page buffer when there is room for it. -/
theorem writecolumndata_returns_iff {s : WriterState} {col : Nat} {values : List UInt8}
    {c : WriterColumn} (hc : HasColumn s.writer col c) (count : UInt64)
    (hsize : values.length ≤ BLOCK_PAYLOAD) :
    (∃ r, tableDataWriterWritecolumndata s.manager s.writer col values count = .ok r) ↔
      FitsAfterFlush s col (UInt64.ofNat values.length) := by
  have hlen : (UInt64.ofNat values.length).toNat = values.length := by
    rw [UInt64.toNat_ofNat']
    have hpayload : BLOCK_PAYLOAD = 8184 := rfl
    omega
  obtain ⟨manager', c₁, written, -, heq⟩ :=
    flushIfFull_cases hc s.manager (UInt64.ofNat values.length)
  have hoffset := (hc.put c₁).offset
  rw [writecolumndata_eq hc heq]
  constructor
  · rintro ⟨r, hcall⟩
    obtain ⟨fb, hcopy, -⟩ := bind_eq_ok.mp hcall
    exact ⟨manager', _, written, c₁.offset, heq, hoffset, by rw [hlen]; exact le_of_memcpyTo hcopy⟩
  · rintro ⟨_, _, _, offset, hflush, hget, hle⟩
    rw [heq] at hflush
    cases hflush
    rw [← Option.some.inj (hoffset.symm.trans hget), hlen] at hle
    obtain ⟨fb, hcopy, -⟩ := memcpyTo_of_le c₁.block.fb c₁.offset.toNat values hle
    rw [hcopy]
    exact ⟨_, rfl⟩

/-! ### The theorem -/

/-- In every state that calls on the columns reach, and for every write that is not larger than the
page buffer: after `TableDataWriter_flush_if_full` there is room for it exactly when there was room
before, or when the two fill the disk page and there are tuples to flush. -/
theorem column_block_fits_iff (manager : SingleFileExtentManager) (columns : Nat)
    (ops : List WriterOp) (s : WriterState) (results : List (Option Block))
    (hrun : runResults writerStep (writerStart manager columns) ops = .ok (s, results))
    (col : Nat) (hcol : col < columns) (writeSize : UInt64)
    (hsize : writeSize.toNat ≤ BLOCK_PAYLOAD) :
    ∃ offset count, s.writer.offsets[col]? = some offset ∧
      s.writer.tupleCounts[col]? = some count ∧
      (FitsAfterFlush s col writeSize ↔
        offset.toNat + writeSize.toNat ≤ BLOCK_PAYLOAD ∨
          (BLOCK_SIZE ≤ offset.toNat + writeSize.toNat ∧ count ≠ 0)) := by
  have hinv : WriterInv columns s := runResults_invariant (WriterInv columns)
    (fun _ _ _ _ h hstep => h.step hstep) (WriterInv.start manager columns) hrun
  obtain ⟨c, hc⟩ := hinv.shape.exists_column hcol
  exact ⟨c.offset, c.tupleCount, hc.offset, hc.tupleCount,
    fitsAfterFlush_iff hc (hinv.room col c hc) hsize⟩

/-- A run that leaves 100 one-byte values in the block of a column. -/
theorem hundred_values_run :
    ∃ s results,
      runResults writerStep (writerStart (managerZero { content := [], outcomes := [] }) 1)
          [.writecolumndata 0 (List.replicate 100 1) 100] = .ok (s, results) ∧
        s.writer.offsets = [100] ∧ s.writer.tupleCounts = [100] :=
  ⟨_, _, rfl, rfl, rfl⟩

/-- There is room for 8000 values more. -/
theorem column_block_fits_iff_hundred_values :
    ∃ s results,
      runResults writerStep (writerStart (managerZero { content := [], outcomes := [] }) 1)
          [.writecolumndata 0 (List.replicate 100 1) 100] = .ok (s, results) ∧
        FitsAfterFlush s 0 8000 := by
  obtain ⟨s, results, hrun, hoffsets, -⟩ := hundred_values_run
  obtain ⟨offset, count, hoffset, -, hiff⟩ :=
    column_block_fits_iff _ 1 _ s results hrun 0 (by decide) 8000 (by decide)
  rw [hoffsets] at hoffset
  cases hoffset
  exact ⟨s, results, hrun, hiff.mpr (Or.inl (by decide))⟩

/-- A write of 8087 values ends three bytes behind the page buffer and five bytes before the end of
the disk page: nothing is flushed, and the copy leaves the buffer. -/
theorem last_bytes_overflow :
    ∃ s results,
      runResults writerStep (writerStart (managerZero { content := [], outcomes := [] }) 1)
          [.writecolumndata 0 (List.replicate 100 1) 100] = .ok (s, results) ∧
        (8087 : UInt64).toNat ≤ BLOCK_PAYLOAD ∧ ¬ FitsAfterFlush s 0 8087 ∧
        ¬ ∃ r, tableDataWriterWritecolumndata s.manager s.writer 0 (List.replicate 8087 1) 8087
          = .ok r := by
  obtain ⟨s, results, hrun, hoffsets, -⟩ := hundred_values_run
  have hinv : WriterInv 1 s := runResults_invariant (WriterInv 1)
    (fun _ _ _ _ h hstep => h.step hstep) (WriterInv.start _ 1) hrun
  obtain ⟨c, hc⟩ := hinv.shape.exists_column Nat.one_pos
  have hoffset := hc.offset
  rw [hoffsets] at hoffset
  have hfits : ¬ FitsAfterFlush s 0 8087 := by
    rw [fitsAfterFlush_iff hc (hinv.room 0 c hc) (by decide), ← Option.some.inj hoffset]
    rintro (hroom | ⟨hfull, -⟩)
    · exact absurd hroom (by decide)
    · exact absurd hfull (by decide)
  refine ⟨s, results, hrun, by decide, hfits, fun hcopy => hfits ?_⟩
  have hreturns := (writecolumndata_returns_iff hc 8087
    (by rw [List.length_replicate]; decide)).mp hcopy
  rwa [List.length_replicate] at hreturns

end MustDb.Proofs.Storage
