import MustDb.Proofs.Storage.CrashAtomicity

/-!
# `MustDb.Proofs.Storage.WriteOutcomes`: checkpoints on a file whose writes can fail

Each file write has an outcome here, and a call does not see it: `fileBuffer_write` ignores the
result of `write_at` and returns 0. So a checkpoint goes on after a header page that was not stored
in full (`failed_header_write_iff`): it counts the iteration, changes the active header and moves
the used blocks to the free list.

`IoInv` is what survives every outcome: no iteration on disk is above `iteration_count`.
This is enough for a checkpoint whose own writes are all stored, whatever happened before:
`checkpoint_reopened` gives the manager that a reopening makes after it, and `reopen_restores_iff`
compares it with the manager before the reopening. They differ exactly when the checkpoint had to
take a new block for its free-list stream, because `block_count` is stored before that block is
taken.
-/

set_option autoImplicit false

namespace MustDb.Proofs.Storage

open MustDb.Lib
open MustDb.Storage

/-! ### A header page that is not stored -/

/-- The outcome of the header write of a checkpoint. A checkpoint with a free list writes one block
first. -/
def headerOutcome (manager : SingleFileExtentManager) : WriteOutcome :=
  (manager.fileHandle.outcomes.drop (if manager.usedBlocks = [] then 0 else 1)).head?.getD .full

theorem headerOutcome_eq (manager : SingleFileExtentManager) :
    headerOutcome manager = (checkpointFile manager).nextOutcome := by
  rw [headerOutcome, checkpointFile]
  split
  · rfl
  · -- the block of the free list took the first outcome
    rw [streamFile, if_neg (freeListData_ne_nil _), FileHandle.nextOutcome, fileWriteAt_outcomes,
      List.drop_one]

theorem withOutcomes_nil {manager : SingleFileExtentManager}
    (hio : manager.fileHandle.outcomes = []) : withOutcomes manager [] = manager := by
  rw [withOutcomes, ← hio]

/-- A call without failing writes, on a file whose writes all succeed. -/
theorem ioStep_nil {fuel : Nat} {manager : SingleFileExtentManager} {op : Op}
    (hio : manager.fileHandle.outcomes = []) :
    ioStep fuel manager ⟨op, []⟩ = step fuel manager op := by
  rw [ioStep, withOutcomes_nil hio]

/-- The result of `write_at` for the header page of a checkpoint, which nobody looks at. -/
def headerWriteResult (w : HeaderWrite) : Int :=
  (fileWriteAt w.manager.fileHandle
    (fileBufferWrite w.page w.manager.fileHandle w.location).1.internalBuf w.location).2

/-- The old checkpoint is kept: the counters and the used blocks are as before, and no block was
added to the free list. -/
structure Kept (manager manager' : SingleFileExtentManager) : Prop where
  iteration_eq : manager'.iterationCount = manager.iterationCount
  active_eq : manager'.activeHeader = manager.activeHeader
  metaBlock_eq : manager'.metaBlock = manager.metaBlock
  used_eq : manager'.usedBlocks = manager.usedBlocks
  free_subset : ∀ id ∈ manager'.freeList, id ∈ manager.freeList

theorem add_one_ne (x : UInt64) : x + 1 ≠ x := by
  intro h
  have hnat := congrArg UInt64.toNat h
  have hlt := x.toNat_lt
  rw [UInt64.toNat_add] at hnat
  have hone : (1 : UInt64).toNat = 1 := rfl
  omega

/-- A checkpoint is not undone, whatever the outcomes of its writes. -/
theorem not_kept_checkpointed (manager : SingleFileExtentManager) (header : DatabaseHeader) :
    ¬ Kept manager (checkpointed manager header) :=
  fun h => add_one_ne manager.iterationCount h.iteration_eq

/-- The result says that the page is stored in full exactly when its outcome does. -/
theorem headerWriteResult_eq_iff {fuel : Nat} {manager : SingleFileExtentManager}
    {header : DatabaseHeader} (hfit : manager.usedBlocks.length ≤ FREE_LIST_CAPACITY)
    {w : HeaderWrite} (hprepare : writeHeaderPrepare fuel manager header = .ok w) :
    headerWriteResult w = HEADER_SIZE ↔ StoresAll HEADER_SIZE (headerOutcome manager) := by
  obtain ⟨page, hw, hbuffer⟩ := writeHeaderPrepare_eq fuel manager header hfit
  rw [hw] at hprepare
  cases hprepare
  have hpage : (fileBufferWrite page (checkpointFile manager)
      (headerLocation (inactiveSlot manager.activeHeader))).1.internalBuf
      = headerPage (checkpointHeader manager header) := by
    rw [headerPage, ← hbuffer]
    rfl
  have hresult := fileWriteAt_result (checkpointFile manager)
    (headerPage (checkpointHeader manager header))
    (not_fseekFails_header (inactiveSlot manager.activeHeader))
  rw [length_headerPage, ← headerOutcome_eq, ← hpage] at hresult
  exact hresult

/-- If the header page is not stored in full, then the old checkpoint is kept: this holds exactly
when the page is stored in full. -/
theorem failed_header_write_iff (fuel : Nat) (manager manager' : SingleFileExtentManager)
    (header : DatabaseHeader) (w : HeaderWrite)
    (hprepare : writeHeaderPrepare fuel manager header = .ok w)
    (hrun : singleFileBlockManagerWriteHeader fuel manager header = .ok manager') :
    (headerWriteResult w ≠ HEADER_SIZE → Kept manager manager') ↔
      StoresAll HEADER_SIZE (headerOutcome manager) := by
  obtain ⟨hfit, rfl⟩ := writeHeader_ok_iff.mp hrun
  rw [ne_eq, headerWriteResult_eq_iff hfit hprepare]
  constructor
  · intro hkept
    by_contra hfailed
    exact not_kept_checkpointed manager header (hkept hfailed)
  · exact fun hstored hfailed => absurd hstored hfailed

/-- The first checkpoint of a fresh database, of whose header page 100 bytes are stored. -/
theorem failed_header_write_iff_short_write :
    ∃ w manager',
      writeHeaderPrepare 0 (withOutcomes freshManager [.short 100]) (freshHeader 0) = .ok w ∧
      ¬ (headerWriteResult w ≠ HEADER_SIZE →
        Kept (withOutcomes freshManager [.short 100]) manager') := by
  obtain ⟨page, hprepare, -⟩ := writeHeaderPrepare_eq 0 (withOutcomes freshManager [.short 100])
    (freshHeader 0) (Nat.zero_le _)
  have hrun : singleFileBlockManagerWriteHeader 0 (withOutcomes freshManager [.short 100])
      (freshHeader 0)
      = .ok (checkpointed (withOutcomes freshManager [.short 100]) (freshHeader 0)) :=
    writeHeader_ok_iff.mpr ⟨Nat.zero_le _, rfl⟩
  refine ⟨_, checkpointed (withOutcomes freshManager [.short 100]) (freshHeader 0), hprepare,
    fun hkept => ?_⟩
  have hstored := (failed_header_write_iff 0 (withOutcomes freshManager [.short 100]) _
    (freshHeader 0) _ hprepare hrun).mp hkept
  exact absurd (show 4096 ≤ 100 from hstored) (by decide)

/-- Block 0 is in use by the first checkpoint of a database, and read before the second one, whose
header page is not stored at all. The second checkpoint puts block 0 on the free list all the same,
and `get_free_block_id` hands it out next. -/
theorem not_kept_second_checkpoint :
    ∃ manager₀ manager w manager',
      createNewDatabase 0 { content := [], outcomes := [] } true = .ok (some manager₀) ∧
      run (ioStep 0) manager₀
        [⟨.createBlock, []⟩, ⟨.write (blockCreate 0), []⟩, ⟨.writeHeader (freshHeader 0), []⟩,
          ⟨.read 0, []⟩] = .ok manager ∧
      writeHeaderPrepare 0 (withOutcomes manager [.full, .seekError]) (freshHeader 0) = .ok w ∧
      headerWriteResult w ≠ HEADER_SIZE ∧
      singleFileBlockManagerWriteHeader 0 (withOutcomes manager [.full, .seekError])
        (freshHeader 0) = .ok manager' ∧
      nextFreeBlockId manager' = 0 ∧
      ¬ Kept (withOutcomes manager [.full, .seekError]) manager' := by
  obtain ⟨created, written, -, hcreate, hwrite, -, hfile, hw, -⟩ := steps_one_block
  have hcio : created.fileHandle.outcomes = [] := by rw [hfile]; rfl
  obtain ⟨stored, hstore, hsused, hsio⟩ :
      ∃ stored, step 0 written (.writeHeader (freshHeader 0)) = .ok stored ∧
        stored.usedBlocks = [] ∧ stored.fileHandle.outcomes = [] :=
    ⟨_, writeHeader_ok_iff.mpr ⟨by rw [hw.used_eq]; exact Nat.zero_le _, rfl⟩, rfl,
      (hw.toHeaderInv.checkpoint hw.checkpointable _).io⟩
  obtain ⟨manager, hread, hused⟩ :
      ∃ manager, step 0 stored (.read 0) = .ok manager ∧ manager.usedBlocks = [0] :=
    ⟨_, rfl, congrArg (· ++ [0]) hsused⟩
  have hrun : run (ioStep 0) freshManager
      [⟨.createBlock, []⟩, ⟨.write (blockCreate 0), []⟩, ⟨.writeHeader (freshHeader 0), []⟩,
        ⟨.read 0, []⟩] = .ok manager := by
    rw [run_cons _ ((ioStep_nil rfl).trans hcreate), run_cons _ ((ioStep_nil hcio).trans hwrite),
      run_cons _ ((ioStep_nil hw.io).trans hstore), run_cons _ ((ioStep_nil hsio).trans hread),
      run_nil]
  -- the outcomes are those of the next writes, and the fields are the same
  have husedIo : (withOutcomes manager [.full, .seekError]).usedBlocks = [0] := hused
  have hfit :
      (withOutcomes manager [.full, .seekError]).usedBlocks.length ≤ FREE_LIST_CAPACITY := by
    rw [husedIo]
    decide
  obtain ⟨page, hprepare, -⟩ := writeHeaderPrepare_eq 0
    (withOutcomes manager [.full, .seekError]) (freshHeader 0) hfit
  refine ⟨freshManager, manager, _, _, createNewDatabase_fresh 0 [], hrun, hprepare, ?_,
    writeHeader_ok_iff.mpr ⟨hfit, rfl⟩, ?_, not_kept_checkpointed _ _⟩
  · rw [ne_eq, headerWriteResult_eq_iff hfit hprepare, headerOutcome, husedIo]
    exact id
  · rw [nextFreeBlockId_eq, checkpointed, husedIo]
    rfl

/-! ### What survives every outcome -/

/-- The manager and the headers of its file, on a file whose writes can fail. -/
structure IoInv (manager : SingleFileExtentManager) : Prop where
  length_le : 12288 ≤ manager.fileHandle.content.length
  version_eq : masterVersion manager.fileHandle.content = VERSION_NUMBER
  active_cases : manager.activeHeader = 0 ∨ manager.activeHeader = 1
  version_le : ∀ slot, slot ≠ 0 →
    version (headerAt manager.fileHandle.content slot) ≤ manager.iterationCount.toNat

/-- The limits of the 64-bit arithmetic, for one call with its outcomes. -/
def IoAdmissible (manager : SingleFileExtentManager) (io : IoOp) : Prop :=
  Admissible (withOutcomes manager io.outcomes) io.op

/-- The selected header has the greatest iteration on disk. -/
theorem version_headerAt_le (content : List UInt8) {slot : Fin 3} (hslot : slot ≠ 0) :
    version (headerAt content slot) ≤ version ((slots content).select version) := by
  rcases slot_cases hslot with rfl | rfl
  · exact TwoSlot.first_le_select (slots content)
  · exact TwoSlot.second_le_select (slots content)

theorem activeCode_cases (s : TwoSlot DatabaseHeader) : activeCode s = 0 ∨ activeCode s = 1 := by
  rw [activeCode]
  cases s.firstActive version
  · exact Or.inr rfl
  · exact Or.inl rfl

/-- A manager that agrees with its headers. -/
theorem HeaderInv.ioInv {manager : SingleFileExtentManager} (h : HeaderInv manager) :
    IoInv manager where
  length_le := h.length_le
  version_eq := h.version_eq
  active_cases := by
    rw [h.active_eq]
    exact activeCode_cases _
  version_le := by
    intro slot hslot
    rw [h.iteration_eq]
    exact version_headerAt_le _ hslot

/-- A call that leaves the headers and the fields about them alone. -/
theorem IoInv.of_sameHeaders {manager manager' : SingleFileExtentManager} (h : IoInv manager)
    (hsame : SameHeaders manager.fileHandle.content manager'.fileHandle.content)
    (hactive : manager'.activeHeader = manager.activeHeader)
    (hiteration : manager'.iterationCount = manager.iterationCount) : IoInv manager' where
  length_le := hsame.length_le
  version_eq := hsame.masterVersion_eq.trans h.version_eq
  active_cases := by
    rw [hactive]
    exact h.active_cases
  version_le := by
    intro slot hslot
    rw [headerAt, hsame.slot_eq, hiteration]
    exact h.version_le slot hslot

/-- Whatever its outcomes, a checkpoint leaves a part of its header page. -/
theorem checkpointed_content (manager : SingleFileExtentManager) (header : DatabaseHeader) :
    ∃ k, (checkpointed manager header).fileHandle.content = tornContent manager header k := by
  obtain ⟨k, hk⟩ := fileWriteAt_prefix (checkpointFile manager)
    (headerPage (checkpointHeader manager header)) (checkpointLocation manager)
  refine ⟨k, hk.trans ?_⟩
  rw [checkpointLocation, headerLocation_toNat, tornContent]

/-- A checkpoint, whatever its outcomes. The torn iteration is at most the new one. -/
theorem IoInv.checkpoint {manager : SingleFileExtentManager} (h : IoInv manager)
    (hc : Checkpointable manager) (header : DatabaseHeader) :
    IoInv (checkpointed manager header) := by
  have hnew := version_checkpointHeader header hc.iteration_lt
  have hcount : (checkpointed manager header).iterationCount.toNat
      = manager.iterationCount.toNat + 1 := hnew
  have hactive : (checkpointed manager header).activeHeader = 1 - manager.activeHeader := rfl
  obtain ⟨k, hk⟩ := checkpointed_content manager header
  refine { length_le := ?_, version_eq := ?_, active_cases := ?_, version_le := ?_ }
  · rw [hk]
    exact length_tornContent h.length_le hc.addressable header k
  · rw [hk, masterVersion_tornContent h.length_le hc.addressable, h.version_eq]
  · rw [hactive]
    -- the flag switches between 0 and 1
    rcases h.active_cases with h0 | h1
    · rw [h0]
      exact Or.inr rfl
    · rw [h1]
      exact Or.inl rfl
  · intro slot hslot
    have hold := h.version_le slot hslot
    rw [hk, headerAt_tornContent h.length_le hc.addressable, hcount]
    split
    · -- the slot of the checkpoint has a mixture of an old iteration and the new one
      have hover := h.version_le _ (inactiveSlot_ne_zero manager.activeHeader)
      rw [tornHeader_eq h.length_le]
      rcases version_mixedHeader_cases
        (headerAt manager.fileHandle.content (inactiveSlot manager.activeHeader))
        (checkpointHeader manager header) (k - FILE_BUFFER_HEADER_SIZE) (by omega)
        with heq | heq | hle <;> omega
    · -- the other slot has kept its iteration
      omega

/-- A reopening takes the greatest iteration on disk. -/
theorem IoInv.reopen {fuel : Nat} {manager manager' : SingleFileExtentManager} (h : IoInv manager)
    (hopen : createNewDatabase fuel manager.fileHandle false = .ok (some manager')) :
    IoInv manager' := by
  obtain ⟨hhandle, hactive, hiteration⟩ :=
    createNewDatabase_frame h.length_le h.version_eq hopen
  refine { length_le := by rw [hhandle]; exact h.length_le,
           version_eq := by rw [hhandle]; exact h.version_eq,
           active_cases := ?_, version_le := ?_ }
  · rw [hactive]
    exact activeCode_cases _
  · intro slot hslot
    rw [hhandle, hiteration]
    exact version_headerAt_le _ hslot

/-- The step lemma: each admissible call keeps the invariant, whatever its outcomes. -/
theorem IoInv.ioStep_ok {fuel : Nat} {manager manager' : SingleFileExtentManager}
    (h : IoInv manager) (io : IoOp) (hadm : IoAdmissible manager io)
    (hstep : ioStep fuel manager io = .ok manager') : IoInv manager' := by
  obtain ⟨op, outcomes⟩ := io
  have hsame : SameHeaders manager.fileHandle.content manager.fileHandle.content :=
    ⟨h.length_le, fun _ => rfl⟩
  -- the outcomes of the call are not part of the headers
  have hio : IoInv (withOutcomes manager outcomes) := h.of_sameHeaders hsame rfl rfl
  have hfree : IoInv (afterGetFree (withOutcomes manager outcomes)) := by
    rw [afterGetFree_eq]
    exact h.of_sameHeaders hsame rfl rfl
  cases op with
  | read id =>
      cases hstep
      exact h.of_sameHeaders hsame rfl rfl
  | write block =>
      cases hstep
      have hblock := sameHeaders_block (withOutcomes manager outcomes).fileHandle
        h.length_le hadm (pageOf block.fb.buffer)
      exact hio.of_sameHeaders hblock rfl rfl
  | getFreeBlockId =>
      cases hstep
      exact hfree
  | createBlock =>
      cases hstep
      exact hfree
  | writeHeader header =>
      obtain ⟨-, rfl⟩ := writeHeader_ok_iff.mp hstep
      exact hio.checkpoint hadm header
  | reopen => exact hio.reopen (step_reopen_ok hstep)

/-! ### A reopening after a checkpoint -/

/-- Every file write of the next checkpoint is stored in full. -/
structure WritesStored (manager : SingleFileExtentManager) : Prop where
  freeList : manager.usedBlocks ≠ [] → StoresAll BLOCK_SIZE manager.fileHandle.nextOutcome
  header : StoresAll HEADER_SIZE (headerOutcome manager)

theorem writesStored_of_nil {manager : SingleFileExtentManager}
    (hio : manager.fileHandle.outcomes = []) : WritesStored manager where
  freeList _ := storesAll_of_nil hio _
  header := by
    rw [headerOutcome_eq]
    exact storesAll_of_nil (checkpointFile_outcomes hio) _

/-- The fields that a reopening has to restore. -/
structure Restored (manager restored : SingleFileExtentManager) : Prop where
  metaBlock_eq : restored.metaBlock = manager.metaBlock
  iteration_eq : restored.iterationCount = manager.iterationCount
  active_eq : restored.activeHeader = manager.activeHeader
  maxBlock_eq : restored.maxBlock = manager.maxBlock
  freeList_eq : restored.freeList = manager.freeList

/-- The write of a header page keeps every block. -/
theorem SavedFreeList.header {content bytes : List UInt8} {freeListId : BlockId}
    {ids : List BlockId} (h : SavedFreeList content freeListId ids) (slot : Fin 3)
    (hbytes : bytes.length ≤ HEADER_SIZE) :
    SavedFreeList (pwrite content (pageLayout.start (.header slot)) bytes) freeListId ids where
  none := h.none
  page := by
    intro hid
    obtain ⟨haddr, hlen, hpage⟩ := h.page hid
    exact ⟨haddr, hlen, hpage.write_other (by simp) hbytes⟩

/-- A checkpoint whose writes are all stored. -/
theorem checkpointed_content_stored {manager : SingleFileExtentManager}
    (hstored : WritesStored manager) (header : DatabaseHeader) :
    (checkpointed manager header).fileHandle.content = tornContent manager header HEADER_SIZE := by
  have hall := hstored.header
  rw [headerOutcome_eq] at hall
  show (fileWriteAt _ _ (checkpointLocation manager)).1.content = _
  rw [checkpointLocation, fileWriteAt_stored (not_fseekFails_header _)
    (by rwa [length_headerPage]), headerLocation_toNat, tornContent, take_headerPage]

section Stored
variable {manager : SingleFileExtentManager} (h : IoInv manager) (hc : Checkpointable manager)
  (hstored : WritesStored manager) (hfit : manager.usedBlocks.length ≤ FREE_LIST_CAPACITY)
  (header : DatabaseHeader)
include h hc hstored

/-- Its header is the selected one, and `active_header` names the slot. -/
theorem select_checkpointed_stored :
    (slots (checkpointed manager header).fileHandle.content).select version
        = checkpointHeader manager header ∧
      activeCode (slots (checkpointed manager header).fileHandle.content)
        = 1 - manager.activeHeader := by
  have hnew := version_checkpointHeader header hc.iteration_lt
  have h1 := h.version_le 1 (by decide)
  have h2 := h.version_le 2 (by decide)
  -- the header goes to the second slot or to the first, and is newer than the one in the other
  rcases h.active_cases with hactive | hactive
  · have hslots : slots (checkpointed manager header).fileHandle.content
        = { first := headerAt manager.fileHandle.content 1,
            second := checkpointHeader manager header } := by
      have hslot : inactiveSlot manager.activeHeader = 2 := by rw [hactive]; rfl
      rw [checkpointed_content_stored hstored header, slots,
        headerAt_tornContent h.length_le hc.addressable,
        headerAt_tornContent h.length_le hc.addressable, tornHeader_full, hslot]
      rfl
    -- the new iteration is larger than every one on disk
    have hf : (slots (checkpointed manager header).fileHandle.content).firstActive version
        = false := by
      rw [hslots]
      exact TwoSlot.firstActive_of_le (hnew ▸ Nat.le_succ_of_le h1)
    rw [activeCode, TwoSlot.select, hf, hslots, hactive]
    exact ⟨rfl, rfl⟩
  · have hslots : slots (checkpointed manager header).fileHandle.content
        = { first := checkpointHeader manager header,
            second := headerAt manager.fileHandle.content 2 } := by
      have hslot : inactiveSlot manager.activeHeader = 1 := by rw [hactive]; rfl
      rw [checkpointed_content_stored hstored header, slots,
        headerAt_tornContent h.length_le hc.addressable,
        headerAt_tornContent h.length_le hc.addressable, tornHeader_full, hslot]
      rfl
    have hf : (slots (checkpointed manager header).fileHandle.content).firstActive version
        = true := by
      rw [hslots]
      exact TwoSlot.firstActive_of_lt (hnew ▸ Nat.lt_succ_of_le h2)
    rw [activeCode, TwoSlot.select, hf, hslots, hactive]
    exact ⟨rfl, rfl⟩

omit h in
include hfit in
/-- The free-list stream that a checkpoint writes is the one that a reopening reads. -/
theorem savedFreeList_checkpoint :
    SavedFreeList (checkpointed manager header).fileHandle.content
      (checkpointHeader manager header).freeListId manager.usedBlocks := by
  rw [checkpointed_content_stored hstored header, tornContent]
  -- the header page goes elsewhere, so the block of the stream decides
  apply SavedFreeList.header _ _ (length_take_headerPage_le _ _)
  by_cases hused : manager.usedBlocks = []
  · -- nothing is to be saved, and the header says that there is no stream
    exact { none := fun _ => hused, page := fun hid => absurd (if_pos hused) hid }
  · have hid := hc.addressable hused
    have hall := hstored.freeList hused
    have hlen := (length_freeListData_le_iff manager.usedBlocks).mpr hfit
    have hpage :
        (pageOf (streamPayload (freeListData manager.usedBlocks))).length = BLOCK_SIZE := by
      rw [length_pageOf, length_streamPayload hlen]
      rfl
    have hfreeListId : (checkpointHeader manager header).freeListId = nextFreeBlockId manager :=
      if_neg hused
    rw [hfreeListId]
    refine { none := fun hnone => absurd hnone hid.ne_invalid, page := fun _ => ⟨hid, hfit, ?_⟩ }
    rw [checkpointFile, if_neg hused, streamFile, if_neg (freeListData_ne_nil _),
      fileWriteAt_stored (not_fseekFails_block hid) (by rwa [hpage]), blockLocation_toNat hid]
    exact Holds.write_same _ hpage

include hfit in
/-- The manager that a reopening makes right after a checkpoint. -/
theorem checkpoint_reopened (fuel : Nat) :
    createNewDatabase fuel (checkpointed manager header).fileHandle false
      = .ok (some { checkpointed manager header with
          usedBlocks := freeListBlocks (checkpointHeader manager header).freeListId
          maxBlock := manager.maxBlock }) := by
  obtain ⟨hselect, hactive⟩ := select_checkpointed_stored h hc hstored header
  have hsaved := savedFreeList_checkpoint hc hstored hfit header
  have hinv := h.checkpoint hc header
  rw [createNewDatabase_saved fuel hinv.length_le hinv.version_eq (by rw [hselect]; exact hsaved),
    reopened, hselect, hactive]
  rfl

end Stored

/-- Take any run from a fresh database, whatever the outcomes of its file writes, and then a
checkpoint whose writes are all stored. A reopening restores the manager exactly when the checkpoint
had no free list to write, or a block on the old free list to write it to. -/
theorem reopen_restores_iff (fuel : Nat) (content : List UInt8)
    (manager₀ manager manager' : SingleFileExtentManager) (ops : List IoOp)
    (outcomes : List WriteOutcome) (header : DatabaseHeader)
    (hnew : createNewDatabase fuel { content, outcomes := [] } true = .ok (some manager₀))
    (hadm : Guarded (ioStep fuel) IoAdmissible manager₀ ops)
    (hrun : run (ioStep fuel) manager₀ ops = .ok manager)
    (hc : Checkpointable (withOutcomes manager outcomes))
    (hstored : WritesStored (withOutcomes manager outcomes))
    (hwrite : ioStep fuel manager ⟨.writeHeader header, outcomes⟩ = .ok manager') :
    (∃ restored, createNewDatabase fuel manager'.fileHandle false = .ok (some restored) ∧
      Restored manager' restored) ↔
    manager.usedBlocks = [] ∨ manager.freeList ≠ [] := by
  rw [createNewDatabase_fresh] at hnew
  cases hnew
  have hinv : IoInv manager :=
    run_invariant IoInv (fun _ _ _ hi hg hs => hi.ioStep_ok _ hg hs) ops _ _
      freshManager_headerInv.ioInv hadm hrun
  have hio : IoInv (withOutcomes manager outcomes) :=
    hinv.of_sameHeaders ⟨hinv.length_le, fun _ => rfl⟩ rfl rfl
  obtain ⟨hfit, rfl⟩ := writeHeader_ok_iff.mp hwrite
  rw [checkpoint_reopened hio hc hstored hfit header fuel]
  have hmax : (checkpointed (withOutcomes manager outcomes) header).maxBlock
      = if manager.usedBlocks ≠ [] ∧ manager.freeList = [] then manager.maxBlock + 1
        else manager.maxBlock := rfl
  constructor
  · -- only `max_block` can differ, and it does when a new block was taken
    rintro ⟨restored, hopen, hrestored⟩
    cases hopen
    have heq := hrestored.maxBlock_eq
    rw [hmax] at heq
    by_contra hnew
    push Not at hnew
    rw [if_pos hnew] at heq
    exact add_one_ne _ heq.symm
  · -- no block was taken, or one from the free list, so the counts agree
    intro hold
    refine ⟨_, rfl, { metaBlock_eq := rfl, iteration_eq := rfl, active_eq := rfl,
                      maxBlock_eq := ?_, freeList_eq := rfl }⟩
    rw [hmax, if_neg]
    · rfl
    · rintro ⟨hused, hfree⟩
      rcases hold with h | h
      · exact hused h
      · exact h hfree

/-- An admissible first call of a run, on a file whose writes all succeed. -/
theorem HeaderInv.io_cons {fuel : Nat} {manager next last : SingleFileExtentManager} {op : Op}
    {ops : List IoOp} (h : HeaderInv manager) (hadm : Admissible manager op)
    (hstep : step fuel manager op = .ok next)
    (hrest : run (ioStep fuel) next ops = .ok last ∧ Guarded (ioStep fuel) IoAdmissible next ops) :
    run (ioStep fuel) manager (⟨op, []⟩ :: ops) = .ok last ∧
      Guarded (ioStep fuel) IoAdmissible manager (⟨op, []⟩ :: ops) := by
  have hio : ioStep fuel manager ⟨op, []⟩ = .ok next := (ioStep_nil h.io).trans hstep
  have hadm' : IoAdmissible manager ⟨op, []⟩ := (withOutcomes_nil h.io).symm ▸ hadm
  exact ⟨(run_cons ops hio).trans hrest.1, .cons hadm' hio hrest.2⟩

/-- The calls before the second checkpoint of a database with two blocks. -/
def twoBlockCalls : List IoOp :=
  [⟨.createBlock, []⟩, ⟨.write (blockCreate 0), []⟩, ⟨.read 0, []⟩, ⟨.createBlock, []⟩,
    ⟨.write (blockCreate 1), []⟩, ⟨.writeHeader (freshHeader 0), []⟩, ⟨.read 1, []⟩]

/-- Blocks 0 and 1 are created and written, and block 0 is read. The first checkpoint puts block 0
on the free list, and its stream in block 2. Then block 1 is read. -/
theorem steps_two_blocks :
    ∃ manager, run (ioStep 0) freshManager twoBlockCalls = .ok manager ∧
      Guarded (ioStep 0) IoAdmissible freshManager twoBlockCalls ∧ HeaderInv manager ∧
      manager.usedBlocks = [1] ∧ manager.freeList = [0] ∧ manager.iterationCount = 2 := by
  obtain ⟨created, written, read, hcreate, hwrite, hread, -, hw, h⟩ := steps_one_block
  have hid₀ : Addressable (blockCreate 0).id := show Addressable 0 by decide
  have hid₁ : Addressable (blockCreate 1).id := show Addressable 1 by decide
  -- the second block is new
  obtain ⟨created', hcreate', hcused, hcfree, hcmax, hccount⟩ :
      ∃ created', step 0 read .createBlock = .ok created' ∧ created'.usedBlocks = [0] ∧
        created'.freeList = [] ∧ created'.maxBlock = 2 ∧ created'.iterationCount = 1 := by
    refine ⟨afterGetFree read, rfl, ?_⟩
    rw [afterGetFree_eq, h.free_eq, h.max_eq]
    exact ⟨h.used_eq, rfl, rfl, h.count_eq⟩
  have hcinv := h.toHeaderInv.step_ok 0 .createBlock trivial hcreate'
  obtain ⟨written', hwrite', hwused, hwfree, hwmax, hwcount⟩ :
      ∃ written', step 0 created' (.write (blockCreate 1)) = .ok written' ∧
        written'.usedBlocks = [0] ∧ written'.freeList = [] ∧ written'.maxBlock = 2 ∧
        written'.iterationCount = 1 := ⟨_, rfl, hcused, hcfree, hcmax, hccount⟩
  have hwinv := hcinv.step_ok 0 (.write (blockCreate 1)) hid₁ hwrite'
  -- the stream of the first checkpoint takes a new block too
  have hcheck : Checkpointable written' := by
    refine ⟨fun _ => ?_, by rw [hwcount]; decide⟩
    rw [nextFreeBlockId_eq, hwfree, hwmax]
    decide
  obtain ⟨stored, hstore, hsused, hsfree, hscount⟩ :
      ∃ stored, step 0 written' (.writeHeader (freshHeader 0)) = .ok stored ∧
        stored.usedBlocks = [] ∧ stored.freeList = [0] ∧ stored.iterationCount = 2 := by
    refine ⟨_, writeHeader_ok_iff.mpr ⟨by rw [hwused]; decide, rfl⟩, rfl, hwused, ?_⟩
    show written'.iterationCount + 1 = 2
    rw [hwcount]
    rfl
  have hsinv := hwinv.step_ok 0 (.writeHeader (freshHeader 0)) hcheck hstore
  obtain ⟨manager, hlast, hused, hfree, hcount⟩ :
      ∃ manager, step 0 stored (.read 1) = .ok manager ∧ manager.usedBlocks = [1] ∧
        manager.freeList = [0] ∧ manager.iterationCount = 2 :=
    ⟨_, rfl, congrArg (· ++ [1]) hsused, hsfree, hscount⟩
  have hinv := hsinv.step_ok 0 (.read 1) trivial hlast
  obtain ⟨hrun, hguard⟩ : run (ioStep 0) freshManager twoBlockCalls = .ok manager ∧
      Guarded (ioStep 0) IoAdmissible freshManager twoBlockCalls :=
    freshManager_headerInv.io_cons trivial hcreate <|
    (freshManager_headerInv.step_ok 0 .createBlock trivial hcreate).io_cons hid₀ hwrite <|
    hw.toHeaderInv.io_cons trivial hread <| h.toHeaderInv.io_cons trivial hcreate' <|
    hcinv.io_cons hid₁ hwrite' <| hwinv.io_cons hcheck hstore <|
    hsinv.io_cons trivial hlast ⟨run_nil manager, trivial⟩
  exact ⟨manager, hrun, hguard, hinv, hused, hfree, hcount⟩

/-- The second checkpoint of this database puts its stream in block 0, from the old free list. -/
theorem reopen_restores_iff_two_blocks :
    ∃ manager manager' restored,
      run (ioStep 0) freshManager twoBlockCalls = .ok manager ∧
      manager.usedBlocks = [1] ∧ manager.freeList = [0] ∧
      ioStep 0 manager ⟨.writeHeader (freshHeader 0), []⟩ = .ok manager' ∧
      createNewDatabase 0 manager'.fileHandle false = .ok (some restored) ∧
      Restored manager' restored ∧ restored.freeList = [1] := by
  obtain ⟨manager, hrun, hguard, h, hused, hfree, hcount⟩ := steps_two_blocks
  have hnext : nextFreeBlockId manager = 0 := by
    rw [nextFreeBlockId_eq, hfree]
    rfl
  have hc : Checkpointable manager :=
    ⟨fun _ => by rw [hnext]; decide, by rw [hcount]; decide⟩
  have hsame := withOutcomes_nil h.io
  have hwrite : ioStep 0 manager ⟨.writeHeader (freshHeader 0), []⟩
      = .ok (checkpointed manager (freshHeader 0)) := by
    rw [ioStep_nil h.io]
    refine writeHeader_ok_iff.mpr ⟨?_, rfl⟩
    rw [hused]
    decide
  obtain ⟨restored, hopen, hrestored⟩ := (reopen_restores_iff 0 [] freshManager manager _
    twoBlockCalls [] (freshHeader 0) (createNewDatabase_fresh 0 []) hguard hrun
    (hsame.symm ▸ hc) (hsame.symm ▸ writesStored_of_nil h.io) hwrite).mpr
    (Or.inr (hfree ▸ List.cons_ne_nil 0 []))
  exact ⟨manager, _, restored, hrun, hused, hfree, hwrite, hopen, hrestored,
    hrestored.freeList_eq.trans hused⟩

/-- Block 0 is written and read, and then a checkpoint takes block 1 for its free-list stream. The
reopening does not know that block 1 is in use. -/
theorem not_restored_new_free_list_block :
    ∃ manager₀ manager manager' restored,
      createNewDatabase 0 { content := [], outcomes := [] } true = .ok (some manager₀) ∧
      run (ioStep 0) manager₀
        [⟨.createBlock, []⟩, ⟨.write (blockCreate 0), []⟩, ⟨.read 0, []⟩] = .ok manager ∧
      ioStep 0 manager ⟨.writeHeader (freshHeader 0), []⟩ = .ok manager' ∧
      createNewDatabase 0 manager'.fileHandle false = .ok (some restored) ∧
      restored.usedBlocks = [1] ∧ manager'.maxBlock = 2 ∧ restored.maxBlock = 1 ∧
      ¬ Restored manager' restored := by
  obtain ⟨created, written, manager, hcreate, hwrite, hread, hfile, hw, h⟩ := steps_one_block
  have hcio : created.fileHandle.outcomes = [] := by rw [hfile]; rfl
  have hrun : run (ioStep 0) freshManager
      [⟨.createBlock, []⟩, ⟨.write (blockCreate 0), []⟩, ⟨.read 0, []⟩] = .ok manager := by
    rw [run_cons _ ((ioStep_nil rfl).trans hcreate), run_cons _ ((ioStep_nil hcio).trans hwrite),
      run_cons _ ((ioStep_nil hw.io).trans hread), run_nil]
  have hfit : manager.usedBlocks.length ≤ FREE_LIST_CAPACITY := by
    rw [h.used_eq]
    decide
  have hopen := checkpoint_reopened h.toHeaderInv.ioInv h.checkpointable (writesStored_of_nil h.io)
    hfit (freshHeader 0) 0
  have hnewMax : (checkpointed manager (freshHeader 0)).maxBlock = 2 := by
    rw [checkpointed, h.used_eq, h.free_eq, h.max_eq]
    rfl
  refine ⟨freshManager, manager, _, _, createNewDatabase_fresh 0 [], hrun,
    (ioStep_nil h.io).trans h.writeHeader, hopen, h.freeListBlocks_eq, hnewMax, h.max_eq,
    fun hrestored => ?_⟩
  have heq := hrestored.maxBlock_eq
  rw [hnewMax] at heq
  exact absurd (h.max_eq.symm.trans heq) (by decide)

end MustDb.Proofs.Storage
