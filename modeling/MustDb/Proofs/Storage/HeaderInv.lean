import MustDb.Lib.Run
import MustDb.Proofs.Storage.Checkpoint
import MustDb.Storage.System

/-!
# `MustDb.Proofs.Storage.HeaderInv`: the headers over a run

`HeaderInv` connects the manager to the two header slots of its file: `active_header` names the slot
with the greater iteration, `iteration_count` is that iteration, and the other slot is strictly
older. `HeaderInv.step_ok` shows that each call keeps it, when its block writes stay in the reach of
`fseek` and the iteration does not wrap (`Admissible`).

`header_alternation` is about the runs without a crash. The iterations of the slots are consecutive
there (`AlternationInv`), and each `write_header` puts the next header in the slot that is not
selected, and leaves the page of the selected one (`WritesSpare`).
-/

set_option autoImplicit false

namespace MustDb.Proofs.Storage

open MustDb.Lib
open MustDb.Storage

/-! ### Files with the same headers -/

/-- The header pages of the two files are the same. -/
structure SameHeaders (content content' : List UInt8) : Prop where
  length_le : 12288 ≤ content'.length
  slot_eq : ∀ slot, slotBytes content' slot = slotBytes content slot

theorem SameHeaders.slots_eq {content content' : List UInt8} (h : SameHeaders content content') :
    slots content' = slots content := by
  simp only [slots, headerAt, h.slot_eq]

theorem SameHeaders.masterVersion_eq {content content' : List UInt8}
    (h : SameHeaders content content') : masterVersion content' = masterVersion content := by
  simp only [masterVersion, h.slot_eq]

/-- A write behind the header pages. -/
theorem sameHeaders_pwrite {content : List UInt8} (hlen : 12288 ≤ content.length) {off : Nat}
    (hoff : 12288 ≤ off) (bytes : List UInt8) : SameHeaders content (pwrite content off bytes) where
  length_le := hlen.trans (le_length_pwrite content bytes off)
  slot_eq := slotBytes_pwrite_of_le hlen hoff

theorem le_start_block (id : BlockId) : 12288 ≤ pageLayout.start (.block id) := by
  simp only [pageLayout, blockStart_toNat]
  omega

/-- The write of a block, whatever its outcome. -/
theorem sameHeaders_block (handle : FileHandle) (hlen : 12288 ≤ handle.content.length)
    {id : BlockId} (hid : Addressable id) (page : List UInt8) :
    SameHeaders handle.content (fileWriteAt handle page (blockLocation id)).1.content := by
  obtain ⟨k, hk⟩ := fileWriteAt_prefix handle page (blockLocation id)
  rw [hk, blockLocation_toNat hid]
  exact sameHeaders_pwrite hlen (le_start_block id) _

/-- A checkpoint up to its header page, whatever the outcomes. -/
theorem sameHeaders_checkpointFile {manager : SingleFileExtentManager}
    (hlen : 12288 ≤ manager.fileHandle.content.length)
    (hid : manager.usedBlocks ≠ [] → Addressable (nextFreeBlockId manager)) :
    SameHeaders manager.fileHandle.content (checkpointFile manager).content := by
  by_cases hused : manager.usedBlocks = []
  · rw [checkpointFile, if_pos hused]
    exact ⟨hlen, fun _ => rfl⟩
  · rw [checkpointFile, if_neg hused, streamFile, if_neg (freeListData_ne_nil _)]
    exact sameHeaders_block _ hlen (hid hused) _

theorem checkpointFile_outcomes {manager : SingleFileExtentManager}
    (hio : manager.fileHandle.outcomes = []) : (checkpointFile manager).outcomes = [] := by
  rw [checkpointFile, streamFile]
  split
  · exact hio
  · rw [if_neg (freeListData_ne_nil _), fileWriteAt_outcomes, hio, List.tail_nil]

/-! ### The invariant -/

/-- The header pages of a file between two calls. -/
structure HeaderFile (content : List UInt8) : Prop where
  length_le : 12288 ≤ content.length
  version_eq : masterVersion content = VERSION_NUMBER
  ordered : (slots content).Ordered version

/-- The manager agrees with the headers of its file. -/
structure HeaderInv (manager : SingleFileExtentManager) : Prop extends
    HeaderFile manager.fileHandle.content where
  io : manager.fileHandle.outcomes = []
  active_eq : manager.activeHeader = activeCode (slots manager.fileHandle.content)
  iteration_eq : manager.iterationCount.toNat
    = version ((slots manager.fileHandle.content).select version)

theorem HeaderFile.of_sameHeaders {content content' : List UInt8} (h : HeaderFile content)
    (hsame : SameHeaders content content') : HeaderFile content' where
  length_le := hsame.length_le
  version_eq := hsame.masterVersion_eq.trans h.version_eq
  ordered := by
    rw [hsame.slots_eq]
    exact h.ordered

/-- A call that leaves the headers and the fields about them alone. -/
theorem HeaderInv.of_sameHeaders {manager manager' : SingleFileExtentManager}
    (h : HeaderInv manager) (hio : manager'.fileHandle.outcomes = [])
    (hsame : SameHeaders manager.fileHandle.content manager'.fileHandle.content)
    (hactive : manager'.activeHeader = manager.activeHeader)
    (hiteration : manager'.iterationCount = manager.iterationCount) : HeaderInv manager' where
  toHeaderFile := h.toHeaderFile.of_sameHeaders hsame
  io := hio
  active_eq := by rw [hactive, h.active_eq, hsame.slots_eq]
  iteration_eq := by rw [hiteration, h.iteration_eq, hsame.slots_eq]

/-- The header of the fresh database with the greater iteration is the second. -/
theorem firstActive_fresh :
    TwoSlot.firstActive version { first := freshHeader 0, second := freshHeader 1 } = false := by
  decide

theorem freshContent_headerFile : HeaderFile freshContent where
  length_le := length_freshContent
  version_eq := masterVersion_freshContent
  ordered := by
    rw [slots_freshContent, TwoSlot.Ordered, TwoSlot.select, TwoSlot.spare, firstActive_fresh]
    decide

theorem freshManager_headerInv : HeaderInv freshManager where
  toHeaderFile := freshContent_headerFile
  io := rfl
  active_eq := by
    show (1 : UInt8) = activeCode (slots freshContent)
    rw [slots_freshContent, activeCode, firstActive_fresh]
    rfl
  iteration_eq := by
    show (1 : UInt64).toNat = version ((slots freshContent).select version)
    rw [slots_freshContent, TwoSlot.select, firstActive_fresh]
    rfl

/-! ### A checkpoint -/

/-- The free-list block of a checkpoint lies in the reach of `fseek`, and the iteration does not
wrap. -/
structure Checkpointable (manager : SingleFileExtentManager) : Prop where
  addressable : manager.usedBlocks ≠ [] → Addressable (nextFreeBlockId manager)
  iteration_lt : manager.iterationCount.toNat + 1 < 2 ^ 64

section Torn
variable (manager : SingleFileExtentManager) (header : DatabaseHeader) (k : Nat)

/-- The file of a checkpoint of which the first `k` bytes of the header page arrived. -/
def tornContent : List UInt8 :=
  pwrite (checkpointFile manager).content
    (pageLayout.start (.header (inactiveSlot manager.activeHeader)))
    ((headerPage (checkpointHeader manager header)).take k)

/-- The header page that such a checkpoint leaves. -/
def tornPage : List UInt8 :=
  (headerPage (checkpointHeader manager header)).take k
    ++ (slotBytes manager.fileHandle.content (inactiveSlot manager.activeHeader)).drop k

/-- The header that such a checkpoint leaves. -/
def tornHeader : DatabaseHeader :=
  DatabaseHeader.ofBytes ((tornPage manager header k).drop FILE_BUFFER_HEADER_SIZE)

end Torn

/-- The header page that arrived in full. -/
theorem tornHeader_full (manager : SingleFileExtentManager) (header : DatabaseHeader) :
    tornHeader manager header HEADER_SIZE = checkpointHeader manager header := by
  have hold : (slotBytes manager.fileHandle.content
      (inactiveSlot manager.activeHeader)).drop HEADER_SIZE = [] := by
    apply List.drop_of_length_le
    rw [slotBytes, length_pread]
    exact Nat.min_le_left _ _
  rw [tornHeader, tornPage, hold, List.append_nil, take_headerPage, headerPage_header]

section TornFile
variable {manager : SingleFileExtentManager} (hlen : 12288 ≤ manager.fileHandle.content.length)
  (hid : manager.usedBlocks ≠ [] → Addressable (nextFreeBlockId manager))
  (header : DatabaseHeader) (k : Nat)
include hlen hid

theorem length_tornContent : 12288 ≤ (tornContent manager header k).length :=
  (sameHeaders_checkpointFile hlen hid).length_le.trans (le_length_pwrite _ _ _)

/-- A checkpoint changes one header page, however far that page gets. -/
theorem slotBytes_tornContent {slot : Fin 3} (hslot : slot ≠ inactiveSlot manager.activeHeader) :
    slotBytes (tornContent manager header k) slot = slotBytes manager.fileHandle.content slot := by
  have hsame := sameHeaders_checkpointFile hlen hid
  rw [tornContent, slotBytes_pwrite_of_ne hsame.length_le (length_take_headerPage_le _ _)
    hslot.symm, hsame.slot_eq]

theorem masterVersion_tornContent :
    masterVersion (tornContent manager header k) = masterVersion manager.fileHandle.content := by
  rw [masterVersion, masterVersion,
    slotBytes_tornContent hlen hid header k (inactiveSlot_ne_zero manager.activeHeader).symm]

/-- The headers after a checkpoint, whatever `active_header` says. -/
theorem headerAt_tornContent (slot : Fin 3) :
    headerAt (tornContent manager header k) slot
      = if slot = inactiveSlot manager.activeHeader then tornHeader manager header k
        else headerAt manager.fileHandle.content slot := by
  by_cases hslot : slot = inactiveSlot manager.activeHeader
  · rw [if_pos hslot, hslot, headerAt, tornContent, slotBytes_pwrite_take (length_headerPage _),
      (sameHeaders_checkpointFile hlen hid).slot_eq]
    rfl
  · rw [if_neg hslot, headerAt, slotBytes_tornContent hlen hid header k hslot]
    rfl

end TornFile

/-- The file of a checkpoint on a file whose writes all succeed. -/
theorem checkpointed_fileHandle {manager : SingleFileExtentManager} (header : DatabaseHeader)
    (hio : manager.fileHandle.outcomes = []) :
    (checkpointed manager header).fileHandle
      = { content := tornContent manager header HEADER_SIZE, outcomes := [] } := by
  show (fileWriteAt _ _ (checkpointLocation manager)).1 = _
  rw [checkpointLocation,
    fileWriteAt_full (checkpointFile_outcomes hio) _ (not_fseekFails_header _),
    headerLocation_toNat, tornContent, take_headerPage]

/-- The iteration of the header that a checkpoint stores. -/
theorem version_checkpointHeader {manager : SingleFileExtentManager} (header : DatabaseHeader)
    (hlt : manager.iterationCount.toNat + 1 < 2 ^ 64) :
    version (checkpointHeader manager header) = manager.iterationCount.toNat + 1 := by
  show (manager.iterationCount + 1).toNat = _
  rw [UInt64.toNat_add]
  exact Nat.mod_eq_of_lt hlt

section Checkpoint
variable {manager : SingleFileExtentManager} (h : HeaderInv manager)
  (hc : Checkpointable manager) (header : DatabaseHeader)
include h hc

/-- A checkpoint puts its header in the spare slot, complete or torn. -/
theorem HeaderInv.slots_tornContent (k : Nat) :
    slots (tornContent manager header k)
      = (slots manager.fileHandle.content).put version (tornHeader manager header k) := by
  have hsame := sameHeaders_checkpointFile h.length_le hc.addressable
  have hput := slots_pwrite_take hsame.length_le
    (length_headerPage (checkpointHeader manager header)) k
  simp only [hsame.slots_eq, ← h.active_eq, hsame.slot_eq] at hput
  exact hput

/-- A checkpoint whose header, complete or torn, has not the iteration of the selected one leaves
the header pages in order. -/
theorem HeaderInv.tornContent_headerFile (k : Nat)
    (hne : version (tornHeader manager header k)
      ≠ version ((slots manager.fileHandle.content).select version)) :
    HeaderFile (tornContent manager header k) where
  length_le := length_tornContent h.length_le hc.addressable header k
  version_eq :=
    (masterVersion_tornContent h.length_le hc.addressable header k).trans h.version_eq
  ordered := by
    rw [h.slots_tornContent hc]
    -- an older header is the spare one, and a newer one the selected one
    rcases Nat.lt_or_gt_of_ne hne with hlt | hgt
    · exact TwoSlot.ordered_put_of_lt hlt
    · exact TwoSlot.ordered_put hgt

/-- The header of a checkpoint is newer than the selected one. -/
theorem HeaderInv.select_lt :
    version ((slots manager.fileHandle.content).select version)
      < version (checkpointHeader manager header) := by
  rw [version_checkpointHeader header hc.iteration_lt, ← h.iteration_eq]
  exact Nat.lt_succ_self _

/-- The slots after a checkpoint. -/
theorem HeaderInv.slots_checkpointed :
    slots (checkpointed manager header).fileHandle.content
      = (slots manager.fileHandle.content).put version (checkpointHeader manager header) := by
  rw [checkpointed_fileHandle header h.io]
  show slots (tornContent manager header HEADER_SIZE) = _
  rw [h.slots_tornContent hc, tornHeader_full]

/-- A checkpoint keeps the invariant: its header becomes the selected one. -/
theorem HeaderInv.checkpoint : HeaderInv (checkpointed manager header) := by
  have hlt := h.select_lt hc header
  have hslots := h.slots_checkpointed hc header
  have hfile : HeaderFile (checkpointed manager header).fileHandle.content := by
    rw [checkpointed_fileHandle header h.io]
    refine h.tornContent_headerFile hc header HEADER_SIZE ?_
    rw [tornHeader_full]
    exact Nat.ne_of_gt hlt
  refine { toHeaderFile := hfile, io := ?_, active_eq := ?_, iteration_eq := ?_ }
  · rw [checkpointed_fileHandle header h.io]
  · show 1 - manager.activeHeader = _
    rw [hslots, activeCode, TwoSlot.firstActive_put hlt, h.active_eq, activeCode]
    cases (slots manager.fileHandle.content).firstActive version <;> rfl
  · show (manager.iterationCount + 1).toNat = _
    rw [hslots, TwoSlot.select_put hlt]
    rfl

end Checkpoint

/-! ### Runs -/

/-- The limits of the 64-bit arithmetic, for one call. -/
def Admissible (manager : SingleFileExtentManager) : Op → Prop
  | .write block => Addressable block.id
  | .writeHeader _ => Checkpointable manager
  | _ => True

/-- The manager of a reopening, whatever the free-list stream holds. -/
theorem HeaderFile.reopen {fuel : Nat} {handle : FileHandle} {manager : SingleFileExtentManager}
    (h : HeaderFile handle.content) (hio : handle.outcomes = [])
    (hopen : createNewDatabase fuel handle false = .ok (some manager)) :
    HeaderInv manager ∧ manager.fileHandle = handle := by
  obtain ⟨hhandle, hactive, hiteration⟩ := createNewDatabase_frame h.length_le h.version_eq hopen
  refine ⟨{ toHeaderFile := by rwa [hhandle], io := by rwa [hhandle],
            active_eq := by rwa [hhandle], iteration_eq := ?_ }, hhandle⟩
  rw [hhandle, hiteration]
  rfl

/-- A reopening in a run. -/
theorem step_reopen_ok {fuel : Nat} {manager manager' : SingleFileExtentManager}
    (h : step fuel manager .reopen = .ok manager') :
    createNewDatabase fuel manager.fileHandle false = .ok (some manager') := by
  obtain ⟨opened, hopen, h⟩ := bind_eq_ok.mp h
  cases opened with
  | none => cases h
  | some manager₁ =>
      cases pure_eq_ok.mp h
      exact hopen

/-- The step lemma: each admissible call keeps the invariant. -/
theorem HeaderInv.step_ok (fuel : Nat) {manager : SingleFileExtentManager} (op : Op)
    {manager' : SingleFileExtentManager} (h : HeaderInv manager) (hadm : Admissible manager op)
    (hstep : step fuel manager op = .ok manager') : HeaderInv manager' := by
  -- most calls leave the header pages alone
  have hsame : SameHeaders manager.fileHandle.content manager.fileHandle.content :=
    ⟨h.length_le, fun _ => rfl⟩
  have hfree : HeaderInv (afterGetFree manager) := by
    rw [afterGetFree_eq]
    exact h.of_sameHeaders h.io hsame rfl rfl
  cases op with
  | read id =>
      cases hstep
      exact h.of_sameHeaders h.io hsame rfl rfl
  | write block =>
      cases hstep
      -- the pages of the blocks are behind the header pages
      have hblock := sameHeaders_block manager.fileHandle h.length_le hadm (pageOf block.fb.buffer)
      refine h.of_sameHeaders ?_ hblock rfl rfl
      show (fileWriteAt manager.fileHandle (pageOf block.fb.buffer) _).1.outcomes = []
      rw [fileWriteAt_outcomes, h.io, List.tail_nil]
  | getFreeBlockId =>
      cases hstep
      exact hfree
  | createBlock =>
      cases hstep
      exact hfree
  | writeHeader header =>
      obtain ⟨-, rfl⟩ := writeHeader_ok_iff.mp hstep
      exact h.checkpoint hadm header
  | reopen => exact (h.toHeaderFile.reopen h.io (step_reopen_ok hstep)).1

/-! ### A database with one block -/

/-- A manager whose database has the one block 0. -/
structure OneBlock (used : List BlockId) (manager : SingleFileExtentManager) : Prop extends
    HeaderInv manager where
  used_eq : manager.usedBlocks = used
  free_eq : manager.freeList = []
  max_eq : manager.maxBlock = 1
  count_eq : manager.iterationCount = 1

/-- Block 0 of a fresh database is created, written and read. -/
theorem steps_one_block :
    ∃ created written manager, step 0 freshManager .createBlock = .ok created ∧
      step 0 created (.write (blockCreate 0)) = .ok written ∧
      step 0 written (.read 0) = .ok manager ∧
      created.fileHandle = freshManager.fileHandle ∧ OneBlock [] written ∧
      OneBlock [0] manager := by
  obtain ⟨created, hcreate, hfile, hcused, hcfree, hcmax, hcount⟩ :
      ∃ created, step 0 freshManager .createBlock = .ok created ∧
        created.fileHandle = freshManager.fileHandle ∧ created.usedBlocks = [] ∧
        created.freeList = [] ∧ created.maxBlock = 1 ∧ created.iterationCount = 1 :=
    ⟨_, rfl, rfl, rfl, rfl, rfl, rfl⟩
  have hcinv := freshManager_headerInv.step_ok 0 .createBlock trivial hcreate
  obtain ⟨written, hwrite, hwused, hwfree, hwmax, hwcount⟩ :
      ∃ written, step 0 created (.write (blockCreate 0)) = .ok written ∧
        written.usedBlocks = [] ∧ written.freeList = [] ∧ written.maxBlock = 1 ∧
        written.iterationCount = 1 := ⟨_, rfl, hcused, hcfree, hcmax, hcount⟩
  have hwinv := hcinv.step_ok 0 (.write (blockCreate 0)) (show Addressable 0 by decide) hwrite
  obtain ⟨manager, hread, hused, hfree, hmax, hiteration⟩ :
      ∃ manager, step 0 written (.read 0) = .ok manager ∧ manager.usedBlocks = [0] ∧
        manager.freeList = [] ∧ manager.maxBlock = 1 ∧ manager.iterationCount = 1 :=
    ⟨_, rfl, congrArg (· ++ [0]) hwused, hwfree, hwmax, hwcount⟩
  have hinv := hwinv.step_ok 0 (.read 0) trivial hread
  exact ⟨created, written, manager, hcreate, hwrite, hread, hfile,
    ⟨hwinv, hwused, hwfree, hwmax, hwcount⟩, ⟨hinv, hused, hfree, hmax, hiteration⟩⟩

section OneBlock
variable {used : List BlockId} {manager : SingleFileExtentManager}

theorem OneBlock.next_eq (h : OneBlock used manager) : nextFreeBlockId manager = 1 := by
  rw [nextFreeBlockId_eq, h.free_eq, h.max_eq]
  rfl

theorem OneBlock.checkpointable (h : OneBlock used manager) : Checkpointable manager := by
  refine ⟨fun _ => by rw [h.next_eq]; decide, ?_⟩
  rw [h.count_eq]
  decide

theorem OneBlock.writeHeader (h : OneBlock [0] manager) :
    step 0 manager (.writeHeader (freshHeader 0)) = .ok (checkpointed manager (freshHeader 0)) := by
  refine writeHeader_ok_iff.mpr ⟨?_, rfl⟩
  rw [h.used_eq]
  decide

/-- Its checkpoint stores the free list in block 1. -/
theorem OneBlock.freeListBlocks_eq (h : OneBlock [0] manager) :
    freeListBlocks (checkpointHeader manager (freshHeader 0)).freeListId = [1] := by
  rw [checkpointHeader, h.used_eq, h.next_eq]
  rfl

end OneBlock

/-! ### An interrupted checkpoint -/

/-- The spec of an interrupted checkpoint. -/
theorem interruptedWriteHeader_ok_iff {fuel : Nat} {manager : SingleFileExtentManager}
    {header : DatabaseHeader} {stored : Nat} {handle : FileHandle} :
    interruptedWriteHeader fuel manager header stored = .ok handle ↔
      manager.usedBlocks.length ≤ FREE_LIST_CAPACITY ∧
        handle = { content := tornContent manager header stored, outcomes := [] } := by
  by_cases hfit : manager.usedBlocks.length ≤ FREE_LIST_CAPACITY
  · obtain ⟨page, hprepare, hbuffer⟩ := writeHeaderPrepare_eq fuel manager header hfit
    -- the header pages are close to the start of the file, so the seek works
    have hslot : ¬ fseekFails (headerLocation (inactiveSlot manager.activeHeader)) :=
      not_fseekFails_header _
    have hrun : interruptedWriteHeader fuel manager header stored
        = .ok { content := tornContent manager header stored, outcomes := [] } := by
      rw [interruptedWriteHeader, hprepare, ok_bind]
      simp only [fileBufferWrite_handle, hbuffer, fileWriteAt, FileHandle.nextOutcome,
        HeaderWrite.location, checkpointManager, hslot, if_false, tornContent,
        ← headerLocation_toNat]
      rfl
    rw [hrun, Except.ok.injEq]
    exact ⟨fun h => ⟨hfit, h.symm⟩, fun h => h.2.symm⟩
  · -- a list that does not fit runs past its block, which does not return
    obtain ⟨e, he⟩ := writeHeaderPrepare_error fuel manager header (by omega)
    rw [interruptedWriteHeader, he, error_bind]
    simp [hfit]

/-- The slot that `active_header` names. -/
def activeSlot (activeHeader : UInt8) : Fin 3 :=
  if activeHeader = 0 then FIRST_SLOT else SECOND_SLOT

/-- `write_header` writes the slot that `active_header` does not name. -/
theorem inactiveSlot_ne_activeSlot (s : TwoSlot DatabaseHeader) :
    inactiveSlot (activeCode s) ≠ activeSlot (activeCode s) := by
  rw [activeCode]
  cases s.firstActive version <;> decide

/-- The toggle of `active_header` swaps the two slots. -/
theorem activeSlot_toggle (s : TwoSlot DatabaseHeader) :
    activeSlot (1 - activeCode s) = inactiveSlot (activeCode s) ∧
      inactiveSlot (1 - activeCode s) = activeSlot (activeCode s) := by
  rw [activeCode]
  cases s.firstActive version <;> decide

/-- The selected header is in the slot that `active_header` names. -/
theorem headerAt_activeSlot (content : List UInt8) :
    headerAt content (activeSlot (activeCode (slots content)))
      = (slots content).select version := by
  rw [activeCode, TwoSlot.select]
  cases (slots content).firstActive version <;> rfl

/-- A checkpoint does not touch the page of the selected header, however far its own header page
gets. -/
theorem HeaderInv.activePage_kept {manager : SingleFileExtentManager} (h : HeaderInv manager)
    (hid : manager.usedBlocks ≠ [] → Addressable (nextFreeBlockId manager))
    (header : DatabaseHeader) (k : Nat) :
    slotBytes (tornContent manager header k) (activeSlot manager.activeHeader)
      = slotBytes manager.fileHandle.content (activeSlot manager.activeHeader) := by
  have hne : inactiveSlot manager.activeHeader ≠ activeSlot manager.activeHeader := by
    rw [h.active_eq]
    exact inactiveSlot_ne_activeSlot _
  exact slotBytes_tornContent h.length_le hid header k hne.symm

/-! ### Consecutive iterations -/

/-- The invariant of the runs without a crash: the iterations on disk are consecutive. -/
structure AlternationInv (manager : SingleFileExtentManager) : Prop extends HeaderInv manager where
  consecutive : (slots manager.fileHandle.content).Consecutive version manager.iterationCount.toNat

theorem freshManager_alternationInv : AlternationInv freshManager where
  toHeaderInv := freshManager_headerInv
  consecutive := by
    show (slots freshContent).Consecutive version (1 : UInt64).toNat
    rw [slots_freshContent, TwoSlot.Consecutive, TwoSlot.select, TwoSlot.spare, firstActive_fresh]
    decide

/-- A call that leaves the headers alone. -/
theorem AlternationInv.of_slots_eq {manager manager' : SingleFileExtentManager}
    (h : AlternationInv manager) (h' : HeaderInv manager')
    (hslots : slots manager'.fileHandle.content = slots manager.fileHandle.content) :
    AlternationInv manager' where
  toHeaderInv := h'
  consecutive := by
    rw [h'.iteration_eq, hslots, ← h.iteration_eq]
    exact h.consecutive

/-- A checkpoint keeps the iterations consecutive. -/
theorem AlternationInv.checkpoint {manager : SingleFileExtentManager} (h : AlternationInv manager)
    (hc : Checkpointable manager) (header : DatabaseHeader) :
    AlternationInv (checkpointed manager header) where
  toHeaderInv := h.toHeaderInv.checkpoint hc header
  consecutive := by
    have hversion := version_checkpointHeader header hc.iteration_lt
    have hcount : (checkpointed manager header).iterationCount.toNat
        = manager.iterationCount.toNat + 1 := hversion
    -- the spare slot gets the successor of the selected iteration
    rw [h.toHeaderInv.slots_checkpointed hc header, hcount]
    exact TwoSlot.consecutive_put h.consecutive hversion

/-- The step lemma: each admissible call keeps the iterations consecutive. -/
theorem AlternationInv.step_ok {fuel : Nat} {manager manager' : SingleFileExtentManager}
    (h : AlternationInv manager) (op : Op) (hadm : Admissible manager op)
    (hstep : step fuel manager op = .ok manager') : AlternationInv manager' := by
  have hinv := h.toHeaderInv.step_ok fuel op hadm hstep
  have hfree : AlternationInv (afterGetFree manager) := by
    have hget := h.toHeaderInv.step_ok fuel .getFreeBlockId trivial rfl
    refine h.of_slots_eq hget ?_
    rw [afterGetFree_eq]
  cases op with
  | read id =>
      cases hstep
      exact h.of_slots_eq hinv rfl
  | write block =>
      cases hstep
      have hblock := sameHeaders_block manager.fileHandle h.length_le hadm (pageOf block.fb.buffer)
      exact h.of_slots_eq hinv hblock.slots_eq
  | getFreeBlockId =>
      cases hstep
      exact hfree
  | createBlock =>
      cases hstep
      exact hfree
  | writeHeader header =>
      obtain ⟨-, rfl⟩ := writeHeader_ok_iff.mp hstep
      exact h.checkpoint hadm header
  | reopen =>
      obtain ⟨-, hfile⟩ := h.toHeaderFile.reopen h.io (step_reopen_ok hstep)
      exact h.of_slots_eq hinv (by rw [hfile])

/-! ### Checkpoints and reopenings only -/

/-- The invariant of the runs of checkpoints and reopenings. No block is ever read there, so there
is no free list to save. -/
structure NoFreeListInv (manager : SingleFileExtentManager) : Prop extends
    AlternationInv manager where
  used_eq : manager.usedBlocks = []
  freeListId_eq :
    ((slots manager.fileHandle.content).select version).freeListId = INVALID_BLOCK

theorem freshManager_noFreeListInv : NoFreeListInv freshManager where
  toAlternationInv := freshManager_alternationInv
  used_eq := rfl
  freeListId_eq := by
    show ((slots freshContent).select version).freeListId = INVALID_BLOCK
    rw [slots_freshContent, TwoSlot.select, firstActive_fresh]
    rfl

theorem NoFreeListInv.checkpoint {manager : SingleFileExtentManager} (h : NoFreeListInv manager)
    (hlt : manager.iterationCount.toNat + 1 < 2 ^ 64) (header : DatabaseHeader) :
    NoFreeListInv (checkpointed manager header) := by
  have hc : Checkpointable manager := ⟨fun hused => absurd h.used_eq hused, hlt⟩
  refine { toAlternationInv := h.toAlternationInv.checkpoint hc header, used_eq := rfl,
           freeListId_eq := ?_ }
  rw [h.toHeaderInv.slots_checkpointed hc header,
    TwoSlot.select_put (h.toHeaderInv.select_lt hc header), checkpointHeader, if_pos h.used_eq]

/-- A reopening succeeds. It finds the same slots, and nothing on the free list. -/
theorem NoFreeListInv.reopen (fuel : Nat) {manager : SingleFileExtentManager}
    (h : NoFreeListInv manager) :
    ∃ manager', step fuel manager .reopen = .ok manager' ∧ NoFreeListInv manager' ∧
      manager'.iterationCount = manager.iterationCount := by
  -- without a free list there is no stream to read
  have hsaved : SavedFreeList manager.fileHandle.content
      ((slots manager.fileHandle.content).select version).freeListId [] :=
    { none := fun _ => rfl, page := fun hid => absurd h.freeListId_eq hid }
  have hopen := createNewDatabase_saved fuel h.length_le h.version_eq hsaved
  have hstep : step fuel manager .reopen = .ok (reopened manager.fileHandle []) := by
    rw [Storage.step, hopen]
    rfl
  have hinv := h.toAlternationInv.step_ok .reopen trivial hstep
  refine ⟨_, hstep,
    { toAlternationInv := hinv, used_eq := ?_, freeListId_eq := h.freeListId_eq },
    UInt64.toNat_inj.mp (hinv.iteration_eq.trans h.iteration_eq.symm)⟩
  show freeListBlocks _ = []
  rw [h.freeListId_eq]
  rfl

/-- The run lemma. Induction on the calls, with the checkpoints still to come below the wrap of the
iteration. Each checkpoint raises the iteration by one. -/
theorem NoFreeListInv.run_ok (fuel : Nat) : ∀ (ops : List Op) {manager : SingleFileExtentManager},
    NoFreeListInv manager → (∀ op ∈ ops, op.isCheckpointOrReopen) →
    manager.iterationCount.toNat + ops.countP Op.isWriteHeader < 2 ^ 64 →
    ∃ manager', run (step fuel) manager ops = .ok manager' ∧ NoFreeListInv manager' ∧
      manager'.iterationCount.toNat
        = manager.iterationCount.toNat + ops.countP Op.isWriteHeader := by
  intro ops
  induction ops with
  | nil => exact fun h _ _ => ⟨_, rfl, h, rfl⟩
  | cons op ops ih =>
      intro manager h hops hcount
      have hrest : ∀ op ∈ ops, op.isCheckpointOrReopen :=
        fun o ho => hops o (List.mem_cons_of_mem _ ho)
      have hop := hops op List.mem_cons_self
      rw [List.countP_cons] at hcount ⊢
      cases op with
      | writeHeader header =>
          -- one checkpoint less to come, and an iteration more
          simp only [Op.isWriteHeader, if_true] at hcount ⊢
          have hfit : manager.usedBlocks.length ≤ FREE_LIST_CAPACITY := by
            rw [h.used_eq]
            exact Nat.zero_le _
          have hstep : step fuel manager (.writeHeader header)
              = .ok (checkpointed manager header) :=
            writeHeader_ok_iff.mpr ⟨hfit, rfl⟩
          have hiteration : (checkpointed manager header).iterationCount.toNat
              = manager.iterationCount.toNat + 1 :=
            version_checkpointHeader header (by omega)
          obtain ⟨manager', hrun, hinv, htotal⟩ :=
            ih (h.checkpoint (by omega) header) hrest (by omega)
          exact ⟨manager', (run_cons ops hstep).trans hrun, hinv, by omega⟩
      | reopen =>
          obtain ⟨manager₁, hstep, hinv, hiteration⟩ := h.reopen fuel
          obtain ⟨manager', hrun, hinv', htotal⟩ :=
            ih hinv hrest (by rw [hiteration]; omega)
          rw [hiteration] at htotal
          exact ⟨manager', (run_cons ops hstep).trans hrun, hinv', htotal⟩
      | read id => cases hop
      | write block => cases hop
      | getFreeBlockId => cases hop
      | createBlock => cases hop

/-! ### The double buffer -/

/-- What a `write_header` that returns `manager'` has done: it has stored its header in the slot
that `active_header` does not name, and this slot is the active one now. -/
structure WritesSpare (manager : SingleFileExtentManager) (header : DatabaseHeader)
    (manager' : SingleFileExtentManager) : Prop where
  /-- The slot that is written is not the active one. -/
  spare_ne : inactiveSlot manager.activeHeader ≠ activeSlot manager.activeHeader
  /-- It has the header of the checkpoint. -/
  written_eq : headerAt manager'.fileHandle.content (inactiveSlot manager.activeHeader)
    = checkpointHeader manager header
  /-- The iteration of this header is the next one. -/
  iteration_eq :
    (headerAt manager'.fileHandle.content (inactiveSlot manager.activeHeader)).iteration.toNat
      = manager.iterationCount.toNat + 1
  /-- `iteration_count` goes with it. -/
  count_eq : manager'.iterationCount.toNat = manager.iterationCount.toNat + 1
  /-- `active_header` is toggled, and names the written slot. -/
  toggled : manager'.activeHeader = 1 - manager.activeHeader
  active_eq : activeSlot manager'.activeHeader = inactiveSlot manager.activeHeader
  /-- The slot that was active is the next one to be written. -/
  spare_eq : inactiveSlot manager'.activeHeader = activeSlot manager.activeHeader
  /-- The pages of the other slots stay, that of the active one among them. -/
  kept : ∀ slot, slot ≠ inactiveSlot manager.activeHeader →
    slotBytes manager'.fileHandle.content slot = slotBytes manager.fileHandle.content slot

/-- Each `write_header` of a manager that agrees with its headers writes the spare slot. -/
theorem HeaderInv.writesSpare {manager manager' : SingleFileExtentManager} (h : HeaderInv manager)
    (hc : Checkpointable manager) {fuel : Nat} {header : DatabaseHeader}
    (hrun : singleFileBlockManagerWriteHeader fuel manager header = .ok manager') :
    WritesSpare manager header manager' := by
  obtain ⟨-, rfl⟩ := writeHeader_ok_iff.mp hrun
  have hversion := version_checkpointHeader header hc.iteration_lt
  have htoggle := activeSlot_toggle (slots manager.fileHandle.content)
  rw [← h.active_eq] at htoggle
  -- the whole header page has arrived
  have hcontent : (checkpointed manager header).fileHandle.content
      = tornContent manager header HEADER_SIZE := by
    rw [checkpointed_fileHandle header h.io]
  have hwritten : headerAt (checkpointed manager header).fileHandle.content
      (inactiveSlot manager.activeHeader) = checkpointHeader manager header := by
    rw [hcontent, headerAt_tornContent h.length_le hc.addressable, if_pos rfl, tornHeader_full]
  refine { spare_ne := ?_, written_eq := hwritten, iteration_eq := ?_, count_eq := hversion,
           toggled := rfl, active_eq := htoggle.1, spare_eq := htoggle.2, kept := ?_ }
  · rw [h.active_eq]
    exact inactiveSlot_ne_activeSlot _
  · rw [hwritten]
    exact hversion
  · intro slot hslot
    rw [hcontent, slotBytes_tornContent h.length_le hc.addressable header HEADER_SIZE hslot]

/-- The double buffer: the state of the two header pages between two calls, and what the next
`write_header` does to it. -/
structure Alternates (manager : SingleFileExtentManager) : Prop where
  /-- The iterations on disk differ by exactly one. -/
  consecutive :
    (headerAt manager.fileHandle.content 1).iteration.toNat
        = (headerAt manager.fileHandle.content 2).iteration.toNat + 1 ∨
      (headerAt manager.fileHandle.content 2).iteration.toNat
        = (headerAt manager.fileHandle.content 1).iteration.toNat + 1
  /-- `iteration_count` is the larger one. -/
  iteration_eq : manager.iterationCount.toNat
    = max (headerAt manager.fileHandle.content 1).iteration.toNat
        (headerAt manager.fileHandle.content 2).iteration.toNat
  /-- `active_header` names its slot. -/
  active_eq : manager.activeHeader
    = if (headerAt manager.fileHandle.content 2).iteration
        < (headerAt manager.fileHandle.content 1).iteration then 0 else 1
  /-- A reopening selects the header of this slot. -/
  adopted_eq : adoptedHeader manager.fileHandle
    = (manager.activeHeader, headerAt manager.fileHandle.content (activeSlot manager.activeHeader))
  /-- The next `write_header` that succeeds writes the other slot. -/
  next : ∀ (fuel : Nat) (header : DatabaseHeader) (manager' : SingleFileExtentManager),
    manager.iterationCount.toNat + 1 < 2 ^ 64 →
    singleFileBlockManagerWriteHeader fuel manager header = .ok manager' →
    WritesSpare manager header manager'
  /-- The page of the selected header stays, also when the next `write_header` is interrupted. -/
  kept : ∀ (fuel : Nat) (header : DatabaseHeader) (stored : Nat) (handle : FileHandle),
    interruptedWriteHeader fuel manager header stored = .ok handle →
    slotBytes handle.content (activeSlot manager.activeHeader)
      = slotBytes manager.fileHandle.content (activeSlot manager.activeHeader)

theorem AlternationInv.alternates {manager : SingleFileExtentManager} (h : AlternationInv manager)
    (hid : manager.usedBlocks ≠ [] → Addressable (nextFreeBlockId manager)) :
    Alternates manager := by
  have hactive := h.active_eq
  have hcons := h.consecutive
  rw [activeCode] at hactive
  rw [TwoSlot.Consecutive, TwoSlot.select, TwoSlot.spare] at hcons
  have hlt : (headerAt manager.fileHandle.content 2).iteration
      < (headerAt manager.fileHandle.content 1).iteration
      ↔ (slots manager.fileHandle.content).firstActive version = true := by
    rw [TwoSlot.firstActive, decide_eq_true_eq, UInt64.lt_iff_toNat_lt]
    rfl
  -- the two iterations, by the slot that is active
  have hiterations :
      ((headerAt manager.fileHandle.content 1).iteration.toNat = manager.iterationCount.toNat ∧
        (headerAt manager.fileHandle.content 2).iteration.toNat + 1
          = manager.iterationCount.toNat) ∨
      ((headerAt manager.fileHandle.content 2).iteration.toNat = manager.iterationCount.toNat ∧
        (headerAt manager.fileHandle.content 1).iteration.toNat + 1
          = manager.iterationCount.toNat) := by
    cases hf : (slots manager.fileHandle.content).firstActive version with
    | true =>
        rw [hf] at hcons
        exact Or.inl hcons
    | false =>
        rw [hf] at hcons
        exact Or.inr hcons
  refine { consecutive := by omega, iteration_eq := by omega, active_eq := ?_, adopted_eq := ?_,
           next := ?_, kept := ?_ }
  · rw [hactive]
    cases hf : (slots manager.fileHandle.content).firstActive version <;> simp [hlt, hf]
  · rw [adoptedHeader_eq h.length_le, h.active_eq, headerAt_activeSlot]
  · intro fuel header manager' hlt hrun
    exact h.toHeaderInv.writesSpare ⟨hid, hlt⟩ hrun
  · intro fuel header stored handle hrun
    obtain ⟨-, rfl⟩ := interruptedWriteHeader_ok_iff.mp hrun
    exact h.toHeaderInv.activePage_kept hid header stored

/-- The double buffer alternates. Every sequence of checkpoints, fewer than `2 ^ 64 - 2` of them,
and reopenings runs from a fresh database to its end. There, as at the end of each part of it, the
iteration has counted the checkpoints, and the header pages are in this state. With other calls
between them, and so with free lists to save, they are in this state after every run whose calls
are admissible, when the next checkpoint can reach the block of its free list. -/
theorem header_alternation (fuel : Nat) (content : List UInt8) :
    ∃ manager₀, createNewDatabase fuel { content, outcomes := [] } true = .ok (some manager₀) ∧
      (∀ ops : List Op, (∀ op ∈ ops, op.isCheckpointOrReopen) →
        ops.countP Op.isWriteHeader < 2 ^ 64 - 2 →
        ∃ manager, run (step fuel) manager₀ ops = .ok manager ∧
          manager.iterationCount.toNat = 1 + ops.countP Op.isWriteHeader ∧ Alternates manager) ∧
      ∀ (ops : List Op) (manager : SingleFileExtentManager),
        Guarded (step fuel) Admissible manager₀ ops → run (step fuel) manager₀ ops = .ok manager →
        (manager.usedBlocks ≠ [] → Addressable (nextFreeBlockId manager)) →
        Alternates manager := by
  refine ⟨freshManager, createNewDatabase_fresh fuel content, fun ops hops hcount => ?_,
    fun ops manager hadm hrun hid => ?_⟩
  · -- the iteration starts at 1, so the sum stays below the wrap
    have hfirst : freshManager.iterationCount.toNat = 1 := rfl
    obtain ⟨manager, hrun, hinv, htotal⟩ :=
      NoFreeListInv.run_ok fuel ops freshManager_noFreeListInv hops (by omega)
    exact ⟨manager, hrun, htotal, hinv.alternates fun hused => absurd hinv.used_eq hused⟩
  · have hinv : AlternationInv manager :=
      run_invariant AlternationInv (fun _ _ _ h hg hs => h.step_ok _ hg hs) ops _ _
        freshManager_alternationInv hadm hrun
    exact hinv.alternates hid

/-- Two checkpoints with a reopening between them. -/
theorem header_alternation_two_checkpoints :
    ∃ manager₀ manager,
      createNewDatabase 0 { content := [], outcomes := [] } true = .ok (some manager₀) ∧
      run (step 0) manager₀
        [.writeHeader (freshHeader 0), .reopen, .writeHeader (freshHeader 0)] = .ok manager ∧
      manager.iterationCount.toNat = 3 ∧ Alternates manager := by
  obtain ⟨manager₀, hnew, hruns, -⟩ := header_alternation 0 []
  obtain ⟨manager, hrun, htotal, halternates⟩ :=
    hruns [.writeHeader (freshHeader 0), .reopen, .writeHeader (freshHeader 0)]
      (by simp [Op.isCheckpointOrReopen]) (by decide)
  exact ⟨manager₀, manager, hnew, hrun, htotal, halternates⟩

end MustDb.Proofs.Storage
