import MustDb.Proofs.Storage.CrashAtomicity
import MustDb.Proofs.Storage.FreeList

/-!
# `MustDb.Proofs.Storage.CopyOnWrite`: a checkpoint keeps its blocks

A checkpoint copies everything: a client reads the blocks of the old checkpoint and writes the data
to new blocks, and the blocks that it has read become the free list when the new header is stored.
So the blocks of a checkpoint stay as they are until the next header is in the file, and a crash
before that leaves a file with the old header and all its data. The comment at `write_header` in
`src/storage/table/storage.c` says that this is the purpose.

`CopyOnWrite id` is what a client has to do for it: it avoids the gaps of the allocation, it writes
only blocks that were handed out since the last checkpoint, and the block `id` is not read before a
checkpoint that is to keep it. `InCheckpoint` is its invariant, and
`checkpoint_keeps_blocks` is the theorem, for every run and for a crash at its end.
-/

set_option autoImplicit false

namespace MustDb.Proofs.Storage

open MustDb.Lib
open MustDb.Storage

/-- What a client may do while the block `id` belongs to a checkpoint. -/
structure CopyOnWrite (id : BlockId) (t : Traced) (op : Op) : Prop where
  sound : SoundTracedCall t op
  own : ∀ block, op = .write block → block.id ∈ t.session
  unread : op.isWriteHeader = true → id ∉ t.manager.usedBlocks

/-! ### The page of the block -/

section Page
variable {manager : SingleFileExtentManager} {id : BlockId} {page : List UInt8}

/-- The write of another block, of which some first bytes arrive. -/
theorem holds_writeOther {content : List UInt8}
    (hpage : Holds pageLayout content (.block id) page) {block : Block} (hne : block.id ≠ id)
    (stored : Nat) :
    Holds pageLayout (pwrite content (pageLayout.start (.block block.id))
      ((pageOf block.fb.buffer).take stored)) (.block id) page := by
  have hlen : ((pageOf block.fb.buffer).take stored).length
      ≤ pageLayout.size (.block block.id) := by
    rw [List.length_take, length_pageOf, block.fb.length_buffer]
    exact (Nat.min_le_right _ _).trans (Nat.le_refl 8192)
  exact hpage.write_other (by simpa using hne) hlen

/-- A checkpoint writes the block of its free list and its header page, and no other block. -/
theorem holds_tornContent (hpage : Holds pageLayout manager.fileHandle.content (.block id) page)
    (hio : manager.fileHandle.outcomes = [])
    (hid : manager.usedBlocks ≠ [] → Addressable (nextFreeBlockId manager))
    (hfit : manager.usedBlocks.length ≤ FREE_LIST_CAPACITY)
    (hne : nextFreeBlockId manager ≠ id) (header : DatabaseHeader) (stored : Nat) :
    Holds pageLayout (tornContent manager header stored) (.block id) page := by
  have hstream : Holds pageLayout (checkpointFile manager).content (.block id) page := by
    unfold checkpointFile
    split
    case isTrue => exact hpage
    case isFalse hused =>
        have hlen : (pageOf (streamPayload (freeListData manager.usedBlocks))).length
            ≤ pageLayout.size (.block (nextFreeBlockId manager)) := by
          rw [length_pageOf, length_streamPayload ((length_freeListData_le_iff _).mpr hfit)]
          exact Nat.le_refl 8192
        rw [streamFile, if_neg (freeListData_ne_nil _),
          fileWriteAt_full hio _ (not_fseekFails_block (hid hused)),
          blockLocation_toNat (hid hused)]
        exact hpage.write_other (by simpa using hne) hlen
  exact hstream.write_other (by simp) (length_take_headerPage_le _ _)

end Page

/-! ### The invariant -/

/-- The block belongs to a checkpoint: its page is in the file, and neither the manager nor a
reopened one can hand it out. -/
structure InCheckpoint (id : BlockId) (page : List UInt8) (t : Traced) : Prop extends
    AllocInv t where
  holds : Holds pageLayout t.manager.fileHandle.content (.block id) page
  lt_max : id < t.manager.maxBlock
  not_free : id ∉ t.manager.freeList
  not_session : id ∉ t.session
  durable : ∃ ids, Saved t.manager ids ∧ id ∉ ids ∧ id < (selectedHeader t.manager).blockCount

/-- A block below `max_block` that is not free is not the next one. -/
theorem nextFreeBlockId_ne {manager : SingleFileExtentManager} {id : BlockId}
    (hlt : id < manager.maxBlock) (hfree : id ∉ manager.freeList) :
    nextFreeBlockId manager ≠ id := by
  rintro rfl
  rcases getFree_cases manager with ⟨rest, hlist, -⟩ | ⟨-, hnext, -⟩
  · exact hfree (getFree_mem hlist).1
  · rw [hnext] at hlt
    exact UInt64.lt_irrefl _ hlt

section Steps
variable {id : BlockId} {page : List UInt8} {t : Traced}

/-- A checkpoint keeps a block that is neither free nor read. -/
theorem AllocInv.inCheckpoint (h : AllocInv t) (hc : Checkpointable t.manager)
    (hfit : t.manager.usedBlocks.length ≤ FREE_LIST_CAPACITY) (header : DatabaseHeader)
    (hpage : Holds pageLayout t.manager.fileHandle.content (.block id) page)
    (hlt : id < t.manager.maxBlock) (hfree : id ∉ t.manager.freeList)
    (hused : id ∉ t.manager.usedBlocks) :
    InCheckpoint id page
      { manager := checkpointed t.manager header, window := [], session := [] } where
  toAllocInv := h.checkpoint hc hfit header
  holds := by
    have htorn := holds_tornContent hpage h.io hc.addressable hfit (nextFreeBlockId_ne hlt hfree)
      header HEADER_SIZE
    show Holds pageLayout (checkpointed t.manager header).fileHandle.content (.block id) page
    rw [checkpointed_fileHandle header h.io]
    exact htorn
  lt_max := lt_checkpointed_maxBlock hc header hlt
  not_free := hused
  not_session := List.not_mem_nil
  durable := by
    -- the header has the old `max_block` as its block count, and the used blocks as its free list
    refine ⟨t.manager.usedBlocks, h.toHeaderInv.checkpointed_saved hc header hfit, hused, ?_⟩
    show id < (selectedHeader (checkpointed t.manager header)).blockCount
    rw [h.toHeaderInv.checkpointed_selectedHeader hc header]
    exact hlt

/-- An allocation hands out another block. -/
theorem InCheckpoint.alloc (h : InCheckpoint id page t)
    (hwrap : t.manager.freeList = [] → t.manager.maxBlock.toNat + 1 < 2 ^ 64)
    (window : List BlockId) :
    InCheckpoint id page { manager := afterGetFree t.manager, window
                           session := t.session ++ [nextFreeBlockId t.manager] } := by
  have halloc := h.toAllocInv.alloc hwrap window
  have hsession : id ∉ t.session ++ [nextFreeBlockId t.manager] := by
    have hne := nextFreeBlockId_ne h.lt_max h.not_free
    simp only [List.mem_append, List.mem_singleton, not_or]
    exact ⟨h.not_session, fun heq => hne heq.symm⟩
  rcases getFree_cases t.manager with ⟨rest, hlist, hafter⟩ | ⟨hnil, -, hafter⟩
  · have hmem := (getFree_mem hlist).2
    rw [hafter] at halloc ⊢
    exact {
      toAllocInv := halloc
      holds := h.holds
      lt_max := h.lt_max
      not_free := fun hid => h.not_free (hmem id hid)
      not_session := hsession
      durable := h.durable }
  · rw [hafter] at halloc ⊢
    exact {
      toAllocInv := halloc
      holds := h.holds
      lt_max := lt_add_one_of_lt h.lt_max (hwrap hnil)
      not_free := h.not_free
      not_session := hsession
      durable := h.durable }

/-- A read changes no block. -/
theorem InCheckpoint.read (h : InCheckpoint id page t) {read : BlockId}
    (hread : read ∉ t.manager.usedBlocks) (hlt : read < t.manager.maxBlock) :
    InCheckpoint id page
      { t with manager := (singleFileBlockManagerRead t.manager (blockCreate read)).1 } where
  toAllocInv := h.toAllocInv.read hread hlt
  holds := h.holds
  lt_max := h.lt_max
  not_free := h.not_free
  not_session := h.not_session
  durable := h.durable

/-- A write is one of another block. -/
theorem InCheckpoint.write (h : InCheckpoint id page t) {block : Block}
    (hid : Addressable block.id) (hchain : block.id ≠ (selectedHeader t.manager).freeListId)
    (hown : block.id ∈ t.session) :
    InCheckpoint id page
      { t with manager := (singleFileBlockManagerWrite t.manager block).1 } where
  toAllocInv := h.toAllocInv.write hid hchain
  holds := by
    have hne : block.id ≠ id := fun heq => h.not_session (heq ▸ hown)
    have hpage := holds_writeOther h.holds hne (pageOf block.fb.buffer).length
    rw [List.take_length, ← h.toHeaderInv.write_content hid] at hpage
    exact hpage
  lt_max := h.lt_max
  not_free := h.not_free
  not_session := h.not_session
  durable := by
    obtain ⟨ids, hsaved, hids, hcount⟩ := h.durable
    refine ⟨ids, h.toHeaderInv.write_saved hid hchain hsaved, hids, ?_⟩
    show id < (selectedHeader (singleFileBlockManagerWrite t.manager block).1).blockCount
    rw [h.toHeaderInv.write_selectedHeader hid]
    exact hcount

/-- A reopened manager has the free list and the block count of the header. -/
theorem InCheckpoint.reopen {fuel : Nat} (h : InCheckpoint id page t)
    (hcount : ∀ id ∈ freeListBlocks (selectedHeader t.manager).freeListId,
      id < (selectedHeader t.manager).blockCount)
    {manager : SingleFileExtentManager}
    (hopen : createNewDatabase fuel t.manager.fileHandle false = .ok (some manager))
    (window : List BlockId) :
    InCheckpoint id page { manager, window, session := [] } := by
  obtain ⟨ids, hsaved, hids, hlt⟩ := h.durable
  obtain ⟨hinv, hsaved', hselected, hfree, -, hmax⟩ := h.toHeaderInv.reopened_ok hsaved hopen
  have hfile : manager.fileHandle = t.manager.fileHandle :=
    (h.toHeaderFile.reopen h.io hopen).2
  refine { toAllocInv := h.toAllocInv.reopen hcount hopen window
           holds := ?_, lt_max := ?_, not_free := ?_, not_session := List.not_mem_nil,
           durable := ⟨ids, hsaved', hids, ?_⟩ }
  · show Holds pageLayout manager.fileHandle.content (.block id) page
    rw [hfile]
    exact h.holds
  · show id < manager.maxBlock
    rw [hmax]
    exact hlt
  · show id ∉ manager.freeList
    rw [hfree]
    exact hids
  · show id < (selectedHeader manager).blockCount
    rw [hselected]
    exact hlt

/-- The step lemma: the calls of a client that copies on write keep the block. -/
theorem InCheckpoint.step_ok {fuel : Nat} {t' : Traced} {op : Op} (h : InCheckpoint id page t)
    (hcall : CopyOnWrite id t op) (hstep : tracedStep fuel t op = .ok t') :
    InCheckpoint id page t' := by
  obtain ⟨hsound, hown, hunread⟩ := hcall
  obtain ⟨manager, hmanager, hend⟩ := bind_eq_ok.mp hstep
  cases pure_eq_ok.mp hend
  have hnone : t.window ++ [] = t.window ∧ t.session ++ [] = t.session :=
    ⟨List.append_nil _, List.append_nil _⟩
  cases op with
  | read read =>
      cases hmanager
      simp only [returnedIds, Op.isWriteHeader, Op.isCheckpointOrReopen, hnone, if_false,
        Bool.false_eq_true]
      exact h.read hsound.1 hsound.2
  | write block =>
      cases hmanager
      simp only [returnedIds, Op.isWriteHeader, Op.isCheckpointOrReopen, hnone, if_false,
        Bool.false_eq_true]
      exact h.write hsound.1 hsound.2 (hown block rfl)
  | getFreeBlockId | createBlock =>
      cases hmanager
      exact h.alloc hsound _
  | writeHeader header =>
      obtain ⟨hfit, rfl⟩ := writeHeader_ok_iff.mp hmanager
      exact h.toAllocInv.inCheckpoint hsound hfit header h.holds h.lt_max h.not_free (hunread rfl)
  | reopen => exact h.reopen hsound (step_reopen_ok hmanager) _

end Steps

/-! ### The crash -/

/-- The header that a reopening adopts after a crash whose torn page is safe. -/
theorem HeaderInv.adopted_of_tornSafe {manager : SingleFileExtentManager} (h : HeaderInv manager)
    (hc : Checkpointable manager) (header : DatabaseHeader) (stored : Nat)
    (hsafe : TornSafe (headerAt manager.fileHandle.content (inactiveSlot manager.activeHeader))
      (checkpointHeader manager header) (stored - FILE_BUFFER_HEADER_SIZE)) :
    (adoptedHeader { content := tornContent manager header stored, outcomes := [] }).2
        = (adoptedHeader manager.fileHandle).2 ∨
      (adoptedHeader { content := tornContent manager header stored, outcomes := [] }).2
        = checkpointHeader manager header := by
  rw [h.adopted_tornContent hc, adoptedHeader_eq h.length_le]
  split
  case isFalse => exact Or.inl rfl
  case isTrue hcomplete =>
      -- the iteration is complete, so no byte of it is missing and the header is the new one
      have hiteration : (tornHeader manager header stored).iteration
          = (checkpointHeader manager header).iteration := UInt64.toNat_inj.mp hcomplete
      rw [tornHeader_eq h.length_le] at hiteration ⊢
      rcases hsafe with ⟨i, hi, hmissing, hne⟩ | hwhole
      · exact absurd ((mixedHeader_iteration_eq_iff _ _ _).mp hiteration i hi hmissing) hne
      · exact Or.inr ((mixedHeader_eq_iff _ _ _).mpr hwhole)

/-- The page of the block, after each way in which a call of the client can die. -/
structure SurvivesCrash (fuel : Nat) (id : BlockId) (page : List UInt8) (t : Traced) : Prop where
  /-- In the write of a block, of which some first bytes arrive. -/
  inWrite : ∀ block stored, block.id ∈ t.session → Addressable block.id →
    Holds pageLayout (singleFileBlockManagerWrite (withOutcomes t.manager [.short stored])
      block).1.fileHandle.content (.block id) page
  /-- In the write of the header page, of which some first bytes arrive. A torn page that is safe
  leaves the old header or the new one. -/
  inWriteHeader : ∀ header stored handle, Checkpointable t.manager →
    interruptedWriteHeader fuel t.manager header stored = .ok handle →
      Holds pageLayout handle.content (.block id) page ∧
        (TornSafe (headerAt t.manager.fileHandle.content (inactiveSlot t.manager.activeHeader))
            (checkpointHeader t.manager header) (stored - FILE_BUFFER_HEADER_SIZE) →
          (adoptedHeader handle).2 = (adoptedHeader t.manager.fileHandle).2 ∨
            (adoptedHeader handle).2 = checkpointHeader t.manager header)

theorem InCheckpoint.survivesCrash {id : BlockId} {page : List UInt8} {t : Traced}
    (h : InCheckpoint id page t) (fuel : Nat) : SurvivesCrash fuel id page t where
  inWrite block stored hown hid := by
    have hne : block.id ≠ id := fun heq => h.not_session (heq ▸ hown)
    have hcontent : (singleFileBlockManagerWrite (withOutcomes t.manager [.short stored])
        block).1.fileHandle.content = pwrite t.manager.fileHandle.content
          (pageLayout.start (.block block.id)) ((pageOf block.fb.buffer).take stored) := by
      show (fileWriteAt _ (pageOf block.fb.buffer) (blockLocation block.id)).1.content = _
      rw [fileWriteAt, if_neg (not_fseekFails_block hid), blockLocation_toNat hid]
      rfl
    rw [hcontent]
    exact holds_writeOther h.holds hne stored
  inWriteHeader header stored handle hc hcrash := by
    obtain ⟨hfit, rfl⟩ := interruptedWriteHeader_ok_iff.mp hcrash
    refine ⟨?_, h.toHeaderInv.adopted_of_tornSafe hc header stored⟩
    exact holds_tornContent h.holds h.io hc.addressable hfit
      (nextFreeBlockId_ne h.lt_max h.not_free) header stored

/-- A block that was handed out and written before a checkpoint, and not read since the checkpoint
before, stays as it is from then on, through any number of sessions and further checkpoints: until
the client reads it and stores the next header. The manager does not hand it out, and its page is
the same after a crash in the write of another block or of the next header. -/
theorem checkpoint_keeps_blocks (fuel : Nat) (content : List UInt8)
    (manager₀ : SingleFileExtentManager)
    (hnew : createNewDatabase fuel { content, outcomes := [] } true = .ok (some manager₀))
    {before after : List Op} {t t' : Traced} {header : DatabaseHeader}
    (hbefore : Guarded (tracedStep fuel) SoundTracedCall (traceStart manager₀) before)
    (hrun : run (tracedStep fuel) (traceStart manager₀) before = .ok t)
    {id : BlockId} {page : List UInt8} (hid : id ∈ t.session)
    (hpage : Holds pageLayout t.manager.fileHandle.content (.block id) page)
    (hafter : Guarded (tracedStep fuel) (CopyOnWrite id) t (.writeHeader header :: after))
    (hrun' : run (tracedStep fuel) t (.writeHeader header :: after) = .ok t') :
    Holds pageLayout t'.manager.fileHandle.content (.block id) page ∧
      (singleFileBlockManagerGetFreeBlockId t'.manager).2 ≠ id ∧ SurvivesCrash fuel id page t' := by
  rw [createNewDatabase_fresh] at hnew
  cases hnew
  have halloc : AllocInv t := run_invariant AllocInv (fun _ _ _ hi hg hs => hi.step_ok hg hs)
    before _ _ freshManager_allocInv hbefore hrun
  -- the block enters the checkpoint, and stays in it
  obtain ⟨t₁, hstep, hrest⟩ := run_cons_ok hrun'
  obtain ⟨manager, hmanager, hend⟩ := bind_eq_ok.mp hstep
  obtain ⟨hfit, rfl⟩ := writeHeader_ok_iff.mp hmanager
  have hfirst : InCheckpoint id page t₁ := by
    cases pure_eq_ok.mp hend
    exact halloc.inCheckpoint hafter.1.sound hfit header hpage (halloc.session_lt id hid)
      (halloc.session_free id hid) (hafter.1.unread rfl)
  have hlast : InCheckpoint id page t' := run_invariant (InCheckpoint id page)
    (fun _ _ _ hi hg hs => hi.step_ok hg hs) after _ _ hfirst (hafter.2 t₁ hstep) hrest
  exact ⟨hlast.holds, nextFreeBlockId_ne hlast.lt_max hlast.not_free, hlast.survivesCrash fuel⟩

/-- Block 0 of a fresh database is created and written. -/
theorem traced_one_block :
    ∃ written, run (tracedStep 0) (traceStart freshManager)
        [.createBlock, .write (blockCreate 0)] = .ok ⟨written, [0], [0]⟩ ∧
      Guarded (tracedStep 0) SoundTracedCall (traceStart freshManager)
        [.createBlock, .write (blockCreate 0)] ∧ OneBlock [] written ∧
      Holds pageLayout written.fileHandle.content (.block 0)
        (pageOf (blockCreate 0).fb.buffer) := by
  obtain ⟨created, written, manager, hcreate, hwrite, -, hfile, h, -⟩ := steps_one_block
  have hblock : Addressable (blockCreate 0).id := show Addressable 0 by decide
  have hfirst : tracedStep 0 (traceStart freshManager) .createBlock = .ok ⟨created, [0], [0]⟩ :=
    tracedStep_ok hcreate
  have hsecond : tracedStep 0 ⟨created, [0], [0]⟩ (.write (blockCreate 0))
      = .ok ⟨written, [0], [0]⟩ := tracedStep_ok hwrite
  have hcinv := freshManager_headerInv.step_ok 0 .createBlock trivial hcreate
  refine ⟨written, ?_, ⟨fun _ => by decide, fun t ht => ?_⟩, h, ?_⟩
  · rw [run_cons _ hfirst, run_cons _ hsecond, run_nil]
  · rw [hfirst] at ht
    cases ht
    refine ⟨⟨hblock, ?_⟩, fun _ _ => trivial⟩
    show (0 : BlockId) ≠ (selectedHeader created).freeListId
    rw [selectedHeader, hfile, ← selectedHeader, freshManager_selectedHeader]
    decide
  · cases hwrite
    rw [hcinv.write_content hblock]
    exact Holds.write_same _ (by rw [length_pageOf, (blockCreate 0).fb.length_buffer]; rfl)

/-- Block 0 is in the first checkpoint, and then it is read. -/
theorem checkpoint_keeps_blocks_one_block :
    ∃ t t' page, run (tracedStep 0) (traceStart freshManager)
        [.createBlock, .write (blockCreate 0)] = .ok t ∧
      run (tracedStep 0) t [.writeHeader (freshHeader 0), .read 0] = .ok t' ∧
      Holds pageLayout t'.manager.fileHandle.content (.block 0) page ∧
      SurvivesCrash 0 0 page t' := by
  obtain ⟨written, hrun, hbefore, h, hpage⟩ := traced_one_block
  -- nothing was read, so the checkpoint has no free list
  have hcheckpoint : step 0 written (.writeHeader (freshHeader 0))
      = .ok (checkpointed written (freshHeader 0)) :=
    writeHeader_ok_iff.mpr ⟨by rw [h.used_eq]; exact Nat.zero_le _, rfl⟩
  have hmax : (checkpointed written (freshHeader 0)).maxBlock = 1 := by
    simp [checkpointed, h.used_eq, h.max_eq]
  have hfirst : tracedStep 0 ⟨written, [0], [0]⟩ (.writeHeader (freshHeader 0))
      = .ok ⟨checkpointed written (freshHeader 0), [], []⟩ := tracedStep_ok hcheckpoint
  have hsecond : tracedStep 0 ⟨checkpointed written (freshHeader 0), [], []⟩ (.read 0) = .ok _ :=
    tracedStep_ok rfl
  have hafter : Guarded (tracedStep 0) (CopyOnWrite 0) ⟨written, [0], [0]⟩
      [.writeHeader (freshHeader 0), .read 0] := by
    refine ⟨⟨h.checkpointable, fun _ hop => (by cases hop), fun _ => ?_⟩, fun t ht => ?_⟩
    · rw [h.used_eq]
      exact List.not_mem_nil
    · rw [hfirst] at ht
      cases ht
      refine ⟨⟨⟨List.not_mem_nil, ?_⟩, fun _ hop => (by cases hop), fun hop => by cases hop⟩,
        fun _ _ => trivial⟩
      rw [hmax]
      decide
  have hrun' := (run_cons [.read 0] hfirst).trans (run_cons [] hsecond)
  obtain ⟨hholds, -, hcrash⟩ := checkpoint_keeps_blocks 0 [] freshManager
    (createNewDatabase_fresh 0 []) hbefore hrun (List.mem_singleton.mpr rfl) hpage hafter hrun'
  exact ⟨_, _, _, hrun, hrun', hholds, hcrash⟩

end MustDb.Proofs.Storage
