import MustDb.Proofs.Storage.WriteOutcomes

/-!
# `MustDb.Proofs.Storage.FreeList`: the blocks that are handed out

`get_free_block_id` takes the last block of the free list, or the block `max_block`
(`getFree_cases`). A checkpoint makes the used blocks the new free list, and `read` records a block
as used each time it is read. So the free list is sound only for a client that reads a block at most
once between two checkpoints. A second gap is `block_count`: a checkpoint stores it before it takes
the block of the free-list stream. After a reopening a new such block is above `max_block` and is
handed out again.

Two invariants, each for the runs whose calls avoid these gaps:

* `AllocInv`: no block is handed out twice, in a session or between two checkpoints
  (`allocation_sound`, under `SoundCall`);
* `ChainInv`: the block that stores the free list of the selected header is not handed out
  (`live_free_list_kept`, under `KeepsChain`).

`double_read_frees_twice` and `chain_block_handed_out` are the runs that go wrong.
-/

set_option autoImplicit false

namespace MustDb.Proofs.Storage

open MustDb.Lib
open MustDb.Storage

/-! ### One allocation -/

/-- What `get_free_block_id` does. -/
theorem getFree_cases (manager : SingleFileExtentManager) :
    (∃ rest, manager.freeList = rest ++ [nextFreeBlockId manager] ∧
      afterGetFree manager = { manager with freeList := rest }) ∨
    (manager.freeList = [] ∧ nextFreeBlockId manager = manager.maxBlock ∧
      afterGetFree manager = { manager with maxBlock := manager.maxBlock + 1 }) := by
  rw [nextFreeBlockId_eq, afterGetFree_eq]
  rcases List.eq_nil_or_concat manager.freeList with hnil | ⟨rest, last, hlist⟩
  · right
    simp [hnil]
  · left
    refine ⟨rest, ?_, ?_⟩ <;> simp [hlist]

/-- The block that is taken from the free list, and the blocks that stay on it. -/
theorem getFree_mem {manager : SingleFileExtentManager} {rest : List BlockId}
    (hlist : manager.freeList = rest ++ [nextFreeBlockId manager]) :
    nextFreeBlockId manager ∈ manager.freeList ∧ ∀ id ∈ rest, id ∈ manager.freeList := by
  rw [hlist]
  exact ⟨List.mem_append_right _ List.mem_cons_self, fun _ hid => List.mem_append_left _ hid⟩

theorem lt_add_one_of_lt {a n : UInt64} (h : a < n) (hn : n.toNat + 1 < 2 ^ 64) : a < n + 1 := by
  rw [UInt64.lt_iff_toNat_lt] at h ⊢
  have hone : (1 : UInt64).toNat = 1 := rfl
  rw [UInt64.toNat_add, hone, Nat.mod_eq_of_lt hn]
  omega

theorem lt_add_one {n : UInt64} (hn : n.toNat + 1 < 2 ^ 64) : n < n + 1 := by
  rw [UInt64.lt_iff_toNat_lt]
  have hone : (1 : UInt64).toNat = 1 := rfl
  rw [UInt64.toNat_add, hone, Nat.mod_eq_of_lt hn]
  exact Nat.lt_succ_self _

theorem Addressable.succ_lt {id : BlockId} (h : Addressable id) : id.toNat + 1 < 2 ^ 64 := by
  have hlt := h.lt
  omega

theorem nodup_concat {ids : List BlockId} {id : BlockId} (h : ids.Nodup) (hid : id ∉ ids) :
    (ids ++ [id]).Nodup := by
  rw [← List.concat_eq_append]
  exact h.concat hid

theorem forall_mem_concat {p : BlockId → Prop} {ids : List BlockId} {id : BlockId}
    (h : ∀ a ∈ ids, p a) (hid : p id) : ∀ a ∈ ids ++ [id], p a :=
  List.forall_mem_append.mpr ⟨h, List.forall_mem_singleton.mpr hid⟩

/-! ### The free list on disk -/

/-- The header that a reopening would adopt. -/
def selectedHeader (manager : SingleFileExtentManager) : DatabaseHeader :=
  (adoptedHeader manager.fileHandle).2

/-- The file has the free list `ids` of the selected header. -/
def Saved (manager : SingleFileExtentManager) (ids : List BlockId) : Prop :=
  SavedFreeList manager.fileHandle.content (selectedHeader manager).freeListId ids

theorem HeaderInv.selectedHeader_eq {manager : SingleFileExtentManager} (h : HeaderInv manager) :
    selectedHeader manager = (slots manager.fileHandle.content).select version :=
  congrArg Prod.snd (adoptedHeader_eq h.length_le)

theorem freshManager_selectedHeader : selectedHeader freshManager = freshHeader 1 := by
  rw [freshManager_headerInv.selectedHeader_eq]
  show (slots freshContent).select version = _
  rw [slots_freshContent, TwoSlot.select, firstActive_fresh]
  rfl

theorem freshManager_saved : Saved freshManager [] := by
  rw [Saved, freshManager_selectedHeader]
  exact { none := fun _ => rfl, page := fun hid => absurd rfl hid }

section File
variable {manager : SingleFileExtentManager} (h : HeaderInv manager)
include h

/-- The write of a block, on a file whose writes all succeed. -/
theorem HeaderInv.write_content {block : Block} (hid : Addressable block.id) :
    (singleFileBlockManagerWrite manager block).1.fileHandle.content
      = pwrite manager.fileHandle.content (pageLayout.start (.block block.id))
          (pageOf block.fb.buffer) := by
  show (fileWriteAt manager.fileHandle (pageOf block.fb.buffer) (blockLocation block.id)).1.content
    = _
  rw [fileWriteAt_full h.io _ (not_fseekFails_block hid), blockLocation_toNat hid]

theorem HeaderInv.write_selectedHeader {block : Block} (hid : Addressable block.id) :
    selectedHeader (singleFileBlockManagerWrite manager block).1 = selectedHeader manager := by
  have hinv : HeaderInv (singleFileBlockManagerWrite manager block).1 :=
    h.step_ok 0 (.write block) hid rfl
  rw [hinv.selectedHeader_eq, h.selectedHeader_eq, h.write_content hid,
    (sameHeaders_pwrite h.length_le (le_start_block block.id) _).slots_eq]

/-- The write of another block keeps the free list on disk. -/
theorem HeaderInv.write_saved {block : Block} (hid : Addressable block.id) {ids : List BlockId}
    (hne : block.id ≠ (selectedHeader manager).freeListId) (hsaved : Saved manager ids) :
    Saved (singleFileBlockManagerWrite manager block).1 ids := by
  have hpage : (pageOf block.fb.buffer).length ≤ BLOCK_SIZE := by
    rw [length_pageOf, block.fb.length_buffer]
    decide
  rw [Saved, h.write_selectedHeader hid, h.write_content hid]
  refine { none := hsaved.none, page := fun hfree => ?_ }
  obtain ⟨haddr, hlen, hold⟩ := hsaved.page hfree
  exact ⟨haddr, hlen, hold.write_other (by simpa using hne) hpage⟩

/-- A reopening makes the saved ids the free list, and records the block that stores them. -/
theorem HeaderInv.reopen_saved (fuel : Nat) {ids : List BlockId} (hsaved : Saved manager ids) :
    createNewDatabase fuel manager.fileHandle false
      = .ok (some (reopened manager.fileHandle ids)) := by
  rw [Saved, h.selectedHeader_eq] at hsaved
  exact createNewDatabase_saved fuel h.length_le h.version_eq hsaved

/-- What a reopening leaves, when the selected header has the free list `ids`. -/
theorem HeaderInv.reopened_ok {fuel : Nat} {ids : List BlockId}
    {manager' : SingleFileExtentManager} (hsaved : Saved manager ids)
    (hopen : createNewDatabase fuel manager.fileHandle false = .ok (some manager')) :
    HeaderInv manager' ∧ Saved manager' ids ∧ selectedHeader manager' = selectedHeader manager ∧
      manager'.freeList = ids ∧
      manager'.usedBlocks = freeListBlocks (selectedHeader manager).freeListId ∧
      manager'.maxBlock = (selectedHeader manager).blockCount := by
  obtain ⟨hinv, hfile⟩ := h.toHeaderFile.reopen h.io hopen
  -- a reopening does not touch the file, so the header and its free list are the same
  have hselected : selectedHeader manager' = selectedHeader manager := by
    rw [selectedHeader, hfile, selectedHeader]
  have hsaved' : Saved manager' ids := by
    rw [Saved, hselected, hfile]
    exact hsaved
  rw [h.reopen_saved fuel hsaved] at hopen
  have hmanager : manager' = reopened manager.fileHandle ids := by simpa using hopen.symm
  refine ⟨hinv, hsaved', hselected, ?_⟩
  rw [hmanager, h.selectedHeader_eq, reopened]
  exact ⟨rfl, rfl, rfl⟩

variable (hc : Checkpointable manager) (header : DatabaseHeader)
include hc

theorem HeaderInv.checkpointed_selectedHeader :
    selectedHeader (checkpointed manager header) = checkpointHeader manager header := by
  rw [(h.checkpoint hc header).selectedHeader_eq, h.slots_checkpointed hc,
    TwoSlot.select_put (h.select_lt hc header)]

/-- A checkpoint saves the used blocks. -/
theorem HeaderInv.checkpointed_saved
    (hfit : manager.usedBlocks.length ≤ FREE_LIST_CAPACITY) :
    Saved (checkpointed manager header) manager.usedBlocks := by
  rw [Saved, h.checkpointed_selectedHeader hc]
  exact savedFreeList_checkpoint hc (writesStored_of_nil h.io) hfit header

end File

/-! ### The calls that avoid the gaps -/

/-- The conditions on one call, with a condition `mayRead` on the blocks that are read:

* a block that is read was handed out, so it is below `max_block`;
* a block that is written is in the reach of `fseek`, and does not store the free list of the
  selected header;
* `max_block` and the iteration do not wrap;
* at a reopening, `block_count` counts the block that stores the free list. -/
def SoundCall (mayRead : BlockId → Prop) (manager : SingleFileExtentManager) : Op → Prop
  | .read id => mayRead id ∧ id < manager.maxBlock
  | .write block => Addressable block.id ∧ block.id ≠ (selectedHeader manager).freeListId
  | .getFreeBlockId => manager.freeList = [] → manager.maxBlock.toNat + 1 < 2 ^ 64
  | .createBlock => manager.freeList = [] → manager.maxBlock.toNat + 1 < 2 ^ 64
  | .writeHeader _ => Checkpointable manager
  | .reopen => ∀ id ∈ freeListBlocks (selectedHeader manager).freeListId,
      id < (selectedHeader manager).blockCount

/-- The block that a checkpoint stores its free list in. -/
theorem freeListBlocks_checkpointHeader {manager : SingleFileExtentManager}
    (hc : Checkpointable manager) (header : DatabaseHeader) :
    freeListBlocks (checkpointHeader manager header).freeListId
      = if manager.usedBlocks = [] then [] else [nextFreeBlockId manager] := by
  by_cases hused : manager.usedBlocks = []
  · simp [freeListBlocks, checkpointHeader, hused]
  · simp [freeListBlocks, checkpointHeader, hused, (hc.addressable hused).ne_invalid]

/-- The ids below `max_block` stay below it in a checkpoint. -/
theorem lt_checkpointed_maxBlock {manager : SingleFileExtentManager} (hc : Checkpointable manager)
    (header : DatabaseHeader) {id : BlockId} (hid : id < manager.maxBlock) :
    id < (checkpointed manager header).maxBlock := by
  by_cases hnew : manager.usedBlocks ≠ [] ∧ manager.freeList = []
  · have hnext : nextFreeBlockId manager = manager.maxBlock := by
      rw [nextFreeBlockId_eq, hnew.2]
      rfl
    have haddr := hc.addressable hnew.1
    rw [hnext] at haddr
    rw [checkpointed, if_pos hnew]
    exact lt_add_one_of_lt hid haddr.succ_lt
  · rw [checkpointed, if_neg hnew]
    exact hid

/-! ### No block is handed out twice -/

/-- The invariant of the allocations. -/
structure AllocInv (t : Traced) : Prop extends HeaderInv t.manager where
  free_nodup : t.manager.freeList.Nodup
  free_lt : ∀ id ∈ t.manager.freeList, id < t.manager.maxBlock
  used_nodup : t.manager.usedBlocks.Nodup
  used_lt : ∀ id ∈ t.manager.usedBlocks, id < t.manager.maxBlock
  session_nodup : t.session.Nodup
  session_lt : ∀ id ∈ t.session, id < t.manager.maxBlock
  session_free : ∀ id ∈ t.session, id ∉ t.manager.freeList
  saved : ∃ ids, Saved t.manager ids ∧ ids.Nodup ∧
    ∀ id ∈ ids, id < (selectedHeader t.manager).blockCount

/-- A manager without blocks, before the first call. -/
theorem AllocInv.start {manager : SingleFileExtentManager} (h : HeaderInv manager)
    (hfree : manager.freeList = []) (hused : manager.usedBlocks = []) (hsaved : Saved manager []) :
    AllocInv { manager, window := [], session := [] } := by
  refine { toHeaderInv := h, free_nodup := ?_, free_lt := ?_, used_nodup := ?_, used_lt := ?_,
           session_nodup := List.nodup_nil, session_lt := ?_, session_free := ?_,
           saved := ⟨[], hsaved, by simp, by simp⟩ }
  all_goals simp [hfree, hused]

/-- An allocation hands out a block that the session does not have. -/
theorem AllocInv.alloc {t : Traced} (h : AllocInv t)
    (hwrap : t.manager.freeList = [] → t.manager.maxBlock.toNat + 1 < 2 ^ 64)
    (window : List BlockId) :
    AllocInv { manager := afterGetFree t.manager, window
               session := t.session ++ [nextFreeBlockId t.manager] } := by
  have hinv : HeaderInv (afterGetFree t.manager) :=
    h.toHeaderInv.step_ok 0 .getFreeBlockId trivial rfl
  rcases getFree_cases t.manager with ⟨rest, hlist, hafter⟩ | ⟨hnil, hnext, hafter⟩
  · -- the block leaves the free list, which the session does not meet
    have hfree := h.free_nodup
    rw [hlist, List.nodup_append] at hfree
    obtain ⟨hlast, hmem⟩ := getFree_mem hlist
    have hsession : nextFreeBlockId t.manager ∉ t.session :=
      fun hid => h.session_free _ hid hlast
    rw [hafter] at hinv ⊢
    exact {
      toHeaderInv := hinv
      free_nodup := hfree.1
      free_lt := fun id hid => h.free_lt id (hmem id hid)
      used_nodup := h.used_nodup
      used_lt := h.used_lt
      session_nodup := nodup_concat h.session_nodup hsession
      session_lt := forall_mem_concat h.session_lt (h.free_lt _ hlast)
      session_free := forall_mem_concat
        (fun id hid hrest => h.session_free id hid (hmem id hrest))
        (fun hrest => hfree.2.2 _ hrest _ List.mem_cons_self rfl)
      saved := h.saved }
  · -- the block is new, above every block that was handed out
    have hlt := hwrap hnil
    have hsession : t.manager.maxBlock ∉ t.session :=
      fun hid => absurd (h.session_lt _ hid) (UInt64.lt_irrefl _)
    rw [hafter] at hinv ⊢
    rw [hnext]
    exact {
      toHeaderInv := hinv
      free_nodup := h.free_nodup
      free_lt := fun id hid => lt_add_one_of_lt (h.free_lt id hid) hlt
      used_nodup := h.used_nodup
      used_lt := fun id hid => lt_add_one_of_lt (h.used_lt id hid) hlt
      session_nodup := nodup_concat h.session_nodup hsession
      session_lt := forall_mem_concat
        (fun id hid => lt_add_one_of_lt (h.session_lt id hid) hlt) (lt_add_one hlt)
      session_free := by
        intro id hid hfree
        rw [hnil] at hfree
        cases hfree
      saved := h.saved }

/-- A block that was not read before becomes a used block. -/
theorem AllocInv.read {t : Traced} (h : AllocInv t) {id : BlockId}
    (hread : id ∉ t.manager.usedBlocks) (hlt : id < t.manager.maxBlock) :
    AllocInv { t with manager := (singleFileBlockManagerRead t.manager (blockCreate id)).1 } where
  toHeaderInv := h.toHeaderInv.step_ok 0 (.read id) trivial rfl
  free_nodup := h.free_nodup
  free_lt := h.free_lt
  used_nodup := nodup_concat h.used_nodup hread
  used_lt := forall_mem_concat h.used_lt hlt
  session_nodup := h.session_nodup
  session_lt := h.session_lt
  session_free := h.session_free
  saved := h.saved

/-- A block is written, and it does not store the free list. -/
theorem AllocInv.write {t : Traced} (h : AllocInv t) {block : Block} (hid : Addressable block.id)
    (hne : block.id ≠ (selectedHeader t.manager).freeListId) :
    AllocInv { t with manager := (singleFileBlockManagerWrite t.manager block).1 } where
  toHeaderInv := h.toHeaderInv.step_ok 0 (.write block) hid rfl
  free_nodup := h.free_nodup
  free_lt := h.free_lt
  used_nodup := h.used_nodup
  used_lt := h.used_lt
  session_nodup := h.session_nodup
  session_lt := h.session_lt
  session_free := h.session_free
  saved := by
    -- the block is not the one with the free list, so the list on disk stays
    obtain ⟨ids, hsaved, hids⟩ := h.saved
    refine ⟨ids, h.toHeaderInv.write_saved hid hne hsaved, ?_⟩
    rw [h.toHeaderInv.write_selectedHeader hid]
    exact hids

/-- The used blocks become the free list, in memory and on disk. -/
theorem AllocInv.checkpoint {t : Traced} (h : AllocInv t) (hc : Checkpointable t.manager)
    (hfit : t.manager.usedBlocks.length ≤ FREE_LIST_CAPACITY) (header : DatabaseHeader) :
    AllocInv { manager := checkpointed t.manager header, window := [], session := [] } where
  toHeaderInv := h.toHeaderInv.checkpoint hc header
  free_nodup := h.used_nodup
  free_lt := fun id hid => lt_checkpointed_maxBlock hc header (h.used_lt id hid)
  used_nodup := List.nodup_nil
  used_lt := fun _ hid => absurd hid List.not_mem_nil
  session_nodup := List.nodup_nil
  session_lt := fun _ hid => absurd hid List.not_mem_nil
  session_free := fun _ hid => absurd hid List.not_mem_nil
  saved := by
    -- `block_count` is the old `max_block`, and the used blocks are below that
    have hsaved := h.toHeaderInv.checkpointed_saved hc header hfit
    have hheader := h.toHeaderInv.checkpointed_selectedHeader hc header
    refine ⟨t.manager.usedBlocks, hsaved, h.used_nodup, ?_⟩
    rw [hheader]
    exact h.used_lt

/-- The saved ids become the free list, below the block count of the header. -/
theorem AllocInv.reopen {fuel : Nat} {t : Traced} (h : AllocInv t)
    (hcount : ∀ id ∈ freeListBlocks (selectedHeader t.manager).freeListId,
      id < (selectedHeader t.manager).blockCount)
    {manager : SingleFileExtentManager}
    (hopen : createNewDatabase fuel t.manager.fileHandle false = .ok (some manager))
    (window : List BlockId) : AllocInv { manager, window, session := [] } := by
  obtain ⟨ids, hsaved, hnodup, hlt⟩ := h.saved
  obtain ⟨hinv, hsaved', hselected, hfree, hused, hmax⟩ := h.toHeaderInv.reopened_ok hsaved hopen
  refine { toHeaderInv := hinv, free_nodup := ?_, free_lt := ?_, used_nodup := ?_, used_lt := ?_,
           session_nodup := List.nodup_nil, session_lt := ?_, session_free := ?_,
           saved := ⟨ids, hsaved', hnodup, ?_⟩ }
  · show manager.freeList.Nodup
    rw [hfree]
    exact hnodup
  · show ∀ id ∈ manager.freeList, id < manager.maxBlock
    rw [hfree, hmax]
    exact hlt
  · -- one block at most: the one that stores the free list
    show manager.usedBlocks.Nodup
    rw [hused, freeListBlocks]
    split <;> simp
  · show ∀ id ∈ manager.usedBlocks, id < manager.maxBlock
    rw [hused, hmax]
    exact hcount
  · exact fun _ hid => absurd hid List.not_mem_nil
  · exact fun _ hid => absurd hid List.not_mem_nil
  · show ∀ id ∈ ids, id < (selectedHeader manager).blockCount
    rw [hselected]
    exact hlt

/-- The step lemma: each call that avoids the gaps keeps the invariant. -/
theorem AllocInv.step_ok {fuel : Nat} {t t' : Traced} {op : Op} (h : AllocInv t)
    (hcall : SoundCall (· ∉ t.manager.usedBlocks) t.manager op)
    (hstep : tracedStep fuel t op = .ok t') : AllocInv t' := by
  obtain ⟨manager, hmanager, hend⟩ := bind_eq_ok.mp hstep
  cases pure_eq_ok.mp hend
  -- a call that hands out no block leaves the window and the session
  have hnone : t.window ++ [] = t.window ∧ t.session ++ [] = t.session :=
    ⟨List.append_nil _, List.append_nil _⟩
  cases op with
  | read id =>
      cases hmanager
      simp only [returnedIds, Op.isWriteHeader, Op.isCheckpointOrReopen, hnone, if_false,
        Bool.false_eq_true]
      exact h.read hcall.1 hcall.2
  | write block =>
      cases hmanager
      simp only [returnedIds, Op.isWriteHeader, Op.isCheckpointOrReopen, hnone, if_false,
        Bool.false_eq_true]
      exact h.write hcall.1 hcall.2
  | getFreeBlockId =>
      cases hmanager
      exact h.alloc hcall _
  | createBlock =>
      cases hmanager
      exact h.alloc hcall _
  | writeHeader header =>
      obtain ⟨hfit, rfl⟩ := writeHeader_ok_iff.mp hmanager
      exact h.checkpoint hcall hfit header
  | reopen => exact h.reopen hcall (step_reopen_ok hmanager) _

/-- The trace of a database before the first call. -/
def traceStart (manager : SingleFileExtentManager) : Traced :=
  { manager, window := [], session := [] }

/-- The guard of the runs in which no block is handed out twice. -/
def SoundTracedCall (t : Traced) (op : Op) : Prop :=
  SoundCall (· ∉ t.manager.usedBlocks) t.manager op

/-- A reopening comes before any allocation since the last checkpoint. -/
def ReopensClean (t : Traced) (op : Op) : Prop := op = .reopen → t.window = []

theorem freshManager_allocInv : AllocInv (traceStart freshManager) :=
  AllocInv.start freshManager_headerInv rfl rfl freshManager_saved

/-- While no reopening forgets an allocation, the session is all there is since the last
checkpoint. -/
theorem window_eq_session {fuel : Nat} {t t' : Traced} {op : Op} (h : t.window = t.session)
    (hclean : ReopensClean t op) (hstep : tracedStep fuel t op = .ok t') :
    t'.window = t'.session := by
  obtain ⟨manager, -, hend⟩ := bind_eq_ok.mp hstep
  cases pure_eq_ok.mp hend
  cases op with
  | reopen =>
      -- the session starts again, and the window was empty
      simp only [returnedIds, Op.isWriteHeader, Op.isCheckpointOrReopen, hclean rfl]
      rfl
  | writeHeader header => rfl
  | read id => simp [returnedIds, Op.isWriteHeader, Op.isCheckpointOrReopen, h]
  | write block => simp [returnedIds, Op.isWriteHeader, Op.isCheckpointOrReopen, h]
  | getFreeBlockId => simp [returnedIds, Op.isWriteHeader, Op.isCheckpointOrReopen, h]
  | createBlock => simp [returnedIds, Op.isWriteHeader, Op.isCheckpointOrReopen, h]

/-- In every run from a fresh database whose calls avoid the gaps, the free list has no id twice,
all its ids are below `max_block`, and no id is handed out twice in a session. When no reopening
forgets an allocation, no id is handed out twice between two checkpoints. -/
theorem allocation_sound (fuel : Nat) (content : List UInt8) (manager₀ : SingleFileExtentManager)
    (hnew : createNewDatabase fuel { content, outcomes := [] } true = .ok (some manager₀))
    (ops : List Op) (t : Traced)
    (hcalls : Guarded (tracedStep fuel) SoundTracedCall (traceStart manager₀) ops)
    (hrun : run (tracedStep fuel) (traceStart manager₀) ops = .ok t) :
    t.manager.freeList.Nodup ∧ (∀ id ∈ t.manager.freeList, id < t.manager.maxBlock) ∧
      t.session.Nodup ∧
      (Guarded (tracedStep fuel) ReopensClean (traceStart manager₀) ops → t.window.Nodup) := by
  rw [createNewDatabase_fresh] at hnew
  cases hnew
  have h : AllocInv t := run_invariant AllocInv (fun _ _ _ hi hg hs => hi.step_ok hg hs) ops _ _
    freshManager_allocInv hcalls hrun
  refine ⟨h.free_nodup, h.free_lt, h.session_nodup, fun hclean => ?_⟩
  have hwindow : t.window = t.session := run_invariant (fun t => t.window = t.session)
    (fun _ _ _ hi hg hs => window_eq_session hi hg hs) ops _ _ rfl hclean hrun
  rw [hwindow]
  exact h.session_nodup

/-- One call of a traced run. -/
theorem tracedStep_ok {fuel : Nat} {t : Traced} {op : Op} {manager : SingleFileExtentManager}
    (h : step fuel t.manager op = .ok manager) :
    tracedStep fuel t op = .ok {
      manager
      window := if op.isWriteHeader then [] else t.window ++ returnedIds t.manager op
      session :=
        if op.isCheckpointOrReopen then [] else t.session ++ returnedIds t.manager op } := by
  rw [tracedStep, h]
  rfl

/-- Block 0 is written and read, so a checkpoint puts it on the free list. The next two allocations
get this block and a new one: block 1 stores the free list. -/
theorem allocation_sound_two_blocks :
    ∃ stored t, run (tracedStep 0) (traceStart freshManager)
        [.createBlock, .write (blockCreate 0), .read 0, .writeHeader (freshHeader 0)]
        = .ok (traceStart stored) ∧ stored.freeList = [0] ∧
      run (tracedStep 0) (traceStart freshManager)
        [.createBlock, .write (blockCreate 0), .read 0, .writeHeader (freshHeader 0),
          .createBlock, .createBlock] = .ok t ∧
      t.window = [0, 2] ∧ t.manager.freeList.Nodup ∧ t.window.Nodup := by
  obtain ⟨created, written, manager, hcreate, hwrite, hread, hfile, hw, h⟩ := steps_one_block
  obtain ⟨stored, hstored⟩ : ∃ stored, stored = checkpointed manager (freshHeader 0) := ⟨_, rfl⟩
  have hstore : step 0 manager (.writeHeader (freshHeader 0)) = .ok stored :=
    hstored ▸ h.writeHeader
  -- block 0 is free now, and block 1 has the free list
  have hfree : stored.freeList = [0] := by
    rw [hstored]
    exact h.used_eq
  have hmax : stored.maxBlock = 2 := by
    rw [hstored, checkpointed, h.used_eq, h.free_eq, h.max_eq]
    rfl
  obtain ⟨once, honce, honceFree, honceMax, honceIds⟩ :
      ∃ once, step 0 stored .createBlock = .ok once ∧ once.freeList = [] ∧ once.maxBlock = 2 ∧
        returnedIds stored .createBlock = [0] := by
    refine ⟨afterGetFree stored, rfl, ?_, ?_, ?_⟩
    · rw [afterGetFree_eq, hfree]
      rfl
    · rw [afterGetFree_eq, hfree]
      exact hmax
    · show [nextFreeBlockId stored] = _
      rw [nextFreeBlockId_eq, hfree]
      rfl
  obtain ⟨twice, htwice, htwiceIds⟩ :
      ∃ twice, step 0 once .createBlock = .ok twice ∧ returnedIds once .createBlock = [2] := by
    refine ⟨_, rfl, ?_⟩
    show [nextFreeBlockId once] = _
    rw [nextFreeBlockId_eq, honceFree, honceMax]
    rfl
  have hbefore : run (tracedStep 0) (traceStart freshManager)
      [.createBlock, .write (blockCreate 0), .read 0, .writeHeader (freshHeader 0)]
      = .ok (traceStart stored) := by
    rw [run_cons _ (tracedStep_ok hcreate), run_cons _ (tracedStep_ok hwrite),
      run_cons _ (tracedStep_ok hread), run_cons _ (tracedStep_ok hstore)]
    rfl
  have hafter : run (tracedStep 0) (traceStart stored) [.createBlock, .createBlock]
      = .ok { manager := twice, window := [0, 2], session := [0, 2] } := by
    rw [run_cons _ (tracedStep_ok honce), run_cons _ (tracedStep_ok htwice)]
    simp only [run_nil, traceStart, Op.isWriteHeader, Op.isCheckpointOrReopen, honceIds, htwiceIds]
    rfl
  have hrun : run (tracedStep 0) (traceStart freshManager)
      ([.createBlock, .write (blockCreate 0), .read 0, .writeHeader (freshHeader 0)] ++
        [.createBlock, .createBlock])
      = .ok { manager := twice, window := [0, 2], session := [0, 2] } := by
    rw [run_append, hbefore, ok_bind, hafter]
  refine ⟨stored, _, hbefore, hfree, hrun, rfl, ?_⟩
  -- what is left is that the calls avoid the gaps, one after the other
  have hblock : (blockCreate 0).id ≠ (selectedHeader created).freeListId := by
    rw [selectedHeader, hfile, ← selectedHeader, freshManager_selectedHeader]
    decide
  have hnotUsed : (0 : BlockId) ∉ written.usedBlocks := by
    rw [hw.used_eq]
    exact List.not_mem_nil
  have hbelow : (0 : BlockId) < written.maxBlock := by
    rw [hw.max_eq]
    decide
  have hcalls : Guarded (tracedStep 0) SoundTracedCall (traceStart freshManager)
      [.createBlock, .write (blockCreate 0), .read 0, .writeHeader (freshHeader 0), .createBlock,
        .createBlock] := by
    refine .cons (fun _ => by decide) (tracedStep_ok hcreate) ?_
    refine .cons ⟨show Addressable 0 by decide, hblock⟩ (tracedStep_ok hwrite) ?_
    refine .cons ⟨hnotUsed, hbelow⟩ (tracedStep_ok hread) ?_
    refine .cons h.checkpointable (tracedStep_ok hstore) ?_
    refine .cons (fun hnil => ?_) (tracedStep_ok honce) ?_
    · exact absurd (hfree.symm.trans hnil) (by decide)
    refine .cons (fun _ => ?_) (tracedStep_ok htwice) trivial
    show once.maxBlock.toNat + 1 < 2 ^ 64
    rw [honceMax]
    decide
  have hsound :=
    allocation_sound 0 [] freshManager (createNewDatabase_fresh 0 []) _ _ hcalls hrun
  refine ⟨hsound.1, hsound.2.2.2 ?_⟩
  simp [Guarded, ReopensClean]

/-- Block 0 is read twice before a checkpoint. It is on the free list twice then, and the next two
allocations both get it. -/
theorem double_read_frees_twice :
    ∃ manager₀ t t',
      createNewDatabase 0 { content := [], outcomes := [] } true = .ok (some manager₀) ∧
      run (tracedStep 0) (traceStart manager₀)
        [.createBlock, .write (blockCreate 0), .read 0, .read 0, .writeHeader (freshHeader 0)]
        = .ok t ∧
      ¬ t.manager.freeList.Nodup ∧
      run (tracedStep 0) t [.createBlock, .createBlock] = .ok t' ∧ t'.window = [0, 0] := by
  obtain ⟨created, written, read, hcreate, hwrite, hread, -, -, h⟩ := steps_one_block
  -- `read` records the block again, without a look at what is recorded already
  obtain ⟨reread, hreread, hused⟩ :
      ∃ reread, step 0 read (.read 0) = .ok reread ∧ reread.usedBlocks = [0, 0] :=
    ⟨_, rfl, congrArg (· ++ [0]) h.used_eq⟩
  obtain ⟨stored, hstore, hfree⟩ :
      ∃ stored, step 0 reread (.writeHeader (freshHeader 0)) = .ok stored ∧
        stored.freeList = [0, 0] :=
    ⟨_, writeHeader_ok_iff.mpr ⟨by rw [hused]; decide, rfl⟩, hused⟩
  -- the first allocation takes one of the two entries, and the second one the other
  obtain ⟨once, honce, honceFree, honceIds⟩ :
      ∃ once, step 0 stored .createBlock = .ok once ∧ once.freeList = [0] ∧
        returnedIds stored .createBlock = [0] := by
    refine ⟨_, rfl, ?_, ?_⟩
    · show (afterGetFree stored).freeList = _
      rw [afterGetFree_eq, hfree]
      rfl
    · show [nextFreeBlockId stored] = _
      rw [nextFreeBlockId_eq, hfree]
      rfl
  obtain ⟨twice, htwice, htwiceIds⟩ :
      ∃ twice, step 0 once .createBlock = .ok twice ∧ returnedIds once .createBlock = [0] := by
    refine ⟨_, rfl, ?_⟩
    show [nextFreeBlockId once] = _
    rw [nextFreeBlockId_eq, honceFree]
    rfl
  have hrun : run (tracedStep 0) (traceStart freshManager)
      [.createBlock, .write (blockCreate 0), .read 0, .read 0, .writeHeader (freshHeader 0)]
      = .ok (traceStart stored) := by
    rw [run_cons _ (tracedStep_ok hcreate), run_cons _ (tracedStep_ok hwrite),
      run_cons _ (tracedStep_ok hread), run_cons _ (tracedStep_ok hreread),
      run_cons _ (tracedStep_ok hstore)]
    rfl
  have hagain : run (tracedStep 0) (traceStart stored) [.createBlock, .createBlock]
      = .ok { manager := twice, window := [0, 0], session := [0, 0] } := by
    rw [run_cons _ (tracedStep_ok honce), run_cons _ (tracedStep_ok htwice)]
    simp only [run_nil, traceStart, Op.isWriteHeader, Op.isCheckpointOrReopen, honceIds, htwiceIds]
    rfl
  refine ⟨freshManager, traceStart stored, _, createNewDatabase_fresh 0 [], hrun, ?_, hagain, rfl⟩
  show ¬ stored.freeList.Nodup
  rw [hfree]
  decide

/-! ### The live free list is not handed out -/

/-- The invariant of the blocks that store the free list of the selected header. -/
structure ChainInv (manager : SingleFileExtentManager) : Prop extends HeaderInv manager where
  used_free : ∀ id ∈ manager.usedBlocks, id ∉ manager.freeList
  used_lt : ∀ id ∈ manager.usedBlocks, id < manager.maxBlock
  free_lt : ∀ id ∈ manager.freeList, id < manager.maxBlock
  chain_free : ∀ id ∈ freeListBlocks (selectedHeader manager).freeListId, id ∉ manager.freeList
  chain_lt : ∀ id ∈ freeListBlocks (selectedHeader manager).freeListId, id < manager.maxBlock
  saved : ∃ ids, Saved manager ids ∧ ∀ id ∈ ids, id < (selectedHeader manager).blockCount ∧
    id ∉ freeListBlocks (selectedHeader manager).freeListId

/-- The guard of the runs in which the live free list is kept: a block on the free list is not
read. -/
def KeepsChain (manager : SingleFileExtentManager) (op : Op) : Prop :=
  SoundCall (· ∉ manager.freeList) manager op

section Chain
variable {manager : SingleFileExtentManager} (h : ChainInv manager)
include h

/-- The next block is not a used block. -/
theorem ChainInv.nextFreeBlockId_not_used : nextFreeBlockId manager ∉ manager.usedBlocks := by
  intro hused
  rcases getFree_cases manager with ⟨rest, hlist, -⟩ | ⟨-, hnext, -⟩
  · exact h.used_free _ hused (getFree_mem hlist).1
  · have hlt := h.used_lt _ hused
    rw [hnext] at hlt
    exact UInt64.lt_irrefl _ hlt

/-- The next block does not store the free list. -/
theorem ChainInv.nextFreeBlockId_not_chain :
    nextFreeBlockId manager ∉ freeListBlocks (selectedHeader manager).freeListId := by
  intro hchain
  rcases getFree_cases manager with ⟨rest, hlist, -⟩ | ⟨-, hnext, -⟩
  · exact h.chain_free _ hchain (getFree_mem hlist).1
  · have hlt := h.chain_lt _ hchain
    rw [hnext] at hlt
    exact UInt64.lt_irrefl _ hlt

theorem ChainInv.alloc
    (hwrap : manager.freeList = [] → manager.maxBlock.toNat + 1 < 2 ^ 64) :
    ChainInv (afterGetFree manager) := by
  have hinv : HeaderInv (afterGetFree manager) :=
    h.toHeaderInv.step_ok 0 .getFreeBlockId trivial rfl
  rcases getFree_cases manager with ⟨rest, hlist, hafter⟩ | ⟨hnil, -, hafter⟩
  · -- the free list loses a block
    have hmem := (getFree_mem hlist).2
    rw [hafter] at hinv ⊢
    exact {
      toHeaderInv := hinv
      used_free := fun id hid hrest => h.used_free id hid (hmem id hrest)
      used_lt := h.used_lt
      free_lt := fun id hid => h.free_lt id (hmem id hid)
      chain_free := fun id hid hrest => h.chain_free id hid (hmem id hrest)
      chain_lt := h.chain_lt
      saved := h.saved }
  · -- `max_block` grows
    have hlt := hwrap hnil
    rw [hafter] at hinv ⊢
    exact {
      toHeaderInv := hinv
      used_free := h.used_free
      used_lt := fun id hid => lt_add_one_of_lt (h.used_lt id hid) hlt
      free_lt := fun id hid => lt_add_one_of_lt (h.free_lt id hid) hlt
      chain_free := h.chain_free
      chain_lt := fun id hid => lt_add_one_of_lt (h.chain_lt id hid) hlt
      saved := h.saved }

theorem ChainInv.read {id : BlockId} (hread : id ∉ manager.freeList)
    (hlt : id < manager.maxBlock) :
    ChainInv (singleFileBlockManagerRead manager (blockCreate id)).1 where
  toHeaderInv := h.toHeaderInv.step_ok 0 (.read id) trivial rfl
  used_free := forall_mem_concat h.used_free hread
  used_lt := forall_mem_concat h.used_lt hlt
  free_lt := h.free_lt
  chain_free := h.chain_free
  chain_lt := h.chain_lt
  saved := h.saved

theorem ChainInv.write {block : Block} (hid : Addressable block.id)
    (hne : block.id ≠ (selectedHeader manager).freeListId) :
    ChainInv (singleFileBlockManagerWrite manager block).1 := by
  have hheader := h.toHeaderInv.write_selectedHeader hid
  refine {
    toHeaderInv := h.toHeaderInv.step_ok 0 (.write block) hid rfl
    used_free := h.used_free
    used_lt := h.used_lt
    free_lt := h.free_lt
    chain_free := ?_
    chain_lt := ?_
    saved := ?_ }
  · rw [hheader]
    exact h.chain_free
  · rw [hheader]
    exact h.chain_lt
  · obtain ⟨ids, hsaved, hids⟩ := h.saved
    refine ⟨ids, h.toHeaderInv.write_saved hid hne hsaved, ?_⟩
    rw [hheader]
    exact hids

/-- The block of the new free list is the next block, and the used blocks do not have it. -/
theorem ChainInv.checkpoint (hc : Checkpointable manager)
    (hfit : manager.usedBlocks.length ≤ FREE_LIST_CAPACITY) (header : DatabaseHeader) :
    ChainInv (checkpointed manager header) := by
  have hheader := h.toHeaderInv.checkpointed_selectedHeader hc header
  -- the only block of the new stream is the next free one, if there is anything to store
  have hchain : ∀ id ∈ freeListBlocks (checkpointHeader manager header).freeListId,
      id = nextFreeBlockId manager ∧ manager.usedBlocks ≠ [] := by
    intro id hid
    rw [freeListBlocks_checkpointHeader hc] at hid
    split at hid
    case isTrue => cases hid
    case isFalse hused => exact ⟨List.mem_singleton.mp hid, hused⟩
  refine {
    toHeaderInv := h.toHeaderInv.checkpoint hc header
    used_free := fun _ hid => absurd hid List.not_mem_nil
    used_lt := fun _ hid => absurd hid List.not_mem_nil
    free_lt := fun id hid => lt_checkpointed_maxBlock hc header (h.used_lt id hid)
    chain_free := ?_
    chain_lt := ?_
    saved := ⟨manager.usedBlocks, h.toHeaderInv.checkpointed_saved hc header hfit, ?_⟩ }
  · rw [hheader]
    intro id hid
    rw [(hchain id hid).1]
    exact h.nextFreeBlockId_not_used
  · rw [hheader]
    intro id hid
    obtain ⟨rfl, hused⟩ := hchain id hid
    rcases getFree_cases manager with ⟨rest, hlist, -⟩ | ⟨hnil, hnext, -⟩
    · exact lt_checkpointed_maxBlock hc header (h.free_lt _ (getFree_mem hlist).1)
    · -- the block of the new free list is new itself, and the checkpoint counts it in memory
      have haddr := hc.addressable hused
      rw [hnext] at haddr ⊢
      rw [checkpointed, if_pos ⟨hused, hnil⟩]
      exact lt_add_one haddr.succ_lt
  · rw [hheader]
    intro id hid
    refine ⟨h.used_lt id hid, fun hid' => ?_⟩
    rw [(hchain id hid').1] at hid
    exact h.nextFreeBlockId_not_used hid

theorem ChainInv.reopen {fuel : Nat} {manager' : SingleFileExtentManager}
    (hcount : ∀ id ∈ freeListBlocks (selectedHeader manager).freeListId,
      id < (selectedHeader manager).blockCount)
    (hopen : createNewDatabase fuel manager.fileHandle false = .ok (some manager')) :
    ChainInv manager' := by
  obtain ⟨ids, hsaved, hids⟩ := h.saved
  obtain ⟨hinv, hsaved', hselected, hfree, hused, hmax⟩ := h.toHeaderInv.reopened_ok hsaved hopen
  -- the block of the stream is not among the ids that it stores
  have hdisjoint : ∀ id ∈ freeListBlocks (selectedHeader manager).freeListId, id ∉ ids :=
    fun id hid hmem => (hids id hmem).2 hid
  -- `hcount` is where the order of two lines in `write_header` matters
  refine { toHeaderInv := hinv, used_free := ?_, used_lt := ?_, free_lt := ?_, chain_free := ?_,
           chain_lt := ?_, saved := ⟨ids, hsaved', ?_⟩ }
  · rw [hused, hfree]
    exact hdisjoint
  · rw [hused, hmax]
    exact hcount
  · rw [hfree, hmax]
    exact fun id hid => (hids id hid).1
  · rw [hselected, hfree]
    exact hdisjoint
  · rw [hselected, hmax]
    exact hcount
  · rw [hselected]
    exact hids

end Chain

/-- The step lemma: each call that avoids the gaps keeps the invariant. -/
theorem ChainInv.step_ok {fuel : Nat} {manager manager' : SingleFileExtentManager} {op : Op}
    (h : ChainInv manager) (hcall : KeepsChain manager op)
    (hstep : step fuel manager op = .ok manager') : ChainInv manager' := by
  cases op with
  | read id =>
      cases hstep
      exact h.read hcall.1 hcall.2
  | write block =>
      cases hstep
      exact h.write hcall.1 hcall.2
  | getFreeBlockId =>
      cases hstep
      exact h.alloc hcall
  | createBlock =>
      cases hstep
      exact h.alloc hcall
  | writeHeader header =>
      obtain ⟨hfit, rfl⟩ := writeHeader_ok_iff.mp hstep
      exact h.checkpoint hcall hfit header
  | reopen => exact h.reopen hcall (step_reopen_ok hstep)

theorem freshManager_chainInv : ChainInv freshManager where
  toHeaderInv := freshManager_headerInv
  used_free := fun _ hid => absurd hid List.not_mem_nil
  used_lt := fun _ hid => absurd hid List.not_mem_nil
  free_lt := fun _ hid => absurd hid List.not_mem_nil
  chain_free := fun _ _ => List.not_mem_nil
  chain_lt := by
    rw [freshManager_selectedHeader]
    exact fun _ hid => absurd hid List.not_mem_nil
  saved := ⟨[], freshManager_saved, fun _ hid => absurd hid List.not_mem_nil⟩

/-- In every run from a fresh database whose calls avoid the gaps, a reopening reads the free list
of the selected header, and the next block is none of the blocks that it reads for that. -/
theorem live_free_list_kept (fuel : Nat) (content : List UInt8)
    (manager₀ : SingleFileExtentManager)
    (hnew : createNewDatabase fuel { content, outcomes := [] } true = .ok (some manager₀))
    (ops : List Op) (manager : SingleFileExtentManager)
    (hcalls : Guarded (step fuel) KeepsChain manager₀ ops)
    (hrun : run (step fuel) manager₀ ops = .ok manager) :
    ∃ restored, createNewDatabase fuel manager.fileHandle false = .ok (some restored) ∧
      (singleFileBlockManagerGetFreeBlockId manager).2 ∉ restored.usedBlocks := by
  rw [createNewDatabase_fresh] at hnew
  cases hnew
  have h : ChainInv manager := run_invariant ChainInv (fun _ _ _ hi hg hs => hi.step_ok hg hs) ops
    _ _ freshManager_chainInv hcalls hrun
  obtain ⟨ids, hsaved, -⟩ := h.saved
  refine ⟨_, h.toHeaderInv.reopen_saved fuel hsaved, ?_⟩
  -- the used blocks of the reopened manager are those of the stream
  have hchain := h.nextFreeBlockId_not_chain
  rw [h.toHeaderInv.selectedHeader_eq] at hchain
  exact hchain

/-- A fresh database, in which block 0 is created, written and read, with calls that avoid the
gaps. -/
theorem run_one_block :
    ∃ manager,
      (∀ ops, run (step 0) freshManager
          (.createBlock :: .write (blockCreate 0) :: .read 0 :: ops) = run (step 0) manager ops) ∧
      (∀ ops, Guarded (step 0) KeepsChain manager ops → Guarded (step 0) KeepsChain freshManager
          (.createBlock :: .write (blockCreate 0) :: .read 0 :: ops)) ∧
      OneBlock [0] manager := by
  obtain ⟨created, written, manager, hcreate, hwrite, hread, hfile, hw, h⟩ := steps_one_block
  have hblock : Addressable (blockCreate 0).id := show Addressable 0 by decide
  have hchain : (blockCreate 0).id ≠ (selectedHeader created).freeListId := by
    rw [selectedHeader, hfile, ← selectedHeader, freshManager_selectedHeader]
    decide
  refine ⟨manager, fun ops => ?_, fun ops hops => ?_, h⟩
  · rw [run_cons _ hcreate, run_cons _ hwrite, run_cons _ hread]
  · have hknown : KeepsChain written (.read 0) :=
      ⟨by rw [hw.free_eq]; exact List.not_mem_nil, by rw [hw.max_eq]; decide⟩
    exact .cons (fun _ => by decide) hcreate
      (.cons ⟨hblock, hchain⟩ hwrite (.cons hknown hread hops))

/-- After the checkpoint the next block is block 0, and the free list is in block 1. -/
theorem live_free_list_kept_one_block :
    ∃ manager restored, run (step 0) freshManager
        [.createBlock, .write (blockCreate 0), .read 0, .writeHeader (freshHeader 0)]
        = .ok manager ∧
      createNewDatabase 0 manager.fileHandle false = .ok (some restored) ∧
      (singleFileBlockManagerGetFreeBlockId manager).2 ∉ restored.usedBlocks := by
  obtain ⟨manager, hrun, hguarded, h⟩ := run_one_block
  have hend := hrun [.writeHeader (freshHeader 0)]
  rw [run_cons _ h.writeHeader, run_nil] at hend
  have hcalls : Guarded (step 0) KeepsChain manager [.writeHeader (freshHeader 0)] :=
    ⟨h.checkpointable, fun _ _ => trivial⟩
  obtain ⟨restored, hopen, hnext⟩ := live_free_list_kept 0 [] freshManager
    (createNewDatabase_fresh 0 []) _ _ (hguarded _ hcalls) hend
  exact ⟨_, restored, hend, hopen, hnext⟩

/-- The header counts block 0 only, and its free list is in block 1. After a reopening and one
allocation, the next block is block 1. -/
theorem chain_block_handed_out :
    ∃ manager₀ manager restored,
      createNewDatabase 0 { content := [], outcomes := [] } true = .ok (some manager₀) ∧
      run (step 0) manager₀ [.createBlock, .write (blockCreate 0), .read 0,
        .writeHeader (freshHeader 0), .reopen, .getFreeBlockId] = .ok manager ∧
      createNewDatabase 0 manager.fileHandle false = .ok (some restored) ∧
      (singleFileBlockManagerGetFreeBlockId manager).2 ∈ restored.usedBlocks := by
  obtain ⟨manager, hrun, -, h⟩ := run_one_block
  have hc := h.checkpointable
  have hsaved := h.toHeaderInv.checkpointed_saved hc (freshHeader 0) (by rw [h.used_eq]; decide)
  have hstored : HeaderInv (checkpointed manager (freshHeader 0)) := h.toHeaderInv.checkpoint hc _
  have hheader := h.toHeaderInv.checkpointed_selectedHeader hc (freshHeader 0)
  have hopen := hstored.reopen_saved 0 hsaved
  obtain ⟨restored, hrestored⟩ :
      ∃ restored, restored = reopened (checkpointed manager (freshHeader 0)).fileHandle
        manager.usedBlocks := ⟨_, rfl⟩
  rw [← hrestored] at hopen
  -- the reopened manager knows block 1 as used, block 0 as free, and counts one block
  have hrused : restored.usedBlocks = [1] := by
    rw [hrestored, reopened, ← hstored.selectedHeader_eq, hheader]
    exact h.freeListBlocks_eq
  have hrfree : restored.freeList = [0] := by
    rw [hrestored]
    exact h.used_eq
  have hrmax : restored.maxBlock = 1 := by
    rw [hrestored, reopened, ← hstored.selectedHeader_eq, hheader]
    exact h.max_eq
  have hreopen : step 0 (checkpointed manager (freshHeader 0)) .reopen = .ok restored := by
    rw [step, hopen]
    rfl
  have hget : step 0 restored .getFreeBlockId = .ok (afterGetFree restored) := rfl
  have hend := hrun [.writeHeader (freshHeader 0), .reopen, .getFreeBlockId]
  rw [run_cons _ h.writeHeader, run_cons _ hreopen, run_cons _ hget, run_nil] at hend
  have hfile : (afterGetFree restored).fileHandle
      = (checkpointed manager (freshHeader 0)).fileHandle := by
    rw [afterGetFree_eq, hrestored]
    split <;> rfl
  refine ⟨freshManager, _, restored, createNewDatabase_fresh 0 [], hend, ?_, ?_⟩
  · rw [hfile]
    exact hopen
  · -- the free list is empty again, so the next block is the count, and that is block 1
    show nextFreeBlockId (afterGetFree restored) ∈ _
    rw [nextFreeBlockId_eq, afterGetFree_eq, hrfree, hrmax, hrused]
    exact List.mem_singleton.mpr rfl

end MustDb.Proofs.Storage
