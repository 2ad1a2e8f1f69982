import MustDb.Proofs.Storage.FreeList

/-!
# `MustDb.Proofs.Storage.FreeListLoss`: the blocks that a checkpoint forgets

`write_header` takes the block of the free-list stream from the free list, and then puts the used
blocks in the place of the list. What is still on the old list gets lost, unless it is among the
used blocks (`writeHeader_keeps_iff`).

`FreeConserved` says that no free block gets lost between two states of a manager, and
`free_blocks_conserved` that it holds for the runs whose checkpoints leave nothing behind.
`second_checkpoint_loses_block` is a run that goes wrong.
-/

set_option autoImplicit false

namespace MustDb.Proofs.Storage

open MustDb.Lib
open MustDb.Storage

/-! ### One checkpoint -/

/-- The ids that the free-list writer leaves on the free list are used blocks. -/
def LeavesNothing (manager : SingleFileExtentManager) : Prop :=
  (manager.usedBlocks = [] → manager.freeList = []) ∧
    ∀ id ∈ manager.freeList.dropLast, id ∈ manager.usedBlocks

/-- What `write_header` makes of the two lists. -/
theorem writeHeader_lists {fuel : Nat} {manager manager' : SingleFileExtentManager}
    {header : DatabaseHeader}
    (hcall : singleFileBlockManagerWriteHeader fuel manager header = .ok manager') :
    manager'.freeList = manager.usedBlocks ∧ manager'.usedBlocks = [] := by
  rw [(writeHeader_ok_iff.mp hcall).2]
  exact ⟨rfl, rfl⟩

/-- The used blocks are free after every checkpoint that returns. The ids that the free-list writer
has not taken are so exactly when it leaves nothing but used blocks. -/
theorem writeHeader_keeps_iff {fuel : Nat} {manager manager' : SingleFileExtentManager}
    {header : DatabaseHeader}
    (hcall : singleFileBlockManagerWriteHeader fuel manager header = .ok manager') :
    (∀ id ∈ manager.usedBlocks, id ∈ manager'.freeList) ∧
      ∃ w, writeHeaderPrepare fuel manager header = .ok w ∧
        ((∀ id ∈ w.manager.freeList, id ∈ manager'.freeList) ↔ LeavesNothing manager) := by
  obtain ⟨page, hprepare, -⟩ :=
    writeHeaderPrepare_eq fuel manager header (writeHeader_ok_iff.mp hcall).1
  rw [(writeHeader_lists hcall).1]
  refine ⟨fun _ hid => hid, _, hprepare, ?_⟩
  show (∀ id ∈ (if manager.usedBlocks = [] then manager.freeList else manager.freeList.dropLast),
    id ∈ manager.usedBlocks) ↔ _
  by_cases hused : manager.usedBlocks = []
  · rw [if_pos hused, LeavesNothing, hused]
    constructor
    · intro h
      have hnil : manager.freeList = [] := List.eq_nil_iff_forall_not_mem.mpr fun id hid =>
        List.not_mem_nil (h id hid)
      exact ⟨fun _ => hnil, by simp [hnil]⟩
    · rintro ⟨hnil, -⟩ id hid
      rwa [hnil rfl] at hid
  · rw [if_neg hused, LeavesNothing]
    exact ⟨fun h => ⟨fun hnil => absurd hnil hused, h⟩, fun h => h.2⟩

/-- Where no used block is free, a checkpoint leaves nothing behind exactly when it has nothing to
leave, or one block that it takes. -/
theorem leavesNothing_iff {manager : SingleFileExtentManager}
    (hdisjoint : ∀ id ∈ manager.freeList, id ∉ manager.usedBlocks) :
    LeavesNothing manager ↔
      manager.freeList = [] ∨ (manager.usedBlocks ≠ [] ∧ manager.freeList.length = 1) := by
  constructor
  · rintro ⟨hnil, hmem⟩
    have hlast : manager.freeList.dropLast = [] := List.eq_nil_iff_forall_not_mem.mpr fun id hid =>
      hdisjoint id (List.mem_of_mem_dropLast hid) (hmem id hid)
    by_cases hfree : manager.freeList = []
    · exact Or.inl hfree
    · refine Or.inr ⟨fun hused => hfree (hnil hused), ?_⟩
      have hlen := congrArg List.length hlast
      rw [List.length_dropLast, List.length_nil] at hlen
      have hpos := List.length_pos_iff.mpr hfree
      omega
  · rintro (hfree | ⟨hused, hone⟩)
    · exact ⟨fun _ => hfree, by simp [hfree]⟩
    · obtain ⟨id, hid⟩ := List.length_eq_one_iff.mp hone
      exact ⟨fun hnil => absurd hnil hused, by simp [hid]⟩

/-! ### Runs -/

/-- The ids that `get_free_block_id` hands out in a call: to the client, or to the free-list writer
of a checkpoint. -/
def handedOut (manager : SingleFileExtentManager) : Op → List BlockId
  | .writeHeader _ => if manager.usedBlocks = [] then [] else [nextFreeBlockId manager]
  | op => returnedIds manager op

/-- The ids that a run hands out. -/
def handedOutBy (fuel : Nat) : SingleFileExtentManager → List Op → List BlockId
  | _, [] => []
  | manager, op :: ops =>
      handedOut manager op ++
        match step fuel manager op with
        | .ok manager' => handedOutBy fuel manager' ops
        | .error _ => []

/-- No free block gets lost from one state of a manager to another, when the ids `handed` are handed
out in between. -/
structure FreeConserved (manager manager' : SingleFileExtentManager) (handed : List BlockId) :
    Prop where
  free : ∀ id ∈ manager.freeList, id ∈ handed ∨ id ∈ manager'.freeList
  used : ∀ id ∈ manager.usedBlocks,
    id ∈ handed ∨ id ∈ manager'.usedBlocks ∨ id ∈ manager'.freeList

namespace FreeConserved

variable {manager manager' manager'' : SingleFileExtentManager} {handed handed' : List BlockId}

theorem refl (manager : SingleFileExtentManager) : FreeConserved manager manager [] where
  free _ hid := Or.inr hid
  used _ hid := Or.inr (Or.inl hid)

theorem trans (h : FreeConserved manager manager' handed)
    (h' : FreeConserved manager' manager'' handed') :
    FreeConserved manager manager'' (handed ++ handed') := by
  have hfree (id : BlockId) (hid : id ∈ manager'.freeList) :
      id ∈ handed ++ handed' ∨ id ∈ manager''.freeList :=
    (h'.free id hid).imp_left (List.mem_append_right _)
  constructor
  · intro id hid
    rcases h.free id hid with hhanded | hid
    · exact Or.inl (List.mem_append_left _ hhanded)
    · exact hfree id hid
  · intro id hid
    rcases h.used id hid with hhanded | hid | hid
    · exact Or.inl (List.mem_append_left _ hhanded)
    · exact (h'.used id hid).imp_left (List.mem_append_right _)
    · exact (hfree id hid).imp_right Or.inr

/-- `get_free_block_id` hands out the block that it takes. -/
theorem getFree (manager : SingleFileExtentManager) :
    FreeConserved manager (afterGetFree manager) [nextFreeBlockId manager] := by
  rcases getFree_cases manager with ⟨rest, hlist, hafter⟩ | ⟨hnil, -, hafter⟩
  · rw [hafter]
    refine ⟨fun id hid => ?_, fun id hid => Or.inr (Or.inl hid)⟩
    rw [hlist] at hid
    exact (List.mem_append.mp hid).symm
  · rw [hafter]
    exact ⟨fun id hid => Or.inr hid, fun id hid => Or.inr (Or.inl hid)⟩

end FreeConserved

/-- A checkpoint that leaves nothing behind loses no free block. -/
theorem LeavesNothing.writeHeader {fuel : Nat} {manager manager' : SingleFileExtentManager}
    (h : LeavesNothing manager) {header : DatabaseHeader}
    (hcall : singleFileBlockManagerWriteHeader fuel manager header = .ok manager') :
    FreeConserved manager manager' (handedOut manager (.writeHeader header)) := by
  obtain ⟨hfree, -⟩ := writeHeader_lists hcall
  refine ⟨fun id hid => ?_, fun id hid => Or.inr (Or.inr (hfree ▸ hid))⟩
  rcases getFree_cases manager with ⟨rest, hlist, -⟩ | ⟨hnil, -, -⟩
  · have hused : manager.usedBlocks ≠ [] := by
      intro hused
      rw [h.1 hused] at hid
      cases hid
    have hrest := h.2
    rw [hlist, List.dropLast_concat] at hrest
    rw [hlist] at hid
    rw [handedOut, if_neg hused, hfree]
    exact (List.mem_append.mp hid).symm.imp_right (hrest id)
  · rw [hnil] at hid
    cases hid

/-- The condition on a call: a checkpoint leaves nothing behind. -/
def ForgetsNothing (manager : SingleFileExtentManager) : Op → Prop
  | .writeHeader _ => LeavesNothing manager
  | _ => True

/-- What one call on a manager does to the free blocks. -/
theorem freeConserved_step {fuel : Nat} {manager manager' : SingleFileExtentManager} {op : Op}
    (hop : op ≠ .reopen) (hguard : ForgetsNothing manager op)
    (hstep : step fuel manager op = .ok manager') :
    FreeConserved manager manager' (handedOut manager op) := by
  cases op with
  | read id =>
      cases hstep
      exact ⟨fun _ hid => Or.inr hid, fun _ hid =>
        Or.inr (Or.inl (List.mem_append_left _ hid))⟩
  | write block =>
      cases hstep
      exact ⟨fun _ hid => Or.inr hid, fun _ hid => Or.inr (Or.inl hid)⟩
  | getFreeBlockId =>
      cases hstep
      exact FreeConserved.getFree manager
  | createBlock =>
      cases hstep
      exact FreeConserved.getFree manager
  | writeHeader header => exact hguard.writeHeader hstep
  | reopen => exact absurd rfl hop

/-- What a run does to the free blocks. Induction on the calls. -/
theorem freeConserved_run {fuel : Nat} {ops : List Op} {manager manager' : SingleFileExtentManager}
    (hops : Op.reopen ∉ ops) (hguard : Guarded (step fuel) ForgetsNothing manager ops)
    (hrun : run (step fuel) manager ops = .ok manager') :
    FreeConserved manager manager' (handedOutBy fuel manager ops) := by
  induction ops generalizing manager with
  | nil =>
      cases hrun
      exact FreeConserved.refl _
  | cons op ops ih =>
      obtain ⟨t, hstep, hrest⟩ := run_cons_ok hrun
      have hone := freeConserved_step (List.ne_of_not_mem_cons hops).symm hguard.1 hstep
      have hmany := ih (List.not_mem_of_not_mem_cons hops) (hguard.2 t hstep) hrest
      rw [handedOutBy, hstep]
      exact hone.trans hmany

/-! ### The theorem -/

/-- For every state of a manager. A checkpoint makes the used blocks free, and keeps the free blocks
that its writer has not taken exactly when it leaves nothing behind. In a run of calls on the
manager whose checkpoints leave nothing behind, a free block stays free until it is handed out, and
a used block stays used until a checkpoint makes it free. A reopening makes another manager. -/
theorem free_blocks_conserved (fuel : Nat) (manager : SingleFileExtentManager) :
    (∀ header manager',
      singleFileBlockManagerWriteHeader fuel manager header = .ok manager' →
        (∀ id ∈ manager.usedBlocks, id ∈ manager'.freeList) ∧
          ∃ w, writeHeaderPrepare fuel manager header = .ok w ∧
            ((∀ id ∈ w.manager.freeList, id ∈ manager'.freeList) ↔ LeavesNothing manager)) ∧
      ∀ ops manager', Op.reopen ∉ ops → Guarded (step fuel) ForgetsNothing manager ops →
        run (step fuel) manager ops = .ok manager' →
        FreeConserved manager manager' (handedOutBy fuel manager ops) :=
  ⟨fun _ _ hcall => writeHeader_keeps_iff hcall,
    fun _ _ hops hguard hrun => freeConserved_run hops hguard hrun⟩

/-- The block that is read and freed by a checkpoint. -/
theorem run_first_checkpoint :
    ∃ stored, run (step 0) freshManager [.createBlock, .write (blockCreate 0), .read 0,
        .writeHeader (freshHeader 0)] = .ok stored ∧
      stored.freeList = [0] ∧ stored.usedBlocks = [] := by
  obtain ⟨manager, hrun, -, h⟩ := run_one_block
  have hend := hrun [.writeHeader (freshHeader 0)]
  rw [run_cons _ h.writeHeader, run_nil] at hend
  exact ⟨_, hend, h.used_eq, rfl⟩

/-- The second checkpoint takes the free block to store the list of the one that is read. -/
theorem free_blocks_conserved_second_checkpoint :
    ∃ stored manager', run (step 0) freshManager [.createBlock, .write (blockCreate 0), .read 0,
        .writeHeader (freshHeader 0)] = .ok stored ∧
      run (step 0) stored [.read 1, .writeHeader (freshHeader 0)] = .ok manager' ∧
      FreeConserved stored manager'
        (handedOutBy 0 stored [.read 1, .writeHeader (freshHeader 0)]) := by
  obtain ⟨stored, hrun, hfree, hused⟩ := run_first_checkpoint
  obtain ⟨read, hread, hrfree, hrused⟩ :
      ∃ read, step 0 stored (.read 1) = .ok read ∧ read.freeList = [0] ∧ read.usedBlocks = [1] :=
    ⟨_, rfl, hfree, congrArg (· ++ [1]) hused⟩
  obtain ⟨manager', hstore⟩ :
      ∃ manager', step 0 read (.writeHeader (freshHeader 0)) = .ok manager' :=
    ⟨_, writeHeader_ok_iff.mpr ⟨by rw [hrused]; decide, rfl⟩⟩
  have hend : run (step 0) stored [.read 1, .writeHeader (freshHeader 0)] = .ok manager' := by
    rw [run_cons _ hread, run_cons _ hstore, run_nil]
  have hleaves : LeavesNothing read :=
    ⟨fun hnil => absurd (hrused.symm.trans hnil) (by decide), by simp [hrfree]⟩
  have hguard : Guarded (step 0) ForgetsNothing stored
      [.read 1, .writeHeader (freshHeader 0)] := by
    refine ⟨trivial, fun t ht => ⟨?_, fun _ _ => trivial⟩⟩
    rw [← Except.ok.inj (hread.symm.trans ht)]
    exact hleaves
  exact ⟨stored, manager', hrun, hend,
    (free_blocks_conserved 0 stored).2 _ manager' (by simp) hguard hend⟩

/-- Two checkpoints after a read: the first one makes the block free. The second one takes no block,
and forgets this one. -/
theorem second_checkpoint_loses_block :
    ∃ manager₀ stored w lost,
      createNewDatabase 0 { content := [], outcomes := [] } true = .ok (some manager₀) ∧
      run (step 0) manager₀ [.createBlock, .write (blockCreate 0), .read 0,
        .writeHeader (freshHeader 0)] = .ok stored ∧
      writeHeaderPrepare 0 stored (freshHeader 0) = .ok w ∧ 0 ∈ w.manager.freeList ∧
      step 0 stored (.writeHeader (freshHeader 0)) = .ok lost ∧ lost.freeList = [] := by
  obtain ⟨stored, hrun, hfree, hused⟩ := run_first_checkpoint
  have hfit : stored.usedBlocks.length ≤ FREE_LIST_CAPACITY := by
    rw [hused]
    decide
  obtain ⟨page, hprepare, -⟩ := writeHeaderPrepare_eq 0 stored (freshHeader 0) hfit
  refine ⟨freshManager, stored, _, _, createNewDatabase_fresh 0 [], hrun, hprepare, ?_,
    writeHeader_ok_iff.mpr ⟨hfit, rfl⟩, hused⟩
  show 0 ∈ (if stored.usedBlocks = [] then stored.freeList else stored.freeList.dropLast)
  rw [if_pos hused, hfree]
  exact List.mem_cons_self

end MustDb.Proofs.Storage
