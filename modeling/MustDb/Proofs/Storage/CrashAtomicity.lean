import MustDb.Proofs.Storage.HeaderInv

/-!
# `MustDb.Proofs.Storage.CrashAtomicity`: a checkpoint that dies

A `write_header` dies, and only a prefix of its header page arrives. The header that it leaves in
the slot is made of the first bytes of the new header and the last bytes of the header that was
there (`tornHeader_eq`). Its iteration is either complete, or below the iteration of the selected
header (`tornHeader_version`), because the low byte of the iteration arrives first and the
overwritten header is older.

`create_new_database` compares the iterations and ignores the checksum of the page. So a torn page
is adopted as soon as its iteration is complete, whatever the state of the other fields.
`crash_atomic_iff` gives the exact condition under which the crash is atomic, after any run of
calls and crashes (`TornSafe`).
-/

set_option autoImplicit false

namespace MustDb.Proofs.Storage

open MustDb.Lib
open MustDb.Storage

/-! ### Headers as bytes -/

theorem take_eq_take_iff {α : Type} {as bs : List α} {n : Nat} :
    as.take n = bs.take n ↔ ∀ i < n, as[i]? = bs[i]? := by
  constructor
  · intro h i hi
    have hget := congrArg (·[i]?) h
    simpa only [List.getElem?_take, if_pos hi] using hget
  · intro h
    apply List.ext_getElem?
    intro i
    rw [List.getElem?_take, List.getElem?_take]
    by_cases hi : i < n
    · rw [if_pos hi, if_pos hi, h i hi]
    · rw [if_neg hi, if_neg hi]

/-- Words at an offset of two byte lists are equal exactly when their bytes are. -/
theorem u64OfBytes_drop_inj (as bs : List UInt8) (off : Nat) (ha : off + 8 ≤ as.length)
    (hb : off + 8 ≤ bs.length) :
    u64OfBytes (as.drop off) = u64OfBytes (bs.drop off)
      ↔ ∀ i < 8, as[off + i]? = bs[off + i]? := by
  rw [u64OfBytes_inj (by rw [List.length_drop]; omega) (by rw [List.length_drop]; omega),
    take_eq_take_iff]
  simp only [List.getElem?_drop]

/-- Headers are equal exactly when their 32 bytes are. -/
theorem header_ofBytes_inj {as bs : List UInt8} (ha : 32 ≤ as.length) (hb : 32 ≤ bs.length) :
    DatabaseHeader.ofBytes as = DatabaseHeader.ofBytes bs ↔ ∀ i < 32, as[i]? = bs[i]? := by
  -- a header is four words of eight bytes
  have h0 := u64OfBytes_drop_inj as bs 0 (by omega) (by omega)
  have h8 := u64OfBytes_drop_inj as bs 8 (by omega) (by omega)
  have h16 := u64OfBytes_drop_inj as bs 16 (by omega) (by omega)
  have h24 := u64OfBytes_drop_inj as bs 24 (by omega) (by omega)
  simp only [List.drop_zero, Nat.zero_add] at h0
  rw [DatabaseHeader.ofBytes, DatabaseHeader.ofBytes, DatabaseHeader.mk.injEq, h0, h8, h16, h24]
  constructor
  · -- byte `i` is in one of the four words
    rintro ⟨hw0, hw8, hw16, hw24⟩ i hi
    rcases Nat.lt_or_ge i 8 with h | h
    · exact hw0 i h
    rcases Nat.lt_or_ge i 16 with h' | h'
    · simpa [Nat.add_sub_cancel' h] using hw8 (i - 8) (by omega)
    rcases Nat.lt_or_ge i 24 with h'' | h''
    · simpa [Nat.add_sub_cancel' h'] using hw16 (i - 16) (by omega)
    · simpa [Nat.add_sub_cancel' h''] using hw24 (i - 24) (by omega)
  · intro h
    exact ⟨fun i hi => h i (by omega), fun i hi => h (8 + i) (by omega),
      fun i hi => h (16 + i) (by omega), fun i hi => h (24 + i) (by omega)⟩

theorem ofBytes_iteration (bs : List UInt8) :
    (DatabaseHeader.ofBytes bs).iteration = u64OfBytes bs := rfl

/-- The bytes of a header in memory. -/
theorem header_ofBytes_bytes (header : DatabaseHeader) :
    DatabaseHeader.ofBytes header.bytes = header := by
  simpa using header_ofBytes_append header []

/-- The first 32 bytes of a byte list are those of the header in it. -/
theorem getElem?_bytes_ofBytes (bs : List UInt8) (hb : 32 ≤ bs.length) :
    ∀ i < 32, (DatabaseHeader.ofBytes bs).bytes[i]? = bs[i]? :=
  (header_ofBytes_inj (by rw [length_header_bytes]) hb).mp (header_ofBytes_bytes _)

/-! ### The torn header -/

/-- The header of which the first `stored` bytes are new and the others old. -/
def mixedHeader (old new : DatabaseHeader) (stored : Nat) : DatabaseHeader :=
  DatabaseHeader.ofBytes (new.bytes.take stored ++ old.bytes.drop stored)

theorem length_mixedBytes (old new : DatabaseHeader) (stored : Nat) :
    (new.bytes.take stored ++ old.bytes.drop stored).length = 32 := by
  rw [List.length_append, List.length_take, List.length_drop, length_header_bytes,
    length_header_bytes]
  omega

theorem getElem?_mixedBytes (old new : DatabaseHeader) (stored : Nat) {i : Nat} (hi : i < 32) :
    (new.bytes.take stored ++ old.bytes.drop stored)[i]?
      = if i < stored then new.bytes[i]? else old.bytes[i]? := by
  rw [List.getElem?_append, List.length_take, length_header_bytes]
  by_cases h : i < stored
  · rw [if_pos (by omega), if_pos h, List.getElem?_take, if_pos h]
  · rw [if_neg (by omega), if_neg h, List.getElem?_drop]
    congr 1
    omega

/-- The first `n` bytes are the new ones exactly when those of them that did not arrive are the
same in the old header. -/
theorem mixedBytes_eq_iff (old new : DatabaseHeader) (stored : Nat) {n : Nat} (hn : n ≤ 32) :
    (∀ i < n, (new.bytes.take stored ++ old.bytes.drop stored)[i]? = new.bytes[i]?) ↔
      ∀ i < n, stored ≤ i → old.bytes[i]? = new.bytes[i]? := by
  constructor
  · intro h i hi hstored
    have hbyte := h i hi
    rwa [getElem?_mixedBytes old new stored (by omega), if_neg (by omega)] at hbyte
  · intro h i hi
    rw [getElem?_mixedBytes old new stored (by omega)]
    by_cases hstored : i < stored
    · rw [if_pos hstored]
    · rw [if_neg hstored]
      exact h i hi (by omega)

/-- The mixed header is the new one exactly when the bytes that did not arrive are the same in the
old one. -/
theorem mixedHeader_eq_iff (old new : DatabaseHeader) (stored : Nat) :
    mixedHeader old new stored = new ↔
      ∀ i < 32, stored ≤ i → old.bytes[i]? = new.bytes[i]? := by
  have hinj := header_ofBytes_inj (Nat.le_of_eq (length_mixedBytes old new stored).symm)
    (Nat.le_of_eq (length_header_bytes new).symm)
  rw [header_ofBytes_bytes] at hinj
  rw [mixedHeader, hinj]
  exact mixedBytes_eq_iff old new stored (Nat.le_refl 32)

/-- The iteration of the mixed header is the new one exactly when its bytes that did not arrive are
the same in the old one. -/
theorem mixedHeader_iteration_eq_iff (old new : DatabaseHeader) (stored : Nat) :
    (mixedHeader old new stored).iteration = new.iteration ↔
      ∀ i < 8, stored ≤ i → old.bytes[i]? = new.bytes[i]? := by
  have hinj := u64OfBytes_drop_inj (new.bytes.take stored ++ old.bytes.drop stored)
    new.bytes 0 (by rw [length_mixedBytes]; omega)
    (by rw [length_header_bytes]; omega)
  have hnew : u64OfBytes new.bytes = new.iteration := by
    rw [← ofBytes_iteration, header_ofBytes_bytes]
  simp only [List.drop_zero, Nat.zero_add, hnew] at hinj
  rw [mixedHeader, ofBytes_iteration, hinj]
  exact mixedBytes_eq_iff old new stored (by decide)

/-- The first eight bytes of a header are its iteration. -/
theorem header_bytes_take (header : DatabaseHeader) :
    header.bytes.take 8 = u64Bytes header.iteration := by
  rw [DatabaseHeader.bytes, List.take_append_of_le_length (by simp),
    List.take_of_length_le (by simp)]

/-- The iteration of the mixed header, as a number. -/
theorem version_mixedHeader (old new : DatabaseHeader) (stored : Nat) :
    version (mixedHeader old new stored)
      = leNat ((u64Bytes new.iteration).take stored ++ (u64Bytes old.iteration).drop stored) := by
  have htake : (new.bytes.take stored ++ old.bytes.drop stored).take 8
      = (u64Bytes new.iteration).take stored ++ (u64Bytes old.iteration).drop stored := by
    have hmin : 8 - min stored 32 = 8 - stored := by omega
    rw [← header_bytes_take, ← header_bytes_take, List.take_append, List.take_take, List.take_take,
      List.length_take, length_header_bytes, hmin, List.drop_take, Nat.min_comm]
  rw [version, mixedHeader, DatabaseHeader.ofBytes, toNat_u64OfBytes, htake]

theorem leNat_u64Bytes (x : UInt64) : leNat (u64Bytes x) = x.toNat := by
  rw [u64Bytes, leNat_leBytes]
  exact Nat.mod_eq_of_lt x.toNat_lt

/-- The iteration of the mixed header is complete, or still the old one, or more than a byte below
the new one. -/
theorem version_mixedHeader_cases (old new : DatabaseHeader) (stored : Nat)
    (hlt : version old < version new) :
    version (mixedHeader old new stored) = version new ∨
      version (mixedHeader old new stored) = version old ∨
      version (mixedHeader old new stored) + 256 ≤ version new := by
  rw [version_mixedHeader]
  by_cases hzero : stored = 0
  · -- nothing arrived
    subst hzero
    right
    left
    rw [List.take_zero, List.drop_zero, List.nil_append, leNat_u64Bytes]
    rfl
  by_cases hfull : 8 ≤ stored
  · -- all of the iteration arrived
    left
    rw [List.take_of_length_le (by simpa using hfull),
      List.drop_of_length_le (by simpa using hfull), List.append_nil, leNat_u64Bytes]
    rfl
  -- the low bytes are new, and the high bytes those of the smaller iteration
  rw [leNat_torn (by rw [length_u64Bytes]; omega), leNat_u64Bytes, leNat_u64Bytes]
  rcases torn_eq_or_add_lt (k := stored) (by omega) hlt with heq | hle
  · exact Or.inl heq
  · exact Or.inr (Or.inr hle)

/-! ### A crash in a run -/

/-- The header in a page of which the first `k` bytes are new. The first eight bytes of a page are
its checksum. -/
theorem header_mixedPage {old : List UInt8} (hold : old.length = HEADER_SIZE)
    (new : DatabaseHeader) (k : Nat) :
    DatabaseHeader.ofBytes (((headerPage new).take k ++ old.drop k).drop FILE_BUFFER_HEADER_SIZE)
      = mixedHeader (DatabaseHeader.ofBytes (old.drop FILE_BUFFER_HEADER_SIZE)) new
          (k - FILE_BUFFER_HEADER_SIZE) := by
  have hnew := length_headerPage new
  have hsize : HEADER_SIZE = 4096 := rfl
  have h8 : FILE_BUFFER_HEADER_SIZE = 8 := rfl
  -- byte by byte: byte `i` of the header is byte `i + 8` of the page
  rw [mixedHeader, header_ofBytes_inj]
  · intro i hi
    have hnewByte := getElem?_bytes_ofBytes ((headerPage new).drop FILE_BUFFER_HEADER_SIZE)
      (by rw [List.length_drop, hnew]; decide) i hi
    have holdByte := getElem?_bytes_ofBytes (old.drop FILE_BUFFER_HEADER_SIZE)
      (by rw [List.length_drop, hold]; decide) i hi
    rw [headerPage_header] at hnewByte
    rw [getElem?_mixedBytes _ _ _ hi, hnewByte, holdByte, List.getElem?_drop, List.getElem?_append,
      List.length_take, hnew, List.getElem?_drop, List.getElem?_drop]
    by_cases hk : i < k - FILE_BUFFER_HEADER_SIZE
    · rw [if_pos hk, if_pos (by omega), List.getElem?_take, if_pos (by omega)]
    · rw [if_neg hk, if_neg (by omega), List.getElem?_drop]
      congr 1
      omega
  · rw [List.length_drop, List.length_append, List.length_take, List.length_drop, hnew, hold]
    omega
  · rw [length_mixedBytes]

theorem length_slotBytes {content : List UInt8} (hlen : 12288 ≤ content.length) (slot : Fin 3) :
    (slotBytes content slot).length = HEADER_SIZE := by
  have hslot := slot.isLt
  rw [slotBytes, length_pread_of_le]
  rw [headerStart, HEADER_SIZE]
  omega

/-- The header that an interrupted checkpoint leaves, from the header that it overwrites. -/
theorem tornHeader_eq {manager : SingleFileExtentManager}
    (hlen : 12288 ≤ manager.fileHandle.content.length) (header : DatabaseHeader) (k : Nat) :
    tornHeader manager header k
      = mixedHeader (headerAt manager.fileHandle.content (inactiveSlot manager.activeHeader))
          (checkpointHeader manager header) (k - FILE_BUFFER_HEADER_SIZE) :=
  header_mixedPage (length_slotBytes hlen _) _ _

/-- The header in the slot that a checkpoint writes is the spare one. -/
theorem headerAt_inactiveSlot (content : List UInt8) :
    headerAt content (inactiveSlot (activeCode (slots content)))
      = (slots content).spare version := by
  rw [activeCode, TwoSlot.spare]
  cases (slots content).firstActive version <;> rfl

section Crash
variable {manager : SingleFileExtentManager} (h : HeaderInv manager)
  (hc : Checkpointable manager) (header : DatabaseHeader) (k : Nat)
include h hc

/-- The iteration that an interrupted checkpoint leaves is complete, or too small to be selected. -/
theorem HeaderInv.version_tornHeader :
    version (tornHeader manager header k) = version (checkpointHeader manager header) ∨
      version (tornHeader manager header k)
        < version ((slots manager.fileHandle.content).select version) := by
  have hordered := h.ordered
  have hnew := version_checkpointHeader header hc.iteration_lt
  rw [h.iteration_eq] at hnew
  -- the slot that is written has the smaller iteration, and the new one is the next of the larger
  have hlt : version ((slots manager.fileHandle.content).spare version)
      < version (checkpointHeader manager header) := by
    rw [TwoSlot.Ordered] at hordered
    omega
  rw [tornHeader_eq h.length_le, h.active_eq, headerAt_inactiveSlot]
  rw [TwoSlot.Ordered] at hordered
  -- a torn iteration is the spare one, or at least 256 below the successor of the selected one
  rcases version_mixedHeader_cases _ _ (k - FILE_BUFFER_HEADER_SIZE) hlt with heq | hold | hle
  · exact Or.inl heq
  · exact Or.inr (by omega)
  · exact Or.inr (by omega)

/-- A crash leaves the header pages in order. -/
theorem HeaderInv.torn_headerFile : HeaderFile (tornContent manager header k) := by
  have hlt := h.select_lt hc header
  apply h.tornContent_headerFile hc
  rcases h.version_tornHeader hc header k with heq | hsmall
  · omega
  · omega

/-- The header that a reopening adopts after a crash: the torn one when its iteration is complete,
and else the one selected before. -/
theorem HeaderInv.adopted_tornContent :
    (adoptedHeader { content := tornContent manager header k, outcomes := [] }).2
      = if version (tornHeader manager header k) = version (checkpointHeader manager header)
        then tornHeader manager header k
        else (slots manager.fileHandle.content).select version := by
  have hlt := h.select_lt hc header
  rw [adoptedHeader_eq (h.torn_headerFile hc header k).length_le]
  show (slots (tornContent manager header k)).select version = _
  rw [h.slots_tornContent hc]
  rcases h.version_tornHeader hc header k with heq | hsmall
  · rw [if_pos heq, TwoSlot.select_put (by rw [heq]; exact hlt)]
  · rw [if_neg (by omega), TwoSlot.select_put_of_lt hsmall]

end Crash

/-! ### Runs with crashes -/

/-- The limits of the 64-bit arithmetic, for one call or crash. -/
def CrashAdmissible (manager : SingleFileExtentManager) : CrashOp → Prop
  | .op op => Admissible manager op
  | .crash _ _ => Checkpointable manager

/-- The step lemma: the manager that starts after a crash agrees with its headers again. -/
theorem HeaderInv.crashStep_ok {fuel : Nat} {manager : SingleFileExtentManager} {op : CrashOp}
    {manager' : SingleFileExtentManager} (h : HeaderInv manager)
    (hadm : CrashAdmissible manager op) (hstep : crashStep fuel manager op = .ok manager') :
    HeaderInv manager' := by
  cases op with
  | op op => exact h.step_ok _ _ hadm hstep
  | crash header stored =>
      obtain ⟨handle, hcrash, hreopen⟩ := bind_eq_ok.mp hstep
      obtain ⟨-, rfl⟩ := interruptedWriteHeader_ok_iff.mp hcrash
      exact ((h.torn_headerFile hadm header stored).reopen rfl (step_reopen_ok hreopen)).1

/-- A checkpoint that dies after `stored` bytes of the header `new` is atomic over the header `old`:
a byte of the iteration is still missing and differs, so that the slot is not selected; or no
missing byte differs, so that the header is complete. -/
def TornSafe (old new : DatabaseHeader) (stored : Nat) : Prop :=
  (∃ i < 8, stored ≤ i ∧ old.bytes[i]? ≠ new.bytes[i]?) ∨
    ∀ i < 32, stored ≤ i → old.bytes[i]? = new.bytes[i]?

instance (old new : DatabaseHeader) (stored : Nat) : Decidable (TornSafe old new stored) := by
  unfold TornSafe
  infer_instance

/-- After any run of calls and crashes from a fresh database, a `write_header` dies in the write of
its header page. The header that a reopening adopts then is the one it adopts before the call, or
the one it adopts after the complete call, exactly when the torn page is safe. -/
theorem crash_atomic_iff (fuel : Nat) (content : List UInt8)
    (manager₀ manager completed : SingleFileExtentManager) (ops : List CrashOp)
    (header : DatabaseHeader) (stored : Nat) (handle : FileHandle)
    (hnew : createNewDatabase fuel { content, outcomes := [] } true = .ok (some manager₀))
    (hadm : Guarded (crashStep fuel) CrashAdmissible manager₀ ops)
    (hrun : run (crashStep fuel) manager₀ ops = .ok manager)
    (hc : Checkpointable manager)
    (hdone : singleFileBlockManagerWriteHeader fuel manager header = .ok completed)
    (hcrash : interruptedWriteHeader fuel manager header stored = .ok handle) :
    ((adoptedHeader handle).2 = (adoptedHeader manager.fileHandle).2 ∨
      (adoptedHeader handle).2 = (adoptedHeader completed.fileHandle).2) ↔
    TornSafe (headerAt manager.fileHandle.content (inactiveSlot manager.activeHeader))
      (checkpointHeader manager header) (stored - FILE_BUFFER_HEADER_SIZE) := by
  rw [createNewDatabase_fresh] at hnew
  cases hnew
  have h : HeaderInv manager :=
    run_invariant HeaderInv (fun _ _ _ hinv hg hs => hinv.crashStep_ok hg hs) ops _ _
      freshManager_headerInv hadm hrun
  obtain ⟨-, rfl⟩ := writeHeader_ok_iff.mp hdone
  obtain ⟨-, rfl⟩ := interruptedWriteHeader_ok_iff.mp hcrash
  -- the complete checkpoint is selected, since its iteration is the largest
  have hlt := h.select_lt hc header
  have hdoneInv := h.checkpoint hc header
  rw [h.adopted_tornContent hc, adoptedHeader_eq h.length_le, adoptedHeader_eq hdoneInv.length_le,
    h.slots_checkpointed hc, TwoSlot.select_put hlt]
  -- the torn page has the first bytes of the new header and the last ones of the old header
  have htorn := tornHeader_eq h.length_le header stored
  have hiteration := mixedHeader_iteration_eq_iff
    (headerAt manager.fileHandle.content (inactiveSlot manager.activeHeader))
    (checkpointHeader manager header) (stored - FILE_BUFFER_HEADER_SIZE)
  have hwhole := mixedHeader_eq_iff
    (headerAt manager.fileHandle.content (inactiveSlot manager.activeHeader))
    (checkpointHeader manager header) (stored - FILE_BUFFER_HEADER_SIZE)
  rw [← htorn] at hiteration hwhole
  -- the reopening compares the iterations as numbers
  have hversion : version (tornHeader manager header stored)
        = version (checkpointHeader manager header)
      ↔ (tornHeader manager header stored).iteration
        = (checkpointHeader manager header).iteration :=
    UInt64.toNat_inj
  rw [TornSafe, ← hwhole]
  by_cases hcomplete : version (tornHeader manager header stored)
      = version (checkpointHeader manager header)
  · -- the torn header is adopted, and it cannot be the old one
    rw [if_pos hcomplete]
    have hbytes := hiteration.mp (hversion.mp hcomplete)
    constructor
    · rintro (hold | hnew)
      · have hselect : tornHeader manager header stored
            = (slots manager.fileHandle.content).select version := hold
        rw [hselect] at hcomplete
        omega
      · exact Or.inr hnew
    · rintro (⟨i, hi, hmissing, hne⟩ | hnew)
      · exact absurd (hbytes i hi hmissing) hne
      · exact Or.inr hnew
  · -- the old header is adopted, and a byte of the iteration is missing
    rw [if_neg hcomplete]
    refine iff_of_true (Or.inl rfl) (Or.inl ?_)
    by_contra hnone
    push Not at hnone
    exact hcomplete (hversion.mpr (hiteration.mpr hnone))

/-- A second checkpoint that dies after its 32 header bytes arrived. -/
theorem crash_atomic_iff_late_crash :
    ∃ manager completed handle,
      singleFileBlockManagerWriteHeader 0 manager (freshHeader 0) = .ok completed ∧
      interruptedWriteHeader 0 manager (freshHeader 0) 40 = .ok handle ∧
      ((adoptedHeader handle).2 = (adoptedHeader manager.fileHandle).2 ∨
        (adoptedHeader handle).2 = (adoptedHeader completed.fileHandle).2) := by
  have hfirst : singleFileBlockManagerWriteHeader 0 freshManager (freshHeader 0)
      = .ok (checkpointed freshManager (freshHeader 0)) :=
    writeHeader_ok_iff.mpr ⟨Nat.zero_le _, rfl⟩
  have hfresh : Checkpointable freshManager := ⟨fun hused => absurd rfl hused, by decide⟩
  have hsecond : Checkpointable (checkpointed freshManager (freshHeader 0)) :=
    ⟨fun hused => absurd rfl hused, by decide⟩
  have hdone : singleFileBlockManagerWriteHeader 0 (checkpointed freshManager (freshHeader 0))
      (freshHeader 0) = .ok _ := writeHeader_ok_iff.mpr ⟨Nat.zero_le _, rfl⟩
  have hcrash : interruptedWriteHeader 0 (checkpointed freshManager (freshHeader 0))
      (freshHeader 0) 40 = .ok _ := interruptedWriteHeader_ok_iff.mpr ⟨Nat.zero_le _, rfl⟩
  refine ⟨_, _, _, hdone, hcrash, (crash_atomic_iff 0 [] freshManager _ _
    [.op (.writeHeader (freshHeader 0))] (freshHeader 0) 40 _ (createNewDatabase_fresh 0 [])
    ⟨hfresh, fun _ _ => trivial⟩ hfirst hsecond hdone hcrash).mpr (Or.inr ?_)⟩
  intro i hi hmissing
  simp only [FILE_BUFFER_HEADER_SIZE] at hmissing
  omega

/-- The first checkpoint of a fresh database, with a new meta block, dies after the checksum and the
iteration arrived. The reopening adopts the new iteration with the old meta block. -/
theorem crash_not_atomic_after_iteration :
    ∃ manager completed handle,
      createNewDatabase 0 { content := [], outcomes := [] } true = .ok (some manager) ∧
      singleFileBlockManagerWriteHeader 0 manager { freshHeader 0 with metaBlock := 7 }
        = .ok completed ∧
      interruptedWriteHeader 0 manager { freshHeader 0 with metaBlock := 7 } 16 = .ok handle ∧
      (adoptedHeader manager.fileHandle).2
        = { iteration := 1, metaBlock := INVALID_BLOCK, freeListId := INVALID_BLOCK,
            blockCount := 0 } ∧
      (adoptedHeader completed.fileHandle).2
        = { iteration := 2, metaBlock := 7, freeListId := INVALID_BLOCK, blockCount := 0 } ∧
      (adoptedHeader handle).2
        = { iteration := 2, metaBlock := INVALID_BLOCK, freeListId := INVALID_BLOCK,
            blockCount := 0 } ∧
      ¬ ((adoptedHeader handle).2 = (adoptedHeader manager.fileHandle).2 ∨
        (adoptedHeader handle).2 = (adoptedHeader completed.fileHandle).2) := by
  have h := freshManager_headerInv
  have hc : Checkpointable freshManager := ⟨fun hused => absurd rfl hused, by decide⟩
  have hslots : slots freshManager.fileHandle.content
      = { first := freshHeader 0, second := freshHeader 1 } := slots_freshContent
  have htorn : tornHeader freshManager { freshHeader 0 with metaBlock := 7 } 16
      = { iteration := 2, metaBlock := INVALID_BLOCK, freeListId := INVALID_BLOCK,
          blockCount := 0 } := by
    rw [tornHeader_eq h.length_le, h.active_eq, headerAt_inactiveSlot, hslots, TwoSlot.spare,
      firstActive_fresh]
    decide
  have hdone := h.checkpoint hc { freshHeader 0 with metaBlock := 7 }
  have hold : (adoptedHeader freshManager.fileHandle).2
      = { iteration := 1, metaBlock := INVALID_BLOCK, freeListId := INVALID_BLOCK,
          blockCount := 0 } := by
    rw [adoptedHeader_eq h.length_le, hslots, TwoSlot.select, firstActive_fresh]
    rfl
  have hnew : (adoptedHeader
      (checkpointed freshManager { freshHeader 0 with metaBlock := 7 }).fileHandle).2
      = { iteration := 2, metaBlock := 7, freeListId := INVALID_BLOCK, blockCount := 0 } := by
    rw [adoptedHeader_eq hdone.length_le, h.slots_checkpointed hc,
      TwoSlot.select_put (h.select_lt hc _)]
    rfl
  -- the iteration is complete, so the torn header is the one that is adopted
  have hmixed := (h.adopted_tornContent hc { freshHeader 0 with metaBlock := 7 } 16).trans
    (if_pos (by rw [htorn]; rfl))
  rw [htorn] at hmixed
  refine ⟨freshManager, _, _, createNewDatabase_fresh 0 [],
    writeHeader_ok_iff.mpr ⟨Nat.zero_le _, rfl⟩,
    interruptedWriteHeader_ok_iff.mpr ⟨Nat.zero_le _, rfl⟩, hold, hnew, hmixed, ?_⟩
  rw [hold, hnew, hmixed]
  decide

end MustDb.Proofs.Storage
