import MustDb.Proofs.Storage.Checkpoint
import MustDb.Proofs.Storage.PageChecks

/-!
# `MustDb.Proofs.Storage.OpenChecks`: which files a reopening accepts

`create_new_database(path, false)` reads the three header pages into one buffer. It looks at the
version of the master page and at the two iterations. It looks at no checksum, and not at the
magic number.

A page that is not all in the file leaves older bytes in the buffer: `masterVersion` is the version
of any file, for the buffer is zero at first, and `secondHeader` is the header that the third read
leaves when the second page was in the file.

`WellFormed` is what a file must have to be opened, and `Greatest` the header that is to be adopted.
`open_checked_iff` says for which files the code does that.
-/

set_option autoImplicit false

namespace MustDb.Proofs.Storage

open MustDb.Lib
open MustDb.Storage

/-! ### Well-formed files -/

/-- The page is in the file, with the checksum of its payload. -/
def ValidPage (content : List UInt8) (slot : Fin 3) : Prop :=
  (slotBytes content slot).length = HEADER_SIZE ∧ Verifies (slotBytes content slot)

instance (content : List UInt8) (slot : Fin 3) : Decidable (ValidPage content slot) := by
  unfold ValidPage
  infer_instance

/-- The magic number of a file. -/
def masterMagic (content : List UInt8) : UInt64 :=
  u64OfBytes ((slotBytes content MASTER_SLOT).drop FILE_BUFFER_HEADER_SIZE)

/-- The master page is valid and names this program and its version, and a page with a database
header is valid. -/
structure WellFormed (content : List UInt8) : Prop where
  master : ValidPage content MASTER_SLOT
  magic : masterMagic content = MAGIC_NUMBER
  version : masterVersion content = VERSION_NUMBER
  header : ValidPage content FIRST_SLOT ∨ ValidPage content SECOND_SLOT

/-- A header with the greatest iteration among those of the valid pages. -/
def Greatest (content : List UInt8) (header : DatabaseHeader) : Prop :=
  ∃ slot, slot ≠ MASTER_SLOT ∧ ValidPage content slot ∧ headerAt content slot = header ∧
    ∀ other, other ≠ MASTER_SLOT → ValidPage content other →
      version (headerAt content other) ≤ version header

/-- The file is rejected: `create_new_database` returns `NULL`. -/
def Rejects (handle : FileHandle) : Prop :=
  ∀ fuel, createNewDatabase fuel handle false = .ok none

/-- The file is rejected, or it is well-formed and the right header is adopted. -/
def OpensChecked (handle : FileHandle) : Prop :=
  Rejects handle ∨ (WellFormed handle.content ∧ Greatest handle.content (adoptedHeader handle).2)

/-! ### Reading the pages -/

/-- The payload of a buffer, in its disk page. -/
theorem drop_internalBuf {size : Nat} (fb : FileBuffer size) :
    fb.internalBuf.drop FILE_BUFFER_HEADER_SIZE = fb.buffer :=
  List.drop_left' fb.length_header

/-- The bytes of a file that go into the buffer of a header page, and the older ones behind them. -/
theorem headerRead_internalBuf (fb : FileBuffer HEADER_PAYLOAD) (handle : FileHandle)
    (slot : Fin 3) :
    (fileBufferRead fb handle (headerLocation slot)).1.internalBuf
      = slotBytes handle.content slot
        ++ fb.internalBuf.drop (slotBytes handle.content slot).length := by
  have hpresent : presentBytes HEADER_PAYLOAD handle (headerLocation slot)
      = slotBytes handle.content slot := by
    rw [presentBytes, if_neg (not_fseekFails_header slot), headerLocation_toNat]
    rfl
  rw [fileBufferRead_internalBuf, hpresent]

/-- A page that is in the file replaces the whole buffer. -/
theorem headerRead_of_length {fb : FileBuffer HEADER_PAYLOAD} {handle : FileHandle} {slot : Fin 3}
    (hlen : (slotBytes handle.content slot).length = HEADER_SIZE) :
    (fileBufferRead fb handle (headerLocation slot)).1.internalBuf
      = slotBytes handle.content slot := by
  have hdrop : fb.internalBuf.drop HEADER_SIZE = [] :=
    List.drop_of_length_le (Nat.le_of_eq fb.length_internalBuf)
  rw [headerRead_internalBuf, hlen, hdrop, List.append_nil]

/-- Zeros behind a number do not change it. -/
theorem leNat_replicate_zero (n : Nat) : leNat (List.replicate n 0) = 0 := by
  induction n with
  | zero => rfl
  | succ n ih => rw [List.replicate_succ, leNat, ih, UInt8.toNat_zero, Nat.mul_zero]

theorem u64OfBytes_append_zeros (bs : List UInt8) (n : Nat) :
    u64OfBytes (bs ++ List.replicate n 0) = u64OfBytes bs := by
  rw [u64OfBytes, u64OfBytes, leNat_take, leNat_take, leNat_append, leNat_replicate_zero,
    Nat.mul_zero, Nat.add_zero]

/-- The version that a reopening looks at, in any file. -/
theorem readHeaders_version (handle : FileHandle) :
    (readHeaders handle).1 = masterVersion handle.content := by
  have hzero : (fileBufferCreate HEADER_PAYLOAD).internalBuf = List.replicate HEADER_SIZE 0 :=
    List.replicate_append_replicate
  show MasterHeader.versionOf (fileBufferRead (fileBufferCreate HEADER_PAYLOAD) handle
    (headerLocation MASTER_SLOT)).1.buffer = _
  rw [← drop_internalBuf, headerRead_internalBuf, hzero, List.drop_replicate, masterVersion,
    MasterHeader.versionOf, MasterHeader.versionOf, List.drop_append, List.drop_append,
    List.drop_replicate, List.drop_replicate, u64OfBytes_append_zeros]

/-- The header that the third read leaves behind the second page. -/
def secondHeader (content : List UInt8) : DatabaseHeader :=
  DatabaseHeader.ofBytes ((slotBytes content SECOND_SLOT
      ++ (slotBytes content FIRST_SLOT).drop (slotBytes content SECOND_SLOT).length).drop
    FILE_BUFFER_HEADER_SIZE)

theorem secondHeader_of_length {content : List UInt8}
    (hfirst : (slotBytes content FIRST_SLOT).length = HEADER_SIZE)
    (hsecond : (slotBytes content SECOND_SLOT).length = HEADER_SIZE) :
    secondHeader content = headerAt content SECOND_SLOT := by
  rw [secondHeader, hsecond, List.drop_of_length_le hfirst.le, List.append_nil]
  rfl

/-- The header that a reopening adopts, when the first header page is in the file. -/
theorem adoptedHeader_of_first {handle : FileHandle}
    (hfirst : (slotBytes handle.content FIRST_SLOT).length = HEADER_SIZE) :
    (adoptedHeader handle).2
      = if version (secondHeader handle.content) < version (headerAt handle.content FIRST_SLOT)
        then headerAt handle.content FIRST_SLOT else secondHeader handle.content := by
  have hreads : (readHeaders handle).2
      = (headerAt handle.content FIRST_SLOT, secondHeader handle.content) := by
    simp only [readHeaders, ← drop_internalBuf, headerRead_of_length hfirst,
      headerRead_internalBuf _ handle SECOND_SLOT]
    rfl
  have hgt (a b : DatabaseHeader) : a.iteration > b.iteration ↔ version b < version a :=
    UInt64.lt_iff_toNat_lt
  rw [adoptedHeader, ← Prod.mk.eta (p := readHeaders handle), hreads]
  simp only [hgt]
  split <;> rfl

/-! ### What the code does -/

/-- A file with the right version goes to `initialize_manager`, with the adopted header. -/
theorem createNewDatabase_of_version (fuel : Nat) {handle : FileHandle}
    (hversion : masterVersion handle.content = VERSION_NUMBER) :
    createNewDatabase fuel handle false = (do
      let manager ← initializeManager fuel
        { managerZero handle with activeHeader := (adoptedHeader handle).1 }
        (adoptedHeader handle).2
      return some manager) := by
  simp only [createNewDatabase, readHeaders_version, hversion, Bool.false_eq_true, if_false, ne_eq,
    not_true_eq_false]

theorem rejects_iff (handle : FileHandle) :
    Rejects handle ↔ masterVersion handle.content ≠ VERSION_NUMBER := by
  constructor
  · intro hrejects hversion
    have hnone := hrejects 0
    rw [createNewDatabase_of_version 0 hversion] at hnone
    obtain ⟨manager, -, hsome⟩ := bind_eq_ok.mp hnone
    cases hsome
  · intro hversion fuel
    simp only [createNewDatabase, readHeaders_version, Bool.false_eq_true, if_false,
      if_pos hversion]
    rfl

/-- The manager has the fields of the header. -/
structure Adopts (manager : SingleFileExtentManager) (header : DatabaseHeader) : Prop where
  metaBlock : manager.metaBlock = header.metaBlock
  iteration : manager.iterationCount = header.iteration
  blockCount : manager.maxBlock = header.blockCount

/-- A manager that is returned has the fields of the adopted header. -/
theorem adopts_of_open {fuel : Nat} {handle : FileHandle} {manager : SingleFileExtentManager}
    (hopen : createNewDatabase fuel handle false = .ok (some manager)) :
    Adopts manager (adoptedHeader handle).2 := by
  have hversion : masterVersion handle.content = VERSION_NUMBER := by
    by_contra hne
    cases ((rejects_iff handle).mpr hne fuel).symm.trans hopen
  rw [createNewDatabase_of_version fuel hversion] at hopen
  obtain ⟨manager', hinit, hsome⟩ := bind_eq_ok.mp hopen
  cases hsome
  obtain ⟨-, hmeta, hiteration, hblocks⟩ := initializeManager_frame hinit
  exact ⟨hmeta, hiteration, hblocks⟩

/-! ### The header that wins -/

/-- The database headers of a file: both are valid, or the one that is not loses the comparison of
the iterations, or it reads as the valid one. -/
def InvalidLoses (content : List UInt8) : Prop :=
  (ValidPage content FIRST_SLOT ∧ ValidPage content SECOND_SLOT) ∨
    (ValidPage content FIRST_SLOT ∧ ¬ ValidPage content SECOND_SLOT ∧
      (version (secondHeader content) < version (headerAt content FIRST_SLOT) ∨
        secondHeader content = headerAt content FIRST_SLOT)) ∨
    (¬ ValidPage content FIRST_SLOT ∧ ValidPage content SECOND_SLOT ∧
      version (headerAt content FIRST_SLOT) ≤ version (headerAt content SECOND_SLOT))

/-- The greatest header of a file with two database headers. -/
theorem greatest_iff (content : List UInt8) (header : DatabaseHeader) :
    Greatest content header ↔
      (ValidPage content FIRST_SLOT ∧ headerAt content FIRST_SLOT = header ∧
        (ValidPage content SECOND_SLOT →
          version (headerAt content SECOND_SLOT) ≤ version header)) ∨
      (ValidPage content SECOND_SLOT ∧ headerAt content SECOND_SLOT = header ∧
        (ValidPage content FIRST_SLOT →
          version (headerAt content FIRST_SLOT) ≤ version header)) := by
  constructor
  · rintro ⟨slot, hslot, hvalid, hheader, hgreatest⟩
    rcases slot_cases hslot with rfl | rfl
    · exact Or.inl ⟨hvalid, hheader, hgreatest SECOND_SLOT (by decide)⟩
    · exact Or.inr ⟨hvalid, hheader, hgreatest FIRST_SLOT (by decide)⟩
  · rintro (⟨hvalid, hheader, hother⟩ | ⟨hvalid, hheader, hother⟩)
    · refine ⟨FIRST_SLOT, by decide, hvalid, hheader, fun other hne hvalid' => ?_⟩
      rcases slot_cases hne with rfl | rfl
      · exact (congrArg version hheader).le
      · exact hother hvalid'
    · refine ⟨SECOND_SLOT, by decide, hvalid, hheader, fun other hne hvalid' => ?_⟩
      rcases slot_cases hne with rfl | rfl
      · exact hother hvalid'
      · exact (congrArg version hheader).le

/-- A file that has the second header page has the first one. -/
theorem length_first_of_second {content : List UInt8}
    (h : (slotBytes content SECOND_SLOT).length = HEADER_SIZE) :
    (slotBytes content FIRST_SLOT).length = HEADER_SIZE := by
  have hlength (slot : Fin 3) :
      (slotBytes content slot).length = min 4096 (content.length - 4096 * slot) :=
    length_pread _ _ _
  rw [hlength, HEADER_SIZE, Fin.val_two, min_eq_left_iff] at h
  rw [hlength, HEADER_SIZE, Fin.val_one, min_eq_left_iff]
  exact h.trans (Nat.sub_le_sub_left (by decide) content.length)

/-- The adopted header is the greatest one when no invalid header wins, and only then. -/
theorem greatest_adopted_iff (handle : FileHandle) :
    Greatest handle.content (adoptedHeader handle).2 ↔ InvalidLoses handle.content := by
  rw [greatest_iff, InvalidLoses]
  by_cases hsecond : ValidPage handle.content SECOND_SLOT
  · -- both pages are in the file, so the buffer has the second header
    have hlen := length_first_of_second hsecond.1
    rw [adoptedHeader_of_first hlen, secondHeader_of_length hlen hsecond.1]
    by_cases hfirst : ValidPage handle.content FIRST_SLOT
    · refine ⟨fun _ => Or.inl ⟨hfirst, hsecond⟩, fun _ => ?_⟩
      split
      next hlt => exact Or.inl ⟨hfirst, rfl, fun _ => hlt.le⟩
      next hle => exact Or.inr ⟨hsecond, rfl, fun _ => Nat.le_of_not_lt hle⟩
    · simp only [hfirst, hsecond, false_and, true_and, not_true_eq_false, not_false_eq_true,
        false_imp_iff, and_true, false_or]
      split
      next hlt =>
        -- an invalid first header with the greater iteration wins
        refine ⟨fun heq => ?_, fun hle => absurd hlt (Nat.not_lt.mpr hle)⟩
        exact absurd hlt (Nat.not_lt.mpr (congrArg version heq).ge)
      next hle => exact ⟨fun _ => Nat.le_of_not_lt hle, fun _ => rfl⟩
  · by_cases hfirst : ValidPage handle.content FIRST_SLOT
    · rw [adoptedHeader_of_first hfirst.1]
      simp only [hfirst, hsecond, false_and, true_and, not_false_eq_true, false_imp_iff, and_true,
        and_false, or_false, false_or, not_true_eq_false]
      split
      next hlt => exact ⟨fun _ => Or.inl hlt, fun _ => rfl⟩
      next hle =>
        -- the second header is adopted, and it is the first one if it reads as that
        exact ⟨fun heq => Or.inr heq.symm, fun h => (h.resolve_left hle).symm⟩
    · simp only [hfirst, hsecond, false_and, and_false, or_false]

/-! ### The theorem -/

/-- For every file: a manager that is returned has the fields of the header that wins the comparison
of the iterations. The file is rejected, or it is well-formed and this header is the greatest one,
exactly when its version is another one, or the master page is valid with the magic number and no
invalid header wins. -/
theorem open_checked_iff (handle : FileHandle) :
    (∀ fuel manager, createNewDatabase fuel handle false = .ok (some manager) →
      Adopts manager (adoptedHeader handle).2) ∧
    (OpensChecked handle ↔
      masterVersion handle.content ≠ VERSION_NUMBER ∨
        (ValidPage handle.content MASTER_SLOT ∧ masterMagic handle.content = MAGIC_NUMBER ∧
          InvalidLoses handle.content)) := by
  refine ⟨fun _ _ hopen => adopts_of_open hopen, ?_⟩
  rw [OpensChecked, rejects_iff, greatest_adopted_iff]
  constructor
  · rintro (hversion | ⟨hwell, hloses⟩)
    · exact Or.inl hversion
    · exact Or.inr ⟨hwell.master, hwell.magic, hloses⟩
  · rintro (hversion | ⟨hmaster, hmagic, hloses⟩)
    · exact Or.inl hversion
    · by_cases hversion : masterVersion handle.content = VERSION_NUMBER
      · -- a header page is valid in each of the three cases
        have hheader :
            ValidPage handle.content FIRST_SLOT ∨ ValidPage handle.content SECOND_SLOT := by
          rcases hloses with ⟨hfirst, -⟩ | ⟨hfirst, -⟩ | ⟨-, hsecond, -⟩
          · exact Or.inl hfirst
          · exact Or.inl hfirst
          · exact Or.inr hsecond
        exact Or.inr ⟨⟨hmaster, hmagic, hversion, hheader⟩, hloses⟩
      · exact Or.inl hversion

/-- A file of 24 bytes, with the version at its end and zeros in front of it. -/
def versionOnly : FileHandle :=
  { content := List.replicate 16 0 ++ u64Bytes VERSION_NUMBER, outcomes := [] }

/-- The file has no checksum, no magic number and no database header, and it is opened. -/
theorem version_only_is_opened :
    (∃ manager, createNewDatabase 0 versionOnly false = .ok (some manager)) ∧
      ¬ OpensChecked versionOnly := by
  refine ⟨⟨_, rfl⟩, ?_⟩
  rw [OpensChecked, rejects_iff]
  rintro (hversion | ⟨hwell, -⟩)
  · exact hversion (by decide)
  · exact absurd hwell.master.1 (by decide)

end MustDb.Proofs.Storage
