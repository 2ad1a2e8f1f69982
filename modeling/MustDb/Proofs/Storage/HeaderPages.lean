import MustDb.Lib.TwoSlot
import MustDb.Proofs.Storage.Page

/-!
# `MustDb.Proofs.Storage.HeaderPages`: the header pages of a file

The two database headers of a file are a pair of slots (`MustDb.Lib.TwoSlot`), versioned by their
iteration. `readHeaders_eq` and `adoptedHeader_eq` say that `create_new_database` reads these slots
and adopts the selected one. `active_header` names the active slot by 0 or 1 (`activeCode`), and
`slots_pwrite_take` is the connection between the code and the slots: a write to the header page
that `inactiveSlot` names is a `put`, also when only a prefix of the page arrives.

`createNewDatabase_fresh` is the fresh database, whose slots hold the iterations 0 and 1.
-/

set_option autoImplicit false

namespace MustDb.Proofs.Storage

open MustDb.Lib
open MustDb.Storage

/-- The bytes of a header page in the file. -/
def slotBytes (content : List UInt8) (slot : Fin 3) : List UInt8 :=
  pread content (pageLayout.start (.header slot)) HEADER_SIZE

/-- The database header in a header page, whatever its checksum. -/
def headerAt (content : List UInt8) (slot : Fin 3) : DatabaseHeader :=
  DatabaseHeader.ofBytes ((slotBytes content slot).drop FILE_BUFFER_HEADER_SIZE)

/-- The two database headers of a file. -/
def slots (content : List UInt8) : TwoSlot DatabaseHeader where
  first := headerAt content FIRST_SLOT
  second := headerAt content SECOND_SLOT

/-- Headers are versioned by their iteration. -/
def version (header : DatabaseHeader) : Nat := header.iteration.toNat

/-- The master version of a file. -/
def masterVersion (content : List UInt8) : UInt64 :=
  MasterHeader.versionOf ((slotBytes content MASTER_SLOT).drop FILE_BUFFER_HEADER_SIZE)

/-- The value of `active_header` that names the active slot. -/
def activeCode (s : TwoSlot DatabaseHeader) : UInt8 := if s.firstActive version then 0 else 1

/-- The two slots of the database headers. -/
theorem slot_cases {slot : Fin 3} (h : slot ≠ 0) : slot = 1 ∨ slot = 2 := by
  revert slot
  decide

/-! ### Reading the headers -/

theorem headerStart (slot : Fin 3) : pageLayout.start (.header slot) = 4096 * slot := rfl

/-- A header page inside the file, read into any buffer. -/
theorem fileBufferRead_header (fb : FileBuffer HEADER_PAYLOAD) {handle : FileHandle}
    (hlen : 12288 ≤ handle.content.length) (slot : Fin 3) :
    (fileBufferRead fb handle (headerLocation slot)).1.buffer
      = (slotBytes handle.content slot).drop FILE_BUFFER_HEADER_SIZE := by
  have hslot := slot.isLt
  have hin : (headerLocation slot).toNat + (HEADER_PAYLOAD + 8) ≤ handle.content.length := by
    rw [headerLocation_toNat, headerStart]
    simp only [HEADER_PAYLOAD, HEADER_SIZE, FILE_BUFFER_HEADER_SIZE]
    omega
  -- the checksum is not looked at, so the payload is what the file has
  rw [fileBufferRead_buffer fb (not_fseekFails_header slot) hin, headerLocation_toNat]
  rfl

theorem readHeaders_eq {handle : FileHandle} (hlen : 12288 ≤ handle.content.length) :
    readHeaders handle = (masterVersion handle.content, headerAt handle.content 1,
      headerAt handle.content 2) := by
  simp only [readHeaders, fileBufferRead_header _ hlen]
  rfl

/-- `create_new_database` adopts the selected header. -/
theorem adoptedHeader_eq {handle : FileHandle} (hlen : 12288 ≤ handle.content.length) :
    adoptedHeader handle
      = (activeCode (slots handle.content), (slots handle.content).select version) := by
  have hgt : ∀ a b : DatabaseHeader, a.iteration > b.iteration ↔ version b < version a :=
    fun a b => UInt64.lt_iff_toNat_lt
  simp only [adoptedHeader, readHeaders_eq hlen, activeCode, TwoSlot.select, slots,
    TwoSlot.firstActive, hgt]
  by_cases h : version (headerAt handle.content 2) < version (headerAt handle.content 1) <;>
    simp [h]

/-! ### Writing the headers -/

/-- A write behind the header pages changes none of them. -/
theorem slotBytes_pwrite_of_le {content bytes : List UInt8} {off : Nat}
    (hlen : 12288 ≤ content.length) (hoff : 12288 ≤ off) (slot : Fin 3) :
    slotBytes (pwrite content off bytes) slot = slotBytes content slot := by
  have hslot := slot.isLt
  apply pread_pwrite_disjoint
  · rw [headerStart, HEADER_SIZE]
    omega
  · left
    rw [headerStart, HEADER_SIZE]
    omega

/-- A write inside one header page changes no other. -/
theorem slotBytes_pwrite_of_ne {content bytes : List UInt8} {slot other : Fin 3}
    (hlen : 12288 ≤ content.length) (hbytes : bytes.length ≤ HEADER_SIZE) (hne : slot ≠ other) :
    slotBytes (pwrite content (pageLayout.start (.header slot)) bytes) other
      = slotBytes content other := by
  have hslot := other.isLt
  have hval : (slot : Nat) ≠ other := fun h => hne (Fin.ext h)
  simp only [HEADER_SIZE] at hbytes
  apply pread_pwrite_disjoint
  · rw [headerStart, HEADER_SIZE]
    omega
  · rw [headerStart, headerStart, HEADER_SIZE]
    omega

/-- A prefix of a page that arrives in a header page. -/
theorem slotBytes_pwrite_take {content page : List UInt8} (hpage : page.length = HEADER_SIZE)
    (slot : Fin 3) (k : Nat) :
    slotBytes (pwrite content (pageLayout.start (.header slot)) (page.take k)) slot
      = page.take k ++ (slotBytes content slot).drop k := by
  rw [slotBytes, slotBytes, ← hpage]
  exact pread_pwrite_take content page (pageLayout.start (.header slot)) k

/-- The write of a prefix of a page to the slot that `write_header` chooses is a `put` of the header
that the torn page holds. -/
theorem slots_pwrite_take {content page : List UInt8} (hlen : 12288 ≤ content.length)
    (hpage : page.length = HEADER_SIZE) (k : Nat) :
    let slot := inactiveSlot (activeCode (slots content))
    slots (pwrite content (pageLayout.start (.header slot)) (page.take k))
      = (slots content).put version (DatabaseHeader.ofBytes
          ((page.take k ++ (slotBytes content slot).drop k).drop FILE_BUFFER_HEADER_SIZE)) := by
  have htake : (page.take k).length ≤ HEADER_SIZE := (List.length_take_le' k page).trans hpage.le
  -- the page stays inside its slot, so the other slot keeps its header
  have hne (slot other : Fin 3) (h : slot ≠ other) :
      slotBytes (pwrite content (pageLayout.start (.header slot)) (page.take k)) other
        = slotBytes content other :=
    slotBytes_pwrite_of_ne hlen htake h
  intro slot
  -- the slot is the one that the active header does not use
  cases hf : (slots content).firstActive version with
  | true =>
      have hslot : slot = 2 := by simp [slot, activeCode, hf, inactiveSlot]
      rw [TwoSlot.put_of_firstActive _ hf, hslot]
      simp only [slots, headerAt, hne 2 1 (by decide), slotBytes_pwrite_take hpage]
  | false =>
      have hslot : slot = 1 := by simp [slot, activeCode, hf, inactiveSlot]
      rw [TwoSlot.put_of_not_firstActive _ hf, hslot]
      simp only [slots, headerAt, hne 1 2 (by decide), slotBytes_pwrite_take hpage]

/-- `write_header` never writes the master page. -/
theorem inactiveSlot_ne_zero (activeHeader : UInt8) : inactiveSlot activeHeader ≠ 0 := by
  unfold inactiveSlot
  split <;> decide

/-! ### The header in its page -/

@[simp] theorem length_header_bytes (header : DatabaseHeader) : header.bytes.length = 32 := by
  simp [DatabaseHeader.bytes]

/-- A header reads back from memory, whatever follows it. -/
theorem header_ofBytes_append (header : DatabaseHeader) (rest : List UInt8) :
    DatabaseHeader.ofBytes (header.bytes ++ rest) = header := by
  -- the four words stand at the offsets 0, 8, 16 and 24
  have h16 (x y : UInt64) (bs : List UInt8) : (u64Bytes x ++ (u64Bytes y ++ bs)).drop 16 = bs := by
    rw [show 16 = 8 + 8 from rfl, ← List.drop_drop, drop_u64Bytes_append, drop_u64Bytes_append]
  have h24 (x y z : UInt64) (bs : List UInt8) :
      (u64Bytes x ++ (u64Bytes y ++ (u64Bytes z ++ bs))).drop 24 = bs := by
    rw [show 24 = 8 + 16 from rfl, ← List.drop_drop, drop_u64Bytes_append, h16]
  simp only [DatabaseHeader.ofBytes, DatabaseHeader.bytes, List.append_assoc, drop_u64Bytes_append,
    h16, h24, u64OfBytes_append]

/-- The payload of a header page: bytes at its start, zeros after them. -/
def headerPayload (bytes : List UInt8) : List UInt8 :=
  bytes ++ List.replicate (HEADER_PAYLOAD - bytes.length) 0

/-- A `memcpy` to the start of a page buffer. -/
theorem memcpyTo_start {size : Nat} (fb : FileBuffer size) (bytes : List UInt8)
    (h : bytes.length ≤ size) :
    ∃ fb', fb.memcpyTo 0 bytes = .ok fb' ∧ fb'.buffer = bytes ++ fb.buffer.drop bytes.length := by
  refine ⟨_, dif_pos (by omega), ?_⟩
  simpa using pwrite_append [] fb.buffer bytes

theorem length_headerPayload {bytes : List UInt8} (h : bytes.length ≤ HEADER_PAYLOAD) :
    (headerPayload bytes).length = HEADER_PAYLOAD := by
  rw [headerPayload, List.length_append, List.length_replicate]
  omega

/-- The disk page of a header. -/
def headerPage (header : DatabaseHeader) : List UInt8 := pageOf (headerPayload header.bytes)

@[simp] theorem length_headerPage (header : DatabaseHeader) :
    (headerPage header).length = HEADER_SIZE := by
  rw [headerPage, length_pageOf, length_headerPayload (by rw [length_header_bytes]; decide)]
  rfl

/-- A prefix of a header page fits in the slot. -/
theorem length_take_headerPage_le (header : DatabaseHeader) (k : Nat) :
    ((headerPage header).take k).length ≤ HEADER_SIZE :=
  (List.length_take_le' k _).trans (length_headerPage header).le

theorem take_headerPage (header : DatabaseHeader) :
    (headerPage header).take HEADER_SIZE = headerPage header :=
  List.take_of_length_le (length_headerPage header).le

/-- The header in its disk page. -/
theorem headerPage_header (header : DatabaseHeader) :
    DatabaseHeader.ofBytes ((headerPage header).drop FILE_BUFFER_HEADER_SIZE) = header := by
  rw [headerPage, pageOf_drop, headerPayload, header_ofBytes_append]

/-! ### The fresh database -/

/-- The three header pages of a fresh file. -/
def freshContent : List UInt8 :=
  pwrite (pwrite (pwrite [] (pageLayout.start (.header MASTER_SLOT))
      (pageOf (headerPayload freshMaster.bytes)))
    (pageLayout.start (.header FIRST_SLOT)) (headerPage (freshHeader 0)))
    (pageLayout.start (.header SECOND_SLOT)) (headerPage (freshHeader 1))

/-- The manager of a fresh file. -/
def freshManager : SingleFileExtentManager :=
  { managerZero { content := freshContent, outcomes := [] } with
    activeHeader := 1
    maxBlock := 0
    metaBlock := INVALID_BLOCK
    iterationCount := 1 }

/-- `create_new_database` on a file whose writes all succeed. -/
theorem createNewDatabase_fresh (fuel : Nat) (content : List UInt8) :
    createNewDatabase fuel { content, outcomes := [] } true = .ok (some freshManager) := by
  obtain ⟨page0, hpage0, hbuf0⟩ := memcpyTo_start (fileBufferCreate HEADER_PAYLOAD)
    freshMaster.bytes (by decide)
  obtain ⟨page1, hpage1, hbuf1⟩ := memcpyTo_start (fileBufferCreate HEADER_PAYLOAD)
    (freshHeader 0).bytes (by rw [length_header_bytes]; decide)
  obtain ⟨page2, hpage2, hbuf2⟩ := memcpyTo_start page1
    (freshHeader 1).bytes (by rw [length_header_bytes]; decide)
  have hwrite (page : FileBuffer HEADER_PAYLOAD) (content : List UInt8) (slot : Fin 3) :
      (fileBufferWrite page { content, outcomes := [] } (headerLocation slot)).2.1
        = { content := pwrite content (4096 * slot) (pageOf page.buffer), outcomes := [] } := by
    rw [fileBufferWrite_eq page rfl (not_fseekFails_header slot), headerLocation_toNat, headerStart]
  -- a new buffer is zero, so what a header does not cover is zero
  have hclear (bytes : List UInt8) : (fileBufferCreate HEADER_PAYLOAD).buffer.drop bytes.length
      = List.replicate (HEADER_PAYLOAD - bytes.length) 0 := by
    simp [fileBufferCreate]
  have h0 : page0.buffer = headerPayload freshMaster.bytes := by
    rw [hbuf0, hclear, headerPayload]
  have h1 : page1.buffer = headerPayload (freshHeader 0).bytes := by
    rw [hbuf1, hclear, headerPayload]
  -- the buffer is not cleared before the second header, which covers all of the first
  have h2 : page2.buffer = headerPayload (freshHeader 1).bytes := by
    rw [hbuf2, h1, headerPayload, headerPayload, length_header_bytes, length_header_bytes,
      List.drop_append_of_le_length (by rw [length_header_bytes]),
      List.drop_of_length_le (by rw [length_header_bytes]), List.nil_append]
  simp only [createNewDatabase, if_true, writeFreshHeaders, hpage0, hpage1, hpage2, hwrite, h0, h1,
    h2, ok_bind]
  rfl

/-- The pages of the fresh file. Each one was written, and the later writes went elsewhere. -/
theorem freshContent_holds :
    Holds pageLayout freshContent (.header 0) (pageOf (headerPayload freshMaster.bytes)) ∧
    Holds pageLayout freshContent (.header 1) (headerPage (freshHeader 0)) ∧
    Holds pageLayout freshContent (.header 2) (headerPage (freshHeader 1)) := by
  have hpage (header : DatabaseHeader) : (headerPage header).length ≤ HEADER_SIZE :=
    Nat.le_of_eq (length_headerPage header)
  have hmaster : (pageOf (headerPayload freshMaster.bytes)).length = HEADER_SIZE := by
    rw [length_pageOf, length_headerPayload (by decide)]
    rfl
  refine ⟨?_, ?_, ?_⟩
  · exact ((Holds.write_same _ hmaster).write_other (by decide) (hpage _)).write_other (by decide)
      (hpage _)
  · exact (Holds.write_same _ (length_headerPage _)).write_other (by decide) (hpage _)
  · exact Holds.write_same _ (length_headerPage _)

theorem length_freshContent : 12288 ≤ freshContent.length :=
  freshContent_holds.2.2.in_file (by decide)

/-- The slots of the fresh file. -/
theorem slots_freshContent :
    slots freshContent = { first := freshHeader 0, second := freshHeader 1 } := by
  obtain ⟨-, h1, h2⟩ := freshContent_holds
  have hs1 : slotBytes freshContent 1 = headerPage (freshHeader 0) := h1.read_eq
  have hs2 : slotBytes freshContent 2 = headerPage (freshHeader 1) := h2.read_eq
  simp only [slots, headerAt, hs1, hs2, headerPage_header]

theorem masterVersion_freshContent : masterVersion freshContent = VERSION_NUMBER := by
  have hs0 : slotBytes freshContent 0 = pageOf (headerPayload freshMaster.bytes) :=
    freshContent_holds.1.read_eq
  rw [masterVersion, hs0, pageOf_drop]
  decide

end MustDb.Proofs.Storage
