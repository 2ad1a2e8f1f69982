import MustDb.Proofs.Storage.Page

/-!
# `MustDb.Proofs.Storage.PageStore`: the file is a page store

The abstract page store maps each header slot and each block id to the payload last written there,
and says nothing of a page that was never written (`lastPayload`). The code's side is a sequence
of `single_file_block_manager_write` calls and header-page writes on a manager (`PageWrite.apply`).

`payloads_refine` is the simulation: after any sequence of writes the file refines the store of the
pages of the last payloads. `pageStore_refinement` reads it back through `fileBuffer_read`: every
written page returns status 0 and the payload last written to it. The checksum plays no part in
the content, but the writer and the reader compute it over the same bytes, and so the status is 0.
-/

set_option autoImplicit false

namespace MustDb.Proofs.Storage

open MustDb.Lib
open MustDb.Storage

/-- One write of a page: a block through the manager, or a header page. -/
inductive PageWrite where
  | block (block : Block)
  | header (slot : Fin 3) (page : FileBuffer HEADER_PAYLOAD)

namespace PageWrite

/-- The page that is written. -/
def addr : PageWrite → PageAddr
  | .block b => .block b.id
  | .header slot _ => .header slot

/-- The payload that is written. -/
def payload : PageWrite → List UInt8
  | .block b => b.fb.buffer
  | .header _ page => page.buffer

/-- A block is written under an addressable id. -/
def Fits : PageWrite → Prop
  | .block b => Addressable b.id
  | .header _ _ => True

/-- The manager after the write. -/
def apply (manager : SingleFileExtentManager) : PageWrite → SingleFileExtentManager
  | .block b => (singleFileBlockManagerWrite manager b).1
  | .header slot page =>
      { manager with
        fileHandle := (fileBufferWrite page manager.fileHandle (headerLocation slot)).2.1 }

/-- The page store after the write. -/
def record (store : RegionStore PageAddr UInt8) (w : PageWrite) : RegionStore PageAddr UInt8 :=
  Function.update store w.addr (some w.payload)

end PageWrite

/-- The page store: the payload that `writes` leaves at each page. -/
def lastPayload (writes : List PageWrite) : RegionStore PageAddr UInt8 :=
  writes.foldl PageWrite.record fun _ => none

/-- The pages of a store of payloads. -/
def pages (store : RegionStore PageAddr UInt8) : RegionStore PageAddr UInt8 :=
  fun a => (store a).map pageOf

theorem pages_of_some {store : RegionStore PageAddr UInt8} {a : PageAddr} {payload : List UInt8}
    (h : store a = some payload) : pages store a = some (pageOf payload) := by
  simp [pages, h]

theorem pages_record (store : RegionStore PageAddr UInt8) (w : PageWrite) :
    pages (w.record store)
      = Function.update (pages store) w.addr (some (pageOf w.payload)) := by
  funext b
  by_cases hb : b = w.addr
  · subst hb
    simp [pages, PageWrite.record]
  · simp [pages, PageWrite.record, hb]

/-- A page that a write stores has the size of its region. -/
theorem PageWrite.length_page (w : PageWrite) :
    (pageOf w.payload).length = pageLayout.size w.addr := by
  cases w with
  | block b =>
      rw [length_pageOf, PageWrite.payload, b.fb.length_buffer]
      rfl
  | header slot page =>
      rw [length_pageOf, PageWrite.payload, page.length_buffer]
      rfl

/-- A write that fits stores its page in its region, on a file whose writes all succeed. -/
theorem PageWrite.apply_fileHandle {manager : SingleFileExtentManager} {w : PageWrite}
    (hio : manager.fileHandle.outcomes = []) (hfit : w.Fits) :
    (w.apply manager).fileHandle =
      { content := pwrite manager.fileHandle.content (pageLayout.start w.addr)
          (pageOf w.payload)
        outcomes := [] } := by
  cases w with
  | block b =>
      have h := fileBufferWrite_eq b.fb hio (not_fseekFails_block hfit)
      rwa [blockLocation_toNat hfit] at h
  | header slot page =>
      have h := fileBufferWrite_eq page hio (not_fseekFails_header slot)
      rwa [headerLocation_toNat] at h

/-- The store speaks of pages that were written under an addressable id. -/
def StoreFits (store : RegionStore PageAddr UInt8) : Prop :=
  ∀ id payload, store (.block id) = some payload → Addressable id

theorem StoreFits.record {store : RegionStore PageAddr UInt8} (h : StoreFits store)
    {w : PageWrite} (hfit : w.Fits) : StoreFits (w.record store) := by
  intro id payload hid
  -- the store speaks of the block because of this write or because of an earlier one
  by_cases hw : PageAddr.block id = w.addr
  · cases w with
    | block b =>
        cases hw
        exact hfit
    | header slot page => cases hw
  · rw [PageWrite.record, Function.update_of_ne hw] at hid
    exact h id payload hid

/-- The simulation: each write that fits is one update of the page store. Induction on the writes,
with the store that the earlier writes left. -/
theorem payloads_refine : ∀ (writes : List PageWrite) (manager : SingleFileExtentManager)
    (store : RegionStore PageAddr UInt8), manager.fileHandle.outcomes = [] →
    (∀ w ∈ writes, w.Fits) → Refines pageLayout manager.fileHandle.content (pages store) →
    StoreFits store →
    Refines pageLayout (writes.foldl PageWrite.apply manager).fileHandle.content
        (pages (writes.foldl PageWrite.record store))
      ∧ StoreFits (writes.foldl PageWrite.record store) := by
  intro writes
  induction writes with
  | nil => exact fun _ _ _ _ hrefines hstore => ⟨hrefines, hstore⟩
  | cons w writes ih =>
      intro manager store hio hfits hrefines hstore
      have hfit : w.Fits := hfits w List.mem_cons_self
      -- one write of a page, in the file and in the store
      have hw := PageWrite.apply_fileHandle hio hfit
      refine ih (w.apply manager) _ (by rw [hw])
        (fun v hv => hfits v (List.mem_cons_of_mem _ hv)) ?_ (hstore.record hfit)
      rw [hw, pages_record]
      exact hrefines.write w.length_page

/-- The payload of a stored page fills its region behind the checksum. -/
theorem length_payload {content : List UInt8} {a : PageAddr} {payload : List UInt8}
    (h : Holds pageLayout content a (pageOf payload)) :
    payload.length = pageLayout.size a - FILE_BUFFER_HEADER_SIZE := by
  rw [← h.length_eq, length_pageOf, FILE_BUFFER_HEADER_SIZE, Nat.add_sub_cancel_left]

/-- After any sequence of page writes on a file whose writes all succeed, each block that was
written reads back with status 0 and the payload last written to it, and so does each header
page. -/
theorem pageStore_refinement (manager : SingleFileExtentManager)
    (hio : manager.fileHandle.outcomes = []) (writes : List PageWrite)
    (hfits : ∀ w ∈ writes, w.Fits) :
    let manager' := writes.foldl PageWrite.apply manager
    (∀ id payload, lastPayload writes (.block id) = some payload →
      ∀ fb : FileBuffer BLOCK_PAYLOAD,
        (fileBufferRead fb manager'.fileHandle (blockLocation id)).2 = 0 ∧
        (singleFileBlockManagerRead manager' { id, fb }).2.fb.buffer = payload) ∧
    (∀ slot payload, lastPayload writes (.header slot) = some payload →
      ∀ fb : FileBuffer HEADER_PAYLOAD,
        (fileBufferRead fb manager'.fileHandle (headerLocation slot)).2 = 0 ∧
        (fileBufferRead fb manager'.fileHandle (headerLocation slot)).1.buffer = payload) := by
  obtain ⟨hrefines, hstore⟩ := payloads_refine writes manager (fun _ => none) hio hfits
    (Refines.empty pageLayout _) (fun _ _ h => nomatch h)
  constructor
  · -- `read` ignores the status, so it is stated beside the payload
    intro id payload hlast fb
    have hid : Addressable id := hstore id payload hlast
    have hholds := hrefines (.block id) (pageOf payload) (pages_of_some hlast)
    have hlen : payload.length = BLOCK_PAYLOAD := length_payload hholds
    have hread := fileBufferRead_of_holds fb (not_fseekFails_block hid)
      (by rw [blockLocation_toNat hid]; exact hholds.read_eq) hlen
    exact ⟨hread.2, hread.1⟩
  · intro slot payload hlast fb
    have hholds := hrefines (.header slot) (pageOf payload) (pages_of_some hlast)
    have hlen : payload.length = HEADER_PAYLOAD := length_payload hholds
    have hread := fileBufferRead_of_holds fb (not_fseekFails_header slot)
      (by rw [headerLocation_toNat]; exact hholds.read_eq) hlen
    exact ⟨hread.2, hread.1⟩

/-- A block and a header page, each written twice, on a fresh file. -/
theorem pageStore_refinement_two_pages :
    let manager := managerZero { content := [], outcomes := [] }
    let block (b : UInt8) : Block :=
      { id := 5
        fb := { fileBufferCreate BLOCK_PAYLOAD with
          buffer := List.replicate BLOCK_PAYLOAD b, length_buffer := List.length_replicate } }
    let writes : List PageWrite :=
      [.block (block 1), .header 2 (fileBufferCreate HEADER_PAYLOAD), .block (block 2)]
    (singleFileBlockManagerRead (writes.foldl PageWrite.apply manager) (blockCreate 5)).2.fb.buffer
      = List.replicate BLOCK_PAYLOAD 2 := by
  intro manager block writes
  have hfits : ∀ w ∈ writes, w.Fits := by
    intro w hw
    simp only [writes, List.mem_cons, List.not_mem_nil, or_false] at hw
    rcases hw with rfl | rfl | rfl
    · show Addressable 5
      decide
    · trivial
    · show Addressable 5
      decide
  exact ((pageStore_refinement manager rfl writes hfits).1 5 _ (by
    simp [writes, block, lastPayload, PageWrite.record, PageWrite.addr, PageWrite.payload]) _).2

end MustDb.Proofs.Storage
