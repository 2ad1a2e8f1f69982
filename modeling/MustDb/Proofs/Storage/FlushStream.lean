import MustDb.Lib.Overlay
import MustDb.Proofs.Storage.MetaChain

/-!
# `MustDb.Proofs.Storage.FlushStream`: streams with explicit flushes

`metaBlockWriter_flush` is a public function, so a client can also flush its writer between two
writes. The flush stores the block and sets the offset back to the start of the block. The next
write goes over the bytes that the block already has.

So the block of a stream is an overlay (`MustDb.Lib.Overlay`): `placements` says at which offset of
the block each byte of the stream goes, and `StreamState` is the invariant of a writer over any
calls.

`flushes_lose_nothing_iff` says for which calls the flushes do no harm. `not_terminates` is about
the link of the block: a stream that comes to an end has one block, whose link is still zero, so no
stream ends in `INVALID_BLOCK`.
-/

set_option autoImplicit false

namespace MustDb.Proofs.Storage

open MustDb.Lib
open MustDb.Storage

/-! ### The client of a stream -/

/-- A call on the writer of a stream. -/
inductive StreamCall where
  | write (buffer : List UInt8)
  | flush
  deriving DecidableEq, Repr

/-- One call. -/
def streamCall (fuel : Nat) (manager : SingleFileExtentManager) (writer : MetaBlockWriter) :
    StreamCall → Except Fault (SingleFileExtentManager × MetaBlockWriter)
  | .write buffer => metaBlockWriterWriteData fuel manager writer buffer
  | .flush => .ok (metaBlockWriterFlush manager writer)

/-- The calls, in order. -/
def streamCalls (fuel : Nat) : List StreamCall → SingleFileExtentManager → MetaBlockWriter →
    Except Fault (SingleFileExtentManager × MetaBlockWriter)
  | [], manager, writer => .ok (manager, writer)
  | call :: calls, manager, writer => do
      let (manager, writer) ← streamCall fuel manager writer call
      streamCalls fuel calls manager writer

/-- A fresh writer, the calls, and the destruction of the writer: the manager after it and the id of
the first block. -/
def callStream (fuel : Nat) (manager : SingleFileExtentManager) (calls : List StreamCall) :
    Except Fault (SingleFileExtentManager × BlockId) := do
  let (manager, writer) := metaBlockWriterInit manager
  let blockId := writer.block.id
  let (manager, writer) ← streamCalls fuel calls manager writer
  return (metaBlockWriterDeinit manager writer, blockId)

/-- The bytes of the stream. -/
def written : List StreamCall → List UInt8
  | [] => []
  | .write buffer :: calls => buffer ++ written calls
  | .flush :: calls => written calls

/-! ### The block of a stream -/

/-- Where the next byte goes after the calls, from the offset `off` of the data of the block. -/
def nextOffset : Nat → List StreamCall → Nat
  | off, [] => off
  | off, .write buffer :: calls => nextOffset (off + buffer.length) calls
  | _, .flush :: calls => nextOffset 0 calls

/-- Where the bytes of the stream go in the data of the block, from the offset `off` on. -/
def placements : Nat → List StreamCall → List (Nat × UInt8)
  | _, [] => []
  | off, .write buffer :: calls => placeFrom off buffer ++ placements (off + buffer.length) calls
  | _, .flush :: calls => placements 0 calls

/-- The data of the block after the calls. -/
def blockAfter (calls : List StreamCall) : List UInt8 :=
  overlay (List.replicate STREAM_CAPACITY 0) (placements 0 calls)

/-- The payload of a block with a zero link. -/
def unlinked (data : List UInt8) : List UInt8 := List.replicate BLOCK_ID_SIZE 0 ++ data

theorem written_append (calls calls' : List StreamCall) :
    written (calls ++ calls') = written calls ++ written calls' := by
  induction calls with
  | nil => rfl
  | cons call calls ih =>
      cases call with
      | write buffer =>
          rw [List.cons_append, written, written, ih, List.append_assoc]
      | flush => exact ih

theorem nextOffset_append (off : Nat) (calls calls' : List StreamCall) :
    nextOffset off (calls ++ calls') = nextOffset (nextOffset off calls) calls' := by
  induction calls generalizing off with
  | nil => rfl
  | cons call calls ih =>
      cases call with
      | write buffer => exact ih _
      | flush => exact ih _

theorem placements_append (off : Nat) (calls calls' : List StreamCall) :
    placements off (calls ++ calls')
      = placements off calls ++ placements (nextOffset off calls) calls' := by
  induction calls generalizing off with
  | nil => rfl
  | cons call calls ih =>
      cases call with
      | write buffer =>
          rw [List.cons_append, placements, placements, ih, nextOffset, List.append_assoc]
      | flush => exact ih _

/-- The placements are the bytes of the stream, in order. -/
theorem map_snd_placements (off : Nat) (calls : List StreamCall) :
    (placements off calls).map Prod.snd = written calls := by
  induction calls generalizing off with
  | nil => rfl
  | cons call calls ih =>
      cases call with
      | write buffer => rw [placements, List.map_append, map_snd_placeFrom, ih, written]
      | flush => exact ih _

theorem length_placements (off : Nat) (calls : List StreamCall) :
    (placements off calls).length = (written calls).length := by
  rw [← map_snd_placements off calls, List.length_map]

/-- A flush only goes back. -/
theorem nextOffset_le (off : Nat) (calls : List StreamCall) :
    nextOffset off calls ≤ off + (written calls).length := by
  induction calls generalizing off with
  | nil => exact Nat.le_refl _
  | cons call calls ih =>
      cases call with
      | write buffer =>
          have h := ih (off + buffer.length)
          rw [nextOffset, written, List.length_append]
          omega
      | flush =>
          have h := ih 0
          rw [nextOffset, written]
          omega

@[simp] theorem length_blockAfter (calls : List StreamCall) :
    (blockAfter calls).length = STREAM_CAPACITY := by
  rw [blockAfter, length_overlay, List.length_replicate]

theorem length_unlinked {data : List UInt8} (h : data.length = STREAM_CAPACITY) :
    (unlinked data).length = BLOCK_PAYLOAD := by
  rw [unlinked, length_linked, h, blockPayload_eq]

/-- A write behind the link. -/
theorem pwrite_unlinked {data w : List UInt8} {off : Nat} (h : off + w.length ≤ data.length) :
    pwrite (unlinked data) (BLOCK_ID_SIZE + off) w = unlinked (pwrite data off w) := by
  have hbehind : pwrite (unlinked data) ((List.replicate BLOCK_ID_SIZE (0 : UInt8)).length + off) w
      = unlinked (pwrite data off w) := pwrite_append_right h
  rwa [List.length_replicate] at hbehind

/-- One more write, in the data of the block. -/
theorem pwrite_blockAfter {calls : List StreamCall} {w : List UInt8}
    (h : nextOffset 0 calls + w.length ≤ STREAM_CAPACITY) :
    pwrite (blockAfter calls) (nextOffset 0 calls) w = blockAfter (calls ++ [.write w]) := by
  rw [pwrite_eq_overlay (by rwa [length_blockAfter]), blockAfter, blockAfter, placements_append,
    overlay_append, placements, placements, List.append_nil]

theorem blockAfter_flush (calls : List StreamCall) :
    blockAfter (calls ++ [.flush]) = blockAfter calls := by
  rw [blockAfter, blockAfter, placements_append, overlay_append, placements, placements]
  rfl

/-! ### The writer of a stream -/

/-- The writer after the calls `calls`, which no write left. `manager₁` is the manager that made its
block. The block is in the file when the writer is at its start. -/
structure StreamState (manager₁ : SingleFileExtentManager) (id : BlockId)
    (calls : List StreamCall) (manager : SingleFileExtentManager) (writer : MetaBlockWriter) :
    Prop where
  manager_eq : manager = { manager₁ with fileHandle := manager.fileHandle }
  io : manager.fileHandle.outcomes = []
  id_eq : writer.block.id = id
  offset_eq : writer.offset = BLOCK_ID_SIZE + nextOffset 0 calls
  offset_le : nextOffset 0 calls ≤ STREAM_CAPACITY
  buffer_eq : writer.block.fb.buffer = unlinked (blockAfter calls)
  flushed : nextOffset 0 calls = 0 → written calls ≠ [] →
    Holds pageLayout manager.fileHandle.content (.block id) (pageOf (unlinked (blockAfter calls)))

section State
variable {manager₁ : SingleFileExtentManager} {id : BlockId} {calls : List StreamCall}
  {manager : SingleFileExtentManager} {writer : MetaBlockWriter}

/-- A fresh writer. -/
theorem streamState_init {manager : SingleFileExtentManager}
    (hio : manager.fileHandle.outcomes = []) :
    StreamState (afterGetFree manager) (nextFreeBlockId manager) []
      (metaBlockWriterInit manager).1 (metaBlockWriterInit manager).2 where
  manager_eq := rfl
  io := by
    show (afterGetFree manager).fileHandle.outcomes = []
    rw [afterGetFree_eq]
    exact hio
  id_eq := rfl
  offset_eq := rfl
  offset_le := Nat.zero_le _
  buffer_eq := by
    show List.replicate BLOCK_PAYLOAD 0 = unlinked (List.replicate STREAM_CAPACITY 0)
    rw [unlinked, ← List.replicate_add, blockPayload_eq]
  flushed _ hne := absurd rfl hne

/-- A write that ends inside the block. -/
theorem StreamState.write_ok (h : StreamState manager₁ id calls manager writer) (fuel : Nat)
    {w : List UInt8} (hfit : nextOffset 0 calls + w.length ≤ STREAM_CAPACITY) :
    ∃ writer', streamCall fuel manager writer (.write w) = .ok (manager, writer') ∧
      StreamState manager₁ id (calls ++ [.write w]) manager writer' := by
  have hend : writer.offset + w.length ≤ BLOCK_PAYLOAD := by
    rw [h.offset_eq, blockPayload_eq]
    omega
  have hnext : nextOffset 0 (calls ++ [.write w]) = nextOffset 0 calls + w.length := by
    rw [nextOffset_append]
    rfl
  obtain ⟨fb, hrun, hbuffer⟩ := writeData_inside fuel manager hend
  refine ⟨_, hrun, h.manager_eq, h.io, h.id_eq, ?_, ?_, ?_, ?_⟩
  · rw [hnext, ← Nat.add_assoc, ← h.offset_eq]
  · rw [hnext]
    exact hfit
  · rw [hbuffer, h.buffer_eq, h.offset_eq, pwrite_unlinked (by rwa [length_blockAfter]),
      pwrite_blockAfter hfit]
  · intro hzero hne
    -- nothing was written, and the block is as the last flush left it
    have hnil : w = [] := List.length_eq_zero_iff.mp (by omega)
    rw [hnil, written_append] at hne
    rw [← pwrite_blockAfter hfit, hnil, pwrite_nil]
    exact h.flushed (by omega) (by simpa [written] using hne)

/-- A write past the end of the block does not return. -/
theorem StreamState.write_error (h : StreamState manager₁ id calls manager writer) (fuel : Nat)
    {w : List UInt8} (hcross : STREAM_CAPACITY < nextOffset 0 calls + w.length) :
    ∃ e, streamCall fuel manager writer (.write w) = .error e := by
  have hle := h.offset_le
  refine writeData_past_end fuel manager ?_ ?_ <;> rw [h.offset_eq, blockPayload_eq] <;> omega

/-- A flush, in the course of a stream or at its end. -/
theorem StreamState.flush (h : StreamState manager₁ id calls manager writer)
    (hid : Addressable id) :
    StreamState manager₁ id (calls ++ [.flush]) (metaBlockWriterFlush manager writer).1
      (metaBlockWriterFlush manager writer).2 := by
  have hnext : nextOffset 0 (calls ++ [.flush]) = 0 := by
    rw [nextOffset_append]
    rfl
  have hwritten : written (calls ++ [.flush]) = written calls := by
    rw [written_append]
    exact List.append_nil _
  by_cases hoff : writer.offset > BLOCK_ID_SIZE
  · -- the block goes to the file
    have hpage : (fileBufferWrite writer.block.fb manager.fileHandle
        (blockLocation writer.block.id)).2.1 =
        { content := pwrite manager.fileHandle.content (pageLayout.start (.block id))
            (pageOf (unlinked (blockAfter calls))), outcomes := [] } := by
      rw [h.id_eq, fileBufferWrite_eq _ h.io (not_fseekFails_block hid), h.buffer_eq,
        blockLocation_toNat hid]
    -- the page has the size of the block in the layout, so the block holds it
    have hlen : (pageOf (unlinked (blockAfter calls))).length = pageLayout.size (.block id) := by
      rw [length_pageOf, length_unlinked (length_blockAfter calls)]
      rfl
    rw [metaBlockWriterFlush, if_pos hoff]
    refine ⟨?_, ?_, h.id_eq, ?_, ?_, ?_, ?_⟩
    · rw [h.manager_eq]
      rfl
    · show (fileBufferWrite _ _ _).2.1.outcomes = []
      rw [hpage]
    · rw [hnext]
      rfl
    · rw [hnext]
      exact Nat.zero_le _
    · rw [blockAfter_flush]
      exact h.buffer_eq
    · intro _ _
      show Holds _ (fileBufferWrite _ _ _).2.1.content _ _
      rw [hpage, blockAfter_flush]
      exact Holds.write_same _ hlen
  · -- the writer is at the start of the block, and nothing happens
    have hzero : nextOffset 0 calls = 0 := by
      rw [h.offset_eq] at hoff
      omega
    rw [metaBlockWriterFlush, if_neg hoff]
    refine ⟨h.manager_eq, h.io, h.id_eq, ?_, ?_, ?_, ?_⟩
    · rw [hnext, h.offset_eq, hzero]
    · rw [hnext]
      exact Nat.zero_le _
    · rw [blockAfter_flush]
      exact h.buffer_eq
    · rw [hwritten, blockAfter_flush]
      exact fun _ => h.flushed hzero

/-- The rest of the calls: either all of them return, or one of them does not, because more bytes
were written than the block holds. -/
theorem StreamState.calls_cases (hid : Addressable id) (fuel : Nat) :
    ∀ (rest calls : List StreamCall) {manager : SingleFileExtentManager}
      {writer : MetaBlockWriter}, StreamState manager₁ id calls manager writer →
      (∃ manager' writer', streamCalls fuel rest manager writer = .ok (manager', writer') ∧
          StreamState manager₁ id (calls ++ rest) manager' writer') ∨
        (∃ e, streamCalls fuel rest manager writer = .error e) ∧
          STREAM_CAPACITY < (written (calls ++ rest)).length := by
  intro rest
  induction rest with
  | nil =>
      intro calls manager writer h
      exact Or.inl ⟨manager, writer, rfl, by rwa [List.append_nil]⟩
  | cons call rest ih =>
      intro calls manager writer h
      have happend : calls ++ call :: rest = (calls ++ [call]) ++ rest := by simp
      cases call with
      | flush =>
          rw [happend]
          exact ih _ (h.flush hid)
      | write w =>
          by_cases hfit : nextOffset 0 calls + w.length ≤ STREAM_CAPACITY
          · -- the write ends in the block, and the rest goes on from there
            obtain ⟨writer', hrun, h'⟩ := h.write_ok fuel hfit
            rw [happend, streamCalls, hrun]
            exact ih _ h'
          · obtain ⟨e, he⟩ := h.write_error fuel (w := w) (by omega)
            refine Or.inr ⟨⟨e, by rw [streamCalls, he, error_bind]⟩, ?_⟩
            -- the offset is not behind the number of bytes that were written, so they are too many
            have hle := nextOffset_le 0 calls
            rw [written_append, written, List.length_append, List.length_append]
            omega

end State

section Stream
variable (fuel : Nat) {manager : SingleFileExtentManager}
  (hio : manager.fileHandle.outcomes = []) (hid : Addressable (nextFreeBlockId manager))
include hio hid

/-- What a client gets: either the call of the stream does not return, because more bytes were
written than a block holds, or the writer took one block, and the block is in the file. -/
theorem callStream_cases (calls : List StreamCall) :
    (∃ handle, callStream fuel manager calls
          = .ok ({ afterGetFree manager with fileHandle := handle }, nextFreeBlockId manager) ∧
        (written calls ≠ [] → Holds pageLayout handle.content (.block (nextFreeBlockId manager))
          (pageOf (unlinked (blockAfter calls))))) ∨
      (∃ e, callStream fuel manager calls = .error e) ∧
        STREAM_CAPACITY < (written calls).length := by
  rcases (streamState_init hio).calls_cases hid fuel calls [] with
    ⟨manager', writer', hrun, hstate⟩ | ⟨⟨e, he⟩, hlong⟩
  · rw [List.nil_append] at hstate
    -- the end of the writer is one more flush
    have hend := hstate.flush hid
    have hzero : nextOffset 0 (calls ++ [StreamCall.flush]) = 0 := by
      rw [nextOffset_append]
      rfl
    refine Or.inl ⟨(metaBlockWriterDeinit manager' writer').fileHandle, ?_, fun hne => ?_⟩
    · rw [callStream]
      simp only [hrun, ok_bind]
      rw [metaBlockWriterDeinit, ← hend.manager_eq]
      rfl
    · have hpage := hend.flushed hzero (by rwa [written_append, written, written, List.append_nil])
      rwa [blockAfter_flush] at hpage
  · exact Or.inr ⟨⟨e, by rw [callStream]; simp only [he, error_bind]⟩, hlong⟩

end Stream

/-! ### Flushes in the course of a stream -/

/-- Every call returns, and a reader at the first block that asks for as many bytes as were written,
in chunks of any sizes, gets `bytes`. -/
def ReadsBack (manager : SingleFileExtentManager) (calls : List StreamCall)
    (bytes : List UInt8) : Prop :=
  ∃ fuel manager' blockId, callStream fuel manager calls = .ok (manager', blockId) ∧
    ∀ rs : List Nat, rs.sum = (written calls).length →
      ∃ chunks, readStream fuel manager' blockId rs = .ok chunks ∧
        chunks.map List.length = rs ∧ chunks.flatten = bytes

/-- The calls without the flushes. -/
def withoutFlushes (calls : List StreamCall) : List StreamCall :=
  calls.filter fun call => call ≠ .flush

/-- The stream reads back as it does without its flushes. -/
def FlushesLoseNothing (manager : SingleFileExtentManager) (calls : List StreamCall) : Prop :=
  ∀ bytes, ReadsBack manager (withoutFlushes calls) bytes ↔ ReadsBack manager calls bytes

/-- Each byte that a flush sends to another offset of the block than its own position in the stream
is zero, and so is the byte of the stream at that offset. -/
def FlushesHarmless (calls : List StreamCall) : Prop := Harmless (placements 0 calls)

instance (calls : List StreamCall) : Decidable (FlushesHarmless calls) := by
  unfold FlushesHarmless
  infer_instance

/-- No byte goes behind its position in the stream. -/
theorem placements_offset_le (off : Nat) (calls : List StreamCall) {p : Nat} {w : Nat × UInt8}
    (hp : (placements off calls)[p]? = some w) : w.1 ≤ off + p := by
  induction calls generalizing off p with
  | nil => cases hp
  | cons call calls ih =>
      cases call with
      | flush =>
          -- a flush goes back to the start of the block, and the position does not
          have h := ih 0 hp
          omega
      | write buffer =>
          rw [placements, List.getElem?_append, length_placeFrom] at hp
          split at hp
          · rw [getElem?_placeFrom, Option.map_eq_some_iff] at hp
            obtain ⟨b, -, rfl⟩ := hp
            exact Nat.le_refl _
          · have h := ih _ hp
            omega

/-- The offset in the block grows at most as much as the position in the stream. -/
theorem placements_step (off : Nat) (calls : List StreamCall) {p q : Nat} {v w : Nat × UInt8}
    (hpq : p ≤ q) (hp : (placements off calls)[p]? = some v)
    (hq : (placements off calls)[q]? = some w) : w.1 + p ≤ v.1 + q := by
  induction calls generalizing off p q with
  | nil => cases hp
  | cons call calls ih =>
      cases call with
      | flush => exact ih 0 hpq hp hq
      | write buffer =>
          rw [placements, List.getElem?_append, length_placeFrom] at hp hq
          split at hp
          · -- `p` is in this write, and `q` is in it too or in a later one
            rw [getElem?_placeFrom, Option.map_eq_some_iff] at hp
            obtain ⟨b, -, rfl⟩ := hp
            have hle : w.1 ≤ off + q := by
              split at hq
              · rw [getElem?_placeFrom, Option.map_eq_some_iff] at hq
                obtain ⟨b', -, rfl⟩ := hq
                exact Nat.le_refl _
              · have h := placements_offset_le _ calls hq
                omega
            simp only
            omega
          · rw [if_neg (by omega)] at hq
            have h := ih _ (Nat.sub_le_sub_right hpq _) hp hq
            omega

theorem steps_placements (calls : List StreamCall) : Steps (placements 0 calls) where
  start w hw := by
    have h := placements_offset_le 0 calls hw
    omega
  step p q v w hpq hp hq := placements_step 0 calls hpq hp hq

/-- Without flushes every byte goes to its own position. -/
theorem placements_withoutFlushes (off : Nat) (calls : List StreamCall) :
    placements off (withoutFlushes calls) = placeFrom off (written calls) := by
  induction calls generalizing off with
  | nil => rfl
  | cons call calls ih =>
      cases call with
      | flush => exact ih off
      | write buffer =>
          show placements off (.write buffer :: withoutFlushes calls) = _
          rw [placements, ih, written, placeFrom_append]

theorem written_withoutFlushes (calls : List StreamCall) :
    written (withoutFlushes calls) = written calls := by
  rw [← map_snd_placements 0, placements_withoutFlushes, map_snd_placeFrom]

/-- The block starts with the stream exactly when the flushes are harmless. -/
theorem take_blockAfter_eq_iff {calls : List StreamCall}
    (hfit : (written calls).length ≤ STREAM_CAPACITY) :
    (blockAfter calls).take (written calls).length = written calls ↔ FlushesHarmless calls := by
  have hlen : (placements 0 calls).length ≤ STREAM_CAPACITY := by rwa [length_placements]
  have hiff := take_overlay_eq_iff (steps_placements calls) hlen
  rwa [length_placements, map_snd_placements] at hiff

section ReadBack
variable {manager : SingleFileExtentManager} (hio : manager.fileHandle.outcomes = [])
  (hid : Addressable (nextFreeBlockId manager)) {calls : List StreamCall}
  (hfit : (written calls).length ≤ STREAM_CAPACITY)
include hio hid hfit

/-- A stream for one block reads back as the start of the block. -/
theorem readsBack_block (fuel : Nat) :
    ∃ manager', callStream fuel manager calls = .ok (manager', nextFreeBlockId manager) ∧
      ∀ rs : List Nat, rs.sum = (written calls).length →
        ∃ chunks, readStream fuel manager' (nextFreeBlockId manager) rs = .ok chunks ∧
          chunks.map List.length = rs ∧
          chunks.flatten = (blockAfter calls).take (written calls).length := by
  rcases callStream_cases fuel hio hid calls with ⟨handle, hrun, hpage⟩ | ⟨-, hlong⟩
  · refine ⟨_, hrun, fun rs hsum => ?_⟩
    obtain ⟨chunks, hread, hsizes, hbytes⟩ := readStream_first_block fuel
      { afterGetFree manager with fileHandle := handle } (nextFreeBlockId manager)
      (hsum.trans_le hfit)
    refine ⟨chunks, hread, hsizes, ?_⟩
    rw [hbytes, hsum]
    -- an empty stream writes no page, and then the reader is asked for nothing
    by_cases hempty : written calls = []
    · rw [hempty]
      rfl
    · rw [readerInit_payload hid (length_unlinked (length_blockAfter calls)) (hpage hempty), pread,
        unlinked, List.drop_left' List.length_replicate]
  · omega

theorem readsBack_iff (bytes : List UInt8) :
    ReadsBack manager calls bytes
      ↔ (blockAfter calls).take (written calls).length = bytes := by
  constructor
  · rintro ⟨fuel, manager₁, blockId, hrun, hread⟩
    obtain ⟨manager', hrun', hread'⟩ := readsBack_block hio hid hfit fuel
    rw [hrun] at hrun'
    cases hrun'
    -- one read of all the bytes
    obtain ⟨chunks, hchunks, -, hbytes⟩ := hread [(written calls).length] List.sum_singleton
    obtain ⟨chunks', hchunks', -, hbytes'⟩ := hread' [(written calls).length] List.sum_singleton
    rw [hchunks] at hchunks'
    cases hchunks'
    rw [← hbytes', hbytes]
  · rintro rfl
    obtain ⟨manager', hrun, hread⟩ := readsBack_block hio hid hfit 0
    exact ⟨0, manager', _, hrun, hread⟩

end ReadBack

/-- Flushes in the course of a stream for one block lose nothing exactly when they are harmless. -/
theorem flushes_lose_nothing_iff (manager : SingleFileExtentManager)
    (hio : manager.fileHandle.outcomes = []) (hid : Addressable (nextFreeBlockId manager))
    (calls : List StreamCall) (hfit : (written calls).length ≤ STREAM_CAPACITY) :
    FlushesLoseNothing manager calls ↔ FlushesHarmless calls := by
  have hfit' : (written (withoutFlushes calls)).length ≤ STREAM_CAPACITY := by
    rwa [written_withoutFlushes]
  -- without flushes every byte is at its own position, so the stream reads back as it is
  have hplain : (blockAfter (withoutFlushes calls)).take (written calls).length
      = written calls := by
    have hiff := take_blockAfter_eq_iff hfit'
    rw [written_withoutFlushes] at hiff
    refine hiff.mpr ?_
    rw [FlushesHarmless, placements_withoutFlushes]
    exact harmless_placeFrom _
  rw [← take_blockAfter_eq_iff hfit]
  constructor
  · intro h
    have hback := (h (written calls)).mp
      ((readsBack_iff hio hid hfit' _).mpr (by rw [written_withoutFlushes, hplain]))
    exact (readsBack_iff hio hid hfit _).mp hback
  · intro h bytes
    rw [readsBack_iff hio hid hfit', readsBack_iff hio hid hfit, written_withoutFlushes, hplain, h]

/-- A zero that goes over a zero. -/
theorem flushes_lose_nothing_iff_zero :
    FlushesLoseNothing (managerZero { content := [], outcomes := [] })
      [.write [0, 1], .flush, .write [0]] :=
  (flushes_lose_nothing_iff (managerZero { content := [], outcomes := [] }) rfl (by decide)
    [.write [0, 1], .flush, .write [0]] (by decide)).mpr (by decide)

/-- A byte, a flush and another byte, on the manager of a fresh database. -/
theorem flush_loses_first_byte :
    ∃ manager, createNewDatabase 0 { content := [], outcomes := [] } true = .ok (some manager) ∧
      ¬ FlushesLoseNothing manager [.write [1], .flush, .write [2]] := by
  refine ⟨freshManager, createNewDatabase_fresh 0 [], fun h => ?_⟩
  have hid : Addressable (nextFreeBlockId freshManager) := by decide
  have hplain : ReadsBack freshManager [.write [1], .write [2]] [1, 2] :=
    (readsBack_iff rfl hid (by decide) [1, 2]).mpr (by decide)
  have hback := (readsBack_iff rfl hid (by decide) [1, 2]).mp ((h [1, 2]).mp hplain)
  exact absurd hback (by decide)

/-! ### The end of a stream -/

/-- The ids that `get_free_block_id` returned between two states of a manager, oldest first: the end
of the free list, then the ids from `max_block` on. -/
def blocksTaken (before after : SingleFileExtentManager) : List BlockId :=
  (before.freeList.drop after.freeList.length).reverse ++
    (List.range (after.maxBlock - before.maxBlock).toNat).map fun k =>
      before.maxBlock + UInt64.ofNat k

/-- The stream comes to an end, and the links from its first block visit the blocks that the writer
took, in order, and end in `INVALID_BLOCK`. -/
def Terminates (manager : SingleFileExtentManager) (calls : List StreamCall) : Prop :=
  ∃ fuel manager' blockId, callStream fuel manager calls = .ok (manager', blockId) ∧
    (blocksTaken manager manager').head? = some blockId ∧
    (blocksTaken manager manager').IsChain (fun id next => linkOf manager'.fileHandle id = next) ∧
    ∀ last, (blocksTaken manager manager').getLast? = some last →
      linkOf manager'.fileHandle last = INVALID_BLOCK

/-- A writer that took one id. -/
theorem blocksTaken_afterGetFree (manager : SingleFileExtentManager) (handle : FileHandle) :
    blocksTaken manager { afterGetFree manager with fileHandle := handle }
      = [nextFreeBlockId manager] := by
  rw [blocksTaken, afterGetFree_eq, nextFreeBlockId, singleFileBlockManagerGetFreeBlockId]
  cases hlast : manager.freeList.getLast? with
  | none =>
      have hnil : manager.freeList = [] := List.getLast?_eq_none_iff.mp hlast
      simp [hnil]
  | some blockId =>
      obtain ⟨ids, hids⟩ := List.getLast?_eq_some_iff.mp hlast
      simp [hids]

/-- The link of a stream that is in the file. -/
theorem linkOf_of_holds {handle : FileHandle} {id : BlockId} (hid : Addressable id)
    {data : List UInt8}
    (hpage : Holds pageLayout handle.content (.block id) (pageOf (unlinked data))) :
    linkOf handle id = 0 := by
  have hlink : (unlinked data).take 8 = List.replicate 8 0 :=
    List.take_left' List.length_replicate
  rw [linkOf, blockPayload_of_holds hid hpage, u64OfBytes, hlink]
  decide

/-- A stream that comes to an end has one block, and its link is zero. -/
theorem link_eq_zero {manager : SingleFileExtentManager} (hio : manager.fileHandle.outcomes = [])
    (hid : Addressable (nextFreeBlockId manager)) {calls : List StreamCall}
    (hne : written calls ≠ []) {fuel : Nat} {manager' : SingleFileExtentManager}
    {blockId : BlockId} (hrun : callStream fuel manager calls = .ok (manager', blockId)) :
    blocksTaken manager manager' = [blockId] ∧ linkOf manager'.fileHandle blockId = 0 := by
  rcases callStream_cases fuel hio hid calls with ⟨handle, hrun', hpage⟩ | ⟨⟨e, he⟩, -⟩
  · rw [hrun] at hrun'
    cases hrun'
    exact ⟨blocksTaken_afterGetFree manager handle, linkOf_of_holds hid (hpage hne)⟩
  · rw [hrun] at he
    cases he

/-- No stream with data ends in `INVALID_BLOCK`. -/
theorem not_terminates (manager : SingleFileExtentManager)
    (hio : manager.fileHandle.outcomes = []) (hid : Addressable (nextFreeBlockId manager))
    (calls : List StreamCall) (hne : written calls ≠ []) : ¬ Terminates manager calls := by
  rintro ⟨fuel, manager', blockId, hrun, -, -, hend⟩
  obtain ⟨htaken, hlink⟩ := link_eq_zero hio hid hne hrun
  have hinvalid := hend blockId (by rw [htaken]; rfl)
  rw [hlink] at hinvalid
  exact absurd hinvalid (by decide)

/-- One byte on an empty file. -/
theorem not_terminates_one_byte :
    ¬ Terminates (managerZero { content := [], outcomes := [] }) [.write [1]] :=
  not_terminates (managerZero { content := [], outcomes := [] }) rfl (by decide) [.write [1]]
    (by decide)

/-- The first stream of a fresh database, with one byte: block 0 links to itself. -/
theorem first_stream_links_to_itself :
    ∃ manager, createNewDatabase 0 { content := [], outcomes := [] } true = .ok (some manager) ∧
      (∃ manager', callStream 0 manager [.write [1]] = .ok (manager', 0) ∧
        linkOf manager'.fileHandle 0 = 0) ∧
      ¬ Terminates manager [.write [1]] := by
  have hid : Addressable (nextFreeBlockId freshManager) := by decide
  have hlink {fuel : Nat} {manager' : SingleFileExtentManager} {blockId : BlockId}
      (hrun : callStream fuel freshManager [.write [1]] = .ok (manager', blockId)) :=
    link_eq_zero rfl hid (by decide) hrun
  obtain ⟨manager', hrun, -⟩ := @readsBack_block freshManager rfl hid [.write [1]]
    (by decide) 0
  refine ⟨freshManager, createNewDatabase_fresh 0 [], ⟨manager', hrun, (hlink hrun).2⟩, ?_⟩
  rintro ⟨fuel, manager₂, blockId, hrun₂, -, -, hend⟩
  obtain ⟨htaken, hzero⟩ := hlink hrun₂
  have hinvalid := hend blockId (by rw [htaken]; rfl)
  rw [hzero] at hinvalid
  exact absurd hinvalid (by decide)

end MustDb.Proofs.Storage
