import Mathlib.Order.Interval.Finset.Nat
import MustDb.Lib.FinmapEntries
import MustDb.Lib.Run
import MustDb.Utils.Alloc

/-!
# `MustDb.Proofs.Utils.Alloc`: the statistics of the allocator are exact

A client keeps a ledger: the pointers that the calls gave it, with the sizes that it last asked
for. It takes the ledger from its calls and their results alone. `accounting_exact` compares it
with the statistics after any calls: `bytes_live` is the sum of the ledger, `alloc_count` minus
`free_count` is the number of its entries, and `bytes_peak` is the greatest `bytes_live` so far.

What a call can do is said once (`Effect`): nothing, a new block, a block with another size, or one
block less. `sessionStep_effect` goes through the paths of the functions and finds one of the four.
`Effect.books` shows that each of them keeps the books (`Books`), and does not look at the
functions.
-/

set_option autoImplicit false

namespace MustDb.Proofs.Utils

open MustDb.Lib
open MustDb.Utils

/-! ### The ledger -/

/-- The live allocations, as a client knows them: pointers and sizes. -/
abbrev Ledger := Finmap fun _ : UInt64 => UInt64

/-- A pointer that a call returned. -/
def Ledger.give (ledger : Ledger) (size : UInt64) : Option UInt64 → Ledger
  | none => ledger
  | some ptr => ledger.insert ptr size

/-- A pointer that a call took back. -/
def Ledger.take (ledger : Ledger) : Option UInt64 → Ledger
  | none => ledger
  | some ptr => ledger.erase ptr

/-- The ledger after a call and its result. -/
def recordCall (ledger : Ledger) : AllocCall → Option UInt64 → Ledger
  | .mmalloc size, result => ledger.give size result
  | .mcalloc count size, result => ledger.give (count * size) result
  | .mrealloc ptr size, none => if size = 0 then ledger.take ptr else ledger
  | .mrealloc ptr size, some new => (ledger.take ptr).give size (some new)
  | .mfree ptr, _ => ledger.take ptr
  | .setMemFaultCountdown _, _ => ledger
  | .clearMemFault, _ => ledger

/-- The sum of the sizes. -/
def liveBytes (ledger : Ledger) : Nat := weight UInt64.toNat ledger

/-- The number of live allocations. -/
def liveCount (ledger : Ledger) : Nat := ledger.keys.card

/-- The allocator and its client. -/
structure Session where
  allocator : Allocator
  ledger : Ledger

/-- A fresh process. -/
def Session.initial : Session where
  allocator := .initial
  ledger := ∅

/-- One call, with the answer of the C library. -/
def sessionStep (faults : Bool) (s : Session) (op : AllocCall × MallocAnswer) :
    Except Fault Session := do
  let (allocator, result) ← allocStep faults s.allocator op.1 op.2
  return { allocator, ledger := recordCall s.ledger op.1 result }

/-! ### The calls that a client may make -/

/-- The pointer that a call is about. -/
def argument : AllocCall → Option UInt64
  | .mrealloc ptr _ => ptr
  | .mfree ptr => ptr
  | _ => none

/-- The call is about a live pointer or `NULL`, the C library answers it with memory that is not in
use, and the live bytes after it are below `2 ^ 64`. Only `realloc` can answer with the block that
it was called for. The address behind a header is never `NULL`. -/
structure LegalCall (faults : Bool) (s : Session) (op : AllocCall × MallocAnswer) : Prop where
  pointer : ∀ ptr, argument op.1 = some ptr → ptr ∈ s.ledger
  answer : ∀ hdr fresh, op.2 = some (hdr, fresh) →
    hdr + ALLOC_HDR_SIZE ≠ 0 ∧
      (hdr ∈ s.allocator.blocks → ∃ size, op.1 = .mrealloc (some (hdr + ALLOC_HDR_SIZE)) size)
  fits : ∀ s', sessionStep faults s op = .ok s' → liveBytes s'.ledger < 2 ^ 64

/-! ### The statistics -/

section Stats
variable {stats : MAllocStats} {ledger : Ledger}

/-- The statistics are those of the ledger. -/
structure Exact (stats : MAllocStats) (ledger : Ledger) : Prop where
  live_eq : stats.bytesLive.toNat = liveBytes ledger
  count_eq : (stats.allocCount - stats.freeCount).toNat = liveCount ledger
  le_peak : stats.bytesLive.toNat ≤ stats.bytesPeak.toNat

/-- The peak has followed the live bytes. -/
def PeakFollows (stats stats' : MAllocStats) : Prop :=
  stats'.bytesPeak.toNat = max stats.bytesPeak.toNat stats'.bytesLive.toNat

/-- `update_mem_peak` touches the peak alone, and takes the maximum. -/
theorem updateMemPeak_eq (stats : MAllocStats) (live : UInt64) :
    ∃ peak, updateMemPeak stats live = { stats with bytesPeak := peak } ∧
      peak.toNat = max stats.bytesPeak.toNat live.toNat := by
  unfold updateMemPeak
  split
  · rename_i h
    have hlt := UInt64.lt_iff_toNat_lt.mp h
    exact ⟨live, rfl, (Nat.max_eq_right hlt.le).symm⟩
  · rename_i h
    have hle := Nat.not_lt.mp (fun hlt => h (UInt64.lt_iff_toNat_lt.mpr hlt))
    exact ⟨stats.bytesPeak, rfl, (Nat.max_eq_left hle).symm⟩

/-- The counters after more live bytes. -/
theorem addMemStatsLive_eq (stats : MAllocStats) (size : UInt64)
    (h : stats.bytesLive.toNat + size.toNat < 2 ^ 64) :
    ∃ live peak, addMemStatsLive stats size
        = { stats with bytesLive := live, bytesPeak := peak } ∧
      live.toNat = stats.bytesLive.toNat + size.toNat ∧
      peak.toNat = max stats.bytesPeak.toNat live.toNat := by
  obtain ⟨peak, hpeak, hmax⟩ := updateMemPeak_eq
    { stats with bytesLive := stats.bytesLive + size } (stats.bytesLive + size)
  refine ⟨stats.bytesLive + size, peak, hpeak, ?_, hmax⟩
  rw [UInt64.toNat_add, Nat.mod_eq_of_lt h]

/-- The counters after fewer live bytes. The subtraction does not saturate. -/
theorem subMemStatsLive_eq (stats : MAllocStats) (size : UInt64)
    (h : size.toNat ≤ stats.bytesLive.toNat) :
    ∃ live, subMemStatsLive stats size = { stats with bytesLive := live } ∧
      live.toNat = stats.bytesLive.toNat - size.toNat := by
  have hle : size ≤ stats.bytesLive := UInt64.le_iff_toNat_le.mpr h
  exact ⟨stats.bytesLive - size, by rw [subMemStatsLive, if_pos hle],
    UInt64.toNat_sub_of_le _ _ hle⟩

/-- One more allocation. -/
theorem toNat_succ_sub {a f : UInt64} {n : Nat} (h : (a - f).toNat = n) (hn : 1 + n < 2 ^ 64) :
    (a + 1 - f).toNat = 1 + n := by
  rw [UInt64.toNat_sub] at h
  rw [UInt64.toNat_sub, UInt64.toNat_add, UInt64.toNat_one]
  have ha := a.toNat_lt
  have hf := f.toNat_lt
  omega

/-- One more call of `free`. -/
theorem toNat_sub_succ {a f : UInt64} {n : Nat} (h : (a - f).toNat = 1 + n) :
    (a - (f + 1)).toNat = n := by
  rw [UInt64.toNat_sub] at h
  rw [UInt64.toNat_sub, UInt64.toNat_add, UInt64.toNat_one]
  have ha := a.toNat_lt
  have hf := f.toNat_lt
  omega

theorem liveBytes_insert {ptr : UInt64} (hnew : ptr ∉ ledger) (size : UInt64) :
    liveBytes (ledger.insert ptr size) = size.toNat + liveBytes ledger :=
  weight_insert UInt64.toNat hnew

theorem liveCount_insert {ptr : UInt64} (hnew : ptr ∉ ledger) (size : UInt64) :
    liveCount (ledger.insert ptr size) = 1 + liveCount ledger := by
  rw [liveCount, liveCount, ← weight_one, ← weight_one, weight_insert _ hnew]

theorem liveBytes_erase {ptr size : UInt64} (hptr : ledger.lookup ptr = some size) :
    liveBytes ledger = size.toNat + liveBytes (ledger.erase ptr) :=
  weight_erase UInt64.toNat hptr

theorem liveCount_erase {ptr size : UInt64} (hptr : ledger.lookup ptr = some size) :
    liveCount ledger = 1 + liveCount (ledger.erase ptr) := by
  rw [liveCount, liveCount, ← weight_one, ← weight_one, weight_erase _ hptr]

/-- A new allocation. -/
theorem Exact.alloc (h : Exact stats ledger) {ptr size : UInt64} (hnew : ptr ∉ ledger)
    (hbytes : liveBytes (ledger.insert ptr size) < 2 ^ 64)
    (hcount : liveCount (ledger.insert ptr size) < 2 ^ 64) :
    Exact (allocMemStats stats size) (ledger.insert ptr size) ∧
      PeakFollows stats (allocMemStats stats size) := by
  have hlive := h.live_eq
  rw [liveBytes_insert hnew] at hbytes
  rw [liveCount_insert hnew] at hcount
  -- the new sum fits in 64 bits, so the addition does not wrap
  obtain ⟨live, peak, hadd, hlive', hpeak⟩ :=
    addMemStatsLive_eq { stats with allocCount := stats.allocCount + 1 } size
      (by simp only; omega)
  simp only at hlive' hpeak
  rw [allocMemStats, hadd]
  refine ⟨⟨?_, ?_, hpeak ▸ Nat.le_max_right _ _⟩, hpeak⟩
  · rw [liveBytes_insert hnew]
    simp only
    omega
  · rw [liveCount_insert hnew]
    exact toNat_succ_sub h.count_eq hcount

/-- A live allocation is freed. -/
theorem Exact.free (h : Exact stats ledger) {ptr size : UInt64}
    (hptr : ledger.lookup ptr = some size) :
    Exact (freeMemStats stats size) (ledger.erase ptr) ∧
      PeakFollows stats (freeMemStats stats size) := by
  have hlive := h.live_eq
  have hpeak := h.le_peak
  have hbytes := liveBytes_erase hptr
  -- the size is one of those in the sum, so the subtraction is not cut off at zero
  obtain ⟨live, hsub, hlive'⟩ :=
    subMemStatsLive_eq { stats with freeCount := stats.freeCount + 1 } size
      (by simp only; omega)
  simp only at hlive'
  rw [freeMemStats, hsub]
  refine ⟨⟨?_, ?_, ?_⟩, ?_⟩
  · simp only
    omega
  · exact toNat_sub_succ (h.count_eq.trans (liveCount_erase hptr))
  · simp only
    omega
  · rw [PeakFollows]
    simp only
    omega

/-- A live allocation gets another size, and perhaps another place. -/
theorem Exact.realloc (h : Exact stats ledger) {ptr oldSize new size : UInt64}
    (hptr : ledger.lookup ptr = some oldSize) (hnew : new ∉ ledger.erase ptr)
    (hbytes : liveBytes ((ledger.erase ptr).insert new size) < 2 ^ 64) :
    Exact (reallocMemStats stats oldSize size) ((ledger.erase ptr).insert new size) ∧
      PeakFollows stats (reallocMemStats stats oldSize size) := by
  have hlive := h.live_eq
  have hpeak := h.le_peak
  have hold := liveBytes_erase hptr
  -- one allocation goes and one comes, and neither counter moves
  have hcount : (stats.allocCount - stats.freeCount).toNat
      = liveCount ((ledger.erase ptr).insert new size) := by
    rw [h.count_eq, liveCount_erase hptr, liveCount_insert hnew]
  rw [liveBytes_insert hnew] at hbytes
  unfold reallocMemStats
  split
  case isTrue hgrow =>
      -- the difference is added, which may be a new peak
      have hle := UInt64.le_iff_toNat_le.mp hgrow
      have hdelta := UInt64.toNat_sub_of_le _ _ hgrow
      obtain ⟨live, peak, hadd, hlive', hpeak'⟩ :=
        addMemStatsLive_eq { stats with reallocCount := stats.reallocCount + 1 } (size - oldSize)
          (by simp only; omega)
      simp only at hlive' hpeak'
      rw [hadd]
      refine ⟨⟨?_, hcount, hpeak' ▸ Nat.le_max_right _ _⟩, hpeak'⟩
      rw [liveBytes_insert hnew]
      simp only
      omega
  case isFalse hshrink =>
      -- the difference is taken off, and the peak stays
      have hlt := Nat.not_le.mp (fun hle => hshrink (UInt64.le_iff_toNat_le.mpr hle))
      have hdelta := UInt64.toNat_sub_of_le _ _ (UInt64.le_iff_toNat_le.mpr hlt.le)
      obtain ⟨live, hsub, hlive'⟩ :=
        subMemStatsLive_eq { stats with reallocCount := stats.reallocCount + 1 } (oldSize - size)
          (by simp only; omega)
      simp only at hlive'
      rw [hsub]
      refine ⟨⟨?_, hcount, ?_⟩, ?_⟩
      · rw [liveBytes_insert hnew]
        simp only
        omega
      · simp only
        omega
      · rw [PeakFollows]
        simp only
        omega

end Stats

/-! ### What a call can do -/

section Calls
variable {s : Allocator} {size : UInt64} {answer : MallocAnswer}

/-- The injected fault touches the countdown alone. -/
theorem memShouldFail_eq (faults : Bool) (s : Allocator) :
    ∃ countdown fails,
      memShouldFail faults s = ({ s with faultCountdown := countdown }, fails) := by
  unfold memShouldFail
  split
  · exact ⟨s.faultCountdown, false, rfl⟩
  · split
    · exact ⟨s.faultCountdown, false, rfl⟩
    · split
      · exact ⟨s.faultCountdown, true, rfl⟩
      · exact ⟨_, false, rfl⟩

/-- The header of a block, after the store to it. -/
theorem u64OfBytes_storeSize (block : List UInt8) (size : UInt64) :
    u64OfBytes (storeSize block size) = size := by
  have hhdr : (storeSize block size).take 8 = u64Bytes size :=
    pread_pwrite_same block (u64Bytes size) 0
  have hround := u64OfBytes_u64Bytes size
  rw [u64OfBytes, List.take_of_length_le (length_u64Bytes size).le] at hround
  rw [u64OfBytes, hhdr, hround]

/-- A block has room for its header. -/
theorem le_length_storeSize (block : List UInt8) (size : UInt64) :
    8 ≤ (storeSize block size).length := by
  have hne : u64Bytes size ≠ [] :=
    List.ne_nil_of_length_pos (by rw [length_u64Bytes]; decide)
  rw [storeSize, length_pwrite hne, length_u64Bytes]
  exact Nat.le_max_right _ _

/-- What `mmalloc` and `mcalloc` can do: nothing, or one new block with its size in the header. -/
inductive AllocResult (s : Allocator) (size : UInt64) (answer : MallocAnswer) :
    Allocator × Option UInt64 → Prop where
  | null {s' : Allocator} (stats : s'.stats = s.stats) (blocks : s'.blocks = s.blocks) :
      AllocResult s size answer (s', none)
  | new {s' : Allocator} {hdr : UInt64} {fresh : Nat → UInt8} {block : List UInt8}
      (answer_eq : answer = some (hdr, fresh)) (header : u64OfBytes block = size)
      (room : 8 ≤ block.length) (stats : s'.stats = allocMemStats s.stats size)
      (blocks : s'.blocks = s.blocks.insert hdr block) :
      AllocResult s size answer (s', some (hdr + ALLOC_HDR_SIZE))

theorem mmalloc_result (faults : Bool) (s : Allocator) (size : UInt64) (answer : MallocAnswer) :
    AllocResult s size answer (mmalloc faults s size answer) := by
  obtain ⟨countdown, fails, hfault⟩ := memShouldFail_eq faults s
  rw [mmalloc, hfault]
  cases fails with
  | true => exact .null rfl rfl
  | false =>
      simp only
      split
      · exact .null rfl rfl
      · cases answer with
        | none => exact .null rfl rfl
        | some memory =>
            exact .new rfl (u64OfBytes_storeSize _ _) (le_length_storeSize _ _) rfl rfl

/-- The zeros go behind the header. -/
theorem u64OfBytes_zeroed {block : List UInt8} (hroom : 8 ≤ block.length) (n : Nat) :
    u64OfBytes (pwrite block ALLOC_HDR_SIZE.toNat (List.replicate n 0)) = u64OfBytes block := by
  have hhdr : pread (pwrite block ALLOC_HDR_SIZE.toNat (List.replicate n 0)) 0 8
      = pread block 0 8 :=
    pread_pwrite_disjoint hroom (Or.inl (Nat.le_refl _))
  rw [u64OfBytes, u64OfBytes]
  exact congrArg (fun bytes => UInt64.ofNat (leNat bytes)) hhdr

/-- The header in front of a pointer. -/
theorem lookup_header {blocks : Finmap fun _ : UInt64 => List UInt8} {hdr : UInt64}
    {block : Option (List UInt8)} (h : blocks.lookup hdr = block) :
    blocks.lookup (hdr + ALLOC_HDR_SIZE - ALLOC_HDR_SIZE) = block := by
  rw [UInt64.add_sub_cancel, h]

theorem mcalloc_result (faults : Bool) (s : Allocator) (count size : UInt64)
    (answer : MallocAnswer) :
    AllocResult s (count * size) answer (mcalloc faults s count size answer) := by
  rw [mcalloc]
  split
  · -- the product of `count` and `size` does not fit
    exact .null rfl rfl
  · have hresult := mmalloc_result faults s (count * size) answer
    simp only
    generalize mmalloc faults s (count * size) answer = result at hresult ⊢
    cases hresult with
    | null stats blocks => exact .null stats blocks
    | @new s' hdr _ block answer_eq header room stats blocks =>
        -- the zeros replace the block by one with the same header
        have hblock : s'.blocks.lookup hdr = some block := by
          rw [blocks, Finmap.lookup_insert]
        have hzero : zeroUserMemory s'.blocks (hdr + ALLOC_HDR_SIZE) (count * size)
            = s.blocks.insert hdr
              (pwrite block ALLOC_HDR_SIZE.toNat (List.replicate (count * size).toNat 0)) := by
          rw [zeroUserMemory, lookup_header hblock]
          simp only
          rw [UInt64.add_sub_cancel, blocks, Finmap.insert_insert]
        exact .new answer_eq ((u64OfBytes_zeroed room _).trans header)
          (room.trans (le_length_pwrite _ _ _)) stats hzero

/-- What `mfree` can do with a live block: one block less. -/
theorem mfree_ok {hdr : UInt64} {block : List UInt8} (hblock : s.blocks.lookup hdr = some block) :
    mfree s (some (hdr + ALLOC_HDR_SIZE)) = .ok { s with
      stats := freeMemStats s.stats (u64OfBytes block), blocks := s.blocks.erase hdr } := by
  rw [mfree, lookup_header hblock, UInt64.add_sub_cancel]

/-- What `mrealloc` can do with a live block and a size: nothing, or another size and place. -/
inductive ReallocResult (s : Allocator) (hdr : UInt64) (old : List UInt8) (size : UInt64)
    (answer : MallocAnswer) : Allocator × Option UInt64 → Prop where
  | null {s' : Allocator} (stats : s'.stats = s.stats) (blocks : s'.blocks = s.blocks) :
      ReallocResult s hdr old size answer (s', none)
  | resized {s' : Allocator} {new : UInt64} {fresh : Nat → UInt8} {block : List UInt8}
      (answer_eq : answer = some (new, fresh)) (header : u64OfBytes block = size)
      (stats : s'.stats = reallocMemStats s.stats (u64OfBytes old) size)
      (blocks : s'.blocks = (s.blocks.erase hdr).insert new block) :
      ReallocResult s hdr old size answer (s', some (new + ALLOC_HDR_SIZE))

theorem mrealloc_result (faults : Bool) {hdr : UInt64} {old : List UInt8}
    (hold : s.blocks.lookup hdr = some old) (hsize : size ≠ 0) (answer : MallocAnswer) :
    ∃ result, mrealloc faults s (some (hdr + ALLOC_HDR_SIZE)) size answer = .ok result ∧
      ReallocResult s hdr old size answer result := by
  obtain ⟨countdown, fails, hfault⟩ := memShouldFail_eq faults s
  rw [mrealloc]
  simp only [if_neg hsize, hfault]
  cases fails with
  -- the injected fault comes before the block is looked at
  | true => exact ⟨_, rfl, .null rfl rfl⟩
  | false =>
      simp only
      rw [lookup_header hold, UInt64.add_sub_cancel]
      refine ⟨_, rfl, ?_⟩
      unfold reallocBlock
      split
      · -- the size with its header does not fit
        exact .null rfl rfl
      · cases answer with
        | none => exact .null rfl rfl
        | some memory => exact .resized rfl (u64OfBytes_storeSize _ _) rfl rfl

end Calls

/-! ### The books -/

/-- Every pointer of the ledger has its size in the header, and every block is in the ledger. -/
def Recorded (blocks : Finmap fun _ : UInt64 => List UInt8) (ledger : Ledger) : Prop :=
  ∀ hdr, ledger.lookup (hdr + ALLOC_HDR_SIZE) = (blocks.lookup hdr).map u64OfBytes

/-- The books of a session are in order. -/
structure Books (s : Session) : Prop where
  recorded : Recorded s.allocator.blocks s.ledger
  nonnull : ∀ ptr ∈ s.ledger, ptr ≠ 0
  counts : Exact s.allocator.stats s.ledger

/-- What one call can do to the allocator and its client. -/
inductive Effect (s : Session) : Session → Prop where
  /-- Nothing. -/
  | unchanged {s' : Session} (stats : s'.allocator.stats = s.allocator.stats)
      (blocks : s'.allocator.blocks = s.allocator.blocks) (ledger : s'.ledger = s.ledger) :
      Effect s s'
  /-- A new block. -/
  | new {s' : Session} {hdr size : UInt64} {block : List UInt8}
      (header : u64OfBytes block = size) (notMem : hdr ∉ s.allocator.blocks)
      (nonnull : hdr + ALLOC_HDR_SIZE ≠ 0)
      (stats : s'.allocator.stats = allocMemStats s.allocator.stats size)
      (blocks : s'.allocator.blocks = s.allocator.blocks.insert hdr block)
      (ledger : s'.ledger = s.ledger.insert (hdr + ALLOC_HDR_SIZE) size) : Effect s s'
  /-- A block with another size, and perhaps at another place. -/
  | resized {s' : Session} {hdr new size : UInt64} {old block : List UInt8}
      (lookup : s.allocator.blocks.lookup hdr = some old) (header : u64OfBytes block = size)
      (notMem : new ∉ s.allocator.blocks.erase hdr) (nonnull : new + ALLOC_HDR_SIZE ≠ 0)
      (stats : s'.allocator.stats = reallocMemStats s.allocator.stats (u64OfBytes old) size)
      (blocks : s'.allocator.blocks = (s.allocator.blocks.erase hdr).insert new block)
      (ledger : s'.ledger
        = (s.ledger.erase (hdr + ALLOC_HDR_SIZE)).insert (new + ALLOC_HDR_SIZE) size) :
      Effect s s'
  /-- One block less. -/
  | freed {s' : Session} {hdr : UInt64} {old : List UInt8}
      (lookup : s.allocator.blocks.lookup hdr = some old)
      (stats : s'.allocator.stats = freeMemStats s.allocator.stats (u64OfBytes old))
      (blocks : s'.allocator.blocks = s.allocator.blocks.erase hdr)
      (ledger : s'.ledger = s.ledger.erase (hdr + ALLOC_HDR_SIZE)) : Effect s s'

section Recorded
variable {blocks : Finmap fun _ : UInt64 => List UInt8} {ledger : Ledger}

/-- Two headers in front of one pointer are one. -/
theorem add_hdr_inj {a b : UInt64} : a + ALLOC_HDR_SIZE = b + ALLOC_HDR_SIZE ↔ a = b := by
  constructor
  · intro h
    rw [← UInt64.add_sub_cancel (a := a) (b := ALLOC_HDR_SIZE), h, UInt64.add_sub_cancel]
  · rintro rfl
    rfl

theorem Recorded.notMem (h : Recorded blocks ledger) {hdr : UInt64} (hnew : hdr ∉ blocks) :
    hdr + ALLOC_HDR_SIZE ∉ ledger := by
  rw [← Finmap.lookup_eq_none, h hdr, Finmap.lookup_eq_none.mpr hnew]
  rfl

theorem Recorded.insert (h : Recorded blocks ledger) (hdr : UInt64) (block : List UInt8) :
    Recorded (blocks.insert hdr block)
      (ledger.insert (hdr + ALLOC_HDR_SIZE) (u64OfBytes block)) := by
  intro other
  by_cases heq : other = hdr
  · rw [heq, Finmap.lookup_insert, Finmap.lookup_insert]
    rfl
  · rw [Finmap.lookup_insert_of_ne _ (fun hptr => heq (add_hdr_inj.mp hptr)),
      Finmap.lookup_insert_of_ne _ heq, h other]

theorem Recorded.erase (h : Recorded blocks ledger) (hdr : UInt64) :
    Recorded (blocks.erase hdr) (ledger.erase (hdr + ALLOC_HDR_SIZE)) := by
  intro other
  by_cases heq : other = hdr
  · rw [heq, Finmap.lookup_erase, Finmap.lookup_erase]
    rfl
  · rw [Finmap.lookup_erase_ne (fun hptr => heq (add_hdr_inj.mp hptr)),
      Finmap.lookup_erase_ne heq, h other]

/-- There are fewer than `2 ^ 64` pointers that are not `NULL`. -/
theorem liveCount_lt (h : ∀ ptr ∈ ledger, ptr ≠ 0) : liveCount ledger < 2 ^ 64 := by
  -- the pointers are different numbers between 1 and `2 ^ 64`
  have hmaps : ∀ ptr ∈ ledger.keys, ptr.toNat ∈ Finset.Ico 1 (2 ^ 64) := by
    intro ptr hptr
    have hne := h ptr (Finmap.mem_keys.mp hptr)
    have hpos : 0 < ptr.toNat :=
      Nat.pos_of_ne_zero fun hzero => hne (UInt64.toNat_inj.mp hzero)
    exact Finset.mem_Ico.mpr ⟨hpos, ptr.toNat_lt⟩
  have hcard := Finset.card_le_card_of_injOn UInt64.toNat hmaps
    fun a _ b _ hab => UInt64.toNat_inj.mp hab
  rw [Nat.card_Ico] at hcard
  rw [liveCount]
  omega

end Recorded

theorem nonnull_insert {ledger : Ledger} (h : ∀ ptr ∈ ledger, ptr ≠ 0) {ptr : UInt64}
    (hptr : ptr ≠ 0) (size : UInt64) : ∀ p ∈ ledger.insert ptr size, p ≠ 0 := by
  intro p hp
  rcases Finmap.mem_insert.mp hp with rfl | hp
  · exact hptr
  · exact h p hp

theorem nonnull_erase {ledger : Ledger} (h : ∀ ptr ∈ ledger, ptr ≠ 0) (ptr : UInt64) :
    ∀ p ∈ ledger.erase ptr, p ≠ 0 :=
  fun p hp => h p (Finmap.mem_erase.mp hp).2

/-- Whatever a call does, it keeps the books. -/
theorem Effect.books {s s' : Session} (h : Books s) (heffect : Effect s s')
    (hfits : liveBytes s'.ledger < 2 ^ 64) :
    Books s' ∧ PeakFollows s.allocator.stats s'.allocator.stats := by
  cases heffect with
  | unchanged stats blocks ledger =>
      refine ⟨⟨?_, ?_, ?_⟩, ?_⟩
      · rw [blocks, ledger]
        exact h.recorded
      · rw [ledger]
        exact h.nonnull
      · rw [stats, ledger]
        exact h.counts
      · rw [stats, PeakFollows]
        exact (Nat.max_eq_left h.counts.le_peak).symm
  | @new hdr size block header notMem nonnull stats blocks ledger =>
      have hnonnull := nonnull_insert h.nonnull nonnull size
      rw [ledger] at hfits
      obtain ⟨hcounts, hpeak⟩ :=
        h.counts.alloc (h.recorded.notMem notMem) hfits (liveCount_lt hnonnull)
      rw [← stats, ← ledger] at hcounts
      refine ⟨⟨?_, ledger ▸ hnonnull, hcounts⟩, stats ▸ hpeak⟩
      rw [blocks, ledger, ← header]
      exact h.recorded.insert hdr block
  | @resized hdr new size old block lookup header notMem nonnull stats blocks ledger =>
      -- the old block leaves the books, and the new one comes in
      have hrest := h.recorded.erase hdr
      have hnonnull := nonnull_insert (nonnull_erase h.nonnull (hdr + ALLOC_HDR_SIZE)) nonnull size
      have hptr : s.ledger.lookup (hdr + ALLOC_HDR_SIZE) = some (u64OfBytes old) := by
        rw [h.recorded hdr, lookup]
        rfl
      rw [ledger] at hfits
      obtain ⟨hcounts, hpeak⟩ := h.counts.realloc hptr (hrest.notMem notMem) hfits
      rw [← stats, ← ledger] at hcounts
      refine ⟨⟨?_, ledger ▸ hnonnull, hcounts⟩, stats ▸ hpeak⟩
      rw [blocks, ledger, ← header]
      exact hrest.insert new block
  | @freed hdr old lookup stats blocks ledger =>
      have hptr : s.ledger.lookup (hdr + ALLOC_HDR_SIZE) = some (u64OfBytes old) := by
        rw [h.recorded hdr, lookup]
        rfl
      obtain ⟨hcounts, hpeak⟩ := h.counts.free hptr
      rw [← stats, ← ledger] at hcounts
      refine ⟨⟨?_, ledger ▸ nonnull_erase h.nonnull _, hcounts⟩, stats ▸ hpeak⟩
      rw [blocks, ledger]
      exact h.recorded.erase hdr

/-! ### The calls keep the books -/

/-- A live pointer stands behind a header. -/
theorem Books.live_block {s : Session} (h : Books s) {ptr : UInt64} (hptr : ptr ∈ s.ledger) :
    ∃ hdr old, ptr = hdr + ALLOC_HDR_SIZE ∧ s.allocator.blocks.lookup hdr = some old := by
  have hhdr : ptr - ALLOC_HDR_SIZE + ALLOC_HDR_SIZE = ptr := UInt64.sub_add_cancel ..
  obtain ⟨size, hsize⟩ := Finmap.mem_iff.mp hptr
  rw [← hhdr, h.recorded] at hsize
  obtain ⟨old, hold, -⟩ := Option.map_eq_some_iff.mp hsize
  exact ⟨ptr - ALLOC_HDR_SIZE, old, hhdr.symm, hold⟩

/-- A call that is not about a block gets memory that is not in use. -/
theorem LegalCall.notMem {faults : Bool} {s : Session} {op : AllocCall × MallocAnswer}
    (h : LegalCall faults s op) {hdr : UInt64} {fresh : Nat → UInt8}
    (hanswer : op.2 = some (hdr, fresh)) (hcall : argument op.1 = none) :
    hdr ∉ s.allocator.blocks := by
  intro hmem
  obtain ⟨-, huse⟩ := h.answer hdr fresh hanswer
  obtain ⟨size, hrealloc⟩ := huse hmem
  rw [hrealloc] at hcall
  cases hcall

/-- A call that asks for a new block, and its client. -/
theorem AllocResult.effect {faults : Bool} {s : Session} {op : AllocCall × MallocAnswer}
    (hlegal : LegalCall faults s op) (hcall : argument op.1 = none) {size : UInt64}
    {result : Allocator × Option UInt64} (h : AllocResult s.allocator size op.2 result) :
    Effect s { allocator := result.1, ledger := s.ledger.give size result.2 } := by
  cases h with
  | null stats blocks => exact .unchanged stats blocks rfl
  | new answer_eq header room stats blocks =>
      exact .new header (hlegal.notMem answer_eq hcall) (hlegal.answer _ _ answer_eq).1 stats blocks
        rfl

/-- `mfree` and its client. -/
theorem mfree_effect {s : Session} (h : Books s) (ptr : Option UInt64)
    (hptr : ∀ p, ptr = some p → p ∈ s.ledger) :
    ∃ a, mfree s.allocator ptr = .ok a ∧
      Effect s { allocator := a, ledger := s.ledger.take ptr } := by
  cases ptr with
  | none => exact ⟨s.allocator, rfl, .unchanged rfl rfl rfl⟩
  | some p =>
      obtain ⟨hdr, old, rfl, hold⟩ := h.live_block (hptr p rfl)
      exact ⟨_, mfree_ok hold, .freed hold rfl rfl rfl⟩

/-- `mrealloc` of a live pointer to a size that is not zero, and its client. -/
theorem mrealloc_effect {faults : Bool} {s : Session} (h : Books s) {p size : UInt64}
    {answer : MallocAnswer} (hlegal : LegalCall faults s (.mrealloc (some p) size, answer))
    (hsize : size ≠ 0) :
    ∃ result, mrealloc faults s.allocator (some p) size answer = .ok result ∧
      Effect s { allocator := result.1
                 ledger := recordCall s.ledger (.mrealloc (some p) size) result.2 } := by
  obtain ⟨hdr, old, rfl, hold⟩ := h.live_block (hlegal.pointer p rfl)
  obtain ⟨result, hrun, hresult⟩ := mrealloc_result faults hold hsize answer
  refine ⟨result, hrun, ?_⟩
  cases hresult with
  | null stats blocks => exact .unchanged stats blocks (if_neg hsize)
  | @resized s' new fresh block answer_eq header stats blocks =>
      obtain ⟨hnonnull, huse⟩ := hlegal.answer new fresh answer_eq
      -- memory that is in use can only be the old block, and that is gone
      have hnew : new ∉ s.allocator.blocks.erase hdr := by
        intro hmem
        obtain ⟨hne, hmem⟩ := Finmap.mem_erase.mp hmem
        obtain ⟨size', hcall⟩ := huse hmem
        simp only [AllocCall.mrealloc.injEq, Option.some.injEq] at hcall
        exact hne (add_hdr_inj.mp hcall.1).symm
      exact .resized hold header hnew hnonnull stats blocks rfl

/-- A legal call returns, and does one of the four things. -/
theorem sessionStep_effect {faults : Bool} {s : Session} (h : Books s)
    {op : AllocCall × MallocAnswer} (hlegal : LegalCall faults s op) :
    ∃ s', sessionStep faults s op = .ok s' ∧ Effect s s' := by
  obtain ⟨call, answer⟩ := op
  cases call with
  | mmalloc size =>
      exact ⟨_, rfl, (mmalloc_result faults s.allocator size answer).effect hlegal rfl⟩
  | mcalloc count size =>
      exact ⟨_, rfl, (mcalloc_result faults s.allocator count size answer).effect hlegal rfl⟩
  | mrealloc ptr size =>
      cases ptr with
      | none =>
          -- `mrealloc(NULL, size)` is `mmalloc(size)`, for the ledger too
          have hrecord (result : Option UInt64) :
              recordCall s.ledger (.mrealloc none size) result = s.ledger.give size result := by
            cases result with
            | none => exact ite_self _
            | some p => rfl
          have heffect := (mmalloc_result faults s.allocator size answer).effect hlegal rfl
          rw [← hrecord] at heffect
          exact ⟨_, rfl, heffect⟩
      | some p =>
          by_cases hsize : size = 0
          · obtain ⟨a, hfree, heffect⟩ := mfree_effect h (some p) hlegal.pointer
            have hrecord : recordCall s.ledger (.mrealloc (some p) size) none
                = s.ledger.take (some p) := if_pos hsize
            rw [← hrecord] at heffect
            refine ⟨_, ?_, heffect⟩
            rw [sessionStep, allocStep, mrealloc]
            simp only [if_pos hsize, hfree]
            rfl
          · obtain ⟨result, hrun, heffect⟩ := mrealloc_effect h hlegal hsize
            refine ⟨_, ?_, heffect⟩
            rw [sessionStep, allocStep, hrun]
            rfl
  | mfree ptr =>
      obtain ⟨a, hfree, heffect⟩ := mfree_effect h ptr hlegal.pointer
      refine ⟨_, ?_, heffect⟩
      rw [sessionStep, allocStep, hfree]
      rfl
  | setMemFaultCountdown countdown =>
      refine ⟨_, rfl, ?_⟩
      unfold setMemFaultCountdown
      split
      · exact .unchanged rfl rfl rfl
      · exact .unchanged rfl rfl rfl
  | clearMemFault =>
      refine ⟨_, rfl, ?_⟩
      unfold clearMemFault
      split
      · exact .unchanged rfl rfl rfl
      · exact .unchanged rfl rfl rfl

/-- Only `mfree`, and `mrealloc` to size zero, give a block back and return nothing. -/
def GivesBack : AllocCall → Prop
  | .mfree _ => True
  | .mrealloc (some _) size => size = 0
  | _ => False

theorem AllocResult.unchanged {s s' : Allocator} {size : UInt64} {answer : MallocAnswer}
    (h : AllocResult s size answer (s', none)) : s'.stats = s.stats ∧ s'.blocks = s.blocks := by
  cases h with
  | null stats blocks => exact ⟨stats, blocks⟩

/-- A call that returns `NULL` changes no counter and no block, headers included. -/
theorem null_changes_nothing {faults : Bool} {s : Session} (h : Books s) {call : AllocCall}
    (hptr : ∀ p, argument call = some p → p ∈ s.ledger) (hcall : ¬ GivesBack call)
    {answer : MallocAnswer} {s' : Allocator}
    (hnull : allocStep faults s.allocator call answer = .ok (s', none)) :
    s'.stats = s.allocator.stats ∧ s'.blocks = s.allocator.blocks := by
  cases call with
  | mmalloc size =>
      have hresult := mmalloc_result faults s.allocator size answer
      rw [Except.ok.inj hnull] at hresult
      exact hresult.unchanged
  | mcalloc count size =>
      have hresult := mcalloc_result faults s.allocator count size answer
      rw [Except.ok.inj hnull] at hresult
      exact hresult.unchanged
  | mrealloc ptr size =>
      cases ptr with
      | none =>
          have hresult := mmalloc_result faults s.allocator size answer
          rw [Except.ok.inj hnull] at hresult
          exact hresult.unchanged
      | some p =>
          -- the pointer is live, so `mrealloc` finds its header
          obtain ⟨hdr, old, rfl, hold⟩ := h.live_block (hptr p rfl)
          obtain ⟨result, hrun, hresult⟩ := mrealloc_result faults hold hcall answer
          rw [allocStep, hrun] at hnull
          rw [Except.ok.inj hnull] at hresult
          cases hresult with
          | null stats blocks => exact ⟨stats, blocks⟩
  | mfree ptr => exact absurd trivial hcall
  | setMemFaultCountdown countdown =>
      rw [allocStep, setMemFaultCountdown] at hnull
      cases faults with
      | true => cases hnull; exact ⟨rfl, rfl⟩
      | false => cases hnull; exact ⟨rfl, rfl⟩
  | clearMemFault =>
      rw [allocStep, clearMemFault] at hnull
      cases faults with
      | true => cases hnull; exact ⟨rfl, rfl⟩
      | false => cases hnull; exact ⟨rfl, rfl⟩

/-! ### Runs -/

theorem books_initial : Books .initial where
  recorded _ := rfl
  nonnull _ hptr := absurd hptr Finmap.notMem_empty
  counts := ⟨rfl, rfl, Nat.le_refl _⟩

/-- The accounting of the allocator, after any legal calls and for the next one. -/
theorem accounting_exact (faults : Bool) (ops : List (AllocCall × MallocAnswer))
    (hops : Guarded (sessionStep faults) (LegalCall faults) .initial ops) :
    ∃ s, run (sessionStep faults) .initial ops = .ok s ∧
      s.allocator.stats.bytesLive.toNat = liveBytes s.ledger ∧
      (s.allocator.stats.allocCount - s.allocator.stats.freeCount).toNat = liveCount s.ledger ∧
      IsGreatest {n | ∃ t, Visits (sessionStep faults) .initial ops t ∧
        n = t.allocator.stats.bytesLive.toNat} s.allocator.stats.bytesPeak.toNat ∧
      Recorded s.allocator.blocks s.ledger ∧
      ∀ call answer s', (∀ p, argument call = some p → p ∈ s.ledger) → ¬ GivesBack call →
        allocStep faults s.allocator call answer = .ok (s', none) →
        s'.stats = s.allocator.stats ∧ s'.blocks = s.allocator.blocks := by
  have hstep (s : Session) (op : AllocCall × MallocAnswer) (s' : Session) (h : Books s)
      (hlegal : LegalCall faults s op) (hrun : sessionStep faults s op = .ok s') :
      Books s' ∧ PeakFollows s.allocator.stats s'.allocator.stats := by
    obtain ⟨t, ht, heffect⟩ := sessionStep_effect h hlegal
    rw [hrun] at ht
    cases ht
    exact heffect.books h (hlegal.fits s' hrun)
  obtain ⟨s, hrun, hbooks⟩ := run_total Books (fun s op h hlegal => by
    obtain ⟨s', hs', -⟩ := sessionStep_effect h hlegal
    exact ⟨s', hs', (hstep s op s' h hlegal hs').1⟩) ops .initial books_initial hops
  -- the peak follows the live bytes at every step, so it is their maximum
  have hpeak := run_isGreatest Books (fun s => s.allocator.stats.bytesLive.toNat)
    (fun s => s.allocator.stats.bytesPeak.toNat) hstep books_initial rfl hops hrun
  exact ⟨s, hrun, hbooks.counts.live_eq, hbooks.counts.count_eq, hpeak, hbooks.recorded,
    fun call answer s' hptr hcall hnull => null_changes_nothing hbooks hptr hcall hnull⟩

/-- An allocation, a `realloc` that fails, and a free. -/
def threeCalls : List (AllocCall × MallocAnswer) :=
  [(.mmalloc 5, some (4096, fun _ => 0)), (.mrealloc (some 4104) 9, none),
    (.mfree (some 4104), none)]

theorem guarded_threeCalls :
    Guarded (sessionStep false) (LegalCall false) .initial threeCalls := by
  refine ⟨⟨?_, ?_, ?_⟩, ?_⟩
  · intro p hp
    cases hp
  · intro hdr fresh hanswer
    cases hanswer
    exact ⟨by decide, fun hmem => absurd hmem Finmap.notMem_empty⟩
  · intro s' hs'
    cases hs'
    decide
  intro s₁ hs₁
  cases hs₁
  refine ⟨⟨?_, ?_, ?_⟩, ?_⟩
  · intro p hp
    cases hp
    decide
  · intro hdr fresh hanswer
    cases hanswer
  · intro s' hs'
    cases hs'
    decide
  intro s₂ hs₂
  cases hs₂
  refine ⟨⟨?_, ?_, ?_⟩, ?_⟩
  · intro p hp
    cases hp
    decide
  · intro hdr fresh hanswer
    cases hanswer
  · intro s' hs'
    cases hs'
    decide
  · exact fun _ _ => trivial

/-- The statistics after these calls. -/
theorem accounting_exact_three_calls :
    ∃ s, run (sessionStep false) .initial threeCalls = .ok s ∧
      s.allocator.stats.bytesLive.toNat = liveBytes s.ledger ∧
      IsGreatest {n | ∃ t, Visits (sessionStep false) .initial threeCalls t ∧
        n = t.allocator.stats.bytesLive.toNat} s.allocator.stats.bytesPeak.toNat := by
  obtain ⟨s, hrun, hlive, -, hpeak, -⟩ := accounting_exact false threeCalls guarded_threeCalls
  exact ⟨s, hrun, hlive, hpeak⟩

end MustDb.Proofs.Utils
