import Mathlib.Data.Finmap
import Mathlib.Data.UInt
import MustDb.Fault
import MustDb.Lib.ByteFile
import MustDb.Lib.LittleEndian

/-!
# `MustDb.Utils.Alloc`: the allocator with statistics

`src/utils/alloc.c`, run by one thread. Every block has a header in front of the user memory, with
the size that was asked for. So the memory of the allocator is here what it is in C: the blocks of
`malloc`, by the address of their first byte, header included.

`malloc` and `realloc` of the C library are not part of the repository. A call gets their answer as
an argument: `NULL`, or an address and what the new memory holds. `realloc` keeps the bytes that
fit, at the old address or at another one, and leaves the old block alone when it fails.

`faults` is the build flag `MUSTDB_ENABLE_ALLOC_FAULTS`. With one thread, the compare-and-exchange
loops store their value and return.
-/

set_option autoImplicit false

namespace MustDb.Utils

open MustDb.Lib

/-- `sizeof(AllocHdr)` -/
def ALLOC_HDR_SIZE : UInt64 := 8

/-- `(usize)-1` -/
def USIZE_MAX : UInt64 := 0xFFFFFFFFFFFFFFFF

/-- `MAllocStats` -/
structure MAllocStats where
  allocCount : UInt64
  freeCount : UInt64
  reallocCount : UInt64
  bytesLive : UInt64
  bytesPeak : UInt64
  deriving DecidableEq

/-- What `malloc` or `realloc` answers: `none` is `NULL`, and the function gives the bytes of new
memory. -/
abbrev MallocAnswer := Option (UInt64 × (Nat → UInt8))

/-- The variables of `alloc.c`, and the blocks of the C library. -/
structure Allocator where
  stats : MAllocStats
  faultCountdown : Int64
  blocks : Finmap fun _ : UInt64 => List UInt8

/-- The state of a fresh process. -/
def Allocator.initial : Allocator where
  stats := { allocCount := 0, freeCount := 0, reallocCount := 0, bytesLive := 0, bytesPeak := 0 }
  faultCountdown := -1
  blocks := ∅

/-! ### Statistics -/

/-- `update_mem_peak` -/
def updateMemPeak (stats : MAllocStats) (live : UInt64) : MAllocStats :=
  if stats.bytesPeak < live then { stats with bytesPeak := live } else stats

/-- The sum of `atomic_fetch_add` on `bytes_live`, and the peak after it. -/
def addMemStatsLive (stats : MAllocStats) (size : UInt64) : MAllocStats :=
  let live := stats.bytesLive + size
  updateMemPeak { stats with bytesLive := live } live

/-- `alloc_mem_stats` -/
def allocMemStats (stats : MAllocStats) (size : UInt64) : MAllocStats :=
  addMemStatsLive { stats with allocCount := stats.allocCount + 1 } size

/-- `sub_mem_stats_live` -/
def subMemStatsLive (stats : MAllocStats) (size : UInt64) : MAllocStats :=
  { stats with bytesLive := if size ≤ stats.bytesLive then stats.bytesLive - size else 0 }

/-- `free_mem_stats` -/
def freeMemStats (stats : MAllocStats) (size : UInt64) : MAllocStats :=
  subMemStatsLive { stats with freeCount := stats.freeCount + 1 } size

/-- The statistics of a successful `mrealloc`. -/
def reallocMemStats (stats : MAllocStats) (oldSize size : UInt64) : MAllocStats :=
  let stats := { stats with reallocCount := stats.reallocCount + 1 }
  if oldSize ≤ size then addMemStatsLive stats (size - oldSize)
  else subMemStatsLive stats (oldSize - size)

/-! ### Calls -/

/-- `mem_should_fail`, in a build with fault injection. -/
def memShouldFail (faults : Bool) (s : Allocator) : Allocator × Bool :=
  if ¬ faults then (s, false)
  else if s.faultCountdown < 0 then (s, false)
  else if s.faultCountdown = 0 then (s, true)
  else ({ s with faultCountdown := s.faultCountdown - 1 }, false)

/-- `sizeof(AllocHdr) + size` bytes of new memory, of which `old` is kept. -/
def newBlock (old : List UInt8) (fresh : Nat → UInt8) (size : UInt64) : List UInt8 :=
  let total := (ALLOC_HDR_SIZE + size).toNat
  old.take total ++ (List.range (total - old.length)).map fun i => fresh (old.length + i)

/-- `hdr->size = size` -/
def storeSize (block : List UInt8) (size : UInt64) : List UInt8 := pwrite block 0 (u64Bytes size)

/-- `mmalloc` -/
def mmalloc (faults : Bool) (s : Allocator) (size : UInt64) (answer : MallocAnswer) :
    Allocator × Option UInt64 :=
  match memShouldFail faults s with
  | (s, true) => (s, none)
  | (s, false) =>
      if size > USIZE_MAX - ALLOC_HDR_SIZE then (s, none)
      else
        match answer with
        | none => (s, none)
        | some (hdr, fresh) =>
            let block := storeSize (newBlock [] fresh size) size
            ({ s with stats := allocMemStats s.stats size, blocks := s.blocks.insert hdr block },
              some (hdr + ALLOC_HDR_SIZE))

/-- `memset(ptr, 0, bytes)`, for the memory behind a header. -/
def zeroUserMemory (blocks : Finmap fun _ : UInt64 => List UInt8) (ptr bytes : UInt64) :
    Finmap fun _ : UInt64 => List UInt8 :=
  match blocks.lookup (ptr - ALLOC_HDR_SIZE) with
  | none => blocks
  | some block =>
      blocks.insert (ptr - ALLOC_HDR_SIZE)
        (pwrite block ALLOC_HDR_SIZE.toNat (List.replicate bytes.toNat 0))

/-- `mcalloc` -/
def mcalloc (faults : Bool) (s : Allocator) (count size : UInt64) (answer : MallocAnswer) :
    Allocator × Option UInt64 :=
  if count ≠ 0 ∧ size > USIZE_MAX / count then (s, none)
  else
    let bytes := count * size
    match mmalloc faults s bytes answer with
    | (s, none) => (s, none)
    | (s, some ptr) => ({ s with blocks := zeroUserMemory s.blocks ptr bytes }, some ptr)

/-- `mfree` -/
def mfree (s : Allocator) (ptr : Option UInt64) : Except Fault Allocator :=
  match ptr with
  | none => .ok s
  | some ptr =>
      let hdr := ptr - ALLOC_HDR_SIZE
      match s.blocks.lookup hdr with
      | none => .error .useAfterFree
      | some block =>
          .ok { s with
            stats := freeMemStats s.stats (u64OfBytes block), blocks := s.blocks.erase hdr }

/-- The part of `mrealloc` after the injected fault, for a block that is there. -/
def reallocBlock (s : Allocator) (hdr : UInt64) (block : List UInt8) (size : UInt64)
    (answer : MallocAnswer) : Allocator × Option UInt64 :=
  let oldSize := u64OfBytes block
  if size > USIZE_MAX - ALLOC_HDR_SIZE then (s, none)
  else
    match answer with
    | none => (s, none)
    | some (newHdr, fresh) =>
        let block := storeSize (newBlock block fresh size) size
        ({ s with
            stats := reallocMemStats s.stats oldSize size
            blocks := (s.blocks.erase hdr).insert newHdr block },
          some (newHdr + ALLOC_HDR_SIZE))

/-- `mrealloc` -/
def mrealloc (faults : Bool) (s : Allocator) (ptr : Option UInt64) (size : UInt64)
    (answer : MallocAnswer) : Except Fault (Allocator × Option UInt64) :=
  match ptr with
  | none => .ok (mmalloc faults s size answer)
  | some p =>
      if size = 0 then do
        let s ← mfree s ptr
        return (s, none)
      else
        match memShouldFail faults s with
        | (s, true) => .ok (s, none)
        | (s, false) =>
            let hdr := p - ALLOC_HDR_SIZE
            match s.blocks.lookup hdr with
            | none => .error .useAfterFree
            | some block => .ok (reallocBlock s hdr block size answer)

/-- `set_mem_fault_countdown` -/
def setMemFaultCountdown (faults : Bool) (s : Allocator) (countdown : Int64) : Allocator :=
  if faults then { s with faultCountdown := countdown } else s

/-- `clear_mem_fault` -/
def clearMemFault (faults : Bool) (s : Allocator) : Allocator :=
  if faults then { s with faultCountdown := -1 } else s

/-! ### The calls of a client -/

/-- A call of a client. -/
inductive AllocCall where
  /-- `mmalloc` -/
  | mmalloc (size : UInt64)
  /-- `mcalloc` -/
  | mcalloc (count size : UInt64)
  /-- `mrealloc` -/
  | mrealloc (ptr : Option UInt64) (size : UInt64)
  /-- `mfree` -/
  | mfree (ptr : Option UInt64)
  /-- `set_mem_fault_countdown` -/
  | setMemFaultCountdown (countdown : Int64)
  /-- `clear_mem_fault` -/
  | clearMemFault
  deriving DecidableEq

/-- The allocator after one call, and the pointer that the call returns. -/
def allocStep (faults : Bool) (s : Allocator) (call : AllocCall) (answer : MallocAnswer) :
    Except Fault (Allocator × Option UInt64) :=
  match call with
  | .mmalloc size => .ok (mmalloc faults s size answer)
  | .mcalloc count size => .ok (mcalloc faults s count size answer)
  | .mrealloc ptr size => mrealloc faults s ptr size answer
  | .mfree ptr => do
      let s ← mfree s ptr
      return (s, none)
  | .setMemFaultCountdown countdown => .ok (setMemFaultCountdown faults s countdown, none)
  | .clearMemFault => .ok (clearMemFault faults s, none)

end MustDb.Utils
