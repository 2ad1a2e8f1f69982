import MustDb.Utils.Alloc

/-!
# `MustDb.Utils.AllocStats`: the statistics of the allocator, for many threads

The counters of `src/utils/alloc.c` are atomic variables that all threads share. A thread is here
its point in `alloc_mem_stats`, `free_mem_stats` or the statistics of `mrealloc`, with the local
variables of `update_mem_peak` and `sub_mem_stats_live`. One turn of a thread is one atomic
operation, with the work on local variables that follows it. A compare-and-exchange is weak: it can
fail though the value is the expected one (`spurious`). If it fails, the expected value becomes the
one that it has found.

The blocks are there by their sizes alone. A block belongs to the call that is about it, and the
others are in `sizes`. So a size is subtracted only after it was added. `added` and `subtracted` are
not variables of the program: they record the bytes that the calls have added to `bytes_live`, and
those that they have taken off.
-/

set_option autoImplicit false

namespace MustDb.Utils

/-- Where a thread is: the atomic operation that it does next. -/
inductive StatsPc where
  /-- No call is in progress. -/
  | idle
  /-- `atomic_fetch_add` on `alloc_count`, for a new block. -/
  | allocCount (size : UInt64)
  /-- `atomic_fetch_add` on `free_count`, for a block that goes. -/
  | freeCount (size : UInt64)
  /-- `atomic_fetch_add` on `realloc_count`, for a block with a new size. -/
  | reallocCount (oldSize size : UInt64)
  /-- `atomic_fetch_add` of `delta` on `bytes_live`, for a block that then has `size` bytes. -/
  | addLive (delta size : UInt64) (delta_le : delta ≤ size)
  /-- `update_mem_peak`: the load. -/
  | loadPeak (live : UInt64)
  /-- `update_mem_peak`: the compare-and-exchange. -/
  | casPeak (live peak : UInt64) (peak_lt : peak < live)
  /-- `sub_mem_stats_live`: the load. The block then has `left` bytes, or it goes. -/
  | loadLive (size : UInt64) (left : Option UInt64)
  /-- `sub_mem_stats_live`: the compare-and-exchange. -/
  | casLive (size oldLive : UInt64) (left : Option UInt64)
  deriving DecidableEq

/-- The shared counters, and the threads. -/
structure SharedStats where
  stats : MAllocStats
  threads : List StatsPc
  /-- The sizes of the blocks that no call is about. -/
  sizes : List UInt64
  added : Nat
  subtracted : Nat
  deriving DecidableEq

/-- A fresh process, with that many threads. -/
def SharedStats.initial (threads : Nat) : SharedStats where
  stats := Allocator.initial.stats
  threads := List.replicate threads .idle
  sizes := []
  added := 0
  subtracted := 0

/-- A thread goes on. -/
def SharedStats.goes (s : SharedStats) (thread : Nat) (pc : StatsPc) : SharedStats :=
  { s with threads := s.threads.set thread pc }

/-- The condition of the loop in `update_mem_peak`. -/
def peakLoop (live peak : UInt64) : StatsPc :=
  if h : peak < live then .casPeak live peak h else .idle

/-- `new_live` in `sub_mem_stats_live` -/
def newLive (size oldLive : UInt64) : UInt64 := if size ≤ oldLive then oldLive - size else 0

/-- The two ways of the statistics of `mrealloc`. -/
def resize (oldSize size : UInt64) : StatsPc :=
  if h : oldSize ≤ size then .addLive (size - oldSize) size (UInt64.sub_le h)
  else .loadLive (oldSize - size) (some size)

/-- The next atomic operation of a thread. -/
def SharedStats.turn (s : SharedStats) (thread : Nat) (spurious : Bool) : SharedStats :=
  match s.threads[thread]? with
  | none | some .idle => s
  | some (.allocCount size) =>
      { s with stats := { s.stats with allocCount := s.stats.allocCount + 1 } }.goes thread
        (.addLive size size (UInt64.le_refl size))
  | some (.freeCount size) =>
      { s with stats := { s.stats with freeCount := s.stats.freeCount + 1 } }.goes thread
        (.loadLive size none)
  | some (.reallocCount oldSize size) =>
      { s with stats := { s.stats with reallocCount := s.stats.reallocCount + 1 } }.goes thread
        (resize oldSize size)
  | some (.addLive delta size _) =>
      let live := s.stats.bytesLive + delta
      { s with
        stats := { s.stats with bytesLive := live }
        sizes := size :: s.sizes
        added := s.added + delta.toNat }.goes thread (.loadPeak live)
  | some (.loadPeak live) => s.goes thread (peakLoop live s.stats.bytesPeak)
  | some (.casPeak live peak _) =>
      if ¬ spurious ∧ s.stats.bytesPeak = peak then
        { s with stats := { s.stats with bytesPeak := live } }.goes thread .idle
      else s.goes thread (peakLoop live s.stats.bytesPeak)
  | some (.loadLive size left) => s.goes thread (.casLive size s.stats.bytesLive left)
  | some (.casLive size oldLive left) =>
      if ¬ spurious ∧ s.stats.bytesLive = oldLive then
        { s with
          stats := { s.stats with bytesLive := newLive size oldLive }
          sizes := left.toList ++ s.sizes
          subtracted := s.subtracted + size.toNat }.goes thread .idle
      else s.goes thread (.casLive size s.stats.bytesLive left)

/-- What can happen next. -/
inductive StatsOp where
  /-- A thread enters `alloc_mem_stats`. -/
  | alloc (thread : Nat) (size : UInt64)
  /-- A thread enters `free_mem_stats`, for a block of this size. -/
  | free (thread : Nat) (size : UInt64)
  /-- A thread enters the statistics of `mrealloc`, for a block of the old size. -/
  | realloc (thread : Nat) (oldSize size : UInt64)
  /-- A thread does its next atomic operation. -/
  | turn (thread : Nat) (spurious : Bool)
  deriving DecidableEq

/-- A thread that no call keeps busy enters a call about a block. -/
def SharedStats.takes (s : SharedStats) (thread : Nat) (size : UInt64) (pc : StatsPc) :
    SharedStats :=
  if s.threads[thread]? = some .idle ∧ size ∈ s.sizes then
    { s with sizes := s.sizes.erase size }.goes thread pc
  else s

/-- The state after one step. A call of a thread that is busy, or about a block that is not there,
does not happen. -/
def SharedStats.next (s : SharedStats) : StatsOp → SharedStats
  | .alloc thread size =>
      if s.threads[thread]? = some .idle then s.goes thread (.allocCount size) else s
  | .free thread size => s.takes thread size (.freeCount size)
  | .realloc thread oldSize size => s.takes thread oldSize (.reallocCount oldSize size)
  | .turn thread spurious => s.turn thread spurious

/-- One step of the process. -/
def statsStep (s : SharedStats) (op : StatsOp) : Except Fault SharedStats := .ok (s.next op)

end MustDb.Utils
