import MustDb.Lib.Run
import MustDb.Lib.Threads
import MustDb.Utils.AllocStats

/-!
# `MustDb.Proofs.Utils.AllocStats`: the statistics of the allocator, for many threads

`Transition` says once what a step can do to the shared counters. Two invariants follow from it.

`Counted` is about `bytes_live`: it is the sum of all sizes, those of the blocks that no call is
about and those that a thread holds. A thread that is about to subtract holds the bytes, so the
value that it loads is never too small, and an old value was not either. This needs that the bytes
fit in the counter.

`PeakCovers` is about `bytes_peak`: each value that `bytes_live` has had is at most the peak, or at
most a value that some thread is still to compare with the peak. This needs nothing.
-/

set_option autoImplicit false

namespace MustDb.Proofs.Utils

open MustDb.Lib
open MustDb.Utils

/-! ### What a thread is about to do -/

/-- The bytes of a thread's block that are in `bytes_live`. -/
def held : StatsPc → Nat
  | .addLive delta size _ => size.toNat - delta.toNat
  | .freeCount size | .reallocCount size _ => size.toNat
  | .loadLive size left | .casLive size _ left => size.toNat + (left.map UInt64.toNat).getD 0
  | _ => 0

/-- The value of `bytes_live` that a thread is still to compare with the peak. -/
def pending : StatsPc → Option Nat
  | .loadPeak live | .casPeak live _ _ => some live.toNat
  | _ => none

/-- The thread takes the saturating branch of `sub_mem_stats_live`, and it cuts bytes off. -/
def Truncates : StatsPc → Prop
  | .casLive size oldLive _ => oldLive < size
  | _ => False

/-- The sum of sizes. -/
def sumSizes (sizes : List UInt64) : Nat := (sizes.map UInt64.toNat).sum

/-- No call is in progress. -/
def Quiet (s : SharedStats) : Prop := ∀ pc ∈ s.threads, pc = .idle

instance (s : SharedStats) : Decidable (Quiet s) := inferInstanceAs (Decidable (∀ _ ∈ _, _))

/-- The bytes that were added and not yet subtracted fit in the counter after the step. -/
def Fits (s : SharedStats) (op : StatsOp) : Prop :=
  (s.next op).added < (s.next op).subtracted + 2 ^ 64

instance (s : SharedStats) (op : StatsOp) : Decidable (Fits s op) :=
  inferInstanceAs (Decidable (_ < _))

@[simp] theorem held_idle : held .idle = 0 := rfl

/-- A thread that is to look at the peak holds no bytes. -/
theorem held_of_pending {pc : StatsPc} {live : Nat} (h : pending pc = some live) : held pc = 0 := by
  cases pc with
  | loadPeak | casPeak => rfl
  | _ => cases h

/-! ### What a step can do -/

/-- What a step can do. -/
inductive Transition (s : SharedStats) : SharedStats → Prop where
  /-- Nothing. -/
  | skips : Transition s s
  /-- A thread goes on, and the bytes stay as they are. -/
  | goes {thread : Nat} {pc pc' : StatsPc} {stats : MAllocStats}
      (found : s.threads[thread]? = some pc) (live_eq : stats.bytesLive = s.stats.bytesLive)
      (peak_eq : stats.bytesPeak = s.stats.bytesPeak) (held_eq : held pc' = held pc)
      (pending_eq : pending pc' = pending pc)
      (loaded : held pc ≤ s.stats.bytesLive.toNat → ¬ Truncates pc') :
      Transition s ({ s with stats }.goes thread pc')
  /-- A thread is through with the peak. -/
  | settles {thread : Nat} {pc : StatsPc} {live : Nat} {stats : MAllocStats}
      (found : s.threads[thread]? = some pc) (pending_eq : pending pc = some live)
      (live_eq : stats.bytesLive = s.stats.bytesLive)
      (peak_eq : stats.bytesPeak.toNat = max s.stats.bytesPeak.toNat live) :
      Transition s ({ s with stats }.goes thread .idle)
  /-- A thread enters a call about a block. -/
  | takes {thread : Nat} {size : UInt64} {pc : StatsPc}
      (found : s.threads[thread]? = some .idle) (mem : size ∈ s.sizes)
      (held_eq : held pc = size.toNat) (pending_eq : pending pc = none)
      (loaded : ¬ Truncates pc) :
      Transition s ({ s with sizes := s.sizes.erase size }.goes thread pc)
  /-- A thread adds to `bytes_live`. -/
  | adds {thread : Nat} {delta size : UInt64} {delta_le : delta ≤ size}
      (found : s.threads[thread]? = some (.addLive delta size delta_le)) :
      Transition s ({ s with
        stats := { s.stats with bytesLive := s.stats.bytesLive + delta }
        sizes := size :: s.sizes
        added := s.added + delta.toNat }.goes thread (.loadPeak (s.stats.bytesLive + delta)))
  /-- A thread subtracts from `bytes_live`, and the value is still the one that it has loaded. -/
  | subtracts {thread : Nat} {size : UInt64} {left : Option UInt64}
      (found : s.threads[thread]? = some (.casLive size s.stats.bytesLive left)) :
      Transition s ({ s with
        stats := { s.stats with bytesLive := newLive size s.stats.bytesLive }
        sizes := left.toList ++ s.sizes
        subtracted := s.subtracted + size.toNat }.goes thread .idle)

/-- A failed comparison with the peak, at the load or at the compare-and-exchange: the thread goes
round the loop with the peak that it has found, or leaves it. -/
theorem peakLoop_transition {s : SharedStats} {thread : Nat} {pc : StatsPc} {live : UInt64}
    (found : s.threads[thread]? = some pc) (hpending : pending pc = some live.toNat) :
    Transition s (s.goes thread (peakLoop live s.stats.bytesPeak)) := by
  unfold peakLoop
  split
  case isTrue hlt =>
      exact .goes found rfl rfl (held_of_pending hpending).symm hpending.symm (fun _ h => h)
  case isFalse hle =>
      have hle := UInt64.le_iff_toNat_le.mp (UInt64.not_lt.mp hle)
      exact .settles found hpending rfl (Nat.max_eq_left hle).symm

/-- Both ways of `mrealloc` hold the block that there was. -/
theorem held_resize (oldSize size : UInt64) :
    held (resize oldSize size) = oldSize.toNat ∧ pending (resize oldSize size) = none ∧
      ¬ Truncates (resize oldSize size) := by
  unfold resize
  split
  case isTrue hle =>
      refine ⟨?_, rfl, fun h => h⟩
      rw [held, UInt64.toNat_sub_of_le _ _ hle]
      have := UInt64.le_iff_toNat_le.mp hle
      omega
  case isFalse hlt =>
      have hle := UInt64.le_of_lt (UInt64.not_le.mp hlt)
      refine ⟨?_, rfl, fun h => h⟩
      rw [held, UInt64.toNat_sub_of_le _ _ hle]
      have := UInt64.le_iff_toNat_le.mp hle
      simp only [Option.map_some, Option.getD_some]
      omega

/-- A load of `bytes_live` by a thread that is to subtract. -/
theorem loadLive_transition {s : SharedStats} {thread : Nat} {pc : StatsPc} {size : UInt64}
    {left : Option UInt64} (found : s.threads[thread]? = some pc) (hpending : pending pc = none)
    (hheld : held pc = size.toNat + (left.map UInt64.toNat).getD 0) :
    Transition s (s.goes thread (.casLive size s.stats.bytesLive left)) := by
  refine .goes found rfl rfl hheld.symm hpending.symm fun hle htruncates => ?_
  -- the bytes that the thread holds are in the value that it loads
  have hlt := UInt64.lt_iff_toNat_lt.mp htruncates
  omega

/-- An atomic operation of a thread. -/
theorem turn_transition (s : SharedStats) (thread : Nat) (spurious : Bool) :
    Transition s (s.turn thread spurious) := by
  unfold SharedStats.turn
  cases found : s.threads[thread]? with
  | none => exact .skips
  | some pc =>
      cases pc with
      | idle => exact .skips
      | allocCount size => exact .goes found rfl rfl (Nat.sub_self _) rfl (fun _ h => h)
      | freeCount size => exact .goes found rfl rfl (Nat.add_zero _) rfl (fun _ h => h)
      | reallocCount oldSize size =>
          obtain ⟨hheld, hpending, hloaded⟩ := held_resize oldSize size
          exact .goes found rfl rfl hheld hpending (fun _ => hloaded)
      | addLive delta size delta_le => exact .adds found
      | loadPeak live => exact peakLoop_transition found rfl
      | casPeak live peak peak_lt =>
          simp only
          split
          case isTrue hcas =>
              obtain ⟨-, rfl⟩ := hcas
              have hle := (UInt64.lt_iff_toNat_lt.mp peak_lt).le
              exact .settles found rfl rfl (Nat.max_eq_right hle).symm
          case isFalse => exact peakLoop_transition found rfl
      | loadLive size left => exact loadLive_transition found rfl rfl
      | casLive size oldLive left =>
          simp only
          split
          case isTrue hcas =>
              obtain ⟨-, rfl⟩ := hcas
              exact .subtracts found
          case isFalse => exact loadLive_transition found rfl rfl

/-- A call about a block. -/
theorem takes_transition (s : SharedStats) (thread : Nat) {size : UInt64} {pc : StatsPc}
    (hheld : held pc = size.toNat) (hpending : pending pc = none) (hloaded : ¬ Truncates pc) :
    Transition s (s.takes thread size pc) := by
  unfold SharedStats.takes
  split
  case isTrue h => exact .takes h.1 h.2 hheld hpending hloaded
  case isFalse => exact .skips

theorem next_transition (s : SharedStats) (op : StatsOp) : Transition s (s.next op) := by
  cases op with
  | alloc thread size =>
      simp only [SharedStats.next]
      split
      case isTrue found => exact .goes found rfl rfl rfl rfl (fun _ h => h)
      case isFalse => exact .skips
  | free thread size => exact takes_transition s thread rfl rfl (fun h => h)
  | realloc thread oldSize size => exact takes_transition s thread rfl rfl (fun h => h)
  | turn thread spurious => exact turn_transition s thread spurious

/-! ### `bytes_live` -/

/-- The counter is exact, and nothing is cut off. -/
structure Counted (s : SharedStats) : Prop where
  added_eq : s.added = s.subtracted + s.stats.bytesLive.toNat
  live_eq : s.stats.bytesLive.toNat = sumSizes s.sizes + (s.threads.map held).sum
  exact_sub : ∀ pc ∈ s.threads, ¬ Truncates pc

theorem sumSizes_erase {sizes : List UInt64} {size : UInt64} (h : size ∈ sizes) :
    size.toNat + sumSizes (sizes.erase size) = sumSizes sizes :=
  List.sum_map_erase UInt64.toNat h

theorem sumSizes_left (left : Option UInt64) (sizes : List UInt64) :
    sumSizes (left.toList ++ sizes) = (left.map UInt64.toNat).getD 0 + sumSizes sizes := by
  cases left with
  | none => exact (Nat.zero_add _).symm
  | some size => rfl

/-- A step keeps the counter exact if the bytes fit in it. -/
theorem Transition.counted {s s' : SharedStats} (h : Counted s) (hstep : Transition s s')
    (hfits : s'.added < s'.subtracted + 2 ^ 64) : Counted s' := by
  obtain ⟨hadded, hlive, hexact⟩ := h
  cases hstep with
  | skips => exact ⟨hadded, hlive, hexact⟩
  | @goes thread pc pc' stats found live_eq peak_eq held_eq pending_eq loaded =>
      have hsum := sum_map_set held found pc'
      have hle := le_sum_map held found
      refine ⟨?_, ?_, forall_mem_set hexact (loaded (by omega))⟩
      · exact hadded.trans (by rw [← live_eq]; rfl)
      · simp only [SharedStats.goes, live_eq]
        omega
  | @settles thread pc live stats found pending_eq live_eq peak_eq =>
      have hsum := sum_map_set held found .idle
      rw [held_of_pending pending_eq, held_idle] at hsum
      refine ⟨?_, ?_, forall_mem_set hexact (fun h => h)⟩
      · exact hadded.trans (by rw [← live_eq]; rfl)
      · simp only [SharedStats.goes, live_eq]
        omega
  | @takes thread size pc found mem held_eq pending_eq loaded =>
      -- the size of the block goes from the list to the thread
      have hsum := sum_map_set held found pc
      have herase := sumSizes_erase mem
      rw [held_idle, held_eq] at hsum
      refine ⟨hadded, ?_, forall_mem_set hexact loaded⟩
      simp only [SharedStats.goes]
      omega
  | @adds thread delta size delta_le found =>
      have hsum := sum_map_set held found (.loadPeak (s.stats.bytesLive + delta))
      have hdelta := UInt64.le_iff_toNat_le.mp delta_le
      simp only [held] at hsum
      simp only [SharedStats.goes] at hfits
      -- what was added and not subtracted is the counter, so the sum does not wrap
      have hadd : (s.stats.bytesLive + delta).toNat = s.stats.bytesLive.toNat + delta.toNat := by
        rw [UInt64.toNat_add, Nat.mod_eq_of_lt (by omega)]
      refine ⟨?_, ?_, forall_mem_set hexact (fun h => h)⟩
      · simp only [SharedStats.goes, hadd]
        omega
      · simp only [SharedStats.goes, hadd, sumSizes, List.map_cons, List.sum_cons] at hlive ⊢
        omega
  | @subtracts thread size left found =>
      have hsum := sum_map_set held found .idle
      simp only [held] at hsum
      -- the thread has not loaded too small a value, so it takes the other branch
      have hle : size ≤ s.stats.bytesLive :=
        UInt64.not_lt.mp (hexact _ (List.mem_of_getElem? found))
      have hle' := UInt64.le_iff_toNat_le.mp hle
      have hsub : (newLive size s.stats.bytesLive).toNat
          = s.stats.bytesLive.toNat - size.toNat := by
        rw [newLive, if_pos hle, UInt64.toNat_sub_of_le _ _ hle]
      refine ⟨?_, ?_, forall_mem_set hexact (fun h => h)⟩
      · simp only [SharedStats.goes, hsub]
        omega
      · simp only [SharedStats.goes, hsub, sumSizes_left]
        omega

theorem counted_initial (threads : Nat) : Counted (.initial threads) where
  added_eq := rfl
  live_eq := by
    simp only [SharedStats.initial, List.map_replicate, held, List.sum_replicate_nat]
    rfl
  exact_sub pc hpc := by
    rw [List.eq_of_mem_replicate hpc]
    exact fun h => h

/-- When no call is in progress, no thread holds bytes. -/
theorem Counted.live_of_quiet {s : SharedStats} (h : Counted s) (hquiet : Quiet s) :
    s.stats.bytesLive.toNat = sumSizes s.sizes := by
  have hzero : (s.threads.map held).sum = 0 := by
    rw [List.sum_eq_zero_iff]
    intro n hn
    obtain ⟨pc, hpc, rfl⟩ := List.mem_map.mp hn
    rw [hquiet pc hpc]
    rfl
  have hlive := h.live_eq
  omega

/-! ### `bytes_peak` -/

/-- The peak, and the values that threads are still to compare with it, are values that
`bytes_live` has had, and no value is above all of them. -/
structure PeakCovers (seen : Set Nat) (s : SharedStats) : Prop where
  live_mem : s.stats.bytesLive.toNat ∈ seen
  peak_mem : s.stats.bytesPeak.toNat ∈ seen
  pending_mem : ∀ pc ∈ s.threads, ∀ live, pending pc = some live → live ∈ seen
  covers : ∀ n ∈ seen, n ≤ s.stats.bytesPeak.toNat ∨
    ∃ pc ∈ s.threads, ∃ live, pending pc = some live ∧ n ≤ live

section Peak
variable {seen : Set Nat} {s s' : SharedStats}

/-- A step of one thread keeps the values covered if the peak does not go down, the value that the
thread was to compare stays covered, and the new value of `bytes_live` is covered or is the one that
the thread is to compare next. -/
theorem PeakCovers.step (h : PeakCovers seen s) {thread : Nat} {pc pc' : StatsPc}
    (found : s.threads[thread]? = some pc) (hthreads : s'.threads = s.threads.set thread pc')
    (hpeak : s'.stats.bytesPeak.toNat ∈ seen)
    (hle : s.stats.bytesPeak.toNat ≤ s'.stats.bytesPeak.toNat)
    (hpending : ∀ live, pending pc' = some live → live ∈ insert s'.stats.bytesLive.toNat seen)
    (hdone : ∀ live, pending pc = some live →
      live ≤ s'.stats.bytesPeak.toNat ∨ pending pc' = some live)
    (hlive : (∃ n ∈ seen, s'.stats.bytesLive.toNat ≤ n) ∨
      pending pc' = some s'.stats.bytesLive.toNat) :
    PeakCovers (insert s'.stats.bytesLive.toNat seen) s' := by
  -- the values so far
  have hseen : ∀ n ∈ seen, n ≤ s'.stats.bytesPeak.toNat ∨
      ∃ pc ∈ s'.threads, ∃ live, pending pc = some live ∧ n ≤ live := by
    intro n hn
    rw [hthreads]
    rcases h.covers n hn with hn | ⟨other, hother, live, hsome, hn⟩
    · exact Or.inl (hn.trans hle)
    · rcases eq_or_mem_set found hother pc' with rfl | hother
      · rcases hdone live hsome with hpeak | hsome
        · exact Or.inl (hn.trans hpeak)
        · exact Or.inr ⟨pc', mem_set_of_getElem? found pc', live, hsome, hn⟩
      · exact Or.inr ⟨other, hother, live, hsome, hn⟩
  refine ⟨Set.mem_insert _ _, Set.mem_insert_of_mem _ hpeak, ?_, ?_⟩
  · rw [hthreads]
    exact forall_mem_set
      (fun pc hpc live hsome => Set.mem_insert_of_mem _ (h.pending_mem pc hpc live hsome)) hpending
  · rintro n (rfl | hn)
    · rcases hlive with ⟨n, hn, hlt⟩ | hsome
      · rcases hseen n hn with hn | ⟨pc, hpc, live, hsome, hn⟩
        · exact Or.inl (hlt.trans hn)
        · exact Or.inr ⟨pc, hpc, live, hsome, hlt.trans hn⟩
      · refine Or.inr ⟨pc', ?_, _, hsome, Nat.le_refl _⟩
        rw [hthreads]
        exact mem_set_of_getElem? found pc'
    · exact hseen n hn

/-- The subtraction never goes up, saturating or not. -/
theorem newLive_le (size live : UInt64) : (newLive size live).toNat ≤ live.toNat := by
  unfold newLive
  split
  case isTrue hle =>
      rw [UInt64.toNat_sub_of_le _ _ hle]
      exact Nat.sub_le _ _
  case isFalse => exact Nat.zero_le _

/-- A step keeps the values of `bytes_live` covered. -/
theorem Transition.peakCovers (h : PeakCovers seen s) (hstep : Transition s s') :
    PeakCovers (insert s'.stats.bytesLive.toNat seen) s' := by
  cases hstep with
  | skips =>
      rw [Set.insert_eq_of_mem h.live_mem]
      exact h
  | @goes thread pc pc' stats found live_eq peak_eq held_eq pending_eq loaded =>
      refine h.step found rfl ?_ ?_ ?_ ?_ (Or.inl ⟨_, h.live_mem, ?_⟩)
      · exact peak_eq ▸ h.peak_mem
      · exact (congrArg UInt64.toNat peak_eq).ge
      · intro live hsome
        exact Set.mem_insert_of_mem _
          (h.pending_mem pc (List.mem_of_getElem? found) live (pending_eq ▸ hsome))
      · exact fun live hsome => Or.inr (pending_eq.trans hsome)
      · exact (congrArg UInt64.toNat live_eq).le
  | @settles thread pc live stats found pending_eq live_eq peak_eq =>
      -- the new peak is the old one or the value of the thread
      have hmem : stats.bytesPeak.toNat ∈ seen := by
        have hlive := h.pending_mem pc (List.mem_of_getElem? found) live pending_eq
        rw [peak_eq]
        rcases Nat.le_total s.stats.bytesPeak.toNat live with hle | hle
        · rw [Nat.max_eq_right hle]
          exact hlive
        · rw [Nat.max_eq_left hle]
          exact h.peak_mem
      refine h.step found rfl hmem ?_ ?_ ?_ (Or.inl ⟨_, h.live_mem, ?_⟩)
      · exact peak_eq ▸ Nat.le_max_left _ _
      · intro n hsome
        cases hsome
      · intro n hsome
        rw [pending_eq] at hsome
        cases hsome
        exact Or.inl (peak_eq ▸ Nat.le_max_right _ _)
      · exact (congrArg UInt64.toNat live_eq).le
  | @takes thread size pc found mem held_eq pending_eq loaded =>
      refine h.step found rfl h.peak_mem (Nat.le_refl _) ?_ ?_ (Or.inl ⟨_, h.live_mem, ?_⟩)
      · intro live hsome
        rw [pending_eq] at hsome
        cases hsome
      · intro live hsome
        cases hsome
      · exact Nat.le_refl _
  | @adds thread delta size delta_le found =>
      refine h.step found rfl h.peak_mem (Nat.le_refl _) ?_ ?_ (Or.inr rfl)
      · intro live hsome
        cases hsome
        exact Set.mem_insert _ _
      · intro live hsome
        cases hsome
  | @subtracts thread size left found =>
      refine h.step found rfl h.peak_mem (Nat.le_refl _) ?_ ?_ (Or.inl ⟨_, h.live_mem, ?_⟩)
      · intro live hsome
        cases hsome
      · intro live hsome
        cases hsome
      · exact newLive_le size s.stats.bytesLive

theorem peakCovers_initial (threads : Nat) : PeakCovers {0} (.initial threads) where
  live_mem := rfl
  peak_mem := rfl
  pending_mem pc hpc live hsome := by
    rw [List.eq_of_mem_replicate hpc] at hsome
    cases hsome
  covers n hn := Or.inl (Set.mem_singleton_iff.mp hn).le

/-- When no call is in progress, nothing is left to compare. -/
theorem PeakCovers.isGreatest (h : PeakCovers seen s) (hquiet : Quiet s) :
    IsGreatest seen s.stats.bytesPeak.toNat := by
  refine ⟨h.peak_mem, fun n hn => ?_⟩
  rcases h.covers n hn with hle | ⟨pc, hpc, live, hsome, -⟩
  · exact hle
  · rw [hquiet pc hpc] at hsome
    cases hsome

end Peak

/-! ### A call alone -/

section Alone
variable {s : SharedStats} {thread : Nat}

/-- That many atomic operations of one thread, and none of another. -/
def alone (s : SharedStats) (thread : Nat) : Nat → SharedStats
  | 0 => s
  | n + 1 => alone (s.turn thread false) thread n

theorem run_alone (s : SharedStats) (thread n : Nat) :
    run statsStep s (List.replicate n (.turn thread false)) = .ok (alone s thread n) := by
  induction n generalizing s with
  | zero => rfl
  | succ n ih => exact ih _

theorem goes_found (h : thread < s.threads.length) (pc : StatsPc) :
    (s.goes thread pc).threads[thread]? = some pc :=
  List.getElem?_set_self h

@[simp] theorem goes_goes (pc pc' : StatsPc) :
    (s.goes thread pc).goes thread pc' = s.goes thread pc' := by
  rw [SharedStats.goes, SharedStats.goes, List.set_set]
  rfl

/-- A thread that has nothing to do any more. -/
theorem alone_idle (h : thread < s.threads.length) (n : Nat) :
    alone (s.goes thread .idle) thread n = s.goes thread .idle := by
  induction n with
  | zero => rfl
  | succ n ih =>
      have hturn : (s.goes thread .idle).turn thread false = s.goes thread .idle := by
        simp only [SharedStats.turn, goes_found h]
      rw [alone, hturn, ih]

/-- `update_mem_peak` alone. -/
theorem alone_loadPeak (h : thread < s.threads.length) (live : UInt64) (n : Nat) :
    alone (s.goes thread (.loadPeak live)) thread (n + 2)
      = { s with stats := updateMemPeak s.stats live }.goes thread .idle := by
  have hload : (s.goes thread (.loadPeak live)).turn thread false
      = s.goes thread (peakLoop live s.stats.bytesPeak) := by
    simp only [SharedStats.turn, goes_found h, goes_goes]
    rfl
  rw [alone, hload, peakLoop, updateMemPeak]
  split
  case isTrue hlt =>
      have hcas : (s.goes thread (.casPeak live s.stats.bytesPeak hlt)).turn thread false
          = { s with stats := { s.stats with bytesPeak := live } }.goes thread .idle := by
        simp only [SharedStats.turn, goes_found h]
        simp [SharedStats.goes]
      rw [alone, hcas]
      apply alone_idle
      exact h
  case isFalse => exact alone_idle h (n + 1)

/-- The addition alone, with `update_mem_peak`. -/
theorem alone_addLive (h : thread < s.threads.length) {delta size : UInt64}
    (hle : delta ≤ size) (n : Nat) :
    alone (s.goes thread (.addLive delta size hle)) thread (n + 3) = { s with
      stats := addMemStatsLive s.stats delta
      sizes := size :: s.sizes
      added := s.added + delta.toNat }.goes thread .idle := by
  have hadd : (s.goes thread (.addLive delta size hle)).turn thread false = { s with
      stats := { s.stats with bytesLive := s.stats.bytesLive + delta }
      sizes := size :: s.sizes
      added := s.added + delta.toNat }.goes thread (.loadPeak (s.stats.bytesLive + delta)) := by
    simp only [SharedStats.turn, goes_found h]
    simp [SharedStats.goes]
  rw [alone, hadd]
  apply alone_loadPeak
  exact h

/-- `sub_mem_stats_live` alone. -/
theorem alone_loadLive (h : thread < s.threads.length) (size : UInt64) (left : Option UInt64)
    (n : Nat) :
    alone (s.goes thread (.loadLive size left)) thread (n + 2) = { s with
      stats := subMemStatsLive s.stats size
      sizes := left.toList ++ s.sizes
      subtracted := s.subtracted + size.toNat }.goes thread .idle := by
  have hload : (s.goes thread (.loadLive size left)).turn thread false
      = s.goes thread (.casLive size s.stats.bytesLive left) := by
    simp only [SharedStats.turn, goes_found h, goes_goes]
    rfl
  have hcas : (s.goes thread (.casLive size s.stats.bytesLive left)).turn thread false = { s with
      stats := subMemStatsLive s.stats size
      sizes := left.toList ++ s.sizes
      subtracted := s.subtracted + size.toNat }.goes thread .idle := by
    simp only [SharedStats.turn, goes_found h]
    simp [SharedStats.goes, subMemStatsLive, newLive]
  rw [alone, hload, alone, hcas]
  apply alone_idle
  exact h

/-- The statistics, the sizes and the threads after a call. -/
structure Returned (s s' : SharedStats) (thread : Nat) (stats : MAllocStats) (sizes : List UInt64) :
    Prop where
  stats_eq : s'.stats = stats
  sizes_eq : s'.sizes = sizes
  threads_eq : s'.threads = s.threads.set thread .idle

/-- `alloc_mem_stats` alone. -/
theorem alone_allocCount (h : thread < s.threads.length) (size : UInt64) :
    Returned s (alone (s.goes thread (.allocCount size)) thread 4) thread
      (allocMemStats s.stats size) (size :: s.sizes) := by
  have hcount : (s.goes thread (.allocCount size)).turn thread false = { s with
      stats := { s.stats with allocCount := s.stats.allocCount + 1 } }.goes thread
        (.addLive size size (UInt64.le_refl size)) := by
    simp only [SharedStats.turn, goes_found h]
    simp [SharedStats.goes]
  rw [alone, hcount, alone_addLive]
  · exact ⟨rfl, rfl, rfl⟩
  · exact h

/-- `free_mem_stats` alone. -/
theorem alone_freeCount (h : thread < s.threads.length) (size : UInt64) :
    Returned s (alone (s.goes thread (.freeCount size)) thread 4) thread
      (freeMemStats s.stats size) s.sizes := by
  have hcount : (s.goes thread (.freeCount size)).turn thread false = { s with
      stats := { s.stats with freeCount := s.stats.freeCount + 1 } }.goes thread
        (.loadLive size none) := by
    simp only [SharedStats.turn, goes_found h]
    simp [SharedStats.goes]
  rw [alone, hcount, alone_loadLive]
  · exact ⟨rfl, rfl, rfl⟩
  · exact h

/-- The statistics of `mrealloc` alone. -/
theorem alone_reallocCount (h : thread < s.threads.length) (oldSize size : UInt64) :
    Returned s (alone (s.goes thread (.reallocCount oldSize size)) thread 4) thread
      (reallocMemStats s.stats oldSize size) (size :: s.sizes) := by
  have hcount : (s.goes thread (.reallocCount oldSize size)).turn thread false = { s with
      stats := { s.stats with reallocCount := s.stats.reallocCount + 1 } }.goes thread
        (resize oldSize size) := by
    simp only [SharedStats.turn, goes_found h]
    simp [SharedStats.goes]
  rw [alone, hcount, reallocMemStats, resize]
  split
  · rw [alone_addLive]
    · exact ⟨rfl, rfl, rfl⟩
    · exact h
  · rw [alone_loadLive]
    · exact ⟨rfl, rfl, rfl⟩
    · exact h

/-- The call, and then four atomic operations of its thread. -/
def callAlone (thread : Nat) (op : StatsOp) : List StatsOp :=
  op :: List.replicate 4 (.turn thread false)

/-- With no other thread, a call does what it does in the allocator for one thread, and four atomic
operations are enough for it. -/
theorem call_alone (idle : s.threads[thread]? = some .idle) :
    (∀ size, ∃ s', run statsStep s (callAlone thread (.alloc thread size)) = .ok s' ∧
      Returned s s' thread (allocMemStats s.stats size) (size :: s.sizes)) ∧
    (∀ size ∈ s.sizes, ∃ s', run statsStep s (callAlone thread (.free thread size)) = .ok s' ∧
      Returned s s' thread (freeMemStats s.stats size) (s.sizes.erase size)) ∧
    (∀ oldSize ∈ s.sizes, ∀ size,
      ∃ s', run statsStep s (callAlone thread (.realloc thread oldSize size)) = .ok s' ∧
        Returned s s' thread (reallocMemStats s.stats oldSize size)
          (size :: s.sizes.erase oldSize)) := by
  obtain ⟨hlt, -⟩ := List.getElem?_eq_some_iff.mp idle
  refine ⟨fun size => ?_, fun size hmem => ?_, fun oldSize hmem size => ?_⟩
  · refine ⟨_, run_alone (s.next (.alloc thread size)) thread 4, ?_⟩
    have hnext : s.next (.alloc thread size) = s.goes thread (.allocCount size) := if_pos idle
    rw [hnext]
    exact alone_allocCount hlt size
  · refine ⟨_, run_alone (s.next (.free thread size)) thread 4, ?_⟩
    have hnext : s.next (.free thread size)
        = { s with sizes := s.sizes.erase size }.goes thread (.freeCount size) :=
      if_pos ⟨idle, hmem⟩
    have hlt' : thread < { s with sizes := s.sizes.erase size }.threads.length := hlt
    obtain ⟨hstats, hsizes, hthreads⟩ := alone_freeCount hlt' size
    rw [hnext]
    exact ⟨hstats, hsizes, hthreads⟩
  · refine ⟨_, run_alone (s.next (.realloc thread oldSize size)) thread 4, ?_⟩
    have hnext : s.next (.realloc thread oldSize size)
        = { s with sizes := s.sizes.erase oldSize }.goes thread (.reallocCount oldSize size) :=
      if_pos ⟨idle, hmem⟩
    have hlt' : thread < { s with sizes := s.sizes.erase oldSize }.threads.length := hlt
    obtain ⟨hstats, hsizes, hthreads⟩ := alone_reallocCount hlt' oldSize size
    rw [hnext]
    exact ⟨hstats, hsizes, hthreads⟩

end Alone

/-! ### Runs -/

/-- Every step happens. -/
theorem run_statsStep (ops : List StatsOp) (s : SharedStats) :
    ∃ s', run statsStep s ops = .ok s' := by
  induction ops generalizing s with
  | nil => exact ⟨s, rfl⟩
  | cons op ops ih => exact ih (s.next op)

/-- The peak and the live bytes after any steps of any threads. -/
theorem statistics_interleaved (threads : Nat) (ops : List StatsOp) :
    ∃ s, run statsStep (.initial threads) ops = .ok s ∧
      (Quiet s → IsGreatest {n | ∃ t, Visits statsStep (.initial threads) ops t ∧
        n = t.stats.bytesLive.toNat} s.stats.bytesPeak.toNat) ∧
      (Guarded statsStep Fits (.initial threads) ops →
        (∀ pc ∈ s.threads, ¬ Truncates pc) ∧
        s.added = s.subtracted + s.stats.bytesLive.toNat ∧
        (Quiet s → s.stats.bytesLive.toNat = sumSizes s.sizes)) := by
  obtain ⟨s, hrun⟩ := run_statsStep ops (.initial threads)
  refine ⟨s, hrun, fun hquiet => ?_, fun hfits => ?_⟩
  · -- the peak needs no guard
    have hguard : Guarded statsStep (fun _ _ => True) (.initial threads) ops :=
      guarded_of_forall (fun _ _ => trivial) _
    have hinitial := peakCovers_initial threads
    rw [← insert_empty_eq] at hinitial
    have hcovers := run_visited (fun s => s.stats.bytesLive.toNat) PeakCovers
      (fun seen s op s' h _ hstep => by
        cases hstep
        exact (next_transition s op).peakCovers h)
      ops ∅ (.initial threads) s hinitial hguard hrun
    rw [Set.empty_union] at hcovers
    exact hcovers.isGreatest hquiet
  · have hcounted := run_invariant Counted
      (fun s op s' h hfits hstep => by
        cases hstep
        exact (next_transition s op).counted h hfits)
      ops (.initial threads) s (counted_initial threads) hfits hrun
    exact ⟨hcounted.exact_sub, hcounted.added_eq, hcounted.live_of_quiet⟩

/-- Two threads get a block each, and both have added before either looks at the peak. Then one of
them gives its block back. -/
def twoThreads : List StatsOp :=
  [.alloc 0 5, .alloc 1 7, .turn 0 false, .turn 1 false, .turn 1 false, .turn 0 false,
    .turn 0 false, .turn 1 false, .turn 1 true, .turn 0 false, .turn 1 false, .free 1 7,
    .turn 1 false, .turn 1 false, .turn 1 true, .turn 1 false]

/-- The peak is 12, though the thread that has seen 7 looks at it in between. -/
theorem statistics_interleaved_twoThreads :
    ∃ s, run statsStep (.initial 2) twoThreads = .ok s ∧
      s.stats.bytesLive.toNat = sumSizes s.sizes ∧
      IsGreatest {n | ∃ t, Visits statsStep (.initial 2) twoThreads t ∧
        n = t.stats.bytesLive.toNat} 12 := by
  obtain ⟨s, hrun, hpeak, hcounted⟩ := statistics_interleaved 2 twoThreads
  obtain ⟨-, -, hlive⟩ := hcounted (by decide)
  have hs : Quiet s ∧ s.stats.bytesPeak.toNat = 12 := by
    cases hrun
    decide
  exact ⟨s, hrun, hlive hs.1, hs.2 ▸ hpeak hs.1⟩

/-- One thread gets two blocks of `2 ^ 63` bytes. -/
def twoHalves : List StatsOp :=
  [.alloc 0 0x8000000000000000, .turn 0 false, .turn 0 false, .turn 0 false, .turn 0 false,
    .alloc 0 0x8000000000000000, .turn 0 false, .turn 0 false, .turn 0 false, .turn 0 false]

/-- The counter wraps: no call is in progress, and it is not the sum of the sizes. -/
theorem statistics_wrap :
    ∃ s, run statsStep (.initial 1) twoHalves = .ok s ∧ Quiet s ∧
      s.stats.bytesLive.toNat = 0 ∧ sumSizes s.sizes = 2 ^ 64 :=
  ⟨_, rfl, by decide, by decide, by decide⟩

end MustDb.Proofs.Utils
