import MustDb.Utils.FaultThreads

/-!
# `MustDb.Proofs.Utils.FaultThreads`: fault injection is exact under threads

The comment in `src/utils/alloc.c` says why `mem_should_fail` is a compare-and-exchange loop: with
several threads, the first `n` allocations are to succeed, and no others.

Each call takes effect at its last atomic operation: the store, the load that finds the countdown at
zero or below, or the compare-and-exchange that finds its value (`next_moves`). So the calls of all
threads are linearizable (`faults_linearizable`), and what holds of the calls one after the other
holds of the threads: `n` calls are told to succeed (`first_n_allocations_succeed`).
-/

set_option autoImplicit false

namespace MustDb.Proofs.Utils

open MustDb.Lib
open MustDb.Utils

/-! ### The threads as callers of one object -/

/-- Where a thread stands in its call. -/
def FaultPc.phase : FaultPc → Phase FaultCall FaultResult
  | .idle => .idle
  | .load | .cas _ _ _ => .called .memShouldFail
  | .set countdown => .called (.setMemFaultCountdown countdown)
  | .clear => .called .clearMemFault
  | .return call result => .done call result

/-- Where the threads stand. A thread that is not there is idle. -/
def faultPhase (s : SharedFault) (thread : Nat) : Phase FaultCall FaultResult :=
  match s.threads[thread]? with
  | none => .idle
  | some pc => FaultPc.phase pc

/-- The allocator of one thread, with this countdown. -/
def withCountdown (countdown : Int64) : Allocator :=
  { Allocator.initial with faultCountdown := countdown }

/-- The shared countdown is the one of an allocator that is called by one thread. -/
def faultView : View SharedFault Allocator FaultCall FaultResult where
  history := SharedFault.history
  phase := faultPhase
  object := fun s => withCountdown s.faultCountdown

theorem faultPhase_found {s : SharedFault} {thread : Nat} {pc : FaultPc}
    (found : s.threads[thread]? = some pc) : faultPhase s thread = FaultPc.phase pc := by
  unfold faultPhase
  rw [found]

/-- The other threads stay where they are. -/
theorem faultPhase_goes {s s' : SharedFault} {thread : Nat} {pc pc' : FaultPc}
    (found : s.threads[thread]? = some pc) (hthreads : s'.threads = s.threads) :
    faultPhase (s'.goes thread pc')
      = Function.update (faultPhase s) thread (FaultPc.phase pc') := by
  obtain ⟨hlt, -⟩ := List.getElem?_eq_some_iff.mp found
  funext other
  unfold faultPhase SharedFault.goes
  by_cases hother : other = thread
  · subst hother
    simp [hthreads, hlt]
  · simp [hthreads, List.getElem?_set_ne (Ne.symm hother), Function.update_of_ne hother]

/-! ### One step -/

/-- A load of the countdown, or a compare-and-exchange that fails. The call takes effect when it has
found a countdown that is not above zero. -/
theorem countdownLoop_moves {s : SharedFault} {thread : Nat} {pc : FaultPc}
    (found : s.threads[thread]? = some pc) (hphase : FaultPc.phase pc = .called .memShouldFail) :
    Moves faultCall faultView s (s.goes thread (countdownLoop s.faultCountdown)) := by
  have hcalled : faultPhase s thread = .called .memShouldFail :=
    (faultPhase_found found).trans hphase
  unfold countdownLoop
  split
  case isTrue hneg =>
      have hcall : faultCall (withCountdown s.faultCountdown) .memShouldFail
          = (withCountdown s.faultCountdown, some false) := by
        simp [faultCall, memShouldFail, withCountdown, hneg]
      refine .effect thread .memShouldFail hcalled rfl ?_ ?_
      · exact (faultPhase_goes found rfl).trans (by simp [faultView, hcall, FaultPc.phase])
      · simp [faultView, hcall, SharedFault.goes]
  case isFalse hneg =>
      split
      case isTrue hzero =>
          have hcall : faultCall (withCountdown s.faultCountdown) .memShouldFail
              = (withCountdown s.faultCountdown, some true) := by
            simp [faultCall, memShouldFail, withCountdown, hzero]
          refine .effect thread .memShouldFail hcalled rfl ?_ ?_
          · exact (faultPhase_goes found rfl).trans (by simp [faultView, hcall, FaultPc.phase])
          · simp [faultView, hcall, SharedFault.goes]
      case isFalse hzero =>
          refine .silent rfl ?_ rfl
          exact (faultPhase_goes found rfl).trans
            (by rw [FaultPc.phase, ← hcalled, Function.update_eq_self]; rfl)

/-- An atomic operation of a thread, or its return. -/
theorem turn_moves (s : SharedFault) (thread : Nat) (spurious : Bool) :
    Moves faultCall faultView s (s.turn thread spurious) := by
  unfold SharedFault.turn
  cases found : s.threads[thread]? with
  | none => exact .silent rfl rfl rfl
  | some pc =>
      have hphase := faultPhase_found found
      cases pc with
      | idle => exact .silent rfl rfl rfl
      | load => exact countdownLoop_moves found rfl
      | cas countdown nonneg ne_zero =>
          simp only
          split
          case isTrue hcas =>
              obtain ⟨-, rfl⟩ := hcas
              have hcall : faultCall (withCountdown s.faultCountdown) .memShouldFail
                  = (withCountdown (s.faultCountdown - 1), some false) := by
                simp [faultCall, memShouldFail, withCountdown, nonneg, ne_zero]
              refine .effect thread .memShouldFail hphase rfl ?_ ?_
              · exact (faultPhase_goes found rfl).trans (by simp [faultView, hcall, FaultPc.phase])
              · simp [faultView, hcall, SharedFault.goes]
          case isFalse => exact countdownLoop_moves found rfl
      | set countdown =>
          exact .effect thread (.setMemFaultCountdown countdown) hphase rfl
            (faultPhase_goes found rfl) rfl
      | clear => exact .effect thread .clearMemFault hphase rfl (faultPhase_goes found rfl) rfl
      | «return» call result =>
          exact .respond thread call result hphase rfl (faultPhase_goes found rfl) rfl

/-- Each step begins a call, lets one take effect, returns from one, or does none of these. -/
theorem next_moves (s : SharedFault) (op : FaultOp) :
    Moves faultCall faultView s (s.next op) := by
  cases op with
  | invoke thread call =>
      simp only [SharedFault.next]
      split
      case isTrue found =>
          refine .invoke thread call (faultPhase_found found) rfl ?_ rfl
          cases call with
          | memShouldFail | setMemFaultCountdown _ | clearMemFault =>
              exact faultPhase_goes found rfl
      case isFalse => exact .silent rfl rfl rfl
  | turn thread spurious => exact turn_moves s thread spurious

/-- Every state of a run is explained by an order of the calls. -/
theorem fault_explained (threads : Nat) (countdown : Int64) {ops : List FaultOp} {s : SharedFault}
    (hrun : run faultStep (.initial threads countdown) ops = .ok s) :
    Explained faultCall faultView (withCountdown countdown) s := by
  have hidle : faultPhase (.initial threads countdown) = fun _ => .idle := by
    funext thread
    unfold faultPhase SharedFault.initial
    cases hfound : (List.replicate threads FaultPc.idle)[thread]? with
    | none => rfl
    | some pc =>
        have hpc := List.eq_of_mem_replicate (List.mem_of_getElem? hfound)
        rw [hpc]
        rfl
  have hstep : ∀ t op t', faultStep t op = .ok t' → Moves faultCall faultView t t' := by
    intro t op t' hok
    cases hok
    exact next_moves t op
  exact run_explained hstep rfl hidle hrun

/-- The calls of all threads are linearizable: each takes effect at one moment between its beginning
and its return, and one thread that makes the calls in this order gets the same answers. -/
theorem faults_linearizable (threads : Nat) (countdown : Int64) {ops : List FaultOp}
    {s : SharedFault} (hrun : run faultStep (.initial threads countdown) ops = .ok s) :
    Linearizable faultCall (withCountdown countdown) s.history :=
  (fault_explained threads countdown hrun).linearizable

/-- A thread sets the countdown to one. Then it and another thread ask, and both load the one. -/
def twoAsk : List FaultOp :=
  [.invoke 0 (.setMemFaultCountdown 1), .turn 0 false, .turn 0 false, .invoke 0 .memShouldFail,
    .invoke 1 .memShouldFail, .turn 0 false, .turn 1 false, .turn 1 true, .turn 0 false,
    .turn 1 false, .turn 1 false, .turn 0 false]

theorem run_twoAsk : run faultStep (.initial 2 (-1)) twoAsk
    = .ok ⟨0, [.idle, .idle],
        [.invoke 0 (.setMemFaultCountdown 1), .respond 0 (.setMemFaultCountdown 1) none,
          .invoke 0 .memShouldFail, .invoke 1 .memShouldFail,
          .respond 1 .memShouldFail (some true), .respond 0 .memShouldFail (some false)]⟩ := by
  rfl

/-- The two threads. The one that is slower to store is told to fail. -/
theorem faults_linearizable_two_threads :
    Linearizable faultCall (withCountdown (-1))
      [.invoke 0 (.setMemFaultCountdown 1), .respond 0 (.setMemFaultCountdown 1) none,
        .invoke 0 .memShouldFail, .invoke 1 .memShouldFail,
        .respond 1 .memShouldFail (some true), .respond 0 .memShouldFail (some false)] :=
  faults_linearizable 2 (-1) run_twoAsk

/-! ### The calls of one thread -/

/-- The allocations that are told to succeed. -/
def granted (taken : List (Taken FaultCall FaultResult)) : Nat :=
  taken.countP fun entry => entry.2.2 = some false

/-- After a sequence of calls of `mem_should_fail`, from a countdown of `n`. -/
structure CountedDown (n : Int) (taken : List (Taken FaultCall FaultResult)) (s : Allocator) :
    Prop where
  count_eq : (granted taken : Int) + s.faultCountdown.toInt = n
  granted_eq : 0 < s.faultCountdown.toInt → granted taken = taken.length
  nonneg : 0 ≤ s.faultCountdown.toInt

/-- A countdown that is not negative: it is at zero, or it goes down by one. -/
theorem memShouldFail_cases (s : Allocator) (h : 0 ≤ s.faultCountdown.toInt) :
    (faultCall s .memShouldFail = (s, some true) ∧ s.faultCountdown.toInt = 0) ∨
      ∃ s', faultCall s .memShouldFail = (s', some false) ∧
        s'.faultCountdown.toInt + 1 = s.faultCountdown.toInt ∧ 0 ≤ s'.faultCountdown.toInt := by
  have hneg : ¬ s.faultCountdown < 0 := by
    rw [Int64.lt_iff_toInt_lt]
    simpa using h
  by_cases hzero : s.faultCountdown = 0
  · refine Or.inl ⟨?_, by simp [hzero]⟩
    simp [faultCall, memShouldFail, hzero]
  · refine Or.inr ⟨{ s with faultCountdown := s.faultCountdown - 1 }, ?_, ?_⟩
    · simp [faultCall, memShouldFail, hneg, hzero]
    · have hpos : s.faultCountdown.toInt ≠ 0 := fun heq => hzero (Int64.toInt_inj.mp heq)
      have hlt := Int64.toInt_lt s.faultCountdown
      have hsub : (s.faultCountdown - 1).toInt = s.faultCountdown.toInt - 1 := by
        rw [Int64.toInt_sub, Int64.toInt_one, Int.bmod_eq_of_le]
        all_goals omega
      simp only [hsub]
      omega

/-- Calls of `mem_should_fail`, one after the other. -/
theorem Replays.countedDown {start s : Allocator} {taken : List (Taken FaultCall FaultResult)}
    (hstart : 0 ≤ start.faultCountdown.toInt) (h : Replays faultCall start taken s)
    (hcalls : ∀ entry ∈ taken, entry.2.1 = .memShouldFail) :
    CountedDown start.faultCountdown.toInt taken s := by
  induction h with
  | nil => exact ⟨by simp [granted], fun _ => rfl, hstart⟩
  | @snoc taken s h thread call ih =>
      obtain ⟨hcount, hgranted, hnonneg⟩ :=
        ih fun entry hmem => hcalls entry (List.mem_append_left _ hmem)
      obtain rfl : call = .memShouldFail :=
        hcalls (thread, call, _) (List.mem_append_right _ List.mem_cons_self)
      rcases memShouldFail_cases s hnonneg with ⟨hcall, hzero⟩ | ⟨s', hcall, hdown, hnonneg'⟩
      · rw [hcall]
        have hsame : granted (taken ++ [(thread, .memShouldFail, some true)]) = granted taken := by
          simp [granted]
        exact ⟨by rw [hsame]; exact hcount, fun hpos => absurd hzero hpos.ne', hnonneg⟩
      · rw [hcall]
        have hmore : granted (taken ++ [(thread, .memShouldFail, some false)])
            = granted taken + 1 := by
          simp [granted]
        have hpos : 0 < s.faultCountdown.toInt := by omega
        refine ⟨?_, fun _ => ?_, hnonneg'⟩
        · simp only [hmore]
          omega
        · rw [hmore, hgranted hpos, List.length_append, List.length_singleton]

/-- `n` calls are told to succeed, or all of them if there are fewer. -/
theorem CountedDown.granted_eq_min {n : Int} {taken : List (Taken FaultCall FaultResult)}
    {s : Allocator} (h : CountedDown n taken s) : granted taken = min n.toNat taken.length := by
  have hle : granted taken ≤ taken.length := List.countP_le_length
  obtain ⟨hcount, hgranted, hnonneg⟩ := h
  by_cases hpos : 0 < s.faultCountdown.toInt
  · have hall := hgranted hpos
    omega
  · omega

/-- From a countdown of zero no call is told to succeed. -/
theorem Replays.all_fail {start s : Allocator} {taken : List (Taken FaultCall FaultResult)}
    (hstart : start.faultCountdown.toInt = 0) (h : Replays faultCall start taken s)
    (hcalls : ∀ entry ∈ taken, entry.2.1 = .memShouldFail) :
    ∀ entry ∈ taken, entry.2.2 = some true := by
  induction h with
  | nil => exact fun entry hmem => absurd hmem List.not_mem_nil
  | @snoc taken s h thread call ih =>
      have hcalls' : ∀ entry ∈ taken, entry.2.1 = .memShouldFail :=
        fun entry hmem => hcalls entry (List.mem_append_left _ hmem)
      obtain rfl : call = .memShouldFail :=
        hcalls (thread, call, _) (List.mem_append_right _ List.mem_cons_self)
      obtain ⟨hcount, -, hnonneg⟩ := Replays.countedDown hstart.ge h hcalls'
      intro entry hmem
      rcases List.mem_append.mp hmem with hmem | hmem
      · exact ih hcalls' entry hmem
      · rw [List.mem_singleton.mp hmem]
        rcases memShouldFail_cases s hnonneg with ⟨hcall, -⟩ | ⟨s', hcall, hdown, hnonneg'⟩
        · simp [hcall]
        · omega

/-- When a call is told to fail, the countdown is at zero after it. -/
theorem Replays.zero_of_fail {start s : Allocator} {taken : List (Taken FaultCall FaultResult)}
    (hstart : 0 ≤ start.faultCountdown.toInt) (h : Replays faultCall start taken s)
    (hcalls : ∀ entry ∈ taken, entry.2.1 = .memShouldFail)
    (hfail : ∃ entry ∈ taken, entry.2.2 = some true) : s.faultCountdown.toInt = 0 := by
  obtain ⟨-, hgranted, hnonneg⟩ := Replays.countedDown hstart h hcalls
  by_contra hne
  -- otherwise all of them were told to succeed
  have hall := List.countP_eq_length.mp (hgranted (by omega))
  obtain ⟨entry, hmem, htrue⟩ := hfail
  have hfalse := of_decide_eq_true (hall entry hmem)
  rw [htrue] at hfalse
  cases hfalse

/-! ### The threads -/

/-- The operation is a call of `mem_should_fail`, or it begins no call. -/
def AllocatesOnly (op : FaultOp) : Prop :=
  ∀ thread call, op = .invoke thread call → call = .memShouldFail

/-- A turn of a thread begins no call. -/
theorem invoke_mem_turn {s : SharedFault} {moved thread : Nat} {spurious : Bool} {call : FaultCall}
    (h : .invoke thread call ∈ (s.turn moved spurious).history) :
    .invoke thread call ∈ s.history := by
  unfold SharedFault.turn at h
  cases found : s.threads[moved]? with
  | none =>
      rw [found] at h
      exact h
  | some pc =>
      rw [found] at h
      cases pc with
      | idle | load | set _ | clear => exact h
      | cas countdown nonneg ne_zero =>
          simp only at h
          split at h
          case isTrue => exact h
          case isFalse => exact h
      | «return» call' result => simpa [SharedFault.goes] using h

/-- The calls of a run are those that its operations begin. -/
theorem AllocatesOnly.next {s : SharedFault} {op : FaultOp} (hop : AllocatesOnly op)
    (h : ∀ thread call, .invoke thread call ∈ s.history → call = .memShouldFail) :
    ∀ thread call, .invoke thread call ∈ (s.next op).history → call = .memShouldFail := by
  intro thread call hmem
  cases op with
  | turn moved spurious => exact h thread call (invoke_mem_turn hmem)
  | invoke moved call' =>
      simp only [SharedFault.next] at hmem
      split at hmem
      case isFalse => exact h thread call hmem
      case isTrue =>
          rcases List.mem_append.mp hmem with hmem | hmem
          · exact h thread call hmem
          · cases List.mem_singleton.mp hmem
            exact hop thread call rfl

/-- With a countdown of `n`, exactly the first `n` allocations succeed, whatever the threads do at
the same time. No more than `n` calls of `mem_should_fail` return `false`. When none is in progress,
`n` calls have, or all of them if there were fewer. A call that begins after another one has
returned `true` returns `true`. -/
theorem first_n_allocations_succeed (threads : Nat) (countdown : Int64) (hcountdown : 0 ≤ countdown)
    {ops : List FaultOp} (hops : ∀ op ∈ ops, AllocatesOnly op) {s : SharedFault}
    (hrun : run faultStep (.initial threads countdown) ops = .ok s) :
    granted (responses s.history) ≤ countdown.toInt.toNat ∧
      ((∀ pc ∈ s.threads, pc = .idle) → granted (responses s.history)
        = min countdown.toInt.toNat (responses s.history).length) ∧
      ∀ before after thread, s.history = before ++ .invoke thread .memShouldFail :: after →
        (∃ other, (other, .memShouldFail, some true) ∈ responses before) →
        ∀ result, (thread, .memShouldFail, result) ∈ responses after → result = some true := by
  obtain ⟨taken, htimeline, hreplays⟩ := fault_explained threads countdown hrun
  have hinvoked : ∀ thread call, .invoke thread call ∈ s.history → call = .memShouldFail := by
    have hstep : ∀ (t : SharedFault) op t',
        (∀ thread call, .invoke thread call ∈ t.history → call = .memShouldFail) →
        AllocatesOnly op → faultStep t op = .ok t' →
        ∀ thread call, .invoke thread call ∈ t'.history → call = .memShouldFail := by
      intro t op t' h hop hok
      cases hok
      exact hop.next h
    exact run_invariant _ hstep ops _ s (fun _ _ hmem => absurd hmem List.not_mem_nil)
      (guarded_of_forall hops _) hrun
  have hcalls := (htimeline.forall_taken hinvoked).1
  have hstart : 0 ≤ (withCountdown countdown).faultCountdown.toInt := by
    simpa [withCountdown] using Int64.le_iff_toInt_le.mp hcountdown
  have hmin : granted taken = min countdown.toInt.toNat taken.length :=
    (Replays.countedDown hstart hreplays hcalls).granted_eq_min
  refine ⟨?_, fun hquiet => ?_, ?_⟩
  · have hle : granted (responses s.history) ≤ granted taken :=
      htimeline.responses_subperm.countP_le _
    omega
  · have hidle : ∀ thread, faultPhase s thread = .idle := by
      intro thread
      unfold faultPhase
      cases found : s.threads[thread]? with
      | none => rfl
      | some pc =>
          rw [hquiet pc (List.mem_of_getElem? found)]
          rfl
    have hperm := htimeline.responses_perm hidle
    have heq : granted (responses s.history) = granted taken := hperm.countP_eq _
    have hlength : (responses s.history).length = taken.length := hperm.length_eq
    omega
  · intro before after thread hhistory hfailed result hmem
    obtain ⟨other, hother⟩ := hfailed
    have htimeline' : Timeline (before ++ .invoke thread .memShouldFail :: after) taken
        (faultPhase s) := hhistory ▸ htimeline
    obtain ⟨first, rest, rfl, hbefore, hafter⟩ := htimeline'.real_time
    obtain ⟨middle, hfirst, hrest⟩ := hreplays.split rfl
    -- the call that has failed is among the first ones, so the countdown is at zero after them
    have hzero := Replays.zero_of_fail hstart hfirst
      (fun entry hmem => hcalls entry (List.mem_append_left _ hmem)) ⟨_, hbefore _ hother, rfl⟩
    exact Replays.all_fail hzero hrest
      (fun entry hmem => hcalls entry (List.mem_append_right _ hmem)) _ (hafter _ _ hmem)

theorem run_twoAsk_tail :
    run faultStep (.initial 2 1) (twoAsk.drop 3)
      = .ok ⟨0, [.idle, .idle],
          [.invoke 0 .memShouldFail, .invoke 1 .memShouldFail,
            .respond 1 .memShouldFail (some true), .respond 0 .memShouldFail (some false)]⟩ := by
  rfl

/-- One of two threads is told to succeed. -/
theorem first_n_allocations_succeed_two_threads :
    ∃ s, run faultStep (.initial 2 1) (twoAsk.drop 3) = .ok s ∧
      granted (responses s.history) = 1 := by
  have hops : ∀ op ∈ twoAsk.drop 3, AllocatesOnly op := by
    intro op hmem thread call heq
    subst heq
    simp [twoAsk] at hmem
    rcases hmem with ⟨-, rfl⟩ | ⟨-, rfl⟩
    · rfl
    · rfl
  have hidle : ∀ pc ∈ [FaultPc.idle, .idle], pc = .idle := by decide
  exact ⟨_, run_twoAsk_tail,
    (first_n_allocations_succeed 2 1 (by decide) hops run_twoAsk_tail).2.1 hidle⟩

end MustDb.Proofs.Utils
