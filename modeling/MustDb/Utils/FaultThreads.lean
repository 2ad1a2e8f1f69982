import MustDb.Lib.Linear
import MustDb.Utils.Alloc

/-!
# `MustDb.Utils.FaultThreads`: the fault injection of the allocator, for many threads

`fault_countdown` of `src/utils/alloc.c` is an atomic variable that all threads share, in a build
with `MUSTDB_ENABLE_ALLOC_FAULTS`. A thread is here its point in `mem_should_fail`,
`set_mem_fault_countdown` or `clear_mem_fault`. One turn of a thread is one atomic operation, with
the work on local variables that follows it, or the return from the call. A load gets the last value
of the variable. A compare-and-exchange is weak: it can fail though the value is the expected one
(`spurious`). If it fails, the expected value becomes the one that it has found.

`history` is not a variable of the program: it records when the calls begin and what they return.
-/

set_option autoImplicit false

namespace MustDb.Utils

open MustDb.Lib

/-- A call about the countdown. -/
inductive FaultCall where
  /-- `mem_should_fail` -/
  | memShouldFail
  /-- `set_mem_fault_countdown` -/
  | setMemFaultCountdown (countdown : Int64)
  /-- `clear_mem_fault` -/
  | clearMemFault
  deriving DecidableEq

/-- What a call returns: the answer of `mem_should_fail`, or nothing. -/
abbrev FaultResult := Option Bool

/-- The calls, made by one thread. -/
def faultCall (s : Allocator) : FaultCall → Allocator × FaultResult
  | .memShouldFail => ((memShouldFail true s).1, some (memShouldFail true s).2)
  | .setMemFaultCountdown countdown => (setMemFaultCountdown true s countdown, none)
  | .clearMemFault => (clearMemFault true s, none)

/-- Where a thread is: the atomic operation that it does next. -/
inductive FaultPc where
  /-- No call is in progress. -/
  | idle
  /-- `mem_should_fail`: the load. -/
  | load
  /-- `mem_should_fail`: the compare-and-exchange. -/
  | cas (countdown : Int64) (nonneg : ¬ countdown < 0) (ne_zero : countdown ≠ 0)
  /-- `set_mem_fault_countdown`: the store. -/
  | set (countdown : Int64)
  /-- `clear_mem_fault`: the store. -/
  | clear
  /-- The return from the call. -/
  | return (call : FaultCall) (result : FaultResult)
  deriving DecidableEq

/-- The shared countdown, and the threads. -/
structure SharedFault where
  faultCountdown : Int64
  threads : List FaultPc
  history : List (Event FaultCall FaultResult)
  deriving DecidableEq

/-- That many threads, and no call so far. -/
def SharedFault.initial (threads : Nat) (countdown : Int64) : SharedFault where
  faultCountdown := countdown
  threads := List.replicate threads .idle
  history := []

/-- A thread goes on. -/
def SharedFault.goes (s : SharedFault) (thread : Nat) (pc : FaultPc) : SharedFault :=
  { s with threads := s.threads.set thread pc }

/-- The first operation of a call. -/
def FaultCall.entry : FaultCall → FaultPc
  | .memShouldFail => .load
  | .setMemFaultCountdown countdown => .set countdown
  | .clearMemFault => .clear

/-- The two tests at the top of the loop in `mem_should_fail`. -/
def countdownLoop (countdown : Int64) : FaultPc :=
  if hneg : countdown < 0 then .return .memShouldFail (some false)
  else if hzero : countdown = 0 then .return .memShouldFail (some true)
  else .cas countdown hneg hzero

/-- The next atomic operation of a thread, or its return. -/
def SharedFault.turn (s : SharedFault) (thread : Nat) (spurious : Bool) : SharedFault :=
  match s.threads[thread]? with
  | none | some .idle => s
  | some .load => s.goes thread (countdownLoop s.faultCountdown)
  | some (.cas countdown _ _) =>
      if ¬ spurious ∧ s.faultCountdown = countdown then
        { s with faultCountdown := countdown - 1 }.goes thread
          (.return .memShouldFail (some false))
      else s.goes thread (countdownLoop s.faultCountdown)
  | some (.set countdown) =>
      { s with faultCountdown := countdown }.goes thread
        (.return (.setMemFaultCountdown countdown) none)
  | some .clear => { s with faultCountdown := -1 }.goes thread (.return .clearMemFault none)
  | some (.return call result) =>
      { s with history := s.history ++ [Event.respond thread call result] }.goes thread .idle

/-- What can happen next. -/
inductive FaultOp where
  /-- A thread begins a call. -/
  | invoke (thread : Nat) (call : FaultCall)
  /-- A thread does its next atomic operation, or returns. -/
  | turn (thread : Nat) (spurious : Bool)
  deriving DecidableEq

/-- The state after one step. A thread that is busy begins no call. -/
def SharedFault.next (s : SharedFault) : FaultOp → SharedFault
  | .invoke thread call =>
      if s.threads[thread]? = some .idle then
        { s with history := s.history ++ [Event.invoke thread call] }.goes thread call.entry
      else s
  | .turn thread spurious => s.turn thread spurious

/-- One step of the process. -/
def faultStep (s : SharedFault) (op : FaultOp) : Except Fault SharedFault := .ok (s.next op)

end MustDb.Utils
