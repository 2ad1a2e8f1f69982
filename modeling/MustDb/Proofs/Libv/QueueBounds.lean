import MustDb.Libv.NetCallbacks
import MustDb.Proofs.Libv.GracefulClose

/-!
# `MustDb.Proofs.Libv.QueueBounds`: the queues of an iteration

Each queue of a worker has room for `queuesize` entries, and no push checks it. In an iteration each
event of the batch is for one connection, and on its way through the phases it is counted once: it
is an event that is left, an entry of a queue that is still to be worked on, or an entry of
`closes_que`. So the entries in these places are at most the events of the batch (`Counted`), and no
push goes behind the end of its queue, whatever the callbacks and the system calls do.

A connection that `opened` already gives a response or an end is queued like any other.
-/

set_option autoImplicit false

namespace MustDb.Proofs.Libv

open MustDb.Lib
open MustDb.Libv

/-! ### The loop with all callbacks -/

theorem put_push_next {α : Type} (heap : Heap α) (obj : α) (outcomes : MallocOutcomes) :
    ({ heap.push obj with outcomes } : Heap α).put heap.next obj
      = { heap.push obj with outcomes } := by
  simp [Heap.put, Heap.push, Heap.next]

theorem openConnWith_id (w : Worker) (k : Kernel) (fd : Fd) :
    openConnWith id w k fd = openConn w k fd := by
  rw [openConnWith, openConn]
  cases hmalloc : (malloc w.conns.outcomes).1 with
  | false => rw [Heap.alloc_of_false hmalloc]
  | true =>
      rw [Heap.alloc_of_true hmalloc]
      simp only [id, put_push_next]

theorem tsAcceptWith_id (epfds : List Fd) (w : Worker) (k : Kernel) (fd : Fd)
    (answer : AcceptAnswer) :
    tsAcceptWith id epfds w k fd answer = tsAccept epfds w k fd answer := by
  rw [tsAcceptWith, tsAccept]
  split
  · rfl
  · cases hmapGetValue w.ctx.hmap fd with
    | error e => rfl
    | ok addr =>
        cases addr with
        | some addr => rfl
        | none =>
            by_cases hlisten : fd = w.ctx.listenFd
            · simp only [ok_bind, if_pos hlisten]
            · simp only [ok_bind, if_neg hlisten, openConnWith_id]

/-- With callbacks that do nothing but leave a response, the step is the one of `workerStep`. -/
theorem workerStepWith_ofResponse (epfds : List Fd) (stopping : Bool) (w : Worker) (k : Kernel)
    (answers : Answers) :
    workerStepWith (.ofResponse answers.response) epfds stopping w k answers
      = workerStep epfds stopping w k answers := by
  obtain ⟨ctx, conns, pc, log⟩ := w
  cases pc with
  | accept events =>
      cases events with
      | nil => rfl
      | cons fd events =>
          exact congrArg (· >>= _) (tsAcceptWith_id epfds _ k fd answers.accept)
  | process que =>
      cases que with
      | nil => rfl
      | cons entry que => rfl
  | close que =>
      cases que with
      | nil => rfl
      | cons a que => rfl
  | start | test | wait | read que | write que | exited => rfl

/-! ### The hash map avoids the fault -/

section Hmap
variable {κ ν : Type}

theorem hmapBucketIndex_avoids (hm : Hmap κ ν) (hash : UInt32) :
    Avoids Fault.outOfBounds (hmapBucketIndex hm hash) fun _ => True := by
  rw [hmapBucketIndex]
  split
  · exact Fault.noConfusion
  · trivial

theorem hmapChain_avoids (hm : Hmap κ ν) (i : Nat) :
    Avoids Fault.outOfBounds (hmapChain hm i) fun _ => True := by
  rw [hmapChain]
  split
  · trivial
  · exact Fault.noConfusion

theorem hmapGetValue_avoids (hm : Hmap κ ν) (key : κ) :
    Avoids Fault.outOfBounds (hmapGetValue hm key) fun _ => True := by
  refine Avoids.bind (P := fun _ => True) ?_ fun _ _ => trivial
  exact (hmapBucketIndex_avoids _ _).bind fun i _ =>
    (hmapChain_avoids hm i).bind fun _ _ => trivial

theorem hmapDelete_avoids (hm : Hmap κ ν) (key : κ) :
    Avoids Fault.outOfBounds (hmapDelete hm key) fun _ => True := by
  refine (hmapBucketIndex_avoids _ _).bind fun i _ => (hmapChain_avoids hm i).bind fun chain _ => ?_
  cases chainUnlink hm.keyCompare key chain with
  | none => trivial
  | some found => trivial

theorem hmapLoadCheck_avoids (hm : Hmap κ ν) (outcomes : MallocOutcomes) :
    Avoids Fault.outOfBounds (hmapLoadCheck hm outcomes) fun _ => True := by
  rw [hmapLoadCheck]
  split
  · rw [hmapGrow]
    split
    · trivial
    · refine (avoids_foldlM (fun _ i => ?_) _ _).bind fun _ _ => trivial
      exact (hmapChain_avoids hm i).bind fun _ _ => trivial
  · trivial

theorem hmapInsert_avoids (hm : Hmap κ ν) (key : κ) (value : ν) (outcomes : MallocOutcomes) :
    Avoids Fault.outOfBounds (hmapInsert hm key value outcomes) fun _ => True := by
  refine (hmapLoadCheck_avoids hm outcomes).bind fun ⟨hm', outcomes'⟩ _ => ?_
  refine (hmapBucketIndex_avoids _ _).bind fun i _ => ?_
  refine (hmapChain_avoids hm' i).bind fun chain _ => ?_
  cases (malloc outcomes').1 with
  | false => trivial
  | true => trivial

end Hmap

/-! ### The count -/

/-- The events and the entries that an iteration has still to work on, with the connections that it
is going to close. -/
def pending (pc : WorkerPc) (ctx : TsContext) : Nat :=
  match pc with
  | .accept events =>
      events.length + ctx.preadQue.length + ctx.attachsQue.length + ctx.insQue.length +
        ctx.outsQue.length + ctx.closesQue.length
  | .read que => que.length + ctx.insQue.length + ctx.outsQue.length + ctx.closesQue.length
  | .process que => que.length + ctx.outsQue.length + ctx.closesQue.length
  | .write que => que.length + ctx.closesQue.length
  | _ => 0

/-- No queue has more than `n` entries. -/
structure QueuesWithin (n : Nat) (ctx : TsContext) : Prop where
  pread_le : ctx.preadQue.length ≤ n
  ins_le : ctx.insQue.length ≤ n
  outs_le : ctx.outsQue.length ≤ n
  closes_le : ctx.closesQue.length ≤ n
  attachs_le : ctx.attachsQue.length ≤ n

/-- The invariant of an iteration over a batch of `n` events. -/
structure Counted (n : Nat) (pc : WorkerPc) (ctx : TsContext) : Prop extends
    QueuesWithin n ctx where
  batch_le : n ≤ ctx.queuesize
  pending_le : pending pc ctx ≤ n

section Counted
variable {n : Nat} {pc : WorkerPc} {ctx : TsContext} {w : Worker}

theorem Counted.withHmap (h : Counted n pc ctx) (hmap : Hmap Fd Addr) :
    Counted n pc { ctx with hmap } where
  pread_le := h.pread_le
  ins_le := h.ins_le
  outs_le := h.outs_le
  closes_le := h.closes_le
  attachs_le := h.attachs_le
  batch_le := h.batch_le
  pending_le := by
    have hpending : pending pc { ctx with hmap } = pending pc ctx := by cases pc <;> rfl
    exact hpending ▸ h.pending_le

/-- The thread goes on, with no more to work on. -/
theorem Counted.goto (h : Counted n pc ctx) {pc' : WorkerPc}
    (hpending : pending pc' ctx ≤ pending pc ctx) : Counted n pc' ctx where
  toQueuesWithin := h.toQueuesWithin
  batch_le := h.batch_le
  pending_le := Nat.le_trans hpending h.pending_le

/-! One connection is taken, and goes into one queue. -/

theorem pushRead_avoids {events : List Fd} (h : Counted n (.accept events) w.ctx)
    (hroom : pending (.accept events) w.ctx < n) (a : Addr) :
    Avoids Fault.outOfBounds (w.pushRead a) fun w' => Counted n (.accept events) w'.ctx := by
  have hbatch := h.batch_le
  simp only [pending] at hroom
  rw [Worker.pushRead, pushQue_of_lt (by omega), ok_bind]
  refine ⟨⟨?_, h.ins_le, h.outs_le, h.closes_le, h.attachs_le⟩, hbatch, ?_⟩
  · rw [List.length_append, List.length_singleton]
    omega
  · simp only [pending, List.length_append, List.length_singleton]
    omega

theorem pushAttach_avoids {events : List Fd} (h : Counted n (.accept events) w.ctx)
    (hroom : pending (.accept events) w.ctx < n) (a : Addr) :
    Avoids Fault.outOfBounds (w.pushAttach a) fun w' => Counted n (.accept events) w'.ctx := by
  have hbatch := h.batch_le
  simp only [pending] at hroom
  rw [Worker.pushAttach, pushQue_of_lt (by omega), ok_bind]
  refine ⟨⟨h.pread_le, h.ins_le, h.outs_le, h.closes_le, ?_⟩, hbatch, ?_⟩
  · rw [List.length_append, List.length_singleton]
    omega
  · simp only [pending, List.length_append, List.length_singleton]
    omega

theorem pushIn_avoids {que : List Addr} (h : Counted n (.read que) w.ctx)
    (hroom : pending (.read que) w.ctx < n) (a : Addr) (packet : List UInt8) :
    Avoids Fault.outOfBounds (w.pushIn a packet) fun w' => Counted n (.read que) w'.ctx := by
  have hbatch := h.batch_le
  simp only [pending] at hroom
  rw [Worker.pushIn, pushQue_of_lt (by omega), ok_bind]
  refine ⟨⟨h.pread_le, ?_, h.outs_le, h.closes_le, h.attachs_le⟩, hbatch, ?_⟩
  · rw [List.length_append, List.length_singleton]
    omega
  · simp only [pending, List.length_append, List.length_singleton]
    omega

theorem pushOut_avoids (h : Counted n pc w.ctx) (hpc : BeforeWrite pc)
    (hroom : pending pc w.ctx < n) (a : Addr) :
    Avoids Fault.outOfBounds (w.pushOut a) fun w' => Counted n pc w'.ctx := by
  have hbatch := h.batch_le
  -- in the phases in front of `ts_write` the entries of `outs_que` are counted
  have houts : w.ctx.outsQue.length ≤ pending pc w.ctx ∧
      pending pc { w.ctx with outsQue := w.ctx.outsQue ++ [a] } = pending pc w.ctx + 1 := by
    cases pc with
    | accept events | read que | process que =>
        simp only [pending, List.length_append, List.length_singleton]
        omega
    | start | test | wait | write que | close que | exited => exact absurd hpc id
  rw [Worker.pushOut, pushQue_of_lt (by omega), ok_bind]
  refine ⟨⟨h.pread_le, h.ins_le, ?_, h.closes_le, h.attachs_le⟩, hbatch, ?_⟩
  · rw [List.length_append, List.length_singleton]
    omega
  · rw [houts.2]
    exact hroom

theorem pushClose_avoids (h : Counted n pc w.ctx) (hpc : BeforeClose pc)
    (hroom : pending pc w.ctx < n) (a : Addr) :
    Avoids Fault.outOfBounds (w.pushClose a) fun w' => Counted n pc w'.ctx := by
  have hbatch := h.batch_le
  -- in the phases in front of `ts_close` the entries of `closes_que` are counted
  have hcloses : w.ctx.closesQue.length ≤ pending pc w.ctx ∧
      pending pc { w.ctx with closesQue := w.ctx.closesQue ++ [a] } = pending pc w.ctx + 1 := by
    cases pc with
    | accept events | read que | process que | write que =>
        simp only [pending, List.length_append, List.length_singleton]
        omega
    | start | test | wait | close que | exited => exact absurd hpc id
  rw [Worker.pushClose, pushQue_of_lt (by omega), ok_bind]
  refine ⟨⟨h.pread_le, h.ins_le, h.outs_le, ?_, h.attachs_le⟩, hbatch, ?_⟩
  · rw [List.length_append, List.length_singleton]
    omega
  · rw [hcloses.2]
    exact hroom

theorem readConn_avoids (w : Worker) (a : Addr) :
    Avoids Fault.outOfBounds (w.readConn a) fun _ => True := by
  rw [Worker.readConn]
  split
  · trivial
  · exact Fault.noConfusion

/-! ### The phases -/

/-- The end of the loop body of `ts_accept`: each test of the connection has its queue. -/
theorem queueEvent_avoids {events : List Fd} (h : Counted n (.accept events) w.ctx)
    (hroom : pending (.accept events) w.ctx < n) (a : Addr) :
    Avoids Fault.outOfBounds (queueEvent w a) fun w' => Counted n (.accept events) w'.ctx := by
  refine (readConn_avoids w a).bind fun conn _ => ?_
  split
  · exact pushAttach_avoids h hroom a
  split
  · exact pushOut_avoids h trivial hroom a
  split
  · exact pushClose_avoids h trivial hroom a
  · exact pushRead_avoids h hroom a

/-- The next event of the batch. -/
theorem Counted.nextEvent {fd : Fd} {events : List Fd}
    (h : Counted n (.accept (fd :: events)) ctx) :
    Counted n (.accept events) ctx ∧ pending (.accept events) ctx < n := by
  have hpending := h.pending_le
  simp only [pending, List.length_cons] at hpending
  refine ⟨h.goto ?_, ?_⟩
  · simp only [pending, List.length_cons]
    omega
  · simp only [pending]
    omega

/-- The loop body of `ts_accept`. -/
theorem tsAcceptWith_avoids {fd : Fd} {events : List Fd}
    (h : Counted n (.accept (fd :: events)) w.ctx) (opened : NetConn → NetConn) (epfds : List Fd)
    (k : Kernel) (answer : AcceptAnswer) :
    Avoids Fault.outOfBounds (tsAcceptWith opened epfds w k fd answer)
      fun next => Counted n (.accept events) next.1.ctx := by
  obtain ⟨hnext, hroom⟩ := h.nextEvent
  rw [tsAcceptWith]
  split
  · exact hnext
  refine (hmapGetValue_avoids _ _).bind fun found _ => ?_
  cases found with
  | some addr => exact (queueEvent_avoids hnext hroom addr).bind fun w' h' => h'
  | none =>
      simp only
      split
      · exact hnext
      · rw [openConnWith]
        split
        · exact hnext
        · refine (hmapInsert_avoids _ _ _ _).bind fun inserted _ => ?_
          refine Avoids.bind (queueEvent_avoids (hnext.withHmap inserted.1) ?_ _) fun w' h' => h'
          exact hroom

/-- The loop body of `ts_read`. -/
theorem tsRead_avoids {a : Addr} {que : List Addr} (h : Counted n (.read (a :: que)) w.ctx)
    (answer : ReadAnswer) :
    Avoids Fault.outOfBounds (tsRead w a answer) fun w' => Counted n (.read que) w'.ctx := by
  have hpending := h.pending_le
  simp only [pending, List.length_cons] at hpending
  have hroom : pending (.read que) w.ctx < n := by
    simp only [pending]
    omega
  have hnext : Counted n (.read que) w.ctx :=
    h.goto (by simp only [pending, List.length_cons]; omega)
  refine (readConn_avoids w a).bind fun _ _ => ?_
  cases answer with
  | again => exact hnext
  | error => exact pushClose_avoids (w := w.record a _) hnext trivial hroom a
  | data bytes =>
      rw [handleRead]
      split
      · exact pushClose_avoids (w := w.record a _) hnext trivial hroom a
      · exact pushIn_avoids (w := w.record a _) hnext hroom a _

/-- The loop body of `ts_process`. -/
theorem tsProcessWith_avoids {a : Addr} {packet : List UInt8} {que : List (Addr × List UInt8)}
    (h : Counted n (.process ((a, packet) :: que)) w.ctx) (process : NetConn → NetConn) :
    Avoids Fault.outOfBounds (tsProcessWith process w a packet)
      fun w' => Counted n (.process que) w'.ctx := by
  have hpending := h.pending_le
  simp only [pending, List.length_cons] at hpending
  have hroom : pending (.process que) w.ctx < n := by
    simp only [pending]
    omega
  have hnext : Counted n (.process que) w.ctx :=
    h.goto (by simp only [pending, List.length_cons]; omega)
  refine (readConn_avoids w a).bind fun conn _ => ?_
  let w' := { w with conns := w.conns.put a (process conn) }.record a
    [.process packet (process conn).response]
  have hnext' : Counted n (.process que) w'.ctx := hnext
  have hroom' : pending (.process que) w'.ctx < n := hroom
  simp only
  split
  · exact hnext
  split
  · exact pushOut_avoids hnext' trivial hroom' a
  split
  · exact pushClose_avoids hnext' trivial hroom' a
  · exact hnext

/-- The loop body of `ts_write`. -/
theorem tsWrite_avoids {a : Addr} {que : List Addr} (h : Counted n (.write (a :: que)) w.ctx)
    (k : Kernel) (answers : Answers) :
    Avoids Fault.outOfBounds (tsWrite w k a answers)
      fun next => Counted n (.write que) next.1.ctx := by
  have hpending := h.pending_le
  simp only [pending, List.length_cons] at hpending
  have hroom : pending (.write que) w.ctx < n := by
    simp only [pending]
    omega
  have hnext : Counted n (.write que) w.ctx :=
    h.goto (by simp only [pending, List.length_cons]; omega)
  refine (readConn_avoids w a).bind fun conn _ => ?_
  let flushed := flushConn answers.writes conn
  let w' := { w with conns := w.conns.put a flushed.1 }.record a flushed.2
  have hnext' : Counted n (.write que) w'.ctx := hnext
  simp only
  split
  · exact Avoids.bind (pushClose_avoids (w := w') hnext' trivial hroom a) fun _ h' => h'
  split
  · exact hnext
  · exact hnext

/-- The loop body of `ts_close`. -/
theorem tsCloseWith_avoids {a : Addr} {que : List Addr} (h : Counted n (.close (a :: que)) w.ctx)
    (closed : NetConn → NetConn) (k : Kernel) :
    Avoids Fault.outOfBounds (tsCloseWith closed w k a)
      fun next => Counted n (.close que) next.1.ctx := by
  have hnext : Counted n (.close que) w.ctx := h.goto (Nat.le_refl _)
  refine (readConn_avoids w a).bind fun conn _ => ?_
  exact (hmapDelete_avoids _ _).bind fun deleted _ => hnext.withHmap deleted.1

end Counted

/-! ### One step, and an iteration -/

/-- A turn of a worker, with its callbacks. -/
structure CallbackTurn extends Turn where
  callbacks : Callbacks

/-- One step of a worker with all callbacks. -/
def callbackStep (w : Worker) (turn : CallbackTurn) : Except Fault Worker := do
  let (w, _) ← workerStepWith turn.callbacks turn.epfds turn.stopping w turn.kernel turn.answers
  return w

theorem callbackStep_ofResponse (w : Worker) (turn : Turn) :
    callbackStep w { turn with callbacks := .ofResponse turn.answers.response }
      = loopStep w turn := by
  rw [callbackStep, workerStepWith_ofResponse]
  rfl

/-- The step lemma: no step of an iteration writes behind the end of a queue, and the count stays.
-/
theorem callbackStep_avoids {n : Nat} {w : Worker} (h : Counted n w.pc w.ctx)
    (hwait : w.pc ≠ .wait) (turn : CallbackTurn) :
    Avoids Fault.outOfBounds (callbackStep w turn) fun w' => Counted n w'.pc w'.ctx := by
  refine Avoids.bind (P := fun next : Worker × Kernel => Counted n next.1.pc next.1.ctx) ?_
    fun ⟨_, _⟩ h' => h'
  obtain ⟨ctx, conns, pc, log⟩ := w
  cases pc with
  | start =>
      -- outside of an iteration nothing is pending
      have hpending : pending (if (malloc conns.outcomes).1 then .test else .exited) ctx = 0 := by
        split <;> rfl
      exact h.goto (hpending ▸ Nat.zero_le _)
  | test =>
      have hpending : pending (if turn.stopping then .exited else .wait) ctx = 0 := by
        split <;> rfl
      exact h.goto (hpending ▸ Nat.zero_le _)
  | wait => exact absurd rfl hwait
  | accept events =>
      cases events with
      | nil =>
          refine h.goto ?_
          simp only [pending]
          omega
      | cons fd events =>
          exact Avoids.bind (tsAcceptWith_avoids h turn.callbacks.opened turn.epfds turn.kernel
            turn.answers.accept) fun _ h' => h'
  | read que =>
      cases que with
      | nil =>
          refine h.goto ?_
          simp only [pending]
          omega
      | cons a que => exact Avoids.bind (tsRead_avoids h turn.answers.read) fun _ h' => h'
  | process que =>
      cases que with
      | nil =>
          refine h.goto ?_
          simp only [pending]
          omega
      | cons entry que =>
          exact Avoids.bind (tsProcessWith_avoids h turn.callbacks.process) fun _ h' => h'
  | write que =>
      cases que with
      | nil => exact h.goto (Nat.zero_le _)
      | cons a que => exact Avoids.bind (tsWrite_avoids h turn.kernel turn.answers) fun _ h' => h'
  | close que =>
      cases que with
      | nil => exact h.goto (Nat.zero_le _)
      | cons a que =>
          exact Avoids.bind (tsCloseWith_avoids h turn.callbacks.closed turn.kernel) fun _ h' => h'
  | exited => exact h

/-- The queues at the start of an iteration: the batch is what `epoll_wait` has put in `events`. -/
theorem counted_batch (ctx : TsContext) (events : List Fd) :
    Counted (min events.length ctx.queuesize) (.accept (events.take ctx.queuesize))
      (tsReset ctx) where
  pread_le := Nat.zero_le _
  ins_le := Nat.zero_le _
  outs_le := Nat.zero_le _
  closes_le := Nat.zero_le _
  attachs_le := Nat.zero_le _
  batch_le := Nat.min_le_right _ _
  pending_le := by
    simp only [pending, tsReset, List.length_take, List.length_nil]
    omega

/-- The run lemma of an iteration, from `epoll_wait` to the next one: no queue gets more entries
than the batch has events, so none is written behind its `queuesize` entries. -/
theorem queues_within_batch {w w₁ : Worker} {turn : CallbackTurn} {events : List Fd}
    (hpc : w.pc = .wait) (hwait : turn.answers.wait = some events)
    (hstep : callbackStep w turn = .ok w₁) {turns : List CallbackTurn}
    (hiteration : Guarded callbackStep (fun w _ => w.pc ≠ .wait) w₁ turns) :
    run callbackStep w₁ turns ≠ .error .outOfBounds ∧
      ∀ w', run callbackStep w₁ turns = .ok w' →
        QueuesWithin (min events.length w.ctx.queuesize) w'.ctx ∧
          min events.length w.ctx.queuesize ≤ w'.ctx.queuesize := by
  have hw₁ : Counted (min events.length w.ctx.queuesize) w₁.pc w₁.ctx := by
    obtain ⟨ctx, conns, pc, log⟩ := w
    cases hpc
    simp only [callbackStep, workerStepWith, workerStep, hwait] at hstep
    cases hstep
    exact counted_batch ctx events
  have hrun := run_avoids (fun w => Counted (min events.length _) w.pc w.ctx)
    (fun w turn h hwait => callbackStep_avoids h hwait turn) turns w₁ hw₁ hiteration
  refine ⟨hrun.ne_error, fun w' hw' => ?_⟩
  have hcounted := hrun.of_ok hw'
  exact ⟨hcounted.toQueuesWithin, hcounted.batch_le⟩

/-- Queues of two entries: `opened` gives the first connection a response and its end. -/
def twoEvents : List CallbackTurn :=
  ([{}, {}, {}, { read := .data [] }, {}, {}, { writes := [.count 1] }, {}] : List Answers).map
    fun answers => ⟨⟨[3], false, ⟨[], [], 0⟩, answers⟩,
      fun conn => if conn.fd = 5 then conn.respond ⟨[7], 1, 1, 0, true, false⟩ else conn, id, id⟩

/-- Both connections come to `closes_que`, one from `ts_read` and one from `ts_write`, and fill it.
-/
theorem queues_within_batch_twoEvents :
    ∃ w₁ w', callbackStep { Worker.init 3 4 2 0 2 1 [] with pc := .wait }
        ⟨⟨[3], false, ⟨[], [], 0⟩, { wait := some [5, 6, 7] }⟩, id, id, id⟩ = .ok w₁ ∧
      run callbackStep w₁ twoEvents = .ok w' ∧ w'.ctx.closesQue = [1, 0] ∧
      QueuesWithin 2 w'.ctx := by
  let w₁ : Worker := { Worker.init 3 4 2 0 2 1 [] with
    ctx := tsReset (Worker.init 3 4 2 0 2 1 []).ctx, pc := .accept [5, 6] }
  have hque : (run callbackStep w₁ twoEvents).toOption.map (·.ctx.closesQue) = some [1, 0] := by
    decide
  obtain ⟨w', hw', hcloses⟩ := Option.map_eq_some_iff.mp hque
  have hrun := toOption_eq_some.mp hw'
  have hiteration : Guarded callbackStep (fun w _ => w.pc ≠ .wait) w₁ twoEvents := by decide
  have hbound := @queues_within_batch { Worker.init 3 4 2 0 2 1 [] with pc := .wait } w₁
    ⟨⟨[3], false, ⟨[], [], 0⟩, { wait := some [5, 6, 7] }⟩, id, id, id⟩ [5, 6, 7] rfl rfl rfl
    twoEvents hiteration
  exact ⟨w₁, w', rfl, hrun, hcloses, (hbound.2 w' hrun).1⟩

end MustDb.Proofs.Libv
