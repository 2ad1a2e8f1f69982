import MustDb.Proofs.Libv.GracefulClose

/-!
# `MustDb.Proofs.Libv.Input`: what is read is processed, once and in order

`ts_read` puts the bytes of a `read` into a slot of `ins_que`, and `ts_process` hands the slots to
the callback. `packetsLeft` are the slots that `ts_process` has not come to yet. Then for every
connection the bytes that were read are those that `process` has got, and behind them those in the
slots that are left (`Conserves`). One step either moves a packet from one side to the other or
leaves all three alone (`workerStep_calls`), so this holds in every run, with any answers of the
system calls and any callback.

An iteration does not end with a packet left. So `input_in_order` says that a worker that is not in
the middle of an iteration has processed all that it has read, also when it is told to stop.
-/

set_option autoImplicit false

namespace MustDb.Proofs.Libv

open MustDb.Lib
open MustDb.Libv

/-! ### The bytes of the input -/

/-- The bytes that a call put into a slot. -/
def receivedBy : ConnEvent → List UInt8
  | .read (.data bytes) => packetOf bytes
  | _ => []

/-- The bytes that a call handed to `process`. -/
def processedBy : ConnEvent → List UInt8
  | .process packet _ => packet
  | _ => []

/-- The bytes that were read, in the order of the calls of `read`. -/
def received (log : List ConnEvent) : List UInt8 := log.flatMap receivedBy

/-- The bytes that `process` got, in the order of its calls. -/
def processed (log : List ConnEvent) : List UInt8 := log.flatMap processedBy

@[simp] theorem received_append (log more : List ConnEvent) :
    received (log ++ more) = received log ++ received more :=
  List.flatMap_append

@[simp] theorem processed_append (log more : List ConnEvent) :
    processed (log ++ more) = processed log ++ processed more :=
  List.flatMap_append

/-- The packets that are read and not processed. -/
def packetsLeft (todo : List (Addr × Task)) : List (Addr × List UInt8) :=
  todo.filterMap fun task =>
    match task.2 with
    | .process packet => some (task.1, packet)
    | _ => none

/-- The packets are those of `ins_que`. -/
@[simp] theorem packetsLeft_tasks (reads outs closes : List Addr)
    (ins : List (Addr × List UInt8)) : packetsLeft (tasks reads ins outs closes) = ins := by
  simp [packetsLeft, tasks, List.filterMap_append]

/-- The bytes of the packets of one connection. -/
def bytesOf (a : Addr) (packets : List (Addr × List UInt8)) : List UInt8 :=
  packets.flatMap fun entry => if entry.1 = a then entry.2 else []

/-! ### The calls of a step -/

/-- The calls of one step on a connection, and the packets that are left in front of it and behind
it. -/
inductive StepCalls (answers : Answers) (pc : WorkerPc) (a : Addr) :
    List ConnEvent → List (Addr × List UInt8) → List (Addr × List UInt8) → Prop where
  | none (packets : List (Addr × List UInt8)) : StepCalls answers pc a [] packets packets
  | opened (packets : List (Addr × List UInt8)) : StepCalls answers pc a [.opened] packets packets
  /-- A `read` without a packet. -/
  | ended (packets : List (Addr × List UInt8)) (hnone : receivedBy (.read answers.read) = []) :
      StepCalls answers pc a [.read answers.read] packets packets
  | packet (packets : List (Addr × List UInt8)) :
      StepCalls answers pc a [.read answers.read] packets
        (packets ++ [(a, receivedBy (.read answers.read))])
  | handed (packet : List UInt8) (que : List (Addr × List UInt8))
      (hpc : pc = .process ((a, packet) :: que)) :
      StepCalls answers pc a [.process packet answers.response] ((a, packet) :: que) que
  | flushed (conn : NetConn) :
      StepCalls answers pc a (flushConn answers.writes conn).2 [] []
  | closed : StepCalls answers pc a [.closed, .closeFd] [] []

section Push
variable {w w' : Worker} {a : Addr}

/-- A step that fills another queue than `ins_que`. -/
structure SamePackets (w w' : Worker) : Prop where
  log_eq : w'.log = w.log
  insQue_eq : w'.ctx.insQue = w.ctx.insQue

theorem queueEvent_same (h : queueEvent w a = .ok w') : SamePackets w w' := by
  obtain ⟨conn, -, h⟩ := bind_eq_ok.mp h
  split at h
  · rw [pushAttach_eq_ok h]
    exact ⟨rfl, rfl⟩
  split at h
  · rw [pushOut_eq_ok h]
    exact ⟨rfl, rfl⟩
  split at h
  · rw [pushClose_eq_ok h]
    exact ⟨rfl, rfl⟩
  · rw [pushRead_eq_ok h]
    exact ⟨rfl, rfl⟩

end Push

section Phases
variable {w w' : Worker} {k k' : Kernel} {a : Addr}

/-- `ts_accept` opens one connection or none. -/
theorem tsAccept_calls (pc : WorkerPc) {epfds : List Fd} {fd : Fd} {answers : Answers}
    (h : tsAccept epfds w k fd answers.accept = .ok (w', k')) :
    ∃ a calls, w'.log = w.log ++ calls.map (fun call => (a, call)) ∧
      StepCalls answers pc a calls w.ctx.insQue w'.ctx.insQue := by
  have hnone : ∃ a calls, w.log = w.log ++ calls.map (fun call => ((a, call) : Addr × ConnEvent)) ∧
      StepCalls answers pc a calls w.ctx.insQue w.ctx.insQue :=
    ⟨0, [], (List.append_nil _).symm, .none _⟩
  rw [tsAccept] at h
  split at h
  · cases h
    exact hnone
  obtain ⟨found, -, h⟩ := bind_eq_ok.mp h
  cases found with
  | some addr =>
      obtain ⟨w₁, hqueue, h⟩ := bind_eq_ok.mp h
      cases h
      have hsame := queueEvent_same hqueue
      exact ⟨addr, [], by rw [hsame.log_eq]; simp, hsame.insQue_eq ▸ .none _⟩
  | none =>
      simp only at h
      split at h
      · cases h
        exact hnone
      rw [openConn] at h
      split at h
      · cases h
        exact hnone
      · next addr halloc =>
          obtain ⟨⟨hmap, node, rest⟩, -, h⟩ := bind_eq_ok.mp h
          obtain ⟨w₁, hqueue, h⟩ := bind_eq_ok.mp h
          cases h
          have hsame := queueEvent_same hqueue
          exact ⟨addr, [.opened], hsame.log_eq, hsame.insQue_eq ▸ .opened _⟩

/-- `ts_read` reads from one connection, and fills a slot or none. -/
theorem tsRead_calls (pc : WorkerPc) {answers : Answers} (h : tsRead w a answers.read = .ok w') :
    ∃ calls, w'.log = w.log ++ calls.map (fun call => (a, call)) ∧
      StepCalls answers pc a calls w.ctx.insQue w'.ctx.insQue := by
  obtain ⟨conn, -, h⟩ := bind_eq_ok.mp h
  refine ⟨[.read answers.read], ?_⟩
  cases hanswer : answers.read with
  | again =>
      rw [hanswer] at h
      cases h
      refine ⟨rfl, ?_⟩
      rw [← hanswer]
      exact .ended _ (by rw [hanswer]; rfl)
  | error =>
      rw [hanswer] at h
      rw [pushClose_eq_ok h]
      refine ⟨rfl, ?_⟩
      rw [← hanswer]
      exact .ended _ (by rw [hanswer]; rfl)
  | data bytes =>
      rw [hanswer, handleRead] at h
      have hbytes : receivedBy (.read answers.read) = packetOf bytes := by rw [hanswer]; rfl
      split at h
      case isTrue hend =>
          -- the end of the stream
          rw [pushClose_eq_ok h]
          refine ⟨rfl, ?_⟩
          rw [← hanswer]
          exact .ended _ (hbytes.trans hend)
      case isFalse hpacket =>
          rw [pushIn_eq_ok h]
          refine ⟨rfl, ?_⟩
          rw [← hanswer, ← hbytes]
          exact .packet _

/-- The calls of a step are on one connection. -/
theorem workerStep_calls {epfds : List Fd} {answers : Answers}
    (h : WorkerStep epfds answers w k w' k') :
    ∃ a calls, w'.log = w.log ++ calls.map (fun call => (a, call)) ∧
      StepCalls answers w.pc a calls (packetsLeft (agenda w.pc w.ctx))
        (packetsLeft (agenda w'.pc w'.ctx)) := by
  cases h with
  | goto hagenda hevents =>
      refine ⟨0, [], (List.append_nil _).symm, ?_⟩
      rw [hagenda]
      exact .none _
  | start hstart hnext =>
      refine ⟨0, [], (List.append_nil _).symm, ?_⟩
      rw [hstart]
      rcases hnext with rfl | rfl
      · exact .none _
      · exact .none _
  | wait hpc hwait =>
      refine ⟨0, [], (List.append_nil _).symm, ?_⟩
      rw [hpc]
      exact .none _
  | @accept fd events w' k' hpc hrun =>
      obtain ⟨a, calls, hlog, hcalls⟩ := tsAccept_calls (.accept (fd :: events)) hrun
      refine ⟨a, calls, hlog, ?_⟩
      rw [hpc, agenda, agenda, packetsLeft_tasks, packetsLeft_tasks]
      exact hcalls
  | @read a que w' hpc hrun =>
      obtain ⟨calls, hlog, hcalls⟩ := tsRead_calls (.read (a :: que)) hrun
      refine ⟨a, calls, hlog, ?_⟩
      rw [hpc, agenda, agenda, packetsLeft_tasks, packetsLeft_tasks]
      exact hcalls
  | @process a packet que w' hpc hrun =>
      obtain ⟨conn, -, -, hlog, -⟩ := tsProcess_effect hrun
      refine ⟨a, [.process packet answers.response], hlog, ?_⟩
      rw [hpc, agenda, agenda, packetsLeft_tasks, packetsLeft_tasks]
      exact .handed packet que rfl
  | @write a que w' k' hpc hrun =>
      obtain ⟨conn, -, hlog, -⟩ := tsWrite_effect hrun
      refine ⟨a, _, hlog, ?_⟩
      rw [hpc, agenda, agenda, packetsLeft_tasks, packetsLeft_tasks]
      exact .flushed conn
  | @close a que w' k' hpc hrun =>
      have hlog := tsClose_effect hrun
      refine ⟨a, [.closed, .closeFd], hlog, ?_⟩
      rw [hpc, agenda, agenda, packetsLeft_tasks, packetsLeft_tasks]
      exact .closed

end Phases

/-! ### The invariant -/

/-- What a step reads and what it processes are the change of the packets that are left. -/
theorem StepCalls.conserves {answers : Answers} {pc : WorkerPc} {a : Addr}
    {calls : List ConnEvent} {packets packets' : List (Addr × List UInt8)}
    (h : StepCalls answers pc a calls packets packets') :
    (bytesOf a packets ++ received calls = processed calls ++ bytesOf a packets') ∧
      ∀ b, b ≠ a → bytesOf b packets' = bytesOf b packets := by
  cases h with
  | none => exact ⟨List.append_nil _, fun _ _ => rfl⟩
  | opened => exact ⟨List.append_nil _, fun _ _ => rfl⟩
  | ended _ hnone =>
      refine ⟨?_, fun _ _ => rfl⟩
      rw [received, List.flatMap_singleton, hnone, List.append_nil]
      rfl
  | packet =>
      refine ⟨?_, fun b hb => ?_⟩
      · simp [received, processed, processedBy, bytesOf]
      · simp [bytesOf, hb.symm]
  | handed packet que hpc =>
      refine ⟨?_, fun b hb => ?_⟩
      · simp [received, receivedBy, processed, processedBy, bytesOf]
      · simp [bytesOf, hb.symm]
  | flushed conn =>
      -- a `write` neither reads nor processes
      have hreceived : received (flushConn answers.writes conn).2 = [] := by
        refine List.flatMap_eq_nil_iff.mpr fun event hmem => ?_
        obtain ⟨c, answer, rfl⟩ := mem_flushConn hmem
        rfl
      have hprocessed : processed (flushConn answers.writes conn).2 = [] := by
        refine List.flatMap_eq_nil_iff.mpr fun event hmem => ?_
        obtain ⟨c, answer, rfl⟩ := mem_flushConn hmem
        rfl
      rw [hreceived, hprocessed]
      exact ⟨rfl, fun _ _ => rfl⟩
  | closed => exact ⟨rfl, fun _ _ => rfl⟩

/-- The bytes that were read are those that were processed, and those in the packets that are left.
-/
def Conserves (w : Worker) : Prop :=
  ∀ a, received (callsOn w.log a)
    = processed (callsOn w.log a) ++ bytesOf a (packetsLeft (agenda w.pc w.ctx))

theorem conserves_init (epfd wakeFd listenFd : Fd) (index queuesize nthreads : Nat)
    (outcomes : MallocOutcomes) :
    Conserves (Worker.init epfd wakeFd listenFd index queuesize nthreads outcomes) :=
  fun _ => rfl

/-- Every step conserves the bytes of every connection. -/
theorem Conserves.step {w w' : Worker} {turn : Turn} (h : Conserves w)
    (hstep : loopStep w turn = .ok w') : Conserves w' := by
  obtain ⟨⟨next, k⟩, hworker, hnext⟩ := bind_eq_ok.mp hstep
  cases hnext
  obtain ⟨a, calls, hlog, hcalls⟩ := workerStep_calls (workerStep_cases hworker)
  obtain ⟨hself, hother⟩ := hcalls.conserves
  intro b
  by_cases hb : b = a
  · subst hb
    rw [hlog, callsOn_record, received_append, processed_append, h b, List.append_assoc, hself,
      List.append_assoc]
  · rw [hlog, callsOn_record_of_ne _ hb, hother b hb]
    exact h b

theorem run_conserves {w w' : Worker} {turns : List Turn} (h : Conserves w)
    (hrun : run loopStep w turns = .ok w') : Conserves w' := by
  have hguarded : Guarded loopStep (fun _ _ => True) w turns :=
    guarded_of_forall (fun _ _ => trivial) w
  exact run_invariant Conserves (fun _ _ _ h _ hstep => h.step hstep) turns w w' h hguarded hrun

/-! ### The result -/

/-- The places of the thread outside the five phases. -/
def BetweenIterations : WorkerPc → Prop
  | .start | .test | .wait | .exited => True
  | _ => False

theorem agenda_betweenIterations {pc : WorkerPc} (h : BetweenIterations pc) (ctx : TsContext) :
    agenda pc ctx = [] := by
  cases pc with
  | start | test | wait | exited => rfl
  | accept events => exact absurd h id
  | read que => exact absurd h id
  | process que => exact absurd h id
  | write que => exact absurd h id
  | close que => exact absurd h id

/-- Every byte that is read from a connection goes to `process`, once and in the order of the
stream. In the middle of an iteration the last packet can wait in its slot. Between two iterations,
and when the thread has exited, none is left. -/
theorem input_in_order (epfd wakeFd listenFd : Fd) (index queuesize nthreads : Nat)
    (outcomes : MallocOutcomes) {turns : List Turn} {w : Worker}
    (hrun : run loopStep (Worker.init epfd wakeFd listenFd index queuesize nthreads outcomes) turns
      = .ok w) :
    (∀ a, received (callsOn w.log a)
      = processed (callsOn w.log a) ++ bytesOf a (packetsLeft (agenda w.pc w.ctx))) ∧
      (BetweenIterations w.pc → ∀ a, processed (callsOn w.log a) = received (callsOn w.log a)) := by
  have hconserves := run_conserves
    (conserves_init epfd wakeFd listenFd index queuesize nthreads outcomes) hrun
  refine ⟨hconserves, fun hbetween a => ?_⟩
  have ha := hconserves a
  rw [agenda_betweenIterations hbetween] at ha
  rw [ha]
  exact (List.append_nil _).symm

/-- The input of one connection, over two iterations. -/
theorem input_in_order_one_connection :
    ∃ w, run loopStep (Worker.init 3 4 2 0 8 1 []) oneConnection = .ok w ∧
      processed (callsOn w.log 0) = [1] ∧ bytesOf 0 (packetsLeft (agenda w.pc w.ctx)) = [] := by
  obtain ⟨w, hrun, hcalls⟩ := run_oneConnection
  have hbytes := (input_in_order 3 4 2 0 8 1 [] hrun).1 0
  rw [hcalls] at hbytes
  refine ⟨w, hrun, by rw [hcalls]; decide, ?_⟩
  exact List.append_cancel_left (hbytes.symm.trans (List.append_nil _).symm)

end MustDb.Proofs.Libv
