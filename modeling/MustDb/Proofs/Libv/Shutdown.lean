import MustDb.Proofs.Libv.GracefulClose
import MustDb.Proofs.Libv.NetServer

/-!
# `MustDb.Proofs.Libv.Shutdown`: a server that is told to stop does stop

`net_server_stop` sets `stopping`, and a worker looks at it between two iterations only. `stepsLeft`
bounds the steps that a worker still takes: an entry of a queue counts as many steps as there are
phases that it can go through. So a step of a stopping worker brings it closer to its end
(`workerStep_stepsLeft`), whatever the system calls and `process` answer, and the steps of the other
threads do not take it away from it (`serverStep_stepsLeft`).

`stop_ends_all_workers` is the result: a worker that has had `5 * queuesize + 7` turns behind
`net_server_stop` has returned, with no condition on the other workers. When all have had them,
`net_server_wait` returns too.
-/

set_option autoImplicit false

namespace MustDb.Proofs.Libv

open MustDb.Lib
open MustDb.Libv

/-! ### One worker -/

/-- The entries of the queues, each with the number of phases that it can go through. -/
def queued (ctx : TsContext) : Nat :=
  4 * ctx.preadQue.length + 3 * ctx.insQue.length + 2 * ctx.outsQue.length + ctx.closesQue.length

/-- The steps that a thread takes at most, when it finds `stopping` set. -/
def stepsLeft (pc : WorkerPc) (ctx : TsContext) : Nat :=
  match pc with
  | .exited => 0
  | .test => 1
  | .start => 2
  | .close que => que.length + 2
  | .write que => 2 * que.length + ctx.closesQue.length + 3
  | .process que => 3 * que.length + 2 * ctx.outsQue.length + ctx.closesQue.length + 4
  | .read que =>
      4 * que.length + 3 * ctx.insQue.length + 2 * ctx.outsQue.length + ctx.closesQue.length + 5
  | .accept events => 5 * events.length + queued ctx + 6
  | .wait => 5 * ctx.queuesize + 7

/-- The greatest number of steps that can be left. -/
def stepBound (queuesize : Nat) : Nat := 5 * queuesize + 7

theorem stepsLeft_eq_zero {pc : WorkerPc} {ctx : TsContext} :
    stepsLeft pc ctx = 0 ↔ pc = .exited := by
  cases pc with
  | exited => exact iff_of_true rfl rfl
  | start | test | wait | accept _ | read _ | process _ | write _ | close _ =>
      simp [stepsLeft]

section Worker
variable {w w' : Worker} {k k' : Kernel} {a : Addr}

/-- The connection goes into one queue, and no queue of a later phase counts more than the first. -/
theorem queueEvent_queued (h : queueEvent w a = .ok w') :
    queued w'.ctx ≤ queued w.ctx + 4 ∧ w'.ctx.queuesize = w.ctx.queuesize := by
  obtain ⟨conn, -, h⟩ := bind_eq_ok.mp h
  simp only [queued]
  split at h
  · rw [pushAttach_eq_ok h]
    exact ⟨Nat.le_add_right _ _, rfl⟩
  split at h
  · rw [pushOut_eq_ok h]
    refine ⟨?_, rfl⟩
    simp only [List.length_append, List.length_singleton]
    omega
  split at h
  · rw [pushClose_eq_ok h]
    refine ⟨?_, rfl⟩
    simp only [List.length_append, List.length_singleton]
    omega
  · rw [pushRead_eq_ok h]
    refine ⟨?_, rfl⟩
    simp only [List.length_append, List.length_singleton]
    omega

theorem tsAccept_queued {epfds : List Fd} {fd : Fd} {answer : AcceptAnswer}
    (h : tsAccept epfds w k fd answer = .ok (w', k')) :
    queued w'.ctx ≤ queued w.ctx + 4 ∧ w'.ctx.queuesize = w.ctx.queuesize := by
  have hnone : queued w.ctx ≤ queued w.ctx + 4 ∧ w.ctx.queuesize = w.ctx.queuesize :=
    ⟨Nat.le_add_right _ _, rfl⟩
  rw [tsAccept] at h
  split at h
  · cases h
    exact hnone
  obtain ⟨found, -, h⟩ := bind_eq_ok.mp h
  cases found with
  | some addr =>
      obtain ⟨w₁, hqueue, h⟩ := bind_eq_ok.mp h
      cases h
      exact queueEvent_queued hqueue
  | none =>
      simp only at h
      split at h
      · cases h
        exact hnone
      rw [openConn] at h
      split at h
      · cases h
        exact hnone
      · obtain ⟨⟨hmap, node, rest⟩, -, h⟩ := bind_eq_ok.mp h
        obtain ⟨w₁, hqueue, h⟩ := bind_eq_ok.mp h
        cases h
        -- a new connection is queued in a context with the same queues
        have hqueued := queueEvent_queued hqueue
        exact hqueued

theorem tsRead_queued {answer : ReadAnswer} (h : tsRead w a answer = .ok w') :
    3 * w'.ctx.insQue.length + 2 * w'.ctx.outsQue.length + w'.ctx.closesQue.length
        ≤ 3 * w.ctx.insQue.length + 2 * w.ctx.outsQue.length + w.ctx.closesQue.length + 3 ∧
      w'.ctx.queuesize = w.ctx.queuesize := by
  obtain ⟨conn, -, h⟩ := bind_eq_ok.mp h
  cases answer with
  | again =>
      cases h
      exact ⟨Nat.le_add_right _ _, rfl⟩
  | error =>
      rw [pushClose_eq_ok h]
      refine ⟨?_, rfl⟩
      simp only [List.length_append, List.length_singleton, Worker.record]
      omega
  | data bytes =>
      rw [handleRead] at h
      split at h
      · rw [pushClose_eq_ok h]
        refine ⟨?_, rfl⟩
        simp only [List.length_append, List.length_singleton, Worker.record]
        omega
      · rw [pushIn_eq_ok h]
        refine ⟨?_, rfl⟩
        simp only [List.length_append, List.length_singleton, Worker.record]
        omega

theorem tsProcess_queued {packet : List UInt8} {response : Response}
    (h : tsProcess w a packet response = .ok w') :
    2 * w'.ctx.outsQue.length + w'.ctx.closesQue.length
        ≤ 2 * w.ctx.outsQue.length + w.ctx.closesQue.length + 2 ∧
      w'.ctx.queuesize = w.ctx.queuesize := by
  obtain ⟨conn, -, h⟩ := bind_eq_ok.mp h
  simp only at h
  split at h
  · cases h
    exact ⟨Nat.le_add_right _ _, rfl⟩
  split at h
  · rw [pushOut_eq_ok h]
    refine ⟨?_, rfl⟩
    simp only [List.length_append, List.length_singleton, Worker.record]
    omega
  split at h
  · rw [pushClose_eq_ok h]
    refine ⟨?_, rfl⟩
    simp only [List.length_append, List.length_singleton, Worker.record]
    omega
  · cases h
    exact ⟨Nat.le_add_right _ _, rfl⟩

theorem tsWrite_queued {answers : Answers} (h : tsWrite w k a answers = .ok (w', k')) :
    w'.ctx.closesQue.length ≤ w.ctx.closesQue.length + 1 ∧
      w'.ctx.queuesize = w.ctx.queuesize := by
  obtain ⟨conn, -, h⟩ := bind_eq_ok.mp h
  simp only at h
  split at h
  · obtain ⟨w₁, hpush, h⟩ := bind_eq_ok.mp h
    cases h
    rw [pushClose_eq_ok hpush]
    refine ⟨?_, rfl⟩
    simp only [List.length_append, List.length_singleton, Worker.record]
    omega
  · split at h
    · cases h
      exact ⟨Nat.le_add_right _ _, rfl⟩
    · cases h
      exact ⟨Nat.le_add_right _ _, rfl⟩

theorem tsClose_queuesize (h : tsClose w k a = .ok (w', k')) :
    w'.ctx.queuesize = w.ctx.queuesize := by
  obtain ⟨conn, -, h⟩ := bind_eq_ok.mp h
  obtain ⟨⟨hmap, code, value⟩, -, h⟩ := bind_eq_ok.mp h
  cases h
  rfl

/-- A step of a worker brings it closer to its end. Only the test of `stopping` can send it into
another iteration. -/
theorem workerStep_stepsLeft {epfds : List Fd} {stopping : Bool} {answers : Answers}
    (h : workerStep epfds stopping w k answers = .ok (w', k')) :
    w'.ctx.queuesize = w.ctx.queuesize ∧
      (stepsLeft w'.pc w'.ctx ≤ stepsLeft w.pc w.ctx - 1 ∨
        stopping = false ∧ w.pc = .test ∧ w'.pc = .wait) := by
  obtain ⟨ctx, conns, pc, log⟩ := w
  cases pc with
  | start =>
      cases hmalloc : malloc conns.outcomes with
      | mk ok outcomes =>
          simp only [workerStep, hmalloc] at h
          cases h
          refine ⟨rfl, Or.inl ?_⟩
          cases ok with
          | true => exact Nat.le_refl 1
          | false => exact Nat.zero_le _
  | test =>
      cases h
      refine ⟨rfl, ?_⟩
      cases stopping with
      | true => exact Or.inl (Nat.le_refl 0)
      | false => exact Or.inr ⟨rfl, rfl, rfl⟩
  | wait =>
      cases hwait : answers.wait with
      | none =>
          simp only [workerStep, hwait] at h
          cases h
          refine ⟨rfl, Or.inl ?_⟩
          simp only [stepsLeft]
          omega
      | some events =>
          simp only [workerStep, hwait] at h
          cases h
          refine ⟨rfl, Or.inl ?_⟩
          simp only [stepsLeft, queued, tsReset, List.length_nil, List.length_take]
          omega
  | accept events =>
      cases events with
      | nil =>
          cases h
          refine ⟨rfl, Or.inl ?_⟩
          simp only [stepsLeft, queued, List.length_nil]
          omega
      | cons fd events =>
          obtain ⟨⟨w₁, k₁⟩, hrun, h⟩ := bind_eq_ok.mp h
          cases h
          obtain ⟨hqueued, hsize⟩ := tsAccept_queued hrun
          refine ⟨hsize, Or.inl ?_⟩
          simp only [stepsLeft, List.length_cons] at hqueued ⊢
          omega
  | read que =>
      cases que with
      | nil =>
          cases h
          refine ⟨rfl, Or.inl ?_⟩
          simp only [stepsLeft, List.length_nil]
          omega
      | cons a que =>
          obtain ⟨w₁, hrun, h⟩ := bind_eq_ok.mp h
          cases h
          obtain ⟨hqueued, hsize⟩ := tsRead_queued hrun
          refine ⟨hsize, Or.inl ?_⟩
          simp only [stepsLeft, List.length_cons] at hqueued ⊢
          omega
  | process que =>
      cases que with
      | nil =>
          cases h
          refine ⟨rfl, Or.inl ?_⟩
          simp only [stepsLeft, List.length_nil]
          omega
      | cons entry que =>
          obtain ⟨w₁, hrun, h⟩ := bind_eq_ok.mp h
          cases h
          obtain ⟨hqueued, hsize⟩ := tsProcess_queued hrun
          refine ⟨hsize, Or.inl ?_⟩
          simp only [stepsLeft, List.length_cons] at hqueued ⊢
          omega
  | write que =>
      cases que with
      | nil =>
          cases h
          refine ⟨rfl, Or.inl ?_⟩
          simp only [stepsLeft, List.length_nil]
          omega
      | cons a que =>
          obtain ⟨⟨w₁, k₁⟩, hrun, h⟩ := bind_eq_ok.mp h
          cases h
          obtain ⟨hqueued, hsize⟩ := tsWrite_queued hrun
          refine ⟨hsize, Or.inl ?_⟩
          simp only [stepsLeft, List.length_cons] at hqueued ⊢
          omega
  | close que =>
      cases que with
      | nil =>
          cases h
          exact ⟨rfl, Or.inl (Nat.le_refl 1)⟩
      | cons a que =>
          obtain ⟨⟨w₁, k₁⟩, hrun, h⟩ := bind_eq_ok.mp h
          cases h
          have hsize := tsClose_queuesize hrun
          exact ⟨hsize, Or.inl (Nat.le_refl _)⟩
  | exited =>
      cases h
      exact ⟨rfl, Or.inl (Nat.le_refl 0)⟩

end Worker

/-! ### The threads of a server -/

/-- A store to a context from outside the loop: it changes neither the place of the thread nor a
queue. -/
structure SameLoop (w w' : Worker) : Prop where
  pc_eq : w'.pc = w.pc
  stepsLeft_eq : stepsLeft w'.pc w'.ctx = stepsLeft w.pc w.ctx
  queuesize_eq : w'.ctx.queuesize = w.ctx.queuesize

theorem SameLoop.refl (w : Worker) : SameLoop w w := ⟨rfl, rfl, rfl⟩

/-- `create_worker_thread` stores descriptors and the index into a context. -/
theorem createWorkerThread_ctx {server : NetServer} {index i : Nat} {listenFd : Fd}
    {answers : CreateAnswers} {ctx : Context}
    (h : (createWorkerThread server index listenFd answers).1.ctxs[i]? = some ctx) :
    ∃ old, server.ctxs[i]? = some old ∧ SameLoop old.worker ctx.worker := by
  have hmodified : ∀ (s : NetServer) (f : TsContext → TsContext),
      (∀ pc c, stepsLeft pc (f c) = stepsLeft pc c) → (∀ c, (f c).queuesize = c.queuesize) →
      (s.modifyCtx index f).ctxs[i]? = some ctx →
      ∃ old, s.ctxs[i]? = some old ∧ SameLoop old.worker ctx.worker := by
    intro s f hsteps hsize hget
    rw [NetServer.modifyCtx, List.getElem?_modify] at hget
    obtain ⟨old, hold, hctx⟩ := Option.map_eq_some_iff.mp hget
    refine ⟨old, hold, ?_⟩
    split at hctx
    · rw [← hctx]
      exact ⟨rfl, hsteps _ _, hsize _⟩
    · rw [← hctx]
      exact SameLoop.refl _
  rw [createWorkerThread] at h
  split at h
  · exact ⟨ctx, h, SameLoop.refl _⟩
  next epfd hepoll =>
    simp only at h
    split at h
    · exact hmodified (server.openFd epfd .epoll) (fun wk => { wk with wakeFd := -1 })
        (fun pc c => by cases pc <;> rfl) (fun _ => rfl) h
    next wakeFd heventfd =>
      refine hmodified ((server.openFd epfd .epoll).openFd wakeFd .eventfd)
        (fun wk => { wk with wakeFd, epfd, index }) (fun pc c => by cases pc <;> rfl)
        (fun _ => rfl) ?_
      -- the answers behind the store change other fields
      split at h
      · exact h
      · split at h
        · exact h
        · split at h
          · exact h
          · exact h

/-- A worker that takes a step, or is left alone. -/
theorem serverStep_ctx {server server' : NetServer} {op : ServerOp} {i : Nat} {ctx : Context}
    (hstep : serverStep server op = .ok server') (hget : server'.ctxs[i]? = some ctx) :
    ∃ old, server.ctxs[i]? = some old ∧
      ((∃ epfds answers, op = .work i answers ∧
          workerStep epfds server.stopping old.worker server.kernel answers
            = .ok (ctx.worker, server'.kernel)) ∨
        (∀ answers, op ≠ .work i answers) ∧ SameLoop old.worker ctx.worker) := by
  have hsame : server.ctxs[i]? = some ctx → (∀ answers, op ≠ .work i answers) →
      ∃ old, server.ctxs[i]? = some old ∧
        ((∃ epfds answers, op = .work i answers ∧
            workerStep epfds server.stopping old.worker server.kernel answers
              = .ok (ctx.worker, server'.kernel)) ∨
          (∀ answers, op ≠ .work i answers) ∧ SameLoop old.worker ctx.worker) :=
    fun hold hop => ⟨ctx, hold, Or.inr ⟨hop, SameLoop.refl _⟩⟩
  cases op with
  | create answers =>
      rw [serverStep] at hstep
      split at hstep
      · cases hstep
        obtain ⟨old, hold, hloop⟩ := createWorkerThread_ctx hget
        exact ⟨old, hold, Or.inr ⟨fun _ => ServerOp.noConfusion, hloop⟩⟩
      · cases hstep
        exact hsame hget fun _ => ServerOp.noConfusion
  | stop | wait | destroy =>
      cases hstep
      exact hsame hget fun _ => ServerOp.noConfusion
  | join =>
      obtain ⟨ctxs, hmap, hstep⟩ := bind_eq_ok.mp hstep
      cases hstep
      obtain ⟨old, hold, hfree⟩ := getElem?_of_mapM_eq_ok hmap hget
      refine ⟨old, hold, Or.inr ⟨fun _ => ServerOp.noConfusion, ?_⟩⟩
      obtain ⟨buffers, -, hfree⟩ := bind_eq_ok.mp hfree
      obtain ⟨hmap, -, hfree⟩ := bind_eq_ok.mp hfree
      cases hfree
      exact ⟨rfl, by cases old.worker.pc <;> rfl, rfl⟩
  | work index answers =>
      rw [serverStep] at hstep
      cases hindex : server.ctxs[index]? with
      | none =>
          rw [hindex] at hstep
          cases hstep
          refine hsame hget fun answers' heq => ?_
          cases heq
          rw [hindex] at hget
          cases hget
      | some old =>
          rw [hindex] at hstep
          obtain ⟨⟨w', k'⟩, hwork, hstep⟩ := bind_eq_ok.mp hstep
          cases hstep
          by_cases hi : i = index
          · subst hi
            rw [List.getElem?_set_self (List.getElem?_eq_some_iff.mp hindex).1] at hget
            cases hget
            exact ⟨old, hindex, Or.inl ⟨_, answers, rfl, hwork⟩⟩
          · rw [List.getElem?_set_ne (Ne.symm hi)] at hget
            refine hsame hget fun answers' heq => ?_
            cases heq
            exact hi rfl

theorem createWorkerThread_stopping (server : NetServer) (index : Nat) (listenFd : Fd)
    (answers : CreateAnswers) :
    (createWorkerThread server index listenFd answers).1.stopping = server.stopping := by
  rw [createWorkerThread]
  split
  · rfl
  · split
    · rfl
    · split
      · rfl
      · split
        · rfl
        · split
          · rfl
          · rfl

/-- `create_worker_thread` does not set `stopping`. -/
theorem createStep_stopping {server server' : NetServer} {answers : CreateAnswers}
    (hstep : serverStep server (.create answers) = .ok server') :
    server'.stopping = server.stopping := by
  rw [serverStep] at hstep
  split at hstep
  · cases hstep
    exact createWorkerThread_stopping _ _ _ _
  · cases hstep
    rfl

theorem work_stopping {server server' : NetServer} {index : Nat} {answers : Answers}
    (hstep : serverStep server (.work index answers) = .ok server') :
    server'.stopping = server.stopping := by
  rw [serverStep] at hstep
  split at hstep
  · cases hstep
    rfl
  · obtain ⟨⟨w', k'⟩, -, hstep⟩ := bind_eq_ok.mp hstep
    cases hstep
    rfl

/-- No worker has more steps left than an iteration with full queues takes. -/
def Bounded (queuesize : Nat) (server : NetServer) : Prop :=
  ∀ (i : Nat) (ctx : Context), server.ctxs[i]? = some ctx →
    ctx.worker.ctx.queuesize ≤ queuesize ∧
      stepsLeft ctx.worker.pc ctx.worker.ctx ≤ stepBound queuesize

theorem Bounded.step {queuesize : Nat} {server server' : NetServer} {op : ServerOp}
    (h : Bounded queuesize server) (hstep : serverStep server op = .ok server') :
    Bounded queuesize server' := by
  intro i ctx hget
  obtain ⟨old, hold, hcases⟩ := serverStep_ctx hstep hget
  obtain ⟨hsize, hsteps⟩ := h i old hold
  rcases hcases with ⟨epfds, answers, -, hwork⟩ | ⟨-, hloop⟩
  · obtain ⟨hsize', hless | ⟨-, -, hwait⟩⟩ := workerStep_stepsLeft hwork
    · exact ⟨hsize'.trans_le hsize, hless.trans ((Nat.sub_le _ _).trans hsteps)⟩
    · -- a new iteration starts with the greatest number
      refine ⟨hsize'.trans_le hsize, ?_⟩
      rw [hwait, stepsLeft, hsize', stepBound]
      omega
  · rw [hloop.stepsLeft_eq, hloop.queuesize_eq]
    exact ⟨hsize, hsteps⟩

/-- A context that `init_tscontext` leaves. -/
theorem initTscontext_bounded {listenFd : Fd} {queuesize nthreads : Nat}
    {mallocs outcomes rest : MallocOutcomes} {ctx : Context} {ok : Bool}
    (h : initTscontext listenFd queuesize nthreads mallocs outcomes = .ok (ctx, ok, rest)) :
    ctx.worker.ctx.queuesize ≤ queuesize ∧
      stepsLeft ctx.worker.pc ctx.worker.ctx ≤ stepBound queuesize := by
  have hstart : 2 ≤ stepBound queuesize := by
    rw [stepBound]
    omega
  rw [initTscontext] at h
  simp only at h
  split at h
  · obtain ⟨freed, hfree, h⟩ := bind_eq_ok.mp h
    cases h
    obtain ⟨buffers, -, hfree⟩ := bind_eq_ok.mp hfree
    obtain ⟨hmap, -, hfree⟩ := bind_eq_ok.mp hfree
    cases hfree
    exact ⟨Nat.le_refl _, hstart⟩
  · cases h
    exact ⟨Nat.le_refl _, hstart⟩

theorem initTscontexts_bounded {listenFd : Fd} {queuesize nthreads : Nat}
    {outcomes : Nat → MallocOutcomes} {left : Nat} :
    ∀ {index : Nat} {mallocs : MallocOutcomes} {ctxs : List Context} {ok : Bool},
      initTscontexts listenFd queuesize nthreads outcomes left index mallocs = .ok (ctxs, ok) →
      ∀ ctx ∈ ctxs, ctx.worker.ctx.queuesize ≤ queuesize ∧
        stepsLeft ctx.worker.pc ctx.worker.ctx ≤ stepBound queuesize := by
  induction left with
  | zero =>
      intro index mallocs ctxs ok h
      cases h
      simp
  | succ left ih =>
      intro index mallocs ctxs ok h
      obtain ⟨⟨ctx, first, rest⟩, hinit, h⟩ := bind_eq_ok.mp h
      have hctx := initTscontext_bounded hinit
      cases first with
      | false =>
          cases h
          refine List.forall_mem_cons.mpr ⟨hctx, fun c hmem => ?_⟩
          rw [List.eq_of_mem_replicate hmem]
          exact ⟨Nat.zero_le _, Nat.le_trans (by decide) (Nat.le_add_left 7 _)⟩
      | true =>
          obtain ⟨⟨others, last⟩, hothers, h⟩ := bind_eq_ok.mp h
          cases h
          exact List.forall_mem_cons.mpr ⟨hctx, ih hothers⟩

/-- A server behind the first loop of `net_server_start`. -/
theorem netServerStart_bounded {opt : NetListenOptions} {listen : Option Fd}
    {mallocs : MallocOutcomes} {outcomes : Nat → MallocOutcomes} {k : Kernel} {server : NetServer}
    (h : netServerStart opt listen mallocs outcomes k = .ok server) :
    Bounded opt.queue server ∧ (server.stopping = true → server.pc.isCreate = false) := by
  cases listen with
  | none =>
      cases h
      exact ⟨fun i ctx hget => by simp [NetServer.fail, netServerStop] at hget, fun _ => rfl⟩
  | some listenFd =>
      rw [netServerStart] at h
      simp only at h
      split at h
      case isTrue hfailed =>
          cases h
          refine ⟨fun i ctx hget => ?_, fun _ => rfl⟩
          have hmem : ctx ∈ if (malloc mallocs).1 then List.replicate opt.threads Context.zero
              else [] := List.mem_of_getElem? hget
          split at hmem
          · rw [List.eq_of_mem_replicate hmem]
            exact ⟨Nat.zero_le _, Nat.le_trans (by decide) (Nat.le_add_left 7 _)⟩
          · exact absurd hmem List.not_mem_nil
      case isFalse hallocated =>
          obtain ⟨⟨ctxs, ok⟩, hinit, h⟩ := bind_eq_ok.mp h
          have hbounded := initTscontexts_bounded hinit
          cases h
          cases ok with
          | true =>
              exact ⟨fun i ctx hget => hbounded ctx (List.mem_of_getElem? hget),
                fun hstopping => by cases hstopping⟩
          | false =>
              exact ⟨fun i ctx hget => hbounded ctx (List.mem_of_getElem? hget), fun _ => rfl⟩

/-! ### The end of a run -/

/-- A step of the worker `i`. -/
def isWork (i : Nat) : ServerOp → Bool
  | .work index _ => index = i
  | _ => false

/-- The steps that the worker `i` has left. -/
def stepsLeftAt (server : NetServer) (i : Nat) : Nat :=
  match server.ctxs[i]? with
  | some ctx => stepsLeft ctx.worker.pc ctx.worker.ctx
  | none => 0

/-- `stopping` is set in front of `net_server_destroy` only, and then no thread is created. -/
theorem stop_not_create {server server' : NetServer} {op : ServerOp}
    (h : server.stopping = true → server.pc.isCreate = false) (hlegal : LegalOp server op)
    (hstep : serverStep server op = .ok server') :
    server'.stopping = true → server'.pc.isCreate = false := by
  cases op with
  | create answers =>
      -- the loop runs with `stopping` not set, and it does not set it
      have hrunning : server.stopping = false := by
        cases hstopping : server.stopping with
        | false => rfl
        | true =>
            have hcreate := hlegal.1
            rw [h hstopping] at hcreate
            cases hcreate
      intro hstopping
      rw [createStep_stopping hstep, hrunning] at hstopping
      cases hstopping
  | stop =>
      cases hstep
      have hpc : server.pc = .running := hlegal
      intro _
      show server.pc.isCreate = false
      rw [hpc]
      rfl
  | wait =>
      cases hstep
      exact h
  | destroy =>
      cases hstep
      exact fun _ => rfl
  | join =>
      obtain ⟨ctxs, hmap, hstep⟩ := bind_eq_ok.mp hstep
      cases hstep
      exact fun _ => rfl
  | work index answers =>
      rw [work_pc hstep, work_stopping hstep]
      exact h

/-- A server that has been told to stop starts no thread any more. -/
structure Stopping (server : NetServer) : Prop where
  stopping_eq : server.stopping = true
  not_create : server.pc.isCreate = false

theorem Stopping.step {server server' : NetServer} {op : ServerOp} (h : Stopping server)
    (hlegal : LegalOp server op) (hstep : serverStep server op = .ok server') :
    Stopping server' ∧ server'.startedThreads = server.startedThreads := by
  cases op with
  | create answers =>
      have hcreate := hlegal.1
      rw [h.not_create] at hcreate
      cases hcreate
  | stop =>
      cases hstep
      exact ⟨⟨rfl, h.not_create⟩, rfl⟩
  | wait =>
      cases hstep
      exact ⟨⟨h.stopping_eq, h.not_create⟩, rfl⟩
  | destroy =>
      cases hstep
      exact ⟨⟨rfl, rfl⟩, rfl⟩
  | join =>
      obtain ⟨ctxs, hmap, hstep⟩ := bind_eq_ok.mp hstep
      cases hstep
      exact ⟨⟨h.stopping_eq, rfl⟩, rfl⟩
  | work index answers =>
      refine ⟨⟨(work_stopping hstep).trans h.stopping_eq, ?_⟩, ?_⟩
      · rw [work_pc hstep]
        exact h.not_create
      · rw [serverStep] at hstep
        split at hstep
        · cases hstep
          rfl
        · obtain ⟨⟨w', k'⟩, -, hstep⟩ := bind_eq_ok.mp hstep
          cases hstep
          rfl

/-- A step of a stopping worker counts down, and the steps of the others leave its count alone. -/
theorem serverStep_stepsLeft {server server' : NetServer} {op : ServerOp}
    (hstopping : server.stopping = true) (hstep : serverStep server op = .ok server') (i : Nat) :
    stepsLeftAt server' i ≤ stepsLeftAt server i - if isWork i op then 1 else 0 := by
  rw [stepsLeftAt]
  cases hget : server'.ctxs[i]? with
  | none => exact Nat.zero_le _
  | some ctx =>
      obtain ⟨old, hold, hcases⟩ := serverStep_ctx hstep hget
      rw [stepsLeftAt, hold]
      rcases hcases with ⟨epfds, answers, rfl, hwork⟩ | ⟨hop, hloop⟩
      · rw [hstopping] at hwork
        have hone : isWork i (.work i answers) = true := decide_eq_true rfl
        rw [hone]
        obtain ⟨-, hless | ⟨hfalse, -⟩⟩ := workerStep_stepsLeft hwork
        · exact hless
        · cases hfalse
      · have hnone : isWork i op = false := by
          cases op with
          | work index answers =>
              refine decide_eq_false fun hindex => ?_
              rw [hindex] at hop
              exact hop answers rfl
          | create answers | stop | wait | destroy | join => rfl
        rw [hnone]
        exact hloop.stepsLeft_eq.le

/-- A run of a stopping server counts the steps of each worker. -/
theorem run_stepsLeft {ops : List ServerOp} :
    ∀ {server server' : NetServer}, Stopping server → Guarded serverStep LegalOp server ops →
      run serverStep server ops = .ok server' →
      Stopping server' ∧ server'.startedThreads = server.startedThreads ∧
        ∀ i, stepsLeftAt server' i ≤ stepsLeftAt server i - ops.countP (isWork i) := by
  induction ops with
  | nil =>
      intro server server' h _ hrun
      cases hrun
      exact ⟨h, rfl, fun i => Nat.le_refl _⟩
  | cons op ops ih =>
      intro server server' h hlegal hrun
      obtain ⟨next, hstep, hrest⟩ := run_cons_ok hrun
      obtain ⟨hnext, hthreads⟩ := h.step hlegal.1 hstep
      obtain ⟨hlast, hthreads', hcount⟩ := ih hnext (hlegal.2 next hstep) hrest
      refine ⟨hlast, hthreads'.trans hthreads, fun i => ?_⟩
      have hfirst := serverStep_stepsLeft h.stopping_eq hstep i
      have hrest := hcount i
      rw [List.countP_cons]
      omega

/-- A server that is told to stop does stop. A worker that has had `5 * queuesize + 7` turns behind
the call of `net_server_stop` has returned: no answer of a system call or of `process`, and no turn
of another thread, can hold it in its loop. When each worker has had its turns, all have returned.
So `net_server_wait` returns, and `net_server_destroy` with it. -/
theorem stop_ends_all_workers (opt : NetListenOptions) (listen : Option Fd)
    (mallocs : MallocOutcomes) (outcomes : Nat → MallocOutcomes) (k : Kernel)
    {before after : List ServerOp} {start stopped server : NetServer}
    (hstart : netServerStart opt listen mallocs outcomes k = .ok start)
    (hbefore : Guarded serverStep LegalOp start before)
    (hstopped : run serverStep start before = .ok stopped) (hstopping : stopped.stopping = true)
    (hafter : Guarded serverStep LegalOp stopped after)
    (hrun : run serverStep stopped after = .ok server) :
    (∀ i ctx, stepBound opt.queue ≤ after.countP (isWork i) → server.ctxs[i]? = some ctx →
      ctx.worker.pc = .exited) ∧
    ((∀ i < stopped.startedThreads, stepBound opt.queue ≤ after.countP (isWork i)) →
      AllExited server ∧ (server.pc = .running → LegalOp server .wait) ∧
        (server.pc = .destroy → LegalOp server .join)) := by
  obtain ⟨hbounded, hcreate⟩ := netServerStart_bounded hstart
  obtain ⟨hbounded', hcreate'⟩ := run_invariant
    (fun s => Bounded opt.queue s ∧ (s.stopping = true → s.pc.isCreate = false))
    (fun s op s' h hlegal hstep => ⟨h.1.step hstep, stop_not_create h.2 hlegal hstep⟩)
    before start stopped ⟨hbounded, hcreate⟩ hbefore hstopped
  obtain ⟨-, hthreads, hcount⟩ :=
    run_stepsLeft ⟨hstopping, hcreate' hstopping⟩ hafter hrun
  -- the count of a worker that has had its turns has come down to 0
  have hexited : ∀ i ctx, stepBound opt.queue ≤ after.countP (isWork i) →
      server.ctxs[i]? = some ctx → ctx.worker.pc = .exited := by
    intro i ctx hturns hget
    have hleft := hcount i
    have hbound : stepsLeftAt stopped i ≤ stepBound opt.queue := by
      rw [stepsLeftAt]
      cases hold : stopped.ctxs[i]? with
      | none => exact Nat.zero_le _
      | some old => exact (hbounded' i old hold).2
    have hzero : stepsLeftAt server i = 0 := by omega
    rw [stepsLeftAt, hget] at hzero
    exact stepsLeft_eq_zero.mp hzero
  refine ⟨hexited, fun hturns => ?_⟩
  have hall : AllExited server := by
    intro ctx hmem
    obtain ⟨i, hget⟩ := List.getElem?_of_mem hmem
    rw [List.getElem?_take] at hget
    split at hget
    case isFalse hlate => cases hget
    case isTrue hi => exact hexited i ctx (hturns i (hthreads ▸ hi)) hget
  exact ⟨hall, fun hpc => ⟨hpc, Or.inr hall⟩, fun hpc => ⟨hpc, Or.inr hall⟩⟩

/-- Two workers. The first one is in the middle of an iteration when the server stops, and the
second one has not had a turn. -/
def stoppedOps : List ServerOp :=
  [.create ⟨some 3, some 5, true, true, true⟩, .create ⟨some 7, some 8, true, true, true⟩] ++
    ([{}, {}, { wait := some [4] }] : List Answers).map (ServerOp.work 0) ++ [.stop]

/-- Turns of the first worker that bring no event. -/
def lastTurns : List ServerOp := List.replicate 47 (.work 0 {})

/-- The end of the first worker, while the second one still waits for its first turn. -/
theorem stop_ends_all_workers_one_of_two :
    ∃ start stopped server first second,
      netServerStart ⟨2, 8⟩ (some 4) [] (fun _ => []) ⟨[], [], 0⟩ = .ok start ∧
      run serverStep start stoppedOps = .ok stopped ∧ stopped.startedThreads = 2 ∧
      run serverStep stopped lastTurns = .ok server ∧
      server.ctxs[0]? = some first ∧ first.worker.pc = .exited ∧
      server.ctxs[1]? = some second ∧ second.worker.pc = .start := by
  have hchecked : ∃ start ∈ (netServerStart ⟨2, 8⟩ (some 4) [] (fun _ => [])
      ⟨[], [], 0⟩).toOption, Guarded serverStep LegalOp start stoppedOps ∧
        ∃ stopped ∈ (run serverStep start stoppedOps).toOption,
          stopped.stopping = true ∧ stopped.startedThreads = 2 ∧
            Guarded serverStep LegalOp stopped lastTurns ∧
            (run serverStep stopped lastTurns).toOption.map
                (fun server => (server.ctxs.length, server.ctxs[1]?.map (·.worker.pc)))
              = some (2, some .start) := by
    decide +kernel
  obtain ⟨start, hmem, hbefore, stopped, hmem', hstopping, hthreads, hafter, hend⟩ := hchecked
  have hstart := toOption_eq_some.mp hmem
  have hstopped := toOption_eq_some.mp hmem'
  obtain ⟨server, hserver, hstate⟩ := Option.map_eq_some_iff.mp hend
  have hrun := toOption_eq_some.mp hserver
  obtain ⟨hlength, hwaits⟩ := Prod.mk.inj hstate
  have hpos : 0 < server.ctxs.length := by
    rw [hlength]
    decide
  obtain ⟨first, hfirst⟩ : ∃ first, server.ctxs[0]? = some first :=
    ⟨_, List.getElem?_eq_getElem hpos⟩
  obtain ⟨second, hsecond, hpc⟩ := Option.map_eq_some_iff.mp hwaits
  have hexited := (stop_ends_all_workers ⟨2, 8⟩ (some 4) [] (fun _ => []) ⟨[], [], 0⟩
    hstart hbefore hstopped hstopping hafter hrun).1 0 first (by decide) hfirst
  exact ⟨start, stopped, server, first, second, hstart, hstopped, hthreads, hrun, hfirst,
    hexited, hsecond, hpc⟩

end MustDb.Proofs.Libv
