import MustDb.Lib.Run
import MustDb.Libv.NetServer
import MustDb.Proofs.Libv.Agenda

/-!
# `MustDb.Proofs.Libv.NetServer`: what is left open after `net_server_destroy`

`Balanced` says that the end of a server undoes everything since its start: each connection that was
opened is closed, once, and no epoll or eventfd descriptor of a worker is left in the table.

The code does not do this. `ts_close` is the only place that closes a connection, and it is inside
the loop that `stopping` ends. `free_tscontext` and `net_server_destroy` close the listening socket
only, so the epoll descriptor of the first worker stays open (`Survives`), in every run from the
first `create_worker_thread` on. A worker cannot close it by chance: it only closes connections,
and their descriptors are new while the epoll descriptor is open. What remains is a start that
fails before it has a worker: `shutdown_balanced_iff` says that this is the only case.
-/

set_option autoImplicit false

namespace MustDb.Proofs.Libv

open MustDb.Lib
open MustDb.Libv

/-! ### The workers -/

/-- The epoll descriptor `e` is open, and in no interest list. -/
structure KernelKeeps (e : Fd) (k : Kernel) : Prop where
  alive : (e, .epoll) ∈ k.openFds
  unlisted : ∀ entry ∈ k.registered, entry.2 ≠ e

/-- No connection has the descriptor `e`. -/
def ConnsSpare (e : Fd) (conns : Heap NetConn) : Prop :=
  ∀ a conn, conns.get? a = some conn → conn.fd ≠ e

/-- The worker does not know the descriptor `e`. -/
structure Spares (e : Fd) (w : Worker) : Prop where
  conns : ConnsSpare e w.conns
  events : ∀ fd ∈ eventsLeft w.pc, fd ≠ e

section Worker
variable {e fd : Fd} {k k' : Kernel} {w w' : Worker} {a : Addr}

theorem KernelKeeps.newFd (h : KernelKeeps e k) (fd : Fd) (kind : FdKind) :
    KernelKeeps e (k.newFd fd kind) where
  alive := List.mem_cons_of_mem _ h.alive
  unlisted := h.unlisted

theorem KernelKeeps.close (h : KernelKeeps e k) (hfd : fd ≠ e) : KernelKeeps e (k.close fd) where
  alive := List.mem_filter.mpr ⟨h.alive, decide_eq_true hfd.symm⟩
  unlisted entry hmem := h.unlisted entry (List.mem_of_mem_filter hmem)

theorem KernelKeeps.register (h : KernelKeeps e k) (epfd : Fd) (hfd : fd ≠ e) :
    KernelKeeps e (k.register epfd fd) where
  alive := h.alive
  unlisted := List.forall_mem_cons.mpr ⟨hfd, h.unlisted⟩

/-- A new descriptor is not one that is open. -/
theorem KernelKeeps.ne_of_isNew (h : KernelKeeps e k) (hnew : k.IsNew fd) : fd ≠ e := by
  rintro rfl
  exact hnew (List.mem_map_of_mem h.alive)

theorem ConnsSpare.put {conns : Heap NetConn} {conn conn' : NetConn} (h : ConnsSpare e conns)
    (hlive : conns.get? a = some conn) (hfd : conn'.fd = conn.fd) :
    ConnsSpare e (conns.put a conn') := by
  intro b c hc
  by_cases hb : b = a
  · rw [hb, Heap.get?_put_self hlive] at hc
    cases hc
    rw [hfd]
    exact h a conn hlive
  · rw [Heap.get?_put_of_ne hb] at hc
    exact h b c hc

theorem ConnsSpare.free {conns : Heap NetConn} (h : ConnsSpare e conns) (a : Addr) :
    ConnsSpare e (conns.free a) := by
  intro b c hc
  by_cases hb : b = a
  · rw [hb, Heap.get?_free_self] at hc
    cases hc
  · rw [Heap.get?_free_of_ne hb] at hc
    exact h b c hc

theorem ConnsSpare.push {conns : Heap NetConn} (h : ConnsSpare e conns) {conn : NetConn}
    (hfd : conn.fd ≠ e) : ConnsSpare e (conns.push conn) := by
  intro b c hc
  by_cases hb : b = conns.next
  · rw [hb, Heap.get?_push_next] at hc
    cases hc
    exact hfd
  · rw [Heap.get?_push_of_ne hb] at hc
    exact h b c hc

theorem readConn_ok {conn : NetConn} (h : w.readConn a = .ok conn) :
    w.conns.get? a = some conn := by
  rw [Worker.readConn] at h
  split at h
  case h_1 c hlive =>
      cases h
      exact hlive
  case h_2 => cases h

/-- A store to a queue does not touch the connections. -/
theorem conns_of_push {α : Type} {que : Except Fault (List α)} {store : List α → TsContext}
    (h : (que >>= fun q => pure { w with ctx := store q }) = .ok w') : w'.conns = w.conns := by
  obtain ⟨q, -, hq⟩ := bind_eq_ok.mp h
  cases hq
  rfl

theorem queueEvent_conns (h : queueEvent w a = .ok w') : w'.conns = w.conns := by
  obtain ⟨conn, -, hrest⟩ := bind_eq_ok.mp h
  split at hrest
  · exact conns_of_push hrest
  split at hrest
  · exact conns_of_push hrest
  split at hrest
  · exact conns_of_push hrest
  · exact conns_of_push hrest

theorem handleRead_conns {answer : ReadAnswer} (h : handleRead w a answer = .ok w') :
    w'.conns = w.conns := by
  cases answer with
  | again =>
      cases h
      rfl
  | error => exact conns_of_push h
  | data bytes =>
      rw [handleRead] at h
      split at h
      · exact conns_of_push h
      · exact conns_of_push h

/-! The phases, in the order of the loop. -/

theorem acceptConn_keeps (hk : KernelKeeps e k) {epfds : List Fd} {nthreads : Nat}
    {answer : AcceptAnswer} (hlegal : answer.Legal k) :
    KernelKeeps e (acceptConn epfds nthreads k answer) := by
  cases answer with
  | failed => exact hk
  | conn fd nonblock added =>
      have hfd : fd ≠ e := hk.ne_of_isNew hlegal
      -- the new descriptor is not `e`, so it can be registered or closed
      have hopened := hk.newFd fd .socket
      have hnext : KernelKeeps e
          { k.newFd fd .socket with nextCtxIndex := (k.newFd fd .socket).nextCtxIndex + 1 } :=
        ⟨hopened.alive, hopened.unlisted⟩
      rw [acceptConn]
      simp only
      split
      · exact hopened.close hfd
      split
      · exact hnext.register _ hfd
      · exact hnext.close hfd

theorem openConn_keeps (hk : KernelKeeps e k) (hconns : ConnsSpare e w.conns) (hfd : fd ≠ e)
    (h : openConn w k fd = .ok (w', k')) : KernelKeeps e k' ∧ ConnsSpare e w'.conns := by
  obtain ⟨left, -, halloc | halloc⟩ := w.conns.alloc_cases (connNew fd)
  · -- without memory the descriptor of the event is closed, and that is not `e`
    rw [openConn, halloc] at h
    cases h
    exact ⟨hk.close hfd, hconns⟩
  · rw [openConn, halloc] at h
    obtain ⟨⟨hmap, node, rest⟩, -, h⟩ := bind_eq_ok.mp h
    obtain ⟨w₁, hqueue, h⟩ := bind_eq_ok.mp h
    cases h
    rw [queueEvent_conns hqueue]
    exact ⟨hk, hconns.push hfd⟩

theorem tsAccept_keeps (hk : KernelKeeps e k) (hconns : ConnsSpare e w.conns) (hfd : fd ≠ e)
    {epfds : List Fd} {answer : AcceptAnswer} (hlegal : answer.Legal k)
    (h : tsAccept epfds w k fd answer = .ok (w', k')) :
    KernelKeeps e k' ∧ ConnsSpare e w'.conns := by
  rw [tsAccept] at h
  split at h
  · cases h
    exact ⟨hk, hconns⟩
  obtain ⟨found, -, h⟩ := bind_eq_ok.mp h
  cases found with
  | some addr =>
      obtain ⟨w₁, hqueue, h⟩ := bind_eq_ok.mp h
      cases h
      rw [queueEvent_conns hqueue]
      exact ⟨hk, hconns⟩
  | none =>
      simp only at h
      split at h
      · -- the event is for the listening socket
        cases h
        exact ⟨acceptConn_keeps hk hlegal, hconns⟩
      · -- the event is for a connection that this worker does not know yet
        exact openConn_keeps hk hconns hfd h

theorem tsRead_conns {answer : ReadAnswer} (h : tsRead w a answer = .ok w') :
    w'.conns = w.conns := by
  obtain ⟨conn, -, hrest⟩ := bind_eq_ok.mp h
  have hconns := handleRead_conns hrest
  exact hconns

theorem tsProcess_keeps (hconns : ConnsSpare e w.conns) {packet : List UInt8} {response : Response}
    (h : tsProcess w a packet response = .ok w') : ConnsSpare e w'.conns := by
  obtain ⟨conn, hread, hrest⟩ := bind_eq_ok.mp h
  have hput : ConnsSpare e (w.conns.put a (conn.respond response)) :=
    hconns.put (readConn_ok hread) rfl
  simp only at hrest
  split at hrest
  · cases hrest
    exact hput
  split at hrest
  · rw [conns_of_push hrest]
    exact hput
  split at hrest
  · rw [conns_of_push hrest]
    exact hput
  · cases hrest
    exact hput

theorem rearm_keeps (hk : KernelKeeps e k) {conn : NetConn} (hfd : conn.fd ≠ e)
    (answers : Answers) : KernelKeeps e (rearm w k conn answers).1 := by
  rw [rearm]
  split
  · rw [addWrite]
    split
    · exact hk.register _ hfd
    · exact hk
    · exact hk
  · exact hk

theorem tsWrite_keeps (hk : KernelKeeps e k) (hconns : ConnsSpare e w.conns) {answers : Answers}
    (h : tsWrite w k a answers = .ok (w', k')) : KernelKeeps e k' ∧ ConnsSpare e w'.conns := by
  obtain ⟨conn, hread, hrest⟩ := bind_eq_ok.mp h
  have hlive := readConn_ok hread
  have hsame := flushConn_fd answers.writes conn
  have hput : ConnsSpare e (w.conns.put a (flushConn answers.writes conn).1) :=
    hconns.put hlive hsame
  have hfd : (flushConn answers.writes conn).1.fd ≠ e := hsame ▸ hconns a conn hlive
  -- the connection is queued to be closed, or armed again, or marked as closed
  simp only at hrest
  split at hrest
  · obtain ⟨w₁, hpush, hrest⟩ := bind_eq_ok.mp hrest
    cases hrest
    rw [conns_of_push hpush]
    exact ⟨hk, hput⟩
  split at hrest
  · cases hrest
    exact ⟨rearm_keeps hk hfd answers, hput⟩
  · cases hrest
    exact ⟨rearm_keeps hk hfd answers, hput.put (Heap.get?_put_self hlive _) rfl⟩

theorem tsClose_keeps (hk : KernelKeeps e k) (hconns : ConnsSpare e w.conns)
    (h : tsClose w k a = .ok (w', k')) : KernelKeeps e k' ∧ ConnsSpare e w'.conns := by
  obtain ⟨conn, hread, hrest⟩ := bind_eq_ok.mp h
  obtain ⟨⟨hmap, code, value⟩, -, hrest⟩ := bind_eq_ok.mp hrest
  cases hrest
  exact ⟨hk.close (hconns a conn (readConn_ok hread)), hconns.free a⟩

/-- A step of a worker leaves the epoll descriptor open. -/
theorem workerStep_keeps (hk : KernelKeeps e k) (hw : Spares e w) {epfds : List Fd}
    {stopping : Bool} {answers : Answers} (hlegal : answers.Legal k w)
    (h : workerStep epfds stopping w k answers = .ok (w', k')) :
    KernelKeeps e k' ∧ Spares e w' := by
  have hidle : ∀ fd : Fd, fd ∈ ([] : List Fd) → fd ≠ e := fun fd hmem =>
    absurd hmem List.not_mem_nil
  cases workerStep_cases h with
  | goto hagenda hevents => exact ⟨hk, hw.conns, hevents ▸ hw.events⟩
  | start hstart hnext =>
      refine ⟨hk, hw.conns, ?_⟩
      rcases hnext with rfl | rfl
      · exact hidle
      · exact hidle
  | wait hpc hwait =>
      refine ⟨hk, hw.conns, ?_⟩
      intro fd hmem
      -- an event is for a descriptor of the interest list
      exact hk.unlisted _ (hlegal.1 _ hwait fd (List.mem_of_mem_take hmem))
  | accept hpc hrun =>
      have hevents := hw.events
      rw [hpc] at hevents
      obtain ⟨hfd, hrest⟩ := List.forall_mem_cons.mp hevents
      obtain ⟨hk', hconns⟩ := tsAccept_keeps hk hw.conns hfd hlegal.2 hrun
      exact ⟨hk', hconns, hrest⟩
  | read hpc hrun =>
      -- behind `ts_accept` no event is left, and the kernel changes only at a connection
      have hconns := tsRead_conns hrun
      exact ⟨hk, hconns ▸ hw.conns, hidle⟩
  | process hpc hrun =>
      have hconns := tsProcess_keeps hw.conns hrun
      exact ⟨hk, hconns, hidle⟩
  | write hpc hrun =>
      obtain ⟨hk', hconns⟩ := tsWrite_keeps hk hw.conns hrun
      exact ⟨hk', hconns, hidle⟩
  | close hpc hrun =>
      obtain ⟨hk', hconns⟩ := tsClose_keeps hk hw.conns hrun
      exact ⟨hk', hconns, hidle⟩

end Worker

/-! ### The server -/

/-- The end of a server undoes its start: connections that were opened are closed once, and the
descriptors of `create_worker_thread` are closed. -/
structure Balanced (server : NetServer) : Prop where
  connections : ∀ ctx ∈ server.ctxs, ∀ a, .opened ∈ callsOn ctx.worker.log a →
    (callsOn ctx.worker.log a).count .closed = 1 ∧ .closeFd ∈ callsOn ctx.worker.log a
  descriptors : ∀ entry ∈ server.created, entry ∉ server.kernel.openFds

/-- The epoll descriptor `e` of a worker is open, and nobody is going to close it. -/
structure Survives (e : Fd) (server : NetServer) : Prop where
  created : (e, .epoll) ∈ server.created
  kernel : KernelKeeps e server.kernel
  listen : server.listenFd ≠ some e
  workers : ∀ ctx ∈ server.ctxs, Spares e ctx.worker

/-- The thread has not been started. -/
structure Untouched (w : Worker) : Prop where
  pc_eq : w.pc = .start
  get?_none : ∀ a, w.conns.get? a = none
  log_nil : w.log = []

/-- A server in front of its first `create_worker_thread`. -/
structure Fresh (server : NetServer) : Prop where
  pc_eq : server.pc = .create 0
  startedThreads_eq : server.startedThreads = 0
  registered_nil : server.kernel.registered = []
  listen : ∃ fd, server.listenFd = some fd ∧ (fd, .listen) ∈ server.kernel.openFds
  workers : ∀ ctx ∈ server.ctxs, Untouched ctx.worker

/-- A server without a worker, on its way through `net_server_destroy`. -/
structure Unstarted (server : NetServer) : Prop where
  pc_cases : server.pc = .destroy ∨ server.pc = .destroyed
  startedThreads_eq : server.startedThreads = 0
  created_nil : server.created = []
  workers : ∀ ctx ∈ server.ctxs, ctx.worker.log = []

section Server
variable {e : Fd} {server server' : NetServer}

theorem Survives.openFd (h : Survives e server) (fd : Fd) (kind : FdKind) :
    Survives e (server.openFd fd kind) where
  created := List.mem_cons_of_mem _ h.created
  kernel := h.kernel.newFd fd kind
  listen := h.listen
  workers := h.workers

/-- The first epoll descriptor is a new one, so it survives. -/
theorem Fresh.openFd (h : Fresh server) (hnew : server.kernel.IsNew e) :
    Survives e (server.openFd e .epoll) where
  created := List.mem_cons_self
  kernel :=
    { alive := List.mem_cons_self
      unlisted := fun entry hmem => by
        have hnil : entry ∈ server.kernel.registered := hmem
        rw [h.registered_nil] at hnil
        exact absurd hnil List.not_mem_nil }
  listen := by
    obtain ⟨fd, hlisten, hopen⟩ := h.listen
    intro heq
    have hfd : fd = e := Option.some.inj (hlisten.symm.trans heq)
    rw [hfd] at hopen
    exact hnew (List.mem_map_of_mem hopen)
  workers ctx hmem := by
    have huntouched := h.workers ctx hmem
    refine ⟨fun a conn hlive => ?_, fun fd hevent => ?_⟩
    · rw [huntouched.get?_none] at hlive
      cases hlive
    · rw [huntouched.pc_eq] at hevent
      exact absurd hevent List.not_mem_nil

theorem Survives.modifyCtx (h : Survives e server) (index : Nat) (f : TsContext → TsContext) :
    Survives e (server.modifyCtx index f) where
  created := h.created
  kernel := h.kernel
  listen := h.listen
  workers ctx hmem := by
    obtain ⟨i, hget⟩ := List.getElem?_of_mem hmem
    rw [NetServer.modifyCtx, List.getElem?_modify] at hget
    obtain ⟨old, hold, hctx⟩ := Option.map_eq_some_iff.mp hget
    have hspares := h.workers old (List.mem_of_getElem? hold)
    -- the stores are to descriptors and numbers, and the connections stay
    split at hctx
    · rw [← hctx]
      exact ⟨hspares.conns, hspares.events⟩
    · rwa [← hctx]

theorem Survives.register (h : Survives e server) (epfd : Fd) {fd : Fd} (hfd : fd ≠ e) :
    Survives e { server with kernel := server.kernel.register epfd fd } where
  created := h.created
  kernel := h.kernel.register epfd hfd
  listen := h.listen
  workers := h.workers

/-- The part of `create_worker_thread` behind `epoll_create1`, when it gets as far as the thread. -/
theorem createWorkerThread_survives {index : Nat} {listenFd epfd : Fd} {answers : CreateAnswers}
    (h : Survives e (server.openFd epfd .epoll)) (hlisten : server.listenFd = some listenFd)
    (hepoll : answers.epoll = some epfd)
    (hnew : ∀ wakeFd, answers.eventfd = some wakeFd →
      (server.kernel.newFd epfd .epoll).IsNew wakeFd)
    (hok : (createWorkerThread server index listenFd answers).2 = true) :
    Survives e (createWorkerThread server index listenFd answers).1 := by
  have hlisten_ne : listenFd ≠ e := fun heq => h.listen (heq ▸ hlisten)
  cases heventfd : answers.eventfd with
  | none => simp [createWorkerThread, hepoll, heventfd] at hok
  | some wakeFd =>
      have hwake_ne : wakeFd ≠ e := h.kernel.ne_of_isNew (hnew wakeFd heventfd)
      have hcontext := (h.openFd wakeFd .eventfd).modifyCtx index fun wk =>
        { wk with wakeFd, epfd, index }
      have hregistered := (hcontext.register epfd hlisten_ne).register epfd hwake_ne
      -- each call that fails ends the start
      cases hlisten : answers.listenAdded with
      | false => simp [createWorkerThread, hepoll, heventfd, hlisten] at hok
      | true =>
          cases hwake : answers.wakeAdded with
          | false => simp [createWorkerThread, hepoll, heventfd, hlisten, hwake] at hok
          | true =>
              cases hthread : answers.thread with
              | false =>
                  simp [createWorkerThread, hepoll, heventfd, hlisten, hwake, hthread] at hok
              | true =>
                  simp only [createWorkerThread, hepoll, heventfd, hlisten, hwake, hthread,
                    not_true_eq_false, if_false, if_true]
                  exact ⟨hregistered.created, hregistered.kernel, hregistered.listen,
                    hregistered.workers⟩

/-- A turn of the second loop of `net_server_start`. -/
theorem create_survives {answers : CreateAnswers}
    (h : Fresh server ∨ ∃ e, Survives e server) (hlegal : LegalOp server (.create answers))
    (hstep : serverStep server (.create answers) = .ok server') :
    (∃ e, Survives e server') ∨ server'.pc = .gaveUp := by
  obtain ⟨hcreate, hnew⟩ := hlegal
  obtain ⟨index, hpc⟩ := MainPc.exists_of_isCreate hcreate
  cases hlisten : server.listenFd with
  | none =>
      simp only [serverStep, hpc, hlisten] at hstep
      cases hstep
      rcases h with hfresh | hsurvives
      · obtain ⟨fd, hfd, -⟩ := hfresh.listen
        rw [hlisten] at hfd
        cases hfd
      · exact Or.inl hsurvives
  | some listenFd =>
      simp only [serverStep, hpc, hlisten] at hstep
      cases hstep
      cases hok : (createWorkerThread server index listenFd answers).2 with
      -- `net_server_start` returns at once, and nobody can destroy the server any more
      | false => exact Or.inr rfl
      | true =>
          cases hepoll : answers.epoll with
          | none => simp [createWorkerThread, hepoll] at hok
          | some epfd =>
              obtain ⟨hepfd, hwake⟩ := hnew epfd hepoll
              -- the first turn gets the descriptor that survives, and the later ones keep it
              obtain ⟨e, he⟩ : ∃ e, Survives e (server.openFd epfd .epoll) := by
                rcases h with hfresh | ⟨e, he⟩
                · exact ⟨epfd, hfresh.openFd hepfd⟩
                · exact ⟨e, he.openFd epfd .epoll⟩
              have hnext := createWorkerThread_survives he hlisten hepoll hwake hok
              exact Or.inl ⟨e, hnext.created, hnext.kernel, hnext.listen, hnext.workers⟩

/-- `free_tscontext` does not touch the connections. -/
theorem freeTscontext_worker {ctx ctx' : Context} (h : freeTscontext ctx = .ok ctx') :
    ctx'.worker.conns = ctx.worker.conns ∧ ctx'.worker.pc = ctx.worker.pc ∧
      ctx'.worker.log = ctx.worker.log := by
  obtain ⟨buffers, -, h⟩ := bind_eq_ok.mp h
  obtain ⟨hmap, -, h⟩ := bind_eq_ok.mp h
  cases h
  exact ⟨rfl, rfl, rfl⟩

/-- The end of `net_server_destroy` closes the listening socket only. -/
theorem Survives.free (h : Survives e server) (hstep : netServerFree server = .ok server') :
    Survives e server' := by
  obtain ⟨ctxs, hmap, hstep⟩ := bind_eq_ok.mp hstep
  cases hstep
  refine ⟨h.created, ?_, h.listen, ?_⟩
  · cases hlisten : server.listenFd with
    | none => exact h.kernel
    | some fd => exact h.kernel.close fun heq => h.listen (heq ▸ hlisten)
  · intro ctx hmem
    obtain ⟨old, hold, hfree⟩ := mem_of_mapM_eq_ok hmap ctx hmem
    obtain ⟨hconns, hpc, -⟩ := freeTscontext_worker hfree
    have hspares := h.workers old hold
    exact ⟨hconns ▸ hspares.conns, hpc ▸ hspares.events⟩

theorem Survives.work (h : Survives e server) {index : Nat} {answers : Answers}
    (hlegal : LegalOp server (.work index answers))
    (hstep : serverStep server (.work index answers) = .ok server') : Survives e server' := by
  rw [serverStep] at hstep
  cases hget : server.ctxs[index]? with
  | none =>
      rw [hget] at hstep
      cases hstep
      exact h
  | some ctx =>
      rw [hget] at hstep
      obtain ⟨⟨w', k'⟩, hwork, hstep⟩ := bind_eq_ok.mp hstep
      cases hstep
      have hspares := h.workers ctx (List.mem_of_getElem? hget)
      obtain ⟨hk, hw⟩ := workerStep_keeps h.kernel hspares (hlegal.2 ctx hget) hwork
      refine ⟨h.created, hk, h.listen, ?_⟩
      intro c hmem
      rcases List.mem_or_eq_of_mem_set hmem with hold | rfl
      · exact h.workers c hold
      · exact hw

/-- What holds in every run whose start got as far as its workers. -/
def Leaks (server : NetServer) : Prop :=
  Fresh server ∨ (∃ e, Survives e server) ∨ server.pc = .gaveUp

/-- Behind the second loop of `net_server_start` there is an epoll descriptor. -/
theorem Leaks.survives (h : Leaks server) {pc : MainPc} (hpc : server.pc = pc)
    (hcreate : pc ≠ .create 0) (hgaveUp : pc ≠ .gaveUp) : ∃ e, Survives e server := by
  rcases h with hfresh | hsurvives | hfailed
  · exact absurd (hpc.symm.trans hfresh.pc_eq) hcreate
  · exact hsurvives
  · exact absurd (hpc.symm.trans hfailed) hgaveUp

theorem work_pc {index : Nat} {answers : Answers}
    (hstep : serverStep server (.work index answers) = .ok server') : server'.pc = server.pc := by
  rw [serverStep] at hstep
  split at hstep
  · cases hstep
    rfl
  · obtain ⟨⟨w', k'⟩, -, hstep⟩ := bind_eq_ok.mp hstep
    cases hstep
    rfl

theorem Leaks.step {op : ServerOp} (h : Leaks server) (hlegal : LegalOp server op)
    (hstep : serverStep server op = .ok server') : Leaks server' := by
  cases op with
  | create answers =>
      have hbefore : Fresh server ∨ ∃ e, Survives e server := by
        rcases h with hfresh | hsurvives | hgaveUp
        · exact Or.inl hfresh
        · exact Or.inr hsurvives
        · have hcreate := hlegal.1
          rw [hgaveUp] at hcreate
          cases hcreate
      exact Or.inr (create_survives hbefore hlegal hstep)
  | work index answers =>
      rcases h with hfresh | ⟨e, he⟩ | hgaveUp
      · -- no thread has been started yet, so none can take a step
        have hlt : index < server.startedThreads := hlegal.1
        rw [hfresh.startedThreads_eq] at hlt
        exact absurd hlt (Nat.not_lt_zero _)
      · exact Or.inr (Or.inl ⟨e, he.work hlegal hstep⟩)
      · exact Or.inr (Or.inr ((work_pc hstep).trans hgaveUp))
  | stop =>
      obtain ⟨e, he⟩ := h.survives hlegal (by decide) (by decide)
      cases hstep
      exact Or.inr (Or.inl ⟨e, he.created, he.kernel, he.listen, he.workers⟩)
  | wait =>
      obtain ⟨e, he⟩ := h.survives hlegal.1 (by decide) (by decide)
      cases hstep
      exact Or.inr (Or.inl ⟨e, he.created, he.kernel, he.listen, he.workers⟩)
  | destroy =>
      obtain ⟨e, he⟩ := h.survives hlegal (by decide) (by decide)
      cases hstep
      exact Or.inr (Or.inl ⟨e, he.created, he.kernel, he.listen, he.workers⟩)
  | join =>
      obtain ⟨e, he⟩ := h.survives hlegal.1 (by decide) (by decide)
      exact Or.inr (Or.inl ⟨e, he.free hstep⟩)

/-- An open epoll descriptor is not balanced. -/
theorem Survives.not_balanced (h : Survives e server) : ¬ Balanced server := fun hbalanced =>
  hbalanced.descriptors _ h.created h.kernel.alive

/-- A server without a worker has nothing to undo. -/
theorem Unstarted.step {op : ServerOp} (h : Unstarted server) (hlegal : LegalOp server op)
    (hstep : serverStep server op = .ok server') : Unstarted server' := by
  have hpc_ne : ∀ pc, server.pc = pc → pc = .destroy ∨ pc = .destroyed := fun pc hpc =>
    hpc ▸ h.pc_cases
  cases op with
  | create answers =>
      -- the server is on its way out: only `join` can come
      obtain ⟨index, hpc⟩ := MainPc.exists_of_isCreate hlegal.1
      rcases hpc_ne _ hpc with heq | heq
      · cases heq
      · cases heq
  | stop => exact absurd (hpc_ne _ hlegal) (by decide)
  | wait => exact absurd (hpc_ne _ hlegal.1) (by decide)
  | destroy => exact absurd (hpc_ne _ hlegal) (by decide)
  | join =>
      obtain ⟨ctxs, hmap, hstep⟩ := bind_eq_ok.mp hstep
      cases hstep
      refine ⟨Or.inr rfl, h.startedThreads_eq, h.created_nil, ?_⟩
      intro ctx hmem
      obtain ⟨old, hold, hfree⟩ := mem_of_mapM_eq_ok hmap ctx hmem
      exact (freeTscontext_worker hfree).2.2.trans (h.workers old hold)
  | work index answers =>
      have hlt : index < server.startedThreads := hlegal.1
      rw [h.startedThreads_eq] at hlt
      exact absurd hlt (Nat.not_lt_zero _)

theorem Unstarted.balanced (h : Unstarted server) : Balanced server where
  connections ctx hmem a hopened := by
    rw [h.workers ctx hmem] at hopened
    exact absurd hopened List.not_mem_nil
  descriptors entry hmem := by
    rw [h.created_nil] at hmem
    exact absurd hmem List.not_mem_nil

end Server

/-! ### The start -/

theorem threads_pos (opt : NetListenOptions) : 0 < opt.threads := by
  rw [NetListenOptions.threads]
  split <;> omega

/-- `net_server_start` gets to its second loop: it has a listening socket, and none of its
allocations fails. -/
def Prepared (opt : NetListenOptions) (listen : Option Fd) (mallocs : MallocOutcomes) : Prop :=
  listen.isSome ∧ false ∉ mallocs.take (2 + NBUFFERS * opt.threads)

theorem false_notMem_take_add {mallocs : MallocOutcomes} {m n : Nat} :
    false ∉ mallocs.take (m + n) ↔ false ∉ mallocs.take m ∧ false ∉ (mallocs.drop m).take n := by
  rw [List.take_add, List.mem_append, not_or]

theorem mallocBuffers_spec (n : Nat) (mallocs : MallocOutcomes) :
    (.null ∈ (mallocBuffers n mallocs).1 ↔ false ∈ mallocs.take n) ∧
      (mallocBuffers n mallocs).2 = mallocs.drop n := by
  induction n generalizing mallocs with
  | zero => simp [mallocBuffers]
  | succ n ih =>
      obtain ⟨hnull, hrest⟩ := ih (malloc mallocs).2
      constructor
      · cases mallocs with
        | nil => simpa [mallocBuffers] using hnull
        | cons outcome mallocs =>
            have htail : (malloc (outcome :: mallocs)).2 = mallocs := rfl
            rw [htail] at hnull
            -- the first call has failed, or it is one of the others
            cases outcome with
            | false => simp [mallocBuffers, malloc]
            | true => simpa [mallocBuffers, malloc] using hnull
      · calc (mallocBuffers (n + 1) mallocs).2
            = (mallocBuffers n (malloc mallocs).2).2 := rfl
          _ = (malloc mallocs).2.drop n := hrest
          _ = mallocs.drop (n + 1) := by rw [malloc_rest, List.drop_drop, Nat.add_comm]

theorem untouched_init (epfd wakeFd listenFd : Fd) (index queuesize nthreads : Nat)
    (outcomes : MallocOutcomes) :
    Untouched (Worker.init epfd wakeFd listenFd index queuesize nthreads outcomes) where
  pc_eq := rfl
  get?_none a := by simp [Worker.init, Heap.get?]
  log_nil := rfl

theorem untouched_zero : Untouched Context.zero.worker where
  pc_eq := rfl
  get?_none a := by simp [Context.zero, Heap.get?]
  log_nil := rfl

theorem untouched_blank (listenFd : Fd) (queuesize nthreads : Nat) :
    Untouched (Context.blank listenFd queuesize nthreads).worker :=
  ⟨rfl, untouched_zero.get?_none, rfl⟩

/-- `init_tscontext` fails when one of its allocations does. -/
theorem initTscontext_spec {listenFd : Fd} {queuesize nthreads : Nat}
    {mallocs outcomes rest : MallocOutcomes} {ctx : Context} {ok : Bool}
    (h : initTscontext listenFd queuesize nthreads mallocs outcomes = .ok (ctx, ok, rest)) :
    (ok = true ↔ false ∉ mallocs.take NBUFFERS) ∧ rest = mallocs.drop NBUFFERS ∧
      Untouched ctx.worker := by
  obtain ⟨hnull, hrest⟩ := mallocBuffers_spec NBUFFERS mallocs
  rw [initTscontext] at h
  simp only at h
  split at h
  case isTrue hfailed =>
      obtain ⟨freed, hfree, h⟩ := bind_eq_ok.mp h
      cases h
      obtain ⟨hconns, hpc, hlog⟩ := freeTscontext_worker hfree
      refine ⟨?_, hrest, hpc, ?_, hlog⟩
      · simp [hnull.mp hfailed]
      · rw [hconns]
        exact (untouched_blank listenFd queuesize nthreads).get?_none
  case isFalse hdone =>
      cases h
      refine ⟨?_, hrest, untouched_init _ _ _ _ _ _ _⟩
      simp [mt hnull.mpr hdone]

theorem initTscontexts_spec {listenFd : Fd} {queuesize nthreads : Nat}
    {outcomes : Nat → MallocOutcomes} {left : Nat} :
    ∀ {index : Nat} {mallocs : MallocOutcomes} {ctxs : List Context} {ok : Bool},
      initTscontexts listenFd queuesize nthreads outcomes left index mallocs = .ok (ctxs, ok) →
      (ok = true ↔ false ∉ mallocs.take (NBUFFERS * left)) ∧
        ∀ ctx ∈ ctxs, Untouched ctx.worker := by
  induction left with
  | zero =>
      intro index mallocs ctxs ok h
      cases h
      simp
  | succ left ih =>
      intro index mallocs ctxs ok h
      obtain ⟨⟨ctx, first, rest⟩, hinit, h⟩ := bind_eq_ok.mp h
      obtain ⟨hfirst, hrest, hctx⟩ := initTscontext_spec hinit
      -- the arrays of this context come first, and then those of the others
      have hsplit : NBUFFERS * (left + 1) = NBUFFERS + NBUFFERS * left := by
        rw [Nat.mul_succ, Nat.add_comm]
      rw [hsplit, false_notMem_take_add, ← hfirst, ← hrest]
      cases first with
      | false =>
          -- a context that fails ends the loop, and the ones behind it are still zero
          cases h
          refine ⟨by simp, ?_⟩
          intro c hmem
          rcases List.mem_cons.mp hmem with rfl | hmem
          · exact hctx
          · rw [List.eq_of_mem_replicate hmem]
            exact untouched_zero
      | true =>
          obtain ⟨⟨others, last⟩, hothers, h⟩ := bind_eq_ok.mp h
          cases h
          obtain ⟨hlast, htail⟩ := ih hothers
          exact ⟨by rw [hlast]; simp, List.forall_mem_cons.mpr ⟨hctx, htail⟩⟩

/-- With a listening socket, the arrays of `net_server_start` come first, and then the contexts. -/
theorem prepared_some (opt : NetListenOptions) (listenFd : Fd) (mallocs : MallocOutcomes) :
    Prepared opt (some listenFd) mallocs ↔ (malloc mallocs).1 = true ∧
      (malloc (malloc mallocs).2).1 = true ∧
      false ∉ (malloc (malloc mallocs).2).2.take (NBUFFERS * opt.threads) := by
  rw [malloc_eq_true_iff, malloc_eq_true_iff, malloc_rest, malloc_rest, List.drop_drop,
    ← and_assoc, ← false_notMem_take_add, ← false_notMem_take_add]
  exact and_iff_right rfl

/-- The start of a server, by whether it gets to its workers. -/
theorem netServerStart_cases {opt : NetListenOptions} {listen : Option Fd}
    {mallocs : MallocOutcomes} {outcomes : Nat → MallocOutcomes} {others : List (Fd × FdKind)}
    {nextCtxIndex : UInt64} {server : NetServer}
    (h : netServerStart opt listen mallocs outcomes ⟨others, [], nextCtxIndex⟩ = .ok server) :
    Prepared opt listen mallocs ∧ Fresh server ∨
      ¬ Prepared opt listen mallocs ∧ Unstarted server := by
  cases listen with
  | none =>
      cases h
      refine Or.inr ⟨fun hprepared => Bool.false_ne_true hprepared.1, Or.inl rfl, rfl, rfl, ?_⟩
      exact fun ctx hmem => absurd hmem List.not_mem_nil
  | some listenFd =>
      rw [prepared_some]
      rw [netServerStart] at h
      simp only at h
      split at h
      case isTrue hfailed =>
          cases h
          refine Or.inr ⟨fun hprepared => hfailed ⟨hprepared.1, hprepared.2.1⟩, Or.inl rfl, rfl,
            rfl, ?_⟩
          -- the contexts are not there, or still zero
          intro ctx hmem
          have hzero : ctx = Context.zero := by
            have hctxs : ctx ∈ if (malloc mallocs).1 then List.replicate opt.threads Context.zero
                else [] := hmem
            split at hctxs
            · exact List.eq_of_mem_replicate hctxs
            · exact absurd hctxs List.not_mem_nil
          rw [hzero]
          rfl
      case isFalse hallocated =>
          obtain ⟨⟨ctxs, ok⟩, hinit, h⟩ := bind_eq_ok.mp h
          obtain ⟨hok, huntouched⟩ := initTscontexts_spec hinit
          obtain ⟨hctxs, hthreads⟩ := not_not.mp hallocated
          rw [← hok]
          cases h
          cases ok with
          | true =>
              exact Or.inl ⟨⟨hctxs, hthreads, rfl⟩, rfl, rfl, rfl,
                ⟨listenFd, rfl, List.mem_cons_self⟩, huntouched⟩
          | false =>
              refine Or.inr ⟨fun hprepared => Bool.false_ne_true hprepared.2.2, ?_⟩
              exact ⟨Or.inl rfl, rfl, rfl, fun ctx hmem => (huntouched ctx hmem).log_nil⟩

/-! ### One connection -/

/-- A server with one worker, after `net_server_start` has set up its context. -/
def oneWorker : NetServer where
  listenFd := some 4
  nthreads := 1
  ctxs := [{ worker := Worker.init (-1) (-1) 4 0 8 1 [], buffers := List.replicate 8 .live }]
  startedThreads := 0
  stopping := false
  joined := false
  kernel := { openFds := [(4, .listen)], registered := [], nextCtxIndex := 0 }
  pc := .create 0
  created := []

theorem oneWorker_start :
    netServerStart ⟨1, 8⟩ (some 4) [] (fun _ => []) ⟨[], [], 0⟩ = .ok oneWorker :=
  rfl

/-- The worker accepts a connection, and opens it at the first event of its descriptor, whose `read`
answers `EAGAIN`. Then the server ends. -/
def oneWorkerOps : List ServerOp :=
  .create ⟨some 3, some 5, true, true, true⟩ ::
    ([{}, {}, { wait := some [4] }, { accept := .conn 6 true true }, {}, {}, {}, {}, {}, {},
      { wait := some [6] }, {}, {}, {}, {}, {}, {}, {}] : List Answers).map (ServerOp.work 0) ++
    [.destroy, .work 0 {}, .join]

theorem oneWorkerOps_legal : Guarded serverStep LegalOp oneWorker oneWorkerOps := by decide

/-- What is left at the end: three open descriptors, and a connection that was not closed. -/
theorem oneWorker_end : ∃ server, run serverStep oneWorker oneWorkerOps = .ok server ∧
    server.pc = .destroyed ∧ server.created = [(5, .eventfd), (3, .epoll)] ∧
    server.kernel.openFds = [(6, .socket), (5, .eventfd), (3, .epoll)] ∧
    server.ctxs.map (·.worker.log) = [[(0, .opened), (0, .read .again)]] := by
  have hchecked : (run serverStep oneWorker oneWorkerOps).toOption.map (fun server =>
      (server.pc, server.created, server.kernel.openFds, server.ctxs.map (·.worker.log)))
      = some (.destroyed, [(5, .eventfd), (3, .epoll)],
        [(6, .socket), (5, .eventfd), (3, .epoll)], [[(0, .opened), (0, .read .again)]]) :=
    rfl
  obtain ⟨server, hserver, hend⟩ := Option.map_eq_some_iff.mp hchecked
  simp only [Prod.mk.injEq] at hend
  exact ⟨server, toOption_eq_some.mp hserver, hend⟩

/-! ### Every run -/

/-- After `net_server_destroy`, a server is balanced exactly when its start has failed before it had
a worker. -/
theorem shutdown_balanced_iff (opt : NetListenOptions) (listen : Option Fd)
    (mallocs : MallocOutcomes) (outcomes : Nat → MallocOutcomes) (others : List (Fd × FdKind))
    (nextCtxIndex : UInt64) {ops : List ServerOp} {start server : NetServer}
    (hstart : netServerStart opt listen mallocs outcomes ⟨others, [], nextCtxIndex⟩ = .ok start)
    (hlegal : Guarded serverStep LegalOp start ops) (hrun : run serverStep start ops = .ok server)
    (hdestroyed : server.pc = .destroyed) :
    Balanced server ↔ ¬ Prepared opt listen mallocs := by
  rcases netServerStart_cases hstart with ⟨hprepared, hfresh⟩ | ⟨hfailed, hunstarted⟩
  · have hleaks : Leaks server :=
      run_invariant Leaks (fun _ _ _ h hlegal hstep => h.step hlegal hstep) ops start server
        (Or.inl hfresh) hlegal hrun
    -- `destroyed` is behind the second loop, so there is an epoll descriptor that survives
    obtain ⟨e, he⟩ := hleaks.survives hdestroyed (by decide) (by decide)
    exact iff_of_false he.not_balanced fun h => h hprepared
  · have hdone : Unstarted server :=
      run_invariant Unstarted (fun _ _ _ h hlegal hstep => h.step hlegal hstep) ops start server
        hunstarted hlegal hrun
    exact iff_of_true hdone.balanced hfailed

/-- The statement for one connection. -/
theorem shutdown_balanced_iff_one_connection :
    ∃ server, run serverStep oneWorker oneWorkerOps = .ok server ∧
      (Balanced server ↔ ¬ Prepared ⟨1, 8⟩ (some 4) []) := by
  obtain ⟨server, hrun, hdestroyed, -⟩ := oneWorker_end
  exact ⟨server, hrun, shutdown_balanced_iff ⟨1, 8⟩ (some 4) [] (fun _ => []) [] 0
    oneWorker_start oneWorkerOps_legal hrun hdestroyed⟩

/-- `net_server_destroy` has returned, and a connection that was opened is not closed. The epoll
descriptor and the eventfd of the worker are open too. -/
theorem shutdown_leaves_connection_open :
    netServerStart ⟨1, 8⟩ (some 4) [] (fun _ => []) ⟨[], [], 0⟩ = .ok oneWorker ∧
      Guarded serverStep LegalOp oneWorker oneWorkerOps ∧
      ∃ server, run serverStep oneWorker oneWorkerOps = .ok server ∧ server.pc = .destroyed ∧
        (∃ ctx ∈ server.ctxs, .opened ∈ callsOn ctx.worker.log 0 ∧
          .closed ∉ callsOn ctx.worker.log 0) ∧
        (3, .epoll) ∈ server.created ∧ (3, .epoll) ∈ server.kernel.openFds ∧
        (5, .eventfd) ∈ server.created ∧ (5, .eventfd) ∈ server.kernel.openFds ∧
        ¬ Balanced server := by
  obtain ⟨server, hrun, hdestroyed, hcreated, hopen, hlogs⟩ := oneWorker_end
  obtain ⟨ctx, hctxs, hlog⟩ := List.map_eq_singleton_iff.mp hlogs
  have hctx : ctx ∈ server.ctxs := hctxs ▸ List.mem_singleton_self ctx
  have hopened : .opened ∈ callsOn ctx.worker.log 0 := by
    rw [hlog]
    decide
  have hnotClosed : .closed ∉ callsOn ctx.worker.log 0 := by
    rw [hlog]
    decide
  refine ⟨oneWorker_start, oneWorkerOps_legal, server, hrun, hdestroyed,
    ⟨ctx, hctx, hopened, hnotClosed⟩, ?_, ?_, ?_, ?_, ?_⟩
  · simp [hcreated]
  · simp [hopen]
  · simp [hcreated]
  · simp [hopen]
  · intro hbalanced
    obtain ⟨hcount, -⟩ := hbalanced.connections ctx hctx 0 hopened
    rw [List.count_eq_zero_of_not_mem hnotClosed] at hcount
    cases hcount

end MustDb.Proofs.Libv
