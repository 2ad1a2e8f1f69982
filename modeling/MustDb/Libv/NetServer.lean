import MustDb.Libv.Memory
import MustDb.Libv.Net

/-!
# `MustDb.Libv.NetServer`: the start and the end of a server

`net_server_start`, `net_server_stop`, `net_server_wait` and `net_server_destroy` of
`libv/src/net/net.c`, with the threads of the workers. A server is a state machine: an operation is
one step of the thread that owns the server, or one step of a worker. The operations of a run come
in any order that the code allows, so a worker can be anywhere in its loop when the server stops.

A context keeps the state of its eight arrays, since a start that fails frees some of them twice.
The texts that go to `stderr`, the port and the callbacks are left out. `created` is the list of
the descriptors that `create_worker_thread` got: nothing reads it.
-/

set_option autoImplicit false

namespace MustDb.Libv

open MustDb.Lib

/-! ### Contexts -/

/-- `struct tscontext`, with its thread. `buffers` are the arrays that `init_tscontext` allocates.
-/
structure Context where
  worker : Worker
  buffers : List Pointer

/-- The number of `malloc` calls in `init_tscontext`. -/
def NBUFFERS : Nat := 8

/-- A map whose bytes are all zero. Its functions are never called. -/
def zeroMap : Hmap Fd Addr where
  buckets := []
  nbuckets := 0
  len := 0
  hashFunc := hmapIntHash
  keyCompare := hmapIntCmp

/-- A context whose bytes are all zero. -/
def Context.zero : Context where
  worker :=
    { ctx :=
        { epfd := 0, wakeFd := 0, listenFd := 0, index := 0, queuesize := 0, nthreads := 0
          hmap := zeroMap
          preadQue := [], insQue := [], attachsQue := [], outsQue := [], closesQue := [] }
      conns := { cells := [], outcomes := [] }
      pc := .start
      log := [] }
  buffers := List.replicate NBUFFERS .null

/-- A context after the first stores of `init_tscontext`, in front of its arrays. -/
def Context.blank (listenFd : Fd) (queuesize nthreads : Nat) : Context :=
  let ctx :=
    { Context.zero.worker.ctx with epfd := -1, wakeFd := -1, listenFd, queuesize, nthreads }
  { Context.zero with worker := { Context.zero.worker with ctx } }

/-- `free_tscontext`: the arrays, and the map. The pointers stay in the context. -/
def freeTscontext (ctx : Context) : Except Fault Context := do
  let buffers ← ctx.buffers.mapM Pointer.free
  let hmap ← hmapDeinit ctx.worker.ctx.hmap
  return { worker := { ctx.worker with ctx := { ctx.worker.ctx with hmap } }, buffers }

/-- `n` calls of `malloc`. -/
def mallocBuffers : Nat → MallocOutcomes → List Pointer × MallocOutcomes
  | 0, mallocs => ([], mallocs)
  | n + 1, mallocs =>
      let (ok, mallocs) := malloc mallocs
      let (buffers, mallocs) := mallocBuffers n mallocs
      ((if ok then .live else .null) :: buffers, mallocs)

/-- `init_tscontext`: the context, its success, and the outcomes after it. `outcomes` are those of
the map, and later of the thread. -/
def initTscontext (listenFd : Fd) (queuesize nthreads : Nat) (mallocs outcomes : MallocOutcomes) :
    Except Fault (Context × Bool × MallocOutcomes) :=
  let (buffers, mallocs) := mallocBuffers NBUFFERS mallocs
  if .null ∈ buffers then do
    -- the map is not initialised yet
    let ctx ← freeTscontext { Context.blank listenFd queuesize nthreads with buffers }
    return (ctx, false, mallocs)
  else
    let worker := Worker.init (-1) (-1) listenFd 0 queuesize nthreads outcomes
    .ok ({ worker, buffers }, true, mallocs)

/-- The first loop of `net_server_start`, from `index` on: the contexts, and the success. -/
def initTscontexts (listenFd : Fd) (queuesize nthreads : Nat) (outcomes : Nat → MallocOutcomes) :
    Nat → Nat → MallocOutcomes → Except Fault (List Context × Bool)
  | 0, _, _ => .ok ([], true)
  | left + 1, index, mallocs => do
      let (ctx, ok, mallocs) ←
        initTscontext listenFd queuesize nthreads mallocs (outcomes index)
      if ok then
        let (ctxs, ok) ←
          initTscontexts listenFd queuesize nthreads outcomes left (index + 1) mallocs
        return (ctx :: ctxs, ok)
      else return (ctx :: List.replicate left Context.zero, false)

/-! ### The server -/

/-- Where the thread stands that owns the server. -/
inductive MainPc where
  /-- In the second loop of `net_server_start`. -/
  | create (index : Nat)
  /-- `net_server_start` has returned 0. -/
  | running
  /-- `net_server_start` has returned -1 from its second loop: nobody has the server. -/
  | gaveUp
  /-- In `net_server_destroy`, in front of `net_server_wait`. -/
  | destroy
  | destroyed
  deriving DecidableEq

/-- `NetServer`. A `listen_fd` of -1 is `none`, and `ctxs` is empty for `NULL`. -/
structure NetServer where
  listenFd : Option Fd
  nthreads : Nat
  ctxs : List Context
  startedThreads : Nat
  stopping : Bool
  joined : Bool
  kernel : Kernel
  pc : MainPc
  created : List (Fd × FdKind)

/-- `NetListenOptions`, without the address and the callbacks. -/
structure NetListenOptions where
  nthreads : Int
  queuesize : Int

def NetListenOptions.threads (opt : NetListenOptions) : Nat :=
  if opt.nthreads > 0 then opt.nthreads.toNat else 1

def NetListenOptions.queue (opt : NetListenOptions) : Nat :=
  if opt.queuesize > 0 then opt.queuesize.toNat else 128

/-- `net_server_stop`. The write to `wake_fd` only ends an `epoll_wait`, which can end at any time.
-/
def netServerStop (server : NetServer) : NetServer := { server with stopping := true }

/-- The label `fail` of `net_server_start`, up to `net_server_wait`. -/
def NetServer.fail (server : NetServer) : NetServer :=
  { netServerStop server with pc := .destroy }

/-- `net_server_start`, behind its first `calloc` and up to its second loop. `listen` is the result
of `listen_tcp`. -/
def netServerStart (opt : NetListenOptions) (listen : Option Fd) (mallocs : MallocOutcomes)
    (outcomes : Nat → MallocOutcomes) (k : Kernel) : Except Fault NetServer :=
  let server : NetServer :=
    { listenFd := listen, nthreads := opt.threads, ctxs := [], startedThreads := 0
      stopping := false, joined := false, kernel := k, pc := .create 0, created := [] }
  match listen with
  | none => .ok server.fail
  | some listenFd =>
      let server := { server with kernel := k.newFd listenFd .listen }
      let (ctxsOk, mallocs) := malloc mallocs
      let (threadsOk, mallocs) := malloc mallocs
      let server :=
        { server with ctxs := if ctxsOk then List.replicate opt.threads Context.zero else [] }
      if ¬ (ctxsOk ∧ threadsOk) then .ok server.fail
      else do
        let (ctxs, ok) ←
          initTscontexts listenFd opt.queue opt.threads outcomes opt.threads 0 mallocs
        let server := { server with ctxs }
        return if ok then server else server.fail

/-- What the calls in `create_worker_thread` return. -/
structure CreateAnswers where
  epoll : Option Fd
  eventfd : Option Fd
  listenAdded : Bool
  wakeAdded : Bool
  thread : Bool

/-- A descriptor for a worker. -/
def NetServer.openFd (server : NetServer) (fd : Fd) (kind : FdKind) : NetServer :=
  { server with kernel := server.kernel.newFd fd kind, created := (fd, kind) :: server.created }

/-- Stores to the context of a worker. -/
def NetServer.modifyCtx (server : NetServer) (index : Nat) (f : TsContext → TsContext) :
    NetServer :=
  { server with
    ctxs := server.ctxs.modify index fun ctx =>
      { ctx with worker := { ctx.worker with ctx := f ctx.worker.ctx } } }

/-- `create_worker_thread`: the server, and the success. -/
def createWorkerThread (server : NetServer) (index : Nat) (listenFd : Fd)
    (answers : CreateAnswers) : NetServer × Bool :=
  match answers.epoll with
  | none => (server, false)
  | some epfd =>
      let server := server.openFd epfd .epoll
      match answers.eventfd with
      | none => (server.modifyCtx index fun wk => { wk with wakeFd := -1 }, false)
      | some wakeFd =>
          let server := server.openFd wakeFd .eventfd
          let server := server.modifyCtx index fun wk => { wk with wakeFd, epfd, index }
          if ¬ answers.listenAdded then (server, false)
          else
            let server := { server with kernel := server.kernel.register epfd listenFd }
            if ¬ answers.wakeAdded then (server, false)
            else
              let server := { server with kernel := server.kernel.register epfd wakeFd }
              if answers.thread then
                ({ server with startedThreads := server.startedThreads + 1 }, true)
              else ({ server with kernel := server.kernel.close epfd }, false)

/-- The end of `net_server_destroy`, behind `net_server_wait`. -/
def netServerFree (server : NetServer) : Except Fault NetServer := do
  let ctxs ← server.ctxs.mapM freeTscontext
  let kernel :=
    match server.listenFd with
    | some fd => server.kernel.close fd
    | none => server.kernel
  return { server with ctxs, kernel, joined := true, pc := .destroyed }

/-! ### Runs -/

/-- An operation: a step of the thread that owns the server, or of a worker. -/
inductive ServerOp where
  /-- One turn of the second loop of `net_server_start`. -/
  | create (answers : CreateAnswers)
  /-- `net_server_stop` -/
  | stop
  /-- `net_server_wait` -/
  | wait
  /-- `net_server_destroy`, up to `net_server_wait`. -/
  | destroy
  /-- The rest of `net_server_destroy`. -/
  | join
  /-- One step of a worker. -/
  | work (index : Nat) (answers : Answers)

/-- One operation. -/
def serverStep (server : NetServer) : ServerOp → Except Fault NetServer
  | .create answers =>
      match server.pc, server.listenFd with
      | .create index, some listenFd =>
          let (server, ok) := createWorkerThread server index listenFd answers
          let next := if index + 1 < server.nthreads then .create (index + 1) else .running
          .ok { server with pc := if ok then next else .gaveUp }
      | _, _ => .ok server
  | .stop => .ok (netServerStop server)
  | .wait => .ok { server with joined := true }
  | .destroy => .ok { netServerStop server with pc := .destroy }
  | .join => netServerFree server
  | .work index answers =>
      match server.ctxs[index]? with
      | none => .ok server
      | some ctx => do
          let epfds := server.ctxs.map (·.worker.ctx.epfd)
          let (worker, kernel) ←
            workerStep epfds server.stopping ctx.worker server.kernel answers
          return { server with ctxs := server.ctxs.set index { ctx with worker }, kernel }

/-- A descriptor that is not in the table. -/
def Kernel.IsNew (k : Kernel) (fd : Fd) : Prop := fd ∉ k.openFds.map Prod.fst

instance (k : Kernel) (fd : Fd) : Decidable (k.IsNew fd) :=
  inferInstanceAs (Decidable (fd ∉ k.openFds.map Prod.fst))

/-- `accept` returns a new descriptor. -/
def AcceptAnswer.Legal (k : Kernel) : AcceptAnswer → Prop
  | .failed => True
  | .conn fd _ _ => k.IsNew fd

instance (k : Kernel) : ∀ answer : AcceptAnswer, Decidable (answer.Legal k)
  | .failed => inferInstanceAs (Decidable True)
  | .conn fd _ _ => inferInstanceAs (Decidable (k.IsNew fd))

/-- `epoll_create1` and `eventfd` return new descriptors. -/
def CreateAnswers.Legal (k : Kernel) (answers : CreateAnswers) : Prop :=
  ∀ epfd ∈ answers.epoll, k.IsNew epfd ∧
    ∀ wakeFd ∈ answers.eventfd, (k.newFd epfd .epoll).IsNew wakeFd

instance (k : Kernel) (answers : CreateAnswers) : Decidable (answers.Legal k) :=
  have (epfd : Fd) : Decidable
      (∀ wakeFd ∈ answers.eventfd, (k.newFd epfd .epoll).IsNew wakeFd) :=
    Option.decidableForallMem answers.eventfd
  Option.decidableForallMem answers.epoll

/-- What the kernel can answer to a worker. `epoll_wait` has events for the interest list. -/
def Answers.Legal (k : Kernel) (w : Worker) (answers : Answers) : Prop :=
  (∀ events ∈ answers.wait, ∀ fd ∈ events, (w.ctx.epfd, fd) ∈ k.registered) ∧
    answers.accept.Legal k

instance (k : Kernel) (w : Worker) (answers : Answers) : Decidable (answers.Legal k w) :=
  have (events : List Fd) : Decidable (∀ fd ∈ events, (w.ctx.epfd, fd) ∈ k.registered) :=
    List.decidableBAll (fun fd => (w.ctx.epfd, fd) ∈ k.registered) events
  have : Decidable (∀ events ∈ answers.wait, ∀ fd ∈ events, (w.ctx.epfd, fd) ∈ k.registered) :=
    Option.decidableForallMem answers.wait
  inferInstanceAs (Decidable (_ ∧ _))

/-- All threads that were started have returned. -/
def AllExited (server : NetServer) : Prop :=
  ∀ ctx ∈ server.ctxs.take server.startedThreads, ctx.worker.pc = .exited

instance (server : NetServer) : Decidable (AllExited server) :=
  inferInstanceAs (Decidable
    (∀ ctx ∈ server.ctxs.take server.startedThreads, ctx.worker.pc = .exited))

/-- In the second loop of `net_server_start`. -/
def MainPc.isCreate : MainPc → Bool
  | .create _ => true
  | _ => false

theorem MainPc.exists_of_isCreate {pc : MainPc} (h : pc.isCreate = true) :
    ∃ index, pc = .create index := by
  cases pc with
  | create index => exact ⟨index, rfl⟩
  | running | gaveUp | destroy | destroyed => cases h

/-- The operations that can come next. -/
def LegalOp (server : NetServer) : ServerOp → Prop
  | .create answers => server.pc.isCreate = true ∧ answers.Legal server.kernel
  | .stop => server.pc = .running
  | .wait => server.pc = .running ∧ (server.joined = true ∨ AllExited server)
  | .destroy => server.pc = .running
  | .join => server.pc = .destroy ∧ (server.joined = true ∨ AllExited server)
  | .work index answers =>
      index < server.startedThreads ∧
        ∀ ctx ∈ server.ctxs[index]?, answers.Legal server.kernel ctx.worker

instance (server : NetServer) : ∀ op : ServerOp, Decidable (LegalOp server op)
  | .create _ => inferInstanceAs (Decidable (_ ∧ _))
  | .stop => inferInstanceAs (Decidable (server.pc = .running))
  | .wait => inferInstanceAs (Decidable (_ ∧ (_ ∨ _)))
  | .destroy => inferInstanceAs (Decidable (server.pc = .running))
  | .join => inferInstanceAs (Decidable (_ ∧ (_ ∨ _)))
  | .work index answers => inferInstanceAs (Decidable (index < server.startedThreads ∧
      ∀ ctx ∈ server.ctxs[index]?, answers.Legal server.kernel ctx.worker))

end MustDb.Libv
