import MustDb.Lib.Ledger
import MustDb.Libv.NetServer

/-!
# `MustDb.Libv.StartLedger`: the resources of `net_server_start`

What `net_server_start` does with its memory, its descriptors and its threads, next to the states of
`MustDb.Libv.NetServer`. `free`, `close` and `pthread_join` release a resource, and the write of
`net_server_stop` to a `wake_fd` uses one. A call that frees memory twice goes on: the second `free`
is a deed like the first.
-/

set_option autoImplicit false

namespace MustDb.Libv

open MustDb.Lib

/-- The resources of a start. -/
inductive Resource where
  | server
  | ctxs
  | threads
  /-- An array of the context of a worker, in the order of `init_tscontext`. -/
  | buffer (index array : Nat)
  /-- The buckets of the map of a worker. -/
  | buckets (index : Nat)
  | fd (fd : Fd)
  | thread (index : Nat)
  deriving DecidableEq

/-- The arrays that a context points to. -/
def heldArrays (buffers : List Pointer) : List Nat :=
  (buffers.zipIdx.filter fun entry => entry.1 ≠ .null).map Prod.snd

def heldBuffers (index : Nat) (buffers : List Pointer) : List Resource :=
  (heldArrays buffers).map (Resource.buffer index)

/-- The memory of a map, when `calloc` has found some. -/
def heldBuckets (index : Nat) (hmap : Hmap Fd Addr) : List Resource :=
  if hmap.buckets = [] then [] else [.buckets index]

/-- `free_tscontext`, for a context with these arrays and this map. -/
def freeTscontextDeeds (index : Nat) (buffers : List Pointer) (hmap : Hmap Fd Addr) :
    List (Deed Resource) :=
  (heldBuffers index buffers ++ heldBuckets index hmap).map Deed.release

/-- `init_tscontext` -/
def initTscontextDeeds (index : Nat) (mallocs outcomes : MallocOutcomes) : List (Deed Resource) :=
  let (buffers, _) := mallocBuffers NBUFFERS mallocs
  let arrays := heldBuffers index buffers
  if .null ∈ buffers then
    -- the map is not initialised yet
    arrays.map Deed.acquire ++ freeTscontextDeeds index buffers zeroMap
  else
    let (hmap, _) := hmapInitInt Addr outcomes
    (arrays ++ heldBuckets index hmap).map Deed.acquire

/-- The first loop of `net_server_start`, from `index` on. -/
def initTscontextsDeeds (outcomes : Nat → MallocOutcomes) :
    Nat → Nat → MallocOutcomes → List (Deed Resource)
  | 0, _, _ => []
  | left + 1, index, mallocs =>
      let (buffers, rest) := mallocBuffers NBUFFERS mallocs
      initTscontextDeeds index mallocs (outcomes index) ++
        if .null ∈ buffers then [] else initTscontextsDeeds outcomes left (index + 1) rest

/-- A descriptor that is not negative, as an `int`. -/
def Fd.IsOpen (fd : Fd) : Prop := fd.toNat < 2 ^ 31

instance (fd : Fd) : Decidable (Fd.IsOpen fd) := inferInstanceAs (Decidable (_ < _))

/-- `net_server_stop` -/
def netServerStopDeeds (server : NetServer) : List (Deed Resource) :=
  ((server.ctxs.map (·.worker.ctx.wakeFd)).filter fun fd => Fd.IsOpen fd).map fun fd =>
    .use (.fd fd)

/-- `net_server_destroy`. `threads` says whether the array of the threads is there. -/
def netServerDestroyDeeds (server : NetServer) (threads : Bool) : List (Deed Resource) :=
  netServerStopDeeds server ++
    (List.range server.startedThreads).map (fun index => .release (.thread index)) ++
    server.ctxs.zipIdx.flatMap (fun entry =>
      freeTscontextDeeds entry.2 entry.1.buffers entry.1.worker.ctx.hmap) ++
    server.listenFd.toList.map (fun fd => .release (.fd fd)) ++
    (if server.ctxs = [] then [] else [.release .ctxs]) ++
    (if threads then [.release .threads] else []) ++ [.release .server]

/-- `create_worker_thread`, and its success. -/
def createWorkerThreadDeeds (index : Nat) (answers : CreateAnswers) :
    List (Deed Resource) × Bool :=
  match answers.epoll with
  | none => ([], false)
  | some epfd =>
      match answers.eventfd with
      | none => ([.acquire (.fd epfd)], false)
      | some wakeFd =>
          let opened := [.acquire (.fd epfd), .acquire (.fd wakeFd)]
          if ¬ (answers.listenAdded ∧ answers.wakeAdded) then (opened, false)
          else if answers.thread then (opened ++ [.acquire (.thread index)], true)
          else (opened ++ [.release (.fd epfd)], false)

/-- The second loop of `net_server_start`, from `index` on, and its success. -/
def createWorkersDeeds (creates : Nat → CreateAnswers) : Nat → Nat → List (Deed Resource) × Bool
  | 0, _ => ([], true)
  | left + 1, index =>
      match createWorkerThreadDeeds index (creates index) with
      | (deeds, false) => (deeds, false)
      | (deeds, true) =>
          let (others, ok) := createWorkersDeeds creates left (index + 1)
          (deeds ++ others, ok)

/-- What the calls in `net_server_start` return. -/
structure StartCalls where
  /-- The `calloc` of the server. -/
  server : Bool
  /-- `listen_tcp` -/
  listen : Option Fd
  /-- The two arrays of `nthreads` elements, and the arrays of the contexts. -/
  mallocs : MallocOutcomes
  /-- The `calloc` of each map. -/
  outcomes : Nat → MallocOutcomes
  creates : Nat → CreateAnswers

/-- `net_server_start`: what it does with its resources, and what it returns. -/
def netServerStartDeeds (opt : NetListenOptions) (calls : StartCalls) (k : Kernel) :
    Except Fault (List (Deed Resource) × Int) :=
  if ¬ calls.server then .ok ([], -1)
  else do
    let server ← netServerStart opt calls.listen calls.mallocs calls.outcomes k
    match calls.listen with
    | none => return (.acquire .server :: netServerDestroyDeeds server false, -1)
    | some listenFd =>
        let (ctxs, mallocs) := malloc calls.mallocs
        let (threads, mallocs) := malloc mallocs
        let arrays := [.acquire .server, .acquire (.fd listenFd)] ++
          (if ctxs then [.acquire .ctxs] else []) ++ (if threads then [.acquire .threads] else [])
        if ¬ (ctxs ∧ threads) then
          return (arrays ++ netServerDestroyDeeds server threads, -1)
        else
          let inits := initTscontextsDeeds calls.outcomes opt.threads 0 mallocs
          if server.pc = .destroy then
            -- `goto fail` in the first loop
            return (arrays ++ inits ++ netServerDestroyDeeds server threads, -1)
          else
            -- the second loop returns without `fail`
            match createWorkersDeeds calls.creates opt.threads 0 with
            | (creates, true) => return (arrays ++ inits ++ creates, 0)
            | (creates, false) => return (arrays ++ inits ++ creates, -1)

/-! ### Single failures -/

/-- A step of `create_worker_thread` that can fail. -/
inductive CreateStep where
  | epoll
  | eventfd
  | listenAdded
  | wakeAdded
  | thread
  deriving DecidableEq

/-- A call in `net_server_start` that can fail. -/
inductive FailurePoint where
  | server
  | listen
  | ctxs
  | threads
  | buffer (index array : Nat)
  | buckets (index : Nat)
  | create (index : Nat) (step : CreateStep)
  deriving DecidableEq

/-- The answers with this one failure. -/
def CreateAnswers.failAt (answers : CreateAnswers) : CreateStep → CreateAnswers
  | .epoll => { answers with epoll := none }
  | .eventfd => { answers with eventfd := none }
  | .listenAdded => { answers with listenAdded := false }
  | .wakeAdded => { answers with wakeAdded := false }
  | .thread => { answers with thread := false }

/-- The outcomes of which only the one behind the first `n` fails. -/
def failAfter (n : Nat) : MallocOutcomes := List.replicate n true ++ [false]

/-- The calls with this one failure. -/
def StartCalls.failAt (calls : StartCalls) : FailurePoint → StartCalls
  | .server => { calls with server := false }
  | .listen => { calls with listen := none }
  | .ctxs => { calls with mallocs := failAfter 0 }
  | .threads => { calls with mallocs := failAfter 1 }
  | .buffer index array => { calls with mallocs := failAfter (2 + NBUFFERS * index + array) }
  | .buckets index =>
      { calls with outcomes := fun i => if i = index then failAfter 0 else calls.outcomes i }
  | .create index step =>
      { calls with
        creates := fun i => if i = index then (calls.creates i).failAt step else calls.creates i }

/-- Calls that all succeed, with these descriptors. -/
def StartCalls.succeed (listenFd : Fd) (epfds wakeFds : Nat → Fd) : StartCalls where
  server := true
  listen := some listenFd
  mallocs := []
  outcomes _ := []
  creates index := ⟨some (epfds index), some (wakeFds index), true, true, true⟩

/-- A failure point of a start with `nthreads` workers. -/
def FailurePoint.Within (nthreads : Nat) : FailurePoint → Prop
  | .buffer index array => index < nthreads ∧ array < NBUFFERS
  | .buckets index => index < nthreads
  | .create index _ => index < nthreads
  | _ => True

end MustDb.Libv
