import MustDb.Lib.Heap
import MustDb.Libv.Hmap

/-!
# `MustDb.Libv.Net`: the event loop of a worker

`ts_worker_loop` of `libv/src/net/net.c`, with the five phases of an iteration. A `for` loop over a
queue is a sequence of steps here, one for each turn of the loop, and `WorkerPc` says where the
thread stands. So other threads can run between any two steps.

A step gets the answers of the system calls and of the `process` callback in it (`Answers`). The
callbacks `opened` and `closed` do not touch the fields below. Every call on a connection, by a
callback or by a system call, is recorded in the log of the worker: nothing reads it.

The queues are arrays with room for `queuesize` entries, and a store behind the end is a fault. The
descriptor table and the interest lists of the epoll instances are in the `Kernel`, which all
threads share.
-/

set_option autoImplicit false

namespace MustDb.Libv

open MustDb.Lib

/-- A file descriptor. -/
abbrev Fd := UInt32

def PACKETSIZE : Nat := 16384

/-! ### Connections -/

/-- `struct net_conn`, without `udata` and `ctx`. The buffer `out` is its bytes, and `bgctx` says
whether the pointer is set. -/
structure NetConn where
  fd : Fd
  closed : Bool
  out : List UInt8
  outlen : Nat
  outcap : Nat
  outoff : Nat
  bgctx : Bool
  deriving DecidableEq

/-- `conn_new`, when its `malloc` succeeds. -/
def connNew (fd : Fd) : NetConn where
  fd := fd
  closed := false
  out := []
  outlen := 0
  outcap := 0
  outoff := 0
  bgctx := false

/-- What the `process` callback leaves in its connection. -/
structure Response where
  out : List UInt8
  outlen : Nat
  outcap : Nat
  outoff : Nat
  closed : Bool
  bgctx : Bool
  deriving DecidableEq

/-- The connection after `process`. -/
def NetConn.respond (conn : NetConn) (response : Response) : NetConn :=
  { conn with
    out := response.out, outlen := response.outlen, outcap := response.outcap
    outoff := response.outoff, closed := response.closed, bgctx := response.bgctx }

/-- What `read` on a connection returns. -/
inductive ReadAnswer where
  /-- Bytes, or the end of the stream when there are none. -/
  | data (bytes : List UInt8)
  /-- `EAGAIN`, `EWOULDBLOCK` or `EINTR`. -/
  | again
  | error
  deriving DecidableEq

/-- What `write` on a connection returns. -/
inductive WriteAnswer where
  /-- A count, at most the length that was asked for. -/
  | count (n : Nat)
  /-- `EINTR` -/
  | interrupted
  /-- `EAGAIN` or `EWOULDBLOCK`. -/
  | again
  | error
  deriving DecidableEq

/-- A call on a connection. -/
inductive ConnEvent where
  /-- The callback `opened`. -/
  | opened
  | read (answer : ReadAnswer)
  /-- The callback `process`: the packet, and what it leaves in the connection. -/
  | process (packet : List UInt8) (response : Response)
  /-- `write` at an offset of `out`, of a length, and the bytes that it took. -/
  | write (offset length : Nat) (taken : List UInt8)
  /-- The callback `closed`. -/
  | closed
  /-- `close` of the descriptor. -/
  | closeFd
  deriving DecidableEq

/-- The number of bytes that a `write` takes. -/
def WriteAnswer.taken (answer : WriteAnswer) (length : Nat) : Nat :=
  match answer with
  | .count n => min n length
  | _ => 0

/-- One call of `write` in `flush_conn`. -/
def writeEvent (conn : NetConn) (answer : WriteAnswer) : ConnEvent :=
  let length := conn.outlen - conn.outoff
  .write conn.outoff length ((conn.out.drop conn.outoff).take (answer.taken length))

/-- The connection after one call of `write` in `flush_conn`. -/
def NetConn.wrote (conn : NetConn) (answer : WriteAnswer) : NetConn :=
  { conn with
    outoff := conn.outoff + answer.taken (conn.outlen - conn.outoff)
    closed := conn.closed || answer = .error }

/-- Whether the loop of `flush_conn` goes on after a `write`. -/
def WriteAnswer.goesOn (answer : WriteAnswer) (length : Nat) : Bool :=
  match answer with
  | .count _ => answer.taken length ≠ 0
  | .interrupted => true
  | _ => false

/-- The end of `flush_conn`: the buffer is freed. -/
def NetConn.clearOut (conn : NetConn) : NetConn :=
  { conn with out := [], outlen := 0, outcap := 0, outoff := 0 }

/-- `flush_conn`, and its calls of `write`. When the answers are used up, `write` would block. -/
def flushConn : List WriteAnswer → NetConn → NetConn × List ConnEvent
  | answers, conn =>
      if conn.outoff < conn.outlen then
        match answers with
        | [] => (conn, [writeEvent conn .again])
        | answer :: answers =>
            if answer.goesOn (conn.outlen - conn.outoff) then
              let (last, events) := flushConn answers (conn.wrote answer)
              (last, writeEvent conn answer :: events)
            else (conn.wrote answer, [writeEvent conn answer])
      else (conn.clearOut, [])

/-! ### The kernel -/

/-- What a descriptor stands for. -/
inductive FdKind where
  | listen
  | epoll
  | eventfd
  | socket
  deriving DecidableEq

/-- The descriptor table, the interest lists as pairs of an epoll descriptor and a descriptor, and
the static counter of `ts_accept`. -/
structure Kernel where
  openFds : List (Fd × FdKind)
  registered : List (Fd × Fd)
  nextCtxIndex : UInt64

/-- A call that returns a new descriptor. -/
def Kernel.newFd (k : Kernel) (fd : Fd) (kind : FdKind) : Kernel :=
  { k with openFds := (fd, kind) :: k.openFds }

/-- `close`: the descriptor leaves the interest lists, and an epoll instance takes its list along.
-/
def Kernel.close (k : Kernel) (fd : Fd) : Kernel :=
  { k with
    openFds := k.openFds.filter (·.1 ≠ fd)
    registered := k.registered.filter fun entry => entry.1 ≠ fd ∧ entry.2 ≠ fd }

/-- `epoll_ctl` with `EPOLL_CTL_ADD`, when it succeeds. -/
def Kernel.register (k : Kernel) (epfd fd : Fd) : Kernel :=
  { k with registered := (epfd, fd) :: k.registered }

/-- What `accept` and the calls after it return. -/
inductive AcceptAnswer where
  | failed
  /-- The new descriptor, and the success of `setnonblock` and of `add_read`. -/
  | conn (fd : Fd) (nonblock added : Bool)

/-- What `epoll_ctl` returns for `EPOLL_CTL_ADD`. -/
inductive CtlAnswer where
  | added
  /-- `EEXIST` -/
  | exists
  | error

/-! ### Workers -/

/-- `struct tscontext`, without the callbacks. A queue is its entries. `ins_que` and the two arrays
with its packets are one list. -/
structure TsContext where
  epfd : Fd
  wakeFd : Fd
  listenFd : Fd
  index : Nat
  queuesize : Nat
  nthreads : Nat
  hmap : Hmap Fd Addr
  preadQue : List Addr
  insQue : List (Addr × List UInt8)
  attachsQue : List Addr
  outsQue : List Addr
  closesQue : List Addr

/-- Where the thread of a worker stands. The loops of an iteration have the entries that are left.
-/
inductive WorkerPc where
  | start
  /-- In front of the test of `stopping`. -/
  | test
  /-- In `epoll_wait`. -/
  | wait
  | accept (events : List Fd)
  | read (que : List Addr)
  | process (que : List (Addr × List UInt8))
  | write (que : List Addr)
  | close (que : List Addr)
  | exited
  deriving DecidableEq

/-- The thread of a worker, its context, its connections, and the log of the calls on them. -/
structure Worker where
  ctx : TsContext
  conns : Heap NetConn
  pc : WorkerPc
  log : List (Addr × ConnEvent)

/-- The answers that a step can ask for. -/
structure Answers where
  /-- `epoll_wait`: the descriptors of the events, or `none` when it fails. -/
  wait : Option (List Fd) := none
  accept : AcceptAnswer := .failed
  read : ReadAnswer := .again
  /-- The callback `process`. -/
  response : Response := ⟨[], 0, 0, 0, false, false⟩
  writes : List WriteAnswer := []
  ctlAdd : CtlAnswer := .exists
  ctlMod : Bool := true

/-- Calls on a connection, in the log. -/
def Worker.record (w : Worker) (conn : Addr) (events : List ConnEvent) : Worker :=
  { w with log := w.log ++ events.map fun event => (conn, event) }

/-- `*conn` -/
def Worker.readConn (w : Worker) (conn : Addr) : Except Fault NetConn :=
  match w.conns.get? conn with
  | some c => .ok c
  | none => .error .useAfterFree

/-- `que[n++] = entry` -/
def pushQue {α : Type} (queuesize : Nat) (que : List α) (entry : α) : Except Fault (List α) :=
  if que.length < queuesize then .ok (que ++ [entry]) else .error .outOfBounds

def Worker.pushRead (w : Worker) (conn : Addr) : Except Fault Worker := do
  let preadQue ← pushQue w.ctx.queuesize w.ctx.preadQue conn
  return { w with ctx := { w.ctx with preadQue } }

def Worker.pushIn (w : Worker) (conn : Addr) (packet : List UInt8) : Except Fault Worker := do
  let insQue ← pushQue w.ctx.queuesize w.ctx.insQue (conn, packet)
  return { w with ctx := { w.ctx with insQue } }

def Worker.pushAttach (w : Worker) (conn : Addr) : Except Fault Worker := do
  let attachsQue ← pushQue w.ctx.queuesize w.ctx.attachsQue conn
  return { w with ctx := { w.ctx with attachsQue } }

def Worker.pushOut (w : Worker) (conn : Addr) : Except Fault Worker := do
  let outsQue ← pushQue w.ctx.queuesize w.ctx.outsQue conn
  return { w with ctx := { w.ctx with outsQue } }

def Worker.pushClose (w : Worker) (conn : Addr) : Except Fault Worker := do
  let closesQue ← pushQue w.ctx.queuesize w.ctx.closesQue conn
  return { w with ctx := { w.ctx with closesQue } }

/-! ### The phases -/

/-- The call of `accept` in `ts_accept`. The connection goes to the workers in turn. -/
def acceptConn (epfds : List Fd) (nthreads : Nat) (k : Kernel) : AcceptAnswer → Kernel
  | .failed => k
  | .conn fd nonblock added =>
      let k := k.newFd fd .socket
      if ¬ nonblock then k.close fd
      else
        let idx := k.nextCtxIndex.toNat % nthreads
        let k := { k with nextCtxIndex := k.nextCtxIndex + 1 }
        match added, epfds[idx]? with
        | true, some epfd => k.register epfd fd
        | _, _ => k.close fd

/-- The end of the loop body of `ts_accept`: the queue of a connection with an event. -/
def queueEvent (w : Worker) (addr : Addr) : Except Fault Worker := do
  let conn ← w.readConn addr
  if conn.bgctx then w.pushAttach addr
  else if conn.outlen > 0 then w.pushOut addr
  else if conn.closed then w.pushClose addr
  else w.pushRead addr

/-- A new connection in `ts_accept`. Without memory its descriptor is closed. -/
def openConn (w : Worker) (k : Kernel) (fd : Fd) : Except Fault (Worker × Kernel) :=
  match w.conns.alloc (connNew fd) with
  | (conns, none) => .ok ({ w with conns }, k.close fd)
  | (conns, some addr) => do
      let (hmap, _, outcomes) ← hmapInsert w.ctx.hmap fd addr conns.outcomes
      let w := { w with conns := { conns with outcomes }, ctx := { w.ctx with hmap } }
      let w ← queueEvent (w.record addr [.opened]) addr
      return (w, k)

/-- The loop body of `ts_accept`. -/
def tsAccept (epfds : List Fd) (w : Worker) (k : Kernel) (fd : Fd) (answer : AcceptAnswer) :
    Except Fault (Worker × Kernel) := do
  if fd = w.ctx.wakeFd then
    -- the wake-ups are read and dropped
    return (w, k)
  else
    match ← hmapGetValue w.ctx.hmap fd with
    | some addr =>
        let w ← queueEvent w addr
        return (w, k)
    | none =>
        if fd = w.ctx.listenFd then return (w, acceptConn epfds w.ctx.nthreads k answer)
        else openConn w k fd

/-- The bytes of a packet, in a buffer of `PACKETSIZE` with a terminator. -/
def packetOf (bytes : List UInt8) : List UInt8 := bytes.take (PACKETSIZE - 1)

/-- `handle_read` -/
def handleRead (w : Worker) (addr : Addr) : ReadAnswer → Except Fault Worker
  | .again => .ok w
  | .error => w.pushClose addr
  | .data bytes => if packetOf bytes = [] then w.pushClose addr else w.pushIn addr (packetOf bytes)

/-- The loop body of `ts_read`. -/
def tsRead (w : Worker) (addr : Addr) (answer : ReadAnswer) : Except Fault Worker := do
  let _ ← w.readConn addr
  handleRead (w.record addr [.read answer]) addr answer

/-- The loop body of `ts_process`. -/
def tsProcess (w : Worker) (addr : Addr) (packet : List UInt8) (response : Response) :
    Except Fault Worker := do
  let conn ← w.readConn addr
  let conn := conn.respond response
  let w := { w with conns := w.conns.put addr conn }.record addr [.process packet response]
  if conn.bgctx then return w
  else if conn.outlen > 0 then w.pushOut addr
  else if conn.closed then w.pushClose addr
  else return w

/-- `add_write`: the kernel after it, and its success. -/
def addWrite (k : Kernel) (epfd fd : Fd) (answers : Answers) : Kernel × Bool :=
  match answers.ctlAdd with
  | .added => (k.register epfd fd, true)
  | .exists => (k, answers.ctlMod)
  | .error => (k, false)

/-- The end of the loop body of `ts_write`: the interest of a connection that stays open. -/
def rearm (w : Worker) (k : Kernel) (conn : NetConn) (answers : Answers) : Kernel × Bool :=
  if conn.outlen > 0 then addWrite k w.ctx.epfd conn.fd answers else (k, answers.ctlMod)

/-- The loop body of `ts_write`. -/
def tsWrite (w : Worker) (k : Kernel) (addr : Addr) (answers : Answers) :
    Except Fault (Worker × Kernel) := do
  let conn ← w.readConn addr
  let (conn, events) := flushConn answers.writes conn
  let w := { w with conns := w.conns.put addr conn }.record addr events
  if conn.closed then
    let w ← w.pushClose addr
    return (w, k)
  else
    let (k, armed) := rearm w k conn answers
    if armed then return (w, k)
    else return ({ w with conns := w.conns.put addr { conn with closed := true } }, k)

/-- The loop body of `ts_close`. -/
def tsClose (w : Worker) (k : Kernel) (addr : Addr) : Except Fault (Worker × Kernel) := do
  let conn ← w.readConn addr
  let (hmap, _, _) ← hmapDelete w.ctx.hmap conn.fd
  let w := { w with ctx := { w.ctx with hmap }, conns := w.conns.free addr }
  return (w.record addr [.closed, .closeFd], k.close conn.fd)

/-- `ts_reset` -/
def tsReset (ctx : TsContext) : TsContext :=
  { ctx with preadQue := [], insQue := [], attachsQue := [], outsQue := [], closesQue := [] }

/-- One step of `ts_worker_loop`. `epfds` are the epoll descriptors of all workers. -/
def workerStep (epfds : List Fd) (stopping : Bool) (w : Worker) (k : Kernel) (answers : Answers) :
    Except Fault (Worker × Kernel) :=
  match w.pc with
  | .start =>
      let (ok, outcomes) := malloc w.conns.outcomes
      .ok ({ w with conns := { w.conns with outcomes }, pc := if ok then .test else .exited }, k)
  | .test => .ok ({ w with pc := if stopping then .exited else .wait }, k)
  | .wait =>
      match answers.wait with
      | none => .ok ({ w with pc := .test }, k)
      | some events =>
          .ok ({ w with ctx := tsReset w.ctx, pc := .accept (events.take w.ctx.queuesize) }, k)
  | .accept [] => .ok ({ w with pc := .read w.ctx.preadQue }, k)
  | .accept (fd :: events) => do
      let (w, k) ← tsAccept epfds w k fd answers.accept
      return ({ w with pc := .accept events }, k)
  | .read [] => .ok ({ w with pc := .process w.ctx.insQue }, k)
  | .read (addr :: que) => do
      let w ← tsRead w addr answers.read
      return ({ w with pc := .read que }, k)
  | .process [] => .ok ({ w with pc := .write w.ctx.outsQue }, k)
  | .process ((addr, packet) :: que) => do
      let w ← tsProcess w addr packet answers.response
      return ({ w with pc := .process que }, k)
  | .write [] => .ok ({ w with pc := .close w.ctx.closesQue }, k)
  | .write (addr :: que) => do
      let (w, k) ← tsWrite w k addr answers
      return ({ w with pc := .write que }, k)
  | .close [] => .ok ({ w with pc := .test }, k)
  | .close (addr :: que) => do
      let (w, k) ← tsClose w k addr
      return ({ w with pc := .close que }, k)
  | .exited => .ok (w, k)

/-- The worker that `init_tscontext` and `create_worker_thread` set up. -/
def Worker.init (epfd wakeFd listenFd : Fd) (index queuesize nthreads : Nat)
    (outcomes : MallocOutcomes) : Worker :=
  let (hmap, outcomes) := hmapInitInt Addr outcomes
  { ctx :=
      { epfd, wakeFd, listenFd, index, queuesize, nthreads, hmap
        preadQue := [], insQue := [], attachsQue := [], outsQue := [], closesQue := [] }
    conns := { cells := [], outcomes }
    pc := .start
    log := [] }

end MustDb.Libv
