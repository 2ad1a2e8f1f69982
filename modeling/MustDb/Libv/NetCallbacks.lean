import MustDb.Libv.Net

/-!
# `MustDb.Libv.NetCallbacks`: the event loop with all callbacks

The phases of `MustDb.Libv.Net` in which a callback of the application runs: `opened` in
`ts_accept`, `process` in `ts_process` and `closed` in `ts_close`. Here each of them can do anything
to its own connection. With an `opened` and a `closed` that do nothing, the loop is the one of
`MustDb.Libv.Net` (`Callbacks.ofResponse`).
-/

set_option autoImplicit false

namespace MustDb.Libv

open MustDb.Lib

/-- What the callbacks do to their connection. -/
structure Callbacks where
  opened : NetConn → NetConn
  process : NetConn → NetConn
  closed : NetConn → NetConn

/-- What a connection looks like after `process`. -/
def NetConn.response (conn : NetConn) : Response :=
  ⟨conn.out, conn.outlen, conn.outcap, conn.outoff, conn.closed, conn.bgctx⟩

/-- A new connection in `ts_accept`. -/
def openConnWith (opened : NetConn → NetConn) (w : Worker) (k : Kernel) (fd : Fd) :
    Except Fault (Worker × Kernel) :=
  match w.conns.alloc (connNew fd) with
  | (conns, none) => .ok ({ w with conns }, k.close fd)
  | (conns, some addr) => do
      let (hmap, _, outcomes) ← hmapInsert w.ctx.hmap fd addr conns.outcomes
      let conns := { conns with outcomes }.put addr (opened (connNew fd))
      let w := { w with conns, ctx := { w.ctx with hmap } }
      let w ← queueEvent (w.record addr [.opened]) addr
      return (w, k)

/-- The loop body of `ts_accept`. -/
def tsAcceptWith (opened : NetConn → NetConn) (epfds : List Fd) (w : Worker) (k : Kernel) (fd : Fd)
    (answer : AcceptAnswer) : Except Fault (Worker × Kernel) := do
  if fd = w.ctx.wakeFd then
    return (w, k)
  else
    match ← hmapGetValue w.ctx.hmap fd with
    | some addr =>
        let w ← queueEvent w addr
        return (w, k)
    | none =>
        if fd = w.ctx.listenFd then return (w, acceptConn epfds w.ctx.nthreads k answer)
        else openConnWith opened w k fd

/-- The loop body of `ts_process`. -/
def tsProcessWith (process : NetConn → NetConn) (w : Worker) (addr : Addr) (packet : List UInt8) :
    Except Fault Worker := do
  let conn ← w.readConn addr
  let conn := process conn
  let w := { w with conns := w.conns.put addr conn }.record addr [.process packet conn.response]
  if conn.bgctx then return w
  else if conn.outlen > 0 then w.pushOut addr
  else if conn.closed then w.pushClose addr
  else return w

/-- The loop body of `ts_close`. -/
def tsCloseWith (closed : NetConn → NetConn) (w : Worker) (k : Kernel) (addr : Addr) :
    Except Fault (Worker × Kernel) := do
  let conn ← w.readConn addr
  let conn := closed conn
  let (hmap, _, _) ← hmapDelete w.ctx.hmap conn.fd
  let w := { w with ctx := { w.ctx with hmap }, conns := w.conns.free addr }
  return (w.record addr [.closed, .closeFd], k.close conn.fd)

/-- One step of `ts_worker_loop`. The callbacks take the place of the response in the answers. -/
def workerStepWith (callbacks : Callbacks) (epfds : List Fd) (stopping : Bool) (w : Worker)
    (k : Kernel) (answers : Answers) : Except Fault (Worker × Kernel) :=
  match w.pc with
  | .accept (fd :: events) => do
      let (w, k) ← tsAcceptWith callbacks.opened epfds w k fd answers.accept
      return ({ w with pc := .accept events }, k)
  | .process ((addr, packet) :: que) => do
      let w ← tsProcessWith callbacks.process w addr packet
      return ({ w with pc := .process que }, k)
  | .close (addr :: que) => do
      let (w, k) ← tsCloseWith callbacks.closed w k addr
      return ({ w with pc := .close que }, k)
  | _ => workerStep epfds stopping w k answers

/-- An `opened` and a `closed` that do nothing, and a `process` that leaves a response. -/
def Callbacks.ofResponse (response : Response) : Callbacks where
  opened := id
  process := (·.respond response)
  closed := id

end MustDb.Libv
