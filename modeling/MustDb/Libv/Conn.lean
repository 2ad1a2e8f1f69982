import MustDb.Libv.NetCallbacks

/-!
# `MustDb.Libv.Conn`: the application of `net_listen`

`libv/src/net/conn.c`. `ev_opened` allocates a `struct Conn` for each new connection and puts its
address into `udata` of the `net_conn`; `ev_closed` frees it. `ev_process` is in
`MustDb.Libv.Handlers`.

`ConnApp` is the memory of the application, beside the worker: the worker reads none of it. So the
callbacks of a step of the worker are those that the step has logged (`evCall`).
-/

set_option autoImplicit false

namespace MustDb.Libv

open MustDb.Lib

/-- `struct buf` -/
structure Buf where
  data : List UInt8
  len : Nat
  cap : Nat
  deriving DecidableEq, Repr

/-- `struct Conn` -/
structure Conn where
  fd : Fd
  packet : Buf
  conn5 : Addr
  deriving DecidableEq, Repr

/-- A `struct Conn` of zeroes. -/
def Conn.zero : Conn := ⟨0, ⟨[], 0, 0⟩, 0⟩

/-- The objects of the application, and `udata` of each `net_conn`; `none` is `NULL`. -/
structure ConnApp where
  conns : Heap Conn
  udata : Addr → Option Addr

/-- Before the first connection. -/
def ConnApp.init (outcomes : MallocOutcomes) : ConnApp := ⟨⟨[], outcomes⟩, fun _ => none⟩

/-- `buf_clear` -/
def bufClear (_ : Buf) : Buf := ⟨[], 0, 0⟩

/-- `net_conn_setudata`, at a connection -/
def netConnSetudata (app : ConnApp) (conn : Addr) (udata : Addr) : ConnApp :=
  { app with udata := Function.update app.udata conn (some udata) }

/-- `ev_opened`. The result of `malloc` is not checked, so the `memset` writes to `NULL` when it
failed. -/
def evOpened (app : ConnApp) (conn5 : Addr) : Except Fault ConnApp :=
  match app.conns.alloc Conn.zero with
  | (_, none) => .error .nullPointer
  | (conns, some conn) =>
      .ok (netConnSetudata { app with conns := conns.put conn { Conn.zero with conn5 } } conn5 conn)

/-- `ev_closed` -/
def evClosed (app : ConnApp) (conn5 : Addr) : Except Fault ConnApp :=
  match app.udata conn5 with
  | none => .error .nullPointer
  | some addr =>
      match app.conns.get? addr with
      | none => .error .useAfterFree
      | some conn =>
          let conns := app.conns.put addr { conn with packet := bufClear conn.packet }
          .ok { app with conns := conns.free addr }

/-- What a call of the worker does to the application. -/
def evCall (app : ConnApp) : Addr × ConnEvent → Except Fault ConnApp
  | (conn5, .opened) => evOpened app conn5
  | (conn5, .closed) => evClosed app conn5
  | _ => .ok app

end MustDb.Libv
