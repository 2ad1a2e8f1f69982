import MustDb.Libv.NetCallbacks

/-!
# `MustDb.Libv.Handlers`: the `process` callbacks of the applications

`echo_process` of `libv/example/server/server.c` and `ev_process` of `libv/src/net/conn.c`. Each
asks for one buffer, and sets `closed` when there is no memory for it. The other callbacks of both
applications do not touch the fields of the connection.
-/

set_option autoImplicit false

namespace MustDb.Libv

open MustDb.Lib

/-- A `process` callback, by the outcome of its allocation and by the packet. -/
abbrev Handler := Bool → List UInt8 → NetConn → NetConn

/-- `echo_process` -/
def echoProcess : Handler := fun allocated data conn =>
  if ¬ allocated then { conn with closed := true }
  else { conn with out := data, outlen := data.length, outcap := data.length, outoff := 0 }

/-- `"Ok\n"` -/
def OK_RESPONSE : List UInt8 := [79, 107, 10]

/-- `ev_process`, without its output. `realloc` leaves the buffer alone when it fails. -/
def evProcess : Handler := fun allocated _ conn =>
  if ¬ allocated then { conn with closed := true }
  else
    { conn with
      out := OK_RESPONSE, outlen := OK_RESPONSE.length, outcap := OK_RESPONSE.length, outoff := 0 }

/-- The packet of the next step of `ts_process`. -/
def packetAt : WorkerPc → List UInt8
  | .process ((_, packet) :: _) => packet
  | _ => []

/-- The callbacks of an application in a step of a worker. -/
def Handler.callbacks (process : Handler) (allocated : Bool) (pc : WorkerPc) : Callbacks where
  opened := id
  process := process allocated (packetAt pc)
  closed := id

end MustDb.Libv
