import MustDb.Lib.Run
import MustDb.Libv.NetServer

/-!
# `MustDb.Libv.NetPackets`: the packet buffer of a worker

The sizes of the arrays of `init_tscontext`, and the slots of `inpkts` that `ts_read` uses.
`queuesize`, `PACKETSIZE` and the index of the loop in `ts_read` are of type `int`, so the two
products of packets are products in `int`, and they wrap. A product that is negative becomes a very
large `size_t`, which `malloc` refuses (`PTRDIFF_MAX` of `MustDb.Libv.Memory`).
-/

set_option autoImplicit false

namespace MustDb.Libv

open MustDb.Lib

/-- An `int` that is converted to `size_t`. -/
def sizeOfInt (n : Int32) : UInt64 := n.toInt64.toUInt64

/-- `PACKETSIZE * sctx->queuesize`, the size of `inpkts`. -/
def inpktsSize (queuesize : Int32) : UInt64 := sizeOfInt (Int32.ofNat PACKETSIZE * queuesize)

/-- The arguments of `malloc` in `init_tscontext`. -/
def tscontextSizes (queuesize : Int32) : List UInt64 :=
  [ 8 * sizeOfInt queuesize, 8 * sizeOfInt queuesize, 8 * sizeOfInt queuesize,
    8 * sizeOfInt queuesize, 8 * sizeOfInt queuesize, inpktsSize queuesize,
    8 * sizeOfInt queuesize, 4 * sizeOfInt queuesize ]

/-- `i * PACKETSIZE` in `ts_read`, the offset of a slot. -/
def slotOffset (i : Int32) : Int := (i * Int32.ofNat PACKETSIZE).toInt

/-- The outcomes of requests of these sizes, where none is too large. -/
def sizedOutcomes : List UInt64 → MallocOutcomes → MallocOutcomes
  | [], outcomes => outcomes
  | size :: sizes, outcomes =>
      let (ok, outcomes) := malloc outcomes
      (ok && size ≤ PTRDIFF_MAX) :: sizedOutcomes sizes outcomes

/-- The requests of `net_server_start`, behind its two arrays of `nthreads` elements. -/
def contextSizes (opt : NetListenOptions) : List UInt64 :=
  (List.replicate opt.threads (tscontextSizes (Int32.ofNat opt.queue))).flatten

/-- `net_server_start` with its second loop, where `malloc` sees the sizes. It has returned 0 when
the server is running. -/
def netServerStartSized (opt : NetListenOptions) (listen : Option Fd) (mallocs : MallocOutcomes)
    (outcomes : Nat → MallocOutcomes) (k : Kernel) (creates : List CreateAnswers) :
    Except Fault NetServer := do
  let (ctxsOk, mallocs) := malloc mallocs
  let (threadsOk, mallocs) := malloc mallocs
  let mallocs := ctxsOk :: threadsOk :: sizedOutcomes (contextSizes opt) mallocs
  let server ← netServerStart opt listen mallocs outcomes k
  run serverStep server (creates.map ServerOp.create)

end MustDb.Libv
