import MustDb.Libv.Handlers
import MustDb.Proofs.Libv.Input
import MustDb.Proofs.Libv.QueueBounds

/-!
# `MustDb.Proofs.Libv.Echo`: an application answers every packet once

The worker runs with a `process` callback that replies to each packet, or closes the connection
when it gets no memory (`Replies`). Then its responses are the replies to the packets that it has
got, up to the first one without memory (`SessionRun.responds`). Together with the order of the
input and the order of the output this says what a client sees: with `echo_process`, the bytes that
the socket took are the first bytes of those that were read from it (`echo_end_to_end`).
-/

set_option autoImplicit false

namespace MustDb.Proofs.Libv

open MustDb.Lib
open MustDb.Libv

variable {outcomes : MallocOutcomes} {reply : List UInt8 → List UInt8} {process : Handler}

/-! ### Callbacks that reply -/

/-- A response is the reply to its packet, or the connection is to be closed without one. -/
def RepliesTo (reply : List UInt8 → List UInt8) (packet : List UInt8) (response : Response) :
    Prop :=
  response.out.take response.outlen = reply packet ∨
    response.closed = true ∧ response.outlen = 0

/-- A callback that replies to each packet, from the start of a buffer of its own. -/
structure Replies (reply : List UInt8 → List UInt8) (process : Handler) : Prop where
  fd_eq : ∀ allocated packet conn, (process allocated packet conn).fd = conn.fd
  fromStart : ∀ allocated packet conn, Idle conn → conn.outoff = 0 → conn.bgctx = false →
    FromStart (process allocated packet conn).response
  repliesTo : ∀ allocated packet conn, Idle conn →
    RepliesTo reply packet (process allocated packet conn).response

/-- `echo_process` replies with the packet. -/
theorem echoProcess_replies : Replies id echoProcess where
  fd_eq allocated packet conn := by
    cases allocated with
    | false => rfl
    | true => rfl
  fromStart allocated packet conn hidle hoff hbgctx := by
    cases allocated with
    | false => exact ⟨hoff, hidle.1.le.trans (Nat.zero_le _), hbgctx⟩
    | true => exact ⟨rfl, Nat.le_refl _, hbgctx⟩
  repliesTo allocated packet conn hidle := by
    cases allocated with
    | false => exact Or.inr ⟨rfl, hidle.1⟩
    | true => exact Or.inl List.take_length

/-- `ev_process` replies with `"Ok\n"`. -/
theorem evProcess_replies : Replies (fun _ => OK_RESPONSE) evProcess where
  fd_eq allocated packet conn := by
    cases allocated with
    | false => rfl
    | true => rfl
  fromStart allocated packet conn hidle hoff hbgctx := by
    cases allocated with
    | false => exact ⟨hoff, hidle.1.le.trans (Nat.zero_le _), hbgctx⟩
    | true => exact ⟨rfl, Nat.le_refl _, hbgctx⟩
  repliesTo allocated packet conn hidle := by
    cases allocated with
    | false => exact Or.inr ⟨rfl, hidle.1⟩
    | true => exact Or.inl rfl

/-! ### One session -/

/-- The packets, in the order of the calls of `process`. -/
def packets (log : List ConnEvent) : List (List UInt8) :=
  log.filterMap fun event =>
    match event with
    | .process packet _ => some packet
    | _ => none

@[simp] theorem packets_append (log more : List ConnEvent) :
    packets (log ++ more) = packets log ++ packets more :=
  List.filterMap_append

theorem processed_eq (log : List ConnEvent) : processed log = (packets log).flatten := by
  induction log with
  | nil => rfl
  | cons event log ih =>
      cases event with
      | process packet response =>
          show packet ++ processed log = packet ++ (packets log).flatten
          rw [ih]
      | opened | read _ | write _ _ _ | closed | closeFd => exact ih

/-- The replies to the packets. -/
def replies (reply : List UInt8 → List UInt8) (log : List ConnEvent) : List UInt8 :=
  (packets log).flatMap reply

@[simp] theorem replies_append (log more : List ConnEvent) :
    replies reply (log ++ more) = replies reply log ++ replies reply more := by
  rw [replies, packets_append, List.flatMap_append]
  rfl

/-- A call that is no `process`, or one that replies. -/
def Answered (reply : List UInt8 → List UInt8) : ConnEvent → Prop
  | .process packet response => RepliesTo reply packet response
  | _ => True

/-- The responses are the replies. When the connection is to be closed, a reply can be missing. -/
def Responds (reply : List UInt8 → List UInt8) (log : List ConnEvent) : Option NetConn → Prop
  | some conn => (conn.closed = false → responses log = replies reply log) ∧
      responses log <+: replies reply log
  | none => responses log <+: replies reply log

theorem Responds.initial {log : List ConnEvent} {conn : Option NetConn}
    (h : Responds reply log conn) : responses log <+: replies reply log := by
  cases conn with
  | some c => exact h.2
  | none => exact h

/-- A call without a response. -/
theorem Responds.quiet {log calls : List ConnEvent} {conn conn' : NetConn}
    (h : Responds reply log (some conn)) (hclosed : conn'.closed = false → conn.closed = false)
    (hresponses : responses calls = []) (hreplies : replies reply calls = []) :
    Responds reply (log ++ calls) (some conn') := by
  rw [Responds, responses_append, replies_append, hresponses, hreplies, List.append_nil,
    List.append_nil]
  exact ⟨fun hopen => h.1 (hclosed hopen), h.2⟩

/-- In a session whose calls of `process` reply, the responses are the replies. -/
theorem SessionRun.responds {Allowed : Response → Prop} {log : List ConnEvent}
    {conn : Option NetConn} (h : SessionRun Allowed log conn)
    (hanswered : ∀ event ∈ log, Answered reply event) : Responds reply log conn := by
  induction h with
  | opened fd => exact ⟨fun _ => rfl, List.prefix_rfl⟩
  | @read log conn run idle answer ih =>
      have hlog := ih fun event hmem => hanswered event (List.mem_append_left _ hmem)
      exact hlog.quiet id rfl rfl
  | @process log conn run idle packet received response allowed ih =>
      have hlog := ih fun event hmem => hanswered event (List.mem_append_left _ hmem)
      -- the connection was idle, so no reply was missing before
      have hequal := hlog.1 idle.2
      have hresponses : responses [.process packet response]
          = response.out.take response.outlen := List.append_nil _
      have hreplies : replies reply [.process packet response] = reply packet :=
        List.append_nil _
      rw [Responds, responses_append, replies_append, hequal, hresponses, hreplies]
      rcases hanswered _ (List.mem_append_right _ List.mem_cons_self) with hreply | ⟨hclosed, hnone⟩
      · rw [hreply]
        exact ⟨fun _ => rfl, List.prefix_rfl⟩
      · rw [hnone, List.take_zero, List.append_nil]
        refine ⟨fun hopen => ?_, List.prefix_append _ _⟩
        rw [NetConn.respond] at hopen
        exact absurd (hclosed.symm.trans hopen) (by decide)
  | @write log conn run pending answer ih =>
      have hlog := ih fun event hmem => hanswered event (List.mem_append_left _ hmem)
      refine hlog.quiet (fun hopen => ?_) rfl rfl
      rw [NetConn.wrote, Bool.or_eq_false_iff] at hopen
      exact hopen.1
  | flushed run done ih => exact ih hanswered
  | unarmed run ih =>
      have hlog := ih hanswered
      refine ⟨fun hopen => ?_, hlog.2⟩
      cases hopen
  | @closed log conn run ending ih =>
      have hlog := ih fun event hmem => hanswered event (List.mem_append_left _ hmem)
      have hquiet : Responds reply (log ++ [.closed, .closeFd]) (some conn) :=
        hlog.quiet id rfl rfl
      exact hquiet.initial

/-! ### One step of the worker -/

/-- A turn of a worker, with the outcome of the allocation of `process`. -/
structure HandlerTurn extends Turn where
  allocated : Bool

/-- One step of a worker whose callback is `process`. -/
def handlerStep (process : Handler) (w : Worker) (turn : HandlerTurn) : Except Fault Worker :=
  callbackStep w
    { toTurn := turn.toTurn, callbacks := process.callbacks turn.allocated w.pc }

/-- What the callback leaves in the connection of the next step. -/
def responseAt (process : Handler) (w : Worker) (allocated : Bool) : Response :=
  match w.pc with
  | .process ((a, packet) :: _) =>
      match w.conns.get? a with
      | some conn => (process allocated packet conn).response
      | none => ⟨[], 0, 0, 0, false, false⟩
  | _ => ⟨[], 0, 0, 0, false, false⟩

/-- The turn of `loopStep`, with the response of the callback. -/
def HandlerTurn.answered (turn : HandlerTurn) (process : Handler) (w : Worker) : Turn :=
  { turn.toTurn with
    answers := { turn.answers with response := responseAt process w turn.allocated } }

theorem respond_response {conn conn' : NetConn} (hfd : conn'.fd = conn.fd) :
    conn.respond conn'.response = conn' := by
  rw [NetConn.respond, NetConn.response, ← hfd]

/-- A callback is one of the responses that `loopStep` allows. -/
theorem handlerStep_eq (hfd : ∀ allocated packet conn,
    (process allocated packet conn).fd = conn.fd) (w : Worker) (turn : HandlerTurn) :
    handlerStep process w turn = loopStep w (turn.answered process w) := by
  rw [← callbackStep_ofResponse, handlerStep, callbackStep, callbackStep]
  obtain ⟨ctx, conns, pc, log⟩ := w
  cases pc with
  | accept events =>
      cases events with
      | nil => rfl
      | cons fd events => rfl
  | process que =>
      cases que with
      | nil => rfl
      | cons entry que =>
          obtain ⟨a, packet⟩ := entry
          cases hlive : conns.get? a with
          | none =>
              simp only [workerStepWith, tsProcessWith, Worker.readConn, hlive, error_bind]
          | some conn =>
              have hrespond := respond_response (hfd turn.allocated packet conn)
              simp only [workerStepWith, tsProcessWith, Worker.readConn, hlive, ok_bind,
                Handler.callbacks, packetAt, Callbacks.ofResponse, HandlerTurn.answered,
                responseAt, hrespond]
              rfl
  | read que | write que | close que =>
      cases que with
      | nil => rfl
      | cons a que => rfl
  | start | test | wait | exited => rfl

/-- The invariant of a worker with a callback that replies. -/
structure HandlerInv (reply : List UInt8 → List UInt8) (outcomes : MallocOutcomes) (w : Worker) :
    Prop where
  loop : InvAt FromStart outcomes w.pc w
  conserves : Conserves w
  answered : ∀ call ∈ w.log, Answered reply call.2

/-- The response of the next step is one that the invariant of the loop allows. -/
theorem HandlerInv.responseAt_fromStart {w : Worker} (h : HandlerInv reply outcomes w)
    (hreplies : Replies reply process) (allocated : Bool) :
    FromStart (responseAt process w allocated) := by
  have hnone : FromStart ⟨[], 0, 0, 0, false, false⟩ := ⟨rfl, Nat.le_refl _, rfl⟩
  obtain ⟨ctx, conns, pc, log⟩ := w
  cases pc with
  | process que =>
      cases que with
      | nil => exact hnone
      | cons entry que =>
          obtain ⟨a, packet⟩ := entry
          obtain ⟨-, conn, hlive, hidle, -⟩ := h.loop.pop (.process que) rfl rfl
          have hsession := h.loop.core.session hlive
          -- nothing is to be sent, so the offset is 0 too
          have hoff : conn.outoff = 0 := Nat.eq_zero_of_le_zero (hidle.1 ▸ hsession.delivers.1)
          have hbgctx : conn.bgctx = false := hsession.bgctx_eq fun _ hallowed => hallowed.2.2
          have hresponse := hreplies.fromStart allocated packet conn hidle hoff hbgctx
          simp only [responseAt]
          rw [show conns.get? a = some conn from hlive]
          exact hresponse
  | start | test | wait | accept _ | read _ | write _ | close _ | exited => exact hnone

/-- The calls of a step are answered when the response of the step is the one of the callback. -/
theorem StepCalls.answered (reply : List UInt8 → List UInt8) {answers : Answers} {pc : WorkerPc}
    {a : Addr} {calls : List ConnEvent} {packets packets' : List (Addr × List UInt8)}
    (h : StepCalls answers pc a calls packets packets')
    (hprocess : ∀ packet que, pc = .process ((a, packet) :: que) →
      RepliesTo reply packet answers.response) : ∀ event ∈ calls, Answered reply event := by
  intro event hmem
  cases h with
  | none => cases hmem
  | opened | ended _ _ | packet _ =>
      rw [List.mem_singleton.mp hmem]
      trivial
  | handed packet _ hpc =>
      rw [List.mem_singleton.mp hmem]
      exact hprocess packet _ hpc
  | flushed conn =>
      obtain ⟨c, answer, rfl⟩ := mem_flushConn hmem
      trivial
  | closed =>
      rcases List.mem_cons.mp hmem with rfl | hmem
      · trivial
      · rw [List.mem_singleton.mp hmem]
        trivial

/-- Every step with the callback returns, and keeps the invariant. -/
theorem HandlerInv.step {w : Worker} (h : HandlerInv reply outcomes w)
    (hreplies : Replies reply process) {turn : HandlerTurn}
    (hturn : ∀ events, turn.answers.wait = some events → events.Nodup) :
    ∃ w', handlerStep process w turn = .ok w' ∧ HandlerInv reply outcomes w' := by
  have hlegal : LegalTurn FromStart (turn.answered process w) :=
    ⟨hturn, h.responseAt_fromStart hreplies turn.allocated⟩
  obtain ⟨w', hstep, hloop⟩ := loopStep_ok (fun _ hallowed => hallowed.2.2) w _ h.loop hlegal
  refine ⟨w', (handlerStep_eq hreplies.fd_eq w turn).trans hstep, hloop, h.conserves.step hstep, ?_⟩
  -- the new calls are those of this step
  obtain ⟨⟨next, k⟩, hworker, hnext⟩ := bind_eq_ok.mp hstep
  cases hnext
  obtain ⟨a, calls, hlog, hcalls⟩ := workerStep_calls (workerStep_cases hworker)
  have hnew := hcalls.answered reply fun packet que hpc => by
    have hloop := h.loop
    rw [hpc] at hloop
    obtain ⟨-, conn, hlive, hidle, -⟩ := hloop.pop (.process que) rfl rfl
    have hresponse : (turn.answered process w).answers.response
        = (process turn.allocated packet conn).response := by
      simp only [HandlerTurn.answered, responseAt, hpc]
      rw [show w.conns.get? a = some conn from hlive]
    rw [hresponse]
    exact hreplies.repliesTo turn.allocated packet conn hidle
  intro call hmem
  rw [hlog] at hmem
  rcases List.mem_append.mp hmem with hmem | hmem
  · exact h.answered call hmem
  · obtain ⟨event, hevent, rfl⟩ := List.mem_map.mp hmem
    exact hnew event hevent

/-! ### The runs -/

theorem handlerInv_init (reply : List UInt8 → List UInt8) (epfd wakeFd listenFd : Fd)
    (index queuesize nthreads : Nat) (hmem : (hmapInitInt Addr outcomes).1.buckets ≠ []) :
    HandlerInv reply outcomes
      (Worker.init epfd wakeFd listenFd index queuesize nthreads outcomes) where
  loop := inv_init FromStart epfd wakeFd listenFd index queuesize nthreads outcomes hmem
  conserves := conserves_init epfd wakeFd listenFd index queuesize nthreads outcomes
  answered := fun _ hmem => absurd hmem List.not_mem_nil

/-- Every run of the application returns, when the map of the worker got its memory. -/
theorem run_handler (hreplies : Replies reply process) (epfd wakeFd listenFd : Fd)
    (index queuesize nthreads : Nat) (outcomes : MallocOutcomes)
    (hmem : (hmapInitInt Addr outcomes).1.buckets ≠ []) {turns : List HandlerTurn}
    (hturns : ∀ turn ∈ turns, ∀ events, turn.answers.wait = some events → events.Nodup) :
    ∃ w, run (handlerStep process)
        (Worker.init epfd wakeFd listenFd index queuesize nthreads outcomes) turns = .ok w ∧
      HandlerInv reply outcomes w :=
  run_total (HandlerInv reply outcomes) (fun _ _ h hturn => h.step hreplies hturn) turns _
    (handlerInv_init reply epfd wakeFd listenFd index queuesize nthreads hmem)
    (guarded_of_forall hturns _)

/-- The calls on a connection are answered. -/
theorem HandlerInv.answered_on {w : Worker} (h : HandlerInv reply outcomes w) (a : Addr) :
    ∀ event ∈ callsOn w.log a, Answered reply event := by
  intro event hmem
  obtain ⟨call, hcall, rfl⟩ := List.mem_map.mp hmem
  exact h.answered call (List.mem_filter.mp hcall).1

/-- What the socket of a connection took are the first bytes of the replies. -/
theorem HandlerInv.sent_prefix {w : Worker} (h : HandlerInv reply outcomes w) (a : Addr) :
    sent (callsOn w.log a) <+: replies reply (callsOn w.log a) := by
  rcases h.loop.core.known a with ⟨hnil, -⟩ | hsession
  · rw [hnil]
    exact List.nil_prefix
  · exact hsession.delivers.initial.trans (hsession.responds (h.answered_on a)).initial

/-- A connection that is not to be closed has all replies sent, but for what is in its buffer. -/
theorem HandlerInv.replies_eq {w : Worker} (h : HandlerInv reply outcomes w) {a : Addr}
    {conn : NetConn} (hlive : w.conns.get? a = some conn) (hopen : conn.closed = false) :
    replies reply (callsOn w.log a) = sent (callsOn w.log a) ++ unsent conn := by
  have hsession := h.loop.core.session hlive
  rw [← (hsession.responds (h.answered_on a)).1 hopen]
  exact hsession.delivers.2.2

theorem replies_id (log : List ConnEvent) : replies id log = processed log := by
  rw [processed_eq, replies, List.flatMap_id]

/-- With the echo, what the socket took are the first bytes of those that were read from it. -/
theorem HandlerInv.echo_prefix {w : Worker} (h : HandlerInv id outcomes w) (a : Addr) :
    sent (callsOn w.log a) <+: received (callsOn w.log a) := by
  have hsent := h.sent_prefix a
  rw [replies_id] at hsent
  rw [h.conserves a]
  exact hsent.trans (List.prefix_append _ _)

/-- With the echo, the bytes of a connection that is not to be closed are sent, in its buffer, or in
a packet that is left. -/
theorem HandlerInv.echo_eq {w : Worker} (h : HandlerInv id outcomes w) {a : Addr} {conn : NetConn}
    (hlive : w.conns.get? a = some conn) (hopen : conn.closed = false) :
    received (callsOn w.log a) = sent (callsOn w.log a) ++ unsent conn
      ++ bytesOf a (packetsLeft (agenda w.pc w.ctx)) := by
  rw [h.conserves a, ← replies_id, h.replies_eq hlive hopen]

/-- The echo server returns to each client the bytes that it got from it: in every run, what the
socket of a connection took are the first bytes of those that were read from it. While a connection
is not to be closed, the others are in its buffer or in a packet that is left. -/
theorem echo_end_to_end (epfd wakeFd listenFd : Fd) (index queuesize nthreads : Nat)
    (outcomes : MallocOutcomes) (hmem : (hmapInitInt Addr outcomes).1.buckets ≠ [])
    {turns : List HandlerTurn}
    (hturns : ∀ turn ∈ turns, ∀ events, turn.answers.wait = some events → events.Nodup) :
    ∃ w, run (handlerStep echoProcess)
        (Worker.init epfd wakeFd listenFd index queuesize nthreads outcomes) turns = .ok w ∧
      (∀ a, sent (callsOn w.log a) <+: received (callsOn w.log a)) ∧
      ∀ a conn, w.conns.get? a = some conn → conn.closed = false →
        received (callsOn w.log a) = sent (callsOn w.log a) ++ unsent conn
          ++ bytesOf a (packetsLeft (agenda w.pc w.ctx)) := by
  obtain ⟨w, hrun, hinv⟩ := run_handler echoProcess_replies epfd wakeFd listenFd index queuesize
    nthreads outcomes hmem hturns
  exact ⟨w, hrun, hinv.echo_prefix, fun _ _ => hinv.echo_eq⟩

/-- A packet of two bytes, of which `write` takes one. -/
def oneEcho : List HandlerTurn :=
  ([{}, {}, { wait := some [5] }, {}, {}, { read := .data [1, 2] }, {}, {}, {},
    { writes := [.count 1, .again] }, {}, {}] : List Answers).map
    fun answers => ⟨⟨[3], false, ⟨[], [], 0⟩, answers⟩, true⟩

theorem oneEcho_log :
    (run (handlerStep echoProcess) (Worker.init 3 4 2 0 8 1 []) oneEcho).toOption.map (·.log)
      = some [(0, .opened), (0, .read (.data [1, 2])),
          (0, .process [1, 2] ⟨[1, 2], 2, 2, 0, false, false⟩), (0, .write 0 2 [1]),
          (0, .write 1 1 [])] := by
  decide +kernel

/-- The echo to one client. -/
theorem echo_end_to_end_one_client :
    ∃ w, run (handlerStep echoProcess) (Worker.init 3 4 2 0 8 1 []) oneEcho = .ok w ∧
      sent (callsOn w.log 0) = [1] ∧ received (callsOn w.log 0) = [1, 2] ∧
      sent (callsOn w.log 0) <+: received (callsOn w.log 0) := by
  have hturns : ∀ turn ∈ oneEcho, ∀ events, turn.answers.wait = some events → events.Nodup := by
    have hchecked : ∀ turn ∈ oneEcho, ∀ events ∈ turn.answers.wait, events.Nodup := by decide
    exact fun turn hmem events hwait => hchecked turn hmem events hwait
  obtain ⟨w, hrun, hprefix, -⟩ := echo_end_to_end 3 4 2 0 8 1 [] (by decide) hturns
  have hlog := oneEcho_log
  rw [hrun] at hlog
  have heq := Option.some.inj hlog
  have hcalls := congrArg (callsOn · 0) heq
  refine ⟨w, hrun, ?_, ?_, hprefix 0⟩
  · rw [show callsOn w.log 0 = _ from hcalls]
    decide
  · rw [show callsOn w.log 0 = _ from hcalls]
    decide

end MustDb.Proofs.Libv
