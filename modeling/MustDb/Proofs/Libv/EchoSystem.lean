import MustDb.Libv.EchoClient
import MustDb.Proofs.Libv.Echo

/-!
# `MustDb.Proofs.Libv.EchoSystem`: a client, a worker and the streams between them

`EchoSystem` is a worker of the echo server, the client of one of its connections, and the two byte
streams of that connection. Any interleaving of their steps is a run, and the worker can have any
number of other connections. A stream is first in, first out: `read` and `recv` return the first
bytes of what is in flight, as many as they like (`Delivered`).

`client_gets_its_own_bytes` says that the client gets what was typed into it, in order and nothing
else. While it waits in `select` and its connection is open, nothing is lost either: what was typed
and has not come back is in one of five places on the way.
-/

set_option autoImplicit false

namespace MustDb.Proofs.Libv

open MustDb.Lib
open MustDb.Libv

/-- A worker, a client, and the bytes that are in flight between them. -/
structure EchoSystem where
  server : Worker
  client : EchoClient
  toServer : List UInt8
  toClient : List UInt8

/-- A step of one of the two programs. -/
inductive EchoOp where
  | server (turn : HandlerTurn)
  | client (answers : ClientAnswers)

/-- The calls on the connection `a` that a step has added. -/
def newCalls (a : Addr) (w w' : Worker) : List ConnEvent :=
  (callsOn w'.log a).drop (callsOn w.log a).length

/-- The streams behind a step of the worker: what was read has left the one, and what was written is
at the end of the other. -/
def EchoSystem.withServer (s : EchoSystem) (a : Addr) (server : Worker) : EchoSystem where
  server := server
  client := s.client
  toServer := s.toServer.drop (received (newCalls a s.server server)).length
  toClient := s.toClient ++ sent (newCalls a s.server server)

/-- The streams behind a step of the client. -/
def EchoSystem.withClient (s : EchoSystem) (client : EchoClient) : EchoSystem where
  server := s.server
  client := client
  toServer := s.toServer ++ client.taken.drop s.client.taken.length
  toClient := s.toClient.drop (client.got.length - s.client.got.length)

/-- One step of the system, where `a` is the connection of the client. -/
def echoSystemStep (a : Addr) (s : EchoSystem) : EchoOp → Except Fault EchoSystem
  | .server turn => do
      let server ← handlerStep echoProcess s.server turn
      return s.withServer a server
  | .client answers => .ok (s.withClient (clientStep s.client answers))

/-- The calls of a step return what is in flight, and `epoll_wait` lists no descriptor twice. -/
def Delivered (a : Addr) (s : EchoSystem) : EchoOp → Prop
  | .server turn =>
      (∀ events ∈ turn.answers.wait, events.Nodup) ∧
        match handlerStep echoProcess s.server turn with
        | .ok server => received (newCalls a s.server server) <+: s.toServer
        | .error _ => True
  | .client answers =>
      (clientStep s.client answers).got.drop s.client.got.length <+: s.toClient

instance (a : Addr) (s : EchoSystem) (op : EchoOp) : Decidable (Delivered a s op) :=
  match op with
  | .server turn =>
      have : Decidable (match handlerStep echoProcess s.server turn with
          | .ok server => received (newCalls a s.server server) <+: s.toServer
          | .error _ => True) :=
        match handlerStep echoProcess s.server turn with
        | .ok server =>
            inferInstanceAs (Decidable (received (newCalls a s.server server) <+: s.toServer))
        | .error _ => isTrue trivial
      inferInstanceAs (Decidable (_ ∧ _))
  | .client answers =>
      inferInstanceAs
        (Decidable ((clientStep s.client answers).got.drop s.client.got.length <+: s.toClient))

/-! ### The client -/

/-- The bytes of the line that are not sent yet. -/
def lineLeft : ClientPc → List UInt8
  | .send line off _ => line.drop off
  | _ => []

/-- `send` takes the bytes of the lines in order. An error ends the client in the middle of a line.
-/
structure ClientInv (client : EchoClient) : Prop where
  taken_prefix : client.taken <+: client.typed
  typed_eq : client.pc ≠ .exited → client.typed = client.taken ++ lineLeft client.pc

theorem clientInv_init : ClientInv EchoClient.init := ⟨List.prefix_rfl, fun _ => rfl⟩

/-- What one step of the client does: it goes on, takes a line, sends bytes of it or gets bytes. -/
inductive ClientStep (client : EchoClient) : EchoClient → Prop where
  | goto {pc : ClientPc} (hleft : pc ≠ .exited → client.pc ≠ .exited ∧
      lineLeft pc = lineLeft client.pc) : ClientStep client { client with pc }
  | line {line : List UInt8} {sock : Bool} (hpc : client.pc = .getline sock) :
      ClientStep client { client with pc := .send line 0 sock, typed := client.typed ++ line }
  | send {line : List UInt8} {off w : Nat} {sock : Bool} (hpc : client.pc = .send line off sock) :
      ClientStep client
        { client with
          pc := .send line (off + w) sock, taken := client.taken ++ (line.drop off).take w }
  | recv {rxbuf : List UInt8} (hpc : client.pc = .recv) :
      ClientStep client { client with pc := .select, got := client.got ++ rxbuf }

theorem lineLeft_afterInput (sock : Bool) : lineLeft (afterInput sock) = [] := by
  cases sock with
  | false => rfl
  | true => rfl

theorem clientStep_cases (client : EchoClient) (answers : ClientAnswers) :
    ClientStep client (clientStep client answers) := by
  obtain ⟨pc, typed, taken, got⟩ := client
  cases pc with
  | select =>
      cases hselect : answers.select with
      | ready stdin sock =>
          cases stdin with
          | true =>
              simp only [clientStep, hselect]
              exact .goto fun _ => ⟨ClientPc.noConfusion, rfl⟩
          | false =>
              simp only [clientStep, hselect]
              exact .goto fun _ => ⟨ClientPc.noConfusion, lineLeft_afterInput sock⟩
      | interrupted =>
          simp only [clientStep, hselect]
          exact .goto fun _ => ⟨ClientPc.noConfusion, rfl⟩
      | error =>
          simp only [clientStep, hselect]
          exact .goto fun h => absurd rfl h
  | getline sock =>
      cases hline : answers.getline with
      | none =>
          simp only [clientStep, hline]
          exact .goto fun h => absurd rfl h
      | some line =>
          simp only [clientStep, hline]
          exact .line rfl
  | send line off sock =>
      by_cases hoff : off < line.length
      · cases hsend : answers.send with
        | count n =>
            simp only [clientStep, if_pos hoff, hsend]
            exact .send rfl
        | interrupted =>
            simp only [clientStep, if_pos hoff, hsend]
            exact .goto fun _ => ⟨ClientPc.noConfusion, rfl⟩
        | again | error =>
            simp only [clientStep, if_pos hoff, hsend]
            exact .goto fun h => absurd rfl h
      · simp only [clientStep, if_neg hoff]
        -- the line is sent
        refine .goto fun _ => ⟨ClientPc.noConfusion, (lineLeft_afterInput sock).trans ?_⟩
        exact (List.drop_eq_nil_of_le (Nat.not_lt.mp hoff)).symm
  | recv =>
      cases hrecv : answers.recv with
      | none =>
          simp only [clientStep, hrecv]
          exact .goto fun h => absurd rfl h
      | some bytes =>
          simp only [clientStep, hrecv]
          split
          · exact .goto fun h => absurd rfl h
          · exact .recv rfl
  | exited => exact .goto fun h => absurd rfl h

theorem ClientInv.step {client client' : EchoClient} (h : ClientInv client)
    (hstep : ClientStep client client') : ClientInv client' := by
  cases hstep with
  | goto hleft =>
      refine ⟨h.taken_prefix, fun hrunning => ?_⟩
      obtain ⟨hbefore, hsame⟩ := hleft hrunning
      rw [hsame]
      exact h.typed_eq hbefore
  | @line line sock hpc =>
      refine ⟨h.taken_prefix.trans (List.prefix_append _ _), fun _ => ?_⟩
      have htyped := h.typed_eq (by rw [hpc]; exact ClientPc.noConfusion)
      rw [hpc] at htyped
      have hnone : lineLeft (.getline sock) = [] := rfl
      show client.typed ++ line = client.taken ++ line.drop 0
      rw [htyped, hnone, List.append_nil, List.drop_zero]
  | @send line off w sock hpc =>
      have htyped := h.typed_eq (by rw [hpc]; exact ClientPc.noConfusion)
      rw [hpc] at htyped
      have hsplit : client.typed
          = client.taken ++ (line.drop off).take w ++ line.drop (off + w) := by
        rw [htyped, lineLeft, List.append_assoc, ← List.drop_drop, List.take_append_drop]
      exact ⟨⟨line.drop (off + w), hsplit.symm⟩, fun _ => hsplit⟩
  | recv hpc =>
      refine ⟨h.taken_prefix, fun _ => ?_⟩
      have htyped := h.typed_eq (by rw [hpc]; exact ClientPc.noConfusion)
      rw [hpc] at htyped
      exact htyped

/-- The bytes that a client has sent and got are only ever extended. -/
theorem ClientStep.grows {client client' : EchoClient} (h : ClientStep client client') :
    client.taken <+: client'.taken ∧ client.got <+: client'.got := by
  cases h with
  | goto | line => exact ⟨List.prefix_rfl, List.prefix_rfl⟩
  | send => exact ⟨List.prefix_append _ _, List.prefix_rfl⟩
  | recv => exact ⟨List.prefix_rfl, List.prefix_append _ _⟩

/-! ### The system -/

theorem drop_of_prefix {α : Type} {l l' : List α} (h : l <+: l') :
    l ++ l'.drop l.length = l' := by
  obtain ⟨rest, rfl⟩ := h
  rw [List.drop_left]

/-- A step of the worker adds calls to those on a connection. -/
theorem handlerStep_calls {process : Handler} (hfd : ∀ allocated packet conn,
    (process allocated packet conn).fd = conn.fd) {w w' : Worker} {turn : HandlerTurn}
    (hstep : handlerStep process w turn = .ok w') (a : Addr) :
    callsOn w.log a <+: callsOn w'.log a := by
  rw [handlerStep_eq hfd] at hstep
  obtain ⟨⟨next, k⟩, hworker, hnext⟩ := bind_eq_ok.mp hstep
  cases hnext
  obtain ⟨b, calls, hlog, -⟩ := workerStep_calls (workerStep_cases hworker)
  rw [hlog, callsOn_append]
  exact List.prefix_append _ _

/-- What was sent into a stream is what has come out of it, and what is in flight. -/
structure EchoInv (outcomes : MallocOutcomes) (a : Addr) (s : EchoSystem) : Prop where
  server : HandlerInv id outcomes s.server
  client : ClientInv s.client
  toServer_eq : s.client.taken = received (callsOn s.server.log a) ++ s.toServer
  toClient_eq : sent (callsOn s.server.log a) = s.client.got ++ s.toClient

/-- The two programs in front of the first step of each. -/
def EchoSystem.init (server : Worker) : EchoSystem := ⟨server, .init, [], []⟩

section System
variable {outcomes : MallocOutcomes} {a : Addr} {s : EchoSystem}

/-- A step of the worker returns. -/
theorem EchoInv.serverStep (h : EchoInv outcomes a s) {turn : HandlerTurn}
    (hlegal : Delivered a s (.server turn)) :
    ∃ s', echoSystemStep a s (.server turn) = .ok s' ∧ EchoInv outcomes a s' := by
  obtain ⟨hnodup, hdelivered⟩ := hlegal
  obtain ⟨server, hstep, hserver⟩ :=
    h.server.step echoProcess_replies fun events hwait => hnodup events hwait
  rw [hstep] at hdelivered
  have hcalls := drop_of_prefix (handlerStep_calls echoProcess_replies.fd_eq hstep a)
  refine ⟨s.withServer a server, by rw [echoSystemStep, hstep]; rfl, hserver, h.client, ?_, ?_⟩
  · -- what was read was in flight
    have hread := drop_of_prefix hdelivered
    show s.client.taken = received (callsOn server.log a)
      ++ s.toServer.drop (received (newCalls a s.server server)).length
    rw [← hcalls, received_append, List.append_assoc]
    exact h.toServer_eq.trans (congrArg _ hread.symm)
  · show sent (callsOn server.log a)
      = s.client.got ++ (s.toClient ++ sent (newCalls a s.server server))
    rw [← hcalls, sent_append, h.toClient_eq, List.append_assoc]
    rfl

/-- A step of the client. -/
theorem EchoInv.clientStep (h : EchoInv outcomes a s) {answers : ClientAnswers}
    (hlegal : Delivered a s (.client answers)) :
    ∃ s', echoSystemStep a s (.client answers) = .ok s' ∧ EchoInv outcomes a s' := by
  have hcases := clientStep_cases s.client answers
  obtain ⟨htaken, hgot⟩ := hcases.grows
  refine ⟨_, rfl, h.server, h.client.step hcases, ?_, ?_⟩
  · show (Libv.clientStep s.client answers).taken = received (callsOn s.server.log a)
      ++ (s.toServer ++ (Libv.clientStep s.client answers).taken.drop s.client.taken.length)
    rw [← List.append_assoc, ← h.toServer_eq, drop_of_prefix htaken]
  · -- what was received was in flight
    have hrecv := drop_of_prefix hlegal
    rw [List.length_drop] at hrecv
    show sent (callsOn s.server.log a) = (Libv.clientStep s.client answers).got
      ++ s.toClient.drop ((Libv.clientStep s.client answers).got.length - s.client.got.length)
    rw [h.toClient_eq, ← hrecv, ← List.append_assoc, drop_of_prefix hgot, hrecv]

/-- The step lemma of the system. -/
theorem EchoInv.step (h : EchoInv outcomes a s) {op : EchoOp} (hlegal : Delivered a s op) :
    ∃ s', echoSystemStep a s op = .ok s' ∧ EchoInv outcomes a s' := by
  cases op with
  | server turn => exact h.serverStep hlegal
  | client answers => exact h.clientStep hlegal

end System

/-- The client of a connection gets the bytes that were typed into it, in order and without a
change, whatever the other clients do. While it waits in `select` and the server does not close its
connection, every byte that has not come back is on its way: in the stream to the server, in a
packet, in the buffer of the connection, or in the stream back. -/
theorem client_gets_its_own_bytes (epfd wakeFd listenFd : Fd) (index queuesize nthreads : Nat)
    (outcomes : MallocOutcomes) (hmem : (hmapInitInt Addr outcomes).1.buckets ≠ []) (a : Addr)
    {ops : List EchoOp}
    (hlegal : Guarded (echoSystemStep a) (Delivered a)
      (.init (Worker.init epfd wakeFd listenFd index queuesize nthreads outcomes)) ops) :
    ∃ s, run (echoSystemStep a)
        (.init (Worker.init epfd wakeFd listenFd index queuesize nthreads outcomes)) ops = .ok s ∧
      s.client.got <+: s.client.typed ∧
      ∀ conn, s.server.conns.get? a = some conn → conn.closed = false → s.client.pc = .select →
        s.client.typed = s.client.got ++ s.toClient ++ unsent conn
          ++ bytesOf a (packetsLeft (agenda s.server.pc s.server.ctx)) ++ s.toServer := by
  have hinit : EchoInv outcomes a
      (.init (Worker.init epfd wakeFd listenFd index queuesize nthreads outcomes)) :=
    { server := handlerInv_init id epfd wakeFd listenFd index queuesize nthreads hmem
      client := clientInv_init
      toServer_eq := rfl
      toClient_eq := rfl }
  obtain ⟨s, hrun, hinv⟩ :=
    run_total (EchoInv outcomes a) (fun s op h hop => h.step hop) ops _ hinit hlegal
  refine ⟨s, hrun, ?_, fun conn hlive hopen hselect => ?_⟩
  · -- got, sent, received, taken and typed, each the first part of the next
    have hsent : s.client.got <+: sent (callsOn s.server.log a) :=
      hinv.toClient_eq ▸ List.prefix_append _ _
    have hreceived : sent (callsOn s.server.log a) <+: received (callsOn s.server.log a) :=
      hinv.server.echo_prefix a
    have htaken : received (callsOn s.server.log a) <+: s.client.taken :=
      hinv.toServer_eq ▸ List.prefix_append _ _
    exact ((hsent.trans hreceived).trans htaken).trans hinv.client.taken_prefix
  · have htyped := hinv.client.typed_eq (by rw [hselect]; exact ClientPc.noConfusion)
    have hnone : lineLeft .select = [] := rfl
    rw [hselect, hnone, List.append_nil] at htyped
    rw [htyped, hinv.toServer_eq, hinv.server.echo_eq hlive hopen, hinv.toClient_eq]

/-- A line of two bytes, of which one has come back. -/
def oneLine : List EchoOp :=
  ([{ select := .ready true false }, { getline := some [1, 2] }, { send := .count 1 }, {},
    { send := .count 5 }, {}] : List ClientAnswers).map .client ++
  oneEcho.map .server ++
  ([{ select := .ready false true }, { recv := some [1] }] : List ClientAnswers).map .client

theorem oneLine_client :
    (run (echoSystemStep 0) (.init (Worker.init 3 4 2 0 8 1 [])) oneLine).toOption.map (·.client)
      = some ⟨.select, [1, 2], [1, 2], [1]⟩ := by
  decide +kernel

/-- The line of one client. -/
theorem client_gets_its_own_bytes_one_line :
    ∃ s, run (echoSystemStep 0) (.init (Worker.init 3 4 2 0 8 1 [])) oneLine = .ok s ∧
      s.client.got = [1] ∧ s.client.typed = [1, 2] ∧ s.client.got <+: s.client.typed := by
  obtain ⟨s, hrun, hprefix, -⟩ := client_gets_its_own_bytes 3 4 2 0 8 1 [] (by decide) 0
    (show Guarded (echoSystemStep 0) (Delivered 0) (.init (Worker.init 3 4 2 0 8 1 [])) oneLine by
      decide +kernel)
  have hclient := oneLine_client
  rw [hrun] at hclient
  have heq : s.client = ⟨.select, [1, 2], [1, 2], [1]⟩ := Option.some.inj hclient
  refine ⟨s, hrun, ?_, ?_, hprefix⟩
  · rw [heq]
  · rw [heq]

end MustDb.Proofs.Libv
