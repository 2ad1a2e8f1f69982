import MustDb.Libv.Net

/-!
# `MustDb.Proofs.Libv.Session`: one connection, from `opened` to `closed`

`SessionRun Allowed log conn` is what can happen to one connection: `log` are the calls on it so
far, and `conn` is its memory, or `none` after the end. It has one constructor for each thing that
the event loop does to a connection, with the state that the loop does it in. It does not know the
worker, its queues or the other connections.

Two properties of every session follow by induction. The callbacks come in the order of the
protocol (`SessionRun.followsProtocol`). And the bytes that `write` took are always the first bytes
of the responses, in the order of the calls of `process` (`SessionRun.inOrder`), as long as
`process` leaves its responses at offset 0.
-/

set_option autoImplicit false

namespace MustDb.Proofs.Libv

open MustDb.Lib
open MustDb.Libv

/-- A `read` that ends a connection. -/
def readEnds : ReadAnswer → Bool
  | .again => false
  | .error => true
  | .data bytes => packetOf bytes = []

/-- The last call was a `read` that ended the connection. -/
def ReadEnded (log : List ConnEvent) : Prop :=
  ∃ answer, log.getLast? = some (.read answer) ∧ readEnds answer = true

/-- The last call was a `read` of a packet. -/
def Received (log : List ConnEvent) (packet : List UInt8) : Prop :=
  ∃ bytes, log.getLast? = some (.read (.data bytes)) ∧ packet = packetOf bytes ∧ packet ≠ []

/-- Nothing is left to send, and the connection is not to be closed. -/
def Idle (conn : NetConn) : Prop := conn.outlen = 0 ∧ conn.closed = false

/-- What can happen to one connection. `Allowed` are the responses that `process` can leave. -/
inductive SessionRun (Allowed : Response → Prop) : List ConnEvent → Option NetConn → Prop where
  | opened (fd : Fd) : SessionRun Allowed [.opened] (some (connNew fd))
  | read {log : List ConnEvent} {conn : NetConn} (run : SessionRun Allowed log (some conn))
      (idle : Idle conn) (answer : ReadAnswer) :
      SessionRun Allowed (log ++ [.read answer]) (some conn)
  | process {log : List ConnEvent} {conn : NetConn} (run : SessionRun Allowed log (some conn))
      (idle : Idle conn) {packet : List UInt8} (received : Received log packet)
      {response : Response} (allowed : Allowed response) :
      SessionRun Allowed (log ++ [.process packet response]) (some (conn.respond response))
  | write {log : List ConnEvent} {conn : NetConn} (run : SessionRun Allowed log (some conn))
      (pending : conn.outoff < conn.outlen) (answer : WriteAnswer) :
      SessionRun Allowed (log ++ [writeEvent conn answer]) (some (conn.wrote answer))
  | flushed {log : List ConnEvent} {conn : NetConn} (run : SessionRun Allowed log (some conn))
      (done : conn.outlen ≤ conn.outoff) : SessionRun Allowed log (some conn.clearOut)
  /-- `epoll_ctl` failed. -/
  | unarmed {log : List ConnEvent} {conn : NetConn} (run : SessionRun Allowed log (some conn)) :
      SessionRun Allowed log (some { conn with closed := true })
  | closed {log : List ConnEvent} {conn : NetConn} (run : SessionRun Allowed log (some conn))
      (ending : conn.closed = true ∨ ReadEnded log) :
      SessionRun Allowed (log ++ [.closed, .closeFd]) none

variable {Allowed : Response → Prop}

/-- `flush_conn` is a sequence of writes, and the end of the buffer. -/
theorem SessionRun.flush (answers : List WriteAnswer) {log : List ConnEvent} {conn : NetConn}
    (h : SessionRun Allowed log (some conn)) :
    SessionRun Allowed (log ++ (flushConn answers conn).2) (some (flushConn answers conn).1) := by
  induction answers generalizing log conn with
  | nil =>
      rw [flushConn]
      split
      case isTrue hpending =>
          -- a `write` that would block takes nothing
          have hwrote : conn.wrote .again = conn := by simp [NetConn.wrote, WriteAnswer.taken]
          have hrun := h.write hpending .again
          rwa [hwrote] at hrun
      case isFalse hdone =>
          rw [List.append_nil]
          exact h.flushed (Nat.not_lt.mp hdone)
  | cons answer answers ih =>
      rw [flushConn]
      split
      case isTrue hpending =>
          have hrun := h.write hpending answer
          simp only
          split
          · -- the loop goes on with the rest of the answers
            have hrest := ih hrun
            rwa [List.append_assoc] at hrest
          · exact hrun
      case isFalse hdone =>
          rw [List.append_nil]
          exact h.flushed (Nat.not_lt.mp hdone)

/-- `flush_conn` does not touch the descriptor. -/
theorem flushConn_fd (answers : List WriteAnswer) (conn : NetConn) :
    (flushConn answers conn).1.fd = conn.fd := by
  induction answers generalizing conn with
  | nil =>
      rw [flushConn]
      split
      · rfl
      · rfl
  | cons answer answers ih =>
      rw [flushConn]
      split
      · simp only
        split
        · exact ih (conn.wrote answer)
        · rfl
      · rfl

/-- Without a response that sets it, `bgctx` stays `NULL`. -/
theorem SessionRun.bgctx_eq (hallowed : ∀ response, Allowed response → response.bgctx = false)
    {log : List ConnEvent} {conn : Option NetConn} (h : SessionRun Allowed log conn) :
    match conn with
    | some c => c.bgctx = false
    | none => True := by
  induction h with
  | opened fd => rfl
  | read run idle answer ih => exact ih
  | process run idle received allowed ih => exact hallowed _ allowed
  | write run pending answer ih => exact ih
  | flushed run done ih => exact ih
  | unarmed run ih => exact ih
  | closed run ending ih => trivial

/-! ### The protocol of the callbacks -/

/-- A call between `opened` and `closed`. -/
def Between (event : ConnEvent) : Prop :=
  event ≠ .opened ∧ event ≠ .closed ∧ event ≠ .closeFd

/-- `opened`, and calls between it and `closed`. -/
def Talks (log : List ConnEvent) : Prop :=
  ∃ calls, (∀ event ∈ calls, Between event) ∧ log = .opened :: calls

/-- `opened` is the first call and the only one. Reads, writes and calls of `process` follow. Then
`closed` comes once or not at all, with the `close` of the descriptor, and nothing after it. -/
def FollowsProtocol (log : List ConnEvent) : Prop :=
  Talks log ∨ ∃ before, Talks before ∧ log = before ++ [.closed, .closeFd]

theorem Talks.snoc {log : List ConnEvent} (h : Talks log) {event : ConnEvent}
    (hevent : Between event) : Talks (log ++ [event]) := by
  obtain ⟨calls, hcalls, rfl⟩ := h
  refine ⟨calls ++ [event], ?_, rfl⟩
  intro e he
  rcases List.mem_append.mp he with he | he
  · exact hcalls e he
  · rw [List.mem_singleton.mp he]
    exact hevent

theorem between_write (conn : NetConn) (answer : WriteAnswer) :
    Between (writeEvent conn answer) := by
  refine ⟨?_, ?_, ?_⟩ <;> simp [writeEvent]

/-- The log of a session, by whether it has ended. -/
theorem SessionRun.talks {log : List ConnEvent} {conn : Option NetConn}
    (h : SessionRun Allowed log conn) :
    match conn with
    | some _ => Talks log
    | none => ∃ before, Talks before ∧ log = before ++ [.closed, .closeFd] := by
  induction h with
  | opened fd => exact ⟨[], fun _ h => absurd h List.not_mem_nil, rfl⟩
  | read run idle answer ih => exact Talks.snoc ih (by simp [Between])
  | process run idle received allowed ih => exact Talks.snoc ih (by simp [Between])
  | write run pending answer ih => exact Talks.snoc ih (between_write _ answer)
  | flushed run done ih => exact ih
  | unarmed run ih => exact ih
  | closed run ending ih => exact ⟨_, ih, rfl⟩

/-- The callbacks of every session come in the order of the protocol. -/
theorem SessionRun.followsProtocol {log : List ConnEvent} {conn : Option NetConn}
    (h : SessionRun Allowed log conn) : FollowsProtocol log := by
  have htalks := h.talks
  cases conn with
  | some c => exact Or.inl htalks
  | none => exact Or.inr htalks

/-! ### The bytes of the responses -/

/-- The response of a call. -/
def responseOf : ConnEvent → List UInt8
  | .process _ response => response.out.take response.outlen
  | _ => []

/-- The bytes that a call sent. -/
def sentBy : ConnEvent → List UInt8
  | .write _ _ taken => taken
  | _ => []

/-- The responses, in the order of the calls of `process`. -/
def responses (log : List ConnEvent) : List UInt8 := log.flatMap responseOf

/-- The bytes that the socket took. -/
def sent (log : List ConnEvent) : List UInt8 := log.flatMap sentBy

/-- The bytes that are still to be sent. -/
def unsent (conn : NetConn) : List UInt8 :=
  (conn.out.drop conn.outoff).take (conn.outlen - conn.outoff)

@[simp] theorem responses_append (log more : List ConnEvent) :
    responses (log ++ more) = responses log ++ responses more :=
  List.flatMap_append

@[simp] theorem sent_append (log more : List ConnEvent) :
    sent (log ++ more) = sent log ++ sent more :=
  List.flatMap_append

/-- What is sent and what is still to be sent are the responses. After the end, what is sent is the
first part of them. -/
def Delivers (log : List ConnEvent) : Option NetConn → Prop
  | some conn => conn.outoff ≤ conn.outlen ∧ conn.outlen ≤ conn.out.length ∧
      responses log = sent log ++ unsent conn
  | none => sent log <+: responses log

theorem Delivers.initial {log : List ConnEvent} {conn : Option NetConn} (h : Delivers log conn) :
    sent log <+: responses log := by
  cases conn with
  | some c => exact ⟨unsent c, h.2.2.symm⟩
  | none => exact h

/-- A response as `process` leaves it: from the start, and not longer than its buffer. -/
def FromStart (response : Response) : Prop :=
  response.outoff = 0 ∧ response.outlen ≤ response.out.length ∧ response.bgctx = false

theorem taken_le (answer : WriteAnswer) (length : Nat) : answer.taken length ≤ length := by
  cases answer with
  | count n => exact Nat.min_le_right n length
  | interrupted => exact Nat.zero_le _
  | again => exact Nat.zero_le _
  | error => exact Nat.zero_le _

/-- A `write` moves bytes from the unsent ones to the sent ones. -/
theorem unsent_eq (conn : NetConn) (answer : WriteAnswer) :
    unsent conn = sent [writeEvent conn answer] ++ unsent (conn.wrote answer) := by
  have hle := taken_le answer (conn.outlen - conn.outoff)
  have hsent : sent [writeEvent conn answer]
      = (conn.out.drop conn.outoff).take (answer.taken (conn.outlen - conn.outoff)) :=
    List.append_nil _
  -- what is left of the response: the bytes that this call takes, and those behind them
  have hrest : conn.outlen - conn.outoff = answer.taken (conn.outlen - conn.outoff)
      + (conn.outlen - (conn.outoff + answer.taken (conn.outlen - conn.outoff))) := by
    omega
  rw [hsent, unsent, unsent, NetConn.wrote]
  simp only
  rw [← List.drop_drop, ← List.take_add, ← hrest]

theorem unsent_of_le {conn : NetConn} (h : conn.outlen ≤ conn.outoff) : unsent conn = [] := by
  rw [unsent, Nat.sub_eq_zero_of_le h, List.take_zero]

/-- Every session delivers. -/
theorem SessionRun.delivers {log : List ConnEvent} {conn : Option NetConn}
    (h : SessionRun FromStart log conn) : Delivers log conn := by
  induction h with
  | opened fd => exact ⟨Nat.le_refl _, Nat.le_refl _, rfl⟩
  | read run idle answer ih =>
      obtain ⟨hoff, hlen, hdata⟩ := ih
      refine ⟨hoff, hlen, ?_⟩
      have hresponses : responses [.read answer] = [] := rfl
      have hsent : sent [.read answer] = [] := rfl
      rw [responses_append, sent_append, hresponses, hsent, List.append_nil, List.append_nil, hdata]
  | @process log conn run idle packet received response allowed ih =>
      obtain ⟨hoff, hlen, -⟩ := allowed
      -- nothing was left of the response before
      have hdata : responses log = sent log := by
        rw [ih.2.2, unsent_of_le (idle.1 ▸ Nat.zero_le _), List.append_nil]
      have hnew : unsent (conn.respond response) = response.out.take response.outlen := by
        rw [unsent, NetConn.respond]
        simp only
        rw [hoff, List.drop_zero, Nat.sub_zero]
      have hresponses : responses [.process packet response]
          = response.out.take response.outlen := List.append_nil _
      have hsent : sent [.process packet response] = [] := rfl
      refine ⟨?_, hlen, ?_⟩
      · rw [NetConn.respond]
        simp only
        omega
      · rw [responses_append, sent_append, hresponses, hsent, hnew, hdata, List.append_nil]
  | @write log conn run pending answer ih =>
      obtain ⟨hoff, hlen, hdata⟩ := ih
      have htaken := taken_le answer (conn.outlen - conn.outoff)
      have hresponses : responses [writeEvent conn answer] = [] := rfl
      refine ⟨?_, hlen, ?_⟩
      · rw [NetConn.wrote]
        simp only
        omega
      · rw [responses_append, sent_append, hresponses, hdata, unsent_eq conn answer,
          List.append_nil, List.append_assoc]
  | @flushed log conn run done ih =>
      obtain ⟨hoff, hlen, hdata⟩ := ih
      refine ⟨Nat.le_refl _, Nat.le_refl _, ?_⟩
      have hclear : unsent conn.clearOut = [] := rfl
      rw [hdata, unsent_of_le done, hclear]
  | unarmed run ih => exact ih
  | @closed log conn run ending ih =>
      have hresponses : responses [.closed, .closeFd] = [] := rfl
      have hsent : sent [.closed, .closeFd] = [] := rfl
      rw [Delivers, responses_append, sent_append, hresponses, hsent, List.append_nil,
        List.append_nil]
      exact ih.initial

/-- The bytes that were sent are the first bytes of the responses, at every point of the session.
Every call of `process` finds all earlier responses sent, and no `write` goes behind the end of its
response. -/
structure InOrder (log : List ConnEvent) : Prop where
  sent_prefix : ∀ before, before <+: log → sent before <+: responses before
  process : ∀ before packet response, before ++ [.process packet response] <+: log →
    sent before = responses before
  write : ∀ offset length taken, .write offset length taken ∈ log → taken.length ≤ length

theorem InOrder.snoc {log : List ConnEvent} {e : ConnEvent} (h : InOrder log)
    (hinitial : sent (log ++ [e]) <+: responses (log ++ [e]))
    (hprocess : ∀ packet response, e = .process packet response → sent log = responses log)
    (hwrite : ∀ offset length taken, e = .write offset length taken → taken.length ≤ length) :
    InOrder (log ++ [e]) where
  sent_prefix before hbefore := by
    -- the new log itself, or a point before the new event
    rcases List.prefix_concat_iff.mp hbefore with rfl | hbefore
    · exact hinitial
    · exact h.sent_prefix before hbefore
  process before packet response hbefore := by
    rcases List.prefix_concat_iff.mp hbefore with heq | hbefore
    · obtain ⟨rfl, hevent⟩ := List.append_inj' heq rfl
      exact hprocess packet response (List.singleton_inj.mp hevent).symm
    · exact h.process before packet response hbefore
  write offset length taken hmem := by
    rcases List.mem_append.mp hmem with hmem | hmem
    · exact h.write offset length taken hmem
    · exact hwrite offset length taken (List.mem_singleton.mp hmem).symm

theorem inOrder_nil : InOrder [] where
  sent_prefix before hbefore := by
    rw [List.prefix_nil.mp hbefore]
    exact List.nil_prefix
  process before packet response hbefore := by simp at hbefore
  write offset length taken hmem := absurd hmem List.not_mem_nil

/-- Every session delivers its responses in order. -/
theorem SessionRun.inOrder {log : List ConnEvent} {conn : Option NetConn}
    (h : SessionRun FromStart log conn) : InOrder log := by
  induction h with
  | opened fd =>
      have hfirst := inOrder_nil.snoc (e := .opened) (List.prefix_refl []) (by simp) (by simp)
      exact hfirst
  | read run idle answer ih =>
      have hnext := run.read idle answer
      exact ih.snoc hnext.delivers.initial (by simp) (by simp)
  | @process log conn run idle packet received response allowed ih =>
      have hnext := run.process idle received allowed
      -- a connection that is idle has sent all responses
      have hsent : sent log = responses log := by
        rw [run.delivers.2.2, unsent_of_le (idle.1 ▸ Nat.zero_le _), List.append_nil]
      exact ih.snoc hnext.delivers.initial (fun _ _ _ => hsent) (by simp)
  | @write log conn run pending answer ih =>
      have hnext := run.write pending answer
      refine ih.snoc hnext.delivers.initial (by simp [writeEvent]) ?_
      intro offset length taken hevent
      have hcall := ConnEvent.write.inj hevent
      rw [← hcall.2.2, ← hcall.2.1, List.length_take]
      exact (Nat.min_le_left _ _).trans (taken_le answer _)
  | flushed run done ih => exact ih
  | unarmed run ih => exact ih
  | @closed log conn run ending ih =>
      have hclosed : sent (log ++ [.closed]) <+: responses (log ++ [.closed]) := by
        have hresponses : responses [.closed] = [] := rfl
        have hsent : sent [.closed] = [] := rfl
        rw [responses_append, sent_append, hresponses, hsent, List.append_nil, List.append_nil]
        exact run.delivers.initial
      have hnext := (run.closed ending).delivers.initial
      have hlast := (ih.snoc hclosed (by simp) (by simp)).snoc
        (e := .closeFd) (by rwa [List.append_assoc]) (by simp) (by simp)
      rwa [List.append_assoc] at hlast

end MustDb.Proofs.Libv
