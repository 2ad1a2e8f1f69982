import MustDb.Lib.Run
import MustDb.Proofs.Libv.Agenda

/-!
# `MustDb.Proofs.Libv.EventLoop`: the event loop keeps its invariant

Each phase has one lemma about its loop body: from the invariant in front of it, the body returns,
and the invariant holds behind it. `workerStep_ok` puts them together. So no run of a worker uses a
connection after its end or writes behind the end of a queue, whatever the system calls and the
`process` callback answer.
-/

set_option autoImplicit false

namespace MustDb.Proofs.Libv

open MustDb.Lib
open MustDb.Libv

variable {Allowed : Response → Prop} {outcomes : MallocOutcomes}

/-- The invariant of a worker, in front of the step that `pc` names. -/
abbrev InvAt (Allowed : Response → Prop) (outcomes : MallocOutcomes) (pc : WorkerPc) (w : Worker) :
    Prop :=
  LoopInv Allowed outcomes pc w.ctx w.conns w.log

/-- A worker that holds a connection. -/
abbrev HeldAt (Allowed : Response → Prop) (outcomes : MallocOutcomes) (pc : WorkerPc) (w : Worker)
    (a : Addr) : Prop :=
  Held Allowed outcomes pc w.ctx w.conns w.log a

/-! ### The queues -/

theorem pushQue_of_lt {α : Type} {queuesize : Nat} {que : List α} (h : que.length < queuesize)
    (entry : α) : pushQue queuesize que entry = .ok (que ++ [entry]) :=
  if_pos h

section Push
variable {w : Worker} {a : Addr} {pc : WorkerPc}

theorem readConn_of_get? {conn : NetConn} (hlive : w.conns.get? a = some conn) :
    w.readConn a = .ok conn := by
  rw [Worker.readConn, hlive]

theorem HeldAt.pushRead {events : List Fd} (h : HeldAt Allowed outcomes (.accept events) w a)
    (hready : Ready w.conns w.log (a, .read)) :
    ∃ w', w.pushRead a = .ok w' ∧ InvAt Allowed outcomes (.accept events) w' := by
  have hroom := h.room_self
  rw [agenda, length_tasks] at hroom
  have hnext : InvAt Allowed outcomes (.accept events)
      { w with ctx := { w.ctx with preadQue := w.ctx.preadQue ++ [a] } } :=
    h.queue hready (tasks_read _ _ _ _ a) rfl rfl h.closes_nodup
  refine ⟨_, ?_, hnext⟩
  rw [Worker.pushRead, pushQue_of_lt (by omega), ok_bind]
  rfl

theorem HeldAt.pushIn {que : List Addr} (h : HeldAt Allowed outcomes (.read que) w a)
    {packet : List UInt8} (hready : Ready w.conns w.log (a, .process packet)) :
    ∃ w', w.pushIn a packet = .ok w' ∧ InvAt Allowed outcomes (.read que) w' := by
  have hroom := h.room_self
  rw [agenda, length_tasks] at hroom
  have hnext : InvAt Allowed outcomes (.read que)
      { w with ctx := { w.ctx with insQue := w.ctx.insQue ++ [(a, packet)] } } :=
    h.queue hready (tasks_process _ _ _ _ a packet) rfl rfl h.closes_nodup
  refine ⟨_, ?_, hnext⟩
  rw [Worker.pushIn, pushQue_of_lt (by omega), ok_bind]
  rfl

/-- The phases that fill `outs_que`. -/
def BeforeWrite : WorkerPc → Prop
  | .accept _ | .read _ | .process _ => True
  | _ => False

theorem HeldAt.pushOut (h : HeldAt Allowed outcomes pc w a) (hpc : BeforeWrite pc)
    (hready : Ready w.conns w.log (a, .write)) :
    ∃ w', w.pushOut a = .ok w' ∧ InvAt Allowed outcomes pc w' := by
  -- `outs_que` is still to come in these phases, so all its entries are in the agenda
  obtain ⟨hagenda, hlength⟩ :
      (agenda pc { w.ctx with outsQue := w.ctx.outsQue ++ [a] }).Perm
          ((a, .write) :: agenda pc w.ctx) ∧
        w.ctx.outsQue.length ≤ (agenda pc w.ctx).length := by
    cases pc with
    | accept events => exact ⟨tasks_write _ _ _ _ a, by rw [agenda, length_tasks]; omega⟩
    | read que => exact ⟨tasks_write _ _ _ _ a, by rw [agenda, length_tasks]; omega⟩
    | process que => exact ⟨tasks_write _ _ _ _ a, by rw [agenda, length_tasks]; omega⟩
    | start | test | wait | write que | close que | exited => exact absurd hpc id
  have hroom := h.room_self
  have hnext : InvAt Allowed outcomes pc
      { w with ctx := { w.ctx with outsQue := w.ctx.outsQue ++ [a] } } :=
    h.queue hready hagenda rfl rfl h.closes_nodup
  refine ⟨_, ?_, hnext⟩
  rw [Worker.pushOut, pushQue_of_lt (by omega), ok_bind]
  rfl

/-- The phases that fill `closes_que`. -/
def BeforeClose : WorkerPc → Prop
  | .accept _ | .read _ | .process _ | .write _ => True
  | _ => False

/-- Until `ts_close` starts, `closes_que` is the last part of the agenda. -/
theorem agenda_eq_append_closes (hpc : BeforeClose pc) (ctx : TsContext) :
    ∃ before, ∀ closes, agenda pc { ctx with closesQue := closes }
      = before ++ closes.map (·, Task.close) := by
  cases pc with
  | accept events =>
      exact ⟨tasks ctx.preadQue ctx.insQue ctx.outsQue [], fun closes => tasks_close _ _ closes _⟩
  | read que =>
      exact ⟨tasks que ctx.insQue ctx.outsQue [], fun closes => tasks_close _ _ closes _⟩
  | process que =>
      exact ⟨tasks [] que ctx.outsQue [], fun closes => tasks_close _ _ closes _⟩
  | write que =>
      exact ⟨tasks [] [] que [], fun closes => tasks_close _ _ closes _⟩
  | start | test | wait | close que | exited => exact absurd hpc id

/-- A connection is queued in `closes_que` once. -/
theorem HeldAt.pushClose (h : HeldAt Allowed outcomes pc w a) (hpc : BeforeClose pc)
    (hready : Ready w.conns w.log (a, .close)) :
    ∃ w', w.pushClose a = .ok w' ∧ InvAt Allowed outcomes pc w' := by
  obtain ⟨before, hbefore⟩ := agenda_eq_append_closes hpc w.ctx
  have hold : agenda pc w.ctx = before ++ w.ctx.closesQue.map (·, Task.close) :=
    hbefore w.ctx.closesQue
  have hagenda : (agenda pc { w.ctx with closesQue := w.ctx.closesQue ++ [a] }).Perm
      ((a, .close) :: agenda pc w.ctx) := by
    rw [hbefore, hold, List.map_append, ← List.append_assoc]
    exact List.perm_append_singleton _ _
  -- the entries of `closes_que` are tasks, and the agenda has fewer than `queuesize`
  have hroom := h.room_self
  rw [hold, List.length_append, List.length_map] at hroom
  -- the loop holds `a`, so `a` is not in the agenda
  have hnew : a ∉ w.ctx.closesQue := by
    intro hmem
    refine h.free (List.mem_map.mpr ⟨(a, .close), ?_, rfl⟩)
    rw [hold]
    exact List.mem_append_right before (List.mem_map_of_mem hmem)
  have hcloses : (w.ctx.closesQue ++ [a]).Nodup := by
    rw [← List.concat_eq_append]
    exact h.closes_nodup.concat hnew
  have hnext : InvAt Allowed outcomes pc
      { w with ctx := { w.ctx with closesQue := w.ctx.closesQue ++ [a] } } :=
    h.queue hready hagenda rfl rfl hcloses
  refine ⟨_, ?_, hnext⟩
  rw [Worker.pushClose, pushQue_of_lt (by omega), ok_bind]
  rfl

end Push

/-! ### `ts_accept` -/

/-- The end of the loop body: the connection goes into one queue. -/
theorem HeldAt.queueEvent (hallowed : ∀ response, Allowed response → response.bgctx = false)
    {w : Worker} {a : Addr} {events : List Fd} {conn : NetConn}
    (h : HeldAt Allowed outcomes (.accept events) w a) (hlive : w.conns.get? a = some conn) :
    ∃ w', queueEvent w a = .ok w' ∧ InvAt Allowed outcomes (.accept events) w' := by
  have hbgctx : conn.bgctx = false := (h.core.session hlive).bgctx_eq hallowed
  rw [Libv.queueEvent, readConn_of_get? hlive, ok_bind, hbgctx, if_neg Bool.false_ne_true]
  -- the order of the tests: a response that is left, the end, and then a read
  split
  · exact h.pushOut trivial ⟨conn, hlive, trivial⟩
  split
  case isTrue hclosed => exact h.pushClose trivial ⟨conn, hlive, Or.inl hclosed⟩
  case isFalse hout hopen =>
      have hidle : Idle conn := ⟨Nat.eq_zero_of_not_pos hout, Bool.eq_false_iff.mpr hopen⟩
      exact h.pushRead ⟨conn, hlive, hidle⟩

/-- A new connection in the map. -/
theorem Mapped.insert {hmap : Hmap Fd Addr} {conns : Heap NetConn} {fd : Fd}
    (h : Mapped (false ∉ outcomes) hmap conns) (hnone : hmapGetValue hmap fd = .ok none)
    {left : MallocOutcomes} (hleft : ∀ outcome ∈ left, outcome ∈ outcomes) :
    ∃ hmap' node rest, hmapInsert hmap fd conns.next left = .ok (hmap', node, rest) ∧
      (∀ outcome ∈ rest, outcome ∈ outcomes) ∧
      Mapped (false ∉ outcomes) hmap' (conns.push (connNew fd)) := by
  obtain ⟨m, hrep, hentry, hall⟩ := h
  -- the code has just found that the map has no entry for `fd`
  have hlookup : m.lookup (lawfulKeys_int.key fd) = none :=
    Except.ok.inj ((hrep.getValue fd).symm.trans hnone)
  obtain ⟨hmap', node, rest, hinsert, hcases, -, hrest⟩ := hrep.insert fd conns.next left
  refine ⟨hmap', node, rest, hinsert, fun outcome hmem => hleft outcome (hrest outcome hmem), ?_⟩
  -- the entries that were there lead to the connections that they led to
  have hold : ∀ fd' a, m.lookup (lawfulKeys_int.key fd') = some a →
      ∃ conn, (conns.push (connNew fd)).get? a = some conn ∧ conn.fd = fd' := by
    intro fd' a ha
    obtain ⟨conn, hlive, hfd⟩ := hentry fd' a ha
    exact ⟨conn, Heap.get?_push_of_get? hlive _, hfd⟩
  rcases hcases with ⟨-, -, hfailed, hrep'⟩ | ⟨n, -, -, -, hrep'⟩
  · -- a failed insert is not looked at: the connection is opened without an entry
    exact ⟨m, hrep', hold, fun hyes => absurd (hleft false hfailed) hyes⟩
  · refine ⟨_, hrep', ?_, ?_⟩
    · intro fd' a ha
      by_cases hfd : lawfulKeys_int.key fd' = lawfulKeys_int.key fd
      · rw [hfd, Finmap.lookup_insert] at ha
        cases ha
        have heq : fd' = fd := hmapIntCmp_eq_zero_iff.mp (lawfulKeys_int.key_eq_iff.mp hfd)
        exact ⟨connNew fd, Heap.get?_push_next _ _, heq.symm⟩
      · rw [Finmap.lookup_insert_of_ne _ hfd] at ha
        exact hold fd' a ha
    · intro hyes a conn hlive
      by_cases ha : a = conns.next
      · rw [ha, Heap.get?_push_next] at hlive
        cases hlive
        rw [ha]
        exact Finmap.lookup_insert _
      · rw [Heap.get?_push_of_ne ha] at hlive
        have hentry' := hall hyes a conn hlive
        have hne : lawfulKeys_int.key conn.fd ≠ lawfulKeys_int.key fd := by
          intro heq
          rw [heq, hlookup] at hentry'
          cases hentry'
        rw [Finmap.lookup_insert_of_ne _ hne]
        exact hentry'

/-- The worker after the call of `opened` on a new connection. -/
def Worker.opened (w : Worker) (fd : Fd) (hmap : Hmap Fd Addr) (rest : MallocOutcomes) : Worker :=
  { w with
    conns := { w.conns.push (connNew fd) with outcomes := rest }
    ctx := { w.ctx with hmap } }.record w.conns.next [.opened]

theorem InvAt.opened {w : Worker} {fd : Fd} {events : List Fd}
    (h : InvAt Allowed outcomes (.accept (fd :: events)) w) {hmap : Hmap Fd Addr}
    (hmapped : Mapped (false ∉ outcomes) hmap (w.conns.push (connNew fd))) {rest : MallocOutcomes}
    (hrest : ∀ outcome ∈ rest, outcome ∈ outcomes) :
    HeldAt Allowed outcomes (.accept events) (Worker.opened w fd hmap rest) w.conns.next := by
  -- an address that was not used yet is not in the agenda
  have hfree : w.conns.next ∉ (agenda (.accept events) w.ctx).map Prod.fst := by
    intro hmem
    obtain ⟨conn, hlive⟩ := h.skip.live hmem
    rw [Heap.get?_next] at hlive
    cases hlive
  have hheld := h.hold hfree (by simp [Heap.get?_next])
  have hlive : (Worker.opened w fd hmap rest).conns.get? w.conns.next = some (connNew fd) :=
    Heap.get?_push_next _ _
  have hframe := frame_push w.conns w.log (connNew fd) rest [.opened]
  -- and no call was recorded for it before
  have hcalls : callsOn (Worker.opened w fd hmap rest).log w.conns.next = [.opened] := by
    have hrecord := callsOn_record w.log w.conns.next [.opened]
    rwa [h.core.unborn _ (Nat.le_refl _)] at hrecord
  have hrun : SessionRun Allowed (callsOn (Worker.opened w fd hmap rest).log w.conns.next)
      ((Worker.opened w fd hmap rest).conns.get? w.conns.next) := by
    rw [hcalls, hlive]
    exact SessionRun.opened fd
  have hcore := h.core.step hframe (Heap.lt_next hlive) hmapped hrun hrest
  refine hheld.step hframe hcore fun conn hconn => ?_
  have hconn_eq : connNew fd = conn := Option.some.inj (hlive.symm.trans hconn)
  rw [← hconn_eq]
  exact (List.nodup_cons.mp h.events_nodup).1

/-- A new connection: it is opened, and goes into a queue. -/
theorem InvAt.openConn (hallowed : ∀ response, Allowed response → response.bgctx = false)
    {w : Worker} {fd : Fd} {events : List Fd}
    (h : InvAt Allowed outcomes (.accept (fd :: events)) w)
    (hnone : hmapGetValue w.ctx.hmap fd = .ok none) (k : Kernel) :
    ∃ w' k', openConn w k fd = .ok (w', k') ∧ InvAt Allowed outcomes (.accept events) w' := by
  obtain ⟨left, hleft, halloc | halloc⟩ := w.conns.alloc_cases (connNew fd)
  · -- no memory for the connection
    refine ⟨_, _, by rw [Libv.openConn, halloc], ?_⟩
    exact h.skip.withOutcomes left fun outcome hmem =>
      h.core.outcomes_sub outcome (hleft outcome hmem)
  · obtain ⟨hmap, node, rest, hinsert, hrest, hmapped⟩ := h.core.mapped.insert hnone
      fun outcome hmem => h.core.outcomes_sub outcome (hleft outcome hmem)
    have hlive : (Worker.opened w fd hmap rest).conns.get? w.conns.next = some (connNew fd) :=
      Heap.get?_push_next _ _
    obtain ⟨w', hqueue, hinv⟩ := HeldAt.queueEvent hallowed (h.opened hmapped hrest) hlive
    refine ⟨w', k, ?_, hinv⟩
    rw [Libv.openConn, halloc]
    simp only [hinsert, ok_bind]
    rw [Worker.opened] at hqueue
    rw [hqueue, ok_bind]
    rfl

/-- The loop body of `ts_accept`. -/
theorem InvAt.tsAccept (hallowed : ∀ response, Allowed response → response.bgctx = false)
    {w : Worker} {fd : Fd} {events : List Fd}
    (h : InvAt Allowed outcomes (.accept (fd :: events)) w) (epfds : List Fd) (k : Kernel)
    (answer : AcceptAnswer) :
    ∃ w' k', tsAccept epfds w k fd answer = .ok (w', k') ∧
      InvAt Allowed outcomes (.accept events) w' := by
  rw [Libv.tsAccept]
  split
  case isTrue hwake => exact ⟨w, k, rfl, h.skip⟩
  obtain ⟨m, hrep, hentry, -⟩ := h.core.mapped
  -- the map decides whether the event is for a connection
  have hget := hrep.getValue fd
  rw [hget, ok_bind]
  cases hlookup : m.lookup (lawfulKeys_int.key fd) with
  | some a =>
      obtain ⟨conn, hlive, hfd⟩ := hentry fd a hlookup
      -- an event that is left is for a connection that no queue has
      have hfree : a ∉ (agenda (.accept events) w.ctx).map Prod.fst := by
        intro hmem
        obtain ⟨todo, htodo, rfl⟩ := List.mem_map.mp hmem
        refine h.fresh todo htodo conn hlive ?_
        rw [hfd]
        exact List.mem_cons_self
      have hheld := h.hold hfree (by
        intro c hc
        rw [hlive] at hc
        cases hc
        exact hfd)
      obtain ⟨w', hqueue, hinv⟩ := HeldAt.queueEvent hallowed hheld hlive
      refine ⟨w', k, ?_, hinv⟩
      simp only [hqueue, ok_bind]
      rfl
  | none =>
      simp only
      split
      · exact ⟨w, _, rfl, h.skip⟩
      · rw [hlookup] at hget
        exact h.openConn hallowed hget k

/-! ### `ts_read` -/

/-- The loop body of `ts_read`. -/
theorem InvAt.tsRead {w : Worker} {a : Addr} {que : List Addr}
    (h : InvAt Allowed outcomes (.read (a :: que)) w) (answer : ReadAnswer) :
    ∃ w', tsRead w a answer = .ok w' ∧ InvAt Allowed outcomes (.read que) w' := by
  obtain ⟨hheld, conn, hlive, hidle⟩ := h.pop (.read que) rfl rfl
  have hcalls := callsOn_record w.log a [.read answer]
  have hrun : SessionRun Allowed (callsOn (w.record a [.read answer]).log a) (some conn) := by
    rw [Worker.record, hcalls]
    exact (h.core.session hlive).read hidle answer
  have hwork : HeldAt Allowed outcomes (.read que) (w.record a [.read answer]) a :=
    hheld.work (frame_record w.conns w.log a [.read answer]) hlive hlive rfl rfl hrun
  -- the call that was just recorded is the last one
  have hlast : (callsOn (w.record a [.read answer]).log a).getLast? = some (.read answer) := by
    rw [Worker.record, hcalls]
    exact List.getLast?_concat
  rw [Libv.tsRead, readConn_of_get? hlive, ok_bind]
  cases answer with
  | again => exact ⟨_, rfl, hwork.toLoopInv⟩
  | error =>
      have hready : Ready (w.record a [.read .error]).conns (w.record a [.read .error]).log
          (a, .close) := ⟨conn, hlive, Or.inr ⟨.error, hlast, rfl⟩⟩
      exact hwork.pushClose trivial hready
  | data bytes =>
      rw [handleRead]
      split
      case isTrue hend =>
          exact hwork.pushClose trivial
            ⟨conn, hlive, Or.inr ⟨.data bytes, hlast, decide_eq_true hend⟩⟩
      case isFalse hpacket =>
          exact hwork.pushIn ⟨conn, hlive, hidle, bytes, hlast, rfl, hpacket⟩

/-! ### `ts_process` -/

/-- The loop body of `ts_process`. -/
theorem InvAt.tsProcess (hallowed : ∀ response, Allowed response → response.bgctx = false)
    {w : Worker} {a : Addr} {packet : List UInt8} {que : List (Addr × List UInt8)}
    (h : InvAt Allowed outcomes (.process ((a, packet) :: que)) w) {response : Response}
    (hresponse : Allowed response) :
    ∃ w', tsProcess w a packet response = .ok w' ∧ InvAt Allowed outcomes (.process que) w' := by
  obtain ⟨hheld, conn, hlive, hidle, hreceived⟩ := h.pop (.process que) rfl rfl
  have hlive' := Heap.get?_put_self hlive (conn.respond response)
  have hrun : SessionRun Allowed (callsOn (w.log ++ [(a, .process packet response)]) a)
      (some (conn.respond response)) := by
    have hcalls := callsOn_record w.log a [.process packet response]
    have hnext := (h.core.session hlive).process hidle hreceived hresponse
    rwa [← hcalls] at hnext
  have hwork : HeldAt Allowed outcomes (.process que)
      ({ w with conns := w.conns.put a (conn.respond response) }.record a
        [.process packet response]) a :=
    hheld.work (frame_put w.conns w.log a _ [.process packet response]) hlive hlive' rfl rfl hrun
  -- the callback leaves `bgctx` alone, so the connection stays with the loop
  have hbgctx : (conn.respond response).bgctx = false := hallowed response hresponse
  rw [Libv.tsProcess, readConn_of_get? hlive, ok_bind]
  simp only [hbgctx, Bool.false_eq_true, if_false]
  split
  case isTrue hout => exact hwork.pushOut trivial ⟨_, hlive', trivial⟩
  case isFalse hout =>
      split
      case isTrue hclosed => exact hwork.pushClose trivial ⟨_, hlive', Or.inl hclosed⟩
      case isFalse hopen => exact ⟨_, rfl, hwork.toLoopInv⟩

/-! ### `ts_write` -/

/-- A connection whose interest could not be changed is to be closed. -/
theorem HeldAt.unarmed {w : Worker} {a : Addr} {pc : WorkerPc} {conn : NetConn}
    (h : HeldAt Allowed outcomes pc w a) (hlive : w.conns.get? a = some conn) :
    InvAt Allowed outcomes pc
      { w with conns := w.conns.put a { conn with closed := true } } := by
  have hlive' := Heap.get?_put_self hlive { conn with closed := true }
  have hframe := frame_put w.conns w.log a { conn with closed := true } []
  rw [List.map_nil, List.append_nil] at hframe
  exact (h.work hframe hlive hlive' rfl rfl (h.core.session hlive).unarmed).toLoopInv

/-- The loop body of `ts_write`. -/
theorem InvAt.tsWrite {w : Worker} {a : Addr} {que : List Addr}
    (h : InvAt Allowed outcomes (.write (a :: que)) w) (k : Kernel) (answers : Answers) :
    ∃ w' k', tsWrite w k a answers = .ok (w', k') ∧ InvAt Allowed outcomes (.write que) w' := by
  obtain ⟨hheld, conn, hlive, -⟩ := h.pop (.write que) rfl rfl
  rw [Libv.tsWrite, readConn_of_get? hlive, ok_bind]
  cases hflush : flushConn answers.writes conn with
  | mk conn' events =>
      have hlive' := Heap.get?_put_self hlive conn'
      have hfd : conn'.fd = conn.fd := by
        have hsame := flushConn_fd answers.writes conn
        rwa [hflush] at hsame
      -- `flush_conn` as a part of the session of this connection
      have hrun : SessionRun Allowed (callsOn (w.log ++ events.map fun event => (a, event)) a)
          (some conn') := by
        have hnext := (h.core.session hlive).flush answers.writes
        rwa [hflush, ← callsOn_record] at hnext
      have hwork : HeldAt Allowed outcomes (.write que)
          ({ w with conns := w.conns.put a conn' }.record a events) a :=
        hheld.work (frame_put w.conns w.log a conn' events) hlive hlive' hfd rfl hrun
      simp only
      split
      case isTrue hclosed =>
          obtain ⟨w', hpush, hinv⟩ := hwork.pushClose trivial ⟨conn', hlive', Or.inl hclosed⟩
          exact ⟨w', k, by rw [hpush, ok_bind]; rfl, hinv⟩
      case isFalse hopen =>
          split
          · exact ⟨_, _, rfl, hwork.toLoopInv⟩
          · -- the interest could not be changed: the next event finds the connection closed
            exact ⟨_, _, rfl, hwork.unarmed hlive'⟩

/-! ### `ts_close` -/

/-- The end of a connection. -/
theorem Mapped.delete {all : Prop} {hmap : Hmap Fd Addr} {conns : Heap NetConn} {a : Addr}
    {conn : NetConn} (h : Mapped all hmap conns) (hlive : conns.get? a = some conn) :
    ∃ hmap' code value, hmapDelete hmap conn.fd = .ok (hmap', code, value) ∧
      Mapped all hmap' (conns.free a) := by
  obtain ⟨m, hrep, hentry, hall⟩ := h
  obtain ⟨hmap', hdelete, hrep'⟩ := hrep.delete conn.fd
  refine ⟨hmap', _, _, hdelete, m.erase (lawfulKeys_int.key conn.fd), hrep', ?_, ?_⟩
  · intro fd b hlookup
    -- no entry is left for the descriptor, and another descriptor has another connection
    by_cases hfd : lawfulKeys_int.key fd = lawfulKeys_int.key conn.fd
    · rw [hfd, Finmap.lookup_erase] at hlookup
      cases hlookup
    · rw [Finmap.lookup_erase_ne hfd] at hlookup
      obtain ⟨c, hc, rfl⟩ := hentry fd b hlookup
      have hb : b ≠ a := by
        rintro rfl
        rw [hlive] at hc
        cases hc
        exact hfd rfl
      exact ⟨c, (Heap.get?_free_of_ne hb).trans hc, rfl⟩
  · intro hyes b c hc
    have hb : b ≠ a := by
      rintro rfl
      rw [Heap.get?_free_self] at hc
      cases hc
    rw [Heap.get?_free_of_ne hb] at hc
    have hentry_b := hall hyes b c hc
    -- two live connections with one descriptor would have the same entry
    have hne : lawfulKeys_int.key c.fd ≠ lawfulKeys_int.key conn.fd := by
      intro heq
      rw [heq, hall hyes a conn hlive] at hentry_b
      cases hentry_b
      exact hb rfl
    rw [Finmap.lookup_erase_ne hne]
    exact hentry_b

/-- The loop body of `ts_close`. -/
theorem InvAt.tsClose {w : Worker} {a : Addr} {que : List Addr}
    (h : InvAt Allowed outcomes (.close (a :: que)) w) (k : Kernel) :
    ∃ w' k', tsClose w k a = .ok (w', k') ∧ InvAt Allowed outcomes (.close que) w' := by
  obtain ⟨hheld, conn, hlive, hending⟩ := h.pop (.close que) rfl rfl
  obtain ⟨hmap, code, value, hdelete, hmapped⟩ := h.core.mapped.delete hlive
  -- freeing the connection and the last two calls are at `a` only
  have hframe : Frame a w.conns (w.conns.free a) w.log
      (w.log ++ [ConnEvent.closed, .closeFd].map fun event => (a, event)) :=
    { next_le := (Heap.next_free w.conns a).ge
      get? := fun b hb => Heap.get?_free_of_ne hb
      calls := fun b hb => callsOn_record_of_ne w.log hb _ }
  have hrun : SessionRun Allowed
      (callsOn (w.log ++ [ConnEvent.closed, .closeFd].map fun event => (a, event)) a)
      ((w.conns.free a).get? a) := by
    rw [callsOn_record, Heap.get?_free_self]
    exact (h.core.session hlive).closed hending
  have hlt : a < (w.conns.free a).next := by
    rw [Heap.next_free]
    exact Heap.lt_next hlive
  have hcore := h.core.step hframe hlt hmapped hrun h.core.outcomes_sub
  -- there is no connection at `a` any more, so nothing is left to say about it
  have hdone := hheld.step hframe hcore fun c hc => by
    rw [Heap.get?_free_self] at hc
    cases hc
  have hinv : InvAt Allowed outcomes (.close que)
      ({ w with ctx := { w.ctx with hmap }, conns := w.conns.free a }.record a
        [.closed, .closeFd]) := hdone.toLoopInv
  refine ⟨_, k.close conn.fd, ?_, hinv⟩
  rw [Libv.tsClose, readConn_of_get? hlive, ok_bind, hdelete]
  rfl

/-! ### One step -/

/-- What a worker can meet in one step: the answers, and what the other threads have done. -/
structure Turn where
  epfds : List Fd
  stopping : Bool
  kernel : Kernel
  answers : Answers

/-- One step of a worker. The kernel is what it finds: the other threads can change it at any time.
-/
def loopStep (w : Worker) (turn : Turn) : Except Fault Worker := do
  let (w, _) ← workerStep turn.epfds turn.stopping w turn.kernel turn.answers
  return w

/-- `epoll_wait` lists no descriptor twice, and `process` leaves an allowed response. -/
structure LegalTurn (Allowed : Response → Prop) (turn : Turn) : Prop where
  wait_nodup : ∀ events, turn.answers.wait = some events → events.Nodup
  allowed : Allowed turn.answers.response

/-- A new batch of events. -/
theorem InvAt.wait {w : Worker} (h : InvAt Allowed outcomes .wait w) {events : List Fd}
    (hnodup : events.Nodup) :
    InvAt Allowed outcomes (.accept (events.take w.ctx.queuesize))
      { w with ctx := tsReset w.ctx } where
  core := h.core
  doable := ⟨fun _ hmem => absurd hmem List.not_mem_nil, List.nodup_nil⟩
  fresh _ hmem := absurd hmem List.not_mem_nil
  events_nodup := hnodup.sublist (List.take_sublist _ _)
  room := by
    show 0 + (events.take w.ctx.queuesize).length ≤ w.ctx.queuesize
    rw [Nat.zero_add, List.length_take]
    exact Nat.min_le_left _ _
  closes_nodup := List.nodup_nil

/-- Every step of a worker returns, and keeps the invariant. -/
theorem loopStep_ok (hallowed : ∀ response, Allowed response → response.bgctx = false) (w : Worker)
    (turn : Turn) (h : InvAt Allowed outcomes w.pc w) (hturn : LegalTurn Allowed turn) :
    ∃ w', loopStep w turn = .ok w' ∧ InvAt Allowed outcomes w'.pc w' := by
  -- the phases with a task are lemmas above, and the others only move the thread
  obtain ⟨ctx, conns, pc, log⟩ := w
  cases pc with
  | start =>
      have hmalloc := h.withOutcomes (malloc conns.outcomes).2 fun outcome hmem =>
        h.core.outcomes_sub outcome (mem_of_mem_malloc hmem)
      cases hok : (malloc conns.outcomes).1 with
      | false =>
          refine ⟨⟨ctx, { conns with outcomes := (malloc conns.outcomes).2 }, .exited, log⟩, ?_,
            hmalloc.goto .exited rfl rfl⟩
          simp [loopStep, workerStep, hok]
      | true =>
          refine ⟨⟨ctx, { conns with outcomes := (malloc conns.outcomes).2 }, .test, log⟩, ?_,
            hmalloc.goto .test rfl rfl⟩
          simp [loopStep, workerStep, hok]
  | test =>
      cases hstopping : turn.stopping with
      | false =>
          refine ⟨⟨ctx, conns, .wait, log⟩, ?_, h.goto .wait rfl rfl⟩
          rw [loopStep, workerStep, hstopping]
          rfl
      | true =>
          refine ⟨⟨ctx, conns, .exited, log⟩, ?_, h.goto .exited rfl rfl⟩
          rw [loopStep, workerStep, hstopping]
          rfl
  | wait =>
      cases hwait : turn.answers.wait with
      | none =>
          refine ⟨⟨ctx, conns, .test, log⟩, ?_, h.goto .test rfl rfl⟩
          simp only [loopStep, workerStep, hwait]
          rfl
      | some events =>
          refine ⟨⟨tsReset ctx, conns, .accept (events.take ctx.queuesize), log⟩, ?_,
            InvAt.wait h (hturn.wait_nodup events hwait)⟩
          simp only [loopStep, workerStep, hwait]
          rfl
  | accept events =>
      cases events with
      | nil => exact ⟨⟨ctx, conns, .read ctx.preadQue, log⟩, rfl, h.goto _ rfl rfl⟩
      | cons fd events =>
          obtain ⟨w', k', hstep, hinv⟩ :=
            InvAt.tsAccept hallowed h turn.epfds turn.kernel turn.answers.accept
          refine ⟨{ w' with pc := .accept events }, ?_, hinv⟩
          simp only [loopStep, workerStep, hstep, ok_bind]
          rfl
  | read que =>
      cases que with
      | nil => exact ⟨⟨ctx, conns, .process ctx.insQue, log⟩, rfl, h.goto _ rfl rfl⟩
      | cons a que =>
          obtain ⟨w', hstep, hinv⟩ := InvAt.tsRead h turn.answers.read
          refine ⟨{ w' with pc := .read que }, ?_, hinv⟩
          simp only [loopStep, workerStep, hstep, ok_bind]
          rfl
  | process que =>
      cases que with
      | nil => exact ⟨⟨ctx, conns, .write ctx.outsQue, log⟩, rfl, h.goto _ rfl rfl⟩
      | cons entry que =>
          obtain ⟨w', hstep, hinv⟩ := InvAt.tsProcess hallowed h hturn.allowed
          refine ⟨{ w' with pc := .process que }, ?_, hinv⟩
          simp only [loopStep, workerStep, hstep, ok_bind]
          rfl
  | write que =>
      cases que with
      | nil => exact ⟨⟨ctx, conns, .close ctx.closesQue, log⟩, rfl, h.goto _ rfl rfl⟩
      | cons a que =>
          obtain ⟨w', k', hstep, hinv⟩ := InvAt.tsWrite h turn.kernel turn.answers
          refine ⟨{ w' with pc := .write que }, ?_, hinv⟩
          simp only [loopStep, workerStep, hstep, ok_bind]
          rfl
  | close que =>
      cases que with
      | nil => exact ⟨⟨ctx, conns, .test, log⟩, rfl, h.goto _ rfl rfl⟩
      | cons a que =>
          obtain ⟨w', k', hstep, hinv⟩ := InvAt.tsClose h turn.kernel
          refine ⟨{ w' with pc := .close que }, ?_, hinv⟩
          simp only [loopStep, workerStep, hstep, ok_bind]
          rfl
  | exited => exact ⟨⟨ctx, conns, .exited, log⟩, rfl, h⟩

end MustDb.Proofs.Libv
