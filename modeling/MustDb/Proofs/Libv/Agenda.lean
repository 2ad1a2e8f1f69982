import MustDb.Proofs.Libv.Hmap
import MustDb.Proofs.Libv.Session

/-!
# `MustDb.Proofs.Libv.Agenda`: the invariant of the event loop

In the middle of an iteration the queues of a worker say what it still has to do. Together they are
its `agenda`: a list of connections, each with a task. Two facts about it carry the safety of the
loop. No connection is in it twice, so the phases cannot work on a connection that `ts_close` has
freed. And each task is `Ready`: its connection is alive, and in the state that the task needs.

`Core` is the rest of the invariant, about the map, the connections and the log: the entries of the
map lead to live connections with that descriptor, and each address has had one session at most.

A step of a loop takes one task from the agenda (`LoopInv.pop`), works on its connection
(`Held.step`), and can queue it again (`Held.pushRead` to `Held.pushClose`). The rest of the agenda
does not notice (`Frame`).
-/

set_option autoImplicit false

namespace MustDb.Proofs.Libv

open MustDb.Lib
open MustDb.Libv

variable {Allowed : Response → Prop}

/-! ### The log -/

/-- The calls on the connections, oldest first. -/
abbrev Log := List (Addr × ConnEvent)

/-- The calls on one connection. -/
def callsOn (log : Log) (a : Addr) : List ConnEvent :=
  (log.filter fun call => call.1 = a).map Prod.snd

theorem callsOn_append (log log' : Log) (a : Addr) :
    callsOn (log ++ log') a = callsOn log a ++ callsOn log' a := by
  rw [callsOn, List.filter_append, List.map_append]
  rfl

/-- `Worker.record` adds its calls to the calls on that connection. -/
theorem callsOn_record (log : Log) (a : Addr) (events : List ConnEvent) :
    callsOn (log ++ events.map fun event => (a, event)) a = callsOn log a ++ events := by
  have hnew : callsOn (events.map fun event => (a, event)) a = events := by
    induction events with
    | nil => rfl
    | cons event events ih => simpa [callsOn] using ih
  rw [callsOn_append, hnew]

theorem callsOn_record_of_ne (log : Log) {a b : Addr} (h : b ≠ a) (events : List ConnEvent) :
    callsOn (log ++ events.map fun event => (a, event)) b = callsOn log b := by
  have hnew : callsOn (events.map fun event => (a, event)) b = [] := by
    induction events with
    | nil => rfl
    | cons event events ih => simp [callsOn, h.symm]
  rw [callsOn_append, hnew, List.append_nil]

/-! ### The connections -/

/-- The address is new, or it is in a session or behind one. -/
def Known (Allowed : Response → Prop) (conns : Heap NetConn) (log : Log) (a : Addr) : Prop :=
  callsOn log a = [] ∧ conns.get? a = none ∨ SessionRun Allowed (callsOn log a) (conns.get? a)

/-- The entries of the map lead to live connections with that descriptor. With `all`, every live
connection has its entry. -/
def Mapped (all : Prop) (hmap : Hmap Fd Addr) (conns : Heap NetConn) : Prop :=
  ∃ m : lawfulKeys_int.Map Addr, Represents lawfulKeys_int hmap m ∧
    (∀ fd a, m.lookup (lawfulKeys_int.key fd) = some a →
      ∃ conn, conns.get? a = some conn ∧ conn.fd = fd) ∧
    (all → ∀ a conn, conns.get? a = some conn → m.lookup (lawfulKeys_int.key conn.fd) = some a)

/-- The map, the connections and the log. `outcomes` are the outcomes of all allocations of the
worker: only a failed one can leave a connection out of the map. -/
structure Core (Allowed : Response → Prop) (outcomes : MallocOutcomes) (hmap : Hmap Fd Addr)
    (conns : Heap NetConn) (log : Log) : Prop where
  mapped : Mapped (false ∉ outcomes) hmap conns
  known : ∀ a, Known Allowed conns log a
  unborn : ∀ a, conns.next ≤ a → callsOn log a = []
  outcomes_sub : ∀ outcome ∈ conns.outcomes, outcome ∈ outcomes

/-- A live connection is in its session. -/
theorem Core.session {outcomes : MallocOutcomes} {hmap : Hmap Fd Addr} {conns : Heap NetConn}
    {log : Log} {a : Addr} {conn : NetConn} (h : Core Allowed outcomes hmap conns log)
    (hlive : conns.get? a = some conn) : SessionRun Allowed (callsOn log a) (some conn) := by
  rcases h.known a with ⟨-, hnone⟩ | hrun
  · rw [hlive] at hnone
    cases hnone
  · rwa [hlive] at hrun

/-- What a step at one address leaves of the others. -/
structure Frame (a : Addr) (conns conns' : Heap NetConn) (log log' : Log) : Prop where
  next_le : conns.next ≤ conns'.next
  get? : ∀ b, b ≠ a → conns'.get? b = conns.get? b
  calls : ∀ b, b ≠ a → callsOn log' b = callsOn log b

/-- Calls on a connection. -/
theorem frame_record (conns : Heap NetConn) (log : Log) (a : Addr) (events : List ConnEvent) :
    Frame a conns conns log (log ++ events.map fun event => (a, event)) where
  next_le := Nat.le_refl _
  get? _ _ := rfl
  calls _ hb := callsOn_record_of_ne log hb events

/-- Calls on a connection that change it. -/
theorem frame_put (conns : Heap NetConn) (log : Log) (a : Addr) (conn : NetConn)
    (events : List ConnEvent) :
    Frame a conns (conns.put a conn) log (log ++ events.map fun event => (a, event)) where
  next_le := (Heap.next_put conns a conn).ge
  get? _ hb := Heap.get?_put_of_ne hb conn
  calls _ hb := callsOn_record_of_ne log hb events

/-- A new connection, and its first calls. -/
theorem frame_push (conns : Heap NetConn) (log : Log) (conn : NetConn) (rest : MallocOutcomes)
    (events : List ConnEvent) :
    Frame conns.next conns { conns.push conn with outcomes := rest } log
      (log ++ events.map fun event => (conns.next, event)) where
  next_le := by
    show conns.next ≤ (conns.push conn).next
    rw [Heap.next_push]
    exact Nat.le_succ _
  get? _ hb := Heap.get?_push_of_ne hb conn
  calls _ hb := callsOn_record_of_ne log hb events

theorem Core.step {outcomes : MallocOutcomes} {hmap hmap' : Hmap Fd Addr}
    {conns conns' : Heap NetConn} {log log' : Log} {a : Addr}
    (h : Core Allowed outcomes hmap conns log) (frame : Frame a conns conns' log log')
    (ha : a < conns'.next) (hmapped : Mapped (false ∉ outcomes) hmap' conns')
    (hrun : SessionRun Allowed (callsOn log' a) (conns'.get? a))
    (hsub : ∀ outcome ∈ conns'.outcomes, outcome ∈ outcomes) :
    Core Allowed outcomes hmap' conns' log' where
  mapped := hmapped
  -- the step is at `a`, and the other addresses have their calls and connections as before
  known b := by
    by_cases hb : b = a
    · rw [hb]
      exact Or.inr hrun
    · rw [Known, frame.get? b hb, frame.calls b hb]
      exact h.known b
  unborn b hle := by
    have hb : b ≠ a := (Nat.lt_of_lt_of_le ha hle).ne'
    rw [frame.calls b hb]
    exact h.unborn b (frame.next_le.trans hle)
  outcomes_sub := hsub

/-- A step that keeps the descriptor of a connection keeps the entries of the map right. -/
theorem Mapped.update {all : Prop} {hmap : Hmap Fd Addr} {conns conns' : Heap NetConn} {a : Addr}
    {conn conn' : NetConn} (h : Mapped all hmap conns) (hlive : conns.get? a = some conn)
    (hlive' : conns'.get? a = some conn') (hfd : conn'.fd = conn.fd)
    (hother : ∀ b, b ≠ a → conns'.get? b = conns.get? b) : Mapped all hmap conns' := by
  obtain ⟨m, hrep, hentry, hall⟩ := h
  refine ⟨m, hrep, ?_, ?_⟩
  · intro fd b hlookup
    obtain ⟨c, hc, hcfd⟩ := hentry fd b hlookup
    -- the entry of this connection, which has kept its descriptor, or another one
    by_cases hb : b = a
    · rw [hb, hlive] at hc
      cases hc
      exact ⟨conn', hb ▸ hlive', hfd.trans hcfd⟩
    · exact ⟨c, (hother b hb).trans hc, hcfd⟩
  · intro hyes b c hc
    by_cases hb : b = a
    · rw [hb, hlive'] at hc
      cases hc
      rw [hfd, hb]
      exact hall hyes a conn hlive
    · exact hall hyes b c ((hother b hb).symm.trans hc)

/-! ### The agenda -/

/-- What a phase does with a connection. -/
inductive Task where
  | read
  | process (packet : List UInt8)
  | write
  | close

/-- The tasks in four queues. -/
def tasks (reads : List Addr) (ins : List (Addr × List UInt8)) (outs closes : List Addr) :
    List (Addr × Task) :=
  reads.map (·, Task.read) ++ ins.map (fun entry => (entry.1, Task.process entry.2)) ++
    outs.map (·, Task.write) ++ closes.map (·, Task.close)

/-- The tasks that are left in an iteration. -/
def agenda (pc : WorkerPc) (ctx : TsContext) : List (Addr × Task) :=
  match pc with
  | .accept _ => tasks ctx.preadQue ctx.insQue ctx.outsQue ctx.closesQue
  | .read que => tasks que ctx.insQue ctx.outsQue ctx.closesQue
  | .process que => tasks [] que ctx.outsQue ctx.closesQue
  | .write que => tasks [] [] que ctx.closesQue
  | .close que => tasks [] [] [] que
  | _ => []

/-- The events that are left in an iteration. -/
def eventsLeft : WorkerPc → List Fd
  | .accept events => events
  | _ => []

/-- A connection is alive, and in the state that its task needs. -/
def Ready (conns : Heap NetConn) (log : Log) (task : Addr × Task) : Prop :=
  ∃ conn, conns.get? task.1 = some conn ∧
    match task.2 with
    | .read => Idle conn
    | .process packet => Idle conn ∧ Received (callsOn log task.1) packet
    | .write => True
    | .close => conn.closed = true ∨ ReadEnded (callsOn log task.1)

/-- A list of tasks that can be done in any order. -/
structure Doable (conns : Heap NetConn) (log : Log) (todo : List (Addr × Task)) : Prop where
  ready : ∀ task ∈ todo, Ready conns log task
  once : (todo.map Prod.fst).Nodup

section Doable
variable {conns conns' : Heap NetConn} {log log' : Log} {todo todo' : List (Addr × Task)} {a : Addr}
  {task : Task}

theorem Doable.perm (h : Doable conns log todo) (hperm : todo'.Perm todo) :
    Doable conns log todo' where
  ready task hmem := h.ready task (hperm.mem_iff.mp hmem)
  once := (hperm.map Prod.fst).nodup_iff.mpr h.once

/-- A step at an address without a task. -/
theorem Doable.frame (h : Doable conns log todo) (ha : a ∉ todo.map Prod.fst)
    (frame : Frame a conns conns' log log') : Doable conns' log' todo where
  ready task hmem := by
    have hne : task.1 ≠ a := by
      rintro rfl
      exact ha (List.mem_map_of_mem hmem)
    rw [Ready, frame.get? task.1 hne, frame.calls task.1 hne]
    exact h.ready task hmem
  once := h.once

theorem Doable.cons (h : Doable conns log todo) (ha : a ∉ todo.map Prod.fst)
    (hready : Ready conns log (a, task)) : Doable conns log ((a, task) :: todo) where
  ready := List.forall_mem_cons.mpr ⟨hready, h.ready⟩
  once := List.nodup_cons.mpr ⟨ha, h.once⟩

theorem Doable.pop (h : Doable conns log ((a, task) :: todo)) :
    Doable conns log todo ∧ a ∉ todo.map Prod.fst ∧ Ready conns log (a, task) := by
  have honce := List.nodup_cons.mp h.once
  have hready := List.forall_mem_cons.mp h.ready
  exact ⟨⟨hready.2, honce.2⟩, honce.1, hready.1⟩

end Doable

/-! ### The queues -/

section Queues
variable (reads outs closes : List Addr) (ins : List (Addr × List UInt8)) (a : Addr)

theorem length_tasks : (tasks reads ins outs closes).length
    = reads.length + ins.length + outs.length + closes.length := by
  rw [tasks, List.length_append, List.length_append, List.length_append, List.length_map,
    List.length_map, List.length_map, List.length_map]

theorem tasks_read : (tasks (reads ++ [a]) ins outs closes).Perm
    ((a, .read) :: tasks reads ins outs closes) := by
  simp only [tasks, List.map_append, List.map_cons, List.map_nil, List.append_assoc,
    List.singleton_append]
  exact List.perm_middle

theorem tasks_process (packet : List UInt8) : (tasks reads (ins ++ [(a, packet)]) outs closes).Perm
    ((a, .process packet) :: tasks reads ins outs closes) := by
  simp only [tasks, List.map_append, List.map_cons, List.map_nil, List.append_assoc,
    List.singleton_append]
  exact (List.perm_middle.append_left _).trans List.perm_middle

theorem tasks_write : (tasks reads ins (outs ++ [a]) closes).Perm
    ((a, .write) :: tasks reads ins outs closes) := by
  simp only [tasks, List.map_append, List.map_cons, List.map_nil, List.append_assoc,
    List.singleton_append]
  refine List.Perm.trans (List.Perm.append_left _ ?_) List.perm_middle
  exact (List.perm_middle.append_left _).trans List.perm_middle

/-- The connections to close come last. -/
theorem tasks_close :
    tasks reads ins outs closes = tasks reads ins outs [] ++ closes.map (·, Task.close) := by
  rw [tasks, tasks, List.map_nil, List.append_nil]

end Queues

/-! ### The invariant -/

/-- The invariant of the loop, in front of the step that `pc` names. -/
structure LoopInv (Allowed : Response → Prop) (outcomes : MallocOutcomes) (pc : WorkerPc)
    (ctx : TsContext) (conns : Heap NetConn) (log : Log) : Prop where
  core : Core Allowed outcomes ctx.hmap conns log
  doable : Doable conns log (agenda pc ctx)
  /-- No event is left for a connection in the agenda. -/
  fresh : ∀ task ∈ agenda pc ctx, ∀ conn, conns.get? task.1 = some conn → conn.fd ∉ eventsLeft pc
  events_nodup : (eventsLeft pc).Nodup
  room : (agenda pc ctx).length + (eventsLeft pc).length ≤ ctx.queuesize
  closes_nodup : ctx.closesQue.Nodup

/-- The loop has taken the connection `a` from its agenda, or from its events. -/
structure Held (Allowed : Response → Prop) (outcomes : MallocOutcomes) (pc : WorkerPc)
    (ctx : TsContext) (conns : Heap NetConn) (log : Log) (a : Addr) : Prop extends
    LoopInv Allowed outcomes pc ctx conns log where
  free : a ∉ (agenda pc ctx).map Prod.fst
  fresh_self : ∀ conn, conns.get? a = some conn → conn.fd ∉ eventsLeft pc
  room_self : (agenda pc ctx).length + (eventsLeft pc).length < ctx.queuesize

section LoopInv
variable {outcomes : MallocOutcomes} {pc : WorkerPc} {ctx ctx' : TsContext}
  {conns conns' : Heap NetConn} {log log' : Log} {a : Addr} {task : Task}

/-- A step that changes neither the agenda nor the events. -/
theorem LoopInv.goto (h : LoopInv Allowed outcomes pc ctx conns log) (pc' : WorkerPc)
    (hagenda : agenda pc' ctx = agenda pc ctx) (hevents : eventsLeft pc' = eventsLeft pc) :
    LoopInv Allowed outcomes pc' ctx conns log where
  core := h.core
  doable := hagenda ▸ h.doable
  fresh := by
    rw [hagenda, hevents]
    exact h.fresh
  events_nodup := hevents ▸ h.events_nodup
  room := by
    rw [hagenda, hevents]
    exact h.room
  closes_nodup := h.closes_nodup

/-- Outcomes of allocations are used up. -/
theorem LoopInv.withOutcomes (h : LoopInv Allowed outcomes pc ctx conns log)
    (rest : MallocOutcomes) (hsub : ∀ outcome ∈ rest, outcome ∈ outcomes) :
    LoopInv Allowed outcomes pc ctx { conns with outcomes := rest } log where
  core := ⟨h.core.mapped, h.core.known, h.core.unborn, hsub⟩
  doable := ⟨h.doable.ready, h.doable.once⟩
  fresh := h.fresh
  events_nodup := h.events_nodup
  room := h.room
  closes_nodup := h.closes_nodup

/-- The next event of `ts_accept`, when no connection has to be queued for it. -/
theorem LoopInv.skip {fd : Fd} {events : List Fd}
    (h : LoopInv Allowed outcomes (.accept (fd :: events)) ctx conns log) :
    LoopInv Allowed outcomes (.accept events) ctx conns log where
  core := h.core
  doable := h.doable
  fresh todo hmem conn hlive hevent :=
    h.fresh todo hmem conn hlive (List.mem_cons_of_mem fd hevent)
  events_nodup := (List.nodup_cons.mp h.events_nodup).2
  room := by
    have hroom := h.room
    simp only [eventsLeft, List.length_cons] at hroom
    exact Nat.le_of_lt hroom
  closes_nodup := h.closes_nodup

/-- The next event of `ts_accept`, for a connection that is not in the agenda. -/
theorem LoopInv.hold {fd : Fd} {events : List Fd}
    (h : LoopInv Allowed outcomes (.accept (fd :: events)) ctx conns log)
    (hfree : a ∉ (agenda (.accept events) ctx).map Prod.fst)
    (hself : ∀ conn, conns.get? a = some conn → conn.fd = fd) :
    Held Allowed outcomes (.accept events) ctx conns log a where
  toLoopInv := h.skip
  free := hfree
  fresh_self conn hlive := by
    rw [hself conn hlive]
    exact (List.nodup_cons.mp h.events_nodup).1
  room_self := by
    have hroom := h.room
    simp only [eventsLeft, List.length_cons] at hroom
    exact hroom

/-- The connections in the agenda are alive. -/
theorem LoopInv.live (h : LoopInv Allowed outcomes pc ctx conns log)
    (hmem : a ∈ (agenda pc ctx).map Prod.fst) : ∃ conn, conns.get? a = some conn := by
  obtain ⟨todo, htodo, rfl⟩ := List.mem_map.mp hmem
  obtain ⟨conn, hlive, -⟩ := h.doable.ready todo htodo
  exact ⟨conn, hlive⟩

/-- The next task of a phase. -/
theorem LoopInv.pop (h : LoopInv Allowed outcomes pc ctx conns log) (pc' : WorkerPc)
    (hagenda : agenda pc ctx = (a, task) :: agenda pc' ctx)
    (hevents : eventsLeft pc' = eventsLeft pc) :
    Held Allowed outcomes pc' ctx conns log a ∧ Ready conns log (a, task) := by
  obtain ⟨hdoable, hfree, hready⟩ := (hagenda ▸ h.doable).pop
  have hroom := h.room
  rw [hagenda, List.length_cons, ← hevents] at hroom
  have hfresh := h.fresh
  rw [hagenda, ← hevents] at hfresh
  -- the first task is the one of `a`, and the facts about the others stay
  obtain ⟨hself, hrest⟩ := List.forall_mem_cons.mp hfresh
  refine ⟨?_, hready⟩
  exact {
    core := h.core, doable := hdoable, fresh := hrest, events_nodup := hevents ▸ h.events_nodup
    room := by omega, closes_nodup := h.closes_nodup, free := hfree, fresh_self := hself
    room_self := by omega }

theorem agenda_hmap (pc : WorkerPc) (ctx : TsContext) (hmap : Hmap Fd Addr) :
    agenda pc { ctx with hmap } = agenda pc ctx := by
  cases pc <;> rfl

/-- A step at the connection that the loop holds. -/
theorem Held.step (h : Held Allowed outcomes pc ctx conns log a)
    (frame : Frame a conns conns' log log') {hmap : Hmap Fd Addr}
    (hcore : Core Allowed outcomes hmap conns' log')
    (hself : ∀ conn, conns'.get? a = some conn → conn.fd ∉ eventsLeft pc) :
    Held Allowed outcomes pc { ctx with hmap } conns' log' a where
  core := hcore
  doable := by
    rw [agenda_hmap]
    exact h.doable.frame h.free frame
  fresh := by
    rw [agenda_hmap]
    intro todo hmem conn hlive
    -- the loop holds `a`, so no task that is left is for it
    have hne : todo.1 ≠ a := by
      rintro rfl
      exact h.free (List.mem_map_of_mem hmem)
    exact h.fresh todo hmem conn ((frame.get? todo.1 hne).symm.trans hlive)
  events_nodup := h.events_nodup
  room := by
    rw [agenda_hmap]
    exact h.room
  closes_nodup := h.closes_nodup
  free := by
    rw [agenda_hmap]
    exact h.free
  fresh_self := hself
  room_self := by
    rw [agenda_hmap]
    exact h.room_self

/-- Work on the connection that the loop holds: it stays alive, with its descriptor. -/
theorem Held.work (h : Held Allowed outcomes pc ctx conns log a)
    (frame : Frame a conns conns' log log') {conn conn' : NetConn}
    (hlive : conns.get? a = some conn) (hlive' : conns'.get? a = some conn')
    (hfd : conn'.fd = conn.fd) (houtcomes : conns'.outcomes = conns.outcomes)
    (hrun : SessionRun Allowed (callsOn log' a) (some conn')) :
    Held Allowed outcomes pc ctx conns' log' a := by
  have hcore : Core Allowed outcomes ctx.hmap conns' log' :=
    h.core.step frame (Heap.lt_next hlive') (h.core.mapped.update hlive hlive' hfd frame.get?)
      (hlive' ▸ hrun) (houtcomes ▸ h.core.outcomes_sub)
  refine h.step frame hcore ?_
  intro c hc
  rw [hlive'] at hc
  cases hc
  rw [hfd]
  exact h.fresh_self conn hlive

/-- The connection goes into a queue. -/
theorem Held.queue (h : Held Allowed outcomes pc ctx conns log a)
    (hready : Ready conns log (a, task))
    (hagenda : (agenda pc ctx').Perm ((a, task) :: agenda pc ctx)) (hhmap : ctx'.hmap = ctx.hmap)
    (hsize : ctx'.queuesize = ctx.queuesize) (hcloses : ctx'.closesQue.Nodup) :
    LoopInv Allowed outcomes pc ctx' conns log where
  core := hhmap ▸ h.core
  doable := (h.doable.cons h.free hready).perm hagenda
  fresh todo hmem := by
    rcases List.mem_cons.mp (hagenda.mem_iff.mp hmem) with rfl | hmem
    · exact h.fresh_self
    · exact h.fresh todo hmem
  events_nodup := h.events_nodup
  room := by
    have hroom := h.room_self
    rw [hagenda.length_eq, List.length_cons, hsize]
    omega
  closes_nodup := hcloses

end LoopInv

/-! ### One step -/

/-- What one step of a worker can be. -/
inductive WorkerStep (epfds : List Fd) (answers : Answers) (w : Worker) (k : Kernel) :
    Worker → Kernel → Prop where
  /-- The thread goes on, with what it has. -/
  | goto {pc : WorkerPc} (hagenda : agenda pc w.ctx = agenda w.pc w.ctx)
      (hevents : eventsLeft pc = eventsLeft w.pc) :
      WorkerStep epfds answers w k { w with pc } k
  /-- The allocation of the array of events. -/
  | start {pc : WorkerPc} {outcomes : MallocOutcomes} (hstart : w.pc = .start)
      (hnext : pc = .test ∨ pc = .exited) :
      WorkerStep epfds answers w k { w with conns := { w.conns with outcomes }, pc } k
  /-- A new batch of events. -/
  | wait {events : List Fd} (hpc : w.pc = .wait) (hwait : answers.wait = some events) :
      WorkerStep epfds answers w k
        { w with ctx := tsReset w.ctx, pc := .accept (events.take w.ctx.queuesize) } k
  | accept {fd : Fd} {events : List Fd} {w' : Worker} {k' : Kernel}
      (hpc : w.pc = .accept (fd :: events))
      (hrun : tsAccept epfds w k fd answers.accept = .ok (w', k')) :
      WorkerStep epfds answers w k { w' with pc := .accept events } k'
  | read {a : Addr} {que : List Addr} {w' : Worker} (hpc : w.pc = .read (a :: que))
      (hrun : tsRead w a answers.read = .ok w') :
      WorkerStep epfds answers w k { w' with pc := .read que } k
  | process {a : Addr} {packet : List UInt8} {que : List (Addr × List UInt8)} {w' : Worker}
      (hpc : w.pc = .process ((a, packet) :: que))
      (hrun : tsProcess w a packet answers.response = .ok w') :
      WorkerStep epfds answers w k { w' with pc := .process que } k
  | write {a : Addr} {que : List Addr} {w' : Worker} {k' : Kernel} (hpc : w.pc = .write (a :: que))
      (hrun : tsWrite w k a answers = .ok (w', k')) :
      WorkerStep epfds answers w k { w' with pc := .write que } k'
  | close {a : Addr} {que : List Addr} {w' : Worker} {k' : Kernel} (hpc : w.pc = .close (a :: que))
      (hrun : tsClose w k a = .ok (w', k')) :
      WorkerStep epfds answers w k { w' with pc := .close que } k'

/-- Every step that returns is one of them. -/
theorem workerStep_cases {epfds : List Fd} {stopping : Bool} {answers : Answers} {w w' : Worker}
    {k k' : Kernel} (h : workerStep epfds stopping w k answers = .ok (w', k')) :
    WorkerStep epfds answers w k w' k' := by
  -- one case for each place of the thread, and for each queue whether it is empty
  obtain ⟨ctx, conns, pc, log⟩ := w
  cases pc with
  | start =>
      cases hmalloc : malloc conns.outcomes with
      | mk ok outcomes =>
          simp only [workerStep, hmalloc] at h
          cases h
          refine .start rfl ?_
          cases ok with
          | true => exact Or.inl rfl
          | false => exact Or.inr rfl
  | test =>
      cases h
      cases stopping with
      | true => exact .goto rfl rfl
      | false => exact .goto rfl rfl
  | wait =>
      cases hwait : answers.wait with
      | none =>
          simp only [workerStep, hwait] at h
          cases h
          exact .goto rfl rfl
      | some events =>
          simp only [workerStep, hwait] at h
          cases h
          exact .wait rfl hwait
  | accept events =>
      cases events with
      | nil =>
          cases h
          exact .goto rfl rfl
      | cons fd events =>
          obtain ⟨⟨w₁, k₁⟩, hrun, h⟩ := bind_eq_ok.mp h
          cases h
          exact .accept rfl hrun
  | read que =>
      cases que with
      | nil =>
          cases h
          exact .goto rfl rfl
      | cons a que =>
          obtain ⟨w₁, hrun, h⟩ := bind_eq_ok.mp h
          cases h
          exact .read rfl hrun
  | process que =>
      cases que with
      | nil =>
          cases h
          exact .goto rfl rfl
      | cons entry que =>
          obtain ⟨w₁, hrun, h⟩ := bind_eq_ok.mp h
          cases h
          exact .process rfl hrun
  | write que =>
      cases que with
      | nil =>
          cases h
          exact .goto rfl rfl
      | cons a que =>
          obtain ⟨⟨w₁, k₁⟩, hrun, h⟩ := bind_eq_ok.mp h
          cases h
          exact .write rfl hrun
  | close que =>
      cases que with
      | nil =>
          cases h
          exact .goto rfl rfl
      | cons a que =>
          obtain ⟨⟨w₁, k₁⟩, hrun, h⟩ := bind_eq_ok.mp h
          cases h
          exact .close rfl hrun
  | exited =>
      cases h
      exact .goto rfl rfl

end MustDb.Proofs.Libv
