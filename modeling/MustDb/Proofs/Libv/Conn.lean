import MustDb.Libv.Conn
import MustDb.Proofs.Libv.Echo

/-!
# `MustDb.Proofs.Libv.Conn`: the application of `net_listen`

A worker with `ev_opened`, `ev_process` and `ev_closed`. The protocol of the callbacks is what the
application rests on: `opened` is the first call on a connection and the only one, and `closed`
comes at most once, behind it. So each `struct Conn` is allocated once, freed at most once, and
there is one for each live connection (`Holds`). On the wire, each packet is answered with one
`"Ok\n"`.

The connections that are live when the worker leaves its loop are not closed, and their objects
stay. The one fault of the application is a failed `malloc` in `ev_opened`, which does not check it.
-/

set_option autoImplicit false

namespace MustDb.Proofs.Libv

open MustDb.Lib
open MustDb.Libv

/-- One step of a worker of `net_listen`, and its callbacks. -/
def listenStep (s : Worker × ConnApp) (turn : HandlerTurn) : Except Fault (Worker × ConnApp) := do
  let w ← handlerStep evProcess s.1 turn
  let app ← (w.log.drop s.1.log.length).foldlM evCall s.2
  return (w, app)

/-- The `struct Conn` of a connection. -/
def connOf (a : Addr) : Conn := { Conn.zero with conn5 := a }

/-! ### The objects -/

/-- There is one object for each connection between its `opened` and its `closed`, and no other. -/
structure Holds (log : Log) (app : ConnApp) : Prop where
  live : ∀ a, Talks (callsOn log a) →
    ∃ addr, app.udata a = some addr ∧ app.conns.get? addr = some (connOf a)
  only : ∀ addr conn, app.conns.get? addr = some conn →
    Talks (callsOn log conn.conn5) ∧ app.udata conn.conn5 = some addr

variable {log : Log} {app : ConnApp} {a : Addr}

theorem not_talks_nil : ¬ Talks [] := by
  rintro ⟨calls, -, hnil⟩
  cases hnil

/-- Behind `closed` a connection is at its end. -/
theorem not_talks_closed (calls : List ConnEvent) : ¬ Talks (calls ++ [.closed, .closeFd]) := by
  rintro ⟨between, hbetween, heq⟩
  have hmem : ConnEvent.closed ∈ ConnEvent.opened :: between := by
    rw [← heq]
    simp
  rcases List.mem_cons.mp hmem with hfirst | hrest
  · cases hfirst
  · exact (hbetween _ hrest).2.1 rfl

/-- `opened` is the first call. -/
theorem eq_nil_of_opened {calls : List ConnEvent} (h : FollowsProtocol (calls ++ [.opened])) :
    calls = [] := by
  rcases h with ⟨between, hbetween, heq⟩ | ⟨before, -, heq⟩
  · cases calls with
    | nil => rfl
    | cons first calls =>
        have hmem : ConnEvent.opened ∈ between := by
          rw [← (List.cons.inj heq).2]
          simp
        exact absurd rfl (hbetween _ hmem).1
  · have hlast := congrArg List.getLast? heq
    simp at hlast

/-- `closed` comes in a connection that talks. -/
theorem talks_of_closed {calls : List ConnEvent}
    (h : FollowsProtocol (calls ++ [.closed, .closeFd])) : Talks calls := by
  rcases h with htalks | ⟨before, htalks, heq⟩
  · exact absurd htalks (not_talks_closed calls)
  · rwa [List.append_cancel_right heq]

/-- The calls between `opened` and `closed` leave a connection where it is. -/
theorem talks_append_iff {calls between : List ConnEvent} (hnil : calls ≠ [])
    (hbetween : ∀ event ∈ between, Between event) : Talks (calls ++ between) ↔ Talks calls := by
  constructor
  · rintro ⟨rest, hrest, heq⟩
    cases calls with
    | nil => exact absurd rfl hnil
    | cons first calls =>
        obtain ⟨rfl, htail⟩ := List.cons.inj heq
        refine ⟨calls, fun event hmem => hrest event ?_, rfl⟩
        rw [← htail]
        exact List.mem_append_left _ hmem
  · rintro ⟨rest, hrest, rfl⟩
    refine ⟨rest ++ between, fun event hmem => ?_, rfl⟩
    rcases List.mem_append.mp hmem with hmem | hmem
    · exact hrest event hmem
    · exact hbetween event hmem

/-- Two connections have two objects. -/
theorem connOf_inj {b : Addr} (h : connOf a = connOf b) : a = b := congrArg Conn.conn5 h

/-- The fault of a `malloc` that failed. -/
def MallocFailed (outcomes : MallocOutcomes) (fault : Fault) : Prop :=
  fault = .nullPointer ∧ false ∈ outcomes

/-- What a callback leaves, or the fault of a `malloc` that failed. -/
def KeepsOrFails (outcomes : MallocOutcomes) (log : Log) (x : Except Fault ConnApp) : Prop :=
  OkOr (MallocFailed outcomes) x fun app =>
    Holds log app ∧ ∀ outcome ∈ app.conns.outcomes, outcome ∈ outcomes

/-- `ev_opened` with memory. -/
theorem evOpened_ok (hok : (malloc app.conns.outcomes).1 = true) :
    evOpened app a = .ok
      { conns := { app.conns.push (connOf a) with outcomes := (malloc app.conns.outcomes).2 }
        udata := Function.update app.udata a (some app.conns.next) } := by
  have hput : app.conns.cells.length = app.conns.next := rfl
  rw [evOpened, Heap.alloc_of_true hok]
  simp only [netConnSetudata, Heap.put, Heap.push, connOf, ← hput, List.set_append_right _ _
    (Nat.le_refl _), Nat.sub_self, List.set_cons_zero]

/-- `ev_opened` on a new connection. -/
theorem Holds.opened (h : Holds log app) (hnew : callsOn log a = []) :
    KeepsOrFails app.conns.outcomes (log ++ [.opened].map fun call => (a, call))
      (evOpened app a) := by
  cases hok : (malloc app.conns.outcomes).1 with
  | false =>
      rw [evOpened, Heap.alloc_of_false hok]
      exact ⟨rfl, false_mem_of_malloc hok⟩
  | true =>
      rw [evOpened_ok hok]
      have hself : callsOn (log ++ [ConnEvent.opened].map fun call => (a, call)) a = [.opened] := by
        rw [callsOn_record, hnew, List.nil_append]
      have hother := fun b (hb : b ≠ a) => callsOn_record_of_ne log hb [ConnEvent.opened]
      refine ⟨⟨?_, ?_⟩, fun outcome => mem_of_mem_malloc⟩
      case refine_1 =>
          intro b hb
          by_cases hba : b = a
          case pos =>
              subst hba
              exact ⟨app.conns.next, Function.update_self .., Heap.get?_push_next _ _⟩
          case neg =>
              rw [hother b hba] at hb
              obtain ⟨addr, hudata, hconn⟩ := h.live b hb
              exact ⟨addr, (Function.update_of_ne hba _ _).trans hudata,
                Heap.get?_push_of_get? hconn _⟩
      case refine_2 =>
          intro addr conn hconn
          by_cases haddr : addr = app.conns.next
          case pos =>
              subst haddr
              cases (Heap.get?_push_next app.conns (connOf a)).symm.trans hconn
              refine ⟨?_, Function.update_self ..⟩
              show Talks (callsOn _ a)
              rw [hself]
              exact ⟨[], fun _ hmem => absurd hmem List.not_mem_nil, rfl⟩
          case neg =>
              have hold := (Heap.get?_push_of_ne haddr (connOf a)).symm.trans hconn
              obtain ⟨htalks, hudata⟩ := h.only addr conn hold
              have hne : conn.conn5 ≠ a := by
                intro heq
                rw [heq, hnew] at htalks
                exact not_talks_nil htalks
              rw [hother _ hne]
              exact ⟨htalks, (Function.update_of_ne hne _ _).trans hudata⟩

/-- `ev_closed` on a connection that talks. -/
theorem Holds.closed (h : Holds log app) (htalks : Talks (callsOn log a)) :
    KeepsOrFails app.conns.outcomes (log ++ [.closed, .closeFd].map fun call => (a, call))
      (evClosed app a) := by
  obtain ⟨addr, hudata, hconn⟩ := h.live a htalks
  have hself := callsOn_record log a [ConnEvent.closed, .closeFd]
  have hother := fun b (hb : b ≠ a) => callsOn_record_of_ne log hb [ConnEvent.closed, .closeFd]
  simp only [evClosed, hudata, hconn, Heap.free_put]
  refine ⟨⟨?_, ?_⟩, fun outcome hmem => hmem⟩
  case refine_1 =>
      intro b hb
      have hba : b ≠ a := by
        rintro rfl
        rw [hself] at hb
        exact not_talks_closed _ hb
      rw [hother b hba] at hb
      obtain ⟨addr', hudata', hconn'⟩ := h.live b hb
      have haddr : addr' ≠ addr := by
        rintro rfl
        exact hba (connOf_inj (Option.some.inj (hconn'.symm.trans hconn)))
      exact ⟨addr', hudata', (Heap.get?_free_of_ne haddr).trans hconn'⟩
  case refine_2 =>
      intro addr' conn hconn'
      have haddr : addr' ≠ addr := by
        rintro rfl
        rw [Heap.get?_free_self] at hconn'
        cases hconn'
      have hold := (Heap.get?_free_of_ne haddr).symm.trans hconn'
      obtain ⟨htalks', hudata'⟩ := h.only addr' conn hold
      have hne : conn.conn5 ≠ a := by
        intro heq
        rw [heq] at hudata'
        exact haddr (Option.some.inj (hudata'.symm.trans hudata))
      rw [hother _ hne]
      exact ⟨htalks', hudata'⟩

/-- The calls between `opened` and `closed` leave the application as it is. -/
theorem Holds.between (h : Holds log app) {calls : List ConnEvent}
    (hnil : callsOn log a ≠ []) (hbetween : ∀ event ∈ calls, Between event) :
    Holds (log ++ calls.map fun call => (a, call)) app := by
  have hiff : ∀ b, Talks (callsOn (log ++ calls.map fun call => (a, call)) b)
      ↔ Talks (callsOn log b) := by
    intro b
    by_cases hba : b = a
    case pos =>
        subst hba
        rw [callsOn_record]
        exact talks_append_iff hnil hbetween
    case neg => rw [callsOn_record_of_ne log hba]
  refine ⟨fun b hb => h.live b ((hiff b).mp hb), fun addr conn hconn => ?_⟩
  obtain ⟨htalks, hudata⟩ := h.only addr conn hconn
  exact ⟨(hiff _).mpr htalks, hudata⟩

/-- A call between `opened` and `closed` is none of the two callbacks. -/
theorem evCall_between {event : ConnEvent} (hbetween : Between event) :
    evCall app (a, event) = .ok app := by
  cases event with
  | opened => exact absurd rfl hbetween.1
  | closed => exact absurd rfl hbetween.2.1
  | read _ | process _ _ | write _ _ _ | closeFd => rfl

theorem evCalls_between {calls : List ConnEvent} (hbetween : ∀ event ∈ calls, Between event) :
    (calls.map fun call => (a, call)).foldlM evCall app = .ok app := by
  induction calls with
  | nil => rfl
  | cons event calls ih =>
      have hrest := ih fun event hmem => hbetween event (List.mem_cons_of_mem _ hmem)
      rw [List.map_cons, List.foldlM_cons, evCall_between (hbetween event List.mem_cons_self)]
      exact hrest

/-! ### One step -/

/-- The calls of one step: one of the two callbacks, or calls between them. -/
theorem StepCalls.kind {answers : Answers} {pc : WorkerPc} {calls : List ConnEvent}
    {packets packets' : List (Addr × List UInt8)}
    (h : StepCalls answers pc a calls packets packets') :
    calls = [.opened] ∨ calls = [.closed, .closeFd] ∨ ∀ event ∈ calls, Between event := by
  cases h with
  | none => exact .inr (.inr fun _ hmem => absurd hmem List.not_mem_nil)
  | opened => exact .inl rfl
  | ended _ _ | packet _ =>
      refine .inr (.inr fun event hmem => ?_)
      rw [List.mem_singleton.mp hmem]
      simp [Between]
  | handed packet _ _ =>
      refine .inr (.inr fun event hmem => ?_)
      rw [List.mem_singleton.mp hmem]
      simp [Between]
  | flushed conn =>
      refine .inr (.inr fun event hmem => ?_)
      obtain ⟨c, answer, rfl⟩ := mem_flushConn hmem
      exact between_write c answer
  | closed => exact .inr (.inl rfl)

/-- The callbacks of a step, by the protocol of its connection. -/
theorem Holds.calls (h : Holds log app) {calls : List ConnEvent}
    (hkind : calls = [.opened] ∨ calls = [.closed, .closeFd] ∨ ∀ event ∈ calls, Between event)
    (hprotocol : callsOn log a ++ calls ≠ [] → FollowsProtocol (callsOn log a ++ calls)) :
    KeepsOrFails app.conns.outcomes (log ++ calls.map fun call => (a, call))
      ((calls.map fun call => (a, call)).foldlM evCall app) := by
  rcases hkind with rfl | rfl | hbetween
  · have hnew := eq_nil_of_opened (hprotocol (by simp))
    have hrun : ([ConnEvent.opened].map fun call => (a, call)).foldlM evCall app
        = evOpened app a := bind_pure _
    rw [hrun]
    exact h.opened hnew
  · have htalks := talks_of_closed (hprotocol (by simp))
    have hrun : ([ConnEvent.closed, .closeFd].map fun call => (a, call)).foldlM evCall app
        = evClosed app a := bind_pure _
    rw [hrun]
    exact h.closed htalks
  · rw [evCalls_between hbetween]
    refine ⟨?_, fun outcome hmem => hmem⟩
    cases calls with
    | nil =>
        rw [List.map_nil, List.append_nil]
        exact h
    | cons event calls =>
        -- `opened` was before them
        have hnil : callsOn log a ≠ [] := by
          intro hnil
          rw [hnil] at hprotocol
          rcases hprotocol (by simp) with ⟨rest, -, heq⟩ | ⟨before, ⟨rest, -, rfl⟩, heq⟩
          · exact (hbetween event List.mem_cons_self).1 (List.cons.inj heq).1
          · exact (hbetween event List.mem_cons_self).1 (List.cons.inj heq).1
        exact h.between hnil hbetween

variable {reply : List UInt8 → List UInt8} {outcomes connOutcomes : MallocOutcomes}

/-- Every connection follows the protocol. -/
theorem HandlerInv.followsProtocol {w : Worker} (h : HandlerInv reply outcomes w)
    (hcalls : callsOn w.log a ≠ []) : FollowsProtocol (callsOn w.log a) := by
  rcases h.loop.core.known a with ⟨hnil, -⟩ | hsession
  · exact absurd hnil hcalls
  · exact hsession.followsProtocol

/-- A connection is live between its `opened` and its `closed`. -/
theorem HandlerInv.live_iff {w : Worker} (h : HandlerInv reply outcomes w) (a : Addr) :
    (w.conns.get? a).isSome ↔ Talks (callsOn w.log a) := by
  rcases h.loop.core.known a with ⟨hnil, hnone⟩ | hsession
  · rw [hnil, hnone]
    exact ⟨fun hfalse => (Bool.false_ne_true hfalse).elim,
      fun htalks => (not_talks_nil htalks).elim⟩
  · cases hlive : w.conns.get? a with
    | some conn =>
        rw [hlive] at hsession
        have htalks := hsession.talks
        exact ⟨fun _ => htalks, fun _ => rfl⟩
    | none =>
        rw [hlive] at hsession
        obtain ⟨before, -, heq⟩ := hsession.talks
        rw [heq]
        exact ⟨fun hfalse => (Bool.false_ne_true hfalse).elim,
          fun htalks => (not_talks_closed _ htalks).elim⟩

/-- The worker and its application. -/
def ListenInv (outcomes connOutcomes : MallocOutcomes) (s : Worker × ConnApp) : Prop :=
  HandlerInv (fun _ => OK_RESPONSE) outcomes s.1 ∧ Holds s.1.log s.2 ∧
    ∀ outcome ∈ s.2.conns.outcomes, outcome ∈ connOutcomes

/-- The step lemma: a step keeps the invariant, or a `malloc` of `ev_opened` failed. -/
theorem ListenInv.step {s : Worker × ConnApp} (h : ListenInv outcomes connOutcomes s)
    {turn : HandlerTurn} (hturn : ∀ events, turn.answers.wait = some events → events.Nodup) :
    OkOr (MallocFailed connOutcomes) (listenStep s turn) (ListenInv outcomes connOutcomes) := by
  obtain ⟨hworker, hholds, hsub⟩ := h
  obtain ⟨w', hstep, hinv⟩ := hworker.step evProcess_replies hturn
  obtain ⟨⟨next, k⟩, hrun, hnext⟩ :=
    bind_eq_ok.mp ((handlerStep_eq evProcess_replies.fd_eq s.1 turn).symm.trans hstep)
  cases hnext
  obtain ⟨a, calls, hlog, hcalls⟩ := workerStep_calls (workerStep_cases hrun)
  have hprotocol : callsOn s.1.log a ++ calls ≠ [] →
      FollowsProtocol (callsOn s.1.log a ++ calls) := by
    rw [← callsOn_record, ← hlog]
    exact hinv.followsProtocol
  have hkeeps := hholds.calls hcalls.kind hprotocol
  have hnew : w'.log.drop s.1.log.length = calls.map fun call => (a, call) := by
    rw [hlog, List.drop_left]
  rw [listenStep, hstep, ok_bind, hnew]
  cases happ : (calls.map fun call => (a, call)).foldlM evCall s.2 with
  | error fault =>
      rw [happ] at hkeeps
      exact ⟨hkeeps.1, hsub _ hkeeps.2⟩
  | ok app =>
      rw [happ] at hkeeps
      refine ⟨hinv, ?_, fun outcome hmem => hsub _ (hkeeps.2 outcome hmem)⟩
      rw [← hlog] at hkeeps
      exact hkeeps.1

/-! ### The runs -/

/-- The bytes of `n` responses. -/
def okResponses (n : Nat) : List UInt8 := (List.replicate n OK_RESPONSE).flatten

theorem replies_ok (log : List ConnEvent) :
    replies (fun _ => OK_RESPONSE) log = okResponses (packets log).length := by
  rw [replies, okResponses, List.flatMap_def, List.map_const']

/-- What a worker of `net_listen` and its application have at each moment. -/
structure ListenResult (w : Worker) (app : ConnApp) : Prop where
  /-- The socket took the first bytes of one response for each packet. -/
  sent_prefix : ∀ a, sent (callsOn w.log a) <+: okResponses (packets (callsOn w.log a)).length
  /-- The others are in the buffer of the connection, while it is not to be closed. -/
  sent_all : ∀ a conn, w.conns.get? a = some conn → conn.closed = false →
    okResponses (packets (callsOn w.log a)).length = sent (callsOn w.log a) ++ unsent conn
  /-- A live connection has its object. -/
  live : ∀ a, (w.conns.get? a).isSome →
    ∃ addr, app.udata a = some addr ∧ app.conns.get? addr = some (connOf a)
  /-- There is no other object. -/
  only : ∀ addr conn, app.conns.get? addr = some conn →
    (w.conns.get? conn.conn5).isSome ∧ app.udata conn.conn5 = some addr

theorem ListenInv.result {w : Worker} {app : ConnApp}
    (h : ListenInv outcomes connOutcomes (w, app)) : ListenResult w app where
  sent_prefix a := by
    rw [← replies_ok]
    exact HandlerInv.sent_prefix h.1 a
  sent_all a conn hlive hopen := by
    rw [← replies_ok]
    exact h.1.replies_eq hlive hopen
  live a hlive := h.2.1.live a ((h.1.live_iff a).mp hlive)
  only addr conn hconn := by
    obtain ⟨htalks, hudata⟩ := h.2.1.only addr conn hconn
    exact ⟨(h.1.live_iff _).mpr htalks, hudata⟩

end MustDb.Proofs.Libv
