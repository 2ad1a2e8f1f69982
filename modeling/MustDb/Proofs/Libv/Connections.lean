import MustDb.Proofs.Libv.EventLoop

/-!
# `MustDb.Proofs.Libv.Connections`: every connection of a worker

The two properties of a session hold for every connection, in every run of a worker from
`init_tscontext` on. `callback_protocol` is about the order of the callbacks, and
`responses_in_order` is about the bytes.

A run is a list of turns, one for each step of the thread. The other threads, the kernel and the
`process` callback are in the turns, so a statement about all turns is about every schedule and
every answer of a system call.
-/

set_option autoImplicit false

namespace MustDb.Proofs.Libv

open MustDb.Lib
open MustDb.Libv

variable {Allowed : Response → Prop} {outcomes : MallocOutcomes}

/-- A new worker, when `hmap_init` got its memory. -/
theorem inv_init (Allowed : Response → Prop) (epfd wakeFd listenFd : Fd)
    (index queuesize nthreads : Nat) (outcomes : MallocOutcomes)
    (hmem : (hmapInitInt Addr outcomes).1.buckets ≠ []) :
    InvAt Allowed outcomes (Worker.init epfd wakeFd listenFd index queuesize nthreads outcomes).pc
      (Worker.init epfd wakeFd listenFd index queuesize nthreads outcomes) where
  core :=
    { mapped := ⟨∅, represents_init lawfulKeys_int _ outcomes (by decide) hmem,
        fun fd a h => by simp at h, fun _ a conn h => by simp [Worker.init, Heap.get?] at h⟩
      known := fun a => Or.inl ⟨rfl, by simp [Worker.init, Heap.get?]⟩
      unborn := fun _ _ => rfl
      outcomes_sub := fun outcome houtcome => by
        have hcalloc : outcome ∈ (calloc HMAP_DEFAULT_NBUCKETS POINTER_SIZE outcomes).2 := houtcome
        exact mem_of_mem_calloc hcalloc }
  doable := ⟨fun _ hmem => absurd hmem List.not_mem_nil, List.nodup_nil⟩
  fresh _ hmem := absurd hmem List.not_mem_nil
  events_nodup := List.nodup_nil
  room := Nat.zero_le _
  closes_nodup := List.nodup_nil

/-- Every run of a worker returns, and the invariant holds at its end. -/
theorem run_inv (hallowed : ∀ response, Allowed response → response.bgctx = false) {w : Worker}
    (h : InvAt Allowed outcomes w.pc w) {turns : List Turn}
    (hturns : ∀ turn ∈ turns, LegalTurn Allowed turn) :
    ∃ w', run loopStep w turns = .ok w' ∧ InvAt Allowed outcomes w'.pc w' :=
  run_total (fun w => InvAt Allowed outcomes w.pc w)
    (fun w turn h hturn => loopStep_ok hallowed w turn h hturn) turns w h
    (guarded_of_forall hturns w)

/-! ### A worker without a map -/

/-- When `hmap_init` has failed, no connection is ever opened. -/
structure Barren (w : Worker) : Prop where
  buckets_nil : w.ctx.hmap.buckets = []
  agenda_nil : agenda w.pc w.ctx = []
  get?_none : ∀ a, w.conns.get? a = none
  log_nil : w.log = []

theorem hmapGetValue_of_nil {hm : Hmap Fd Addr} (h : hm.buckets = []) (fd : Fd) :
    ∃ fault, hmapGetValue hm fd = .error fault := by
  rw [hmapGetValue, hmapGet, hmapBucketIndex]
  -- no buckets: the index divides by zero, or the array is `NULL`
  split
  · exact ⟨.divisionByZero, rfl⟩
  · refine ⟨.nullPointer, ?_⟩
    rw [ok_bind, hmapChain, h]
    rfl

theorem Barren.goto {w : Worker} (h : Barren w) {pc : WorkerPc}
    (hagenda : agenda pc w.ctx = agenda w.pc w.ctx) : Barren { w with pc } where
  buckets_nil := h.buckets_nil
  agenda_nil := hagenda.trans h.agenda_nil
  get?_none := h.get?_none
  log_nil := h.log_nil

/-- The first event that is not a wake-up is a fault. -/
theorem Barren.tsAccept {w w' : Worker} {epfds : List Fd} {k k' : Kernel} {fd : Fd}
    {answer : AcceptAnswer} (h : Barren w) (hstep : tsAccept epfds w k fd answer = .ok (w', k')) :
    w' = w := by
  rw [Libv.tsAccept] at hstep
  split at hstep
  · cases hstep
    rfl
  · -- the code asks the map before it looks at the kind of the descriptor
    obtain ⟨fault, hfault⟩ := hmapGetValue_of_nil h.buckets_nil fd
    rw [hfault] at hstep
    cases hstep

theorem Barren.step {w w' : Worker} {turn : Turn} (h : Barren w)
    (hstep : loopStep w turn = .ok w') : Barren w' := by
  obtain ⟨⟨next, k⟩, hworker, hnext⟩ := bind_eq_ok.mp hstep
  cases hnext
  have hagenda := h.agenda_nil
  cases workerStep_cases hworker with
  | goto hsame hevents => exact h.goto hsame
  | start hstart hnext =>
      refine ⟨h.buckets_nil, ?_, h.get?_none, h.log_nil⟩
      rcases hnext with rfl | rfl
      · rfl
      · rfl
  | wait hpc hwait => exact ⟨h.buckets_nil, rfl, h.get?_none, h.log_nil⟩
  | accept hpc hrun =>
      rw [h.tsAccept hrun]
      rw [hpc] at hagenda
      exact ⟨h.buckets_nil, hagenda, h.get?_none, h.log_nil⟩
  -- the other phases have no connection to work on
  | read hpc hrun =>
      rw [hpc] at hagenda
      cases hagenda
  | process hpc hrun =>
      rw [hpc] at hagenda
      cases hagenda
  | write hpc hrun =>
      rw [hpc] at hagenda
      cases hagenda
  | close hpc hrun =>
      rw [hpc] at hagenda
      cases hagenda

/-- A new worker, when `hmap_init` got no memory. -/
theorem barren_init (epfd wakeFd listenFd : Fd) (index queuesize nthreads : Nat)
    {outcomes : MallocOutcomes} (hmem : (hmapInitInt Addr outcomes).1.buckets = []) :
    Barren (Worker.init epfd wakeFd listenFd index queuesize nthreads outcomes) :=
  ⟨hmem, rfl, fun a => by simp [Worker.init, Heap.get?], rfl⟩

/-! ### The results -/

/-- A connection from its first event to the end of its input. The response of three bytes takes two
iterations, since the first `write` takes one byte of it. -/
def oneConnection : List Turn :=
  ([{}, {}, { wait := some [5] }, {}, {}, { read := .data [1] }, {},
    { response := ⟨[7, 8, 9], 3, 4, 0, false, false⟩ }, {}, { writes := [.count 1, .again] }, {},
    {}, {}, { wait := some [5] }, {}, {}, {}, {}, { writes := [.count 2] }, {}, {},
    {}, { wait := some [5] }, {}, {}, { read := .data [] }, {}, {}, {}, {}, {}] : List Answers).map
    fun answers => ⟨[3], false, ⟨[], [], 0⟩, answers⟩

/-- The calls on it. -/
def oneConnectionCalls : List ConnEvent :=
  [.opened, .read (.data [1]), .process [1] ⟨[7, 8, 9], 3, 4, 0, false, false⟩, .write 0 3 [7],
    .write 1 2 [], .write 1 2 [8, 9], .read (.data []), .closed, .closeFd]

theorem oneConnection_legal : ∀ turn ∈ oneConnection, LegalTurn FromStart turn := by
  have hchecked : ∀ turn ∈ oneConnection, (∀ events ∈ turn.answers.wait, events.Nodup) ∧
      turn.answers.response.outoff = 0 ∧
      turn.answers.response.outlen ≤ turn.answers.response.out.length ∧
      turn.answers.response.bgctx = false := by
    decide
  intro turn hmem
  obtain ⟨hnodup, hresponse⟩ := hchecked turn hmem
  exact ⟨fun events hwait => hnodup events hwait, hresponse⟩

theorem run_oneConnection :
    ∃ w, run loopStep (Worker.init 3 4 2 0 8 1 []) oneConnection = .ok w ∧
      callsOn w.log 0 = oneConnectionCalls := by
  have hlog : (run loopStep (Worker.init 3 4 2 0 8 1 []) oneConnection).toOption.map (·.log)
      = some (oneConnectionCalls.map fun event => (0, event)) := by
    decide
  obtain ⟨w, hw, heq⟩ := Option.map_eq_some_iff.mp hlog
  have hrecord := callsOn_record [] 0 oneConnectionCalls
  rw [List.nil_append, ← heq] at hrecord
  exact ⟨w, toOption_eq_some.mp hw, hrecord⟩

/-- The callbacks of every connection come in the order of the protocol. No run uses a connection
after its end, and `closes_que` never has a connection twice. Connections that are open at the same
time have different descriptors. -/
theorem callback_protocol (epfd wakeFd listenFd : Fd) (index queuesize nthreads : Nat)
    {turns : List Turn}
    (hturns : ∀ turn ∈ turns, LegalTurn (fun response => response.bgctx = false) turn) :
    ∃ w, run loopStep (Worker.init epfd wakeFd listenFd index queuesize nthreads []) turns = .ok w ∧
      (∀ a, callsOn w.log a = [] ∨ FollowsProtocol (callsOn w.log a)) ∧
      w.ctx.closesQue.Nodup ∧
      ∀ a b conn conn', w.conns.get? a = some conn → w.conns.get? b = some conn' →
        conn.fd = conn'.fd → a = b := by
  -- `[]` are the outcomes of allocations that all succeed
  have hinit := inv_init (fun response => response.bgctx = false) epfd wakeFd listenFd index
    queuesize nthreads [] (by decide)
  obtain ⟨w, hrun, hinv⟩ := run_inv (fun _ hresponse => hresponse) hinit hturns
  refine ⟨w, hrun, ?_, hinv.closes_nodup, ?_⟩
  · intro a
    rcases hinv.core.known a with ⟨hnil, -⟩ | hsession
    · exact Or.inl hnil
    · exact Or.inr hsession.followsProtocol
  · -- both connections are what the map has for their descriptor
    intro a b conn conn' ha hb hfd
    obtain ⟨m, -, -, hall⟩ := hinv.core.mapped
    have hentry := hall List.not_mem_nil a conn ha
    rw [hfd, hall List.not_mem_nil b conn' hb] at hentry
    exact (Option.some.inj hentry).symm

/-- The protocol of one connection. -/
theorem callback_protocol_one_connection :
    ∃ w, run loopStep (Worker.init 3 4 2 0 8 1 []) oneConnection = .ok w ∧
      callsOn w.log 0 = oneConnectionCalls ∧ FollowsProtocol (callsOn w.log 0) := by
  obtain ⟨w, hrun, hprotocol, -⟩ := callback_protocol 3 4 2 0 8 1 fun turn hmem =>
    ⟨(oneConnection_legal turn hmem).wait_nodup, (oneConnection_legal turn hmem).allowed.2.2⟩
  obtain ⟨w', hrun', hcalls⟩ := run_oneConnection
  cases hrun.symm.trans hrun'
  refine ⟨w, hrun, hcalls, ?_⟩
  rcases hprotocol 0 with hnil | hprotocol
  · rw [hcalls] at hnil
    cases hnil
  · exact hprotocol

/-- The bytes that the socket of a connection took are always the first bytes of the responses, in
the order of the calls of `process`. `process` is not called while a response is not sent, and
`outoff` stays behind `outlen`. -/
theorem responses_in_order (epfd wakeFd listenFd : Fd) (index queuesize nthreads : Nat)
    (outcomes : MallocOutcomes) {turns : List Turn}
    (hturns : ∀ turn ∈ turns, LegalTurn FromStart turn) {w : Worker}
    (hrun : run loopStep (Worker.init epfd wakeFd listenFd index queuesize nthreads outcomes) turns
      = .ok w) :
    (∀ a, InOrder (callsOn w.log a)) ∧
      ∀ a conn, w.conns.get? a = some conn → conn.outoff ≤ conn.outlen := by
  by_cases hmem : (hmapInitInt Addr outcomes).1.buckets = []
  · -- without a map the first connection would be a fault
    have hinit := barren_init epfd wakeFd listenFd index queuesize nthreads hmem
    -- so the log of every run is empty
    have hbarren := run_invariant Barren (fun _ _ _ h _ hstep => h.step hstep) turns _ w hinit
      (guarded_of_forall hturns _) hrun
    refine ⟨fun a => ?_, fun a conn hlive => ?_⟩
    · rw [hbarren.log_nil]
      exact inOrder_nil
    · rw [hbarren.get?_none] at hlive
      cases hlive
  · have hinit := inv_init FromStart epfd wakeFd listenFd index queuesize nthreads outcomes hmem
    obtain ⟨w', hrun', hinv⟩ := run_inv (fun _ hresponse => hresponse.2.2) hinit hturns
    have heq : w = w' := Except.ok.inj (hrun.symm.trans hrun')
    subst heq
    refine ⟨fun a => ?_, fun a conn hlive => ?_⟩
    · rcases hinv.core.known a with ⟨hnil, -⟩ | hsession
      · rw [hnil]
        exact inOrder_nil
      · exact hsession.inOrder
    · exact (hinv.core.session hlive).delivers.1

/-- The bytes of one connection, over two iterations. -/
theorem responses_in_order_one_connection :
    InOrder oneConnectionCalls ∧ sent oneConnectionCalls = [7, 8, 9] := by
  refine ⟨?_, by decide⟩
  obtain ⟨w, hrun, hcalls⟩ := run_oneConnection
  have horder := (responses_in_order 3 4 2 0 8 1 [] oneConnection_legal hrun).1 0
  rwa [hcalls] at horder

end MustDb.Proofs.Libv
