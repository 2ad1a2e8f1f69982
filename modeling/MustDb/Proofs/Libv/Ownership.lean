import MustDb.Proofs.Libv.NetServer
import MustDb.Proofs.Libv.Shutdown

/-!
# `MustDb.Proofs.Libv.Ownership`: each connection belongs to one worker

The workers share the descriptor table and nothing else that a lock protects. `ts_accept` hands a
new socket to one worker, by registering it in the interest list of that worker's epoll instance.
`Owned` is that entry, with the open socket behind it. It is what the safety of the threads rests
on: `epoll_wait` gives a worker only descriptors of its own list, so it opens and closes only
connections that it owns, and a descriptor has one owner until it is closed (`KernelInv.one_owner`).

`KernelMoves` is what a step of one worker can do to the table. It leaves the entries of the other
workers alone (`Owned.moves`), and that is the invariant `Shared` of a whole server.

`one_owner_per_connection` is the result, for workers whose allocations succeed. Without memory for
its node a connection is not in the table, and the next event of its descriptor makes a second one.
-/

set_option autoImplicit false

namespace MustDb.Proofs.Libv

open MustDb.Lib
open MustDb.Libv

/-! ### The descriptor table -/

/-- The socket `fd` is open, and in the interest list of the epoll instance `e`. -/
structure Owned (k : Kernel) (e fd : Fd) : Prop where
  socket : (fd, .socket) ∈ k.openFds
  listed : (e, fd) ∈ k.registered

/-- A table has each descriptor once, and interest lists have open descriptors. A socket is in one
list at most. -/
structure KernelInv (k : Kernel) : Prop where
  nodup : (k.openFds.map Prod.fst).Nodup
  registered_open : ∀ entry ∈ k.registered, entry.2 ∈ k.openFds.map Prod.fst
  one_owner : ∀ e e' fd, (fd, .socket) ∈ k.openFds → (e, fd) ∈ k.registered →
    (e', fd) ∈ k.registered → e = e'

/-- What the worker with the epoll descriptor `e` does to the table in front of `ts_close`. -/
inductive KernelGrows (e : Fd) (k : Kernel) : Kernel → Prop where
  | same : KernelGrows e k k
  /-- A new socket, for any worker. -/
  | accepted {fd : Fd} (epfd : Fd) (nextCtxIndex : UInt64) (hnew : k.IsNew fd) :
      KernelGrows e k { (k.newFd fd .socket).register epfd fd with nextCtxIndex }
  /-- A new socket that is closed at once. -/
  | refused {fd : Fd} (nextCtxIndex : UInt64) (hnew : k.IsNew fd) :
      KernelGrows e k { (k.newFd fd .socket).close fd with nextCtxIndex }
  | rearmed {fd : Fd} (howned : Owned k e fd) : KernelGrows e k (k.register e fd)

/-- What one step of that worker does to the table. -/
inductive KernelMoves (e : Fd) (k : Kernel) : Kernel → Prop where
  | grows {k' : Kernel} (hgrows : KernelGrows e k k') : KernelMoves e k k'
  | closed {fd : Fd} (howned : Owned k e fd) : KernelMoves e k (k.close fd)

section Kernel
variable {k k' : Kernel} {e e' fd fd' : Fd}

theorem KernelInv.kind_unique (h : KernelInv k) {kind kind' : FdKind}
    (hkind : (fd, kind) ∈ k.openFds) (hkind' : (fd, kind') ∈ k.openFds) : kind = kind' := by
  have heq := List.inj_on_of_nodup_map h.nodup hkind hkind' rfl
  exact (Prod.mk.inj heq).2

/-- A socket is no epoll instance. -/
theorem Owned.ne_epoll (h : Owned k e fd) (hk : KernelInv k) (hepoll : (e', .epoll) ∈ k.openFds) :
    e' ≠ fd := by
  rintro rfl
  cases hk.kind_unique hepoll h.socket

theorem ne_of_isNew {kind : FdKind} (hopen : (fd, kind) ∈ k.openFds) (hnew : k.IsNew fd') :
    fd ≠ fd' := by
  rintro rfl
  exact hnew (List.mem_map_of_mem hopen)

theorem mem_close {kind : FdKind} (hopen : (fd, kind) ∈ k.openFds) (hne : fd ≠ fd') :
    (fd, kind) ∈ (k.close fd').openFds :=
  List.mem_filter.mpr ⟨hopen, decide_eq_true hne⟩

theorem listed_close (hlisted : (e, fd) ∈ k.registered) (he : e ≠ fd') (hfd : fd ≠ fd') :
    (e, fd) ∈ (k.close fd').registered :=
  List.mem_filter.mpr ⟨hlisted, decide_eq_true ⟨he, hfd⟩⟩

theorem KernelInv.newFd (h : KernelInv k) (hnew : k.IsNew fd) (kind : FdKind) :
    KernelInv (k.newFd fd kind) where
  nodup := List.nodup_cons.mpr ⟨hnew, h.nodup⟩
  registered_open entry hmem := List.mem_cons_of_mem _ (h.registered_open entry hmem)
  one_owner e e' fd' hsocket he he' := by
    rcases List.mem_cons.mp hsocket with heq | hsocket
    · -- a new descriptor is in no list
      cases heq
      exact absurd (h.registered_open _ he) hnew
    · exact h.one_owner e e' fd' hsocket he he'

theorem KernelInv.close (h : KernelInv k) (fd : Fd) : KernelInv (k.close fd) where
  nodup := h.nodup.sublist (List.filter_sublist.map Prod.fst)
  registered_open entry hmem := by
    obtain ⟨hentry, hne⟩ := List.mem_filter.mp hmem
    obtain ⟨open', hopen, hfd⟩ := List.mem_map.mp (h.registered_open entry hentry)
    refine List.mem_map.mpr ⟨open', List.mem_filter.mpr ⟨hopen, ?_⟩, hfd⟩
    rw [hfd]
    exact decide_eq_true (of_decide_eq_true hne).2
  one_owner e e' fd' hsocket he he' :=
    h.one_owner e e' fd' (List.mem_of_mem_filter hsocket) (List.mem_of_mem_filter he)
      (List.mem_of_mem_filter he')

/-- An entry for an open descriptor that is no socket, or for one in no other list. -/
theorem KernelInv.register (h : KernelInv k) (hopen : fd ∈ k.openFds.map Prod.fst)
    (hone : (fd, .socket) ∈ k.openFds → ∀ e', (e', fd) ∈ k.registered → e' = e) :
    KernelInv (k.register e fd) where
  nodup := h.nodup
  registered_open := List.forall_mem_cons.mpr ⟨hopen, h.registered_open⟩
  one_owner e₁ e₂ fd' hsocket he₁ he₂ := by
    rcases List.mem_cons.mp he₁ with heq₁ | he₁
    · cases heq₁
      rcases List.mem_cons.mp he₂ with heq₂ | he₂
      · cases heq₂
        rfl
      · exact (hone hsocket e₂ he₂).symm
    · rcases List.mem_cons.mp he₂ with heq₂ | he₂
      · cases heq₂
        exact hone hsocket e₁ he₁
      · exact h.one_owner e₁ e₂ fd' hsocket he₁ he₂

theorem KernelInv.withIndex (h : KernelInv k) (nextCtxIndex : UInt64) :
    KernelInv { k with nextCtxIndex } :=
  ⟨h.nodup, h.registered_open, h.one_owner⟩

theorem KernelInv.grows (h : KernelInv k) (hgrows : KernelGrows e k k') : KernelInv k' := by
  cases hgrows with
  | same => exact h
  | accepted epfd nextCtxIndex hnew =>
      refine ((h.newFd hnew .socket).register List.mem_cons_self fun _ e' hlisted => ?_).withIndex _
      -- a new descriptor is in no list
      exact absurd (h.registered_open _ hlisted) hnew
  | refused nextCtxIndex hnew => exact ((h.newFd hnew .socket).close _).withIndex _
  | rearmed howned =>
      refine h.register (List.mem_map_of_mem howned.socket) fun hsocket e' hlisted => ?_
      exact h.one_owner e' e _ hsocket hlisted howned.listed

theorem KernelInv.moves (h : KernelInv k) (hmoves : KernelMoves e k k') : KernelInv k' := by
  cases hmoves with
  | grows hgrows => exact h.grows hgrows
  | closed howned => exact h.close _

/-- Nothing in front of `ts_close` takes a socket from its owner. -/
theorem Owned.grows (h : Owned k e' fd) (hgrows : KernelGrows e k k')
    (hepoll : (e', .epoll) ∈ k.openFds) : Owned k' e' fd := by
  cases hgrows with
  | same => exact h
  | accepted epfd nextCtxIndex hnew =>
      exact ⟨List.mem_cons_of_mem _ h.socket, List.mem_cons_of_mem _ h.listed⟩
  | refused nextCtxIndex hnew =>
      exact ⟨mem_close (List.mem_cons_of_mem _ h.socket) (ne_of_isNew h.socket hnew),
        listed_close h.listed (ne_of_isNew hepoll hnew) (ne_of_isNew h.socket hnew)⟩
  | rearmed howned => exact ⟨h.socket, List.mem_cons_of_mem _ h.listed⟩

/-- `close` takes one socket. -/
theorem Owned.close (h : Owned k e' fd) (hk : KernelInv k) (hepoll : (e', .epoll) ∈ k.openFds)
    (hclosed : Owned k e fd') (hne : fd ≠ fd') : Owned (k.close fd') e' fd :=
  ⟨mem_close h.socket hne, listed_close h.listed (hclosed.ne_epoll hk hepoll) hne⟩

/-- A step of one worker leaves the sockets of another one alone. -/
theorem Owned.moves (h : Owned k e' fd) (hk : KernelInv k) (hmoves : KernelMoves e k k')
    (hepoll : (e', .epoll) ∈ k.openFds) (hne : e' ≠ e) : Owned k' e' fd := by
  cases hmoves with
  | grows hgrows => exact h.grows hgrows hepoll
  | @closed fd' howned =>
      refine h.close hk hepoll howned ?_
      rintro rfl
      exact hne (hk.one_owner e' e fd h.socket h.listed howned.listed)

/-- No step closes an epoll instance or the listening socket. -/
theorem open_moves {kind : FdKind} (hopen : (fd, kind) ∈ k.openFds) (hk : KernelInv k)
    (hmoves : KernelMoves e k k') (hkind : kind ≠ .socket) : (fd, kind) ∈ k'.openFds := by
  cases hmoves with
  | grows hgrows =>
      cases hgrows with
      | same => exact hopen
      | accepted epfd nextCtxIndex hnew => exact List.mem_cons_of_mem _ hopen
      | refused nextCtxIndex hnew =>
          exact mem_close (List.mem_cons_of_mem _ hopen) (ne_of_isNew hopen hnew)
      | rearmed howned => exact hopen
  | closed howned =>
      refine mem_close hopen ?_
      rintro rfl
      exact hkind (hk.kind_unique hopen howned.socket)

/-- An interest list gets sockets only. -/
theorem listed_moves (hmoves : KernelMoves e k k') (hlisted : (e', fd) ∈ k'.registered) :
    (e', fd) ∈ k.registered ∨ (fd, .socket) ∈ k'.openFds := by
  cases hmoves with
  | grows hgrows =>
      cases hgrows with
      | same => exact Or.inl hlisted
      | accepted epfd nextCtxIndex hnew =>
          rcases List.mem_cons.mp hlisted with heq | hlisted
          · cases heq
            exact Or.inr List.mem_cons_self
          · exact Or.inl hlisted
      | refused nextCtxIndex hnew => exact Or.inl (List.mem_of_mem_filter hlisted)
      | rearmed howned =>
          rcases List.mem_cons.mp hlisted with heq | hlisted
          · cases heq
            exact Or.inr howned.socket
          · exact Or.inl hlisted
  | closed howned => exact Or.inl (List.mem_of_mem_filter hlisted)

/-- A socket that is left in an interest list is open. -/
theorem socket_moves (hmoves : KernelMoves e k k') (hsocket : (fd, .socket) ∈ k.openFds)
    (hlisted : (e', fd) ∈ k'.registered) : (fd, .socket) ∈ k'.openFds := by
  cases hmoves with
  | grows hgrows =>
      cases hgrows with
      | same => exact hsocket
      | accepted epfd nextCtxIndex hnew => exact List.mem_cons_of_mem _ hsocket
      | refused nextCtxIndex hnew =>
          exact mem_close (List.mem_cons_of_mem _ hsocket) (ne_of_isNew hsocket hnew)
      | rearmed howned => exact hsocket
  | closed howned =>
      -- `close` has taken its entries out of the lists
      exact mem_close hsocket (of_decide_eq_true (List.mem_filter.mp hlisted).2).2

end Kernel

/-! ### One worker -/

/-- What a worker knows belongs to it: its connections, the events that are left, and its interest
list. -/
structure Owns (k : Kernel) (listenFd : Fd) (w : Worker) : Prop where
  listen_eq : w.ctx.listenFd = listenFd
  epoll : (w.ctx.epfd, .epoll) ∈ k.openFds
  conns : ∀ a conn, w.conns.get? a = some conn → Owned k w.ctx.epfd conn.fd
  events : ∀ fd ∈ eventsLeft w.pc, fd = w.ctx.wakeFd ∨ fd = listenFd ∨ Owned k w.ctx.epfd fd
  interest : ∀ fd, (w.ctx.epfd, fd) ∈ k.registered →
    fd = w.ctx.wakeFd ∨ fd = listenFd ∨ (fd, .socket) ∈ k.openFds

section Worker
variable {k k' : Kernel} {e listenFd : Fd} {w w' : Worker} {a : Addr}

/-- The interest list of a worker, behind a step of any worker. -/
theorem Owns.interest_moves (h : Owns k listenFd w) (hmoves : KernelMoves e k k') :
    ∀ fd, (w.ctx.epfd, fd) ∈ k'.registered →
      fd = w.ctx.wakeFd ∨ fd = listenFd ∨ (fd, .socket) ∈ k'.openFds := by
  intro fd hlisted
  rcases listed_moves hmoves hlisted with hold | hsocket
  · rcases h.interest fd hold with hwake | hlisten | hsocket
    · exact Or.inl hwake
    · exact Or.inr (Or.inl hlisten)
    · exact Or.inr (Or.inr (socket_moves hmoves hsocket hlisted))
  · exact Or.inr (Or.inr hsocket)

/-- A step of another worker. -/
theorem Owns.other (h : Owns k listenFd w) (hk : KernelInv k) (hmoves : KernelMoves e k k')
    (hne : w.ctx.epfd ≠ e) : Owns k' listenFd w where
  listen_eq := h.listen_eq
  epoll := open_moves h.epoll hk hmoves (by decide)
  conns a conn hlive := (h.conns a conn hlive).moves hk hmoves h.epoll hne
  events fd hmem := by
    rcases h.events fd hmem with hwake | hlisten | howned
    · exact Or.inl hwake
    · exact Or.inr (Or.inl hlisten)
    · exact Or.inr (Or.inr (howned.moves hk hmoves h.epoll hne))
  interest := h.interest_moves hmoves

/-- The descriptors of a context do not change. -/
structure SameFds (w w' : Worker) : Prop where
  epfd_eq : w'.ctx.epfd = w.ctx.epfd
  wakeFd_eq : w'.ctx.wakeFd = w.ctx.wakeFd
  listenFd_eq : w'.ctx.listenFd = w.ctx.listenFd

theorem SameFds.refl (w : Worker) : SameFds w w := ⟨rfl, rfl, rfl⟩

/-- A step of the worker itself, in front of `ts_close`. -/
theorem Owns.grows (h : Owns k listenFd w) (hk : KernelInv k)
    (hgrows : KernelGrows w.ctx.epfd k k') (hfds : SameFds w w')
    (hconns : ∀ a conn, w'.conns.get? a = some conn → Owned k w.ctx.epfd conn.fd)
    (hevents : ∀ fd ∈ eventsLeft w'.pc, fd ∈ eventsLeft w.pc) : Owns k' listenFd w' where
  listen_eq := hfds.listenFd_eq.trans h.listen_eq
  epoll := by
    rw [hfds.epfd_eq]
    exact open_moves h.epoll hk (.grows hgrows) (by decide)
  conns a conn hlive := by
    rw [hfds.epfd_eq]
    exact (hconns a conn hlive).grows hgrows h.epoll
  events fd hmem := by
    rw [hfds.epfd_eq, hfds.wakeFd_eq]
    rcases h.events fd (hevents fd hmem) with hwake | hlisten | howned
    · exact Or.inl hwake
    · exact Or.inr (Or.inl hlisten)
    · exact Or.inr (Or.inr (howned.grows hgrows h.epoll))
  interest := by
    rw [hfds.epfd_eq, hfds.wakeFd_eq]
    exact h.interest_moves (.grows hgrows)

/-! The phases, in the order of the loop. -/

theorem queueEvent_fds (h : queueEvent w a = .ok w') : SameFds w w' := by
  obtain ⟨conn, -, h⟩ := bind_eq_ok.mp h
  split at h
  · rw [pushAttach_eq_ok h]
    exact ⟨rfl, rfl, rfl⟩
  split at h
  · rw [pushOut_eq_ok h]
    exact ⟨rfl, rfl, rfl⟩
  split at h
  · rw [pushClose_eq_ok h]
    exact ⟨rfl, rfl, rfl⟩
  · rw [pushRead_eq_ok h]
    exact ⟨rfl, rfl, rfl⟩

theorem acceptConn_grows (e : Fd) (epfds : List Fd) (nthreads : Nat) {answer : AcceptAnswer}
    (hlegal : answer.Legal k) : KernelGrows e k (acceptConn epfds nthreads k answer) := by
  cases answer with
  | failed => exact .same
  | conn fd nonblock added =>
      rw [acceptConn]
      simp only
      split
      · exact .refused k.nextCtxIndex hlegal
      split
      · exact .accepted _ _ hlegal
      · exact .refused _ hlegal

/-- `ts_accept` opens connections for sockets of its own only. -/
theorem Owns.tsAccept {epfds : List Fd} {fd : Fd} {events : List Fd} {answer : AcceptAnswer}
    (h : Owns k listenFd w) (hk : KernelInv k) (hpc : w.pc = .accept (fd :: events))
    (hmem : false ∉ w.conns.outcomes) (hlegal : answer.Legal k)
    (hrun : tsAccept epfds w k fd answer = .ok (w', k')) :
    KernelGrows w.ctx.epfd k k' ∧ SameFds w w' ∧
      Owns k' listenFd { w' with pc := .accept events } := by
  have hevents : ∀ fd' ∈ events, fd' ∈ eventsLeft w.pc := by
    rw [hpc]
    exact fun fd' hmem => List.mem_cons_of_mem fd hmem
  have hfd : fd = w.ctx.wakeFd ∨ fd = listenFd ∨ Owned k w.ctx.epfd fd :=
    h.events fd (hpc ▸ List.mem_cons_self)
  rw [Libv.tsAccept] at hrun
  split at hrun
  · cases hrun
    exact ⟨.same, SameFds.refl w, h.grows hk .same ⟨rfl, rfl, rfl⟩ h.conns hevents⟩
  next hwake =>
    obtain ⟨found, -, hrun⟩ := bind_eq_ok.mp hrun
    cases found with
    | some addr =>
        obtain ⟨w₁, hqueue, hrun⟩ := bind_eq_ok.mp hrun
        cases hrun
        have hsame := queueEvent_fds hqueue
        have hconns := queueEvent_conns hqueue
        refine ⟨.same, hsame, h.grows hk .same ⟨hsame.1, hsame.2, hsame.3⟩ ?_ hevents⟩
        exact fun b conn hlive => h.conns b conn (hconns ▸ hlive)
    | none =>
        simp only at hrun
        split at hrun
        · cases hrun
          have hgrows := acceptConn_grows w.ctx.epfd epfds w.ctx.nthreads hlegal
          exact ⟨hgrows, SameFds.refl w, h.grows hk hgrows ⟨rfl, rfl, rfl⟩ h.conns hevents⟩
        next hlisten =>
          -- neither the eventfd nor the listening socket: a socket of this worker
          have howned : Owned k w.ctx.epfd fd := by
            rcases hfd with heq | heq | howned
            · exact absurd heq hwake
            · exact absurd (heq.trans h.listen_eq.symm) hlisten
            · exact howned
          have halloc : (malloc w.conns.outcomes).1 = true := by
            cases hok : (malloc w.conns.outcomes).1 with
            | true => rfl
            | false => exact absurd (false_mem_of_malloc hok) hmem
          rw [openConn, Heap.alloc_of_true halloc] at hrun
          obtain ⟨⟨hmap, node, rest⟩, -, hrun⟩ := bind_eq_ok.mp hrun
          obtain ⟨w₁, hqueue, hrun⟩ := bind_eq_ok.mp hrun
          cases hrun
          have hsame := queueEvent_fds hqueue
          have hconns := queueEvent_conns hqueue
          have hfds : SameFds w w' := ⟨hsame.1, hsame.2, hsame.3⟩
          refine ⟨.same, hfds, h.grows hk .same ⟨hsame.1, hsame.2, hsame.3⟩ ?_ hevents⟩
          intro b conn hlive
          have hpush : (w.conns.push (connNew fd)).get? b = some conn := by
            have hlive' : w'.conns.get? b = some conn := hlive
            rw [hconns] at hlive'
            exact hlive'
          by_cases hb : b = w.conns.next
          · rw [hb, Heap.get?_push_next] at hpush
            cases hpush
            exact howned
          · rw [Heap.get?_push_of_ne hb] at hpush
            exact h.conns b conn hpush

theorem tsRead_fds {answer : ReadAnswer} (h : tsRead w a answer = .ok w') : SameFds w w' := by
  obtain ⟨conn, -, h⟩ := bind_eq_ok.mp h
  cases answer with
  | again =>
      cases h
      exact ⟨rfl, rfl, rfl⟩
  | error =>
      rw [pushClose_eq_ok h]
      exact ⟨rfl, rfl, rfl⟩
  | data bytes =>
      rw [handleRead] at h
      split at h
      · rw [pushClose_eq_ok h]
        exact ⟨rfl, rfl, rfl⟩
      · rw [pushIn_eq_ok h]
        exact ⟨rfl, rfl, rfl⟩

theorem Owns.tsRead {answer : ReadAnswer} {que : List Addr} (h : Owns k listenFd w)
    (hk : KernelInv k) (hrun : tsRead w a answer = .ok w') :
    Owns k listenFd { w' with pc := .read que } := by
  have hconns := tsRead_conns hrun
  have hfds := tsRead_fds hrun
  refine h.grows hk .same ⟨hfds.1, hfds.2, hfds.3⟩ ?_ fun fd hmem => absurd hmem List.not_mem_nil
  exact fun b conn hlive => h.conns b conn (hconns ▸ hlive)

/-- A store to a connection that keeps its descriptor. -/
theorem owned_put {conns : Heap NetConn} {conn conn' : NetConn}
    (h : ∀ b c, conns.get? b = some c → Owned k e c.fd) (hlive : conns.get? a = some conn)
    (hfd : conn'.fd = conn.fd) :
    ∀ b c, (conns.put a conn').get? b = some c → Owned k e c.fd := by
  intro b c hc
  by_cases hb : b = a
  · rw [hb, Heap.get?_put_self hlive] at hc
    cases hc
    rw [hfd]
    exact h a conn hlive
  · rw [Heap.get?_put_of_ne hb] at hc
    exact h b c hc

theorem respond_fd (conn : NetConn) (response : Response) :
    (conn.respond response).fd = conn.fd := rfl

theorem tsProcess_fds {packet : List UInt8} {response : Response}
    (h : tsProcess w a packet response = .ok w') : SameFds w w' := by
  obtain ⟨conn, -, h⟩ := bind_eq_ok.mp h
  simp only at h
  split at h
  · cases h
    exact ⟨rfl, rfl, rfl⟩
  split at h
  · rw [pushOut_eq_ok h]
    exact ⟨rfl, rfl, rfl⟩
  split at h
  · rw [pushClose_eq_ok h]
    exact ⟨rfl, rfl, rfl⟩
  · cases h
    exact ⟨rfl, rfl, rfl⟩

theorem Owns.tsProcess {packet : List UInt8} {response : Response}
    {que : List (Addr × List UInt8)} (h : Owns k listenFd w) (hk : KernelInv k)
    (hrun : tsProcess w a packet response = .ok w') :
    Owns k listenFd { w' with pc := .process que } := by
  obtain ⟨conn, hlive, hconns, -, -⟩ := tsProcess_effect hrun
  have hfds := tsProcess_fds hrun
  refine h.grows hk .same ⟨hfds.1, hfds.2, hfds.3⟩ ?_ fun fd hmem => absurd hmem List.not_mem_nil
  have hput := owned_put h.conns hlive (respond_fd conn response)
  exact fun b c hc => hput b c (hconns ▸ hc)

theorem rearm_grows {conn : NetConn} (howned : Owned k w.ctx.epfd conn.fd) (answers : Answers) :
    KernelGrows w.ctx.epfd k (rearm w k conn answers).1 := by
  rw [rearm]
  split
  · rw [addWrite]
    split
    · exact .rearmed howned
    · exact .same
    · exact .same
  · exact .same

theorem Owns.tsWrite {answers : Answers} {que : List Addr} (h : Owns k listenFd w)
    (hk : KernelInv k) (hrun : tsWrite w k a answers = .ok (w', k')) :
    KernelGrows w.ctx.epfd k k' ∧ SameFds w w' ∧
      Owns k' listenFd { w' with pc := .write que } := by
  obtain ⟨conn, hread, hrun⟩ := bind_eq_ok.mp hrun
  have hlive := readConn_ok hread
  have hsame := flushConn_fd answers.writes conn
  have hput := owned_put h.conns hlive hsame
  have hlive' := Heap.get?_put_self hlive (flushConn answers.writes conn).1
  have howned : Owned k w.ctx.epfd (flushConn answers.writes conn).1.fd :=
    hsame ▸ h.conns a conn hlive
  have hnone : ∀ fd ∈ eventsLeft (.write que), fd ∈ eventsLeft w.pc :=
    fun fd hmem => absurd hmem List.not_mem_nil
  simp only at hrun
  split at hrun
  · obtain ⟨w₁, hpush, hrun⟩ := bind_eq_ok.mp hrun
    cases hrun
    rw [pushClose_eq_ok hpush]
    exact ⟨.same, ⟨rfl, rfl, rfl⟩, h.grows hk .same ⟨rfl, rfl, rfl⟩ hput hnone⟩
  -- the connection stays open, and its interest is changed
  have hgrows := rearm_grows howned answers
  split at hrun
  · cases hrun
    exact ⟨hgrows, ⟨rfl, rfl, rfl⟩, h.grows hk hgrows ⟨rfl, rfl, rfl⟩ hput hnone⟩
  · cases hrun
    exact ⟨hgrows, ⟨rfl, rfl, rfl⟩,
      h.grows hk hgrows ⟨rfl, rfl, rfl⟩ (owned_put hput hlive' rfl) hnone⟩

/-- `ts_close` closes a socket of this worker, and none of its other connections has it. -/
theorem Owns.tsClose {que : List Addr} (h : Owns k listenFd w) (hk : KernelInv k)
    (hunique : ∀ b conn conn', w.conns.get? a = some conn → w.conns.get? b = some conn' →
      conn'.fd = conn.fd → b = a)
    (hrun : tsClose w k a = .ok (w', k')) :
    KernelMoves w.ctx.epfd k k' ∧ SameFds w w' ∧
      Owns k' listenFd { w' with pc := .close que } := by
  obtain ⟨conn, hread, hrun⟩ := bind_eq_ok.mp hrun
  obtain ⟨⟨hmap, code, value⟩, -, hrun⟩ := bind_eq_ok.mp hrun
  cases hrun
  have hlive := readConn_ok hread
  have howned := h.conns a conn hlive
  have hmoves : KernelMoves w.ctx.epfd k (k.close conn.fd) := .closed howned
  refine ⟨hmoves, ⟨rfl, rfl, rfl⟩, h.listen_eq, open_moves h.epoll hk hmoves (by decide), ?_, ?_,
    h.interest_moves hmoves⟩
  · intro b c hc
    by_cases hb : b = a
    · rw [hb] at hc
      have hfree : (w.conns.free a).get? a = some c := hc
      rw [Heap.get?_free_self] at hfree
      cases hfree
    · have hc' : w.conns.get? b = some c := by
        have hfree : (w.conns.free a).get? b = some c := hc
        rwa [Heap.get?_free_of_ne hb] at hfree
      refine (h.conns b c hc').close hk h.epoll howned fun hfd => ?_
      exact hb (hunique b conn c hlive hc' hfd)
  · exact fun fd hmem => absurd hmem List.not_mem_nil

/-- The invariant of the loop, when no allocation fails. -/
abbrev Healthy (w : Worker) : Prop :=
  InvAt (fun response => response.bgctx = false) [] w.pc w

/-- Connections of one worker have different descriptors. -/
theorem Healthy.unique (h : Healthy w) {b : Addr} {conn conn' : NetConn}
    (ha : w.conns.get? a = some conn) (hb : w.conns.get? b = some conn')
    (hfd : conn'.fd = conn.fd) : b = a := by
  obtain ⟨m, -, -, hall⟩ := h.core.mapped
  have hentry := hall List.not_mem_nil b conn' hb
  rw [hfd, hall List.not_mem_nil a conn ha] at hentry
  exact (Option.some.inj hentry).symm

/-- The step lemma of a worker. -/
theorem Owns.step (h : Owns k listenFd w) (hk : KernelInv k) (hhealthy : Healthy w)
    {epfds : List Fd} {stopping : Bool} {answers : Answers} (hlegal : answers.Legal k w)
    (hstep : workerStep epfds stopping w k answers = .ok (w', k')) :
    KernelMoves w.ctx.epfd k k' ∧ SameFds w w' ∧ Owns k' listenFd w' := by
  have hnone : ∀ fd ∈ ([] : List Fd), fd ∈ eventsLeft w.pc :=
    fun fd hmem => absurd hmem List.not_mem_nil
  cases workerStep_cases hstep with
  | goto hagenda hevents =>
      exact ⟨.grows .same, ⟨rfl, rfl, rfl⟩,
        h.grows hk .same ⟨rfl, rfl, rfl⟩ h.conns fun fd hmem => hevents ▸ hmem⟩
  | start hstart hnext =>
      refine ⟨.grows .same, ⟨rfl, rfl, rfl⟩, h.grows hk .same ⟨rfl, rfl, rfl⟩ h.conns ?_⟩
      rcases hnext with rfl | rfl
      · exact hnone
      · exact hnone
  | wait hpc hwait =>
      refine ⟨.grows .same, ⟨rfl, rfl, rfl⟩, h.listen_eq, h.epoll, h.conns, ?_, h.interest⟩
      -- an event is for a descriptor of the interest list
      intro fd hmem
      have hlisted := hlegal.1 _ hwait fd (List.mem_of_mem_take hmem)
      rcases h.interest fd hlisted with hwake | hlisten | hsocket
      · exact Or.inl hwake
      · exact Or.inr (Or.inl hlisten)
      · exact Or.inr (Or.inr ⟨hsocket, hlisted⟩)
  | accept hpc hrun =>
      have hmem : false ∉ w.conns.outcomes := fun hmem =>
        absurd (hhealthy.core.outcomes_sub false hmem) List.not_mem_nil
      obtain ⟨hgrows, hfds, howns⟩ := h.tsAccept hk hpc hmem hlegal.2 hrun
      exact ⟨.grows hgrows, ⟨hfds.1, hfds.2, hfds.3⟩, howns⟩
  | read hpc hrun =>
      have hfds := tsRead_fds hrun
      exact ⟨.grows .same, ⟨hfds.1, hfds.2, hfds.3⟩, h.tsRead hk hrun⟩
  | process hpc hrun =>
      have hfds := tsProcess_fds hrun
      exact ⟨.grows .same, ⟨hfds.1, hfds.2, hfds.3⟩, h.tsProcess hk hrun⟩
  | write hpc hrun =>
      obtain ⟨hgrows, hfds, howns⟩ := h.tsWrite hk hrun
      exact ⟨.grows hgrows, ⟨hfds.1, hfds.2, hfds.3⟩, howns⟩
  | close hpc hrun =>
      obtain ⟨hmoves, hfds, howns⟩ := h.tsClose hk (fun _ _ _ => hhealthy.unique) hrun
      exact ⟨hmoves, ⟨hfds.1, hfds.2, hfds.3⟩, howns⟩

end Worker

/-! ### The start of a worker -/

/-- The table of a server whose listening socket is open. A list of no open epoll instance has
nothing but sockets and the listening socket. -/
structure Table (listenFd : Fd) (k : Kernel) : Prop extends KernelInv k where
  listen : (listenFd, .listen) ∈ k.openFds
  listed : ∀ e fd, (e, fd) ∈ k.registered →
    (fd, .socket) ∈ k.openFds ∨ fd = listenFd ∨ (e, .epoll) ∈ k.openFds

/-- The table `k'` has what `k` has, but for the descriptor `x` and its list. -/
structure Beside (x : Fd) (k k' : Kernel) : Prop where
  openFds : ∀ fd kind, fd ≠ x → (fd, kind) ∈ k.openFds → (fd, kind) ∈ k'.openFds
  kept : ∀ e fd, e ≠ x → fd ≠ x → (e, fd) ∈ k.registered → (e, fd) ∈ k'.registered
  listed : ∀ e fd, e ≠ x → (e, fd) ∈ k'.registered → (e, fd) ∈ k.registered

section Start
variable {k k' k'' : Kernel} {e x fd listenFd : Fd} {w : Worker}

theorem Table.moves (h : Table listenFd k) (hmoves : KernelMoves e k k') : Table listenFd k' where
  toKernelInv := h.toKernelInv.moves hmoves
  listen := open_moves h.listen h.toKernelInv hmoves (by decide)
  listed e' fd hlisted := by
    rcases listed_moves hmoves hlisted with hold | hsocket
    · rcases h.listed e' fd hold with hsocket | hlisten | hepoll
      · exact Or.inl (socket_moves hmoves hsocket hlisted)
      · exact Or.inr (Or.inl hlisten)
      · exact Or.inr (Or.inr (open_moves hepoll h.toKernelInv hmoves (by decide)))
    · exact Or.inl hsocket

theorem Table.newFd (h : Table listenFd k) (hnew : k.IsNew fd) (kind : FdKind) :
    Table listenFd (k.newFd fd kind) where
  toKernelInv := h.toKernelInv.newFd hnew kind
  listen := List.mem_cons_of_mem _ h.listen
  listed e' fd' hlisted := by
    rcases h.listed e' fd' hlisted with hsocket | hlisten | hepoll
    · exact Or.inl (List.mem_cons_of_mem _ hsocket)
    · exact Or.inr (Or.inl hlisten)
    · exact Or.inr (Or.inr (List.mem_cons_of_mem _ hepoll))

/-- An entry for a descriptor that is no socket. -/
theorem Table.register (h : Table listenFd k) {kind : FdKind} (hepoll : (e, .epoll) ∈ k.openFds)
    (hopen : (fd, kind) ∈ k.openFds) (hkind : kind ≠ .socket) :
    Table listenFd (k.register e fd) where
  toKernelInv := by
    refine h.toKernelInv.register (List.mem_map_of_mem hopen) fun hsocket => ?_
    exact absurd (h.kind_unique hopen hsocket) hkind
  listen := h.listen
  listed := by
    intro e' fd' hlisted
    rcases List.mem_cons.mp hlisted with heq | hlisted
    · cases heq
      exact Or.inr (Or.inr hepoll)
    · exact h.listed e' fd' hlisted

/-- The end of an epoll instance. -/
theorem Table.close (h : Table listenFd k) (hepoll : (e, .epoll) ∈ k.openFds) :
    Table listenFd (k.close e) where
  toKernelInv := h.toKernelInv.close e
  listen := by
    refine mem_close h.listen ?_
    rintro rfl
    cases h.kind_unique h.listen hepoll
  listed e' fd' hlisted := by
    obtain ⟨hlisted, hne⟩ := List.mem_filter.mp hlisted
    obtain ⟨he, hfd⟩ := of_decide_eq_true hne
    rcases h.listed e' fd' hlisted with hsocket | hlisten | hepoll'
    · exact Or.inl (mem_close hsocket hfd)
    · exact Or.inr (Or.inl hlisten)
    · exact Or.inr (Or.inr (mem_close hepoll' he))

theorem Beside.refl (x : Fd) (k : Kernel) : Beside x k k :=
  ⟨fun _ _ _ hopen => hopen, fun _ _ _ _ hlisted => hlisted, fun _ _ _ hlisted => hlisted⟩

theorem Beside.newFd (h : Beside x k k') (fd : Fd) (kind : FdKind) :
    Beside x k (k'.newFd fd kind) :=
  ⟨fun fd' kind' hne hopen => List.mem_cons_of_mem _ (h.openFds fd' kind' hne hopen), h.kept,
    h.listed⟩

theorem Beside.register (h : Beside x k k') (fd : Fd) : Beside x k (k'.register x fd) where
  openFds := h.openFds
  kept e' fd' he hfd hlisted := List.mem_cons_of_mem _ (h.kept e' fd' he hfd hlisted)
  listed e' fd' he hlisted := by
    rcases List.mem_cons.mp hlisted with heq | hlisted
    · cases heq
      exact absurd rfl he
    · exact h.listed e' fd' he hlisted

theorem Beside.close (h : Beside x k k') : Beside x k (k'.close x) where
  openFds fd kind hne hopen := mem_close (h.openFds fd kind hne hopen) hne
  kept e' fd' he hfd hlisted := listed_close (h.kept e' fd' he hfd hlisted) he hfd
  listed e' fd' he hlisted := h.listed e' fd' he (List.mem_of_mem_filter hlisted)

/-- A worker does not notice what happens to a new descriptor. -/
theorem Owns.beside (h : Owns k listenFd w) (hbeside : Beside x k k') (hnew : k.IsNew x) :
    Owns k' listenFd w := by
  have he : w.ctx.epfd ≠ x := ne_of_isNew h.epoll hnew
  have howned : ∀ fd, Owned k w.ctx.epfd fd → Owned k' w.ctx.epfd fd := by
    intro fd howned
    have hfd : fd ≠ x := ne_of_isNew howned.socket hnew
    exact ⟨hbeside.openFds _ _ hfd howned.socket, hbeside.kept _ _ he hfd howned.listed⟩
  refine ⟨h.listen_eq, hbeside.openFds _ _ he h.epoll,
    fun a conn hlive => howned _ (h.conns a conn hlive), ?_, ?_⟩
  · intro fd hmem
    rcases h.events fd hmem with hwake | hlisten | hself
    · exact Or.inl hwake
    · exact Or.inr (Or.inl hlisten)
    · exact Or.inr (Or.inr (howned fd hself))
  · intro fd hlisted
    have hold := hbeside.listed _ _ he hlisted
    rcases h.interest fd hold with hwake | hlisten | hsocket
    · exact Or.inl hwake
    · exact Or.inr (Or.inl hlisten)
    · exact Or.inr (Or.inr (howned fd ⟨hsocket, hold⟩).socket)

/-- A worker in front of its first step, with its epoll instance. -/
theorem owns_started {wakeFd : Fd} (h : Table listenFd k) (hnew : k.IsNew w.ctx.epfd)
    (hbeside : Beside w.ctx.epfd k k') (hepoll : (w.ctx.epfd, .epoll) ∈ k'.openFds)
    (hlisted : ∀ fd, (w.ctx.epfd, fd) ∈ k'.registered →
      fd = wakeFd ∨ fd = listenFd ∨ (w.ctx.epfd, fd) ∈ k.registered)
    (hwake : w.ctx.wakeFd = wakeFd) (hlisten : w.ctx.listenFd = listenFd)
    (huntouched : Untouched w) : Owns k' listenFd w where
  listen_eq := hlisten
  epoll := hepoll
  conns a conn hlive := by
    rw [huntouched.get?_none] at hlive
    cases hlive
  events fd hmem := by
    rw [huntouched.pc_eq] at hmem
    exact absurd hmem List.not_mem_nil
  interest fd hmem := by
    rw [hwake]
    rcases hlisted fd hmem with hself | hlisten | hold
    · exact Or.inl hself
    · exact Or.inr (Or.inl hlisten)
    · -- an entry from before can only be for a socket
      rcases h.listed _ _ hold with hsocket | hlisten | hepoll'
      · have hfd : fd ≠ w.ctx.epfd := ne_of_isNew hsocket hnew
        exact Or.inr (Or.inr (hbeside.openFds _ _ hfd hsocket))
      · exact Or.inr (Or.inl hlisten)
      · exact absurd rfl (ne_of_isNew hepoll' hnew)

/-- Stores of the descriptors to the context of a worker. -/
def withFds (ctx : Context) (wakeFd epfd : Fd) (index : Nat) : Context :=
  { ctx with
    worker := { ctx.worker with ctx := { ctx.worker.ctx with wakeFd, epfd, index } } }

theorem healthy_withFds {ctx : Context} (h : Healthy ctx.worker) (wakeFd epfd : Fd)
    (index : Nat) : Healthy (withFds ctx wakeFd epfd index).worker := by
  have hagenda : agenda ctx.worker.pc { ctx.worker.ctx with wakeFd, epfd, index }
      = agenda ctx.worker.pc ctx.worker.ctx := by
    cases ctx.worker.pc <;> rfl
  exact ⟨h.core, hagenda ▸ h.doable, hagenda ▸ h.fresh, h.events_nodup, hagenda ▸ h.room,
    h.closes_nodup⟩

/-- What `create_worker_thread` has done for the worker `index`. -/
structure Created (listenFd : Fd) (index : Nat) (server server' : NetServer) (ok : Bool) :
    Prop where
  table : Table listenFd server'.kernel
  others : ∀ w, Owns server.kernel listenFd w → Owns server'.kernel listenFd w
  ctxs_ne : ∀ i, i ≠ index → server'.ctxs[i]? = server.ctxs[i]?
  listenFd_eq : server'.listenFd = server.listenFd
  failed : ok = false → server'.startedThreads = server.startedThreads
  started : ok = true → server'.startedThreads = server.startedThreads + 1 ∧
    ∀ ctx, server'.ctxs[index]? = some ctx → ∃ old wakeFd epfd,
      server.ctxs[index]? = some old ∧ ctx = withFds old wakeFd epfd index ∧
        server.kernel.IsNew epfd ∧
        (Untouched old.worker → old.worker.ctx.listenFd = listenFd →
          Owns server'.kernel listenFd ctx.worker)

theorem getElem?_modifyCtx_ne (server : NetServer) {index i : Nat} (hi : i ≠ index)
    (f : TsContext → TsContext) : (server.modifyCtx index f).ctxs[i]? = server.ctxs[i]? := by
  simp [NetServer.modifyCtx, Ne.symm hi]

theorem createWorkerThread_spec {server : NetServer} (index : Nat) {answers : CreateAnswers}
    (h : Table listenFd server.kernel) (hlegal : answers.Legal server.kernel) :
    Created listenFd index server (createWorkerThread server index listenFd answers).1
      (createWorkerThread server index listenFd answers).2 := by
  cases hepoll : answers.epoll with
  | none =>
      simp only [createWorkerThread, hepoll]
      exact ⟨h, fun _ howns => howns, fun _ _ => rfl, rfl, fun _ => rfl, Bool.noConfusion⟩
  | some epfd =>
      obtain ⟨hnew, hwake⟩ := hlegal epfd hepoll
      have htable := h.newFd hnew .epoll
      have hbeside := (Beside.refl epfd server.kernel).newFd epfd .epoll
      cases heventfd : answers.eventfd with
      | none =>
          simp only [createWorkerThread, hepoll, heventfd]
          exact ⟨htable, fun _ howns => howns.beside hbeside hnew,
            fun i hi => getElem?_modifyCtx_ne _ hi _, rfl, fun _ => rfl, Bool.noConfusion⟩
      | some wakeFd =>
          have htable₂ := htable.newFd (hwake wakeFd heventfd) .eventfd
          have hbeside₂ := hbeside.newFd wakeFd .eventfd
          have hepfd : (epfd, .epoll)
              ∈ ((server.kernel.newFd epfd .epoll).newFd wakeFd .eventfd).openFds :=
            List.mem_cons_of_mem _ List.mem_cons_self
          have htable₃ := htable₂.register hepfd htable₂.listen (by decide)
          have hbeside₃ := hbeside₂.register listenFd
          have hwakeFd : (wakeFd, .eventfd)
              ∈ ((server.kernel.newFd epfd .epoll).newFd wakeFd .eventfd).openFds :=
            List.mem_cons_self
          have htable₄ := htable₃.register hepfd hwakeFd (by decide)
          have hbeside₄ := hbeside₃.register wakeFd
          have hctxs : ∀ i, i ≠ index →
              (((server.openFd epfd .epoll).openFd wakeFd .eventfd).modifyCtx index
                fun wk => { wk with wakeFd, epfd, index }).ctxs[i]? = server.ctxs[i]? :=
            fun i hi => getElem?_modifyCtx_ne _ hi _
          -- each call that fails ends the start
          cases hlistenAdded : answers.listenAdded with
          | false =>
              simp only [createWorkerThread, hepoll, heventfd, hlistenAdded]
              exact ⟨htable₂, fun _ howns => howns.beside hbeside₂ hnew, hctxs, rfl,
                fun _ => rfl, Bool.noConfusion⟩
          | true =>
              cases hwakeAdded : answers.wakeAdded with
              | false =>
                  simp only [createWorkerThread, hepoll, heventfd, hlistenAdded, hwakeAdded]
                  exact ⟨htable₃, fun _ howns => howns.beside hbeside₃ hnew, hctxs, rfl,
                    fun _ => rfl, Bool.noConfusion⟩
              | true =>
                  cases hthread : answers.thread with
                  | false =>
                      simp only [createWorkerThread, hepoll, heventfd, hlistenAdded,
                        hwakeAdded, hthread]
                      exact ⟨htable₄.close hepfd,
                        fun _ howns => howns.beside hbeside₄.close hnew, hctxs, rfl,
                        fun _ => rfl, Bool.noConfusion⟩
                  | true =>
                      simp only [createWorkerThread, hepoll, heventfd, hlistenAdded,
                        hwakeAdded, hthread]
                      refine ⟨htable₄, fun _ howns => howns.beside hbeside₄ hnew, hctxs, rfl,
                        Bool.noConfusion, fun _ => ⟨rfl, fun ctx hget => ?_⟩⟩
                      have hmodified : (server.modifyCtx index
                          fun wk => { wk with wakeFd, epfd, index }).ctxs[index]? = some ctx := hget
                      rw [NetServer.modifyCtx, List.getElem?_modify] at hmodified
                      obtain ⟨old, hold, hctx⟩ := Option.map_eq_some_iff.mp hmodified
                      rw [if_pos rfl] at hctx
                      subst hctx
                      refine ⟨old, wakeFd, epfd, hold, rfl, hnew, fun huntouched hlisten => ?_⟩
                      refine owns_started h hnew hbeside₄ hepfd (fun fd hlisted => ?_) rfl hlisten
                        ⟨huntouched.pc_eq, huntouched.get?_none, huntouched.log_nil⟩
                      -- the two new entries, and those from before
                      rcases List.mem_cons.mp hlisted with heq | hlisted
                      · exact Or.inl (Prod.mk.inj heq).2
                      · rcases List.mem_cons.mp hlisted with heq | hlisted
                        · exact Or.inr (Or.inl (Prod.mk.inj heq).2)
                        · exact Or.inr (Or.inr hlisted)

end Start

/-! ### The server -/

/-- The invariant of a server in front of the end of `net_server_destroy`. Its threads have
different epoll instances, and each of them owns what it works on. -/
structure Shared (listenFd : Fd) (server : NetServer) : Prop where
  table : Table listenFd server.kernel
  listenFd_eq : server.listenFd = some listenFd
  create : ∀ index, server.pc = .create index → server.startedThreads = index
  workers : ∀ i ctx, i < server.startedThreads → server.ctxs[i]? = some ctx →
    Owns server.kernel listenFd ctx.worker ∧ Healthy ctx.worker
  unstarted : server.pc.isCreate = true → ∀ i ctx, server.startedThreads ≤ i →
    server.ctxs[i]? = some ctx →
      Untouched ctx.worker ∧ Healthy ctx.worker ∧ ctx.worker.ctx.listenFd = listenFd
  distinct : ∀ i j ctx ctx', i < server.startedThreads → j < server.startedThreads →
    server.ctxs[i]? = some ctx → server.ctxs[j]? = some ctx' →
    ctx.worker.ctx.epfd = ctx'.worker.ctx.epfd → i = j

/-- What the callbacks and `epoll_wait` do in a run where threads stay with the loop: `epoll_wait`
has each descriptor once, and `process` does not set `bgctx`. -/
def LegalShared (server : NetServer) (op : ServerOp) : Prop :=
  LegalOp server op ∧
    match op with
    | .work _ answers =>
        (∀ events ∈ answers.wait, events.Nodup) ∧ answers.response.bgctx = false
    | _ => True

instance (server : NetServer) (op : ServerOp) : Decidable (LegalShared server op) :=
  match op with
  | .work _ _ => inferInstanceAs (Decidable (_ ∧ _ ∧ _))
  | .create _ | .stop | .wait | .destroy | .join => inferInstanceAs (Decidable (_ ∧ True))

section Server
variable {listenFd : Fd} {server server' : NetServer}

/-- A turn of the second loop of `net_server_start`. -/
theorem Shared.create_step {answers : CreateAnswers} (h : Shared listenFd server)
    (hlegal : LegalOp server (.create answers))
    (hstep : serverStep server (.create answers) = .ok server') : Shared listenFd server' := by
  obtain ⟨hcreate, hnew⟩ := hlegal
  obtain ⟨index, hpc⟩ := MainPc.exists_of_isCreate hcreate
  have hindex := h.create index hpc
  simp only [serverStep, hpc, h.listenFd_eq] at hstep
  cases hstep
  have hcreated := createWorkerThread_spec index h.table hnew
  generalize createWorkerThread server index listenFd answers = result at hcreated ⊢
  obtain ⟨made, ok⟩ := result
  -- the workers that have been started before
  have hold : ∀ i ctx, i < server.startedThreads → made.ctxs[i]? = some ctx →
      server.ctxs[i]? = some ctx ∧ Owns made.kernel listenFd ctx.worker ∧ Healthy ctx.worker := by
    intro i ctx hi hget
    rw [hcreated.ctxs_ne i (by omega)] at hget
    obtain ⟨howns, hhealthy⟩ := h.workers i ctx hi hget
    exact ⟨hget, hcreated.others _ howns, hhealthy⟩
  cases ok with
  | false =>
      have hthreads := hcreated.failed rfl
      refine ⟨hcreated.table, hcreated.listenFd_eq.trans h.listenFd_eq, ?_, ?_, ?_, ?_⟩
      · exact fun index' hpc' => by cases hpc'
      · exact fun i ctx hi hget => (hold i ctx (hthreads ▸ hi) hget).2
      · exact fun hcreate' => by cases hcreate'
      · intro i j ctx ctx' hi hj hget hget'
        have hi' := hold i ctx (hthreads ▸ hi) hget
        have hj' := hold j ctx' (hthreads ▸ hj) hget'
        exact h.distinct i j ctx ctx' (hthreads ▸ hi) (hthreads ▸ hj) hi'.1 hj'.1
  | true =>
      obtain ⟨hthreads, hworker⟩ := hcreated.started rfl
      have hthreads : made.startedThreads = server.startedThreads + 1 := hthreads
      -- the worker that has been started now
      have hnewest : ∀ ctx, made.ctxs[index]? = some ctx →
          server.kernel.IsNew ctx.worker.ctx.epfd ∧ Owns made.kernel listenFd ctx.worker ∧
            Healthy ctx.worker := by
        intro ctx hget
        obtain ⟨old, wakeFd, epfd, hget', rfl, hnew', howns⟩ := hworker ctx hget
        obtain ⟨huntouched, hhealthy, hlisten⟩ := h.unstarted hcreate index old hindex.le hget'
        exact ⟨hnew', howns huntouched hlisten, healthy_withFds hhealthy _ _ _⟩
      -- its epoll instance is a new one
      have hfresh : ∀ i ctx ctx', i < server.startedThreads → made.ctxs[i]? = some ctx →
          made.ctxs[index]? = some ctx' → ctx.worker.ctx.epfd ≠ ctx'.worker.ctx.epfd := by
        intro i ctx ctx' hi hget hget'
        have hepoll := (h.workers i ctx hi (hold i ctx hi hget).1).1.epoll
        exact ne_of_isNew hepoll (hnewest ctx' hget').1
      have hcases : ∀ i, i < made.startedThreads → i < server.startedThreads ∨ i = index := by
        intro i hi
        omega
      refine ⟨hcreated.table, hcreated.listenFd_eq.trans h.listenFd_eq, ?_, ?_, ?_, ?_⟩
      · intro index' hpc'
        show made.startedThreads = index'
        simp only [if_true] at hpc'
        split at hpc'
        · cases hpc'
          omega
        · cases hpc'
      · intro i ctx hi hget
        rcases hcases i hi with hi | rfl
        · exact (hold i ctx hi hget).2
        · exact (hnewest ctx hget).2
      · intro _ i ctx hi hget
        have hle : made.startedThreads ≤ i := hi
        have hne : i ≠ index := by omega
        have hget' : made.ctxs[i]? = some ctx := hget
        rw [hcreated.ctxs_ne i hne] at hget'
        exact h.unstarted hcreate i ctx (by omega) hget'
      · intro i j ctx ctx' hi hj hget hget' heq
        rcases hcases i hi with hi' | hi'
        · rcases hcases j hj with hj' | hj'
          · exact h.distinct i j ctx ctx' hi' hj' (hold i ctx hi' hget).1 (hold j ctx' hj' hget').1
              heq
          · exact absurd heq (hfresh i ctx ctx' hi' hget (hj' ▸ hget'))
        · rcases hcases j hj with hj' | hj'
          · exact absurd heq.symm (hfresh j ctx' ctx hj' hget' (hi' ▸ hget))
          · exact hi'.trans hj'.symm

/-- A step of a worker. -/
theorem Shared.work_step {index : Nat} {answers : Answers} (h : Shared listenFd server)
    (hlegal : LegalShared server (.work index answers))
    (hstep : serverStep server (.work index answers) = .ok server') :
    Shared listenFd server' := by
  obtain ⟨⟨hlt, hanswers⟩, hnodup, hbgctx⟩ := hlegal
  rw [serverStep] at hstep
  cases hget : server.ctxs[index]? with
  | none =>
      rw [hget] at hstep
      cases hstep
      exact h
  | some ctx =>
      rw [hget] at hstep
      obtain ⟨⟨w', k'⟩, hwork, hstep⟩ := bind_eq_ok.mp hstep
      cases hstep
      obtain ⟨howns, hhealthy⟩ := h.workers index ctx hlt hget
      obtain ⟨hmoves, hfds, howns'⟩ :=
        howns.step h.table.toKernelInv hhealthy (hanswers ctx hget) hwork
      -- the invariant of the loop, for the same step
      have hhealthy' : Healthy w' := by
        obtain ⟨w'', hloop, hinv⟩ := loopStep_ok (fun _ hresponse => hresponse) ctx.worker
          ⟨server.ctxs.map (·.worker.ctx.epfd), server.stopping, server.kernel, answers⟩ hhealthy
          ⟨fun events hwait => hnodup events hwait, hbgctx⟩
        rw [loopStep, hwork] at hloop
        cases hloop
        exact hinv
      have hself : ∀ c, (server.ctxs.set index { ctx with worker := w' })[index]? = some c →
          c.worker = w' := by
        intro c hc
        rw [List.getElem?_set_self (List.getElem?_eq_some_iff.mp hget).1] at hc
        cases hc
        rfl
      have hother : ∀ i, i ≠ index →
          (server.ctxs.set index { ctx with worker := w' })[i]? = server.ctxs[i]? :=
        fun i hi => List.getElem?_set_ne (Ne.symm hi)
      -- the epoll descriptors are those from before
      have hepfd : ∀ (i : Nat) (c : Context),
          (server.ctxs.set index { ctx with worker := w' })[i]? = some c →
          ∃ old, server.ctxs[i]? = some old ∧ old.worker.ctx.epfd = c.worker.ctx.epfd := by
        intro i c hc
        by_cases hi : i = index
        · subst hi
          rw [hself c hc]
          exact ⟨ctx, hget, hfds.epfd_eq.symm⟩
        · rw [hother i hi] at hc
          exact ⟨c, hc, rfl⟩
      refine ⟨h.table.moves hmoves, h.listenFd_eq, h.create, ?_, ?_, ?_⟩
      · intro i c hi hc
        by_cases hindex : i = index
        · subst hindex
          rw [hself c hc]
          exact ⟨howns', hhealthy'⟩
        · have hc' : server.ctxs[i]? = some c := (hother i hindex).symm.trans hc
          obtain ⟨howns₂, hhealthy₂⟩ := h.workers i c hi hc'
          refine ⟨howns₂.other h.table.toKernelInv hmoves fun heq => ?_, hhealthy₂⟩
          exact hindex (h.distinct i index c ctx hi hlt hc' hget heq)
      · intro hcreate i c hi hc
        have hindex : i ≠ index := (Nat.lt_of_lt_of_le hlt hi).ne'
        exact h.unstarted hcreate i c hi ((hother i hindex).symm.trans hc)
      · intro i j c c' hi hj hc hc' heq
        obtain ⟨old, hold, hsame⟩ := hepfd i c hc
        obtain ⟨old', hold', hsame'⟩ := hepfd j c' hc'
        exact h.distinct i j old old' hi hj hold hold' (hsame.trans (heq.trans hsame'.symm))

/-- The step lemma of a server. -/
theorem Shared.step {op : ServerOp} (h : server.pc = .destroyed ∨ Shared listenFd server)
    (hlegal : LegalShared server op) (hstep : serverStep server op = .ok server') :
    server'.pc = .destroyed ∨ Shared listenFd server' := by
  have hrunning : server.pc = .running → Shared listenFd server ∧ server.pc.isCreate = false := by
    intro hpc
    rcases h with hend | hshared
    · rw [hpc] at hend
      cases hend
    · exact ⟨hshared, by rw [hpc]; rfl⟩
  cases op with
  | create answers =>
      rcases h with hend | hshared
      · have hcreate := hlegal.1.1
        rw [hend] at hcreate
        cases hcreate
      · exact Or.inr (hshared.create_step hlegal.1 hstep)
  | work index answers =>
      rcases h with hend | hshared
      · exact Or.inl ((work_pc hstep).trans hend)
      · exact Or.inr (hshared.work_step hlegal hstep)
  | stop =>
      obtain ⟨hshared, hpc⟩ := hrunning hlegal.1
      cases hstep
      exact Or.inr ⟨hshared.table, hshared.listenFd_eq, hshared.create, hshared.workers,
        hshared.unstarted, hshared.distinct⟩
  | wait =>
      obtain ⟨hshared, hpc⟩ := hrunning hlegal.1.1
      cases hstep
      exact Or.inr ⟨hshared.table, hshared.listenFd_eq, hshared.create, hshared.workers,
        hshared.unstarted, hshared.distinct⟩
  | destroy =>
      obtain ⟨hshared, hpc⟩ := hrunning hlegal.1
      cases hstep
      refine Or.inr ⟨hshared.table, hshared.listenFd_eq, ?_, hshared.workers, ?_,
        hshared.distinct⟩
      · exact fun index hpc' => by cases hpc'
      · exact fun hcreate => by cases hcreate
  | join =>
      obtain ⟨ctxs, hmap, hstep⟩ := bind_eq_ok.mp hstep
      cases hstep
      exact Or.inl rfl

end Server

/-! ### The start of a server -/

/-- The contexts of a start that succeeds. -/
theorem initTscontexts_healthy {listenFd : Fd} {queuesize nthreads left : Nat} :
    ∀ {index : Nat} {mallocs : MallocOutcomes} {ctxs : List Context},
      initTscontexts listenFd queuesize nthreads (fun _ => []) left index mallocs
        = .ok (ctxs, true) →
      ∀ ctx ∈ ctxs, Healthy ctx.worker ∧ ctx.worker.ctx.listenFd = listenFd := by
  induction left with
  | zero =>
      intro index mallocs ctxs h
      cases h
      simp
  | succ left ih =>
      intro index mallocs ctxs h
      obtain ⟨⟨ctx, first, rest⟩, hinit, h⟩ := bind_eq_ok.mp h
      cases first with
      | false => cases h
      | true =>
          obtain ⟨⟨others, last⟩, hothers, h⟩ := bind_eq_ok.mp h
          cases h
          refine List.forall_mem_cons.mpr ⟨?_, ih hothers⟩
          rw [initTscontext] at hinit
          simp only at hinit
          split at hinit
          · obtain ⟨freed, -, hinit⟩ := bind_eq_ok.mp hinit
            cases hinit
          · cases hinit
            exact ⟨inv_init _ (-1) (-1) listenFd 0 queuesize nthreads [] (by decide), rfl⟩

/-- A server in front of its first `create_worker_thread`. -/
theorem shared_start {opt : NetListenOptions} {listenFd : Fd} {mallocs : MallocOutcomes}
    {others : List (Fd × FdKind)} {nextCtxIndex : UInt64} {server : NetServer}
    (hothers : ((listenFd, FdKind.listen) :: others).map Prod.fst |>.Nodup)
    (h : netServerStart opt (some listenFd) mallocs (fun _ => []) ⟨others, [], nextCtxIndex⟩
      = .ok server)
    (hprepared : Prepared opt (some listenFd) mallocs) : Shared listenFd server := by
  rw [prepared_some] at hprepared
  rw [netServerStart] at h
  simp only at h
  rw [if_neg (not_not.mpr ⟨hprepared.1, hprepared.2.1⟩)] at h
  obtain ⟨⟨ctxs, ok⟩, hinit, h⟩ := bind_eq_ok.mp h
  obtain ⟨hok, huntouched⟩ := initTscontexts_spec hinit
  rw [hok.mpr hprepared.2.2] at hinit h
  cases h
  have hhealthy := initTscontexts_healthy hinit
  refine ⟨⟨⟨hothers, ?_, ?_⟩, List.mem_cons_self, ?_⟩, rfl, ?_, ?_, ?_, ?_⟩
  · exact fun entry hmem => absurd hmem List.not_mem_nil
  · exact fun e e' fd _ hmem => absurd hmem List.not_mem_nil
  · exact fun e fd hmem => absurd hmem List.not_mem_nil
  · exact fun index hpc => by cases hpc; rfl
  · exact fun i ctx hi => absurd hi (Nat.not_lt_zero i)
  · intro _ i ctx _ hget
    have hmem : ctx ∈ ctxs := List.mem_of_getElem? hget
    exact ⟨huntouched ctx hmem, hhealthy ctx hmem⟩
  · exact fun i j ctx ctx' hi => absurd hi (Nat.not_lt_zero i)

/-- Each connection belongs to one worker. In every interleaving of the threads of a server whose
allocations succeed, until `net_server_destroy` has returned, the descriptor of a live connection is
an open socket, and no other live connection of any worker has it. -/
theorem one_owner_per_connection (opt : NetListenOptions) (listenFd : Fd)
    (mallocs : MallocOutcomes) (others : List (Fd × FdKind)) (nextCtxIndex : UInt64)
    (hothers : ((listenFd, FdKind.listen) :: others).map Prod.fst |>.Nodup)
    {ops : List ServerOp} {start server : NetServer}
    (hstart : netServerStart opt (some listenFd) mallocs (fun _ => []) ⟨others, [], nextCtxIndex⟩
      = .ok start)
    (hlegal : Guarded serverStep LegalShared start ops)
    (hrun : run serverStep start ops = .ok server) (hpc : server.pc ≠ .destroyed)
    {i j : Nat} {ctx ctx' : Context}
    (hi : i < server.startedThreads) (hj : j < server.startedThreads)
    (hctx : server.ctxs[i]? = some ctx) (hctx' : server.ctxs[j]? = some ctx')
    {a b : Addr} {conn conn' : NetConn} (ha : ctx.worker.conns.get? a = some conn)
    (hb : ctx'.worker.conns.get? b = some conn') :
    (conn.fd, .socket) ∈ server.kernel.openFds ∧ (conn.fd = conn'.fd → i = j ∧ a = b) := by
  rcases netServerStart_cases hstart with ⟨hprepared, -⟩ | ⟨-, hunstarted⟩
  · have hshared : server.pc = .destroyed ∨ Shared listenFd server :=
      run_invariant (fun s => s.pc = .destroyed ∨ Shared listenFd s)
        (fun _ _ _ h hlegal hstep => Shared.step h hlegal hstep) ops start server
        (Or.inr (shared_start hothers hstart hprepared)) hlegal hrun
    have h := hshared.resolve_left hpc
    obtain ⟨howns, hhealthy⟩ := h.workers i ctx hi hctx
    obtain ⟨howns', -⟩ := h.workers j ctx' hj hctx'
    have howned := howns.conns a conn ha
    refine ⟨howned.socket, fun hfd => ?_⟩
    -- one list has the socket, so both workers have the same epoll instance
    have howned' := howns'.conns b conn' hb
    rw [← hfd] at howned'
    have hepfd := h.table.one_owner _ _ conn.fd howned.socket howned.listed howned'.listed
    have hij := h.distinct i j ctx ctx' hi hj hctx hctx' hepfd
    subst hij
    rw [hctx] at hctx'
    cases hctx'
    exact ⟨rfl, hhealthy.unique hb ha hfd⟩
  · -- a start that has failed has no worker
    have hdone : Unstarted server :=
      run_invariant Unstarted (fun _ _ _ h hlegal hstep => h.step hlegal.1 hstep) ops start server
        hunstarted hlegal hrun
    rw [hdone.startedThreads_eq] at hi
    exact absurd hi (Nat.not_lt_zero i)

/-- Two workers. The first one accepts two sockets, and the second one gets the second of them. -/
def twoWorkersOps : List ServerOp :=
  [.create ⟨some 3, some 5, true, true, true⟩, .create ⟨some 7, some 8, true, true, true⟩] ++
    ([{}, {}, { wait := some [4] }, { accept := .conn 6 true true }, {}, {}, {}, {}, {}, {},
      { wait := some [4, 6] }, { accept := .conn 9 true true }, {}] : List Answers).map
      (ServerOp.work 0) ++
    ([{}, {}, { wait := some [9] }, {}] : List Answers).map (ServerOp.work 1)

/-- A connection of each of two workers: both descriptors are open sockets, and not the same one. -/
theorem one_owner_per_connection_two_workers :
    ∃ start server first second conn conn',
      netServerStart ⟨2, 8⟩ (some 4) [] (fun _ => []) ⟨[], [], 0⟩ = .ok start ∧
      run serverStep start twoWorkersOps = .ok server ∧ server.ctxs = [first, second] ∧
      first.worker.conns.get? 0 = some conn ∧ second.worker.conns.get? 0 = some conn' ∧
      (conn.fd, .socket) ∈ server.kernel.openFds ∧ (conn'.fd, .socket) ∈ server.kernel.openFds ∧
      conn.fd ≠ conn'.fd := by
  have hchecked : ∃ start ∈ (netServerStart ⟨2, 8⟩ (some 4) [] (fun _ => [])
      ⟨[], [], 0⟩).toOption, Guarded serverStep LegalShared start twoWorkersOps ∧
        (run serverStep start twoWorkersOps).toOption.map (fun server =>
          (server.pc, server.startedThreads,
            server.ctxs.map fun ctx => (ctx.worker.conns.get? 0).isSome))
          = some (.running, 2, [true, true]) := by
    decide +kernel
  obtain ⟨start, hmem, hlegal, hrun⟩ := hchecked
  have hstart := toOption_eq_some.mp hmem
  obtain ⟨server, hserver, hstate⟩ := Option.map_eq_some_iff.mp hrun
  have hrun := toOption_eq_some.mp hserver
  simp only [Prod.mk.injEq] at hstate
  obtain ⟨hpc, hthreads, hlive⟩ := hstate
  -- the two contexts, with a connection each
  obtain ⟨first, rest, hctxs, hfirst, hrest⟩ := List.map_eq_cons_iff.mp hlive
  obtain ⟨second, hsingle, hsecond⟩ := List.map_eq_singleton_iff.mp hrest
  rw [hsingle] at hctxs
  obtain ⟨conn, hconn⟩ := Option.isSome_iff_exists.mp hfirst
  obtain ⟨conn', hconn'⟩ := Option.isSome_iff_exists.mp hsecond
  have hget : server.ctxs[0]? = some first := by
    rw [hctxs]
    rfl
  have hget' : server.ctxs[1]? = some second := by
    rw [hctxs]
    rfl
  have hzero : 0 < server.startedThreads := by
    rw [hthreads]
    decide
  have hone : 1 < server.startedThreads := by
    rw [hthreads]
    decide
  have hrunning : server.pc ≠ .destroyed := by
    rw [hpc]
    decide
  have howner := one_owner_per_connection ⟨2, 8⟩ 4 [] [] 0 (by decide) hstart hlegal hrun
    hrunning hzero hone hget hget' hconn hconn'
  have howner' := one_owner_per_connection ⟨2, 8⟩ 4 [] [] 0 (by decide) hstart hlegal hrun
    hrunning hone hzero hget' hget hconn' hconn
  exact ⟨start, server, first, second, conn, conn', hstart, hrun, hctxs, hconn, hconn',
    howner.1, howner'.1, fun hfd => absurd (howner.2 hfd).1 (by decide)⟩

end MustDb.Proofs.Libv
