import MustDb.Libv.NetPackets
import MustDb.Proofs.Libv.NetServer

/-!
# `MustDb.Proofs.Libv.PacketSlots`: the slots of the packet buffer

`ts_read` reads the packet of entry `i` into the slot at `i * PACKETSIZE`. Up to a `queuesize` of
131071 both products fit in an `int`, and the slots tile `inpkts`. Above it the slot of the index
131071 ends at `2 ^ 31`, and `inpkts` is smaller: its size has wrapped, or `malloc` has refused it
(`packet_slots_iff_queuesize`).
-/

set_option autoImplicit false

namespace MustDb.Proofs.Libv

open MustDb.Lib
open MustDb.Libv

/-! ### The products -/

/-- `int` to `size_t` keeps a value that is not negative, and adds `2 ^ 64` to another one. -/
theorem toNat_sizeOfInt (n : Int32) :
    ((sizeOfInt n).toNat : Int) = if 0 ≤ n.toInt then n.toInt else n.toInt + 2 ^ 64 := by
  have hbits : n.toInt = n.toInt64.toUInt64.toBitVec.toInt := (Int32.toInt_toInt64 n).symm
  have hcond := BitVec.toInt_eq_toNat_cond n.toInt64.toUInt64.toBitVec
  have hlt := n.toInt64.toUInt64.toNat_lt
  rw [← hbits] at hcond
  rw [sizeOfInt]
  rw [UInt64.toNat_toBitVec] at hcond
  split at hcond
  all_goals split <;> omega

theorem toInt_packetsize : (Int32.ofNat PACKETSIZE).toInt = 16384 := rfl

/-- The product of packets, when it fits. -/
theorem slotOffset_of_le {i : Int32} (h₀ : 0 ≤ i.toInt) (h : i.toInt ≤ 131071) :
    slotOffset i = 16384 * i.toInt := by
  rw [slotOffset, Int32.toInt_mul, toInt_packetsize, Int.mul_comm]
  exact Int.bmod_eq_of_le (by omega) (by omega)

theorem toNat_inpktsSize_of_le {q : Int32} (h₀ : 0 ≤ q.toInt) (h : q.toInt ≤ 131071) :
    ((inpktsSize q).toNat : Int) = 16384 * q.toInt := by
  have hproduct : (Int32.ofNat PACKETSIZE * q).toInt = 16384 * q.toInt := by
    rw [Int32.toInt_mul, toInt_packetsize]
    exact Int.bmod_eq_of_le (by omega) (by omega)
  rw [inpktsSize, toNat_sizeOfInt, hproduct, if_pos (by omega)]

/-- A packet buffer that `malloc` grants is smaller than `2 ^ 31`. -/
theorem toNat_inpktsSize_lt {q : Int32} (h : inpktsSize q ≤ PTRDIFF_MAX) :
    (inpktsSize q).toNat < 2 ^ 31 := by
  have hsize := toNat_sizeOfInt (Int32.ofNat PACKETSIZE * q)
  have hmax := (Int32.ofNat PACKETSIZE * q).toInt_lt
  have hmin := (Int32.ofNat PACKETSIZE * q).le_toInt
  have hle : (inpktsSize q).toNat ≤ 0x7fffffffffffffff := h
  rw [inpktsSize] at hle ⊢
  split at hsize <;> omega

/-! ### The slots -/

/-- Each slot that `ts_read` can use is inside of `inpkts`, and no two of them share a byte. -/
structure SlotsTile (queuesize : Int32) : Prop where
  inside : ∀ i : Int32, 0 ≤ i → i < queuesize →
    0 ≤ slotOffset i ∧ slotOffset i + PACKETSIZE ≤ (inpktsSize queuesize).toNat
  disjoint : ∀ i j : Int32, 0 ≤ i → i < queuesize → 0 ≤ j → j < queuesize → i ≠ j →
    slotOffset i + PACKETSIZE ≤ slotOffset j ∨ slotOffset j + PACKETSIZE ≤ slotOffset i

theorem slotsTile_of_le {q : Int32} (h : q.toInt ≤ 131071) : SlotsTile q where
  inside i hi hiq := by
    have hi := Int32.le_iff_toInt_le.mp hi
    have hiq := Int32.lt_iff_toInt_lt.mp hiq
    have hi' : 0 ≤ i.toInt := hi
    rw [slotOffset_of_le hi' (by omega), toNat_inpktsSize_of_le (by omega) h, PACKETSIZE]
    omega
  disjoint i j hi hiq hj hjq hne := by
    have hi : 0 ≤ i.toInt := Int32.le_iff_toInt_le.mp hi
    have hj : 0 ≤ j.toInt := Int32.le_iff_toInt_le.mp hj
    have hiq := Int32.lt_iff_toInt_lt.mp hiq
    have hjq := Int32.lt_iff_toInt_lt.mp hjq
    have hne : i.toInt ≠ j.toInt := fun heq => hne (Int32.toInt.inj heq)
    rw [slotOffset_of_le hi (by omega), slotOffset_of_le hj (by omega), PACKETSIZE]
    omega

/-- The slot of the index 131071 ends at `2 ^ 31`. -/
theorem not_slotsTile_of_lt {q : Int32} (hsize : inpktsSize q ≤ PTRDIFF_MAX)
    (h : 131071 < q.toInt) : ¬ SlotsTile q := by
  intro htile
  have hlast := (htile.inside 131071 (by decide) (Int32.lt_iff_toInt_lt.mpr h)).2
  have hoffset : slotOffset 131071 = 2147467264 := rfl
  have hlt := toNat_inpktsSize_lt hsize
  rw [hoffset, PACKETSIZE] at hlast
  omega

/-! ### The start -/

/-- Requests that all succeed are not too large. -/
theorem le_of_sizedOutcomes {sizes : List UInt64} {outcomes : MallocOutcomes}
    (h : false ∉ (sizedOutcomes sizes outcomes).take sizes.length) :
    ∀ size ∈ sizes, size ≤ PTRDIFF_MAX := by
  induction sizes generalizing outcomes with
  | nil => simp
  | cons size sizes ih =>
      rw [sizedOutcomes, List.length_cons, List.take_succ_cons, List.mem_cons, not_or] at h
      obtain ⟨hfirst, hrest⟩ := h
      have hgranted : ((malloc outcomes).1 && decide (size ≤ PTRDIFF_MAX)) = true :=
        Bool.eq_true_of_not_eq_false (Ne.symm hfirst)
      have hsize : size ≤ PTRDIFF_MAX := by simpa using (Bool.and_eq_true_iff.mp hgranted).2
      exact List.forall_mem_cons.mpr ⟨hsize, ih hrest⟩

theorem length_contextSizes (opt : NetListenOptions) :
    (contextSizes opt).length = NBUFFERS * opt.threads := by
  rw [contextSizes, List.length_flatten, List.map_replicate, List.sum_replicate, smul_eq_mul,
    Nat.mul_comm]
  rfl

/-- A start that gets to its second loop has its packet buffers. -/
theorem inpktsSize_le_of_prepared {opt : NetListenOptions} {listen : Option Fd} {a b : Bool}
    {mallocs : MallocOutcomes}
    (h : Prepared opt listen (a :: b :: sizedOutcomes (contextSizes opt) mallocs)) :
    inpktsSize (Int32.ofNat opt.queue) ≤ PTRDIFF_MAX := by
  have hmallocs := (false_notMem_take_add.mp h.2).2
  rw [← length_contextSizes] at hmallocs
  refine le_of_sizedOutcomes hmallocs _ ?_
  refine List.mem_flatten.mpr ⟨_, List.mem_replicate.mpr ⟨(threads_pos opt).ne', rfl⟩, ?_⟩
  simp [tscontextSizes]

/-- The queues of a server have room for `queuesize` entries. -/
def QueuesOf (queuesize : Nat) (server : NetServer) : Prop :=
  ∀ ctx ∈ server.ctxs, ctx.worker.ctx.queuesize = queuesize

theorem QueuesOf.modifyCtx {queuesize : Nat} {server : NetServer} (h : QueuesOf queuesize server)
    (index : Nat) {f : TsContext → TsContext} (hf : ∀ ctx, (f ctx).queuesize = ctx.queuesize) :
    QueuesOf queuesize (server.modifyCtx index f) := by
  intro ctx hmem
  obtain ⟨i, hget⟩ := List.getElem?_of_mem hmem
  rw [NetServer.modifyCtx, List.getElem?_modify] at hget
  obtain ⟨old, hold, hctx⟩ := Option.map_eq_some_iff.mp hget
  have hqueue := h old (List.mem_of_getElem? hold)
  split at hctx
  · rw [← hctx]
    exact (hf _).trans hqueue
  · rwa [← hctx]

/-- `create_worker_thread` stores descriptors and an index. -/
theorem QueuesOf.createWorkerThread {queuesize : Nat} {server : NetServer}
    (h : QueuesOf queuesize server) (index : Nat) (listenFd : Fd) (answers : CreateAnswers) :
    QueuesOf queuesize (createWorkerThread server index listenFd answers).1 := by
  rw [MustDb.Libv.createWorkerThread]
  cases answers.epoll with
  | none => exact h
  | some epfd =>
      have hopened : QueuesOf queuesize (server.openFd epfd .epoll) := h
      cases answers.eventfd with
      | none => exact hopened.modifyCtx index (f := fun wk => { wk with wakeFd := -1 }) fun _ => rfl
      | some wakeFd =>
          have hopened' : QueuesOf queuesize
              ((server.openFd epfd .epoll).openFd wakeFd .eventfd) := h
          have hstored := hopened'.modifyCtx index
            (f := fun wk => { wk with wakeFd, epfd, index }) fun _ => rfl
          simp only
          split
          · exact hstored
          split
          · exact hstored
          split
          · exact hstored
          · exact hstored

theorem queuesize_of_initTscontexts {listenFd : Fd} {queuesize nthreads : Nat}
    {outcomes : Nat → MallocOutcomes} {left : Nat} :
    ∀ {index : Nat} {mallocs : MallocOutcomes} {ctxs : List Context},
      initTscontexts listenFd queuesize nthreads outcomes left index mallocs = .ok (ctxs, true) →
      ∀ ctx ∈ ctxs, ctx.worker.ctx.queuesize = queuesize := by
  induction left with
  | zero =>
      intro index mallocs ctxs h
      cases h
      simp
  | succ left ih =>
      intro index mallocs ctxs h
      obtain ⟨⟨ctx, first, rest⟩, hinit, h⟩ := bind_eq_ok.mp h
      cases first with
      | false => cases h
      | true =>
          obtain ⟨⟨others, last⟩, hothers, h⟩ := bind_eq_ok.mp h
          cases h
          refine List.forall_mem_cons.mpr ⟨?_, ih hothers⟩
          -- a context that is ready has gone through the branch behind the arrays
          rw [initTscontext] at hinit
          simp only at hinit
          split at hinit
          · obtain ⟨freed, hfree, hinit⟩ := bind_eq_ok.mp hinit
            cases hinit
          · cases hinit
            rfl

/-- A start that fails in front of its second loop, or a server that can go into it. -/
theorem netServerStart_prepared {opt : NetListenOptions} {listen : Option Fd}
    {mallocs : MallocOutcomes} {outcomes : Nat → MallocOutcomes} {k : Kernel} {server : NetServer}
    (h : netServerStart opt listen mallocs outcomes k = .ok server) :
    server.pc = .destroy ∨ Prepared opt listen mallocs ∧ QueuesOf opt.queue server := by
  cases listen with
  | none =>
      cases h
      exact Or.inl rfl
  | some listenFd =>
      rw [netServerStart] at h
      simp only at h
      split at h
      case isTrue hfailed =>
          cases h
          exact Or.inl rfl
      case isFalse hallocated =>
          obtain ⟨⟨ctxs, ok⟩, hinit, h⟩ := bind_eq_ok.mp h
          cases h
          cases ok with
          | false => exact Or.inl rfl
          | true =>
              obtain ⟨hctxs, hthreads⟩ := not_not.mp hallocated
              have hmallocs := (initTscontexts_spec hinit).1.mp rfl
              exact Or.inr ⟨(prepared_some _ _ _).mpr ⟨hctxs, hthreads, hmallocs⟩,
                queuesize_of_initTscontexts hinit⟩

/-- What each turn of the second loop keeps holds behind it. -/
theorem creates_invariant {P : NetServer → Prop}
    (hstep : ∀ server answers server', P server →
      serverStep server (.create answers) = .ok server' → P server')
    {creates : List CreateAnswers} {server server' : NetServer} (h : P server)
    (hrun : run serverStep server (creates.map ServerOp.create) = .ok server') : P server' := by
  have hcreates : ∀ op ∈ creates.map ServerOp.create, ∃ answers, op = .create answers := by
    intro op hmem
    obtain ⟨answers, -, rfl⟩ := List.mem_map.mp hmem
    exact ⟨answers, rfl⟩
  refine run_invariant P ?_ _ server server' h (guarded_of_forall hcreates server) hrun
  rintro server op server' h ⟨answers, rfl⟩ hturn
  exact hstep server answers server' h hturn

/-- A server that is on its way out creates no worker. -/
theorem destroy_of_create (server : NetServer) (answers : CreateAnswers) (server' : NetServer)
    (hpc : server.pc = .destroy) (hstep : serverStep server (.create answers) = .ok server') :
    server'.pc = .destroy := by
  rw [serverStep, hpc] at hstep
  cases hstep
  exact hpc

theorem queuesOf_of_create {queuesize : Nat} (server : NetServer) (answers : CreateAnswers)
    (server' : NetServer) (h : QueuesOf queuesize server)
    (hstep : serverStep server (.create answers) = .ok server') : QueuesOf queuesize server' := by
  rw [serverStep] at hstep
  split at hstep
  case h_1 index listenFd hpc hlisten =>
      cases hstep
      exact h.createWorkerThread index listenFd answers
  case h_2 =>
      cases hstep
      exact h

/-- The slots of a server that runs are slots of its packet buffers exactly up to a `queuesize` of
131071. -/
theorem packet_slots_iff_queuesize {opt : NetListenOptions} (hint : opt.queuesize < 2 ^ 31)
    {listen : Option Fd} {mallocs : MallocOutcomes} {outcomes : Nat → MallocOutcomes} {k : Kernel}
    {creates : List CreateAnswers} {server : NetServer}
    (hstart : netServerStartSized opt listen mallocs outcomes k creates = .ok server)
    (hrunning : server.pc = .running) :
    QueuesOf opt.queue server ∧
      (SlotsTile (Int32.ofNat opt.queue) ↔ opt.queuesize ≤ 131071) := by
  obtain ⟨prepared, hprepared, hrun⟩ := bind_eq_ok.mp hstart
  rcases netServerStart_prepared hprepared with hpc | ⟨hmallocs, hqueues⟩
  · rw [creates_invariant destroy_of_create hpc hrun] at hrunning
    cases hrunning
  · have hqueue : (Int32.ofNat opt.queue).toInt = if opt.queuesize > 0 then opt.queuesize
        else 128 := by
      rw [NetListenOptions.queue]
      split
      · rw [Int32.toInt_ofNat_of_lt (by omega)]
        omega
      · rfl
    refine ⟨creates_invariant queuesOf_of_create hqueues hrun, fun htile => ?_,
      fun hle => slotsTile_of_le ?_⟩
    · by_contra hlarge
      refine not_slotsTile_of_lt (inpktsSize_le_of_prepared hmallocs) ?_ htile
      rw [hqueue, if_pos (by omega)]
      omega
    · rw [hqueue]
      split <;> omega

/-- One worker with queues of eight entries. -/
theorem packet_slots_iff_queuesize_oneWorker :
    ∃ server, netServerStartSized ⟨1, 8⟩ (some 4) [] (fun _ => []) ⟨[], [], 0⟩
        [⟨some 3, some 5, true, true, true⟩] = .ok server ∧ server.pc = .running ∧
      SlotsTile (Int32.ofNat 8) := by
  refine ⟨_, rfl, rfl, ?_⟩
  exact (@packet_slots_iff_queuesize ⟨1, 8⟩ (by decide) (some 4) [] (fun _ => []) ⟨[], [], 0⟩
    [⟨some 3, some 5, true, true, true⟩] _ rfl rfl).2.mpr (by decide)

/-- With a `queuesize` of `2 ^ 18` the size of `inpkts` wraps to 0. The server runs, and its first
slot is behind the end. -/
theorem packet_slots_wrap :
    ∃ server, netServerStartSized ⟨1, 262144⟩ (some 4) [] (fun _ => []) ⟨[], [], 0⟩
        [⟨some 3, some 5, true, true, true⟩] = .ok server ∧ server.pc = .running ∧
      inpktsSize (Int32.ofNat 262144) = 0 ∧ ¬ SlotsTile (Int32.ofNat 262144) := by
  refine ⟨_, rfl, rfl, rfl, fun htile => ?_⟩
  exact absurd (htile.inside 0 (by decide) (by decide)).2 (by decide)

end MustDb.Proofs.Libv
