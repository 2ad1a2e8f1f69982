import MustDb.Libv.StartLedger
import MustDb.Proofs.Libv.NetServer

/-!
# `MustDb.Proofs.Libv.StartFailure`: a start with one failure

`net_server_start` with one call that fails, for every number of workers and each such call. What
the start has acquired is released exactly once behind the first failures: of the server, of the
socket, and of the contexts. Behind the later ones it is not:

- Without the array of the threads, `net_server_stop` finds contexts of zeros, and writes to the
  descriptor 0.
- `init_tscontext` frees the arrays that it has, and keeps the pointers. `net_server_destroy` frees
  them again. The contexts behind this one are zeros.
- A failure of `create_worker_thread` makes `net_server_start` return without `net_server_destroy`.

A map without buckets does not make the start fail.
-/

set_option autoImplicit false

namespace MustDb.Proofs.Libv

open MustDb.Lib
open MustDb.Libv

/-! ### Outcomes with one failure -/

theorem failAfter_add (m n : Nat) : failAfter (m + n) = List.replicate m true ++ failAfter n := by
  rw [failAfter, failAfter, ← List.append_assoc, List.replicate_append_replicate]

theorem malloc_failAfter_succ (n : Nat) : malloc (failAfter (n + 1)) = (true, failAfter n) := rfl

theorem drop_failAfter (m n : Nat) : (failAfter (m + n)).drop m = failAfter n := by
  rw [failAfter_add, List.drop_left' List.length_replicate]

theorem false_notMem_take_failAfter (m n : Nat) : false ∉ (failAfter (m + n)).take m := by
  rw [failAfter_add, List.take_left' List.length_replicate]
  simp

theorem length_failAfter (n : Nat) : (failAfter n).length = n + 1 := by
  rw [failAfter, List.length_append, List.length_replicate, List.length_singleton]

theorem false_mem_take_failAfter {m n : Nat} (h : n < m) : false ∈ (failAfter n).take m := by
  rw [List.take_of_length_le (length_failAfter n ▸ h), failAfter]
  exact List.mem_append_right _ List.mem_cons_self

theorem failAfter_getElem? {n i : Nat} (h : i ≠ n) : (failAfter n)[i]?.getD true = true := by
  rcases Nat.lt_or_gt_of_ne h with hlt | hgt
  · rw [failAfter, List.getElem?_append_left (by simpa using hlt),
      List.getElem?_replicate_of_lt hlt]
    rfl
  · rw [List.getElem?_eq_none (length_failAfter n ▸ hgt)]
    rfl

/-! ### The arrays of a context -/

theorem mallocBuffers_getElem? (n : Nat) (mallocs : MallocOutcomes) {b : Nat} (hb : b < n) :
    (mallocBuffers n mallocs).1[b]?
      = some (if mallocs[b]?.getD true then .live else .null) := by
  induction n generalizing mallocs b with
  | zero => exact absurd hb (Nat.not_lt_zero b)
  | succ n ih =>
      cases b with
      | zero => cases mallocs <;> rfl
      | succ b =>
          have hrest := ih (malloc mallocs).2 (Nat.lt_of_succ_lt_succ hb)
          rw [malloc_rest, List.getElem?_drop, Nat.add_comm] at hrest
          rw [← hrest, ← malloc_rest]
          rfl

/-- The pointer after its `free`. -/
def freed : Pointer → Pointer
  | .null => .null
  | .live | .dangling => .dangling

theorem mapM_free {buffers : List Pointer} (h : .dangling ∉ buffers) :
    buffers.mapM Pointer.free = .ok (buffers.map freed) := by
  induction buffers with
  | nil => rfl
  | cons pointer buffers ih =>
      rw [List.mem_cons, not_or] at h
      rw [List.mapM_cons, ih h.2]
      cases pointer with
      | null | live => rfl
      | dangling => exact absurd rfl h.1

theorem dangling_notMem_mallocBuffers (n : Nat) (mallocs : MallocOutcomes) :
    .dangling ∉ (mallocBuffers n mallocs).1 := by
  induction n generalizing mallocs with
  | zero => exact List.not_mem_nil
  | succ n ih =>
      have hfirst : (if (malloc mallocs).1 then Pointer.live else .null) ≠ .dangling := by
        split <;> exact Pointer.noConfusion
      exact List.not_mem_cons_of_ne_of_not_mem hfirst.symm (ih _)

theorem mem_heldArrays {buffers : List Pointer} {b : Nat} :
    b ∈ heldArrays buffers ↔ ∃ pointer, buffers[b]? = some pointer ∧ pointer ≠ .null := by
  constructor
  · intro h
    obtain ⟨⟨pointer, i⟩, hmem, rfl⟩ := List.mem_map.mp h
    obtain ⟨hzip, hne⟩ := List.mem_filter.mp hmem
    exact ⟨pointer, List.mem_zipIdx_iff_getElem?.mp hzip, by simpa using hne⟩
  · rintro ⟨pointer, hget, hne⟩
    refine List.mem_map.mpr ⟨(pointer, b), List.mem_filter.mpr ⟨?_, by simpa using hne⟩, rfl⟩
    exact List.mem_zipIdx_iff_getElem?.mpr hget

theorem nodup_heldArrays (buffers : List Pointer) : (heldArrays buffers).Nodup := by
  have hindices : (buffers.zipIdx.map Prod.snd).Nodup := by
    rw [List.zipIdx_map_snd]
    exact List.nodup_range'
  exact hindices.sublist (List.filter_sublist.map Prod.snd)

/-- Each array of a context is there once. -/
theorem count_heldBuffers {buffers : List Pointer} {b : Nat} (h : b ∈ heldArrays buffers)
    (index : Nat) : (heldBuffers index buffers).count (.buffer index b) = 1 := by
  have hbuffer : Function.Injective (Resource.buffer index) := fun _ _ => by simp
  rw [heldBuffers, List.count_map_of_injective _ _ hbuffer]
  exact List.count_eq_one_of_mem (nodup_heldArrays buffers) h

theorem count_heldBuffers_of_ne {index index' : Nat} (h : index ≠ index')
    (buffers : List Pointer) (b : Nat) :
    (heldBuffers index buffers).count (.buffer index' b) = 0 := by
  simp [List.count_eq_zero, heldBuffers, h]

theorem count_heldBuckets (index index' b : Nat) (hmap : Hmap Fd Addr) :
    (heldBuckets index hmap).count (.buffer index' b) = 0 := by
  rw [heldBuckets]
  split <;> simp

/-! ### The first loop -/

section Contexts
variable (listenFd : Fd) (queuesize nthreads : Nat) {mallocs : MallocOutcomes}

/-- `init_tscontext`, when its arrays are there. -/
theorem initTscontext_ready (h : false ∉ mallocs.take NBUFFERS) (outcomes : MallocOutcomes) :
    ∃ ctx, initTscontext listenFd queuesize nthreads mallocs outcomes
        = .ok (ctx, true, mallocs.drop NBUFFERS) := by
  obtain ⟨hnull, hrest⟩ := mallocBuffers_spec NBUFFERS mallocs
  rw [initTscontext, ← hrest]
  exact ⟨_, if_neg (mt hnull.mp h)⟩

/-- `init_tscontext`, when an array is missing: the context keeps its pointers. -/
theorem initTscontext_failed (h : false ∈ mallocs.take NBUFFERS) (outcomes : MallocOutcomes) :
    ∃ ctx, initTscontext listenFd queuesize nthreads mallocs outcomes
        = .ok (ctx, false, mallocs.drop NBUFFERS) ∧
      ctx.worker = (Context.blank listenFd queuesize nthreads).worker ∧
      ctx.buffers = (mallocBuffers NBUFFERS mallocs).1.map freed := by
  obtain ⟨hnull, hrest⟩ := mallocBuffers_spec NBUFFERS mallocs
  have hfree := mapM_free (dangling_notMem_mallocBuffers NBUFFERS mallocs)
  refine ⟨⟨(Context.blank listenFd queuesize nthreads).worker,
    (mallocBuffers NBUFFERS mallocs).1.map freed⟩, ?_, rfl, rfl⟩
  rw [initTscontext, ← hrest]
  simp only [hnull.mpr h, if_true]
  rw [freeTscontext, hfree]
  rfl

/-- The deeds of `init_tscontext`, by whether the arrays are there. -/
theorem initTscontextDeeds_ready (h : false ∉ mallocs.take NBUFFERS) (index : Nat)
    (outcomes : MallocOutcomes) :
    initTscontextDeeds index mallocs outcomes
      = (heldBuffers index (mallocBuffers NBUFFERS mallocs).1 ++
          heldBuckets index (hmapInitInt Addr outcomes).1).map Deed.acquire :=
  if_neg (mt (mallocBuffers_spec NBUFFERS mallocs).1.mp h)

theorem initTscontextDeeds_failed (h : false ∈ mallocs.take NBUFFERS) (index : Nat)
    (outcomes : MallocOutcomes) :
    initTscontextDeeds index mallocs outcomes
      = (heldBuffers index (mallocBuffers NBUFFERS mallocs).1).map Deed.acquire ++
          (heldBuffers index (mallocBuffers NBUFFERS mallocs).1).map Deed.release := by
  refine (if_pos ((mallocBuffers_spec NBUFFERS mallocs).1.mpr h)).trans ?_
  -- a map of zeros has no buckets
  rw [freeTscontextDeeds]
  exact congrArg (_ ++ List.map Deed.release ·) (List.append_nil _)

theorem initTscontextsDeeds_succ (outcomes : Nat → MallocOutcomes) (left index : Nat) :
    initTscontextsDeeds outcomes (left + 1) index mallocs
      = initTscontextDeeds index mallocs (outcomes index) ++
          if false ∈ mallocs.take NBUFFERS then []
          else initTscontextsDeeds outcomes left (index + 1) (mallocs.drop NBUFFERS) := by
  obtain ⟨hnull, hrest⟩ := mallocBuffers_spec NBUFFERS mallocs
  rw [← hrest, ← if_congr hnull rfl rfl]
  rfl

/-- The array `a` of the worker `m` is missing. Its other arrays are acquired and freed in the
first loop of `net_server_start`, and its context keeps their pointers. -/
theorem initTscontexts_failAfter (outcomes : Nat → MallocOutcomes) {a b : Nat} (ha : a < NBUFFERS)
    (hb : b < NBUFFERS) (hne : b ≠ a) :
    ∀ {m left : Nat} (index : Nat), m < left →
      ∃ ctxs ctx, initTscontexts listenFd queuesize nthreads outcomes left index
          (failAfter (NBUFFERS * m + a)) = .ok (ctxs, false) ∧
        ctxs[m]? = some ctx ∧ b ∈ heldArrays ctx.buffers ∧
        (initTscontextsDeeds outcomes left index (failAfter (NBUFFERS * m + a))).count
            (.acquire (.buffer (index + m) b)) = 1 ∧
        (initTscontextsDeeds outcomes left index (failAfter (NBUFFERS * m + a))).count
            (.release (.buffer (index + m) b)) = 1 := by
  intro m
  induction m with
  | zero =>
      intro left index hm
      obtain ⟨left, rfl⟩ := Nat.exists_eq_add_one_of_ne_zero hm.ne'
      rw [Nat.mul_zero, Nat.zero_add, Nat.add_zero]
      have hfails : false ∈ (failAfter a).take NBUFFERS := false_mem_take_failAfter ha
      obtain ⟨ctx, hinit, -, hbuffers⟩ :=
        initTscontext_failed listenFd queuesize nthreads hfails (outcomes index)
      have hlive : (mallocBuffers NBUFFERS (failAfter a)).1[b]? = some .live := by
        rw [mallocBuffers_getElem? _ _ hb, failAfter_getElem? hne]
        rfl
      have hdangling : ctx.buffers[b]? = some .dangling := by
        rw [hbuffers, List.getElem?_map, hlive]
        rfl
      have hcount := count_heldBuffers
        (mem_heldArrays.mpr ⟨.live, hlive, Pointer.noConfusion⟩) index
      refine ⟨ctx :: List.replicate left Context.zero, ctx, ?_, rfl,
        mem_heldArrays.mpr ⟨.dangling, hdangling, Pointer.noConfusion⟩, ?_⟩
      · rw [initTscontexts, hinit]
        rfl
      · rw [initTscontextsDeeds_succ, if_pos hfails, List.append_nil,
          initTscontextDeeds_failed hfails]
        simp [hcount]
  | succ m ih =>
      intro left index hm
      obtain ⟨left, rfl⟩ := Nat.exists_eq_add_one_of_ne_zero (Nat.ne_zero_of_lt hm)
      have hsplit : NBUFFERS * (m + 1) + a = NBUFFERS + (NBUFFERS * m + a) := by
        rw [Nat.mul_succ]
        omega
      have hready := false_notMem_take_failAfter NBUFFERS (NBUFFERS * m + a)
      obtain ⟨first, hinit⟩ :=
        initTscontext_ready listenFd queuesize nthreads hready (outcomes index)
      obtain ⟨ctxs, ctx, hothers, hget, hheld, hcounts⟩ :=
        ih (index + 1) (Nat.lt_of_succ_lt_succ hm)
      rw [drop_failAfter] at hinit
      have hindex : index + (m + 1) = index + 1 + m := by omega
      rw [hsplit, hindex]
      refine ⟨first :: ctxs, ctx, ?_, hget, hheld, ?_⟩
      · rw [initTscontexts, hinit, ok_bind]
        simp only [if_true]
        rw [hothers]
        rfl
      · -- the arrays of the first worker are other ones
        have hother : index ≠ index + 1 + m := by omega
        rw [initTscontextsDeeds_succ, if_neg hready, drop_failAfter,
          initTscontextDeeds_ready hready]
        simpa [count_heldBuffers_of_ne hother, count_heldBuckets] using hcounts

/-- With enough memory for its arrays, the first loop gets to its end. -/
theorem initTscontexts_ready (outcomes : Nat → MallocOutcomes) :
    ∀ left index : Nat, ∃ ctxs, initTscontexts listenFd queuesize nthreads outcomes left index []
      = .ok (ctxs, true) := by
  intro left
  induction left with
  | zero => exact fun index => ⟨[], rfl⟩
  | succ left ih =>
      intro index
      obtain ⟨ctx, hinit⟩ := initTscontext_ready listenFd queuesize nthreads
        (show false ∉ ([] : MallocOutcomes).take NBUFFERS from List.not_mem_nil) (outcomes index)
      obtain ⟨ctxs, hothers⟩ := ih (index + 1)
      refine ⟨ctx :: ctxs, ?_⟩
      rw [initTscontexts, hinit, ok_bind, List.drop_nil]
      simp only [if_true]
      rw [hothers]
      rfl

end Contexts

/-! ### The deeds that cannot be -/

theorem release_server_notMem_initTscontextsDeeds (outcomes : Nat → MallocOutcomes) :
    ∀ (left index : Nat) (mallocs : MallocOutcomes),
      .release .server ∉ initTscontextsDeeds outcomes left index mallocs := by
  intro left
  induction left with
  | zero => exact fun _ _ => List.not_mem_nil
  | succ left ih =>
      intro index mallocs hmem
      rw [initTscontextsDeeds_succ] at hmem
      rcases List.mem_append.mp hmem with hmem | hmem
      · by_cases hfails : false ∈ mallocs.take NBUFFERS
        · rw [initTscontextDeeds_failed hfails] at hmem
          simp [heldBuffers] at hmem
        · rw [initTscontextDeeds_ready hfails] at hmem
          simp at hmem
      · split at hmem
        · cases hmem
        · exact ih _ _ hmem

theorem release_server_notMem_createWorkersDeeds (creates : Nat → CreateAnswers) :
    ∀ left index : Nat, .release .server ∉ (createWorkersDeeds creates left index).1 := by
  intro left
  induction left with
  | zero => exact fun _ => List.not_mem_nil
  | succ left ih =>
      intro index
      have hworker : .release .server ∉ (createWorkerThreadDeeds index (creates index)).1 := by
        rw [createWorkerThreadDeeds]
        split
        · simp
        · split
          · simp
          · simp only
            split
            · simp
            · split <;> simp
      rw [createWorkersDeeds]
      split
      case h_1 deeds hdeeds =>
          rw [hdeeds] at hworker
          exact hworker
      case h_2 deeds hdeeds =>
          rw [hdeeds] at hworker
          exact fun hmem => (List.mem_append.mp hmem).elim hworker (ih (index + 1))

/-- `net_server_destroy` acquires nothing. -/
theorem acquire_notMem_netServerDestroyDeeds (server : NetServer) (threads : Bool)
    (r : Resource) : .acquire r ∉ netServerDestroyDeeds server threads := by
  intro hmem
  simp only [netServerDestroyDeeds, netServerStopDeeds, freeTscontextDeeds, List.mem_append,
    List.mem_map, List.mem_flatMap, reduceCtorEq, and_false, exists_false, false_or,
    List.mem_singleton, or_false] at hmem
  rcases hmem with hmem | hmem
  · split at hmem <;> simp at hmem
  · split at hmem <;> simp at hmem

/-! ### Contexts of zeros -/

/-- `net_server_stop` takes the zero for a descriptor. -/
theorem netServerStopDeeds_zero {server : NetServer} {n : Nat}
    (h : server.ctxs = List.replicate n Context.zero) :
    netServerStopDeeds server = List.replicate n (.use (.fd 0)) := by
  rw [netServerStopDeeds, h, List.map_replicate, List.filter_replicate_of_pos (by decide),
    List.map_replicate]
  rfl

theorem freeTscontextDeeds_zero (n : Nat) :
    (List.replicate n Context.zero).zipIdx.flatMap
      (fun entry => freeTscontextDeeds entry.2 entry.1.buffers entry.1.worker.ctx.hmap) = [] := by
  rw [List.flatMap_eq_nil_iff]
  rintro ⟨ctx, index⟩ hmem
  have hzero := List.eq_of_mem_replicate (List.fst_mem_of_mem_zipIdx hmem)
  simp only at hzero
  rw [hzero]
  rfl

/-- `init_tscontext` sets `wake_fd` to -1 in front of its first `malloc`. -/
theorem initTscontext_wakeFd {listenFd : Fd} {queuesize nthreads : Nat}
    {mallocs outcomes rest : MallocOutcomes} {ctx : Context} {ok : Bool}
    (h : initTscontext listenFd queuesize nthreads mallocs outcomes = .ok (ctx, ok, rest)) :
    ctx.worker.ctx.wakeFd = -1 := by
  by_cases hfails : false ∈ mallocs.take NBUFFERS
  · obtain ⟨failed, hfailed, hworker, -⟩ :=
      initTscontext_failed listenFd queuesize nthreads hfails outcomes
    rw [hfailed] at h
    cases h
    rw [hworker]
    rfl
  · rw [initTscontext] at h
    simp only [mt (mallocBuffers_spec NBUFFERS mallocs).1.mp hfails, if_false] at h
    cases h
    rfl

/-- The contexts that the first loop has not reached are zeros, so `net_server_stop` writes to the
descriptor 0 once for each of them, and for no other one. -/
theorem netServerStopDeeds_initTscontexts {listenFd : Fd} {queuesize nthreads : Nat}
    {outcomes : Nat → MallocOutcomes} {left : Nat} :
    ∀ {index : Nat} {mallocs : MallocOutcomes} (server : NetServer) {ok : Bool},
      initTscontexts listenFd queuesize nthreads outcomes left index mallocs
        = .ok (server.ctxs, ok) →
      ∃ missed, netServerStopDeeds server = List.replicate missed (.use (.fd 0)) ∧
        missed ≤ left ∧ (ok = true → missed = 0) := by
  induction left with
  | zero =>
      intro index mallocs server ok h
      obtain ⟨hctxs, -⟩ := Prod.mk.inj (Except.ok.inj h)
      refine ⟨0, ?_, Nat.le_refl 0, fun _ => rfl⟩
      rw [netServerStopDeeds, ← hctxs]
      rfl
  | succ left ih =>
      intro index mallocs server ok h
      obtain ⟨⟨ctx, first, rest⟩, hinit, h⟩ := bind_eq_ok.mp h
      have hwake := initTscontext_wakeFd hinit
      -- no write for the first context
      have hfirst : ∀ ctxs, server.ctxs = ctx :: ctxs →
          netServerStopDeeds server = netServerStopDeeds { server with ctxs } := by
        intro ctxs hctxs
        rw [netServerStopDeeds, netServerStopDeeds, hctxs, List.map_cons, hwake,
          List.filter_cons_of_neg (by decide)]
      cases first with
      | false =>
          obtain ⟨hctxs, rfl⟩ := Prod.mk.inj (Except.ok.inj h)
          refine ⟨left, ?_, Nat.le_succ left, fun hok => absurd hok Bool.false_ne_true⟩
          rw [hfirst _ hctxs.symm]
          exact netServerStopDeeds_zero rfl
      | true =>
          obtain ⟨⟨others, last⟩, hothers, h⟩ := bind_eq_ok.mp h
          obtain ⟨hctxs, rfl⟩ := Prod.mk.inj (Except.ok.inj h)
          obtain ⟨missed, hdeeds, hle, hzero⟩ :=
            ih { server with ctxs := others } hothers
          refine ⟨missed, ?_, Nat.le_succ_of_le hle, hzero⟩
          rw [hfirst _ hctxs.symm]
          exact hdeeds

/-! ### One failure -/

/-- The failures behind which everything is released: `listenFd` is the socket of the server. -/
def Harmless (listenFd : Fd) : FailurePoint → Prop
  | .server | .listen | .ctxs | .buckets _ => True
  | .threads => listenFd = 0
  | .buffer _ _ | .create _ _ => False

section Start
variable (opt : NetListenOptions) (k : Kernel) (listenFd : Fd)

/-- The deeds of a start without the array of its threads. -/
def threadsDeeds (n : Nat) : List (Deed Resource) :=
  [.acquire .server, .acquire (.fd listenFd), .acquire .ctxs] ++
    List.replicate n (.use (.fd 0)) ++
    [.release (.fd listenFd), .release .ctxs, .release .server]

theorem accounted_threadsDeeds_iff {n : Nat} (h : 0 < n) :
    Accounted (threadsDeeds listenFd n) ↔ listenFd = 0 := by
  let held : List Resource := [.ctxs, .fd listenFd, .server]
  have hacquired : run ledgerStep [] [.acquire .server, .acquire (.fd listenFd), .acquire .ctxs]
      = .ok held := rfl
  rw [Accounted, threadsDeeds, List.append_assoc, run_append, hacquired, ok_bind]
  constructor
  · intro heven
    by_contra hne
    have hnot : Resource.fd 0 ∉ held := by simp [held, Ne.symm hne]
    obtain ⟨n, rfl⟩ := Nat.exists_eq_add_one_of_ne_zero h.ne'
    rw [List.replicate_succ, List.cons_append, run_use_of_notMem hnot] at heven
    cases heven
  · rintro rfl
    have hheld : Resource.fd 0 ∈ held := by simp [held]
    rw [run_append, run_uses hheld, ok_bind]
    rfl

/-- `net_server_start` up to its second loop, when the memory of the server and the socket are
there. -/
def initDeeds (outcomes : Nat → MallocOutcomes) (mallocs : MallocOutcomes) :
    List (Deed Resource) :=
  [.acquire .server, .acquire (.fd listenFd), .acquire .ctxs, .acquire .threads] ++
    initTscontextsDeeds outcomes opt.threads 0 mallocs

/-- A start whose allocations succeed. -/
theorem netServerStartDeeds_ready (calls : StartCalls) (hserver : calls.server = true)
    (hlisten : calls.listen = some listenFd) (hmallocs : calls.mallocs = []) :
    netServerStartDeeds opt calls k
      = .ok (initDeeds opt listenFd calls.outcomes [] ++
          (createWorkersDeeds calls.creates opt.threads 0).1,
        if (createWorkersDeeds calls.creates opt.threads 0).2 then 0 else -1) := by
  obtain ⟨ctxs, hinit⟩ :=
    initTscontexts_ready listenFd opt.queue opt.threads calls.outcomes opt.threads 0
  rw [netServerStartDeeds, hserver, hlisten, hmallocs, netServerStart]
  simp only [malloc_nil, not_true_eq_false, if_false, if_true, and_self, hinit, ok_bind]
  generalize createWorkersDeeds calls.creates opt.threads 0 = created
  obtain ⟨creates, ok⟩ := created
  cases ok <;> rfl

/-- A start that misses an array of a worker. -/
theorem netServerStartDeeds_failed (calls : StartCalls) (hserver : calls.server = true)
    (hlisten : calls.listen = some listenFd) {n : Nat}
    (hmallocs : calls.mallocs = failAfter (n + 2))
    {ctxs : List Context}
    (hinit : initTscontexts listenFd opt.queue opt.threads calls.outcomes opt.threads 0
      (failAfter n) = .ok (ctxs, false)) :
    ∃ server : NetServer, server.ctxs = ctxs ∧
      netServerStartDeeds opt calls k
        = .ok (initDeeds opt listenFd calls.outcomes (failAfter n) ++
            netServerDestroyDeeds server true, -1) := by
  let server : NetServer :=
    { listenFd := some listenFd, nthreads := opt.threads, ctxs, startedThreads := 0
      stopping := false, joined := false, kernel := k.newFd listenFd .listen, pc := .create 0
      created := [] }
  refine ⟨server.fail, rfl, ?_⟩
  rw [netServerStartDeeds, hserver, hlisten, hmallocs, netServerStart]
  simp only [malloc_failAfter_succ, not_true_eq_false, if_false, and_self, hinit, ok_bind]
  rfl

theorem createWorkersDeeds_eq_true_iff {creates : Nat → CreateAnswers} :
    ∀ {left index : Nat}, (createWorkersDeeds creates left index).2 = true ↔
      ∀ i, index ≤ i → i < index + left → (createWorkerThreadDeeds i (creates i)).2 = true := by
  intro left
  induction left with
  | zero =>
      intro index
      refine iff_of_true rfl fun i hle hlt => absurd hlt (by omega)
  | succ left ih =>
      intro index
      have hsplit : (createWorkersDeeds creates (left + 1) index).2 = true ↔
          (createWorkerThreadDeeds index (creates index)).2 = true ∧
            (createWorkersDeeds creates left (index + 1)).2 = true := by
        rw [createWorkersDeeds]
        split
        case h_1 deeds hdeeds => simp [hdeeds]
        case h_2 deeds hdeeds => simp [hdeeds]
      rw [hsplit, ih]
      constructor
      · rintro ⟨hfirst, hrest⟩ i hle hlt
        rcases Nat.eq_or_lt_of_le hle with rfl | hgt
        · exact hfirst
        · exact hrest i hgt (by omega)
      · intro hall
        exact ⟨hall index (Nat.le_refl _) (by omega), fun i hle hlt => hall i (by omega) (by omega)⟩

/-- A failure of `create_worker_thread` leaves the memory of the server. -/
theorem not_accounted_created (calls : StartCalls) :
    ¬ Accounted (initDeeds opt listenFd calls.outcomes [] ++
      (createWorkersDeeds calls.creates opt.threads 0).1) := by
  intro heven
  have hreleased := heven.count_eq .server
  have hnone : Deed.release Resource.server ∉ initDeeds opt listenFd calls.outcomes [] ++
      (createWorkersDeeds calls.creates opt.threads 0).1 := by
    intro hmem
    rcases List.mem_append.mp hmem with hmem | hmem
    · rcases List.mem_append.mp hmem with hmem | hmem
      · simp at hmem
      · exact release_server_notMem_initTscontextsDeeds _ _ _ _ hmem
    · exact release_server_notMem_createWorkersDeeds _ _ _ hmem
  rw [List.count_eq_zero.mpr hnone] at hreleased
  exact List.count_eq_zero.mp hreleased (by simp [initDeeds])

/-- The arrays of a context that has failed are freed twice. -/
theorem not_accounted_failed {outcomes : Nat → MallocOutcomes} {i a : Nat}
    (hi : i < opt.threads) (ha : a < NBUFFERS) :
    ∃ ctxs, initTscontexts listenFd opt.queue opt.threads outcomes opt.threads 0
        (failAfter (NBUFFERS * i + a)) = .ok (ctxs, false) ∧
      ∀ server : NetServer, server.ctxs = ctxs →
        ¬ Accounted (initDeeds opt listenFd outcomes (failAfter (NBUFFERS * i + a)) ++
          netServerDestroyDeeds server true) := by
  -- one of the other arrays
  obtain ⟨b, hb, hne⟩ : ∃ b < NBUFFERS, b ≠ a := by
    by_cases hzero : a = 0
    · exact ⟨1, by decide, by omega⟩
    · exact ⟨0, by decide, Ne.symm hzero⟩
  obtain ⟨ctxs, ctx, hinit, hget, hheld, hacquired, hreleased⟩ :=
    initTscontexts_failAfter listenFd opt.queue opt.threads outcomes ha hb hne 0 hi
  rw [Nat.zero_add] at hacquired hreleased
  refine ⟨ctxs, hinit, fun server hctxs heven => ?_⟩
  have hcount := heven.count_eq (.buffer i b)
  have hnone := List.count_eq_zero.mpr
    (acquire_notMem_netServerDestroyDeeds server true (.buffer i b))
  have hagain : Deed.release (Resource.buffer i b) ∈ netServerDestroyDeeds server true := by
    have hfree : Deed.release (Resource.buffer i b)
        ∈ freeTscontextDeeds i ctx.buffers ctx.worker.ctx.hmap :=
      List.mem_map_of_mem (List.mem_append_left _ (List.mem_map_of_mem hheld))
    have hentry : (ctx, i) ∈ server.ctxs.zipIdx :=
      List.mem_zipIdx_iff_getElem?.mpr (hctxs ▸ hget)
    have hflat : Deed.release (Resource.buffer i b) ∈
        server.ctxs.zipIdx.flatMap fun entry =>
          freeTscontextDeeds entry.2 entry.1.buffers entry.1.worker.ctx.hmap :=
      List.mem_flatMap.mpr ⟨(ctx, i), hentry, hfree⟩
    simp only [netServerDestroyDeeds, List.mem_append]
    exact Or.inl (Or.inl (Or.inl (Or.inl (Or.inr hflat))))
  have hpos := List.count_pos_iff.mpr hagain
  rw [List.count_append, List.count_append, hnone, initDeeds, List.count_append,
    List.count_append, hacquired, hreleased] at hcount
  simp at hcount
  omega

/-- The deeds of a start without its contexts. -/
def ctxsDeeds : List (Deed Resource) :=
  [.acquire .server, .acquire (.fd listenFd), .acquire .threads, .release (.fd listenFd),
    .release .threads, .release .server]

theorem accounted_ctxsDeeds : Accounted (ctxsDeeds listenFd) := by
  simp [Accounted, ctxsDeeds, run, ledgerStep]

theorem netServerStartDeeds_ctxs (calls : StartCalls) (hserver : calls.server = true)
    (hlisten : calls.listen = some listenFd) (hmallocs : calls.mallocs = failAfter 0) :
    netServerStartDeeds opt calls k = .ok (ctxsDeeds listenFd, -1) := by
  rw [netServerStartDeeds, hserver, hlisten, hmallocs]
  rfl

theorem netServerStartDeeds_threads (calls : StartCalls) (hserver : calls.server = true)
    (hlisten : calls.listen = some listenFd) (hmallocs : calls.mallocs = failAfter 1) :
    netServerStartDeeds opt calls k = .ok (threadsDeeds listenFd opt.threads, -1) := by
  let server : NetServer :=
    { listenFd := some listenFd, nthreads := opt.threads
      ctxs := List.replicate opt.threads Context.zero, startedThreads := 0, stopping := false
      joined := false, kernel := k.newFd listenFd .listen, pc := .create 0, created := [] }
  have hctxs : server.fail.ctxs = List.replicate opt.threads Context.zero := rfl
  have hsome : ¬ List.replicate opt.threads Context.zero = [] := by
    simp [(threads_pos opt).ne']
  have hdestroy : netServerDestroyDeeds server.fail false
      = List.replicate opt.threads (.use (.fd 0)) ++
        [.release (.fd listenFd), .release .ctxs, .release .server] := by
    rw [netServerDestroyDeeds, netServerStopDeeds_zero hctxs, hctxs, freeTscontextDeeds_zero,
      if_neg hsome]
    simp [server, NetServer.fail, netServerStop]
  have hstart : netServerStartDeeds opt calls k
      = .ok ([.acquire .server, .acquire (.fd listenFd), .acquire .ctxs] ++
          netServerDestroyDeeds server.fail false, -1) := by
    rw [netServerStartDeeds, hserver, hlisten, hmallocs]
    rfl
  rw [hstart, hdestroy, threadsDeeds, List.append_assoc]

/-- A start with one failure releases what it has acquired exactly behind a harmless one. -/
theorem start_failure_accounted_iff (epfds wakeFds : Nat → Fd) {point : FailurePoint}
    (hpoint : point.Within opt.threads) :
    ∃ deeds code, netServerStartDeeds opt
        ((StartCalls.succeed listenFd epfds wakeFds).failAt point) k = .ok (deeds, code) ∧
      ((code = -1 → Accounted deeds) ↔ Harmless listenFd point) := by
  let calls := (StartCalls.succeed listenFd epfds wakeFds).failAt point
  cases point with
  | server => exact ⟨[], -1, rfl, iff_of_true (fun _ => rfl) trivial⟩
  | listen => exact ⟨_, _, rfl, iff_of_true (fun _ => rfl) trivial⟩
  | ctxs =>
      exact ⟨_, _, netServerStartDeeds_ctxs opt k listenFd calls rfl rfl rfl,
        iff_of_true (fun _ => accounted_ctxsDeeds listenFd) trivial⟩
  | threads =>
      refine ⟨_, _, netServerStartDeeds_threads opt k listenFd calls rfl rfl rfl, ?_⟩
      exact (imp_iff_right rfl).trans (accounted_threadsDeeds_iff listenFd (threads_pos opt))
  | buffer i a =>
      obtain ⟨ctxs, hinit, hnot⟩ := not_accounted_failed opt listenFd hpoint.1 hpoint.2
      have hmallocs : calls.mallocs = failAfter (NBUFFERS * i + a + 2) := by
        have hsum : 2 + NBUFFERS * i + a = NBUFFERS * i + a + 2 := by omega
        exact congrArg failAfter hsum
      obtain ⟨server, hctxs, hstart⟩ :=
        netServerStartDeeds_failed opt k listenFd calls rfl rfl hmallocs hinit
      refine ⟨_, _, hstart, iff_of_false (fun heven => ?_) id⟩
      exact hnot server hctxs (heven rfl)
  | buckets i =>
      -- the workers are created, and the start returns 0
      have hcreated : (createWorkersDeeds calls.creates opt.threads 0).2 = true :=
        createWorkersDeeds_eq_true_iff.mpr fun i _ _ => rfl
      refine ⟨_, _, netServerStartDeeds_ready opt k listenFd calls rfl rfl rfl, ?_⟩
      rw [if_pos hcreated]
      exact iff_of_true (fun hcode => absurd hcode (by decide)) trivial
  | create i step =>
      have hfailed : (createWorkerThreadDeeds i (calls.creates i)).2 = false := by
        simp only [calls, StartCalls.failAt, if_true]
        cases step <;> rfl
      have hcreated : ¬ (createWorkersDeeds calls.creates opt.threads 0).2 = true := by
        rw [createWorkersDeeds_eq_true_iff]
        intro hall
        have hworker := hall i (Nat.zero_le i) (Nat.lt_of_lt_of_eq hpoint (Nat.zero_add _).symm)
        rw [hfailed] at hworker
        cases hworker
      refine ⟨_, _, netServerStartDeeds_ready opt k listenFd calls rfl rfl rfl, ?_⟩
      rw [if_neg hcreated]
      exact iff_of_false (fun heven => not_accounted_created opt listenFd calls (heven rfl)) id

end Start

/-- Two workers, and a failure of the last array of the second one: its seven other arrays are freed
twice. -/
theorem start_failure_accounted_iff_two_workers :
    ∃ deeds code, netServerStartDeeds ⟨2, 8⟩
        ((StartCalls.succeed 4 (fun i => 10 + i.toUInt32) (fun i => 20 + i.toUInt32)).failAt
          (.buffer 1 7)) ⟨[], [], 0⟩ = .ok (deeds, code) ∧
      ((code = -1 → Accounted deeds) ↔ Harmless 4 (.buffer 1 7)) :=
  start_failure_accounted_iff ⟨2, 8⟩ ⟨[], [], 0⟩ 4 _ _ (by decide : 1 < 2 ∧ 7 < 8)

/-- One worker, whose `epoll_create1` fails: nothing is released. -/
theorem start_failure_leaks :
    ∃ deeds, netServerStartDeeds ⟨1, 8⟩
        ((StartCalls.succeed 4 (fun _ => 10) (fun _ => 20)).failAt (.create 0 .epoll)) ⟨[], [], 0⟩
          = .ok (deeds, -1) ∧
      Deed.acquire Resource.server ∈ deeds ∧ Deed.release Resource.server ∉ deeds ∧
      ¬ Accounted deeds := by
  refine ⟨_, rfl, by decide, by decide, by decide⟩

end MustDb.Proofs.Libv
