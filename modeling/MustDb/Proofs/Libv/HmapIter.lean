import MustDb.Libv.HmapIter
import MustDb.Proofs.Libv.HmapRefinement

/-!
# `MustDb.Proofs.Libv.HmapIter`: a walk over the map

`unvisited` is what a walk still has to yield: the rest of the chain, and the chains of
the buckets that are not entered yet. One call of `hmap_iter_next` takes its first node, or returns
`false` when there is none (`hmapIterNext_ok`). So a walk yields `Hmap.nodes` in order, and then
`false` for ever (`iterCalls_ok`).

`hmap_iteration` says this about every map that a run of insertions and deletions reaches, with the
keys and values that the lookup of this map has. `hmapForeach_ok` is the rule for the loops over a
map.
-/

set_option autoImplicit false

namespace MustDb.Proofs.Libv

open MustDb.Lib
open MustDb.Libv

variable {κ ν : Type}

/-- The nodes that a walk has not reached yet. -/
def unvisited (iter : HmapIterator κ ν) : List (HmapNode κ ν) :=
  iter.node.tail ++ (iter.hmap.buckets.drop iter.bucketIdx).flatten

/-- What a call of `hmap_iter_next` does: it goes to the first node that remains, or there is none
and it stays at the end. -/
inductive NextResult (iter iter' : HmapIterator κ ν) : Bool → Prop where
  | yielded (hmap_eq : iter'.hmap = iter.hmap) (node : HmapNode κ ν)
      (node_eq : iter'.node.head? = some node)
      (unvisited_eq : unvisited iter = node :: unvisited iter') :
      NextResult iter iter' true
  | finished (hmap_eq : iter'.hmap = iter.hmap) (node_eq : iter'.node = [])
      (none_left : unvisited iter = []) (still : unvisited iter' = []) :
      NextResult iter iter' false

/-- The loop over the buckets, from the end of a chain. Induction on the turns: an empty bucket
leaves what remains as it is. -/
theorem hmapIterScan_ok (turns : Nat) (iter : HmapIterator κ ν) (hnode : iter.node = [])
    (hturns : iter.hmap.buckets.length - iter.bucketIdx = turns) :
    ∃ iter' more, hmapIterScan turns iter = .ok (iter', more) ∧ NextResult iter iter' more := by
  induction turns generalizing iter with
  | zero =>
      have hunvisited : unvisited iter = [] := by
        rw [unvisited, hnode, List.drop_eq_nil_of_le (by omega)]
        rfl
      exact ⟨iter, false, rfl, .finished rfl hnode hunvisited hunvisited⟩
  | succ turns ih =>
      have hlt : iter.bucketIdx < iter.hmap.buckets.length := by omega
      have hchain : hmapChain iter.hmap iter.bucketIdx = .ok iter.hmap.buckets[iter.bucketIdx] := by
        rw [hmapChain, List.getElem?_eq_getElem hlt]
      have hunvisited : unvisited iter = iter.hmap.buckets[iter.bucketIdx]
          ++ (iter.hmap.buckets.drop (iter.bucketIdx + 1)).flatten := by
        rw [unvisited, hnode, List.drop_eq_getElem_cons hlt, List.flatten_cons]
        rfl
      rw [hmapIterScan, hchain, ok_bind]
      cases hbucket : iter.hmap.buckets[iter.bucketIdx] with
      | nil =>
          rw [hbucket] at hunvisited
          obtain ⟨iter', more, hrun, hresult⟩ :=
            ih { iter with bucketIdx := iter.bucketIdx + 1 } hnode (by simp only; omega)
          have hsame : unvisited { iter with bucketIdx := iter.bucketIdx + 1 }
              = unvisited iter := by
            rw [hunvisited, unvisited, hnode]
            rfl
          refine ⟨iter', more, hrun, ?_⟩
          cases hresult with
          | yielded hmap_eq node node_eq unvisited_eq =>
              exact .yielded hmap_eq node node_eq (hsame.symm.trans unvisited_eq)
          | finished hmap_eq node_eq none_left still =>
              exact .finished hmap_eq node_eq (hsame.symm.trans none_left) still
      | cons first next =>
          rw [hbucket] at hunvisited
          exact ⟨_, true, rfl, .yielded rfl first rfl hunvisited⟩

/-- The spec of `hmap_iter_next`. -/
theorem hmapIterNext_ok (iter : HmapIterator κ ν)
    (hlength : iter.hmap.buckets.length = iter.hmap.nbuckets) :
    ∃ iter' more, hmapIterNext iter = .ok (iter', more) ∧ NextResult iter iter' more := by
  cases htail : iter.node.tail with
  | nil =>
      -- the chain ends here, so what remains is in the other buckets
      obtain ⟨iter', more, hrun, hresult⟩ := hmapIterScan_ok
        (iter.hmap.nbuckets - iter.bucketIdx) { iter with node := iter.node.tail } htail
        (by rw [hlength])
      have hsame : unvisited { iter with node := iter.node.tail } = unvisited iter := by
        simp only [unvisited, htail, List.tail_nil]
      refine ⟨iter', more, ?_, ?_⟩
      · simp only [htail] at hrun
        simp only [hmapIterNext, htail, hrun]
      · cases hresult with
        | yielded hmap_eq node node_eq unvisited_eq =>
            exact .yielded hmap_eq node node_eq (hsame.symm.trans unvisited_eq)
        | finished hmap_eq node_eq none_left still =>
            exact .finished hmap_eq node_eq (hsame.symm.trans none_left) still
  | cons next rest =>
      refine ⟨{ iter with node := next :: rest }, true, ?_, .yielded rfl next rfl ?_⟩
      · simp only [hmapIterNext, htail]
      · rw [unvisited, htail]
        rfl

/-! ### Walks -/

/-- A turn of a client: `hmap_iter_next`, then `hmap_iter_key` and `hmap_iter_value`. -/
def hmapIterTurn (iter : HmapIterator κ ν) (_ : Unit) :
    Except Fault (HmapIterator κ ν × Bool × Option κ × Option ν) := do
  let (iter, more) ← hmapIterNext iter
  return (iter, more, hmapIterKey iter, hmapIterValue iter)

theorem hmapIterTurn_of_next {iter iter' : HmapIterator κ ν} {more : Bool}
    (h : hmapIterNext iter = .ok (iter', more)) :
    hmapIterTurn iter () = .ok (iter', more, hmapIterKey iter', hmapIterValue iter') := by
  rw [hmapIterTurn, h]
  rfl

/-- The turn that reaches a node. -/
def yields (node : HmapNode κ ν) : Bool × Option κ × Option ν :=
  (true, some node.key, some node.value)

/-- A turn after the last node. -/
def noMore : Bool × Option κ × Option ν := (false, none, none)

/-- The turns of a walk: one for each node that remains, then `false`. Induction on the turns. -/
theorem hmapIterTurns_ok (n : Nat) (iter : HmapIterator κ ν)
    (hlength : iter.hmap.buckets.length = iter.hmap.nbuckets) :
    ∃ iter', runResults hmapIterTurn iter (List.replicate n ()) = .ok (iter',
      ((unvisited iter).map yields).take n
        ++ List.replicate (n - (unvisited iter).length) noMore) := by
  induction n generalizing iter with
  | zero => exact ⟨iter, by simp [runResults]⟩
  | succ n ih =>
      obtain ⟨iter', more, hnext, hresult⟩ := hmapIterNext_ok iter hlength
      cases hresult with
      | yielded hmap_eq node node_eq unvisited_eq =>
          obtain ⟨iter'', hrest⟩ := ih iter' (by rw [hmap_eq, hlength])
          have hturn : hmapIterTurn iter () = .ok (iter', yields node) := by
            rw [hmapIterTurn_of_next hnext, hmapIterKey, hmapIterValue, node_eq]
            rfl
          refine ⟨iter'', ?_⟩
          rw [List.replicate_succ, runResults_cons hturn hrest, unvisited_eq]
          simp
      | finished hmap_eq node_eq none_left still =>
          obtain ⟨iter'', hrest⟩ := ih iter' (by rw [hmap_eq, hlength])
          have hturn : hmapIterTurn iter () = .ok (iter', noMore) := by
            rw [hmapIterTurn_of_next hnext, hmapIterKey, hmapIterValue, node_eq]
            rfl
          rw [still] at hrest
          refine ⟨iter'', ?_⟩
          rw [List.replicate_succ, runResults_cons hturn hrest, none_left]
          simp [List.replicate_succ]

/-- A loop over what remains. -/
theorem hmapForeachFrom_ok {σ : Type} (body : σ → ν → Except Fault σ) (fuel : Nat)
    (iter : HmapIterator κ ν) (hlength : iter.hmap.buckets.length = iter.hmap.nbuckets)
    (hfuel : (unvisited iter).length < fuel) (s : σ) :
    hmapForeachFrom body fuel iter s
      = (unvisited iter).foldlM (fun s node => body s node.value) s := by
  induction fuel generalizing iter s with
  | zero => exact absurd hfuel (Nat.not_lt_zero _)
  | succ fuel ih =>
      obtain ⟨iter', more, hnext, hresult⟩ := hmapIterNext_ok iter hlength
      rw [hmapForeachFrom, hnext, ok_bind]
      cases hresult with
      | yielded hmap_eq node node_eq unvisited_eq =>
          rw [unvisited_eq, List.length_cons] at hfuel
          have hvalue : hmapIterValue iter' = some node.value := by
            rw [hmapIterValue, node_eq]
            rfl
          simp only [if_true, hvalue, unvisited_eq, List.foldlM_cons]
          congr 1
          funext s'
          exact ih iter' (by rw [hmap_eq, hlength]) (Nat.lt_of_succ_lt_succ hfuel) s'
      | finished hmap_eq node_eq none_left still =>
          rw [none_left]
          rfl

/-- The rule for `HMAP_FOREACH`: with enough turns, the loop is a fold over the nodes. -/
theorem hmapForeach_ok {σ : Type} (body : σ → ν → Except Fault σ) {fuel : Nat} {hm : Hmap κ ν}
    (hlength : hm.buckets.length = hm.nbuckets) (hfuel : hm.nodes.length < fuel) (s : σ) :
    hmapForeach body fuel hm s = hm.nodes.foldlM (fun s node => body s node.value) s :=
  hmapForeachFrom_ok body fuel (hmapIterInit hm) hlength hfuel s

/-! ### Every map that a run reaches -/

variable {hashFunc : κ → UInt32} {keyCompare : κ → κ → Int}

/-- What the walks over a map yield: its keys, each once, with the values that the lookup has. -/
structure Enumerates (hm : Hmap κ ν) (nodes : List (HmapNode κ ν)) : Prop where
  length_eq : nodes.length = hmapSize hm
  /-- No two nodes have one key. -/
  once : nodes.Pairwise fun a b => hm.keyCompare a.key b.key ≠ 0
  /-- The nodes have the current values of all keys. -/
  complete : ∀ key value, hmapGetValue hm key = .ok (some value) ↔
    ∃ node ∈ nodes, hm.keyCompare node.key key = 0 ∧ node.value = value
  /-- The turns of a walk: the nodes in this order, then `false` for ever. -/
  turns : ∀ n, ∃ iter, runResults hmapIterTurn (hmapIterInit hm) (List.replicate n ()) = .ok (iter,
    (nodes.map yields).take n ++ List.replicate (n - nodes.length) noMore)

variable {law : LawfulKeys hashFunc keyCompare} {hm : Hmap κ ν} {m : law.Map ν}

theorem Represents.enumerates (h : Represents law hm m) : Enumerates hm hm.nodes where
  length_eq := h.len_eq.symm
  once := by
    rw [h.keyCompare_eq]
    exact h.once
  complete key value := by
    rw [h.getValue, Except.ok.injEq, h.lookup_iff_node, h.keyCompare_eq]
  turns n := hmapIterTurns_ok n (hmapIterInit hm) h.length_eq

/-! ### A map without buckets -/

/-- Twice no buckets are no buckets. -/
theorem nbuckets_loadCheck {hm hm' : Hmap κ ν} {outcomes rest : MallocOutcomes}
    (h : hmapLoadCheck hm outcomes = .ok (hm', rest)) (hzero : hm.nbuckets = 0) :
    hm'.nbuckets = 0 := by
  rw [hmapLoadCheck] at h
  split at h
  case isTrue =>
      rw [hmapGrow, hzero] at h
      cases hcalloc : calloc (0 * 2 % 2 ^ 64) POINTER_SIZE outcomes with
      | mk ok rest' =>
          rw [hcalloc] at h
          cases ok with
          | false =>
              cases h
              exact hzero
          | true =>
              cases h
              rfl
  case isFalse =>
      cases h
      exact hzero

theorem hmapBucketIndex_no_buckets {hm : Hmap κ ν} (hzero : hm.nbuckets = 0) (hash : UInt32) :
    hmapBucketIndex hm hash = .error .divisionByZero := by
  rw [hmapBucketIndex, if_pos hzero]

/-- No operation on it returns, so no node gets into it. -/
theorem hmapStep_no_buckets {hm : Hmap κ ν} (hzero : hm.nbuckets = 0) (call : HmapCall κ ν)
    (result : Hmap κ ν × HmapResult κ ν) : hmapStep hm call ≠ .ok result := by
  cases call with
  | insert key value outcomes =>
      cases hload : hmapLoadCheck hm outcomes with
      | error fault => simp [hmapStep, hmapInsert, hload]
      | ok loaded =>
          obtain ⟨hm', rest⟩ := loaded
          have hzero' : hm'.nbuckets = 0 := nbuckets_loadCheck hload hzero
          simp [hmapStep, hmapInsert, hload, hmapBucketIndex_no_buckets hzero']
  | delete key => simp [hmapStep, hmapDelete, hmapBucketIndex_no_buckets hzero]

theorem enumerates_no_buckets {hm : Hmap κ ν} (hbuckets : hm.buckets = []) (hzero : hm.nbuckets = 0)
    (hlen : hm.len = 0) : Enumerates hm [] where
  length_eq := hlen.symm
  once := .nil
  complete key value := by
    simp [hmapGetValue, hmapGet, hmapBucketIndex_no_buckets hzero]
  turns n := by
    obtain ⟨iter, hturns⟩ := hmapIterTurns_ok n (hmapIterInit hm) (by
      rw [hmapIterInit, hbuckets, hzero]
      rfl)
    have hnone : unvisited (hmapIterInit hm) = [] := by
      rw [unvisited, hmapIterInit, hbuckets]
      rfl
    rw [hnone] at hturns
    exact ⟨iter, hturns⟩

/-! ### The theorem -/

/-- The integer and the string functions are lawful. For lawful functions, any number of buckets,
and a map that a run of insertions and deletions reaches from a new one whose bucket array is there,
the calls of `hmap_iter_next` yield every key of the map once, with its current value, and then
return `false`. -/
theorem hmap_iteration :
    LawfulKeys hmapIntHash hmapIntCmp ∧ LawfulKeys hmapStrHash hmapStrCmp ∧
    ∀ (κ ν : Type) (hashFunc : κ → UInt32) (keyCompare : κ → κ → Int)
      (_ : LawfulKeys hashFunc keyCompare) (nbuckets : Nat) (outcomes : MallocOutcomes)
      (calls : List (HmapCall κ ν)) (hm : Hmap κ ν) (results : List (HmapResult κ ν)),
      (hmapInit ν nbuckets hashFunc keyCompare outcomes).1.buckets.length = nbuckets →
      runResults hmapStep (hmapInit ν nbuckets hashFunc keyCompare outcomes).1 calls
        = .ok (hm, results) →
      ∃ nodes, Enumerates hm nodes := by
  refine ⟨lawfulKeys_int, lawfulKeys_str, ?_⟩
  intro κ ν hashFunc keyCompare law nbuckets outcomes calls hm results harray hrun
  cases nbuckets with
  | zero =>
      cases calls with
      | nil =>
          cases hrun
          exact ⟨[], enumerates_no_buckets (List.length_eq_zero_iff.mp harray) rfl rfl⟩
      | cons call calls =>
          -- the first operation of the run would have to return
          obtain ⟨result, hstep, -⟩ := bind_eq_ok.mp hrun
          exact absurd hstep (hmapStep_no_buckets rfl call result)
  | succ n =>
      have hne : (hmapInit ν (n + 1) hashFunc keyCompare outcomes).1.buckets ≠ [] := by
        intro hnil
        rw [hnil] at harray
        cases harray
      obtain ⟨hm', results', m, hrun', -, h⟩ := run_simulation hmapStep (MapSpec law)
        (Represents law) (fun _ _ call h => h.step_ok call) calls _ _
        (represents_init law _ _ (Nat.succ_pos n) hne)
      rw [hrun] at hrun'
      cases hrun'
      exact ⟨hm.nodes, h.enumerates⟩

/-- Four buckets for two keys that are left, so most of the walk goes over empty buckets. -/
theorem hmap_iteration_two_keys :
    ∃ hm results nodes,
      runResults hmapStep (hmapInit UInt8 4 hmapIntHash hmapIntCmp []).1
        [.insert 5 7 [], .insert 6 8 [], .delete 5, .insert 9 1 []] = .ok (hm, results) ∧
      hmapSize hm = 2 ∧ Enumerates hm nodes := by
  obtain ⟨hm, results, hrun, hsize⟩ : ∃ hm results,
      runResults hmapStep (hmapInit UInt8 4 hmapIntHash hmapIntCmp []).1
        [.insert 5 7 [], .insert 6 8 [], .delete 5, .insert 9 1 []] = .ok (hm, results) ∧
      hmapSize hm = 2 := ⟨_, _, rfl, rfl⟩
  obtain ⟨nodes, hnodes⟩ := hmap_iteration.2.2 UInt32 UInt8 hmapIntHash hmapIntCmp lawfulKeys_int 4
    [] [.insert 5 7 [], .insert 6 8 [], .delete 5, .insert 9 1 []] hm results rfl hrun
  exact ⟨hm, results, nodes, hrun, hsize, hnodes⟩

end MustDb.Proofs.Libv
