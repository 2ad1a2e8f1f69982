import MustDb.Lib.Simulation
import MustDb.Proofs.Libv.Hmap

/-!
# `MustDb.Proofs.Libv.HmapRefinement`: the hash map is a finite map

A client calls `hmap_insert` and `hmap_delete`, and each insertion has its own outcomes of the
allocations in it. `MapSpec` is what these calls mean on the abstract map. `hmap_refinement` says
that every run of a new map follows it, and that at its end every lookup, the size and the placement
of the nodes agree with the abstract map (`Agrees`).

The functions of `hmap_init_int` and `hmap_init_str` are lawful, so the theorem is about their maps
too.
-/

set_option autoImplicit false

namespace MustDb.Proofs.Libv

open MustDb.Lib
open MustDb.Libv

variable {κ ν : Type}

/-- A call of a client. -/
inductive HmapCall (κ ν : Type) where
  /-- `hmap_insert`, with the outcomes of its allocations. -/
  | insert (key : κ) (value : ν) (outcomes : MallocOutcomes)
  /-- `hmap_delete` -/
  | delete (key : κ)

/-- What a call returns. -/
inductive HmapResult (κ ν : Type) where
  /-- The node of `hmap_insert`; `none` is `NULL`. -/
  | inserted (node : Option (HmapNode κ ν))
  /-- The return code of `hmap_delete`, and what it copied to `out`. -/
  | deleted (code : Int) (out : Option ν)
  deriving DecidableEq, Repr

/-- The map after one call, and its result. -/
def hmapStep (hm : Hmap κ ν) : HmapCall κ ν → Except Fault (Hmap κ ν × HmapResult κ ν)
  | .insert key value outcomes => do
      let (hm, node, _) ← hmapInsert hm key value outcomes
      return (hm, .inserted node)
  | .delete key => do
      let (hm, code, out) ← hmapDelete hm key
      return (hm, .deleted code out)

variable {hashFunc : κ → UInt32} {keyCompare : κ → κ → Int}

/-- What a call means on the abstract map. -/
inductive MapSpec (law : LawfulKeys hashFunc keyCompare) :
    law.Map ν → HmapCall κ ν → HmapResult κ ν → law.Map ν → Prop where
  /-- The key has the value now. -/
  | stored {m : law.Map ν} {key : κ} {value : ν} {outcomes : MallocOutcomes} {node : HmapNode κ ν}
      (key_eq : keyCompare node.key key = 0) (value_eq : node.value = value) :
      MapSpec law m (.insert key value outcomes) (.inserted (some node))
        (m.insert (law.key key) value)
  /-- `NULL`, for a new key and when an allocation failed. -/
  | refused {m : law.Map ν} {key : κ} {value : ν} {outcomes : MallocOutcomes}
      (new : law.key key ∉ m) (failed : false ∈ outcomes) :
      MapSpec law m (.insert key value outcomes) (.inserted none) m
  /-- The key was there. -/
  | deleted {m : law.Map ν} {key : κ} {value : ν} (old : m.lookup (law.key key) = some value) :
      MapSpec law m (.delete key) (.deleted 0 (some value)) (m.erase (law.key key))
  /-- The key was not there. -/
  | absent {m : law.Map ν} {key : κ} (new : law.key key ∉ m) :
      MapSpec law m (.delete key) (.deleted (-1) none) m

/-- The map in memory answers as the abstract map does. -/
structure Agrees (law : LawfulKeys hashFunc keyCompare) (hm : Hmap κ ν) (m : law.Map ν) : Prop where
  get : ∀ key, ∃ node, hmapGet hm key = .ok node ∧
    node.map (·.value) = m.lookup (law.key key) ∧ ∀ n, node = some n → keyCompare n.key key = 0
  getValue : ∀ key, hmapGetValue hm key = .ok (m.lookup (law.key key))
  contains : ∀ key, hmapContains hm key = .ok (m.lookup (law.key key)).isSome
  size : hmapSize hm = m.keys.card
  /-- An insertion at a key that is there uses its node again. -/
  inPlace : ∀ key value outcomes, law.key key ∈ m →
    ∃ hm' node rest, hmapInsert hm key value outcomes = .ok (hm', some node, rest) ∧
      (hm'.nodes.map (·.key)).Perm (hm.nodes.map (·.key)) ∧ hmapSize hm' = hmapSize hm
  /-- No two nodes have one key. -/
  once : hm.nodes.Pairwise fun a b => keyCompare a.key b.key ≠ 0
  /-- A node is in the bucket of its hash. -/
  bucket : ∀ i chain, hm.buckets[i]? = some chain →
    ∀ node ∈ chain, (hashFunc node.key).toNat % hm.nbuckets = i

variable {law : LawfulKeys hashFunc keyCompare} {hm : Hmap κ ν} {m : law.Map ν}

theorem Represents.size (h : Represents law hm m) : hmapSize hm = m.keys.card := by
  rw [hmapSize, h.len_eq, card_keys_eq, h.entries_eq, Multiset.coe_card, List.length_map]

theorem Represents.once (h : Represents law hm m) :
    hm.nodes.Pairwise fun a b => keyCompare a.key b.key ≠ 0 := by
  have hnodup := m.nodupKeys
  rw [h.entries_eq, Multiset.coe_nodupKeys, List.NodupKeys, List.keys, List.map_map,
    List.Nodup, List.pairwise_map] at hnodup
  exact hnodup.imp fun hne heq => hne (law.key_eq_iff.mpr heq)

theorem Represents.agrees (h : Represents law hm m) : Agrees law hm m where
  get := h.get
  getValue := h.getValue
  contains := h.contains
  size := h.size
  inPlace key value outcomes hmem := by
    obtain ⟨hm', node, rest, hrun, hcases, hkeys, -⟩ := h.insert key value outcomes
    rcases hcases with ⟨-, hnew, -, -⟩ | ⟨n, rfl, -, -, h'⟩
    · exact absurd hmem hnew
    · refine ⟨hm', n, rest, hrun, hkeys hmem, ?_⟩
      have hlen := (hkeys hmem).length_eq
      rw [List.length_map, List.length_map] at hlen
      rw [hmapSize, hmapSize, h.len_eq, h'.len_eq, hlen]
  once := h.once
  bucket i chain hchain node hnode := by
    rw [← h.placed i chain hchain node hnode, bucketOf, h.hashFunc_eq]

/-- The step lemma: each call follows the specification, and the invariant holds after it. -/
theorem Represents.step_ok (h : Represents law hm m) (call : HmapCall κ ν) :
    ∃ hm' result m', hmapStep hm call = .ok (hm', result) ∧ MapSpec law m call result m' ∧
      Represents law hm' m' := by
  cases call with
  | insert key value outcomes =>
      obtain ⟨hm', node, rest, hrun, hcases, -, -⟩ := h.insert key value outcomes
      have hstep : hmapStep hm (.insert key value outcomes) = .ok (hm', .inserted node) := by
        rw [hmapStep, hrun]
        rfl
      rcases hcases with ⟨rfl, hnew, hfailed, h'⟩ | ⟨n, rfl, hkey, hvalue, h'⟩
      · exact ⟨hm', _, m, hstep, .refused hnew hfailed, h'⟩
      · exact ⟨hm', _, _, hstep, .stored hkey hvalue, h'⟩
  | delete key =>
      obtain ⟨hm', hrun, h'⟩ := h.delete key
      refine ⟨hm', .deleted (if law.key key ∈ m then 0 else -1) (m.lookup (law.key key)), _, ?_, ?_,
        h'⟩
      · rw [hmapStep, hrun]
        rfl
      · cases hlookup : m.lookup (law.key key) with
        | some value =>
            rw [if_pos (Finmap.mem_of_lookup_eq_some hlookup)]
            exact .deleted hlookup
        | none =>
            have hnew := Finmap.lookup_eq_none.mp hlookup
            rw [if_neg hnew, erase_of_notMem hnew]
            exact .absent hnew

/-- The integer and the string functions are lawful. For lawful functions, and a new map whose
bucket array is there, every run of insertions and deletions follows the abstract map, whatever
allocations fail in it, and the map in memory agrees with the abstract map at its end. -/
theorem hmap_refinement :
    LawfulKeys hmapIntHash hmapIntCmp ∧ LawfulKeys hmapStrHash hmapStrCmp ∧
    ∀ (κ ν : Type) (hashFunc : κ → UInt32) (keyCompare : κ → κ → Int)
      (law : LawfulKeys hashFunc keyCompare) (nbuckets : Nat) (outcomes : MallocOutcomes)
      (calls : List (HmapCall κ ν)), 1 ≤ nbuckets →
      (hmapInit ν nbuckets hashFunc keyCompare outcomes).1.buckets ≠ [] →
      ∃ hm results m,
        runResults hmapStep (hmapInit ν nbuckets hashFunc keyCompare outcomes).1 calls
          = .ok (hm, results) ∧
        SpecRun (MapSpec law) ∅ calls results m ∧ Agrees law hm m := by
  refine ⟨lawfulKeys_int, lawfulKeys_str, ?_⟩
  intro κ ν hashFunc keyCompare law nbuckets outcomes calls hpos hmem
  obtain ⟨hm, results, m, hrun, hspec, h⟩ := run_simulation hmapStep (MapSpec law)
    (Represents law) (fun _ _ call h => h.step_ok call) calls _ _
    (represents_init law _ _ hpos hmem)
  exact ⟨hm, results, m, hrun, hspec, h.agrees⟩

/-- A map of integers with one bucket. The second insertion finds no memory for its node. -/
theorem hmap_refinement_failed_malloc :
    ∃ hm results m,
      runResults hmapStep (hmapInit UInt8 1 hmapIntHash hmapIntCmp []).1
        [.insert 5 7 [], .insert 6 8 [true, false], .insert 5 9 [], .delete 6]
        = .ok (hm, results) ∧
      results = [.inserted (some ⟨5, 7⟩), .inserted none, .inserted (some ⟨5, 9⟩),
        .deleted (-1) none] ∧
      hmapGetValue hm 5 = .ok (some 9) ∧ Agrees lawfulKeys_int hm m := by
  obtain ⟨hm, results, m, hrun, -, hagrees⟩ := hmap_refinement.2.2 UInt32 UInt8 hmapIntHash
    hmapIntCmp lawfulKeys_int 1 []
    [.insert 5 7 [], .insert 6 8 [true, false], .insert 5 9 [], .delete 6] (Nat.le_refl 1)
    (by decide)
  -- the run evaluates, so its map and its results are the ones of the theorem
  obtain ⟨hm', hrun', hvalue⟩ : ∃ hm',
      runResults hmapStep (hmapInit UInt8 1 hmapIntHash hmapIntCmp []).1
        [.insert 5 7 [], .insert 6 8 [true, false], .insert 5 9 [], .delete 6]
        = .ok (hm', [.inserted (some ⟨5, 7⟩), .inserted none, .inserted (some ⟨5, 9⟩),
          .deleted (-1) none]) ∧
      hmapGetValue hm' 5 = .ok (some 9) := ⟨_, rfl, rfl⟩
  obtain ⟨rfl, rfl⟩ := Prod.mk.inj (Except.ok.inj (hrun.symm.trans hrun'))
  exact ⟨hm, _, m, hrun, rfl, hvalue, hagrees⟩

end MustDb.Proofs.Libv
