import MustDb.Lib.Except
import MustDb.Lib.FinmapEntries
import MustDb.Libv.Hmap

/-!
# `MustDb.Proofs.Libv.Hmap`: the invariant of the hash map

Keys that compare equal are one key of the map, so the abstract keys are the classes of the
comparison (`LawfulKeys.Key`), and the abstract map is a `Finmap` on them. `Represents law hm m`
says that the nodes of `hm` are the entries of `m`, each in the bucket of its hash, and that `len`
counts them. It holds after `hmap_init` (`represents_init`), and each operation has one lemma about
it: `Represents.get`, `Represents.loadCheck`, `Represents.insert`, `Represents.setValue` and
`Represents.delete`.

The hash is computed before the growth, which is sound because a growth changes neither the keys nor
the hash function, only the bucket count.
-/

set_option autoImplicit false

namespace MustDb.Proofs.Libv

open MustDb.Lib
open MustDb.Libv

variable {κ ν : Type}

/-! ### The keys -/

/-- The comparison is an equivalence, and keys that compare equal have one hash. -/
structure LawfulKeys (hashFunc : κ → UInt32) (keyCompare : κ → κ → Int) : Prop where
  refl : ∀ a, keyCompare a a = 0
  symm : ∀ a b, keyCompare a b = 0 → keyCompare b a = 0
  trans : ∀ a b c, keyCompare a b = 0 → keyCompare b c = 0 → keyCompare a c = 0
  hash_eq : ∀ a b, keyCompare a b = 0 → hashFunc a = hashFunc b

variable {hashFunc : κ → UInt32} {keyCompare : κ → κ → Int}

/-- Keys are the same when they compare equal. -/
def LawfulKeys.setoid (law : LawfulKeys hashFunc keyCompare) : Setoid κ where
  r a b := keyCompare a b = 0
  iseqv := { refl := law.refl, symm := law.symm _ _, trans := law.trans _ _ _ }

/-- An abstract key: all keys that compare equal. -/
def LawfulKeys.Key (law : LawfulKeys hashFunc keyCompare) : Type := Quotient law.setoid

/-- The abstract key of a key. -/
def LawfulKeys.key (law : LawfulKeys hashFunc keyCompare) (a : κ) : law.Key :=
  Quotient.mk law.setoid a

theorem LawfulKeys.key_eq_iff (law : LawfulKeys hashFunc keyCompare) {a b : κ} :
    law.key a = law.key b ↔ keyCompare a b = 0 :=
  Quotient.eq (r := law.setoid)

instance (law : LawfulKeys hashFunc keyCompare) : DecidableEq law.Key :=
  have : ∀ a b, Decidable (law.setoid.r a b) := fun a b =>
    inferInstanceAs (Decidable (keyCompare a b = 0))
  inferInstanceAs (DecidableEq (Quotient law.setoid))

/-- The abstract map. -/
abbrev LawfulKeys.Map (law : LawfulKeys hashFunc keyCompare) (ν : Type) : Type :=
  Finmap fun _ : law.Key => ν

/-- The entry of the abstract map that a node holds. -/
def LawfulKeys.entry (law : LawfulKeys hashFunc keyCompare) (node : HmapNode κ ν) :
    Sigma fun _ : law.Key => ν :=
  ⟨law.key node.key, node.value⟩

/-- The comparison of signed integers is zero exactly on equal bits. -/
theorem hmapIntCmp_eq_zero_iff {a b : UInt32} : hmapIntCmp a b = 0 ↔ a = b := by
  constructor
  · intro h
    simp only [hmapIntCmp, gt_iff_lt, Int32.lt_iff_toInt_lt] at h
    have hint : a.toInt32.toInt = b.toInt32.toInt := by
      split at h <;> split at h <;> omega
    have hbits := congrArg Int32.toUInt32 (Int32.toInt_inj.mp hint)
    rwa [UInt32.toUInt32_toInt32, UInt32.toUInt32_toInt32] at hbits
  · rintro rfl
    simp [hmapIntCmp]

/-- The functions of `hmap_init_int` are lawful. -/
theorem lawfulKeys_int : LawfulKeys hmapIntHash hmapIntCmp where
  refl _ := hmapIntCmp_eq_zero_iff.mpr rfl
  symm _ _ h := hmapIntCmp_eq_zero_iff.mpr (hmapIntCmp_eq_zero_iff.mp h).symm
  trans _ _ _ h h' :=
    hmapIntCmp_eq_zero_iff.mpr ((hmapIntCmp_eq_zero_iff.mp h).trans (hmapIntCmp_eq_zero_iff.mp h'))
  hash_eq _ _ h := congrArg hmapIntHash (hmapIntCmp_eq_zero_iff.mp h)

/-- The functions of `hmap_init_str` are lawful. -/
theorem lawfulKeys_str : LawfulKeys hmapStrHash hmapStrCmp where
  refl _ := strcmp_eq_zero_iff.mpr rfl
  symm _ _ h := strcmp_eq_zero_iff.mpr (strcmp_eq_zero_iff.mp h).symm
  trans _ _ _ h h' :=
    strcmp_eq_zero_iff.mpr ((strcmp_eq_zero_iff.mp h).trans (strcmp_eq_zero_iff.mp h'))
  hash_eq _ _ h := congrArg hmapStrHash (strcmp_eq_zero_iff.mp h)

/-! ### The chains -/

/-- The nodes whose key compares equal. -/
def hasKey (keyCompare : κ → κ → Int) (key : κ) (node : HmapNode κ ν) : Bool :=
  keyCompare node.key key = 0

/-- The loop of `hmap_insert` changes the value of the first node with the key. -/
theorem chainStore_eq (key : κ) (value : ν) (chain : List (HmapNode κ ν)) :
    chainStore keyCompare key value chain
      = (splitFirst (hasKey keyCompare key) chain).map fun found =>
          (found.1 ++ { found.2.1 with value } :: found.2.2, { found.2.1 with value }) := by
  induction chain with
  | nil => rfl
  | cons existing next ih =>
      rw [chainStore, splitFirst, hasKey, ih]
      by_cases heq : keyCompare existing.key key = 0
      · simp [heq]
      · cases splitFirst (hasKey keyCompare key) next with
        | none => simp [heq]
        | some found => simp [heq]

/-- The loop of `hmap_delete` takes the first node with the key out of the chain. -/
theorem chainUnlink_eq (key : κ) (chain : List (HmapNode κ ν)) :
    chainUnlink keyCompare key chain
      = (splitFirst (hasKey keyCompare key) chain).map fun found =>
          (found.1 ++ found.2.2, found.2.1) := by
  induction chain with
  | nil => rfl
  | cons first next ih =>
      rw [chainUnlink, splitFirst, hasKey, ih]
      by_cases heq : keyCompare first.key key = 0
      · simp [heq]
      · cases splitFirst (hasKey keyCompare key) next with
        | none => simp [heq]
        | some found => simp [heq]

theorem ne_of_splitFirst_eq_none {key : κ} {chain : List (HmapNode κ ν)}
    (h : splitFirst (hasKey keyCompare key) chain = none) :
    ∀ node ∈ chain, keyCompare node.key key ≠ 0 :=
  fun node hnode => of_decide_eq_false (splitFirst_eq_none h node hnode)

theorem chainStore_eq_none {key : κ} {value : ν} {chain : List (HmapNode κ ν)}
    (h : chainStore keyCompare key value chain = none) :
    ∀ node ∈ chain, keyCompare node.key key ≠ 0 := by
  rw [chainStore_eq, Option.map_eq_none_iff] at h
  exact ne_of_splitFirst_eq_none h

theorem chainStore_eq_some {key : κ} {value : ν} {chain chain' : List (HmapNode κ ν)}
    {node : HmapNode κ ν} (h : chainStore keyCompare key value chain = some (chain', node)) :
    ∃ pre existing post, chain = pre ++ existing :: post ∧ keyCompare existing.key key = 0 ∧
      node = { existing with value } ∧ chain' = pre ++ node :: post := by
  rw [chainStore_eq] at h
  obtain ⟨⟨pre, existing, post⟩, hsplit, heq⟩ := Option.map_eq_some_iff.mp h
  cases heq
  obtain ⟨hchain, hkey⟩ := splitFirst_eq_some hsplit
  exact ⟨pre, existing, post, hchain, of_decide_eq_true hkey, rfl, rfl⟩

theorem chainUnlink_eq_none {key : κ} {chain : List (HmapNode κ ν)}
    (h : chainUnlink keyCompare key chain = none) :
    ∀ node ∈ chain, keyCompare node.key key ≠ 0 := by
  rw [chainUnlink_eq, Option.map_eq_none_iff] at h
  exact ne_of_splitFirst_eq_none h

theorem chainUnlink_eq_some {key : κ} {chain chain' : List (HmapNode κ ν)} {node : HmapNode κ ν}
    (h : chainUnlink keyCompare key chain = some (chain', node)) :
    ∃ pre post, chain = pre ++ node :: post ∧ keyCompare node.key key = 0 ∧
      chain' = pre ++ post := by
  rw [chainUnlink_eq] at h
  obtain ⟨⟨pre, found, post⟩, hsplit, heq⟩ := Option.map_eq_some_iff.mp h
  cases heq
  obtain ⟨hchain, hkey⟩ := splitFirst_eq_some hsplit
  exact ⟨pre, post, hchain, of_decide_eq_true hkey, rfl⟩

/-! ### The invariant -/

/-- The bucket that a node belongs to. -/
def bucketOf (hm : Hmap κ ν) (node : HmapNode κ ν) : Nat :=
  (hm.hashFunc node.key).toNat % hm.nbuckets

/-- The map in memory has the entries of the abstract map. -/
structure Represents (law : LawfulKeys hashFunc keyCompare) (hm : Hmap κ ν) (m : law.Map ν) :
    Prop where
  hashFunc_eq : hm.hashFunc = hashFunc
  keyCompare_eq : hm.keyCompare = keyCompare
  nbuckets_pos : 0 < hm.nbuckets
  nbuckets_lt : hm.nbuckets * POINTER_SIZE < 2 ^ 64
  length_eq : hm.buckets.length = hm.nbuckets
  placed : Placed (bucketOf hm) hm.buckets
  entries_eq : m.entries = ↑(hm.nodes.map law.entry)
  len_eq : hm.len = hm.nodes.length

/-- A new map is empty. -/
theorem represents_init (law : LawfulKeys hashFunc keyCompare) (nbuckets : Nat)
    (outcomes : MallocOutcomes) (hpos : 1 ≤ nbuckets)
    (hmem : (hmapInit ν nbuckets hashFunc keyCompare outcomes).1.buckets ≠ []) :
    Represents law (hmapInit ν nbuckets hashFunc keyCompare outcomes).1 ∅ := by
  have hok : (calloc nbuckets POINTER_SIZE outcomes).1 = true := by
    by_contra hfailed
    simp [hmapInit, hfailed] at hmem
  have hbuckets : (hmapInit ν nbuckets hashFunc keyCompare outcomes).1.buckets
      = List.replicate nbuckets [] := by
    simp [hmapInit, hok]
  have hnodes : (hmapInit ν nbuckets hashFunc keyCompare outcomes).1.nodes = [] := by
    rw [Hmap.nodes, hbuckets, List.flatten_replicate_nil]
  refine { hashFunc_eq := rfl, keyCompare_eq := rfl, nbuckets_pos := hpos, nbuckets_lt := ?_,
           length_eq := ?_, placed := ?_, entries_eq := ?_, len_eq := ?_ }
  · -- `calloc` refuses a size that does not fit
    show nbuckets * POINTER_SIZE < 2 ^ 64
    by_contra hlarge
    rw [calloc, if_neg hlarge] at hok
    cases hok
  · rw [hbuckets, List.length_replicate]
    rfl
  · rw [hbuckets]
    exact placed_replicate _ _
  · rw [hnodes]
    rfl
  · rw [hnodes]
    rfl

section Represents
variable {law : LawfulKeys hashFunc keyCompare} {hm : Hmap κ ν} {m : law.Map ν}

/-- The chain that an operation on `key` looks at. -/
theorem Represents.chain (h : Represents law hm m) (key : κ) :
    ∃ chain, hm.buckets[(hashFunc key).toNat % hm.nbuckets]? = some chain ∧
      hmapBucketIndex hm (hm.hashFunc key) = .ok ((hashFunc key).toNat % hm.nbuckets) ∧
      hmapChain hm ((hashFunc key).toNat % hm.nbuckets) = .ok chain := by
  have hlt : (hashFunc key).toNat % hm.nbuckets < hm.buckets.length := by
    rw [h.length_eq]
    exact Nat.mod_lt _ h.nbuckets_pos
  have hchain := List.getElem?_eq_getElem hlt
  refine ⟨_, hchain, ?_, ?_⟩
  · rw [hmapBucketIndex, if_neg h.nbuckets_pos.ne', h.hashFunc_eq]
  · rw [hmapChain, hchain]

/-- The map has the keys and values of the nodes. -/
theorem Represents.lookup_iff_node (h : Represents law hm m) (key : κ) (value : ν) :
    m.lookup (law.key key) = some value ↔
      ∃ node ∈ hm.nodes, keyCompare node.key key = 0 ∧ node.value = value := by
  rw [Finmap.lookup_eq_some_iff, h.entries_eq, Multiset.mem_coe, List.mem_map]
  simp only [LawfulKeys.entry, Sigma.mk.injEq, heq_eq_eq, law.key_eq_iff]

/-- The nodes of a key are in its chain, so the chain decides the lookup. -/
theorem Represents.lookup_iff (h : Represents law hm m) {key : κ} {chain : List (HmapNode κ ν)}
    (hchain : hm.buckets[(hashFunc key).toNat % hm.nbuckets]? = some chain) {value : ν} :
    m.lookup (law.key key) = some value ↔
      ∃ node ∈ chain, keyCompare node.key key = 0 ∧ node.value = value := by
  rw [h.lookup_iff_node]
  constructor
  · rintro ⟨node, hnode, hentry⟩
    have hplace : bucketOf hm node = (hashFunc key).toNat % hm.nbuckets := by
      rw [bucketOf, h.hashFunc_eq, law.hash_eq _ _ hentry.1]
    rw [← hplace] at hchain
    exact ⟨node, h.placed.mem_bucket hnode hchain, hentry⟩
  · rintro ⟨node, hnode, hentry⟩
    exact ⟨node, List.mem_flatten_of_mem (List.mem_of_getElem? hchain) hnode, hentry⟩

/-- A chain without the key: the map does not have it. -/
theorem Represents.not_mem (h : Represents law hm m) {key : κ} {chain : List (HmapNode κ ν)}
    (hchain : hm.buckets[(hashFunc key).toNat % hm.nbuckets]? = some chain)
    (hnone : ∀ node ∈ chain, keyCompare node.key key ≠ 0) : law.key key ∉ m := by
  rw [Finmap.mem_iff]
  rintro ⟨value, hvalue⟩
  obtain ⟨node, hnode, hkey, -⟩ := (h.lookup_iff hchain).mp hvalue
  exact hnone node hnode hkey

/-! ### Lookup -/

/-- The spec of `hmap_get`. -/
theorem Represents.get (h : Represents law hm m) (key : κ) :
    ∃ node, hmapGet hm key = .ok node ∧ node.map (·.value) = m.lookup (law.key key) ∧
      ∀ n, node = some n → keyCompare n.key key = 0 := by
  obtain ⟨chain, hchain, hindex, hread⟩ := h.chain key
  refine ⟨chain.find? fun node => keyCompare node.key key = 0, ?_, ?_, ?_⟩
  · rw [hmapGet, hindex, ok_bind, hread, ok_bind, h.keyCompare_eq]
    rfl
  · cases hfind : chain.find? fun node => keyCompare node.key key = 0 with
    | none =>
        have hnone := List.find?_eq_none.mp hfind
        exact (Finmap.lookup_eq_none.mpr
          (h.not_mem hchain fun node hnode => by simpa using hnone node hnode)).symm
    | some node =>
        have hkey : keyCompare node.key key = 0 := by simpa using List.find?_some hfind
        exact ((h.lookup_iff hchain).mpr ⟨node, List.mem_of_find?_eq_some hfind, hkey, rfl⟩).symm
  · intro n hfind
    simpa using List.find?_some hfind

/-- The spec of `hmap_get_value`. -/
theorem Represents.getValue (h : Represents law hm m) (key : κ) :
    hmapGetValue hm key = .ok (m.lookup (law.key key)) := by
  obtain ⟨node, hget, hvalue, -⟩ := h.get key
  rw [hmapGetValue, hget, ok_bind, hvalue]
  rfl

/-- The spec of `hmap_contains`. -/
theorem Represents.contains (h : Represents law hm m) (key : κ) :
    hmapContains hm key = .ok (m.lookup (law.key key)).isSome := by
  obtain ⟨chain, hchain, hindex, hread⟩ := h.chain key
  rw [hmapContains, hindex, ok_bind, hread, ok_bind, h.keyCompare_eq]
  refine congrArg Except.ok ?_
  rw [Bool.eq_iff_iff, List.any_eq_true, Option.isSome_iff_exists]
  simp only [h.lookup_iff hchain, decide_eq_true_eq]
  constructor
  · rintro ⟨node, hnode, hkey⟩
    exact ⟨node.value, node, hnode, hkey, rfl⟩
  · rintro ⟨_, node, hnode, hkey, -⟩
    exact ⟨node, hnode, hkey⟩

/-! ### Growth -/

/-- A loop over the first `n` chains. -/
theorem foldlM_chains {β : Type} (f : β → List (HmapNode κ ν) → β) (init : β) {n : Nat}
    (hn : n ≤ hm.buckets.length) :
    ((List.range n).foldlM (fun acc i => do
      let chain ← hmapChain hm i
      return f acc chain) init : Except Fault β) = .ok ((hm.buckets.take n).foldl f init) := by
  induction n with
  | zero => rfl
  | succ n ih =>
      have hlt : n < hm.buckets.length := hn
      have hchain : hmapChain hm n = .ok hm.buckets[n] := by
        rw [hmapChain, List.getElem?_eq_getElem hlt]
      rw [List.range_succ, List.foldlM_append, ih (Nat.le_of_succ_le hn), ok_bind,
        List.foldlM_cons, hchain, ok_bind, List.take_succ_eq_append_getElem hlt,
        List.foldl_append]
      rfl

/-- The map after a growth that gets its memory. -/
def grown (hm : Hmap κ ν) : Hmap κ ν :=
  { hm with
    buckets := pushAll (fun node => (hm.hashFunc node.key).toNat % (hm.nbuckets * 2))
      (List.replicate (hm.nbuckets * 2) []) hm.nodes
    nbuckets := hm.nbuckets * 2 }

/-- A growth moves the nodes to their new buckets, or leaves the map as it is. -/
theorem Represents.grow_cases (h : Represents law hm m) (outcomes : MallocOutcomes) :
    ∃ rest, (∀ outcome ∈ rest, outcome ∈ outcomes) ∧
      (hmapGrow hm outcomes = .ok (hm, rest) ∨
        hmapGrow hm outcomes = .ok (grown hm, rest) ∧
          (grown hm).nbuckets * POINTER_SIZE < 2 ^ 64) := by
  -- the bytes of the old array fit, so the doubled number of buckets does not wrap
  have hwrap : hm.nbuckets * 2 % 2 ^ 64 = hm.nbuckets * 2 := by
    have hlt := h.nbuckets_lt
    rw [show POINTER_SIZE = 8 from rfl] at hlt
    omega
  refine ⟨(calloc (hm.nbuckets * 2) POINTER_SIZE outcomes).2, fun _ => mem_of_mem_calloc, ?_⟩
  rw [hmapGrow, hwrap]
  cases hcalloc : calloc (hm.nbuckets * 2) POINTER_SIZE outcomes with
  | mk ok rest =>
      cases ok with
      | false => exact Or.inl rfl
      | true =>
          have hloop := foldlM_chains
            (pushAll fun node => (hm.hashFunc node.key).toNat % (hm.nbuckets * 2))
            (List.replicate (hm.nbuckets * 2) []) h.length_eq.ge
          -- the loop goes over all chains, so it sees every node once
          rw [List.take_of_length_le h.length_eq.le] at hloop
          refine Or.inr ⟨?_, ?_⟩
          · simp only [hloop, ok_bind]
            rw [grown, pushAll, Hmap.nodes, List.foldl_flatten]
            rfl
          · show hm.nbuckets * 2 * POINTER_SIZE < 2 ^ 64
            by_contra hlarge
            rw [calloc, if_neg hlarge] at hcalloc
            cases hcalloc

theorem Represents.nodes_grown (h : Represents law hm m) : (grown hm).nodes.Perm hm.nodes := by
  have hpos : 0 < hm.nbuckets * 2 := Nat.mul_pos h.nbuckets_pos (by decide)
  have hflatten : (grown hm).nodes.Perm
      (hm.nodes ++ (List.replicate (hm.nbuckets * 2) []).flatten) := by
    refine flatten_pushAll fun node _ => ?_
    rw [List.length_replicate]
    exact Nat.mod_lt _ hpos
  rwa [List.flatten_replicate_nil, List.append_nil] at hflatten

theorem Represents.grown_represents (h : Represents law hm m)
    (hlt : (grown hm).nbuckets * POINTER_SIZE < 2 ^ 64) : Represents law (grown hm) m where
  hashFunc_eq := h.hashFunc_eq
  keyCompare_eq := h.keyCompare_eq
  nbuckets_pos := Nat.mul_pos h.nbuckets_pos (by decide)
  nbuckets_lt := hlt
  length_eq := by
    show (pushAll _ _ _).length = _
    rw [length_pushAll, List.length_replicate]
    rfl
  placed := (placed_replicate _ _).pushAll _
  entries_eq := by
    rw [h.entries_eq, Multiset.coe_eq_coe]
    exact (h.nodes_grown.map _).symm
  len_eq := by
    rw [h.nodes_grown.length_eq]
    exact h.len_eq

/-! ### Changes of one chain -/

/-- A new content of one chain. -/
theorem Represents.of_set (h : Represents law hm m) {i len : Nat} {chain : List (HmapNode κ ν)}
    {m' : law.Map ν} (hplace : ∀ node ∈ chain, bucketOf hm node = i)
    (hentries : m'.entries = ↑((hm.buckets.set i chain).flatten.map law.entry))
    (hlen : len = (hm.buckets.set i chain).flatten.length) :
    Represents law { hm with buckets := hm.buckets.set i chain, len } m' where
  hashFunc_eq := h.hashFunc_eq
  keyCompare_eq := h.keyCompare_eq
  nbuckets_pos := h.nbuckets_pos
  nbuckets_lt := h.nbuckets_lt
  length_eq := by
    show (hm.buckets.set i chain).length = hm.nbuckets
    rw [List.length_set, h.length_eq]
  placed := h.placed.set hplace
  entries_eq := hentries
  len_eq := hlen

/-- The entry of the key, and those of the other nodes. -/
theorem Represents.entries_cons (h : Represents law hm m) {key : κ} {existing : HmapNode κ ν}
    {others : List (HmapNode κ ν)} (hkey : keyCompare existing.key key = 0)
    (hothers : hm.nodes.Perm (existing :: others)) :
    m.entries = ⟨law.key key, existing.value⟩ ::ₘ ↑(others.map law.entry) := by
  rw [h.entries_eq, Multiset.coe_eq_coe.mpr (hothers.map law.entry), List.map_cons,
    ← Multiset.cons_coe, LawfulKeys.entry, law.key_eq_iff.mpr hkey]

section OneNode
variable {key : κ} {pre post : List (HmapNode κ ν)} {existing : HmapNode κ ν}
  (hchain : hm.buckets[(hashFunc key).toNat % hm.nbuckets]? = some (pre ++ existing :: post))
  (hkey : keyCompare existing.key key = 0)
include hchain hkey

/-- The node of the key gets a new value. -/
theorem Represents.store (h : Represents law hm m) (value : ν) :
    Represents law
        { hm with
          buckets := hm.buckets.set ((hashFunc key).toNat % hm.nbuckets)
            (pre ++ { existing with value } :: post) }
        (m.insert (law.key key) value) ∧
      ((hm.buckets.set ((hashFunc key).toNat % hm.nbuckets)
          (pre ++ { existing with value } :: post)).flatten.map (·.key)).Perm
        (hm.nodes.map (·.key)) := by
  obtain ⟨others, (hold : hm.nodes.Perm _), hnew, -⟩ := exists_others hchain
  have hentries := entries_insert_of_cons (h.entries_cons hkey hold) value
  -- the key of the node stays, so the node stays in its bucket
  have hplace : ∀ node ∈ pre ++ { existing with value } :: post,
      bucketOf hm node = (hashFunc key).toNat % hm.nbuckets := by
    intro node hnode
    rcases List.mem_append.mp hnode with hnode | hnode
    · exact h.placed _ _ hchain node (List.mem_append_left _ hnode)
    · rcases List.mem_cons.mp hnode with rfl | hnode
      · exact h.placed _ _ hchain existing (by simp)
      · exact h.placed _ _ hchain node (List.mem_append_right _ (List.mem_cons_of_mem _ hnode))
  refine ⟨h.of_set hplace ?_ ?_, ?_⟩
  · rw [hentries, Multiset.coe_eq_coe.mpr ((hnew _).map law.entry), List.map_cons,
      ← Multiset.cons_coe, LawfulKeys.entry, law.key_eq_iff.mpr hkey]
  · rw [h.len_eq, (hnew _).length_eq, hold.length_eq]
    rfl
  · refine ((hnew _).map _).trans ?_
    exact (hold.map (·.key)).symm

/-- The node of the key is taken out. -/
theorem Represents.unlink (h : Represents law hm m) :
    Represents law
      { hm with
        buckets := hm.buckets.set ((hashFunc key).toNat % hm.nbuckets) (pre ++ post)
        len := hm.len - 1 }
      (m.erase (law.key key)) := by
  obtain ⟨others, (hold : hm.nodes.Perm _), -, hnew⟩ := exists_others hchain
  have hentries := entries_erase_of_cons (h.entries_cons hkey hold)
  refine h.of_set ?_ ?_ ?_
  · intro node hnode
    refine h.placed _ _ hchain node ?_
    rcases List.mem_append.mp hnode with hnode | hnode
    · exact List.mem_append_left _ hnode
    · exact List.mem_append_right _ (List.mem_cons_of_mem _ hnode)
  · rw [hentries, Multiset.coe_eq_coe.mpr (hnew.map law.entry)]
  · rw [h.len_eq, hnew.length_eq, hold.length_eq]
    rfl

end OneNode

/-- A node with a new key goes to the front of its chain. -/
theorem Represents.cons (h : Represents law hm m) {key : κ} {chain : List (HmapNode κ ν)}
    (hchain : hm.buckets[(hashFunc key).toNat % hm.nbuckets]? = some chain)
    (hnew : law.key key ∉ m) (value : ν) :
    Represents law
      { hm with
        buckets := hm.buckets.set ((hashFunc key).toNat % hm.nbuckets) ({ key, value } :: chain)
        len := hm.len + 1 }
      (m.insert (law.key key) value) := by
  obtain ⟨rest, (hold : hm.nodes.Perm _), hset⟩ := exists_rest hchain
  -- the nodes of the map and the new one, in some order
  have hnodes : (hm.buckets.set _ ({ key, value } :: chain)).flatten.Perm
      ({ key, value } :: hm.nodes) := (hset _).trans (hold.symm.cons _)
  refine h.of_set ?_ ?_ ?_
  · intro node hnode
    rcases List.mem_cons.mp hnode with rfl | hnode
    · rw [bucketOf, h.hashFunc_eq]
    · exact h.placed _ _ hchain node hnode
  · rw [Finmap.entries_insert_of_notMem hnew, h.entries_eq,
      Multiset.coe_eq_coe.mpr (hnodes.map law.entry), List.map_cons, ← Multiset.cons_coe]
    rfl
  · rw [h.len_eq, hnodes.length_eq, List.length_cons]

/-! ### The operations -/

/-- The map after the load check of `hmap_insert`, whether or not it grew. -/
theorem Represents.loadCheck (h : Represents law hm m) (outcomes : MallocOutcomes) :
    ∃ hm' rest, hmapLoadCheck hm outcomes = .ok (hm', rest) ∧ Represents law hm' m ∧
      hm'.nodes.Perm hm.nodes ∧ ∀ outcome ∈ rest, outcome ∈ outcomes := by
  rw [hmapLoadCheck]
  split
  · obtain ⟨rest, hsub, hgrow | ⟨hgrow, hlt⟩⟩ := h.grow_cases outcomes
    · exact ⟨hm, rest, hgrow, h, List.Perm.refl _, hsub⟩
    · exact ⟨grown hm, rest, hgrow, h.grown_represents hlt, h.nodes_grown, hsub⟩
  · exact ⟨hm, outcomes, rfl, h, List.Perm.refl _, fun _ => id⟩

/-- What `hmap_insert` can do. It returns `NULL` only for a new key, when an allocation failed, and
then the map stays as it is. Else the key has the value. When the key was there, its node is used
again. -/
theorem Represents.insert (h : Represents law hm m) (key : κ) (value : ν)
    (outcomes : MallocOutcomes) :
    ∃ hm' node rest, hmapInsert hm key value outcomes = .ok (hm', node, rest) ∧
      (node = none ∧ law.key key ∉ m ∧ false ∈ outcomes ∧ Represents law hm' m ∨
        ∃ n, node = some n ∧ keyCompare n.key key = 0 ∧ n.value = value ∧
          Represents law hm' (m.insert (law.key key) value)) ∧
      (law.key key ∈ m → (hm'.nodes.map (·.key)).Perm (hm.nodes.map (·.key))) ∧
      ∀ outcome ∈ rest, outcome ∈ outcomes := by
  obtain ⟨hm₁, rest, hload, h₁, hperm, hsub⟩ := h.loadCheck outcomes
  obtain ⟨chain, hchain, hindex, hread⟩ := h₁.chain key
  -- the growth keeps the hash function, so the index of the code is the one of the new map
  have hrun : hmapInsert hm key value outcomes = .ok (hmapInsertAt hm₁
      ((hashFunc key).toNat % hm₁.nbuckets) chain key value rest) := by
    rw [h₁.hashFunc_eq.trans h.hashFunc_eq.symm] at hindex
    rw [hmapInsert, hload]
    simp only [ok_bind, hindex, hread]
    rfl
  rw [hrun, hmapInsertAt]
  cases hstore : chainStore hm₁.keyCompare key value chain with
  | some found =>
      obtain ⟨chain', node⟩ := found
      obtain ⟨pre, existing, post, rfl, hkey, rfl, rfl⟩ := chainStore_eq_some hstore
      rw [h₁.keyCompare_eq] at hkey
      obtain ⟨hrep, hkeys⟩ := h₁.store hchain hkey value
      exact ⟨_, _, _, rfl, Or.inr ⟨_, rfl, hkey, rfl, hrep⟩,
        fun _ => hkeys.trans (hperm.map _), hsub⟩
  | none =>
      rw [h₁.keyCompare_eq] at hstore
      have hnew := h₁.not_mem hchain (chainStore_eq_none hstore)
      have hsub' : ∀ outcome ∈ (malloc rest).2, outcome ∈ outcomes :=
        fun outcome hmem => hsub outcome (mem_of_mem_malloc hmem)
      cases hmalloc : malloc rest with
      | mk ok rest' =>
          rw [hmalloc] at hsub'
          cases ok with
          | false =>
              -- the failed outcome is one of the list that the call started with
              have hfailed := hsub _ (false_mem_of_malloc (congrArg Prod.fst hmalloc))
              exact ⟨_, _, _, rfl, Or.inl ⟨rfl, hnew, hfailed, h₁⟩, fun hmem => absurd hmem hnew,
                hsub'⟩
          | true =>
              exact ⟨_, _, _, rfl,
                Or.inr ⟨_, rfl, law.refl key, rfl, h₁.cons hchain hnew value⟩,
                fun hmem => absurd hmem hnew, hsub'⟩

/-- A store through the node of a key that is there. -/
theorem Represents.setValue (h : Represents law hm m) {key : κ} (hmem : law.key key ∈ m)
    (value : ν) :
    ∃ hm', hmapSetValue hm key value = .ok hm' ∧
      Represents law hm' (m.insert (law.key key) value) := by
  obtain ⟨chain, hchain, hindex, hread⟩ := h.chain key
  rw [hmapSetValue, hindex, ok_bind, hread, ok_bind]
  cases hstore : chainStore hm.keyCompare key value chain with
  | some found =>
      obtain ⟨chain', node⟩ := found
      obtain ⟨pre, existing, post, rfl, hkey, rfl, rfl⟩ := chainStore_eq_some hstore
      rw [h.keyCompare_eq] at hkey
      exact ⟨_, rfl, (h.store hchain hkey value).1⟩
  | none =>
      rw [h.keyCompare_eq] at hstore
      -- a key of the map has a node in its chain
      exact absurd hmem (h.not_mem hchain (chainStore_eq_none hstore))

/-- The spec of `hmap_delete`. -/
theorem Represents.delete (h : Represents law hm m) (key : κ) :
    ∃ hm', hmapDelete hm key = .ok (hm', if law.key key ∈ m then 0 else -1,
        m.lookup (law.key key)) ∧
      Represents law hm' (m.erase (law.key key)) := by
  obtain ⟨chain, hchain, hindex, hread⟩ := h.chain key
  rw [hmapDelete, hindex, ok_bind, hread, ok_bind]
  cases hunlink : chainUnlink hm.keyCompare key chain with
  | some found =>
      obtain ⟨chain', node⟩ := found
      obtain ⟨pre, post, rfl, hkey, rfl⟩ := chainUnlink_eq_some hunlink
      rw [h.keyCompare_eq] at hkey
      have hvalue : m.lookup (law.key key) = some node.value :=
        (h.lookup_iff hchain).mpr ⟨node, by simp, hkey, rfl⟩
      refine ⟨_, ?_, h.unlink hchain hkey⟩
      rw [hvalue, if_pos (Finmap.mem_of_lookup_eq_some hvalue)]
      rfl
  | none =>
      rw [h.keyCompare_eq] at hunlink
      have hnew := h.not_mem hchain (chainUnlink_eq_none hunlink)
      refine ⟨hm, ?_, ?_⟩
      · rw [if_neg hnew, Finmap.lookup_eq_none.mpr hnew]
        rfl
      · rwa [erase_of_notMem hnew]

end Represents

end MustDb.Proofs.Libv
