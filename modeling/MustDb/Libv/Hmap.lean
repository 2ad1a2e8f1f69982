import MustDb.Fault
import MustDb.Lib.Buckets
import MustDb.Lib.CString
import MustDb.Lib.Malloc
import MustDb.Libv.Checksum

/-!
# `MustDb.Libv.Hmap`: the chained hash map

`hmap` of `libv/src/hash.c`. A map has an array of buckets, and a bucket is a chain of nodes,
newest first. The keys and values are copied into the node, so a node here holds their contents:
`κ` and `ν` stand for `key_size` and `value_size`. `hash_func` and `key_compare` are fields of the
map, as in the source.

`hmap_init` does not report a failed `calloc`. The array is `NULL` then, which is the empty list
here, and the first access to a bucket is a fault.
-/

set_option autoImplicit false

namespace MustDb.Libv

open MustDb.Lib

/-- `hmap_node`; `next` is the rest of the chain. -/
structure HmapNode (κ ν : Type) where
  key : κ
  value : ν
  deriving DecidableEq, Repr

/-- `hmap` -/
structure Hmap (κ ν : Type) where
  buckets : List (List (HmapNode κ ν))
  nbuckets : Nat
  /-- The number of nodes. -/
  len : Nat
  hashFunc : κ → UInt32
  keyCompare : κ → κ → Int

def HMAP_DEFAULT_NBUCKETS : Nat := 16

/-- `sizeof(hmap_node*)` -/
def POINTER_SIZE : Nat := 8

/-! ### The keys -/

/-- `hmap_int_hash` -/
def hmapIntHash (key : UInt32) : UInt32 := (murmurhash32 key).toUInt32

/-- `hmap_int_cmp`: the bits of the keys are signed integers. -/
def hmapIntCmp (a b : UInt32) : Int :=
  let va := a.toInt32
  let vb := b.toInt32
  (if va > vb then 1 else 0) - (if va < vb then 1 else 0)

/-- `hmap_str_hash`: a `char` is signed on the supported targets. -/
def hmapStrHash (key : CString) : UInt32 :=
  key.bytes.foldl (fun hash c => ((hash <<< 5) + hash) + c.toInt8.toInt32.toUInt32) 5381

/-- `hmap_str_cmp` -/
def hmapStrCmp (a b : CString) : Int := strcmp a b

/-! ### Creation -/

section Init
variable {κ : Type} (ν : Type)

/-- `hmap_init` -/
def hmapInit (nbuckets : Nat) (hashFunc : κ → UInt32) (keyCompare : κ → κ → Int)
    (outcomes : MallocOutcomes) : Hmap κ ν × MallocOutcomes :=
  let (ok, outcomes) := calloc nbuckets POINTER_SIZE outcomes
  ({ buckets := if ok then List.replicate nbuckets [] else []
     nbuckets, len := 0, hashFunc, keyCompare }, outcomes)

/-- `hmap_create` -/
def hmapCreate (nbuckets : Nat) (hashFunc : κ → UInt32) (keyCompare : κ → κ → Int)
    (outcomes : MallocOutcomes) : Option (Hmap κ ν) × MallocOutcomes :=
  match malloc outcomes with
  | (false, outcomes) => (none, outcomes)
  | (true, outcomes) =>
      let (hm, outcomes) := hmapInit ν nbuckets hashFunc keyCompare outcomes
      (some hm, outcomes)

/-- `hmap_init_str` -/
def hmapInitStr (outcomes : MallocOutcomes) : Hmap CString ν × MallocOutcomes :=
  hmapInit ν HMAP_DEFAULT_NBUCKETS hmapStrHash hmapStrCmp outcomes

/-- `hmap_init_int` -/
def hmapInitInt (outcomes : MallocOutcomes) : Hmap UInt32 ν × MallocOutcomes :=
  hmapInit ν HMAP_DEFAULT_NBUCKETS hmapIntHash hmapIntCmp outcomes

end Init

variable {κ ν : Type}

/-- `hmap_deinit`. After a `calloc` that failed, the loop over the buckets reads from `NULL`. -/
def hmapDeinit (hm : Hmap κ ν) : Except Fault (Hmap κ ν) :=
  if hm.buckets.length < hm.nbuckets then .error .nullPointer
  else .ok { hm with buckets := [], nbuckets := 0, len := 0 }

/-- All nodes, in the order of `HMAP_FOREACH`. -/
def Hmap.nodes (hm : Hmap κ ν) : List (HmapNode κ ν) := hm.buckets.flatten

/-- `hash % nbuckets` -/
def hmapBucketIndex (hm : Hmap κ ν) (hash : UInt32) : Except Fault Nat :=
  if hm.nbuckets = 0 then
    .error .divisionByZero
  else
    .ok (hash.toNat % hm.nbuckets)

/-- `buckets[i]` -/
def hmapChain (hm : Hmap κ ν) (i : Nat) : Except Fault (List (HmapNode κ ν)) :=
  match hm.buckets[i]? with
  | some chain => .ok chain
  | none => .error .nullPointer

/-! ### Lookup -/

/-- `hmap_get`: the first node of the chain whose key compares equal. -/
def hmapGet (hm : Hmap κ ν) (key : κ) : Except Fault (Option (HmapNode κ ν)) := do
  let i ← hmapBucketIndex hm (hm.hashFunc key)
  let chain ← hmapChain hm i
  return chain.find? fun node => hm.keyCompare node.key key = 0

/-- `hmap_get_value` -/
def hmapGetValue (hm : Hmap κ ν) (key : κ) : Except Fault (Option ν) := do
  let node ← hmapGet hm key
  return node.map (·.value)

/-- `hmap_contains`: the loop of `hmap_get` again. -/
def hmapContains (hm : Hmap κ ν) (key : κ) : Except Fault Bool := do
  let i ← hmapBucketIndex hm (hm.hashFunc key)
  let chain ← hmapChain hm i
  return chain.any fun node => hm.keyCompare node.key key = 0

/-- `hmap_size` -/
def hmapSize (hm : Hmap κ ν) : Nat := hm.len

/-! ### Insertion -/

/-- `hmap_grow`: the buckets double, and each node goes to the front of its new chain. When the
`calloc` fails the map stays as it is. -/
def hmapGrow (hm : Hmap κ ν) (outcomes : MallocOutcomes) :
    Except Fault (Hmap κ ν × MallocOutcomes) :=
  let newNbuckets := hm.nbuckets * 2 % 2 ^ 64
  match calloc newNbuckets POINTER_SIZE outcomes with
  | (false, outcomes) => .ok (hm, outcomes)
  | (true, outcomes) => do
      let newBuckets ← (List.range hm.nbuckets).foldlM (fun newBuckets i => do
        let chain ← hmapChain hm i
        return pushAll (fun node => (hm.hashFunc node.key).toNat % newNbuckets) newBuckets chain)
        (List.replicate newNbuckets [])
      return ({ hm with buckets := newBuckets, nbuckets := newNbuckets }, outcomes)

/-- The load check of `hmap_insert`: from a load factor of 75 % on, the map grows. -/
def hmapLoadCheck (hm : Hmap κ ν) (outcomes : MallocOutcomes) :
    Except Fault (Hmap κ ν × MallocOutcomes) :=
  if hm.len ≥ hm.nbuckets - hm.nbuckets >>> 2 then hmapGrow hm outcomes else .ok (hm, outcomes)

/-- The loop over the chain in `hmap_insert`: the first node whose key compares equal gets the
value. The result is the chain, and this node. -/
def chainStore (keyCompare : κ → κ → Int) (key : κ) (value : ν) :
    List (HmapNode κ ν) → Option (List (HmapNode κ ν) × HmapNode κ ν)
  | [] => none
  | existing :: next =>
      if keyCompare existing.key key = 0 then
        some ({ existing with value } :: next, { existing with value })
      else
        match chainStore keyCompare key value next with
        | some (next, node) => some (existing :: next, node)
        | none => none

/-- `hmap_insert` behind its load check, in the chain of bucket `i`. -/
def hmapInsertAt (hm : Hmap κ ν) (i : Nat) (chain : List (HmapNode κ ν)) (key : κ) (value : ν)
    (outcomes : MallocOutcomes) : Hmap κ ν × Option (HmapNode κ ν) × MallocOutcomes :=
  match chainStore hm.keyCompare key value chain with
  | some (chain, node) => ({ hm with buckets := hm.buckets.set i chain }, some node, outcomes)
  | none =>
      match malloc outcomes with
      | (false, outcomes) => (hm, none, outcomes)
      | (true, outcomes) =>
          let node := { key, value }
          ({ hm with buckets := hm.buckets.set i (node :: chain), len := hm.len + 1 },
            some node, outcomes)

/-- `hmap_insert`. The result is the node with the key, or `none` for `NULL`. -/
def hmapInsert (hm : Hmap κ ν) (key : κ) (value : ν) (outcomes : MallocOutcomes) :
    Except Fault (Hmap κ ν × Option (HmapNode κ ν) × MallocOutcomes) := do
  -- the hash is computed before the map grows, the bucket after it
  let hash := hm.hashFunc key
  let (hm, outcomes) ← hmapLoadCheck hm outcomes
  let i ← hmapBucketIndex hm hash
  let chain ← hmapChain hm i
  return hmapInsertAt hm i chain key value outcomes

/-- `HMAP_VALUE(hmap_get(hm, key)) = value`: a store through the node with the key. -/
def hmapSetValue (hm : Hmap κ ν) (key : κ) (value : ν) : Except Fault (Hmap κ ν) := do
  let i ← hmapBucketIndex hm (hm.hashFunc key)
  let chain ← hmapChain hm i
  match chainStore hm.keyCompare key value chain with
  | some (chain, _) => return { hm with buckets := hm.buckets.set i chain }
  | none => throw .nullPointer

/-! ### Deletion -/

/-- The loop over the chain in `hmap_delete`: the first node whose key compares equal is unlinked.
The result is the chain, and this node. -/
def chainUnlink (keyCompare : κ → κ → Int) (key : κ) :
    List (HmapNode κ ν) → Option (List (HmapNode κ ν) × HmapNode κ ν)
  | [] => none
  | node :: next =>
      if keyCompare node.key key = 0 then
        some (next, node)
      else
        match chainUnlink keyCompare key next with
        | some (next, found) => some (node :: next, found)
        | none => none

/-- `hmap_delete`. The result has the return code, and the value that is copied to `out`. -/
def hmapDelete (hm : Hmap κ ν) (key : κ) : Except Fault (Hmap κ ν × Int × Option ν) := do
  let i ← hmapBucketIndex hm (hm.hashFunc key)
  let chain ← hmapChain hm i
  match chainUnlink hm.keyCompare key chain with
  | some (chain, node) =>
      return ({ hm with buckets := hm.buckets.set i chain, len := hm.len - 1 }, 0,
        some node.value)
  | none => return (hm, -1, none)

end MustDb.Libv
