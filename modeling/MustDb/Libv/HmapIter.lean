import MustDb.Libv.Hmap

/-!
# `MustDb.Libv.HmapIter`: the iterator of the hash map

`hmap_iterator` of `libv/src/hash.c`, and the macro `HMAP_FOREACH`. An iterator points at the node
that the last call reached, and counts the buckets that it has entered: `bucketIdx` is already
behind the bucket of that node. The node is the chain from it on, as in `MustDb.Libv.Hmap`, and the
empty chain is `NULL`. The pointer to the map is never `NULL` here.

The body of an `HMAP_FOREACH` does not change the map, so the iterator has a copy of it. The loop of
the macro runs on fuel.
-/

set_option autoImplicit false

namespace MustDb.Libv

/-- `hmap_iterator` -/
structure HmapIterator (κ ν : Type) where
  hmap : Hmap κ ν
  bucketIdx : Nat
  /-- The chain from the node on; `[]` is `NULL`. -/
  node : List (HmapNode κ ν)

variable {κ ν : Type}

/-- `hmap_iter_init` -/
def hmapIterInit (hmap : Hmap κ ν) : HmapIterator κ ν := { hmap, bucketIdx := 0, node := [] }

/-- The loop of `hmap_iter_next`: the first node of the next bucket that has one. The number is that
of the turns that `bucket_idx < nbuckets` leaves. -/
def hmapIterScan : Nat → HmapIterator κ ν → Except Fault (HmapIterator κ ν × Bool)
  | 0, iter => .ok (iter, false)
  | turns + 1, iter => do
      let chain ← hmapChain iter.hmap iter.bucketIdx
      let iter := { iter with bucketIdx := iter.bucketIdx + 1 }
      match chain with
      | [] => hmapIterScan turns iter
      | first :: next => return ({ iter with node := first :: next }, true)

/-- `hmap_iter_next` -/
def hmapIterNext (iter : HmapIterator κ ν) : Except Fault (HmapIterator κ ν × Bool) :=
  -- at the end of a chain this is `NULL`, and it stays `NULL` when it was
  let iter := { iter with node := iter.node.tail }
  match iter.node with
  | _ :: _ => .ok (iter, true)
  | [] => hmapIterScan (iter.hmap.nbuckets - iter.bucketIdx) iter

/-- `hmap_iter_key` -/
def hmapIterKey (iter : HmapIterator κ ν) : Option κ := iter.node.head?.map (·.key)

/-- `hmap_iter_value` -/
def hmapIterValue (iter : HmapIterator κ ν) : Option ν := iter.node.head?.map (·.value)

/-- The loop of `HMAP_FOREACH`. -/
def hmapForeachFrom {σ : Type} (body : σ → ν → Except Fault σ) :
    Nat → HmapIterator κ ν → σ → Except Fault σ
  | 0, _, _ => .error .outOfFuel
  | fuel + 1, iter, s => do
      let (iter, more) ← hmapIterNext iter
      if more then
        match hmapIterValue iter with
        | some value =>
            let s ← body s value
            hmapForeachFrom body fuel iter s
        | none => throw .nullPointer
      else
        return s

/-- `HMAP_FOREACH` -/
def hmapForeach {σ : Type} (body : σ → ν → Except Fault σ) (fuel : Nat) (hmap : Hmap κ ν) (s : σ) :
    Except Fault σ :=
  hmapForeachFrom body fuel (hmapIterInit hmap) s

end MustDb.Libv
