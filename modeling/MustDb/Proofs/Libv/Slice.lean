import MustDb.Libv.Slice

/-!
# `MustDb.Proofs.Libv.Slice`: the calls of the growable array on its elements

`sliceElements` is the list that a slice holds. The invariant `Sized` says that the buffer is there
and has room for `capacity` elements, and that the used ones are among them. Under it the offsets of
the elements do not wrap, so each access is inside the buffer, and no request of a growth is one of
no bytes, since the elements have a size. Each call has one lemma: what it does to the elements, and
that the invariant holds after it.

`ListModel` is the reference: a list, and the capacity that decides when a call has to allocate.
-/

set_option autoImplicit false

namespace MustDb.Proofs.Libv

open MustDb.Lib
open MustDb.Libv

/-! ### The reference -/

/-- A list, with the number of elements that it has memory for. -/
structure ListModel where
  elements : List (List UInt8)
  capacity : Nat

/-- The allocator refuses `n` elements of `e` bytes. -/
def allocFails (e n : Nat) (answer : AllocAnswer) : Bool :=
  answer.isNone || PTRDIFF_MAX.toNat < n * e

/-- The capacity after a growth. -/
def grownCapacity (capacity : Nat) : Nat := if capacity > 0 then capacity * 2 else 16

/-- The list with memory for `n` elements; `none` when the allocator refuses it. -/
def ListModel.reserve (e : Nat) (m : ListModel) (n : Nat) (answer : AllocAnswer) :
    Option ListModel :=
  if n ≤ m.capacity then some m
  else if allocFails e n answer then none
  else some { m with capacity := n }

/-- The list with memory for one more element. -/
def ListModel.makeRoom (e : Nat) (m : ListModel) (answer : AllocAnswer) : Option ListModel :=
  if m.elements.length < m.capacity then some m
  else if allocFails e (grownCapacity m.capacity) answer then none
  else some { m with capacity := grownCapacity m.capacity }

/-! ### The invariant -/

/-- The elements of a slice. -/
def sliceElements (slice : Slice) : List (List UInt8) :=
  cells slice.elementSize.toNat slice.size.toNat slice.data

/-- The reference of a slice. -/
def sliceModel (slice : Slice) : ListModel :=
  { elements := sliceElements slice, capacity := slice.capacity.toNat }

/-- The buffer of a slice has room for its capacity. -/
structure Sized (slice : Slice) : Prop where
  live : slice.pointer = .live
  elementSize_ne : slice.elementSize ≠ 0
  length_eq : slice.data.length = slice.capacity.toNat * slice.elementSize.toNat
  length_le : slice.data.length ≤ PTRDIFF_MAX.toNat
  size_le : slice.size.toNat ≤ slice.capacity.toNat

/-- A call has turned `slice` into `slice'`, which stands for `m`. -/
structure Became (slice slice' : Slice) (m : ListModel) : Prop where
  sized : Sized slice'
  model_eq : sliceModel slice' = m
  elementSize_eq : slice'.elementSize = slice.elementSize

@[simp] theorem length_sliceElements (slice : Slice) :
    (sliceElements slice).length = slice.size.toNat := by
  rw [sliceElements, length_cells]

theorem getElem?_sliceElements (slice : Slice) (i : Nat) :
    (sliceElements slice)[i]? =
      if i < slice.size.toNat then some (cell slice.elementSize.toNat slice.data i) else none := by
  rw [sliceElements, getElem?_cells]

theorem toNat_ptrdiffMax : PTRDIFF_MAX.toNat = 2 ^ 63 - 1 := by decide

variable {slice : Slice}

/-- The first elements take no more bytes than the buffer has. -/
theorem Sized.mul_le (h : Sized slice) {n : Nat} (hn : n ≤ slice.capacity.toNat) :
    n * slice.elementSize.toNat ≤ slice.data.length := by
  rw [h.length_eq]
  exact Nat.mul_le_mul_right _ hn

/-- A product that is at most the length of the buffer does not wrap. -/
theorem Sized.toNat_mul (h : Sized slice) {i : UInt64} (hi : i.toNat ≤ slice.capacity.toNat) :
    (i * slice.elementSize).toNat = i.toNat * slice.elementSize.toNat := by
  have hle := h.mul_le hi
  have hmax := h.length_le
  rw [toNat_ptrdiffMax] at hmax
  rw [UInt64.toNat_mul, Nat.mod_eq_of_lt (by omega)]

theorem Sized.toNat_sliceGetPtr (h : Sized slice) {i : UInt64}
    (hi : i.toNat ≤ slice.capacity.toNat) :
    (sliceGetPtr slice i).toNat = i.toNat * slice.elementSize.toNat :=
  h.toNat_mul hi

theorem Sized.became (h : Sized slice) : Became slice slice (sliceModel slice) :=
  ⟨h, rfl, rfl⟩

theorem toNat_succ_of_lt {i n : UInt64} (h : i.toNat < n.toNat) :
    (i + 1).toNat = i.toNat + 1 := by
  have := n.toNat_lt
  rw [UInt64.toNat_add, Nat.mod_eq_of_lt]
  · rfl
  · exact Nat.lt_of_le_of_lt h this

theorem toNat_sub_eq {a b : UInt64} (h : b.toNat ≤ a.toNat) :
    (a - b).toNat = a.toNat - b.toNat :=
  UInt64.toNat_sub_of_le a b (UInt64.le_iff_toNat_le.mpr h)

theorem toNat_pos_of_ne {n : UInt64} (h : n ≠ 0) : 0 < n.toNat :=
  Nat.pos_of_ne_zero fun hzero => h (UInt64.toNat_inj.mp hzero)

/-- The test of an index against a bound, in `usize` and as numbers. -/
theorem index_cases (i n : UInt64) :
    (i ≥ n ∧ ¬ i.toNat < n.toNat) ∨ (¬ i ≥ n ∧ i.toNat < n.toNat) := by
  by_cases hout : i ≥ n
  · exact Or.inl ⟨hout, Nat.not_lt.mpr (UInt64.le_iff_toNat_le.mp hout)⟩
  · exact Or.inr ⟨hout, UInt64.lt_iff_toNat_lt.mp (UInt64.not_le.mp hout)⟩

/-! ### Access to the buffer -/

/-- An element that is there is read as a whole. -/
theorem Sized.load (h : Sized slice) {i : UInt64} (hi : i.toNat < slice.capacity.toNat) :
    sliceLoad slice (sliceGetPtr slice i) slice.elementSize
      = .ok (cell slice.elementSize.toNat slice.data i.toNat) := by
  have hend := cell_end_le hi (h.mul_le (Nat.le_refl _))
  rw [sliceLoad, h.toNat_sliceGetPtr (Nat.le_of_lt hi), if_pos hend, cell]

theorem Sized.copyOut (h : Sized slice) {i : UInt64} (hi : i.toNat < slice.capacity.toNat)
    (out : Bool) :
    sliceCopyOut slice i out
      = .ok (if out then some (cell slice.elementSize.toNat slice.data i.toNat) else none) := by
  cases out with
  | false => rfl
  | true =>
      rw [sliceCopyOut, if_pos rfl, h.load hi]
      rfl

/-- A store of one element. -/
theorem Sized.store (h : Sized slice) {i : UInt64} {bytes : List UInt8}
    (hi : i.toNat < slice.capacity.toNat) (hbytes : bytes.length = slice.elementSize.toNat) :
    sliceStore slice (sliceGetPtr slice i) bytes
      = .ok { slice with
          data := pwrite slice.data (i.toNat * slice.elementSize.toNat) bytes } := by
  have hend := cell_end_le hi (h.mul_le (Nat.le_refl _))
  rw [sliceStore, h.toNat_sliceGetPtr (Nat.le_of_lt hi), hbytes, if_pos hend]

theorem Sized.length_store (h : Sized slice) {i : UInt64} {bytes : List UInt8}
    (hi : i.toNat < slice.capacity.toNat) (hbytes : bytes.length = slice.elementSize.toNat) :
    (pwrite slice.data (i.toNat * slice.elementSize.toNat) bytes).length = slice.data.length :=
  length_pwrite_of_le (hbytes.symm ▸ cell_end_le hi (h.mul_le (Nat.le_refl _)))

/-- A move of `k` elements. -/
theorem Sized.move (h : Sized slice) {dst src k : UInt64}
    (hdst : dst.toNat + k.toNat ≤ slice.capacity.toNat)
    (hsrc : src.toNat + k.toNat ≤ slice.capacity.toNat) :
    sliceMove slice (sliceGetPtr slice dst) (sliceGetPtr slice src) (k * slice.elementSize)
      = .ok { slice with
          data := pmove slice.data (dst.toNat * slice.elementSize.toNat)
            (src.toNat * slice.elementSize.toNat) (k.toNat * slice.elementSize.toNat) } := by
  have hdstle := h.mul_le hdst
  have hsrcle := h.mul_le hsrc
  rw [Nat.add_mul] at hdstle hsrcle
  rw [sliceMove, sliceLoad, h.toNat_sliceGetPtr (by omega), h.toNat_mul (by omega),
    if_pos hsrcle, ok_bind, sliceStore, h.toNat_sliceGetPtr (by omega),
    length_pread_of_le hsrcle, if_pos hdstle, pmove]

/-- The move of `slice_insert`, when there is a free element: with a store at the index it inserts
an element. -/
theorem Sized.shiftUp (h : Sized slice) {index : UInt64} {x : List UInt8}
    (hi : index.toNat ≤ slice.size.toNat) (hfree : slice.size.toNat < slice.capacity.toNat)
    (hx : x.length = slice.elementSize.toNat) :
    ∃ data,
      sliceShiftUp slice index = .ok { slice with data } ∧
      data.length = slice.data.length ∧
      cells slice.elementSize.toNat (slice.size.toNat + 1)
          (pwrite data (index.toNat * slice.elementSize.toNat) x)
        = (sliceElements slice).insertIdx index.toNat x := by
  have hsucc := toNat_succ_of_lt (Nat.lt_of_le_of_lt hi hfree)
  have hsub := toNat_sub_eq hi
  have hfits := h.mul_le (n := slice.size.toNat + 1) hfree
  have hinsert := cells_insert hi hx hfits
  by_cases hlt : index < slice.size
  · refine ⟨_, (if_pos hlt).trans (h.move ?_ ?_), ?_, ?_⟩
    · rw [hsucc, hsub]
      omega
    · rw [hsub]
      omega
    · refine length_pmove ?_
      rw [hsucc, hsub, ← Nat.add_mul, show index.toNat + 1 + (slice.size.toNat - index.toNat)
        = slice.size.toNat + 1 by omega]
      exact hfits
    · rw [hsucc, hsub]
      exact hinsert
  · -- at the end nothing has to move
    have hend : index.toNat = slice.size.toNat :=
      Nat.le_antisymm hi (Nat.le_of_not_lt fun hlt' => hlt (UInt64.lt_iff_toNat_lt.mpr hlt'))
    refine ⟨slice.data, if_neg hlt, rfl, ?_⟩
    rw [hend, Nat.sub_self, Nat.zero_mul, pmove, pread_zero, pwrite_nil] at hinsert
    rw [hend]
    exact hinsert

/-- The move of `slice_erase` removes the element. -/
theorem Sized.shiftDown (h : Sized slice) {index : UInt64}
    (hi : index.toNat < slice.size.toNat) :
    ∃ data,
      sliceShiftDown slice index = .ok { slice with data } ∧
      data.length = slice.data.length ∧
      cells slice.elementSize.toNat (slice.size.toNat - 1) data
        = (sliceElements slice).eraseIdx index.toNat := by
  have hsize := h.size_le
  have hsucc := toNat_succ_of_lt hi
  have hsub := toNat_sub_eq (Nat.le_of_lt hi)
  have hone : (slice.size - index - 1).toNat = slice.size.toNat - index.toNat - 1 := by
    rw [toNat_sub_eq (by rw [hsub]; show 1 ≤ _; omega), hsub]
    rfl
  have hpred : (slice.size - 1).toNat = slice.size.toNat - 1 :=
    toNat_sub_eq (b := 1) (by show 1 ≤ _; omega)
  have herase := cells_erase hi (h.mul_le h.size_le)
  by_cases hlt : index < slice.size - 1
  · have hlt' : index.toNat < slice.size.toNat - 1 := hpred ▸ UInt64.lt_iff_toNat_lt.mp hlt
    refine ⟨_, (if_pos hlt).trans (h.move ?_ ?_), ?_, ?_⟩
    · rw [hone]
      omega
    · rw [hsucc, hone]
      omega
    · refine length_pmove ?_
      rw [hone, ← Nat.add_mul]
      exact h.mul_le (by omega)
    · rw [hsucc, hone]
      exact herase
  · -- behind the last element there is nothing to move
    have hlast : slice.size.toNat - index.toNat - 1 = 0 := by
      have : ¬ index.toNat < slice.size.toNat - 1 := fun hlt' =>
        hlt (UInt64.lt_iff_toNat_lt.mpr (hpred.symm ▸ hlt'))
      omega
    refine ⟨slice.data, if_neg hlt, rfl, ?_⟩
    rw [hlast, Nat.zero_mul, pmove, pread_zero, pwrite_nil] at herase
    exact herase

/-- A change of the bytes inside the buffer, and of the number of elements. -/
theorem Sized.update (h : Sized slice) (size : UInt64) {data : List UInt8}
    (hdata : data.length = slice.data.length) (hsize : size.toNat ≤ slice.capacity.toNat) :
    Sized { slice with data, size } where
  live := h.live
  elementSize_ne := h.elementSize_ne
  length_eq := hdata.trans h.length_eq
  length_le := hdata ▸ h.length_le
  size_le := hsize

theorem elementBytes_of_length {element : List UInt8}
    (h : element.length = slice.elementSize.toNat) : elementBytes slice element = .ok element := by
  rw [elementBytes, h, if_pos (Nat.le_refl _), ← h, List.take_length]

/-! ### Growth -/

/-- The two outcomes of a request: the allocator refuses it, or the block has its length and keeps
the bytes of the old one. -/
theorem reallocBytes_cases (data : List UInt8) (size : UInt64) (answer : AllocAnswer) :
    ((answer.isNone || PTRDIFF_MAX.toNat < size.toNat) = true ∧
        reallocBytes data size answer = none) ∨
      ((answer.isNone || PTRDIFF_MAX.toNat < size.toNat) = false ∧
        ∃ rest, reallocBytes data size answer = some (data.take size.toNat ++ rest) ∧
          (data.take size.toNat ++ rest).length = size.toNat) := by
  by_cases hmax : PTRDIFF_MAX < size
  · refine Or.inl ⟨?_, by rw [reallocBytes, if_pos hmax]⟩
    rw [decide_eq_true (UInt64.lt_iff_toNat_lt.mp hmax), Bool.or_true]
  · have hmax' : decide (PTRDIFF_MAX.toNat < size.toNat) = false :=
      decide_eq_false fun hlt => hmax (UInt64.lt_iff_toNat_lt.mpr hlt)
    rw [hmax', Bool.or_false, reallocBytes, if_neg hmax]
    cases answer with
    | none => exact Or.inl ⟨rfl, rfl⟩
    | some fresh =>
        refine Or.inr ⟨rfl, _, rfl, ?_⟩
        rw [List.length_append, List.length_take, List.length_map, List.length_range']
        omega

/-- A product in `usize` that is exact. -/
theorem toNat_mul_of_lt {a b : UInt64} (hfit : b.toNat * a.toNat < 2 ^ 64) :
    (a * b).toNat = b.toNat * a.toNat := by
  rw [UInt64.toNat_mul, Nat.mul_comm, Nat.mod_eq_of_lt hfit]

/-- The elements have a size, so a request for some of them is not one of no bytes. -/
theorem Sized.mul_ne_zero (h : Sized slice) {n : UInt64} (hn : 0 < n.toNat)
    (hfit : n.toNat * slice.elementSize.toNat < 2 ^ 64) : slice.elementSize * n ≠ 0 := by
  intro hzero
  have hpos := Nat.mul_pos hn (toNat_pos_of_ne h.elementSize_ne)
  rw [← toNat_mul_of_lt hfit, hzero] at hpos
  exact absurd hpos (Nat.lt_irrefl 0)

/-- A `realloc` to more elements, with an exact product. -/
theorem Sized.reallocate (h : Sized slice) {n : UInt64} (answer : AllocAnswer)
    (hn : slice.capacity.toNat < n.toNat) (hfit : n.toNat * slice.elementSize.toNat < 2 ^ 64) :
    (allocFails slice.elementSize.toNat n.toNat answer = true ∧
        sliceReallocate slice n answer = .ok (slice, -1)) ∨
      (allocFails slice.elementSize.toNat n.toNat answer = false ∧
        ∃ slice', sliceReallocate slice n answer = .ok (slice', 0) ∧
          Became slice slice' ⟨sliceElements slice, n.toNat⟩ ∧
          slice'.size = slice.size ∧ slice'.capacity = n) := by
  have hsize := toNat_mul_of_lt hfit
  have hzero : slice.elementSize * n ≠ 0 := h.mul_ne_zero (by omega) hfit
  have hrealloc : realloc slice.pointer slice.data (slice.elementSize * n) answer
      = .ok (.ofBytes (reallocBytes slice.data (slice.elementSize * n) answer)) := by
    rw [h.live, realloc, if_neg hzero]
  have hcases := reallocBytes_cases slice.data (slice.elementSize * n) answer
  rw [hsize] at hcases
  rcases hcases with ⟨hfails, hnone⟩ | ⟨hok, rest, hdata, hlength⟩
  · refine Or.inl ⟨hfails, ?_⟩
    rw [sliceReallocate, hrealloc, hnone]
    rfl
  · refine Or.inr ⟨hok, { slice with
      pointer := .live
      data := slice.data.take (n.toNat * slice.elementSize.toNat) ++ rest
      capacity := n }, ?_, ⟨?_, ?_, rfl⟩, rfl, rfl⟩
    · rw [sliceReallocate, hrealloc, hdata]
      rfl
    · refine ⟨rfl, h.elementSize_ne, hlength, ?_, Nat.le_trans h.size_le (Nat.le_of_lt hn)⟩
      rw [hlength]
      simp only [Bool.or_eq_false_iff, decide_eq_false_iff_not] at hok
      exact Nat.le_of_not_lt hok.2
    · -- the old elements are in the part that `realloc` keeps
      have hkept : cells slice.elementSize.toNat slice.size.toNat
          (slice.data.take (n.toNat * slice.elementSize.toNat) ++ rest) = sliceElements slice :=
        cells_congr fun i hi => cell_take_append hi
          (Nat.mul_le_mul_right _ (Nat.le_trans h.size_le (Nat.le_of_lt hn)))
          (h.mul_le h.size_le)
      rw [sliceModel, sliceElements, hkept]

/-- The capacity that a growth asks for, in exact arithmetic. -/
def growTarget (slice : Slice) : Option Nat :=
  if slice.size ≥ slice.capacity then some (grownCapacity slice.capacity.toNat) else none

/-- The number of elements `n` and their bytes fit in `usize`. -/
def FitsUsize (slice : Slice) (n : Nat) : Prop :=
  n < 2 ^ 64 ∧ n * slice.elementSize.toNat < 2 ^ 64

/-- `slice_grow` asks for the grown capacity, in `usize`. -/
theorem toNat_sliceGrownCapacity (slice : Slice) :
    (sliceGrownCapacity slice).toNat = grownCapacity slice.capacity.toNat % 2 ^ 64 := by
  rw [sliceGrownCapacity, grownCapacity]
  by_cases hpos : slice.capacity > 0
  · have hpos' : slice.capacity.toNat > 0 := UInt64.lt_iff_toNat_lt.mp hpos
    rw [if_pos hpos, if_pos hpos', UInt64.toNat_mul]
    rfl
  · have hpos' : ¬ slice.capacity.toNat > 0 := fun hlt => hpos (UInt64.lt_iff_toNat_lt.mpr hlt)
    rw [if_neg hpos, if_neg hpos']
    rfl

/-- `slice_push_back` and `slice_insert` find a free element, or make one. -/
theorem Sized.makeRoom (h : Sized slice) (answer : AllocAnswer)
    (hfit : ∀ n, growTarget slice = some n → FitsUsize slice n) :
    (sliceMakeRoom slice answer = .ok (slice, -1) ∧
        (sliceModel slice).makeRoom slice.elementSize.toNat answer = none) ∨
      ∃ slice', sliceMakeRoom slice answer = .ok (slice', 0) ∧
        (sliceModel slice).makeRoom slice.elementSize.toNat answer = some (sliceModel slice') ∧
        Became slice slice' ⟨sliceElements slice, slice'.capacity.toNat⟩ ∧
        slice'.size = slice.size ∧ slice'.size.toNat < slice'.capacity.toNat := by
  rw [ListModel.makeRoom, sliceModel, length_sliceElements, sliceMakeRoom]
  rcases index_cases slice.size slice.capacity with ⟨hroom, hroom'⟩ | ⟨hroom, hroom'⟩
  · rw [if_pos hroom, if_neg hroom', sliceGrow]
    obtain ⟨hlt, hbytes⟩ := hfit _ (by rw [growTarget, if_pos hroom])
    have hgrown := (toNat_sliceGrownCapacity slice).trans (Nat.mod_eq_of_lt hlt)
    have hmore : slice.capacity.toNat < grownCapacity slice.capacity.toNat := by
      rw [grownCapacity]
      split <;> omega
    rw [← hgrown] at hbytes hmore ⊢
    rcases h.reallocate answer hmore hbytes with ⟨hfails, hrun⟩ |
      ⟨hok, slice', hrun, hbecame, hsize, hcapacity⟩
    · exact Or.inl ⟨hrun, by rw [if_pos hfails]⟩
    · refine Or.inr ⟨slice', hrun, ?_, ?_, hsize, ?_⟩
      · rw [hok, hbecame.model_eq]
        rfl
      · rw [hcapacity]
        exact hbecame
      · rw [hsize, hcapacity]
        exact Nat.lt_of_le_of_lt h.size_le hmore
  · refine Or.inr ⟨slice, if_neg hroom, by rw [if_pos hroom']; rfl, h.became, rfl, hroom'⟩

/-- `slice_reserve` -/
theorem Sized.reserve (h : Sized slice) (n : UInt64) (answer : AllocAnswer)
    (hfit : n > slice.capacity → FitsUsize slice n.toNat) :
    (sliceReserve slice n answer = .ok (slice, -1) ∧
        (sliceModel slice).reserve slice.elementSize.toNat n.toNat answer = none) ∨
      ∃ slice', sliceReserve slice n answer = .ok (slice', 0) ∧
        (sliceModel slice).reserve slice.elementSize.toNat n.toNat answer
          = some (sliceModel slice') ∧
        Became slice slice' ⟨sliceElements slice, slice'.capacity.toNat⟩ ∧
        slice'.size = slice.size ∧ n.toNat ≤ slice'.capacity.toNat := by
  rw [ListModel.reserve, sliceReserve, sliceModel]
  rcases index_cases slice.capacity n with ⟨hroom, hless⟩ | ⟨hroom, hmore⟩
  · have hroom' := Nat.not_lt.mp hless
    refine Or.inr ⟨slice, if_pos hroom, by rw [if_pos hroom']; rfl, h.became, rfl, hroom'⟩
  · rw [if_neg hroom, if_neg (Nat.not_le.mpr hmore)]
    rcases h.reallocate answer hmore (hfit (UInt64.not_le.mp hroom)).2 with
      ⟨hfails, hrun⟩ | ⟨hok, slice', hrun, hbecame, hsize, hcapacity⟩
    · exact Or.inl ⟨hrun, by rw [if_pos hfails]⟩
    · refine Or.inr ⟨slice', hrun, ?_, ?_, hsize, ?_⟩
      · rw [hok, hbecame.model_eq]
        rfl
      · rw [hcapacity]
        exact hbecame
      · rw [hcapacity]

end MustDb.Proofs.Libv
