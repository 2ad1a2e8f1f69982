import Mathlib.Data.UInt
import MustDb.Lib.Except
import MustDb.Utils.Operator

/-!
# `MustDb.Proofs.Utils.Operator`: the copy of a column is a gather

A copy stores one element of the target in each turn. `forEach_eq_pwrite` is the loop: turns that
store elements of one width, one behind the other, are one store of all of them. So a copy is the
store of the elements that the selection vector names, with zeros for the nulls
(`genericCopyLoop_eq`), and the stores of consecutive ranges are the store of the whole range
(`copyParts_eq`).
-/

set_option autoImplicit false

namespace MustDb.Proofs.Utils

open MustDb.Lib
open MustDb.Utils

/-! ### The loop -/

theorem add_one_add_ofNat (k : UInt64) (j : Nat) :
    k + 1 + UInt64.ofNat j = k + UInt64.ofNat (j + 1) := by
  rw [UInt64.ofNat_add, UInt64.add_assoc, UInt64.add_comm 1]
  rfl

/-- Turns that store elements of one width, one behind the other. -/
theorem forEach_eq_pwrite {body : UInt64 → List UInt8 → Except Fault (List UInt8)}
    {e size : Nat} : ∀ {xs : List (List UInt8)} {k : UInt64} {dst : Nat} {buf : List UInt8},
      buf.length = size → (∀ x ∈ xs, x.length = e) → dst + xs.length * e ≤ size →
      (∀ (j : Nat) (x : List UInt8), xs[j]? = some x → ∀ buf : List UInt8, buf.length = size →
        body (k + UInt64.ofNat j) buf = .ok (pwrite buf (dst + j * e) x)) →
      forEach body xs.length k buf = .ok (pwrite buf dst xs.flatten) := by
  intro xs
  induction xs with
  | nil =>
      intro k dst buf _ _ _ _
      rfl
  | cons x xs ih =>
      intro k dst buf hbuf hlength hfits hbody
      obtain ⟨hx, hxs⟩ := List.forall_mem_cons.mp hlength
      rw [List.length_cons, Nat.succ_mul] at hfits
      have hfirst := hbody 0 x rfl buf hbuf
      rw [Nat.zero_mul, Nat.add_zero] at hfirst
      have hk : k + UInt64.ofNat 0 = k := UInt64.add_zero k
      rw [hk] at hfirst
      have hnext : (pwrite buf dst x).length = size :=
        (length_pwrite_of_le (by omega)).trans hbuf
      have hturns : ∀ (j : Nat) (y : List UInt8), xs[j]? = some y → ∀ buf' : List UInt8,
          buf'.length = size →
            body (k + 1 + UInt64.ofNat j) buf' = .ok (pwrite buf' (dst + e + j * e) y) := by
        intro j y hy buf' hbuf'
        rw [add_one_add_ofNat, hbody (j + 1) y hy buf' hbuf', Nat.succ_mul, Nat.add_comm (j * e),
          Nat.add_assoc]
      have hrest := ih hnext hxs (by omega) hturns
      rw [List.length_cons, forEach, hfirst, ok_bind, hrest, ← hx, pwrite_pwrite_append]
      rfl

/-! ### The elements of a copy -/

/-- The element of the source that the turn `k` copies. -/
def sourceIndex (selVector : Option (List UInt64)) (k : Nat) : Nat :=
  match selVector with
  | some sel => (sel.getD k 0).toNat
  | none => k

/-- A byte of the null mask that is not zero. -/
def IsNull (nullmask : Option (List UInt8)) (i : Nat) : Prop :=
  match nullmask with
  | some mask => mask.getD i 0 ≠ 0
  | none => False

instance (nullmask : Option (List UInt8)) (i : Nat) : Decidable (IsNull nullmask i) :=
  match nullmask with
  | some mask => inferInstanceAs (Decidable (mask.getD i 0 ≠ 0))
  | none => inferInstanceAs (Decidable False)

/-- The element that the turn `k` stores. -/
def gathered (src : List UInt8) (elemSize : UInt64) (setNull : Bool)
    (selVector : Option (List UInt64)) (nullmask : Option (List UInt8)) (k : Nat) : List UInt8 :=
  if setNull = true ∧ IsNull nullmask (sourceIndex selVector k) then
    List.replicate elemSize.toNat 0
  else cell elemSize.toNat src (sourceIndex selVector k)

/-- `count` elements from `offset` on. -/
def gatheredRange (src : List UInt8) (elemSize : UInt64) (setNull : Bool)
    (selVector : Option (List UInt64)) (nullmask : Option (List UInt8)) (offset count : Nat) :
    List (List UInt8) :=
  (List.range' offset count).map (gathered src elemSize setNull selVector nullmask)

/-- A copy of `count` elements that stays inside of its arrays: the source has `length` elements. -/
structure CopyRange (src : List UInt8) (length elemSize : UInt64) (buf : List UInt8)
    (target offset count : UInt64) (selVector : Option (List UInt64))
    (nullmask : Option (List UInt8)) : Prop where
  source_le : length.toNat * elemSize.toNat ≤ src.length
  source_lt : src.length < 2 ^ 64
  range_le : offset.toNat + count.toNat ≤ length.toNat
  selected_lt : ∀ sel ∈ selVector, ∀ k, offset.toNat ≤ k → k < offset.toNat + count.toNat →
    ∃ i, sel[k]? = some i ∧ i < length
  nullmask_lt : ∀ mask ∈ nullmask, ∀ k, offset.toNat ≤ k → k < offset.toNat + count.toNat →
    sourceIndex selVector k < mask.length
  target_le : target.toNat + count.toNat * elemSize.toNat ≤ buf.length
  buf_lt : buf.length < 2 ^ 64

/-- The element `j` behind the target, and the bytes that are not part of the copy. -/
structure Gathers (src : List UInt8) (elemSize : UInt64) (buf : List UInt8)
    (target offset count : Nat) (setNull : Bool) (selVector : Option (List UInt64))
    (nullmask : Option (List UInt8)) (buf' : List UInt8) : Prop where
  element : ∀ j < count, pread buf' (target + j * elemSize.toNat) elemSize.toNat
    = gathered src elemSize setNull selVector nullmask (offset + j)
  in_front : buf'.take target = buf.take target
  behind : buf'.drop (target + count * elemSize.toNat) = buf.drop (target + count * elemSize.toNat)
  length_eq : buf'.length = buf.length

section Copy
variable {src : List UInt8} {length elemSize : UInt64} {buf : List UInt8}
  {target offset count : UInt64} {selVector : Option (List UInt64)}
  {nullmask : Option (List UInt8)}

theorem length_gatheredRange (setNull : Bool) (first n : Nat) :
    (gatheredRange src elemSize setNull selVector nullmask first n).length = n := by
  rw [gatheredRange, List.length_map, List.length_range']

theorem getElem?_gatheredRange (setNull : Bool) (first : Nat) {n j : Nat} (hj : j < n) :
    (gatheredRange src elemSize setNull selVector nullmask first n)[j]?
      = some (gathered src elemSize setNull selVector nullmask (first + j)) := by
  rw [gatheredRange, List.getElem?_map, List.getElem?_range' hj, Nat.one_mul]
  rfl

/-- Without a null, the two paths store the same elements. -/
theorem gatheredRange_of_no_null (hnull : ∀ mask ∈ nullmask, ∀ byte ∈ mask, byte = 0)
    (first n : Nat) :
    gatheredRange src elemSize true selVector nullmask first n
      = gatheredRange src elemSize false selVector nullmask first n := by
  refine List.map_congr_left fun k _ => ?_
  have hnot : ¬ IsNull nullmask (sourceIndex selVector k) := by
    cases nullmask with
    | none => exact id
    | some mask =>
        rw [IsNull, not_not, List.getD_eq_getElem?_getD]
        cases hget : mask[sourceIndex selVector k]? with
        | none => rfl
        | some byte => exact hnull mask rfl byte (List.mem_of_getElem? hget)
  rw [gathered, gathered, if_neg fun hset => hnot hset.2, if_neg fun hset => hnot hset.2]

theorem gatheredRange_add (setNull : Bool) (first m n : Nat) :
    gatheredRange src elemSize setNull selVector nullmask first (m + n)
      = gatheredRange src elemSize setNull selVector nullmask first m ++
          gatheredRange src elemSize setNull selVector nullmask (first + m) n := by
  rw [gatheredRange, gatheredRange, gatheredRange, ← List.map_append, List.range'_append_1]

variable (h : CopyRange src length elemSize buf target offset count selVector nullmask)
include h

/-- The index of a turn, and of the element that it copies. -/
theorem CopyRange.selected {k : UInt64} (hle : offset.toNat ≤ k.toNat)
    (hlt : k.toNat < offset.toNat + count.toNat) :
    ∃ i, selectedIndex selVector k = .ok i ∧ i.toNat = sourceIndex selVector k.toNat ∧
      i < length := by
  have hrange := h.range_le
  cases selVector with
  | none => exact ⟨k, rfl, rfl, UInt64.lt_iff_toNat_lt.mpr (by omega)⟩
  | some sel =>
      obtain ⟨i, hget, hi⟩ := h.selected_lt sel rfl k.toNat hle hlt
      refine ⟨i, ?_, ?_, hi⟩
      · rw [selectedIndex, readEntry, hget]
      · rw [sourceIndex, List.getD_eq_getElem?_getD, hget]
        rfl

/-- An element of the source. -/
theorem CopyRange.load_eq {i : UInt64} (hi : i < length) :
    loadBytes src (i * elemSize) elemSize = .ok (cell elemSize.toNat src i.toNat) := by
  have hend : i.toNat * elemSize.toNat + elemSize.toNat ≤ src.length :=
    cell_end_le (UInt64.lt_iff_toNat_lt.mp hi) h.source_le
  have hlt := h.source_lt
  have hproduct : (i * elemSize).toNat = i.toNat * elemSize.toNat := by
    rw [UInt64.toNat_mul, Nat.mod_eq_of_lt (by omega)]
  rw [loadBytes, hproduct]
  exact if_pos hend

/-- The place of a turn in the target. -/
theorem CopyRange.store_eq {k : UInt64} {j : Nat} (hj : j < count.toNat)
    (hk : k.toNat = offset.toNat + j) {buf' x : List UInt8} (hbuf : buf'.length = buf.length)
    (hx : x.length = elemSize.toNat) :
    storeBytes buf' (target + (k - offset) * elemSize) x
      = .ok (pwrite buf' (target.toNat + j * elemSize.toNat) x) := by
  have hend : j * elemSize.toNat + elemSize.toNat ≤ count.toNat * elemSize.toNat :=
    cell_end_le hj (Nat.le_refl _)
  have htarget := h.target_le
  have hlt := h.buf_lt
  have hturn : (k - offset).toNat = j := by
    rw [UInt64.toNat_sub_of_le _ _ (UInt64.le_iff_toNat_le.mpr (by omega)), hk,
      Nat.add_sub_cancel_left]
  have hproduct : ((k - offset) * elemSize).toNat = j * elemSize.toNat := by
    rw [UInt64.toNat_mul, hturn, Nat.mod_eq_of_lt (by omega)]
  have haddress : (target + (k - offset) * elemSize).toNat
      = target.toNat + j * elemSize.toNat := by
    rw [UInt64.toNat_add, hproduct, Nat.mod_eq_of_lt (by omega)]
  rw [storeBytes, haddress, hx, hbuf, if_pos (by omega)]

theorem length_gathered (setNull : Bool) {k : Nat} (hle : offset.toNat ≤ k)
    (hlt : k < offset.toNat + count.toNat) :
    (gathered src elemSize setNull selVector nullmask k).length = elemSize.toNat := by
  have hk : (UInt64.ofNat k).toNat = k := by
    have := h.range_le
    have := length.toNat_lt
    rw [UInt64.toNat_ofNat', Nat.mod_eq_of_lt (by omega)]
  obtain ⟨i, -, hindex, hi⟩ := h.selected (hk.symm ▸ hle) (hk.symm ▸ hlt)
  rw [gathered]
  split
  · exact List.length_replicate
  · rw [hk] at hindex
    rw [← hindex]
    exact length_cell (UInt64.lt_iff_toNat_lt.mp hi) h.source_le

theorem length_of_mem_gatheredRange (setNull : Bool) :
    ∀ x ∈ gatheredRange src elemSize setNull selVector nullmask offset.toNat count.toNat,
      x.length = elemSize.toNat := by
  intro x hx
  obtain ⟨k, hk, rfl⟩ := List.mem_map.mp hx
  obtain ⟨hle, hlt⟩ := List.mem_range'_1.mp hk
  exact length_gathered h setNull hle hlt

theorem length_flatten_gatheredRange (setNull : Bool) :
    (gatheredRange src elemSize setNull selVector nullmask offset.toNat
      count.toNat).flatten.length = count.toNat * elemSize.toNat := by
  rw [length_flatten_of_forall (length_of_mem_gatheredRange h setNull), length_gatheredRange]

/-- The loop of a copy, by what its body does to the element of a turn. -/
theorem CopyRange.loop_eq {setNull : Bool}
    {body : UInt64 → List UInt8 → Except Fault (List UInt8)}
    (hbody : ∀ k i, offset.toNat ≤ k.toNat → k.toNat < offset.toNat + count.toNat →
      selectedIndex selVector k = .ok i → i.toNat = sourceIndex selVector k.toNat →
      i < length → ∀ buf',
        body k buf' = storeBytes buf' (target + (k - offset) * elemSize)
          (gathered src elemSize setNull selVector nullmask k.toNat)) :
    forEach body (turnsOf offset count) offset buf
      = .ok (pwrite buf target.toNat (gatheredRange src elemSize setNull selVector nullmask
          offset.toNat count.toNat).flatten) := by
  have hrange := h.range_le
  have hcount := length.toNat_lt
  have hturns : turnsOf offset count
      = (gatheredRange src elemSize setNull selVector nullmask offset.toNat
          count.toNat).length := by
    rw [turnsOf, UInt64.toNat_add, Nat.mod_eq_of_lt (by omega), length_gatheredRange,
      Nat.add_sub_cancel_left]
  rw [hturns]
  refine forEach_eq_pwrite rfl (length_of_mem_gatheredRange h setNull) ?_ ?_
  · rw [length_gatheredRange]
    exact h.target_le
  · intro j x hx buf' hbuf
    obtain ⟨hj, -⟩ := List.getElem?_eq_some_iff.mp hx
    rw [length_gatheredRange] at hj
    rw [getElem?_gatheredRange _ _ hj] at hx
    cases hx
    have hturn : (offset + UInt64.ofNat j).toNat = offset.toNat + j := by
      rw [UInt64.toNat_add, UInt64.toNat_ofNat', Nat.mod_eq_of_lt (by omega),
        Nat.mod_eq_of_lt (by omega)]
    obtain ⟨i, hselected, hindex, hi⟩ := h.selected (k := offset + UInt64.ofNat j)
      (by omega) (by omega)
    rw [hbody _ i (by omega) (by omega) hselected hindex hi, hturn]
    exact h.store_eq hj hturn hbuf (length_gathered h setNull (by omega) (by omega))

/-- `copy_fn` -/
theorem copyFn_eq :
    copyFn src buf target offset count elemSize selVector
      = .ok (pwrite buf target.toNat (gatheredRange src elemSize false selVector nullmask
          offset.toNat count.toNat).flatten) := by
  refine h.loop_eq fun k i _ _ hselected hindex hi buf' => ?_
  rw [hselected, ok_bind, h.load_eq hi, ok_bind, gathered, hindex]
  simp

/-- `copy_fn_set_null` -/
theorem copyFnSetNull_eq :
    copyFnSetNull src buf target offset count elemSize selVector nullmask
      = .ok (pwrite buf target.toNat (gatheredRange src elemSize true selVector nullmask
          offset.toNat count.toNat).flatten) := by
  cases nullmask with
  | none =>
      refine h.loop_eq fun k i _ _ hselected hindex hi buf' => ?_
      rw [hselected, ok_bind, h.load_eq hi, ok_bind, gathered, hindex]
      simp [IsNull]
  | some mask =>
      refine h.loop_eq fun k i hle hlt hselected hindex hi buf' => ?_
      have hin : i.toNat < mask.length := hindex ▸ h.nullmask_lt mask rfl k.toNat hle hlt
      have hread : readEntry mask i = .ok (mask.getD i.toNat 0) := by
        rw [readEntry, List.getD_eq_getElem?_getD, List.getElem?_eq_getElem hin]
        rfl
      rw [hselected, ok_bind, hread, ok_bind, h.load_eq hi, ok_bind, gathered, ← hindex]
      by_cases hnull : IsNull (some mask) i.toNat
      · have hset : true = true ∧ IsNull (some mask) i.toNat := ⟨rfl, hnull⟩
        rw [if_pos hset]
        exact if_pos hnull
      · have hset : ¬ (true = true ∧ IsNull (some mask) i.toNat) := fun hset => hnull hset.2
        rw [if_neg hset]
        exact if_neg hnull

theorem gathers_pwrite (setNull : Bool) :
    Gathers src elemSize buf target.toNat offset.toNat count.toNat setNull selVector nullmask
      (pwrite buf target.toNat (gatheredRange src elemSize setNull selVector nullmask
        offset.toNat count.toNat).flatten) := by
  let xs := gatheredRange src elemSize setNull selVector nullmask offset.toNat count.toNat
  have htarget := h.target_le
  have hlength : xs.flatten.length = count.toNat * elemSize.toNat :=
    length_flatten_gatheredRange h setNull
  have hkept : (pwrite buf target.toNat xs.flatten).length = buf.length :=
    length_pwrite_of_le (hlength.symm ▸ htarget)
  constructor
  · intro j hj
    have hend := cell_end_le hj (Nat.le_refl (count.toNat * elemSize.toNat))
    rw [pread_pwrite_inside _ _ (hlength.symm ▸ hend)]
    exact cell_flatten (length_of_mem_gatheredRange h setNull)
      (getElem?_gatheredRange setNull offset.toNat hj)
  · have hfront : pread (pwrite buf target.toNat xs.flatten) 0 target.toNat
        = pread buf 0 target.toNat := pread_pwrite_disjoint (by omega) (Or.inl (by omega))
    simpa [pread] using hfront
  · let start := target.toNat + count.toNat * elemSize.toNat
    have hbehind : pread (pwrite buf target.toNat xs.flatten) start (buf.length - start)
        = pread buf start (buf.length - start) :=
      pread_pwrite_disjoint (by omega) (Or.inr (by omega))
    rwa [pread, pread, List.take_of_length_le (by simp [hkept]),
      List.take_of_length_le (by simp)] at hbehind
  · exact hkept

end Copy

/-! ### Columns -/

/-- A copy is one store of the elements that it gathers. -/
theorem genericCopyLoop_eq {source : MustDbVector} {buf : List UInt8}
    {target offset elementCount : UInt64} {selVector : Option (List UInt64)}
    {nullmask : Option (List UInt8)} (setNull : Bool)
    (h : CopyRange source.data source.count (getTypeidSize source.type) buf target offset
      (copyCount source elementCount) selVector nullmask) :
    genericCopyLoop source buf target offset elementCount setNull selVector nullmask
      = .ok (pwrite buf target.toNat (gatheredRange source.data
          (getTypeidSize source.type) setNull selVector nullmask offset.toNat
          (copyCount source elementCount).toNat).flatten) := by
  have hrange := h.range_le
  have hcount := source.count.toNat_lt
  have hassert : offset + copyCount source elementCount ≤ source.count := by
    rw [UInt64.le_iff_toNat_le, UInt64.toNat_add, Nat.mod_eq_of_lt (by omega)]
    exact hrange
  rw [genericCopyLoop]
  by_cases hempty : source.count = 0
  · -- there is nothing to copy
    have hzero : (copyCount source elementCount).toNat = 0 := by
      rw [hempty] at hrange
      exact Nat.eq_zero_of_le_zero (Nat.le_trans (Nat.le_add_left _ _) hrange)
    rw [if_pos hempty, hzero]
    rfl
  · rw [if_neg hempty]
    simp only [hassert, not_true_eq_false, if_false]
    cases setNull with
    | false => exact copyFn_eq h
    | true => exact copyFnSetNull_eq h

/-! ### Consecutive copies -/

/-- `copy_to_storage` of consecutive ranges into consecutive places. -/
def copyParts (source : MustDbVector) (buf : List UInt8) (target offset : UInt64) :
    List UInt64 → Except Fault (List UInt8)
  | [] => .ok buf
  | count :: counts => do
      let buf ← copyToStorage source buf target offset count
      copyParts source buf (target + count * getTypeidSize source.type) (offset + count) counts

section Columns
variable {source : MustDbVector}

theorem copyToStorage_eq {buf : List UInt8} {target offset count : UInt64}
    (h : CopyRange source.data source.count (getTypeidSize source.type) buf target offset count
      none none) (hcount : count ≠ 0) :
    copyToStorage source buf target offset count
      = .ok (pwrite buf target.toNat (gatheredRange source.data (getTypeidSize source.type) false
          none none offset.toNat count.toNat).flatten) := by
  have hcopyCount : copyCount source count = count := if_neg hcount
  have hstore := @genericCopyLoop_eq source buf target offset count none none false
    (by rwa [hcopyCount])
  rwa [hcopyCount] at hstore

theorem copyParts_eq {counts : List UInt64} (hcounts : ∀ count ∈ counts, count ≠ 0) :
    ∀ {buf : List UInt8} {target offset : UInt64},
      offset.toNat + (counts.map UInt64.toNat).sum ≤ source.count.toNat →
      target.toNat + (counts.map UInt64.toNat).sum * (getTypeidSize source.type).toNat
        ≤ buf.length →
      buf.length < 2 ^ 64 →
      copyParts source buf target offset counts
        = .ok (pwrite buf target.toNat (gatheredRange source.data (getTypeidSize source.type)
            false none none offset.toNat (counts.map UInt64.toNat).sum).flatten) := by
  induction counts with
  | nil =>
      intro buf target offset _ _ _
      rfl
  | cons count counts ih =>
      intro buf target offset hrange htarget hlt
      obtain ⟨hcount, hrest⟩ := List.forall_mem_cons.mp hcounts
      have hsource := source.count.toNat_lt
      rw [List.map_cons, List.sum_cons] at hrange htarget ⊢
      rw [Nat.add_mul] at htarget
      have hpart : CopyRange source.data source.count (getTypeidSize source.type) buf target offset
          count none none :=
        ⟨source.count_le, source.data_lt, by omega, by simp, by simp, by omega, hlt⟩
      -- the place and the first element of the next part
      have hproduct : (count * getTypeidSize source.type).toNat
          = count.toNat * (getTypeidSize source.type).toNat := by
        rw [UInt64.toNat_mul, Nat.mod_eq_of_lt (by omega)]
      have htarget' : (target + count * getTypeidSize source.type).toNat
          = target.toNat + count.toNat * (getTypeidSize source.type).toNat := by
        rw [UInt64.toNat_add, hproduct, Nat.mod_eq_of_lt (by omega)]
      have hoffset' : (offset + count).toNat = offset.toNat + count.toNat := by
        rw [UInt64.toNat_add, Nat.mod_eq_of_lt (by omega)]
      let first := (gatheredRange source.data (getTypeidSize source.type) false none none
        offset.toNat count.toNat).flatten
      have hlength : first.length = count.toNat * (getTypeidSize source.type).toNat :=
        length_flatten_gatheredRange hpart false
      have hkept : (pwrite buf target.toNat first).length = buf.length :=
        length_pwrite_of_le (by omega)
      have hothers := @ih hrest (pwrite buf target.toNat first)
        (target + count * getTypeidSize source.type) (offset + count) (by omega) (by omega)
        (by omega)
      rw [copyParts, copyToStorage_eq hpart hcount, ok_bind, hothers, htarget', hoffset',
        ← hlength, pwrite_pwrite_append, gatheredRange_add, List.flatten_append]

end Columns

/-! ### The copy -/

/-- A copy is an exact gather: the loops for every element size, and a column with the size of its
type. A null mask without a null changes nothing, and copies of consecutive ranges are a copy of the
whole range. -/
theorem column_copy_gathers :
    (∀ (src : List UInt8) (length elemSize : UInt64) (buf : List UInt8)
      (target offset count : UInt64) (selVector : Option (List UInt64))
      (nullmask : Option (List UInt8)),
      CopyRange src length elemSize buf target offset count selVector nullmask →
        (∃ buf', copyFn src buf target offset count elemSize selVector = .ok buf' ∧
          Gathers src elemSize buf target.toNat offset.toNat count.toNat false selVector nullmask
            buf') ∧
        (∃ buf', copyFnSetNull src buf target offset count elemSize selVector nullmask
            = .ok buf' ∧
          Gathers src elemSize buf target.toNat offset.toNat count.toNat true selVector nullmask
            buf')) ∧
    (∀ (source : MustDbVector) (buf : List UInt8) (target offset elementCount : UInt64)
      (setNull : Bool) (selVector : Option (List UInt64)) (nullmask : Option (List UInt8)),
      CopyRange source.data source.count (getTypeidSize source.type) buf target offset
          (copyCount source elementCount) selVector nullmask →
        (∃ buf', genericCopyLoop source buf target offset elementCount setNull selVector nullmask
            = .ok buf' ∧
          Gathers source.data (getTypeidSize source.type) buf target.toNat offset.toNat
            (copyCount source elementCount).toNat setNull selVector nullmask buf') ∧
        ((∀ mask ∈ nullmask, ∀ byte ∈ mask, byte = 0) →
          genericCopyLoop source buf target offset elementCount true selVector nullmask
            = genericCopyLoop source buf target offset elementCount false selVector nullmask)) ∧
    (∀ (source : MustDbVector) (buf : List UInt8) (target offset total : UInt64)
      (counts : List UInt64), counts ≠ [] → (∀ count ∈ counts, count ≠ 0) →
        (counts.map UInt64.toNat).sum = total.toNat →
        CopyRange source.data source.count (getTypeidSize source.type) buf target offset total
          none none →
        copyParts source buf target offset counts
          = copyToStorage source buf target offset total) := by
  refine ⟨?_, ?_, ?_⟩
  · intro src length elemSize buf target offset count selVector nullmask h
    exact ⟨⟨_, copyFn_eq h, gathers_pwrite h false⟩, _, copyFnSetNull_eq h, gathers_pwrite h true⟩
  · intro source buf target offset elementCount setNull selVector nullmask h
    refine ⟨⟨_, genericCopyLoop_eq setNull h, gathers_pwrite h setNull⟩, fun hnull => ?_⟩
    rw [genericCopyLoop_eq true h, genericCopyLoop_eq false h, gatheredRange_of_no_null hnull]
  · intro source buf target offset total counts hsome hcounts htotal h
    have hpos : total ≠ 0 := by
      rintro rfl
      obtain ⟨count, rest, rfl⟩ := List.exists_cons_of_ne_nil hsome
      rw [List.map_cons, List.sum_cons] at htotal
      have hzero : count.toNat = 0 := Nat.eq_zero_of_add_eq_zero_right htotal
      exact hcounts count List.mem_cons_self (UInt64.toNat.inj hzero)
    rw [copyToStorage_eq h hpos, ← htotal]
    exact copyParts_eq hcounts (htotal ▸ h.range_le) (htotal ▸ h.target_le) h.buf_lt

/-- Four elements of two bytes. -/
def fourElements : MustDbVector where
  type := .int16
  count := 4
  data := [10, 11, 20, 21, 30, 31, 40, 41]
  count_le := by decide
  data_lt := by decide

/-- Elements 3 and 1, of which the last one is null, and the whole vector in two parts. -/
theorem column_copy_gathers_fourElements :
    (∃ buf', genericCopyLoop fourElements [1, 1, 1, 1, 1, 1] 1 1 2 true (some [0, 3, 1])
        (some [0, 1, 0, 0]) = .ok buf' ∧ buf' = [1, 40, 41, 0, 0, 1] ∧
      Gathers fourElements.data 2 [1, 1, 1, 1, 1, 1] 1 1 2 true (some [0, 3, 1])
        (some [0, 1, 0, 0]) buf') ∧
    copyParts fourElements (List.replicate 8 0) 0 0 [1, 3]
      = copyToStorage fourElements (List.replicate 8 0) 0 0 4 := by
  constructor
  · have hrange : CopyRange fourElements.data 4 2 [1, 1, 1, 1, 1, 1] 1 1
        (copyCount fourElements 2) (some [0, 3, 1]) (some [0, 1, 0, 0]) := by
      have hturns : ∀ k : Nat, 1 ≤ k → k < 3 → k = 1 ∨ k = 2 := by omega
      refine ⟨by decide, by decide, by decide, ?_, ?_, by decide, by decide⟩
      · rintro sel ⟨rfl⟩ k hle hlt
        rcases hturns k hle hlt with rfl | rfl
        · exact ⟨3, rfl, by decide⟩
        · exact ⟨1, rfl, by decide⟩
      · rintro mask ⟨rfl⟩ k hle hlt
        rcases hturns k hle hlt with rfl | rfl <;> decide
    obtain ⟨⟨buf', hcopy, hgathers⟩, -⟩ := column_copy_gathers.2.1 fourElements
      [1, 1, 1, 1, 1, 1] 1 1 2 true (some [0, 3, 1]) (some [0, 1, 0, 0]) hrange
    refine ⟨buf', hcopy, ?_, hgathers⟩
    have hbuf : genericCopyLoop fourElements [1, 1, 1, 1, 1, 1] 1 1 2 true (some [0, 3, 1])
        (some [0, 1, 0, 0]) = .ok [1, 40, 41, 0, 0, 1] := by decide
    exact Except.ok.inj (hcopy.symm.trans hbuf)
  · exact column_copy_gathers.2.2 fourElements (List.replicate 8 0) 0 0 4 [1, 3] (by simp)
      (by simp) rfl
      ⟨by decide, by decide, by decide, by simp, by simp, by decide, by decide⟩

end MustDb.Proofs.Utils
