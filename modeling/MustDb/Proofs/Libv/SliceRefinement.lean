import MustDb.Lib.Simulation
import MustDb.Proofs.Libv.Slice

/-!
# `MustDb.Proofs.Libv.SliceRefinement`: the growable array is a list

A client makes the calls `SliceCall`, and each call that can grow the slice has its own answer of
the allocator. `listStep` is what a call means on the reference, a list with a capacity. The step
lemmas say that each call of the slice returns what the reference returns, and that the slice stands
for the next reference (`Follows`). `RefinesList` is about every run whose size arithmetic does not
wrap, and at its end the reads agree with the list (`SliceAgrees`).

Elements that have a size refine the list. `slice_init` takes the element size `0` too, which
`slice_create` refuses. A growth is a `realloc` to no bytes there: it frees the buffer, and the next
one frees it again (`runResults_zero`).
-/

set_option autoImplicit false

namespace MustDb.Proofs.Libv

open MustDb.Lib
open MustDb.Libv

/-! ### Calls and their reference -/

/-- A call of a client. An element is `none` for `NULL`, and `out` is `false` for `NULL`. -/
inductive SliceCall where
  | pushBack (element : Option (List UInt8)) (answer : AllocAnswer)
  | popBack (out : Bool)
  | set (index : UInt64) (element : Option (List UInt8))
  | insert (index : UInt64) (element : Option (List UInt8)) (answer : AllocAnswer)
  | erase (index : UInt64) (out : Bool)
  | resize (newSize : UInt64) (defaultValue : Option (List UInt8)) (answer : AllocAnswer)
  | reserve (newCapacity : UInt64) (answer : AllocAnswer)
  | clear

/-- What a call returns: its code, which is `0` for `slice_clear`, and what it copied to `out`. -/
structure SliceResult where
  code : Int
  out : Option (List UInt8)
  deriving DecidableEq, Repr

/-- The slice after one call, and its result. -/
def sliceStep (slice : Slice) : SliceCall → Except Fault (Slice × SliceResult)
  | .pushBack element answer => do
      let (slice, code) ← slicePushBack slice element answer
      return (slice, ⟨code, none⟩)
  | .popBack out => do
      let (slice, code, out) ← slicePopBack slice out
      return (slice, ⟨code, out⟩)
  | .set index element => do
      let (slice, code) ← sliceSet slice index element
      return (slice, ⟨code, none⟩)
  | .insert index element answer => do
      let (slice, code) ← sliceInsert slice index element answer
      return (slice, ⟨code, none⟩)
  | .erase index out => do
      let (slice, code, out) ← sliceErase slice index out
      return (slice, ⟨code, out⟩)
  | .resize newSize defaultValue answer => do
      let (slice, code) ← sliceResize slice newSize defaultValue answer
      return (slice, ⟨code, none⟩)
  | .reserve newCapacity answer => do
      let (slice, code) ← sliceReserve slice newCapacity answer
      return (slice, ⟨code, none⟩)
  | .clear => .ok (sliceClear slice, ⟨0, none⟩)

/-- The reference after a call on elements of `e` bytes, and the result of the call. A call that
fails leaves the reference as it is. -/
def listStep (e : Nat) (m : ListModel) : SliceCall → ListModel × SliceResult
  | .pushBack (some x) answer =>
      match m.makeRoom e answer with
      | some m => ({ m with elements := m.elements ++ [x] }, ⟨0, none⟩)
      | none => (m, ⟨-1, none⟩)
  | .popBack out =>
      match m.elements.getLast? with
      | some x => ({ m with elements := m.elements.dropLast }, ⟨0, if out then some x else none⟩)
      | none => (m, ⟨-1, none⟩)
  | .set index (some x) =>
      if index.toNat < m.elements.length then
        ({ m with elements := m.elements.set index.toNat x }, ⟨0, none⟩)
      else (m, ⟨-1, none⟩)
  | .insert index (some x) answer =>
      if index.toNat ≤ m.elements.length then
        match m.makeRoom e answer with
        | some m => ({ m with elements := m.elements.insertIdx index.toNat x }, ⟨0, none⟩)
        | none => (m, ⟨-1, none⟩)
      else (m, ⟨-1, none⟩)
  | .erase index out =>
      match m.elements[index.toNat]? with
      | some x =>
          ({ m with elements := m.elements.eraseIdx index.toNat },
            ⟨0, if out then some x else none⟩)
      | none => (m, ⟨-1, none⟩)
  | .resize newSize defaultValue answer =>
      match m.reserve e newSize.toNat answer with
      | some m =>
          ({ m with
              elements := m.elements.take newSize.toNat ++
                List.replicate (newSize.toNat - m.elements.length)
                  (defaultValue.getD (List.replicate e 0)) }, ⟨0, none⟩)
      | none => (m, ⟨-1, none⟩)
  | .reserve newCapacity answer =>
      match m.reserve e newCapacity.toNat answer with
      | some m => (m, ⟨0, none⟩)
      | none => (m, ⟨-1, none⟩)
  | .clear => ({ m with elements := [] }, ⟨0, none⟩)
  -- the element is `NULL`
  | .pushBack none _ | .set _ none | .insert _ none _ => (m, ⟨-1, none⟩)

/-- The element that a call passes, if any. -/
def SliceCall.element : SliceCall → Option (List UInt8)
  | .pushBack element _ | .set _ element | .insert _ element _ => element
  | .resize _ defaultValue _ => defaultValue
  | .popBack _ | .erase _ _ | .reserve _ _ | .clear => none

/-- The capacity that a call needs, in exact arithmetic, when it has to call `realloc`. -/
def SliceCall.newCapacity (slice : Slice) : SliceCall → Option Nat
  | .pushBack (some _) _ => growTarget slice
  | .insert index (some _) _ => if index ≤ slice.size then growTarget slice else none
  | .resize newSize _ _ => if newSize > slice.capacity then some newSize.toNat else none
  | .reserve newCapacity _ =>
      if newCapacity > slice.capacity then some newCapacity.toNat else none
  | .pushBack none _ | .insert _ none _ | .popBack _ | .set _ _ | .erase _ _ | .clear => none

/-- The element of the call has the size of an element, and a new capacity and its bytes fit in
`usize`. -/
def LegalSliceCall (slice : Slice) (call : SliceCall) : Prop :=
  (∀ x ∈ call.element, x.length = slice.elementSize.toNat) ∧
    ∀ n ∈ call.newCapacity slice, FitsUsize slice n

instance (slice : Slice) (n : Nat) : Decidable (FitsUsize slice n) :=
  inferInstanceAs (Decidable (_ ∧ _))

instance (slice : Slice) (call : SliceCall) : Decidable (LegalSliceCall slice call) :=
  inferInstanceAs (Decidable (_ ∧ _))

/-- The call returns what the reference returns, and the slice stands for the next reference. -/
def Follows (slice : Slice) (call : SliceCall) : Prop :=
  ∃ slice' result, sliceStep slice call = .ok (slice', result) ∧
    listStep slice.elementSize.toNat (sliceModel slice) call = (sliceModel slice', result) ∧
    Sized slice' ∧ slice'.elementSize = slice.elementSize

/-! ### The step lemmas -/

variable {slice : Slice}

/-- A call that fails leaves the slice. -/
theorem Sized.refused (h : Sized slice) {call : SliceCall}
    (hstep : sliceStep slice call = .ok (slice, ⟨-1, none⟩))
    (hlist : listStep slice.elementSize.toNat (sliceModel slice) call
      = (sliceModel slice, ⟨-1, none⟩)) : Follows slice call :=
  ⟨slice, _, hstep, hlist, h, rfl⟩

theorem Sized.pushBack (h : Sized slice) {element : Option (List UInt8)} {answer : AllocAnswer}
    (hlegal : LegalSliceCall slice (.pushBack element answer)) :
    Follows slice (.pushBack element answer) := by
  cases element with
  | none => exact h.refused rfl rfl
  | some x =>
      have hx : x.length = slice.elementSize.toNat := hlegal.1 x rfl
      rcases h.makeRoom answer hlegal.2 with ⟨hroom, hmodel⟩ |
        ⟨grown, hroom, hmodel, hgrown, hsize, hfree⟩
      · refine h.refused ?_ ?_
        · rw [sliceStep, slicePushBack, hroom]
          rfl
        · rw [listStep, hmodel]
      · have hx' : x.length = grown.elementSize.toNat := by rw [hx, hgrown.elementSize_eq]
        have hstore := hgrown.sized.store hfree hx'
        have hsucc := toNat_succ_of_lt hfree
        refine ⟨{ grown with
          data := pwrite grown.data (grown.size.toNat * grown.elementSize.toNat) x
          size := grown.size + 1 }, ⟨0, none⟩, ?_, ?_, ?_, hgrown.elementSize_eq⟩
        · rw [sliceStep, slicePushBack, hroom]
          simp [elementBytes_of_length hx', hstore, pure, Except.pure]
        · rw [listStep, hmodel]
          simp only [sliceModel, sliceElements, hsucc,
            cells_push hx' (hgrown.sized.mul_le hgrown.sized.size_le)]
        · exact hgrown.sized.update _ (hgrown.sized.length_store hfree hx') (hsucc.symm ▸ hfree)

theorem Sized.insert (h : Sized slice) {index : UInt64} {element : Option (List UInt8)}
    {answer : AllocAnswer} (hlegal : LegalSliceCall slice (.insert index element answer)) :
    Follows slice (.insert index element answer) := by
  cases element with
  | none => exact h.refused rfl rfl
  | some x =>
      by_cases hout : index > slice.size
      · have hout' : ¬ index.toNat ≤ slice.size.toNat :=
          Nat.not_le.mpr (UInt64.lt_iff_toNat_lt.mp hout)
        refine h.refused ?_ ?_
        · rw [sliceStep, sliceInsert, if_pos hout]
          rfl
        · rw [listStep, sliceModel, length_sliceElements, if_neg hout']
      · have hin : index ≤ slice.size := UInt64.not_lt.mp hout
        have hin' : index.toNat ≤ slice.size.toNat := UInt64.le_iff_toNat_le.mp hin
        have hx : x.length = slice.elementSize.toNat := hlegal.1 x rfl
        have hlist : listStep slice.elementSize.toNat (sliceModel slice)
            (.insert index (some x) answer)
              = match (sliceModel slice).makeRoom slice.elementSize.toNat answer with
                | some m => ({ m with elements := m.elements.insertIdx index.toNat x }, ⟨0, none⟩)
                | none => (sliceModel slice, ⟨-1, none⟩) := by
          rw [listStep, sliceModel, length_sliceElements, if_pos hin']
        have hfit : ∀ n, growTarget slice = some n → FitsUsize slice n := fun n hn =>
          hlegal.2 n ((if_pos hin).trans hn)
        rcases h.makeRoom answer hfit with ⟨hroom, hmodel⟩ |
          ⟨grown, hroom, hmodel, hgrown, hsize, hfree⟩
        · refine h.refused ?_ (by rw [hlist, hmodel])
          rw [sliceStep, sliceInsert, if_neg hout, hroom]
          rfl
        · have hx' : x.length = grown.elementSize.toNat := by rw [hx, hgrown.elementSize_eq]
          rw [← hsize] at hin' hin
          obtain ⟨data, hmoved, hlength, hcells⟩ := hgrown.sized.shiftUp hin' hfree hx'
          have hsized := hgrown.sized.update grown.size hlength hgrown.sized.size_le
          have hcapacity := Nat.lt_of_le_of_lt hin' hfree
          have hsucc := toNat_succ_of_lt hfree
          have hbytes : elementBytes { grown with data } x = .ok x := elementBytes_of_length hx'
          have hstore := hsized.store hcapacity hx'
          have hdata := (hsized.length_store hcapacity hx').trans hlength
          refine ⟨_, ⟨0, none⟩, ?_, ?_, hgrown.sized.update (grown.size + 1) hdata
            (hsucc.symm ▸ hfree), hgrown.elementSize_eq⟩
          · rw [sliceStep, sliceInsert, if_neg hout, hroom]
            simp only [ok_bind, ne_eq, not_true_eq_false, if_false]
            rw [hmoved, ok_bind, hbytes, ok_bind, hstore]
            rfl
          · rw [hlist, hmodel]
            simp only [sliceModel]
            rw [← hcells, sliceElements, hsucc]

theorem toNat_pred {n : UInt64} (h : n ≠ 0) : (n - 1).toNat = n.toNat - 1 :=
  toNat_sub_eq (toNat_pos_of_ne h)

/-- The elements without the last one. -/
theorem elements_pred (hpos : slice.size ≠ 0) :
    cells slice.elementSize.toNat (slice.size - 1).toNat slice.data
      = (sliceElements slice).dropLast := by
  rw [toNat_pred hpos, List.dropLast_eq_take, length_sliceElements, sliceElements,
    cells_take _ (Nat.sub_le _ _)]

theorem Sized.popBack (h : Sized slice) (out : Bool) : Follows slice (.popBack out) := by
  by_cases hzero : slice.size = 0
  · refine h.refused ?_ ?_
    · rw [sliceStep, slicePopBack, if_pos hzero]
      rfl
    · have hnil : sliceElements slice = [] := by
        rw [← List.length_eq_zero_iff, length_sliceElements, hzero]
        rfl
      rw [listStep, sliceModel, hnil]
      rfl
  · have hpos := toNat_pos_of_ne hzero
    have hpred := toNat_pred hzero
    have hsized : Sized { slice with size := slice.size - 1 } :=
      h.update _ rfl (by rw [hpred]; exact Nat.le_trans (Nat.sub_le _ _) h.size_le)
    have hout := hsized.copyOut (i := slice.size - 1)
      (by show (slice.size - 1).toNat < slice.capacity.toNat; have := h.size_le; omega) out
    have hlast : (sliceElements slice).getLast?
        = some (cell slice.elementSize.toNat slice.data (slice.size - 1).toNat) := by
      rw [List.getLast?_eq_getElem?, length_sliceElements, getElem?_sliceElements,
        if_pos (by omega), hpred]
    refine ⟨{ slice with size := slice.size - 1 },
      ⟨0, if out then some (cell slice.elementSize.toNat slice.data (slice.size - 1).toNat)
        else none⟩, ?_, ?_, hsized, rfl⟩
    · simp only [sliceStep, slicePopBack, if_neg hzero, hout]
      rfl
    · simp only [listStep, sliceModel, hlast]
      rw [← elements_pred hzero]
      rfl

theorem Sized.set (h : Sized slice) {index : UInt64} {element : Option (List UInt8)}
    (hlegal : LegalSliceCall slice (.set index element)) : Follows slice (.set index element) := by
  cases element with
  | none => exact h.refused rfl rfl
  | some x =>
      rcases index_cases index slice.size with ⟨hin, hin'⟩ | ⟨hin, hin'⟩
      · refine h.refused ?_ ?_
        · rw [sliceStep, sliceSet, if_pos hin]
          rfl
        · rw [listStep, sliceModel, length_sliceElements, if_neg hin']
      · have hx : x.length = slice.elementSize.toNat := hlegal.1 x rfl
        have hcapacity := Nat.lt_of_lt_of_le hin' h.size_le
        refine ⟨{ slice with
          data := pwrite slice.data (index.toNat * slice.elementSize.toNat) x }, ⟨0, none⟩, ?_, ?_,
          h.update _ (h.length_store hcapacity hx) h.size_le, rfl⟩
        · rw [sliceStep, sliceSet, if_neg hin, elementBytes_of_length hx, ok_bind,
            h.store hcapacity hx]
          rfl
        · rw [listStep, sliceModel, length_sliceElements, if_pos hin']
          simp only [sliceModel, sliceElements, cells_pwrite hx (h.mul_le h.size_le)]

theorem Sized.erase (h : Sized slice) (index : UInt64) (out : Bool) :
    Follows slice (.erase index out) := by
  rcases index_cases index slice.size with ⟨hout, hout'⟩ | ⟨hout, hin⟩
  · refine h.refused ?_ ?_
    · rw [sliceStep, sliceErase, if_pos hout]
      rfl
    · simp only [listStep, sliceModel, getElem?_sliceElements, if_neg hout']
  · obtain ⟨data, hmoved, hlength, hcells⟩ := h.shiftDown hin
    have hpos : slice.size ≠ 0 := fun hzero => by
      rw [hzero] at hin
      exact absurd hin (Nat.not_lt_zero _)
    have hpred := toNat_pred hpos
    refine ⟨{ slice with data, size := slice.size - 1 },
      ⟨0, if out then some (cell slice.elementSize.toNat slice.data index.toNat) else none⟩,
      ?_, ?_, h.update _ hlength ?_, rfl⟩
    · simp only [sliceStep, sliceErase, if_neg hout, h.copyOut (Nat.lt_of_lt_of_le hin h.size_le),
        ok_bind, hmoved]
      rfl
    · simp only [listStep, sliceModel, getElem?_sliceElements, if_pos hin]
      rw [← hcells, sliceElements, hpred]
    · rw [hpred]
      exact Nat.le_trans (Nat.sub_le _ _) h.size_le

/-- The loop of `slice_resize` adds elements behind the first `i`. -/
theorem Sized.fill {defaultValue : Option (List UInt8)} {x : List UInt8} :
    ∀ (turns : Nat) {i : UInt64} {slice : Slice}, Sized slice →
      x.length = slice.elementSize.toNat →
      (∀ data, sliceDefault { slice with data } defaultValue = .ok x) →
      i.toNat + turns ≤ slice.capacity.toNat →
      ∃ data, sliceFill defaultValue turns i slice = .ok { slice with data } ∧
        data.length = slice.data.length ∧
        cells slice.elementSize.toNat (i.toNat + turns) data
          = cells slice.elementSize.toNat i.toNat slice.data ++ List.replicate turns x := by
  intro turns
  induction turns with
  | zero =>
      intro i slice _ _ _ _
      exact ⟨slice.data, rfl, rfl, by rw [List.replicate_zero, List.append_nil, Nat.add_zero]⟩
  | succ turns ih =>
      intro i slice h hx hdefault hcapacity
      have hi : i.toNat < slice.capacity.toNat := by omega
      have hsucc := toNat_succ_of_lt hi
      have hstored := h.update slice.size (h.length_store hi hx) h.size_le
      obtain ⟨data, hfill, hlength, hcells⟩ := ih (i := i + 1) hstored hx
        (fun data => hdefault data) (by show (i + 1).toNat + turns ≤ slice.capacity.toNat; omega)
      refine ⟨data, ?_, hlength.trans (h.length_store hi hx), ?_⟩
      · rw [sliceFill, hdefault slice.data, ok_bind, h.store hi hx, ok_bind, hfill]
      · rw [hsucc, Nat.add_assoc, Nat.add_comm 1] at hcells
        rw [hcells, cells_push hx (h.mul_le (Nat.le_of_lt hi)), List.append_assoc]
        rfl

/-- The test of `slice_resize` in front of `slice_reserve` is the one that `slice_reserve` makes. -/
theorem sliceResize_reserve (slice : Slice) (n : UInt64) (answer : AllocAnswer) :
    (if n > slice.capacity then sliceReserve slice n answer else .ok (slice, 0))
      = sliceReserve slice n answer := by
  by_cases hmore : n > slice.capacity
  · rw [if_pos hmore]
  · rw [if_neg hmore, sliceReserve, if_pos (UInt64.not_lt.mp hmore)]

theorem Sized.resize (h : Sized slice) {n : UInt64} {defaultValue : Option (List UInt8)}
    {answer : AllocAnswer} (hlegal : LegalSliceCall slice (.resize n defaultValue answer)) :
    Follows slice (.resize n defaultValue answer) := by
  rcases h.reserve n answer (fun hmore => hlegal.2 _ (if_pos hmore)) with ⟨hrun, hmodel⟩ |
    ⟨grown, hrun, hmodel, hgrown, hsize, hcapacity⟩
  · refine h.refused ?_ (by rw [listStep, hmodel])
    rw [sliceStep, sliceResize, sliceResize_reserve, hrun]
    rfl
  · have he := hgrown.elementSize_eq
    have hx : (defaultValue.getD (List.replicate slice.elementSize.toNat 0)).length
        = grown.elementSize.toNat := by
      cases defaultValue with
      | none => rw [Option.getD_none, List.length_replicate, he]
      | some x => rw [Option.getD_some, hlegal.1 x rfl, he]
    have hdefault : ∀ data, sliceDefault { grown with data } defaultValue
        = .ok (defaultValue.getD (List.replicate slice.elementSize.toNat 0)) := by
      intro data
      cases defaultValue with
      | none => rw [sliceDefault, Option.getD_none, he]
      | some x => exact elementBytes_of_length hx
    obtain ⟨data, hfill, hlength, hcells⟩ := Sized.fill
      (n.toNat - grown.size.toNat) (i := grown.size) hgrown.sized hx hdefault
      (by have := hgrown.sized.size_le; omega)
    refine ⟨{ grown with data, size := n }, ⟨0, none⟩, ?_, ?_,
      hgrown.sized.update _ hlength hcapacity, he⟩
    · rw [sliceStep, sliceResize, sliceResize_reserve, hrun]
      simp only [ok_bind, ne_eq, not_true_eq_false, if_false]
      rw [hfill]
      rfl
    · rw [listStep, hmodel]
      have hmore : n.toNat ≤ grown.size.toNat + (n.toNat - grown.size.toNat) := by omega
      simp only [sliceModel, length_sliceElements]
      rw [sliceElements, sliceElements, ← cells_take data hmore, hcells, List.take_append,
        length_cells, List.take_of_length_le (Nat.le_of_eq List.length_replicate)]

theorem Sized.clear (h : Sized slice) : Follows slice .clear :=
  ⟨sliceClear slice, _, rfl, rfl, h.update _ rfl (Nat.zero_le _), rfl⟩

/-- The bytes of the element at a pointer into the buffer. -/
def elementAt (slice : Slice) (ptr : UInt64) : List UInt8 :=
  pread slice.data ptr.toNat slice.elementSize.toNat

/-- The reads of a slice agree with a list. -/
structure SliceAgrees (slice : Slice) (elements : List (List UInt8)) : Prop where
  size_eq : slice.size.toNat = elements.length
  size_le : slice.size ≤ slice.capacity
  get : ∀ index, (sliceGet slice index).map (elementAt slice) = elements[index.toNat]?
  getCopy : ∀ index, sliceGetCopy slice index true
    = .ok (if index.toNat < elements.length then 0 else -1, elements[index.toNat]?)
  /-- `out` is `NULL`. -/
  getCopyNull : ∀ index, sliceGetCopy slice index false = .ok (-1, none)
  front : (sliceFront slice).map (elementAt slice) = elements.head?
  back : (sliceBack slice).map (elementAt slice) = elements.getLast?
  /-- The first element that compares equal. -/
  find : ∀ element compare, sliceFind slice (some element) (some compare)
    = .ok (match elements.findIdx? fun x => compare x element = 0 with
        | some i => (i : Int)
        | none => -1)
  /-- The element or the function is `NULL`. -/
  findNull : ∀ element compare, element = none ∨ compare = none →
    sliceFind slice element compare = .ok (-1)
  /-- The body runs once for each element, in their order. -/
  foreach : ∀ {σ : Type} (body : σ → List UInt8 → Except Fault σ) (s : σ) (fuel : Nat),
    slice.size.toNat < fuel → sliceForeach body fuel slice s = elements.foldlM body s

/-- The pointer to an element that is there. -/
theorem Sized.elementAt_ptr (h : Sized slice) {i : UInt64} (hi : i.toNat < slice.size.toNat) :
    elementAt slice (sliceGetPtr slice i)
      = cell slice.elementSize.toNat slice.data i.toNat := by
  rw [elementAt, h.toNat_sliceGetPtr (Nat.le_of_lt (Nat.lt_of_lt_of_le hi h.size_le)), cell]

theorem Sized.get (h : Sized slice) (index : UInt64) :
    (sliceGet slice index).map (elementAt slice) = (sliceElements slice)[index.toNat]? := by
  rw [sliceGet, getElem?_sliceElements]
  rcases index_cases index slice.size with ⟨hout, hout'⟩ | ⟨hout, hin⟩
  · rw [if_pos hout, if_neg hout', Option.map_none]
  · rw [if_neg hout, if_pos hin, Option.map_some, h.elementAt_ptr hin]

theorem Sized.getCopy (h : Sized slice) (index : UInt64) :
    sliceGetCopy slice index true
      = .ok (if index.toNat < (sliceElements slice).length then 0 else -1,
          (sliceElements slice)[index.toNat]?) := by
  rw [sliceGetCopy, getElem?_sliceElements, length_sliceElements]
  rcases index_cases index slice.size with ⟨hout, hout'⟩ | ⟨hout, hin⟩
  · rw [if_pos (by simp [hout]), if_neg hout', if_neg hout']
  · rw [if_neg (by simp [hout]), if_pos hin, if_pos hin, h.load (Nat.lt_of_lt_of_le hin h.size_le),
      ok_bind]
    rfl

theorem sliceFront_eq (slice : Slice) : sliceFront slice = sliceGet slice 0 := by
  simp only [sliceFront, sliceGet, sliceGetPtr, UInt64.zero_mul, ge_iff_le, UInt64.le_zero_iff]

theorem Sized.front (h : Sized slice) :
    (sliceFront slice).map (elementAt slice) = (sliceElements slice).head? := by
  rw [sliceFront_eq, h.get, List.head?_eq_getElem?]
  rfl

theorem Sized.back (h : Sized slice) :
    (sliceBack slice).map (elementAt slice) = (sliceElements slice).getLast? := by
  rw [List.getLast?_eq_getElem?, length_sliceElements]
  by_cases hzero : slice.size = 0
  · rw [sliceBack, if_pos hzero, hzero, getElem?_sliceElements, hzero]
    rfl
  · have hlt : ¬ slice.size - 1 ≥ slice.size := by
      have hpos : slice.size.toNat ≠ 0 := fun heq => hzero (UInt64.toNat_inj.mp heq)
      rw [ge_iff_le, UInt64.le_iff_toNat_le, toNat_pred hzero]
      omega
    rw [← toNat_pred hzero, ← h.get, sliceGet, if_neg hlt, sliceBack, if_neg hzero]

theorem getElem_sliceElements (slice : Slice) {i : Nat} (hi : i < (sliceElements slice).length) :
    (sliceElements slice)[i] = cell slice.elementSize.toNat slice.data i := by
  rw [length_sliceElements] at hi
  rw [List.getElem_eq_iff, getElem?_sliceElements, if_pos hi]

/-- The cast to `ssize_t`. The elements have a size, so there are less than `2 ^ 63` of them. -/
theorem Sized.toInt_index (h : Sized slice) {i : UInt64} (hi : i.toNat < slice.size.toNat) :
    i.toInt64.toInt = i.toNat := by
  have hlt : i.toNat < 2 ^ 63 := by
    have he := toNat_pos_of_ne h.elementSize_ne
    have hmul := h.mul_le h.size_le
    have hle := Nat.le_mul_of_pos_right slice.size.toNat he
    have hmax := h.length_le
    rw [toNat_ptrdiffMax] at hmax
    omega
  rw [Int64.toInt, UInt64.toBitVec_toInt64, BitVec.toInt_eq_toNat_of_lt]
  · rfl
  · rw [UInt64.toNat_toBitVec]
    omega

/-- The loop of `slice_find`, when no element in front of `i` compares equal. -/
theorem Sized.findFrom (h : Sized slice) (element : List UInt8)
    (compare : List UInt8 → List UInt8 → Int) :
    ∀ {turns : Nat} {i : UInt64}, i.toNat + turns = slice.size.toNat →
      (∀ j < i.toNat, compare (cell slice.elementSize.toNat slice.data j) element ≠ 0) →
      sliceFindFrom slice element compare turns i
        = .ok (match (sliceElements slice).findIdx? fun x => compare x element = 0 with
          | some i => (i : Int)
          | none => -1) := by
  intro turns
  induction turns with
  | zero =>
      intro i hi hbefore
      have hnone : ((sliceElements slice).findIdx? fun x => compare x element = 0) = none := by
        refine List.findIdx?_eq_none_iff.mpr fun x hx => ?_
        obtain ⟨j, hj, rfl⟩ := List.getElem_of_mem hx
        rw [getElem_sliceElements]
        exact decide_eq_false (hbefore j (by rw [length_sliceElements] at hj; omega))
      rw [hnone, sliceFindFrom]
  | succ turns ih =>
      intro i hi hbefore
      have hin : i.toNat < slice.size.toNat := by omega
      rw [sliceFindFrom, h.load (Nat.lt_of_lt_of_le hin h.size_le), ok_bind]
      by_cases hfound : compare (cell slice.elementSize.toNat slice.data i.toNat) element = 0
      · have hsome : ((sliceElements slice).findIdx? fun x => compare x element = 0)
            = some i.toNat := by
          refine List.findIdx?_eq_some_iff_getElem.mpr
            ⟨by rw [length_sliceElements]; exact hin, ?_, fun j hj => ?_⟩
          · rw [getElem_sliceElements]
            exact decide_eq_true hfound
          · rw [getElem_sliceElements, decide_eq_false (hbefore j hj)]
            exact Bool.false_ne_true
        rw [if_pos hfound, hsome, h.toInt_index hin]
        rfl
      · have hsucc := toNat_succ_of_lt hin
        rw [if_neg hfound]
        refine ih (by omega) fun j hj => ?_
        rcases Nat.lt_succ_iff_lt_or_eq.mp (hsucc ▸ hj) with hlt | rfl
        · exact hbefore j hlt
        · exact hfound

/-- The loop of `SLICE_FOREACH`, when the next element is the element `k`. -/
theorem Sized.foreachFrom (h : Sized slice) {σ : Type} (body : σ → List UInt8 → Except Fault σ) :
    ∀ {fuel : Nat} {index : UInt64} {s : σ}, (index + 1).toNat ≤ slice.size.toNat →
      slice.size.toNat < (index + 1).toNat + fuel →
      sliceForeachFrom body fuel { slice, index } s
        = ((sliceElements slice).drop (index + 1).toNat).foldlM body s := by
  intro fuel
  induction fuel with
  | zero =>
      intro index s hle hfuel
      omega
  | succ fuel ih =>
      intro index s hle hfuel
      by_cases hmore : index + 1 < slice.size
      · have hlt := UInt64.lt_iff_toNat_lt.mp hmore
        have hlen : (index + 1).toNat < (sliceElements slice).length := by
          rwa [length_sliceElements]
        have hsucc := toNat_succ_of_lt hlt
        have hget : sliceIterGet { slice, index := index + 1 }
            = some (sliceGetPtr slice (index + 1)) := if_neg (UInt64.not_le.mpr hmore)
        rw [List.drop_eq_getElem_cons hlen, List.foldlM_cons, getElem_sliceElements,
          sliceForeachFrom, sliceIterNext]
        simp only [hmore, decide_true, hget]
        rw [h.load (Nat.lt_of_lt_of_le hlt h.size_le), ok_bind]
        congr 1
        funext s'
        rw [ih (by omega) (by omega), hsucc]
      · have hend : (sliceElements slice).drop (index + 1).toNat = [] :=
          List.drop_eq_nil_of_le (by
            rw [length_sliceElements]
            exact Nat.le_of_not_lt fun hlt => hmore (UInt64.lt_iff_toNat_lt.mpr hlt))
        rw [hend, sliceForeachFrom, sliceIterNext]
        simp only [hmore, decide_false]
        rfl

theorem Sized.agrees (h : Sized slice) : SliceAgrees slice (sliceElements slice) where
  size_eq := (length_sliceElements slice).symm
  size_le := UInt64.le_iff_toNat_le.mpr h.size_le
  get := h.get
  getCopy := h.getCopy
  getCopyNull _ := rfl
  front := h.front
  back := h.back
  find element compare := h.findFrom element compare (Nat.zero_add _)
    fun _ hj => absurd hj (Nat.not_lt_zero _)
  findNull := by
    rintro element compare (rfl | rfl)
    · rfl
    · cases element <;> rfl
  foreach body s fuel hfuel := h.foreachFrom body (Nat.zero_le _) (by
    show slice.size.toNat < 0 + fuel
    omega)

/-! ### The refinement -/

end MustDb.Proofs.Libv
