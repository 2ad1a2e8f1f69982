import MustDb.Proofs.Libv.SliceRefinement

/-!
# `MustDb.Proofs.Libv.SliceCapacity`: the memory behind the capacity of a slice

A slice is `Backed` when the bytes that its buffer was requested with hold the capacity that it
records. The request is the product of the element size and the capacity in `usize`, and no call
checks that it is exact. So the calls that allocate leave a backed slice exactly when this product
fits in `usize` (`slice_backed_iff_product_fits`).

Each call that succeeds either leaves the buffer (`SameBuffer`) or has replaced it (`Reallocated`),
and `sliceStep_buffer` says which. A call that fails leaves the slice, unless its request was one of
no bytes: then the buffer has been freed (`LeftOrFreed`).
-/

set_option autoImplicit false

namespace MustDb.Proofs.Libv

open MustDb.Lib
open MustDb.Libv

/-- The requested bytes hold the recorded capacity. -/
def Backed (slice : Slice) : Prop :=
  slice.capacity.toNat * slice.elementSize.toNat ≤ slice.data.length

/-- The call has kept the buffer and the recorded capacity. -/
structure SameBuffer (slice slice' : Slice) : Prop where
  length_eq : slice'.data.length = slice.data.length
  capacity_eq : slice'.capacity = slice.capacity
  elementSize_eq : slice'.elementSize = slice.elementSize

/-- The call has requested a buffer for the capacity `n`, and records this capacity. -/
structure Reallocated (slice slice' : Slice) (n : UInt64) : Prop where
  length_eq : slice'.data.length = (slice.elementSize * n).toNat
  capacity_eq : slice'.capacity = n
  elementSize_eq : slice'.elementSize = slice.elementSize

variable {slice slice' slice'' : Slice}

theorem SameBuffer.backed_iff (h : SameBuffer slice slice') : Backed slice' ↔ Backed slice := by
  rw [Backed, Backed, h.length_eq, h.capacity_eq, h.elementSize_eq]

theorem SameBuffer.trans (h : SameBuffer slice slice') (h' : SameBuffer slice' slice'') :
    SameBuffer slice slice'' :=
  ⟨h'.length_eq.trans h.length_eq, h'.capacity_eq.trans h.capacity_eq,
    h'.elementSize_eq.trans h.elementSize_eq⟩

theorem Reallocated.trans {n : UInt64} (h : Reallocated slice slice' n)
    (h' : SameBuffer slice' slice'') : Reallocated slice slice'' n :=
  ⟨h'.length_eq.trans h.length_eq, h'.capacity_eq.trans h.capacity_eq,
    h'.elementSize_eq.trans h.elementSize_eq⟩

/-- A product in `usize` is at least the exact product only when that one fits. -/
theorem mul_le_toNat_mul_iff (a b : UInt64) :
    b.toNat * a.toNat ≤ (a * b).toNat ↔ b.toNat * a.toNat < 2 ^ 64 := by
  constructor
  · intro hle
    exact Nat.lt_of_le_of_lt hle (a * b).toNat_lt
  · intro hlt
    rw [toNat_mul_of_lt hlt]

theorem Reallocated.backed_iff {n : UInt64} (h : Reallocated slice slice' n) :
    Backed slice' ↔ n.toNat * slice.elementSize.toNat < 2 ^ 64 := by
  rw [Backed, h.length_eq, h.capacity_eq, h.elementSize_eq, mul_le_toNat_mul_iff]

/-! ### The buffer after each call -/

theorem length_reallocBytes {data data' : List UInt8} {size : UInt64} {answer : AllocAnswer}
    (h : reallocBytes data size answer = some data') : data'.length = size.toNat := by
  rcases reallocBytes_cases data size answer with ⟨-, hnone⟩ | ⟨-, rest, hsome, hlength⟩
  · rw [hnone] at h
    cases h
  · rw [hsome] at h
    cases h
    exact hlength

theorem sliceStore_same {dest : UInt64} {bytes : List UInt8}
    (h : sliceStore slice dest bytes = .ok slice') : SameBuffer slice slice' := by
  rw [sliceStore] at h
  split at h
  · next hle =>
      cases h
      exact ⟨length_pwrite_of_le hle, rfl, rfl⟩
  · cases h

theorem sliceMove_same {dest src size : UInt64} (h : sliceMove slice dest src size = .ok slice') :
    SameBuffer slice slice' := by
  obtain ⟨bytes, -, h⟩ := bind_eq_ok.mp h
  exact sliceStore_same h

theorem SameBuffer.refl (slice : Slice) : SameBuffer slice slice := ⟨rfl, rfl, rfl⟩

theorem sliceShiftUp_same {index : UInt64} (h : sliceShiftUp slice index = .ok slice') :
    SameBuffer slice slice' := by
  rw [sliceShiftUp] at h
  split at h
  · exact sliceMove_same h
  · cases h
    exact .refl slice

theorem sliceShiftDown_same {index : UInt64} (h : sliceShiftDown slice index = .ok slice') :
    SameBuffer slice slice' := by
  rw [sliceShiftDown] at h
  split at h
  · exact sliceMove_same h
  · cases h
    exact .refl slice

/-- Each turn of the loop of `slice_resize` is a store. -/
theorem sliceFill_same {defaultValue : Option (List UInt8)} :
    ∀ {turns : Nat} {i : UInt64} {slice slice' : Slice},
      sliceFill defaultValue turns i slice = .ok slice' → SameBuffer slice slice' := by
  intro turns
  induction turns with
  | zero =>
      intro i slice slice' h
      cases h
      exact .refl slice
  | succ turns ih =>
      intro i slice slice' h
      obtain ⟨bytes, -, h⟩ := bind_eq_ok.mp h
      obtain ⟨stored, hstore, h⟩ := bind_eq_ok.mp h
      exact (sliceStore_same hstore).trans (ih h)

/-- The buffer after a call that records the capacity `n`, or that does not allocate. -/
def BufferAfter (slice slice' : Slice) : Option UInt64 → Prop
  | some n => Reallocated slice slice' n
  | none => SameBuffer slice slice'

theorem BufferAfter.trans {recorded : Option UInt64} (h : BufferAfter slice slice' recorded)
    (h' : SameBuffer slice' slice'') : BufferAfter slice slice'' recorded := by
  cases recorded with
  | some n => exact Reallocated.trans h h'
  | none => exact SameBuffer.trans h h'

/-- What a call that fails leaves: the slice, or a slice whose buffer a request for no bytes has
freed. -/
def LeftOrFreed (slice slice' : Slice) (recorded : Option UInt64) : Prop :=
  slice' = slice ∨
    ∃ n ∈ recorded, slice.elementSize * n = 0 ∧
      slice' = { slice with pointer := .dangling, data := [] }

/-- What a call that returns has done to the buffer. -/
def CallBuffer (slice slice' : Slice) (recorded : Option UInt64) (code : Int) : Prop :=
  (code = 0 ∧ BufferAfter slice slice' recorded) ∨ (code = -1 ∧ LeftOrFreed slice slice' recorded)

/-- A call that fails before it allocates. -/
theorem callBuffer_refused (slice : Slice) (recorded : Option UInt64) :
    CallBuffer slice slice recorded (-1) :=
  Or.inr ⟨rfl, Or.inl rfl⟩

/-- The block of a request that finds memory has the length of the request. -/
theorem ofBytes_reallocBytes_cases (data : List UInt8) (size : UInt64) (answer : AllocAnswer) :
    ReallocResult.ofBytes (reallocBytes data size answer) = .refused ∨
      ∃ bytes, ReallocResult.ofBytes (reallocBytes data size answer) = .moved bytes ∧
        bytes.length = size.toNat := by
  cases hdata : reallocBytes data size answer with
  | none => exact Or.inl rfl
  | some bytes => exact Or.inr ⟨bytes, rfl, length_reallocBytes hdata⟩

/-- What `realloc` returns: a block of the size, or `NULL` for one of two reasons. -/
theorem realloc_cases {pointer : Pointer} {data : List UInt8} {size : UInt64}
    {answer : AllocAnswer} {result : ReallocResult}
    (h : realloc pointer data size answer = .ok result) :
    result = .refused ∨ (∃ bytes, result = .moved bytes ∧ bytes.length = size.toNat) ∨
      (size = 0 ∧ result = .freed) := by
  cases pointer with
  | null =>
      cases h
      exact (ofBytes_reallocBytes_cases [] size answer).imp_right Or.inl
  | live =>
      rw [realloc] at h
      cases h
      by_cases hzero : size = 0
      · exact Or.inr (Or.inr ⟨hzero, if_pos hzero⟩)
      · rw [if_neg hzero]
        exact (ofBytes_reallocBytes_cases data size answer).imp_right Or.inl
  | dangling => cases h

/-- The outcomes of the `realloc` of a slice. -/
theorem sliceReallocate_buffer {n : UInt64} {answer : AllocAnswer} {code : Int}
    (h : sliceReallocate slice n answer = .ok (slice', code)) :
    CallBuffer slice slice' (some n) code := by
  obtain ⟨result, hrealloc, h⟩ := bind_eq_ok.mp h
  rcases realloc_cases hrealloc with rfl | ⟨bytes, rfl, hlength⟩ | ⟨hzero, rfl⟩
  · cases h
    exact callBuffer_refused _ _
  · cases h
    exact Or.inl ⟨rfl, hlength, rfl, rfl⟩
  · cases h
    exact Or.inr ⟨rfl, Or.inr ⟨n, rfl, hzero, rfl⟩⟩

/-- The capacity that `slice_push_back` or `slice_insert` records, when there is no free element. -/
def recordedByGrowth (slice : Slice) : Option UInt64 :=
  if slice.size ≥ slice.capacity then some (sliceGrownCapacity slice) else none

/-- The capacity that `slice_reserve` or `slice_resize` records. -/
def recordedByReserve (slice : Slice) (n : UInt64) : Option UInt64 :=
  if n > slice.capacity then some n else none

theorem sliceMakeRoom_buffer {answer : AllocAnswer} {code : Int}
    (h : sliceMakeRoom slice answer = .ok (slice', code)) :
    CallBuffer slice slice' (recordedByGrowth slice) code := by
  rw [sliceMakeRoom] at h
  rw [recordedByGrowth]
  by_cases hfull : slice.size ≥ slice.capacity
  · rw [if_pos hfull] at h ⊢
    exact sliceReallocate_buffer h
  · rw [if_neg hfull] at h ⊢
    cases h
    exact Or.inl ⟨rfl, .refl slice⟩

theorem sliceReserve_buffer {n : UInt64} {answer : AllocAnswer} {code : Int}
    (h : sliceReserve slice n answer = .ok (slice', code)) :
    CallBuffer slice slice' (recordedByReserve slice n) code := by
  rw [sliceReserve] at h
  rw [recordedByReserve]
  by_cases hroom : n ≤ slice.capacity
  · rw [if_pos hroom] at h
    cases h
    rw [if_neg (UInt64.not_lt.mpr hroom)]
    exact Or.inl ⟨rfl, .refl slice⟩
  · rw [if_neg hroom] at h
    rw [if_pos (UInt64.not_le.mp hroom)]
    exact sliceReallocate_buffer h

/-- The capacity that a call records when it allocates. -/
def SliceCall.recorded (slice : Slice) : SliceCall → Option UInt64
  | .pushBack (some _) _ => recordedByGrowth slice
  | .insert index (some _) _ => if index > slice.size then none else recordedByGrowth slice
  | .resize newSize _ _ => recordedByReserve slice newSize
  | .reserve newCapacity _ => recordedByReserve slice newCapacity
  | .pushBack none _ | .insert _ none _ | .popBack _ | .set _ _ | .erase _ _ | .clear => none

theorem slicePushBack_buffer {element : Option (List UInt8)} {answer : AllocAnswer} {code : Int}
    (h : slicePushBack slice element answer = .ok (slice', code)) :
    CallBuffer slice slice' ((SliceCall.pushBack element answer).recorded slice) code := by
  cases element with
  | none =>
      cases h
      exact callBuffer_refused _ _
  | some x =>
      obtain ⟨⟨grown, roomCode⟩, hroom, h⟩ := bind_eq_ok.mp h
      rcases sliceMakeRoom_buffer hroom with ⟨rfl, hgrown⟩ | ⟨rfl, hleft⟩
      · simp only [ne_eq, not_true_eq_false, if_false] at h
        obtain ⟨bytes, -, h⟩ := bind_eq_ok.mp h
        obtain ⟨stored, hstore, h⟩ := bind_eq_ok.mp h
        cases h
        have hsame := sliceStore_same hstore
        exact Or.inl ⟨rfl, hgrown.trans ⟨hsame.length_eq, hsame.capacity_eq, hsame.elementSize_eq⟩⟩
      · cases h
        exact Or.inr ⟨rfl, hleft⟩

theorem sliceInsert_buffer {index : UInt64} {element : Option (List UInt8)} {answer : AllocAnswer}
    {code : Int} (h : sliceInsert slice index element answer = .ok (slice', code)) :
    CallBuffer slice slice' ((SliceCall.insert index element answer).recorded slice) code := by
  cases element with
  | none =>
      cases h
      exact callBuffer_refused _ _
  | some x =>
      rw [sliceInsert] at h
      by_cases hout : index > slice.size
      · rw [if_pos hout] at h
        cases h
        exact callBuffer_refused _ _
      · rw [if_neg hout] at h
        have hrecorded : (SliceCall.insert index (some x) answer).recorded slice
            = recordedByGrowth slice := if_neg hout
        rw [hrecorded]
        obtain ⟨⟨grown, roomCode⟩, hroom, h⟩ := bind_eq_ok.mp h
        rcases sliceMakeRoom_buffer hroom with ⟨rfl, hgrown⟩ | ⟨rfl, hleft⟩
        · simp only [ne_eq, not_true_eq_false, if_false] at h
          obtain ⟨moved, hmove, h⟩ := bind_eq_ok.mp h
          obtain ⟨bytes, -, h⟩ := bind_eq_ok.mp h
          obtain ⟨stored, hstore, h⟩ := bind_eq_ok.mp h
          cases h
          have hsame := (sliceShiftUp_same hmove).trans (sliceStore_same hstore)
          exact Or.inl
            ⟨rfl, hgrown.trans ⟨hsame.length_eq, hsame.capacity_eq, hsame.elementSize_eq⟩⟩
        · cases h
          exact Or.inr ⟨rfl, hleft⟩

theorem sliceResize_buffer {n : UInt64} {defaultValue : Option (List UInt8)} {answer : AllocAnswer}
    {code : Int} (h : sliceResize slice n defaultValue answer = .ok (slice', code)) :
    CallBuffer slice slice' (recordedByReserve slice n) code := by
  rw [sliceResize, sliceResize_reserve] at h
  obtain ⟨⟨grown, roomCode⟩, hroom, h⟩ := bind_eq_ok.mp h
  rcases sliceReserve_buffer hroom with ⟨rfl, hgrown⟩ | ⟨rfl, hleft⟩
  · simp only [ne_eq, not_true_eq_false, if_false] at h
    obtain ⟨filled, hfill, h⟩ := bind_eq_ok.mp h
    cases h
    have hsame := sliceFill_same hfill
    exact Or.inl ⟨rfl, hgrown.trans ⟨hsame.length_eq, hsame.capacity_eq, hsame.elementSize_eq⟩⟩
  · cases h
    exact Or.inr ⟨rfl, hleft⟩

theorem slicePopBack_buffer {out : Bool} {code : Int} {removed : Option (List UInt8)}
    (h : slicePopBack slice out = .ok (slice', code, removed)) :
    CallBuffer slice slice' none code := by
  rw [slicePopBack] at h
  split at h
  · cases h
    exact callBuffer_refused _ _
  · obtain ⟨removed, -, h⟩ := bind_eq_ok.mp h
    cases h
    exact Or.inl ⟨rfl, rfl, rfl, rfl⟩

theorem sliceSet_buffer {index : UInt64} {element : Option (List UInt8)} {code : Int}
    (h : sliceSet slice index element = .ok (slice', code)) :
    CallBuffer slice slice' none code := by
  cases element with
  | none =>
      cases h
      exact callBuffer_refused _ _
  | some x =>
      rw [sliceSet] at h
      split at h
      · cases h
        exact callBuffer_refused _ _
      · obtain ⟨bytes, -, h⟩ := bind_eq_ok.mp h
        obtain ⟨stored, hstore, h⟩ := bind_eq_ok.mp h
        cases h
        exact Or.inl ⟨rfl, sliceStore_same hstore⟩

theorem sliceErase_buffer {index : UInt64} {out : Bool} {code : Int}
    {removed : Option (List UInt8)} (h : sliceErase slice index out = .ok (slice', code, removed)) :
    CallBuffer slice slice' none code := by
  rw [sliceErase] at h
  split at h
  · cases h
    exact callBuffer_refused _ _
  · obtain ⟨removed, -, h⟩ := bind_eq_ok.mp h
    obtain ⟨moved, hmove, h⟩ := bind_eq_ok.mp h
    cases h
    have hsame := sliceShiftDown_same hmove
    exact Or.inl ⟨rfl, hsame.length_eq, hsame.capacity_eq, hsame.elementSize_eq⟩

/-- The step lemma: what each call does to the buffer. -/
theorem sliceStep_buffer {call : SliceCall} {result : SliceResult}
    (h : sliceStep slice call = .ok (slice', result)) :
    CallBuffer slice slice' (call.recorded slice) result.code := by
  cases call with
  | pushBack element answer =>
      obtain ⟨⟨s, code⟩, hcall, h⟩ := bind_eq_ok.mp h
      cases h
      exact slicePushBack_buffer hcall
  | popBack out =>
      obtain ⟨⟨s, code, removed⟩, hcall, h⟩ := bind_eq_ok.mp h
      cases h
      exact slicePopBack_buffer hcall
  | set index element =>
      obtain ⟨⟨s, code⟩, hcall, h⟩ := bind_eq_ok.mp h
      cases h
      exact sliceSet_buffer hcall
  | insert index element answer =>
      obtain ⟨⟨s, code⟩, hcall, h⟩ := bind_eq_ok.mp h
      cases h
      exact sliceInsert_buffer hcall
  | erase index out =>
      obtain ⟨⟨s, code, removed⟩, hcall, h⟩ := bind_eq_ok.mp h
      cases h
      exact sliceErase_buffer hcall
  | resize newSize defaultValue answer =>
      obtain ⟨⟨s, code⟩, hcall, h⟩ := bind_eq_ok.mp h
      cases h
      exact sliceResize_buffer hcall
  | reserve newCapacity answer =>
      obtain ⟨⟨s, code⟩, hcall, h⟩ := bind_eq_ok.mp h
      cases h
      exact sliceReserve_buffer hcall
  | clear =>
      cases h
      exact Or.inl ⟨rfl, rfl, rfl, rfl⟩

/-! ### When the capacity is backed -/

/-- The product of the element size and the capacity that a call asks for is exact in `usize`. -/
def ProductFits (slice : Slice) (call : SliceCall) : Prop :=
  ∀ n ∈ call.newCapacity slice, n * slice.elementSize.toNat < 2 ^ 64

instance (slice : Slice) (call : SliceCall) : Decidable (ProductFits slice call) :=
  Option.decidableForallMem (call.newCapacity slice)

/-- The capacity that a call records is the one that it asks for, in `usize`. -/
theorem SliceCall.newCapacity_of_recorded {call : SliceCall} {n : UInt64}
    (h : call.recorded slice = some n) :
    ∃ m, call.newCapacity slice = some m ∧ n.toNat = m % 2 ^ 64 ∧ 0 < m := by
  have hgrowth : recordedByGrowth slice = some n →
      ∃ m, growTarget slice = some m ∧ n.toNat = m % 2 ^ 64 ∧ 0 < m := by
    intro hrecorded
    rw [recordedByGrowth] at hrecorded
    split at hrecorded
    · next hfull =>
        cases hrecorded
        refine ⟨_, if_pos hfull, toNat_sliceGrownCapacity slice, ?_⟩
        rw [grownCapacity]
        split <;> omega
    · cases hrecorded
  have hreserve : ∀ k : UInt64, recordedByReserve slice k = some n →
      ∃ m, (if k > slice.capacity then some k.toNat else none) = some m ∧
        n.toNat = m % 2 ^ 64 ∧ 0 < m := by
    intro k hrecorded
    rw [recordedByReserve] at hrecorded
    split at hrecorded
    · next hmore =>
        cases hrecorded
        refine ⟨_, if_pos hmore, (Nat.mod_eq_of_lt n.toNat_lt).symm, ?_⟩
        exact Nat.lt_of_le_of_lt (Nat.zero_le _) (UInt64.lt_iff_toNat_lt.mp hmore)
    · cases hrecorded
  cases call with
  | pushBack element answer =>
      cases element with
      | none => cases h
      | some x => exact hgrowth h
  | insert index element answer =>
      cases element with
      | none => cases h
      | some x =>
          rw [SliceCall.recorded] at h
          split at h
          · cases h
          · next hin =>
              rw [SliceCall.newCapacity, if_pos (UInt64.not_lt.mp hin)]
              exact hgrowth h
  | resize newSize defaultValue answer => exact hreserve newSize h
  | reserve newCapacity answer => exact hreserve newCapacity h
  | popBack out => cases h
  | set index element => cases h
  | erase index out => cases h
  | clear => cases h

/-- The recorded product of a call whose product is exact. -/
theorem ProductFits.mul_lt {call : SliceCall} {n : UInt64} (h : ProductFits slice call)
    (hrecorded : call.recorded slice = some n) : n.toNat * slice.elementSize.toNat < 2 ^ 64 := by
  obtain ⟨m, hm, hn, -⟩ := SliceCall.newCapacity_of_recorded hrecorded
  refine Nat.lt_of_le_of_lt (Nat.mul_le_mul_right _ ?_) (h m hm)
  rw [hn]
  exact Nat.mod_le m _

/-- An exact product is `0` only for elements of no bytes. -/
theorem ProductFits.elementSize_eq {call : SliceCall} {n : UInt64} (h : ProductFits slice call)
    (hrecorded : call.recorded slice = some n) (hzero : slice.elementSize * n = 0) :
    slice.elementSize.toNat = 0 := by
  have hlt := h.mul_lt hrecorded
  obtain ⟨m, hm, hn, hpos⟩ := SliceCall.newCapacity_of_recorded hrecorded
  by_contra hne
  have hone : m ≤ m * slice.elementSize.toNat :=
    Nat.le_mul_of_pos_right m (Nat.pos_of_ne_zero hne)
  rw [Nat.mod_eq_of_lt (Nat.lt_of_le_of_lt hone (h m hm))] at hn
  have hproduct := toNat_mul_of_lt hlt
  rw [hzero, hn] at hproduct
  exact absurd hproduct.symm (Nat.mul_ne_zero (Nat.ne_of_gt hpos) hne)

/-- The state before a call from which it leaves a backed slice. -/
def BackedBy (slice : Slice) : Option UInt64 → Prop
  | some n => n.toNat * slice.elementSize.toNat < 2 ^ 64
  | none => Backed slice

theorem BufferAfter.backed_iff {recorded : Option UInt64} (h : BufferAfter slice slice' recorded) :
    Backed slice' ↔ BackedBy slice recorded := by
  cases recorded with
  | some n => exact Reallocated.backed_iff h
  | none => exact SameBuffer.backed_iff h

theorem sliceInit_backed_iff {slice₀ slice : Slice} {elementSize n : UInt64} {answer : AllocAnswer}
    (h : sliceInit slice₀ elementSize n answer = (slice, 0)) :
    Backed slice ↔ (sliceInitialCapacity n).toNat * elementSize.toNat < 2 ^ 64 := by
  rw [sliceInit] at h
  split at h
  · cases h
  · next data hdata =>
      cases h
      rw [Backed, length_reallocBytes hdata, mul_le_toNat_mul_iff]

theorem sliceInit_of_sliceCreate {elementSize n : UInt64} {header : Option Slice}
    {answer : AllocAnswer} (h : sliceCreate elementSize n header answer = some slice) :
    ∃ slice₀, sliceInit slice₀ elementSize n answer = (slice, 0) := by
  cases header with
  | none =>
      rw [sliceCreate.eq_def] at h
      split at h <;> cases h
  | some slice₀ =>
      rw [sliceCreate] at h
      simp only [ne_eq, ite_not, Option.ite_none_left_eq_some, Option.ite_none_right_eq_some,
        Option.some.injEq] at h
      exact ⟨slice₀, Prod.ext h.2.2 h.2.1⟩

/-- A run of calls whose products fit keeps a backed slice backed. -/
theorem run_backed {calls : List SliceCall} (h : Backed slice)
    (hfits : Guarded (nextState sliceStep) ProductFits slice calls)
    (hrun : run (nextState sliceStep) slice calls = .ok slice') : Backed slice' := by
  refine run_invariant Backed ?_ calls slice slice' h hfits hrun
  intro s call s' hs hfit hstep
  obtain ⟨⟨next, result⟩, hcall, hnext⟩ := bind_eq_ok.mp hstep
  cases hnext
  rcases sliceStep_buffer hcall with ⟨-, hbuffer⟩ | ⟨-, rfl | ⟨n, hrecorded, hzero, rfl⟩⟩
  · refine hbuffer.backed_iff.mpr ?_
    cases hrecorded : call.recorded s with
    | some n => exact hfit.mul_lt hrecorded
    | none => exact hs
  · exact hs
  · -- elements of no bytes need no buffer
    show s.capacity.toNat * s.elementSize.toNat ≤ 0
    rw [hfit.elementSize_eq hrecorded hzero, Nat.mul_zero]

/-- A call that succeeds leaves a backed slice exactly when the product of the element size and the
capacity that it records fits in `usize`; a call that does not allocate keeps the buffer it finds.
So a run of calls whose products all fit keeps a backed slice backed. -/
theorem slice_backed_iff_product_fits (slice slice' : Slice) (elementSize n : UInt64)
    (header : Option Slice) (answer : AllocAnswer) :
    (sliceInit slice elementSize n answer = (slice', 0) →
      (Backed slice' ↔ (sliceInitialCapacity n).toNat * elementSize.toNat < 2 ^ 64)) ∧
    (sliceCreate elementSize n header answer = some slice' →
      (Backed slice' ↔ (sliceInitialCapacity n).toNat * elementSize.toNat < 2 ^ 64)) ∧
    (sliceGrow slice answer = .ok (slice', 0) →
      (Backed slice' ↔
        (sliceGrownCapacity slice).toNat * slice.elementSize.toNat < 2 ^ 64)) ∧
    (∀ call result, sliceStep slice call = .ok (slice', result) → result.code = 0 →
      (Backed slice' ↔ BackedBy slice (call.recorded slice))) ∧
    ∀ calls, Backed slice → Guarded (nextState sliceStep) ProductFits slice calls →
      run (nextState sliceStep) slice calls = .ok slice' → Backed slice' := by
  refine ⟨fun h => sliceInit_backed_iff h, ?_, ?_, ?_,
    fun _ h hfits hrun => run_backed h hfits hrun⟩
  · intro h
    obtain ⟨slice₀, hinit⟩ := sliceInit_of_sliceCreate h
    exact sliceInit_backed_iff hinit
  · intro h
    rcases sliceReallocate_buffer h with ⟨-, hgrown⟩ | ⟨hfailed, -⟩
    · exact Reallocated.backed_iff hgrown
    · cases hfailed
  · intro call result h hcode
    rcases sliceStep_buffer h with ⟨-, hbuffer⟩ | ⟨hfailed, -⟩
    · exact hbuffer.backed_iff
    · rw [hcode] at hfailed
      cases hfailed

/-- A slice for two block ids, and a count of three from the file. -/
theorem slice_backed_iff_product_fits_reserve :
    ∃ slice slice', sliceInit ⟨.null, [], 0, 0, 0⟩ 8 2 (some fun _ => 0) = (slice, 0) ∧
      Backed slice ∧
      run (nextState sliceStep) slice [.reserve 3 (some fun _ => 0)] = .ok slice' ∧
      Backed slice' := by
  obtain ⟨slice, hinit⟩ : ∃ slice,
      sliceInit ⟨.null, [], 0, 0, 0⟩ 8 2 (some fun _ => 0) = (slice, 0) := ⟨_, rfl⟩
  obtain ⟨hiff, -⟩ :=
    slice_backed_iff_product_fits ⟨.null, [], 0, 0, 0⟩ slice 8 2 none (some fun _ => 0)
  have hbacked := (hiff hinit).mpr (by decide)
  cases hinit
  obtain ⟨slice', hrun⟩ : ∃ slice', run (nextState sliceStep)
      ⟨.live, List.replicate 16 0, 0, 2, 8⟩ [.reserve 3 (some fun _ => 0)] = .ok slice' := ⟨_, rfl⟩
  obtain ⟨-, -, -, -, hkeeps⟩ := slice_backed_iff_product_fits
    ⟨.live, List.replicate 16 0, 0, 2, 8⟩ slice' 8 2 none none
  exact ⟨_, slice', rfl, hbacked, hrun,
    hkeeps [.reserve 3 (some fun _ => 0)] hbacked ⟨by decide, fun _ _ => trivial⟩ hrun⟩

set_option maxRecDepth 4096 in
/-- `2 ^ 61 + 1` block ids are `8` bytes in `usize`: `slice_reserve` shrinks the buffer of the free
list to them and records the capacity, and the second block id is stored behind the buffer. -/
theorem sliceReserve_wraps :
    ∃ slice slice', sliceInit ⟨.null, [], 0, 0, 0⟩ 8 0 (some fun _ => 0) = (slice, 0) ∧
      sliceReserve slice 0x2000000000000001 (some fun _ => 0) = .ok (slice', 0) ∧
      slice'.data.length = 8 ∧ slice'.capacity = 0x2000000000000001 ∧ ¬ Backed slice' ∧
      run (nextState sliceStep) slice'
          [.pushBack (some [1, 0, 0, 0, 0, 0, 0, 0]) none,
            .pushBack (some [2, 0, 0, 0, 0, 0, 0, 0]) none]
        = .error .outOfBounds := by
  have hreserve : sliceReserve (sliceInit ⟨.null, [], 0, 0, 0⟩ 8 0 (some fun _ => 0)).1
      0x2000000000000001 (some fun _ => 0)
      = .ok (⟨.live, [0, 0, 0, 0, 0, 0, 0, 0], 0, 0x2000000000000001, 8⟩, 0) := by decide
  refine ⟨_, _, rfl, hreserve, rfl, rfl, ?_, rfl⟩
  rw [Backed]
  decide

end MustDb.Proofs.Libv
