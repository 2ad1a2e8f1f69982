import Mathlib.Data.List.Basic
import Mathlib.Data.List.Perm.Basic

/-!
# `MustDb.Lib.Buckets`: items in buckets

A table is a list of buckets, and each bucket is a list of items. `place x` is the bucket that the
item `x` belongs to. `Placed` says that each item is in its bucket, so a search for an item looks at
one bucket only (`Placed.mem_bucket`).

`exists_rest` is the frame rule: the items of a table are those of one bucket and a rest, and a new
content of the bucket leaves the rest as it is. `pushAll` puts items into a table one by one, each
at the front of its bucket, as a rehash does. It loses none and adds none (`flatten_pushAll`).

A search in a bucket stops at the first item with a property, and `splitFirst` is the bucket around
that item.
-/

set_option autoImplicit false

namespace MustDb.Lib

variable {α : Type} {place : α → Nat} {buckets : List (List α)}

/-- Each item is in its bucket. -/
def Placed (place : α → Nat) (buckets : List (List α)) : Prop :=
  ∀ i bucket, buckets[i]? = some bucket → ∀ x ∈ bucket, place x = i

/-- An item of the table is in the bucket it belongs to. -/
theorem Placed.mem_bucket (h : Placed place buckets) {x : α} (hx : x ∈ buckets.flatten)
    {bucket : List α} (hbucket : buckets[place x]? = some bucket) : x ∈ bucket := by
  obtain ⟨other, hother, hmem⟩ := List.mem_flatten.mp hx
  obtain ⟨i, hi⟩ := List.mem_iff_getElem?.mp hother
  rw [h i other hi x hmem, hi, Option.some_inj] at hbucket
  rwa [← hbucket]

/-- Empty buckets hold their items. -/
theorem placed_replicate (place : α → Nat) (n : Nat) :
    Placed place (List.replicate n ([] : List α)) := by
  intro i bucket hbucket x hx
  rw [List.getElem?_replicate] at hbucket
  split at hbucket
  case isTrue =>
      cases hbucket
      cases hx
  case isFalse => cases hbucket

/-- A new content of one bucket, all of whose items belong there. -/
theorem Placed.set (h : Placed place buckets) {i : Nat} {bucket : List α}
    (hbucket : ∀ x ∈ bucket, place x = i) : Placed place (buckets.set i bucket) := by
  intro j other hother x hx
  rw [List.getElem?_set] at hother
  split at hother
  case isTrue hij =>
      split at hother
      case isTrue =>
          cases hother
          rw [hbucket x hx, hij]
      case isFalse => cases hother
  case isFalse => exact h j other hother x hx

/-- The frame rule: the items of the table are those of one bucket and a rest that no new content
of the bucket changes. -/
theorem exists_rest {i : Nat} {bucket : List α} (h : buckets[i]? = some bucket) :
    ∃ rest : List α, buckets.flatten.Perm (bucket ++ rest) ∧
      ∀ bucket', (buckets.set i bucket').flatten.Perm (bucket' ++ rest) := by
  obtain ⟨hi, rfl⟩ := List.getElem?_eq_some_iff.mp h
  have hmove (pre mid post : List α) : (pre ++ (mid ++ post)).Perm (mid ++ (pre ++ post)) := by
    rw [← List.append_assoc, ← List.append_assoc]
    exact List.perm_append_comm.append_right post
  -- the rest is what stands in the buckets before and behind this one
  refine ⟨(buckets.take i).flatten ++ (buckets.drop (i + 1)).flatten, ?_, fun bucket' => ?_⟩
  · have hsplit : buckets = buckets.take i ++ buckets[i] :: buckets.drop (i + 1) := by
      rw [← List.drop_eq_getElem_cons hi, List.take_append_drop]
    have hflatten : buckets.flatten = (buckets.take i).flatten ++
        (buckets[i] ++ (buckets.drop (i + 1)).flatten) := by
      conv_lhs => rw [hsplit]
      rw [List.flatten_append, List.flatten_cons]
    rw [hflatten]
    exact hmove _ _ _
  · rw [List.set_eq_take_append_cons_drop, if_pos hi, List.flatten_append, List.flatten_cons]
    exact hmove _ _ _

/-- The frame rule for one item: it can be replaced or taken out, and the others stay. -/
theorem exists_others {i : Nat} {pre post : List α} {x : α}
    (h : buckets[i]? = some (pre ++ x :: post)) :
    ∃ others : List α, buckets.flatten.Perm (x :: others) ∧
      (∀ y, (buckets.set i (pre ++ y :: post)).flatten.Perm (y :: others)) ∧
      (buckets.set i (pre ++ post)).flatten.Perm others := by
  obtain ⟨rest, hold, hnew⟩ := exists_rest h
  have hfront (y : α) : (pre ++ y :: post ++ rest).Perm (y :: (pre ++ post ++ rest)) :=
    List.perm_middle.append_right rest
  exact ⟨pre ++ post ++ rest, hold.trans (hfront x), fun y => (hnew _).trans (hfront y), hnew _⟩

/-! ### Putting items into a table -/

/-- Put an item at the front of its bucket. -/
def push (place : α → Nat) (buckets : List (List α)) (x : α) : List (List α) :=
  buckets.modify (place x) (x :: ·)

/-- Put items into the table one by one. -/
def pushAll (place : α → Nat) (buckets : List (List α)) (items : List α) : List (List α) :=
  items.foldl (push place) buckets

@[simp] theorem length_push (x : α) : (push place buckets x).length = buckets.length :=
  List.length_modify ..

@[simp] theorem length_pushAll (items : List α) :
    (pushAll place buckets items).length = buckets.length := by
  induction items generalizing buckets with
  | nil => rfl
  | cons x items ih => rw [pushAll, List.foldl_cons, ← pushAll, ih, length_push]

theorem push_eq_set {x : α} {bucket : List α} (h : buckets[place x]? = some bucket) :
    push place buckets x = buckets.set (place x) (x :: bucket) := by
  obtain ⟨hi, rfl⟩ := List.getElem?_eq_some_iff.mp h
  rw [push, List.modify_eq_set_getElem?, h]
  rfl

theorem Placed.push (h : Placed place buckets) (x : α) : Placed place (push place buckets x) := by
  cases hbucket : buckets[place x]? with
  | none =>
      -- there is no such bucket, and the item goes nowhere
      rw [Lib.push, List.modify_eq_set_getElem?, hbucket]
      exact h
  | some bucket =>
      rw [push_eq_set hbucket]
      refine h.set fun y hy => ?_
      rcases List.mem_cons.mp hy with rfl | hy
      · rfl
      · exact h _ _ hbucket y hy

theorem Placed.pushAll (h : Placed place buckets) (items : List α) :
    Placed place (pushAll place buckets items) := by
  induction items generalizing buckets with
  | nil => exact h
  | cons x items ih => exact ih (h.push x)

theorem flatten_push {x : α} (hplace : place x < buckets.length) :
    (push place buckets x).flatten.Perm (x :: buckets.flatten) := by
  have hbucket := List.getElem?_eq_getElem hplace
  obtain ⟨rest, hold, hnew⟩ := exists_rest hbucket
  rw [push_eq_set hbucket]
  exact (hnew _).trans (hold.symm.cons x)

/-- The items of the new table are those of the old one and the ones that were put into it. -/
theorem flatten_pushAll {items : List α} (hplace : ∀ x ∈ items, place x < buckets.length) :
    (pushAll place buckets items).flatten.Perm (items ++ buckets.flatten) := by
  induction items generalizing buckets with
  | nil => exact List.Perm.refl _
  | cons x items ih =>
      have hx := hplace x List.mem_cons_self
      have hitems : ∀ y ∈ items, place y < (push place buckets x).length := by
        intro y hy
        rw [length_push]
        exact hplace y (List.mem_cons_of_mem _ hy)
      refine (ih hitems).trans ?_
      exact ((flatten_push hx).append_left items).trans List.perm_middle

/-! ### The first element with a property -/

/-- A list around its first element with `p`. -/
def splitFirst (p : α → Bool) : List α → Option (List α × α × List α)
  | [] => none
  | a :: l =>
      if p a then some ([], a, l)
      else (splitFirst p l).map fun found => (a :: found.1, found.2)

theorem splitFirst_eq_none {p : α → Bool} {l : List α} (h : splitFirst p l = none) :
    ∀ a ∈ l, p a = false := by
  induction l with
  | nil => exact fun _ hmem => absurd hmem List.not_mem_nil
  | cons first l ih =>
      rw [splitFirst] at h
      split at h
      case isTrue => cases h
      case isFalse hfirst =>
          have hrest := ih (Option.map_eq_none_iff.mp h)
          exact List.forall_mem_cons.mpr ⟨Bool.eq_false_iff.mpr hfirst, hrest⟩

theorem splitFirst_eq_some {p : α → Bool} {l pre post : List α} {a : α}
    (h : splitFirst p l = some (pre, a, post)) : l = pre ++ a :: post ∧ p a = true := by
  induction l generalizing pre with
  | nil => cases h
  | cons first l ih =>
      rw [splitFirst] at h
      split at h
      case isTrue hfirst =>
          cases h
          exact ⟨rfl, hfirst⟩
      case isFalse =>
          obtain ⟨⟨pre', found⟩, hrest, heq⟩ := Option.map_eq_some_iff.mp h
          cases heq
          obtain ⟨rfl, ha⟩ := ih hrest
          exact ⟨rfl, ha⟩

end MustDb.Lib
