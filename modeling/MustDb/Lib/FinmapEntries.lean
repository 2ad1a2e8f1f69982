import Mathlib.Algebra.Group.Action.Defs
import Mathlib.Data.Finmap

/-!
# `MustDb.Lib.FinmapEntries`: finite maps by their entries

A program that keeps a finite map in memory keeps its entries in some order. The lemmas below say
how the entries of a `Finmap` change: `insert` of a new key adds one entry, `insert` of a key that
is there replaces one (`entries_insert_of_cons`), and `erase` takes one away
(`entries_erase_of_cons`).

`weight f m` adds up `f` over the values of `m`. A new entry adds its own weight, and an erased
entry takes its weight away.
-/

set_option autoImplicit false

namespace MustDb.Lib

/-- The number of keys is the number of entries. -/
theorem card_keys_eq {α β : Type} (m : Finmap fun _ : α => β) :
    m.keys.card = Multiset.card m.entries :=
  Multiset.card_map _ _

variable {α β : Type} [DecidableEq α] {m : Finmap fun _ : α => β} {a : α} {b : β}
  {rest : Multiset (Sigma fun _ : α => β)}

/-- A map with the entry `⟨a, b⟩` is a smaller map with that entry inserted. -/
theorem exists_insert_of_cons (h : m.entries = ⟨a, b⟩ ::ₘ rest) :
    ∃ m' : Finmap fun _ : α => β, m'.entries = rest ∧ a ∉ m' ∧ m = m'.insert a b := by
  have hnodup := m.nodupKeys
  rw [h] at hnodup
  have hkeys : (Multiset.keys rest).Nodup ∧ a ∉ Multiset.keys rest := by
    have hcons := Multiset.nodup_keys.mpr hnodup
    rw [Multiset.keys_cons, Multiset.nodup_cons] at hcons
    exact ⟨hcons.2, hcons.1⟩
  refine ⟨⟨rest, Multiset.nodup_keys.mp hkeys.1⟩, rfl, hkeys.2, Finmap.ext ?_⟩
  rw [h, Finmap.entries_insert_of_notMem hkeys.2]

theorem entries_erase_of_cons (h : m.entries = ⟨a, b⟩ ::ₘ rest) : (m.erase a).entries = rest := by
  obtain ⟨m', hrest, hnew, rfl⟩ := exists_insert_of_cons h
  have herase : (m'.insert a b).erase a = m' := by
    refine Finmap.ext_lookup fun x => ?_
    by_cases hx : x = a
    · rw [hx, Finmap.lookup_erase, Finmap.lookup_eq_none.mpr hnew]
    · rw [Finmap.lookup_erase_ne hx, Finmap.lookup_insert_of_ne _ hx]
  rw [herase, hrest]

theorem entries_insert_of_cons (h : m.entries = ⟨a, b⟩ ::ₘ rest) (b' : β) :
    (m.insert a b').entries = ⟨a, b'⟩ ::ₘ rest := by
  obtain ⟨m', hrest, hnew, rfl⟩ := exists_insert_of_cons h
  rw [Finmap.insert_insert, Finmap.entries_insert_of_notMem hnew, hrest]

/-- The erasure of a key that is not there changes nothing. -/
theorem erase_of_notMem (h : a ∉ m) : m.erase a = m := by
  refine Finmap.ext_lookup fun x => ?_
  by_cases hx : x = a
  · rw [hx, Finmap.lookup_erase, Finmap.lookup_eq_none.mpr h]
  · rw [Finmap.lookup_erase_ne hx]

/-! ### Sums over the values -/

/-- The sum of `f` over the values of a map. -/
def weight (f : β → Nat) (m : Finmap fun _ : α => β) : Nat :=
  (m.entries.map fun entry => f entry.2).sum

omit [DecidableEq α] in
/-- The number of keys weighs every value with one. -/
theorem weight_one (m : Finmap fun _ : α => β) : weight (fun _ => 1) m = m.keys.card := by
  rw [weight, card_keys_eq, Multiset.map_const', Multiset.sum_replicate, smul_eq_mul,
    Nat.mul_one]

/-- A new entry adds its weight. -/
theorem weight_insert (f : β → Nat) (h : a ∉ m) : weight f (m.insert a b) = f b + weight f m := by
  rw [weight, Finmap.entries_insert_of_notMem h, Multiset.map_cons, Multiset.sum_cons]
  rfl

/-- An entry takes its weight with it. -/
theorem weight_erase (f : β → Nat) (h : m.lookup a = some b) :
    weight f m = f b + weight f (m.erase a) := by
  obtain ⟨rest, hrest⟩ := Multiset.exists_cons_of_mem (Finmap.mem_lookup_iff.mp h)
  rw [weight, weight, entries_erase_of_cons hrest, hrest, Multiset.map_cons, Multiset.sum_cons]

end MustDb.Lib
