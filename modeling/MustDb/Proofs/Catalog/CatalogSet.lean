import MustDb.Proofs.Catalog.SetSteps

/-!
# `MustDb.Proofs.Catalog.CatalogSet`: the live entries of a set

`SetHolds heap set live` says that the newest version of each name of `set` is in the heap, and that
`live` is the map of those versions that are not tombstones. It holds after `catalogSet_init`
(`setHolds_init`), and each operation has one lemma about it, for a call with enough memory:
`SetHolds.getEntry`, `SetHolds.createEntry`, `SetHolds.createEntry_live`, `SetHolds.dropEntry`.

Every set keeps its live entries in a heap that is kept (`SetHolds.kept`), so no set can tell what
happens in another one.
-/

set_option autoImplicit false

namespace MustDb.Proofs.Catalog

open MustDb.Lib
open MustDb.Libv
open MustDb.Catalog
open MustDb.Proofs.Libv

variable {δ : Type} {heap heap' : CatalogHeap δ}

/-! ### The live entries -/

/-- The newest version of a name, and the live entry of the name. -/
inductive HeadHolds (heap : CatalogHeap δ) (name : CString) : Option Addr → Option Addr → Prop where
  /-- The name was never created. -/
  | absent : HeadHolds heap name none none
  /-- The newest version is live. -/
  | live {addr : Addr} {e : CatalogEntry δ} (get : heap.get? addr = some e)
      (name_eq : e.name = some name) (deleted_eq : e.deleted = false) :
      HeadHolds heap name (some addr) (some addr)
  /-- The newest version is a tombstone. -/
  | dropped {addr : Addr} {e : CatalogEntry δ} (get : heap.get? addr = some e)
      (name_eq : e.name = some name) (deleted_eq : e.deleted = true) :
      HeadHolds heap name (some addr) none

/-- A name without a newest version is not live. -/
theorem HeadHolds.eq_none {name : CString} {live : Option Addr}
    (h : HeadHolds heap name none live) : live = none := by
  cases h
  rfl

/-- The deletion mark of the newest version says whether the name is live. -/
theorem HeadHolds.entry {name : CString} {head : Addr} {live : Option Addr}
    (h : HeadHolds heap name (some head) live) :
    ∃ e, heap.get? head = some e ∧ e.name = some name ∧
      live = if e.deleted then none else some head := by
  cases h with
  | live hget hname hdeleted => exact ⟨_, hget, hname, by rw [hdeleted]; rfl⟩
  | dropped hget hname hdeleted => exact ⟨_, hget, hname, by rw [hdeleted]; rfl⟩

theorem HeadHolds.sameHeads {name : CString} {head live : Option Addr}
    (h : HeadHolds heap name head live) (hsame : SameHeads heap heap') :
    HeadHolds heap' name head live := by
  cases h with
  | absent => exact .absent
  | live hget hname hdeleted =>
      obtain ⟨e', hget', hname', hdeleted'⟩ := hsame _ _ hget
      exact .live hget' (hname'.trans hname) (hdeleted'.trans hdeleted)
  | dropped hget hname hdeleted =>
      obtain ⟨e', hget', hname', hdeleted'⟩ := hsame _ _ hget
      exact .dropped hget' (hname'.trans hname) (hdeleted'.trans hdeleted)

/-- The set has the newest versions of its names, and `live` are the live ones. -/
def SetHolds (heap : CatalogHeap δ) (set : CatalogSet) (live : CString → Option Addr) : Prop :=
  ∃ m : lawfulKeys_str.Map Addr, Represents lawfulKeys_str set.data m ∧
    ∀ name, HeadHolds heap name (m.lookup (nameKey name)) (live name)

variable {set : CatalogSet} {live : CString → Option Addr}

theorem SetHolds.sameHeads (h : SetHolds heap set live) (hsame : SameHeads heap heap') :
    SetHolds heap' set live := by
  obtain ⟨m, hdata, hheads⟩ := h
  exact ⟨m, hdata, fun name => (hheads name).sameHeads hsame⟩

/-- A set cannot tell a heap that is kept from the old one. -/
theorem SetHolds.kept (h : SetHolds heap set live) (hkept : Kept heap heap') :
    SetHolds heap' set live :=
  h.sameHeads hkept.sameHeads

/-- A new set is empty. -/
theorem setHolds_init : SetHolds heap (catalogSetInit []).1 fun _ => none := by
  have hdata : Represents lawfulKeys_str (catalogSetInit []).1.data (∅ : lawfulKeys_str.Map Addr) :=
    represents_init lawfulKeys_str HMAP_DEFAULT_NBUCKETS [] (by decide) (by decide)
  refine ⟨∅, hdata, fun name => ?_⟩
  rw [Finmap.lookup_empty]
  exact .absent

/-- The live entry of a name is among the heads. -/
theorem SetHolds.live_entry (h : SetHolds heap set live) (name : CString) (addr : Addr)
    (hlive : live name = some addr) :
    ∃ e, heap.get? addr = some e ∧ e.name = some name ∧ e.deleted = false := by
  obtain ⟨m, -, hheads⟩ := h
  have hhead := hheads name
  rw [hlive] at hhead
  generalize m.lookup (nameKey name) = head at hhead
  cases hhead with
  | live hget hname hdeleted => exact ⟨_, hget, hname, hdeleted⟩

/-! ### The operations -/

/-- The spec of `catalogSet_get_entry`. -/
theorem SetHolds.getEntry (h : SetHolds heap set live) (name : CString) :
    catalogSetGetEntry heap set name = .ok (live name) := by
  obtain ⟨m, hdata, hheads⟩ := h
  have hhead := hheads name
  cases hlookup : m.lookup (nameKey name) with
  | none =>
      rw [hlookup] at hhead
      rw [getEntry_absent hdata hlookup, hhead.eq_none]
  | some head =>
      rw [hlookup] at hhead
      obtain ⟨e, hget, -, hlive⟩ := hhead.entry
      rw [getEntry_head hdata hlookup hget, hlive]

/-- The name has a new head. -/
theorem headHolds_insert {m : lawfulKeys_str.Map Addr} {name : CString} {value : Addr}
    {a : Option Addr} (hheads : ∀ n, HeadHolds heap n (m.lookup (nameKey n)) (live n))
    (hkept : Kept heap heap') (hvalue : HeadHolds heap' name (some value) a) (n : CString) :
    HeadHolds heap' n ((m.insert (nameKey name) value).lookup (nameKey n))
      (Function.update live name a n) := by
  by_cases hn : n = name
  · rw [hn, Finmap.lookup_insert, Function.update_self]
    exact hvalue
  · have hkey : nameKey n ≠ nameKey name := fun h => hn (nameKey_eq_iff.mp h)
    rw [Finmap.lookup_insert_of_ne _ hkey, Function.update_of_ne hn]
    exact (hheads n).sameHeads hkept.sameHeads

/-- A creation of a live name changes nothing. -/
theorem SetHolds.createEntry_live (h : SetHolds heap set live) (name : CString)
    (hlive : live name ≠ none) (value : Addr) :
    catalogSetCreateEntry heap set name value = .ok (heap, set, false) := by
  obtain ⟨m, hdata, hheads⟩ := h
  have hhead := hheads name
  cases hlookup : m.lookup (nameKey name) with
  | none =>
      rw [hlookup] at hhead
      exact absurd hhead.eq_none hlive
  | some head =>
      rw [hlookup] at hhead
      obtain ⟨e, hget, -, hlive'⟩ := hhead.entry
      have hdeleted : e.deleted = false := by
        rw [← Bool.not_eq_true]
        intro hdeleted
        rw [hdeleted] at hlive'
        exact hlive hlive'
      exact createEntry_exists hdata hlookup hget hdeleted value

/-- A creation of a name that is not live. -/
theorem SetHolds.createEntry (h : SetHolds heap set live) (hmem : heap.outcomes = [])
    (name : CString) (hlive : live name = none) {value : Addr} {e : CatalogEntry δ}
    (hvalue : heap.get? value = some e) (hname : e.name = some name)
    (hdeleted : e.deleted = false) :
    ∃ heap' set', catalogSetCreateEntry heap set name value = .ok (heap', set', true) ∧
      Kept heap heap' ∧ SetHolds heap' set' (Function.update live name (some value)) := by
  obtain ⟨m, hdata, hheads⟩ := h
  have hentry {n : CString} {head : Addr} (hlookup : m.lookup (nameKey n) = some head) :
      ∃ e, heap.get? head = some e ∧ e.name = some n ∧
        live n = if e.deleted then none else some head :=
    (hlookup ▸ hheads n).entry
  -- the new entry is live and has the name, so it would make the name live as a head
  have hfresh (n : CString) : m.lookup (nameKey n) ≠ some value := by
    intro hlookup
    obtain ⟨e', hget, hname', hlive'⟩ := hentry hlookup
    obtain rfl := Option.some_inj.mp (hget.symm.trans hvalue)
    obtain rfl := Option.some_inj.mp (hname'.symm.trans hname)
    rw [hlive, hdeleted] at hlive'
    cases hlive'
  obtain ⟨result, hrun, hcase⟩ := createEntry_cases hdata
    (fun _ _ hlookup => (hentry hlookup).imp fun _ he => he.1) name hvalue hfresh
  -- both branches end with the new version as the head, in a map that differs in this key only
  have hend {heap' : CatalogHeap δ} {data : Hmap CString Addr} (hkept : Kept heap heap')
      (hdata' : Represents lawfulKeys_str data (m.insert (nameKey name) value)) :
      SetHolds heap' { data } (Function.update live name (some value)) := by
    obtain ⟨e', he', hsame⟩ := hkept.entry value e hvalue
    exact ⟨_, hdata', headHolds_insert hheads hkept
      (.live he' (hsame.name_eq.trans hname) (hsame.deleted_eq.trans hdeleted))⟩
  cases hcase with
  | «exists» hlookup hget hdeleted' =>
      obtain ⟨e', hget', -, hlive'⟩ := hentry hlookup
      obtain rfl := Option.some_inj.mp (hget'.symm.trans hget)
      rw [hlive, hdeleted'] at hlive'
      cases hlive'
  | refused _ hfailed => exact absurd (hmem ▸ hfailed) List.not_mem_nil
  | first _ hsub hdata' =>
      have hdummy : Kept heap (withDummy heap name _) :=
        (kept_push (dummyEntry name)).outcomes_rest hmem hsub
      have hkept := hdummy.trans (kept_pushed (Heap.get?_push_next heap (dummyEntry name))
        (Heap.get?_push_of_get? hvalue _) (Nat.ne_of_gt (Heap.lt_next hvalue)))
      exact ⟨_, _, hrun, hkept, hend hkept hdata'⟩
  | again hlookup hget _ hdata' =>
      have hne : _ ≠ value := fun heq => hfresh name (heq ▸ hlookup)
      have hkept := kept_pushed hget hvalue hne
      exact ⟨_, _, hrun, hkept, hend hkept hdata'⟩

/-- The spec of `catalogSet_drop_entry`: the name is not live after it. -/
theorem SetHolds.dropEntry (h : SetHolds heap set live) (hmem : heap.outcomes = [])
    (name : CString) :
    ∃ heap' set' dropped, catalogSetDropEntry heap set name = .ok (heap', set', dropped) ∧
      Kept heap heap' ∧ SetHolds heap' set' (Function.update live name none) := by
  obtain ⟨m, hdata, hheads⟩ := h
  have hentry {n : CString} {head : Addr} (hlookup : m.lookup (nameKey n) = some head) :
      ∃ e, heap.get? head = some e ∧ e.name = some n := by
    obtain ⟨e, hget, hname, -⟩ := (hlookup ▸ hheads n).entry
    exact ⟨e, hget, hname⟩
  have hroom : (malloc heap.outcomes).1 = true ∧ (malloc (malloc heap.outcomes).2).1 = true := by
    rw [hmem]
    exact ⟨rfl, rfl⟩
  rcases dropEntry_cases hdata (fun _ _ hlookup => (hentry hlookup).imp fun _ he => he.1) name with
    ⟨result, hrun, hcase⟩ | ⟨head, e, hlookup, hget, hname, -⟩
  · cases hcase with
    | absent hnew =>
        -- a name without a chain is not live, so nothing changes
        have hlive : live name = none := (hnew ▸ hheads name).eq_none
        refine ⟨heap, set, false, hrun, Kept.rfl, ?_⟩
        rw [Function.update_eq_self_iff.mpr hlive.symm]
        exact ⟨m, hdata, hheads⟩
    | kept _ _ hfailed => exact absurd (hfailed.symm.trans hroom.2) Bool.false_ne_true
    | @dropped head e copy rest data hlookup hget _ hcopy hsub hdata' =>
        -- the tombstone is a new entry in front of the head, whether the head is live or not
        have hpush : Kept heap { heap.push (tombstone copy head) with outcomes := rest } :=
          (kept_push _).outcomes_rest hmem hsub
        have hold : ({ heap.push (tombstone copy head) with outcomes := rest } :
            CatalogHeap δ).get? head = some e := Heap.get?_push_of_get? hget _
        have hkept := hpush.trans (kept_put hold { e with parent := some heap.next }
          ⟨rfl, rfl, rfl, rfl⟩)
        obtain ⟨e', hget', hname⟩ := hentry hlookup
        obtain rfl := Option.some_inj.mp (hget'.symm.trans hget)
        exact ⟨_, _, true, hrun, hkept, _, hdata', headHolds_insert hheads hkept
          (.dropped (get?_tombstone hget copy _) ((hcopy hroom.1).trans hname) rfl)⟩
  · obtain ⟨e', hget', hname'⟩ := hentry hlookup
    obtain rfl := Option.some_inj.mp (hget'.symm.trans hget)
    exact absurd (hname'.symm.trans hname) (Option.some_ne_none _)

end MustDb.Proofs.Catalog
