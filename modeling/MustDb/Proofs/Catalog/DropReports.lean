import MustDb.Lib.Simulation
import MustDb.Proofs.Catalog.SetSteps

/-!
# `MustDb.Proofs.Catalog.DropReports`: when a drop reports what happened

`catalogSet_create_entry` treats a name whose newest version is deleted as absent.
`catalogSet_drop_entry` does not: it returns `true` for every name that is in the map, also when it
was dropped before, and when there was no memory for the tombstone. `drop_reports_iff` says, for
every set that calls with any allocation outcomes can reach, when the result of a drop is right.

The invariant is `NamedHeads`: the newest version of a name is in the heap, and a live one has a
name. A tombstone can be without a name, when there was no memory for the copy, and then the next
drop of the name reads `NULL`.
-/

set_option autoImplicit false

namespace MustDb.Proofs.Catalog

open MustDb.Lib
open MustDb.Libv
open MustDb.Catalog
open MustDb.Proofs.Libv

variable {δ : Type}

/-- The name has a live entry. -/
def LiveIn (s : SetState δ) (name : CString) : Prop :=
  ∃ entry, catalogSetGetEntry s.heap s.set name = .ok (some entry)

/-- A drop of the name, with these outcomes of its allocations, returns `true` exactly when the name
was live and is not any more. When it returns `false`, the set is as it was. -/
def DropReports (s : SetState δ) (name : CString) (outcomes : MallocOutcomes) : Prop :=
  ∃ s' ok, allocStep s { call := .drop name, outcomes } = .ok (s', .dropped ok) ∧
    (ok = true ↔ LiveIn s name ∧ ¬ LiveIn s' name) ∧
    (ok = false → s'.set = s.set ∧ s'.heap.cells = s.heap.cells)

/-- The outcome of the allocation of the tombstone; the one before it is the copy of the name. -/
def tombstoneRoom (outcomes : MallocOutcomes) : Bool := (malloc (malloc outcomes).2).1

/-! ### The invariant -/

/-- The newest versions are in the heap, and the live ones have names. -/
def NamedHeads (heap : CatalogHeap δ) (m : lawfulKeys_str.Map Addr) : Prop :=
  ∀ name addr, m.lookup (nameKey name) = some addr →
    ∃ e, heap.get? addr = some e ∧ (e.deleted = false → e.name ≠ none)

/-- The set of the state is a map to such versions. -/
def NamedInv (s : SetState δ) : Prop :=
  ∃ m, Represents lawfulKeys_str s.set.data m ∧ NamedHeads s.heap m

variable {heap heap' : CatalogHeap δ} {m : lawfulKeys_str.Map Addr}

theorem NamedHeads.sameHeads (hheads : NamedHeads heap m) (hsame : SameHeads heap heap') :
    NamedHeads heap' m := by
  intro name addr hlookup
  obtain ⟨e, hget, hname⟩ := hheads name addr hlookup
  obtain ⟨e', hget', hname', hdeleted'⟩ := hsame addr e hget
  exact ⟨e', hget', fun hlive => hname' ▸ hname (hdeleted' ▸ hlive)⟩

/-- A name has a new version. -/
theorem NamedHeads.insert (hheads : NamedHeads heap m) (hsame : SameHeads heap heap')
    {name : CString} {value : Addr}
    (hvalue : ∃ e, heap'.get? value = some e ∧ (e.deleted = false → e.name ≠ none)) :
    NamedHeads heap' (m.insert (nameKey name) value) := by
  intro name' addr hlookup
  by_cases hname : name' = name
  · rw [hname, Finmap.lookup_insert, Option.some_inj] at hlookup
    exact hlookup ▸ hvalue
  · have hkey : nameKey name' ≠ nameKey name := fun heq => hname (nameKey_eq_iff.mp heq)
    rw [Finmap.lookup_insert_of_ne _ hkey] at hlookup
    exact hheads.sameHeads hsame name' addr hlookup

theorem NamedHeads.get (hheads : NamedHeads heap m) (name : CString) (addr : Addr)
    (hlookup : m.lookup (nameKey name) = some addr) : ∃ e, heap.get? addr = some e := by
  obtain ⟨e, hget, -⟩ := hheads name addr hlookup
  exact ⟨e, hget⟩

theorem sameHeads_of_get? (h : ∀ addr e, heap.get? addr = some e → heap'.get? addr = some e) :
    SameHeads heap heap' :=
  fun addr e hget => ⟨e, h addr e hget, rfl, rfl⟩

theorem namedInv_init : NamedInv (setStateInit : SetState δ) := by
  have hdata : Represents lawfulKeys_str (catalogSetInit []).1.data (∅ : lawfulKeys_str.Map Addr) :=
    represents_init lawfulKeys_str HMAP_DEFAULT_NBUCKETS [] (by decide) (by decide)
  refine ⟨∅, hdata, fun name addr hlookup => ?_⟩
  rw [Finmap.lookup_empty] at hlookup
  cases hlookup

/-- What a creation leaves. -/
theorem NamedHeads.create {set : CatalogSet} {name : CString} {value : Addr} {fresh : FreshEntry δ}
    (hheads : NamedHeads heap m) (hdata : Represents lawfulKeys_str set.data m)
    (hvalue : heap.get? value = some fresh.entry)
    (hne : ∀ n, m.lookup (nameKey n) ≠ some value) {result : CatalogHeap δ × CatalogSet × Bool}
    (hcase : CreateCase heap set m name value fresh.entry result) :
    NamedInv { heap := result.1, set := result.2.1 } := by
  have hcreated {heap₁ heap₂ : CatalogHeap δ} {head : Addr} {e : CatalogEntry δ}
      (hpushes : Pushes heap₁ heap₂ head value e) (hget : heap₁.get? value = some fresh.entry) :
      ∃ e, heap₂.get? value = some e ∧ (e.deleted = false → e.name ≠ none) := by
    obtain ⟨e', hget', hsame⟩ := hpushes.kept.entry _ _ hget
    refine ⟨e', hget', fun _ => ?_⟩
    rw [hsame.name_eq]
    exact Option.some_ne_none _
  cases hcase with
  | «exists» lookup get live => exact ⟨m, hdata, hheads⟩
  | refused new failed data kept next_le =>
      exact ⟨m, data, hheads.sameHeads (sameHeads_of_get? kept)⟩
  | @first rest data new sub data_holds =>
      have hkept : SameHeads heap (withDummy heap name rest) :=
        sameHeads_of_get? fun addr e hget => Heap.get?_push_of_get? hget _
      have hget : (withDummy heap name rest).get? value = some fresh.entry :=
        Heap.get?_push_of_get? hvalue _
      have hpushes := pushes_pushed (Heap.get?_push_next heap (dummyEntry name)) hget rfl
        (Nat.ne_of_gt (Heap.lt_next hvalue))
      exact ⟨_, data_holds, (hheads.sameHeads hkept).insert hpushes.kept.sameHeads
        (hcreated hpushes hget)⟩
  | @again head e data lookup get dropped data_holds =>
      have hpushes := pushes_pushed get hvalue rfl fun heq => hne name (heq ▸ lookup)
      exact ⟨_, data_holds, hheads.insert hpushes.kept.sameHeads (hcreated hpushes hvalue)⟩

/-- What a drop leaves. -/
theorem NamedHeads.drop {set : CatalogSet} {name : CString} (hheads : NamedHeads heap m)
    (hdata : Represents lawfulKeys_str set.data m) {result : CatalogHeap δ × CatalogSet × Bool}
    (hcase : DropCase heap set m name result) :
    NamedInv { heap := result.1, set := result.2.1 } := by
  cases hcase with
  | absent new => exact ⟨m, hdata, hheads⟩
  | kept lookup get failed => exact ⟨m, hdata, hheads⟩
  | @dropped head e copy rest data lookup get room copy_eq sub data_holds =>
      -- a tombstone needs no name
      have hget : ({ heap with outcomes := rest } : CatalogHeap δ).get? head = some e := get
      have hpushes := pushes_tombstone hget copy
      exact ⟨_, data_holds, hheads.insert hpushes.kept.sameHeads
        ⟨tombstone copy head, get?_tombstone hget copy _, fun hlive => by cases hlive⟩⟩

/-- The invariant step: whatever allocations fail in the call. -/
theorem NamedInv.step {s s' : SetState δ} {a : AllocCall δ} {result : SetResult}
    (hinv : NamedInv s) (hstep : allocStep s a = .ok (s', result)) : NamedInv s' := by
  obtain ⟨m, hdata, hheads⟩ := hinv
  let heap : CatalogHeap δ := { s.heap with outcomes := a.outcomes }
  have hheads₀ : NamedHeads heap m := hheads
  obtain ⟨call, outcomes⟩ := a
  cases call with
  | create name fresh =>
      have hnext (n : CString) : m.lookup (nameKey n) ≠ some heap.next := by
        intro hlookup
        obtain ⟨e, hget⟩ := hheads₀.get n _ hlookup
        exact Nat.lt_irrefl _ (Heap.lt_next hget)
      have hheads₁ : NamedHeads (heap.push fresh.entry) m :=
        hheads₀.sameHeads (sameHeads_of_get? fun _ _ hget => Heap.get?_push_of_get? hget _)
      have hvalue := Heap.get?_push_next heap fresh.entry
      obtain ⟨created, hrun, hcase⟩ := createEntry_cases hdata hheads₁.get name hvalue hnext
      obtain ⟨created', hrun', hend⟩ := bind_eq_ok.mp hstep
      rw [show catalogSetCreateEntry (heap.push fresh.entry) s.set name heap.next = .ok created'
        from hrun'] at hrun
      cases hrun
      cases hend
      exact hheads₁.create hdata hvalue hnext hcase
  | drop name =>
      obtain ⟨dropped, hrun, hend⟩ := bind_eq_ok.mp hstep
      rcases dropEntry_cases hdata hheads₀.get name with
        ⟨dropped', hrun', hcase⟩ | ⟨-, -, -, -, -, hfault⟩
      · rw [show catalogSetDropEntry heap s.set name = .ok dropped from hrun] at hrun'
        cases hrun'
        cases hend
        exact hheads₀.drop hdata hcase
      · rw [show catalogSetDropEntry heap s.set name = .ok dropped from hrun] at hfault
        cases hfault

/-! ### The result of a drop -/

/-- The condition: the name was never in the map, or it is live and there is memory for the
tombstone. -/
def DropIsRight (s : SetState δ) (name : CString) (outcomes : MallocOutcomes) : Prop :=
  hmapContains s.set.data name = .ok false ∨ LiveIn s name ∧ tombstoneRoom outcomes = true

theorem not_liveIn {s : SetState δ} {name : CString}
    (hdata : Represents lawfulKeys_str s.set.data m) (hlookup : m.lookup (nameKey name) = none) :
    ¬ LiveIn s name := by
  rintro ⟨entry, hentry⟩
  rw [getEntry_absent hdata hlookup] at hentry
  cases hentry

theorem liveIn_iff {s : SetState δ} {name : CString} {head : Addr} {e : CatalogEntry δ}
    (hdata : Represents lawfulKeys_str s.set.data m)
    (hlookup : m.lookup (nameKey name) = some head) (hget : s.heap.get? head = some e) :
    LiveIn s name ↔ e.deleted = false := by
  rw [LiveIn, getEntry_head hdata hlookup hget]
  cases e.deleted with
  | false => simp
  | true => simp

/-- A drop returns, or it faults. -/
theorem allocStep_drop {s : SetState δ} {name : CString} {outcomes : MallocOutcomes}
    {result : CatalogHeap δ × CatalogSet × Bool}
    (hrun : catalogSetDropEntry { s.heap with outcomes } s.set name = .ok result) :
    allocStep s { call := .drop name, outcomes }
      = .ok ({ heap := result.1, set := result.2.1 }, .dropped result.2.2) := by
  rw [allocStep, setStep, hrun]
  rfl

/-- The condition on a name in the map. -/
theorem dropIsRight_iff {s : SetState δ} {name : CString} {head : Addr}
    {outcomes : MallocOutcomes} (hdata : Represents lawfulKeys_str s.set.data m)
    (hlookup : m.lookup (nameKey name) = some head) :
    DropIsRight s name outcomes ↔ LiveIn s name ∧ tombstoneRoom outcomes = true := by
  have hcontains := hdata.contains name
  rw [hlookup] at hcontains
  refine or_iff_right fun habsent => ?_
  rw [hcontains] at habsent
  cases habsent

/-- A tombstone is not live. -/
theorem not_liveIn_dropped {name : CString} {head : Addr} {e : CatalogEntry δ}
    {copy : Option CString} {rest : MallocOutcomes} {data : Hmap CString Addr}
    (hget : heap.get? head = some e)
    (hdata : Represents lawfulKeys_str data (m.insert (nameKey name) heap.next)) :
    ¬ LiveIn { heap := ({ heap.push (tombstone copy head) with outcomes := rest } :
        CatalogHeap δ).put head { e with parent := some heap.next }, set := { data } } name := by
  have hget' : ({ heap with outcomes := rest } : CatalogHeap δ).get? head = some e := hget
  rw [liveIn_iff hdata (Finmap.lookup_insert m) (get?_tombstone hget' copy _)]
  exact fun hfalse => Bool.false_ne_true hfalse.symm

/-- The result of a drop that returns is right exactly under this condition on it. -/
theorem dropReports_iff_of_run {s s' : SetState δ} {name : CString} {outcomes : MallocOutcomes}
    {ok : Bool} (hrun : allocStep s { call := .drop name, outcomes } = .ok (s', .dropped ok)) :
    DropReports s name outcomes ↔ (ok = true ↔ LiveIn s name ∧ ¬ LiveIn s' name) ∧
      (ok = false → s'.set = s.set ∧ s'.heap.cells = s.heap.cells) := by
  constructor
  · rintro ⟨s₁, ok₁, hrun₁, hright⟩
    rw [hrun] at hrun₁
    cases hrun₁
    exact hright
  · exact fun hright => ⟨s', ok, hrun, hright⟩

/-- The result of one drop, whatever allocations fail in it. -/
theorem NamedInv.dropReports_iff {s : SetState δ} (hinv : NamedInv s) (name : CString)
    (outcomes : MallocOutcomes) :
    DropReports s name outcomes ↔ DropIsRight s name outcomes := by
  obtain ⟨m, hdata, hheads⟩ := hinv
  let heap : CatalogHeap δ := { s.heap with outcomes }
  have hheads₀ : NamedHeads heap m := hheads
  rcases dropEntry_cases hdata hheads₀.get name with
    ⟨result, hrun, hcase⟩ | ⟨head, e, hlookup, hget, hnameless, hfault⟩
  · have hstep := allocStep_drop hrun
    cases hcase with
    | absent new =>
        -- `false`, and nothing has changed
        have hcontains := hdata.contains name
        rw [new] at hcontains
        refine iff_of_true ((dropReports_iff_of_run hstep).mpr ⟨?_, fun _ => ⟨rfl, rfl⟩⟩)
          (Or.inl hcontains)
        exact iff_of_false Bool.false_ne_true fun hlive => not_liveIn hdata new hlive.1
    | @kept head e rest lookup get failed =>
        -- `true`, and the name is what it was
        rw [dropIsRight_iff hdata lookup]
        refine iff_of_false (fun hreports => ?_) ?_
        · obtain ⟨hlive, hdead⟩ := ((dropReports_iff_of_run hstep).mp hreports).1.mp rfl
          exact hdead hlive
        · rintro ⟨-, hroom⟩
          rw [show tombstoneRoom outcomes = false from failed] at hroom
          cases hroom
    | @dropped head e copy rest data lookup get room copy_eq sub data_holds =>
        -- `true`, and the name is not live any more
        rw [dropIsRight_iff hdata lookup, dropReports_iff_of_run hstep]
        constructor
        · intro hright
          exact ⟨(hright.1.mp rfl).1, room⟩
        · rintro ⟨hlive, -⟩
          exact ⟨iff_of_true rfl ⟨hlive, not_liveIn_dropped get data_holds⟩,
            fun hfalse => by cases hfalse⟩
  · -- the drop reads the name of a tombstone that has none
    obtain ⟨e', hget', hnamed⟩ := hheads₀ name head hlookup
    rw [hget, Option.some_inj] at hget'
    rw [dropIsRight_iff hdata hlookup]
    refine iff_of_false ?_ ?_
    · rintro ⟨s', ok, hrun, -⟩
      obtain ⟨result, hrun, -⟩ := bind_eq_ok.mp hrun
      rw [show catalogSetDropEntry heap s.set name = .ok result from hrun] at hfault
      cases hfault
    · rintro ⟨hlive, -⟩
      have halive := (liveIn_iff hdata hlookup hget).mp hlive
      exact hnamed (hget' ▸ halive) (hget' ▸ hnameless)

/-! ### The theorem -/

/-- For every set that calls with any allocation outcomes reach from a new one: the result of a drop
is right exactly for a name that was never created, and for a live name when there is memory for its
tombstone. -/
theorem drop_reports_iff {calls : List (AllocCall δ)} {s : SetState δ} {results : List SetResult}
    (hrun : runResults allocStep setStateInit calls = .ok (s, results)) (name : CString)
    (outcomes : MallocOutcomes) :
    DropReports s name outcomes ↔ DropIsRight s name outcomes := by
  have hinv : NamedInv s :=
    runResults_invariant NamedInv (fun _ _ _ _ hinv hstep => hinv.step hstep) namedInv_init hrun
  exact hinv.dropReports_iff name outcomes

/-- The name of the examples. -/
def sampleName : CString := { bytes := [97] }

/-- An entry with this name. -/
def sampleEntry : FreshEntry Unit where
  type := .index
  name := sampleName
  child := none
  body := .base
  fits := trivial

/-- A live name, and enough memory. -/
theorem drop_reports_iff_live_name :
    ∃ s results,
      runResults allocStep setStateInit [{ call := .create sampleName sampleEntry, outcomes := [] }]
        = .ok (s, results) ∧
      DropReports s sampleName [] := by
  obtain ⟨s, results, hrun, hlive⟩ : ∃ s results,
      runResults allocStep setStateInit [{ call := .create sampleName sampleEntry, outcomes := [] }]
        = .ok (s, results) ∧
      catalogSetGetEntry s.heap s.set sampleName = .ok (some 0) := ⟨_, _, rfl, rfl⟩
  exact ⟨s, results, hrun, (drop_reports_iff hrun sampleName []).mpr (Or.inr ⟨⟨0, hlive⟩, rfl⟩)⟩

/-- The second drop of a name returns `true`. -/
theorem second_drop_reports_success :
    ∃ s results,
      runResults allocStep setStateInit
        [{ call := .create sampleName sampleEntry, outcomes := [] },
          { call := .drop sampleName, outcomes := [] }] = .ok (s, results) ∧
      catalogSetGetEntry s.heap s.set sampleName = .ok none ∧
      (∃ s', allocStep s { call := .drop sampleName, outcomes := [] } = .ok (s', .dropped true)) ∧
      ¬ DropReports s sampleName [] := by
  obtain ⟨s, results, hrun, hnone, s', hdrop⟩ : ∃ s results,
      runResults allocStep setStateInit
        [{ call := .create sampleName sampleEntry, outcomes := [] },
          { call := .drop sampleName, outcomes := [] }] = .ok (s, results) ∧
      catalogSetGetEntry s.heap s.set sampleName = .ok none ∧
      ∃ s', allocStep s { call := .drop sampleName, outcomes := [] } = .ok (s', .dropped true) :=
    ⟨_, _, rfl, rfl, _, rfl⟩
  refine ⟨s, results, hrun, hnone, ⟨s', hdrop⟩, fun hreports => ?_⟩
  obtain ⟨entry, hentry⟩ := (((dropReports_iff_of_run hdrop).mp hreports).1.mp rfl).1
  rw [hnone] at hentry
  cases hentry

end MustDb.Proofs.Catalog
