import Mathlib.Data.Set.Card
import MustDb.Proofs.Catalog.VersionChain

/-!
# `MustDb.Proofs.Catalog.Visibility`: what the readers of a set see

The lookup, the scan and the count of a set read the heads of its chains, and the histories decide
what these are. `visibility` says what each reader returns after every run.

The counter of `catalogSet_get_entry_count` has 32 bits, so the count is the number of live names
modulo `2 ^ 32`. A set with `2 ^ 32` live names has the count zero (`count_wraps_crowd`).
-/

set_option autoImplicit false

namespace MustDb.Proofs.Catalog

open MustDb.Lib
open MustDb.Libv
open MustDb.Catalog
open MustDb.Proofs.Libv

variable {δ : Type} {heap : CatalogHeap δ} {set : CatalogSet} {m : lawfulKeys_str.Map Addr}
  {chain : CString → List Addr} {h : CString → List (Version δ)}

/-! ### The readers -/

/-- The spec of `catalogSet_get_entry`. -/
theorem ChainsHold.getEntry (hold : ChainsHold heap set m chain h) (name : CString) :
    catalogSetGetEntry heap set name = .ok (liveOf (h name)) := by
  cases hlookup : m.lookup (nameKey name) with
  | none =>
      rw [getEntry_absent hold.data hlookup, (hold.of_lookup_none hlookup).2]
      rfl
  | some head =>
      obtain ⟨e, hget⟩ := hold.get_head name head hlookup
      obtain ⟨-, -, -, -, -, hlive, -⟩ := hold.of_lookup_some hlookup hget
      rw [getEntry_head hold.data hlookup hget, hlive]

/-- The names of the set and their newest versions, in the order of a scan. -/
def newestVersions (set : CatalogSet) : List (CString × Addr) :=
  set.data.nodes.map fun node => (node.key, node.value)

/-- The spec of `catalogSet_scan`. -/
theorem ChainsHold.scan (hold : ChainsHold heap set m chain h) {γ : Type} {fuel : Nat}
    (hfuel : (newestVersions set).length < fuel) (scanFn : γ → Addr → Except Fault γ) (ctx : γ) :
    catalogSetScan fuel set scanFn ctx
      = (newestVersions set).foldlM (fun ctx entry => scanFn ctx entry.2) ctx := by
  rw [newestVersions, List.length_map] at hfuel
  rw [catalogSetScan, hmapForeach_ok _ hold.data.length_eq hfuel, newestVersions, List.foldlM_map]

/-- The newest version of each name that was ever created, once. -/
structure ScansNewest (heap : CatalogHeap δ) (h : CString → List (Version δ))
    (entries : List (CString × Addr)) : Prop where
  once : (entries.map Prod.fst).Nodup
  names : ∀ name, name ∈ entries.map Prod.fst ↔ h name ≠ []
  newest : ∀ entry ∈ entries, NodeHolds heap (h entry.1).head? entry.2

theorem ChainsHold.scansNewest (hold : ChainsHold heap set m chain h) :
    ScansNewest heap h (newestVersions set) where
  once := by
    rw [newestVersions, List.map_map]
    exact hold.names_nodup
  names name := by
    rw [newestVersions, List.map_map]
    constructor
    · intro hmem
      obtain ⟨node, hnode, rfl⟩ := List.mem_map.mp hmem
      exact (hold.newest (hold.node_head hnode)).1
    · intro hne
      -- a name with a history has a chain, so it has a node
      have hchain : chain name ≠ [] := by
        intro hnil
        have hlookup : m.lookup (nameKey name) = none := by
          rw [hold.head, hnil]
          rfl
        exact hne (hold.of_lookup_none hlookup).2
      obtain ⟨node, hnode, rfl⟩ := hold.exists_node hchain
      exact List.mem_map.mpr ⟨node, hnode, rfl⟩
  newest entry hentry := by
    obtain ⟨node, hnode, rfl⟩ := List.mem_map.mp hentry
    exact (hold.newest (hold.node_head hnode)).2

/-! ### The count -/

/-- The callback of the count, on the newest version of a name. -/
theorem countEntryCallback_ok {addr : Addr} {versions : List (Version δ)}
    (hnode : NodeHolds heap versions.head? addr) (hne : versions ≠ []) (count : UInt32) :
    countEntryCallback heap count addr
      = .ok (if (liveOf versions).isSome then count + 1 else count) := by
  obtain ⟨newest, older, rfl⟩ := List.exists_cons_of_ne_nil hne
  cases hnode with
  | @created value fresh e get same =>
      rw [countEntryCallback, readEntry_ok get, ok_bind, same.deleted_eq]
      rfl
  | @dropped addr e get type_eq body_eq deleted_eq name_ne =>
      rw [countEntryCallback, readEntry_ok get, ok_bind, deleted_eq]
      rfl

/-- The live names, each once. -/
def liveNames (h : CString → List (Version δ)) (entries : List (CString × Addr)) : List CString :=
  (entries.map Prod.fst).filter fun name => (liveOf (h name)).isSome

/-- The count of some names, in 32 bits. -/
theorem countEntries_ok {entries : List (CString × Addr)}
    (hnewest : ∀ entry ∈ entries, NodeHolds heap (h entry.1).head? entry.2)
    (hne : ∀ entry ∈ entries, h entry.1 ≠ []) (count : UInt32) :
    entries.foldlM (fun count entry => countEntryCallback heap count entry.2) count
      = .ok (count + UInt32.ofNat (liveNames h entries).length) := by
  induction entries generalizing count with
  | nil => simp [liveNames]
  | cons entry entries ih =>
      have hfirst := countEntryCallback_ok (hnewest entry List.mem_cons_self)
        (hne entry List.mem_cons_self) count
      rw [List.foldlM_cons, hfirst, ok_bind,
        ih (fun other hother => hnewest other (List.mem_cons_of_mem _ hother))
          (fun other hother => hne other (List.mem_cons_of_mem _ hother))]
      cases hlive : (liveOf (h entry.1)).isSome with
      | false => simp [liveNames, hlive]
      | true =>
          have hlength : (liveNames h (entry :: entries)).length
              = 1 + (liveNames h entries).length := by
            simp [liveNames, hlive, Nat.add_comm]
          rw [hlength, UInt32.ofNat_add, ← UInt32.add_assoc]
          rfl

/-- The number of names that a lookup finds. -/
noncomputable def liveCount (heap : CatalogHeap δ) (set : CatalogSet) : Nat :=
  {name | ∃ entry, catalogSetGetEntry heap set name = .ok (some entry)}.ncard

/-- A list of the live names counts them. -/
theorem ChainsHold.liveCount_eq (hold : ChainsHold heap set m chain h) {names : List CString}
    (hnodup : names.Nodup) (hlive : ∀ name, name ∈ names ↔ (liveOf (h name)).isSome = true) :
    liveCount heap set = names.length := by
  have hset : {name | ∃ entry, catalogSetGetEntry heap set name = .ok (some entry)}
      = ↑names.toFinset := by
    ext name
    rw [Set.mem_ofPred_eq, List.coe_toFinset, Set.mem_ofPred_eq, hlive, hold.getEntry,
      Option.isSome_iff_exists]
    simp only [Except.ok.injEq]
  rw [liveCount, hset, Set.ncard_coe_finset, List.toFinset_card_of_nodup hnodup]

theorem ScansNewest.mem_liveNames {entries : List (CString × Addr)}
    (hscan : ScansNewest heap h entries) (name : CString) :
    name ∈ liveNames h entries ↔ (liveOf (h name)).isSome = true := by
  rw [liveNames, List.mem_filter, hscan.names]
  refine ⟨And.right, fun hlive => ⟨fun hnil => ?_, hlive⟩⟩
  rw [hnil] at hlive
  cases hlive

/-- The spec of `catalogSet_get_entry_count`. -/
theorem ChainsHold.count (hold : ChainsHold heap set m chain h) {fuel : Nat}
    (hfuel : (newestVersions set).length < fuel) :
    catalogSetGetEntryCount fuel heap set = .ok (UInt32.ofNat (liveCount heap set)) := by
  have hscan := hold.scansNewest
  have hne : ∀ entry ∈ newestVersions set, h entry.1 ≠ [] :=
    fun entry hentry => (hscan.names entry.1).mp (List.mem_map_of_mem hentry)
  have hnodup : (liveNames h (newestVersions set)).Nodup := hscan.once.filter _
  rw [catalogSetGetEntryCount, hold.scan hfuel, countEntries_ok hscan.newest hne,
    hold.liveCount_eq hnodup hscan.mem_liveNames, UInt32.zero_add]

/-! ### The theorem -/

/-- What a set with these histories shows to its clients. -/
structure Visible (s : SetState δ) (h : CString → List (Version δ)) : Prop where
  /-- A creation succeeds when the name has no live entry. -/
  create : ∀ name fresh, ∃ s' value ok,
    setStep s (.create name fresh) = .ok (s', .created value ok) ∧
      (ok = true ↔ liveOf (h name) = none)
  /-- The entry of the newest creation, when no drop followed it. -/
  get : ∀ name, catalogSetGetEntry s.heap s.set name = .ok (liveOf (h name))
  /-- One call of the callback for each name that was ever created, with its newest version. -/
  scan : ∃ entries, ScansNewest s.heap h entries ∧
    ∀ (γ : Type) (fuel : Nat) (scanFn : γ → Addr → Except Fault γ) (ctx : γ),
      entries.length < fuel →
      catalogSetScan fuel s.set scanFn ctx
        = entries.foldlM (fun ctx entry => scanFn ctx entry.2) ctx
  /-- The number of the live names, in 32 bits. -/
  count : ∃ fuel₀, ∀ fuel, fuel₀ ≤ fuel →
    catalogSetGetEntryCount fuel s.heap s.set = .ok (UInt32.ofNat (liveCount s.heap s.set))

/-- Every run of creations and drops on a new set returns, when there is memory. After it, the
readers of the set show the newest version of each name. -/
theorem visibility (calls : List (SetCall δ)) :
    ∃ s results, runResults setStep setStateInit calls = .ok (s, results) ∧
      Visible s (histories calls results) := by
  obtain ⟨s, results, hrun, -, hinv⟩ := setInv_run calls
  obtain ⟨-, m, chain, hold⟩ := id hinv
  refine ⟨s, results, hrun, ?_⟩
  exact {
    create := fun name fresh => by
      obtain ⟨s', ok, hstep, -, hok, -⟩ := hinv.create name fresh
      exact ⟨s', _, ok, hstep, by rw [hok, Option.isNone_iff_eq_none]⟩
    get := hold.getEntry
    scan := ⟨_, hold.scansNewest, fun _ _ scanFn ctx hfuel => hold.scan hfuel scanFn ctx⟩
    count := ⟨(newestVersions s.set).length + 1, fun _ hfuel => hold.count hfuel⟩ }

/-! ### A set with too many names -/

/-- The count is the number of the live names. -/
def CountsLiveNames (s : SetState δ) : Prop :=
  ∃ fuel₀, ∀ fuel, fuel₀ ≤ fuel → ∃ count,
    catalogSetGetEntryCount fuel s.heap s.set = .ok count ∧
      count.toNat = liveCount s.heap s.set

/-- Creations of different names that have no history make all of them live. -/
theorem liveOf_creates {fresh : CString → FreshEntry δ} {names : List CString}
    {h h' : CString → List (Version δ)} {results : List SetResult}
    (hspec : SpecRun Recorded h (names.map fun name => .create name (fresh name)) results h')
    (hnodup : names.Nodup) (hnew : ∀ name ∈ names, h name = []) (name : CString) :
    (liveOf (h' name)).isSome = true ↔ name ∈ names ∨ (liveOf (h name)).isSome = true := by
  induction names generalizing h results with
  | nil =>
      cases hspec
      simp
  | cons first names ih =>
      obtain ⟨hfirst, hnodup⟩ := List.nodup_cons.mp hnodup
      cases hspec with
      | @cons _ h₁ _ _ result _ _ step rest =>
          obtain ⟨hrecord, hanswer⟩ := step
          have hnil : h first = [] := hnew first List.mem_cons_self
          cases result with
          | dropped ok => exact hanswer.elim
          | created value ok =>
              have hok : ok = true := by
                rw [show ok = (liveOf (h first)).isNone from hanswer, hnil]
                rfl
              have hh₁ : h₁ = Function.update h first [.created value (fresh first)] := by
                rw [hrecord, hok, record, hnil]
              have hother (name' : CString) (hne : name' ≠ first) : h₁ name' = h name' := by
                rw [hh₁, Function.update_of_ne hne]
              rw [ih rest hnodup fun name' hmem => ?_, List.mem_cons]
              · by_cases hname : name = first
                · rw [hname, hh₁, Function.update_self]
                  simp [liveOf]
                · rw [hother name hname]
                  simp [hname]
              · rw [hother name' fun heq => hfirst (heq ▸ hmem)]
                exact hnew name' (List.mem_cons_of_mem _ hmem)

/-- The name of number `i`: its five digits to the base 128, as bytes that are not zero. -/
def crowdName (i : Nat) : CString where
  bytes := (List.range 5).map fun k => UInt8.ofNat (i / 128 ^ k % 128 + 1)
  nulFree := by
    rintro hmem
    obtain ⟨k, -, hzero⟩ := List.mem_map.mp hmem
    have htoNat := congrArg UInt8.toNat hzero
    rw [UInt8.toNat_ofNat'] at htoNat
    have hlt : i / 128 ^ k % 128 < 128 := Nat.mod_lt _ (by decide)
    simp at htoNat
    omega

/-- Numbers with the same low `n` digits, and no others, are equal. -/
theorem eq_of_digits {b n i j : Nat} (hi : i < b ^ n) (hj : j < b ^ n)
    (h : ∀ k < n, i / b ^ k % b = j / b ^ k % b) : i = j := by
  induction n generalizing i j with
  | zero =>
      rw [pow_zero, Nat.lt_one_iff] at hi hj
      rw [hi, hj]
  | succ n ih =>
      rw [pow_succ'] at hi hj
      have hhigh : i / b = j / b := by
        refine ih (Nat.div_lt_of_lt_mul hi) (Nat.div_lt_of_lt_mul hj) fun k hk => ?_
        rw [Nat.div_div_eq_div_mul, Nat.div_div_eq_div_mul, ← pow_succ']
        exact h (k + 1) (Nat.succ_lt_succ hk)
      have hlow := h 0 (Nat.zero_lt_succ n)
      rw [pow_zero, Nat.div_one, Nat.div_one] at hlow
      rw [← Nat.div_add_mod i b, hhigh, hlow, Nat.div_add_mod]

theorem crowdName_inj {i j : Nat} (hi : i < 2 ^ 32) (hj : j < 2 ^ 32)
    (heq : crowdName i = crowdName j) : i = j := by
  have hbytes : (List.range 5).map (fun k => UInt8.ofNat (i / 128 ^ k % 128 + 1))
      = (List.range 5).map fun k => UInt8.ofNat (j / 128 ^ k % 128 + 1) :=
    congrArg CString.bytes heq
  have hpow : 2 ^ 32 ≤ 128 ^ 5 := by decide
  refine eq_of_digits (hi.trans_le hpow) (hj.trans_le hpow) fun k hk => ?_
  have hbyte := List.map_inj_left.mp hbytes k (List.mem_range.mpr hk)
  have htoNat := congrArg UInt8.toNat hbyte
  rw [UInt8.toNat_ofNat', UInt8.toNat_ofNat'] at htoNat
  have hlt : i / 128 ^ k % 128 < 128 := Nat.mod_lt _ (by decide)
  have hlt' : j / 128 ^ k % 128 < 128 := Nat.mod_lt _ (by decide)
  omega

/-- An entry for a name. -/
def plainEntry (name : CString) : FreshEntry Unit where
  type := .index
  name := name
  child := none
  body := .base
  fits := trivial

/-- The creations of the first `n` names. -/
def crowd (n : Nat) : List (SetCall Unit) :=
  ((List.range n).map crowdName).map fun name => .create name (plainEntry name)

/-- A set with `2 ^ 32` live names: its count is zero. -/
theorem count_wraps_crowd :
    ∃ s results, runResults setStep setStateInit (crowd (2 ^ 32)) = .ok (s, results) ∧
      liveCount s.heap s.set = 2 ^ 32 ∧ ¬ CountsLiveNames s := by
  obtain ⟨s, results, hrun, hspec, -, m, chain, hold⟩ := setInv_run (crowd (2 ^ 32))
  have hnodup : ((List.range (2 ^ 32)).map crowdName).Nodup := by
    refine List.Nodup.map_on (fun i hi j hj heq => ?_) List.nodup_range
    exact crowdName_inj (List.mem_range.mp hi) (List.mem_range.mp hj) heq
  have hlive := liveOf_creates hspec hnodup fun _ _ => rfl
  have hcount : liveCount s.heap s.set = 2 ^ 32 := by
    rw [hold.liveCount_eq hnodup fun name => ?_, List.length_map, List.length_range]
    rw [hlive]
    exact (or_iff_left (by decide)).symm
  refine ⟨s, results, hrun, hcount, ?_⟩
  rintro ⟨fuel₀, hexact⟩
  obtain ⟨count, hrun', heq⟩ :=
    hexact (max fuel₀ ((newestVersions s.set).length + 1)) (Nat.le_max_left _ _)
  rw [hold.count (Nat.le_max_right _ _), hcount] at hrun'
  cases hrun'
  rw [hcount] at heq
  exact absurd heq (by decide)

end MustDb.Proofs.Catalog
