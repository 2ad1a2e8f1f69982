import MustDb.Proofs.Catalog.VersionChain

/-!
# `MustDb.Proofs.Catalog.Teardown`: the version chains of every run

`version_chains` says what the chains of a set are after any calls, and that `catalogSet_deinit`
destroys their entries. The destruction of an entry reads it first, and an entry that is gone cannot
be read. So a `catalogSet_deinit` that returns has destroyed no entry twice.

`destroyChain_linked` is the spec of the loop over one chain. The loop over the map visits each name
once (`hmapForeach_ok`), and the chains of the names that are left do not change in the meantime.
-/

set_option autoImplicit false

namespace MustDb.Proofs.Catalog

open MustDb.Lib
open MustDb.Libv
open MustDb.Catalog
open MustDb.Proofs.Libv

variable {δ : Type} {heap : CatalogHeap δ}

/-! ### One chain -/

/-- The entry is freed, and the loop goes on with its child. -/
theorem destroyChain_succ (fuel : Nat) {entry : Addr} {e : CatalogEntry δ}
    (hget : heap.get? entry = some e) (hfits : BodyFits e.type e.body) :
    destroyChain (fuel + 1) heap (some entry) = destroyChain fuel (heap.free entry) e.child := by
  have hcleared := Heap.get?_put_self hget { e with child := none, parent := none }
  rw [destroyChain, readEntry_ok hget, ok_bind]
  obtain ⟨type, name, deleted, parent, child, body⟩ := e
  cases type with
  | schema =>
      cases body with
      | schema tables indexes =>
          show (schemacatalogEntryDestroyWith (destroyChain fuel) _ entry >>= _) = _
          rw [schemacatalogEntryDestroyWith_ok _ hcleared rfl hfits.1 hfits.2, ok_bind,
            Heap.free_put]
      | base => exact hfits.elim
      | table fields => exact hfits.elim
  | table =>
      cases body with
      | table fields =>
          show (tablecatalogEntryDestroy _ entry >>= _) = _
          rw [tablecatalogEntryDestroy_ok hcleared rfl, ok_bind, Heap.free_put]
      | base => exact hfits.elim
      | schema tables indexes => exact hfits.elim
  | invalid =>
      show destroyChain fuel (Heap.free _ entry) child = _
      rw [Heap.free_put]
  | index =>
      show destroyChain fuel (Heap.free _ entry) child = _
      rw [Heap.free_put]

/-- The loop of `catalogSet_deinit` over one chain frees its entries and ends. Induction on the
chain: a freed entry is not in the rest of it. -/
theorem destroyChain_linked {before : Option Addr} {addrs : List Addr} {fuel : Nat}
    (hlinked : Linked entryLinks heap before addrs)
    (hfits : ∀ addr ∈ addrs, ∃ e, heap.get? addr = some e ∧ BodyFits e.type e.body)
    (hfuel : addrs.length ≤ fuel) :
    destroyChain fuel heap addrs.head? = .ok (heap.freeAll addrs) := by
  induction addrs generalizing heap before fuel with
  | nil => cases fuel <;> rfl
  | cons entry rest ih =>
      cases fuel with
      | zero => exact absurd hfuel (Nat.not_succ_le_zero _)
      | succ fuel =>
          obtain ⟨e, hget, hbody⟩ := hfits entry List.mem_cons_self
          obtain ⟨⟨obj, hobj, -, hchild⟩, hrest⟩ := id hlinked
          rw [hget, Option.some_inj] at hobj
          have hkeep : ∀ addr ∈ rest, (heap.free entry).get? addr = heap.get? addr := by
            intro addr hmem
            refine Heap.get?_free_of_ne ?_
            rintro rfl
            exact (List.nodup_cons.mp hlinked.nodup).1 hmem
          rw [List.head?_cons, destroyChain_succ fuel hget hbody,
            show e.child = rest.head? from hobj ▸ hchild]
          refine ih (hrest.congr hkeep) (fun addr hmem => ?_) (Nat.le_of_succ_le_succ hfuel)
          rw [hkeep addr hmem]
          exact hfits addr (List.mem_cons_of_mem _ hmem)

/-! ### All chains -/

/-- `catalogSet_deinit` walks over the map with its iterator, and frees the map. For a map that has
its buckets, and with enough turns, it does to the entries what the loop of
`catalogSetDeinitWith` does, which stands for it in the destruction of a schema. -/
theorem catalogSetDeinit_eq {fuel : Nat} {set : CatalogSet}
    (hlength : set.data.buckets.length = set.data.nbuckets)
    (hfuel : set.data.nodes.length < fuel) :
    catalogSetDeinit fuel heap set
      = catalogSetDeinitWith (destroyChain fuel) heap set >>= fun heap =>
          .ok (heap, { data := { set.data with buckets := [], nbuckets := 0, len := 0 } }) := by
  have hfree : hmapDeinit set.data
      = .ok { set.data with buckets := [], nbuckets := 0, len := 0 } := by
    rw [hmapDeinit, if_neg (by omega)]
  rw [catalogSetDeinit, hmapForeach_ok _ hlength hfuel, hfree]
  rfl

/-- The loop over the map frees the chains of all its names. -/
theorem destroyChains_ok {fuel : Nat} {nodes : List (HmapNode CString Addr)}
    {chain : CString → List Addr}
    (hlinked : ∀ node ∈ nodes, Linked entryLinks heap none (chain node.key))
    (hhead : ∀ node ∈ nodes, (chain node.key).head? = some node.value)
    (hfits : ∀ node ∈ nodes, ∀ addr ∈ chain node.key,
      ∃ e, heap.get? addr = some e ∧ BodyFits e.type e.body)
    (hdisjoint : nodes.Pairwise fun a b => (chain a.key).Disjoint (chain b.key))
    (hfuel : ∀ node ∈ nodes, (chain node.key).length ≤ fuel) :
    nodes.foldlM (fun heap node => destroyChain fuel heap (some node.value)) heap
      = .ok (heap.freeAll (nodes.flatMap fun node => chain node.key)) := by
  induction nodes generalizing heap with
  | nil => rfl
  | cons node nodes ih =>
      obtain ⟨hfirst, hrest⟩ := List.pairwise_cons.mp hdisjoint
      have hchain := destroyChain_linked (hlinked node List.mem_cons_self)
        (hfits node List.mem_cons_self) (hfuel node List.mem_cons_self)
      rw [hhead node List.mem_cons_self] at hchain
      rw [List.foldlM_cons, hchain, ok_bind, List.flatMap_cons, Heap.freeAll_append]
      -- the chains that are left have no entry in the one that is gone
      have hkeep (other : HmapNode CString Addr) (hother : other ∈ nodes) :
          ∀ addr ∈ chain other.key, (heap.freeAll (chain node.key)).get? addr = heap.get? addr :=
        fun addr hmem => Heap.get?_freeAll_of_notMem fun hin => hfirst other hother hin hmem
      refine ih (fun other hother => ?_) (fun other hother => ?_) (fun other hother addr hmem => ?_)
        hrest (fun other hother => ?_)
      · exact (hlinked other (List.mem_cons_of_mem _ hother)).congr (hkeep other hother)
      · exact hhead other (List.mem_cons_of_mem _ hother)
      · rw [hkeep other hother addr hmem]
        exact hfits other (List.mem_cons_of_mem _ hother) addr hmem
      · exact hfuel other (List.mem_cons_of_mem _ hother)

/-- The casts of the destruction are right for all entries of a chain. -/
theorem fits_of_forall₂ {versions : List (Option (Version δ))} {addrs : List Addr}
    (hnodes : List.Forall₂ (NodeHolds heap) versions addrs) :
    ∀ addr ∈ addrs, ∃ e, heap.get? addr = some e ∧ BodyFits e.type e.body := by
  induction hnodes with
  | nil => exact fun _ hmem => absurd hmem List.not_mem_nil
  | cons hnode _ ih =>
      intro addr hmem
      rcases List.mem_cons.mp hmem with rfl | hmem
      · exact hnode.fits
      · exact ih addr hmem

section Hold
variable {set : CatalogSet} {m : lawfulKeys_str.Map Addr} {chain : CString → List Addr}
  {h : CString → List (Version δ)} (hold : ChainsHold heap set m chain h)
include hold

/-- The entries of all chains. -/
theorem ChainsHold.mem_entries {addr : Addr} :
    addr ∈ set.data.nodes.flatMap (fun node => chain node.key) ↔ ∃ name, addr ∈ chain name := by
  rw [List.mem_flatMap]
  constructor
  · exact fun ⟨node, _, hmem⟩ => ⟨node.key, hmem⟩
  · rintro ⟨name, hmem⟩
    obtain ⟨node, hnode, rfl⟩ := hold.exists_node (List.ne_nil_of_mem hmem)
    exact ⟨node, hnode, hmem⟩

/-- `catalogSet_deinit` frees every entry of every chain once, when the loops have enough fuel. -/
theorem ChainsHold.deinit :
    ∃ fuel₀ destroyed, (∀ fuel, fuel₀ ≤ fuel → ∃ set',
        catalogSetDeinit fuel heap set = .ok (heap.freeAll destroyed, set')) ∧
      destroyed.Nodup ∧ ∀ addr, addr ∈ destroyed ↔ ∃ name, addr ∈ chain name := by
  let destroyed := set.data.nodes.flatMap fun node => chain node.key
  have hdisjoint : set.data.nodes.Pairwise fun a b => (chain a.key).Disjoint (chain b.key) :=
    (List.pairwise_map.mp hold.names_nodup).imp (hold.chains.disjoint _ _)
  -- a chain is no longer than all of them together
  have hlength (name : CString) : (chain name).length ≤ destroyed.length :=
    ((hold.chains.linked name).nodup.subperm fun _ hmem =>
      hold.mem_entries.mpr ⟨name, hmem⟩).length_le
  refine ⟨destroyed.length + set.data.nodes.length + 1, destroyed, fun fuel hfuel => ?_, ?_,
    fun addr => hold.mem_entries⟩
  · have hlong : ∀ node ∈ set.data.nodes, (chain node.key).length ≤ fuel :=
      fun node _ => (hlength node.key).trans (by omega)
    have hloop := destroyChains_ok (fun node _ => hold.chains.linked node.key)
      (fun node hnode => hold.node_head hnode) (fun node _ => fits_of_forall₂ (hold.nodes node.key))
      hdisjoint hlong
    rw [catalogSetDeinit_eq hold.data.length_eq (by omega), catalogSetDeinitWith, hloop, ok_bind]
    exact ⟨_, rfl⟩
  · exact List.nodup_flatMap.mpr
      ⟨fun node _ => (hold.chains.linked node.key).nodup, hdisjoint⟩

end Hold

/-! ### The theorem -/

/-- The version chains of a set with these histories. -/
structure VersionChains (s : SetState δ) (h : CString → List (Version δ))
    (chain : CString → List Addr) : Prop where
  /-- The map has the heads of the chains. -/
  head : ∀ name, hmapGetValue s.set.data name = .ok (chain name).head?
  /-- The way along `child` from the head visits the chain, and ends. -/
  way : ∀ name n, (chain name).length ≤ n →
    follow entryLinks s.heap n (chain name).head? = chain name
  /-- The way has no cycle. -/
  acyclic : ∀ name, (chain name).Nodup
  /-- The head has no parent, and each entry is the parent of its child. -/
  linked : ∀ name, Linked entryLinks s.heap none (chain name)
  /-- An entry for each successful call on the name, newest first, then the dummy. -/
  nodes : ∀ name, List.Forall₂ (NodeHolds s.heap) (versionNodes (h name)) (chain name)
  disjoint : ∀ name name', name ≠ name' → (chain name).Disjoint (chain name')
  /-- A creation that fails changes nothing; the entry of the caller stays outside. -/
  refused : ∀ name fresh s' value, setStep s (.create name fresh) = .ok (s', .created value false) →
    s'.set = s.set ∧ s'.heap = s.heap.push fresh.entry
  /-- The destruction frees each entry of each chain, once. -/
  deinit : ∃ fuel₀ destroyed, (∀ fuel, fuel₀ ≤ fuel → ∃ set',
      catalogSetDeinit fuel s.heap s.set = .ok (s.heap.freeAll destroyed, set')) ∧
    destroyed.Nodup ∧ ∀ addr, addr ∈ destroyed ↔ ∃ name, addr ∈ chain name

/-- Every run of creations and drops on a new set returns, when there is memory. After it, each name
has the version chain of its successful calls. -/
theorem version_chains (calls : List (SetCall δ)) :
    ∃ s results, runResults setStep setStateInit calls = .ok (s, results) ∧
      ∃ chain, VersionChains s (histories calls results) chain := by
  obtain ⟨s, results, hrun, -, hinv⟩ := setInv_run calls
  obtain ⟨-, m, chain, hold⟩ := id hinv
  refine ⟨s, results, hrun, chain, ?_⟩
  exact {
    head := fun name => by rw [hold.data.getValue, ← hold.head]
    way := fun name n hn => (hold.chains.linked name).follow hn
    acyclic := fun name => (hold.chains.linked name).nodup
    linked := hold.chains.linked
    nodes := hold.nodes
    disjoint := hold.chains.disjoint
    refused := fun name fresh s' value hstep => by
      obtain ⟨s₁, ok, hstep₁, -, -, hsame⟩ := hinv.create name fresh
      rw [hstep] at hstep₁
      cases hstep₁
      exact hsame rfl
    deinit := hold.deinit }

end MustDb.Proofs.Catalog
