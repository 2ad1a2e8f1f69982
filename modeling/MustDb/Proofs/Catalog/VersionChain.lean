import MustDb.Lib.Linked
import MustDb.Lib.Simulation
import MustDb.Proofs.Catalog.SetSteps
import MustDb.Proofs.Libv.HmapIter

/-!
# `MustDb.Proofs.Catalog.VersionChain`: the versions of a name

The history of a name is the list of the successful calls on it, newest first (`histories`). In
memory, it is the chain of the name: one entry for each of these calls, and the dummy at its end.
`ChainsHold` is this invariant. The chains are doubly linked lists (`MustDb.Lib.Linked`) without a
common entry, and the map of the set has their first entries.

A call changes at most one chain, in front (`Chains.push`), or starts one (`Chains.start`). So the
step lemmas `SetInv.create` and `SetInv.drop` follow from the cases of the calls. `setInv_run` is
the invariant of every run of a new set, when there is memory.
-/

set_option autoImplicit false

namespace MustDb.Proofs.Catalog

open MustDb.Lib
open MustDb.Libv
open MustDb.Catalog
open MustDb.Proofs.Libv

variable {δ : Type}

/-! ### Histories -/

/-- A successful call on a name. -/
inductive Version (δ : Type) where
  | created (value : Addr) (fresh : FreshEntry δ)
  | dropped

/-- The histories after a call with this result. -/
def record (h : CString → List (Version δ)) : SetCall δ → SetResult → CString → List (Version δ)
  | .create name fresh, .created value true =>
      Function.update h name (.created value fresh :: h name)
  | .drop name, .dropped true => Function.update h name (.dropped :: h name)
  | _, _ => h

/-- The history of each name after the calls with these results, newest call first. -/
def histories (calls : List (SetCall δ)) (results : List SetResult) : CString → List (Version δ) :=
  (calls.zip results).foldl (fun h entry => record h entry.1 entry.2) fun _ => []

/-- The entry of the newest creation, when no drop followed it. -/
def liveOf : List (Version δ) → Option Addr
  | .created value _ :: _ => some value
  | _ => none

/-- What the chain of a name has to show, from its head on; `none` is the dummy. -/
def versionNodes : List (Version δ) → List (Option (Version δ))
  | [] => []
  | newest :: older => (newest :: older).map some ++ [none]

/-! ### Chains in memory -/

/-- The links of an entry. -/
def entryLinks : Links (CatalogEntry δ) where
  next := CatalogEntry.child
  previous := CatalogEntry.parent

/-- The entry at an address is the one of a version. -/
inductive NodeHolds (heap : CatalogHeap δ) : Option (Version δ) → Addr → Prop where
  /-- The entry that the client passed, with new links at most. -/
  | created {value : Addr} {fresh : FreshEntry δ} {e : CatalogEntry δ}
      (get : heap.get? value = some e) (same : SameEntry fresh.entry e) :
      NodeHolds heap (some (.created value fresh)) value
  /-- A tombstone; it has a name. -/
  | dropped {addr : Addr} {e : CatalogEntry δ} (get : heap.get? addr = some e)
      (type_eq : e.type = .invalid) (body_eq : e.body = .base) (deleted_eq : e.deleted = true)
      (name_ne : e.name ≠ none) : NodeHolds heap (some .dropped) addr
  /-- The end of the chain. -/
  | dummy {addr : Addr} {e : CatalogEntry δ} (get : heap.get? addr = some e)
      (type_eq : e.type = .invalid) (body_eq : e.body = .base) (deleted_eq : e.deleted = false) :
      NodeHolds heap none addr

/-- The chains are doubly linked lists, and no entry is in two of them. -/
structure Chains (heap : CatalogHeap δ) (chain : CString → List Addr) : Prop where
  linked : ∀ name, Linked entryLinks heap none (chain name)
  disjoint : ∀ name name', name ≠ name' → (chain name).Disjoint (chain name')

/-- The set has the chains of these histories. -/
structure ChainsHold (heap : CatalogHeap δ) (set : CatalogSet) (m : lawfulKeys_str.Map Addr)
    (chain : CString → List Addr) (h : CString → List (Version δ)) : Prop where
  data : Represents lawfulKeys_str set.data m
  head : ∀ name, m.lookup (nameKey name) = (chain name).head?
  chains : Chains heap chain
  nodes : ∀ name, List.Forall₂ (NodeHolds heap) (versionNodes (h name)) (chain name)

variable {heap heap' : CatalogHeap δ} {set : CatalogSet} {m : lawfulKeys_str.Map Addr}
  {chain : CString → List Addr} {h : CString → List (Version δ)}

theorem NodeHolds.kept {version : Option (Version δ)} {addr : Addr}
    (hnode : NodeHolds heap version addr) (hkept : Kept heap heap') :
    NodeHolds heap' version addr := by
  cases hnode with
  | created get same =>
      obtain ⟨e', get', same'⟩ := hkept.entry _ _ get
      exact .created get' (same.trans same')
  | dropped get type_eq body_eq deleted_eq name_ne =>
      obtain ⟨e', get', same'⟩ := hkept.entry _ _ get
      exact .dropped get' (same'.type_eq.trans type_eq) (same'.body_eq.trans body_eq)
        (same'.deleted_eq.trans deleted_eq) (same'.name_eq ▸ name_ne)
  | dummy get type_eq body_eq deleted_eq =>
      obtain ⟨e', get', same'⟩ := hkept.entry _ _ get
      exact .dummy get' (same'.type_eq.trans type_eq) (same'.body_eq.trans body_eq)
        (same'.deleted_eq.trans deleted_eq)

/-- The casts of the destruction are right for every entry of a chain. -/
theorem NodeHolds.fits {version : Option (Version δ)} {addr : Addr}
    (hnode : NodeHolds heap version addr) :
    ∃ e, heap.get? addr = some e ∧ BodyFits e.type e.body := by
  cases hnode with
  | @created _ fresh e get same =>
      refine ⟨e, get, ?_⟩
      rw [same.type_eq, same.body_eq]
      exact fresh.fits
  | @dropped _ e get type_eq body_eq _ _ =>
      refine ⟨e, get, ?_⟩
      rw [type_eq, body_eq]
      trivial
  | @dummy _ e get type_eq body_eq _ =>
      refine ⟨e, get, ?_⟩
      rw [type_eq, body_eq]
      trivial

/-! ### Changes of one chain -/

/-- The addresses of a chain are below the next one. -/
theorem Chains.lt_next (hchains : Chains heap chain) {name : CString} {addr : Addr}
    (hmem : addr ∈ chain name) : addr < heap.next := by
  obtain ⟨e, hget⟩ := (hchains.linked name).get hmem
  exact Heap.lt_next hget

/-- The chains read their own entries only. -/
theorem Chains.congr (hchains : Chains heap chain)
    (heq : ∀ name, ∀ addr ∈ chain name, heap'.get? addr = heap.get? addr) : Chains heap' chain where
  linked name := (hchains.linked name).congr (heq name)
  disjoint := hchains.disjoint

/-- One chain is replaced by one that has new entries in front. -/
theorem Chains.update (hchains : Chains heap chain) {name : CString} {addrs : List Addr}
    (hlinked : Linked entryLinks heap' none addrs)
    (hothers : ∀ name', name' ≠ name → ∀ addr ∈ chain name', heap'.get? addr = heap.get? addr)
    (hnew : ∀ addr ∈ addrs, addr ∈ chain name ∨ ∀ name', addr ∉ chain name') :
    Chains heap' (Function.update chain name addrs) := by
  have hdisjoint (name' : CString) (hne : name' ≠ name) : addrs.Disjoint (chain name') := by
    intro addr hmem hother
    rcases hnew addr hmem with hold | hnowhere
    · exact hchains.disjoint name name' hne.symm hold hother
    · exact hnowhere name' hother
  constructor
  · intro name'
    by_cases hname : name' = name
    · rw [hname, Function.update_self]
      exact hlinked
    · rw [Function.update_of_ne hname]
      exact (hchains.linked name').congr (hothers name' hname)
  · intro name₁ name₂ hne
    by_cases h₁ : name₁ = name
    · have h₂ : name₂ ≠ name := fun heq => hne (h₁.trans heq.symm)
      rw [h₁, Function.update_self, Function.update_of_ne h₂]
      exact hdisjoint name₂ h₂
    · rw [Function.update_of_ne h₁]
      by_cases h₂ : name₂ = name
      · rw [h₂, Function.update_self]
        exact (hdisjoint name₁ h₁).symm
      · rw [Function.update_of_ne h₂]
        exact hchains.disjoint name₁ name₂ hne

/-- A new name: its chain is the dummy. -/
theorem Chains.start (hchains : Chains heap chain) (name : CString) {rest : MallocOutcomes} :
    Chains (withDummy heap name rest) (Function.update chain name [heap.next]) := by
  have hother (addr : Addr) (hne : addr ≠ heap.next) :
      (withDummy heap name rest).get? addr = heap.get? addr := Heap.get?_push_of_ne hne _
  refine hchains.update ⟨⟨dummyEntry name, Heap.get?_push_next heap _, rfl, rfl⟩, trivial⟩ ?_ ?_
  · exact fun name' _ addr hmem => hother addr (Nat.ne_of_lt (hchains.lt_next hmem))
  · intro addr hmem
    rw [List.mem_singleton.mp hmem]
    exact Or.inr fun name' hold => Nat.lt_irrefl _ (hchains.lt_next hold)

/-- A new version in front of a chain. -/
theorem Chains.push (hchains : Chains heap chain) {name : CString} {head value : Addr}
    {rest : List Addr} {e : CatalogEntry δ} (hchain : chain name = head :: rest)
    (hpushes : Pushes heap heap' head value e) (hnew : ∀ name', value ∉ chain name') :
    Chains heap' (Function.update chain name (value :: head :: rest)) := by
  have hlinked := hchains.linked name
  have hnodup := hlinked.nodup
  rw [hchain] at hlinked hnodup
  have hne (name' : CString) {addr : Addr} (hmem : addr ∈ chain name') : addr ≠ value :=
    fun heq => hnew name' (heq ▸ hmem)
  -- the old head keeps its child
  obtain ⟨⟨obj, hget, -, hchild⟩, -⟩ := id hlinked
  rw [hpushes.get_old, Option.some_inj] at hget
  obtain ⟨e', hget', hchild', hparent'⟩ := hpushes.get_value
  refine hchains.update ?_ ?_ ?_
  · refine hlinked.push ⟨e', hget', hparent', hchild'⟩
      ⟨_, hpushes.get_head, rfl, hget ▸ hchild⟩ fun addr hmem => hpushes.get_other addr ?_ ?_
    · rintro rfl
      exact (List.nodup_cons.mp hnodup).1 hmem
    · exact hne name (hchain ▸ List.mem_cons_of_mem _ hmem)
  · intro name' hname addr hmem
    refine hpushes.get_other addr ?_ (hne name' hmem)
    rintro rfl
    exact hchains.disjoint name' name hname hmem (hchain ▸ List.mem_cons_self)
  · intro addr hmem
    rcases List.mem_cons.mp hmem with rfl | hmem
    · exact Or.inr hnew
    · exact Or.inl (hchain ▸ hmem)

/-! ### The invariant -/

/-- A new entry that is not in a chain. -/
theorem ChainsHold.push_fresh (hold : ChainsHold heap set m chain h) (e : CatalogEntry δ) :
    ChainsHold (heap.push e) set m chain h where
  data := hold.data
  head := hold.head
  chains := hold.chains.congr fun _ _ hmem =>
    Heap.get?_push_of_ne (Nat.ne_of_lt (hold.chains.lt_next hmem)) e
  nodes name := (hold.nodes name).imp fun _ _ hnode => hnode.kept (kept_push e)

/-- The heads of the map are in the heap. -/
theorem ChainsHold.get_head (hold : ChainsHold heap set m chain h) (name : CString) (addr : Addr)
    (hlookup : m.lookup (nameKey name) = some addr) : ∃ e, heap.get? addr = some e := by
  rw [hold.head] at hlookup
  exact (hold.chains.linked name).get (List.mem_of_mem_head? hlookup)

/-- A new version of one name, in front of the old ones and their dummy. -/
theorem ChainsHold.push (hold : ChainsHold heap set m chain h) {name : CString} {value : Addr}
    {addrs : List Addr} {set' : CatalogSet} {version : Version δ}
    (hdata : Represents lawfulKeys_str set'.data (m.insert (nameKey name) value))
    (hkept : Kept heap heap')
    (hchains : Chains heap' (Function.update chain name (value :: addrs)))
    (hnodes : List.Forall₂ (NodeHolds heap') (versionNodes (version :: h name)) (value :: addrs)) :
    ChainsHold heap' set' (m.insert (nameKey name) value)
      (Function.update chain name (value :: addrs))
      (Function.update h name (version :: h name)) where
  data := hdata
  head name' := by
    by_cases hname : name' = name
    · rw [hname, Finmap.lookup_insert, Function.update_self]
      rfl
    · have hkey : nameKey name' ≠ nameKey name := fun heq => hname (nameKey_eq_iff.mp heq)
      rw [Finmap.lookup_insert_of_ne _ hkey, Function.update_of_ne hname, hold.head]
  chains := hchains
  nodes name' := by
    by_cases hname : name' = name
    · rw [hname, Function.update_self, Function.update_self]
      exact hnodes
    · rw [Function.update_of_ne hname, Function.update_of_ne hname]
      exact (hold.nodes name').imp fun _ _ hnode => hnode.kept hkept

/-- The head of a chain is the newest version. -/
theorem ChainsHold.newest (hold : ChainsHold heap set m chain h) {name : CString} {head : Addr}
    (hhead : (chain name).head? = some head) :
    h name ≠ [] ∧ NodeHolds heap (h name).head? head := by
  have hnodes := hold.nodes name
  obtain ⟨rest, hchain⟩ := List.head?_eq_some_iff.mp hhead
  rw [hchain] at hnodes
  cases hh : h name with
  | nil =>
      rw [hh] at hnodes
      cases hnodes
  | cons newest older =>
      rw [hh] at hnodes
      exact ⟨List.cons_ne_nil _ _, (List.forall₂_cons.mp hnodes).1⟩

/-- A name without a head has no history. -/
theorem ChainsHold.of_lookup_none (hold : ChainsHold heap set m chain h) {name : CString}
    (hlookup : m.lookup (nameKey name) = none) : chain name = [] ∧ h name = [] := by
  have hchain : chain name = [] := List.head?_eq_none_iff.mp (hold.head name ▸ hlookup)
  have hnodes := hold.nodes name
  rw [hchain] at hnodes
  cases hh : h name with
  | nil => exact ⟨hchain, rfl⟩
  | cons newest older =>
      rw [hh] at hnodes
      cases hnodes

/-- The deletion mark of the head says what the newest version is, and the head has a name. -/
theorem ChainsHold.of_lookup_some (hold : ChainsHold heap set m chain h) {name : CString}
    {head : Addr} {e : CatalogEntry δ} (hlookup : m.lookup (nameKey name) = some head)
    (hget : heap.get? head = some e) :
    ∃ rest newest older, chain name = head :: rest ∧ h name = newest :: older ∧
      (liveOf (h name) = if e.deleted then none else some head) ∧ e.name ≠ none := by
  have hhead := hold.head name
  rw [hlookup] at hhead
  obtain ⟨rest, hchain⟩ := List.head?_eq_some_iff.mp hhead.symm
  have hnodes := hold.nodes name
  rw [hchain] at hnodes
  cases hh : h name with
  | nil =>
      rw [hh] at hnodes
      cases hnodes
  | cons newest older =>
      rw [hh] at hnodes
      refine ⟨rest, newest, older, hchain, rfl, ?_⟩
      obtain ⟨hnewest, -⟩ := List.forall₂_cons.mp hnodes
      generalize hversion : some newest = version at hnewest
      cases hnewest with
      | created get same =>
          cases hversion
          rw [hget, Option.some_inj] at get
          rw [get, same.deleted_eq, same.name_eq]
          exact ⟨rfl, Option.some_ne_none _⟩
      | dropped get _ _ deleted_eq name_ne =>
          cases hversion
          rw [hget, Option.some_inj] at get
          rw [get, deleted_eq]
          exact ⟨rfl, name_ne⟩
      | dummy => cases hversion

/-! ### The nodes of the map -/

section Nodes
variable (hold : ChainsHold heap set m chain h)
include hold

/-- The nodes of the map have the heads of their names. -/
theorem ChainsHold.node_head {node : HmapNode CString Addr} (hnode : node ∈ set.data.nodes) :
    (chain node.key).head? = some node.value := by
  rw [← hold.head]
  exact (hold.data.lookup_iff_node _ _).mpr ⟨node, hnode, lawfulKeys_str.refl _, rfl⟩

/-- A name with a chain has a node. -/
theorem ChainsHold.exists_node {name : CString} (hne : chain name ≠ []) :
    ∃ node ∈ set.data.nodes, node.key = name := by
  obtain ⟨head, rest, hchain⟩ := List.exists_cons_of_ne_nil hne
  have hlookup : m.lookup (nameKey name) = some head := by
    rw [hold.head, hchain]
    rfl
  obtain ⟨node, hnode, hkey, -⟩ := (hold.data.lookup_iff_node _ _).mp hlookup
  exact ⟨node, hnode, strcmp_eq_zero_iff.mp hkey⟩

/-- The names of the nodes are different. -/
theorem ChainsHold.names_nodup : (set.data.nodes.map (·.key)).Nodup := by
  rw [List.Nodup, List.pairwise_map]
  refine hold.data.once.imp fun hne heq => hne ?_
  exact strcmp_eq_zero_iff.mpr heq

end Nodes

/-! ### The calls -/

/-- The version that a creation has put in front of a chain. -/
theorem forall₂_push {version : Version δ} {older : List (Version δ)} {value head : Addr}
    {rest : List Addr} (hvalue : NodeHolds heap' (some version) value)
    (hnodes : List.Forall₂ (NodeHolds heap) (versionNodes older) (head :: rest))
    (hkept : Kept heap heap') :
    List.Forall₂ (NodeHolds heap') (versionNodes (version :: older)) (value :: head :: rest) := by
  cases older with
  | nil => cases hnodes
  | cons newest older => exact .cons hvalue (hnodes.imp fun _ _ hnode => hnode.kept hkept)

/-- What a creation does to the chains, when there is memory for it. -/
theorem ChainsHold.create_case (hold : ChainsHold heap set m chain h) (hmem : heap.outcomes = [])
    {name : CString} {value : Addr} {fresh : FreshEntry δ}
    (hvalue : heap.get? value = some fresh.entry) (hnew : ∀ name', value ∉ chain name')
    {result : CatalogHeap δ × CatalogSet × Bool}
    (hcase : CreateCase heap set m name value fresh.entry result) :
    (result = (heap, set, false) ∧ (liveOf (h name)).isNone = false) ∨
      result.2.2 = true ∧ (liveOf (h name)).isNone = true ∧ result.1.outcomes = [] ∧
        ∃ m' chain', ChainsHold result.1 result.2.1 m' chain'
          (Function.update h name (.created value fresh :: h name)) := by
  have hcreated : NodeHolds heap (some (.created value fresh)) value :=
    .created hvalue SameEntry.rfl
  cases hcase with
  | «exists» lookup get live =>
      obtain ⟨rest, newest, older, -, -, hlive, -⟩ := hold.of_lookup_some lookup get
      rw [live] at hlive
      exact Or.inl ⟨rfl, by rw [hlive]; rfl⟩
  | refused new failed =>
      rw [hmem] at failed
      exact absurd failed List.not_mem_nil
  | @first rest data new sub data_holds =>
      obtain ⟨hchain, hhistory⟩ := hold.of_lookup_none new
      have hrest : rest = [] := List.eq_nil_iff_forall_not_mem.mpr fun outcome hin =>
        absurd (hmem ▸ sub outcome hin) List.not_mem_nil
      have hdummy : withDummy heap name rest = heap.push (dummyEntry name) := by
        rw [withDummy, hrest, ← hmem]
        rfl
      have hne : heap.next ≠ value := Nat.ne_of_gt (Heap.lt_next hvalue)
      rw [hdummy]
      have hpushes : Pushes (heap.push (dummyEntry name))
          (pushed (heap.push (dummyEntry name)) heap.next value (dummyEntry name) fresh.entry)
          heap.next value (dummyEntry name) :=
        pushes_pushed (Heap.get?_push_next heap _) (Heap.get?_push_of_get? hvalue _) rfl hne
      have hstart : Chains (heap.push (dummyEntry name))
          (Function.update chain name [heap.next]) := hdummy ▸ hold.chains.start name
      -- first the dummy is the chain, then the new version is in front of it
      have hchains := hstart.push (Function.update_self name _ chain) hpushes (by
        intro name'
        by_cases hname : name' = name
        · rw [hname, Function.update_self]
          exact fun hin => hne (List.mem_singleton.mp hin).symm
        · rw [Function.update_of_ne hname]
          exact hnew name')
      rw [Function.update_idem] at hchains
      refine Or.inr ⟨rfl, by rw [hhistory]; rfl, hmem, _, _,
        hold.push data_holds ((kept_push _).trans hpushes.kept) hchains ?_⟩
      rw [hhistory]
      have hend : NodeHolds (heap.push (dummyEntry name)) (none : Option (Version δ)) heap.next :=
        .dummy (Heap.get?_push_next heap _) rfl rfl rfl
      exact .cons (hcreated.kept ((kept_push _).trans hpushes.kept))
        (.cons (hend.kept hpushes.kept) .nil)
  | @again head e data lookup get dropped data_holds =>
      obtain ⟨rest, newest, older, hchain, -, hlive, -⟩ := hold.of_lookup_some lookup get
      rw [dropped] at hlive
      have hne : head ≠ value := fun heq => hnew name (hchain ▸ heq ▸ List.mem_cons_self)
      have hpushes := pushes_pushed get hvalue rfl hne
      refine Or.inr ⟨rfl, by rw [hlive]; rfl, hmem, _, _,
        hold.push data_holds hpushes.kept (hold.chains.push hchain hpushes hnew) ?_⟩
      exact forall₂_push (hcreated.kept hpushes.kept) (hchain ▸ hold.nodes name) hpushes.kept

/-- What a drop does to the chains, when there is memory for it. -/
theorem ChainsHold.drop_case (hold : ChainsHold heap set m chain h) (hmem : heap.outcomes = [])
    {name : CString} {result : CatalogHeap δ × CatalogSet × Bool}
    (hcase : DropCase heap set m name result) :
    (result = (heap, set, false) ∧ h name = []) ∨
      result.2.2 = true ∧ h name ≠ [] ∧ result.1.outcomes = [] ∧
        ∃ m' chain', ChainsHold result.1 result.2.1 m' chain'
          (Function.update h name (.dropped :: h name)) := by
  cases hcase with
  | absent new => exact Or.inl ⟨rfl, (hold.of_lookup_none new).2⟩
  | kept lookup get failed =>
      rw [hmem] at failed
      cases failed
  | @dropped head e copy rest data lookup get room copy_eq sub data_holds =>
      obtain ⟨addrs, newest, older, hchain, hhistory, -, hname⟩ := hold.of_lookup_some lookup get
      have hrest : rest = [] := List.eq_nil_iff_forall_not_mem.mpr fun outcome hin =>
        absurd (hmem ▸ sub outcome hin) List.not_mem_nil
      have hpush : ({ heap.push (tombstone copy head) with outcomes := rest } : CatalogHeap δ)
          = heap.push (tombstone copy head) := by
        rw [hrest, ← hmem]
        rfl
      have hpushes := pushes_tombstone get copy
      rw [hpush]
      have hnew (name' : CString) : heap.next ∉ chain name' :=
        fun hin => Nat.lt_irrefl _ (hold.chains.lt_next hin)
      refine Or.inr ⟨rfl, by simp [hhistory], hmem, _, _,
        hold.push data_holds hpushes.kept (hold.chains.push hchain hpushes hnew) ?_⟩
      have htombstone : NodeHolds ((heap.push (tombstone copy head)).put head
          { e with parent := some heap.next }) (some (.dropped : Version δ)) heap.next := by
        refine .dropped (get?_tombstone get copy _) rfl rfl rfl ?_
        -- the copy of the name was made, because there is memory
        show copy ≠ none
        rwa [copy_eq (by rw [hmem]; rfl)]
      exact forall₂_push htombstone (hchain ▸ hold.nodes name) hpushes.kept

/-- The set of the state has the chains of these histories, and there is memory. -/
def SetInv (s : SetState δ) (h : CString → List (Version δ)) : Prop :=
  s.heap.outcomes = [] ∧ ∃ m chain, ChainsHold s.heap s.set m chain h

variable {s : SetState δ}

/-- A creation: it succeeds when the name is not live, and else nothing changes. -/
theorem SetInv.create (hinv : SetInv s h) (name : CString) (fresh : FreshEntry δ) :
    ∃ s' ok, setStep s (.create name fresh) = .ok (s', .created s.heap.next ok) ∧
      SetInv s' (record h (.create name fresh) (.created s.heap.next ok)) ∧
      ok = (liveOf (h name)).isNone ∧
      (ok = false → s'.set = s.set ∧ s'.heap = s.heap.push fresh.entry) := by
  obtain ⟨hmem, m, chain, hold⟩ := hinv
  have hold₀ := hold.push_fresh fresh.entry
  have hvalue : (s.heap.push fresh.entry).get? s.heap.next = some fresh.entry :=
    Heap.get?_push_next s.heap _
  have hnew (name' : CString) : s.heap.next ∉ chain name' :=
    fun hin => Nat.lt_irrefl _ (hold.chains.lt_next hin)
  have hfresh (name' : CString) : m.lookup (nameKey name') ≠ some s.heap.next := by
    intro hlookup
    rw [hold.head] at hlookup
    exact hnew name' (List.mem_of_mem_head? hlookup)
  obtain ⟨⟨heap', set', ok⟩, hrun, hcase⟩ :=
    createEntry_cases hold₀.data hold₀.get_head name hvalue hfresh
  have hstep : setStep s (.create name fresh)
      = .ok ({ heap := heap', set := set' }, .created s.heap.next ok) := by
    rw [setStep, hrun]
    rfl
  refine ⟨_, ok, hstep, ?_⟩
  rcases hold₀.create_case hmem hvalue hnew hcase with ⟨heq, hlive⟩ | ⟨rfl, hlive, hmem', hhold⟩
  · cases heq
    exact ⟨⟨hmem, m, chain, hold₀⟩, hlive.symm, fun _ => ⟨rfl, rfl⟩⟩
  · exact ⟨⟨hmem', hhold⟩, hlive.symm, fun hfalse => absurd hfalse (by decide)⟩

/-- A drop: it succeeds for every name that was created, and else nothing changes. -/
theorem SetInv.drop (hinv : SetInv s h) (name : CString) :
    (∃ s' ok, setStep s (.drop name) = .ok (s', .dropped ok) ∧
      SetInv s' (record h (.drop name) (.dropped ok)) ∧
      (ok = true ↔ h name ≠ [])) := by
  obtain ⟨hmem, m, chain, hold⟩ := hinv
  rcases dropEntry_cases hold.data hold.get_head name with
    ⟨⟨heap', set', ok⟩, hrun, hcase⟩ | ⟨head, e, hlookup, hget, hname, -⟩
  · have hstep : setStep s (.drop name)
        = .ok ({ heap := heap', set := set' }, .dropped ok) := by
      rw [setStep, hrun]
      rfl
    refine ⟨_, ok, hstep, ?_⟩
    rcases hold.drop_case hmem hcase with ⟨heq, hhistory⟩ | ⟨rfl, hhistory, hmem', hhold⟩
    · cases heq
      exact ⟨⟨hmem, m, chain, hold⟩, iff_of_false (by decide) (fun hne => hne hhistory)⟩
    · exact ⟨⟨hmem', hhold⟩, iff_of_true rfl hhistory⟩
  · obtain ⟨-, -, -, -, -, -, hnamed⟩ := hold.of_lookup_some hlookup hget
    exact absurd hname hnamed

/-! ### Runs -/

/-- A new set has no chains. -/
theorem setInv_init : SetInv (setStateInit : SetState δ) fun _ => [] := by
  have hdata : Represents lawfulKeys_str (catalogSetInit []).1.data (∅ : lawfulKeys_str.Map Addr) :=
    represents_init lawfulKeys_str HMAP_DEFAULT_NBUCKETS [] (by decide) (by decide)
  refine ⟨rfl, ∅, fun _ => [], hdata, fun name => ?_, ⟨fun _ => trivial, ?_⟩, fun _ => .nil⟩
  · rw [Finmap.lookup_empty]
    rfl
  · exact fun _ _ _ => List.disjoint_nil_left _

/-- What a call returns: a creation succeeds when the name is not live, a drop when there is a
history. -/
def Answers (h : CString → List (Version δ)) : SetCall δ → SetResult → Prop
  | .create name _, .created _ ok => ok = (liveOf (h name)).isNone
  | .drop name, .dropped ok => ok = true ↔ h name ≠ []
  | _, _ => False

/-- What a call means on the histories. -/
def Recorded (h : CString → List (Version δ)) (call : SetCall δ) (result : SetResult)
    (h' : CString → List (Version δ)) : Prop :=
  h' = record h call result ∧ Answers h call result

/-- The step lemma. -/
theorem SetInv.step_ok {s : SetState δ} {h : CString → List (Version δ)} (hinv : SetInv s h)
    (call : SetCall δ) :
    ∃ s' result h', setStep s call = .ok (s', result) ∧ Recorded h call result h' ∧
      SetInv s' h' := by
  cases call with
  | create name fresh =>
      obtain ⟨s', ok, hstep, hinv', hok, -⟩ := hinv.create name fresh
      exact ⟨s', _, _, hstep, ⟨rfl, hok⟩, hinv'⟩
  | drop name =>
      obtain ⟨s', ok, hstep, hinv', hok⟩ := hinv.drop name
      exact ⟨s', _, _, hstep, ⟨rfl, hok⟩, hinv'⟩

/-- The run lemma: every run returns, and the set has the chains of its histories. -/
theorem setInv_run (calls : List (SetCall δ)) :
    ∃ s results, runResults setStep setStateInit calls = .ok (s, results) ∧
      SpecRun Recorded (fun _ => []) calls results (histories calls results) ∧
      SetInv s (histories calls results) := by
  obtain ⟨s, results, h, hrun, hspec, hinv⟩ := run_simulation setStep Recorded SetInv
    (fun _ _ call hinv => hinv.step_ok call) calls setStateInit (fun _ => []) setInv_init
  have hh : h = histories calls results := hspec.eq_foldl fun _ _ _ _ hstep => hstep.1
  exact ⟨s, results, hrun, hh ▸ hspec, hh ▸ hinv⟩

end MustDb.Proofs.Catalog
