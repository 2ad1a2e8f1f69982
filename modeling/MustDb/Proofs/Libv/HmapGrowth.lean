import MustDb.Proofs.Libv.HmapRefinement

/-!
# `MustDb.Proofs.Libv.HmapGrowth`: the load and the cost of a hash map

`hmap_insert` doubles the buckets when three quarters of them would be in use, before it looks for
the key, and `hmap_grow` then moves every node. A client that always gets its memory has three
results for this (`hmap_growth`): after each call no more than three quarters of the buckets are in
use; the buckets are those of the start, or at most eight thirds of the insertions; and all growths
together have moved at most eleven quarters of a node for each insertion.

The last one is the potential method. The potential of a map is what its nodes are above three
eighths of its buckets, in units of `1 / 8`. A growth finds it at its height and leaves nothing.

When an allocation fails, none of this holds: the map stays as it is, the load grows, and each later
insertion moves all nodes again until the buckets have caught up.
-/

set_option autoImplicit false

namespace MustDb.Proofs.Libv

open MustDb.Lib
open MustDb.Libv

variable {κ ν : Type}

/-! ### The moves -/

/-- The turns of the inner loop of `hmap_grow`: one for each node, if there is memory. -/
def growMoves (hm : Hmap κ ν) (outcomes : MallocOutcomes) : Nat :=
  if (calloc (hm.nbuckets * 2 % 2 ^ 64) POINTER_SIZE outcomes).1 then hm.nodes.length else 0

/-- The bucket of a node in `hmap_grow`. -/
def newIndex (hm : Hmap κ ν) (node : HmapNode κ ν) : Nat :=
  (hm.hashFunc node.key).toNat % (hm.nbuckets * 2 % 2 ^ 64)

/-- A turn of the inner loop of `hmap_grow`, with a count of the turns. -/
def countedTurn (hm : Hmap κ ν) (s : List (List (HmapNode κ ν)) × Nat) (node : HmapNode κ ν) :
    List (List (HmapNode κ ν)) × Nat :=
  (push (newIndex hm) s.1 node, s.2 + 1)

/-- The loops of `hmap_grow`, with a count of the turns of the inner one. -/
def growTurns (hm : Hmap κ ν) : Except Fault (List (List (HmapNode κ ν)) × Nat) :=
  (List.range hm.nbuckets).foldlM (fun s i => do
    let chain ← hmapChain hm i
    return chain.foldl (countedTurn hm) s) (List.replicate (hm.nbuckets * 2 % 2 ^ 64) [], 0)

theorem foldl_countedTurn (hm : Hmap κ ν) (nodes : List (HmapNode κ ν)) :
    ∀ (buckets : List (List (HmapNode κ ν))) (turns : Nat),
      nodes.foldl (countedTurn hm) (buckets, turns)
        = (pushAll (newIndex hm) buckets nodes, turns + nodes.length) := by
  induction nodes with
  | nil => exact fun _ _ => rfl
  | cons node nodes ih =>
      intro buckets turns
      rw [List.foldl_cons, countedTurn, ih, List.length_cons, Nat.add_assoc, Nat.add_comm 1]
      rfl

/-- The load check of `hmap_insert` lets the map grow. -/
def Grows (hm : Hmap κ ν) : Prop := hm.nbuckets - hm.nbuckets >>> 2 ≤ hm.len

instance (hm : Hmap κ ν) : Decidable (Grows hm) := inferInstanceAs (Decidable (_ ≤ _))

/-- The moves in one call. -/
def moves (hm : Hmap κ ν) : HmapCall κ ν → Nat
  | .insert _ _ outcomes => if Grows hm then growMoves hm outcomes else 0
  | .delete _ => 0

/-- The call is an insertion. -/
def HmapCall.isInsert : HmapCall κ ν → Bool
  | .insert _ _ _ => true
  | .delete _ => false

/-- The outcomes of the allocations in the call. -/
def HmapCall.outcomes : HmapCall κ ν → MallocOutcomes
  | .insert _ _ outcomes => outcomes
  | .delete _ => []

/-- A map, the insertions so far, and the moves in them. -/
structure Metered (κ ν : Type) where
  hm : Hmap κ ν
  inserts : Nat
  moved : Nat

/-- One call, with its moves. -/
def meteredStep (s : Metered κ ν) (call : HmapCall κ ν) : Except Fault (Metered κ ν) := do
  let (hm, _) ← hmapStep s.hm call
  return { hm, inserts := s.inserts + call.isInsert.toNat, moved := s.moved + moves s.hm call }

/-! ### What a call does to the size of the map -/

/-- A growth with memory doubles the buckets. -/
theorem hmapGrow_eq_ok {hm hm' : Hmap κ ν} {outcomes rest : MallocOutcomes}
    (h : hmapGrow hm outcomes = .ok (hm', rest)) :
    hm'.len = hm.len ∧ ((calloc (hm.nbuckets * 2 % 2 ^ 64) POINTER_SIZE outcomes).1 = true →
      hm'.nbuckets = hm.nbuckets * 2 % 2 ^ 64) := by
  unfold hmapGrow at h
  cases hcalloc : calloc (hm.nbuckets * 2 % 2 ^ 64) POINTER_SIZE outcomes with
  | mk ok rest' =>
      simp only [hcalloc] at h
      cases ok with
      | false =>
          cases h
          exact ⟨rfl, fun hok => by cases hok⟩
      | true =>
          obtain ⟨buckets, -, hend⟩ := bind_eq_ok.mp h
          cases pure_eq_ok.mp hend
          exact ⟨rfl, fun _ => rfl⟩

/-- Behind the load check, an insertion adds at most one node. -/
theorem hmapInsertAt_size (hm : Hmap κ ν) (i : Nat) (chain : List (HmapNode κ ν)) (key : κ)
    (value : ν) (outcomes : MallocOutcomes) :
    (hmapInsertAt hm i chain key value outcomes).1.nbuckets = hm.nbuckets ∧
      (hmapInsertAt hm i chain key value outcomes).1.len ≤ hm.len + 1 := by
  unfold hmapInsertAt
  cases chainStore hm.keyCompare key value chain with
  | some found => exact ⟨rfl, Nat.le_succ _⟩
  | none =>
      cases malloc outcomes with
      | mk ok rest =>
          cases ok with
          | false => exact ⟨rfl, Nat.le_succ _⟩
          | true => exact ⟨rfl, Nat.le_refl _⟩

/-- The size of the map after an insertion. -/
theorem hmapInsert_size {hm hm' : Hmap κ ν} {key : κ} {value : ν} {outcomes rest : MallocOutcomes}
    {node : Option (HmapNode κ ν)} (h : hmapInsert hm key value outcomes = .ok (hm', node, rest)) :
    hm'.len ≤ hm.len + 1 ∧ (¬ Grows hm → hm'.nbuckets = hm.nbuckets) ∧
      (Grows hm → (calloc (hm.nbuckets * 2 % 2 ^ 64) POINTER_SIZE outcomes).1 = true →
        hm'.nbuckets = hm.nbuckets * 2 % 2 ^ 64) := by
  obtain ⟨⟨hm₁, rest₁⟩, hload, h⟩ := bind_eq_ok.mp h
  obtain ⟨i, -, h⟩ := bind_eq_ok.mp h
  obtain ⟨chain, -, h⟩ := bind_eq_ok.mp h
  have hend := pure_eq_ok.mp h
  obtain ⟨hnbuckets, hlen⟩ := hmapInsertAt_size hm₁ i chain key value rest₁
  rw [hend] at hnbuckets hlen
  unfold hmapLoadCheck at hload
  split at hload
  case isTrue hgrows =>
      obtain ⟨hlen₁, hnbuckets₁⟩ := hmapGrow_eq_ok hload
      refine ⟨by rw [← hlen₁]; exact hlen, fun hnot => absurd hgrows hnot, fun _ hok => ?_⟩
      exact hnbuckets.trans (hnbuckets₁ hok)
  case isFalse hnot =>
      cases hload
      exact ⟨hlen, fun _ => hnbuckets, fun hgrows => absurd hgrows hnot⟩

theorem hmapDelete_size {hm hm' : Hmap κ ν} {key : κ} {code : Int} {out : Option ν}
    (h : hmapDelete hm key = .ok (hm', code, out)) :
    hm'.len ≤ hm.len ∧ hm'.nbuckets = hm.nbuckets := by
  obtain ⟨i, -, h⟩ := bind_eq_ok.mp h
  obtain ⟨chain, -, h⟩ := bind_eq_ok.mp h
  cases hunlink : chainUnlink hm.keyCompare key chain with
  | some found =>
      simp only [hunlink] at h
      cases pure_eq_ok.mp h
      exact ⟨Nat.sub_le _ _, rfl⟩
  | none =>
      simp only [hunlink] at h
      cases pure_eq_ok.mp h
      exact ⟨Nat.le_refl _, rfl⟩

/-! ### The invariant -/

variable {hashFunc : κ → UInt32} {keyCompare : κ → κ → Int}

/-- The invariant of a map that starts with `n₀` buckets and always gets its memory. -/
structure Growth (law : LawfulKeys hashFunc keyCompare) (n₀ : Nat) (s : Metered κ ν) : Prop where
  /-- It is a map. -/
  map : ∃ m, Represents law s.hm m
  /-- At most three quarters of the buckets are in use. -/
  load : s.hm.len ≤ s.hm.nbuckets - s.hm.nbuckets / 4
  len_le : s.hm.len ≤ s.inserts
  /-- The buckets are paid for by insertions. -/
  nbuckets_le : s.hm.nbuckets = n₀ ∨ 3 * s.hm.nbuckets ≤ 8 * s.inserts
  /-- The moves and the potential are paid for by insertions. -/
  moved_le : 4 * s.moved + (8 * s.hm.len - 3 * s.hm.nbuckets) ≤ 11 * s.inserts

/-- What the client of the theorem keeps to: there is memory for each allocation, and fewer than
`2 ^ 58` nodes. -/
def HasMemory (s : Metered κ ν) (call : HmapCall κ ν) : Prop :=
  s.hm.len < 2 ^ 58 ∧ false ∉ call.outcomes

instance (s : Metered κ ν) (call : HmapCall κ ν) : Decidable (HasMemory s call) :=
  inferInstanceAs (Decidable (_ ∧ _))

variable {law : LawfulKeys hashFunc keyCompare} {n₀ : Nat} {s : Metered κ ν}

/-- The load check in the terms of the invariant. -/
theorem grows_iff (hm : Hmap κ ν) : Grows hm ↔ hm.nbuckets - hm.nbuckets / 4 ≤ hm.len := by
  have hshift : hm.nbuckets >>> 2 = hm.nbuckets / 4 := Nat.shiftRight_eq_div_pow _ 2
  rw [Grows, hshift]

/-- A growth at the load limit has the memory for its buckets. -/
theorem calloc_ok {s : Metered κ ν} (hgrows : Grows s.hm) (hlt : s.hm.len < 2 ^ 58)
    {outcomes : MallocOutcomes} (hmem : false ∉ outcomes) :
    s.hm.nbuckets * 2 % 2 ^ 64 = 2 * s.hm.nbuckets ∧
      (calloc (s.hm.nbuckets * 2 % 2 ^ 64) POINTER_SIZE outcomes).1 = true := by
  have hload := (grows_iff s.hm).mp hgrows
  have hmod : s.hm.nbuckets * 2 % 2 ^ 64 = 2 * s.hm.nbuckets := by omega
  have hfits : 2 * s.hm.nbuckets * POINTER_SIZE < 2 ^ 64 := by
    simp only [POINTER_SIZE]
    omega
  have hmalloc : (malloc outcomes).1 = true :=
    (malloc_eq_true_iff outcomes).mpr fun hfalse => hmem (List.mem_of_mem_take hfalse)
  refine ⟨hmod, ?_⟩
  rw [hmod, calloc, if_pos hfits]
  exact hmalloc

/-- The count of the moves is that of the turns in the loop that makes the new buckets. -/
theorem growMoves_eq_turns {hm : Hmap κ ν} {m : law.Map ν} (h : Represents law hm m)
    {outcomes : MallocOutcomes}
    (hok : (calloc (hm.nbuckets * 2 % 2 ^ 64) POINTER_SIZE outcomes).1 = true) :
    ∃ hm' rest, hmapGrow hm outcomes = .ok (hm', rest) ∧
      growTurns hm = .ok (hm'.buckets, growMoves hm outcomes) := by
  have hall : hm.buckets.take hm.nbuckets = hm.buckets := List.take_of_length_le h.length_eq.le
  -- both loops go over all chains
  have hloop := foldlM_chains (pushAll (newIndex hm))
    (List.replicate (hm.nbuckets * 2 % 2 ^ 64) []) h.length_eq.ge
  have hcounted := foldlM_chains (fun s chain => chain.foldl (countedTurn hm) s)
    (List.replicate (hm.nbuckets * 2 % 2 ^ 64) [], 0) h.length_eq.ge
  rw [hall] at hloop hcounted
  refine ⟨{ hm with
    buckets := hm.buckets.foldl (pushAll (newIndex hm))
      (List.replicate (hm.nbuckets * 2 % 2 ^ 64) [])
    nbuckets := hm.nbuckets * 2 % 2 ^ 64 },
    (calloc (hm.nbuckets * 2 % 2 ^ 64) POINTER_SIZE outcomes).2, ?_, ?_⟩
  · rw [hmapGrow]
    cases hcalloc : calloc (hm.nbuckets * 2 % 2 ^ 64) POINTER_SIZE outcomes with
    | mk ok rest =>
        rw [hcalloc] at hok
        cases hok
        exact congrArg (· >>= fun buckets => pure ({ hm with
          buckets, nbuckets := hm.nbuckets * 2 % 2 ^ 64 }, rest)) hloop
  · rw [growTurns, hcounted, ← List.foldl_flatten, foldl_countedTurn, growMoves, if_pos hok,
      Nat.zero_add, pushAll, Hmap.nodes, List.foldl_flatten]
    rfl

/-- A growth moves all nodes. -/
theorem Growth.growMoves_eq (h : Growth law n₀ s) {outcomes : MallocOutcomes}
    (hok : (calloc (s.hm.nbuckets * 2 % 2 ^ 64) POINTER_SIZE outcomes).1 = true) :
    growMoves s.hm outcomes = s.hm.len := by
  obtain ⟨m, hrep⟩ := h.map
  rw [growMoves, if_pos hok, hrep.len_eq]

/-- The potential of a map at the load limit pays for moving its nodes, and for what the rounding of
the limit leaves in the new map. -/
theorem potential_grown {len len' nbuckets : Nat} (hlen : len = nbuckets - nbuckets / 4)
    (hlen' : len' ≤ len + 1) :
    4 * len + (8 * len' - 3 * (2 * nbuckets)) ≤ (8 * len - 3 * nbuckets) + 11 := by
  omega

/-- A doubled map is below its load limit. -/
theorem load_grown {len len' nbuckets : Nat} (hpos : 0 < nbuckets)
    (hlen : len = nbuckets - nbuckets / 4) (hlen' : len' ≤ len + 1) :
    len' ≤ 2 * nbuckets - 2 * nbuckets / 4 := by
  have hquarter : 2 * nbuckets / 4 ≤ nbuckets / 2 := by omega
  omega

/-- The step lemma of an insertion. -/
theorem Growth.insert (h : Growth law n₀ s) (key : κ) (value : ν) {outcomes : MallocOutcomes}
    (hlt : s.hm.len < 2 ^ 58) (hmem : false ∉ outcomes) :
    ∃ s', meteredStep s (.insert key value outcomes) = .ok s' ∧ Growth law n₀ s' := by
  obtain ⟨m, hrep⟩ := h.map
  obtain ⟨hm', node, rest, hrun, hcases, -, -⟩ := hrep.insert key value outcomes
  obtain ⟨hlen', hstays, hgrown⟩ := hmapInsert_size hrun
  have hmap : ∃ m', Represents law hm' m' := by
    rcases hcases with ⟨-, -, -, h'⟩ | ⟨-, -, -, -, h'⟩
    · exact ⟨_, h'⟩
    · exact ⟨_, h'⟩
  have hload := h.load
  have hpaid := h.moved_le
  have hlenLe := h.len_le
  have hbuckets := h.nbuckets_le
  refine ⟨{ hm := hm', inserts := s.inserts + 1,
            moved := s.moved + moves s.hm (.insert key value outcomes) }, ?_, ?_⟩
  · simp only [meteredStep, hmapStep, hrun]
    rfl
  by_cases hgrows : Grows s.hm
  case pos =>
      -- the map is at the load limit: all its nodes move, and the buckets double
      obtain ⟨hmod, hok⟩ := calloc_ok hgrows hlt hmem
      have hnbuckets' : hm'.nbuckets = 2 * s.hm.nbuckets := (hgrown hgrows hok).trans hmod
      have hlimit : s.hm.len = s.hm.nbuckets - s.hm.nbuckets / 4 :=
        Nat.le_antisymm hload ((grows_iff s.hm).mp hgrows)
      have hmoves : moves s.hm (.insert key value outcomes) = s.hm.len := by
        rw [moves, if_pos hgrows, h.growMoves_eq hok]
      have hpotential := potential_grown hlimit hlen'
      exact {
        map := hmap
        load := by
          rw [hnbuckets']
          exact load_grown hrep.nbuckets_pos hlimit hlen'
        len_le := by
          show hm'.len ≤ s.inserts + 1
          omega
        nbuckets_le := by
          right
          show 3 * hm'.nbuckets ≤ 8 * (s.inserts + 1)
          omega
        moved_le := by
          show 4 * (s.moved + _) + (8 * hm'.len - 3 * hm'.nbuckets) ≤ 11 * (s.inserts + 1)
          rw [hmoves, hnbuckets']
          omega }
  case neg =>
      have hnbuckets' : hm'.nbuckets = s.hm.nbuckets := hstays hgrows
      have hbelow : s.hm.len < s.hm.nbuckets - s.hm.nbuckets / 4 :=
        Nat.lt_of_not_le fun hle => hgrows ((grows_iff s.hm).mpr hle)
      have hmoves : moves s.hm (.insert key value outcomes) = 0 := by
        rw [moves, if_neg hgrows]
      exact {
        map := hmap
        load := by
          show hm'.len ≤ hm'.nbuckets - hm'.nbuckets / 4
          omega
        len_le := by
          show hm'.len ≤ s.inserts + 1
          omega
        nbuckets_le := by
          show hm'.nbuckets = n₀ ∨ 3 * hm'.nbuckets ≤ 8 * (s.inserts + 1)
          omega
        moved_le := by
          show 4 * (s.moved + _) + (8 * hm'.len - 3 * hm'.nbuckets) ≤ 11 * (s.inserts + 1)
          rw [hmoves, hnbuckets']
          omega }

/-- The step lemma of a deletion: it only lowers the load and the potential. -/
theorem Growth.delete (h : Growth law n₀ s) (key : κ) :
    ∃ s', meteredStep s (.delete key) = .ok s' ∧ Growth law n₀ s' := by
  obtain ⟨m, hrep⟩ := h.map
  obtain ⟨hm', hrun, h'⟩ := hrep.delete key
  obtain ⟨hlen', hnbuckets'⟩ := hmapDelete_size hrun
  have hload := h.load
  have hpaid := h.moved_le
  have hlenLe := h.len_le
  refine ⟨{ hm := hm', inserts := s.inserts, moved := s.moved }, ?_, ?_⟩
  · simp only [meteredStep, hmapStep, hrun]
    rfl
  exact {
    map := ⟨_, h'⟩
    load := by
      show hm'.len ≤ hm'.nbuckets - hm'.nbuckets / 4
      rw [hnbuckets']
      omega
    len_le := Nat.le_trans hlen' hlenLe
    nbuckets_le := by
      show hm'.nbuckets = n₀ ∨ _
      rw [hnbuckets']
      exact h.nbuckets_le
    moved_le := by
      show 4 * s.moved + (8 * hm'.len - 3 * hm'.nbuckets) ≤ 11 * s.inserts
      rw [hnbuckets']
      omega }

theorem Growth.step_ok (h : Growth law n₀ s) (call : HmapCall κ ν) (hguard : HasMemory s call) :
    ∃ s', meteredStep s call = .ok s' ∧ Growth law n₀ s' := by
  cases call with
  | insert key value outcomes => exact h.insert key value hguard.1 hguard.2
  | delete key => exact h.delete key

/-- A new map has no nodes and no potential. -/
theorem growth_init (law : LawfulKeys hashFunc keyCompare) {nbuckets : Nat}
    {outcomes : MallocOutcomes} (hpos : 1 ≤ nbuckets)
    (hmem : (hmapInit ν nbuckets hashFunc keyCompare outcomes).1.buckets ≠ []) :
    Growth law nbuckets
      { hm := (hmapInit ν nbuckets hashFunc keyCompare outcomes).1, inserts := 0, moved := 0 } where
  map := ⟨∅, represents_init law _ _ hpos hmem⟩
  load := Nat.zero_le _
  len_le := Nat.le_refl _
  nbuckets_le := .inl rfl
  moved_le := by
    show 4 * 0 + (8 * 0 - _) ≤ 11 * 0
    omega

/-- A client of a new map always gets its memory, and has fewer than `2 ^ 58` nodes. At the end of
its calls, at most three quarters of the buckets (rounded up) are in use, the buckets are those of
the start or at most `8 / 3` for each insertion, and the growths have moved at most `11 / 4` nodes
for each insertion. -/
theorem hmap_growth (law : LawfulKeys hashFunc keyCompare) (nbuckets : Nat)
    (outcomes : MallocOutcomes) (calls : List (HmapCall κ ν)) (hpos : 1 ≤ nbuckets)
    (hmem : (hmapInit ν nbuckets hashFunc keyCompare outcomes).1.buckets ≠ [])
    (hcalls : Guarded meteredStep HasMemory
      { hm := (hmapInit ν nbuckets hashFunc keyCompare outcomes).1, inserts := 0, moved := 0 }
      calls) :
    ∃ s, run meteredStep
        { hm := (hmapInit ν nbuckets hashFunc keyCompare outcomes).1, inserts := 0, moved := 0 }
        calls = .ok s ∧
      4 * hmapSize s.hm ≤ 3 * s.hm.nbuckets + 3 ∧
      (s.hm.nbuckets = nbuckets ∨ 3 * s.hm.nbuckets ≤ 8 * s.inserts) ∧
      4 * s.moved ≤ 11 * s.inserts := by
  obtain ⟨s, hrun, hs⟩ := run_total (Growth law nbuckets)
    (fun _ call h hguard => h.step_ok call hguard) calls _ (growth_init law hpos hmem) hcalls
  have hload := hs.load
  have hmoved := hs.moved_le
  refine ⟨s, hrun, ?_, hs.nbuckets_le, by omega⟩
  show 4 * s.hm.len ≤ 3 * s.hm.nbuckets + 3
  omega

/-- Two buckets and five insertions. The third and the fourth of them double the buckets, and move
two and three nodes. -/
theorem hmap_growth_five_insertions :
    ∃ s, run meteredStep
        { hm := (hmapInit UInt8 2 hmapIntHash hmapIntCmp []).1, inserts := 0, moved := 0 }
        ((List.range 5).map fun i => .insert (UInt32.ofNat i) 7 []) = .ok s ∧
      4 * hmapSize s.hm ≤ 3 * s.hm.nbuckets + 3 ∧
      (s.hm.nbuckets = 2 ∨ 3 * s.hm.nbuckets ≤ 8 * s.inserts) ∧
      4 * s.moved ≤ 11 * s.inserts :=
  hmap_growth lawfulKeys_int 2 [] _ (by decide) (by decide) (by decide)

end MustDb.Proofs.Libv
