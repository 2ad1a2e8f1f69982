import Mathlib.Order.Bounds.Basic
import MustDb.Lib.Except

/-!
# `MustDb.Lib.Run`: runs of a step function

A system is a step function `step : σ → op → Except ε σ`. `run` executes a list of operations,
oldest first, and stops at the first one that fails. `Guarded guard s ops` says that each operation
of the run meets `guard` in the state it starts from. `run_invariant` is the induction of every
safety proof: a property that each guarded step keeps holds at the end of each guarded run.
`run_total` is the induction of a proof that a run returns at all.

`Visits step s ops t` says that the run passes through `t`. A counter that every step raises to the
measure of its new state ends at the greatest measure of the run (`run_isGreatest`). An invariant
may speak about the measures of all states so far (`run_visited`).
-/

set_option autoImplicit false

namespace MustDb.Lib

variable {σ op ε : Type}

/-- The state after the operations `ops`, executed in list order. -/
def run (step : σ → op → Except ε σ) (s : σ) : List op → Except ε σ
  | [] => .ok s
  | o :: ops => do
      let s' ← step s o
      run step s' ops

/-- Each operation of the run from `s` meets `guard` in the state it starts from. -/
def Guarded (step : σ → op → Except ε σ) (guard : σ → op → Prop) : σ → List op → Prop
  | _, [] => True
  | s, o :: ops => guard s o ∧ ∀ s', step s o = .ok s' → Guarded step guard s' ops

variable {step : σ → op → Except ε σ}

/-- The guard of a run can be checked step by step. -/
instance decidableGuarded {guard : σ → op → Prop} [∀ s o, Decidable (guard s o)] :
    ∀ (s : σ) (ops : List op), Decidable (Guarded step guard s ops)
  | _, [] => isTrue trivial
  | s, o :: ops =>
      have : Decidable (∀ s', step s o = .ok s' → Guarded step guard s' ops) :=
        match step s o with
        | .error _ => isTrue fun _ h => by cases h
        | .ok t =>
            have : Decidable (Guarded step guard t ops) := decidableGuarded t ops
            decidable_of_iff (Guarded step guard t ops)
              ⟨fun h _ heq => Except.ok.inj heq ▸ h, fun h => h t rfl⟩
      inferInstanceAs (Decidable (_ ∧ _))

@[simp] theorem run_nil (s : σ) : run step s [] = .ok s := rfl

/-- The guard of a run whose first operation succeeds. -/
theorem Guarded.cons {guard : σ → op → Prop} {s t : σ} {o : op} {ops : List op}
    (hguard : guard s o) (hstep : step s o = .ok t) (hrest : Guarded step guard t ops) :
    Guarded step guard s (o :: ops) := by
  refine ⟨hguard, fun t' ht => ?_⟩
  rw [hstep] at ht
  cases ht
  exact hrest

/-- The first operation of a run that succeeds. -/
theorem run_cons_ok {s s' : σ} {o : op} {ops : List op} (h : run step s (o :: ops) = .ok s') :
    ∃ t, step s o = .ok t ∧ run step t ops = .ok s' :=
  bind_eq_ok.mp h

/-- A run whose first operation succeeds. -/
theorem run_cons {s t : σ} {o : op} (ops : List op) (h : step s o = .ok t) :
    run step s (o :: ops) = run step t ops := by
  simp [run, h]

/-- A run of two parts. -/
theorem run_append (s : σ) (ops ops' : List op) :
    run step s (ops ++ ops') = run step s ops >>= fun t => run step t ops' := by
  induction ops generalizing s with
  | nil => rfl
  | cons o ops ih =>
      cases hstep : step s o with
      | error e => simp [run, hstep]
      | ok t => rw [List.cons_append, run_cons _ hstep, run_cons _ hstep, ih]

/-- A guard on the operations alone. -/
theorem guarded_of_forall {legal : op → Prop} {ops : List op} (h : ∀ o ∈ ops, legal o) (s : σ) :
    Guarded step (fun _ => legal) s ops := by
  induction ops generalizing s with
  | nil => trivial
  | cons o ops ih =>
      have htail : ∀ o' ∈ ops, legal o' := fun o' hmem => h o' (List.mem_cons_of_mem o hmem)
      exact ⟨h o List.mem_cons_self, fun s' _ => ih htail s'⟩

/-- Two guards of one run. -/
theorem Guarded.and {guard guard' : σ → op → Prop} {ops : List op} {s : σ}
    (h : Guarded step guard s ops) (h' : Guarded step guard' s ops) :
    Guarded step (fun s o => guard s o ∧ guard' s o) s ops := by
  induction ops generalizing s with
  | nil => trivial
  | cons o ops ih => exact ⟨⟨h.1, h'.1⟩, fun t ht => ih (h.2 t ht) (h'.2 t ht)⟩

/-- A guarded step keeps `Inv`, so a guarded run does. -/
theorem run_invariant {guard : σ → op → Prop} (Inv : σ → Prop)
    (hstep : ∀ s o s', Inv s → guard s o → step s o = .ok s' → Inv s') :
    ∀ (ops : List op) (s s' : σ), Inv s → Guarded step guard s ops →
      run step s ops = .ok s' → Inv s' := by
  intro ops
  induction ops with
  | nil =>
      intro s s' hs _ h
      cases h
      exact hs
  | cons o ops ih =>
      intro s s' hs hg h
      obtain ⟨t, ht, hrest⟩ := run_cons_ok h
      exact ih t s' (hstep s o t hs hg.1 ht) (hg.2 t ht) hrest

/-- Steps that keep `Inv` and return make a run that returns. -/
theorem run_total {guard : σ → op → Prop} (Inv : σ → Prop)
    (hstep : ∀ s o, Inv s → guard s o → ∃ s', step s o = .ok s' ∧ Inv s') :
    ∀ (ops : List op) (s : σ), Inv s → Guarded step guard s ops →
      ∃ s', run step s ops = .ok s' ∧ Inv s' := by
  intro ops
  induction ops with
  | nil =>
      intro s hs _
      exact ⟨s, rfl, hs⟩
  | cons o ops ih =>
      intro s hs hg
      obtain ⟨t, ht, hinv⟩ := hstep s o hs hg.1
      obtain ⟨s', hrun, hs'⟩ := ih t hinv (hg.2 t ht)
      exact ⟨s', (run_cons ops ht).trans hrun, hs'⟩

/-- Steps that keep `Inv` and avoid a fault make a run that avoids it. -/
theorem run_avoids {guard : σ → op → Prop} {bad : ε} (Inv : σ → Prop)
    (hstep : ∀ s o, Inv s → guard s o → Avoids bad (step s o) Inv) :
    ∀ (ops : List op) (s : σ), Inv s → Guarded step guard s ops →
      Avoids bad (run step s ops) Inv := by
  intro ops
  induction ops with
  | nil =>
      intro s hs _
      exact hs
  | cons o ops ih =>
      intro s hs hg
      cases hrun : step s o with
      | error e =>
          have herror := hstep s o hs hg.1
          rw [hrun] at herror
          rw [run, hrun]
          exact herror
      | ok t =>
          rw [run_cons ops hrun]
          exact ih t ((hstep s o hs hg.1).of_ok hrun) (hg.2 t hrun)

/-- The run from `s` by the operations `ops` passes through `t`. -/
def Visits (step : σ → op → Except ε σ) (s : σ) (ops : List op) (t : σ) : Prop :=
  ∃ done, done <+: ops ∧ run step s done = .ok t

theorem visits_self (s : σ) (ops : List op) : Visits step s ops s :=
  ⟨[], List.nil_prefix, rfl⟩

theorem visits_nil {s t : σ} (h : Visits step s [] t) : t = s := by
  obtain ⟨done, hdone, hrun⟩ := h
  rw [List.prefix_nil.mp hdone] at hrun
  cases hrun
  rfl

/-- The states of a run are its first one and those of the rest. -/
theorem visits_cons {s t u : σ} {o : op} {ops : List op} (hstep : step s o = .ok t) :
    Visits step s (o :: ops) u ↔ u = s ∨ Visits step t ops u := by
  constructor
  · rintro ⟨done, hdone, hrun⟩
    cases done with
    | nil =>
        cases hrun
        exact Or.inl rfl
    | cons o' done =>
        obtain ⟨rfl, hprefix⟩ := List.cons_prefix_cons.mp hdone
        rw [run_cons done hstep] at hrun
        exact Or.inr ⟨done, hprefix, hrun⟩
  · rintro (rfl | ⟨done, hdone, hrun⟩)
    · exact visits_self _ _
    · exact ⟨o :: done, List.cons_prefix_cons.mpr ⟨rfl, hdone⟩, (run_cons done hstep).trans hrun⟩

/-- A running maximum: `peak` goes up with `measure`, so at the end it is at least every measure on
the way, and it is the first peak or one of them. -/
theorem run_max {guard : σ → op → Prop} (Inv : σ → Prop) (measure peak : σ → Nat)
    (hstep : ∀ s o s', Inv s → guard s o → step s o = .ok s' →
      Inv s' ∧ peak s' = max (peak s) (measure s')) :
    ∀ (ops : List op) (s s' : σ), Inv s → measure s ≤ peak s → Guarded step guard s ops →
      run step s ops = .ok s' →
      (∀ t, Visits step s ops t → measure t ≤ peak s') ∧ peak s ≤ peak s' ∧
        (peak s' = peak s ∨ ∃ t, Visits step s ops t ∧ peak s' = measure t) := by
  intro ops
  induction ops with
  | nil =>
      intro s s' _ hle _ hrun
      cases hrun
      refine ⟨fun t ht => ?_, Nat.le_refl _, Or.inl rfl⟩
      rw [visits_nil ht]
      exact hle
  | cons o ops ih =>
      intro s s' hs hle hg hrun
      obtain ⟨t, ht, hrest⟩ := run_cons_ok hrun
      obtain ⟨hinv, hpeak⟩ := hstep s o t hs hg.1 ht
      obtain ⟨hbound, hmono, hreached⟩ :=
        ih t s' hinv (hpeak ▸ Nat.le_max_right _ _) (hg.2 t ht) hrest
      -- one turn moves the peak up to `measure t` or leaves it
      have hst : peak s ≤ peak t := hpeak ▸ Nat.le_max_left _ _
      refine ⟨fun u hu => ?_, hst.trans hmono, ?_⟩
      · rcases (visits_cons ht).mp hu with rfl | hu
        · exact hle.trans (hst.trans hmono)
        · exact hbound u hu
      · -- where the last peak was reached: the first state, the next one, or behind it
        rcases hreached with heq | ⟨u, hu, heq⟩
        · -- the peak has not moved since `t`, so it comes from `s` or from `t`
          rcases Nat.le_total (measure t) (peak s) with h | h
          · rw [Nat.max_eq_left h] at hpeak
            exact Or.inl (heq.trans hpeak)
          · rw [Nat.max_eq_right h] at hpeak
            exact Or.inr ⟨t, (visits_cons ht).mpr (Or.inr (visits_self t ops)), heq.trans hpeak⟩
        · exact Or.inr ⟨u, (visits_cons ht).mpr (Or.inr hu), heq⟩

/-- An invariant that speaks about the measures of the states so far, and that each guarded step
keeps with the measure of its new state. -/
theorem run_visited {α : Type} {guard : σ → op → Prop} (measure : σ → α) (Inv : Set α → σ → Prop)
    (hstep : ∀ seen s o s', Inv seen s → guard s o → step s o = .ok s' →
      Inv (insert (measure s') seen) s') :
    ∀ (ops : List op) (seen : Set α) (s s' : σ), Inv (insert (measure s) seen) s →
      Guarded step guard s ops → run step s ops = .ok s' →
      Inv (seen ∪ {n | ∃ t, Visits step s ops t ∧ n = measure t}) s' := by
  intro ops
  induction ops with
  | nil =>
      intro seen s s' hs _ hrun
      cases hrun
      have hset : {n | ∃ t, Visits step s [] t ∧ n = measure t} = {measure s} := by
        ext n
        constructor
        · rintro ⟨t, ht, rfl⟩
          rw [visits_nil ht]
          rfl
        · rintro rfl
          exact ⟨s, visits_self s [], rfl⟩
      rw [hset, Set.union_singleton]
      exact hs
  | cons o ops ih =>
      intro seen s s' hs hg hrun
      obtain ⟨t, ht, hrest⟩ := run_cons_ok hrun
      have hinv := ih (insert (measure s) seen) t s' (hstep _ s o t hs hg.1 ht) (hg.2 t ht) hrest
      -- the states of the run are the first one and those of the rest
      have hset : {n | ∃ u, Visits step s (o :: ops) u ∧ n = measure u}
          = insert (measure s) {n | ∃ u, Visits step t ops u ∧ n = measure u} := by
        ext n
        constructor
        · rintro ⟨u, hu, rfl⟩
          rcases (visits_cons ht).mp hu with rfl | hu
          · exact Or.inl rfl
          · exact Or.inr ⟨u, hu, rfl⟩
        · rintro (rfl | ⟨u, hu, rfl⟩)
          · exact ⟨s, visits_self s _, rfl⟩
          · exact ⟨u, (visits_cons ht).mpr (Or.inr hu), rfl⟩
      rw [hset, Set.union_insert, ← Set.insert_union]
      exact hinv

theorem run_isGreatest {guard : σ → op → Prop} (Inv : σ → Prop) (measure peak : σ → Nat)
    (hstep : ∀ s o s', Inv s → guard s o → step s o = .ok s' →
      Inv s' ∧ peak s' = max (peak s) (measure s'))
    {ops : List op} {s s' : σ} (hs : Inv s) (hpeak : peak s = measure s)
    (hg : Guarded step guard s ops) (hrun : run step s ops = .ok s') :
    IsGreatest {n | ∃ t, Visits step s ops t ∧ n = measure t} (peak s') := by
  obtain ⟨hbound, -, hreached⟩ :=
    run_max Inv measure peak hstep ops s s' hs hpeak.symm.le hg hrun
  constructor
  · rcases hreached with heq | ⟨t, ht, heq⟩
    · exact ⟨s, visits_self s ops, heq.trans hpeak⟩
    · exact ⟨t, ht, heq⟩
  · rintro n ⟨t, ht, rfl⟩
    exact hbound t ht

end MustDb.Lib
