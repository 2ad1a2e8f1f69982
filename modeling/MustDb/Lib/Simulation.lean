import MustDb.Lib.Run

/-!
# `MustDb.Lib.Simulation`: runs that follow a specification

A system is a step function `step : σ → op → Except ε (σ × out)` with results. `runResults` executes
a list of operations and collects the results. A specification is a relation
`spec : τ → op → out → τ → Prop` on abstract states, and `SpecRun` is a run of it.

`run_simulation` is the induction of every refinement proof here: when each step from related states
succeeds, with a result that the specification allows and related states after it, then so does each
run. `guarded_simulation` is the same for runs whose steps all meet a guard.
-/

set_option autoImplicit false

namespace MustDb.Lib

variable {σ τ op out ε : Type}

/-- The state after the operations `ops`, and their results. -/
def runResults (step : σ → op → Except ε (σ × out)) (s : σ) : List op → Except ε (σ × List out)
  | [] => .ok (s, [])
  | o :: ops => do
      let (s', result) ← step s o
      let (s'', results) ← runResults step s' ops
      return (s'', result :: results)

/-- The abstract run from `t` by the operations, with these results. -/
inductive SpecRun (spec : τ → op → out → τ → Prop) : τ → List op → List out → τ → Prop where
  | nil (t : τ) : SpecRun spec t [] [] t
  | cons {t t' t'' : τ} {o : op} {result : out} {ops : List op} {results : List out}
      (step : spec t o result t') (rest : SpecRun spec t' ops results t'') :
      SpecRun spec t (o :: ops) (result :: results) t''

variable {step : σ → op → Except ε (σ × out)} {spec : τ → op → out → τ → Prop}

/-- The first operation of a run. -/
theorem runResults_cons {s s' s'' : σ} {o : op} {ops : List op} {result : out}
    {results : List out} (hstep : step s o = .ok (s', result))
    (hrest : runResults step s' ops = .ok (s'', results)) :
    runResults step s (o :: ops) = .ok (s'', result :: results) := by
  simp only [runResults, hstep, ok_bind, hrest]
  rfl

/-- A step that keeps `Inv` makes runs that keep it. -/
theorem runResults_invariant (Inv : σ → Prop)
    (hstep : ∀ s o s' result, Inv s → step s o = .ok (s', result) → Inv s') :
    ∀ {ops : List op} {s s' : σ} {results : List out}, Inv s →
      runResults step s ops = .ok (s', results) → Inv s' := by
  intro ops
  induction ops with
  | nil =>
      intro s s' results hs h
      cases h
      exact hs
  | cons o ops ih =>
      intro s s' results hs h
      obtain ⟨⟨t, result⟩, ht, h⟩ := bind_eq_ok.mp h
      obtain ⟨⟨s₁, rest⟩, hrest, h⟩ := bind_eq_ok.mp h
      cases h
      exact ih (hstep s o t result hs ht) hrest

/-- Steps that keep `Inv` and return make a run that returns. -/
theorem runResults_total (Inv : σ → Prop) (legal : op → Prop)
    (hstep : ∀ s o, Inv s → legal o → ∃ s' result, step s o = .ok (s', result) ∧ Inv s') :
    ∀ (ops : List op) (s : σ), Inv s → (∀ o ∈ ops, legal o) →
      ∃ s' results, runResults step s ops = .ok (s', results) ∧ Inv s' := by
  intro ops
  induction ops with
  | nil =>
      intro s hs _
      exact ⟨s, [], rfl, hs⟩
  | cons o ops ih =>
      intro s hs hlegal
      obtain ⟨t, result, ht, hinv⟩ := hstep s o hs (hlegal o List.mem_cons_self)
      obtain ⟨s', results, hrun, hs'⟩ :=
        ih t hinv fun o' hmem => hlegal o' (List.mem_cons_of_mem o hmem)
      exact ⟨s', result :: results, runResults_cons ht hrun, hs'⟩

/-- A specification whose next state is a function of the step has one state after a run. -/
theorem SpecRun.eq_foldl {f : τ → op → out → τ}
    (hspec : ∀ t o result t', spec t o result t' → t' = f t o result)
    {t t' : τ} {ops : List op} {results : List out} (h : SpecRun spec t ops results t') :
    t' = (ops.zip results).foldl (fun t entry => f t entry.1 entry.2) t := by
  induction h with
  | nil t => rfl
  | cons step _ ih => rw [ih, hspec _ _ _ _ step, List.zip_cons_cons, List.foldl_cons]

/-- The state after one operation, without its result. -/
def nextState (step : σ → op → Except ε (σ × out)) (s : σ) (o : op) : Except ε σ := do
  let (s', _) ← step s o
  return s'

/-- Steps that follow the specification where their guard holds make guarded runs that follow it. -/
theorem guarded_simulation (step : σ → op → Except ε (σ × out)) (spec : τ → op → out → τ → Prop)
    (guard : σ → op → Prop) (R : σ → τ → Prop)
    (hstep : ∀ s t o, R s t → guard s o →
      ∃ s' result t', step s o = .ok (s', result) ∧ spec t o result t' ∧ R s' t') :
    ∀ (ops : List op) (s : σ) (t : τ), R s t → Guarded (nextState step) guard s ops →
      ∃ s' results t', runResults step s ops = .ok (s', results) ∧ SpecRun spec t ops results t' ∧
        R s' t' := by
  intro ops
  induction ops with
  | nil =>
      intro s t h _
      exact ⟨s, [], t, rfl, .nil t, h⟩
  | cons o ops ih =>
      intro s t h hguard
      obtain ⟨s', result, t', hrun, hspec, h'⟩ := hstep s t o h hguard.1
      have hnext : nextState step s o = .ok s' := by
        rw [nextState, hrun]
        rfl
      obtain ⟨s'', results, t'', hruns, hspecs, h''⟩ := ih s' t' h' (hguard.2 s' hnext)
      exact ⟨s'', result :: results, t'', runResults_cons hrun hruns, .cons hspec hspecs, h''⟩

/-- Steps that follow the specification make runs that follow it. -/
theorem run_simulation (step : σ → op → Except ε (σ × out)) (spec : τ → op → out → τ → Prop)
    (R : σ → τ → Prop)
    (hstep : ∀ s t o, R s t →
      ∃ s' result t', step s o = .ok (s', result) ∧ spec t o result t' ∧ R s' t')
    (ops : List op) (s : σ) (t : τ) (h : R s t) :
    ∃ s' results t', runResults step s ops = .ok (s', results) ∧ SpecRun spec t ops results t' ∧
      R s' t' :=
  guarded_simulation step spec (fun _ _ => True) R (fun s t o h _ => hstep s t o h) ops s t h
    (guarded_of_forall (fun _ _ => trivial) s)

end MustDb.Lib
