import Mathlib.Data.List.Perm.Subperm
import Mathlib.Logic.Function.Basic
import MustDb.Lib.Run

/-!
# `MustDb.Lib.Linear`: linearizable histories

Threads share an object and call its operations. The history is what a client sees of it: when a
thread begins a call (`Event.invoke`), and when it gets the result (`Event.respond`). The object has
a sequential specification `spec : σ → γ → σ × ρ`.

A history is linearizable if each call that has returned takes effect at one moment between its two
events, and the calls in the order of these moments, one after the other, give the same results.
`Timeline history taken phase` places the moments: `taken` are the calls in their order, and `phase`
says where each thread stands. A call in progress may have taken effect.

`Moves` is the simulation that shows it: each step of the program is silent, begins a call, lets one
take effect, or returns. What a client may conclude is below: the results are those of the calls in
the sequential order (`Timeline.responses_subperm`, `Timeline.responses_perm`), and a call that
begins after another has returned takes effect after it (`Timeline.real_time`).
-/

set_option autoImplicit false

namespace MustDb.Lib

variable {γ ρ σ : Type}

/-! ### Histories -/

/-- What a client sees of a shared object. -/
inductive Event (γ ρ : Type) where
  /-- A thread begins a call. -/
  | invoke (thread : Nat) (call : γ)
  /-- A thread gets the result of its call. -/
  | respond (thread : Nat) (call : γ) (result : ρ)
  deriving DecidableEq

/-- A call with its thread and its result. -/
abbrev Taken (γ ρ : Type) := Nat × γ × ρ

/-- The calls that have returned. -/
def responses (history : List (Event γ ρ)) : List (Taken γ ρ) :=
  history.filterMap fun event =>
    match event with
    | .invoke _ _ => none
    | .respond thread call result => some (thread, call, result)

@[simp] theorem responses_nil : responses ([] : List (Event γ ρ)) = [] := rfl

@[simp] theorem responses_append (history more : List (Event γ ρ)) :
    responses (history ++ more) = responses history ++ responses more :=
  List.filterMap_append

@[simp] theorem responses_invoke (thread : Nat) (call : γ) (history : List (Event γ ρ)) :
    responses (.invoke thread call :: history) = responses history := rfl

@[simp] theorem responses_respond (thread : Nat) (call : γ) (result : ρ)
    (history : List (Event γ ρ)) :
    responses (.respond thread call result :: history)
      = (thread, call, result) :: responses history := rfl

/-- Where a thread stands. -/
inductive Phase (γ ρ : Type) where
  | idle
  /-- In a call that has not taken effect. -/
  | called (call : γ)
  /-- In a call that has taken effect. -/
  | done (call : γ) (result : ρ)
  deriving DecidableEq

/-- The call of a thread that has taken effect and not returned. -/
def Phase.taken (thread : Nat) : Phase γ ρ → List (Taken γ ρ)
  | .done call result => [(thread, call, result)]
  | _ => []

@[simp] theorem Phase.taken_idle (thread : Nat) :
    (Phase.idle : Phase γ ρ).taken thread = [] := rfl

@[simp] theorem Phase.taken_called (thread : Nat) (call : γ) :
    (Phase.called call : Phase γ ρ).taken thread = [] := rfl

@[simp] theorem Phase.taken_done (thread : Nat) (call : γ) (result : ρ) :
    (Phase.done call result).taken thread = [(thread, call, result)] := rfl

/-- Each call of the history takes effect once, between its two events. -/
inductive Timeline : List (Event γ ρ) → List (Taken γ ρ) → (Nat → Phase γ ρ) → Prop where
  | nil : Timeline [] [] fun _ => .idle
  | invoke {history : List (Event γ ρ)} {taken : List (Taken γ ρ)} {phase : Nat → Phase γ ρ}
      {thread : Nat} (h : Timeline history taken phase) (call : γ) (idle : phase thread = .idle) :
      Timeline (history ++ [.invoke thread call]) taken
        (Function.update phase thread (.called call))
  | effect {history : List (Event γ ρ)} {taken : List (Taken γ ρ)} {phase : Nat → Phase γ ρ}
      {thread : Nat} {call : γ} (h : Timeline history taken phase) (result : ρ)
      (called : phase thread = .called call) :
      Timeline history (taken ++ [(thread, call, result)])
        (Function.update phase thread (.done call result))
  | respond {history : List (Event γ ρ)} {taken : List (Taken γ ρ)} {phase : Nat → Phase γ ρ}
      {thread : Nat} {call : γ} {result : ρ} (h : Timeline history taken phase)
      (done : phase thread = .done call result) :
      Timeline (history ++ [.respond thread call result]) taken
        (Function.update phase thread .idle)

/-- The calls give these results when they are made one after the other. -/
inductive Replays (spec : σ → γ → σ × ρ) (start : σ) : List (Taken γ ρ) → σ → Prop where
  | nil : Replays spec start [] start
  | snoc {taken : List (Taken γ ρ)} {s : σ} (h : Replays spec start taken s) (thread : Nat)
      (call : γ) : Replays spec start (taken ++ [(thread, call, (spec s call).2)]) (spec s call).1

/-- The history is one that the sequential object explains. -/
def Linearizable (spec : σ → γ → σ × ρ) (start : σ) (history : List (Event γ ρ)) : Prop :=
  ∃ taken phase s, Timeline history taken phase ∧ Replays spec start taken s

/-! ### The simulation -/

/-- How a program with shared state `τ` shows its history, its threads and its object. -/
structure View (τ σ γ ρ : Type) where
  history : τ → List (Event γ ρ)
  phase : τ → Nat → Phase γ ρ
  object : τ → σ

/-- A step of the program, in terms of the object. -/
inductive Moves {τ : Type} (spec : σ → γ → σ × ρ) (view : View τ σ γ ρ) (s s' : τ) : Prop where
  | silent (history_eq : view.history s' = view.history s) (phase_eq : view.phase s' = view.phase s)
      (object_eq : view.object s' = view.object s)
  | invoke (thread : Nat) (call : γ) (idle : view.phase s thread = .idle)
      (history_eq : view.history s' = view.history s ++ [.invoke thread call])
      (phase_eq : view.phase s' = Function.update (view.phase s) thread (.called call))
      (object_eq : view.object s' = view.object s)
  | effect (thread : Nat) (call : γ) (called : view.phase s thread = .called call)
      (history_eq : view.history s' = view.history s)
      (phase_eq : view.phase s' = Function.update (view.phase s) thread
        (.done call (spec (view.object s) call).2))
      (object_eq : view.object s' = (spec (view.object s) call).1)
  | respond (thread : Nat) (call : γ) (result : ρ) (done : view.phase s thread = .done call result)
      (history_eq : view.history s' = view.history s ++ [.respond thread call result])
      (phase_eq : view.phase s' = Function.update (view.phase s) thread .idle)
      (object_eq : view.object s' = view.object s)

/-- The order in which the calls of a state have taken effect. -/
def Explained {τ : Type} (spec : σ → γ → σ × ρ) (view : View τ σ γ ρ) (start : σ) (s : τ) : Prop :=
  ∃ taken, Timeline (view.history s) taken (view.phase s) ∧
    Replays spec start taken (view.object s)

section Simulation
variable {τ op ε : Type} {spec : σ → γ → σ × ρ} {view : View τ σ γ ρ}

/-- A step in terms of the object keeps the history explained. -/
theorem Moves.explained {start : σ} {s s' : τ} (hmoves : Moves spec view s s')
    (h : Explained spec view start s) : Explained spec view start s' := by
  obtain ⟨taken, htimeline, hreplays⟩ := h
  cases hmoves with
  | silent history_eq phase_eq object_eq =>
      refine ⟨taken, ?_, ?_⟩
      · rw [history_eq, phase_eq]
        exact htimeline
      · rw [object_eq]
        exact hreplays
  | invoke thread call idle history_eq phase_eq object_eq =>
      refine ⟨taken, ?_, ?_⟩
      · rw [history_eq, phase_eq]
        exact htimeline.invoke call idle
      · rw [object_eq]
        exact hreplays
  | effect thread call called history_eq phase_eq object_eq =>
      refine ⟨taken ++ [(thread, call, (spec (view.object s) call).2)], ?_, ?_⟩
      · rw [history_eq, phase_eq]
        exact htimeline.effect _ called
      · rw [object_eq]
        exact hreplays.snoc thread call
  | respond thread call result done history_eq phase_eq object_eq =>
      refine ⟨taken, ?_, ?_⟩
      · rw [history_eq, phase_eq]
        exact htimeline.respond done
      · rw [object_eq]
        exact hreplays

/-- A program whose steps are all in terms of the object has linearizable histories only. -/
theorem run_explained {step : τ → op → Except ε τ}
    (hstep : ∀ s o s', step s o = .ok s' → Moves spec view s s') {s s' : τ} {ops : List op}
    (hhistory : view.history s = []) (hphase : view.phase s = fun _ => .idle)
    (hrun : run step s ops = .ok s') : Explained spec view (view.object s) s' := by
  have hstart : Explained spec view (view.object s) s := by
    refine ⟨[], ?_, .nil⟩
    rw [hhistory, hphase]
    exact .nil
  have hguarded : Guarded step (fun _ _ => True) s ops :=
    guarded_of_forall (fun _ _ => trivial) s
  exact run_invariant (Explained spec view (view.object s))
    (fun t o t' h _ hok => (hstep t o t' hok).explained h) ops s s' hstart hguarded hrun

theorem Explained.linearizable {start : σ} {s : τ} (h : Explained spec view start s) :
    Linearizable spec start (view.history s) := by
  obtain ⟨taken, htimeline, hreplays⟩ := h
  exact ⟨taken, view.phase s, view.object s, htimeline, hreplays⟩

end Simulation

/-! ### What a client may conclude -/

/-- The calls of one thread. -/
def ofThread (thread : Nat) (taken : List (Taken γ ρ)) : List (Taken γ ρ) :=
  taken.filter fun entry => entry.1 = thread

@[simp] theorem ofThread_append (thread : Nat) (taken more : List (Taken γ ρ)) :
    ofThread thread (taken ++ more) = ofThread thread taken ++ ofThread thread more :=
  List.filter_append _ _

@[simp] theorem ofThread_same (thread : Nat) (call : γ) (result : ρ) :
    ofThread thread [(thread, call, result)] = [(thread, call, result)] := by
  simp [ofThread]

theorem ofThread_ne {thread other : Nat} (h : other ≠ thread) (call : γ) (result : ρ) :
    ofThread thread [(other, call, result)] = [] := by
  simp [ofThread, h]

section Timeline
variable {history : List (Event γ ρ)} {taken : List (Taken γ ρ)} {phase : Nat → Phase γ ρ}

/-- The calls of a thread take effect in the order in which they return. At most one is ahead. -/
theorem Timeline.ofThread_eq (h : Timeline history taken phase) (thread : Nat) :
    ofThread thread taken = ofThread thread (responses history) ++ (phase thread).taken thread := by
  induction h with
  | nil => rfl
  | @invoke history taken phase moved h call idle ih =>
      by_cases hmoved : moved = thread
      · subst hmoved
        simpa [idle] using ih
      · simpa [Function.update_of_ne (Ne.symm hmoved)] using ih
  | @effect history taken phase moved call h result called ih =>
      by_cases hmoved : moved = thread
      · subst hmoved
        simpa [called] using ih
      · simpa [Function.update_of_ne (Ne.symm hmoved), ofThread_ne hmoved] using ih
  | @respond history taken phase moved call result h done ih =>
      by_cases hmoved : moved = thread
      · subst hmoved
        simpa [done] using ih
      · simpa [Function.update_of_ne (Ne.symm hmoved), ofThread_ne hmoved] using ih

theorem count_ofThread [DecidableEq γ] [DecidableEq ρ] (entry : Taken γ ρ)
    (taken : List (Taken γ ρ)) : (ofThread entry.1 taken).count entry = taken.count entry :=
  List.count_filter (by simp)

/-- Each call that has returned has taken effect, once. -/
theorem Timeline.responses_subperm (h : Timeline history taken phase) :
    (responses history).Subperm taken := by
  classical
  rw [List.subperm_ext_iff]
  intro entry _
  rw [← count_ofThread entry (responses history), ← count_ofThread entry taken,
    h.ofThread_eq entry.1, List.count_append]
  exact Nat.le_add_right _ _

/-- When no call is in progress, the calls that have taken effect are those that have returned. -/
theorem Timeline.responses_perm (h : Timeline history taken phase)
    (hidle : ∀ thread, phase thread = .idle) : (responses history).Perm taken := by
  classical
  rw [List.perm_iff_count]
  intro entry
  rw [← count_ofThread entry (responses history), ← count_ofThread entry taken,
    h.ofThread_eq entry.1, hidle entry.1, Phase.taken_idle, List.append_nil]

/-- When a thread begins a call, the timeline is at a moment at which the thread is idle. -/
theorem Timeline.before_invoke {before after : List (Event γ ρ)} {thread : Nat} {call : γ}
    (h : Timeline history taken phase) (heq : history = before ++ .invoke thread call :: after) :
    ∃ first rest earlier, Timeline before first earlier ∧ earlier thread = .idle ∧
      taken = first ++ rest := by
  induction h generalizing after with
  | nil => simp at heq
  | @invoke history taken phase moved h call' idle ih =>
      rcases List.eq_nil_or_concat after with rfl | ⟨after, event, rfl⟩
      · -- this is the call
        obtain ⟨rfl, hevent⟩ := List.append_inj' heq rfl
        simp only [List.cons.injEq, Event.invoke.injEq, and_true] at hevent
        obtain ⟨rfl, rfl⟩ := hevent
        exact ⟨taken, [], phase, h, idle, (List.append_nil taken).symm⟩
      · rw [List.concat_eq_append, ← List.cons_append, ← List.append_assoc] at heq
        exact ih (List.append_inj' heq rfl).1
  | @effect history taken phase moved call' h result called ih =>
      obtain ⟨first, rest, earlier, hfirst, hidle, rfl⟩ := ih heq
      exact ⟨first, rest ++ [(moved, call', result)], earlier, hfirst, hidle,
        List.append_assoc _ _ _⟩
  | @respond history taken phase moved call' result h done ih =>
      rcases List.eq_nil_or_concat after with rfl | ⟨after, event, rfl⟩
      · obtain ⟨-, hevent⟩ := List.append_inj' heq rfl
        simp at hevent
      · rw [List.concat_eq_append, ← List.cons_append, ← List.append_assoc] at heq
        exact ih (List.append_inj' heq rfl).1

/-- The real-time order: what a thread gets from a call that it begins after others have returned
has taken effect after them. -/
theorem Timeline.real_time {before after : List (Event γ ρ)} {thread : Nat} {call : γ}
    (h : Timeline (before ++ .invoke thread call :: after) taken phase) :
    ∃ first rest, taken = first ++ rest ∧ (∀ entry ∈ responses before, entry ∈ first) ∧
      ∀ call' result, (thread, call', result) ∈ responses after →
        (thread, call', result) ∈ rest := by
  obtain ⟨first, rest, earlier, hfirst, hidle, rfl⟩ := h.before_invoke rfl
  refine ⟨first, rest, rfl, fun entry hmem => hfirst.responses_subperm.subset hmem, ?_⟩
  intro call' result hmem
  -- before the call the thread has nothing ahead, so the rest holds all that it gets later
  have hall := h.ofThread_eq thread
  have hearly := hfirst.ofThread_eq thread
  rw [hidle, Phase.taken_idle, List.append_nil] at hearly
  rw [ofThread_append, hearly, responses_append, responses_invoke, ofThread_append,
    List.append_assoc] at hall
  have hrest := List.append_cancel_left hall
  have hlater : (thread, call', result) ∈ ofThread thread rest := by
    rw [hrest]
    exact List.mem_append_left _ (List.mem_filter.mpr ⟨hmem, by simp⟩)
  exact (List.mem_filter.mp hlater).1

/-- A thread that moves to no call was in its call before. -/
theorem called_of_update {moved thread : Nat} {next : Phase γ ρ} {call : γ}
    (hnext : ∀ call', next ≠ .called call')
    (h : Function.update phase moved next thread = .called call) : phase thread = .called call := by
  by_cases hmoved : thread = moved
  · subst hmoved
    rw [Function.update_self] at h
    exact absurd h (hnext call)
  · rwa [Function.update_of_ne hmoved] at h

/-- A property of all calls that begin is one of all calls that take effect. -/
theorem Timeline.forall_taken {p : γ → Prop} (h : Timeline history taken phase)
    (hinvoked : ∀ thread call, .invoke thread call ∈ history → p call) :
    (∀ entry ∈ taken, p entry.2.1) ∧ ∀ thread call, phase thread = .called call → p call := by
  induction h with
  | nil => exact ⟨fun _ hmem => absurd hmem List.not_mem_nil, fun _ _ hcalled => by cases hcalled⟩
  | @invoke history taken phase moved h call idle ih =>
      obtain ⟨htaken, hcalled⟩ := ih fun t c hmem => hinvoked t c (List.mem_append_left _ hmem)
      refine ⟨htaken, fun thread call' hphase => ?_⟩
      by_cases hmoved : thread = moved
      · subst hmoved
        rw [Function.update_self] at hphase
        cases hphase
        exact hinvoked thread call (List.mem_append_right _ List.mem_cons_self)
      · rw [Function.update_of_ne hmoved] at hphase
        exact hcalled thread call' hphase
  | @effect history taken phase moved call h result called ih =>
      obtain ⟨htaken, hcalled⟩ := ih hinvoked
      refine ⟨fun entry hmem => ?_, fun thread call' hphase => ?_⟩
      · rcases List.mem_append.mp hmem with hmem | hmem
        · exact htaken entry hmem
        · rw [List.mem_singleton.mp hmem]
          exact hcalled moved call called
      · exact hcalled thread call' (called_of_update (fun _ hnext => by cases hnext) hphase)
  | @respond history taken phase moved call result h done ih =>
      obtain ⟨htaken, hcalled⟩ := ih fun t c hmem => hinvoked t c (List.mem_append_left _ hmem)
      exact ⟨htaken, fun thread call' hphase =>
        hcalled thread call' (called_of_update (fun _ hnext => by cases hnext) hphase)⟩

end Timeline

/-- The first calls of a sequence, and the others. -/
theorem Replays.split {spec : σ → γ → σ × ρ} {start s : σ} {taken first rest : List (Taken γ ρ)}
    (h : Replays spec start taken s) (heq : taken = first ++ rest) :
    ∃ middle, Replays spec start first middle ∧ Replays spec middle rest s := by
  induction h generalizing rest with
  | nil =>
      obtain ⟨rfl, rfl⟩ := List.append_eq_nil_iff.mp heq.symm
      exact ⟨start, .nil, .nil⟩
  | @snoc taken s h thread call ih =>
      rcases List.eq_nil_or_concat rest with rfl | ⟨rest, entry, rfl⟩
      · rw [List.append_nil] at heq
        exact ⟨_, heq ▸ h.snoc thread call, .nil⟩
      · rw [List.concat_eq_append, ← List.append_assoc] at heq
        obtain ⟨hinit, hlast⟩ := List.append_inj' heq rfl
        obtain ⟨middle, hfirst, hrest⟩ := ih hinit
        rw [List.concat_eq_append, ← List.singleton_inj.mp hlast]
        exact ⟨middle, hfirst, hrest.snoc thread call⟩

end MustDb.Lib
