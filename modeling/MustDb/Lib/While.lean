import MustDb.Lib.Except

/-!
# `MustDb.Lib.While`: bounded `while` loops

`whileLoop timeout cond body fuel s` runs `while (cond) body` from the state `s` for at most
`fuel` turns of the body. The body can fail. A loop whose condition still holds when the fuel is
used up returns `timeout`, so a loop that never ends returns `timeout` at every fuel.

The rules:

* `whileLoop_of_false` and `whileLoop_of_true` unfold one turn;
* `whileLoop_invariant` is the partial-correctness rule: an invariant of the body holds at
  the exit, where the condition is false;
* `whileLoop_diverges` is the divergence rule: an invariant under which the condition holds and the
  body succeeds makes the loop time out at every fuel.
-/

set_option autoImplicit false

namespace MustDb.Lib

variable {σ ε : Type} {timeout : ε} {cond : σ → Bool} {body : σ → Except ε σ}

/-- `while (cond) body` from the state `s`, with at most `fuel` turns of the body. -/
def whileLoop (timeout : ε) (cond : σ → Bool) (body : σ → Except ε σ) : Nat → σ → Except ε σ
  | 0, s => if cond s then .error timeout else .ok s
  | fuel + 1, s =>
      if cond s then do
        let s' ← body s
        whileLoop timeout cond body fuel s'
      else .ok s

/-- A loop whose condition is false leaves at once, at any fuel. -/
theorem whileLoop_of_false (fuel : Nat) {s : σ} (h : cond s = false) :
    whileLoop timeout cond body fuel s = .ok s := by
  cases fuel <;> simp [whileLoop, h]

/-- One turn of a loop whose condition is true. -/
theorem whileLoop_of_true (fuel : Nat) {s s' : σ} (h : cond s = true) (hb : body s = .ok s') :
    whileLoop timeout cond body (fuel + 1) s = whileLoop timeout cond body fuel s' := by
  simp [whileLoop, h, hb]

/-- An error of the body ends the loop with that error. -/
theorem whileLoop_of_error (fuel : Nat) {s : σ} {e : ε} (h : cond s = true)
    (hb : body s = .error e) :
    whileLoop timeout cond body (fuel + 1) s = .error e := by
  simp [whileLoop, h, hb]

/-- The partial-correctness rule. Induction on the fuel: each turn keeps the invariant, and the
loop returns only in a state where the condition is false. -/
theorem whileLoop_invariant (Inv : σ → Prop)
    (hbody : ∀ s s', Inv s → cond s = true → body s = .ok s' → Inv s') :
    ∀ (fuel : Nat) (s s' : σ), Inv s → whileLoop timeout cond body fuel s = .ok s' →
      Inv s' ∧ cond s' = false := by
  intro fuel
  induction fuel with
  | zero =>
      intro s s' hs h
      -- without fuel the loop can only return at once
      cases hc : cond s with
      | true => simp [whileLoop, hc] at h
      | false =>
          rw [whileLoop_of_false 0 hc] at h
          cases h
          exact ⟨hs, hc⟩
  | succ fuel ih =>
      intro s s' hs h
      cases hc : cond s with
      | false =>
          rw [whileLoop_of_false _ hc] at h
          cases h
          exact ⟨hs, hc⟩
      | true =>
          cases hb : body s with
          | error e =>
              rw [whileLoop_of_error fuel hc hb] at h
              cases h
          | ok t =>
              rw [whileLoop_of_true fuel hc hb] at h
              exact ih t s' (hbody s t hs hc hb) h

/-- The divergence rule: an invariant that keeps the condition true and the body succeeding makes
every amount of fuel too little. -/
theorem whileLoop_diverges (Inv : σ → Prop)
    (hbody : ∀ s, Inv s → cond s = true ∧ ∃ s', body s = .ok s' ∧ Inv s') :
    ∀ (fuel : Nat) (s : σ), Inv s → whileLoop timeout cond body fuel s = .error timeout := by
  intro fuel
  induction fuel with
  | zero =>
      intro s hs
      simp [whileLoop, (hbody s hs).1]
  | succ fuel ih =>
      intro s hs
      obtain ⟨hc, t, hb, ht⟩ := hbody s hs
      rw [whileLoop_of_true fuel hc hb]
      exact ih t ht

end MustDb.Lib
