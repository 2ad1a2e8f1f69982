import Mathlib.Logic.Basic

/-!
# `MustDb.Lib.Except`: the bind laws of `Except`

The two computation laws of `>>=` are simp lemmas. `bind_eq_ok` takes a successful bind apart, so
a proof peels a `do` block one call at a time and never unfolds `Except.bind`.

`Avoids bad x P` is the outcome of a call that can fail, but not with `bad`: its result has `P`. Its
rules go through a `do` block in the same way. `OkOr Failed x P` says how a call can fail.
-/

set_option autoImplicit false

namespace MustDb.Lib

variable {α β ε : Type}

@[simp] theorem ok_bind (a : α) (f : α → Except ε β) : (Except.ok a >>= f) = f a := rfl

@[simp] theorem error_bind (e : ε) (f : α → Except ε β) :
    (Except.error e >>= f) = Except.error e := rfl

/-- A bind succeeds exactly when both parts do. -/
theorem bind_eq_ok {x : Except ε α} {f : α → Except ε β} {b : β} :
    (x >>= f) = .ok b ↔ ∃ a, x = .ok a ∧ f a = .ok b := by
  cases x with
  | error e => simp
  | ok a => simp

@[simp] theorem pure_eq_ok {a b : α} : (pure a : Except ε α) = .ok b ↔ a = b := by
  simp [pure, Except.pure]

/-- The result of a call that was evaluated. -/
theorem toOption_eq_some {x : Except ε α} {a : α} : x.toOption = some a ↔ x = .ok a := by
  cases x with
  | error e => simp [Except.toOption]
  | ok b => simp [Except.toOption]

/-! ### Calls that avoid a fault -/

/-- `x` does not fail with `bad`, and a result of it has `P`. -/
def Avoids (bad : ε) (x : Except ε α) (P : α → Prop) : Prop :=
  match x with
  | .ok a => P a
  | .error e => e ≠ bad

section Avoids
variable {bad : ε} {x : Except ε α} {P : α → Prop}

theorem Avoids.of_ok {a : α} (h : Avoids bad x P) (hx : x = .ok a) : P a := by
  rw [hx] at h
  exact h

theorem Avoids.ne_error (h : Avoids bad x P) : x ≠ .error bad := by
  rintro rfl
  exact h rfl

theorem Avoids.bind {f : α → Except ε β} {R : β → Prop} (h : Avoids bad x P)
    (hf : ∀ a, P a → Avoids bad (f a) R) : Avoids bad (x >>= f) R := by
  cases x with
  | error e => exact h
  | ok a => exact hf a h

/-- A fold whose body avoids the fault. -/
theorem avoids_foldlM {f : β → α → Except ε β} (hf : ∀ b a, Avoids bad (f b a) fun _ => True) :
    ∀ (as : List α) (b : β), Avoids bad (as.foldlM f b) fun _ => True := by
  intro as
  induction as with
  | nil =>
      intro b
      exact trivial
  | cons a as ih =>
      intro b
      rw [List.foldlM_cons]
      exact (hf b a).bind fun b' _ => ih b'

end Avoids

/-! ### Calls whose faults are known -/

/-- A result of `x` has `P`, and a fault of it has `Failed`. -/
def OkOr (Failed : ε → Prop) (x : Except ε α) (P : α → Prop) : Prop :=
  match x with
  | .ok a => P a
  | .error e => Failed e

theorem OkOr.of_ok {Failed : ε → Prop} {x : Except ε α} {P : α → Prop} {a : α}
    (h : OkOr Failed x P) (hx : x = .ok a) : P a := by
  rw [hx] at h
  exact h

/-- The results of a `mapM` are results of its function. -/
theorem mem_of_mapM_eq_ok {f : α → Except ε β} : ∀ {as : List α} {bs : List β},
    as.mapM f = .ok bs → ∀ b ∈ bs, ∃ a ∈ as, f a = .ok b := by
  intro as
  induction as with
  | nil =>
      intro bs h b hb
      rw [List.mapM_nil, pure_eq_ok] at h
      rw [← h] at hb
      exact absurd hb List.not_mem_nil
  | cons a as ih =>
      intro bs h b hb
      rw [List.mapM_cons] at h
      -- a `mapM` that returns has run its function on the head, and then on the tail
      obtain ⟨b', hhead, h⟩ := bind_eq_ok.mp h
      obtain ⟨bs', htail, h⟩ := bind_eq_ok.mp h
      rw [← pure_eq_ok.mp h] at hb
      rcases List.mem_cons.mp hb with rfl | hb
      · exact ⟨a, List.mem_cons_self, hhead⟩
      · obtain ⟨a', hmem, ha'⟩ := ih htail b hb
        exact ⟨a', List.mem_cons_of_mem a hmem, ha'⟩

/-- Each element of the result comes from the element at its place. -/
theorem getElem?_of_mapM_eq_ok {f : α → Except ε β} {i : Nat} {b : β} :
    ∀ {as : List α} {bs : List β}, as.mapM f = .ok bs → bs[i]? = some b →
      ∃ a, as[i]? = some a ∧ f a = .ok b := by
  intro as
  induction as generalizing i with
  | nil =>
      intro bs h hb
      rw [List.mapM_nil, pure_eq_ok] at h
      rw [← h] at hb
      cases hb
  | cons a as ih =>
      intro bs h hb
      rw [List.mapM_cons] at h
      obtain ⟨b', hhead, h⟩ := bind_eq_ok.mp h
      obtain ⟨bs', htail, h⟩ := bind_eq_ok.mp h
      rw [pure_eq_ok] at h
      subst h
      cases i with
      | zero =>
          cases hb
          exact ⟨a, rfl, hhead⟩
      | succ i => exact ih htail hb

end MustDb.Lib
