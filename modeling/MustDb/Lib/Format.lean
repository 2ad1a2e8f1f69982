import MustDb.Lib.Codec
import MustDb.Lib.Except

/-!
# `MustDb.Lib.Format`: what a decoder accepts

`Reads` of `MustDb.Lib.Codec` says what a decoder does on the bytes that an encoder wrote. A decoder
of a file also meets bytes that no encoder wrote. `Accepts Pending g F` is about all of them:
whenever the decoder `g` returns, it has taken a byte string of the format `F` from the stream. The
rules put decoders together as those of `Reads` do. They need a stream that gives no byte more than
it has (`Source.Exact`), as the bytes of a list do.

A format is a relation between bytes and results. `Encodes enc view` is the format of the encodings
`enc a`, of which the decoder returns the part `view a`. `PrefixFree enc` says that an encoding is
known from the front of any stream that it begins, so no stream has two readings.
-/

set_option autoImplicit false

namespace MustDb.Lib

variable {ρ ε α β : Type} {Pending : ρ → List UInt8 → Prop}

/-! ### Decoders -/

/-- A read that succeeds gives the bytes at the front, as many as it was asked for. -/
structure Source.Exact (source : Source ρ ε) (Pending : ρ → List UInt8 → Prop) : Prop where
  read_eq : ∀ {r r' : ρ} {bytes data : List UInt8} {n : Nat}, Pending r bytes →
    source.read r n = .ok (r', data) →
    data.length = n ∧ ∃ rest, bytes = data ++ rest ∧ Pending r' rest

/-- The decoder `g` takes only byte strings of the format `F`. -/
def Accepts (Pending : ρ → List UInt8 → Prop) (g : ρ → Except ε (ρ × α))
    (F : List UInt8 → α → Prop) : Prop :=
  ∀ r r' bytes a, Pending r bytes → g r = .ok (r', a) →
    ∃ front rest, bytes = front ++ rest ∧ F front a ∧ Pending r' rest

/-- The format `F`, and then the one that its result asks for. -/
def Then (F : List UInt8 → α → Prop) (G : α → List UInt8 → β → Prop) (bytes : List UInt8)
    (b : β) : Prop :=
  ∃ a front back, bytes = front ++ back ∧ F front a ∧ G a back b

/-- A decoder that reads nothing. -/
theorem Accepts.nil (a : α) :
    Accepts Pending (fun r => (.ok (r, a) : Except ε (ρ × α))) fun bytes b =>
      bytes = [] ∧ b = a := by
  intro r r' bytes b hr hrun
  cases hrun
  exact ⟨[], bytes, rfl, ⟨rfl, rfl⟩, hr⟩

/-- A decoder that goes on with what another one returned. -/
theorem Accepts.bind {g : ρ → Except ε (ρ × α)} {k : α → ρ → Except ε (ρ × β)}
    {F : List UInt8 → α → Prop} {G : α → List UInt8 → β → Prop} (hg : Accepts Pending g F)
    (hk : ∀ a, Accepts Pending (k a) (G a)) :
    Accepts Pending (fun r => g r >>= fun (r, a) => k a r) (Then F G) := by
  intro r r' bytes b hr hrun
  obtain ⟨⟨t, a⟩, hfirst, hsecond⟩ := bind_eq_ok.mp hrun
  obtain ⟨front, middle, hbytes, hF, ht⟩ := hg r t bytes a hr hfirst
  obtain ⟨back, rest, hmiddle, hG, hrest⟩ := hk a t r' middle b ht hsecond
  refine ⟨front ++ back, rest, ?_, ⟨a, front, back, rfl, hF, hG⟩, hrest⟩
  rw [hbytes, hmiddle, List.append_assoc]

/-- A function of the result. -/
theorem Accepts.map {g : ρ → Except ε (ρ × α)} {F : List UInt8 → α → Prop}
    (hg : Accepts Pending g F) (f : α → β) :
    Accepts Pending (fun r => g r >>= fun (r, a) => .ok (r, f a)) fun bytes b =>
      ∃ a, F bytes a ∧ b = f a := by
  intro r r' bytes b hr hrun
  obtain ⟨⟨t, a⟩, hfirst, hsecond⟩ := bind_eq_ok.mp hrun
  cases hsecond
  obtain ⟨front, rest, hbytes, hF, hrest⟩ := hg r _ bytes a hr hfirst
  exact ⟨front, rest, hbytes, ⟨a, hF, rfl⟩, hrest⟩

/-- A wider format. -/
theorem Accepts.mono {g : ρ → Except ε (ρ × α)} {F G : List UInt8 → α → Prop}
    (hg : Accepts Pending g F) (h : ∀ bytes a, F bytes a → G bytes a) : Accepts Pending g G := by
  intro r r' bytes a hr hrun
  obtain ⟨front, rest, hbytes, hF, hrest⟩ := hg r r' bytes a hr hrun
  exact ⟨front, rest, hbytes, h front a hF, hrest⟩

/-- A decoder that does the same on the streams in question. -/
theorem Accepts.of_eq {g h : ρ → Except ε (ρ × α)} {F : List UInt8 → α → Prop}
    (hh : Accepts Pending h F) (heq : ∀ r bytes, Pending r bytes → g r = h r) :
    Accepts Pending g F := by
  intro r r' bytes a hr hrun
  rw [heq r bytes hr] at hrun
  exact hh r r' bytes a hr hrun

/-! ### Encodings -/

/-- The encodings `enc a`, read as `view a`. -/
def Encodes (enc : α → List UInt8) (view : α → β) (bytes : List UInt8) (b : β) : Prop :=
  ∃ a, bytes = enc a ∧ b = view a

/-- What follows an encoding is known, and so is what was encoded. -/
def PrefixFree (enc : α → List UInt8) : Prop :=
  ∀ {a b : α} {as bs : List UInt8}, enc a ++ as = enc b ++ bs → a = b ∧ as = bs

theorem PrefixFree.injective {enc : α → List UInt8} (h : PrefixFree enc) {a b : α}
    (heq : enc a = enc b) : a = b := by
  have hnil : enc a ++ [] = enc b ++ [] := by rw [heq]
  exact (h hnil).1

/-- A sequence whose length is known. -/
theorem PrefixFree.flatMap {enc : α → List UInt8} (h : PrefixFree enc) :
    ∀ {as bs : List α} {s t : List UInt8}, as.length = bs.length →
      as.flatMap enc ++ s = bs.flatMap enc ++ t → as = bs ∧ s = t := by
  intro as
  induction as with
  | nil =>
      intro bs s t hlength heq
      have hnil : bs = [] := List.length_eq_zero_iff.mp hlength.symm
      subst hnil
      exact ⟨rfl, heq⟩
  | cons a as ih =>
      intro bs s t hlength heq
      cases bs with
      | nil => cases hlength
      | cons b bs =>
          rw [List.flatMap_cons, List.flatMap_cons, List.append_assoc, List.append_assoc] at heq
          obtain ⟨hhead, htail⟩ := h heq
          obtain ⟨hrest, hst⟩ := ih (Nat.succ.inj hlength) htail
          exact ⟨by rw [hhead, hrest], hst⟩

/-! ### The bytes of a list -/

theorem Source.list_exact (atEnd : ε) : (Source.list atEnd).Exact Eq where
  read_eq {r r' bytes data n} hr hrun := by
    subst hr
    by_cases hn : n ≤ r.length
    · have hread : (Source.list atEnd).read r n = .ok (r.drop n, r.take n) := if_pos hn
      rw [hread] at hrun
      cases hrun
      refine ⟨?_, r.drop n, (List.take_append_drop n r).symm, rfl⟩
      rw [List.length_take]
      exact Nat.min_eq_left hn
    · have hread : (Source.list atEnd).read r n = .error atEnd := if_neg hn
      rw [hread] at hrun
      cases hrun

end MustDb.Lib
