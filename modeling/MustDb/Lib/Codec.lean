import MustDb.Lib.Except

/-!
# `MustDb.Lib.Codec`: encoders and decoders over a byte stream

A `Sink` is what an encoder writes to, a `Source` is what a decoder reads from. Both are given by
their one operation, and both can fail.

The laws of a stream that delivers its bytes unchanged are relative to two relations of the client:
`Written s bytes`, the sink `s` has taken `bytes`, and `Pending r bytes`, the source `r` still has
`bytes` to give. A sink need not have room for everything, so its law is for the streams that `fits`
allows.

`Writes f bytes` says that the encoder `f` writes `bytes`, behind any stream. `Reads g bytes a`
says that the decoder `g` takes exactly `bytes`, in front of any stream, and returns `a`. Each of
the two has a rule for every way to put calls together: so a round trip is proved by writing down
the bytes of each call once on either side.
-/

set_option autoImplicit false

namespace MustDb.Lib

/-- What an encoder writes to. -/
structure Sink (σ ε : Type) where
  write : σ → List UInt8 → Except ε σ

/-- What a decoder reads from. -/
structure Source (ρ ε : Type) where
  read : ρ → Nat → Except ε (ρ × List UInt8)

variable {σ ρ ε α β : Type}

/-- The sink takes the bytes it is given, as long as they fit. -/
structure Sink.Collects (sink : Sink σ ε) (fits : List UInt8 → Prop)
    (Written : σ → List UInt8 → Prop) : Prop where
  fits_left : ∀ {as bs : List UInt8}, fits (as ++ bs) → fits as
  write_ok : ∀ {s : σ} {bytes data : List UInt8}, Written s bytes → fits (bytes ++ data) →
    ∃ s', sink.write s data = .ok s' ∧ Written s' (bytes ++ data)

/-- The source gives its bytes in order, in chunks of any size. -/
structure Source.Yields (source : Source ρ ε) (Pending : ρ → List UInt8 → Prop) : Prop where
  read_ok : ∀ {r : ρ} {data rest : List UInt8}, Pending r (data ++ rest) →
    ∃ r', source.read r data.length = .ok (r', data) ∧ Pending r' rest

/-! ### Encoders -/

section Encoder
variable {fits : List UInt8 → Prop} {Written : σ → List UInt8 → Prop}

/-- The encoder `f` writes `bytes` behind what the sink has. -/
def Writes (fits : List UInt8 → Prop) (Written : σ → List UInt8 → Prop) (f : σ → Except ε σ)
    (bytes : List UInt8) : Prop :=
  ∀ s pre, Written s pre → fits (pre ++ bytes) → ∃ s', f s = .ok s' ∧ Written s' (pre ++ bytes)

theorem Sink.Collects.writes {sink : Sink σ ε} (h : sink.Collects fits Written)
    (data : List UInt8) : Writes fits Written (fun s => sink.write s data) data :=
  fun _ _ hs hfits => h.write_ok hs hfits

/-- An encoder that does nothing. -/
theorem Writes.nil : Writes fits Written (fun s => (.ok s : Except ε σ)) [] := by
  intro s pre hs _
  exact ⟨s, rfl, by rwa [List.append_nil]⟩

/-- One encoder after the other. -/
theorem Writes.append {f g : σ → Except ε σ} {as bs : List UInt8}
    (hleft : ∀ {as bs : List UInt8}, fits (as ++ bs) → fits as)
    (hf : Writes fits Written f as) (hg : Writes fits Written g bs) :
    Writes fits Written (fun s => f s >>= g) (as ++ bs) := by
  intro s pre hs hfits
  rw [← List.append_assoc] at hfits
  obtain ⟨t, hft, ht⟩ := hf s pre hs (hleft hfits)
  obtain ⟨u, hgt, hu⟩ := hg t (pre ++ as) ht hfits
  refine ⟨u, ?_, by rwa [← List.append_assoc]⟩
  show (f s >>= g) = .ok u
  rw [hft]
  exact hgt

end Encoder

/-! ### Decoders -/

section Decoder
variable {Pending : ρ → List UInt8 → Prop}

/-- The decoder `g` takes exactly `bytes` from the front of the stream and returns `a`. -/
def Reads (Pending : ρ → List UInt8 → Prop) (g : ρ → Except ε (ρ × α)) (bytes : List UInt8)
    (a : α) : Prop :=
  ∀ r rest, Pending r (bytes ++ rest) → ∃ r', g r = .ok (r', a) ∧ Pending r' rest

theorem Source.Yields.reads {source : Source ρ ε} (h : source.Yields Pending)
    {data : List UInt8} {n : Nat} (hn : n = data.length) :
    Reads Pending (fun r => source.read r n) data data := by
  subst hn
  exact fun _ _ hr => h.read_ok hr

/-- A decoder that reads nothing. -/
theorem Reads.nil (a : α) : Reads Pending (fun r => (.ok (r, a) : Except ε (ρ × α))) [] a :=
  fun r _ hr => ⟨r, rfl, hr⟩

/-- A decoder that goes on with what another one returned. -/
theorem Reads.append {g : ρ → Except ε (ρ × α)} {k : ρ × α → Except ε (ρ × β)}
    {as bs : List UInt8} {a : α} {b : β} (hg : Reads Pending g as a)
    (hk : Reads Pending (fun r => k (r, a)) bs b) :
    Reads Pending (fun r => g r >>= k) (as ++ bs) b := by
  intro r rest hr
  rw [List.append_assoc] at hr
  obtain ⟨t, hgt, ht⟩ := hg r (bs ++ rest) hr
  obtain ⟨u, hku, hu⟩ := hk t rest ht
  refine ⟨u, ?_, hu⟩
  show (g r >>= k) = .ok (u, b)
  rw [hgt]
  exact hku

/-- A function of the result. -/
theorem Reads.map {g : ρ → Except ε (ρ × α)} {bytes : List UInt8} {a : α}
    (hg : Reads Pending g bytes a) (f : α → β) :
    Reads Pending (fun r => g r >>= fun (r, a) => .ok (r, f a)) bytes (f a) := by
  intro r rest hr
  obtain ⟨t, hgt, ht⟩ := hg r rest hr
  refine ⟨t, ?_, ht⟩
  show (g r >>= fun (r, a) => .ok (r, f a)) = .ok (t, f a)
  rw [hgt]
  rfl

end Decoder

/-! ### Streams in memory -/

/-- A sink that collects everything. -/
def Sink.list : Sink (List UInt8) ε where
  write s data := .ok (s ++ data)

/-- A source of the bytes of a list, with the error of a read behind its end. -/
def Source.list (atEnd : ε) : Source (List UInt8) ε where
  read r n := if n ≤ r.length then .ok (r.drop n, r.take n) else .error atEnd

theorem Sink.list_collects : (Sink.list : Sink (List UInt8) ε).Collects (fun _ => True) Eq where
  fits_left _ := trivial
  write_ok h _ := ⟨_, rfl, by rw [h]⟩

theorem Source.list_yields (atEnd : ε) : (Source.list atEnd).Yields Eq where
  read_ok {r data rest} h := by
    have hle : data.length ≤ (data ++ rest).length := by
      rw [List.length_append]
      exact Nat.le_add_right _ _
    subst h
    refine ⟨rest, ?_, rfl⟩
    show (if _ then _ else _) = _
    rw [if_pos hle, List.drop_left, List.take_left]

end MustDb.Lib
