import Mathlib.Data.List.Induction
import MustDb.Lib.ByteFile

/-!
# `MustDb.Lib.Overlay`: a stream that is stored over its own start

A stream of cells is stored into a cleared page one cell after the other. Most cells go behind the
one before, but the writer can go back to the start of the page. A placement is a cell with its
offset in the page, and `overlay page placements` is the page after all of them.

`Steps` says what a writer does that only ever goes on or goes back: from one placement to a later
one, the offset grows at most as much as the position in the stream.

`take_overlay_eq_iff` says when the page starts with the stream all the same: each cell that is not
at its own position is zero, and so is the cell of the stream whose place it takes.
-/

set_option autoImplicit false

namespace MustDb.Lib

variable {α : Type}

/-- The page after the placements, in order. -/
def overlay (page : List α) (placements : List (Nat × α)) : List α :=
  placements.foldl (fun page w => page.set w.1 w.2) page

/-- The placements of `bs` from the offset `off` on. -/
def placeFrom : Nat → List α → List (Nat × α)
  | _, [] => []
  | off, b :: bs => (off, b) :: placeFrom (off + 1) bs

@[simp] theorem length_overlay (page : List α) (placements : List (Nat × α)) :
    (overlay page placements).length = page.length := by
  induction placements generalizing page with
  | nil => rfl
  | cons w placements ih =>
      show (overlay (page.set w.1 w.2) placements).length = _
      rw [ih, List.length_set]

theorem overlay_append (page : List α) (ws vs : List (Nat × α)) :
    overlay page (ws ++ vs) = overlay (overlay page ws) vs :=
  List.foldl_append

@[simp] theorem map_snd_placeFrom (off : Nat) (bs : List α) :
    (placeFrom off bs).map Prod.snd = bs := by
  induction bs generalizing off with
  | nil => rfl
  | cons b bs ih => rw [placeFrom, List.map_cons, ih]

@[simp] theorem length_placeFrom (off : Nat) (bs : List α) :
    (placeFrom off bs).length = bs.length := by
  induction bs generalizing off with
  | nil => rfl
  | cons b bs ih => rw [placeFrom, List.length_cons, ih, List.length_cons]

theorem placeFrom_append (off : Nat) (as bs : List α) :
    placeFrom off (as ++ bs) = placeFrom off as ++ placeFrom (off + as.length) bs := by
  induction as generalizing off with
  | nil => rfl
  | cons a as ih =>
      rw [List.cons_append, placeFrom, placeFrom, ih, List.cons_append, List.length_cons,
        Nat.add_right_comm, Nat.add_assoc]

/-- The offset of the placement at position `p`. -/
theorem getElem?_placeFrom (off : Nat) (bs : List α) (p : Nat) :
    (placeFrom off bs)[p]? = bs[p]?.map fun b => (off + p, b) := by
  induction bs generalizing off p with
  | nil => simp [placeFrom]
  | cons b bs ih =>
      cases p with
      | zero => rfl
      | succ p =>
          rw [placeFrom, List.getElem?_cons_succ, ih, List.getElem?_cons_succ, Nat.add_right_comm,
            Nat.add_assoc]

/-- The cells of the page after placements side by side. -/
theorem getElem?_overlay_placeFrom {page bs : List α} {off : Nat}
    (h : off + bs.length ≤ page.length) (i : Nat) :
    (overlay page (placeFrom off bs))[i]?
      = if off ≤ i ∧ i < off + bs.length then bs[i - off]? else page[i]? := by
  induction bs generalizing page off with
  | nil =>
      rw [if_neg (by rw [List.length_nil]; omega)]
      rfl
  | cons b bs ih =>
      rw [List.length_cons] at h ⊢
      show (overlay (page.set off b) (placeFrom (off + 1) bs))[i]? = _
      rw [ih (by rw [List.length_set]; omega)]
      by_cases hi : i = off
      · -- the first placement, which no later one meets
        subst hi
        rw [if_neg (by omega), if_pos (by omega), Nat.sub_self, List.getElem?_cons_zero,
          List.getElem?_set_self (by omega)]
      · rw [List.getElem?_set_ne (Ne.symm hi)]
        by_cases hin : off + 1 ≤ i ∧ i < off + 1 + bs.length
        · rw [if_pos hin, if_pos (by omega), show i - off = i - (off + 1) + 1 by omega,
            List.getElem?_cons_succ]
        · rw [if_neg hin, if_neg (by omega)]

/-- A write inside the page is the placement of its cells. -/
theorem pwrite_eq_overlay [Zero α] {page bs : List α} {off : Nat}
    (h : off + bs.length ≤ page.length) : pwrite page off bs = overlay page (placeFrom off bs) := by
  by_cases hbs : bs = []
  · subst hbs
    rfl
  · apply List.ext_getElem?
    intro i
    rw [getElem?_pwrite hbs, getElem?_overlay_placeFrom h]
    by_cases hio : i < off
    · rw [if_pos hio, if_pos (by omega), if_neg (by omega)]
    · by_cases hib : i < off + bs.length
      · rw [if_neg hio, if_pos hib, if_pos (by omega)]
      · rw [if_neg hio, if_neg hib, if_neg (by omega)]

/-! ### The last placement -/

/-- A cell of the page is the one placed there last, or the old one when there is none. -/
theorem getElem?_overlay (placements : List (Nat × α)) {page : List α} {i : Nat}
    (hi : i < page.length) :
    (∃ p b, placements[p]? = some (i, b) ∧ (overlay page placements)[i]? = some b ∧
        ∀ (q : Nat) (w : Nat × α), p < q → placements[q]? = some w → w.1 ≠ i) ∨
      (overlay page placements)[i]? = page[i]? ∧ ∀ w ∈ placements, w.1 ≠ i := by
  -- induction from the end, since the last placement wins
  induction placements using List.reverseRec with
  | nil => exact Or.inr ⟨rfl, fun _ hw => absurd hw List.not_mem_nil⟩
  | append_singleton ws w ih =>
      have hlast : overlay page (ws ++ [w]) = (overlay page ws).set w.1 w.2 := by
        rw [overlay_append]
        rfl
      rw [hlast]
      by_cases hw : w.1 = i
      · -- the new placement is the last one at `i`
        subst hw
        refine Or.inl ⟨ws.length, w.2, List.getElem?_concat_length, ?_, ?_⟩
        · rw [List.getElem?_set_self (by rwa [length_overlay])]
        · intro q v hq hv
          have hq' : (ws ++ [w]).length ≤ q := by
            rw [List.length_append, List.length_singleton]
            omega
          rw [List.getElem?_eq_none hq'] at hv
          cases hv
      · rw [List.getElem?_set_ne hw]
        -- a placement somewhere else: the last one at `i` is the same as before
        rcases ih with ⟨p, b, hp, hpage, hlater⟩ | ⟨hpage, hnone⟩
        · refine Or.inl ⟨p, b, ?_, hpage, ?_⟩
          · rw [List.getElem?_append_left (List.getElem?_eq_some_iff.mp hp).1, hp]
          · intro q v hq hv
            rcases Nat.lt_or_ge q ws.length with hlt | hge
            · rw [List.getElem?_append_left hlt] at hv
              exact hlater q v hq hv
            · rw [List.getElem?_append_right hge] at hv
              cases hzero : q - ws.length with
              | zero =>
                  rw [hzero] at hv
                  cases hv
                  exact hw
              | succ n =>
                  rw [hzero] at hv
                  cases hv
        · refine Or.inr ⟨hpage, fun v hv => ?_⟩
          rcases List.mem_append.mp hv with hv | hv
          · exact hnone v hv
          · rw [List.mem_singleton.mp hv]
            exact hw

/-! ### Streams that go back -/

/-- From one placement to a later one, the offset grows at most as much as the position. The first
one is at the start of the page. -/
structure Steps (placements : List (Nat × α)) : Prop where
  start : ∀ w : Nat × α, placements[0]? = some w → w.1 = 0
  step : ∀ (p q : Nat) (v w : Nat × α), p ≤ q → placements[p]? = some v →
    placements[q]? = some w → w.1 + p ≤ v.1 + q

/-- No placement is behind its position. -/
theorem Steps.offset_le {placements : List (Nat × α)} (h : Steps placements) {p : Nat}
    {w : Nat × α} (hp : placements[p]? = some w) : w.1 ≤ p := by
  have hlt := (List.getElem?_eq_some_iff.mp hp).1
  have hfirst := List.getElem?_eq_getElem (Nat.zero_lt_of_lt hlt)
  have hstart := h.start _ hfirst
  have hstep := h.step 0 p _ w (Nat.zero_le p) hfirst hp
  omega

/-- Before a placement at its own position, all are at theirs. -/
theorem Steps.offset_eq {placements : List (Nat × α)} (h : Steps placements) {p q : Nat}
    {v w : Nat × α} (hpq : p ≤ q) (hp : placements[p]? = some v) (hq : placements[q]? = some w)
    (hown : w.1 = q) : v.1 = p := by
  have hle := h.offset_le hp
  have hstep := h.step p q v w hpq hp hq
  omega

/-- A cell that is not at its own position is zero, and so is the cell of the stream whose place it
takes. -/
def Harmless [Zero α] (placements : List (Nat × α)) : Prop :=
  ∀ (p : Nat) (w : Nat × α), placements[p]? = some w →
    w.1 = p ∨ w.2 = 0 ∧ (placements.map Prod.snd)[w.1]? = some 0

instance [Zero α] [DecidableEq α] (placements : List (Nat × α)) :
    Decidable (Harmless placements) :=
  decidable_of_iff
    (∀ p : Fin placements.length, placements[p].1 = p ∨
      placements[p].2 = 0 ∧ (placements.map Prod.snd)[placements[p].1]? = some 0) <| by
    constructor
    · intro h p w hp
      obtain ⟨hlt, rfl⟩ := List.getElem?_eq_some_iff.mp hp
      exact h ⟨p, hlt⟩
    · intro h p
      exact h p _ (List.getElem?_eq_getElem p.isLt)

/-- A write from the start of the page on puts every cell at its own position. -/
theorem harmless_placeFrom [Zero α] (bs : List α) : Harmless (placeFrom 0 bs) := by
  intro p w hp
  rw [getElem?_placeFrom, Option.map_eq_some_iff] at hp
  obtain ⟨b, -, rfl⟩ := hp
  exact Or.inl (Nat.zero_add p)

section Zeros
variable [Zero α] {placements : List (Nat × α)} {size : Nat}

/-- A harmless stream: each cell of the page is the one of the stream. -/
theorem Harmless.take_overlay (hharmless : Harmless placements) (hfit : placements.length ≤ size) :
    (overlay (List.replicate size (0 : α)) placements).take placements.length
      = placements.map Prod.snd := by
  apply List.ext_getElem?
  intro i
  rw [List.getElem?_take]
  by_cases hi : i < placements.length
  · rw [if_pos hi, List.getElem?_map, List.getElem?_eq_getElem hi, Option.map_some]
    have hpage : i < (List.replicate size (0 : α)).length := by
      rw [List.length_replicate]
      omega
    -- cell `i` of the page has the last placement there, or still the zero of the start
    rcases getElem?_overlay placements hpage with ⟨p, b, hp, hcell, -⟩ | ⟨hcell, hnone⟩
    · rw [hcell]
      rcases hharmless p _ hp with hown | ⟨hzero, htarget⟩
      · -- the cell is at its own position
        have hpi : i = p := hown
        subst hpi
        rw [List.getElem?_eq_getElem hi, Option.some.injEq] at hp
        rw [hp]
      · -- a zero takes the place of a zero
        rw [List.getElem?_map, List.getElem?_eq_getElem hi, Option.map_some] at htarget
        rw [htarget, ← hzero]
    · -- nothing is placed at `i`, so the stream has a zero there that went elsewhere
      rw [hcell, List.getElem?_replicate_of_lt (by omega)]
      rcases hharmless i _ (List.getElem?_eq_getElem hi) with hown | ⟨hzero, -⟩
      · exact absurd hown (hnone _ (List.getElem_mem hi))
      · rw [hzero]
  · rw [if_neg hi, List.getElem?_eq_none (by rw [List.length_map]; omega)]

/-- From the first cell on that is not at its own position, the stream is zero. Downward induction:
a cell that is not zero would have to stay in its place, and only its own placement can put it
there. -/
theorem Steps.eq_zero_of_take_overlay (hsteps : Steps placements) (hfit : placements.length ≤ size)
    (h : (overlay (List.replicate size (0 : α)) placements).take placements.length
      = placements.map Prod.snd)
    {p : Nat} {w : Nat × α} (hp : placements[p]? = some w) (hown : w.1 ≠ p) :
    ∀ (n q : Nat) (v : Nat × α), placements.length ≤ q + n → p ≤ q → placements[q]? = some v →
      v.2 = 0 := by
  intro n
  induction n with
  | zero =>
      intro q v hlen _ hq
      rw [List.getElem?_eq_none (by omega)] at hq
      cases hq
  | succ n ih =>
      intro q v hlen hpq hq
      have hlt := (List.getElem?_eq_some_iff.mp hq).1
      -- the page has the cell of the stream at position `q`, since they agree on this length
      have hcell : (overlay (List.replicate size (0 : α)) placements)[q]? = some v.2 := by
        have hq' := congrArg (fun l : List α => l[q]?) h
        simpa only [List.getElem?_take, hlt, if_true, List.getElem?_map, hq, Option.map_some]
          using hq'
      have hpage : q < (List.replicate size (0 : α)).length := by
        rw [List.length_replicate]
        omega
      rcases getElem?_overlay placements hpage with ⟨r, b, hr, hb, -⟩ | ⟨hzero, -⟩
      · rw [hb, Option.some.injEq] at hcell
        have hqr : q ≤ r := hsteps.offset_le hr
        -- the placement at `r` put it there. It is not `q` itself, since `p` is not at its own
        -- position, and behind `q` the induction hypothesis says that it is zero
        rcases Nat.eq_or_lt_of_le hqr with rfl | hlater
        · exact absurd (hsteps.offset_eq hpq hp hr rfl) hown
        · rw [← hcell]
          exact ih r _ (by omega) (by omega) hr
      · rw [hzero, List.getElem?_replicate_of_lt (by omega), Option.some.injEq] at hcell
        exact hcell.symm

/-- The page starts with the stream exactly when the stream is harmless. -/
theorem take_overlay_eq_iff (hsteps : Steps placements) (hfit : placements.length ≤ size) :
    (overlay (List.replicate size (0 : α)) placements).take placements.length
        = placements.map Prod.snd
      ↔ Harmless placements := by
  refine ⟨fun h p w hp => ?_, fun h => h.take_overlay hfit⟩
  by_cases hown : w.1 = p
  · exact Or.inl hown
  · have hzeros := hsteps.eq_zero_of_take_overlay hfit h hp hown placements.length
    have hlt := (List.getElem?_eq_some_iff.mp hp).1
    have hle := hsteps.offset_le hp
    have hpage : w.1 < (List.replicate size (0 : α)).length := by
      rw [List.length_replicate]
      omega
    refine Or.inr ⟨hzeros p w (by omega) (Nat.le_refl p) hp, ?_⟩
    -- the cell that `w` is placed at has the byte of the stream at that position
    have hcell : (overlay (List.replicate size (0 : α)) placements)[w.1]?
        = (placements.map Prod.snd)[w.1]? := by
      rw [← h, List.getElem?_take, if_pos (by omega)]
    rw [← hcell]
    rcases getElem?_overlay placements hpage with ⟨q, b, hq, hb, hlast⟩ | ⟨-, hnone⟩
    · -- the last placement there is not before `p`, so it is a zero
      have hpq : p ≤ q := by
        by_contra hbefore
        exact hlast p w (by omega) hp rfl
      have hzero : b = 0 := hzeros q _ (by omega) hpq hq
      rw [hb, hzero]
    · exact absurd rfl (hnone w (List.mem_of_getElem? hp))

end Zeros

end MustDb.Lib
