/-
  Drawing a sprite, one pixel at a time.

  A screen takes a sprite in one piece: the sprite is stamped onto a blank screen, which is then
  `xor`ed with the picture.  Here the same is done the long way round.  The pixels of the sprite are
  gone through one after the other, from top to bottom and from left to right; each that is on is
  looked for on the screen, where the pixel found is turned over, and whether it was on is noted.
  A place outside of the screen has no pixel to turn (`turn` gives `none`).

  1. **One pixel** — `spot?` says which place of the screen a pixel of the sprite concerns.  It is
     always on the screen, and no two pixels of a sprite concern the same (`spot?_inj`), so no pixel
     is turned over twice.

  2. **All of them** — `drawCells_eq` is an induction on the pixels that are left.  It carries the
     screen seen pixel by pixel, and the collision as told by the screen BEFORE the drawing; the
     two stay in step because the places still to come are untouched.

  3. **The sprite** — so the long way gives the `xor` with the stamp, and its collision is the
     overlap (`drawSprite_eq`).
-/
import Mathlib.Data.List.ProdSigma
import Mathlib.Data.List.Nodup
import Chip8.Proofs.Guarded.Access
import Chip8.Screen.Sprite

namespace Chip8.Guarded

/-! ## The definition -/

/-- The screen with one pixel turned over, and whether that was on. -/
def turn (s : Screen) (r c : Nat) : Option (Screen × Bool) :=
  if h : r < 32 ∧ c < 64 then
    some (⟨s.rows.set r (s.rows[r] ^^^ BitVec.twoPow 64 (63 - c)) h.1⟩, s.pixel r c)
  else none

/-- Pixel `i`, `j` of a sprite at column `x`, row `y`, drawn on a screen, together with whether some
    pixel of it met one that was on. -/
def drawPixel (e : Edge) (x y i j : Nat) (drawn : Screen × Bool) : Option (Screen × Bool) := do
  let r ← add y i
  let c ← add x j
  match e with
  | .wrap =>
    let (s, hit) ← turn drawn.1 (r % 32) (c % 64)
    some (s, drawn.2 || hit)
  | .clip =>
    if 32 ≤ r ∨ 64 ≤ c then some drawn
    else
      let (s, hit) ← turn drawn.1 r c
      some (s, drawn.2 || hit)

/-- The same for the pixel of a whole sprite; one that is off is passed over. -/
def drawCell (e : Edge) (x y : Nat) (sprite : Array UInt8) (drawn : Screen × Bool) (p : Nat × Nat) :
    Option (Screen × Bool) := do
  let row ← sprite[p.1]?
  if row.toBitVec.getMsbD p.2 then drawPixel e x y p.1 p.2 drawn else some drawn

/-- The pixels of a sprite of `n` rows, from top to bottom and from left to right. -/
def cells (n : Nat) : List (Nat × Nat) := List.range n ×ˢ List.range 8

/-- A sprite drawn on a screen. -/
def drawSprite (e : Edge) (x y : Nat) (sprite : Array UInt8) (s : Screen) :
    Option (Screen × Bool) :=
  (cells sprite.size).foldlM (drawCell e x y sprite) (s, false)

/-! ## One pixel -/

theorem mem_cells {n : Nat} {p : Nat × Nat} : p ∈ cells n ↔ p.1 < n ∧ p.2 < 8 := by
  rw [cells, List.mem_product, List.mem_range, List.mem_range]

theorem nodup_cells (n : Nat) : (cells n).Nodup :=
  List.Nodup.product List.nodup_range List.nodup_range

/-- The one pixel of a row that a power of two has on. -/
theorem getMsbD_twoPow_sub {c c' : Nat} (hc : c < 64) (hc' : c' < 64) :
    (BitVec.twoPow 64 (63 - c)).getMsbD c' = decide (c = c') := by
  rw [BitVec.getMsbD_eq_getLsbD, BitVec.getLsbD_twoPow]
  simp only [hc', decide_true, Bool.true_and, show 63 - c < 64 by omega]
  exact decide_eq_decide.2 (by omega)

/-- Turning a pixel over changes that pixel and no other. -/
theorem turn_eq (s : Screen) {r c : Nat} (hr : r < 32) (hc : c < 64) :
    ∃ t, turn s r c = some (t, s.pixel r c) ∧ ∀ r' c', r' < 32 → c' < 64 →
      t.pixel r' c' = (s.pixel r' c' ^^ decide ((r, c) = (r', c'))) := by
  refine ⟨_, dif_pos ⟨hr, hc⟩, ?_⟩
  intro r' c' hr' hc'
  rw [Screen.pixel_of_lt _ _ hr', Screen.pixel_of_lt _ _ hr']
  by_cases hrow : r = r'
  · subst hrow
    simp only [Vector.getElem_set_self, BitVec.getMsbD_xor, getMsbD_twoPow_sub hc hc',
      Prod.mk.injEq, true_and]
  · simp only [Vector.getElem_set_ne _ _ hrow, Prod.mk.injEq, hrow, false_and, decide_false,
      Bool.xor_false]

example : turn .blank 32 0 = none := by decide

section

variable (e : Edge) (x y : Nat) (sprite : Array UInt8)

/-- The place of the screen that a pixel of the sprite concerns, if it is on and seen at all. -/
def spot? (p : Nat × Nat) : Option (Nat × Nat) :=
  sprite[p.1]?.bind fun row =>
    if row.toBitVec.getMsbD p.2 then e.seen? (y + p.1) (x + p.2) else none

/-- Is the pixel of the screen on that a pixel of the sprite concerns? -/
def meets (s : Screen) (p : Nat × Nat) : Bool :=
  match spot? e x y sprite p with
  | some q => s.pixel q.1 q.2
  | none => false

end

variable {e : Edge} {x y : Nat} {sprite : Array UInt8}

/-- What is seen is on the screen. -/
theorem seen?_lt {r c : Nat} {q : Nat × Nat} (h : e.seen? r c = some q) : q.1 < 32 ∧ q.2 < 64 := by
  cases e with
  | clip =>
    simp only [Edge.seen?] at h
    split at h
    · rename_i hin; cases h; exact hin
    · cases h
  | wrap =>
    cases h
    exact ⟨Nat.mod_lt r (by decide), Nat.mod_lt c (by decide)⟩

/-- The place that a pixel concerns is where it is seen, if it is on. -/
theorem spot?_eq_some_iff {p q : Nat × Nat} :
    spot? e x y sprite p = some q ↔ ∃ h : p.1 < sprite.size,
      sprite[p.1].toBitVec.getMsbD p.2 = true ∧ e.seen? (y + p.1) (x + p.2) = some q := by
  unfold spot?
  by_cases h : p.1 < sprite.size
  · rw [Array.getElem?_eq_getElem h, Option.bind_some, exists_prop_of_true h]
    by_cases hbit : sprite[p.1].toBitVec.getMsbD p.2 = true
    · rw [if_pos hbit, and_iff_right hbit]
    · rw [if_neg hbit]
      simp only [hbit, false_and, reduceCtorEq]
  · simp [h]

theorem seen?_of_spot? {p q : Nat × Nat} (h : spot? e x y sprite p = some q) :
    e.seen? (y + p.1) (x + p.2) = some q := by
  obtain ⟨-, -, hseen⟩ := spot?_eq_some_iff.1 h
  exact hseen

theorem spot?_lt {p q : Nat × Nat} (h : spot? e x y sprite p = some q) : q.1 < 32 ∧ q.2 < 64 :=
  seen?_lt (seen?_of_spot? h)

/-- **No two pixels of a sprite concern the same place**, because looking a place up gives one. -/
theorem spot?_inj {p p' q : Nat × Nat} (hp : p.1 < 32 ∧ p.2 < 8) (hp' : p'.1 < 32 ∧ p'.2 < 8)
    (h : spot? e x y sprite p = some q) (h' : spot? e x y sprite p' = some q) : p = p' := by
  have hseen := seen?_of_spot? h
  have hseen' := seen?_of_spot? h'
  obtain ⟨hr, hc⟩ := spot?_lt h
  obtain ⟨hrow, hcol⟩ := (e.seen?_eq_some_iff hp.1 hp.2 hr hc).1 hseen
  obtain ⟨hrow', hcol'⟩ := (e.seen?_eq_some_iff hp'.1 hp'.2 hr hc).1 hseen'
  exact Prod.ext (Option.some.inj (hrow.symm.trans hrow')) (Option.some.inj (hcol.symm.trans hcol'))

/-- A pixel that is seen is turned over where it is seen. -/
theorem drawPixel_of_seen {i j : Nat} {q : Nat × Nat} (hr : y + i < wordLimit)
    (hc : x + j < wordLimit) (h : e.seen? (y + i) (x + j) = some q) (s : Screen) (hit : Bool) :
    drawPixel e x y i j (s, hit) = (turn s q.1 q.2).map fun d => (d.1, hit || d.2) := by
  cases e with
  | wrap =>
    simp only [Edge.seen?, Option.some.injEq] at h
    subst h
    simp only [drawPixel, add_of_lt hr, add_of_lt hc, Option.bind_eq_bind, Option.bind_some]
    cases turn s ((y + i) % 32) ((x + j) % 64) <;> rfl
  | clip =>
    have hin : y + i < 32 ∧ x + j < 64 := by
      rw [Edge.seen?] at h
      split at h
      · assumption
      · cases h
    have hnot : ¬ (32 ≤ y + i ∨ 64 ≤ x + j) := by omega
    rw [Edge.seen?, if_pos hin] at h
    cases h
    simp only [drawPixel, add_of_lt hr, add_of_lt hc, Option.bind_eq_bind, Option.bind_some,
      if_neg hnot]
    cases turn s (y + i) (x + j) <;> rfl

/-- One that is not seen is passed over. -/
theorem drawPixel_of_unseen {i j : Nat} (hr : y + i < wordLimit) (hc : x + j < wordLimit)
    (h : e.seen? (y + i) (x + j) = none) (drawn : Screen × Bool) :
    drawPixel e x y i j drawn = some drawn := by
  cases e with
  | wrap => cases h
  | clip =>
    have hout : 32 ≤ y + i ∨ 64 ≤ x + j := by
      rw [Edge.seen?] at h
      split at h
      · cases h
      · omega
    simp only [drawPixel, add_of_lt hr, add_of_lt hc, Option.bind_eq_bind, Option.bind_some,
      if_pos hout]

/-- **Drawing one pixel of a sprite** is turning over the place that it concerns, if any. -/
theorem drawCell_eq (s : Screen) (hit : Bool) {p : Nat × Nat} (hx : x < 256) (hy : y < 256)
    (hp : p.1 < sprite.size ∧ p.2 < 8) (hsize : sprite.size ≤ 32) :
    ∃ t, drawCell e x y sprite (s, hit) p = some (t, hit || meets e x y sprite s p) ∧
      ∀ r c, r < 32 → c < 64 →
        t.pixel r c = (s.pixel r c ^^ decide (spot? e x y sprite p = some (r, c))) := by
  have hr : y + p.1 < wordLimit := by simp only [wordLimit]; omega
  have hc : x + p.2 < wordLimit := by simp only [wordLimit]; omega
  have hrow : sprite[p.1]? = some sprite[p.1] := Array.getElem?_eq_getElem hp.1
  cases hspot : spot? e x y sprite p with
  | some q =>
    obtain ⟨hi, hbit, hseen⟩ := spot?_eq_some_iff.1 hspot
    obtain ⟨hq1, hq2⟩ := spot?_lt hspot
    obtain ⟨t, hturn, hpix⟩ := turn_eq s hq1 hq2
    refine ⟨t, ?_, ?_⟩
    · simp only [drawCell, hrow, Option.bind_eq_bind, Option.bind_some, if_pos hbit,
        drawPixel_of_seen hr hc hseen, hturn, Option.map_some, meets, hspot]
    · intro r c hr hc
      simp only [hpix r c hr hc, Option.some.injEq]
  | none =>
    refine ⟨s, ?_, ?_⟩
    · simp only [drawCell, hrow, Option.bind_eq_bind, Option.bind_some, meets, hspot, Bool.or_false]
      by_cases hbit : sprite[p.1].toBitVec.getMsbD p.2 = true
      · have hseen : e.seen? (y + p.1) (x + p.2) = none := by
          rw [spot?, hrow, Option.bind_some, if_pos hbit] at hspot
          exact hspot
        rw [if_pos hbit, drawPixel_of_unseen hr hc hseen]
      · rw [if_neg hbit]
    · intro r c hr hc
      simp

/-! ## All of them -/

/-- Elsewhere on the screen, the pixels that were not yet drawn find what they found before. -/
theorem meets_congr {s t : Screen} {p : Nat × Nat}
    (h : ∀ r c, spot? e x y sprite p = some (r, c) → t.pixel r c = s.pixel r c) :
    meets e x y sprite t p = meets e x y sprite s p := by
  unfold meets
  cases hspot : spot? e x y sprite p with
  | none => rfl
  | some q => exact h q.1 q.2 hspot

theorem any_congr_of_mem {α : Type} {ps : List α} {f g : α → Bool} (h : ∀ p ∈ ps, f p = g p) :
    ps.any f = ps.any g := by
  rw [Bool.eq_iff_iff, List.any_eq_true, List.any_eq_true]
  refine exists_congr fun p => and_congr_right ?_
  intro hp
  rw [h p hp]

/-- **Drawing some pixels of a sprite** turns over the places that they concern, and meets a pixel
    that is on exactly if one of these was on BEFORE. -/
theorem drawCells_eq (hx : x < 256) (hy : y < 256) (hsize : sprite.size ≤ 32) (s : Screen)
    (hit : Bool) (ps : List (Nat × Nat)) (hps : ∀ p ∈ ps, p.1 < sprite.size ∧ p.2 < 8)
    (hnodup : ps.Nodup) :
    ∃ t, ps.foldlM (drawCell e x y sprite) (s, hit) =
        some (t, hit || ps.any (meets e x y sprite s)) ∧
      ∀ r c, r < 32 → c < 64 →
        t.pixel r c = (s.pixel r c ^^ ps.any fun p => spot? e x y sprite p = some (r, c)) := by
  induction ps generalizing s hit with
  | nil => exact ⟨s, by simp, by simp⟩
  | cons p ps ih =>
    have hp := hps p (List.mem_cons_self ..)
    have hrest : ∀ q ∈ ps, q.1 < sprite.size ∧ q.2 < 8 := by
      intro q hq
      exact hps q (List.mem_cons_of_mem p hq)
    obtain ⟨hnew, hnodup⟩ := List.nodup_cons.1 hnodup
    obtain ⟨s', hcell, hpix⟩ := drawCell_eq (e := e) s hit hx hy hp hsize
    obtain ⟨t, hfold, htpix⟩ := ih s' (hit || meets e x y sprite s p) hrest hnodup
    -- a pixel that comes later concerns another place, which is as it was
    have hapart : ∀ q ∈ ps, ∀ place, spot? e x y sprite p = some place →
        spot? e x y sprite q ≠ some place := by
      intro q hq place hp' hq'
      have hpq : p = q := spot?_inj ⟨by omega, hp.2⟩
        ⟨by have := (hrest q hq).1; omega, (hrest q hq).2⟩ hp' hq'
      exact hnew (hpq ▸ hq)
    have hmeets : ∀ q ∈ ps, meets e x y sprite s' q = meets e x y sprite s q := by
      intro q hq
      apply meets_congr
      intro r c hspot
      obtain ⟨hr, hc⟩ := spot?_lt hspot
      have hne : spot? e x y sprite p ≠ some (r, c) := by
        intro h
        exact hapart q hq (r, c) h hspot
      rw [hpix r c hr hc, decide_eq_false hne, Bool.xor_false]
    refine ⟨t, ?_, ?_⟩
    · rw [List.foldlM_cons, hcell, Option.bind_eq_bind, Option.bind_some, hfold,
        any_congr_of_mem hmeets, List.any_cons, Bool.or_assoc]
    · intro r c hr hc
      rw [htpix r c hr hc, hpix r c hr hc, List.any_cons]
      by_cases hspot : spot? e x y sprite p = some (r, c)
      · have hnone : (ps.any fun q => spot? e x y sprite q = some (r, c)) = false := by
          rw [List.any_eq_false]
          intro q hq
          simpa using hapart q hq (r, c) hspot
        rw [hnone, Bool.xor_false, Bool.or_false]
      · rw [decide_eq_false hspot, Bool.xor_false, Bool.false_or]

/-! ## The sprite -/

/-- Some pixel of the sprite concerns a place exactly if the stamp is on there. -/
theorem any_spot_eq_pixel_stamp (e : Edge) (x y : Nat) {n : Nat} (hn : n ≤ 32)
    (sprite : Vector UInt8 n) {r c : Nat} (hr : r < 32) (hc : c < 64) :
    ((cells n).any fun p => spot? e x y sprite.toArray p = some (r, c)) =
      (Screen.stamp e x y sprite).pixel r c := by
  rw [Bool.eq_iff_iff, List.any_eq_true, Screen.pixel_stamp e x y hn sprite hr hc]
  simp only [decide_eq_true_eq, spot?_eq_some_iff]
  constructor
  · rintro ⟨⟨i, j⟩, hp, hi, hbit, hseen⟩
    obtain ⟨hi, hj⟩ := mem_cells.1 hp
    exact ⟨i, hi, j, hj, hbit, hseen⟩
  · rintro ⟨i, hi, j, hj, hbit, hseen⟩
    exact ⟨(i, j), mem_cells.2 ⟨hi, hj⟩, by simpa using hi, hbit, hseen⟩

/-- Some pixel of the sprite meets one that is on exactly if the stamp overlaps the screen. -/
theorem any_meets_eq_overlaps (e : Edge) (x y : Nat) {n : Nat} (hn : n ≤ 32)
    (sprite : Vector UInt8 n) (s : Screen) :
    (cells n).any (meets e x y sprite.toArray s) = s.overlaps (Screen.stamp e x y sprite) := by
  rw [Bool.eq_iff_iff, List.any_eq_true, Screen.overlaps_iff]
  constructor
  · rintro ⟨p, hp, hmeets⟩
    unfold meets at hmeets
    cases hspot : spot? e x y sprite.toArray p with
    | none => rw [hspot] at hmeets; cases hmeets
    | some q =>
      rw [hspot] at hmeets
      obtain ⟨hr, hc⟩ := spot?_lt hspot
      refine ⟨q.1, q.2, hmeets, ?_⟩
      rw [← any_spot_eq_pixel_stamp e x y hn sprite hr hc, List.any_eq_true]
      exact ⟨p, hp, decide_eq_true hspot⟩
  · rintro ⟨r, c, hon, hstamp⟩
    obtain ⟨hr, hc⟩ := Screen.lt_of_pixel hon
    rw [← any_spot_eq_pixel_stamp e x y hn sprite hr hc, List.any_eq_true] at hstamp
    obtain ⟨p, hp, hspot⟩ := hstamp
    refine ⟨p, hp, ?_⟩
    rw [meets, of_decide_eq_true hspot]
    exact hon

/-- **Drawing a sprite pixel by pixel never leaves the screen**, and comes to the `xor` with its
    stamp. -/
theorem drawSprite_eq (hx : x < 256) (hy : y < 256) {n : Nat} (hn : n ≤ 32)
    (sprite : Vector UInt8 n) (s : Screen) :
    drawSprite e x y sprite.toArray s =
      some (s.xor (Screen.stamp e x y sprite), s.overlaps (Screen.stamp e x y sprite)) := by
  have hsize : sprite.toArray.size = n := sprite.size_toArray
  obtain ⟨t, hfold, hpix⟩ := drawCells_eq (e := e) hx hy (hsize.symm ▸ hn) s false
    (cells sprite.toArray.size) (fun p hp => mem_cells.1 hp) (nodup_cells _)
  rw [hsize] at hfold hpix
  have hscreen : t = s.xor (Screen.stamp e x y sprite) := by
    apply Screen.ext_pixel
    intro r c hr hc
    rw [hpix r c hr hc, any_spot_eq_pixel_stamp e x y hn sprite hr hc, Screen.pixel_xor]
  rw [drawSprite, hsize, hfold, hscreen, any_meets_eq_overlaps e x y hn sprite s, Bool.false_or]

end Chip8.Guarded
