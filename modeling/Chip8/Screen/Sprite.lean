/-
  Sprites: small pictures, eight pixels wide, one byte for each row.

  1. **Stamping** — `stamp` makes a whole screen that shows the sprite ALONE, at its place and with
     the edge of the dialect applied.  The picture to be drawn on is then `xor`ed with the stamp,
     and the two collide if they overlap; neither step knows about the other.  A stamp is made row
     by row: look up which row of the sprite is seen, and move its eight pixels to their columns.

  2. **Where pixels are seen** — think of the sprite as lying on an endless plane.  `Edge.seen?`
     says where on the screen a point of the plane is seen, if at all.  `pixel_stamp` says that a
     stamp is just that: a pixel is on exactly if a pixel of the sprite that is on is seen there.

  A sprite is not higher than the screen, so no two of its rows land on one row.

  Mathlib-free.
-/
import Chip8.Dialect
import Chip8.Screen

namespace Chip8

/-! ## Rows and columns -/

/-- Which row of a sprite is seen in row `r` of the screen, when the sprite starts in row `y`. -/
def Edge.spriteRow? (e : Edge) (y r : Nat) : Option Nat :=
  match e with
  | .clip => if y ≤ r then some (r - y) else none
  | .wrap => some ((r + (32 - y % 32)) % 32)

/-- A byte at the left end of a row. -/
def lane (b : UInt8) : BitVec 64 := b.toBitVec ++ 0#56

/-- A row of pixels moved to the right by `x` columns. -/
def Edge.slide (e : Edge) (x : Nat) (row : BitVec 64) : BitVec 64 :=
  match e with
  | .clip => row >>> x
  | .wrap => row.rotateRight x

/-- The screen that shows the sprite alone, its upper left corner in row `y` and column `x`. -/
def Screen.stamp (e : Edge) (x y : Nat) {n : Nat} (sprite : Vector UInt8 n) : Screen :=
  ⟨Vector.ofFn fun r =>
    match (e.spriteRow? y r).bind fun i => sprite[i]? with
    | some b => e.slide x (lane b)
    | none => 0⟩

/-! ## Where pixels are seen -/

/-- Where on the screen a point in row `r`, column `c` of the plane is seen. -/
def Edge.seen? (e : Edge) (r c : Nat) : Option (Nat × Nat) :=
  match e with
  | .clip => if r < 32 ∧ c < 64 then some (r, c) else none
  | .wrap => some (r % 32, c % 64)

/-- Which column of a row is seen in column `c`, after the row was moved by `x`. -/
def Edge.laneColumn? (e : Edge) (x c : Nat) : Option Nat :=
  match e with
  | .clip => if x ≤ c then some (c - x) else none
  | .wrap => some ((c + (64 - x % 64)) % 64)

/-- The most significant bit of a byte is on the left, and behind its eight pixels there are
    none. -/
theorem getMsbD_lane (b : UInt8) (j : Nat) :
    (lane b).getMsbD j = (decide (j < 8) && b.toBitVec.getMsbD j) := by
  simp only [lane, BitVec.getMsbD_append]
  by_cases hj : j < 8
  · rw [if_neg (by omega)]; simp [hj]
  · simp [hj]

/-- Moving a row is looking it up in another column. -/
theorem Edge.getMsbD_slide (e : Edge) (x : Nat) (row : BitVec 64) {c : Nat} (hc : c < 64) :
    (e.slide x row).getMsbD c = ((e.laneColumn? x c).map row.getMsbD).getD false := by
  cases e with
  | clip =>
    simp only [slide, laneColumn?, BitVec.getMsbD_ushiftRight, hc, decide_true, Bool.true_and]
    by_cases hx : x ≤ c
    · simp [hx, Nat.not_lt.2 hx]
    · simp [hx, Nat.lt_of_not_le hx]
  | wrap =>
    simp only [slide, laneColumn?, BitVec.getMsbD_rotateRight, hc, decide_true, Bool.true_and,
      Option.map_some, Option.getD_some]
    split <;> exact congrArg row.getMsbD (by omega)

/-- **Looking up is the reverse of being seen**: row and column `r`, `c` of the screen look up
    pixel `i`, `j` of the sprite exactly if that pixel is seen there. -/
theorem Edge.seen?_eq_some_iff (e : Edge) {x y r c i j : Nat} (hi : i < 32) (hj : j < 8)
    (hr : r < 32) (hc : c < 64) :
    e.seen? (y + i) (x + j) = some (r, c) ↔
      e.spriteRow? y r = some i ∧ e.laneColumn? x c = some j := by
  cases e with
  | clip =>
    simp only [seen?, spriteRow?, laneColumn?]
    constructor
    · intro h
      split at h
      · simp only [Option.some.injEq, Prod.mk.injEq] at h
        obtain ⟨hrow, hcol⟩ := h
        subst hrow hcol
        simp
      · cases h
    · rintro ⟨hrow, hcol⟩
      split at hrow <;> split at hcol <;> simp only [Option.some.injEq, reduceCtorEq] at hrow hcol
      rw [if_pos (by omega)]
      simp only [Option.some.injEq, Prod.mk.injEq]
      omega
  | wrap =>
    simp only [seen?, spriteRow?, laneColumn?, Option.some.injEq, Prod.mk.injEq]
    omega

namespace Screen

/-- **A stamp shows the sprite and nothing else.** -/
theorem pixel_stamp (e : Edge) (x y : Nat) {n : Nat} (hn : n ≤ 32) (sprite : Vector UInt8 n)
    {r c : Nat} (hr : r < 32) (hc : c < 64) :
    (stamp e x y sprite).pixel r c = true ↔
      ∃ (i : Nat) (hi : i < n) (j : Nat), j < 8 ∧ sprite[i].toBitVec.getMsbD j = true ∧
        e.seen? (y + i) (x + j) = some (r, c) := by
  rw [pixel_of_lt _ _ hr]
  simp only [stamp, Vector.getElem_ofFn]
  constructor
  · intro h
    cases hrow : e.spriteRow? y r with
    | none => simp [hrow] at h
    | some i =>
      by_cases hi : i < n
      · simp only [hrow, Option.bind_some, Vector.getElem?_eq_getElem hi,
          e.getMsbD_slide _ _ hc] at h
        cases hcol : e.laneColumn? x c with
        | none => simp [hcol] at h
        | some j =>
          simp only [hcol, Option.map_some, Option.getD_some, getMsbD_lane, Bool.and_eq_true,
            decide_eq_true_eq] at h
          exact ⟨i, hi, j, h.1, h.2, (e.seen?_eq_some_iff (by omega) h.1 hr hc).2 ⟨hrow, hcol⟩⟩
      · -- the row looked up is below the sprite
        simp [hrow, hi] at h
  · rintro ⟨i, hi, j, hj, hbit, hseen⟩
    obtain ⟨hrow, hcol⟩ := (e.seen?_eq_some_iff (by omega) hj hr hc).1 hseen
    simp only [hrow, Option.bind_some, Vector.getElem?_eq_getElem hi, e.getMsbD_slide _ _ hc, hcol,
      Option.map_some, Option.getD_some, getMsbD_lane, hj, decide_true, Bool.true_and, hbit]

end Screen

end Chip8
