/-
  The screen: 32 rows of 64 pixels, each on or off.

  A row is a word of 64 bits whose MOST significant bit is the pixel on the left.  `pixel s r c`
  is the view that everything else is told through: two screens with the same pixels are the same
  (`ext_pixel`), `xor` acts pixel by pixel (`pixel_xor`), and two screens overlap if some pixel is
  on in both (`overlaps_iff`).

  Mathlib-free.
-/

namespace Chip8

/-- How many pixels a row has. -/
def screenWidth : Nat := 64

/-- How many rows there are. -/
def screenHeight : Nat := 32

/-- How many pixels there are. -/
def screenResolution : Nat := screenWidth * screenHeight

/-- A picture of 32 rows. -/
structure Screen where
  rows : Vector (BitVec 64) 32
  deriving DecidableEq

namespace Screen

/-- Every pixel is off. -/
def blank : Screen := ⟨Vector.replicate 32 0⟩

/-- Is the pixel in row `r` and column `c` on?  Outside the screen nothing is. -/
def pixel (s : Screen) (r c : Nat) : Bool := (s.rows[r]?.getD 0).getMsbD c

/-- The pixels that are on in exactly one of two screens. -/
def xor (s t : Screen) : Screen := ⟨Vector.zipWith (· ^^^ ·) s.rows t.rows⟩

/-- Is some pixel on in both? -/
def overlaps (s t : Screen) : Bool :=
  (Vector.zipWith (· &&& ·) s.rows t.rows).any (· != 0)

/-! ## Pixel by pixel -/

theorem pixel_of_lt (s : Screen) {r : Nat} (c : Nat) (hr : r < 32) :
    s.pixel r c = s.rows[r].getMsbD c := by
  rw [pixel, Vector.getElem?_eq_getElem hr, Option.getD_some]

theorem pixel_blank (r c : Nat) : blank.pixel r c = false := by
  by_cases hr : r < 32
  · rw [pixel_of_lt _ _ hr]; simp [blank]
  · rw [pixel, Vector.getElem?_eq_none (by omega)]; simp

/-- A pixel that is on is on the screen. -/
theorem lt_of_pixel {s : Screen} {r c : Nat} (h : s.pixel r c = true) : r < 32 ∧ c < 64 := by
  have hr : r < 32 := by
    rcases Nat.lt_or_ge r 32 with hlt | hge
    · exact hlt
    · rw [pixel, Vector.getElem?_eq_none hge] at h
      simp at h
  rw [pixel_of_lt _ _ hr] at h
  exact ⟨hr, BitVec.lt_of_getMsbD h⟩

/-- **A screen is its pixels.** -/
theorem ext_pixel {s t : Screen} (h : ∀ r c, r < 32 → c < 64 → s.pixel r c = t.pixel r c) :
    s = t := by
  obtain ⟨sr⟩ := s
  obtain ⟨tr⟩ := t
  congr 1
  apply Vector.ext
  intro r hr
  apply BitVec.eq_of_getMsbD_eq
  intro c hc
  have := h r c hr hc
  rwa [pixel_of_lt _ _ hr, pixel_of_lt _ _ hr] at this

/-- **`xor` acts on every pixel by itself.** -/
theorem pixel_xor (s t : Screen) (r c : Nat) :
    (s.xor t).pixel r c = (s.pixel r c ^^ t.pixel r c) := by
  by_cases hr : r < 32
  · simp only [pixel_of_lt _ _ hr]; simp [xor]
  · simp only [pixel, Vector.getElem?_eq_none (show 32 ≤ r by omega)]; simp

/-- A row that is not all off has a pixel that is on. -/
theorem exists_getMsbD_of_ne_zero {w : BitVec 64} (h : w ≠ 0) : ∃ c, c < 64 ∧ w.getMsbD c = true := by
  refine Classical.byContradiction fun hno => h (BitVec.eq_of_getMsbD_eq fun c hc => ?_)
  rw [show BitVec.getMsbD 0 c = false by simp]
  exact Bool.eq_false_iff.2 fun ht => hno ⟨c, hc, ht⟩

/-- **Overlapping means sharing a pixel.** -/
theorem overlaps_iff (s t : Screen) :
    s.overlaps t = true ↔ ∃ r c, s.pixel r c = true ∧ t.pixel r c = true := by
  simp only [overlaps, Vector.any_eq_true, Vector.getElem_zipWith, bne_iff_ne]
  constructor
  · rintro ⟨r, hr, hne⟩
    obtain ⟨c, hc, hon⟩ := exists_getMsbD_of_ne_zero hne
    rw [BitVec.getMsbD_and, Bool.and_eq_true] at hon
    exact ⟨r, c, by rw [pixel_of_lt _ _ hr]; exact hon.1, by rw [pixel_of_lt _ _ hr]; exact hon.2⟩
  · rintro ⟨r, c, hs, ht⟩
    by_cases hr : r < 32
    · refine ⟨r, hr, fun h0 => ?_⟩
      rw [pixel_of_lt _ _ hr] at hs ht
      have hand := BitVec.getMsbD_and (x := s.rows[r]) (y := t.rows[r]) (i := c)
      rw [h0, hs, ht] at hand
      simp at hand
    · rw [pixel, Vector.getElem?_eq_none (by omega)] at hs
      simp at hs

end Screen

end Chip8
