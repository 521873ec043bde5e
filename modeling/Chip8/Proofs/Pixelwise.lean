/-
  A drawing, pixel by pixel.

  A sprite is drawn by laying a whole stamp over the screen.  One can also say of each cell of the
  screen by itself what becomes of it, which needs no stamp and no order to draw in.

  1. **Landing** — where a pixel of the sprite lands is a matter of the edge: it lands where it is,
     or where it is modulo the height and the width of the screen.  A sprite is smaller than the
     screen, so no two of its pixels land in one cell (`Edge.Lands.unique`).

  2. **Hits** — a cell is HIT if a pixel that is on lands there.  The bytes of the sprite are those
     that the index points at, and pixel `j` of a byte is its bit `7 - j`.

  3. **The drawing** — the stamp shows the cells that are hit (`pixel_stamp_iff_hit`).  So these
     turn over, all others stay, and the flag says whether one of them was on.
-/
import Chip8.Proofs.Frame

namespace Chip8

/-! ## Landing -/

/-- The point of the plane in row `row`, column `col` lands in row `r`, column `c` of the screen. -/
def Edge.Lands (e : Edge) (row col r c : Nat) : Prop :=
  match e with
  | .clip => row = r ∧ col = c
  | .wrap => row % 32 = r ∧ col % 64 = c

instance (e : Edge) (row col r c : Nat) : Decidable (e.Lands row col r c) :=
  match e with
  | .clip => inferInstanceAs (Decidable (row = r ∧ col = c))
  | .wrap => inferInstanceAs (Decidable (row % 32 = r ∧ col % 64 = c))

namespace Edge

/-- Within the screen, a point lands where it is seen. -/
theorem seen?_eq_some_iff_lands (e : Edge) {row col r c : Nat} (hr : r < 32) (hc : c < 64) :
    e.seen? row col = some (r, c) ↔ e.Lands row col r c := by
  cases e with
  | clip =>
    simp only [seen?, Lands]
    constructor
    · intro h
      split at h
      · cases h
        exact ⟨rfl, rfl⟩
      · cases h
    · rintro ⟨rfl, rfl⟩
      exact if_pos ⟨hr, hc⟩
  | wrap => simp only [seen?, Lands, Option.some.injEq, Prod.mk.injEq]

/-- **No two pixels of a sprite land in one cell.** -/
theorem Lands.unique {e : Edge} {x y i j i' j' r c : Nat} (hi : i < 32) (hi' : i' < 32)
    (hj : j < 64) (hj' : j' < 64) (h : e.Lands (y + i) (x + j) r c)
    (h' : e.Lands (y + i') (x + j') r c) : i = i' ∧ j = j' := by
  cases e with
  | clip =>
    obtain ⟨hrow, hcol⟩ := h
    obtain ⟨hrow', hcol'⟩ := h'
    exact ⟨Nat.add_left_cancel (hrow.trans hrow'.symm), Nat.add_left_cancel (hcol.trans hcol'.symm)⟩
  | wrap =>
    -- two pixels that land in one cell are apart by whole screens, and a sprite is smaller than one
    obtain ⟨hrow, hcol⟩ := h
    obtain ⟨hrow', hcol'⟩ := h'
    constructor
    · omega
    · omega

end Edge

/-! ## Hits -/

namespace Machine

variable {K : Type}

/-- Pixel `j` of the byte `i` places behind the index: its bit `7 - j`. -/
def spritePixel (m : Machine K) (i j : Nat) : Bool :=
  (m.memory[m.index.toNat + i]?.getD 0).toNat.testBit (7 - j)

/-- Pixel `i`, `j` of the sprite at column `VX`, row `VY` is on and lands in row `r`, column `c`. -/
def HitBy (m : Machine K) (x y : Register) (i j r c : Nat) : Prop :=
  m.spritePixel i j = true ∧
    m.dialect.edge.Lands ((m.registers.read y).toNat + i) ((m.registers.read x).toNat + j) r c

instance (m : Machine K) (x y : Register) (i j r c : Nat) : Decidable (m.HitBy x y i j r c) :=
  inferInstanceAs (Decidable (_ ∧ _))

/-- **The cell in row `r`, column `c` is hit** by a pixel of the sprite. -/
def Hit (m : Machine K) (x y : Register) (rows : Fin 16) (r c : Nat) : Prop :=
  ∃ i < rows.val, ∃ j < 8, m.HitBy x y i j r c

instance (m : Machine K) (x y : Register) (rows : Fin 16) (r c : Nat) :
    Decidable (m.Hit x y rows r c) :=
  inferInstanceAs (Decidable (∃ i < rows.val, ∃ j < 8, m.HitBy x y i j r c))

/-- Some cell that is hit is on. -/
def Collides (m : Machine K) (x y : Register) (rows : Fin 16) : Prop :=
  ∃ r < 32, ∃ c < 64, m.screen.pixel r c = true ∧ m.Hit x y rows r c

instance (m : Machine K) (x y : Register) (rows : Fin 16) : Decidable (m.Collides x y rows) :=
  inferInstanceAs (Decidable (∃ r < 32, ∃ c < 64, m.screen.pixel r c = true ∧ m.Hit x y rows r c))

/-! ## The drawing -/

section

variable {m : Machine K} {rows : Fin 16} (hfits : Memory.Fits m.index.toNat rows.val)

/-- The rows of the sprite are the bytes behind the index, their pixels from the left. -/
theorem getMsbD_slice {i j : Nat} (hi : i < rows.val) (hj : j < 8) :
    ((m.memory.slice m.index.toNat rows.val hfits)[i]).toBitVec.getMsbD j = m.spritePixel i j := by
  have hm : m.index.toNat + i < 4096 := Memory.fits_iff.1 hfits i hi
  rw [Memory.getElem_slice m.memory hfits i hi hm, spritePixel, Vector.getElem?_eq_getElem hm,
    Option.getD_some, BitVec.getMsbD, decide_eq_true hj, Bool.true_and]
  rfl

/-- **The stamp shows the cells that are hit.** -/
theorem pixel_stamp_iff_hit (x y : Register) {r c : Nat} (hr : r < 32) (hc : c < 64) :
    (Screen.stamp m.dialect.edge (m.registers.read x).toNat (m.registers.read y).toNat
      (m.memory.slice m.index.toNat rows.val hfits)).pixel r c = true ↔ m.Hit x y rows r c := by
  rw [Screen.pixel_stamp _ _ _ (by omega) _ hr hc]
  constructor
  · rintro ⟨i, hi, j, hj, hon, hseen⟩
    rw [getMsbD_slice hfits hi hj] at hon
    exact ⟨i, hi, j, hj, hon, (m.dialect.edge.seen?_eq_some_iff_lands hr hc).1 hseen⟩
  · rintro ⟨i, hi, j, hj, hon, hlands⟩
    rw [← getMsbD_slice hfits hi hj] at hon
    exact ⟨i, hi, j, hj, hon, (m.dialect.edge.seen?_eq_some_iff_lands hr hc).2 hlands⟩

/-- **The cells that are hit turn over**, and the others stay. -/
theorem pixel_drawSprite (x y : Register) {r c : Nat} (hr : r < 32) (hc : c < 64) :
    (m.drawSprite x y (m.memory.slice m.index.toNat rows.val hfits)).screen.pixel r c =
      (m.screen.pixel r c ^^ decide (m.Hit x y rows r c)) := by
  rw [drawSprite, Screen.pixel_xor]
  congr 1
  rw [Bool.eq_iff_iff, decide_eq_true_iff]
  exact pixel_stamp_iff_hit hfits x y hr hc

/-- **The flag says whether one of them was on.** -/
theorem flag_drawSprite (x y : Register) :
    (m.drawSprite x y (m.memory.slice m.index.toNat rows.val hfits)).registers.read
      Registers.flag = if m.Collides x y rows then 1 else 0 := by
  have hcollides : m.screen.overlaps (Screen.stamp m.dialect.edge (m.registers.read x).toNat
      (m.registers.read y).toNat (m.memory.slice m.index.toNat rows.val hfits)) = true ↔
      m.Collides x y rows := by
    rw [Screen.overlaps_iff]
    constructor
    · rintro ⟨r, c, hon, hstamp⟩
      obtain ⟨hr, hc⟩ := Screen.lt_of_pixel hon
      exact ⟨r, hr, c, hc, hon, (pixel_stamp_iff_hit hfits x y hr hc).1 hstamp⟩
    · rintro ⟨r, hr, c, hc, hon, hhit⟩
      exact ⟨r, c, hon, (pixel_stamp_iff_hit hfits x y hr hc).2 hhit⟩
  rw [drawSprite, Registers.read_write, if_pos rfl, flagByte]
  by_cases h : m.Collides x y rows
  · rw [if_pos h, if_pos (hcollides.2 h)]
  · rw [if_neg h, if_neg (mt hcollides.1 h)]

omit hfits in
/-- The flag is the only register that changes. -/
theorem read_drawSprite_of_ne (x y : Register) {n : Nat} (sprite : Vector UInt8 n) {z : Register}
    (hz : z ≠ Registers.flag) :
    (m.drawSprite x y sprite).registers.read z = m.registers.read z :=
  (Registers.read_write ..).trans (if_neg hz.symm)

variable [KeySource K]

/-- A sprite that lies in memory is drawn. -/
theorem effect_draw_of_fits (x y : Register) :
    m.effect (.draw x y rows) =
      m.drawSprite x y (m.memory.slice m.index.toNat rows.val hfits) := by
  rw [effect, Memory.read_of_fits m.memory hfits]

/-- Executed by itself. -/
theorem execute_draw_of_fits (x y : Register) :
    m.execute (.draw x y rows) =
      .ok (m.drawSprite x y (m.memory.slice m.index.toNat rows.val hfits)) .drawn := by
  have hexecute := execute_of_no_fault (m := m) (i := .draw x y rows) (rangeFault?_of_fits hfits)
  rw [effect_draw_of_fits hfits] at hexecute
  exact hexecute

/-- Or by a cycle. -/
theorem cycle_draw_of_fits {x y : Register} {w : Opcode} (hfetch : m.fetch = .ok w)
    (hdecode : Instruction.decode w = .ok (.draw x y rows)) :
    m.cycle =
      .ok ((m.begin w).drawSprite x y (m.memory.slice m.index.toNat rows.val hfits)) .drawn := by
  have heffect := effect_draw_of_fits (m := m.begin w) hfits x y
  rw [cycle_of_no_fault hfetch hdecode (rangeFault?_of_fits hfits), heffect]
  rfl

end

/-- **A drawing is what it is pixel by pixel.**  If the sprite has no rows, or lies in memory, then
    it is drawn.  Each cell of the screen turns over exactly if it is hit by a pixel of the sprite
    at column `VX`, row `VY`, as these were before, and there is one such pixel at most.  The flag
    becomes one if a cell was hit that was on, and zero otherwise.  Nothing else changes.  A cycle
    that fetches the opcode does this, and what every cycle does. -/
theorem draw_pixelwise [KeySource K] (m : Machine K) (x y : Register) (rows : Fin 16)
    (hfits : rows.val = 0 ∨ m.index.toNat + rows.val ≤ 4096) :
    let o := m.execute (.draw x y rows)
    o.result = .ok .drawn ∧
    (∀ r c, r < 32 → c < 64 →
      o.state.screen.pixel r c = (m.screen.pixel r c ^^ decide (m.Hit x y rows r c))) ∧
    (∀ r c i j i' j', i < rows.val → j < 8 → i' < rows.val → j' < 8 →
      m.HitBy x y i j r c → m.HitBy x y i' j' r c → i = i' ∧ j = j') ∧
    o.state.registers.read Registers.flag = (if m.Collides x y rows then 1 else 0) ∧
    (∀ z, z ≠ Registers.flag → o.state.registers.read z = m.registers.read z) ∧
    o.state = { m with screen := o.state.screen, registers := o.state.registers } ∧
    ∀ w, m.fetch = .ok w → w.family = 0xD ∧ w.x = x ∧ w.y = y ∧ w.n = rows →
      m.cycle = .ok { o.state with
        lastOpcode := w
        pc := m.pc + 2
        delay := m.delay.tick
        sound := m.sound.tick } .drawn := by
  intro o
  have hfault : m.fault? (.draw x y rows) = none := rangeFault?_of_fits hfits
  have ho : o = .ok (m.drawSprite x y (m.memory.slice m.index.toNat rows.val hfits)) .drawn := by
    have hexec := execute_of_no_fault hfault
    rw [effect_draw_of_fits hfits] at hexec
    exact hexec
  rw [ho]
  refine ⟨rfl, fun r c hr hc => pixel_drawSprite hfits x y hr hc, ?_, flag_drawSprite hfits x y, ?_,
    rfl, ?_⟩
  · rintro r c i j i' j' hi hj hi' hj' ⟨-, h⟩ ⟨-, h'⟩
    exact h.unique (by omega) (by omega) (by omega) (by omega) h'
  · intro z hz
    exact (Registers.read_write ..).trans (if_neg hz.symm)
  · intro w hfetch hfields
    have hdecode : Instruction.decode w = .ok (.draw x y rows) :=
      Instruction.decode_eq_ok_iff.2 (Opcode.ofPair_eq_iff.2 hfields)
    have heffect := effect_draw_of_fits (m := m.begin w) hfits x y
    rw [cycle_of_no_fault hfetch hdecode hfault, heffect]
    rfl

/-- Two rows of a glyph are drawn around the lower right corner, at column 255 and row 31, on a
    screen whose last column is on.  The column comes from the flag register itself.  The corner
    goes out, which is a collision, the rows come in again on the left and on top, and a pixel in
    the middle stays on. -/
theorem draw_pixelwise_of_corner :
    let program : Array UInt8 := #[0xDF, 0x02]
    let m : Machine Keypad :=
      { ((powerOn .released { edge := .wrap } (.repeating #[])).load program).state with
        registers := (Registers.zeros.write 0xF 255).write 0 31
        screen := ⟨Vector.replicate 32 1⟩ }
    ((2 : Fin 16).val = 0 ∨ m.index.toNat + (2 : Fin 16).val ≤ 4096) ∧
    m.fetch = .ok 0xDF02 ∧
    m.cycle.result = .ok .drawn ∧
    m.cycle.state.registers.read 0xF = 1 ∧
    m.cycle.state.screen.pixel 31 63 = false ∧
    m.cycle.state.screen.pixel 0 2 = true ∧
    m.cycle.state.screen.pixel 5 63 = true := by
  intro program m
  have hfetch : m.fetch = .ok 0xDF02 :=
    fetch_of_overlay (p := program) (k := 0) rfl (by decide) rfl (by decide)
  have hfits : (2 : Fin 16).val = 0 ∨ m.index.toNat + (2 : Fin 16).val ≤ 4096 := by decide
  obtain ⟨-, hpixel, -, hflag, -, -, hcycle⟩ := draw_pixelwise m 0xF 0 2 hfits
  have hsprite : ∀ i j, (hi : i < 80) →
      m.spritePixel i j = Font.table[i].toNat.testBit (7 - j) := by
    intro i j hi
    have hbyte : m.memory[i] = Font.table[i] :=
      (Memory.getElem_overlay_of_outside .initial (by omega)
        (Or.inl (Nat.lt_trans hi (by decide)))).trans (Memory.getElem_initial i hi)
    rw [spritePixel, show m.index.toNat + i = i from Nat.zero_add i,
      Vector.getElem?_eq_getElem (by omega), hbyte]
    rfl
  have hcorner : m.Hit 0xF 0 2 31 63 := by
    refine ⟨0, by decide, 0, by decide, ?_, by decide⟩
    rw [hsprite 0 0 (by decide)]
    decide
  have htop : m.Hit 0xF 0 2 0 2 := by
    refine ⟨1, by decide, 3, by decide, ?_, by decide⟩
    rw [hsprite 1 3 (by decide)]
    decide
  have hmiddle : ¬ m.Hit 0xF 0 2 5 63 := by
    rintro ⟨i, hi, j, hj, -, hlands, -⟩
    have hrow : (31 + i) % 32 = 5 := hlands
    omega
  rw [hcycle 0xDF02 hfetch ⟨rfl, rfl, rfl, rfl⟩]
  refine ⟨hfits, hfetch, rfl, ?_, ?_, ?_, ?_⟩
  · exact hflag.trans (if_pos ⟨31, by decide, 63, by decide, by decide, hcorner⟩)
  · exact (hpixel 31 63 (by decide) (by decide)).trans (by rw [decide_eq_true hcorner]; decide)
  · exact (hpixel 0 2 (by decide) (by decide)).trans (by rw [decide_eq_true htop]; decide)
  · exact (hpixel 5 63 (by decide) (by decide)).trans (by rw [decide_eq_false hmiddle]; decide)

end Machine

end Chip8
