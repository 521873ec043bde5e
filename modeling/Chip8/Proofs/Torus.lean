/-
  A screen whose edges wrap is a torus.

  With the wrapping edge there is no place on the screen that is like no other.  Roll the picture
  down and to the right, move the place of a sprite by as much, and the drawing is the one from
  before, rolled.

  1. **Rolling** — what is pushed out on one side comes in again on the other: the pixel of row `r`
     and column `c` is found `down` rows further down and `right` columns further to the right,
     modulo the height and the width (`pixel_roll`).

  2. **Three moduli** — the coordinates of a sprite are bytes, so they wrap at 256; rows wrap at 32
     and columns at 64.  Both of these divide 256, and so it makes no difference that the bytes wrap
     first (`Edge.lands_wrap_moved`).

  3. **The law** — cells that are hit move along with the sprite, and the picture along with them,
     so what is drawn moves along too and the flag is the same (`draw_on_torus`).
-/
import Chip8.Proofs.Pixelwise

namespace Chip8

/-! ## Rolling -/

/-- What is rolled on by `n` places, modulo `size`, comes to every place from somewhere. -/
theorem exists_rolled_to (n : Nat) {size k : Nat} (hk : k < size) :
    ∃ j < size, (j + n) % size = k := by
  have hsize : 0 < size := Nat.zero_lt_of_lt hk
  have hn : n % size < size := Nat.mod_lt n hsize
  refine ⟨(k + (size - n % size)) % size, Nat.mod_lt _ hsize, ?_⟩
  -- going back by the remainder of `n` and on by `n` are a whole number of rounds
  rw [Nat.mod_add_mod, ← Nat.add_mod_mod, Nat.add_assoc, Nat.sub_add_cancel (Nat.le_of_lt hn),
    Nat.add_mod_right, Nat.mod_eq_of_lt hk]

namespace Screen

/-- The picture rolled down by `down` rows and to the right by `right` columns. -/
def roll (s : Screen) (down right : Nat) : Screen :=
  ⟨Vector.ofFn fun r => s.rows[r - Fin.ofNat 32 down].rotateRight right⟩

/-- **Each pixel is found further down and further to the right**, modulo the size of the
    screen. -/
theorem pixel_roll (s : Screen) (down right : Nat) {r c : Nat} (hr : r < 32) (hc : c < 64) :
    (s.roll down right).pixel ((r + down) % 32) ((c + right) % 64) = s.pixel r c := by
  have hrow : (r + down) % 32 < 32 := Nat.mod_lt _ (by decide)
  have hcol : (c + right) % 64 < 64 := Nat.mod_lt _ (by decide)
  have hback : (32 - down % 32 + (r + down) % 32) % 32 = r := by omega
  rw [pixel_of_lt _ _ hrow, pixel_of_lt _ _ hr, roll]
  simp only [Vector.getElem_ofFn, Fin.getElem_fin, Fin.val_sub, Fin.val_ofNat, hback,
    BitVec.getMsbD_rotateRight, hcol, decide_true, Bool.true_and]
  split <;> exact congrArg s.rows[r].getMsbD (by omega)

/-- **A rolled picture is known by where it has its pixels.** -/
theorem eq_roll {s t : Screen} {down right : Nat}
    (h : ∀ r < 32, ∀ c < 64, t.pixel ((r + down) % 32) ((c + right) % 64) = s.pixel r c) :
    t = s.roll down right := by
  apply ext_pixel
  intro r' c' hr' hc'
  obtain ⟨r, hr, rfl⟩ := exists_rolled_to down hr'
  obtain ⟨c, hc, rfl⟩ := exists_rolled_to right hc'
  rw [h r hr c hc, pixel_roll s down right hr hc]

end Screen

/-- **Points land further down and further to the right** when they are moved by as much, be it on
    the plane or through bytes that wrap at 256. -/
theorem Edge.lands_wrap_moved (x y a b : UInt8) (i j : Nat) {r c : Nat} (hr : r < 32)
    (hc : c < 64) :
    Edge.wrap.Lands ((y + b).toNat + i) ((x + a).toNat + j) ((r + b.toNat) % 32)
        ((c + a.toNat) % 64) ↔
      Edge.wrap.Lands (y.toNat + i) (x.toNat + j) r c := by
  simp only [Lands, UInt8.toNat_add]
  constructor
  · rintro ⟨hrow, hcol⟩
    omega
  · rintro ⟨hrow, hcol⟩
    omega

namespace Machine

variable {K : Type}

/-! ## Moving -/

/-- The machine with its picture rolled down by `b` and to the right by `a`, and with a sprite at
    column `VX`, row `VY` moved by as much. -/
def moved (m : Machine K) (x y : Register) (a b : UInt8) : Machine K :=
  { m with
    screen := m.screen.roll b.toNat a.toNat
    registers := (m.registers.write x (m.registers.read x + a)).write y (m.registers.read y + b) }

/-- Each cell is where it has been rolled to. -/
theorem pixel_moved (m : Machine K) (x y : Register) (a b : UInt8) {r c : Nat} (hr : r < 32)
    (hc : c < 64) :
    (m.moved x y a b).screen.pixel ((r + b.toNat) % 32) ((c + a.toNat) % 64) =
      m.screen.pixel r c :=
  m.screen.pixel_roll b.toNat a.toNat hr hc

section

variable {m : Machine K} (hwrap : m.dialect.edge = .wrap) {x y : Register} (hxy : x ≠ y)
  (rows : Fin 16) (a b : UInt8)

include hwrap hxy

/-- **The cells that are hit move along with the sprite.** -/
theorem hit_moved_iff {r c : Nat} (hr : r < 32) (hc : c < 64) :
    (m.moved x y a b).Hit x y rows ((r + b.toNat) % 32) ((c + a.toNat) % 64) ↔
      m.Hit x y rows r c := by
  have hcolumn : (m.moved x y a b).registers.read x = m.registers.read x + a := by
    rw [moved, Registers.read_write, if_neg hxy.symm, Registers.read_write, if_pos rfl]
  have hrow : (m.moved x y a b).registers.read y = m.registers.read y + b := by
    rw [moved, Registers.read_write, if_pos rfl]
  have hpixel : ∀ i j, (m.moved x y a b).spritePixel i j = m.spritePixel i j := fun _ _ => rfl
  have hedge : (m.moved x y a b).dialect.edge = .wrap := hwrap
  simp only [Hit, HitBy, hpixel, hcolumn, hrow, hedge, hwrap,
    Edge.lands_wrap_moved _ _ a b _ _ hr hc]

/-- **So they meet what they met before.** -/
theorem collides_moved_iff : (m.moved x y a b).Collides x y rows ↔ m.Collides x y rows := by
  constructor
  · rintro ⟨r', hr', c', hc', hon, hhit⟩
    obtain ⟨r, hr, rfl⟩ := exists_rolled_to b.toNat hr'
    obtain ⟨c, hc, rfl⟩ := exists_rolled_to a.toNat hc'
    rw [m.pixel_moved x y a b hr hc] at hon
    exact ⟨r, hr, c, hc, hon, (hit_moved_iff hwrap hxy rows a b hr hc).1 hhit⟩
  · rintro ⟨r, hr, c, hc, hon, hhit⟩
    refine ⟨_, Nat.mod_lt _ (by decide), _, Nat.mod_lt _ (by decide), ?_,
      (hit_moved_iff hwrap hxy rows a b hr hc).2 hhit⟩
    rw [m.pixel_moved x y a b hr hc]
    exact hon

/-- **What is drawn moves along too.** -/
theorem screen_drawSprite_moved (hfits : Memory.Fits m.index.toNat rows.val) :
    ((m.moved x y a b).drawSprite x y (m.memory.slice m.index.toNat rows.val hfits)).screen =
      (m.drawSprite x y (m.memory.slice m.index.toNat rows.val hfits)).screen.roll b.toNat
        a.toNat := by
  apply Screen.eq_roll
  intro r hr c hc
  have hdrawn := pixel_drawSprite (m := m.moved x y a b) hfits x y
    (Nat.mod_lt (r + b.toNat) (by decide)) (Nat.mod_lt (c + a.toNat) (by decide))
  refine hdrawn.trans ?_
  rw [pixel_drawSprite hfits x y hr hc, m.pixel_moved x y a b hr hc]
  congr 1
  exact decide_eq_decide.2 (hit_moved_iff hwrap hxy rows a b hr hc)

/-- **And the flag is the same.** -/
theorem flag_drawSprite_moved (hfits : Memory.Fits m.index.toNat rows.val) :
    ((m.moved x y a b).drawSprite x y
        (m.memory.slice m.index.toNat rows.val hfits)).registers.read Registers.flag =
      (m.drawSprite x y (m.memory.slice m.index.toNat rows.val hfits)).registers.read
        Registers.flag := by
  have hflag := flag_drawSprite (m := m.moved x y a b) hfits x y
  rw [flag_drawSprite hfits x y]
  refine hflag.trans ?_
  simp only [collides_moved_iff hwrap hxy rows a b]

end

/-! ## The law -/

/-- **With the wrapping edge, the screen is a torus.**  Take a machine whose edge wraps, two
    registers, and a sprite that lies in memory.  Roll the picture down by `b` and to the right by
    `a`, and add as much to the registers that hold row and column.  Then both machines draw, and
    the second picture is the first one rolled by as much.  The flag is the same for both, the
    other registers are as they were, and nothing else tells the two apart.  The same is true of
    cycles that fetch the opcode. -/
theorem draw_on_torus [KeySource K] (m : Machine K) (hwrap : m.dialect.edge = .wrap)
    (x y : Register) (hxy : x ≠ y) (rows : Fin 16)
    (hfits : rows.val = 0 ∨ m.index.toNat + rows.val ≤ 4096) (a b : UInt8) :
    let m' := m.moved x y a b
    let o := m.execute (.draw x y rows)
    let o' := m'.execute (.draw x y rows)
    o.result = .ok .drawn ∧ o'.result = .ok .drawn ∧
    o'.state.screen = o.state.screen.roll b.toNat a.toNat ∧
    o'.state.registers.read Registers.flag = o.state.registers.read Registers.flag ∧
    (∀ z, z ≠ Registers.flag → o'.state.registers.read z = m'.registers.read z) ∧
    o'.state = { o.state with screen := o'.state.screen, registers := o'.state.registers } ∧
    ∀ w, m.fetch = .ok w → w.family = 0xD ∧ w.x = x ∧ w.y = y ∧ w.n = rows →
      let c := m.cycle
      let c' := m'.cycle
      c.result = .ok .drawn ∧ c'.result = .ok .drawn ∧
      c'.state.screen = c.state.screen.roll b.toNat a.toNat ∧
      c'.state.registers.read Registers.flag = c.state.registers.read Registers.flag ∧
      (∀ z, z ≠ Registers.flag → c'.state.registers.read z = m'.registers.read z) ∧
      c'.state = { c.state with screen := c'.state.screen, registers := c'.state.registers } := by
  intro m' o o'
  have hscreen := screen_drawSprite_moved hwrap hxy rows a b hfits
  have hflag := flag_drawSprite_moved hwrap hxy rows a b hfits
  have ho : o = .ok (m.drawSprite x y (m.memory.slice m.index.toNat rows.val hfits)) .drawn :=
    execute_draw_of_fits hfits x y
  have ho' : o' = .ok (m'.drawSprite x y (m.memory.slice m.index.toNat rows.val hfits)) .drawn :=
    execute_draw_of_fits (m := m') hfits x y
  rw [ho, ho']
  refine ⟨rfl, rfl, hscreen, hflag, ?_, rfl, ?_⟩
  · intro z hz
    exact read_drawSprite_of_ne x y _ hz
  · intro w hfetch hfields c c'
    have hdecode : Instruction.decode w = .ok (.draw x y rows) :=
      Instruction.decode_eq_ok_iff.2 (Opcode.ofPair_eq_iff.2 hfields)
    have hc := cycle_draw_of_fits hfits hfetch hdecode
    have hc' := cycle_draw_of_fits (m := m') hfits hfetch hdecode
    rw [show c = _ from hc, show c' = _ from hc']
    refine ⟨rfl, rfl, hscreen, hflag, ?_, rfl⟩
    intro z hz
    exact read_drawSprite_of_ne x y _ hz

/-- A zero is drawn across the lower right corner, on a screen whose last column is on, and again
    with everything moved by ten columns and five rows, where no edge is near.  The column comes
    from the flag register itself, and moving it wraps at 256. -/
theorem draw_on_torus_of_zero :
    let program : Array UInt8 := #[0xDF, 0x05]
    let m : Machine Keypad :=
      { ((powerOn .released { edge := .wrap } (.repeating #[])).load program).state with
        registers := (Registers.zeros.write 0xF 253).write 0 30
        screen := ⟨Vector.replicate 32 1⟩ }
    let m' := m.moved 0xF 0 10 5
    (m.dialect.edge = .wrap ∧ (0xF : Register) ≠ 0) ∧
    ((5 : Fin 16).val = 0 ∨ m.index.toNat + (5 : Fin 16).val ≤ 4096) ∧
    m.fetch = .ok 0xDF05 ∧
    (m'.registers.read 0xF = 7 ∧ m'.registers.read 0 = 35) ∧
    m'.cycle.state.screen = m.cycle.state.screen.roll 5 10 ∧
    m'.cycle.state.registers.read 0xF = m.cycle.state.registers.read 0xF := by
  intro program m m'
  have hfetch : m.fetch = .ok 0xDF05 :=
    fetch_of_overlay (p := program) (k := 0) rfl (by decide) rfl (by decide)
  have hfits : (5 : Fin 16).val = 0 ∨ m.index.toNat + (5 : Fin 16).val ≤ 4096 := by decide
  obtain ⟨-, -, -, -, -, -, hcycle⟩ := draw_on_torus m rfl 0xF 0 (by decide) 5 hfits 10 5
  obtain ⟨-, -, hscreen, hflag, -, -⟩ := hcycle 0xDF05 hfetch ⟨rfl, rfl, rfl, rfl⟩
  have hmoved : m' = m.moved 0xF 0 10 5 := rfl
  refine ⟨⟨rfl, by decide⟩, hfits, hfetch, ⟨by decide, by decide⟩, ?_, ?_⟩
  · rw [hmoved]
    exact hscreen
  · rw [hmoved]
    exact hflag

end Machine

end Chip8
