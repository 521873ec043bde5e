/-
  Dialects change nothing but what they name.

  Take one machine in two dialects and do the same to both.  They can tell the difference in two
  places only: a shift of a register where `VX` and `VY` are not the same, and a sprite that sticks
  out of the screen.

  1. **Sprites** — a sprite that overhangs need not stick out: only the pixels that are ON count.
     If all of these are inside, the stamp is the same with either edge (`Inside.stamp_eq`), and so
     are the picture and the collision.

  2. **Neutral instructions** — an instruction is NEUTRAL if it is none of the two, as far as the
     two dialects differ at all.  Its effect is the same in both (`effect_withDialect`).  What keeps
     an instruction from running, where it leads and what it reports are no matter of the dialect to
     begin with.

  3. **Runs** — as long as what is fetched is neutral, both runs report the same and are the same
     machine, in two dialects (`dialects_agree`).  That is asked of ONE of the two runs only.
-/
import Chip8.Proofs.History
import Chip8.Proofs.SameWay

namespace Chip8

/-! ## Sprites -/

/-- No pixel of the sprite that is on is past the right or the lower end of the screen, the upper
    left corner being in column `x` and row `y`. -/
def Inside (x y : Nat) {n : Nat} (sprite : Vector UInt8 n) : Prop :=
  ∀ (i : Nat) (hi : i < n) (j : Nat), j < 8 → sprite[i].toBitVec.getMsbD j = true →
    x + j < 64 ∧ y + i < 32

/-- What is on the screen is seen where it is. -/
theorem Edge.seen?_of_lt (e : Edge) {r c : Nat} (hr : r < 32) (hc : c < 64) :
    e.seen? r c = some (r, c) := by
  cases e with
  | clip => exact if_pos ⟨hr, hc⟩
  | wrap => rw [seen?, Nat.mod_eq_of_lt hr, Nat.mod_eq_of_lt hc]

namespace Inside

variable {x y n : Nat} {sprite : Vector UInt8 n}

/-- The pixels that are on stay where they are, whatever the edge does to others. -/
theorem pixel_stamp_iff (h : Inside x y sprite) (hn : n ≤ 32) (e : Edge) {r c : Nat} (hr : r < 32)
    (hc : c < 64) :
    (Screen.stamp e x y sprite).pixel r c = true ↔
      ∃ (i : Nat) (hi : i < n) (j : Nat), j < 8 ∧ sprite[i].toBitVec.getMsbD j = true ∧
        (y + i, x + j) = (r, c) := by
  rw [Screen.pixel_stamp e x y hn sprite hr hc]
  constructor
  · rintro ⟨i, hi, j, hj, hon, hseen⟩
    obtain ⟨hcol, hrow⟩ := h i hi j hj hon
    rw [e.seen?_of_lt hrow hcol] at hseen
    exact ⟨i, hi, j, hj, hon, Option.some.inj hseen⟩
  · rintro ⟨i, hi, j, hj, hon, hplace⟩
    obtain ⟨hcol, hrow⟩ := h i hi j hj hon
    refine ⟨i, hi, j, hj, hon, ?_⟩
    rw [e.seen?_of_lt hrow hcol, hplace]

/-- **The edge does nothing to a sprite that does not stick out**, overhang or not. -/
theorem stamp_eq (h : Inside x y sprite) (hn : n ≤ 32) (e e' : Edge) :
    Screen.stamp e x y sprite = Screen.stamp e' x y sprite := by
  apply Screen.ext_pixel
  intro r c hr hc
  rw [Bool.eq_iff_iff, h.pixel_stamp_iff hn e hr hc, h.pixel_stamp_iff hn e' hr hc]

-- Both sprites overhang.  The four pixels that are on just fit, and one column further they do not.
example : Screen.stamp .clip 60 0 #v[0xF0] = Screen.stamp .wrap 60 0 #v[0xF0] := by decide
example : Screen.stamp .clip 61 0 #v[0xF0] ≠ Screen.stamp .wrap 61 0 #v[0xF0] := by decide

end Inside

/-! ## Shifts -/

/-- Of two bytes that are the same, it does not matter which one is shifted. -/
theorem Dialect.shifted_self (d : Dialect) (b : UInt8) : d.shifted b b = b := by
  unfold shifted
  split
  · rfl
  · rfl

/-- Dialects that shift the same register shift the same byte. -/
theorem Dialect.shifted_congr {d d' : Dialect} (h : d'.shiftSource = d.shiftSource) (a b : UInt8) :
    d'.shifted a b = d.shifted a b := by
  rw [shifted, shifted, h]

namespace Machine

variable {K : Type}

/-! ## Neutral instructions -/

/-- The machine in another dialect. -/
def withDialect (m : Machine K) (d : Dialect) : Machine K := { m with dialect := d }

/-- What is fetched, what keeps an instruction from running, where it leads and what it reports is
    no matter of the dialect. -/
theorem sameWay_withDialect [KeySource K] (m : Machine K) (d : Dialect) :
    m.SameWay (m.withDialect d) where
  fetch := rfl
  fault? := fault?_congr rfl rfl
  flow := flow_congr rfl rfl (.refl _)
  report := report_congr (.refl _)

/-- **An instruction that dialect `d` has nothing to say about**, or nothing but what the dialect of
    the machine says too. -/
structure Neutral (m : Machine K) (d : Dialect) (i : Instruction) : Prop where
  /-- `8XY6` and `8XYE` shift the same byte. -/
  shift : d.shiftSource ≠ m.dialect.shiftSource → ∀ x y,
    i = .alu .shiftRight x y ∨ i = .alu .shiftLeft x y → m.registers.read x = m.registers.read y
  /-- `DXYN` draws a sprite that does not stick out, if it draws one at all. -/
  edge : d.edge ≠ m.dialect.edge → ∀ x y rows (hfits : Memory.Fits m.index.toNat rows.val),
    i = .draw x y rows →
      Inside (m.registers.read x).toNat (m.registers.read y).toNat
        (m.memory.slice m.index.toNat rows.val hfits)

variable {m : Machine K} {d : Dialect}

/-- The beginning of a cycle has no say in that. -/
theorem Neutral.begin {i : Instruction} (h : m.Neutral d i) (o : Opcode) :
    (m.begin o).Neutral d i := ⟨h.shift, h.edge⟩

/-- **A neutral operation leaves the same registers.** -/
theorem operate_withDialect {op : AluOp} {x y : Register} (h : m.Neutral d (.alu op x y)) :
    (m.withDialect d).operate op x y = m.operate op x y := by
  by_cases hsource : d.shiftSource = m.dialect.shiftSource
  · simp only [operate, withDialect, Dialect.shifted_congr hsource]
  · -- only the two shifts look at the byte that the dialect picks
    cases op with
    | shiftRight =>
      have hsame := h.shift hsource x y (Or.inl rfl)
      simp only [operate, withDialect, hsame, Dialect.shifted_self]
    | shiftLeft =>
      have hsame := h.shift hsource x y (Or.inr rfl)
      simp only [operate, withDialect, hsame, Dialect.shifted_self]
    | _ => rfl

/-- **A neutral sprite leaves the same picture and the same flag.** -/
theorem drawSprite_withDialect {x y : Register} {rows : Fin 16}
    (hfits : Memory.Fits m.index.toNat rows.val) (h : m.Neutral d (.draw x y rows)) :
    let sprite := m.memory.slice m.index.toNat rows.val hfits
    (m.withDialect d).drawSprite x y sprite = (m.drawSprite x y sprite).withDialect d := by
  intro sprite
  have hstamp : Screen.stamp d.edge (m.registers.read x).toNat (m.registers.read y).toNat sprite =
      Screen.stamp m.dialect.edge (m.registers.read x).toNat (m.registers.read y).toNat sprite := by
    by_cases hedge : d.edge = m.dialect.edge
    · rw [hedge]
    · exact (h.edge hedge x y rows hfits rfl).stamp_eq (by omega) _ _
  simp only [drawSprite, withDialect, hstamp]

/-- **A neutral instruction has the same effect in both dialects.** -/
theorem effect_withDialect [KeySource K] {i : Instruction} (h : m.Neutral d i) :
    (m.withDialect d).effect i = (m.effect i).withDialect d := by
  cases i with
  | alu op x y =>
    simp only [effect, operate_withDialect h]
    rfl
  | draw x y rows =>
    have hread : (m.withDialect d).memory.read (m.withDialect d).index.toNat rows.val =
        m.memory.read m.index.toNat rows.val := rfl
    by_cases hfits : Memory.Fits m.index.toNat rows.val
    · simp only [effect, hread, Memory.read_of_fits m.memory hfits, drawSprite_withDialect hfits h]
    · simp only [effect, hread, Memory.read_of_not_fits m.memory hfits]
  | load x =>
    simp only [effect, withDialect]
    cases m.memory.read m.index.toNat (x.val + 1) <;> rfl
  | waitKey x =>
    simp only [effect, withDialect]
    cases lowestDown m.keys <;> rfl
  | _ => rfl

/-! ## Runs -/

/-- What the event has executed, if anything, is neutral. -/
def NeutralAt (d : Dialect) (m : Machine K) (e : Event K) : Prop :=
  e = .cycle → ∀ i : Instruction, m.fetch = .ok i.encode → m.Neutral d i

/-- It is enough to look at the instruction of the opcode. -/
theorem neutralAt_of_fetch {m : Machine K} {d : Dialect} {o : Opcode} {i : Instruction}
    (hfetch : m.fetch = .ok o) (hdecode : Instruction.decode o = .ok i) (h : m.Neutral d i) :
    NeutralAt d m .cycle := by
  intro _ j hj
  rw [hfetch] at hj
  cases hj
  rw [Instruction.decode_encode] at hdecode
  cases hdecode
  exact h

variable [KeySource K]

/-- Whatever is done aside is no matter of the dialect. -/
theorem keptAside_withDialect (d : Dialect) :
    KeptAside fun m m' : Machine K => m' = m.withDialect d where
  sameWay := by
    rintro m _ rfl
    exact m.sameWay_withDialect d
  aside := by
    rintro m _ rfl note memory pc delay sound keys
    rfl
  reset := by
    rintro m _ rfl
    rfl

/-- **A neutral event** goes the same in both dialects. -/
theorem perform_withDialect {m : Machine K} {d : Dialect} {e : Event K} (h : NeutralAt d m e) :
    Outcome.Related (fun a b => b = a.withDialect d) (m.perform e)
      ((m.withDialect d).perform e) := by
  refine (keptAside_withDialect d).perform rfl ?_
  rintro he i hfetch -
  exact effect_withDialect ((h he i hfetch).begin i.encode)

/-- **Two dialects of one machine run alike**, as long as what is executed is neutral. -/
theorem run_withDialect {m : Machine K} {d : Dialect} {es : List (Event K)}
    (h : m.Throughout (NeutralAt d) es) :
    (m.withDialect d).results es = m.results es ∧
    (m.withDialect d).after es = (m.after es).withDialect d := by
  apply in_step (R := fun m m' => m' = m.withDialect d) _ rfl h
  rintro m _ e rfl hneutral
  obtain ⟨hresult, hstate⟩ := perform_withDialect hneutral
  exact ⟨hresult, hstate⟩

/-- The dialect never changes. -/
theorem dialect_after (m : Machine K) (es : List (Event K)) : (m.after es).dialect = m.dialect := by
  rw [after_eq_afterAll, dialect_afterAll]

/-- **Dialects change nothing but what they name.**  Take a machine in two dialects, and do the same
    to both.  Suppose that every shift that is executed finds the same in both of its registers, if
    the dialects differ on shifts, and that every sprite that is drawn has no pixel that is on past
    an end of the screen, if they differ on edges.  Then both report the same, and after every
    single event they are the same but for their dialects.  And whatever is done to a machine, its
    dialect never changes. -/
theorem dialects_agree (m : Machine K) (d : Dialect) (es : List (Event K)) :
    (m.Throughout (NeutralAt d) es →
      (m.withDialect d).results es = m.results es ∧
      ∀ k, (m.withDialect d).after (es.take k) = (m.after (es.take k)).withDialect d) ∧
    ∀ k, (m.after (es.take k)).dialect = m.dialect ∧
      ((m.withDialect d).after (es.take k)).dialect = d := by
  constructor
  · intro h
    exact ⟨(run_withDialect h).1, fun k => (run_withDialect (h.take k)).2⟩
  · intro k
    exact ⟨dialect_after m _, dialect_after (m.withDialect d) _⟩

/-- In both dialects `V0` becomes 60, `V1` is shifted, and the first row of a glyph is drawn at
    column 60, with four pixels on the screen that are on and four past its end that are off. -/
theorem dialects_agree_of_overhang :
    let program : Array UInt8 := #[0x60, 0x3C, 0x81, 0x26, 0xD0, 0x11]
    let m := ((powerOn Keypad.released .plain (.repeating #[])).load program).state
    let d : Dialect := { shiftSource := .vy, edge := .wrap }
    let session : List (Event Keypad) := [.cycle, .cycle, .cycle]
    m.Throughout (NeutralAt d) session ∧
    (m.withDialect d).results session = [.ok .quiet, .ok .quiet, .ok .drawn] ∧
    (m.withDialect d).after session = (m.after session).withDialect d := by
  intro program m d session
  let m₁ := ((m.begin 0x603C).effect (.setByte 0 60)).follow .next
  let m₂ := ((m₁.begin 0x8126).effect (.alu .shiftRight 1 2)).follow .next
  let m₃ := ((m₂.begin 0xD011).effect (.draw 0 1 1)).follow .next
  have hfetch : m.fetch = .ok 0x603C :=
    fetch_of_overlay (p := program) (k := 0) rfl (by decide) rfl (by decide)
  have hfetch₁ : m₁.fetch = .ok 0x8126 :=
    fetch_of_overlay (p := program) (k := 2) rfl (by decide) rfl (by decide)
  have hfetch₂ : m₂.fetch = .ok 0xD011 :=
    fetch_of_overlay (p := program) (k := 4) rfl (by decide) rfl (by decide)
  have hcycle : m.cycle = .ok m₁ .quiet := cycle_of_no_fault hfetch (i := .setByte 0 60) rfl rfl
  have hcycle₁ : m₁.cycle = .ok m₂ .quiet :=
    cycle_of_no_fault hfetch₁ (i := .alu .shiftRight 1 2) rfl rfl
  have hcycle₂ : m₂.cycle = .ok m₃ .drawn := cycle_of_no_fault hfetch₂ (i := .draw 0 1 1) rfl rfl
  have hresults : m.results session = [.ok .quiet, .ok .quiet, .ok .drawn] := by
    rw [results_cons, perform_cycle, hcycle, Outcome.state_ok, results_cons, perform_cycle, hcycle₁,
      Outcome.state_ok, results_cons, perform_cycle, hcycle₂]
    rfl
  have hset : m.Neutral d (.setByte 0 60) := ⟨nofun, nofun⟩
  have hshift : m₁.Neutral d (.alu .shiftRight 1 2) := by
    refine ⟨?_, nofun⟩
    rintro - x y (h | h)
    · cases h
      rfl
    · cases h
  have hdraw : m₂.Neutral d (.draw 0 1 1) := by
    refine ⟨nofun, ?_⟩
    rintro - x y rows hfits h
    cases h
    -- the first row of the first glyph has four pixels on the left
    have hrow : m₂.memory[0] = 0xF0 :=
      (Memory.getElem_overlay_of_outside .initial (by decide) (Or.inl (by decide))).trans
        (Memory.getElem_initial 0 (by decide))
    have hleft : ∀ j < 8, (0xF0 : UInt8).toBitVec.getMsbD j = true → j < 4 := by decide
    intro i hi j hj hon
    obtain rfl : i = 0 := Nat.lt_one_iff.1 hi
    rw [Memory.getElem_slice m₂.memory hfits 0 hi (by decide)] at hon
    have hj4 : j < 4 := hleft j hj (hrow ▸ hon)
    exact ⟨Nat.add_lt_add_left hj4 60, by decide⟩
  have hneutral : m.Throughout (NeutralAt d) session := by
    rw [throughout_cons, perform_cycle, hcycle, Outcome.state_ok, throughout_cons, perform_cycle,
      hcycle₁, Outcome.state_ok, throughout_cons]
    exact ⟨neutralAt_of_fetch hfetch rfl hset, neutralAt_of_fetch hfetch₁ rfl hshift,
      neutralAt_of_fetch hfetch₂ rfl hdraw, throughout_nil _⟩
  obtain ⟨hsame, hstate⟩ := (dialects_agree m d session).1 hneutral
  exact ⟨hneutral, hsame.trans hresults, hstate 3⟩

end Machine

end Chip8
