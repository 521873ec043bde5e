/-
  Drawings on top of each other.

  A drawing turns cells over, and turning over knows no order.  So of several drawings it matters
  only how many times each cell was hit, and of that only whether it was an odd number.

  1. **Strokes** — a stroke is a drawing that is still to be made.  A machine ADMITS it if the
     sprite lies in memory and neither coordinate is taken from the flag register.  The last is
     needed: each stroke writes the flag, and one that reads it would land somewhere else.

  2. **The backdrop** — where strokes land depends on memory, the index, the dialect and the
     registers but for the flag.  No stroke changes any of it (`SameBackdrop`), so all strokes of a
     list land where the first machine says.

  3. **Counting hits** — a cell has turned over exactly if an odd number of strokes hit it
     (`pixel_paint`).  The strokes may then be made in any order, and two that are equal may be left
     out (`strokes_commute_and_cancel`).

  4. **Cycles** — a machine that fetches the strokes one after the other paints the same picture
     (`paint_of_fetches`).
-/
import Chip8.Proofs.Pixelwise
import Chip8.Proofs.Request

namespace Chip8

/-! ## Strokes -/

/-- A drawing to be made: the registers that hold column and row, and the height of the sprite. -/
structure Stroke where
  x : Register
  y : Register
  rows : Fin 16
  deriving DecidableEq, Repr

/-- The instruction that makes it. -/
def Stroke.instruction (s : Stroke) : Instruction := .draw s.x s.y s.rows

namespace Machine

variable {K : Type}

/-- **The machine can make the stroke**, and the flag has no part in where it lands. -/
structure Admits (m : Machine K) (s : Stroke) : Prop where
  x_ne : s.x ≠ Registers.flag
  y_ne : s.y ≠ Registers.flag
  fits : s.rows.val = 0 ∨ m.index.toNat + s.rows.val ≤ 4096

/-- How many of the strokes hit the cell in row `r`, column `c`. -/
def hits (m : Machine K) (ss : List Stroke) (r c : Nat) : Nat :=
  ss.countP fun s => decide (m.Hit s.x s.y s.rows r c)

/-- **The stroke lights a cell**: one that it hits is off. -/
def Lights (m : Machine K) (s : Stroke) : Prop :=
  ∃ r < 32, ∃ c < 64, m.screen.pixel r c = false ∧ m.Hit s.x s.y s.rows r c

instance (m : Machine K) (s : Stroke) : Decidable (m.Lights s) :=
  inferInstanceAs
    (Decidable (∃ r < 32, ∃ c < 64, m.screen.pixel r c = false ∧ m.Hit s.x s.y s.rows r c))

/-- A stroke that is made twice hits its cells twice. -/
theorem hits_twice (m : Machine K) (before between behind : List Stroke) (s : Stroke) (r c : Nat) :
    m.hits (before ++ s :: (between ++ s :: behind)) r c % 2 =
      m.hits (before ++ (between ++ behind)) r c % 2 := by
  simp only [hits, List.countP_append, List.countP_cons]
  omega

/-! ## The backdrop -/

/-- **The two machines agree on all that decides where strokes land.** -/
structure SameBackdrop (m m' : Machine K) : Prop where
  memory : m'.memory = m.memory
  index : m'.index = m.index
  dialect : m'.dialect = m.dialect
  registers : ∀ z, z ≠ Registers.flag → m'.registers.read z = m.registers.read z

namespace SameBackdrop

theorem refl (m : Machine K) : m.SameBackdrop m := ⟨rfl, rfl, rfl, fun _ _ => rfl⟩

variable {m m' m'' : Machine K}

theorem trans (h : m.SameBackdrop m') (h' : m'.SameBackdrop m'') : m.SameBackdrop m'' where
  memory := h'.memory.trans h.memory
  index := h'.index.trans h.index
  dialect := h'.dialect.trans h.dialect
  registers z hz := (h'.registers z hz).trans (h.registers z hz)

theorem admits (h : m.SameBackdrop m') {s : Stroke} (hs : m.Admits s) : m'.Admits s :=
  ⟨hs.x_ne, hs.y_ne, by rw [h.index]; exact hs.fits⟩

/-- A stroke hits the same cells of both. -/
theorem hit_iff (h : m.SameBackdrop m') {s : Stroke} (hs : m.Admits s) (r c : Nat) :
    m'.Hit s.x s.y s.rows r c ↔ m.Hit s.x s.y s.rows r c := by
  simp only [Hit, HitBy, spritePixel, h.memory, h.index, h.dialect, h.registers _ hs.x_ne,
    h.registers _ hs.y_ne]

/-- So a list of strokes hits each cell equally often. -/
theorem hits_eq (h : m.SameBackdrop m') {ss : List Stroke} (hss : ∀ s ∈ ss, m.Admits s)
    (r c : Nat) : m'.hits ss r c = m.hits ss r c := by
  apply List.countP_congr
  intro s hs
  rw [decide_eq_true_iff, decide_eq_true_iff]
  exact h.hit_iff (hss s hs) r c

end SameBackdrop

/-- The two machines agree on all that strokes look at or change. -/
structure SamePicture (m m' : Machine K) : Prop where
  screen : m'.screen = m.screen
  registers : m'.registers = m.registers
  memory : m'.memory = m.memory
  index : m'.index = m.index
  dialect : m'.dialect = m.dialect

theorem SamePicture.refl (m : Machine K) : m.SamePicture m := ⟨rfl, rfl, rfl, rfl, rfl⟩

/-! ## One stroke -/

variable [KeySource K] {m : Machine K}

/-- A stroke that is admitted is made. -/
theorem execute_stroke {s : Stroke} (hs : m.Admits s) :
    m.execute s.instruction =
      .ok (m.drawSprite s.x s.y (m.memory.slice m.index.toNat s.rows.val hs.fits)) .drawn :=
  execute_draw_of_fits hs.fits s.x s.y

/-- It turns over the cells that it hits. -/
theorem pixel_stroke {s : Stroke} (hs : m.Admits s) {r c : Nat} (hr : r < 32) (hc : c < 64) :
    (m.execute s.instruction).state.screen.pixel r c =
      (m.screen.pixel r c ^^ decide (m.Hit s.x s.y s.rows r c)) := by
  rw [execute_stroke hs]
  exact pixel_drawSprite hs.fits s.x s.y hr hc

/-- Besides the screen it changes the flag. -/
theorem registers_stroke {s : Stroke} (hs : m.Admits s) {z : Register} (hz : z ≠ Registers.flag) :
    (m.execute s.instruction).state.registers.read z = m.registers.read z := by
  rw [execute_stroke hs]
  exact read_drawSprite_of_ne s.x s.y _ hz

theorem state_stroke {s : Stroke} (hs : m.Admits s) :
    (m.execute s.instruction).state = { m with
      screen := (m.execute s.instruction).state.screen
      registers := (m.execute s.instruction).state.registers } := by
  rw [execute_stroke hs]
  rfl

theorem sameBackdrop_stroke {s : Stroke} (hs : m.Admits s) :
    m.SameBackdrop (m.execute s.instruction).state := by
  rw [state_stroke hs]
  exact ⟨rfl, rfl, rfl, fun z hz => registers_stroke hs hz⟩

/-- So the strokes behind the first one are admitted behind it. -/
theorem admits_stroke {s : Stroke} {ss : List Stroke} (hss : ∀ t ∈ s :: ss, m.Admits t) :
    ∀ t ∈ ss, (m.execute s.instruction).state.Admits t := by
  intro t ht
  have hs := hss s (List.mem_cons_self ..)
  exact (sameBackdrop_stroke hs).admits (hss t (List.mem_cons_of_mem s ht))

/-! ## Counting hits -/

/-- The machine behind some strokes, made one after the other. -/
def paint (m : Machine K) (ss : List Stroke) : Machine K :=
  m.afterAll (ss.map fun s => .execute s.instruction)

@[simp] theorem paint_nil (m : Machine K) : m.paint [] = m := rfl

@[simp] theorem paint_cons (m : Machine K) (s : Stroke) (ss : List Stroke) :
    m.paint (s :: ss) = (m.execute s.instruction).state.paint ss := rfl

/-- **No stroke changes the backdrop**, so any number of them leave it as it was. -/
theorem sameBackdrop_paint {ss : List Stroke} (hss : ∀ s ∈ ss, m.Admits s) :
    m.SameBackdrop (m.paint ss) := by
  induction ss generalizing m with
  | nil => exact .refl m
  | cons s ss ih =>
    have hfirst := sameBackdrop_stroke (hss s (List.mem_cons_self ..))
    rw [paint_cons]
    exact hfirst.trans (ih (admits_stroke hss))

/-- Screen and registers are all that changes. -/
theorem state_paint {ss : List Stroke} (hss : ∀ s ∈ ss, m.Admits s) :
    m.paint ss = { m with screen := (m.paint ss).screen, registers := (m.paint ss).registers } := by
  induction ss generalizing m with
  | nil => rfl
  | cons s ss ih =>
    have hs := hss s (List.mem_cons_self ..)
    rw [paint_cons, ih (admits_stroke hss), state_stroke hs]

/-- One more hit changes whether their number is odd. -/
theorem decide_odd_add (n : Nat) (p : Prop) [Decidable p] :
    decide ((n + if decide p = true then 1 else 0) % 2 = 1) =
      (decide p ^^ decide (n % 2 = 1)) := by
  by_cases hp : p
  · rw [if_pos (decide_eq_true hp), decide_eq_true hp, Bool.true_xor, ← decide_not]
    exact decide_eq_decide.2 (by omega)
  · rw [if_neg (by rw [decide_eq_false hp]; exact Bool.noConfusion), decide_eq_false hp,
      Bool.false_xor, Nat.add_zero]

/-- **A cell has turned over if an odd number of strokes hit it.**  Induction on the strokes: the
    first one turns over what it hits, and the others hit what they would have hit before it. -/
theorem pixel_paint {ss : List Stroke} (hss : ∀ s ∈ ss, m.Admits s) {r c : Nat} (hr : r < 32)
    (hc : c < 64) :
    (m.paint ss).screen.pixel r c = (m.screen.pixel r c ^^ decide (m.hits ss r c % 2 = 1)) := by
  induction ss generalizing m with
  | nil => exact (Bool.xor_false _).symm
  | cons s ss ih =>
    have hs := hss s (List.mem_cons_self ..)
    have hrest : ∀ t ∈ ss, m.Admits t := fun t ht => hss t (List.mem_cons_of_mem s ht)
    rw [paint_cons, ih (admits_stroke hss), pixel_stroke hs hr hc,
      (sameBackdrop_stroke hs).hits_eq hrest, Bool.xor_assoc]
    congr 1
    rw [hits, hits, List.countP_cons]
    exact (decide_odd_add _ _).symm

/-- **Lists of strokes that hit each cell equally often**, but for an even number, paint the
    same. -/
theorem screen_paint_congr {ss ts : List Stroke} (hss : ∀ s ∈ ss, m.Admits s)
    (hts : ∀ t ∈ ts, m.Admits t) (h : ∀ r c, m.hits ts r c % 2 = m.hits ss r c % 2) :
    (m.paint ts).screen = (m.paint ss).screen := by
  apply Screen.ext_pixel
  intro r c hr hc
  rw [pixel_paint hts hr hc, pixel_paint hss hr hc, h]

/-- Behind a stroke, the same stroke meets the cells that it has just lit. -/
theorem collides_stroke_iff {s : Stroke} (hs : m.Admits s) :
    (m.execute s.instruction).state.Collides s.x s.y s.rows ↔ m.Lights s := by
  have hfirst := sameBackdrop_stroke hs
  have hcell : ∀ r < 32, ∀ c < 64,
      ((m.execute s.instruction).state.screen.pixel r c = true ∧
        (m.execute s.instruction).state.Hit s.x s.y s.rows r c ↔
      m.screen.pixel r c = false ∧ m.Hit s.x s.y s.rows r c) := by
    intro r hr c hc
    rw [hfirst.hit_iff hs, pixel_stroke hs hr hc]
    apply and_congr_left
    intro hhit
    rw [decide_eq_true hhit, Bool.xor_true, Bool.not_eq_true']
  constructor
  · rintro ⟨r, hr, c, hc, h⟩
    exact ⟨r, hr, c, hc, (hcell r hr c hc).1 h⟩
  · rintro ⟨r, hr, c, hc, h⟩
    exact ⟨r, hr, c, hc, (hcell r hr c hc).2 h⟩

/-- **So the flag of the second says whether the first lit anything.** -/
theorem flag_twice {s : Stroke} (hs : m.Admits s) :
    (m.paint [s, s]).registers.read Registers.flag = if m.Lights s then 1 else 0 := by
  have hagain := (sameBackdrop_stroke hs).admits hs
  have hflag := flag_drawSprite hagain.fits s.x s.y
  rw [paint_cons, paint_cons, paint_nil, execute_stroke hagain, Outcome.state_ok, hflag]
  simp only [collides_stroke_iff hs]

/-! ## Cycles -/

/-- **The machine fetches the strokes one after the other**, a cycle for each. -/
def Fetches (m : Machine K) : List Stroke → Prop
  | [] => True
  | s :: ss => m.fetch = .ok s.instruction.encode ∧ m.cycle.state.Fetches ss

/-- A cycle that fetches a stroke makes it. -/
theorem samePicture_cycle {m' : Machine K} (h : m.SamePicture m') {s : Stroke} (hs : m.Admits s)
    (hfetch : m'.fetch = .ok s.instruction.encode) :
    SamePicture (m.execute s.instruction).state m'.cycle.state := by
  obtain ⟨hscreen, hregisters, hmemory, hindex, hdialect⟩ := h
  have hfits : Memory.Fits m'.index.toNat s.rows.val := by rw [hindex]; exact hs.fits
  rw [cycle_draw_of_fits hfits hfetch (Instruction.decode_encode s.instruction),
    execute_stroke hs]
  simp only [hmemory, hindex]
  constructor <;>
    simp only [drawSprite, begin, Outcome.state_ok, hscreen, hregisters, hmemory, hindex, hdialect]

/-- **Cycles that fetch the strokes paint them.** -/
theorem paint_of_fetches {m' : Machine K} (h : m.SamePicture m') {ss : List Stroke}
    (hss : ∀ s ∈ ss, m.Admits s) (hfetches : m'.Fetches ss) :
    SamePicture (m.paint ss) (m'.after (List.replicate ss.length .cycle)) := by
  induction ss generalizing m m' with
  | nil => exact h
  | cons s ss ih =>
    have hs := hss s (List.mem_cons_self ..)
    rw [paint_cons, List.length_cons, List.replicate_succ, after_cons, perform_cycle]
    exact ih (samePicture_cycle h hs hfetches.1) (admits_stroke hss) hfetches.2

/-! ## The law -/

/-- **Strokes commute and cancel.**  Let a machine make a list of strokes that it admits, one after
    the other.  Each of them is drawn.  Screen and registers are all that changes, and of the
    registers only the flag.  A cell of the screen has turned over exactly if an odd number of the
    strokes hit it.  The picture is the same if they are made in another order, and if two equal
    ones among them are left out.  A stroke that is made twice in a row behind them restores the
    picture, and the second time the flag is one exactly if the first time a cell was hit that was
    off.  And if the machine fetches the strokes, as many cycles leave the same picture and the same
    registers. -/
theorem strokes_commute_and_cancel (m : Machine K) (ss : List Stroke)
    (hss : ∀ s ∈ ss, m.Admits s) :
    let now := m.paint ss
    (∀ k s, ss[k]? = some s →
      ((m.paint (ss.take k)).execute s.instruction).result = .ok .drawn) ∧
    now = { m with screen := now.screen, registers := now.registers } ∧
    (∀ z, z ≠ Registers.flag → now.registers.read z = m.registers.read z) ∧
    (∀ r c, r < 32 → c < 64 →
      now.screen.pixel r c = (m.screen.pixel r c ^^ decide (m.hits ss r c % 2 = 1))) ∧
    (∀ ts, ts.Perm ss → (m.paint ts).screen = now.screen) ∧
    (∀ before between behind s, ss = before ++ s :: (between ++ s :: behind) →
      (m.paint (before ++ (between ++ behind))).screen = now.screen) ∧
    (∀ s, m.Admits s →
      (now.paint [s, s]).screen = now.screen ∧
      (now.paint [s, s]).registers.read Registers.flag = if now.Lights s then 1 else 0) ∧
    (m.Fetches ss →
      let run := m.after (List.replicate ss.length .cycle)
      run.screen = now.screen ∧ run.registers = now.registers ∧ run.memory = m.memory ∧
        run.index = m.index) := by
  intro now
  have hbackdrop : m.SameBackdrop now := sameBackdrop_paint hss
  refine ⟨?_, state_paint hss, hbackdrop.registers, ?_, ?_, ?_, ?_, ?_⟩
  · intro k s hk
    have hbefore : ∀ t ∈ ss.take k, m.Admits t := fun t ht => hss t (List.mem_of_mem_take ht)
    have hs := hss s (List.mem_of_getElem? hk)
    rw [execute_stroke ((sameBackdrop_paint hbefore).admits hs)]
    rfl
  · intro r c hr hc
    exact pixel_paint hss hr hc
  · intro ts hperm
    have hts : ∀ t ∈ ts, m.Admits t := fun t ht => hss t (hperm.mem_iff.1 ht)
    apply screen_paint_congr hss hts
    intro r c
    rw [hits, hits, hperm.countP_eq]
  · intro before between behind s hsplit
    have hfewer : ∀ t ∈ before ++ (between ++ behind), m.Admits t := by
      intro t ht
      apply hss t
      rw [hsplit]
      simp only [List.mem_append, List.mem_cons] at ht ⊢
      rcases ht with hin | hin | hin
      · exact Or.inl hin
      · exact Or.inr (Or.inr (Or.inl hin))
      · exact Or.inr (Or.inr (Or.inr (Or.inr hin)))
    apply screen_paint_congr hss hfewer
    intro r c
    rw [hsplit, hits_twice]
  · intro s hs
    have hagain := hbackdrop.admits hs
    refine ⟨?_, flag_twice hagain⟩
    have hnone : ∀ t ∈ ([] : List Stroke), now.Admits t := fun t ht => absurd ht List.not_mem_nil
    have htwice : ∀ t ∈ [s, s], now.Admits t := by simpa using hagain
    apply screen_paint_congr hnone htwice
    intro r c
    exact now.hits_twice [] [] [] s r c
  · intro hfetches run
    have hrun : now.SamePicture run := paint_of_fetches (.refl m) hss hfetches
    exact ⟨hrun.screen, hrun.registers, hrun.memory.trans hbackdrop.memory,
      hrun.index.trans hbackdrop.index⟩

/-- Two overlapping zeros.  The first of them is made again behind the second, and so it might as
    well not have been made.  What is left is the second alone, all of it on.  So when this is made
    twice more, the first time lights nothing, and the second time the flag is zero. -/
theorem strokes_commute_and_cancel_of_zeros :
    let program : Array UInt8 := #[0xD1, 0x05]
    let m : Machine Keypad :=
      { ((powerOn .released .plain (.repeating #[])).load program).state with
        registers := (Registers.zeros.write 0 1).write 1 2 }
    let a : Stroke := ⟨0, 1, 5⟩
    let b : Stroke := ⟨1, 0, 5⟩
    (∀ s ∈ [a, b, a], m.Admits s) ∧
    ([b, a, a].Perm [a, b, a] ∧ (m.paint [b, a, a]).screen = (m.paint [a, b, a]).screen) ∧
    (m.paint [b]).screen = (m.paint [a, b, a]).screen ∧
    (m.Admits b ∧ ((m.paint [a, b, a]).paint [b, b]).registers.read Registers.flag = 0) ∧
    (m.Fetches [b] ∧ m.cycle.state.screen = (m.paint [b]).screen) := by
  intro program m a b
  have ha : m.Admits a := ⟨by decide, by decide, by decide⟩
  have hb : m.Admits b := ⟨by decide, by decide, by decide⟩
  have hall : ∀ s ∈ [a, b, a], m.Admits s := by simp [ha, hb]
  have hperm : [b, a, a].Perm [a, b, a] := .swap a b [a]
  have hfetch : m.fetch = .ok 0xD105 :=
    fetch_of_overlay (p := program) (k := 0) rfl (by decide) rfl (by decide)
  obtain ⟨-, -, -, hpixel, hcommute, hcancel, htwice, -⟩ := strokes_commute_and_cancel m _ hall
  obtain ⟨-, -, -, -, -, -, -, hcycles⟩ := strokes_commute_and_cancel m [b] (by simpa using hb)
  have hdark : ¬ (m.paint [a, b, a]).Lights b := by
    rintro ⟨r, hr, c, hc, hoff, hhit⟩
    rw [(sameBackdrop_paint hall).hit_iff hb] at hhit
    have hodd : m.hits [a, b, a] r c % 2 = 1 := by
      have hrest : m.hits [a, b, a] r c % 2 = m.hits [b] r c % 2 := m.hits_twice [] [b] [] a r c
      rw [hrest, hits, List.countP_singleton, if_pos (decide_eq_true hhit)]
    rw [hpixel r c hr hc, decide_eq_true hodd, show m.screen.pixel r c = false from
      Screen.pixel_blank r c] at hoff
    cases hoff
  have hflag := (htwice b hb).2
  rw [if_neg hdark] at hflag
  have hrun := (hcycles ⟨hfetch, trivial⟩).1
  rw [List.length_singleton, List.replicate_one, after_cons, after_nil, perform_cycle] at hrun
  exact ⟨hall, ⟨hperm, hcommute _ hperm⟩, hcancel [] [b] [] a rfl, ⟨hb, hflag⟩,
    ⟨hfetch, trivial⟩, hrun⟩

end Machine

end Chip8
