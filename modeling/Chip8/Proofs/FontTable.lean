/-
  The font, and what becomes of it.

  The glyphs lie at the start of memory, and one would like them to stay: nothing that a program
  does should ever write there.  That is NOT so.  The machine looks only whether a range lies in
  memory, and the font does.  A program of one opcode is enough to spoil it (`font_overwritten`).

  What does hold is told place by place:

  1. **A cycle** — changes a place only if it executes `FX33` or `FX55`, and the place is among those
     that are stored to (`cycle_memory`).

  2. **A run** — a load begins behind the font, and a reset puts it back.  So after any run a byte
     of the font is as it was made, unless some cycle of the run stored to this very byte
     (`font_kept_unless_stored`).
-/
import Chip8.Proofs.Frame
import Chip8.Proofs.Run

namespace Chip8

namespace Machine

variable {K : Type} [KeySource K]

/-! ## One cycle -/

/-- The cycle stores to the place: it executes `FX33` or `FX55` with the place in its range. -/
structure Stores (m : Machine K) (a : Nat) : Prop where
  executed : m.cycle.result = .ok .quiet
  stored : ∃ o, m.fetch = .ok o ∧ o.family = 0xF ∧ m.index.toNat ≤ a ∧
    (o.low = 0x33 ∧ a ≤ m.index.toNat + 2 ∨ o.low = 0x55 ∧ a ≤ m.index.toNat + o.x.val)

/-- **A cycle changes a place of memory only by storing to it.** -/
theorem cycle_memory (m : Machine K) {a : Nat} (ha : a < 4096) :
    m.cycle.state.memory[a] = m.memory[a] ∨ m.Stores a := by
  cases m.course with
  | unfetched f hfetch hcycle => left; simp only [hcycle, Outcome.state_fail]
  | unknown o f hfetch hdecode hcycle => left; simp only [hcycle, Outcome.state_ok]; rfl
  | faulted o i f hfetch hdecode hfault hcycle => left; simp only [hcycle, Outcome.state_fail]
  | executed o i hfetch hdecode hfault hcycle =>
    by_cases hout : a < m.index.toNat ∨ m.index.toNat + i.stored ≤ a
    · left
      simp only [hcycle]
      exact memory_effect_of_outside (m := m.begin o) ha hout
    · right
      have ho : i.encode = o := Instruction.encode_of_decode hdecode
      have hresult : m.cycle.result = .ok (m.report i) := by rw [hcycle]; rfl
      cases i with
      | storeDecimal x =>
        obtain ⟨hfamily, -, hlow⟩ := Opcode.fields_ofByte 0xF x 0x33
        have hrange : ¬ (a < m.index.toNat ∨ m.index.toNat + 3 ≤ a) := hout
        refine ⟨hresult, o, hfetch, ?_, by omega, Or.inl ⟨?_, by omega⟩⟩
        · rw [← ho]; exact hfamily
        · rw [← ho]; exact hlow
      | store x =>
        obtain ⟨hfamily, hx, hlow⟩ := Opcode.fields_ofByte 0xF x 0x55
        have hrange : ¬ (a < m.index.toNat ∨ m.index.toNat + (x.val + 1) ≤ a) := hout
        have hox : o.x = x := by rw [← ho]; exact hx
        refine ⟨hresult, o, hfetch, ?_, by omega, Or.inr ⟨?_, by rw [hox]; omega⟩⟩
        · rw [← ho]; exact hfamily
        · rw [← ho]; exact hlow
      | _ =>
        -- nothing is stored, so nothing is inside
        exact absurd (Nat.lt_or_ge a m.index.toNat) hout

/-! ## A run -/

/-- An event leaves a byte of the font alone, or it is a cycle that stores to it. -/
theorem perform_font {m : Machine K} (e : Event K) (a : Fin 80)
    (h : m.memory[a.val] = Font.table[a.val]) :
    (m.perform e).state.memory[a.val] = Font.table[a.val] ∨ e = .cycle ∧ m.Stores a.val := by
  cases e with
  | rekey change => exact Or.inl h
  | reset => exact Or.inl (Memory.getElem_initial a.val a.isLt)
  | cycle =>
    rcases m.cycle_memory (a := a.val) (by omega) with hsame | hstores
    · left
      rw [perform_cycle, hsame]
      exact h
    · exact Or.inr ⟨rfl, hstores⟩
  | load program =>
    left
    rcases Nat.lt_or_ge programMax program.size with hlt | hle
    · simp only [perform, load_of_lt hlt]
      exact h
    · simp only [perform, load_of_le hle]
      -- the font ends before programs start
      have hbefore : a.val < programStart ∨ programStart + program.size ≤ a.val :=
        Or.inl (Nat.lt_trans a.isLt (by decide))
      rw [← h]
      exact Memory.getElem_overlay_of_outside m.memory (by omega) hbefore

/-- **The font stays as it was made**, byte by byte, after any programs were loaded and any number
    of cycles went by, but for the bytes that one of the cycles stored to. -/
theorem font_kept_unless_stored (keys : K) (d : Dialect) (r : ByteStream) (es : List (Event K))
    (a : Fin 80) :
    ((powerOn keys d r).after es).memory[a.val] = Font.table[a.val] ∨
    ∃ k, es[k]? = some .cycle ∧ ((powerOn keys d r).after (es.take k)).Stores a.val := by
  rcases after_unless (P := fun m => m.memory[a.val] = Font.table[a.val])
    (Q := fun m e => e = .cycle ∧ m.Stores a.val) (fun m e h => perform_font e a h)
    (m := powerOn keys d r) (Memory.getElem_initial a.val a.isLt) es with
    hkept | ⟨k, e, hk, rfl, hstores⟩
  · exact Or.inl hkept
  · exact Or.inr ⟨k, hk, hstores⟩

/-- A program that stores the digits of `V0` where the index points at the start: it is accepted,
    its only cycle goes well, and the first row of the first glyph is gone. -/
theorem font_overwritten :
    let loaded := (powerOn Keypad.released .plain (.repeating #[])).load #[0xF0, 0x33]
    loaded.result = .ok () ∧ loaded.state.cycle.result = .ok .quiet ∧
    (loaded.state.after [.cycle]).memory[0] = 0x00 ∧
    (loaded.state.after [.cycle]).memory[0] ≠ Font.table[0] := by
  intro loaded
  have hfetch : loaded.state.fetch = .ok 0xF033 :=
    fetch_of_overlay (p := #[0xF0, 0x33]) (k := 0) rfl (by decide) rfl (by decide)
  have hcycle := cycle_of_no_fault hfetch (i := .storeDecimal 0) rfl rfl
  have hzero : (loaded.state.after [.cycle]).memory[0] = 0x00 := by
    rw [after_cons, perform_cycle, after_nil, hcycle]
    show (loaded.state.memory.overlay 0 (decimalDigits 0))[0] = 0x00
    rw [Memory.getElem_overlay]
    rfl
  refine ⟨rfl, by rw [hcycle]; rfl, hzero, ?_⟩
  -- the font begins with the top of a zero
  have htable : Font.table[0] = 0xF0 := rfl
  rw [hzero, htable]
  decide

end Machine

end Chip8
