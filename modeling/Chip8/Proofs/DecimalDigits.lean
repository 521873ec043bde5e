/-
  Decimal digits, stored and loaded again.

  `FX33` takes a byte to pieces.  To see that nothing is lost, the pieces are loaded into `V0`, `V1`
  and `V2` and put together again.

  1. **Digits** — the hundreds, tens and ones of a byte are digits, and make up the byte
     (`decimalDigits_spec`).

  2. **The round trip** — `FX33`, `ANNN` and `F265`.  The byte is read before anything is written, so
     it may come from one of the three registers that the digits are loaded into
     (`digits_make_up_the_value`).
-/
import Chip8.Proofs.Transfer

namespace Chip8

/-! ## Digits -/

/-- **Three digits make up the byte** that they were taken from. -/
theorem decimalDigits_spec (b : UInt8) :
    ∃ hundreds tens ones : UInt8, decimalDigits b = #[hundreds, tens, ones] ∧
      (hundreds.toNat ≤ 9 ∧ tens.toNat ≤ 9 ∧ ones.toNat ≤ 9) ∧
      100 * hundreds.toNat + 10 * tens.toNat + ones.toNat = b.toNat := by
  have hb := b.toNat_lt
  have hhundreds : (b / 100).toNat = b.toNat / 100 := UInt8.toNat_div b 100
  have htens : (b / 10 % 10).toNat = b.toNat / 10 % 10 := by
    rw [UInt8.toNat_mod, UInt8.toNat_div]
    rfl
  have hones : (b % 10).toNat = b.toNat % 10 := UInt8.toNat_mod b 10
  refine ⟨b / 100, b / 10 % 10, b % 10, rfl, ?_, ?_⟩
  · rw [hhundreds, htens, hones]
    omega
  · rw [hhundreds, htens, hones]
    omega

/-! ## The round trip -/

namespace Machine

variable {K : Type} [KeySource K]

/-- **Digits are stored and loaded** through the same three places. -/
theorem execute_load_of_digits {m : Machine K} (hfits : m.index.toNat + 3 ≤ 4096)
    (hundreds tens ones : UInt8) :
    let stored :=
      { m with memory := m.memory.overlay m.index.toNat #[hundreds, tens, ones] }
    ∃ r : Registers,
      stored.execute (.load 2) =
        .ok { stored with registers := r, index := stored.indexPast 3 } .quiet ∧
      (r.read 0 = hundreds ∧ r.read 1 = tens ∧ r.read 2 = ones) ∧
      ∀ z, 2 < z → r.read z = m.registers.read z := by
  intro stored
  obtain ⟨r, hload, hbelow, habove⟩ := execute_load_of_fits (m := stored) (x := 2) hfits
  have hbyte : ∀ z : Register, z ≤ 2 → #[hundreds, tens, ones][z.val]? = some (r.read z) := by
    intro z hz
    rw [← hbelow z hz]
    exact (m.memory.getElem?_overlay_of_inside hfits (Nat.lt_succ_of_le hz)).symm
  have h0 : r.read 0 = hundreds := (Option.some.inj (hbyte 0 (by decide))).symm
  have h1 : r.read 1 = tens := (Option.some.inj (hbyte 1 (by decide))).symm
  have h2 : r.read 2 = ones := (Option.some.inj (hbyte 2 (by decide))).symm
  exact ⟨r, hload, ⟨h0, h1, h2⟩, habove⟩

/-- **Digits make up the value again.**  Let a machine have room for three bytes where its index
    points.  It executes `FX33`, then `ANNN` with this place, and then `F265`, and all three go well.
    Then `V0`, `V1` and `V2` hold digits, and these make up what `VX` held at first.  All other
    registers are as they were, and so is memory but for the three bytes.  The index points behind
    them, and the rest of the machine is as it was.  And if the machine fetches the three, as many
    cycles leave the same registers, the same memory and the same index. -/
theorem digits_make_up_the_value (m : Machine K) (x : Register)
    (hfits : m.index.toNat + 3 ≤ 4096) :
    ∃ a : Address, a.val = m.index.toNat ∧
      let digits := m.execute (.storeDecimal x)
      let back := digits.state.execute (.setIndex a)
      let loaded := back.state.execute (.load 2)
      let now := loaded.state
      (digits.result = .ok .quiet ∧ back.result = .ok .quiet ∧ loaded.result = .ok .quiet) ∧
      ((now.registers.read 0).toNat ≤ 9 ∧ (now.registers.read 1).toNat ≤ 9 ∧
        (now.registers.read 2).toNat ≤ 9) ∧
      100 * (now.registers.read 0).toNat + 10 * (now.registers.read 1).toNat +
        (now.registers.read 2).toNat = (m.registers.read x).toNat ∧
      (∀ z : Register, 2 < z.val → now.registers.read z = m.registers.read z) ∧
      (∀ i, i < m.index.toNat ∨ m.index.toNat + 3 ≤ i → now.memory[i]? = m.memory[i]?) ∧
      now.index.toNat = m.index.toNat + 3 ∧
      now = { m with
        registers := now.registers, memory := now.memory, index := now.index } ∧
      (m.FetchesAll [.storeDecimal x, .setIndex a, .load 2] →
        let run := m.after [.cycle, .cycle, .cycle]
        run.registers = now.registers ∧ run.memory = now.memory ∧ run.index = now.index) := by
  refine ⟨⟨m.index.toNat, by omega⟩, rfl, ?_⟩
  intro digits back loaded now
  obtain ⟨hundreds, tens, ones, hdigits, hnine, hvalue⟩ := decimalDigits_spec (m.registers.read x)
  let stored : Machine K :=
    { m with memory := m.memory.overlay m.index.toNat #[hundreds, tens, ones] }
  have hstore : digits = .ok stored .quiet := by
    rw [show digits = _ from execute_storeDecimal_of_fits hfits, hdigits]
  have hback : back = .ok stored .quiet := by
    rw [show back = digits.state.execute _ from rfl, hstore]
    exact execute_setIndex rfl
  obtain ⟨r, hload, ⟨h0, h1, h2⟩, habove⟩ := execute_load_of_digits hfits hundreds tens ones
  have hloaded : loaded = .ok { stored with registers := r, index := stored.indexPast 3 } .quiet := by
    rw [show loaded = back.state.execute _ from rfl, hback]
    exact hload
  have hnow : now = { stored with registers := r, index := stored.indexPast 3 } := by
    rw [show now = loaded.state from rfl, hloaded, Outcome.state_ok]
  rw [hstore, hback, hloaded, hnow]
  refine ⟨⟨rfl, rfl, rfl⟩, ?_, ?_, habove, ?_, toNat_indexPast hfits, rfl, ?_⟩
  · rw [h0, h1, h2]
    exact hnine
  · rw [h0, h1, h2]
    exact hvalue
  · intro i hi
    exact m.memory.getElem?_overlay_of_outside hi
  · intro hfetches run
    have hrun : now.SameStore run :=
      (SameStore.refl m).cycles (by simp [Instruction.Transfers]) hfetches
    rw [hnow] at hrun
    exact ⟨hrun.registers, hrun.memory, hrun.index⟩

/-- The digits of 246 are stored in the last three places of memory and loaded again, among others
    into `V1`, which they came from. -/
theorem digits_make_up_the_value_of_246 :
    let program : Array UInt8 := #[0xF1, 0x33, 0xAF, 0xFD, 0xF2, 0x65]
    let m : Machine Keypad :=
      { ((powerOn .released .plain (.repeating #[])).load program).state with
        registers := Registers.zeros.write 1 246
        index := 0xFFD }
    let run := m.after [.cycle, .cycle, .cycle]
    m.index.toNat + 3 ≤ 4096 ∧
    m.FetchesAll [.storeDecimal 1, .setIndex 0xFFD, .load 2] ∧
    ((run.registers.read 0).toNat = 2 ∧ (run.registers.read 1).toNat = 4 ∧
      (run.registers.read 2).toNat = 6) ∧
    run.index.toNat = 0x1000 := by
  intro program m run
  let m₁ := ((m.begin 0xF133).effect (.storeDecimal 1)).follow .next
  let m₂ := ((m₁.begin 0xAFFD).effect (.setIndex 0xFFD)).follow .next
  have hfits : m.index.toNat + 3 ≤ 4096 := by decide
  -- the digits are stored behind the program
  have hcode : ∀ k < 6, m₁.memory[0x200 + k]? = program[k]? := by
    intro k hk
    exact (m.memory.getElem?_overlay_of_outside (Or.inl (show 0x200 + k < 0xFFD by omega))).trans
      (Memory.initial.getElem?_overlay_of_inside (by decide) hk)
  have hfetch : m.fetch = .ok 0xF133 :=
    fetch_of_overlay (p := program) (k := 0) rfl (by decide) rfl (by decide)
  have hfetch₁ : m₁.fetch = .ok 0xAFFD :=
    fetch_of_bytes (hcode 2 (by decide)) (hcode 3 (by decide))
  have hfetch₂ : m₂.fetch = .ok 0xF265 :=
    fetch_of_bytes (m := m₂) (hcode 4 (by decide)) (hcode 5 (by decide))
  have hcycle : m.cycle = .ok m₁ .quiet := cycle_of_no_fault hfetch (i := .storeDecimal 1) rfl rfl
  have hcycle₁ : m₁.cycle = .ok m₂ .quiet :=
    cycle_of_no_fault hfetch₁ (i := .setIndex 0xFFD) rfl rfl
  have hfetches : m.FetchesAll [.storeDecimal 1, .setIndex 0xFFD, .load 2] := by
    refine ⟨hfetch, ?_, ?_, trivial⟩
    · rw [hcycle]
      exact hfetch₁
    · rw [hcycle, Outcome.state_ok, hcycle₁]
      exact hfetch₂
  obtain ⟨a, ha, -, ⟨h0, h1, h2⟩, hvalue, -, -, hindex, -, hcycles⟩ :=
    digits_make_up_the_value m 1 hfits
  obtain rfl : a = 0xFFD := Fin.ext ha
  obtain ⟨hregisters, -, hrunindex⟩ := hcycles hfetches
  have hbyte : (m.registers.read 1).toNat = 246 := by decide
  rw [← hregisters] at h0 h1 h2 hvalue
  rw [hbyte] at hvalue
  rw [← hrunindex] at hindex
  refine ⟨hfits, hfetches, ?_, hindex⟩
  rw [show run = m.after _ from rfl]
  omega

end Machine

end Chip8
