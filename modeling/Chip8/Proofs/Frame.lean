/-
  What an instruction leaves alone.

  An instruction's effect is a small change to a large record.  Five parts are reached by one or two
  instructions only: the stack is moved by calls and returns, memory is written by the two stores,
  each timer is set by an instruction of its own, and the byte stream is read by a random byte.  Of
  the rest, the screen, the registers and the index may have become anything, and the program
  counter, the noted opcode, the keys and the dialect are as they were.  `effect_reach` says so once,
  by cases on the instruction.

  What becomes of each part under ANY instruction is then read off it, part by part.  The screen
  needs one thing more: it is changed by nothing that does not report a drawing (`screen_effect`).
-/
import Chip8.Proofs.Execution

namespace Chip8

/-- How many bytes an instruction stores. -/
def Instruction.stored : Instruction → Nat
  | .storeDecimal _ => 3
  | .store x => x.val + 1
  | _ => 0

namespace Machine

variable {K : Type} [KeySource K]

/-! ## Three instructions that depend on what they find -/

/-- Loading registers from memory reaches the registers and the index. -/
theorem effect_load (m : Machine K) (x : Register) :
    ∃ r j, m.effect (.load x) = { m with registers := r, index := j } := by
  cases hread : m.memory.read m.index.toNat (x.val + 1) with
  | error f => exact ⟨m.registers, m.index, by rw [effect, hread]⟩
  | ok bytes => exact ⟨_, _, by rw [effect, hread]⟩

/-- Waiting for a key reaches the registers. -/
theorem effect_waitKey (m : Machine K) (x : Register) :
    ∃ r, m.effect (.waitKey x) = { m with registers := r } := by
  cases hkey : lowestDown m.keys with
  | none => exact ⟨m.registers, by rw [effect, hkey]⟩
  | some k => exact ⟨_, by rw [effect, hkey]; rfl⟩

/-- Drawing reaches the screen and the registers. -/
theorem effect_draw (m : Machine K) (x y : Register) (rows : Fin 16) :
    ∃ s r, m.effect (.draw x y rows) = { m with screen := s, registers := r } := by
  cases hread : m.memory.read m.index.toNat rows.val with
  | error f => exact ⟨m.screen, m.registers, by rw [effect, hread]⟩
  | ok sprite => exact ⟨_, _, by rw [effect, hread]; rfl⟩

/-! ## Every instruction -/

/-- **What an effect reaches**, and what it does to the parts that few instructions reach. -/
theorem effect_reach (m : Machine K) (i : Instruction) :
    ∃ screen registers index, m.effect i = { m with
      screen := screen
      registers := registers
      index := index
      delay := match i with
        | .setDelay x => ⟨m.registers.read x⟩
        | _ => m.delay
      sound := match i with
        | .setSound x => ⟨m.registers.read x⟩
        | _ => m.sound
      stack := match i with
        | .ret => m.stack.tail
        | .call _ => m.pc :: m.stack
        | _ => m.stack
      memory := match i with
        | .storeDecimal x =>
          m.memory.overlay m.index.toNat (decimalDigits (m.registers.read x))
        | .store x => m.memory.overlay m.index.toNat (m.registers.upTo x)
        | _ => m.memory
      random := match i with
        | .random .. => m.random.rest
        | _ => m.random } := by
  cases i with
  | load x =>
    obtain ⟨r, j, h⟩ := m.effect_load x
    exact ⟨_, _, _, h⟩
  | waitKey x =>
    obtain ⟨r, h⟩ := m.effect_waitKey x
    exact ⟨_, _, _, h⟩
  | draw x y rows =>
    obtain ⟨s, r, h⟩ := m.effect_draw x y rows
    exact ⟨_, _, _, h⟩
  | _ => exact ⟨_, _, _, rfl⟩

/-! ## Part by part -/

/-- The program counter is moved by the flow, not by the effect. -/
theorem pc_effect (m : Machine K) (i : Instruction) : (m.effect i).pc = m.pc := by
  obtain ⟨_, _, _, h⟩ := m.effect_reach i
  rw [h]

/-- Nothing changes the keys. -/
theorem keys_effect (m : Machine K) (i : Instruction) : (m.effect i).keys = m.keys := by
  obtain ⟨_, _, _, h⟩ := m.effect_reach i
  rw [h]

/-- The opcode is noted by the cycle, not by the effect. -/
theorem lastOpcode_effect (m : Machine K) (i : Instruction) :
    (m.effect i).lastOpcode = m.lastOpcode := by
  obtain ⟨_, _, _, h⟩ := m.effect_reach i
  rw [h]

/-- Nothing changes the dialect. -/
theorem dialect_effect (m : Machine K) (i : Instruction) : (m.effect i).dialect = m.dialect := by
  obtain ⟨_, _, _, h⟩ := m.effect_reach i
  rw [h]

/-- **Only calls and returns move the stack.** -/
theorem stack_effect (m : Machine K) (i : Instruction) :
    (m.effect i).stack = match i with
      | .ret => m.stack.tail
      | .call _ => m.pc :: m.stack
      | _ => m.stack := by
  obtain ⟨_, _, _, h⟩ := m.effect_reach i
  rw [h]

/-- **Only storing reaches memory**, the decimal digits or the registers, from the index on. -/
theorem memory_effect (m : Machine K) (i : Instruction) :
    (m.effect i).memory = match i with
      | .storeDecimal x =>
        m.memory.overlay m.index.toNat (decimalDigits (m.registers.read x))
      | .store x => m.memory.overlay m.index.toNat (m.registers.upTo x)
      | _ => m.memory := by
  obtain ⟨_, _, _, h⟩ := m.effect_reach i
  rw [h]

/-- **What lies outside of the range that is stored to stays.** -/
theorem memory_effect_of_outside {m : Machine K} {i : Instruction} {a : Nat} (ha : a < 4096)
    (h : a < m.index.toNat ∨ m.index.toNat + i.stored ≤ a) :
    (m.effect i).memory[a] = m.memory[a] := by
  have hmemory := m.memory_effect i
  rw [hmemory]
  cases i with
  | storeDecimal x => exact Memory.getElem_overlay_of_outside m.memory ha h
  | store x =>
    apply Memory.getElem_overlay_of_outside m.memory ha
    rw [m.registers.size_upTo x]
    exact h
  | _ => rfl

/-- **Only an instruction of its own sets the delay timer.** -/
theorem delay_effect (m : Machine K) (i : Instruction) :
    (m.effect i).delay = match i with
      | .setDelay x => ⟨m.registers.read x⟩
      | _ => m.delay := by
  obtain ⟨_, _, _, h⟩ := m.effect_reach i
  rw [h]

/-- So it is with the sound timer. -/
theorem sound_effect (m : Machine K) (i : Instruction) :
    (m.effect i).sound = match i with
      | .setSound x => ⟨m.registers.read x⟩
      | _ => m.sound := by
  obtain ⟨_, _, _, h⟩ := m.effect_reach i
  rw [h]

/-- **Only a random byte takes one from the stream.** -/
theorem random_effect (m : Machine K) (i : Instruction) :
    (m.effect i).random = match i with
      | .random .. => m.random.rest
      | _ => m.random := by
  obtain ⟨_, _, _, h⟩ := m.effect_reach i
  rw [h]

/-- **Only what reports a drawing can change the screen.** -/
theorem screen_effect (m : Machine K) {i : Instruction} (hi : m.report i ≠ .drawn) :
    (m.effect i).screen = m.screen := by
  cases i with
  | clear => exact absurd rfl hi
  | draw x y rows => exact absurd rfl hi
  | load x => obtain ⟨r, j, h⟩ := m.effect_load x; rw [h]
  | waitKey x => obtain ⟨r, h⟩ := m.effect_waitKey x; rw [h]
  | _ => rfl

end Machine

end Chip8
