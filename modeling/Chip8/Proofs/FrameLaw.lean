/-
  The frame law of the instruction set: what an instruction does not name, it leaves alone.

  1. **The lists** — what each instruction may change is written down instruction by instruction:
     which registers (`Writes`), how many places of memory from the index on
     (`Instruction.stored`), and which of the other parts (`Instruction.components`).  The flag
     register is on the list of a register operation only if that reports a flag.  A wait writes its
     register only if there is a key to put there, so the list of registers depends on the machine.

  2. **The law** — whatever is not on the list of an instruction is the same after it (`Framed`),
     and the keys, the dialect and the noted opcode are on no list.  A failing instruction keeps the
     law in the simplest way, by changing nothing.

  3. **No instruction** — a cycle that fetches a word without a meaning still succeeds.  It reports
     the word and does what every cycle begins with, nothing more.

  The lists are upper bounds.  An instruction may well leave a register on its list as it was, for
  one because it writes the byte that is there already.
-/
import Chip8.Proofs.Frame

namespace Chip8

/-! ## The lists -/

/-- The register operations that report a flag: `8XY4` to `8XY7`, and `8XYE`. -/
def AluOp.Flags : AluOp → Prop
  | .copy | .or | .and | .xor => False
  | .add | .sub | .shiftRight | .subReversed | .shiftLeft => True

/-- The parts of a machine that are changed as a whole. -/
inductive Component where
  | index
  | stack
  | delay
  | sound
  | screen
  | random
  deriving DecidableEq, Repr

/-- **The parts that an instruction may change.** -/
def Instruction.components : Instruction → List Component
  | .clear | .draw .. => [.screen]
  | .ret | .call _ => [.stack]
  | .setIndex _ | .addIndex _ | .pointGlyph _ | .store _ | .load _ => [.index]
  | .setDelay _ => [.delay]
  | .setSound _ => [.sound]
  | .random .. => [.random]
  | .jump _ | .jumpPlus _ | .skip _ | .setByte .. | .addByte .. | .alu .. | .readDelay _
  | .waitKey _ | .storeDecimal _ => []

/-- An operation without a flag writes its result only. -/
theorem AluOp.flag?_of_not_flags {op : AluOp} (h : ¬ op.Flags) (a b s : UInt8) :
    op.flag? a b s = none := by
  cases op with
  | copy | or | and | xor => rfl
  | _ => exact absurd trivial h

namespace Machine

variable {K : Type}

/-- Another register than the one written to shows what it did. -/
theorem read_setRegister_of_ne (m : Machine K) {x r : Register} (h : ¬ r = x) (b : UInt8) :
    (m.setRegister x b).registers.read r = m.registers.read r := by
  show (m.registers.write x b).read r = m.registers.read r
  rw [Registers.read_write, if_neg (Ne.symm h)]

variable [KeySource K]

/-- **The registers that an instruction may change.** -/
def Writes (m : Machine K) (r : Register) : Instruction → Prop
  | .setByte x _ | .addByte x _ | .random x _ | .readDelay x => r = x
  | .alu op x _ => r = x ∨ op.Flags ∧ r = Registers.flag
  | .waitKey x => r = x ∧ ∃ k, k < keyCount ∧ KeySource.isDown m.keys k = true
  | .draw .. => r = Registers.flag
  | .load x => r.val ≤ x.val
  | _ => False

/-- `after` is `m` but for what is on the lists of the instruction. -/
structure Framed (m : Machine K) (i : Instruction) (after : Machine K) : Prop where
  registers : ∀ r, ¬ m.Writes r i → after.registers.read r = m.registers.read r
  memory : ∀ a, (ha : a < 4096) → a < m.index.toNat ∨ m.index.toNat + i.stored ≤ a →
    after.memory[a] = m.memory[a]
  index : .index ∉ i.components → after.index = m.index
  stack : .stack ∉ i.components → after.stack = m.stack
  delay : .delay ∉ i.components → after.delay = m.delay
  sound : .sound ∉ i.components → after.sound = m.sound
  screen : .screen ∉ i.components → after.screen = m.screen
  random : .random ∉ i.components → after.random = m.random
  keys : after.keys = m.keys
  dialect : after.dialect = m.dialect
  lastOpcode : after.lastOpcode = m.lastOpcode

/-! ## Registers -/

/-- A register operation writes two registers at most. -/
theorem read_operate_of_not_writes (m : Machine K) {op : AluOp} {x y r : Register}
    (h : ¬ m.Writes r (.alu op x y)) : (m.operate op x y).read r = m.registers.read r := by
  obtain ⟨hx, hflag⟩ := not_or.1 h
  simp only [operate]
  rw [Registers.read_write, if_neg (Ne.symm hx)]
  by_cases hop : op.Flags
  · -- the flag goes to another register
    have hr : ¬ Registers.flag = r := fun heq => hflag ⟨hop, heq.symm⟩
    cases op.flag? _ _ _ with
    | none => rfl
    | some b => rw [Registers.write?, Registers.read_write, if_neg hr]
  · rw [AluOp.flag?_of_not_flags hop]
    rfl

/-- **A register that is not on the list stays.** -/
theorem registers_effect (m : Machine K) {i : Instruction} {r : Register} (h : ¬ m.Writes r i) :
    (m.effect i).registers.read r = m.registers.read r := by
  cases i with
  | setByte x b | addByte x b | readDelay x => exact m.read_setRegister_of_ne h _
  | random x mask => exact m.read_setRegister_of_ne h _
  | alu op x y => exact m.read_operate_of_not_writes h
  | waitKey x =>
    rw [effect]
    cases hkey : lowestDown m.keys with
    | none => rfl
    | some k =>
      have hdown := ((lowestDown_eq_some_iff m.keys k).1 hkey).1
      have hr : ¬ r = x := fun heq => h ⟨heq, k.val, k.isLt, hdown⟩
      exact m.read_setRegister_of_ne hr _
  | draw x y rows =>
    rw [effect]
    cases m.memory.read m.index.toNat rows.val with
    | error f => rfl
    | ok sprite =>
      show (m.registers.write Registers.flag _).read r = m.registers.read r
      rw [Registers.read_write, if_neg (Ne.symm h)]
  | load x =>
    rw [effect]
    cases m.memory.read m.index.toNat (x.val + 1) with
    | error f => rfl
    | ok bytes =>
      -- there is no byte for a register above `x`
      have hout : bytes.toArray.size ≤ r.val := by
        rw [Vector.size_toArray]
        exact Nat.lt_of_not_le h
      show (m.registers.fill bytes.toArray).read r = m.registers.read r
      rw [Registers.read_fill, Array.getD_eq_getD_getElem?, Array.getElem?_eq_none hout]
      rfl
  | _ => rfl

/-! ## The law -/

/-- What changes nothing keeps every frame. -/
theorem framed_refl (m : Machine K) (i : Instruction) : m.Framed i m := by
  constructor <;> intros <;> rfl

/-- Moving the program counter does not touch the frame. -/
theorem Framed.follow {m after : Machine K} {i : Instruction} (h : m.Framed i after) (f : Flow) :
    m.Framed i (after.follow f) := { h with }

/-- **An effect stays within the lists.**  Each field is one case analysis on the instruction: either
    the part is on the list, or the effect does not mention it. -/
theorem framed_effect (m : Machine K) (i : Instruction) : m.Framed i (m.effect i) where
  registers r h := m.registers_effect h
  memory a ha h := memory_effect_of_outside ha h
  index h := by
    cases i with
    | setIndex a | addIndex x | pointGlyph x | store x | load x => exact absurd List.mem_cons_self h
    | waitKey x => obtain ⟨r, heff⟩ := m.effect_waitKey x; rw [heff]
    | draw x y rows => obtain ⟨s, r, heff⟩ := m.effect_draw x y rows; rw [heff]
    | _ => rfl
  stack h := by
    rw [stack_effect]
    cases i with
    | ret | call a => exact absurd List.mem_cons_self h
    | _ => rfl
  delay h := by
    rw [delay_effect]
    cases i with
    | setDelay x => exact absurd List.mem_cons_self h
    | _ => rfl
  sound h := by
    rw [sound_effect]
    cases i with
    | setSound x => exact absurd List.mem_cons_self h
    | _ => rfl
  screen h := by
    apply m.screen_effect
    cases i with
    | clear | draw x y rows => exact absurd List.mem_cons_self h
    | waitKey x => rw [report]; split <;> exact Signal.noConfusion
    | _ => exact Signal.noConfusion
  random h := by
    rw [random_effect]
    cases i with
    | random x mask => exact absurd List.mem_cons_self h
    | _ => rfl
  keys := m.keys_effect i
  dialect := m.dialect_effect i
  lastOpcode := m.lastOpcode_effect i

/-- So does the instruction, whether it can run or not. -/
theorem framed_execute (m : Machine K) (i : Instruction) : m.Framed i (m.execute i).state := by
  cases hfault : m.fault? i with
  | some f =>
    rw [execute_of_fault hfault]
    exact m.framed_refl i
  | none =>
    rw [execute_of_no_fault hfault]
    exact (m.framed_effect i).follow (m.flow i)

/-- **The frame law.**  An instruction changes only what is on its lists.  A cycle that fetches a
    word without an instruction succeeds and reports the word; the program counter moves past it,
    both timers count down by one as far as they can, the word is noted, and that is all. -/
theorem frame_law (m : Machine K) :
    (∀ i, m.Framed i (m.execute i).state) ∧
    ∀ o, m.fetch = .ok o → (¬ ∃ i : Instruction, i.encode = o) →
      m.cycle.result = .ok (.unknown o) ∧
      ∃ delay sound : Timer,
        delay.value.toNat = m.delay.value.toNat - 1 ∧
        sound.value.toNat = m.sound.value.toNat - 1 ∧
        m.cycle.state =
          { m with lastOpcode := o, pc := m.pc + 2, delay := delay, sound := sound } := by
  constructor
  · intro i
    exact m.framed_execute i
  · intro o hfetch hnone
    have hdecode : Instruction.decode o = .error (.unsupported o) :=
      Instruction.decode_eq_error_iff.2 ⟨rfl, hnone⟩
    have hcycle := cycle_of_decode_error hfetch hdecode
    rw [hcycle]
    exact ⟨rfl, m.delay.tick, m.sound.tick, m.delay.toNat_tick, m.sound.toNat_tick, rfl⟩

/-- A word that is no instruction, and a load of `V0` to `V3`, which has nothing to do with `V4`. -/
theorem frame_law_of_unknown_word :
    let m := ((powerOn Keypad.released .plain (.repeating #[])).load #[0x50, 0x01]).state
    (¬ m.Writes 4 (.load 3) ∧
      (m.execute (.load 3)).state.registers.read 4 = m.registers.read 4) ∧
    (m.fetch = .ok 0x5001 ∧ (¬ ∃ i : Instruction, i.encode = 0x5001) ∧
      m.cycle.result = .ok (.unknown 0x5001) ∧
      ∃ delay sound : Timer, delay.value.toNat = 59 ∧ sound.value.toNat = 59 ∧
        m.cycle.state =
          { m with lastOpcode := 0x5001, pc := 0x202, delay := delay, sound := sound }) := by
  intro m
  have hwrites : ¬ m.Writes 4 (.load 3) := by
    show ¬ 4 ≤ 3
    decide
  have hfetch : m.fetch = .ok 0x5001 :=
    fetch_of_overlay (p := #[0x50, 0x01]) (k := 0) rfl (by decide) rfl (by decide)
  have hnone : ¬ ∃ i : Instruction, i.encode = 0x5001 :=
    (Instruction.decode_eq_error_iff (f := .unsupported 0x5001).1 rfl).2
  obtain ⟨hframed, hunknown⟩ := frame_law m
  exact ⟨⟨hwrites, (hframed (.load 3)).registers 4 hwrites⟩, hfetch, hnone,
    hunknown 0x5001 hfetch hnone⟩

end Machine

end Chip8
