/-
  The instruction set once more, as a table of patterns.

  The operands of an `Instruction` are never out of range: their types have no room for that.  A
  `Statement` is what one would WRITE DOWN for an assembler, the same operations with plain numbers
  behind them, sensible or not.

  1. **The table** — `word s` is the pattern of a statement (`00E0`, `1NNN`, to `FX65`) with its
     numbers in the place of the letters, put there by nothing but sums.  `WellFormed s` says that
     every number fits its place.  One that does not spills over into the digits in front of it:
     a jump to `0x1200` would be the word `2200`, which is a call.

  2. **With types and without** — the well-formed statements are the instructions, no more and no
     less (`wellFormed_iff`), and the opcode of an instruction is the word of its statement
     (`word_statement`).

  3. **The decoder** — reads a word as the one well-formed statement that has it, and refuses it,
     naming it, if there is none (`decode_bijective`).
-/
import Chip8.Instruction.Encoding

namespace Chip8

/-! ## The table -/

/-- An operation with plain numbers behind it. -/
inductive Statement where
  | clear
  | ret
  | jump (nnn : Nat)
  | call (nnn : Nat)
  | skipIsByte (x : Nat) (nn : UInt8)
  | skipNotByte (x : Nat) (nn : UInt8)
  | skipSame (x y : Nat)
  | setByte (x : Nat) (nn : UInt8)
  | addByte (x : Nat) (nn : UInt8)
  | alu (op : AluOp) (x y : Nat)
  | skipDiffer (x y : Nat)
  | setIndex (nnn : Nat)
  | jumpPlus (nnn : Nat)
  | random (x : Nat) (nn : UInt8)
  | draw (x y n : Nat)
  | skipKeyDown (x : Nat)
  | skipKeyUp (x : Nat)
  | readDelay (x : Nat)
  | waitKey (x : Nat)
  | setDelay (x : Nat)
  | setSound (x : Nat)
  | addIndex (x : Nat)
  | pointGlyph (x : Nat)
  | storeDecimal (x : Nat)
  | store (x : Nat)
  | load (x : Nat)
  deriving DecidableEq, Repr

namespace Statement

/-- **The pattern of a statement**, its letters zero, and each number added in its place. -/
def word : Statement → Nat
  | clear => 0x00E0
  | ret => 0x00EE
  | jump nnn => 0x1000 + nnn
  | call nnn => 0x2000 + nnn
  | skipIsByte x nn => 0x3000 + 0x100 * x + nn.toNat
  | skipNotByte x nn => 0x4000 + 0x100 * x + nn.toNat
  | skipSame x y => 0x5000 + 0x100 * x + 0x10 * y
  | setByte x nn => 0x6000 + 0x100 * x + nn.toNat
  | addByte x nn => 0x7000 + 0x100 * x + nn.toNat
  | alu .copy x y => 0x8000 + 0x100 * x + 0x10 * y
  | alu .or x y => 0x8001 + 0x100 * x + 0x10 * y
  | alu .and x y => 0x8002 + 0x100 * x + 0x10 * y
  | alu .xor x y => 0x8003 + 0x100 * x + 0x10 * y
  | alu .add x y => 0x8004 + 0x100 * x + 0x10 * y
  | alu .sub x y => 0x8005 + 0x100 * x + 0x10 * y
  | alu .shiftRight x y => 0x8006 + 0x100 * x + 0x10 * y
  | alu .subReversed x y => 0x8007 + 0x100 * x + 0x10 * y
  | alu .shiftLeft x y => 0x800E + 0x100 * x + 0x10 * y
  | skipDiffer x y => 0x9000 + 0x100 * x + 0x10 * y
  | setIndex nnn => 0xA000 + nnn
  | jumpPlus nnn => 0xB000 + nnn
  | random x nn => 0xC000 + 0x100 * x + nn.toNat
  | draw x y n => 0xD000 + 0x100 * x + 0x10 * y + n
  | skipKeyDown x => 0xE09E + 0x100 * x
  | skipKeyUp x => 0xE0A1 + 0x100 * x
  | readDelay x => 0xF007 + 0x100 * x
  | waitKey x => 0xF00A + 0x100 * x
  | setDelay x => 0xF015 + 0x100 * x
  | setSound x => 0xF018 + 0x100 * x
  | addIndex x => 0xF01E + 0x100 * x
  | pointGlyph x => 0xF029 + 0x100 * x
  | storeDecimal x => 0xF033 + 0x100 * x
  | store x => 0xF055 + 0x100 * x
  | load x => 0xF065 + 0x100 * x

/-- **Every number fits its place**: registers and counts have one digit, addresses have three. -/
def WellFormed : Statement → Prop
  | clear | ret => True
  | jump nnn | call nnn | setIndex nnn | jumpPlus nnn => nnn < 4096
  | skipIsByte x _ | skipNotByte x _ | setByte x _ | addByte x _ | random x _ => x < 16
  | skipSame x y | skipDiffer x y | alu _ x y => x < 16 ∧ y < 16
  | draw x y n => x < 16 ∧ y < 16 ∧ n < 16
  | skipKeyDown x | skipKeyUp x | readDelay x | waitKey x | setDelay x | setSound x | addIndex x
  | pointGlyph x | storeDecimal x | store x | load x => x < 16

instance (s : Statement) : Decidable s.WellFormed :=
  match s with
  | clear | ret => inferInstanceAs (Decidable True)
  | jump nnn | call nnn | setIndex nnn | jumpPlus nnn => inferInstanceAs (Decidable (nnn < 4096))
  | skipIsByte x _ | skipNotByte x _ | setByte x _ | addByte x _ | random x _ =>
    inferInstanceAs (Decidable (x < 16))
  | skipSame x y | skipDiffer x y | alu _ x y => inferInstanceAs (Decidable (x < 16 ∧ y < 16))
  | draw x y n => inferInstanceAs (Decidable (x < 16 ∧ y < 16 ∧ n < 16))
  | skipKeyDown x | skipKeyUp x | readDelay x | waitKey x | setDelay x | setSound x | addIndex x
  | pointGlyph x | storeDecimal x | store x | load x => inferInstanceAs (Decidable (x < 16))

end Statement

/-! ## With types and without -/

/-- What one would write down for an instruction. -/
def Instruction.statement : Instruction → Statement
  | .clear => .clear
  | .ret => .ret
  | .jump a => .jump a.val
  | .call a => .call a.val
  | .skip (.isByte x b) => .skipIsByte x.val b
  | .skip (.notByte x b) => .skipNotByte x.val b
  | .skip (.same x y) => .skipSame x.val y.val
  | .skip (.differ x y) => .skipDiffer x.val y.val
  | .skip (.keyDown x) => .skipKeyDown x.val
  | .skip (.keyUp x) => .skipKeyUp x.val
  | .setByte x b => .setByte x.val b
  | .addByte x b => .addByte x.val b
  | .alu op x y => .alu op x.val y.val
  | .setIndex a => .setIndex a.val
  | .jumpPlus a => .jumpPlus a.val
  | .random x mask => .random x.val mask
  | .draw x y rows => .draw x.val y.val rows.val
  | .readDelay x => .readDelay x.val
  | .waitKey x => .waitKey x.val
  | .setDelay x => .setDelay x.val
  | .setSound x => .setSound x.val
  | .addIndex x => .addIndex x.val
  | .pointGlyph x => .pointGlyph x.val
  | .storeDecimal x => .storeDecimal x.val
  | .store x => .store x.val
  | .load x => .load x.val

namespace Statement

theorem wellFormed_statement (i : Instruction) : i.statement.WellFormed := by
  cases i with
  | clear | ret => trivial
  | jump a | call a | setIndex a | jumpPlus a => exact a.isLt
  | alu op x y => exact ⟨x.isLt, y.isLt⟩
  | draw x y rows => exact ⟨x.isLt, y.isLt, rows.isLt⟩
  | skip c =>
    cases c with
    | same x y | differ x y => exact ⟨x.isLt, y.isLt⟩
    | isByte x b | notByte x b => exact x.isLt
    | keyDown x | keyUp x => exact x.isLt
  | setByte x b | addByte x b | random x b => exact x.isLt
  | _ x => exact x.isLt

/-- Numbers that fit their places are the operands of an instruction. -/
theorem exists_of_wellFormed {s : Statement} (h : s.WellFormed) :
    ∃ i : Instruction, i.statement = s := by
  cases s with
  | clear => exact ⟨.clear, rfl⟩
  | ret => exact ⟨.ret, rfl⟩
  | jump nnn => exact ⟨.jump ⟨nnn, h⟩, rfl⟩
  | call nnn => exact ⟨.call ⟨nnn, h⟩, rfl⟩
  | skipIsByte x nn => exact ⟨.skip (.isByte ⟨x, h⟩ nn), rfl⟩
  | skipNotByte x nn => exact ⟨.skip (.notByte ⟨x, h⟩ nn), rfl⟩
  | skipSame x y => exact ⟨.skip (.same ⟨x, h.1⟩ ⟨y, h.2⟩), rfl⟩
  | setByte x nn => exact ⟨.setByte ⟨x, h⟩ nn, rfl⟩
  | addByte x nn => exact ⟨.addByte ⟨x, h⟩ nn, rfl⟩
  | alu op x y => exact ⟨.alu op ⟨x, h.1⟩ ⟨y, h.2⟩, rfl⟩
  | skipDiffer x y => exact ⟨.skip (.differ ⟨x, h.1⟩ ⟨y, h.2⟩), rfl⟩
  | setIndex nnn => exact ⟨.setIndex ⟨nnn, h⟩, rfl⟩
  | jumpPlus nnn => exact ⟨.jumpPlus ⟨nnn, h⟩, rfl⟩
  | random x nn => exact ⟨.random ⟨x, h⟩ nn, rfl⟩
  | draw x y n => exact ⟨.draw ⟨x, h.1⟩ ⟨y, h.2.1⟩ ⟨n, h.2.2⟩, rfl⟩
  | skipKeyDown x => exact ⟨.skip (.keyDown ⟨x, h⟩), rfl⟩
  | skipKeyUp x => exact ⟨.skip (.keyUp ⟨x, h⟩), rfl⟩
  | readDelay x => exact ⟨.readDelay ⟨x, h⟩, rfl⟩
  | waitKey x => exact ⟨.waitKey ⟨x, h⟩, rfl⟩
  | setDelay x => exact ⟨.setDelay ⟨x, h⟩, rfl⟩
  | setSound x => exact ⟨.setSound ⟨x, h⟩, rfl⟩
  | addIndex x => exact ⟨.addIndex ⟨x, h⟩, rfl⟩
  | pointGlyph x => exact ⟨.pointGlyph ⟨x, h⟩, rfl⟩
  | storeDecimal x => exact ⟨.storeDecimal ⟨x, h⟩, rfl⟩
  | store x => exact ⟨.store ⟨x, h⟩, rfl⟩
  | load x => exact ⟨.load ⟨x, h⟩, rfl⟩

/-- **The well-formed statements are the instructions.** -/
theorem wellFormed_iff {s : Statement} : s.WellFormed ↔ ∃ i : Instruction, i.statement = s := by
  constructor
  · intro h
    exact exists_of_wellFormed h
  · rintro ⟨i, rfl⟩
    exact wellFormed_statement i

/-- **The word of an instruction's statement is its opcode.** -/
theorem word_statement (i : Instruction) : i.statement.word = i.encode.toNat := by
  cases i with
  | clear | ret => rfl
  | jump a | call a | setIndex a | jumpPlus a =>
    rw [Instruction.encode, Opcode.toNat_ofAddress]
    simp only [Instruction.statement, word]
    omega
  | alu op x y =>
    rw [Instruction.encode, Opcode.toNat_ofPair]
    cases op <;> simp only [Instruction.statement, word, AluOp.digit] <;> omega
  | draw x y rows =>
    rw [Instruction.encode, Opcode.toNat_ofPair]
    simp only [Instruction.statement, word]
    omega
  | skip c =>
    rw [Instruction.encode]
    cases c with
    | same x y | differ x y =>
      rw [Condition.encode, Opcode.toNat_ofPair]
      simp only [Instruction.statement, word]
      omega
    | _ =>
      rw [Condition.encode, Opcode.toNat_ofByte]
      simp only [Instruction.statement, word, UInt8.reduceToNat]
      omega
  | _ =>
    rw [Instruction.encode, Opcode.toNat_ofByte]
    simp only [Instruction.statement, word, UInt8.reduceToNat]
    omega

/-- Statements are told apart as the instructions are. -/
theorem statement_inj {i j : Instruction} : i.statement = j.statement ↔ i = j := by
  constructor
  · intro h
    -- the same statement has the same word, and the decoder reads a word in one way
    have hword : i.encode = j.encode := by
      apply UInt16.toNat_inj.1
      rw [← word_statement, ← word_statement, h]
    have hi : Instruction.decode j.encode = .ok i := Instruction.decode_eq_ok_iff.2 hword
    rw [Instruction.decode_encode] at hi
    cases hi
    rfl
  · rintro rfl
    rfl

/-! ## The decoder -/

/-- What the decoder makes of a word, written down. -/
theorem map_decode_eq_ok_iff {o : Opcode} {s : Statement} :
    (Instruction.decode o).map Instruction.statement = .ok s ↔ s.WellFormed ∧ s.word = o.toNat := by
  constructor
  · intro h
    cases hd : Instruction.decode o with
    | error f => rw [hd] at h; cases h
    | ok i =>
      rw [hd] at h
      cases h
      exact ⟨wellFormed_statement i, by rw [word_statement, Instruction.encode_of_decode hd]⟩
  · rintro ⟨hs, hword⟩
    obtain ⟨i, rfl⟩ := wellFormed_iff.1 hs
    rw [word_statement] at hword
    rw [Instruction.decode_eq_ok_iff.2 (UInt16.toNat_inj.1 hword)]
    rfl

/-- A word has no instruction exactly if it has no well-formed statement. -/
theorem exists_encode_iff {o : Opcode} :
    (∃ i : Instruction, i.encode = o) ↔ ∃ s : Statement, s.WellFormed ∧ s.word = o.toNat := by
  constructor
  · rintro ⟨i, rfl⟩
    exact ⟨i.statement, wellFormed_statement i, word_statement i⟩
  · rintro ⟨s, hs, hword⟩
    obtain ⟨i, rfl⟩ := wellFormed_iff.1 hs
    rw [word_statement] at hword
    exact ⟨i, UInt16.toNat_inj.1 hword⟩

/-- **The decoder is a bijection onto the well-formed statements.**  It reads a word as a statement
    exactly if that is well formed and has the word; it refuses a word exactly if no well-formed
    statement has it, and the fault carries that very word; every well-formed statement is read
    from some word; and an instruction is no less than its statement. -/
theorem decode_bijective :
    (∀ (o : Opcode) (s : Statement),
      (Instruction.decode o).map Instruction.statement = .ok s ↔
        s.WellFormed ∧ s.word = o.toNat) ∧
    (∀ (o : Opcode) (f : Fault),
      Instruction.decode o = .error f ↔
        f = .unsupported o ∧ ¬ ∃ s : Statement, s.WellFormed ∧ s.word = o.toNat) ∧
    (∀ s : Statement,
      s.WellFormed ↔ ∃ o, (Instruction.decode o).map Instruction.statement = .ok s) ∧
    (∀ i j : Instruction, i.statement = j.statement ↔ i = j) := by
  refine ⟨?_, ?_, ?_, ?_⟩
  · intro o s
    exact map_decode_eq_ok_iff
  · intro o f
    rw [Instruction.decode_eq_error_iff, exists_encode_iff]
  · intro s
    constructor
    · intro hs
      obtain ⟨i, rfl⟩ := wellFormed_iff.1 hs
      exact ⟨i.encode, by rw [Instruction.decode_encode]; rfl⟩
    · rintro ⟨o, ho⟩
      exact (map_decode_eq_ok_iff.1 ho).1
  · intro i j
    exact statement_inj

/-- A jump that is too long has the word of a call. -/
example : (jump 0x1200).word = 0x2200 ∧ Instruction.decode 0x2200 = .ok (.call 0x200) ∧
    ¬ (jump 0x1200).WellFormed := ⟨rfl, rfl, by decide⟩

end Statement

end Chip8
