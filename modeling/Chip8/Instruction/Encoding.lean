/-
  Instructions as opcodes.

  1. **Encoding** — `encode i` is the opcode of `i`, built from its four digits as the table in
     the doc comments of `Instruction` shows them.  Every instruction has one.

  2. **Decoding** — `decode o` looks at the family of `o` first, then at the digits that the
     family leaves open.  A word that is no instruction is refused, and the fault carries that
     very word.

  3. **Both ways round** — what was encoded is decoded again (`instruction?_encode`), and what was
     decoded is encoded again (`encode_of_instruction?`).

  Mathlib-free.
-/
import Chip8.Fault
import Chip8.Instruction

namespace Chip8

/-! ## Encoding -/

namespace Opcode

/-- `TNNN`: a family and an address. -/
def ofAddress (t : Fin 16) (a : Address) : Opcode := UInt16.ofNat (4096 * t.val + a.val)

/-- `TXNN`: a family, a register and a byte. -/
def ofByte (t : Fin 16) (x : Register) (b : UInt8) : Opcode :=
  UInt16.ofNat (4096 * t.val + 256 * x.val + b.toNat)

/-- `TXYN`: a family, two registers and a digit. -/
def ofPair (t : Fin 16) (x y : Register) (n : Fin 16) : Opcode :=
  UInt16.ofNat (4096 * t.val + 256 * x.val + 16 * y.val + n.val)

/-- No family and address are too large for a word. -/
theorem toNat_ofAddress (t : Fin 16) (a : Address) :
    (ofAddress t a).toNat = 4096 * t.val + a.val := by
  have ht := t.isLt
  have ha := a.isLt
  rw [ofAddress, UInt16.toNat_ofNat']
  omega

/-- Nor are a family, a register and a byte. -/
theorem toNat_ofByte (t : Fin 16) (x : Register) (b : UInt8) :
    (ofByte t x b).toNat = 4096 * t.val + 256 * x.val + b.toNat := by
  have ht := t.isLt
  have hx := x.isLt
  have hb := b.toNat_lt
  rw [ofByte, UInt16.toNat_ofNat']
  omega

/-- Nor are four digits. -/
theorem toNat_ofPair (t : Fin 16) (x y : Register) (n : Fin 16) :
    (ofPair t x y n).toNat = 4096 * t.val + 256 * x.val + 16 * y.val + n.val := by
  have ht := t.isLt
  have hx := x.isLt
  have hy := y.isLt
  have hn := n.isLt
  rw [ofPair, UInt16.toNat_ofNat']
  omega

/-- A family and an address are read back. -/
theorem fields_ofAddress (t : Fin 16) (a : Address) :
    (ofAddress t a).family = t ∧ (ofAddress t a).address = a := by
  have ht := t.isLt
  have ha := a.isLt
  constructor <;> apply Fin.ext <;> simp only [family, address, toNat_ofAddress] <;> omega

/-- A family, a register and a byte are read back. -/
theorem fields_ofByte (t : Fin 16) (x : Register) (b : UInt8) :
    (ofByte t x b).family = t ∧ (ofByte t x b).x = x ∧ (ofByte t x b).low = b := by
  have ht := t.isLt
  have hx := x.isLt
  have hb := b.toNat_lt
  refine ⟨?_, ?_, ?_⟩
  · apply Fin.ext; simp only [family, toNat_ofByte]; omega
  · apply Fin.ext; simp only [Opcode.x, toNat_ofByte]; omega
  · apply UInt8.toNat_inj.1; rw [low, UInt8.toNat_ofNat', toNat_ofByte]; omega

/-- A family, two registers and a digit are read back. -/
theorem fields_ofPair (t : Fin 16) (x y : Register) (n : Fin 16) :
    (ofPair t x y n).family = t ∧ (ofPair t x y n).x = x ∧ (ofPair t x y n).y = y ∧
      (ofPair t x y n).n = n := by
  have ht := t.isLt
  have hx := x.isLt
  have hy := y.isLt
  have hn := n.isLt
  refine ⟨?_, ?_, ?_, ?_⟩ <;> apply Fin.ext <;>
    simp only [family, Opcode.x, Opcode.y, Opcode.n, toNat_ofPair] <;> omega

/-- An opcode is its family and its address. -/
theorem ofAddress_fields (o : Opcode) : ofAddress o.family o.address = o := by
  have h := o.toNat_lt
  apply UInt16.toNat_inj.1
  simp only [ofAddress, family, address, UInt16.toNat_ofNat']
  omega

/-- An opcode is its family, its first register and its low byte. -/
theorem ofByte_fields (o : Opcode) : ofByte o.family o.x o.low = o := by
  have h := o.toNat_lt
  apply UInt16.toNat_inj.1
  simp only [ofByte, family, Opcode.x, low, UInt16.toNat_ofNat', UInt8.toNat_ofNat']
  omega

/-- An opcode is its four digits. -/
theorem ofPair_fields (o : Opcode) : ofPair o.family o.x o.y o.n = o := by
  apply UInt16.toNat_inj.1
  rw [toNat_ofPair]
  exact o.toNat_eq_fields.symm

/-- **A word of a family and an address** is any word whose digits are these. -/
theorem ofAddress_eq_iff {t : Fin 16} {a : Address} {o : Opcode} :
    ofAddress t a = o ↔ o.family = t ∧ o.address = a := by
  constructor
  · rintro rfl
    exact fields_ofAddress t a
  · rintro ⟨rfl, rfl⟩
    exact ofAddress_fields o

/-- So it is with a register and a byte. -/
theorem ofByte_eq_iff {t : Fin 16} {x : Register} {b : UInt8} {o : Opcode} :
    ofByte t x b = o ↔ o.family = t ∧ o.x = x ∧ o.low = b := by
  constructor
  · rintro rfl
    exact fields_ofByte t x b
  · rintro ⟨rfl, rfl, rfl⟩
    exact ofByte_fields o

/-- So it is with two registers and a digit. -/
theorem ofPair_eq_iff {t : Fin 16} {x y : Register} {n : Fin 16} {o : Opcode} :
    ofPair t x y n = o ↔ o.family = t ∧ o.x = x ∧ o.y = y ∧ o.n = n := by
  constructor
  · rintro rfl
    exact fields_ofPair t x y n
  · rintro ⟨rfl, rfl, rfl, rfl⟩
    exact ofPair_fields o

end Opcode

/-- The digit that tells the register operations apart. -/
def AluOp.digit : AluOp → Fin 16
  | .copy => 0x0
  | .or => 0x1
  | .and => 0x2
  | .xor => 0x3
  | .add => 0x4
  | .sub => 0x5
  | .shiftRight => 0x6
  | .subReversed => 0x7
  | .shiftLeft => 0xE

/-- The opcode of a skip. -/
def Condition.encode : Condition → Opcode
  | .isByte x b => .ofByte 0x3 x b
  | .notByte x b => .ofByte 0x4 x b
  | .same x y => .ofPair 0x5 x y 0
  | .differ x y => .ofPair 0x9 x y 0
  | .keyDown x => .ofByte 0xE x 0x9E
  | .keyUp x => .ofByte 0xE x 0xA1

/-- **The opcode of an instruction.** -/
def Instruction.encode : Instruction → Opcode
  | .clear => 0x00E0
  | .ret => 0x00EE
  | .jump a => .ofAddress 0x1 a
  | .call a => .ofAddress 0x2 a
  | .skip c => c.encode
  | .setByte x b => .ofByte 0x6 x b
  | .addByte x b => .ofByte 0x7 x b
  | .alu op x y => .ofPair 0x8 x y op.digit
  | .setIndex a => .ofAddress 0xA a
  | .jumpPlus a => .ofAddress 0xB a
  | .random x mask => .ofByte 0xC x mask
  | .draw x y rows => .ofPair 0xD x y rows
  | .readDelay x => .ofByte 0xF x 0x07
  | .waitKey x => .ofByte 0xF x 0x0A
  | .setDelay x => .ofByte 0xF x 0x15
  | .setSound x => .ofByte 0xF x 0x18
  | .addIndex x => .ofByte 0xF x 0x1E
  | .pointGlyph x => .ofByte 0xF x 0x29
  | .storeDecimal x => .ofByte 0xF x 0x33
  | .store x => .ofByte 0xF x 0x55
  | .load x => .ofByte 0xF x 0x65

/-! ## Decoding -/

/-- The register operation of a digit. -/
def AluOp.ofDigit? (n : Fin 16) : Option AluOp :=
  match n with
  | 0x0 => some .copy
  | 0x1 => some .or
  | 0x2 => some .and
  | 0x3 => some .xor
  | 0x4 => some .add
  | 0x5 => some .sub
  | 0x6 => some .shiftRight
  | 0x7 => some .subReversed
  | 0xE => some .shiftLeft
  | _ => none

namespace Opcode

/-- The instruction of a word of family `0`, where the whole word counts. -/
def plain? (o : Opcode) : Option Instruction :=
  match o.toNat with
  | 0x00E0 => some .clear
  | 0x00EE => some .ret
  | _ => none

/-- The instruction of a word of family `E`, which asks about a key. -/
def keySkip? (o : Opcode) : Option Instruction :=
  match o.low with
  | 0x9E => some (.skip (.keyDown o.x))
  | 0xA1 => some (.skip (.keyUp o.x))
  | _ => none

/-- The instruction of a word of family `F`, told apart by its low byte. -/
def device? (o : Opcode) : Option Instruction :=
  match o.low with
  | 0x07 => some (.readDelay o.x)
  | 0x0A => some (.waitKey o.x)
  | 0x15 => some (.setDelay o.x)
  | 0x18 => some (.setSound o.x)
  | 0x1E => some (.addIndex o.x)
  | 0x29 => some (.pointGlyph o.x)
  | 0x33 => some (.storeDecimal o.x)
  | 0x55 => some (.store o.x)
  | 0x65 => some (.load o.x)
  | _ => none

/-- The instruction of a word, if it is one. -/
def instruction? (o : Opcode) : Option Instruction :=
  match o.family with
  | 0x0 => o.plain?
  | 0x1 => some (.jump o.address)
  | 0x2 => some (.call o.address)
  | 0x3 => some (.skip (.isByte o.x o.low))
  | 0x4 => some (.skip (.notByte o.x o.low))
  | 0x5 => if o.n = 0 then some (.skip (.same o.x o.y)) else none
  | 0x6 => some (.setByte o.x o.low)
  | 0x7 => some (.addByte o.x o.low)
  | 0x8 => (AluOp.ofDigit? o.n).map fun op => .alu op o.x o.y
  | 0x9 => if o.n = 0 then some (.skip (.differ o.x o.y)) else none
  | 0xA => some (.setIndex o.address)
  | 0xB => some (.jumpPlus o.address)
  | 0xC => some (.random o.x o.low)
  | 0xD => some (.draw o.x o.y o.n)
  | 0xE => o.keySkip?
  | 0xF => o.device?
  | _ => none  -- a digit is never larger

end Opcode

/-! ## Encoding and decoding undo each other -/

theorem AluOp.ofDigit?_digit (op : AluOp) : ofDigit? op.digit = some op := by
  cases op <;> rfl

theorem AluOp.digit_of_ofDigit? {n : Fin 16} {op : AluOp} (h : ofDigit? n = some op) :
    op.digit = n := by
  unfold ofDigit? at h
  split at h <;> cases h <;> rfl

namespace Opcode

/-- **What was encoded is decoded again.** -/
theorem instruction?_encode (i : Instruction) : i.encode.instruction? = some i := by
  -- the address, the byte and the digits come back, and the family picks the case
  have haddr := fun t a => fields_ofAddress t a
  have hbyte := fun t x b => fields_ofByte t x b
  have hpair := fun t x y n => fields_ofPair t x y n
  cases i with
  | clear => rfl
  | ret => rfl
  | alu op x y =>
    simp only [Instruction.encode, instruction?, hpair, AluOp.ofDigit?_digit]; rfl
  | skip c =>
    cases c <;>
      simp only [Instruction.encode, Condition.encode, instruction?, keySkip?, hbyte, hpair, if_true]
  | _ =>
    simp only [Instruction.encode, instruction?, device?, haddr, hbyte, hpair]

theorem encode_of_plain? {o : Opcode} {i : Instruction} (h : o.plain? = some i) : i.encode = o := by
  unfold plain? at h
  split at h
  · rename_i ho; cases h; exact UInt16.toNat_inj.1 ho.symm
  · rename_i ho; cases h; exact UInt16.toNat_inj.1 ho.symm
  · cases h

theorem encode_of_keySkip? {o : Opcode} {i : Instruction} (hf : o.family = 0xE)
    (h : o.keySkip? = some i) : i.encode = o := by
  unfold keySkip? at h
  split at h <;> cases h
  all_goals
    rename_i hl
    exact ofByte_eq_iff.2 ⟨hf, rfl, hl⟩

theorem encode_of_device? {o : Opcode} {i : Instruction} (hf : o.family = 0xF)
    (h : o.device? = some i) : i.encode = o := by
  unfold device? at h
  split at h <;> cases h
  all_goals
    rename_i hl
    exact ofByte_eq_iff.2 ⟨hf, rfl, hl⟩

/-- **What was decoded is encoded again.** -/
theorem encode_of_instruction? {o : Opcode} {i : Instruction} (h : o.instruction? = some i) :
    i.encode = o := by
  unfold instruction? at h
  split at h
  all_goals try rename_i hf
  · exact encode_of_plain? h
  · cases h; exact ofAddress_eq_iff.2 ⟨hf, rfl⟩
  · cases h; exact ofAddress_eq_iff.2 ⟨hf, rfl⟩
  · cases h; exact ofByte_eq_iff.2 ⟨hf, rfl, rfl⟩
  · cases h; exact ofByte_eq_iff.2 ⟨hf, rfl, rfl⟩
  · -- two registers and a zero behind them
    split at h
    · rename_i hn; cases h; exact ofPair_eq_iff.2 ⟨hf, rfl, rfl, hn⟩
    · cases h
  · cases h; exact ofByte_eq_iff.2 ⟨hf, rfl, rfl⟩
  · cases h; exact ofByte_eq_iff.2 ⟨hf, rfl, rfl⟩
  · -- the digit names the operation
    obtain ⟨op, hop, rfl⟩ := Option.map_eq_some_iff.1 h
    exact ofPair_eq_iff.2 ⟨hf, rfl, rfl, (AluOp.digit_of_ofDigit? hop).symm⟩
  · -- two registers and a zero behind them
    split at h
    · rename_i hn; cases h; exact ofPair_eq_iff.2 ⟨hf, rfl, rfl, hn⟩
    · cases h
  · cases h; exact ofAddress_eq_iff.2 ⟨hf, rfl⟩
  · cases h; exact ofAddress_eq_iff.2 ⟨hf, rfl⟩
  · cases h; exact ofByte_eq_iff.2 ⟨hf, rfl, rfl⟩
  · cases h; exact ofPair_eq_iff.2 ⟨hf, rfl, rfl, rfl⟩
  · exact encode_of_keySkip? hf h
  · exact encode_of_device? hf h
  · cases h

end Opcode

/-- **The instruction of an opcode**, or the fault that names the opcode. -/
def Instruction.decode (o : Opcode) : Except Fault Instruction :=
  match o.instruction? with
  | some i => .ok i
  | none => .error (.unsupported o)

namespace Instruction

theorem decode_encode (i : Instruction) : decode i.encode = .ok i := by
  rw [decode, Opcode.instruction?_encode]

/-- Only its own opcode is decoded as an instruction. -/
theorem encode_of_decode {o : Opcode} {i : Instruction} (h : decode o = .ok i) : i.encode = o := by
  unfold decode at h
  split at h
  · rename_i j hj; cases h; exact Opcode.encode_of_instruction? hj
  · cases h

/-- **An opcode is decoded as the instruction that it encodes.** -/
theorem decode_eq_ok_iff {o : Opcode} {i : Instruction} : decode o = .ok i ↔ i.encode = o := by
  constructor
  · intro h
    exact encode_of_decode h
  · rintro rfl
    exact decode_encode i

/-- An instruction with the opcode that was decoded is the one that was decoded. -/
theorem eq_of_encode {o : Opcode} {i j : Instruction} (hi : decode o = .ok i)
    (hj : j.encode = o) : j = i := by
  rw [decode_eq_ok_iff.2 hj] at hi
  cases hi
  rfl

/-- It is refused, under its own name, if it encodes none. -/
theorem decode_eq_error_iff {o : Opcode} {f : Fault} :
    decode o = .error f ↔ f = .unsupported o ∧ ¬ ∃ i : Instruction, i.encode = o := by
  constructor
  · intro h
    constructor
    · unfold decode at h
      split at h
      · cases h
      · cases h; rfl
    · rintro ⟨i, hi⟩
      rw [decode_eq_ok_iff.2 hi] at h
      cases h
  · rintro ⟨rfl, hno⟩
    cases hi : o.instruction? with
    | some i => exact absurd ⟨i, Opcode.encode_of_instruction? hi⟩ hno
    | none => rw [decode, hi]

end Instruction

end Chip8
