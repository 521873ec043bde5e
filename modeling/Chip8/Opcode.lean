/-
  Opcodes: the sixteen-bit words a program is made of, and the fields an instruction keeps in one.

  A word is written `TXYN` in hexadecimal.  `T` is its FAMILY, `X` and `Y` name registers, `N` is
  a short count; `YN` together is a byte and `XYN` an address.  Every field is read with division
  and remainder, so its bound is part of its type: a field of four bits is a `Fin 16`.

  Mathlib-free.
-/

namespace Chip8

/-- A sixteen-bit word of machine code. -/
abbrev Opcode := UInt16

/-- The name of one of the sixteen registers `V0` to `VF`. -/
abbrev Register := Fin 16

/-- A twelve-bit place in memory, as far as an opcode can name one. -/
abbrev Address := Fin 4096

namespace Opcode

/-! ## Words and bytes -/

/-- The opcode of two bytes, the high byte first. -/
def ofBytes (hi lo : UInt8) : Opcode := UInt16.ofNat (256 * hi.toNat + lo.toNat)

/-- The high byte of an opcode, the first one in memory. -/
def high (o : Opcode) : UInt8 := UInt8.ofNat (o.toNat / 256)

/-- The low byte of an opcode. -/
def low (o : Opcode) : UInt8 := UInt8.ofNat (o.toNat % 256)

/-- Two bytes make `256 * hi + lo`; no word is too large for that. -/
theorem toNat_ofBytes (hi lo : UInt8) : (ofBytes hi lo).toNat = 256 * hi.toNat + lo.toNat := by
  have h1 := hi.toNat_lt
  have h2 := lo.toNat_lt
  rw [ofBytes, UInt16.toNat_ofNat']
  omega

/-- **Splitting is undone by joining.** -/
theorem ofBytes_high_low (o : Opcode) : ofBytes o.high o.low = o := by
  have h := o.toNat_lt
  refine UInt16.toNat_inj.1 ?_
  rw [toNat_ofBytes, high, low, UInt8.toNat_ofNat', UInt8.toNat_ofNat']
  omega

/-- **Joining is undone by splitting**, so different bytes make different words. -/
theorem ofBytes_inj {a b c d : UInt8} : ofBytes a b = ofBytes c d ↔ a = c ∧ b = d := by
  constructor
  · intro h
    have hb := b.toNat_lt
    have hd := d.toNat_lt
    have hsum := congrArg UInt16.toNat h
    rw [toNat_ofBytes, toNat_ofBytes] at hsum
    exact ⟨UInt8.toNat_inj.1 (by omega), UInt8.toNat_inj.1 (by omega)⟩
  · rintro ⟨rfl, rfl⟩
    rfl

/-! ## Fields -/

/-- `T`, the first digit. -/
def family (o : Opcode) : Fin 16 := ⟨o.toNat / 4096 % 16, by omega⟩

/-- `X`, the second digit. -/
def x (o : Opcode) : Register := ⟨o.toNat / 256 % 16, by omega⟩

/-- `Y`, the third digit. -/
def y (o : Opcode) : Register := ⟨o.toNat / 16 % 16, by omega⟩

/-- `N`, the last digit. -/
def n (o : Opcode) : Fin 16 := ⟨o.toNat % 16, by omega⟩

/-- `XYN`, the last three digits. -/
def address (o : Opcode) : Address := ⟨o.toNat % 4096, by omega⟩

/-- The four digits make up the word. -/
theorem toNat_eq_fields (o : Opcode) :
    o.toNat = 4096 * o.family.val + 256 * o.x.val + 16 * o.y.val + o.n.val := by
  have h := o.toNat_lt
  simp only [family, x, y, n]
  omega

end Opcode

end Chip8
