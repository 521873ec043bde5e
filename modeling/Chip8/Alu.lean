/-
  Arithmetic on register bytes.

  An operation makes a result out of two bytes, and some make a FLAG as well: the carry of an
  addition, "no borrow was needed" of a subtraction (strictly: the difference is positive), or the
  bit that a shift pushed out.  The shifts look at neither operand but at a third byte `s`, because
  dialects disagree on which register that is.

  Mathlib-free.
-/

namespace Chip8

/-- What becomes of two registers. -/
inductive AluOp where
  /-- The second. -/
  | copy
  | or
  | and
  | xor
  | add
  /-- The first less the second. -/
  | sub
  | shiftRight
  /-- The second less the first. -/
  | subReversed
  | shiftLeft
  deriving DecidableEq, Repr

/-- A flag as a byte. -/
def flagByte (b : Bool) : UInt8 := if b then 1 else 0

namespace AluOp

/-- The result, from the two operands and the byte to shift. -/
def result (op : AluOp) (a b s : UInt8) : UInt8 :=
  match op with
  | copy => b
  | or => a ||| b
  | and => a &&& b
  | xor => a ^^^ b
  | add => a + b
  | sub => a - b
  | shiftRight => s >>> 1
  | subReversed => b - a
  | shiftLeft => s <<< 1

/-- The flag, for the operations that have one. -/
def flag? (op : AluOp) (a b s : UInt8) : Option UInt8 :=
  match op with
  | copy | or | and | xor => none
  | add => some (flagByte (256 ≤ a.toNat + b.toNat))
  | sub => some (flagByte (b < a))
  | shiftRight => some (s &&& 1)
  | subReversed => some (flagByte (a < b))
  | shiftLeft => some (s >>> 7)

end AluOp

end Chip8
