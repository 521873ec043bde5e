/-
  The instruction set.

  An `Instruction` holds its operands in types that cannot be out of range: a register is one of
  sixteen, an address has twelve bits, a sprite has at most fifteen rows.  The six skips share one
  constructor, whose `Condition` says when to skip, and the nine register operations share one,
  whose `AluOp` says what to compute.

  Mathlib-free.
-/
import Chip8.Alu
import Chip8.Opcode

namespace Chip8

/-- When a skip skips. -/
inductive Condition where
  /-- `VX` holds the byte. -/
  | isByte (x : Register) (b : UInt8)
  /-- `VX` holds another byte. -/
  | notByte (x : Register) (b : UInt8)
  /-- `VX` and `VY` hold the same. -/
  | same (x y : Register)
  /-- `VX` and `VY` differ. -/
  | differ (x y : Register)
  /-- The key that `VX` names is down. -/
  | keyDown (x : Register)
  /-- The key that `VX` names is not down. -/
  | keyUp (x : Register)
  deriving DecidableEq, Repr

/-- One instruction of the machine. -/
inductive Instruction where
  /-- `00E0`: blank the screen. -/
  | clear
  /-- `00EE`: go back to where the last call left off. -/
  | ret
  /-- `1NNN`: go to an address. -/
  | jump (a : Address)
  /-- `2NNN`: go to an address and remember where to come back. -/
  | call (a : Address)
  /-- `3XNN`, `4XNN`, `5XY0`, `9XY0`, `EX9E`, `EXA1`: skip the next opcode on a condition. -/
  | skip (c : Condition)
  /-- `6XNN`: `VX` becomes the byte. -/
  | setByte (x : Register) (b : UInt8)
  /-- `7XNN`: the byte is added to `VX`, without a carry. -/
  | addByte (x : Register) (b : UInt8)
  /-- `8XYT`: a register operation. -/
  | alu (op : AluOp) (x y : Register)
  /-- `ANNN`: the index register becomes the address. -/
  | setIndex (a : Address)
  /-- `BNNN`: go to the address plus `V0`. -/
  | jumpPlus (a : Address)
  /-- `CXNN`: `VX` becomes a random byte, masked. -/
  | random (x : Register) (mask : UInt8)
  /-- `DXYN`: draw a sprite of `rows` rows at column `VX`, row `VY`. -/
  | draw (x y : Register) (rows : Fin 16)
  /-- `FX07`: `VX` becomes the delay timer. -/
  | readDelay (x : Register)
  /-- `FX0A`: wait for a key and put it into `VX`. -/
  | waitKey (x : Register)
  /-- `FX15`: the delay timer starts at `VX`. -/
  | setDelay (x : Register)
  /-- `FX18`: the sound timer starts at `VX`. -/
  | setSound (x : Register)
  /-- `FX1E`: `VX` is added to the index register. -/
  | addIndex (x : Register)
  /-- `FX29`: the index register points at the glyph of `VX`. -/
  | pointGlyph (x : Register)
  /-- `FX33`: the three decimal digits of `VX` go to memory. -/
  | storeDecimal (x : Register)
  /-- `FX55`: `V0` to `VX` go to memory. -/
  | store (x : Register)
  /-- `FX65`: `V0` to `VX` come from memory. -/
  | load (x : Register)
  deriving DecidableEq, Repr

end Chip8
