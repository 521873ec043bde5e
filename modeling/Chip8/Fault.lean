/-
  Faults: everything that can go wrong, each with its cause, and the one place that words them.

  A fault's `cause` says what happened, in a sentence of its own.  Its `message` puts the cause in
  quotes behind the part of the machine it happened in.  Numbers that name a place or a word are
  hexadecimal there, sizes are decimal.

  Mathlib-free.
-/
import Chip8.Numeral
import Chip8.Opcode

namespace Chip8

/-- What stops an instruction or a load. -/
inductive Fault where
  /-- The word is no instruction. -/
  | unsupported (opcode : Opcode)
  /-- A call with no room left for its return address. -/
  | stackFull
  /-- A return with no call to return from. -/
  | stackEmpty
  /-- A byte was asked for at `pointer`, which is not below `len`. -/
  | outOfBounds (pointer len : Nat)
  /-- A program of `size` bytes where `max` is the most that fits. -/
  | tooLarge (size max : Nat)
  deriving DecidableEq, Repr

namespace Fault

open Numeral

/-- The cause, worded. -/
def cause : Fault → String
  | unsupported o => "An unsupported opcode was used " ++ hex o.toNat ++ "."
  | stackFull => "Stack is full!"
  | stackEmpty => "Stack is empty!"
  | outOfBounds pointer len =>
      "Memory location " ++ hex pointer ++ " is out of bounds, if memory len is " ++ decimal len
  | tooLarge size max =>
      "The program has " ++ decimal size ++ " bytes, but only " ++ decimal max
        ++ " fit into memory"

/-- What the fault spoils. -/
def area : Fault → String
  | unsupported _ => "Invalid opcode state"
  | stackFull | stackEmpty => "Invalid stack state"
  | outOfBounds .. => "Invalid memory access"
  | tooLarge .. => "Unable to load the program"

/-- **The message**: the area, then the cause in quotes. -/
def message (f : Fault) : String := f.area ++ " '" ++ f.cause ++ "'."

end Fault

end Chip8
