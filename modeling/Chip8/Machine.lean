/-
  The machine: everything that its instructions can see or change.

  1. **State** — `Machine K` for a key source `K`.  The program counter and the return addresses
     are plain numbers, because a jump with an offset may lead past the end of memory; whether
     there is an opcode is asked when it is fetched.  The stack has the NEWEST return address
     first.

  2. **Life** — `powerOn`, `reset` and `load`.  A reset puts every part back except three: the
     keys, the place in the byte stream, and the dialect.  A load lays a program over memory and
     touches nothing else; one that does not fit is refused whole.

  3. **Flow** — how an instruction moves the program counter.

  Mathlib-free.
-/
import Chip8.ByteStream
import Chip8.Code
import Chip8.Dialect
import Chip8.Font
import Chip8.Keypad
import Chip8.Outcome
import Chip8.Registers
import Chip8.Screen
import Chip8.Timer

namespace Chip8

/-! ## State -/

/-- How many return addresses the stack can hold. -/
def stackSize : Nat := 16

/-- Where programs are loaded and start. -/
def programStart : Nat := 0x200

/-- The longest program that fits. -/
def programMax : Nat := memorySize - programStart

/-- A machine with its keys. -/
structure Machine (K : Type) where
  /-- The opcode that was fetched last. -/
  lastOpcode : Opcode
  memory : Memory
  registers : Registers
  index : UInt16
  pc : Nat
  /-- Return addresses, the newest first. -/
  stack : List Nat
  delay : Timer
  sound : Timer
  screen : Screen
  keys : K
  random : ByteStream
  dialect : Dialect

namespace Machine

variable {K : Type}

/-! ## Life -/

/-- A machine that has just been switched on. -/
def powerOn (keys : K) (dialect : Dialect) (random : ByteStream) : Machine K where
  lastOpcode := 0
  memory := .initial
  registers := .zeros
  index := 0
  pc := programStart
  stack := []
  delay := .initial
  sound := .initial
  screen := .blank
  keys := keys
  random := random
  dialect := dialect

/-- The machine with everything put back but its keys, its byte stream and its dialect. -/
def reset (m : Machine K) : Machine K :=
  { m with
    lastOpcode := 0
    memory := .initial
    registers := .zeros
    index := 0
    pc := programStart
    stack := []
    delay := .initial
    sound := .initial
    screen := .blank }

/-- **A machine that was reset is a new one** with the same keys, at the same place in the byte
    stream, and of the same dialect. -/
theorem reset_eq_powerOn (m : Machine K) : m.reset = powerOn m.keys m.dialect m.random := rfl

/-- A program is laid over memory, if it fits. -/
def load (m : Machine K) (program : Array UInt8) : Outcome (Machine K) Unit :=
  if program.size ≤ programMax then
    .ok { m with memory := m.memory.overlay programStart program } ()
  else .fail m (.tooLarge program.size programMax)

/-- A program that fits is loaded, and memory is all that changes. -/
theorem load_of_le {m : Machine K} {program : Array UInt8} (h : program.size ≤ programMax) :
    m.load program = .ok { m with memory := m.memory.overlay programStart program } () :=
  if_pos h

/-- A program that does not fit is refused, and nothing changes. -/
theorem load_of_lt {m : Machine K} {program : Array UInt8} (h : programMax < program.size) :
    m.load program = .fail m (.tooLarge program.size programMax) :=
  if_neg (Nat.not_le_of_lt h)

/-- Is key `i` down?  The key source is asked directly, whatever `i` is. -/
def isKeyDown [KeySource K] (m : Machine K) (i : Nat) : Bool := KeySource.isDown m.keys i

end Machine

/-! ## Flow -/

/-- Where to go from the opcode that the program counter points at. -/
inductive Flow where
  /-- Stay there. -/
  | next
  /-- Pass it over. -/
  | skip
  /-- Go back to the opcode before it. -/
  | again
  /-- Go somewhere else. -/
  | jump (target : Nat)
  deriving DecidableEq, Repr

namespace Flow

/-- Skip if the condition holds. -/
def skipIf (b : Bool) : Flow := if b then skip else next

/-- Where the flow leads from `pc`.  In a cycle that is behind an opcode, so at least two, and there is
    one to go back to.  Only an instruction that is executed by itself can be told to go back from
    below two; that ends at zero here, where a subtraction that is checked has no result
    (`Guarded.target`). -/
def target (f : Flow) (pc : Nat) : Nat :=
  match f with
  | next => pc
  | skip => pc + Code.opcodeSize
  | again => pc - Code.opcodeSize
  | jump t => t

end Flow

/-- The machine with its program counter moved. -/
def Machine.follow {K : Type} (m : Machine K) (f : Flow) : Machine K :=
  { m with pc := f.target m.pc }

end Chip8
