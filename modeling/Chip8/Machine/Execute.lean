/-
  Executing one instruction.

  `execute m i` expects the program counter BEHIND the opcode of `i` already: that is the address
  a call comes back to, what a skip passes over lies there, and a wait goes back from there.  It
  reports a `Signal`.

  Four kinds of instruction can fail: a return, a call, and those that reach into memory, which are
  the sprite, the decimal digits, and storing and loading registers.  Each looks before it writes.

  Mathlib-free.
-/
import Chip8.Instruction
import Chip8.Machine
import Chip8.Screen.Sprite

namespace Chip8

/-- What an instruction has to report. -/
inductive Signal where
  /-- Nothing. -/
  | quiet
  /-- No key is down yet. -/
  | waiting
  /-- The screen was drawn on. -/
  | drawn
  /-- The opcode is no instruction. -/
  | unknown (o : Opcode)
  deriving DecidableEq, Repr

/-- The decimal digits of a byte: hundreds, tens and ones. -/
def decimalDigits (b : UInt8) : Array UInt8 := #[b / 100, b / 10 % 10, b % 10]

namespace Machine

variable {K : Type}

/-! ## What instructions do to the parts of a machine -/

/-- The machine with `VX` set. -/
def setRegister (m : Machine K) (x : Register) (b : UInt8) : Machine K :=
  { m with registers := m.registers.write x b }

/-- The instruction is done: the program counter moves and the signal is reported. -/
def done (m : Machine K) (f : Flow) (s : Signal) : Outcome (Machine K) Signal :=
  .ok (m.follow f) s

/-- The instruction is done and the program goes on with the next one. -/
def next (m : Machine K) : Outcome (Machine K) Signal := m.done .next .quiet

/-- The instruction is done and the program goes on elsewhere. -/
def goTo (m : Machine K) (target : Nat) : Outcome (Machine K) Signal := m.done (.jump target) .quiet

/-- The registers after an operation.  The flag is written FIRST, so where the result goes to the
    flag register too, the result stays. -/
def operate (m : Machine K) (op : AluOp) (x y : Register) : Registers :=
  let a := m.registers.read x
  let b := m.registers.read y
  let s := m.dialect.shifted a b
  (m.registers.write? Registers.flag (op.flag? a b s)).write x (op.result a b s)

/-- Is the key down that a byte names?  A byte past fifteen names none, so the key source is not
    even asked. -/
def holdsKey [KeySource K] (m : Machine K) (b : UInt8) : Bool :=
  decide (b.toNat < keyCount) && m.isKeyDown b.toNat

/-- Does a condition hold? -/
def holds [KeySource K] (m : Machine K) : Condition → Bool
  | .isByte x b => m.registers.read x == b
  | .notByte x b => m.registers.read x != b
  | .same x y => m.registers.read x == m.registers.read y
  | .differ x y => m.registers.read x != m.registers.read y
  | .keyDown x => m.holdsKey (m.registers.read x)
  | .keyUp x => !m.holdsKey (m.registers.read x)

/-- The machine with a sprite drawn at column `VX`, row `VY`.  Both are read before the flag
    register is told whether a pixel went out. -/
def drawSprite (m : Machine K) (x y : Register) {n : Nat} (sprite : Vector UInt8 n) : Machine K :=
  let mark := Screen.stamp m.dialect.edge (m.registers.read x).toNat (m.registers.read y).toNat sprite
  { m with
    screen := m.screen.xor mark
    registers := m.registers.write Registers.flag (flagByte (m.screen.overlaps mark)) }

/-- The index register moved behind the `n` bytes it pointed at. -/
def indexPast (m : Machine K) (n : Nat) : UInt16 := m.index + UInt16.ofNat n

/-! ## The instructions -/

/-- **Execute an instruction.** -/
def execute [KeySource K] (m : Machine K) (i : Instruction) : Outcome (Machine K) Signal :=
  match i with
  -- the screen
  | .clear => { m with screen := .blank }.done .next .drawn
  | .draw x y rows =>
    match m.memory.read m.index.toNat rows.val with
    | .error f => .fail m f
    | .ok sprite => (m.drawSprite x y sprite).done .next .drawn
  -- where to go next
  | .ret =>
    match m.stack with
    | [] => .fail m .stackEmpty
    | p :: rest => { m with stack := rest }.goTo p
  | .jump a => m.goTo a.val
  | .call a =>
    if m.stack.length < stackSize then { m with stack := m.pc :: m.stack }.goTo a.val
    else .fail m .stackFull
  | .jumpPlus a => m.goTo (a.val + (m.registers.read Registers.v0).toNat)
  | .skip c => m.done (.skipIf (m.holds c)) .quiet
  -- registers
  | .setByte x b => (m.setRegister x b).next
  | .addByte x b => (m.setRegister x (m.registers.read x + b)).next
  | .alu op x y => { m with registers := m.operate op x y }.next
  | .random x mask =>
    { m.setRegister x (mask &&& m.random.front) with random := m.random.rest }.next
  -- timers and keys
  | .readDelay x => (m.setRegister x m.delay.value).next
  | .setDelay x => { m with delay := ⟨m.registers.read x⟩ }.next
  | .setSound x => { m with sound := ⟨m.registers.read x⟩ }.next
  | .waitKey x =>
    match lowestDown m.keys with
    | some k => (m.setRegister x (UInt8.ofNat k.val)).next
    | none => m.done .again .waiting
  -- the index register, and memory behind it
  | .setIndex a => { m with index := UInt16.ofNat a.val }.next
  | .addIndex x => { m with index := m.indexPast (m.registers.read x).toNat }.next
  | .pointGlyph x => { m with index := Font.glyph (m.registers.read x) }.next
  | .storeDecimal x =>
    match m.memory.write m.index.toNat (decimalDigits (m.registers.read x)) with
    | .error f => .fail m f
    | .ok memory => { m with memory := memory }.next
  | .store x =>
    match m.memory.write m.index.toNat (m.registers.upTo x) with
    | .error f => .fail m f
    | .ok memory => { m with memory := memory, index := m.indexPast (x.val + 1) }.next
  | .load x =>
    match m.memory.read m.index.toNat (x.val + 1) with
    | .error f => .fail m f
    | .ok bytes =>
      { m with registers := m.registers.fill bytes.toArray, index := m.indexPast (x.val + 1) }.next

end Machine

end Chip8
