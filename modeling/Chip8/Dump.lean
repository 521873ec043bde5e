/-
  The dump: the state of a machine as text, for someone who hunts for a mistake in a program.

  A dump has nine parts.  Each opens with its title and indents what follows once more.  Single
  values stand alone; the keys, the stack and the registers fill a BANK of sixteen cells, eight to
  a line; memory has lines of its own kind.  A line that shows more than one cell opens with the
  range of places it is about.

  Cells are six characters wide, as wide as a number of four digits.  The last cell of a line is
  not filled up.

  Mathlib-free.
-/
import Chip8.Dump.MemoryLine
import Chip8.Machine

namespace Chip8.Dump

open Numeral

/-! ## Lines -/

/-- The width of a cell. -/
def cellWidth : Nat := 6

/-- A cell filled up with blanks to its full width. -/
def filled (cell : String) : String :=
  cell ++ String.ofList (List.replicate (cellWidth - cell.length) ' ')

/-- Cells side by side, one blank between two. -/
def sideBySide : List String → String
  | [] => ""
  | [cell] => cell
  | cell :: rest => filled cell ++ " " ++ sideBySide rest

/-- The range of places a line is about. -/
def range (first last : Nat) : String := hex first ++ " - " ++ hex last ++ " :"

/-- What stands for the words of a line of zeros: the first and the last of eight cells, and dots
    in the middle of the room between them. -/
def nothing : String :=
  let gap := String.ofList (List.replicate 20 ' ')
  hex 0 ++ gap ++ "..." ++ gap ++ hex 0

/-- A line of the memory section. -/
def MemoryLine.text (l : MemoryLine) : String :=
  range l.first l.last ++ " " ++
    match l with
    | .zeros .. => nothing
    | .words _ ws => sideBySide (ws.toList.map fun w => hex w.toNat)

/-- The two lines of a bank of sixteen cells. -/
def bank (cells : List String) : List String :=
  [range 0 7 ++ " " ++ sideBySide (cells.take 8),
   range 8 15 ++ " " ++ sideBySide (cells.drop 8)]

/-! ## Parts -/

/-- A title and the lines under it. -/
structure Part where
  title : String
  body : List String

/-- The lines of a part, indented. -/
def Part.lines (p : Part) : List String :=
  ("\t" ++ p.title ++ " :") :: p.body.map fun line => "\t\t" ++ line

/-- All slots of the stack, the oldest return address first; unused slots show zero. -/
def stackSlots (stack : List Nat) : List Nat :=
  stack.reverse ++ List.replicate (stackSize - stack.length) 0

/-- How a key is shown. -/
def keyWord (down : Bool) : String := if down then "true" else "false"

/-- The parts of a machine's dump. -/
def parts {K : Type} [KeySource K] (m : Machine K) : List Part :=
  [⟨"Opcode", [hex m.lastOpcode.toNat]⟩,
   ⟨"Program Counter", [hex m.pc]⟩,
   ⟨"Index Register", [hex m.index.toNat]⟩,
   ⟨"Delay Timer", [hex m.delay.value.toNat]⟩,
   ⟨"Sound Timer", [hex m.sound.value.toNat]⟩,
   ⟨"Memory", (memoryLines m.memory).map MemoryLine.text⟩,
   ⟨"Keyboard", bank ((List.range keyCount).map fun k => keyWord (m.isKeyDown k))⟩,
   ⟨"Stack", bank ((stackSlots m.stack).map hex)⟩,
   ⟨"Register", bank (m.registers.toList.map fun b => hex b.toNat)⟩]

end Chip8.Dump

namespace Chip8

/-- **The dump of a machine.** -/
def Machine.dump {K : Type} [KeySource K] (m : Machine K) : String :=
  "\n".intercalate
    (["Chipset \x7b"] ++ (Dump.parts m).flatMap Dump.Part.lines ++ ["\x7d"])

end Chip8
