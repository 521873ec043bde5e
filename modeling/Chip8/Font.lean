/-
  The built-in font: a picture of each hexadecimal digit, four pixels wide and five high.

  The glyphs lie at the very start of memory, one after the other, so the glyph of a digit is found
  by multiplying.  Nothing guards them: a program may write over them.

  Mathlib-free.
-/
import Chip8.Memory

namespace Chip8

namespace Font

/-- How many rows a glyph has; each is one byte. -/
def glyphSize : Nat := 5

/-- Where the first glyph lies. -/
def start : Nat := 0

/-- The rows of the sixteen glyphs. -/
def table : Vector UInt8 80 := #v[
  0xF0, 0x90, 0x90, 0x90, 0xF0,  -- 0
  0x20, 0x60, 0x20, 0x20, 0x70,  -- 1
  0xF0, 0x10, 0xF0, 0x80, 0xF0,  -- 2
  0xF0, 0x10, 0xF0, 0x10, 0xF0,  -- 3
  0x90, 0x90, 0xF0, 0x10, 0x10,  -- 4
  0xF0, 0x80, 0xF0, 0x10, 0xF0,  -- 5
  0xF0, 0x80, 0xF0, 0x90, 0xF0,  -- 6
  0xF0, 0x10, 0x20, 0x40, 0x40,  -- 7
  0xF0, 0x90, 0xF0, 0x90, 0xF0,  -- 8
  0xF0, 0x90, 0xF0, 0x10, 0xF0,  -- 9
  0xF0, 0x90, 0xF0, 0x90, 0x90,  -- A
  0xE0, 0x90, 0xE0, 0x90, 0xE0,  -- B
  0xF0, 0x80, 0x80, 0x80, 0xF0,  -- C
  0xE0, 0x90, 0x90, 0x90, 0xE0,  -- D
  0xF0, 0x80, 0xF0, 0x80, 0xF0,  -- E
  0xF0, 0x80, 0xF0, 0x80, 0x80]  -- F

/-- Where the glyph of a byte lies; only the bytes up to fifteen have one. -/
def glyph (b : UInt8) : UInt16 := UInt16.ofNat (start + glyphSize * b.toNat)

end Font

/-- Memory when the machine is switched on: the font, and zeros behind it. -/
def Memory.initial : Memory := zeros.overlay Font.start Font.table.toArray

/-- The font is there. -/
theorem Memory.getElem_initial (i : Nat) (hi : i < 80) :
    initial[i] = Font.table[i] := by
  have h := @getElem_overlay_of_inside zeros Font.start i Font.table.toArray (by simpa using hi)
    (by simp only [Font.start]; omega)
  simpa [initial, Font.start] using h

end Chip8
