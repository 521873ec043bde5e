/-
  Dialects: the two points on which machines of this kind disagree.

  A dialect says which register the two shifts read, and what becomes of the part of a sprite that
  sticks out of the screen.  It is chosen once and no instruction changes it.

  Mathlib-free.
-/

namespace Chip8

/-- The register that `8XY6` and `8XYE` shift. -/
inductive ShiftSource where
  | vx
  | vy
  deriving DecidableEq, Repr

/-- What the edge of the screen does to a sprite. -/
inductive Edge where
  /-- What sticks out is cut off. -/
  | clip
  /-- What sticks out comes in again on the opposite side. -/
  | wrap
  deriving DecidableEq, Repr

/-- A choice on both points; the plain one shifts `VX` and clips. -/
structure Dialect where
  shiftSource : ShiftSource := .vx
  edge : Edge := .clip
  deriving DecidableEq, Repr

namespace Dialect

/-- The plain dialect. -/
def plain : Dialect := {}

/-- The byte that a shift works on, of `VX` and `VY`. -/
def shifted (d : Dialect) (vx vy : UInt8) : UInt8 :=
  match d.shiftSource with
  | .vx => vx
  | .vy => vy

end Dialect

end Chip8
