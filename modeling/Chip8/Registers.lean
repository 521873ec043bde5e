/-
  The register file: sixteen bytes `V0` to `VF`.

  `VF` doubles as the flag register.  A write is seen at its own register and nowhere else
  (`read_write`), so when two writes meet the LATER one stays.

  Mathlib-free.
-/
import Chip8.Opcode

namespace Chip8

/-- How many registers there are. -/
def registerCount : Nat := 16

/-- The bytes of `V0` to `VF`. -/
abbrev Registers := Vector UInt8 16

namespace Registers

/-- `V0`, which a jump with an offset adds. -/
def v0 : Register := ⟨0x0, by decide⟩

/-- `VF`, which flags are reported in. -/
def flag : Register := ⟨0xF, by decide⟩

/-- All registers zero. -/
def zeros : Registers := Vector.replicate 16 0

/-- What `VX` holds. -/
def read (r : Registers) (x : Register) : UInt8 := r[x]

/-- `VX` becomes the byte. -/
def write (r : Registers) (x : Register) (b : UInt8) : Registers := r.set x.val b x.isLt

/-- `VX` becomes the byte, if there is one. -/
def write? (r : Registers) (x : Register) : Option UInt8 → Registers
  | some b => r.write x b
  | none => r

/-- `V0` to `VX`, both included. -/
def upTo (r : Registers) (x : Register) : Array UInt8 := r.toArray.extract 0 (x.val + 1)

/-- The registers with `bytes` put into `V0` and on. -/
def fill (r : Registers) (bytes : Array UInt8) : Registers :=
  r.mapIdx fun i b => bytes.getD i b

/-- **A write is seen at its own register and nowhere else.** -/
theorem read_write (r : Registers) (x y : Register) (b : UInt8) :
    (r.write x b).read y = if x = y then b else r.read y := by
  simp only [read, write, Fin.getElem_fin, Vector.getElem_set, Fin.ext_iff]

/-- Filling reaches as many registers as there are bytes. -/
theorem read_fill (r : Registers) (bytes : Array UInt8) (x : Register) :
    (r.fill bytes).read x = bytes.getD x.val (r.read x) := by
  simp [read, fill]

/-- There is one byte more than `X` says. -/
theorem size_upTo (r : Registers) (x : Register) : (r.upTo x).size = x.val + 1 := by
  have := x.isLt
  simp only [upTo, Array.size_extract, Vector.size_toArray]
  omega

end Registers

end Chip8
