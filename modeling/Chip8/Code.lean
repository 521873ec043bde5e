/-
  Machine code: opcodes as bytes, high byte first.

  `opcodeAt data p` reads the opcode whose bytes lie at `p` and `p + 1`.  When one of the two is
  missing, the fault names the FIRST missing place.  `ofOpcodes` lays a list of opcodes down as
  bytes, two for each, and finds each of them again at twice its place (`getElem?_ofOpcodes`).

  Mathlib-free.
-/
import Chip8.Fault

namespace Chip8.Code

/-- How many bytes an opcode takes. -/
def opcodeSize : Nat := 2

/-- The opcode at place `p` of `data`. -/
def opcodeAt (data : Array UInt8) (p : Nat) : Except Fault Opcode :=
  match data[p]?, data[p + 1]? with
  | some hi, some lo => .ok (.ofBytes hi lo)
  | some _, none => .error (.outOfBounds (p + 1) data.size)
  | none, _ => .error (.outOfBounds p data.size)

/-- With both bytes there, they make up the opcode. -/
theorem opcodeAt_of_lt {data : Array UInt8} {p : Nat} (h : p + 1 < data.size) :
    opcodeAt data p = .ok (.ofBytes data[p] data[p + 1]) := by
  rw [opcodeAt, Array.getElem?_eq_getElem (by omega), Array.getElem?_eq_getElem h]

/-- **The first missing place is blamed**: `p` itself, or the one behind it if that is the first
    place past the end. -/
theorem opcodeAt_of_le {data : Array UInt8} {p : Nat} (h : data.size ≤ p + 1) :
    opcodeAt data p = .error (.outOfBounds (max p data.size) data.size) := by
  rw [opcodeAt, Array.getElem?_eq_none h]
  rcases Nat.lt_or_ge p data.size with hp | hp
  · -- only the second byte is missing
    rw [Array.getElem?_eq_getElem hp, Nat.max_eq_right (by omega), show p + 1 = data.size by omega]
  · -- both are
    rw [Array.getElem?_eq_none hp, Nat.max_eq_left hp]

/-- The bytes of a list of opcodes, back to back. -/
def ofOpcodes (os : List Opcode) : List UInt8 := os.flatMap fun o => [o.high, o.low]

/-- Two bytes for each opcode. -/
theorem length_ofOpcodes (os : List Opcode) : (ofOpcodes os).length = opcodeSize * os.length := by
  induction os with
  | nil => rfl
  | cons o os ih =>
    simp only [ofOpcodes, List.flatMap_cons, List.length_append, List.length_cons,
      List.length_nil] at ih ⊢
    simp only [opcodeSize] at ih ⊢
    omega

/-- **Each opcode lies at twice its place**, its high byte first. -/
theorem getElem?_ofOpcodes {os : List Opcode} {j : Nat} {o : Opcode} (h : os[j]? = some o) :
    (ofOpcodes os)[2 * j]? = some o.high ∧ (ofOpcodes os)[2 * j + 1]? = some o.low := by
  induction os generalizing j with
  | nil => cases h
  | cons p os ih =>
    cases j with
    | zero =>
      cases h
      exact ⟨rfl, rfl⟩
    | succ j => exact ih h

end Chip8.Code
