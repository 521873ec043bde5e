/-
  Partial operations.

  Much of what a cycle does is done by operations that have no result for some arguments: a sum
  that no machine word holds, a difference below zero, a place outside of a block of bytes, a copy
  between ranges of different lengths, a push onto a full stack.  In the definitions of the machine
  these cannot occur, because every index carries its bound in its type.

  Here they CAN: each operation is given plain numbers, checks them itself, and gives `none` where
  there is no result.  Beside each stands the equation for arguments that are in order.

  A machine word is taken to be one of 32 bits, the narrowest that is in use; where a sum fits
  there, it fits in any wider one.
-/
import Mathlib.Algebra.Group.Nat.Defs
import Chip8.Machine.Cycle

namespace Chip8.Guarded

/-! ## Numbers -/

/-- The least number that a machine word cannot hold. -/
def wordLimit : Nat := 2 ^ 32

/-- A sum that has to fit into a word. -/
def add (a b : Nat) : Option Nat := if a + b < wordLimit then some (a + b) else none

/-- A product that has to fit into a word. -/
def mul (a b : Nat) : Option Nat := if a * b < wordLimit then some (a * b) else none

/-- A difference that must not be negative. -/
def sub (a b : Nat) : Option Nat := if b ≤ a then some (a - b) else none

theorem add_of_lt {a b : Nat} (h : a + b < wordLimit) : add a b = some (a + b) := if_pos h

theorem mul_of_lt {a b : Nat} (h : a * b < wordLimit) : mul a b = some (a * b) := if_pos h

theorem sub_of_le {a b : Nat} (h : b ≤ a) : sub a b = some (a - b) := if_pos h

/-! ## Registers -/

/-- What the register with number `x` holds. -/
def register (r : Registers) (x : Nat) : Option UInt8 := r.toArray[x]?

/-- The registers with number `x` set. -/
def setRegister (r : Registers) (x : Nat) (b : UInt8) : Option Registers :=
  if h : x < 16 then some (r.set x b h) else none

/-- The registers with the first `n` of them copied from `bytes`, which have to be as many. -/
def copyToRegisters (r : Registers) (n : Nat) (bytes : Array UInt8) : Option Registers :=
  if n ≤ 16 ∧ bytes.size = n then some (r.fill bytes) else none

@[simp] theorem register_val (r : Registers) (x : Register) :
    register r x.val = some (r.read x) := by
  rw [register, Vector.getElem?_toArray, Vector.getElem?_eq_getElem x.isLt]
  rfl

@[simp] theorem setRegister_val (r : Registers) (x : Register) (b : UInt8) :
    setRegister r x.val b = some (r.write x b) := dif_pos x.isLt

theorem copyToRegisters_of_size (r : Registers) {n : Nat} {bytes : Array UInt8} (hn : n ≤ 16)
    (hsize : bytes.size = n) : copyToRegisters r n bytes = some (r.fill bytes) :=
  if_pos ⟨hn, hsize⟩

/-! ## Blocks of bytes -/

/-- The bytes from `start` up to `stop`. -/
def slice (bytes : Array UInt8) (start stop : Nat) : Option (Array UInt8) :=
  if start ≤ stop ∧ stop ≤ bytes.size then some (bytes.extract start stop) else none

/-- Memory with the places from `start` up to `stop` copied from `bytes`, which have to be as
    many. -/
def copyToMemory (m : Memory) (start stop : Nat) (bytes : Array UInt8) : Option Memory :=
  if (start ≤ stop ∧ stop ≤ memorySize) ∧ bytes.size = stop - start then
    some (m.overlay start bytes)
  else none

/-- The range of `n` bytes from `start` on as its two ends, or the fault of one that is not in
    memory.  The fault names the last byte, so the range has to have one. -/
def memoryRange (start n : Nat) : Option (Except Fault (Nat × Nat)) := do
  let stop ← add start n
  if stop ≤ memorySize then
    some (.ok (start, stop))
  else
    let last ← sub stop 1
    some (.error (.outOfBounds last memorySize))

theorem slice_of_le {bytes : Array UInt8} {start stop : Nat} (h : start ≤ stop)
    (hstop : stop ≤ bytes.size) : slice bytes start stop = some (bytes.extract start stop) :=
  if_pos ⟨h, hstop⟩

theorem copyToMemory_of_size (m : Memory) {start n : Nat} {bytes : Array UInt8}
    (hfits : start + n ≤ memorySize) (hsize : bytes.size = n) :
    copyToMemory m start (start + n) bytes = some (m.overlay start bytes) :=
  if_pos ⟨⟨Nat.le_add_right start n, hfits⟩, by omega⟩

theorem memoryRange_of_le {start n : Nat} (h : start + n ≤ memorySize) :
    memoryRange start n = some (.ok (start, start + n)) := by
  have hlt : start + n < wordLimit := by simp only [memorySize, wordLimit] at h ⊢; omega
  simp only [memoryRange, add_of_lt hlt, Option.bind_eq_bind, Option.bind_some, if_pos h]

theorem memoryRange_of_not_fits {start n : Nat} (h : ¬ Memory.Fits start n)
    (hlt : start + n < wordLimit) :
    memoryRange start n = some (.error (Memory.outside start n)) := by
  have hgt : ¬ start + n ≤ memorySize := fun hle => h (Or.inr hle)
  have hpos : 1 ≤ start + n := by omega
  simp only [memoryRange, add_of_lt hlt, Option.bind_eq_bind, Option.bind_some, if_neg hgt,
    sub_of_le hpos, Memory.outside]

/-- The bytes of a range that fits lie between its two ends. -/
theorem slice_of_fits (m : Memory) {start n : Nat} (h : Memory.Fits start n)
    (hle : start + n ≤ memorySize) :
    slice m.toArray start (start + n) = some (m.slice start n h).toArray := by
  simp only [memorySize] at hle
  rw [slice_of_le (Nat.le_add_right start n) (by rw [Vector.size_toArray]; exact hle)]
  refine congrArg some (Array.ext ?_ ?_)
  · rw [Array.size_extract, Vector.size_toArray, Vector.size_toArray]
    omega
  · intro i hi _
    have hin : i < n := by rw [Array.size_extract, Vector.size_toArray] at hi; omega
    rw [Array.getElem_extract, Vector.getElem_toArray, Vector.getElem_toArray,
      Memory.getElem_slice m h i hin (by omega)]

/-! ## The stack -/

/-- The stack with one more address, for which there has to be room. -/
def push (stack : List Nat) (p : Nat) : Option (List Nat) :=
  if stack.length < stackSize then some (p :: stack) else none

theorem push_of_lt {stack : List Nat} {p : Nat} (h : stack.length < stackSize) :
    push stack p = some (p :: stack) := if_pos h

/-! ## Timers -/

/-- One tick: a value that is not zero goes down by one. -/
def tick (t : Timer) : Option Timer :=
  if t.value.toNat = 0 then some t
  else (sub t.value.toNat 1).map fun v => ⟨UInt8.ofNat v⟩

/-- A tick never takes from zero. -/
theorem tick_eq (t : Timer) : tick t = some t.tick := by
  unfold tick
  by_cases h0 : t.value.toNat = 0
  · have hv : t.value = 0 := UInt8.toNat_inj.1 h0
    rw [if_pos h0, Timer.tick, if_pos hv]
  · have hlt := t.value.toNat_lt
    have hval : UInt8.ofNat (t.value.toNat - 1) = t.tick.value := by
      apply UInt8.toNat_inj.1
      rw [UInt8.toNat_ofNat', Nat.mod_eq_of_lt (by omega), Timer.toNat_tick]
    rw [if_neg h0, sub_of_le (by omega), Option.map_some, hval]

end Chip8.Guarded
