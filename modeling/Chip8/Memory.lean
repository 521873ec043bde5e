/-
  Memory: 4096 bytes, and the ranges of it that instructions read and write.

  1. **Ranges** — the range of `n` bytes from `start` on fits if EACH of its bytes is in memory,
     so the empty range fits wherever it starts.  A range that does not fit is refused, and the
     fault names its last byte.

  2. **Overlays** — `overlay m start bytes` is `m` with the bytes laid over it.  Which byte is
     where afterwards is one equation (`getElem_overlay`); bytes past the end are lost.

  3. **Access** — `read` and `write` check the range first and touch nothing if it does not fit.

  Mathlib-free.
-/
import Chip8.Fault

namespace Chip8

/-- How many bytes there are; the type of `Memory` spells the number out. -/
def memorySize : Nat := 4096

/-- The bytes of the machine, by address. -/
abbrev Memory := Vector UInt8 4096

namespace Memory

/-! ## Ranges -/

/-- Does the range of `n` bytes from `start` on lie in memory? -/
def Fits (start n : Nat) : Prop := n = 0 ∨ start + n ≤ memorySize

instance (start n : Nat) : Decidable (Fits start n) :=
  inferInstanceAs (Decidable (n = 0 ∨ start + n ≤ memorySize))

/-- **A range fits exactly if every byte of it is in memory.** -/
theorem fits_iff {start n : Nat} : Fits start n ↔ ∀ i, i < n → start + i < memorySize := by
  unfold Fits
  constructor
  · intro h i hi; omega
  · intro h
    rcases Nat.eq_zero_or_pos n with hn | hn
    · exact Or.inl hn
    · exact Or.inr (by have := h (n - 1) (by omega); omega)

/-- The fault of a range that does not fit: it names the last byte of the range. -/
def outside (start n : Nat) : Fault := .outOfBounds (start + n - 1) memorySize

/-! ## Overlays -/

/-- All bytes zero. -/
def zeros : Memory := Vector.replicate 4096 0

/-- Memory with `bytes` laid over it from `start` on. -/
def overlay (m : Memory) (start : Nat) (bytes : Array UInt8) : Memory :=
  m.mapIdx fun i b => if start ≤ i then bytes.getD (i - start) b else b

/-- **What an overlay leaves where**: the new byte inside, the old one outside. -/
theorem getElem_overlay (m : Memory) (start : Nat) (bytes : Array UInt8) (i : Nat)
    (hi : i < 4096) :
    (m.overlay start bytes)[i] = if start ≤ i then bytes.getD (i - start) m[i] else m[i] := by
  simp [overlay]

/-- Below its start and past its end an overlay changes nothing. -/
theorem getElem_overlay_of_outside (m : Memory) {start i : Nat} {bytes : Array UInt8}
    (hi : i < 4096) (h : i < start ∨ start + bytes.size ≤ i) :
    (m.overlay start bytes)[i] = m[i] := by
  rw [getElem_overlay]
  split
  · rw [Array.getD_eq_getD_getElem?, Array.getElem?_eq_none (by omega)]; rfl
  · rfl

/-- Inside it an overlay shows its own bytes. -/
theorem getElem_overlay_of_inside (m : Memory) {start k : Nat} {bytes : Array UInt8}
    (hk : k < bytes.size) (hi : start + k < 4096) :
    (m.overlay start bytes)[start + k] = bytes[k] := by
  rw [getElem_overlay, if_pos (Nat.le_add_right start k)]
  simp [hk]

/-- The same outside, whether there is such a place or not. -/
theorem getElem?_overlay_of_outside (m : Memory) {start i : Nat} {bytes : Array UInt8}
    (h : i < start ∨ start + bytes.size ≤ i) : (m.overlay start bytes)[i]? = m[i]? := by
  rcases Nat.lt_or_ge i 4096 with hi | hi
  · rw [Vector.getElem?_eq_getElem hi, Vector.getElem?_eq_getElem hi,
      m.getElem_overlay_of_outside hi h]
  · rw [Vector.getElem?_eq_none hi, Vector.getElem?_eq_none hi]

/-- And inside an overlay that lies in memory. -/
theorem getElem?_overlay_of_inside (m : Memory) {start k : Nat} {bytes : Array UInt8}
    (hfits : start + bytes.size ≤ 4096) (hk : k < bytes.size) :
    (m.overlay start bytes)[start + k]? = bytes[k]? := by
  have hi : start + k < 4096 := by omega
  rw [Vector.getElem?_eq_getElem hi, Array.getElem?_eq_getElem hk,
    m.getElem_overlay_of_inside hk hi]

/-! ## Access -/

/-- The bytes of a range that fits. -/
def slice (m : Memory) (start n : Nat) (h : Fits start n) : Vector UInt8 n :=
  Vector.ofFn fun i => m.get ⟨start + i, fits_iff.1 h i i.isLt⟩

/-- The bytes of a range, if it fits. -/
def read (m : Memory) (start n : Nat) : Except Fault (Vector UInt8 n) :=
  if h : Fits start n then .ok (m.slice start n h) else .error (outside start n)

/-- Memory with `bytes` written from `start` on, if their range fits. -/
def write (m : Memory) (start : Nat) (bytes : Array UInt8) : Except Fault Memory :=
  if Fits start bytes.size then .ok (m.overlay start bytes)
  else .error (outside start bytes.size)

theorem read_of_fits (m : Memory) {start n : Nat} (h : Fits start n) :
    m.read start n = .ok (m.slice start n h) := dif_pos h

theorem read_of_not_fits (m : Memory) {start n : Nat} (h : ¬ Fits start n) :
    m.read start n = .error (outside start n) := dif_neg h

theorem write_of_fits (m : Memory) {start : Nat} {bytes : Array UInt8}
    (h : Fits start bytes.size) : m.write start bytes = .ok (m.overlay start bytes) := if_pos h

theorem write_of_not_fits (m : Memory) {start : Nat} {bytes : Array UInt8}
    (h : ¬ Fits start bytes.size) : m.write start bytes = .error (outside start bytes.size) :=
  if_neg h

/-- A slice shows the bytes of its range in order. -/
theorem getElem_slice (m : Memory) {start n : Nat} (h : Fits start n) (i : Nat) (hi : i < n)
    (hm : start + i < 4096) : (m.slice start n h)[i] = m[start + i] := by
  simp [slice, Vector.get]

end Memory

end Chip8
