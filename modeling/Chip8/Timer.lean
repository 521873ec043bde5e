/-
  The countdown timers.

  A timer holds a byte and counts down to zero, where it stays.  `n` ticks take `n` away, as far as
  there is anything to take (`toNat_ticks`).

  Mathlib-free.
-/

namespace Chip8

/-- A countdown timer. -/
structure Timer where
  value : UInt8
  deriving DecidableEq, Repr

namespace Timer

/-- What both timers show when the machine is switched on. -/
def initial : Timer := ⟨60⟩

/-- A timer runs until it shows zero. -/
def isRunning (t : Timer) : Bool := t.value != 0

/-- One tick: one less, but never below zero. -/
def tick (t : Timer) : Timer := if t.value = 0 then t else ⟨t.value - 1⟩

/-- `n` ticks in a row. -/
def ticks : Nat → Timer → Timer
  | 0, t => t
  | n + 1, t => ticks n t.tick

/-- **A tick is subtraction that stops at zero.** -/
theorem toNat_tick (t : Timer) : t.tick.value.toNat = t.value.toNat - 1 := by
  unfold tick
  split
  · rename_i h; rw [h]; rfl
  · rename_i h
    have h0 : t.value.toNat ≠ 0 := fun h0 => h (UInt8.toNat_inj.1 h0)
    have hle : (1 : UInt8) ≤ t.value := by
      rw [UInt8.le_iff_toNat_le]; exact Nat.one_le_iff_ne_zero.2 h0
    rw [UInt8.toNat_sub_of_le _ _ hle]; rfl

/-- So are `n` of them. -/
theorem toNat_ticks (n : Nat) (t : Timer) : (ticks n t).value.toNat = t.value.toNat - n := by
  induction n generalizing t with
  | zero => rfl
  | succ n ih => rw [ticks, ih, toNat_tick]; omega

end Timer

end Chip8
