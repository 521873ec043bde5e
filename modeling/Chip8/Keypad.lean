/-
  Keys.

  1. **Key sources** — all that a machine asks of its keys is which of them are down.  Whatever
     can answer that is a `KeySource`; it may be asked about ANY number, also one that names no
     key of the sixteen.

  2. **The lowest key** — of several keys held down at once the LOWEST counts (`lowestDown`).
     Numbers past fifteen are never looked at here.

  3. **The keypad** — the plain source: one switch for each of the sixteen keys.  A number past
     fifteen names no key, so setting it does nothing and it is never down.  What each operation
     does is told through `isDown`.

  Mathlib-free.
-/

namespace Chip8

/-- How many keys there are; the type of `Keypad` spells the number out. -/
def keyCount : Nat := 16

/-- Something that knows which keys are down. -/
class KeySource (K : Type) where
  isDown : K → Nat → Bool

/-- The lowest of the sixteen keys that is down, if any is. -/
def lowestDown {K : Type} [KeySource K] (k : K) : Option (Fin 16) :=
  (List.finRange 16).find? fun i => KeySource.isDown k i

/-- No key counts exactly if none of the sixteen is down. -/
theorem lowestDown_eq_none_iff {K : Type} [KeySource K] (k : K) :
    lowestDown k = none ↔ ∀ i : Fin 16, KeySource.isDown k i = false := by
  simp [lowestDown, List.find?_eq_none]

/-- **The key that counts is down, and none below it is.** -/
theorem lowestDown_eq_some_iff {K : Type} [KeySource K] (k : K) (i : Fin 16) :
    lowestDown k = some i ↔
      KeySource.isDown k i = true ∧ ∀ j : Fin 16, j < i → KeySource.isDown k j = false := by
  rw [lowestDown, List.find?_eq_some_iff_getElem]
  constructor
  · rintro ⟨hi, n, hn, hni, hlt⟩
    refine ⟨hi, fun j hj => ?_⟩
    have hin : i.val = n := by rw [← hni]; simp
    simpa using hlt j.val (by have := Fin.lt_def.1 hj; omega)
  · rintro ⟨hi, hlt⟩
    refine ⟨hi, i.val, by simp, by simp, fun j hj => ?_⟩
    simpa using hlt ⟨j, by omega⟩ (Fin.lt_def.2 hj)

/-- Sixteen switches. -/
structure Keypad where
  keys : Vector Bool 16
  deriving DecidableEq, Repr

namespace Keypad

/-- No key is down. -/
def released : Keypad := ⟨Vector.replicate 16 false⟩

/-- Is key `i` down? -/
def isDown (p : Keypad) (i : Nat) : Bool := p.keys[i]?.getD false

instance : KeySource Keypad := ⟨isDown⟩

/-- Key `i` is put down or released. -/
def set (p : Keypad) (i : Nat) (down : Bool) : Keypad := ⟨p.keys.setIfInBounds i down⟩

/-- Key `i` changes over. -/
def toggle (p : Keypad) (i : Nat) : Keypad := p.set i (!p.isDown i)

/-- All keys at once, from a list that has to name exactly sixteen. -/
def ofArray? (keys : Array Bool) : Option Keypad :=
  if h : keys.size = 16 then some ⟨⟨keys, h⟩⟩ else none

theorem isDown_released (i : Nat) : released.isDown i = false := by
  simp only [isDown, released, Vector.getElem?_replicate]
  split <;> rfl

/-- A number past fifteen is never down. -/
theorem isDown_of_le {p : Keypad} {i : Nat} (h : 16 ≤ i) : p.isDown i = false := by
  rw [isDown, Vector.getElem?_eq_none h]; rfl

/-- **Setting a key is seen at that key, if it is one, and nowhere else.** -/
theorem isDown_set (p : Keypad) (i j : Nat) (b : Bool) :
    (p.set i b).isDown j = if i = j ∧ j < 16 then b else p.isDown j := by
  simp only [isDown, set, Vector.getElem?_setIfInBounds]
  by_cases hij : i = j
  · subst hij
    by_cases hi : i < 16
    · simp [hi]
    · simp [hi]
  · simp [hij]

/-- **Toggling turns one key over**, if it is one, and leaves the others. -/
theorem isDown_toggle (p : Keypad) (i j : Nat) :
    (p.toggle i).isDown j = if i = j ∧ j < 16 then !p.isDown j else p.isDown j := by
  rw [toggle, isDown_set]
  split
  · rename_i h; rw [h.1]
  · rfl

/-- Setting all keys works exactly for sixteen of them, and then shows them in order. -/
theorem isDown_ofArray? {keys : Array Bool} {p : Keypad} (h : ofArray? keys = some p) (i : Nat) :
    keys.size = 16 ∧ p.isDown i = keys.getD i false := by
  unfold ofArray? at h
  split at h
  · rename_i hsize
    cases h
    exact ⟨hsize, by simp [isDown]⟩
  · cases h

end Keypad

end Chip8
