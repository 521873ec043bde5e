/-
  Reading machine code.

  An opcode is asked for by the place of its first byte, and two places are looked at.

  1. **One place after the other** — of the two, `firstMissing?` is the first one that lies past the
     end, if one does.  It is told by looking for it, place by place, and comes out as the larger of
     `p` and the number of bytes (`firstMissing?_of_le`).

  2. **Any bytes, any place** — reading succeeds exactly if no place is missing, and then the number
     is made of the two bytes, the first one counting 256 times (`opcodeAt_eq_ok_iff`).  Otherwise
     the FIRST missing place is blamed, and the number of bytes is told along with it
     (`opcodeAt_eq_error_iff`).

  3. **What was laid down is found again** — opcodes written as bytes take two places each, so
     reading at twice a place gives the opcode of that place (`opcodeAt_ofOpcodes`).
-/
import Chip8.Code

namespace Chip8.Code

variable {data : Array UInt8} {p : Nat}

/-! ## One place after the other -/

/-- Of the two places that are looked at, the first one past the end. -/
def firstMissing? (data : Array UInt8) (p : Nat) : Option Nat :=
  [p, p + 1].find? fun q => data.size ≤ q

/-- With both bytes there, no place is missing. -/
theorem firstMissing?_of_lt (h : p + 1 < data.size) : firstMissing? data p = none := by
  rw [firstMissing?, List.find?_eq_none]
  intro q hq
  rw [decide_eq_true_iff]
  simp only [List.mem_cons, List.not_mem_nil, or_false] at hq
  omega

/-- **The first missing place**: `p` itself, unless that is still among the bytes. -/
theorem firstMissing?_of_le (h : data.size ≤ p + 1) :
    firstMissing? data p = some (max p data.size) := by
  rcases Nat.lt_or_ge p data.size with hp | hp
  · -- the first byte is there, and the second place is the end
    have hend : p + 1 = data.size := by omega
    rw [firstMissing?, List.find?_cons_of_neg (by simpa using hp),
      List.find?_cons_of_pos (by simpa using h), hend, Nat.max_eq_right (Nat.le_of_lt hp)]
  · rw [firstMissing?, List.find?_cons_of_pos (by simpa using hp), Nat.max_eq_left hp]

/-! ## Any bytes, any place -/

/-- **When reading succeeds, and with what.** -/
theorem opcodeAt_eq_ok_iff {o : Opcode} :
    opcodeAt data p = .ok o ↔
      ∃ hi lo, data[p]? = some hi ∧ data[p + 1]? = some lo ∧
        o.toNat = 256 * hi.toNat + lo.toNat := by
  constructor
  · intro h
    rcases Nat.lt_or_ge (p + 1) data.size with hlt | hge
    · rw [opcodeAt_of_lt hlt] at h
      cases h
      have hfirst : p < data.size := Nat.lt_of_succ_lt hlt
      exact ⟨data[p], data[p + 1], Array.getElem?_eq_getElem hfirst, Array.getElem?_eq_getElem hlt,
        Opcode.toNat_ofBytes data[p] data[p + 1]⟩
    · rw [opcodeAt_of_le hge] at h
      cases h
  · rintro ⟨hi, lo, hhi, hlo, ho⟩
    rw [opcodeAt, hhi, hlo]
    exact congrArg Except.ok (UInt16.toNat_inj.1 (by rw [ho, Opcode.toNat_ofBytes]))

/-- **When reading fails, and with what**: some place is missing, and the first such is named. -/
theorem opcodeAt_eq_error_iff {f : Fault} :
    opcodeAt data p = .error f ↔
      ∃ q, firstMissing? data p = some q ∧ f = .outOfBounds q data.size := by
  rcases Nat.lt_or_ge (p + 1) data.size with hlt | hge
  · rw [opcodeAt_of_lt hlt, firstMissing?_of_lt hlt]
    constructor
    · intro h
      cases h
    · rintro ⟨q, hq, -⟩
      cases hq
  · rw [opcodeAt_of_le hge, firstMissing?_of_le hge]
    constructor
    · intro h
      cases h
      exact ⟨_, rfl, rfl⟩
    · rintro ⟨q, hq, rfl⟩
      cases hq
      rfl

/-! ## What was laid down is found again -/

/-- **Each opcode of a list is read at twice its place.** -/
theorem opcodeAt_ofOpcodes {os : List Opcode} {i : Nat} {o : Opcode} (h : os[i]? = some o) :
    opcodeAt (ofOpcodes os).toArray (2 * i) = .ok o := by
  obtain ⟨hhigh, hlow⟩ := getElem?_ofOpcodes h
  rw [opcodeAt, List.getElem?_toArray, List.getElem?_toArray, hhigh, hlow]
  exact congrArg Except.ok (Opcode.ofBytes_high_low o)

/-- **Opcodes are read from bytes.**  Written as bytes, high byte first, the opcodes of a list take
    two places each, and opcode `i` is read at place `2 i`.  Of any bytes and at any place `p`,
    reading gives 256 times the byte at `p` and the byte behind it, if both are there, and nothing
    but that.  If they are not, the fault tells how many bytes there are and names `p` or the number
    of bytes, whichever is larger: this is the first of `p` and `p + 1` at which there is no byte. -/
theorem opcodes_read_back :
    (∀ os : List Opcode, (ofOpcodes os).length = 2 * os.length ∧
      ∀ i (hi : i < os.length), opcodeAt (ofOpcodes os).toArray (2 * i) = .ok os[i]) ∧
    ∀ (data : Array UInt8) (p : Nat),
      ((∃ o, opcodeAt data p = .ok o) ↔ p + 1 < data.size) ∧
      (∀ o, opcodeAt data p = .ok o ↔
        ∃ hi lo, data[p]? = some hi ∧ data[p + 1]? = some lo ∧
          o.toNat = 256 * hi.toNat + lo.toNat) ∧
      (data.size ≤ p + 1 →
        opcodeAt data p = .error (.outOfBounds (max p data.size) data.size) ∧
        [p, p + 1].find? (fun q => data.size ≤ q) = some (max p data.size)) := by
  refine ⟨fun os => ⟨length_ofOpcodes os, ?_⟩,
    fun data p => ⟨?_, fun o => opcodeAt_eq_ok_iff, ?_⟩⟩
  · intro i hi
    exact opcodeAt_ofOpcodes (List.getElem?_eq_getElem hi)
  · constructor
    · rintro ⟨o, ho⟩
      obtain ⟨hi, lo, -, hlo, -⟩ := opcodeAt_eq_ok_iff.1 ho
      obtain ⟨hlt, -⟩ := Array.getElem?_eq_some_iff.1 hlo
      exact hlt
    · intro hlt
      exact ⟨_, opcodeAt_of_lt hlt⟩
  · intro hge
    have hmissing := firstMissing?_of_le hge
    exact ⟨opcodeAt_eq_error_iff.2 ⟨_, hmissing, rfl⟩, hmissing⟩

/-- Three bytes, read at an odd place, at the last byte and far outside; and two opcodes, of which
    the second one is found at place two. -/
theorem opcodes_read_back_of_three_bytes :
    let data : Array UInt8 := #[0x12, 0x34, 0x56]
    opcodeAt data 1 = .ok 0x3456 ∧
    opcodeAt data 2 = .error (.outOfBounds 3 3) ∧
    opcodeAt data 9 = .error (.outOfBounds 9 3) ∧
    opcodeAt (ofOpcodes [0x00EE, 0x1EDA]).toArray 2 = .ok 0x1EDA := by
  intro data
  obtain ⟨hlist, hread⟩ := opcodes_read_back
  refine ⟨?_, ?_, ?_, ?_⟩
  · exact ((hread data 1).2.1 0x3456).2 ⟨0x34, 0x56, rfl, rfl, by decide⟩
  · exact ((hread data 2).2.2 (by decide)).1
  · exact ((hread data 9).2.2 (by decide)).1
  · exact (hlist [0x00EE, 0x1EDA]).2 1 (by decide)

end Chip8.Code
