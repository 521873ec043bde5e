/-
  Programs loaded on top of each other.

  A load lays its program over memory from `0x200` on, as far as the program goes.  Where it ends,
  what was there before still shows: the tail of a longer program, if there was one, or whatever
  memory held in the first place.

  1. **One load** — the program COVERS a place if it is accepted and has a byte for it.  There the
     load shows, and nowhere else (`memory_load`).  One that is refused covers no place at all.

  2. **Any number of them** — at each place the last program that covers it is seen
     (`memory_loads`).  Nothing else ever changes, neither memory below the start of programs nor
     any other part of the machine (`loads_overlay`).
-/
import Chip8.Proofs.Run

namespace Chip8.Machine

variable {K : Type}

/-! ## One load -/

/-- **The program covers place `k`**, counted from where programs start. -/
def Covers (p : Array UInt8) (k : Nat) : Prop := p.size ≤ programMax ∧ k < p.size

instance (p : Array UInt8) (k : Nat) : Decidable (Covers p k) :=
  inferInstanceAs (Decidable (p.size ≤ programMax ∧ k < p.size))

variable (m : Machine K) (p : Array UInt8)

/-- A program is accepted exactly if there is room for it. -/
theorem result_load : (m.load p).result =
    if p.size ≤ programMax then .ok () else .error (.tooLarge p.size programMax) := by
  unfold load
  split
  · rfl
  · rfl

/-- Memory is all that a load changes. -/
theorem state_load : (m.load p).state = { m with memory := (m.load p).state.memory } := by
  unfold load
  split
  · rfl
  · rfl

/-- **A load is seen where its program covers memory**, and behind that what was there before. -/
theorem memory_load (k : Nat) : (m.load p).state.memory[programStart + k]? =
    if Covers p k then p[k]? else m.memory[programStart + k]? := by
  rcases Nat.lt_or_ge programMax p.size with hlt | hle
  · have hnot : ¬ Covers p k := fun h => Nat.not_le_of_lt hlt h.1
    rw [load_of_lt hlt, if_neg hnot, Outcome.state_fail]
  · rw [load_of_le hle, Outcome.state_ok]
    rcases Nat.lt_or_ge k p.size with hin | hout
    · have hfits : programStart + p.size ≤ 4096 := by
        simp only [programMax, memorySize, programStart] at hle ⊢
        omega
      rw [if_pos ⟨hle, hin⟩, m.memory.getElem?_overlay_of_inside hfits hin]
    · have hnot : ¬ Covers p k := fun h => Nat.not_lt_of_le hout h.2
      rw [if_neg hnot, m.memory.getElem?_overlay_of_outside (Or.inr (by omega))]

/-- Below the start of programs nothing changes. -/
theorem memory_load_of_lt {a : Nat} (ha : a < programStart) :
    (m.load p).state.memory[a]? = m.memory[a]? := by
  rcases Nat.lt_or_ge programMax p.size with hlt | hle
  · rw [load_of_lt hlt, Outcome.state_fail]
  · rw [load_of_le hle, Outcome.state_ok, m.memory.getElem?_overlay_of_outside (Or.inl ha)]

/-! ## Any number of them -/

variable [KeySource K]

/-- The machine after some programs were loaded, one after the other, whatever became of each. -/
def loadAll (ps : List (Array UInt8)) : Machine K := m.after (ps.map .load)

@[simp] theorem loadAll_cons (ps : List (Array UInt8)) :
    m.loadAll (p :: ps) = (m.load p).state.loadAll ps := rfl

omit [KeySource K] in
/-- The programs that cover place `k`. -/
def covering (ps : List (Array UInt8)) (k : Nat) : List (Array UInt8) :=
  ps.filter fun p => Covers p k

/-- Memory is all that any number of loads change. -/
theorem state_loads (ps : List (Array UInt8)) :
    m.loadAll ps = { m with memory := (m.loadAll ps).memory } := by
  induction ps generalizing m with
  | nil => rfl
  | cons p ps ih => rw [loadAll_cons, ih, state_load]

/-- **The last program that covers a place is seen there.**  Induction on the programs: the first one
    is seen as long as none behind it covers the place. -/
theorem memory_loads (ps : List (Array UInt8)) (k : Nat) :
    (m.loadAll ps).memory[programStart + k]? = match (covering ps k).getLast? with
      | some p => p[k]?
      | none => m.memory[programStart + k]? := by
  induction ps generalizing m with
  | nil => rfl
  | cons p ps ih =>
    rw [loadAll_cons, ih, memory_load]
    by_cases hp : Covers p k
    · have hfirst : covering (p :: ps) k = p :: covering ps k :=
        List.filter_cons_of_pos (decide_eq_true hp)
      rw [hfirst, List.getLast?_cons, if_pos hp]
      cases (covering ps k).getLast? <;> rfl
    · have hfirst : covering (p :: ps) k = covering ps k :=
        List.filter_cons_of_neg (by rw [decide_eq_true_iff]; exact hp)
      rw [hfirst, if_neg hp]

/-- Below the start of programs nothing ever changes. -/
theorem memory_loads_of_lt (ps : List (Array UInt8)) {a : Nat} (ha : a < programStart) :
    (m.loadAll ps).memory[a]? = m.memory[a]? := by
  induction ps generalizing m with
  | nil => rfl
  | cons p ps ih => rw [loadAll_cons, ih, memory_load_of_lt m p ha]

/-- **Programs are laid over each other.**  Let any programs be loaded into a machine, one after the
    other.  Each load succeeds if its program has at most 3584 bytes; a larger one is refused with
    its size and that limit, and the machine is as it was.  In the end the byte at `0x200 + k` is
    byte `k` of the last program that was accepted and has such a byte, or the byte that was there
    at the start if there is no such program.  All bytes below `0x200` are as they were, and so is
    every other part of the machine. -/
theorem loads_overlay (m : Machine K) (ps : List (Array UInt8)) :
    let now := m.loadAll ps
    (∀ j p, ps[j]? = some p →
      let before := m.loadAll (ps.take j)
      (before.load p).result =
        (if p.size ≤ 3584 then .ok () else .error (.tooLarge p.size 3584)) ∧
      (3584 < p.size → (before.load p).state = before)) ∧
    (∀ k, now.memory[0x200 + k]? =
      match (ps.filter fun p => p.size ≤ 3584 ∧ k < p.size).getLast? with
      | some p => p[k]?
      | none => m.memory[0x200 + k]?) ∧
    (∀ a, a < 0x200 → now.memory[a]? = m.memory[a]?) ∧
    now = { m with memory := now.memory } := by
  intro now
  refine ⟨?_, ?_, ?_, m.state_loads ps⟩
  · intro j p _ before
    refine ⟨before.result_load p, ?_⟩
    intro hlarge
    rw [load_of_lt hlarge, Outcome.state_fail]
  · intro k
    exact m.memory_loads ps k
  · intro a ha
    exact m.memory_loads_of_lt ps ha

/-- Four programs: one of four bytes, one of a single byte, one that is a byte too large, and an
    empty one.  The first byte is that of the second program, behind it the first one's tail is left,
    and then what was there from the start. -/
theorem loads_overlay_of_four :
    let m := powerOn Keypad.released .plain (.repeating #[])
    let large : Array UInt8 := Array.replicate 3585 0xFF
    let ps : List (Array UInt8) := [#[1, 2, 3, 4], #[9], large, #[]]
    let now := m.loadAll ps
    ((m.loadAll (ps.take 2)).load large).result = .error (.tooLarge 3585 3584) ∧
    now.memory[0x200]? = some 9 ∧
    now.memory[0x201]? = some 2 ∧
    now.memory[0x203]? = some 4 ∧
    now.memory[0x204]? = m.memory[0x204]? := by
  intro m large ps now
  have hsize : large.size = 3585 := Array.size_replicate
  obtain ⟨hresult, hbyte, -, -⟩ := loads_overlay m ps
  have hrefused := (hresult 2 large rfl).1
  rw [hsize, if_neg (by decide)] at hrefused
  have hcovering : ∀ k, (ps.filter fun p => p.size ≤ 3584 ∧ k < p.size) =
      [#[1, 2, 3, 4], #[9]].filter fun p => k < p.size := by
    intro k
    simp [ps, List.filter_cons, hsize]
  refine ⟨hrefused, ?_, ?_, ?_, ?_⟩
  · exact (hbyte 0).trans (by rw [hcovering]; rfl)
  · exact (hbyte 1).trans (by rw [hcovering]; rfl)
  · exact (hbyte 3).trans (by rw [hcovering]; rfl)
  · exact (hbyte 4).trans (by rw [hcovering]; rfl)

end Chip8.Machine
