/-
  Failing changes nothing.

  1. **An instruction** that fails leaves the machine exactly as it was, every part of it.

  2. **A cycle** begins before its instruction is looked at: the program counter has moved and both
     timers have ticked.  If the instruction fails, these three go back, and the one trace of the
     cycle is the noted opcode.  A cycle that finds no opcode leaves no trace at all.

  No part of the machine is written before an instruction is certain to run, because what keeps it
  from running is asked first (`Machine.fault?`).
-/
import Chip8.Proofs.Execution

namespace Chip8.Machine

variable {K : Type} [KeySource K]

theorem execute_state_of_error {m : Machine K} {i : Instruction} {f : Fault}
    (h : (m.execute i).result = .error f) : (m.execute i).state = m := by
  rw [execute_of_fault (execute_eq_error_iff.1 h), Outcome.state_fail]

theorem cycle_state_of_unfetched {m : Machine K} {f : Fault} (h : m.fetch = .error f) :
    m.cycle.state = m := by
  rw [cycle_of_fetch_error h, Outcome.state_fail]

/-- The case split follows the course of the cycle; only two of the four can fail. -/
theorem cycle_state_of_error {m : Machine K} {o : Opcode} {f : Fault} (hfetch : m.fetch = .ok o)
    (h : m.cycle.result = .error f) : m.cycle.state = { m with lastOpcode := o } := by
  cases m.course with
  | unfetched g hnone hcycle => rw [hfetch] at hnone; cases hnone
  | unknown o' g hfetch' hdecode hcycle => rw [hcycle] at h; cases h
  | faulted o' i g hfetch' hdecode hfault hcycle =>
    have ho : o' = o := by rw [hfetch] at hfetch'; cases hfetch'; rfl
    rw [hcycle, Outcome.state_fail, ho]
  | executed o' i hfetch' hdecode hfault hcycle => rw [hcycle] at h; cases h

/-- **Failing changes nothing**: not for an instruction, and for a cycle nothing but the note of
    the opcode, which is made exactly if there was one. -/
theorem failed_step_changes_nothing (m : Machine K) :
    (∀ i f, (m.execute i).result = .error f → (m.execute i).state = m) ∧
    (∀ f, m.cycle.result = .error f →
      (∀ o, m.fetch = .ok o → m.cycle.state = { m with lastOpcode := o }) ∧
      (∀ g, m.fetch = .error g → m.cycle.state = m)) := by
  constructor
  · intro i f h
    exact execute_state_of_error h
  · intro f h
    constructor
    · intro o ho
      exact cycle_state_of_error ho h
    · intro g hg
      exact cycle_state_of_unfetched hg

/-- A return with no call behind it fails and is noted; with the program counter on the last byte
    there is nothing to note. -/
theorem failed_step_of_lone_return :
    let m := ((powerOn Keypad.released .plain (.repeating #[])).load #[0x00, 0xEE]).state
    let last := { m with pc := 0xFFF }
    ((m.execute .ret).result = .error .stackEmpty ∧ (m.execute .ret).state = m) ∧
    (m.cycle.result = .error .stackEmpty ∧ m.cycle.state = { m with lastOpcode := 0x00EE }) ∧
    (last.cycle.result = .error (.outOfBounds 0x1000 0x1000) ∧ last.cycle.state = last) := by
  intro m last
  have hexec : m.execute .ret = .fail m .stackEmpty := rfl
  have hfetch : m.fetch = .ok 0x00EE :=
    fetch_of_overlay (p := #[0x00, 0xEE]) (k := 0) rfl (by decide) rfl (by decide)
  have hcycle := cycle_of_fault hfetch (i := .ret) (f := .stackEmpty) rfl rfl
  have hnone : last.fetch = .error (.outOfBounds 0x1000 0x1000) := fetch_of_le (by decide)
  refine ⟨⟨by rw [hexec]; rfl, ?_⟩, ⟨by rw [hcycle]; rfl, ?_⟩,
    by rw [cycle_of_fetch_error hnone]; rfl, ?_⟩
  · exact (failed_step_changes_nothing m).1 .ret .stackEmpty (by rw [hexec]; rfl)
  · exact ((failed_step_changes_nothing m).2 .stackEmpty (by rw [hcycle]; rfl)).1 0x00EE hfetch
  · exact ((failed_step_changes_nothing last).2 _ (by rw [cycle_of_fetch_error hnone]; rfl)).2 _ hnone

end Chip8.Machine
