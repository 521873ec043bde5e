/-
  What holds of every machine that can be reached.

  The sizes of memory, registers and screen are in their types.  Three things are not, and have to
  be kept by every event (`Machine.Bounded`):

  * the stack has at most sixteen addresses;
  * each of them lies behind an opcode that was fetched, so it is at least 2 and at most 4096;
  * the program counter is at most `0x10FE`, which is how far a jump with an offset can go: the
    largest address plus the largest byte.

  A program counter is past memory at times: a skip over the last opcode leads to 4098, a call in
  the last two bytes comes back to 4096.  There it stays, since nothing is fetched from there.

  One cycle keeps the bounds (`bounded_cycle`), so does every other event, and so every run does
  (`bounded_after`).
-/
import Chip8.Proofs.Frame
import Chip8.Proofs.Run

namespace Chip8.Machine

/-- How far the program counter can get. -/
def pcMax : Nat := 0x10FE

variable {K : Type}

/-- The bounds that types do not show. -/
structure Bounded (m : Machine K) : Prop where
  stack_length : m.stack.length ≤ stackSize
  stack_range : ∀ p ∈ m.stack, 2 ≤ p ∧ p ≤ memorySize
  pc_le : m.pc ≤ pcMax

theorem bounded_powerOn (keys : K) (d : Dialect) (r : ByteStream) :
    (powerOn keys d r).Bounded where
  stack_length := Nat.zero_le stackSize
  stack_range p hp := absurd hp List.not_mem_nil
  pc_le := by show 0x200 ≤ 0x10FE; decide

/-- No return address is zero. -/
theorem Bounded.ne_zero_of_mem_stack {m : Machine K} (h : m.Bounded) : ∀ p ∈ m.stack, p ≠ 0 := by
  intro p hp
  have hrange := (h.stack_range p hp).1
  omega

variable [KeySource K]

/-! ## One cycle -/

/-- From behind an opcode no flow leads past the largest jump. -/
theorem target_flow_le {m : Machine K} (hrange : ∀ p ∈ m.stack, p ≤ memorySize) (i : Instruction)
    {pc : Nat} (hpc : pc ≤ memorySize) : (m.flow i).target pc ≤ pcMax := by
  simp only [memorySize] at hrange hpc
  cases i with
  | ret =>
    show m.stack.headD 0 ≤ pcMax
    cases hs : m.stack with
    | nil => exact Nat.zero_le pcMax
    | cons p rest =>
      have hp := hrange p (by rw [hs]; exact List.mem_cons_self ..)
      show p ≤ 0x10FE
      omega
  | jump a =>
    have ha := a.isLt
    show a.val ≤ 0x10FE
    omega
  | call a =>
    have ha := a.isLt
    show a.val ≤ 0x10FE
    omega
  | jumpPlus a =>
    have ha := a.isLt
    have hv := (m.registers.read Registers.v0).toNat_lt
    show a.val + (m.registers.read Registers.v0).toNat ≤ 0x10FE
    omega
  | skip c =>
    show (Flow.skipIf (m.holds c)).target pc ≤ 0x10FE
    cases m.holds c with
    | false => show pc ≤ 0x10FE; omega
    | true => show pc + 2 ≤ 0x10FE; omega
  | waitKey x =>
    show (if (lowestDown m.keys).isSome then Flow.next else Flow.again).target pc ≤ 0x10FE
    cases (lowestDown m.keys).isSome with
    | false => show pc - 2 ≤ 0x10FE; omega
    | true => show pc ≤ 0x10FE; omega
  | _ => show pc ≤ 0x10FE; omega

/-- An instruction that runs leaves no more return addresses than there is room for. -/
theorem stack_length_effect {m : Machine K} {i : Instruction} (hfault : m.fault? i = none)
    (hlength : m.stack.length ≤ stackSize) : (m.effect i).stack.length ≤ stackSize := by
  rw [stack_effect]
  cases i with
  | ret =>
    rw [List.length_tail]
    omega
  | call a =>
    show m.stack.length < stackSize
    rcases Nat.lt_or_ge m.stack.length stackSize with hlt | hge
    · exact hlt
    · rw [fault?, if_neg (Nat.not_lt.2 hge)] at hfault
      cases hfault
  | _ => exact hlength

/-- It keeps the addresses in their range; a call pushes one behind an opcode. -/
theorem stack_range_effect {m : Machine K} (i : Instruction)
    (hrange : ∀ p ∈ m.stack, 2 ≤ p ∧ p ≤ memorySize) (hpc : 2 ≤ m.pc ∧ m.pc ≤ memorySize) :
    ∀ p ∈ (m.effect i).stack, 2 ≤ p ∧ p ≤ memorySize := by
  intro p hp
  rw [stack_effect] at hp
  cases i with
  | ret => exact hrange p (List.mem_of_mem_tail hp)
  | call a =>
    rcases List.mem_cons.1 hp with rfl | hp
    · exact hpc
    · exact hrange p hp
  | _ => exact hrange p hp

/-- **A cycle keeps the bounds**, whichever course it takes. -/
theorem bounded_cycle {m : Machine K} (h : m.Bounded) : m.cycle.state.Bounded := by
  cases m.course with
  | unfetched f hfetch hcycle => rw [hcycle]; exact h
  | faulted o i f hfetch hdecode hfault hcycle => rw [hcycle]; exact { h with }
  | unknown o f hfetch hdecode hcycle =>
    have hlt := lt_of_fetch hfetch
    rw [hcycle]
    exact { h with pc_le := by show m.pc + 2 ≤ 0x10FE; omega }
  | executed o i hfetch hdecode hfault hcycle =>
    have hlt := lt_of_fetch hfetch
    have hbegin : (m.begin o).pc ≤ memorySize := by show m.pc + 2 ≤ 4096; omega
    have hlength : ((m.begin o).effect i).stack.length ≤ stackSize :=
      stack_length_effect (by rw [fault?_begin, hfault]) h.stack_length
    have hrange := stack_range_effect (m := m.begin o) i h.stack_range
      ⟨Nat.le_add_left 2 m.pc, hbegin⟩
    rw [hcycle]
    refine ⟨hlength, hrange, ?_⟩
    show (m.flow i).target ((m.begin o).effect i).pc ≤ pcMax
    rw [pc_effect]
    exact target_flow_le (fun p hp => (h.stack_range p hp).2) i hbegin

/-! ## Runs -/

theorem bounded_perform {m : Machine K} (h : m.Bounded) (e : Event K) :
    (m.perform e).state.Bounded := by
  cases e with
  | cycle => exact bounded_cycle h
  | reset => exact bounded_powerOn m.keys m.dialect m.random
  | rekey change => exact { h with }
  | load program =>
    obtain ⟨memory, hload⟩ := m.perform_load_state program
    rw [hload]
    exact { h with }

/-- **Every machine that a run leads to is in bounds.** -/
theorem bounded_after {m : Machine K} (h : m.Bounded) (es : List (Event K)) :
    (m.after es).Bounded := by
  apply after_induction (P := Bounded) _ h
  intro m e _ hm
  exact bounded_perform hm e

end Chip8.Machine
