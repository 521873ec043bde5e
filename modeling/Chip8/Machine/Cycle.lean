/-
  One cycle: fetch, count down, execute.

  1. **Fetch** — the opcode at the program counter.  If there is none, nothing at all changes.

  2. **Begin** — the opcode is noted, the program counter moves behind it, and both timers tick.
     A word that is no instruction ends the cycle here; that is a SUCCESS, reported as unknown.

  3. **Execute** — and if that fails, the program counter and both timers go back to where they
     were, so that the cycle can be tried again.  The noted opcode stays.

  Mathlib-free.
-/
import Chip8.Instruction.Encoding
import Chip8.Machine.Execute

namespace Chip8.Machine

variable {K : Type}

/-- The opcode at the program counter. -/
def fetch (m : Machine K) : Except Fault Opcode := Code.opcodeAt m.memory.toArray m.pc

/-- The machine between the fetch of an opcode and its execution. -/
def begin (m : Machine K) (o : Opcode) : Machine K :=
  { m with
    lastOpcode := o
    pc := m.pc + Code.opcodeSize
    delay := m.delay.tick
    sound := m.sound.tick }

/-- The machine with the program counter and the timers of an earlier one. -/
def rewind (m earlier : Machine K) : Machine K :=
  { m with pc := earlier.pc, delay := earlier.delay, sound := earlier.sound }

/-- **One cycle.** -/
def cycle [KeySource K] (m : Machine K) : Outcome (Machine K) Signal :=
  match m.fetch with
  | .error f => .fail m f
  | .ok o =>
    match Instruction.decode o with
    | .error _ => .ok (m.begin o) (.unknown o)
    | .ok i => ((m.begin o).execute i).onFail fun after => after.rewind m

/-! ## Fetching -/

/-- With both bytes in memory, they are the opcode. -/
theorem fetch_of_lt {m : Machine K} (h : m.pc + 1 < 4096) :
    m.fetch = .ok (.ofBytes m.memory[m.pc] m.memory[m.pc + 1]) := by
  have hsize : m.pc + 1 < m.memory.toArray.size := by rw [Vector.size_toArray]; exact h
  exact Code.opcodeAt_of_lt hsize

/-- Otherwise there is none. -/
theorem fetch_of_le {m : Machine K} (h : 4096 ≤ m.pc + 1) :
    m.fetch = .error (.outOfBounds (max m.pc 4096) 4096) := by
  have hsize : m.memory.toArray.size ≤ m.pc + 1 := by rw [Vector.size_toArray]; exact h
  rw [fetch, Code.opcodeAt_of_le hsize, Vector.size_toArray]

/-- An opcode that was fetched lies in memory. -/
theorem lt_of_fetch {m : Machine K} {o : Opcode} (h : m.fetch = .ok o) : m.pc + 1 < 4096 := by
  rcases Nat.lt_or_ge (m.pc + 1) 4096 with hlt | hge
  · exact hlt
  · rw [fetch_of_le hge] at h; cases h

/-- Where a program lies in memory, it is what is fetched. -/
theorem fetch_of_overlay {m : Machine K} {base : Memory} {p : Array UInt8} {k : Nat}
    (hmem : m.memory = base.overlay programStart p) (hsize : p.size ≤ programMax)
    (hpc : m.pc = programStart + k) (hk : k + 1 < p.size) :
    m.fetch = .ok (.ofBytes p[k] p[k + 1]) := by
  have hfits : programStart + (k + 1) < 4096 := by
    simp only [programMax, memorySize, programStart] at hsize ⊢; omega
  rw [fetch_of_lt (by rw [hpc]; exact hfits)]
  simp only [hmem, hpc, Nat.add_assoc]
  rw [Memory.getElem_overlay_of_inside base (by omega) (by omega),
    Memory.getElem_overlay_of_inside base hk hfits]

/-! ## The three ways a cycle goes -/

/-- Nothing to fetch: nothing changes. -/
theorem cycle_of_fetch_error [KeySource K] {m : Machine K} {f : Fault} (h : m.fetch = .error f) :
    m.cycle = .fail m f := by
  rw [cycle, h]

/-- No instruction: only the beginning of the cycle takes place. -/
theorem cycle_of_decode_error [KeySource K] {m : Machine K} {o : Opcode} {f : Fault}
    (h : m.fetch = .ok o) (hd : Instruction.decode o = .error f) :
    m.cycle = .ok (m.begin o) (.unknown o) := by
  simp only [cycle, h, hd]

/-- An instruction: it is executed, and a failure is rewound. -/
theorem cycle_of_decode [KeySource K] {m : Machine K} {o : Opcode} {i : Instruction}
    (h : m.fetch = .ok o) (hd : Instruction.decode o = .ok i) :
    m.cycle = ((m.begin o).execute i).onFail fun after => after.rewind m := by
  simp only [cycle, h, hd]

end Chip8.Machine
