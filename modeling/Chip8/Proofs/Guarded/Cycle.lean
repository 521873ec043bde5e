/-
  No machine that can be reached gets stuck.

  1. **The cycle** — made of the partial operations only: the opcode is looked up, the program
     counter is added to, the timers are subtracted from, the instruction is executed, all of it
     with checks.  A machine in bounds passes every one of them (`cycle_eq`), and so do loading a
     program and putting memory back.

  2. **Everything reachable** — what a console's machine is like after any run, and after each
     cycle of a further run (`Sound`).  The sizes of memory and screen are the types'; stack and
     program counter are in bounds because every event keeps them there.
-/
import Chip8.Proofs.Bounds
import Chip8.Proofs.Guarded.Execute

namespace Chip8

namespace Guarded

variable {K : Type}

/-! ## The cycle -/

/-- The opcode at the program counter, which takes two lookups. -/
def fetch (m : Machine K) : Option (Except Fault Opcode) := do
  let second ← add m.pc 1
  match m.memory.toArray[m.pc]?, m.memory.toArray[second]? with
  | some hi, some lo => some (.ok (.ofBytes hi lo))
  | some _, none => some (.error (.outOfBounds second m.memory.toArray.size))
  | none, _ => some (.error (.outOfBounds m.pc m.memory.toArray.size))

/-- The machine between the fetch of an opcode and its execution. -/
def begin (m : Machine K) (o : Opcode) : Option (Machine K) := do
  let pc ← add m.pc Code.opcodeSize
  let delay ← tick m.delay
  let sound ← tick m.sound
  some { m with lastOpcode := o, pc := pc, delay := delay, sound := sound }

/-- **One cycle**, if every operation in it has a result. -/
def cycle [KeySource K] (m : Machine K) : Option (Outcome (Machine K) Signal) := do
  match ← fetch m with
  | .error f => some (.fail m f)
  | .ok o =>
    let begun ← begin m o
    match Instruction.decode o with
    | .error _ => some (.ok begun (.unknown o))
    | .ok i =>
      let out ← execute begun i
      some (out.onFail fun after => after.rewind m)

/-- A program is copied into its place, if it fits. -/
def load (m : Machine K) (program : Array UInt8) : Option (Outcome (Machine K) Unit) :=
  if programMax < program.size then some (.fail m (.tooLarge program.size programMax))
  else do
    let stop ← add programStart program.size
    let memory ← copyToMemory m.memory programStart stop program
    some (.ok { m with memory := memory } ())

/-- A reset; the font is copied into its place. -/
def reset (m : Machine K) : Option (Machine K) := do
  let stop ← add Font.start Font.table.toArray.size
  let memory ← copyToMemory .zeros Font.start stop Font.table.toArray
  some { m.reset with memory := memory }

variable {m : Machine K}

theorem fetch_eq (h : m.pc + 1 < wordLimit) : fetch m = some m.fetch := by
  simp only [fetch, add_of_lt h, Option.bind_eq_bind, Option.bind_some, Machine.fetch,
    Code.opcodeAt]
  cases m.memory.toArray[m.pc]? with
  | none => rfl
  | some hi => cases m.memory.toArray[m.pc + 1]? <;> rfl

theorem begin_eq (h : m.pc + 2 < wordLimit) (o : Opcode) : begin m o = some (m.begin o) := by
  simp only [begin, Code.opcodeSize, add_of_lt h, tick_eq, Option.bind_eq_bind, Option.bind_some]
  rfl

/-- A machine in bounds that fetched an opcode is poised to execute it. -/
theorem poised_begin (h : m.Bounded) (o : Opcode) : Poised (m.begin o) where
  stack_length := h.stack_length
  two_le_pc := Nat.le_add_left 2 m.pc
  pc_lt := by
    have hpc : m.pc ≤ 0x10FE := h.pc_le
    show m.pc + 2 + 2 < 2 ^ 32
    omega

/-- **A machine in bounds goes through its cycle without a hitch.** -/
theorem cycle_eq [KeySource K] (h : m.Bounded) : cycle m = some m.cycle := by
  have hpc : m.pc ≤ 0x10FE := h.pc_le
  have hlt : m.pc + 2 < wordLimit := by simp only [wordLimit]; omega
  simp only [cycle, fetch_eq (Nat.lt_of_succ_lt hlt), Option.bind_eq_bind, Option.bind_some]
  cases hfetch : m.fetch with
  | error f =>
    rw [Machine.cycle_of_fetch_error hfetch]
  | ok o =>
    simp only [begin_eq hlt, Option.bind_some]
    cases hdecode : Instruction.decode o with
    | error f =>
      rw [Machine.cycle_of_decode_error hfetch hdecode]
    | ok i =>
      simp only [execute_eq (poised_begin h o), Option.bind_some]
      rw [Machine.cycle_of_decode hfetch hdecode]

/-- A program that is not refused has the length of the place it is copied to. -/
theorem load_eq (m : Machine K) (program : Array UInt8) : load m program = some (m.load program) := by
  rcases Nat.lt_or_ge programMax program.size with hlt | hle
  · rw [load, if_pos hlt, Machine.load_of_lt hlt]
  · have hfits : programStart + program.size ≤ memorySize := by
      simp only [programMax, memorySize, programStart] at hle ⊢; omega
    have hadd : programStart + program.size < wordLimit := by
      simp only [memorySize, wordLimit] at hfits ⊢; omega
    rw [load, if_neg (Nat.not_lt.2 hle), Machine.load_of_le hle, add_of_lt hadd]
    show (copyToMemory m.memory programStart (programStart + program.size) program).bind _ = _
    rw [copyToMemory_of_size _ hfits rfl]
    rfl

/-- The font has the length of its place. -/
theorem reset_eq (m : Machine K) : reset m = some m.reset := by
  have hadd : add Font.start Font.table.toArray.size =
      some (Font.start + Font.table.toArray.size) := add_of_lt (by decide)
  have hcopy : copyToMemory .zeros Font.start (Font.start + Font.table.toArray.size)
      Font.table.toArray = some .initial := copyToMemory_of_size .zeros (by decide) rfl
  simp only [reset, hadd, hcopy, Option.bind_eq_bind, Option.bind_some]
  rfl

end Guarded

/-! ## Everything reachable -/

/-- A machine that is of the right size and in bounds, and that every operation works on. -/
structure Machine.Sound {K : Type} [KeySource K] (m : Machine K) : Prop extends m.Bounded where
  memory_size : m.memory.toArray.size = memorySize
  screen_height : m.screen.rows.toArray.size = screenHeight
  screen_pixels : ∀ r c, m.screen.pixel r c = true → r < screenHeight ∧ c < screenWidth
  pc_lt : m.pc < 2 ^ 16
  stack_lt : ∀ p ∈ m.stack, p < 2 ^ 16
  cycle_eq : Guarded.cycle m = some m.cycle
  load_eq : ∀ program, Guarded.load m program = some (m.load program)
  reset_eq : Guarded.reset m = some m.reset

theorem Machine.sound_of_bounded {K : Type} [KeySource K] {m : Machine K} (h : m.Bounded) :
    m.Sound where
  toBounded := h
  memory_size := m.memory.size_toArray
  screen_height := m.screen.rows.size_toArray
  screen_pixels _ _ hon := Screen.lt_of_pixel hon
  pc_lt := by
    have hpc : m.pc ≤ 0x10FE := h.pc_le
    omega
  stack_lt p hp := by
    have hle : p ≤ 4096 := (h.stack_range p hp).2
    omega
  cycle_eq := Guarded.cycle_eq h
  load_eq := Guarded.load_eq m
  reset_eq := Guarded.reset_eq m

/-- **However a console is used**, its machine stays sound: after every operation, and after every
    single cycle of a run. -/
theorem Console.reachable_sound {K : Type} [KeySource K] (keys : K) (d : Dialect) (r : ByteStream)
    (es : List (Event K)) :
    let c := (start (.powerOn keys d r)).after es
    c.machine.Sound ∧ ∀ n, ∀ c' ∈ passed n c, c'.machine.Sound := by
  intro c
  have hbounded : c.machine.Bounded := by
    obtain ⟨ms, hms⟩ := machine_after (start (.powerOn keys d r)) es
    rw [hms]
    exact Machine.bounded_after (Machine.bounded_powerOn keys d r) ms
  have htick : ∀ c : Console K, c.machine.Bounded → c.tick.state.machine.Bounded := by
    intro c h
    rw [machine_tick]
    exact Machine.bounded_cycle h
  constructor
  · exact Machine.sound_of_bounded hbounded
  · intro n c' hc'
    exact Machine.sound_of_bounded
      (passed_induction (P := fun c => c.machine.Bounded) htick n hbounded c' hc')

end Chip8
