/-
  An instruction, told apart.

  `Machine.execute` answers four questions in one go.  Nearly every property asks about ONE of
  them, so they are given a function each:

  * `fault?`  — what keeps the instruction from running, if anything does;
  * `effect`  — what it does to the machine, the program counter left alone;
  * `flow`    — where the program goes from there;
  * `report`  — what is said about it.

  `execute_eq` says that the four make up `execute` again.  `course` says the same of a whole
  cycle: it takes one of four courses, and each of them has its outcome written out.  Every other
  proof about instructions starts from these two and opens neither `execute` nor `cycle`.
-/
import Chip8.Machine.Cycle

namespace Chip8.Machine

variable {K : Type}

/-! ## The four questions -/

/-- The fault of a range of memory that does not fit. -/
def rangeFault? (start n : Nat) : Option Fault :=
  if Memory.Fits start n then none else some (Memory.outside start n)

/-- What keeps an instruction from running. -/
def fault? (m : Machine K) : Instruction → Option Fault
  | .ret => if m.stack = [] then some .stackEmpty else none
  | .call _ => if m.stack.length < stackSize then none else some .stackFull
  | .draw _ _ rows => rangeFault? m.index.toNat rows.val
  | .storeDecimal _ => rangeFault? m.index.toNat 3
  | .store x | .load x => rangeFault? m.index.toNat (x.val + 1)
  | _ => none

section

variable [KeySource K]

/-- What an instruction does to the machine, if nothing keeps it from running.  The program
    counter stays where it is. -/
def effect (m : Machine K) : Instruction → Machine K
  | .clear => { m with screen := .blank }
  | .draw x y rows =>
    match m.memory.read m.index.toNat rows.val with
    | .ok sprite => m.drawSprite x y sprite
    | .error _ => m
  | .ret => { m with stack := m.stack.tail }
  | .call _ => { m with stack := m.pc :: m.stack }
  | .jump _ | .jumpPlus _ | .skip _ => m
  | .setByte x b => m.setRegister x b
  | .addByte x b => m.setRegister x (m.registers.read x + b)
  | .alu op x y => { m with registers := m.operate op x y }
  | .random x mask =>
    { m.setRegister x (mask &&& m.random.front) with random := m.random.rest }
  | .readDelay x => m.setRegister x m.delay.value
  | .setDelay x => { m with delay := ⟨m.registers.read x⟩ }
  | .setSound x => { m with sound := ⟨m.registers.read x⟩ }
  | .waitKey x =>
    match lowestDown m.keys with
    | some k => m.setRegister x (UInt8.ofNat k.val)
    | none => m
  | .setIndex a => { m with index := UInt16.ofNat a.val }
  | .addIndex x => { m with index := m.indexPast (m.registers.read x).toNat }
  | .pointGlyph x => { m with index := Font.glyph (m.registers.read x) }
  | .storeDecimal x =>
    { m with memory := m.memory.overlay m.index.toNat (decimalDigits (m.registers.read x)) }
  | .store x =>
    { m with
      memory := m.memory.overlay m.index.toNat (m.registers.upTo x)
      index := m.indexPast (x.val + 1) }
  | .load x =>
    match m.memory.read m.index.toNat (x.val + 1) with
    | .ok bytes =>
      { m with registers := m.registers.fill bytes.toArray, index := m.indexPast (x.val + 1) }
    | .error _ => m

/-- Where the program goes after an instruction. -/
def flow (m : Machine K) : Instruction → Flow
  | .ret => .jump (m.stack.headD 0)
  | .jump a | .call a => .jump a.val
  | .jumpPlus a => .jump (a.val + (m.registers.read Registers.v0).toNat)
  | .skip c => .skipIf (m.holds c)
  | .waitKey _ => if (lowestDown m.keys).isSome then .next else .again
  | _ => .next

/-- What is reported of an instruction. -/
def report (m : Machine K) : Instruction → Signal
  | .clear | .draw .. => .drawn
  | .waitKey _ => if (lowestDown m.keys).isSome then .quiet else .waiting
  | _ => .quiet

/-! ## Putting them together -/

theorem rangeFault?_of_fits {start n : Nat} (h : Memory.Fits start n) :
    rangeFault? start n = none := if_pos h

theorem rangeFault?_of_not_fits {start n : Nat} (h : ¬ Memory.Fits start n) :
    rangeFault? start n = some (Memory.outside start n) := if_neg h

/-- **The four questions make up the instruction.**  An instruction that cannot run is refused
    with the machine as it was; one that can has its effect, and then the program moves on. -/
theorem execute_eq (m : Machine K) (i : Instruction) :
    m.execute i = match m.fault? i with
      | some f => .fail m f
      | none => (m.effect i).done (m.flow i) (m.report i) := by
  cases i with
  | ret =>
    cases hs : m.stack with
    | nil => simp only [execute, fault?, hs, if_true]
    | cons p rest => simp [execute, fault?, effect, flow, report, goTo, hs]
  | call a =>
    by_cases h : m.stack.length < stackSize
    · simp only [execute, fault?, effect, flow, report, goTo, if_pos h]
    · simp only [execute, fault?, if_neg h]
  | waitKey x =>
    cases hk : lowestDown m.keys with
    | none => simp [execute, fault?, effect, flow, report, hk]
    | some k => simp [execute, fault?, effect, flow, report, next, hk]
  | draw x y rows =>
    by_cases h : Memory.Fits m.index.toNat rows.val
    · simp only [execute, fault?, effect, flow, report, rangeFault?_of_fits h,
        Memory.read_of_fits _ h]
    · simp only [execute, fault?, rangeFault?_of_not_fits h, Memory.read_of_not_fits _ h]
  | load x =>
    by_cases h : Memory.Fits m.index.toNat (x.val + 1)
    · simp only [execute, fault?, effect, flow, report, next, rangeFault?_of_fits h,
        Memory.read_of_fits _ h]
    · simp only [execute, fault?, rangeFault?_of_not_fits h, Memory.read_of_not_fits _ h]
  | storeDecimal x =>
    have hsize : (decimalDigits (m.registers.read x)).size = 3 := rfl
    by_cases h : Memory.Fits m.index.toNat 3
    · simp only [execute, fault?, effect, flow, report, next, rangeFault?_of_fits h,
        Memory.write_of_fits _ (hsize ▸ h)]
    · simp only [execute, fault?, rangeFault?_of_not_fits h,
        Memory.write_of_not_fits _ (hsize ▸ h), hsize]
  | store x =>
    have hsize := m.registers.size_upTo x
    by_cases h : Memory.Fits m.index.toNat (x.val + 1)
    · simp only [execute, fault?, effect, flow, report, next, rangeFault?_of_fits h,
        Memory.write_of_fits _ (hsize ▸ h)]
    · simp only [execute, fault?, rangeFault?_of_not_fits h,
        Memory.write_of_not_fits _ (hsize ▸ h), hsize]
  | _ => rfl

theorem execute_of_fault {m : Machine K} {i : Instruction} {f : Fault} (h : m.fault? i = some f) :
    m.execute i = .fail m f := by
  rw [execute_eq, h]

theorem execute_of_no_fault {m : Machine K} {i : Instruction} (h : m.fault? i = none) :
    m.execute i = (m.effect i).done (m.flow i) (m.report i) := by
  rw [execute_eq, h]

/-- Nothing else makes an instruction fail. -/
theorem execute_eq_error_iff {m : Machine K} {i : Instruction} {f : Fault} :
    (m.execute i).result = .error f ↔ m.fault? i = some f := by
  cases hfault : m.fault? i with
  | some g =>
    rw [execute_of_fault hfault, Outcome.result_fail]
    constructor
    · intro h; cases h; rfl
    · intro h; cases h; rfl
  | none =>
    rw [execute_of_no_fault hfault]
    constructor
    · intro h; cases h
    · intro h; cases h

end

/-! ## What the questions look at

  Two machines may agree there although their keys are of different kinds. -/

section

variable {K' : Type}

/-- **What keeps an instruction from running** is a matter of the stack and the index. -/
theorem fault?_congr {m : Machine K} {m' : Machine K'} (hstack : m'.stack = m.stack)
    (hindex : m'.index = m.index) (i : Instruction) : m'.fault? i = m.fault? i := by
  cases i <;> simp only [fault?, hstack, hindex]

/-- Two key sources answer alike about each of the sixteen keys. -/
def SameKeys [KeySource K] [KeySource K'] (keys : K) (keys' : K') : Prop :=
  ∀ k, k < keyCount → KeySource.isDown keys' k = KeySource.isDown keys k

variable [KeySource K] [KeySource K']

instance (keys : K) (keys' : K') : Decidable (SameKeys keys keys') :=
  inferInstanceAs
    (Decidable (∀ k, k < keyCount → KeySource.isDown keys' k = KeySource.isDown keys k))

theorem SameKeys.refl (keys : K) : SameKeys keys keys := fun _ _ => rfl

/-- Then the same key is the lowest that is down. -/
theorem SameKeys.lowestDown_eq {keys : K} {keys' : K'} (h : SameKeys keys keys') :
    lowestDown keys' = lowestDown keys := by
  rw [lowestDown, lowestDown]
  congr 1
  funext k
  exact h k k.isLt

variable {m : Machine K} {m' : Machine K'}

/-- A byte past fifteen names no key, so none that is down. -/
theorem holdsKey_of_le (m : Machine K) {b : UInt8} (h : keyCount ≤ b.toNat) :
    m.holdsKey b = false := by
  rw [holdsKey, decide_eq_false (Nat.not_lt.2 h), Bool.false_and]

theorem holdsKey_congr (hkeys : SameKeys m.keys m'.keys) (b : UInt8) :
    m'.holdsKey b = m.holdsKey b := by
  rcases Nat.lt_or_ge b.toNat keyCount with hb | hb
  · simp only [holdsKey, isKeyDown, hkeys _ hb]
  · rw [holdsKey_of_le m hb, holdsKey_of_le m' hb]

/-- **Where it leads** is a matter of the stack, the registers and the sixteen keys. -/
theorem flow_congr (hstack : m'.stack = m.stack) (hregisters : m'.registers = m.registers)
    (hkeys : SameKeys m.keys m'.keys) (i : Instruction) : m'.flow i = m.flow i := by
  have hholds : ∀ c, m'.holds c = m.holds c := by
    intro c
    cases c <;> simp only [holds, holdsKey_congr hkeys, hregisters]
  cases i <;> simp only [flow, hholds, hstack, hregisters, hkeys.lowestDown_eq]

/-- **What it reports** is a matter of the sixteen keys. -/
theorem report_congr (hkeys : SameKeys m.keys m'.keys) (i : Instruction) :
    m'.report i = m.report i := by
  cases i <;> simp only [report, hkeys.lowestDown_eq]

end

/-! ## A whole cycle

  The beginning of a cycle moves the program counter, the timers and the noted opcode.  What keeps
  an instruction from running, where it leads and what it reports depend on none of them. -/

theorem fault?_begin (m : Machine K) (o : Opcode) (i : Instruction) :
    (m.begin o).fault? i = m.fault? i := fault?_congr rfl rfl i

variable [KeySource K]

theorem flow_begin (m : Machine K) (o : Opcode) (i : Instruction) :
    (m.begin o).flow i = m.flow i := flow_congr rfl rfl (.refl _) i

theorem report_begin (m : Machine K) (o : Opcode) (i : Instruction) :
    (m.begin o).report i = m.report i := report_congr (.refl _) i

/-- An instruction that cannot run is noted, and nothing else comes of the cycle. -/
theorem cycle_of_fault {m : Machine K} {o : Opcode} {i : Instruction} {f : Fault}
    (hfetch : m.fetch = .ok o) (hdecode : Instruction.decode o = .ok i)
    (hfault : m.fault? i = some f) : m.cycle = .fail { m with lastOpcode := o } f := by
  have hexec : (m.begin o).execute i = .fail (m.begin o) f :=
    execute_of_fault (by rw [fault?_begin, hfault])
  rw [cycle_of_decode hfetch hdecode, hexec, Outcome.onFail_fail]
  rfl

/-- One that can has its effect on the machine that began the cycle. -/
theorem cycle_of_no_fault {m : Machine K} {o : Opcode} {i : Instruction}
    (hfetch : m.fetch = .ok o) (hdecode : Instruction.decode o = .ok i)
    (hfault : m.fault? i = none) :
    m.cycle = ((m.begin o).effect i).done (m.flow i) (m.report i) := by
  have hexec := execute_of_no_fault (m := m.begin o) (i := i) (by rw [fault?_begin, hfault])
  rw [flow_begin, report_begin] at hexec
  rw [cycle_of_decode hfetch hdecode, hexec]
  rfl

/-- **The four courses of a cycle**, each with what comes of it. -/
inductive Course (m : Machine K) : Prop
  /-- There was no opcode. -/
  | unfetched (f : Fault) (hfetch : m.fetch = .error f) (hcycle : m.cycle = .fail m f)
  /-- The opcode is no instruction. -/
  | unknown (o : Opcode) (f : Fault) (hfetch : m.fetch = .ok o)
      (hdecode : Instruction.decode o = .error f) (hcycle : m.cycle = .ok (m.begin o) (.unknown o))
  /-- The instruction cannot run. -/
  | faulted (o : Opcode) (i : Instruction) (f : Fault) (hfetch : m.fetch = .ok o)
      (hdecode : Instruction.decode o = .ok i) (hfault : m.fault? i = some f)
      (hcycle : m.cycle = .fail { m with lastOpcode := o } f)
  /-- The instruction ran. -/
  | executed (o : Opcode) (i : Instruction) (hfetch : m.fetch = .ok o)
      (hdecode : Instruction.decode o = .ok i) (hfault : m.fault? i = none)
      (hcycle : m.cycle = ((m.begin o).effect i).done (m.flow i) (m.report i))

theorem course (m : Machine K) : m.Course := by
  cases hfetch : m.fetch with
  | error f => exact .unfetched f hfetch (cycle_of_fetch_error hfetch)
  | ok o =>
    cases hdecode : Instruction.decode o with
    | error f => exact .unknown o f hfetch hdecode (cycle_of_decode_error hfetch hdecode)
    | ok i =>
      cases hfault : m.fault? i with
      | some f =>
        exact .faulted o i f hfetch hdecode hfault (cycle_of_fault hfetch hdecode hfault)
      | none =>
        exact .executed o i hfetch hdecode hfault (cycle_of_no_fault hfetch hdecode hfault)

end Chip8.Machine
