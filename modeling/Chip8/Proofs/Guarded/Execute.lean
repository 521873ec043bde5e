/-
  Executing an instruction with partial operations.

  `execute` goes through the instructions once more, this time with the operations that check
  their arguments: every register is looked up by number, every range of memory is cut out by its
  two ends, every sum and difference is asked whether it can be formed.  Where one of them has no
  result, neither has the instruction.

  That never happens behind an opcode that was fetched, provided the stack is not over full
  (`execute_eq`); what comes out then is what `Machine.execute` says.
-/
import Chip8.Proofs.Guarded.Sprite

namespace Chip8.Guarded

variable {K : Type}

/-! ## The definition -/

/-- Where a flow leads from `pc`. -/
def target (f : Flow) (pc : Nat) : Option Nat :=
  match f with
  | .next => some pc
  | .skip => add pc Code.opcodeSize
  | .again => sub pc Code.opcodeSize
  | .jump t => some t

/-- The instruction is done: the program counter moves and the signal is reported. -/
def done (m : Machine K) (f : Flow) (s : Signal) : Option (Outcome (Machine K) Signal) := do
  let pc ← target f m.pc
  some (.ok { m with pc := pc } s)

/-- What is done with the two ends of a range of memory, if it fits; else the instruction fails. -/
def within (m : Machine K) (start n : Nat)
    (act : Nat → Nat → Option (Outcome (Machine K) Signal)) :
    Option (Outcome (Machine K) Signal) := do
  match ← memoryRange start n with
  | .error f => some (.fail m f)
  | .ok (start, stop) => act start stop

/-- What the machine answers if a sprite is drawn whose bytes lie from `start` up to `stop`. -/
def drawFrom (m : Machine K) (x y start stop : Nat) : Option (Outcome (Machine K) Signal) := do
  let vx ← register m.registers x
  let vy ← register m.registers y
  let sprite ← slice m.memory.toArray start stop
  let (screen, hit) ← drawSprite m.dialect.edge vx.toNat vy.toNat sprite m.screen
  let registers ← setRegister m.registers 15 (flagByte hit)
  done { m with screen := screen, registers := registers } .next .drawn

/-- The registers after an operation. -/
def operate (m : Machine K) (op : AluOp) (x y : Nat) : Option Registers := do
  let a ← register m.registers x
  let b ← register m.registers y
  let s := m.dialect.shifted a b
  let flagged ← match op.flag? a b s with
    | some flag => setRegister m.registers 15 flag
    | none => some m.registers
  setRegister flagged x (op.result a b s)

section

variable [KeySource K]

/-- Is a key of the sixteen down? -/
def askKey (m : Machine K) (i : Nat) : Option Bool :=
  if i < keyCount then some (m.isKeyDown i) else none

/-- Is the key down that a byte names? -/
def holdsKey (m : Machine K) (b : UInt8) : Option Bool :=
  if b.toNat < keyCount then askKey m b.toNat else some false

/-- Does a condition hold? -/
def holds (m : Machine K) : Condition → Option Bool
  | .isByte x b => do
    let vx ← register m.registers x.val
    some (vx == b)
  | .notByte x b => do
    let vx ← register m.registers x.val
    some (vx != b)
  | .same x y => do
    let vx ← register m.registers x.val
    let vy ← register m.registers y.val
    some (vx == vy)
  | .differ x y => do
    let vx ← register m.registers x.val
    let vy ← register m.registers y.val
    some (vx != vy)
  | .keyDown x => do
    let vx ← register m.registers x.val
    holdsKey m vx
  | .keyUp x => do
    let vx ← register m.registers x.val
    let down ← holdsKey m vx
    some (!down)

/-- **Execute an instruction**, if every operation in it has a result. -/
def execute (m : Machine K) (i : Instruction) : Option (Outcome (Machine K) Signal) :=
  match i with
  -- the screen
  | .clear => done { m with screen := .blank } .next .drawn
  | .draw x y rows =>
    if rows.val = 0 then drawFrom m x.val y.val 0 0
    else within m m.index.toNat rows.val (drawFrom m x.val y.val)
  -- where to go next
  | .ret =>
    match m.stack with
    | [] => some (.fail m .stackEmpty)
    | p :: rest => done { m with stack := rest } (.jump p) .quiet
  | .jump a => done m (.jump a.val) .quiet
  | .call a =>
    if m.stack.length = stackSize then some (.fail m .stackFull)
    else do
      let stack ← push m.stack m.pc
      done { m with stack := stack } (.jump a.val) .quiet
  | .jumpPlus a => do
    let v ← register m.registers 0
    let t ← add a.val v.toNat
    done m (.jump t) .quiet
  | .skip c => do
    let b ← holds m c
    done m (.skipIf b) .quiet
  -- registers
  | .setByte x b => do
    let registers ← setRegister m.registers x.val b
    done { m with registers := registers } .next .quiet
  | .addByte x b => do
    let vx ← register m.registers x.val
    let registers ← setRegister m.registers x.val (vx + b)
    done { m with registers := registers } .next .quiet
  | .alu op x y => do
    let registers ← operate m op x.val y.val
    done { m with registers := registers } .next .quiet
  | .random x mask => do
    let registers ← setRegister m.registers x.val (mask &&& m.random.front)
    done { m with registers := registers, random := m.random.rest } .next .quiet
  -- timers and keys
  | .readDelay x => do
    let registers ← setRegister m.registers x.val m.delay.value
    done { m with registers := registers } .next .quiet
  | .setDelay x => do
    let vx ← register m.registers x.val
    done { m with delay := ⟨vx⟩ } .next .quiet
  | .setSound x => do
    let vx ← register m.registers x.val
    done { m with sound := ⟨vx⟩ } .next .quiet
  | .waitKey x =>
    match lowestDown m.keys with
    | some k => do
      let registers ← setRegister m.registers x.val (UInt8.ofNat k.val)
      done { m with registers := registers } .next .quiet
    | none => done m .again .waiting
  -- the index register, and memory behind it
  | .setIndex a => done { m with index := UInt16.ofNat a.val } .next .quiet
  | .addIndex x => do
    let vx ← register m.registers x.val
    done { m with index := m.indexPast vx.toNat } .next .quiet
  | .pointGlyph x => do
    let vx ← register m.registers x.val
    let offset ← mul Font.glyphSize vx.toNat
    let place ← add Font.start offset
    done { m with index := UInt16.ofNat place } .next .quiet
  | .storeDecimal x =>
    within m m.index.toNat 3 fun start stop => do
      let vx ← register m.registers x.val
      let memory ← copyToMemory m.memory start stop (decimalDigits vx)
      done { m with memory := memory } .next .quiet
  | .store x => do
    let n ← add x.val 1
    within m m.index.toNat n fun start stop => do
      let bytes ← slice m.registers.toArray 0 n
      let memory ← copyToMemory m.memory start stop bytes
      done { m with memory := memory, index := m.indexPast n } .next .quiet
  | .load x => do
    let n ← add x.val 1
    within m m.index.toNat n fun start stop => do
      let bytes ← slice m.memory.toArray start stop
      let registers ← copyToRegisters m.registers n bytes
      done { m with registers := registers, index := m.indexPast n } .next .quiet

end

/-! ## The parts -/

variable {m : Machine K}

/-- Behind an opcode, every flow leads somewhere. -/
theorem target_eq {pc : Nat} (hpc : 2 ≤ pc) (hlt : pc + 2 < wordLimit) (f : Flow) :
    target f pc = some (f.target pc) := by
  cases f with
  | next => rfl
  | skip => exact add_of_lt hlt
  | again => exact sub_of_le hpc
  | jump t => rfl

/-- A machine between the fetch of an opcode and its execution: the program counter is behind the
    opcode and not far from memory, and the stack is at most full. -/
structure Poised (m : Machine K) : Prop where
  stack_length : m.stack.length ≤ stackSize
  two_le_pc : 2 ≤ m.pc
  pc_lt : m.pc + 2 < wordLimit

/-- The program counter that a poised machine left behind moves as it should. -/
theorem done_eq (h : Poised m) (m' : Machine K) (f : Flow) (s : Signal) (hpc : m'.pc = m.pc) :
    done m' f s = some (m'.done f s) := by
  have htarget : target f m'.pc = some (f.target m'.pc) :=
    target_eq (hpc ▸ h.two_le_pc) (hpc ▸ h.pc_lt) f
  rw [done, htarget]
  rfl

/-- The index register and the length of a sprite or of a row of registers can be added. -/
theorem index_add_lt (m : Machine K) {n : Nat} (hn : n ≤ 16) : m.index.toNat + n < wordLimit := by
  have hindex := m.index.toNat_lt
  simp only [wordLimit]
  omega

theorem within_of_not_fits {start n : Nat} (h : ¬ Memory.Fits start n)
    (hlt : start + n < wordLimit) (act : Nat → Nat → Option (Outcome (Machine K) Signal)) :
    within m start n act = some (.fail m (Memory.outside start n)) := by
  rw [within, memoryRange_of_not_fits h hlt]
  rfl

theorem within_of_le {start n : Nat} (h : start + n ≤ memorySize)
    (act : Nat → Nat → Option (Outcome (Machine K) Signal)) :
    within m start n act = act start (start + n) := by
  rw [within, memoryRange_of_le h]
  rfl

@[simp] theorem setRegister_flag (r : Registers) (b : UInt8) :
    setRegister r 15 b = some (r.write Registers.flag b) := setRegister_val r Registers.flag b

@[simp] theorem register_zero (r : Registers) : register r 0 = some (r.read Registers.v0) :=
  register_val r Registers.v0

/-- From the right bytes the right sprite is drawn. -/
theorem drawFrom_eq (h : Poised m) (x y : Register) {n : Nat}
    (hn : n ≤ 32) (sprite : Vector UInt8 n) {start stop : Nat}
    (hslice : slice m.memory.toArray start stop = some sprite.toArray) :
    drawFrom m x.val y.val start stop = some ((m.drawSprite x y sprite).done .next .drawn) := by
  have hdraw := drawSprite_eq (e := m.dialect.edge) (m.registers.read x).toNat_lt
    (m.registers.read y).toNat_lt hn sprite m.screen
  simp only [drawFrom, register_val, hslice, hdraw, setRegister_flag, Option.bind_eq_bind,
    Option.bind_some]
  exact done_eq h (m.drawSprite x y sprite) .next .drawn rfl

theorem operate_eq (op : AluOp) (x y : Register) :
    operate m op x.val y.val = some (m.operate op x y) := by
  simp only [operate, Machine.operate, register_val, Option.bind_eq_bind, Option.bind_some]
  cases op.flag? (m.registers.read x) (m.registers.read y)
      (m.dialect.shifted (m.registers.read x) (m.registers.read y)) with
  | none => exact setRegister_val m.registers x _
  | some flag =>
    show (setRegister m.registers 15 flag).bind _ = _
    rw [setRegister_flag, Option.bind_some, setRegister_val]
    rfl

variable [KeySource K]

/-- No key is asked for that there is not. -/
theorem holdsKey_eq (b : UInt8) : holdsKey m b = some (m.holdsKey b) := by
  by_cases hb : b.toNat < keyCount
  · rw [holdsKey, if_pos hb, askKey, if_pos hb, Machine.holdsKey, decide_eq_true hb, Bool.true_and]
  · rw [holdsKey, if_neg hb, Machine.holdsKey, decide_eq_false hb, Bool.false_and]

theorem holds_eq (c : Condition) : holds m c = some (m.holds c) := by
  cases c <;>
    simp only [holds, Machine.holds, register_val, holdsKey_eq, Option.bind_eq_bind,
      Option.bind_some]

/-! ## The instructions -/

/-- A sprite is drawn from the range behind the index register.  One without rows is cut out of the
    very beginning of memory, wherever that register points. -/
theorem execute_draw (h : Poised m) (x y : Register) (rows : Fin 16) :
    execute m (.draw x y rows) = some (m.execute (.draw x y rows)) := by
  have hrows := rows.isLt
  by_cases h0 : rows.val = 0
  · have hfits : Memory.Fits m.index.toNat rows.val := Or.inl h0
    have hslice : slice m.memory.toArray 0 0 =
        some (m.memory.slice m.index.toNat rows.val hfits).toArray := by
      rw [slice_of_le (Nat.le_refl 0) (Nat.zero_le _), Array.extract_zero,
        Array.eq_empty_of_size_eq_zero ((Vector.size_toArray _).trans h0)]
    simp only [execute, Machine.execute, if_pos h0, Memory.read_of_fits _ hfits]
    exact drawFrom_eq h x y (by omega) _ hslice
  · by_cases hfits : Memory.Fits m.index.toNat rows.val
    · have hle := hfits.resolve_left h0
      simp only [execute, Machine.execute, if_neg h0, Memory.read_of_fits _ hfits,
        within_of_le hle]
      exact drawFrom_eq h x y (by omega) _ (slice_of_fits _ hfits hle)
    · simp only [execute, Machine.execute, if_neg h0, Memory.read_of_not_fits _ hfits]
      exact within_of_not_fits hfits (index_add_lt m (by omega)) _

theorem execute_storeDecimal (h : Poised m) (x : Register) :
    execute m (.storeDecimal x) = some (m.execute (.storeDecimal x)) := by
  have hsize : (decimalDigits (m.registers.read x)).size = 3 := rfl
  by_cases hfits : Memory.Fits m.index.toNat 3
  · have hle := hfits.resolve_left (by decide)
    simp only [execute, Machine.execute, within_of_le hle, register_val,
      copyToMemory_of_size _ hle hsize, Memory.write_of_fits _ (hsize ▸ hfits),
      Option.bind_eq_bind, Option.bind_some]
    exact done_eq h _ _ _ rfl
  · simp only [execute, Machine.execute, Memory.write_of_not_fits _ (hsize ▸ hfits)]
    exact within_of_not_fits hfits (index_add_lt m (by decide)) _

theorem execute_store (h : Poised m) (x : Register) :
    execute m (.store x) = some (m.execute (.store x)) := by
  have hx := x.isLt
  have hsize := m.registers.size_upTo x
  have hadd : add x.val 1 = some (x.val + 1) := add_of_lt (by simp only [wordLimit]; omega)
  by_cases hfits : Memory.Fits m.index.toNat (x.val + 1)
  · have hle := hfits.resolve_left (Nat.succ_ne_zero x.val)
    have hslice : slice m.registers.toArray 0 (x.val + 1) = some (m.registers.upTo x) :=
      slice_of_le (Nat.zero_le _) (by rw [Vector.size_toArray]; omega)
    simp only [execute, Machine.execute, hadd, within_of_le hle, hslice,
      copyToMemory_of_size _ hle hsize, Memory.write_of_fits _ (hsize ▸ hfits),
      Option.bind_eq_bind, Option.bind_some]
    exact done_eq h _ _ _ rfl
  · simp only [execute, Machine.execute, hadd, Memory.write_of_not_fits _ (hsize ▸ hfits),
      Option.bind_eq_bind, Option.bind_some, hsize]
    exact within_of_not_fits hfits (index_add_lt m (by omega)) _

theorem execute_load (h : Poised m) (x : Register) :
    execute m (.load x) = some (m.execute (.load x)) := by
  have hx := x.isLt
  have hadd : add x.val 1 = some (x.val + 1) := add_of_lt (by simp only [wordLimit]; omega)
  by_cases hfits : Memory.Fits m.index.toNat (x.val + 1)
  · have hle := hfits.resolve_left (Nat.succ_ne_zero x.val)
    simp only [execute, Machine.execute, hadd, within_of_le hle, slice_of_fits _ hfits hle,
      copyToRegisters_of_size m.registers (Nat.succ_le_of_lt hx) (Vector.size_toArray _),
      Memory.read_of_fits _ hfits, Option.bind_eq_bind, Option.bind_some]
    exact done_eq h _ _ _ rfl
  · simp only [execute, Machine.execute, hadd, Memory.read_of_not_fits _ hfits,
      Option.bind_eq_bind, Option.bind_some]
    exact within_of_not_fits hfits (index_add_lt m (by omega)) _

/-- The check for a full stack leaves room for the push. -/
theorem execute_call (h : Poised m) (a : Address) :
    execute m (.call a) = some (m.execute (.call a)) := by
  have hlength := h.stack_length
  by_cases hfull : m.stack.length = stackSize
  · rw [execute, Machine.execute, if_pos hfull, if_neg (by omega)]
  · have hroom : m.stack.length < stackSize := by omega
    rw [execute, Machine.execute, if_neg hfull, if_pos hroom, push_of_lt hroom]
    exact done_eq h { m with stack := m.pc :: m.stack } (.jump a.val) .quiet rfl

theorem execute_pointGlyph (h : Poised m) (x : Register) :
    execute m (.pointGlyph x) = some (m.execute (.pointGlyph x)) := by
  have hv := (m.registers.read x).toNat_lt
  have hmul : Font.glyphSize * (m.registers.read x).toNat < wordLimit := by
    simp only [Font.glyphSize, wordLimit]; omega
  have hadd : Font.start + Font.glyphSize * (m.registers.read x).toNat < wordLimit := by
    simp only [Font.start, Font.glyphSize, wordLimit]; omega
  simp only [execute, Machine.execute, register_val, mul_of_lt hmul, add_of_lt hadd,
    Option.bind_eq_bind, Option.bind_some]
  exact done_eq h _ _ _ rfl

theorem execute_jumpPlus (h : Poised m) (a : Address) :
    execute m (.jumpPlus a) = some (m.execute (.jumpPlus a)) := by
  have ha := a.isLt
  have hv := (m.registers.read Registers.v0).toNat_lt
  have hsum : a.val + (m.registers.read Registers.v0).toNat < wordLimit := by
    simp only [wordLimit]; omega
  simp only [execute, Machine.execute, register_zero, add_of_lt hsum, Option.bind_eq_bind,
    Option.bind_some]
  exact done_eq h _ _ _ rfl

/-- **Every operation of an instruction has a result** behind an opcode that was fetched. -/
theorem execute_eq (h : Poised m) (i : Instruction) : execute m i = some (m.execute i) := by
  cases i with
  | draw x y rows => exact execute_draw h x y rows
  | storeDecimal x => exact execute_storeDecimal h x
  | store x => exact execute_store h x
  | load x => exact execute_load h x
  | call a => exact execute_call h a
  | pointGlyph x => exact execute_pointGlyph h x
  | jumpPlus a => exact execute_jumpPlus h a
  | ret =>
    cases hs : m.stack with
    | nil => simp only [execute, Machine.execute, hs]
    | cons p rest =>
      simp only [execute, Machine.execute, hs]
      exact done_eq h _ _ _ rfl
  | skip c =>
    simp only [execute, Machine.execute, holds_eq, Option.bind_eq_bind, Option.bind_some]
    exact done_eq h _ _ _ rfl
  | waitKey x =>
    cases hk : lowestDown m.keys with
    | none =>
      simp only [execute, Machine.execute, hk]
      exact done_eq h _ _ _ rfl
    | some k =>
      simp only [execute, Machine.execute, hk, setRegister_val, Option.bind_eq_bind,
        Option.bind_some]
      exact done_eq h _ _ _ rfl
  | alu op x y =>
    simp only [execute, Machine.execute, operate_eq, Option.bind_eq_bind, Option.bind_some]
    exact done_eq h _ _ _ rfl
  | _ =>
    simp only [execute, Machine.execute, register_val, setRegister_val, Option.bind_eq_bind,
      Option.bind_some]
    exact done_eq h _ _ _ rfl

/-- An over full stack passes for one with room, and then there is none. -/
example : execute { Machine.powerOn Keypad.released .plain (.repeating #[]) with
    stack := List.replicate 17 0x202 } (.call 0x204) = none := rfl

end Chip8.Guarded
