/-
  When a cycle fails, and with which fault.

  `CycleFault m f` is the list of everything that can go wrong, told by the numbers that a reader of
  the machine's state sees: the program counter, the digits of the opcode that it points at, the
  depth of the stack and the index register.  It mentions no instruction and nothing that is
  computed on the way.

  1. **Nothing to fetch** — the program counter is past memory, or on its last byte.

  2. **No place on the stack** — a return with none behind it, a call with sixteen behind it.

  3. **No place in memory** — a sprite with rows, decimal digits, or registers that reach past the
     end.  The fault names the last byte that was wanted.  Drawing no rows wants none, wherever the
     index points.

  A cycle fails exactly if one of these is the case, and then with that fault (`cycle_error_iff`).
  So every other cycle succeeds, an opcode that is no instruction among them, and whatever place a
  fault names is a place outside memory (`cycle_fails_iff`).
-/
import Chip8.Proofs.Request

namespace Chip8

namespace Machine

variable {K : Type}

/-! ## The list -/

/-- **What goes wrong in a cycle**, and the fault it ends with. -/
inductive CycleFault (m : Machine K) : Fault → Prop
  /-- The program counter is past memory. -/
  | pastEnd (hpc : memorySize ≤ m.pc) : CycleFault m (.outOfBounds m.pc memorySize)
  /-- The program counter is on the last byte, so half of the opcode is missing. -/
  | lastByte (hpc : m.pc + 1 = memorySize) : CycleFault m (.outOfBounds memorySize memorySize)
  /-- `00EE` with nothing on the stack. -/
  | loneReturn (hfetch : m.fetch = .ok 0x00EE) (hstack : m.stack = []) : CycleFault m .stackEmpty
  /-- `2NNN` with a full stack. -/
  | deepCall (o : Opcode) (hfetch : m.fetch = .ok o) (hfamily : o.family = 0x2)
      (hstack : m.stack.length = stackSize) : CycleFault m .stackFull
  /-- `DXYN` with at least one row, and the last row past memory. -/
  | sprite (o : Opcode) (hfetch : m.fetch = .ok o) (hfamily : o.family = 0xD) (hrows : 1 ≤ o.n.val)
      (hout : memorySize < m.index.toNat + o.n.val) :
      CycleFault m (.outOfBounds (m.index.toNat + o.n.val - 1) memorySize)
  /-- `FX33` with the last digit past memory. -/
  | digits (o : Opcode) (hfetch : m.fetch = .ok o) (hfamily : o.family = 0xF) (hlow : o.low = 0x33)
      (hout : memorySize < m.index.toNat + 3) :
      CycleFault m (.outOfBounds (m.index.toNat + 2) memorySize)
  /-- `FX55` or `FX65` with the byte of `VX` past memory. -/
  | registers (o : Opcode) (hfetch : m.fetch = .ok o) (hfamily : o.family = 0xF)
      (hlow : o.low = 0x55 ∨ o.low = 0x65) (hout : memorySize < m.index.toNat + o.x.val + 1) :
      CycleFault m (.outOfBounds (m.index.toNat + o.x.val) memorySize)

/-- The faults of a cycle are those of the stack, and places outside memory. -/
theorem CycleFault.place {m : Machine K} {f : Fault} (h : m.CycleFault f) :
    f = .stackEmpty ∨ f = .stackFull ∨ ∃ p, memorySize ≤ p ∧ f = .outOfBounds p memorySize := by
  cases h with
  | loneReturn hfetch hempty => exact Or.inl rfl
  | deepCall o hfetch hfamily hfull => exact Or.inr (Or.inl rfl)
  | pastEnd hpc => exact Or.inr (Or.inr ⟨_, hpc, rfl⟩)
  | lastByte hpc => exact Or.inr (Or.inr ⟨_, Nat.le_refl _, rfl⟩)
  | sprite o hfetch hfamily hrows hout => exact Or.inr (Or.inr ⟨_, by omega, rfl⟩)
  | digits o hfetch hfamily hlow hout => exact Or.inr (Or.inr ⟨_, by omega, rfl⟩)
  | registers o hfetch hfamily hlow hout => exact Or.inr (Or.inr ⟨_, by omega, rfl⟩)

/-! ## What keeps an instruction from running -/

/-- A range that has bytes is refused if it ends past memory, under the name of its last byte. -/
theorem rangeFault?_eq_some_iff {start n : Nat} {f : Fault} (hn : 1 ≤ n) :
    rangeFault? start n = some f ↔
      memorySize < start + n ∧ f = .outOfBounds (start + n - 1) memorySize := by
  rcases Nat.lt_or_ge memorySize (start + n) with hlt | hge
  · have hnot : ¬ Memory.Fits start n := by
      rintro (h0 | hle)
      · omega
      · omega
    rw [rangeFault?_of_not_fits hnot, Memory.outside]
    constructor
    · intro h
      cases h
      exact ⟨hlt, rfl⟩
    · rintro ⟨-, rfl⟩
      rfl
  · rw [rangeFault?_of_fits (Or.inr hge)]
    constructor
    · intro h
      cases h
    · rintro ⟨hlt, -⟩
      omega

theorem fault?_draw_iff {m : Machine K} {x y : Register} {rows : Fin 16} {f : Fault} :
    m.fault? (.draw x y rows) = some f ↔
      1 ≤ rows.val ∧ memorySize < m.index.toNat + rows.val ∧
        f = .outOfBounds (m.index.toNat + rows.val - 1) memorySize := by
  rw [fault?]
  rcases Nat.eq_zero_or_pos rows.val with h0 | hpos
  · rw [h0, rangeFault?_of_fits (Or.inl rfl)]
    constructor
    · intro h
      cases h
    · rintro ⟨h, -⟩
      omega
  · rw [rangeFault?_eq_some_iff hpos]
    constructor
    · intro h
      exact ⟨hpos, h⟩
    · intro h
      exact h.2

theorem fault?_call_iff {m : Machine K} {a : Address} {f : Fault}
    (hstack : m.stack.length ≤ stackSize) :
    m.fault? (.call a) = some f ↔ m.stack.length = stackSize ∧ f = .stackFull := by
  rw [fault?]
  split
  · rename_i hroom
    constructor
    · intro h
      cases h
    · rintro ⟨hfull, -⟩
      omega
  · rename_i hfull
    constructor
    · intro h
      cases h
      exact ⟨by omega, rfl⟩
    · rintro ⟨-, rfl⟩
      rfl

/-! ## The cycle -/

/-- Fetching fails with the first place that is missing. -/
theorem fetch_eq_error_iff {m : Machine K} {f : Fault} :
    m.fetch = .error f ↔
      memorySize ≤ m.pc + 1 ∧ f = .outOfBounds (max m.pc memorySize) memorySize := by
  constructor
  · intro h
    rcases Nat.lt_or_ge (m.pc + 1) memorySize with hlt | hge
    · rw [fetch_of_lt hlt] at h
      cases h
    · rw [fetch_of_le hge] at h
      cases h
      exact ⟨hge, rfl⟩
  · rintro ⟨hge, rfl⟩
    exact fetch_of_le hge

variable [KeySource K]

/-- **A cycle fails in two ways**: there is nothing to fetch, or what was fetched cannot run. -/
theorem cycle_eq_error_iff {m : Machine K} {f : Fault} :
    m.cycle.result = .error f ↔
      m.fetch = .error f ∨ ∃ i : Instruction, m.fetch = .ok i.encode ∧ m.fault? i = some f := by
  constructor
  · intro h
    cases m.course with
    | unfetched g hfetch hcycle =>
      rw [hcycle] at h
      cases h
      exact Or.inl hfetch
    | unknown o g hfetch hdecode hcycle => rw [hcycle] at h; cases h
    | executed o i hfetch hdecode hfault hcycle => rw [hcycle] at h; cases h
    | faulted o i g hfetch hdecode hfault hcycle =>
      rw [hcycle] at h
      cases h
      exact Or.inr ⟨i, by rw [Instruction.encode_of_decode hdecode]; exact hfetch, hfault⟩
  · rintro (hfetch | ⟨i, hfetch, hfault⟩)
    · rw [cycle_of_fetch_error hfetch]
      rfl
    · rw [cycle_of_fault hfetch (Instruction.decode_encode i) hfault]
      rfl

/-- What goes wrong is on the list.  The case split follows the instruction: only six can be kept
    from running. -/
theorem cycleFault_of_error {m : Machine K} (hstack : m.stack.length ≤ stackSize) {f : Fault}
    (h : m.cycle.result = .error f) : m.CycleFault f := by
  rcases cycle_eq_error_iff.1 h with hnone | ⟨i, hfetch, hfault⟩
  · obtain ⟨hpc, rfl⟩ := fetch_eq_error_iff.1 hnone
    rcases Nat.lt_or_ge m.pc memorySize with hlt | hge
    · rw [Nat.max_eq_right (Nat.le_of_lt hlt)]
      exact .lastByte (Nat.le_antisymm hlt hpc)
    · rw [Nat.max_eq_left hge]
      exact .pastEnd hge
  · cases i with
    | ret =>
      rw [fault?] at hfault
      split at hfault
      · rename_i hempty
        cases hfault
        exact .loneReturn hfetch hempty
      · cases hfault
    | call a =>
      obtain ⟨hfull, rfl⟩ := (fault?_call_iff hstack).1 hfault
      exact .deepCall _ hfetch (Opcode.fields_ofAddress 0x2 a).1 hfull
    | draw x y rows =>
      obtain ⟨hrows, hout, rfl⟩ := fault?_draw_iff.1 hfault
      obtain ⟨hfamily, -, -, hn⟩ := Opcode.fields_ofPair 0xD x y rows
      rw [← hn] at hrows hout ⊢
      exact .sprite _ hfetch hfamily hrows hout
    | storeDecimal x =>
      obtain ⟨hout, rfl⟩ := (rangeFault?_eq_some_iff (by decide)).1 hfault
      obtain ⟨hfamily, -, hlow⟩ := Opcode.fields_ofByte 0xF x 0x33
      exact .digits _ hfetch hfamily hlow hout
    | store x =>
      obtain ⟨hout, rfl⟩ := (rangeFault?_eq_some_iff (Nat.le_add_left 1 x.val)).1 hfault
      obtain ⟨hfamily, hx, hlow⟩ := Opcode.fields_ofByte 0xF x 0x55
      rw [← hx] at hout ⊢
      exact .registers _ hfetch hfamily (Or.inl hlow) hout
    | load x =>
      obtain ⟨hout, rfl⟩ := (rangeFault?_eq_some_iff (Nat.le_add_left 1 x.val)).1 hfault
      obtain ⟨hfamily, hx, hlow⟩ := Opcode.fields_ofByte 0xF x 0x65
      rw [← hx] at hout ⊢
      exact .registers _ hfetch hfamily (Or.inr hlow) hout
    | _ => cases hfault

/-- What is on the list goes wrong. -/
theorem error_of_cycleFault {m : Machine K} {f : Fault} (h : m.CycleFault f) :
    m.cycle.result = .error f := by
  rw [cycle_eq_error_iff]
  cases h with
  | pastEnd hpc =>
    left
    rw [fetch_eq_error_iff, Nat.max_eq_left hpc]
    exact ⟨Nat.le_succ_of_le hpc, rfl⟩
  | lastByte hpc =>
    left
    rw [fetch_eq_error_iff, Nat.max_eq_right (by omega)]
    exact ⟨Nat.le_of_eq hpc.symm, rfl⟩
  | loneReturn hfetch hempty => exact Or.inr ⟨.ret, hfetch, if_pos hempty⟩
  | deepCall o hfetch hfamily hfull =>
    right
    have henc : (Instruction.call o.address).encode = o := Opcode.ofAddress_eq_iff.2 ⟨hfamily, rfl⟩
    refine ⟨.call o.address, by rw [henc]; exact hfetch, ?_⟩
    exact (fault?_call_iff (Nat.le_of_eq hfull)).2 ⟨hfull, rfl⟩
  | sprite o hfetch hfamily hrows hout =>
    right
    have henc : (Instruction.draw o.x o.y o.n).encode = o :=
      Opcode.ofPair_eq_iff.2 ⟨hfamily, rfl, rfl, rfl⟩
    refine ⟨.draw o.x o.y o.n, by rw [henc]; exact hfetch, ?_⟩
    exact fault?_draw_iff.2 ⟨hrows, hout, rfl⟩
  | digits o hfetch hfamily hlow hout =>
    right
    refine ⟨.storeDecimal o.x, ?_, (rangeFault?_eq_some_iff (by decide)).2 ⟨hout, rfl⟩⟩
    rw [Instruction.encode, Opcode.ofByte_eq_iff.2 ⟨hfamily, rfl, hlow⟩]
    exact hfetch
  | registers o hfetch hfamily hlow hout =>
    right
    have hfault := (rangeFault?_eq_some_iff (Nat.le_add_left 1 o.x.val)).2 ⟨hout, rfl⟩
    rcases hlow with hlow | hlow
    · refine ⟨.store o.x, ?_, hfault⟩
      rw [Instruction.encode, Opcode.ofByte_eq_iff.2 ⟨hfamily, rfl, hlow⟩]
      exact hfetch
    · refine ⟨.load o.x, ?_, hfault⟩
      rw [Instruction.encode, Opcode.ofByte_eq_iff.2 ⟨hfamily, rfl, hlow⟩]
      exact hfetch

/-- **The list is complete, and nothing on it goes well**: of any machine whose stack is not over
    full. -/
theorem cycle_error_iff {m : Machine K} (hstack : m.stack.length ≤ stackSize) {f : Fault} :
    m.cycle.result = .error f ↔ m.CycleFault f := by
  constructor
  · intro h
    exact cycleFault_of_error hstack h
  · intro h
    exact error_of_cycleFault h

/-- **When a cycle fails**, whatever was asked of the machine before.  It fails with a fault exactly
    if that is on the list.  It succeeds exactly if there is none on the list.  And there is no third
    way: it succeeds, or a stack fault or a place outside memory is reported. -/
theorem cycle_fails_iff (keys : K) (d : Dialect) (r : ByteStream) (qs : List (Request K)) :
    let m := (powerOn keys d r).afterAll qs
    (∀ f, m.cycle.result = .error f ↔ m.CycleFault f) ∧
    ((∃ s, m.cycle.result = .ok s) ↔ ¬ ∃ f, m.CycleFault f) ∧
    ((∃ s, m.cycle.result = .ok s) ∨ m.cycle.result = .error .stackEmpty ∨
      m.cycle.result = .error .stackFull ∨
      ∃ p, memorySize ≤ p ∧ m.cycle.result = .error (.outOfBounds p memorySize)) := by
  intro m
  have hstack : m.stack.length ≤ stackSize :=
    stack_length_afterAll (m := powerOn keys d r) (Nat.zero_le stackSize) qs
  refine ⟨fun f => cycle_error_iff hstack, ?_, ?_⟩
  · constructor
    · rintro ⟨s, hs⟩ ⟨f, hf⟩
      rw [error_of_cycleFault hf] at hs
      cases hs
    · intro hnone
      cases hres : m.cycle.result with
      | ok s => exact ⟨s, rfl⟩
      | error f => exact absurd ⟨f, cycleFault_of_error hstack hres⟩ hnone
  · cases hres : m.cycle.result with
    | ok s => exact Or.inl ⟨s, rfl⟩
    | error f =>
      right
      rcases (cycleFault_of_error hstack hres).place with rfl | rfl | ⟨p, hp, rfl⟩
      · exact Or.inl rfl
      · exact Or.inr (Or.inl rfl)
      · exact Or.inr (Or.inr ⟨p, hp, rfl⟩)

end Machine

end Chip8
