/-
  Where a cycle leads, and what it reports.

  Both are told by the digits of the fetched opcode, as a reader of the machine's manual would look
  them up, and by the state BEFORE the cycle: its program counter, its registers, its stack and its
  keys.  No instruction is mentioned, nor the detour by which the program counter gets there: it is
  moved behind the opcode before anything is executed, and then on, back or away from there.

  1. **Two conditions** — `Skips` says that the opcode is one of the six skips and that its condition
     holds.  `Stalls` says that it waits for a key and none is down.

  2. **Two tables** — `Leads` says where the program counter is after a success, line by line, and
     `Reports` which signal there is, with one equivalence for each.

  3. **The law** — a successful cycle keeps both tables, and a failing one leads nowhere
     (`control_flow`).  A word without an instruction is a success like others here.

  The digits are matched with the instruction in one direction only: whoever has the digits has the
  opcode of an instruction, and an opcode is decoded in one way (`Instruction.eq_of_encode`).
-/
import Chip8.Proofs.Failure
import Chip8.Proofs.Frame

namespace Chip8

namespace Machine

variable {K : Type} [KeySource K]

/-! ## Two conditions -/

/-- The byte names one of the sixteen keys, and this key is down. -/
def NamesHeldKey (m : Machine K) (b : UInt8) : Prop :=
  b.toNat < 16 ∧ KeySource.isDown m.keys b.toNat = true

/-- **The opcode is a skip and its condition holds.** -/
inductive Skips (m : Machine K) (o : Opcode) : Prop
  | isByte (hfamily : o.family = 0x3) (h : m.registers.read o.x = o.low)
  | notByte (hfamily : o.family = 0x4) (h : m.registers.read o.x ≠ o.low)
  | same (hfamily : o.family = 0x5) (hn : o.n = 0)
      (h : m.registers.read o.x = m.registers.read o.y)
  | differ (hfamily : o.family = 0x9) (hn : o.n = 0)
      (h : m.registers.read o.x ≠ m.registers.read o.y)
  | keyDown (hfamily : o.family = 0xE) (hlow : o.low = 0x9E)
      (h : m.NamesHeldKey (m.registers.read o.x))
  | keyUp (hfamily : o.family = 0xE) (hlow : o.low = 0xA1)
      (h : ¬ m.NamesHeldKey (m.registers.read o.x))

/-- **The opcode waits for a key and none of the sixteen is down.** -/
structure Stalls (m : Machine K) (o : Opcode) : Prop where
  family : o.family = 0xF
  low : o.low = 0x0A
  released : ∀ k, k < 16 → KeySource.isDown m.keys k = false

theorem holdsKey_iff {m : Machine K} {b : UInt8} : m.holdsKey b = true ↔ m.NamesHeldKey b := by
  rw [holdsKey, Bool.and_eq_true, decide_eq_true_iff]
  exact Iff.rfl

/-- The six cases of `Skips` are the six conditions. -/
theorem skips_iff {m : Machine K} {o : Opcode} :
    m.Skips o ↔ ∃ c : Condition, (Instruction.skip c).encode = o ∧ m.holds c = true := by
  constructor
  · intro h
    cases h with
    | isByte hf h => exact ⟨.isByte o.x o.low, Opcode.ofByte_eq_iff.2 ⟨hf, rfl, rfl⟩, beq_iff_eq.2 h⟩
    | notByte hf h =>
      exact ⟨.notByte o.x o.low, Opcode.ofByte_eq_iff.2 ⟨hf, rfl, rfl⟩, bne_iff_ne.2 h⟩
    | same hf hn h => exact ⟨.same o.x o.y, Opcode.ofPair_eq_iff.2 ⟨hf, rfl, rfl, hn⟩, beq_iff_eq.2 h⟩
    | differ hf hn h =>
      exact ⟨.differ o.x o.y, Opcode.ofPair_eq_iff.2 ⟨hf, rfl, rfl, hn⟩, bne_iff_ne.2 h⟩
    | keyDown hf hl h => exact ⟨.keyDown o.x, Opcode.ofByte_eq_iff.2 ⟨hf, rfl, hl⟩, holdsKey_iff.2 h⟩
    | keyUp hf hl h =>
      refine ⟨.keyUp o.x, Opcode.ofByte_eq_iff.2 ⟨hf, rfl, hl⟩, ?_⟩
      rw [← holdsKey_iff, Bool.not_eq_true] at h
      rw [holds, h]
      rfl
  · rintro ⟨c, henc, h⟩
    cases c with
    | isByte x b =>
      obtain ⟨hf, rfl, rfl⟩ := Opcode.ofByte_eq_iff.1 henc
      exact .isByte hf (beq_iff_eq.1 h)
    | notByte x b =>
      obtain ⟨hf, rfl, rfl⟩ := Opcode.ofByte_eq_iff.1 henc
      exact .notByte hf (bne_iff_ne.1 h)
    | same x y =>
      obtain ⟨hf, rfl, rfl, hn⟩ := Opcode.ofPair_eq_iff.1 henc
      exact .same hf hn (beq_iff_eq.1 h)
    | differ x y =>
      obtain ⟨hf, rfl, rfl, hn⟩ := Opcode.ofPair_eq_iff.1 henc
      exact .differ hf hn (bne_iff_ne.1 h)
    | keyDown x =>
      obtain ⟨hf, rfl, hl⟩ := Opcode.ofByte_eq_iff.1 henc
      exact .keyDown hf hl (holdsKey_iff.1 h)
    | keyUp x =>
      obtain ⟨hf, rfl, hl⟩ := Opcode.ofByte_eq_iff.1 henc
      have hnot : ¬ m.NamesHeldKey (m.registers.read o.x) := by
        rw [← holdsKey_iff, Bool.not_eq_true]
        exact Bool.not_eq_eq_eq_not.1 h
      exact .keyUp hf hl hnot

theorem stalls_iff {m : Machine K} {o : Opcode} :
    m.Stalls o ↔ ∃ x, (Instruction.waitKey x).encode = o ∧ lowestDown m.keys = none := by
  constructor
  · rintro ⟨hf, hl, hkeys⟩
    refine ⟨o.x, Opcode.ofByte_eq_iff.2 ⟨hf, rfl, hl⟩, ?_⟩
    rw [lowestDown_eq_none_iff]
    intro k
    exact hkeys k.val k.isLt
  · rintro ⟨x, henc, hkeys⟩
    obtain ⟨hf, -, hl⟩ := Opcode.ofByte_eq_iff.1 henc
    rw [lowestDown_eq_none_iff] at hkeys
    exact ⟨hf, hl, fun k hk => hkeys ⟨k, hk⟩⟩

/-! ## Two tables -/

/-- **Where a successful cycle leads** that fetched `o`: the program counter is `pc` after it. -/
structure Leads (m : Machine K) (o : Opcode) (pc : Nat) : Prop where
  back : o = 0x00EE → ∃ rest, m.stack = pc :: rest
  away : o.family = 0x1 ∨ o.family = 0x2 → pc = o.address.val
  beyond : o.family = 0xB → pc = o.address.val + (m.registers.read Registers.v0).toNat
  skip : m.Skips o → pc = m.pc + 4
  stall : m.Stalls o → pc = m.pc
  on : o ≠ 0x00EE → o.family ≠ 0x1 → o.family ≠ 0x2 → o.family ≠ 0xB → ¬ m.Skips o → ¬ m.Stalls o →
    pc = m.pc + 2

/-- **What a successful cycle reports** that fetched `o`. -/
structure Reports (m : Machine K) (o : Opcode) (s : Signal) : Prop where
  drawn : s = .drawn ↔ o = 0x00E0 ∨ o.family = 0xD
  waiting : s = .waiting ↔ m.Stalls o
  unknown : ∀ w, s = .unknown w ↔ w = o ∧ ¬ ∃ i : Instruction, i.encode = o
  quiet : s = .quiet ↔
    ¬ (o = 0x00E0 ∨ o.family = 0xD) ∧ ¬ m.Stalls o ∧ ∃ i : Instruction, i.encode = o

/-! ## No instruction -/

/-- A word without an instruction is passed over: each other line of the table would make it the
    opcode of one. -/
theorem leads_of_no_instruction (m : Machine K) {o : Opcode}
    (hnone : ¬ ∃ i : Instruction, i.encode = o) : m.Leads o (m.pc + 2) where
  back ho := absurd ⟨.ret, ho.symm⟩ hnone
  away hf := by
    rcases hf with hf | hf
    · exact absurd ⟨.jump o.address, Opcode.ofAddress_eq_iff.2 ⟨hf, rfl⟩⟩ hnone
    · exact absurd ⟨.call o.address, Opcode.ofAddress_eq_iff.2 ⟨hf, rfl⟩⟩ hnone
  beyond hf := absurd ⟨.jumpPlus o.address, Opcode.ofAddress_eq_iff.2 ⟨hf, rfl⟩⟩ hnone
  skip h := by
    obtain ⟨c, henc, -⟩ := skips_iff.1 h
    exact absurd ⟨.skip c, henc⟩ hnone
  stall h := by
    obtain ⟨x, henc, -⟩ := stalls_iff.1 h
    exact absurd ⟨.waitKey x, henc⟩ hnone
  on _ _ _ _ _ _ := rfl

/-- The opcodes that draw. -/
theorem draws_iff {o : Opcode} :
    o = 0x00E0 ∨ o.family = 0xD ↔
      Instruction.clear.encode = o ∨ ∃ x y rows, (Instruction.draw x y rows).encode = o := by
  constructor
  · rintro (rfl | hf)
    · exact Or.inl rfl
    · exact Or.inr ⟨o.x, o.y, o.n, Opcode.ofPair_eq_iff.2 ⟨hf, rfl, rfl, rfl⟩⟩
  · rintro (rfl | ⟨x, y, rows, henc⟩)
    · exact Or.inl rfl
    · exact Or.inr (Opcode.ofPair_eq_iff.1 henc).1

/-- And it is reported as unknown. -/
theorem reports_of_no_instruction (m : Machine K) {o : Opcode}
    (hnone : ¬ ∃ i : Instruction, i.encode = o) : m.Reports o (.unknown o) := by
  have hdraw : ¬ (o = 0x00E0 ∨ o.family = 0xD) := by
    rw [draws_iff]
    rintro (henc | ⟨x, y, rows, henc⟩)
    · exact hnone ⟨_, henc⟩
    · exact hnone ⟨_, henc⟩
  have hstall : ¬ m.Stalls o := by
    rw [stalls_iff]
    rintro ⟨x, henc, -⟩
    exact hnone ⟨_, henc⟩
  refine ⟨?_, ?_, ?_, ?_⟩
  · simp only [reduceCtorEq, hdraw]
  · simp only [reduceCtorEq, hstall]
  · intro w
    rw [and_iff_left hnone, Signal.unknown.injEq]
    exact eq_comm
  · simp only [reduceCtorEq, hnone, and_false]

/-! ## An instruction that runs -/

/-- **Its flow leads where the table says.**  Behind the digits of a line stands one instruction, and
    its flow is known; what is on no line goes on. -/
theorem leads_of_flow {m : Machine K} {o : Opcode} {i : Instruction}
    (hdecode : Instruction.decode o = .ok i) (hfault : m.fault? i = none) :
    m.Leads o ((m.flow i).target (m.pc + 2)) where
  back ho := by
    obtain rfl := Instruction.eq_of_encode (j := .ret) hdecode ho.symm
    rw [fault?] at hfault
    cases hs : m.stack with
    | nil => rw [hs] at hfault; cases hfault
    | cons p rest => exact ⟨rest, by rw [flow, hs]; rfl⟩
  away hf := by
    rcases hf with hf | hf
    · obtain rfl := Instruction.eq_of_encode (j := .jump o.address) hdecode
        (Opcode.ofAddress_eq_iff.2 ⟨hf, rfl⟩)
      rfl
    · obtain rfl := Instruction.eq_of_encode (j := .call o.address) hdecode
        (Opcode.ofAddress_eq_iff.2 ⟨hf, rfl⟩)
      rfl
  beyond hf := by
    obtain rfl := Instruction.eq_of_encode (j := .jumpPlus o.address) hdecode
      (Opcode.ofAddress_eq_iff.2 ⟨hf, rfl⟩)
    rfl
  skip h := by
    obtain ⟨c, henc, hc⟩ := skips_iff.1 h
    obtain rfl := Instruction.eq_of_encode hdecode henc
    rw [flow, hc]
    rfl
  stall h := by
    obtain ⟨x, henc, hkeys⟩ := stalls_iff.1 h
    obtain rfl := Instruction.eq_of_encode hdecode henc
    rw [flow, hkeys]
    rfl
  on hret hjump hcall hplus hskip hstall := by
    have henc := Instruction.encode_of_decode hdecode
    cases i with
    | ret => exact absurd henc.symm hret
    | jump a => exact absurd (Opcode.ofAddress_eq_iff.1 henc).1 hjump
    | call a => exact absurd (Opcode.ofAddress_eq_iff.1 henc).1 hcall
    | jumpPlus a => exact absurd (Opcode.ofAddress_eq_iff.1 henc).1 hplus
    | skip c =>
      cases hc : m.holds c with
      | false => rw [flow, hc]; rfl
      | true => exact absurd (skips_iff.2 ⟨c, henc, hc⟩) hskip
    | waitKey x =>
      cases hkeys : lowestDown m.keys with
      | none => exact absurd (stalls_iff.2 ⟨x, henc, hkeys⟩) hstall
      | some k => rw [flow, hkeys]; rfl
    | _ => rfl

/-- The instructions that report a drawing. -/
theorem report_eq_drawn_iff {m : Machine K} {i : Instruction} :
    m.report i = .drawn ↔ i = .clear ∨ ∃ x y rows, i = .draw x y rows := by
  constructor
  · intro h
    cases i with
    | clear => exact Or.inl rfl
    | draw x y rows => exact Or.inr ⟨x, y, rows, rfl⟩
    | waitKey x => rw [report] at h; split at h <;> cases h
    | _ => cases h
  · rintro (rfl | ⟨x, y, rows, rfl⟩)
    · rfl
    · rfl

/-- And those that report a wait. -/
theorem report_eq_waiting_iff {m : Machine K} {i : Instruction} :
    m.report i = .waiting ↔ ∃ x, i = .waitKey x ∧ lowestDown m.keys = none := by
  constructor
  · intro h
    cases i with
    | waitKey x =>
      cases hkeys : lowestDown m.keys with
      | none => exact ⟨x, rfl, rfl⟩
      | some k => rw [report, hkeys] at h; cases h
    | _ => cases h
  · rintro ⟨x, rfl, hkeys⟩
    rw [report, hkeys]
    rfl

/-- No instruction reports an unknown word. -/
theorem report_ne_unknown (m : Machine K) (i : Instruction) (w : Opcode) :
    m.report i ≠ .unknown w := by
  cases i with
  | waitKey x => rw [report]; split <;> exact Signal.noConfusion
  | _ => exact Signal.noConfusion

/-- **It reports what the table says.** -/
theorem reports_of_report {m : Machine K} {o : Opcode} {i : Instruction}
    (hdecode : Instruction.decode o = .ok i) : m.Reports o (m.report i) := by
  have henc : ∀ j : Instruction, j.encode = o ↔ i = j := by
    intro j
    constructor
    · intro h; exact (Instruction.eq_of_encode hdecode h).symm
    · rintro rfl; exact Instruction.encode_of_decode hdecode
  have hdrawn : m.report i = .drawn ↔ o = 0x00E0 ∨ o.family = 0xD := by
    rw [report_eq_drawn_iff, draws_iff]
    simp only [henc]
  have hwaiting : m.report i = .waiting ↔ m.Stalls o := by
    rw [report_eq_waiting_iff, stalls_iff]
    simp only [henc]
  have hsome : ∃ j : Instruction, j.encode = o := ⟨i, (henc i).2 rfl⟩
  refine ⟨hdrawn, hwaiting, ?_, ?_⟩
  · intro w
    simp only [m.report_ne_unknown i w, hsome, not_true_eq_false, and_false]
  · rw [← hdrawn, ← hwaiting]
    -- a signal that is none of the other three
    cases hs : m.report i with
    | unknown w => exact absurd hs (m.report_ne_unknown i w)
    | _ => simp only [reduceCtorEq, not_false_eq_true, not_true_eq_false, true_and, and_self,
        false_and, hsome]

/-! ## The law -/

/-- **The control-flow law.**  Of a cycle that fetched an opcode: if it fails, the program counter is
    where it was; if it succeeds, the program counter is where the table of `Leads` says, and the
    signal is the one that the table of `Reports` says. -/
theorem control_flow (m : Machine K) (o : Opcode) (hfetch : m.fetch = .ok o) :
    (∀ f, m.cycle.result = .error f → m.cycle.state.pc = m.pc) ∧
    (∀ s, m.cycle.result = .ok s → m.Leads o m.cycle.state.pc ∧ m.Reports o s) := by
  constructor
  · intro f hf
    rw [cycle_state_of_error hfetch hf]
  · intro s hs
    cases m.course with
    | unfetched f hfetch' hcycle => rw [hcycle] at hs; cases hs
    | faulted o' i f hfetch' hdecode hfault hcycle => rw [hcycle] at hs; cases hs
    | unknown o' f hfetch' hdecode hcycle =>
      rw [hfetch] at hfetch'
      cases hfetch'
      have hnone := (Instruction.decode_eq_error_iff.1 hdecode).2
      rw [hcycle] at hs ⊢
      cases hs
      exact ⟨m.leads_of_no_instruction hnone, m.reports_of_no_instruction hnone⟩
    | executed o' i hfetch' hdecode hfault hcycle =>
      rw [hfetch] at hfetch'
      cases hfetch'
      have hpc : m.cycle.state.pc = (m.flow i).target (m.pc + 2) := by
        rw [hcycle]
        show (m.flow i).target ((m.begin o).effect i).pc = (m.flow i).target (m.pc + 2)
        rw [pc_effect]
        rfl
      rw [hcycle] at hs
      cases hs
      rw [hpc]
      exact ⟨leads_of_flow hdecode hfault, reports_of_report hdecode⟩

/-- `EX9E` with the key down that `V0` names: the next opcode is passed over. -/
theorem control_flow_of_key_skip :
    let m := ((powerOn (Keypad.released.set 0 true) .plain (.repeating #[])).load
      #[0xE0, 0x9E]).state
    m.fetch = .ok 0xE09E ∧ m.Skips 0xE09E ∧ m.cycle.result = .ok .quiet ∧
      m.cycle.state.pc = 0x204 := by
  intro m
  have hfetch : m.fetch = .ok 0xE09E :=
    fetch_of_overlay (p := #[0xE0, 0x9E]) (k := 0) rfl (by decide) rfl (by decide)
  have hcycle := cycle_of_no_fault hfetch (i := .skip (.keyDown 0)) rfl rfl
  have hresult : m.cycle.result = .ok .quiet := by rw [hcycle]; rfl
  have hskip : m.Skips 0xE09E := skips_iff.2 ⟨.keyDown 0, rfl, rfl⟩
  obtain ⟨hleads, -⟩ := (control_flow m 0xE09E hfetch).2 .quiet hresult
  exact ⟨hfetch, hskip, hresult, hleads.skip hskip⟩

end Machine

end Chip8
