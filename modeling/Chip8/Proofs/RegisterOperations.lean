/-
  What the register operations compute.

  The operations are defined on bytes, by the operations that bytes have.  Here they are told as
  sums of whole numbers, which know nothing of wrapping: what does not fit into the result goes into
  the flag, and the two together make up for it.

  1. **Numbers** — `AluOp.Balances` says for each operation how its result and its flag answer to
     the operands.  An addition, for one, is right if `256 * flag + result` is the sum.  A
     subtraction keeps its result modulo 256 and has a flag that says whether the difference was
     positive.

  2. **Registers** — the flag is written before the result.  So where both go to the flag register,
     it is the RESULT that is found there, and where an operand comes from the flag register, it is
     read before anything is written.

  3. **The law** — whatever the registers and whatever the dialect, an operation leaves its result
     in `VX` and, if it has a flag, this in `VF`; nothing else changes (`register_operation`).
-/
import Chip8.Proofs.FrameLaw

namespace Chip8

/-! ## Numbers -/

namespace AluOp

/-- **How the books of an operation balance**: `a` and `b` are the operands, `s` is the byte to
    shift, `r` is the result and `f` the flag. -/
def Balances (op : AluOp) (a b s r f : Nat) : Prop :=
  match op with
  | copy => r = b
  | or => r = a ||| b
  | and => r = a &&& b
  | xor => r = a ^^^ b
  | add => 256 * f + r = a + b
  | sub => (r : Int) = ((a : Int) - b) % 256 ∧ (f = 1 ↔ b < a)
  | shiftRight => s = 2 * r + f
  | subReversed => (r : Int) = ((b : Int) - a) % 256 ∧ (f = 1 ↔ a < b)
  | shiftLeft => 2 * s = 256 * f + r

/-- The flag of an operation as a number; zero for the operations that have none. -/
def flagNumber (op : AluOp) (a b s : UInt8) : Nat := ((op.flag? a b s).getD 0).toNat

theorem toNat_flagByte (p : Bool) : (flagByte p).toNat = p.toNat := by
  cases p <;> rfl

/-- A byte that is shifted right loses its last bit. -/
theorem toNat_shiftRight_one (s : UInt8) : (s >>> 1).toNat = s.toNat / 2 := by
  rw [UInt8.toNat_shiftRight, Nat.shiftRight_eq_div_pow]
  rfl

/-- A byte that is shifted left loses its first bit. -/
theorem toNat_shiftLeft_one (s : UInt8) : (s <<< 1).toNat = 2 * s.toNat % 256 := by
  rw [UInt8.toNat_shiftLeft, Nat.shiftLeft_eq, Nat.mul_comm]
  rfl

/-- That bit is what is left of the byte when it is shifted right by seven. -/
theorem toNat_shiftRight_seven (s : UInt8) : (s >>> 7).toNat = s.toNat / 128 := by
  rw [UInt8.toNat_shiftRight, Nat.shiftRight_eq_div_pow]
  rfl

/-- A difference wraps. -/
theorem toNat_sub_eq_emod (a b : UInt8) :
    ((a - b).toNat : Int) = ((a.toNat : Int) - b.toNat) % 256 := by
  have hb := b.toNat_lt
  rw [UInt8.toNat_sub]
  omega

/-- The flag of a comparison is set if the comparison holds. -/
theorem flagByte_lt_eq_one_iff (a b : UInt8) :
    (flagByte (decide (a < b))).toNat = 1 ↔ a.toNat < b.toNat := by
  rw [toNat_flagByte, Bool.toNat_eq_one, decide_eq_true_iff]
  exact UInt8.lt_iff_toNat_lt

/-- **The books balance**, whatever the three bytes are. -/
theorem balances (op : AluOp) (a b s : UInt8) :
    op.Balances a.toNat b.toNat s.toNat (op.result a b s).toNat (op.flagNumber a b s) := by
  have ha := a.toNat_lt
  have hb := b.toNat_lt
  have hs := s.toNat_lt
  cases op with
  | copy => rfl
  | or => exact UInt8.toNat_or a b
  | and => exact UInt8.toNat_and a b
  | xor => exact UInt8.toNat_xor a b
  | add =>
    show 256 * (flagByte (decide (256 ≤ a.toNat + b.toNat))).toNat + (a + b).toNat =
      a.toNat + b.toNat
    rw [toNat_flagByte, UInt8.toNat_add]
    by_cases hcarry : 256 ≤ a.toNat + b.toNat
    · rw [decide_eq_true hcarry, Bool.toNat_true]
      omega
    · rw [decide_eq_false hcarry, Bool.toNat_false]
      omega
  | sub => exact ⟨toNat_sub_eq_emod a b, flagByte_lt_eq_one_iff b a⟩
  | subReversed => exact ⟨toNat_sub_eq_emod b a, flagByte_lt_eq_one_iff a b⟩
  | shiftRight =>
    have hlast : (s &&& 1).toNat = s.toNat % 2 := (UInt8.toNat_and s 1).trans (Nat.and_one_is_mod _)
    show s.toNat = 2 * (s >>> 1).toNat + (s &&& 1).toNat
    rw [toNat_shiftRight_one, hlast]
    omega
  | shiftLeft =>
    show 2 * s.toNat = 256 * (s >>> 7).toNat + (s <<< 1).toNat
    rw [toNat_shiftLeft_one, toNat_shiftRight_seven]
    omega

/-- A flag is one bit. -/
theorem flagNumber_le_one (op : AluOp) (a b s : UInt8) : op.flagNumber a b s ≤ 1 := by
  have hs := s.toNat_lt
  have hflag : ∀ p, (flagByte p).toNat ≤ 1 := by
    intro p
    rw [toNat_flagByte]
    exact Bool.toNat_le p
  cases op with
  | copy | or | and | xor => exact Nat.zero_le 1
  | add | sub | subReversed => exact hflag _
  | shiftRight =>
    show (s &&& 1).toNat ≤ 1
    rw [UInt8.toNat_and]
    exact Nat.and_le_right
  | shiftLeft =>
    show (s >>> 7).toNat ≤ 1
    rw [toNat_shiftRight_seven]
    omega

/-- The operations that report a flag have one. -/
theorem flag?_of_flags {op : AluOp} (h : op.Flags) (a b s : UInt8) :
    ∃ f, op.flag? a b s = some f ∧ f.toNat = op.flagNumber a b s := by
  cases op with
  | copy | or | and | xor => exact absurd h id
  | _ => exact ⟨_, rfl, rfl⟩

end AluOp

/-! ## Registers -/

namespace Machine

variable {K : Type}

/-- The byte that an operation on `VX` and `VY` shifts. -/
def shiftByte (m : Machine K) (x y : Register) : UInt8 :=
  m.dialect.shifted (m.registers.read x) (m.registers.read y)

/-- It comes from `VY` if the dialect says so, and from `VX` otherwise. -/
theorem toNat_shiftByte (m : Machine K) (x y : Register) :
    (m.shiftByte x y).toNat = if m.dialect.shiftSource = .vy then (m.registers.read y).toNat
      else (m.registers.read x).toNat := by
  rw [shiftByte, Dialect.shifted]
  cases m.dialect.shiftSource <;> rfl

/-- **The result is written last**, so it stays even where the flag goes to the same register. -/
theorem read_operate_self (m : Machine K) (op : AluOp) (x y : Register) :
    (m.operate op x y).read x =
      op.result (m.registers.read x) (m.registers.read y) (m.shiftByte x y) := by
  rw [operate, Registers.read_write, if_pos rfl]
  rfl

/-- Anywhere else the flag is seen. -/
theorem read_operate_flag (m : Machine K) {op : AluOp} {x : Register} (hop : op.Flags)
    (hx : x ≠ Registers.flag) (y : Register) :
    ((m.operate op x y).read Registers.flag).toNat =
      op.flagNumber (m.registers.read x) (m.registers.read y) (m.shiftByte x y) := by
  obtain ⟨f, hf, hnumber⟩ :=
    AluOp.flag?_of_flags hop (m.registers.read x) (m.registers.read y) (m.shiftByte x y)
  rw [← hnumber, operate, Registers.read_write, if_neg hx,
    show op.flag? _ _ (m.dialect.shifted _ _) = some f from hf, Registers.write?,
    Registers.read_write, if_pos rfl]

/-! ## The law -/

/-- **The law of register operations.**  An operation on `VX` and `VY` succeeds, and there is a byte
    `r` and a bit `f` for which its books balance, such that `VX` is left holding `r`.  If `X` is
    not `F` and the operation has a flag, then `VF` is left holding `f`.  All other registers are as
    they were, and so is the rest of the machine.  A cycle that fetches the opcode does this, and
    what every cycle does. -/
theorem register_operation [KeySource K] (m : Machine K) (op : AluOp) (x y : Register) :
    let a := (m.registers.read x).toNat
    let b := (m.registers.read y).toNat
    let s := if m.dialect.shiftSource = .vy then b else a
    let o := m.execute (.alu op x y)
    (∃ r f, r < 256 ∧ f ≤ 1 ∧ op.Balances a b s r f ∧
      (o.state.registers.read x).toNat = r ∧
      (x ≠ Registers.flag → op.Flags → (o.state.registers.read Registers.flag).toNat = f)) ∧
    (∀ z, z ≠ x → ¬ (op.Flags ∧ z = Registers.flag) →
      o.state.registers.read z = m.registers.read z) ∧
    o.result = .ok .quiet ∧
    o.state = { m with registers := o.state.registers } ∧
    ∀ w, m.fetch = .ok w → w.family = 0x8 ∧ w.x = x ∧ w.y = y ∧ w.n = op.digit →
      m.cycle = .ok { o.state with
        lastOpcode := w
        pc := m.pc + 2
        delay := m.delay.tick
        sound := m.sound.tick } .quiet := by
  intro a b s o
  have ho : o = .ok { m with registers := m.operate op x y } .quiet := rfl
  have hbooks := op.balances (m.registers.read x) (m.registers.read y) (m.shiftByte x y)
  rw [toNat_shiftByte] at hbooks
  rw [ho]
  refine ⟨⟨_, _, UInt8.toNat_lt _, op.flagNumber_le_one _ _ _, hbooks, ?_, ?_⟩, ?_, rfl, rfl, ?_⟩
  · exact congrArg UInt8.toNat (m.read_operate_self op x y)
  · intro hx hop
    exact m.read_operate_flag hop hx y
  · intro z hz hflag
    exact m.read_operate_of_not_writes (not_or.2 ⟨hz, hflag⟩)
  · intro w hfetch hfields
    have hdecode : Instruction.decode w = .ok (.alu op x y) :=
      Instruction.decode_eq_ok_iff.2 (Opcode.ofPair_eq_iff.2 hfields)
    exact cycle_of_no_fault hfetch hdecode rfl

/-- The flag register is the second operand: 200 and 100 are added, and the carry takes the place of
    the 100 that it came from. -/
theorem register_operation_of_carry :
    let program : Array UInt8 := #[0x81, 0xF4]
    let m : Machine Keypad :=
      { ((powerOn .released .plain (.repeating #[])).load program).state with
        registers := (Registers.zeros.write 1 200).write 0xF 100 }
    ((1 : Register) ≠ Registers.flag ∧ AluOp.add.Flags) ∧
    ((2 : Register) ≠ 1 ∧ ¬ (AluOp.add.Flags ∧ (2 : Register) = Registers.flag)) ∧
    m.fetch = .ok 0x81F4 ∧
    m.cycle.result = .ok .quiet ∧
    (m.cycle.state.registers.read 1).toNat = 44 ∧
    (m.cycle.state.registers.read 0xF).toNat = 1 ∧
    m.cycle.state.registers.read 2 = 0 := by
  intro program m
  have hfetch : m.fetch = .ok 0x81F4 :=
    fetch_of_overlay (p := program) (k := 0) rfl (by decide) rfl (by decide)
  have hx : (1 : Register) ≠ Registers.flag := by decide
  have hz : (2 : Register) ≠ 1 := by decide
  have hflag : ¬ (AluOp.add.Flags ∧ (2 : Register) = Registers.flag) :=
    fun h => absurd h.2 (by decide)
  obtain ⟨⟨r, f, hr, hf, hbooks, hresult, hcarry⟩, hothers, -, -, hcycle⟩ :=
    register_operation m .add 1 0xF
  have hsum : 256 * f + r = 200 + 100 := hbooks
  rw [hcycle 0x81F4 hfetch ⟨rfl, rfl, rfl, rfl⟩]
  refine ⟨⟨hx, trivial⟩, ⟨hz, hflag⟩, hfetch, rfl, ?_, ?_, hothers 2 hz hflag⟩
  · rw [show r = 44 by omega] at hresult
    exact hresult
  · rw [show f = 1 by omega] at hcarry
    exact hcarry hx trivial

end Machine

end Chip8
