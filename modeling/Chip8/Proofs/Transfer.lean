/-
  Transfers: the instructions that carry bytes between registers and memory.

  Four instructions look at nothing but the registers, memory and the index, and change nothing
  else: `FX33` and `FX55` store, `FX65` loads, and `ANNN` says where.

  1. **Ranges** — with the range in memory, a store lays its bytes over it, and a load finds them
     there.  Behind both the index points at the next place, and it does not wrap on the way
     (`toNat_indexPast`).

  2. **Cycles** — since nothing else matters to a transfer, any machine with the same registers,
     memory and index that fetches it does the same in a cycle (`SameStore.cycle`), and so it is
     with several of them, fetched one after the other (`SameStore.cycles`).
-/
import Chip8.Proofs.SameWay

namespace Chip8

/-- The byte of each register up to `VX` is in its place. -/
theorem Registers.getElem?_upTo (r : Registers) {x z : Register} (h : z ≤ x) :
    (r.upTo x)[z.val]? = some (r.read z) := by
  have hz : z.val < (r.upTo x).size := by
    rw [size_upTo]
    exact Nat.lt_succ_of_le h
  rw [Array.getElem?_eq_getElem hz]
  simp [upTo, read]

/-- The instructions that look at registers, memory and the index only. -/
def Instruction.Transfers : Instruction → Prop
  | .setIndex _ | .storeDecimal _ | .store _ | .load _ => True
  | _ => False

namespace Machine

variable {K : Type}

/-! ## Ranges -/

section

variable {m : Machine K} {x : Register}

/-- **The index does not wrap** as long as it stays within memory, or just behind it. -/
theorem toNat_indexPast {n : Nat} (h : m.index.toNat + n ≤ 4096) :
    (m.indexPast n).toNat = m.index.toNat + n := by
  rw [indexPast, UInt16.toNat_add, UInt16.toNat_ofNat']
  omega

variable [KeySource K]

/-- The index can be set to any place that an opcode names. -/
theorem execute_setIndex {a : Address} {index : UInt16} (h : a.val = index.toNat) :
    m.execute (.setIndex a) = .ok { m with index := index } .quiet := by
  have hindex : UInt16.ofNat a.val = index := by rw [h, UInt16.ofNat_toNat]
  rw [← hindex]
  rfl

/-- **Digits are stored** where the index points. -/
theorem execute_storeDecimal_of_fits (h : m.index.toNat + 3 ≤ 4096) :
    m.execute (.storeDecimal x) = .ok { m with
      memory := m.memory.overlay m.index.toNat (decimalDigits (m.registers.read x)) } .quiet :=
  execute_of_no_fault (rangeFault?_of_fits (Or.inr h))

/-- **Registers are stored** where the index points, and it moves behind them. -/
theorem execute_store_of_fits (h : m.index.toNat + (x.val + 1) ≤ 4096) :
    m.execute (.store x) = .ok { m with
      memory := m.memory.overlay m.index.toNat (m.registers.upTo x)
      index := m.indexPast (x.val + 1) } .quiet :=
  execute_of_no_fault (rangeFault?_of_fits (Or.inr h))

/-- **Registers are loaded** from where the index points, and it moves behind them.  Those above
    `VX` stay. -/
theorem execute_load_of_fits (h : m.index.toNat + (x.val + 1) ≤ 4096) :
    ∃ r : Registers,
      m.execute (.load x) =
        .ok { m with registers := r, index := m.indexPast (x.val + 1) } .quiet ∧
      (∀ z, z ≤ x → m.memory[m.index.toNat + z.val]? = some (r.read z)) ∧
      ∀ z, x < z → r.read z = m.registers.read z := by
  have hfits : Memory.Fits m.index.toNat (x.val + 1) := Or.inr h
  refine ⟨m.registers.fill (m.memory.slice m.index.toNat (x.val + 1) hfits).toArray, ?_, ?_, ?_⟩
  · have hfault : m.fault? (.load x) = none := rangeFault?_of_fits hfits
    rw [execute_of_no_fault hfault, effect, Memory.read_of_fits m.memory hfits]
    rfl
  · intro z hz
    have hin : z.val < x.val + 1 := Nat.lt_succ_of_le hz
    have hplace : m.index.toNat + z.val < 4096 := by omega
    rw [Registers.read_fill, Array.getD_eq_getD_getElem?, Vector.getElem?_toArray,
      Vector.getElem?_eq_getElem hin, Memory.getElem_slice m.memory hfits _ hin hplace,
      Vector.getElem?_eq_getElem hplace]
    rfl
  · intro z hz
    have hout : (m.memory.slice m.index.toNat (x.val + 1) hfits).toArray.size ≤ z.val := by
      rw [Vector.size_toArray]
      exact hz
    rw [Registers.read_fill, Array.getD_eq_getD_getElem?, Array.getElem?_eq_none hout]
    rfl

end

/-! ## Cycles -/

/-- The two machines agree on all that transfers look at or change. -/
structure SameStore (m m' : Machine K) : Prop where
  registers : m'.registers = m.registers
  memory : m'.memory = m.memory
  index : m'.index = m.index

theorem SameStore.refl (m : Machine K) : m.SameStore m := ⟨rfl, rfl, rfl⟩

/-- A transfer is kept from running on both or on neither. -/
theorem SameStore.fault?_eq {m m' : Machine K} (h : m.SameStore m') {i : Instruction}
    (hi : i.Transfers) : m'.fault? i = m.fault? i := by
  cases i with
  | setIndex a => rfl
  | storeDecimal x | store x | load x => simp only [fault?, h.index]
  | _ => exact absurd hi id

/-- The two bytes that the program counter points at are fetched. -/
theorem fetch_of_bytes {m : Machine K} {hi lo : UInt8} (hhi : m.memory[m.pc]? = some hi)
    (hlo : m.memory[m.pc + 1]? = some lo) : m.fetch = .ok (.ofBytes hi lo) := by
  rw [fetch, Code.opcodeAt, Vector.getElem?_toArray, Vector.getElem?_toArray, hhi, hlo]

variable [KeySource K]

/-- **The machine fetches the instructions one after the other**, a cycle for each. -/
def FetchesAll (m : Machine K) : List Instruction → Prop
  | [] => True
  | i :: is => m.fetch = .ok i.encode ∧ m.cycle.state.FetchesAll is

namespace SameStore

variable {m m' : Machine K} {i : Instruction}

/-- A transfer has the same effect on both. -/
theorem effect (h : m.SameStore m') (hi : i.Transfers) : (m.effect i).SameStore (m'.effect i) := by
  obtain ⟨hregisters, hmemory, hindex⟩ := h
  cases i with
  | setIndex a => exact ⟨hregisters, hmemory, rfl⟩
  | storeDecimal x => constructor <;> simp only [Machine.effect, hregisters, hmemory, hindex]
  | store x => constructor <;> simp only [Machine.effect, indexPast, hregisters, hmemory, hindex]
  | load x =>
    simp only [Machine.effect, hmemory, hindex]
    cases m.memory.read m.index.toNat (x.val + 1) with
    | error f => exact ⟨hregisters, hmemory, hindex⟩
    | ok bytes => constructor <;> simp only [indexPast, hregisters, hindex]
  | _ => exact absurd hi id

/-- **A cycle that fetches a transfer does what the transfer does by itself.** -/
theorem cycle (h : m.SameStore m') (hi : i.Transfers) (hfetch : m'.fetch = .ok i.encode) :
    Outcome.Related SameStore (m.execute i) m'.cycle := by
  have hdecode := Instruction.decode_encode i
  have hsame := h.fault?_eq hi
  cases hfault : m.fault? i with
  | some f =>
    rw [execute_of_fault hfault, cycle_of_fault hfetch hdecode (hsame.trans hfault)]
    exact ⟨rfl, h.registers, h.memory, h.index⟩
  | none =>
    have hbegin : m.SameStore (m'.begin i.encode) := ⟨h.registers, h.memory, h.index⟩
    have heffect := hbegin.effect hi
    have hreport : m'.report i = m.report i := by
      cases i with
      | setIndex a | storeDecimal x | store x | load x => rfl
      | _ => exact absurd hi id
    rw [execute_of_no_fault hfault, cycle_of_no_fault hfetch hdecode (hsame.trans hfault), hreport]
    exact ⟨rfl, heffect.registers, heffect.memory, heffect.index⟩

/-- **So it is with several of them**, one after the other. -/
theorem cycles (h : m.SameStore m') {is : List Instruction} (his : ∀ i ∈ is, i.Transfers)
    (hfetches : m'.FetchesAll is) :
    (m.afterAll (is.map .execute)).SameStore (m'.after (List.replicate is.length .cycle)) := by
  induction is generalizing m m' with
  | nil => exact h
  | cons i is ih =>
    have hfirst := h.cycle (his i (List.mem_cons_self ..)) hfetches.1
    have hrest : ∀ j ∈ is, j.Transfers := fun j hj => his j (List.mem_cons_of_mem i hj)
    exact ih hfirst.state hrest hfetches.2

end SameStore

end Machine

end Chip8
