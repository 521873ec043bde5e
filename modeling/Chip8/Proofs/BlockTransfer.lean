/-
  Blocks of registers, stored one behind the other and loaded again.

  `FX55` and `FX65` leave the index behind what they have stored or loaded, so the next one goes on
  from there.

  1. **Blocks** — a block is a register file together with the last register of it that is stored,
     so it is one byte longer than that register's number says.  The EXTENT of some blocks is how
     many bytes they have together.

  2. **Storing** — each store begins where the one before it has ended.  So a block lies as far
     behind the start as the blocks before it extend (`block_in_memory`), and nothing outside the
     extent of all of them is touched (`memory_storeBlocks_of_outside`).

  3. **Loading** — a load leaves the index where a store of as many registers would.  So loads in
     the same order find the blocks where they were stored (`loadBlock_after`).

  4. **There and back** — both together, with `ANNN` in between.  The last block may end with the
     last byte of memory, and still the index does not wrap (`block_transfers_chain`).
-/
import Chip8.Proofs.Transfer

namespace Chip8

/-! ## Blocks -/

/-- The registers up to the last one. -/
structure Block where
  last : Register
  registers : Registers

namespace Block

/-- The last register counts too. -/
def size (b : Block) : Nat := b.last.val + 1

/-- The block is found in memory from there on. -/
def LiesAt (b : Block) (memory : Memory) (start : Nat) : Prop :=
  ∀ z : Register, z ≤ b.last → memory[start + z.val]? = some (b.registers.read z)

/-- How many bytes some blocks have. -/
def extent : List Block → Nat
  | [] => 0
  | b :: bs => b.size + extent bs

@[simp] theorem extent_nil : extent [] = 0 := rfl

@[simp] theorem extent_cons (b : Block) (bs : List Block) :
    extent (b :: bs) = b.size + extent bs := rfl

@[simp] theorem extent_append (as bs : List Block) :
    extent (as ++ bs) = extent as + extent bs := by
  induction as with
  | nil => rw [List.nil_append, extent_nil, Nat.zero_add]
  | cons a as ih => rw [List.cons_append, extent_cons, extent_cons, ih, Nat.add_assoc]

/-- The instructions that load as many registers as the blocks have. -/
def loads (bs : List Block) : List Instruction := bs.map fun b => .load b.last

@[simp] theorem loads_concat (bs : List Block) (b : Block) :
    loads (bs ++ [b]) = loads bs ++ [.load b.last] := List.map_append

@[simp] theorem length_loads (bs : List Block) : (loads bs).length = bs.length := List.length_map ..

/-- They are transfers. -/
theorem transfers_loads {bs : List Block} : ∀ i ∈ loads bs, i.Transfers := by
  intro i hi
  obtain ⟨b, -, rfl⟩ := List.mem_map.1 hi
  trivial

/-- There is no empty block. -/
theorem extent_pos {bs : List Block} (h : bs ≠ []) : 0 < extent bs := by
  cases bs with
  | nil => exact absurd rfl h
  | cons b bs => exact Nat.add_pos_left (Nat.succ_pos b.last.val) (extent bs)

end Block

namespace Machine

open Block

variable {K : Type}

/-- The machine with these registers. -/
def holding (m : Machine K) (r : Registers) : Machine K := { m with registers := r }

variable [KeySource K]

/-! ## Storing -/

/-- The machine is given the registers of a block, and stores them. -/
def storeBlock (m : Machine K) (b : Block) : Outcome (Machine K) Signal :=
  (m.holding b.registers).execute (.store b.last)

/-- The machine after it has stored some blocks, one after the other. -/
def storeBlocks (m : Machine K) (bs : List Block) : Machine K :=
  bs.foldl (fun m b => (m.storeBlock b).state) m

theorem storeBlocks_append (m : Machine K) (as bs : List Block) :
    m.storeBlocks (as ++ bs) = (m.storeBlocks as).storeBlocks bs := List.foldl_append

theorem storeBlocks_cons (m : Machine K) (b : Block) (bs : List Block) :
    m.storeBlocks (b :: bs) = (m.storeBlock b).state.storeBlocks bs := rfl

section

variable {m : Machine K} {b : Block} {bs : List Block}

/-- **A block that has room is stored.** -/
theorem storeBlock_of_fits (h : m.index.toNat + b.size ≤ 4096) :
    m.storeBlock b = .ok { m with
      registers := b.registers
      memory := m.memory.overlay m.index.toNat (b.registers.upTo b.last)
      index := m.indexPast b.size } .quiet :=
  execute_store_of_fits (m := m.holding b.registers) h

/-- The index is left behind the block. -/
theorem index_storeBlock (h : m.index.toNat + b.size ≤ 4096) :
    (m.storeBlock b).state.index.toNat = m.index.toNat + b.size := by
  rw [storeBlock_of_fits h]
  exact toNat_indexPast h

/-- **So the index moves on by the extent of all blocks.** -/
theorem index_storeBlocks (h : m.index.toNat + extent bs ≤ 4096) :
    (m.storeBlocks bs).index.toNat = m.index.toNat + extent bs := by
  induction bs generalizing m with
  | nil => rfl
  | cons b bs ih =>
    rw [extent_cons] at h ⊢
    have hfirst := index_storeBlock (m := m) (b := b) (by omega)
    rw [storeBlocks_cons, ih (by omega)]
    omega

/-- Each store goes well, and leaves the registers as they are. -/
theorem storeBlock_after {before : List Block}
    (h : m.index.toNat + extent before + b.size ≤ 4096) :
    let store := (m.storeBlocks before).storeBlock b
    store.result = .ok .quiet ∧ store.state.registers = b.registers := by
  intro store
  have hindex : (m.storeBlocks before).index.toNat = m.index.toNat + extent before :=
    index_storeBlocks (by omega)
  rw [show store = _ from storeBlock_of_fits (by omega)]
  exact ⟨rfl, rfl⟩

/-- **Memory outside the extent of the blocks is left alone.** -/
theorem memory_storeBlocks_of_outside (h : m.index.toNat + extent bs ≤ 4096) {i : Nat}
    (hi : i < m.index.toNat ∨ m.index.toNat + extent bs ≤ i) :
    (m.storeBlocks bs).memory[i]? = m.memory[i]? := by
  induction bs generalizing m with
  | nil => rfl
  | cons b bs ih =>
    rw [extent_cons] at h hi
    have hroom : m.index.toNat + b.size ≤ 4096 := by omega
    have hfirst := index_storeBlock hroom
    have hsize : (b.registers.upTo b.last).size = b.size := b.registers.size_upTo b.last
    rw [storeBlocks_cons, ih (by omega) (by omega), storeBlock_of_fits hroom, Outcome.state_ok]
    exact m.memory.getElem?_overlay_of_outside (by omega)

/-- Registers, memory and the index are all that changes. -/
theorem state_storeBlocks (h : m.index.toNat + extent bs ≤ 4096) :
    m.storeBlocks bs = { m with
      registers := (m.storeBlocks bs).registers
      memory := (m.storeBlocks bs).memory
      index := (m.storeBlocks bs).index } := by
  induction bs generalizing m with
  | nil => rfl
  | cons b bs ih =>
    rw [extent_cons] at h
    have hroom : m.index.toNat + b.size ≤ 4096 := by omega
    have hfirst := index_storeBlock hroom
    rw [storeBlocks_cons, ih (by omega), storeBlock_of_fits hroom]
    rfl

/-- **A block lies behind those that were stored before it**, and the later ones leave it there. -/
theorem block_in_memory {before behind : List Block}
    (h : m.index.toNat + extent (before ++ b :: behind) ≤ 4096) :
    b.LiesAt (m.storeBlocks (before ++ b :: behind)).memory (m.index.toNat + extent before) := by
  intro z hz
  rw [extent_append, extent_cons] at h
  have hin : z.val < b.size := Nat.lt_succ_of_le hz
  have hsize : (b.registers.upTo b.last).size = b.size := b.registers.size_upTo b.last
  have hstart : (m.storeBlocks before).index.toNat = m.index.toNat + extent before :=
    index_storeBlocks (by omega)
  have hroom : (m.storeBlocks before).index.toNat + b.size ≤ 4096 := by omega
  have hnext := index_storeBlock hroom
  rw [storeBlocks_append, storeBlocks_cons, memory_storeBlocks_of_outside (by omega) (by omega),
    storeBlock_of_fits hroom, Outcome.state_ok, ← hstart,
    Memory.getElem?_overlay_of_inside _ (by omega) (by omega)]
  exact b.registers.getElem?_upTo hz

end

/-! ## Loading -/

/-- The machine loads as many registers as a block has. -/
def loadBlock (m : Machine K) (b : Block) : Outcome (Machine K) Signal :=
  m.execute (.load b.last)

/-- The machine after it has loaded as many registers as the blocks have, one after the other. -/
def loadBlocks (m : Machine K) (bs : List Block) : Machine K :=
  m.afterAll ((loads bs).map .execute)

theorem loadBlocks_cons (m : Machine K) (b : Block) (bs : List Block) :
    m.loadBlocks (b :: bs) = (m.loadBlock b).state.loadBlocks bs := rfl

theorem loadBlocks_concat (m : Machine K) (b : Block) (bs : List Block) :
    m.loadBlocks (bs ++ [b]) = ((m.loadBlocks bs).loadBlock b).state := by
  rw [loadBlocks, loads_concat, List.map_append]
  exact List.foldl_append

section

variable {m : Machine K} {b : Block} {bs : List Block}

/-- Registers and the index are all that a load changes, and the index is left behind the block. -/
theorem state_loadBlock (h : m.index.toNat + b.size ≤ 4096) :
    (m.loadBlock b).state = { m with
      registers := (m.loadBlock b).state.registers
      index := m.indexPast b.size } := by
  obtain ⟨r, hload, -, -⟩ := execute_load_of_fits h
  rw [loadBlock, hload]
  rfl

theorem index_loadBlock (h : m.index.toNat + b.size ≤ 4096) :
    (m.loadBlock b).state.index.toNat = m.index.toNat + b.size := by
  rw [state_loadBlock h]
  exact toNat_indexPast h

/-- **A block is loaded** if it lies where the index points. -/
theorem loadBlock_of_liesAt (h : m.index.toNat + b.size ≤ 4096)
    (hlies : b.LiesAt m.memory m.index.toNat) :
    (m.loadBlock b).result = .ok .quiet ∧
    (∀ z, z ≤ b.last → (m.loadBlock b).state.registers.read z = b.registers.read z) ∧
    ∀ z, b.last < z → (m.loadBlock b).state.registers.read z = m.registers.read z := by
  obtain ⟨r, hload, hbelow, habove⟩ := execute_load_of_fits h
  rw [loadBlock, hload]
  refine ⟨rfl, ?_, habove⟩
  intro z hz
  exact Option.some.inj ((hbelow z hz).symm.trans (hlies z hz))

/-- **The index moves on as it did before.** -/
theorem index_loadBlocks (h : m.index.toNat + extent bs ≤ 4096) :
    (m.loadBlocks bs).index.toNat = m.index.toNat + extent bs := by
  induction bs generalizing m with
  | nil => rfl
  | cons b bs ih =>
    rw [extent_cons] at h ⊢
    have hfirst := index_loadBlock (m := m) (b := b) (by omega)
    rw [loadBlocks_cons, ih (by omega)]
    omega

/-- Registers and the index are all that changes. -/
theorem state_loadBlocks (h : m.index.toNat + extent bs ≤ 4096) :
    m.loadBlocks bs = { m with
      registers := (m.loadBlocks bs).registers
      index := (m.loadBlocks bs).index } := by
  induction bs generalizing m with
  | nil => rfl
  | cons b bs ih =>
    rw [extent_cons] at h
    have hroom : m.index.toNat + b.size ≤ 4096 := by omega
    have hfirst := index_loadBlock hroom
    rw [loadBlocks_cons, ih (by omega), state_loadBlock hroom]

/-- **Each load finds its block**, as far behind the start as the loads before it extend. -/
theorem loadBlock_after {before : List Block}
    (h : m.index.toNat + extent before + b.size ≤ 4096)
    (hlies : b.LiesAt m.memory (m.index.toNat + extent before)) :
    let here := m.loadBlocks before
    (here.loadBlock b).result = .ok .quiet ∧
    (here.loadBlock b).state.memory = m.memory ∧
    (∀ z, z ≤ b.last → (here.loadBlock b).state.registers.read z = b.registers.read z) ∧
    ∀ z, b.last < z → (here.loadBlock b).state.registers.read z = here.registers.read z := by
  intro here
  have hindex : here.index.toNat = m.index.toNat + extent before := index_loadBlocks (by omega)
  have hmemory : here.memory = m.memory := by
    rw [show here = _ from state_loadBlocks (by omega)]
  have hroom : here.index.toNat + b.size ≤ 4096 := by omega
  have hthere : b.LiesAt here.memory here.index.toNat := by
    rw [hmemory, hindex]
    exact hlies
  obtain ⟨hresult, hbelow, habove⟩ := loadBlock_of_liesAt hroom hthere
  refine ⟨hresult, ?_, hbelow, habove⟩
  rw [state_loadBlock hroom, hmemory]

/-- **So it is in cycles**, if the machine fetches the loads, and `ANNN` before them. -/
theorem loadBlocks_by_cycles {a : Address} (h : m.FetchesAll (.setIndex a :: loads bs)) :
    ((m.execute (.setIndex a)).state.loadBlocks bs).SameStore
      (m.after (List.replicate (bs.length + 1) .cycle)) := by
  have htransfers : ∀ i ∈ Instruction.setIndex a :: loads bs, i.Transfers :=
    List.forall_mem_cons.2 ⟨trivial, transfers_loads⟩
  have hcycles := (SameStore.refl m).cycles htransfers h
  rw [List.length_cons, length_loads] at hcycles
  exact hcycles

end

/-! ## There and back -/

/-- **Blocks are stored and loaded again.**  Let a machine store some blocks, one behind the other,
    each with the registers that it holds then.  If all of them have room where its index points,
    each store goes well and leaves the registers as they are.  In the end the blocks lie in memory
    without a gap, the index points behind the last one, and nothing else has changed.

    Then `ANNN` sets the index back, and the machine loads as many registers as it stored, the same
    numbers in turn.  Each load goes well, finds the registers of its block, and leaves those above
    them and all memory as they are.  In the end the index points behind the last block again.

    Cycles that fetch these instructions do the same to registers, memory and the index. -/
theorem block_transfers_chain (m : Machine K) (bs : List Block) (hne : bs ≠ [])
    (hfits : m.index.toNat + extent bs ≤ 4096) :
    ∃ a : Address, a.val = m.index.toNat ∧
      let stored := m.storeBlocks bs
      let back := stored.execute (.setIndex a)
      let loaded := back.state.loadBlocks bs
      (∀ before b behind, bs = before ++ b :: behind →
        let store := (m.storeBlocks before).storeBlock b
        store.result = .ok .quiet ∧ store.state.registers = b.registers ∧
        b.LiesAt stored.memory (m.index.toNat + extent before) ∧
        ∀ m' : Machine K, ((m.storeBlocks before).holding b.registers).SameStore m' →
          m'.fetch = .ok (Instruction.store b.last).encode →
          Outcome.Related SameStore store m'.cycle) ∧
      (∀ i, i < m.index.toNat ∨ m.index.toNat + extent bs ≤ i →
        stored.memory[i]? = m.memory[i]?) ∧
      stored.index.toNat = m.index.toNat + extent bs ∧
      stored = { m with
        registers := stored.registers, memory := stored.memory, index := stored.index } ∧
      back.result = .ok .quiet ∧
      (∀ before b behind, bs = before ++ b :: behind →
        let here := back.state.loadBlocks before
        let load := here.loadBlock b
        load.result = .ok .quiet ∧ load.state.memory = stored.memory ∧
        (∀ z, z ≤ b.last → load.state.registers.read z = b.registers.read z) ∧
        (∀ z, b.last < z → load.state.registers.read z = here.registers.read z) ∧
        (stored.FetchesAll (.setIndex a :: loads (before ++ [b])) →
          load.state.SameStore (stored.after (List.replicate (before.length + 2) .cycle)))) ∧
      loaded.index.toNat = m.index.toNat + extent bs ∧
      loaded = { stored with registers := loaded.registers, index := loaded.index } := by
  have hpos := extent_pos hne
  let a : Address := ⟨m.index.toNat, by omega⟩
  refine ⟨a, rfl, ?_⟩
  intro stored back loaded
  have hlies : ∀ before b behind, bs = before ++ b :: behind →
      b.LiesAt stored.memory (m.index.toNat + extent before) := by
    rintro before b behind rfl
    exact block_in_memory hfits
  have hback : back = .ok { stored with index := m.index } .quiet := execute_setIndex rfl
  have hstate : back.state = { stored with index := m.index } := by rw [hback, Outcome.state_ok]
  have hroom : back.state.index.toNat + extent bs ≤ 4096 := by
    rw [hstate]
    exact hfits
  refine ⟨?stores, fun i hi => memory_storeBlocks_of_outside hfits hi, index_storeBlocks hfits,
    state_storeBlocks hfits, ?back, ?loads, ?index, ?state⟩
  case stores =>
    intro before b behind hbs store
    rw [hbs, extent_append, extent_cons] at hfits
    obtain ⟨hresult, hregisters⟩ : store.result = .ok .quiet ∧ store.state.registers = b.registers :=
      storeBlock_after (by omega)
    refine ⟨hresult, hregisters, hlies before b behind hbs, ?_⟩
    intro m' hsame hfetch
    exact hsame.cycle trivial hfetch
  case back =>
    rw [hback, Outcome.result_ok]
  case loads =>
    intro before b behind hbs here load
    rw [hbs, extent_append, extent_cons] at hroom
    have hthere : b.LiesAt back.state.memory (back.state.index.toNat + extent before) := by
      rw [hstate]
      exact hlies before b behind hbs
    obtain ⟨hresult, hmemory, hbelow, habove⟩ := loadBlock_after (m := back.state) (by omega) hthere
    refine ⟨hresult, hmemory.trans (by rw [hstate]), hbelow, habove, ?_⟩
    intro hfetches
    have hcycles := loadBlocks_by_cycles hfetches
    rw [loadBlocks_concat, List.length_append] at hcycles
    exact hcycles
  case index =>
    rw [show loaded.index.toNat = _ from index_loadBlocks hroom, hstate]
  case state =>
    calc loaded
        = { back.state with registers := loaded.registers, index := loaded.index } :=
          state_loadBlocks hroom
      _ = { stored with registers := loaded.registers, index := loaded.index } := by rw [hstate]

/-- One register, and behind it all sixteen, in the last seventeen places of memory. -/
theorem block_transfers_chain_to_the_end :
    let m := { powerOn Keypad.released .plain (.repeating #[]) with index := 0xFEF }
    let one : Block := ⟨0, Registers.zeros.write 0 7⟩
    let all : Block := ⟨15, Registers.zeros.write 15 9⟩
    let stored := m.storeBlocks [one, all]
    let loaded := (stored.execute (.setIndex 0xFEF)).state.loadBlocks [one, all]
    [one, all] ≠ [] ∧
    m.index.toNat + extent [one, all] = 4096 ∧
    (stored.memory[0xFEF]? = some 7 ∧ stored.memory[0xFF0]? = some 0 ∧
      stored.memory[0xFFF]? = some 9) ∧
    stored.index.toNat = 0x1000 ∧
    (loaded.registers.read 0 = 0 ∧ loaded.registers.read 15 = 9) ∧
    loaded.index.toNat = 0x1000 := by
  intro m one all stored loaded
  have hne : [one, all] ≠ [] := List.cons_ne_nil one [all]
  have hextent : m.index.toNat + extent [one, all] = 4096 := by decide
  obtain ⟨a, ha, hstores, -, hindex, -, -, hloads, hloaded, -⟩ :=
    block_transfers_chain m [one, all] hne (Nat.le_of_eq hextent)
  obtain rfl : a = 0xFEF := Fin.ext ha
  obtain ⟨-, -, hone, -⟩ := hstores [] one [all] rfl
  obtain ⟨-, -, hall, -⟩ := hstores [one] all [] rfl
  obtain ⟨-, -, hread, -, -⟩ := hloads [one] all [] rfl
  rw [← loadBlocks_concat] at hread
  refine ⟨hne, hextent, ⟨hone 0 (by decide), hall 0 (by decide), hall 15 (by decide)⟩,
    hindex.trans hextent, ⟨hread 0 (by decide), hread 15 (by decide)⟩, hloaded.trans hextent⟩

end Machine

end Chip8
