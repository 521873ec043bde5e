/-
  What a cycle looks at, and what it does not.

  A cycle looks at few places of memory: at the two bytes of its opcode, and if that draws or loads,
  at the bytes behind the index that it was told to draw or load.  Any other place might as well hold
  another byte.

  1. **Memory** — a byte outside a range is no matter to a read of the range.  A write takes no
     notice of any byte: the byte is written over if it is in the range, and still there if it is
     not (`Memory.overlay_put`).

  2. **Instructions** — an instruction that does not look at a place has the same effect whatever is
     there.  Afterwards the difference is what it was, or it was written over (`effect_withByte`).

  3. **Cycles** — so it is with a cycle, which fetches its opcode in addition (`cycle_is_local`).
-/
import Chip8.Proofs.SameWay

namespace Chip8

/-! ## Memory -/

namespace Memory

/-- Memory with another byte at one place. -/
def put (m : Memory) (a : Address) (b : UInt8) : Memory := m.set a.val b a.isLt

/-- Every other place shows what it did. -/
theorem getElem_put_of_ne (m : Memory) {a : Address} (b : UInt8) {i : Nat} (hi : i < 4096)
    (h : i ≠ a.val) : (m.put a b)[i] = m[i] :=
  Vector.getElem_set_ne a.isLt hi h.symm

/-- The byte at that place is what was put there. -/
theorem getElem_put_self (m : Memory) (a : Address) (b : UInt8) : (m.put a b)[a.val] = b :=
  Vector.getElem_set_self a.isLt

/-- **A byte outside a range is no matter to a read of it.** -/
theorem read_put (m : Memory) {a : Address} (b : UInt8) {start n : Nat}
    (h : a.val < start ∨ start + n ≤ a.val) : (m.put a b).read start n = m.read start n := by
  by_cases hfits : Fits start n
  · rw [read_of_fits _ hfits, read_of_fits _ hfits]
    congr 1
    apply Vector.ext
    intro i hi
    have hplace : start + i < 4096 := fits_iff.1 hfits i hi
    rw [getElem_slice _ hfits i hi hplace, getElem_slice _ hfits i hi hplace]
    exact m.getElem_put_of_ne b hplace (by omega)
  · rw [read_of_not_fits _ hfits, read_of_not_fits _ hfits]

/-- **A write goes over a byte, or leaves it where it is.** -/
theorem overlay_put (m : Memory) (a : Address) (b : UInt8) (start : Nat) (bytes : Array UInt8) :
    (m.put a b).overlay start bytes = (m.overlay start bytes).put a b ∨
    (m.put a b).overlay start bytes = m.overlay start bytes := by
  rcases Decidable.em (start ≤ a.val ∧ a.val < start + bytes.size) with hin | hout
  · right
    apply Vector.ext
    intro i hi
    by_cases hia : i = a.val
    · -- here both show the byte that was written
      obtain ⟨k, hk⟩ : ∃ k, i = start + k := ⟨i - start, by omega⟩
      subst hk
      rw [getElem_overlay_of_inside _ (by omega) hi, getElem_overlay_of_inside _ (by omega) hi]
    · rw [getElem_overlay, getElem_overlay, m.getElem_put_of_ne b hi hia]
  · left
    apply Vector.ext
    intro i hi
    by_cases hia : i = a.val
    · subst hia
      rw [getElem_put_self, getElem_overlay_of_outside _ hi (by omega), getElem_put_self]
    · rw [getElem_put_of_ne _ b hi hia, getElem_overlay, getElem_overlay,
        m.getElem_put_of_ne b hi hia]

end Memory

/-! ## Instructions -/

/-- How many bytes an instruction reads, from the index on. -/
def Instruction.loaded : Instruction → Nat
  | .draw _ _ rows => rows.val
  | .load x => x.val + 1
  | _ => 0

namespace Machine

variable {K : Type}

/-- The machine with another byte at one place of memory. -/
def withByte (m : Machine K) (a : Address) (b : UInt8) : Machine K :=
  { m with memory := m.memory.put a b }

/-- The other machine has this byte at that place, or it is the same machine. -/
def SameButByte (a : Address) (b : UInt8) (m m' : Machine K) : Prop :=
  m' = m.withByte a b ∨ m' = m

theorem SameButByte.follow {a : Address} {b : UInt8} {m m' : Machine K}
    (h : SameButByte a b m m') (f : Flow) : SameButByte a b (m.follow f) (m'.follow f) := by
  rcases h with rfl | rfl
  · exact Or.inl rfl
  · exact Or.inr rfl

variable [KeySource K] {m : Machine K} {a : Address}

/-- **An instruction that does not look at a place** has the same effect whatever is there.  Only
    two instructions read, and only two write. -/
theorem effect_withByte (b : UInt8) {i : Instruction}
    (h : a.val < m.index.toNat ∨ m.index.toNat + i.loaded ≤ a.val) :
    SameButByte a b (m.effect i) ((m.withByte a b).effect i) := by
  cases i with
  | draw x y rows =>
    left
    have hread : (m.withByte a b).memory.read (m.withByte a b).index.toNat rows.val =
        m.memory.read m.index.toNat rows.val := m.memory.read_put b h
    simp only [effect, hread]
    cases m.memory.read m.index.toNat rows.val <;> rfl
  | load x =>
    left
    have hread : (m.withByte a b).memory.read (m.withByte a b).index.toNat (x.val + 1) =
        m.memory.read m.index.toNat (x.val + 1) := m.memory.read_put b h
    simp only [effect, hread]
    cases m.memory.read m.index.toNat (x.val + 1) <;> rfl
  | storeDecimal x =>
    rcases m.memory.overlay_put a b m.index.toNat (decimalDigits (m.registers.read x)) with
      hput | hover
    · left
      simp only [effect, withByte, hput]
    · right
      simp only [effect, withByte, hover]
  | store x =>
    rcases m.memory.overlay_put a b m.index.toNat (m.registers.upTo x) with hput | hover
    · left
      simp only [effect, withByte, hput, indexPast]
    · right
      simp only [effect, withByte, hover, indexPast]
  | waitKey x =>
    left
    simp only [effect, withByte]
    cases lowestDown m.keys <;> rfl
  | _ => exact Or.inl rfl

/-! ## Cycles -/

omit [KeySource K] in
/-- **The places of memory that a cycle looks at.** -/
inductive LooksAt (m : Machine K) (a : Nat) : Prop
  /-- The first byte of its opcode. -/
  | high (ha : a = m.pc)
  /-- And the second. -/
  | low (ha : a = m.pc + 1)
  /-- For `DXYN`, the rows of the sprite. -/
  | row (o : Opcode) (hfetch : m.fetch = .ok o) (hfamily : o.family = 0xD)
      (hfrom : m.index.toNat ≤ a) (hto : a < m.index.toNat + o.n.val)
  /-- For `FX65`, the bytes of the registers. -/
  | byte (o : Opcode) (hfetch : m.fetch = .ok o) (hfamily : o.family = 0xF) (hlow : o.low = 0x65)
      (hfrom : m.index.toNat ≤ a) (hto : a ≤ m.index.toNat + o.x.val)

omit [KeySource K] in
/-- What its instruction reads is among them. -/
theorem outside_of_not_looksAt (h : ¬ m.LooksAt a.val) {i : Instruction}
    (hfetch : m.fetch = .ok i.encode) :
    a.val < m.index.toNat ∨ m.index.toNat + i.loaded ≤ a.val := by
  rcases Nat.lt_or_ge a.val m.index.toNat with hlt | hfrom
  · exact Or.inl hlt
  · right
    apply Nat.le_of_not_lt
    intro hto
    cases i with
    | draw x y rows =>
      obtain ⟨hfamily, -, -, hn⟩ := Opcode.fields_ofPair 0xD x y rows
      have hrows : a.val < m.index.toNat + (Instruction.draw x y rows).encode.n.val := by
        rw [Instruction.encode, hn]
        exact hto
      exact h (.row _ hfetch hfamily hfrom hrows)
    | load x =>
      obtain ⟨hfamily, hx, hlow⟩ := Opcode.fields_ofByte 0xF x 0x65
      have hbytes : a.val ≤ m.index.toNat + (Instruction.load x).encode.x.val := by
        rw [Instruction.encode, hx]
        exact Nat.le_of_lt_succ hto
      exact h (.byte _ hfetch hfamily hlow hfrom hbytes)
    | _ => exact Nat.not_lt_of_le hfrom hto

omit [KeySource K] in
/-- A place without a byte of the opcode is no matter to the fetch. -/
theorem fetch_withByte (b : UInt8) (hhigh : a.val ≠ m.pc) (hlow : a.val ≠ m.pc + 1) :
    (m.withByte a b).fetch = m.fetch := by
  rcases Nat.lt_or_ge (m.pc + 1) 4096 with hlt | hge
  · have hfirst : (m.memory.put a b)[m.pc] = m.memory[m.pc] :=
      m.memory.getElem_put_of_ne b (by omega) hhigh.symm
    have hsecond : (m.memory.put a b)[m.pc + 1] = m.memory[m.pc + 1] :=
      m.memory.getElem_put_of_ne b hlt hlow.symm
    rw [fetch_of_lt hlt, fetch_of_lt (m := m.withByte a b) hlt, ← hfirst, ← hsecond]
    rfl
  · rw [fetch_of_le hge, fetch_of_le (m := m.withByte a b) hge]
    rfl

theorem sameWay_withByte (b : UInt8) (h : ¬ m.LooksAt a.val) : m.SameWay (m.withByte a b) where
  fetch := fetch_withByte b (fun ha => h (.high ha)) (fun ha => h (.low ha))
  fault? := fault?_congr rfl rfl
  flow := flow_congr rfl rfl (.refl _)
  report := report_congr (.refl _)

/-- **A cycle that does not look at a place** goes the same way whatever is there. -/
theorem cycle_withByte (b : UInt8) (h : ¬ m.LooksAt a.val) :
    Outcome.Related (SameButByte a b) m.cycle (m.withByte a b).cycle := by
  refine (sameWay_withByte b h).cycle (Or.inl rfl) (fun _ => Or.inl rfl) (fun _ => Or.inl rfl) ?_
  intro i hfetch hfault
  have heffect := effect_withByte (m := m.begin i.encode) b (outside_of_not_looksAt h hfetch)
  exact heffect.follow (m.flow i)

/-- **A cycle is local.**  Take a place of memory that is neither of the two bytes of the opcode,
    nor among those that it has a cycle draw or load.  Whatever byte is put there, the cycle reports
    the same, and leaves the same machine but for this place.  There the byte is still what it was
    made, or the cycle has stored to the place, and then the machines are the same altogether. -/
theorem cycle_is_local (m : Machine K) (a : Address) (b : UInt8) (h : ¬ m.LooksAt a.val) :
    let here := m.cycle
    let there := (m.withByte a b).cycle
    there.result = here.result ∧
    there.state = { here.state with memory := there.state.memory } ∧
    (∀ i, (hi : i < 4096) → i ≠ a.val → there.state.memory[i] = here.state.memory[i]) ∧
    (there.state = here.state.withByte a b ∨ there.state = here.state) := by
  intro here there
  obtain ⟨hresult, hstate⟩ : Outcome.Related (SameButByte a b) here there := cycle_withByte b h
  refine ⟨hresult, ?_, ?_, hstate⟩
  · rcases hstate with hput | hsame
    · rw [hput]
      rfl
    · rw [hsame]
  · intro i hi hia
    rcases hstate with hput | hsame
    · simp only [hput]
      exact here.state.memory.getElem_put_of_ne b hi hia
    · simp only [hsame]

/-- `V0` and `V1` are loaded from the last places but one, and what the last place of all holds does
    not matter.  What the place before it holds would. -/
theorem cycle_is_local_at_the_end :
    let m : Machine Keypad :=
      { ((powerOn .released .plain (.repeating #[])).load #[0xF1, 0x65]).state with index := 0xFFD }
    m.fetch = .ok 0xF165 ∧
    ¬ m.LooksAt 0xFFF ∧
    (m.withByte 0xFFF 7).cycle.result = .ok .quiet ∧
    (m.withByte 0xFFF 7).cycle.state.registers = m.cycle.state.registers ∧
    m.LooksAt 0xFFE := by
  intro m
  have hfetch : m.fetch = .ok 0xF165 :=
    fetch_of_overlay (p := #[0xF1, 0x65]) (k := 0) rfl (by decide) rfl (by decide)
  have hlooks : ¬ m.LooksAt 0xFFF := by
    intro h
    cases h with
    | high ha | low ha => exact absurd ha (by decide)
    | row o ho hfamily hfrom hto =>
      rw [hfetch] at ho
      cases ho
      exact absurd hfamily (by decide)
    | byte o ho hfamily hlow hfrom hto =>
      rw [hfetch] at ho
      cases ho
      exact absurd hto (by decide)
  have hcycle : m.cycle.result = .ok .quiet := by
    rw [cycle_of_no_fault hfetch (i := .load 1) rfl rfl]
    rfl
  -- for any two machines, so that no cycle is computed
  have hregisters : ∀ n n' : Machine Keypad, n' = { n with memory := n'.memory } →
      n'.registers = n.registers := by
    intro n n' h
    rw [h]
  obtain ⟨hresult, hstate, -, -⟩ := cycle_is_local m 0xFFF 7 hlooks
  exact ⟨hfetch, hlooks, hresult.trans hcycle,
    hregisters m.cycle.state (m.withByte 0xFFF 7).cycle.state hstate,
    .byte 0xF165 hfetch rfl rfl (by decide) (by decide)⟩

end Machine

end Chip8
