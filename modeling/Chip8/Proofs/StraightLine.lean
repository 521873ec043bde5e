/-
  Straight-line programs.

  A program is STRAIGHT if no instruction of it jumps, skips, calls, returns or waits.  Run by the
  machine, each of its instructions is fetched from memory, decoded and executed, with the program
  counter moving on by itself.  This is the same as taking the instructions from a list and
  executing one after the other, provided no instruction writes over the program.

  1. **Code in memory** — `Memory.Shows` says that bytes lie in memory.  Where the bytes of opcodes
     do, the opcodes are fetched again (`fetch_of_shows`).

  2. **One instruction** — executed `alone` it has its timers counted down before, as in a cycle,
     and set back if it fails.  Neither the noted opcode nor the program counter matters to it, so
     a cycle that fetches it does the same, and moves on (`cycle_withPlace`).

  3. **A run** — after each number of steps both sides have reported the same, failed in the same
     way if at all, and left the same machine, but for these two parts.  What carries the induction
     is that the program is still in memory, which is where the proviso comes in (`shows_trace`).

  So it is with an assembled program that is loaded into a new machine (`straight_line_run`).
-/
import Chip8.Proofs.Frame
import Chip8.Proofs.Trace

namespace Chip8

/-! ## Code in memory -/

/-- The bytes lie in memory from `start` on. -/
def Memory.Shows (m : Memory) (start : Nat) (bytes : List UInt8) : Prop :=
  ∀ k b, bytes[k]? = some b → m[start + k]? = some b

/-- Bytes lie where they were laid over, if there is room for all of them. -/
theorem Memory.shows_overlay (m : Memory) {start : Nat} {bytes : List UInt8}
    (h : start + bytes.length ≤ 4096) : (m.overlay start bytes.toArray).Shows start bytes := by
  intro k b hk
  obtain ⟨hlt, rfl⟩ := List.getElem?_eq_some_iff.1 hk
  have hin : k < bytes.toArray.size := by rw [List.size_toArray]; exact hlt
  rw [Vector.getElem?_eq_getElem (by omega), m.getElem_overlay_of_inside hin (by omega)]
  rfl

/-- They stay there as long as nothing changes in their range. -/
theorem Memory.Shows.congr {m m' : Memory} {start : Nat} {bytes : List UInt8}
    (h : m.Shows start bytes)
    (hsame : ∀ a, (ha : a < 4096) → start ≤ a → a < start + bytes.length → m'[a] = m[a]) :
    m'.Shows start bytes := by
  intro k b hk
  obtain ⟨hlt, -⟩ := List.getElem?_eq_some_iff.1 hk
  obtain ⟨ha, hb⟩ := Vector.getElem?_eq_some_iff.1 (h k b hk)
  rw [Vector.getElem?_eq_getElem ha, hsame (start + k) ha (by omega) (by omega), hb]

namespace Machine

variable {K : Type}

/-- **Opcodes that lie in memory are fetched.** -/
theorem fetch_of_shows {m : Machine K} {start j : Nat} {os : List Opcode} {o : Opcode}
    (h : m.memory.Shows start (Code.ofOpcodes os)) (hpc : m.pc = start + 2 * j)
    (hj : os[j]? = some o) : m.fetch = .ok o := by
  obtain ⟨hhigh, hlow⟩ := Code.getElem?_ofOpcodes hj
  have hfirst : m.memory.toArray[m.pc]? = some o.high := by
    rw [hpc, Vector.getElem?_toArray]
    exact h _ _ hhigh
  have hsecond : m.memory.toArray[m.pc + 1]? = some o.low := by
    rw [hpc, Vector.getElem?_toArray, Nat.add_assoc]
    exact h _ _ hlow
  rw [fetch, Code.opcodeAt, hfirst, hsecond]
  exact congrArg Except.ok o.ofBytes_high_low

end Machine

/-! ## One instruction -/

/-- The instructions behind which the next one follows, in any case. -/
def Instruction.Straight : Instruction → Prop
  | .clear | .setByte .. | .addByte .. | .alu .. | .setIndex _ | .random .. | .draw ..
  | .readDelay _ | .setDelay _ | .setSound _ | .addIndex _ | .pointGlyph _ | .storeDecimal _
  | .store _ | .load _ => True
  | .ret | .jump _ | .call _ | .skip _ | .jumpPlus _ | .waitKey _ => False

namespace Machine

variable {K : Type}

/-- The machine with both timers counted down by one. -/
def countDown (m : Machine K) : Machine K :=
  { m with delay := m.delay.tick, sound := m.sound.tick }

/-- The machine with another noted opcode and program counter. -/
def withPlace (m : Machine K) (o : Opcode) (pc : Nat) : Machine K :=
  { m with lastOpcode := o, pc := pc }

section

variable (m : Machine K) (o : Opcode) (pc : Nat)

theorem fault?_withPlace (i : Instruction) : (m.withPlace o pc).fault? i = m.fault? i :=
  fault?_congr rfl rfl i

theorem fault?_countDown (i : Instruction) : m.countDown.fault? i = m.fault? i :=
  fault?_congr rfl rfl i

variable [KeySource K]

theorem report_withPlace (i : Instruction) : (m.withPlace o pc).report i = m.report i :=
  report_congr (.refl _) i

theorem report_countDown (i : Instruction) : m.countDown.report i = m.report i :=
  report_congr (.refl _) i

theorem flow_of_straight {i : Instruction} (hi : i.Straight) : m.flow i = .next := by
  cases i with
  | ret | jump a | call a | skip c | jumpPlus a | waitKey x => exact absurd hi id
  | _ => rfl

/-- **What a straight instruction does is no matter of the place.** -/
theorem effect_withPlace {i : Instruction} (hi : i.Straight) :
    (m.withPlace o pc).effect i = (m.effect i).withPlace o pc := by
  cases i with
  | ret | jump a | call a | skip c | jumpPlus a | waitKey x => exact absurd hi id
  | draw x y rows =>
    simp only [effect, withPlace]
    cases m.memory.read m.index.toNat rows.val <;> rfl
  | load x =>
    simp only [effect, withPlace]
    cases m.memory.read m.index.toNat (x.val + 1) <;> rfl
  | _ => rfl

end

section

variable [KeySource K]

/-- **An instruction by itself**: both timers count down, and are set back if it fails. -/
def alone (i : Instruction) (m : Machine K) : Outcome (Machine K) Signal :=
  (m.countDown.execute i).onFail fun after => { after with delay := m.delay, sound := m.sound }

theorem alone_of_fault {m : Machine K} {i : Instruction} {f : Fault} (h : m.fault? i = some f) :
    m.alone i = .fail m f := by
  have hexec : m.countDown.execute i = .fail m.countDown f :=
    execute_of_fault (by rw [fault?_countDown, h])
  rw [alone, hexec, Outcome.onFail_fail]
  rfl

theorem alone_of_no_fault {m : Machine K} {i : Instruction} (hi : i.Straight)
    (h : m.fault? i = none) : m.alone i = .ok (m.countDown.effect i) (m.report i) := by
  have hexec := execute_of_no_fault (m := m.countDown) (i := i) (by rw [fault?_countDown, h])
  rw [flow_of_straight _ hi, report_countDown] at hexec
  rw [alone, hexec]
  rfl

/-- **A cycle that fetches it does the same**, and the program counter moves on if it went well. -/
theorem cycle_withPlace {m : Machine K} {o : Opcode} {pc : Nat} {i : Instruction}
    (hi : i.Straight) (hfetch : (m.withPlace o pc).fetch = .ok i.encode) :
    (∀ f, (m.alone i).result = .error f →
      (m.withPlace o pc).cycle = .fail ((m.alone i).state.withPlace i.encode pc) f) ∧
    (∀ r, (m.alone i).result = .ok r →
      (m.withPlace o pc).cycle = .ok ((m.alone i).state.withPlace i.encode (pc + 2)) r) := by
  have hdecode := Instruction.decode_encode i
  cases hfault : m.fault? i with
  | some g =>
    have hcycle := cycle_of_fault hfetch hdecode (by rw [fault?_withPlace, hfault])
    rw [alone_of_fault hfault, hcycle]
    constructor
    · intro f hf
      cases hf
      rfl
    · intro r hr
      cases hr
  | none =>
    have hcycle := cycle_of_no_fault hfetch hdecode (by rw [fault?_withPlace, hfault])
    -- the cycle begins with the timers counted down, one opcode on
    have hbegin : (m.withPlace o pc).begin i.encode = m.countDown.withPlace i.encode (pc + 2) := rfl
    rw [hbegin, effect_withPlace _ _ _ hi, flow_of_straight _ hi, report_withPlace] at hcycle
    rw [alone_of_no_fault hi hfault, hcycle]
    constructor
    · intro f hf
      cases hf
    · intro r hr
      cases hr
      rfl

/-! ## A run -/

/-- `k` cycles, up to the first fault. -/
def cycles (m : Machine K) (k : Nat) : Trace (Machine K) := .of m (List.replicate k cycle)

/-- The instructions of a list, each by itself, up to the first fault. -/
def inTurn (m : Machine K) (is : List Instruction) : Trace (Machine K) := .of m (is.map alone)

theorem cycles_succ (m : Machine K) (k : Nat) : m.cycles (k + 1) = (m.cycles k).next cycle := by
  rw [cycles, List.replicate_succ', Trace.of_concat]
  rfl

theorem inTurn_take_succ (m : Machine K) {is : List Instruction} {k : Nat} (h : k < is.length) :
    m.inTurn (is.take (k + 1)) = (m.inTurn (is.take k)).next (alone is[k]) := by
  rw [inTurn, List.take_add_one, List.getElem?_eq_getElem h, Option.toList_some, List.map_append,
    List.map_singleton, Trace.of_concat]
  rfl

/-- The bytes of a program. -/
def assemble (is : List Instruction) : List UInt8 := Code.ofOpcodes (is.map Instruction.encode)

theorem length_assemble (is : List Instruction) : (assemble is).length = 2 * is.length := by
  rw [assemble, Code.length_ofOpcodes, List.length_map]
  rfl

/-- **No store hits the program**: whenever one of the first `k` instructions is executed and goes
    well, what it stores lies before the start of the program or behind its end. -/
def Spares (m : Machine K) (is : List Instruction) (k : Nat) : Prop :=
  ∀ j, (hj : j < is.length) → j < k →
    let t := m.inTurn (is.take j)
    ∀ r, t.fault = none → (t.state.alone is[j]).result = .ok r →
      ∀ a, t.state.index.toNat ≤ a → a < t.state.index.toNat + is[j].stored →
        a < programStart ∨ programStart + 2 * is.length ≤ a

/-- One instruction leaves a program in memory that it does not store to. -/
theorem shows_alone {m : Machine K} {i : Instruction} {bytes : List UInt8} (hi : i.Straight)
    (h : m.memory.Shows programStart bytes)
    (hspares : ∀ r, (m.alone i).result = .ok r →
      ∀ a, m.index.toNat ≤ a → a < m.index.toNat + i.stored →
        a < programStart ∨ programStart + bytes.length ≤ a) :
    (m.alone i).state.memory.Shows programStart bytes := by
  cases hfault : m.fault? i with
  | some f =>
    rw [alone_of_fault hfault]
    exact h
  | none =>
    have halone := alone_of_no_fault hi hfault
    have hout := hspares (m.report i) (by rw [halone]; rfl)
    rw [halone]
    apply h.congr
    intro a ha hfrom hto
    -- a place of the program is not among those that are stored to
    have hplace : a < m.index.toNat ∨ m.index.toNat + i.stored ≤ a := by
      rcases Nat.lt_or_ge a m.index.toNat with hlt | hge
      · exact Or.inl hlt
      · rcases Nat.lt_or_ge a (m.index.toNat + i.stored) with hin | hbehind
        · rcases hout a hge hin with hbefore | hafter
          · omega
          · omega
        · exact Or.inr hbehind
    exact memory_effect_of_outside (m := m.countDown) ha hplace

/-- **The program stays in memory.**  Induction on how many instructions were executed. -/
theorem shows_trace {m : Machine K} {is : List Instruction}
    (hcode : m.memory.Shows programStart (assemble is)) (hstraight : ∀ i ∈ is, i.Straight)
    {k : Nat} (hk : k ≤ is.length) (hspares : m.Spares is k) :
    (m.inTurn (is.take k)).state.memory.Shows programStart (assemble is) := by
  induction k with
  | zero => exact hcode
  | succ k ih =>
    have hprev := ih (by omega) fun j hj hjk => hspares j hj (by omega)
    have hi : is[k].Straight := hstraight is[k] (List.getElem_mem hk)
    rw [inTurn_take_succ m hk]
    cases hfault : (m.inTurn (is.take k)).fault with
    | some f =>
      rw [Trace.next_of_fault hfault]
      exact hprev
    | none =>
      have hnext := shows_alone hi hprev (by
        intro r hr
        rw [length_assemble]
        exact hspares k hk (Nat.lt_succ_self k) r hfault hr)
      cases hr : ((m.inTurn (is.take k)).state.alone is[k]).result with
      | ok r => rw [Trace.next_of_ok hfault hr]; exact hnext
      | error f => rw [Trace.next_of_error hfault hr]; exact hnext

/-- The two sides of a run: the same signals, the same fault, and the same machine but for its
    place, which is behind the instructions that went well. -/
structure Matches (run direct : Trace (Machine K)) : Prop where
  signals : run.signals = direct.signals
  fault : run.fault = direct.fault
  state : ∃ o, run.state = direct.state.withPlace o (programStart + 2 * direct.signals.length)

/-- **Both sides keep in step.**  Induction on the number of cycles: the next one fetches the next
    instruction of the list, because that is still in memory. -/
theorem cycles_match {m : Machine K} {is : List Instruction} (hpc : m.pc = programStart)
    (hcode : m.memory.Shows programStart (assemble is)) (hstraight : ∀ i ∈ is, i.Straight)
    {k : Nat} (hk : k ≤ is.length) (hspares : m.Spares is k) :
    Matches (m.cycles k) (m.inTurn (is.take k)) := by
  induction k with
  | zero => exact ⟨rfl, rfl, m.lastOpcode, by rw [← hpc]; rfl⟩
  | succ k ih =>
    have hfewer : m.Spares is k := fun j hj hjk => hspares j hj (by omega)
    obtain ⟨hsignals, hsame, o, hstate⟩ := ih (by omega) hfewer
    have hshows := shows_trace hcode hstraight (by omega) hfewer
    rw [cycles_succ, inTurn_take_succ m hk]
    generalize ht : m.cycles k = t at hsignals hsame hstate
    generalize hu : m.inTurn (is.take k) = u at hsignals hsame hstate hshows
    cases hfault : u.fault with
    | some f =>
      rw [Trace.next_of_fault hfault, Trace.next_of_fault (by rw [hsame, hfault])]
      exact ⟨hsignals, hsame, o, hstate⟩
    | none =>
      have hlength : u.signals.length = k := by
        rw [← hu] at hfault ⊢
        rw [inTurn, Trace.length_signals hfault, List.length_map, List.length_take]
        omega
      have hi : is[k].Straight := hstraight is[k] (List.getElem_mem hk)
      have hfetch : t.state.fetch = .ok is[k].encode := by
        rw [hstate]
        refine fetch_of_shows (j := k) hshows (by rw [← hlength]; rfl) ?_
        rw [List.getElem?_map, List.getElem?_eq_getElem hk]
        rfl
      have hnone : t.fault = none := by rw [hsame, hfault]
      rw [hstate] at hfetch
      obtain ⟨herror, hok⟩ := cycle_withPlace hi hfetch
      rw [← hstate] at herror hok
      cases hr : (u.state.alone is[k]).result with
      | error f =>
        have hcycle := herror f hr
        rw [Trace.next_of_error hfault hr, Trace.next_of_error hnone (by rw [hcycle]; rfl), hcycle]
        exact ⟨hsignals, rfl, _, rfl⟩
      | ok r =>
        have hcycle := hok r hr
        rw [Trace.next_of_ok hfault hr, Trace.next_of_ok hnone (by rw [hcycle]; rfl), hcycle]
        refine ⟨by rw [hsignals], rfl, is[k].encode, ?_⟩
        rw [List.length_append, List.length_singleton]
        rfl

/-- **A loaded program runs as its list of instructions does.**  Let a straight program be assembled
    and loaded into a new machine, which takes any of up to 1792 instructions.  For every number `k`
    of them, if no store of the first `k` hits the program, then `k` cycles report the same signals
    and the same fault as the first `k` instructions executed in turn on that machine, and leave the
    same machine but for the noted opcode and the program counter; and this is behind the
    instructions that went well. -/
theorem straight_line_run (keys : K) (d : Dialect) (r : ByteStream) (is : List Instruction)
    (hlength : is.length ≤ 1792) (hstraight : ∀ i ∈ is, i.Straight) (k : Nat) (hk : k ≤ is.length)
    (hspares : ((powerOn keys d r).load (assemble is).toArray).state.Spares is k) :
    let loaded := (powerOn keys d r).load (assemble is).toArray
    let run := loaded.state.cycles k
    let direct := loaded.state.inTurn (is.take k)
    loaded.result = .ok () ∧
    run.signals = direct.signals ∧
    run.fault = direct.fault ∧
    run.state.pc = 0x200 + 2 * direct.signals.length ∧
    run.state = { direct.state with lastOpcode := run.state.lastOpcode, pc := run.state.pc } := by
  intro loaded run direct
  have hbytes := length_assemble is
  have hfits : (assemble is).toArray.size ≤ programMax := by
    rw [List.size_toArray, hbytes]
    show 2 * is.length ≤ 3584
    omega
  have hload : loaded = .ok { powerOn keys d r with
      memory := Memory.initial.overlay programStart (assemble is).toArray } () := load_of_le hfits
  have hcode : loaded.state.memory.Shows programStart (assemble is) := by
    rw [hload]
    apply Memory.shows_overlay
    show 0x200 + (assemble is).length ≤ 4096
    omega
  have hpc : loaded.state.pc = programStart := by rw [hload]; rfl
  obtain ⟨hsignals, hfault, o, hstate⟩ := cycles_match hpc hcode hstraight hk hspares
  refine ⟨by rw [hload]; rfl, hsignals, hfault, ?_, ?_⟩
  · show (loaded.state.cycles k).state.pc = _
    rw [hstate]
    rfl
  · show (loaded.state.cycles k).state = _
    rw [hstate]
    rfl

/-- Digits stored behind the program, and then registers loaded from beyond the end of memory: the
    four instructions that go well count, and the fifth is where the run stops. -/
theorem straight_line_run_of_fault :
    let is : List Instruction :=
      [.setIndex 0x300, .setByte 0 0x7B, .storeDecimal 0, .setIndex 0xFFF, .load 1, .clear]
    let m := ((powerOn Keypad.released .plain (.repeating #[])).load (assemble is).toArray).state
    (is.length ≤ 1792 ∧ (∀ i ∈ is, i.Straight) ∧ m.Spares is 5) ∧
    (m.cycles 5).signals = [.quiet, .quiet, .quiet, .quiet] ∧
    (m.cycles 5).fault = some (.outOfBounds 0x1000 0x1000) ∧
    (m.cycles 5).state.pc = 0x208 ∧
    (m.cycles 5).state.delay.value = 56 := by
  intro is m
  have hstraight : ∀ i ∈ is, i.Straight := by simp [is, Instruction.Straight]
  have hindex : (m.inTurn (is.take 2)).state.index.toNat = 0x300 := by decide +kernel
  have hspares : m.Spares is 5 := by
    intro j hj hlt
    match j, hlt with
    | 0, _ | 1, _ | 3, _ | 4, _ =>
      -- nothing is stored
      intro t r hfault hr a hfrom hto
      exact absurd hto (Nat.not_lt.2 hfrom)
    | 2, _ =>
      intro t r hfault hr a hfrom hto
      have hbehind : (m.inTurn (is.take 2)).state.index.toNat ≤ a := hfrom
      right
      show 0x20C ≤ a
      omega
  obtain ⟨-, hsignals, hfault, hpc, hstate⟩ :=
    straight_line_run Keypad.released .plain (.repeating #[]) is (by decide) hstraight 5 (by decide)
      hspares
  refine ⟨⟨by decide, hstraight, hspares⟩, ?_, ?_, ?_, ?_⟩
  · rw [hsignals]; decide +kernel
  · rw [hfault]; decide +kernel
  · rw [hpc]; decide +kernel
  · rw [hstate]; decide +kernel

end

end Machine

end Chip8
