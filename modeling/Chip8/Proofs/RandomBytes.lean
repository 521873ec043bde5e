/-
  What becomes of the random bytes.

  1. **Draws** — a request DRAWS a byte if it executes a word `CXNN`, in a cycle or directly, and
     whatever the mask.  How many requests of a list do so is counted by `draws`, which looks at
     words and never at the stream.

  2. **In order** — with each draw the stream moves on by one byte, and by nothing else that can be
     asked of a machine, a reset included.  So the bytes are handed out one by one, each to the draw
     whose number it has (`random_afterAll`, `answer_of_draw`).

  3. **Ahead** — two machines that differ in their streams only are ALIKE FOR `n` bytes if the next
     `n` are the same.  A draw uses up one of these, and it is the only request that does.  So the
     two answer alike until there are none left (`AlikeFor.answer`, `AlikeFor.afterAll`).
-/
import Chip8.Proofs.SameWay

namespace Chip8

/-! ## Streams from here on -/

namespace ByteStream

/-- The bytes still to come. -/
def ahead (s : ByteStream) (k : Nat) : UInt8 := s.byte (s.taken + k)

/-- The stream after `n` bytes. -/
def drop (s : ByteStream) (n : Nat) : ByteStream := { s with taken := s.taken + n }

theorem drop_drop (s : ByteStream) (a b : Nat) : (s.drop a).drop b = s.drop (a + b) := by
  rw [drop, drop, drop, Nat.add_assoc]

/-- Taking bytes brings every other byte nearer. -/
theorem ahead_drop (s : ByteStream) (n k : Nat) : (s.drop n).ahead k = s.ahead (n + k) := by
  rw [ahead, ahead, drop, Nat.add_assoc]

/-- One byte after the other. -/
theorem ahead_rest (s : ByteStream) (k : Nat) : s.rest.ahead k = s.ahead (k + 1) := by
  rw [Nat.add_comm]
  exact s.ahead_drop 1 k

end ByteStream

/-! ## Draws -/

/-- The register and the mask of a word `CXNN`. -/
def Opcode.draw? (o : Opcode) : Option (Register × UInt8) :=
  match o.family with
  | 0xC => some (o.x, o.low)
  | _ => none

theorem Opcode.draw?_eq_some_iff {o : Opcode} {x : Register} {mask : UInt8} :
    o.draw? = some (x, mask) ↔ (Instruction.random x mask).encode = o := by
  rw [Instruction.encode, ofByte_eq_iff, draw?]
  constructor
  · intro h
    split at h
    · rename_i hfamily
      cases h
      exact ⟨hfamily, rfl, rfl⟩
    · cases h
  · rintro ⟨hfamily, rfl, rfl⟩
    simp only [hfamily]

/-- No other instruction has such a word. -/
theorem Instruction.draw?_encode (i : Instruction) :
    i.encode.draw? = match i with
      | .random x mask => some (x, mask)
      | _ => none := by
  have haddress := fun t a => (Opcode.fields_ofAddress t a).1
  have hbyte := fun t x b => (Opcode.fields_ofByte t x b).1
  have hpair := fun t x y n => (Opcode.fields_ofPair t x y n).1
  cases i with
  | clear | ret => rfl
  | random x mask => exact Opcode.draw?_eq_some_iff.2 rfl
  | skip c =>
    cases c <;> simp only [encode, Condition.encode, Opcode.draw?, hbyte, hpair]
  | _ => simp only [encode, Opcode.draw?, haddress, hbyte, hpair]

/-- And every such word is an instruction. -/
theorem Opcode.draw?_of_decode_error {o : Opcode} {f : Fault}
    (h : Instruction.decode o = .error f) : o.draw? = none := by
  cases hdraw : o.draw? with
  | none => rfl
  | some p =>
    obtain ⟨x, mask⟩ := p
    rw [Instruction.decode_eq_ok_iff.2 (draw?_eq_some_iff.1 hdraw)] at h
    cases h

namespace Machine

variable {K : Type}

/-- **What a request draws a byte for**: the register and the mask. -/
def draw? (m : Machine K) : Request K → Option (Register × UInt8)
  | .execute i => i.encode.draw?
  | .event .cycle =>
    match m.fetch with
    | .ok o => o.draw?
    | .error _ => none
  | _ => none

theorem draw?_cycle_of_fetch {m : Machine K} {o : Opcode} (h : m.fetch = .ok o) :
    m.draw? (.event .cycle) = o.draw? := by
  rw [draw?, h]

theorem draw?_cycle_of_fetch_error {m : Machine K} {f : Fault} (h : m.fetch = .error f) :
    m.draw? (.event .cycle) = none := by
  rw [draw?, h]

section

variable [KeySource K]

/-- How many requests draw a byte, asked one after the other. -/
def draws (m : Machine K) : List (Request K) → Nat
  | [] => 0
  | q :: qs => (m.draw? q).isSome.toNat + (m.answer q).state.draws qs

@[simp] theorem draws_nil (m : Machine K) : m.draws [] = 0 := rfl

@[simp] theorem draws_cons (m : Machine K) (q : Request K) (qs : List (Request K)) :
    m.draws (q :: qs) = (m.draw? q).isSome.toNat + (m.answer q).state.draws qs := rfl

/-- One request more. -/
theorem draws_concat (m : Machine K) (qs : List (Request K)) (q : Request K) :
    m.draws (qs ++ [q]) = m.draws qs + ((m.afterAll qs).draw? q).isSome.toNat := by
  induction qs generalizing m with
  | nil => exact Nat.add_comm ..
  | cons p ps ih => rw [List.cons_append, draws_cons, draws_cons, ih, afterAll_cons, Nat.add_assoc]

/-! ## In order -/

theorem random_effect_eq_drop (m : Machine K) (i : Instruction) :
    (m.effect i).random = m.random.drop i.encode.draw?.isSome.toNat := by
  rw [random_effect, Instruction.draw?_encode]
  cases i <;> rfl

/-- An instruction that is refused is not one that draws. -/
theorem random_execute (m : Machine K) (i : Instruction) :
    (m.execute i).state.random = m.random.drop i.encode.draw?.isSome.toNat := by
  cases hfault : m.fault? i with
  | some f =>
    rw [execute_of_fault hfault, Instruction.draw?_encode]
    cases i with
    | random x mask => cases hfault
    | _ => rfl
  | none =>
    rw [execute_of_no_fault hfault]
    exact m.random_effect_eq_drop i

/-- Nor is a word that is unknown. -/
theorem random_cycle (m : Machine K) :
    m.cycle.state.random = m.random.drop (m.draw? (.event .cycle)).isSome.toNat := by
  cases m.course with
  | unfetched f hfetch hcycle =>
    rw [hcycle, draw?_cycle_of_fetch_error hfetch]
    rfl
  | unknown o f hfetch hdecode hcycle =>
    rw [hcycle, draw?_cycle_of_fetch hfetch, Opcode.draw?_of_decode_error hdecode]
    rfl
  | faulted o i f hfetch hdecode hfault hcycle =>
    have hrefused := m.random_execute i
    rw [execute_of_fault hfault, Instruction.encode_of_decode hdecode] at hrefused
    rw [hcycle, draw?_cycle_of_fetch hfetch]
    exact hrefused
  | executed o i hfetch hdecode hfault hcycle =>
    have heffect := (m.begin o).random_effect_eq_drop i
    rw [Instruction.encode_of_decode hdecode] at heffect
    rw [hcycle, draw?_cycle_of_fetch hfetch]
    exact heffect

/-- **A draw moves the stream on by one byte, and no other request moves it.** -/
theorem random_answer (m : Machine K) (q : Request K) :
    (m.answer q).state.random = m.random.drop (m.draw? q).isSome.toNat := by
  cases q with
  | execute i => exact m.random_execute i
  | move f => rfl
  | event e =>
    cases e with
    | cycle => exact m.random_cycle
    | rekey change => rfl
    | reset => rfl
    | load program =>
      obtain ⟨memory, hload⟩ := m.perform_load_state program
      show (m.perform (.load program)).state.random = m.random
      rw [hload]

/-- **So as many bytes are taken as there are draws.** -/
theorem random_afterAll (m : Machine K) (qs : List (Request K)) :
    (m.afterAll qs).random = m.random.drop (m.draws qs) := by
  induction qs generalizing m with
  | nil => rfl
  | cons q qs ih => rw [afterAll_cons, ih, random_answer, ByteStream.drop_drop, draws_cons]

/-- **A draw succeeds**, and what it leaves in its register is the next byte, masked. -/
theorem answer_of_draw {m : Machine K} {q : Request K} {x : Register} {mask : UInt8}
    (h : m.draw? q = some (x, mask)) :
    (m.answer q).result = .ok .quiet ∧
    (m.answer q).state.registers.read x = mask &&& m.random.front := by
  have hread : ((m.registers.write x (mask &&& m.random.front)).read x) =
      mask &&& m.random.front := by
    rw [Registers.read_write, if_pos rfl]
  cases q with
  | move f => cases h
  | execute i =>
    obtain rfl := Instruction.eq_of_encode i.decode_encode (Opcode.draw?_eq_some_iff.1 h)
    exact ⟨rfl, hread⟩
  | event e =>
    cases e with
    | rekey change => cases h
    | reset => cases h
    | load program => cases h
    | cycle =>
      cases hfetch : m.fetch with
      | error f => rw [draw?_cycle_of_fetch_error hfetch] at h; cases h
      | ok o =>
        rw [draw?_cycle_of_fetch hfetch, Opcode.draw?_eq_some_iff] at h
        have hcycle := cycle_of_no_fault hfetch (Instruction.decode_eq_ok_iff.2 h) rfl
        rw [answer, perform_cycle, hcycle]
        exact ⟨rfl, hread⟩

end

/-! ## Ahead -/

/-- The machine with another stream. -/
def withRandom (m : Machine K) (s : ByteStream) : Machine K := { m with random := s }

/-- **The same machine but for its stream, and the next `n` bytes are the same.** -/
def AlikeFor (n : Nat) (m m' : Machine K) : Prop :=
  ∃ s : ByteStream, (∀ k < n, s.ahead k = m.random.ahead k) ∧ m' = m.withRandom s

namespace AlikeFor

variable {m m' : Machine K} {n : Nat}

/-- Fewer bytes are the same all the more. -/
theorem mono {a : Nat} (h : m.AlikeFor n m') (ha : a ≤ n) : m.AlikeFor a m' := by
  obtain ⟨s, hs, rfl⟩ := h
  exact ⟨s, fun k hk => hs k (Nat.lt_of_lt_of_le hk ha), rfl⟩

end AlikeFor

variable [KeySource K]

/-- What is fetched, what keeps an instruction from running, where it leads and what it reports is
    no matter of the stream. -/
theorem sameWay_withRandom (m : Machine K) (s : ByteStream) : m.SameWay (m.withRandom s) where
  fetch := rfl
  fault? := fault?_congr rfl rfl
  flow := flow_congr rfl rfl (.refl _)
  report := report_congr (.refl _)

/-- Nor does anything that is done aside use up a byte. -/
theorem keptAside_alikeFor (n : Nat) : KeptAside (AlikeFor (K := K) n) where
  sameWay := by
    rintro m _ ⟨s, -, rfl⟩
    exact m.sameWay_withRandom s
  aside := by
    rintro m _ ⟨s, hs, rfl⟩ note memory pc delay sound keys
    exact ⟨s, hs, rfl⟩
  reset := by
    rintro m _ ⟨s, hs, rfl⟩
    exact ⟨s, hs, rfl⟩

/-- What an instruction does is no matter of the stream either, unless it asks for a random byte. -/
theorem effect_withRandom (m : Machine K) (s : ByteStream) (i : Instruction) :
    (m.withRandom s).effect i = match i with
      | .random x mask => (m.setRegister x (mask &&& s.front)).withRandom s.rest
      | _ => (m.effect i).withRandom s := by
  cases i with
  | draw x y rows =>
    have hsame : (m.withRandom s).memory.read (m.withRandom s).index.toNat rows.val =
        m.memory.read m.index.toNat rows.val := rfl
    simp only [effect, hsame]
    cases m.memory.read m.index.toNat rows.val <;> rfl
  | load x =>
    simp only [effect, withRandom]
    cases m.memory.read m.index.toNat (x.val + 1) <;> rfl
  | waitKey x =>
    simp only [effect, withRandom]
    cases lowestDown m.keys <;> rfl
  | _ => rfl

namespace AlikeFor

variable {m m' : Machine K} {n : Nat}

/-- **An effect uses up the byte that it draws**, if it draws one. -/
theorem effect {i : Instruction} (h : m.AlikeFor (i.encode.draw?.isSome.toNat + n) m') :
    (m.effect i).AlikeFor n (m'.effect i) := by
  obtain ⟨s, hs, rfl⟩ := h
  have hrandom := m.random_effect i
  rw [Instruction.draw?_encode] at hs
  rw [effect_withRandom]
  cases i with
  | random x mask =>
    -- the byte that is drawn is the first of those that are the same
    have hfront : s.front = m.random.front := hs 0 (Nat.lt_add_right n Nat.one_pos)
    have hrest : ∀ k < n, s.rest.ahead k = m.random.rest.ahead k := by
      intro k hk
      rw [ByteStream.ahead_rest, ByteStream.ahead_rest]
      exact hs (k + 1) (by rw [Nat.add_comm]; exact Nat.add_lt_add_left hk 1)
    rw [hfront]
    exact ⟨s.rest, hrest, rfl⟩
  | _ =>
    refine ⟨s, ?_, rfl⟩
    intro k hk
    rw [hrandom]
    exact hs k (Nat.lt_of_lt_of_eq hk (Nat.zero_add n).symm)

/-- **A request is answered alike**, and uses up the byte that it draws, if it draws one. -/
theorem answer {q : Request K} (h : m.AlikeFor ((m.draw? q).isSome.toNat + n) m') :
    Outcome.Related (AlikeFor n) (m.answer q) (m'.answer q) := by
  refine (keptAside_alikeFor n).answer (h.mono (Nat.le_add_left ..)) ?_ ?_
  · rintro rfl i hfetch -
    rw [draw?_cycle_of_fetch hfetch] at h
    exact ((keptAside_alikeFor _).begin h i.encode).effect
  · rintro i rfl -
    exact h.effect

/-- And so is one request after the other, as long as there are bytes left. -/
theorem afterAll {qs : List (Request K)} (h : m.AlikeFor (m.draws qs + n) m') :
    (m.afterAll qs).AlikeFor n (m'.afterAll qs) := by
  induction qs generalizing m m' with
  | nil => exact h.mono (Nat.le_add_left ..)
  | cons q qs ih =>
    rw [draws_cons, Nat.add_assoc] at h
    rw [afterAll_cons, afterAll_cons]
    exact ih h.answer.state

end AlikeFor

/-! ## One byte for each draw -/

/-- **Random bytes are handed out in order, one for each `CXNN` that is executed.**  Whatever is
    asked of a machine, as many bytes are taken from its stream as there are draws.  A draw always
    succeeds, and leaves the byte that has its number in its register, masked.  So let the machine
    be given another stream, of which the first `k` bytes are the same: every request is answered
    the same and leaves the same machine but for the stream, until there are more than `k` draws. -/
theorem random_bytes_in_order (m : Machine K) :
    (∀ qs : List (Request K),
      (m.afterAll qs).random = { m.random with taken := m.random.taken + m.draws qs }) ∧
    (∀ (past : List (Request K)) (next : Request K) (x : Register) (mask : UInt8),
      (m.afterAll past).draw? next = some (x, mask) →
        let o := (m.afterAll past).answer next
        o.result = .ok .quiet ∧
        o.state.registers.read x = mask &&& m.random.ahead (m.draws past)) ∧
    ∀ (k : Nat) (s : ByteStream), (∀ j < k, s.ahead j = m.random.ahead j) →
      ∀ (past : List (Request K)) (next : Request K), m.draws (past ++ [next]) ≤ k →
        let here := (m.afterAll past).answer next
        let there := ((m.withRandom s).afterAll past).answer next
        there.result = here.result ∧
        there.state = here.state.withRandom there.state.random := by
  refine ⟨m.random_afterAll, ?_, ?_⟩
  · intro past next x mask hdraw o
    obtain ⟨hresult, hread⟩ := answer_of_draw hdraw
    refine ⟨hresult, hread.trans ?_⟩
    rw [random_afterAll]
    rfl
  · intro k s hs past next hk here there
    have hstart : m.AlikeFor (m.draws past + ((m.afterAll past).draw? next).isSome.toNat)
        (m.withRandom s) := by
      rw [← draws_concat]
      exact ⟨s, fun j hj => hs j (Nat.lt_of_lt_of_le hj hk), rfl⟩
    have hnext : Outcome.Related (AlikeFor 0) here there := hstart.afterAll.answer
    obtain ⟨t, -, hstate⟩ := hnext.state
    exact ⟨hnext.result, by rw [hstate]; rfl⟩

/-- A draw whose mask is zero takes the first byte, a reset does not bring it back, and the draw
    behind that has the second; a stream with another third byte makes no difference. -/
theorem random_bytes_in_order_across_reset :
    let program : Array UInt8 := #[0xC0, 0x00]
    let m := ((powerOn Keypad.released .plain (.repeating #[0xA5, 0x3C])).load program).state
    let s : ByteStream := .repeating #[0xA5, 0x3C, 0x77]
    let past : List (Request Keypad) := [.event .cycle, .event .reset]
    let next : Request Keypad := .execute (.random 1 0x0F)
    let here := (m.afterAll past).answer next
    let there := ((m.withRandom s).afterAll past).answer next
    ((m.afterAll past).draw? next = some (1, 0x0F) ∧ (∀ j < 2, s.ahead j = m.random.ahead j) ∧
      m.draws (past ++ [next]) ≤ 2) ∧
    here.state.random.taken = 2 ∧
    there.result = .ok .quiet ∧
    here.state.registers.read 1 = 0x0C ∧
    there.state.registers.read 1 = 0x0C := by
  intro program m s past next here there
  have hfetch : m.fetch = .ok 0xC000 :=
    fetch_of_overlay (p := program) (k := 0) rfl (by decide) rfl (by decide)
  have hpast : m.draws past = 1 := by
    rw [draws_cons, draw?_cycle_of_fetch hfetch]
    rfl
  have hall : m.draws (past ++ [next]) = 2 := by
    rw [draws_concat, hpast]
    rfl
  have hagree : ∀ j < 2, s.ahead j = m.random.ahead j := by decide
  obtain ⟨htaken, hmasked, hsame⟩ := random_bytes_in_order m
  have hstream : here.state.random = { m.random with taken := 2 } := by
    have htwo := htaken (past ++ [next])
    rw [hall] at htwo
    exact htwo
  have hv1 : here.state.registers.read 1 = 0x0C := by
    have hsecond := (hmasked past next 1 0x0F rfl).2
    rw [hpast] at hsecond
    exact hsecond.trans (by decide)
  obtain ⟨hresult, hstate⟩ := hsame 2 s hagree past next (Nat.le_of_eq hall)
  refine ⟨⟨rfl, hagree, Nat.le_of_eq hall⟩, by rw [hstream], hresult, hv1, ?_⟩
  rw [hstate]
  exact hv1

end Machine

end Chip8
