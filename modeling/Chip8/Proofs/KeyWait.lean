/-
  Waiting for a key.

  `FX0A` waits by being executed over and over again: a cycle that finds no key down moves the
  program counter behind the opcode, and then back to it.  So the machine stays where it is, but it
  does not stand still.

  1. **A cycle of waiting** — all that is left of it is a tick of both timers, and the note of the
     opcode (`AwaitsKey.cycle_of_allUp`).  The next cycle fetches the same opcode.

  2. **Any number of them** — the keys may change in between, as long as none of the sixteen is down
     when a cycle looks at them.  Each change is the business of whoever makes it: cycles do not
     change keys, and so the keys are what the changes alone have made of them
     (`AwaitsKey.after`).

  3. **The key** — the first cycle that finds keys down takes the lowest of them, and the program
     goes on (`key_wait_stalls`).
-/
import Chip8.Proofs.Stutter

namespace Chip8.Machine

variable {K : Type}

/-! ## A cycle of waiting -/

/-- **The machine is at an opcode that waits for a key**: `FX0A`. -/
structure AwaitsKey (m : Machine K) (o : Opcode) : Prop where
  fetch : m.fetch = .ok o
  family : o.family = 0xF
  low : o.low = 0x0A

/-- The machine that has waited for `n` cycles. -/
def waited (m : Machine K) (o : Opcode) (n : Nat) : Machine K :=
  { m with
    lastOpcode := if n = 0 then m.lastOpcode else o
    delay := .ticks n m.delay
    sound := .ticks n m.sound }

/-- Waiting goes on where it was. -/
theorem waited_one_waited (m : Machine K) (o : Opcode) (n : Nat) :
    (m.waited o 1).waited o n = m.waited o (n + 1) := by
  cases n <;> rfl

namespace AwaitsKey

variable {m : Machine K} {o : Opcode}

theorem decode (h : m.AwaitsKey o) : Instruction.decode o = .ok (.waitKey o.x) :=
  Instruction.decode_eq_ok_iff.2 (Opcode.ofByte_eq_iff.2 ⟨h.family, rfl, h.low⟩)

/-- It still is, however long it has waited. -/
theorem waited (h : m.AwaitsKey o) (n : Nat) : (m.waited o n).AwaitsKey o :=
  ⟨h.fetch, h.family, h.low⟩

/-- And whatever the keys are. -/
theorem withKeys (h : m.AwaitsKey o) (keys : K) : (m.withKeys keys).AwaitsKey o :=
  ⟨h.fetch, h.family, h.low⟩

end AwaitsKey

variable [KeySource K]

/-- None of the sixteen keys is down. -/
def AllUp (m : Machine K) : Prop := ∀ k < keyCount, m.isKeyDown k = false

instance (m : Machine K) : Decidable m.AllUp :=
  inferInstanceAs (Decidable (∀ k < keyCount, m.isKeyDown k = false))

theorem lowestDown_eq_none_iff_allUp {m : Machine K} : lowestDown m.keys = none ↔ m.AllUp := by
  rw [lowestDown_eq_none_iff]
  constructor
  · intro h k hk
    exact h ⟨k, hk⟩
  · intro h k
    exact h k.val k.isLt

/-- If some key is down, one of them is the lowest. -/
theorem exists_lowestDown {m : Machine K} (h : ∃ k < keyCount, m.isKeyDown k = true) :
    ∃ k : Fin 16, lowestDown m.keys = some k ∧ m.isKeyDown k = true ∧
      ∀ j < k.val, m.isKeyDown j = false := by
  obtain ⟨i, hi, hdown⟩ := h
  cases hlowest : lowestDown m.keys with
  | none =>
    rw [lowestDown_eq_none_iff_allUp.1 hlowest i hi] at hdown
    cases hdown
  | some k =>
    obtain ⟨hk, hbelow⟩ := (lowestDown_eq_some_iff m.keys k).1 hlowest
    refine ⟨k, rfl, hk, ?_⟩
    intro j hj
    exact hbelow ⟨j, Nat.lt_trans hj k.isLt⟩ hj

namespace AwaitsKey

variable {m : Machine K} {o : Opcode}

/-- **With no key down, a cycle waits.** -/
theorem cycle_of_allUp (h : m.AwaitsKey o) (hup : m.AllUp) :
    m.cycle = .ok (m.waited o 1) .waiting := by
  have hnone := lowestDown_eq_none_iff_allUp.2 hup
  have heffect : (m.begin o).effect (.waitKey o.x) = m.begin o := by
    simp only [effect, begin, hnone]
  have hflow : m.flow (.waitKey o.x) = .again := by rw [flow, hnone]; rfl
  have hreport : m.report (.waitKey o.x) = .waiting := by rw [report, hnone]; rfl
  rw [cycle_of_no_fault h.fetch h.decode rfl, heffect, hflow, hreport]
  -- two forward and two back
  rfl

/-- **With a key down, it takes the lowest.** -/
theorem cycle_of_lowestDown (h : m.AwaitsKey o) {k : Fin 16} (hk : lowestDown m.keys = some k) :
    m.cycle = .ok { m.begin o with
      registers := m.registers.write o.x (UInt8.ofNat k) } .quiet := by
  have heffect : (m.begin o).effect (.waitKey o.x) =
      (m.begin o).setRegister o.x (UInt8.ofNat k) := by
    simp only [effect, begin, hk]
  have hflow : m.flow (.waitKey o.x) = .next := by rw [flow, hk]; rfl
  have hreport : m.report (.waitKey o.x) = .quiet := by rw [report, hk]; rfl
  rw [cycle_of_no_fault h.fetch h.decode rfl, heffect, hflow, hreport]
  rfl

end AwaitsKey

/-! ## Any number of them -/

omit [KeySource K] in
/-- The event is a cycle. -/
def Event.isCycle : Event K → Bool
  | .cycle => true
  | .load _ | .rekey _ | .reset => false

/-- No key is down when a cycle looks at them.  In between there may be. -/
def Unpressed (m : Machine K) (e : Event K) : Prop := e = .cycle → m.AllUp

theorem unpressed_rekey (m : Machine K) (change : K → K) : m.Unpressed (.rekey change) := by
  intro h
  cases h

/-- What changes of keys make of the keys depends on nothing else. -/
theorem keys_after_rekeys {m m' : Machine K} (h : m'.keys = m.keys) (es : List (Event K)) :
    (m'.after (es.filter Event.isRekey)).keys = (m.after (es.filter Event.isRekey)).keys := by
  induction es generalizing m m' with
  | nil => exact h
  | cons e es ih =>
    cases e with
    | rekey change => exact ih (congrArg change h)
    | _ => exact ih h

/-- **A machine that waits for a key goes on waiting**, while the keys change and none is down when
    it looks.  Induction on the run, with one more cycle of waiting for each cycle. -/
theorem AwaitsKey.after {m : Machine K} {o : Opcode} (h : m.AwaitsKey o) {es : List (Event K)}
    (hes : ∀ e ∈ es, e.Waits) (hnone : m.Throughout Unpressed es) :
    m.after es =
      (m.waited o (es.countP Event.isCycle)).withKeys (m.after (es.filter Event.isRekey)).keys := by
  induction es generalizing m with
  | nil => rfl
  | cons e es ih =>
    have hrest : ∀ e ∈ es, e.Waits := fun e' he' => hes e' (List.mem_cons_of_mem e he')
    obtain ⟨hhead, htail⟩ := throughout_cons.1 hnone
    cases e with
    | load program => exact absurd (hes _ (List.mem_cons_self ..)) id
    | reset => exact absurd (hes _ (List.mem_cons_self ..)) id
    | rekey change => exact ih (h.withKeys (change m.keys)) hrest htail
    | cycle =>
      have hcycle := h.cycle_of_allUp (hhead rfl)
      have hkeys := keys_after_rekeys (show (m.waited o 1).keys = m.keys from rfl) es
      rw [perform_cycle, hcycle] at htail
      rw [after_cons, perform_cycle, hcycle, Outcome.state_ok, ih (h.waited 1) hrest htail, hkeys,
        waited_one_waited, List.countP_cons_of_pos rfl]
      rfl

/-! ## The key -/

/-- **Waiting for a key stalls the machine, and nothing but that.**  Take a machine at `FX0A`, and
    any run of cycles and changes of keys in which no key of the sixteen is down when a cycle looks.
    Each cycle of the run reports that it waits.  Then the machine is as it was, but for the keys,
    which are what the changes alone have made of them, for the noted opcode, which is this one as
    soon as there was a cycle, and for the timers, which have lost one for each cycle, as far as
    they could.  If now some of the sixteen keys are down, the next cycle is quiet, puts the lowest
    of them into `VX`, and moves the program counter on by two; and besides one more tick and the
    note, it changes nothing else. -/
theorem key_wait_stalls (m : Machine K) {o : Opcode} (hfetch : m.fetch = .ok o)
    (hwait : o.family = 0xF ∧ o.low = 0x0A) (es : List (Event K)) (hes : ∀ e ∈ es, e.Waits)
    (hnone : m.Throughout Unpressed es) :
    let n := es.countP Event.isCycle
    let now := m.after es
    (∀ k, es[k]? = some .cycle → (m.after (es.take k)).cycle.result = .ok .waiting) ∧
    now = { m with
      keys := (m.after (es.filter Event.isRekey)).keys
      lastOpcode := if n = 0 then m.lastOpcode else o
      delay := now.delay
      sound := now.sound } ∧
    now.delay.value.toNat = m.delay.value.toNat - n ∧
    now.sound.value.toNat = m.sound.value.toNat - n ∧
    ((∃ k < keyCount, now.isKeyDown k = true) →
      ∃ k < keyCount, now.isKeyDown k = true ∧ (∀ j < k, now.isKeyDown j = false) ∧
        now.cycle = .ok { now with
          lastOpcode := o
          registers := now.registers.write o.x (UInt8.ofNat k)
          pc := now.pc + 2
          delay := now.delay.tick
          sound := now.sound.tick } .quiet) := by
  intro n now
  have h : m.AwaitsKey o := ⟨hfetch, hwait.1, hwait.2⟩
  have hnow : now = (m.waited o n).withKeys (m.after (es.filter Event.isRekey)).keys :=
    h.after hes hnone
  refine ⟨?_, ?_, ?_, ?_, ?_⟩
  · intro k hk
    have hbegin := h.after (fun e he => hes e (List.mem_of_mem_take he)) (hnone.take k)
    have hup : (m.after (es.take k)).AllUp := hnone k .cycle hk rfl
    have hawaits : (m.after (es.take k)).AwaitsKey o := by
      rw [hbegin]
      exact (h.waited _).withKeys _
    rw [hawaits.cycle_of_allUp hup]
    rfl
  · rw [hnow]
    rfl
  · rw [hnow]
    exact m.delay.toNat_ticks n
  · rw [hnow]
    exact m.sound.toNat_ticks n
  · intro hdown
    obtain ⟨k, hlowest, hk, hbelow⟩ := exists_lowestDown hdown
    have hawaits : now.AwaitsKey o := by
      rw [hnow]
      exact (h.waited n).withKeys _
    exact ⟨k, k.isLt, hk, hbelow, hawaits.cycle_of_lowestDown hlowest⟩

/-- The ninth key goes down and up again between two cycles, and neither sees it.  Then the seventh
    and the fourth go down, and the third cycle puts four into `V3`. -/
theorem key_wait_stalls_of_four :
    let m := ((powerOn Keypad.released .plain (.repeating #[])).load #[0xF3, 0x0A]).state
    let es : List (Event Keypad) :=
      [.cycle, .rekey fun p => p.set 9 true, .rekey fun p => p.set 9 false, .cycle,
        .rekey fun p => p.set 7 true, .rekey fun p => p.set 4 true]
    let now := m.after es
    (m.fetch = .ok 0xF30A ∧ (0xF30A : Opcode).family = 0xF ∧ (0xF30A : Opcode).low = 0x0A) ∧
    ((∀ e ∈ es, e.Waits) ∧ m.Throughout Unpressed es) ∧
    (now.pc = 0x200 ∧ now.lastOpcode = 0xF30A ∧ now.delay.value.toNat = 60 - 2) ∧
    now.cycle.result = .ok .quiet ∧
    now.cycle.state.registers.read 3 = 4 ∧
    now.cycle.state.pc = 0x202 := by
  intro m es now
  have hfetch : m.fetch = .ok 0xF30A :=
    fetch_of_overlay (p := #[0xF3, 0x0A]) (k := 0) rfl (by decide) rfl (by decide)
  have hes : ∀ e ∈ es, e.Waits := by simp [es, Event.Waits]
  have hfirst := AwaitsKey.cycle_of_allUp (m := m) ⟨hfetch, rfl, rfl⟩ (by decide)
  have hnone : m.Throughout Unpressed es := by
    rw [throughout_cons, perform_cycle, hfirst, throughout_cons, throughout_cons, throughout_cons,
      throughout_cons, throughout_cons]
    exact ⟨fun _ => by decide, unpressed_rekey _ _, unpressed_rekey _ _, fun _ => by decide,
      unpressed_rekey _ _, unpressed_rekey _ _, throughout_nil _⟩
  obtain ⟨-, hnow, hdelay, -, hkey⟩ := key_wait_stalls m hfetch ⟨rfl, rfl⟩ es hes hnone
  have hkeys : now.keys =
      (((Keypad.released.set 9 true).set 9 false).set 7 true).set 4 true := by
    rw [show now = _ from hnow]
    rfl
  have hdown : now.isKeyDown 4 = true := by
    rw [isKeyDown, hkeys]
    decide
  have hup : ∀ j < 4, now.isKeyDown j = false := by
    simp only [isKeyDown, hkeys]
    decide
  obtain ⟨k, -, hk, hbelow, hcycle⟩ := hkey ⟨4, by decide, hdown⟩
  obtain rfl : k = 4 := by
    rcases Nat.lt_trichotomy k 4 with hlt | heq | hgt
    · rw [hup k hlt] at hk
      cases hk
    · exact heq
    · rw [hbelow 4 hgt] at hdown
      cases hdown
  have hpc : now.pc = 0x200 := by
    rw [show now = _ from hnow]
    rfl
  have hnoted : now.lastOpcode = 0xF30A := by
    rw [show now = _ from hnow]
    rfl
  refine ⟨⟨hfetch, rfl, rfl⟩, ⟨hes, hnone⟩, ⟨hpc, hnoted, hdelay⟩, ?_, ?_, ?_⟩
  · rw [hcycle]
    rfl
  · rw [hcycle]
    exact (Registers.read_write ..).trans (if_pos rfl)
  · rw [hcycle]
    exact congrArg (· + 2) hpc

end Chip8.Machine
