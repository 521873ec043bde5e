/-
  The timers count the cycles that go well.

  A timer shows what it was started at, less one for every cycle that has gone well since.  Three
  things have to be right for that, and each is easy to get wrong by one:

  * both timers tick BEFORE the opcode of the cycle is executed, so the cycle that starts a timer
    does not count, and a cycle that reads the delay timer counts already;
  * a cycle that waits for a key, or that fetches a word without an instruction, goes well;
  * a cycle that fails puts the timers back.

  1. **Two timers, one law** — the two differ in the opcode that starts them and in nothing else, so
     everything is said once, of a `Clock`.

  2. **One cycle** — starts the timer, or ticks it if all goes well, or leaves it (`timer_perform`).

  3. **A run** — while nobody starts the timer it loses as many ticks as there were successes
     (`timer_after`).  So one has to know when it was last started, if at all, and from where on to
     count: that is `LastStart` (`timers_count_cycles`).
-/
import Chip8.Proofs.Frame
import Chip8.Proofs.History

namespace Chip8

/-! ## Two timers, one law -/

/-- One of the two timers. -/
inductive Clock where
  | delay
  | sound
  deriving DecidableEq, Repr

namespace Clock

/-- The instruction that starts it at `VX`. -/
def start : Clock → Register → Instruction
  | delay => .setDelay
  | sound => .setSound

/-- The low byte of the opcode of that: `FX15` or `FX18`. -/
def low : Clock → UInt8
  | delay => 0x15
  | sound => 0x18

theorem encode_start (c : Clock) (x : Register) : (c.start x).encode = .ofByte 0xF x c.low := by
  cases c <;> rfl

end Clock

namespace Machine

variable {K : Type}

/-- The timer of that name. -/
def timer (m : Machine K) : Clock → Timer
  | .delay => m.delay
  | .sound => m.sound

theorem timer_begin (m : Machine K) (o : Opcode) (c : Clock) :
    (m.begin o).timer c = (m.timer c).tick := by
  cases c <;> rfl

variable [KeySource K]

/-- An instruction that starts the timer starts it at its register. -/
theorem timer_effect_start (m : Machine K) (c : Clock) (x : Register) :
    (m.effect (c.start x)).timer c = ⟨m.registers.read x⟩ := by
  cases c <;> rfl

/-- **No other instruction changes it.** -/
theorem timer_effect_of_ne (m : Machine K) {c : Clock} {i : Instruction}
    (h : ∀ x, i ≠ c.start x) : (m.effect i).timer c = m.timer c := by
  rcases c with _ | _
  · show (m.effect i).delay = m.delay
    rw [delay_effect]
    cases i with
    | setDelay x => exact absurd rfl (h x)
    | _ => rfl
  · show (m.effect i).sound = m.sound
    rw [sound_effect]
    cases i with
    | setSound x => exact absurd rfl (h x)
    | _ => rfl

/-! ## One cycle -/

/-- The event is a cycle that goes well. -/
def succeeds (m : Machine K) : Event K → Bool
  | .cycle => m.cycle.result.isOk
  | .load _ | .rekey _ | .reset => false

/-- **The event starts the timer at `v`**: it is a cycle that executes `FX15`, or `FX18` for the
    sound timer, with `v` in `VX`. -/
structure Starts (c : Clock) (m : Machine K) (e : Event K) (v : UInt8) : Prop where
  cycle : e = .cycle
  executed : m.cycle.result = .ok .quiet
  opcode : ∃ o, m.fetch = .ok o ∧ o.family = 0xF ∧ o.low = c.low ∧ m.registers.read o.x = v

/-- The event does not start the timer, at whatever value. -/
def Unset (c : Clock) (m : Machine K) (e : Event K) : Prop := ∀ v, ¬ Starts c m e v

/-- Nothing but a cycle starts a timer. -/
theorem unset_of_ne_cycle {c : Clock} {m : Machine K} {e : Event K} (he : e ≠ .cycle) :
    Unset c m e := fun _ h => he h.cycle

/-- A cycle whose opcode has other digits does not. -/
theorem unset_of_fetch {c : Clock} {m : Machine K} {o : Opcode} (hfetch : m.fetch = .ok o)
    (h : ¬ (o.family = 0xF ∧ o.low = c.low)) : Unset c m .cycle := by
  rintro v ⟨-, -, o', hfetch', hfamily, hlow, -⟩
  rw [hfetch] at hfetch'
  cases hfetch'
  exact h ⟨hfamily, hlow⟩

/-- A start is executed whenever it is fetched, and leaves the timer at its register. -/
theorem cycle_of_start {m : Machine K} {c : Clock} {o : Opcode} (hfetch : m.fetch = .ok o)
    (hfamily : o.family = 0xF) (hlow : o.low = c.low) :
    m.cycle.result = .ok .quiet ∧ m.cycle.state.timer c = ⟨m.registers.read o.x⟩ := by
  have henc : (c.start o.x).encode = o := by
    rw [c.encode_start]
    exact Opcode.ofByte_eq_iff.2 ⟨hfamily, rfl, hlow⟩
  have hfault : m.fault? (c.start o.x) = none := by cases c <;> rfl
  have hreport : m.report (c.start o.x) = .quiet := by cases c <;> rfl
  rw [cycle_of_no_fault hfetch (Instruction.decode_eq_ok_iff.2 henc) hfault, hreport]
  refine ⟨rfl, ?_⟩
  show ((m.begin o).effect (c.start o.x)).timer c = ⟨m.registers.read o.x⟩
  rw [timer_effect_start]
  rfl

/-- **Every other cycle ticks the timer, if it goes well.** -/
theorem timer_cycle {m : Machine K} {c : Clock} (h : Unset c m .cycle) :
    m.cycle.state.timer c = if m.succeeds .cycle then (m.timer c).tick else m.timer c := by
  rw [succeeds]
  cases m.course with
  | unfetched f hfetch hcycle => rw [hcycle]; rfl
  | unknown o f hfetch hdecode hcycle => rw [hcycle]; exact m.timer_begin o c
  | faulted o i f hfetch hdecode hfault hcycle => rw [hcycle]; cases c <;> rfl
  | executed o i hfetch hdecode hfault hcycle =>
    have hother : ∀ x, i ≠ c.start x := by
      rintro x rfl
      have ho : Opcode.ofByte 0xF x c.low = o := by
        rw [← c.encode_start]
        exact Instruction.encode_of_decode hdecode
      obtain ⟨hfamily, -, hlow⟩ := Opcode.ofByte_eq_iff.1 ho
      exact h _ ⟨rfl, (cycle_of_start hfetch hfamily hlow).1, o, hfetch, hfamily, hlow, rfl⟩
    rw [hcycle]
    show ((m.begin o).effect i).timer c = (m.timer c).tick
    rw [timer_effect_of_ne _ hother, timer_begin]

/-- **What an event takes from a timer** that it does not start: one for a cycle that goes well, as
    far as there is anything to take. -/
theorem timer_perform {m : Machine K} {c : Clock} {e : Event K} (he : e ≠ .reset)
    (h : Unset c m e) :
    ((m.perform e).state.timer c).value.toNat =
      (m.timer c).value.toNat - (m.succeeds e).toNat := by
  cases e with
  | reset => exact absurd rfl he
  | rekey change => cases c <;> rfl
  | load program =>
    obtain ⟨memory, hload⟩ := m.perform_load_state program
    rw [hload]
    cases c <;> rfl
  | cycle =>
    rw [perform_cycle, timer_cycle h]
    cases m.succeeds .cycle with
    | false => rfl
    | true => exact (m.timer c).toNat_tick

/-! ## A run -/

/-- **How many cycles of a run went well.** -/
def successes (m : Machine K) : List (Event K) → Nat
  | [] => 0
  | e :: es => (m.succeeds e).toNat + (m.perform e).state.successes es

@[simp] theorem successes_nil (m : Machine K) : m.successes [] = 0 := rfl

@[simp] theorem successes_cons (m : Machine K) (e : Event K) (es : List (Event K)) :
    m.successes (e :: es) = (m.succeeds e).toNat + (m.perform e).state.successes es := rfl

/-- **A timer that nobody starts** has lost one for every success, as far as it could. -/
theorem timer_after {m : Machine K} {c : Clock} {es : List (Event K)} (hes : .reset ∉ es)
    (h : m.Throughout (Unset c) es) :
    ((m.after es).timer c).value.toNat = (m.timer c).value.toNat - m.successes es := by
  induction es generalizing m with
  | nil => rfl
  | cons e es ih =>
    rw [List.mem_cons, not_or] at hes
    obtain ⟨hhead, htail⟩ := throughout_cons.1 h
    rw [after_cons, ih hes.2 htail, timer_perform (Ne.symm hes.1) hhead, successes_cons,
      Nat.sub_sub]

/-- **In a run from `m` the timer was last started at `v`, and `k` cycles went well since.**  A
    timer that was not started at all in the run counts from 60, and from the beginning. -/
inductive LastStart (c : Clock) (m : Machine K) (es : List (Event K)) : Nat → Nat → Prop
  | never (h : m.Throughout (Unset c) es) : LastStart c m es 60 (m.successes es)
  | behind (past since : List (Event K)) (v : UInt8) (hes : es = past ++ .cycle :: since)
      (hstart : Starts c (m.after past) .cycle v)
      (hsince : (m.after past).cycle.state.Throughout (Unset c) since) :
      LastStart c m es v.toNat ((m.after past).cycle.state.successes since)

/-- One of the two is the case.  Induction on the run: the first event matters only if nothing
    behind it starts the timer. -/
theorem exists_lastStart (c : Clock) (m : Machine K) (es : List (Event K)) :
    ∃ v k, LastStart c m es v k := by
  induction es generalizing m with
  | nil => exact ⟨_, _, .never (throughout_nil m)⟩
  | cons e es ih =>
    obtain ⟨v, k, hlast⟩ := ih (m.perform e).state
    cases hlast with
    | behind past since v hes hstart hsince =>
      exact ⟨_, _, .behind (e :: past) since v (by rw [hes]; rfl) hstart hsince⟩
    | never h =>
      by_cases hhead : Unset c m e
      · exact ⟨_, _, .never (throughout_cons.2 ⟨hhead, h⟩)⟩
      · obtain ⟨v, hv⟩ := Classical.not_forall.1 hhead
        have hstarts : Starts c m e v := Classical.not_not.1 hv
        obtain rfl := hstarts.cycle
        exact ⟨_, _, .behind [] es v rfl hstarts h⟩

/-- What the timer shows follows from that. -/
theorem timer_of_lastStart {m : Machine K} {c : Clock} {es : List (Event K)} {v k : Nat}
    (hm : m.timer c = .initial) (hes : .reset ∉ es) (h : LastStart c m es v k) :
    ((m.after es).timer c).value.toNat = v - k := by
  cases h with
  | never h =>
    rw [timer_after hes h, hm]
    rfl
  | behind past since v hsplit hstart hsince =>
    obtain ⟨-, -, o, hfetch, hfamily, hlow, rfl⟩ := hstart
    rw [hsplit, List.mem_append, List.mem_cons, not_or, not_or] at hes
    rw [hsplit, after_append, after_cons, perform_cycle, timer_after hes.2.2 hsince,
      (cycle_of_start hfetch hfamily hlow).2]

/-- The machine was just switched on, or just reset. -/
inductive Fresh : Machine K → Prop
  | powerOn (keys : K) (d : Dialect) (r : ByteStream) : Fresh (powerOn keys d r)
  | reset (m : Machine K) : Fresh m.reset

omit [KeySource K] in
theorem Fresh.timer {m : Machine K} (h : m.Fresh) (c : Clock) : m.timer c = .initial := by
  cases h <;> cases c <;> rfl

/-- **A cycle that reads the delay timer** goes well, has counted itself, and reads what the timer
    shows when it is over. -/
theorem cycle_of_readDelay {m : Machine K} {o : Opcode} (hfetch : m.fetch = .ok o)
    (hfamily : o.family = 0xF) (hlow : o.low = 0x07) :
    m.cycle.result = .ok .quiet ∧
    m.cycle.state.registers.read o.x = m.cycle.state.delay.value ∧
    m.cycle.state.delay.value.toNat = m.delay.value.toNat - 1 := by
  have henc : (Instruction.readDelay o.x).encode = o :=
    Opcode.ofByte_eq_iff.2 ⟨hfamily, rfl, hlow⟩
  rw [cycle_of_no_fault hfetch (Instruction.decode_eq_ok_iff.2 henc) rfl]
  refine ⟨rfl, ?_, m.delay.toNat_tick⟩
  show (m.registers.write o.x m.delay.tick.value).read o.x = m.delay.tick.value
  rw [Registers.read_write, if_pos rfl]

/-- **The timers count the cycles that go well.**  Take any run of cycles, loads and changes of keys
    from a machine that was just switched on or reset; then there is a value that a timer was last
    started at, 60 if it never was, and the timer shows this less the number of cycles that went
    well since, or zero.  A cycle of `FX07` behind the run puts into `VX` what the delay timer shows
    when that very cycle has been counted. -/
theorem timers_count_cycles {start : Machine K} (hstart : start.Fresh) {es : List (Event K)}
    (hes : .reset ∉ es) :
    let now := start.after es
    (∀ c, (∃ v k, LastStart c start es v k) ∧
      ∀ v k, LastStart c start es v k → (now.timer c).value.toNat = v - k) ∧
    ∀ o, now.fetch = .ok o → o.family = 0xF → o.low = 0x07 →
      now.cycle.result = .ok .quiet ∧
      now.cycle.state.registers.read o.x = now.cycle.state.delay.value ∧
      now.cycle.state.delay.value.toNat = now.delay.value.toNat - 1 := by
  intro now
  constructor
  · intro c
    exact ⟨exists_lastStart c start es, fun v k => timer_of_lastStart (hstart.timer c) hes⟩
  · intro o hfetch hfamily hlow
    exact cycle_of_readDelay hfetch hfamily hlow

/-- `V1` becomes 5, the delay timer starts at `V1`, `V2` becomes the delay timer, and a return
    fails.  In the end the delay timer has lost one tick, to the cycle that read it, and the sound
    timer three; the failure took none. -/
theorem timers_count_cycles_of_program :
    let start := powerOn Keypad.released .plain (.repeating #[])
    let program : Array UInt8 := #[0x61, 0x05, 0xF1, 0x15, 0xF2, 0x07, 0x00, 0xEE]
    let before : List (Event Keypad) := [.load program, .cycle, .cycle]
    let session := before ++ [.cycle, .cycle]
    start.Fresh ∧ .reset ∉ before ∧ .reset ∉ session ∧
    (LastStart .delay start session 5 1 ∧
      ((start.after session).timer .delay).value.toNat = 5 - 1) ∧
    (LastStart .sound start session 60 3 ∧
      ((start.after session).timer .sound).value.toNat = 60 - 3) ∧
    (start.after before).fetch = .ok 0xF207 ∧
    (start.after before).cycle.state.registers.read 2 =
      (start.after before).cycle.state.delay.value := by
  intro start program before session
  have hfresh : start.Fresh := .powerOn ..
  have hbefore : .reset ∉ before := by simp [before]
  have hsession : .reset ∉ session := by simp [session, before]
  -- the machines on the way
  let m₀ := (start.load program).state
  let m₁ := ((m₀.begin 0x6105).effect (.setByte 1 5)).follow .next
  let m₂ := ((m₁.begin 0xF115).effect (.setDelay 1)).follow .next
  let m₃ := ((m₂.begin 0xF207).effect (.readDelay 2)).follow .next
  have hload : (start.perform (.load program)).state = m₀ := rfl
  have hfetch₀ : m₀.fetch = .ok 0x6105 :=
    fetch_of_overlay (p := program) (k := 0) rfl (by decide) rfl (by decide)
  have hfetch₁ : m₁.fetch = .ok 0xF115 :=
    fetch_of_overlay (p := program) (k := 2) rfl (by decide) rfl (by decide)
  have hfetch₂ : m₂.fetch = .ok 0xF207 :=
    fetch_of_overlay (p := program) (k := 4) rfl (by decide) rfl (by decide)
  have hfetch₃ : m₃.fetch = .ok 0x00EE :=
    fetch_of_overlay (p := program) (k := 6) rfl (by decide) rfl (by decide)
  have hcycle₀ : m₀.cycle = .ok m₁ .quiet := cycle_of_no_fault hfetch₀ (i := .setByte 1 5) rfl rfl
  have hcycle₁ : m₁.cycle = .ok m₂ .quiet := cycle_of_no_fault hfetch₁ (i := .setDelay 1) rfl rfl
  have hcycle₂ : m₂.cycle = .ok m₃ .quiet := cycle_of_no_fault hfetch₂ (i := .readDelay 2) rfl rfl
  have hcycle₃ : m₃.cycle = .fail { m₃ with lastOpcode := 0x00EE } .stackEmpty :=
    cycle_of_fault hfetch₃ (i := .ret) rfl rfl
  have hone : start.after [.load program, .cycle] = m₁ := by
    rw [after_cons, hload, after_cons, perform_cycle, hcycle₀]
    rfl
  have htwo : start.after before = m₂ := by
    rw [show before = [.load program, .cycle] ++ [.cycle] from rfl, after_concat_cycle hone hcycle₁]
  -- the last two cycles: one goes well, and neither starts a timer
  have hrest : m₂.successes [.cycle, .cycle] = 1 := by
    rw [successes_cons, successes_cons, succeeds, succeeds, perform_cycle, hcycle₂,
      Outcome.state_ok, hcycle₃]
    rfl
  have hafter : ∀ c, m₂.Throughout (Unset c) [.cycle, .cycle] := by
    intro c
    rw [throughout_cons, perform_cycle, hcycle₂, Outcome.state_ok, throughout_cons]
    exact ⟨unset_of_fetch hfetch₂ (by cases c <;> decide),
      unset_of_fetch hfetch₃ fun h => absurd h.1 (by decide), throughout_nil _⟩
  have hdelay : LastStart .delay start session 5 1 := by
    have hlast : _ → _ → LastStart .delay start session _ _ :=
      LastStart.behind [.load program, .cycle] [.cycle, .cycle] 5 rfl
    rw [hone, hcycle₁, Outcome.state_ok, hrest] at hlast
    exact hlast ⟨rfl, by rw [hcycle₁]; rfl, 0xF115, hfetch₁, rfl, rfl, rfl⟩ (hafter .delay)
  have hsound : LastStart .sound start session 60 3 := by
    have hlast : _ → LastStart .sound start session _ _ := LastStart.never
    have hk : start.successes session = 3 := by
      rw [show session = [.load program, .cycle, .cycle, .cycle, .cycle] from rfl, successes_cons,
        hload, successes_cons, perform_cycle, succeeds, succeeds, hcycle₀, Outcome.state_ok,
        successes_cons, perform_cycle, succeeds, hcycle₁, Outcome.state_ok, hrest]
      rfl
    rw [hk] at hlast
    apply hlast
    rw [show session = [.load program, .cycle, .cycle, .cycle, .cycle] from rfl, throughout_cons,
      hload, throughout_cons, perform_cycle, hcycle₀, Outcome.state_ok, throughout_cons,
      perform_cycle, hcycle₁, Outcome.state_ok]
    exact ⟨unset_of_ne_cycle nofun, unset_of_fetch hfetch₀ (by decide),
      unset_of_fetch hfetch₁ (by decide), hafter .sound⟩
  have hclock := (timers_count_cycles hfresh hsession).1
  have hread := (timers_count_cycles hfresh hbefore).2
  have hfetch : (start.after before).fetch = .ok 0xF207 := by rw [htwo]; exact hfetch₂
  exact ⟨hfresh, hbefore, hsession, ⟨hdelay, (hclock .delay).2 _ _ hdelay⟩,
    ⟨hsound, (hclock .sound).2 _ _ hsound⟩, hfetch, (hread 0xF207 hfetch rfl rfl).2.1⟩

end Machine

end Chip8
