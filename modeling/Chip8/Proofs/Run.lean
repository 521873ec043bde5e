/-
  Runs: what can happen to a machine from outside, one event after another.

  1. **Events** — a machine is made to do a cycle, has a program loaded, has its keys changed, or
     is reset.  The keys are a collaborator, so what becomes of them is any function whatever.

  2. **Runs** — `after m es` is the machine behind a list of events.  The run goes on behind a
     failure, with whatever that left.  `after_take_succ` takes one step at the end of a prefix and
     `after_induction` is what every invariant is proved by: one step at a time.

  3. **Consoles** — a run of a console mixes its own operations with events done directly to the
     machine inside.  Whatever is done to a console, its machine goes through a run of the first
     kind (`machine_after`), so an invariant of machines need not be proved twice.  The consoles
     PASSED THROUGH on the way through a run of `n` cycles are listed by `passed`.
-/
import Chip8.Console

namespace Chip8

namespace Machine

/-! ## Runs of a machine -/

/-- What can happen to a machine. -/
inductive Event (K : Type) where
  | cycle
  | load (program : Array UInt8)
  /-- The keys change, in whatever way. -/
  | rekey (change : K → K)
  | reset

variable {K : Type} [KeySource K]

/-- One event.  Only a cycle has something to report. -/
def perform (m : Machine K) : Event K → Outcome (Machine K) Signal
  | .cycle => m.cycle
  | .load program => ⟨(m.load program).result.map fun _ => .quiet, (m.load program).state⟩
  | .rekey change => .ok { m with keys := change m.keys } .quiet
  | .reset => .ok m.reset .quiet

@[simp] theorem perform_cycle (m : Machine K) : m.perform .cycle = m.cycle := rfl

/-- The machine after a run. -/
def after (m : Machine K) (es : List (Event K)) : Machine K :=
  es.foldl (fun m e => (m.perform e).state) m

@[simp] theorem after_nil (m : Machine K) : m.after [] = m := rfl

@[simp] theorem after_cons (m : Machine K) (e : Event K) (es : List (Event K)) :
    m.after (e :: es) = (m.perform e).state.after es := rfl

theorem after_append (m : Machine K) (es fs : List (Event K)) :
    m.after (es ++ fs) = (m.after es).after fs := List.foldl_append

/-- A run that goes on with a cycle ends where the cycle does. -/
theorem after_concat_cycle {m m' m'' : Machine K} {es : List (Event K)} {s : Signal}
    (h : m.after es = m') (hcycle : m'.cycle = .ok m'' s) : m.after (es ++ [.cycle]) = m'' := by
  rw [after_append, h, after_cons, perform_cycle, hcycle, Outcome.state_ok, after_nil]

/-- A prefix that is one event longer is one step further. -/
theorem after_take_succ (m : Machine K) {es : List (Event K)} {k : Nat} (h : k < es.length) :
    m.after (es.take (k + 1)) = ((m.after (es.take k)).perform es[k]).state := by
  rw [List.take_add_one, List.getElem?_eq_getElem h, Option.toList_some, after_append]
  rfl

/-- **What every event keeps, a run keeps.** -/
theorem after_induction {P : Machine K → Prop} {es : List (Event K)}
    (step : ∀ m e, e ∈ es → P m → P (m.perform e).state) {m : Machine K} (h : P m) :
    P (m.after es) := by
  induction es generalizing m with
  | nil => exact h
  | cons e es ih =>
    rw [after_cons]
    have hhead : P (m.perform e).state := step m e (List.mem_cons_self ..) h
    exact ih (fun m' e' he' => step m' e' (List.mem_cons_of_mem e he')) hhead

/-- **What every event keeps but for some**, a run keeps, unless one of these takes place in it. -/
theorem after_unless {P : Machine K → Prop} {Q : Machine K → Event K → Prop}
    (step : ∀ m e, P m → P (m.perform e).state ∨ Q m e) {m : Machine K} (h : P m)
    (es : List (Event K)) :
    P (m.after es) ∨ ∃ k e, es[k]? = some e ∧ Q (m.after (es.take k)) e := by
  induction es generalizing m with
  | nil => exact Or.inl h
  | cons e es ih =>
    rcases step m e h with hkept | hbroken
    · rcases ih hkept with hend | ⟨k, e', he', hq⟩
      · exact Or.inl hend
      · exact Or.inr ⟨k + 1, e', he', hq⟩
    · exact Or.inr ⟨0, e, rfl, hbroken⟩

/-- **A load is a matter of the program and of the memory**, and what it leaves in memory is all
    that it leaves.  One that is refused reloads the memory with itself. -/
theorem perform_load (program : Array UInt8) :
    ∃ (result : Except Fault Signal) (reload : Memory → Memory), ∀ m : Machine K,
      m.perform (.load program) = ⟨result, { m with memory := reload m.memory }⟩ := by
  rcases Nat.lt_or_ge programMax program.size with hlt | hle
  · refine ⟨.error (.tooLarge program.size programMax), id, ?_⟩
    intro m
    rw [perform, load_of_lt hlt]
    rfl
  · refine ⟨.ok .quiet, fun memory => memory.overlay programStart program, ?_⟩
    intro m
    rw [perform, load_of_le hle]
    rfl

/-- So all but the memory is as it was. -/
theorem perform_load_state (m : Machine K) (program : Array UInt8) :
    ∃ memory, (m.perform (.load program)).state = { m with memory := memory } := by
  obtain ⟨result, reload, hload⟩ := perform_load (K := K) program
  exact ⟨reload m.memory, by rw [hload]⟩

end Machine

/-! ## Runs of a console -/

namespace Console

/-- What can happen to a console. -/
inductive Event (K : Type) where
  | tick
  /-- Up to `n` cycles. -/
  | run (n : Nat)
  | reset
  /-- Something happens to the machine inside, past the console. -/
  | direct (e : Machine.Event K)

variable {K : Type}

/-- A console that has told its display nothing yet. -/
def start (m : Machine K) : Console K := { machine := m }

variable [KeySource K]

/-- One event. -/
def perform (c : Console K) : Event K → Outcome (Console K) Signal
  | .tick => c.tick
  | .run n => c.run n
  | .reset => .ok c.reset .quiet
  | .direct e => ⟨(c.machine.perform e).result, { c with machine := (c.machine.perform e).state }⟩

/-- The console after a run. -/
def after (c : Console K) (es : List (Event K)) : Console K :=
  es.foldl (fun c e => (c.perform e).state) c

@[simp] theorem after_nil (c : Console K) : c.after [] = c := rfl

@[simp] theorem after_cons (c : Console K) (e : Event K) (es : List (Event K)) :
    c.after (e :: es) = (c.perform e).state.after es := rfl

/-- What every event keeps, a run keeps. -/
theorem after_induction {P : Console K → Prop} {es : List (Event K)}
    (step : ∀ c e, e ∈ es → P c → P (c.perform e).state) {c : Console K} (h : P c) :
    P (c.after es) := by
  induction es generalizing c with
  | nil => exact h
  | cons e es ih =>
    rw [after_cons]
    have hhead : P (c.perform e).state := step c e (List.mem_cons_self ..) h
    exact ih (fun c' e' he' => step c' e' (List.mem_cons_of_mem e he')) hhead

/-! ### The cycles of a run -/

/-- The consoles passed through by up to `n` cycles, one for each cycle that was done. -/
def passed : Nat → Console K → List (Console K)
  | 0, _ => []
  | n + 1, c =>
    c.tick.state :: match c.tick.result with
      | .error _ => []
      | .ok _ => passed n c.tick.state

/-- The console reports what the cycle reports. -/
theorem result_tick (c : Console K) : c.tick.result = c.machine.cycle.result := by
  unfold tick
  rcases c.machine.cycle with ⟨_ | s, m⟩
  · rfl
  · cases s <;> rfl

/-- Its machine is the machine after the cycle. -/
theorem machine_tick (c : Console K) : c.tick.state.machine = c.machine.cycle.state := by
  unfold tick
  rcases c.machine.cycle with ⟨_ | s, m⟩
  · rfl
  · cases s <;> rfl

/-- A cycle that draws has its picture sent. -/
theorem tick_of_drawn {c : Console K} (h : c.machine.cycle.result = .ok .drawn) :
    c.tick.state = tell { c with machine := c.machine.cycle.state }
      (.frame c.machine.cycle.state.screen) := by
  unfold tick
  generalize c.machine.cycle = o at h
  obtain ⟨result, m⟩ := o
  cases h
  rfl

/-- Any other cycle, a failing one too, leaves the log alone. -/
theorem tick_of_not_drawn {c : Console K} (h : c.machine.cycle.result ≠ .ok .drawn) :
    c.tick.state = { c with machine := c.machine.cycle.state } := by
  unfold tick
  generalize c.machine.cycle = o at h
  obtain ⟨f | s, m⟩ := o
  · rfl
  · cases s with
    | drawn => exact absurd rfl h
    | _ => rfl

theorem runFrom_succ (last : Signal) (n : Nat) (c : Console K) :
    runFrom last (n + 1) c = match c.tick.result with
      | .error f => .fail c.tick.state f
      | .ok s => runFrom s n c.tick.state := by
  rw [runFrom]
  rcases c.tick with ⟨_ | s, c'⟩ <;> rfl

/-- A run ends with the last console that it passed through. -/
theorem state_runFrom (last : Signal) (n : Nat) (c : Console K) :
    (runFrom last n c).state = (passed n c).getLast?.getD c := by
  induction n generalizing last c with
  | zero => rfl
  | succ n ih =>
    rw [runFrom_succ, passed]
    cases c.tick.result with
    | error f => rfl
    | ok s => simp [ih, List.getLast?_cons]

/-- **What every tick keeps, holds of every console passed through.** -/
theorem passed_induction {P : Console K → Prop} (step : ∀ c, P c → P c.tick.state) (n : Nat)
    {c : Console K} (h : P c) : ∀ c' ∈ passed n c, P c' := by
  induction n generalizing c with
  | zero => intro c' hc'; exact absurd hc' List.not_mem_nil
  | succ n ih =>
    intro c' hc'
    have htick : P c.tick.state := step c h
    rw [passed] at hc'
    rcases List.mem_cons.1 hc' with rfl | hc'
    · exact htick
    · cases hres : c.tick.result with
      | error f => rw [hres] at hc'; exact absurd hc' List.not_mem_nil
      | ok s => rw [hres] at hc'; exact ih htick c' hc'

/-- In particular of the console that a run of `n` cycles ends with. -/
theorem run_induction {P : Console K → Prop} (step : ∀ c, P c → P c.tick.state) (n : Nat)
    {c : Console K} (h : P c) : P (c.run n).state := by
  rw [run, state_runFrom]
  cases hlast : (passed n c).getLast? with
  | none => exact h
  | some c' => exact passed_induction step n h c' (List.mem_of_getLast? hlast)

/-- One event of a console is a run of its machine. -/
theorem machine_perform (c : Console K) (e : Event K) :
    ∃ es, (c.perform e).state.machine = c.machine.after es := by
  cases e with
  | tick => exact ⟨[.cycle], machine_tick c⟩
  | run n =>
    -- after each cycle the machine is still one that a run leads to
    refine run_induction (P := fun c' => ∃ es, c'.machine = c.machine.after es) ?_ n ⟨[], rfl⟩
    rintro c' ⟨es, hes⟩
    refine ⟨es ++ [.cycle], ?_⟩
    rw [machine_tick, hes, Machine.after_append]
    rfl
  | reset => exact ⟨[.reset], rfl⟩
  | direct e => exact ⟨[e], rfl⟩

/-- **Whatever is done to a console, its machine goes through a run.** -/
theorem machine_after (c : Console K) (es : List (Event K)) :
    ∃ ms, (c.after es).machine = c.machine.after ms := by
  refine after_induction (P := fun c' => ∃ ms, c'.machine = c.machine.after ms) ?_ ⟨[], rfl⟩
  rintro c' e - ⟨ms, hms⟩
  obtain ⟨ns, hns⟩ := machine_perform c' e
  exact ⟨ms ++ ns, by rw [hns, hms, Machine.after_append]⟩

end Console

end Chip8
