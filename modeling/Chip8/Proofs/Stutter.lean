/-
  Failed cycles are stutter steps: one may as well not have called them.

  1. **Stuck** — behind a cycle that failed, the machine is stuck: there is nothing to fetch, or
     what is fetched cannot run AND is the opcode noted last.  A cycle of a stuck machine fails in
     the same way and leaves no trace at all (`Stuck.cycle`).  Whether a machine is stuck is no
     matter of its keys, so it stays stuck however they change (`Stuck.after`).

  2. **The note** — what is left of the first failure is the noted opcode.  Nobody ever reads it:
     each cycle that fetches something notes that instead, before anything else is done
     (`cycle_noted`).  So two machines that differ in the note only report the same for ever.

  3. **Erasing failures** — hence a machine whose cycles failed for a while, with the keys changing
     in between, goes on as if it had seen the changes of keys alone (`failed_cycles_stutter`).  Let
     it be given another program, and it resumes with its timers where they were.
-/
import Chip8.Proofs.Countdown
import Chip8.Proofs.CycleFault
import Chip8.Proofs.Failure

namespace Chip8.Machine

variable {K : Type}

/-! ## Stuck -/

/-- The machine with other keys. -/
def withKeys (m : Machine K) (keys : K) : Machine K := { m with keys := keys }

/-- **A machine whose next cycle fails** and has nothing left to note. -/
inductive Stuck (m : Machine K) (f : Fault) : Prop
  /-- There is nothing to fetch. -/
  | unfetched (hfetch : m.fetch = .error f)
  /-- What is fetched cannot run, and is noted already. -/
  | faulted (i : Instruction) (hfetch : m.fetch = .ok i.encode) (hnoted : m.lastOpcode = i.encode)
      (hfault : m.fault? i = some f)

/-- Nothing of that is a matter of the keys. -/
theorem Stuck.withKeys {m : Machine K} {f : Fault} (h : m.Stuck f) (keys : K) :
    (m.withKeys keys).Stuck f := by
  rcases h with hfetch | ⟨i, hfetch, hnoted, hfault⟩
  · exact .unfetched hfetch
  · exact .faulted i hfetch hnoted ((fault?_congr rfl rfl i).trans hfault)

variable [KeySource K]

/-- **A cycle of a stuck machine leaves no trace.** -/
theorem Stuck.cycle {m : Machine K} {f : Fault} (h : m.Stuck f) : m.cycle = .fail m f := by
  rcases h with hfetch | ⟨i, hfetch, hnoted, hfault⟩
  · exact cycle_of_fetch_error hfetch
  · rw [cycle_of_fault hfetch (Instruction.decode_encode i) hfault, ← hnoted]

/-- **A cycle that fails leaves the machine stuck.** -/
theorem stuck_of_error {m : Machine K} {f : Fault} (h : m.cycle.result = .error f) :
    m.cycle.state.Stuck f := by
  rcases cycle_eq_error_iff.1 h with hnone | ⟨i, hfetch, hfault⟩
  · rw [cycle_state_of_unfetched hnone]
    exact .unfetched hnone
  · rw [cycle_state_of_error hfetch h]
    exact .faulted i hfetch rfl ((fault?_congr rfl rfl i).trans hfault)

/-- The event is a cycle or a change of keys. -/
def Event.Waits : Event K → Prop
  | .cycle | .rekey _ => True
  | .load _ | .reset => False

/-- The event is a change of keys. -/
def Event.isRekey : Event K → Bool
  | .rekey _ => true
  | .cycle | .load _ | .reset => false

/-- Changes of keys change the keys. -/
theorem after_rekeys (m : Machine K) (es : List (Event K)) :
    m.after (es.filter Event.isRekey) =
      m.withKeys (m.after (es.filter Event.isRekey)).keys := by
  induction es generalizing m with
  | nil => rfl
  | cons e es ih =>
    cases e with
    | rekey change => exact ih (m.withKeys (change m.keys))
    | _ => exact ih m

/-- **A stuck machine stays stuck**, and all that becomes of it is what the changes of keys do. -/
theorem Stuck.after {m : Machine K} {f : Fault} (h : m.Stuck f) {es : List (Event K)}
    (hes : ∀ e ∈ es, e.Waits) :
    (m.after es).Stuck f ∧ m.after es = m.after (es.filter Event.isRekey) := by
  induction es generalizing m with
  | nil => exact ⟨h, rfl⟩
  | cons e es ih =>
    have hrest : ∀ e ∈ es, e.Waits := fun e' he' => hes e' (List.mem_cons_of_mem e he')
    cases e with
    | load program => exact absurd (hes _ (List.mem_cons_self ..)) id
    | reset => exact absurd (hes _ (List.mem_cons_self ..)) id
    | rekey change => exact ih (h.withKeys (change m.keys)) hrest
    | cycle =>
      rw [after_cons, perform_cycle, h.cycle]
      exact ih h hrest

/-! ## The note -/

omit [KeySource K] in
/-- The machine with another noted opcode. -/
def noted (m : Machine K) (o : Opcode) : Machine K := { m with lastOpcode := o }

/-- **A cycle does not read the note**: it fails to fetch on both, or it notes the same. -/
theorem cycle_noted (m : Machine K) (o : Opcode) :
    (m.noted o).cycle.result = m.cycle.result ∧
    ∃ o', (m.noted o).cycle.state = m.cycle.state.noted o' := by
  have hsame : (m.noted o).fetch = m.fetch := rfl
  cases hfetch : m.fetch with
  | error f =>
    rw [cycle_of_fetch_error hfetch, cycle_of_fetch_error (hsame.trans hfetch)]
    exact ⟨rfl, o, rfl⟩
  | ok w =>
    have hcycle : (m.noted o).cycle = m.cycle := by
      rw [Machine.cycle, Machine.cycle, hsame, hfetch]
      rfl
    rw [hcycle]
    exact ⟨rfl, m.cycle.state.lastOpcode, rfl⟩

/-- Nor does any other event. -/
theorem perform_noted (m : Machine K) (o : Opcode) (e : Event K) :
    ((m.noted o).perform e).result = (m.perform e).result ∧
    ∃ o', ((m.noted o).perform e).state = (m.perform e).state.noted o' := by
  cases e with
  | cycle => exact m.cycle_noted o
  | rekey change => exact ⟨rfl, o, rfl⟩
  | reset => exact ⟨rfl, 0, rfl⟩
  | load program =>
    obtain ⟨result, reload, hload⟩ := perform_load (K := K) program
    rw [hload, hload]
    exact ⟨rfl, o, rfl⟩

/-- **Two machines that differ in the note only** report the same in every run, and again differ in
    the note only. -/
theorem run_noted (m : Machine K) (o : Opcode) (es : List (Event K)) :
    (m.noted o).results es = m.results es ∧ ∃ o', (m.noted o).after es = (m.after es).noted o' := by
  apply in_step (P := fun _ _ => True) (R := fun m m' => ∃ o, m' = m.noted o) _ ⟨o, rfl⟩
    (fun _ _ _ => trivial)
  rintro m _ e ⟨o, rfl⟩ -
  exact m.perform_noted o e

/-! ## Erasing failures -/

/-- What is left of a failure is a note. -/
theorem exists_noted_of_error {m : Machine K} {f : Fault} (h : m.cycle.result = .error f) :
    ∃ o, m.cycle.state = m.noted o := by
  cases hfetch : m.fetch with
  | error g => exact ⟨m.lastOpcode, cycle_state_of_unfetched hfetch⟩
  | ok o => exact ⟨o, cycle_state_of_error hfetch h⟩

/-- **Waiting behind a failure** leaves the machine stuck, and changes its keys alone. -/
theorem after_of_error {m : Machine K} {f : Fault} (hf : m.cycle.result = .error f)
    {wait : List (Event K)} (hwait : ∀ e ∈ wait, e.Waits) :
    (m.cycle.state.after wait).Stuck f ∧
    m.cycle.state.after wait =
      m.cycle.state.withKeys (m.after (wait.filter Event.isRekey)).keys := by
  obtain ⟨hstuck, hrekeys⟩ := (stuck_of_error hf).after hwait
  obtain ⟨o, ho⟩ := exists_noted_of_error hf
  obtain ⟨-, o', ho'⟩ := m.run_noted o (wait.filter Event.isRekey)
  refine ⟨hstuck, ?_⟩
  -- the keys do not depend on the note
  rw [hrekeys, after_rekeys, ho, ho']
  rfl

/-- **Failed cycles are stutter steps.**  Let a cycle fail, and let more cycles be called behind it,
    with the keys changing in between.  Each of these fails with the same fault and leaves no trace,
    so that only the keys change.  Whatever is done later on, the results are those of a machine
    that has seen the changes of keys but none of the cycles, and so are the states, but for the
    noted opcode.  And a timer that is not started later on loses one for each of the later cycles
    that goes well, from what it was at before the failure. -/
theorem failed_cycles_stutter (m : Machine K) {f : Fault} (hf : m.cycle.result = .error f)
    (wait : List (Event K)) (hwait : ∀ e ∈ wait, e.Waits) :
    let stalled := m.cycle.state.after wait
    let spared := m.after (wait.filter Event.isRekey)
    (∀ k, let now := m.cycle.state.after (wait.take k)
      now.cycle = .fail now f ∧
      now = { m.cycle.state with
        keys := (m.after ((wait.take k).filter Event.isRekey)).keys }) ∧
    (∀ future, stalled.results future = spared.results future ∧
      ∀ k, ∃ o, stalled.after (future.take k) =
        { spared.after (future.take k) with lastOpcode := o }) ∧
    ∀ future c, .reset ∉ future → stalled.Throughout (Unset c) future →
      ((stalled.after future).timer c).value.toNat =
        (m.timer c).value.toNat - stalled.successes future := by
  intro stalled spared
  obtain ⟨o, ho⟩ := exists_noted_of_error hf
  have hstalled : stalled = spared.noted o := by
    rw [show stalled = _ from (after_of_error hf hwait).2, ho,
      show spared = _ from after_rekeys m wait]
    rfl
  refine ⟨?_, ?_, ?_⟩
  · intro k now
    have hbegin : ∀ e ∈ wait.take k, e.Waits := fun e he => hwait e (List.mem_of_mem_take he)
    obtain ⟨hstuck, hkeys⟩ := after_of_error hf hbegin
    exact ⟨hstuck.cycle, hkeys⟩
  · intro future
    rw [hstalled]
    refine ⟨(spared.run_noted o future).1, fun k => ?_⟩
    exact (spared.run_noted o (future.take k)).2
  · intro future c hreset hunset
    have hbefore : stalled.timer c = m.timer c := by
      rw [hstalled, show spared = _ from after_rekeys m wait]
      cases c <;> rfl
    rw [timer_after hreset hunset, hbefore]

/-- A return without a call fails; a key goes down, it fails again; then another program is loaded
    over it, which sets a register.  Its one cycle is the only one that the timers have counted. -/
theorem failed_cycles_stutter_of_repair :
    let m := ((powerOn Keypad.released .plain (.repeating #[])).load #[0x00, 0xEE]).state
    let wait : List (Event Keypad) := [.rekey fun p => p.set 3 true, .cycle]
    let program : Array UInt8 := #[0x60, 0x07]
    let future : List (Event Keypad) := [.load program, .cycle]
    let stalled := m.cycle.state.after wait
    let spared := m.after [.rekey fun p => p.set 3 true]
    m.cycle.result = .error .stackEmpty ∧ (∀ e ∈ wait, e.Waits) ∧
    stalled.cycle = .fail stalled .stackEmpty ∧
    stalled.results future = spared.results future ∧
    (.reset ∉ future ∧ stalled.Throughout (Unset .delay) future) ∧
    ((stalled.after future).timer .delay).value.toNat = 60 - 1 := by
  intro m wait program future stalled spared
  have hwait : ∀ e ∈ wait, e.Waits := by simp [wait, Event.Waits]
  have hreset : .reset ∉ future := by simp [future]
  have hfetch : m.fetch = .ok 0x00EE :=
    fetch_of_overlay (p := #[0x00, 0xEE]) (k := 0) rfl (by decide) rfl (by decide)
  have hcycle := cycle_of_fault hfetch (i := .ret) (f := .stackEmpty) rfl rfl
  have hf : m.cycle.result = .error .stackEmpty := by rw [hcycle]; rfl
  obtain ⟨hstutter, hlater, htimer⟩ := failed_cycles_stutter m hf wait hwait
  -- the repaired machine
  obtain ⟨-, hkeys⟩ := hstutter 2
  let repaired := (stalled.perform (.load program)).state
  have hrepaired : repaired.fetch = .ok 0x6007 := by
    have hstalled : stalled = (m.noted 0x00EE).withKeys spared.keys := by
      rw [show stalled = _ from hkeys, hcycle]
      rfl
    show ((stalled.perform (.load program)).state).fetch = .ok 0x6007
    rw [hstalled]
    exact fetch_of_overlay (p := program) (k := 0) rfl (by decide) rfl (by decide)
  have hset := cycle_of_no_fault hrepaired (i := .setByte 0 7) rfl rfl
  have hunset : stalled.Throughout (Unset .delay) future := by
    rw [throughout_cons, throughout_cons]
    exact ⟨unset_of_ne_cycle nofun, unset_of_fetch hrepaired (by decide), throughout_nil _⟩
  have hsuccesses : stalled.successes future = 1 := by
    rw [successes_cons, successes_cons, succeeds, succeeds,
      show (stalled.perform (.load program)).state = repaired from rfl, hset]
    rfl
  refine ⟨hf, hwait, (hstutter 2).1, (hlater future).1, ⟨hreset, hunset⟩, ?_⟩
  rw [htimer future .delay hreset hunset, hsuccesses]
  rfl

end Chip8.Machine
