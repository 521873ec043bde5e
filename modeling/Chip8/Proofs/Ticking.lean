/-
  Up to `n` ticks of a console are up to `n` cycles of its machine.

  1. **Composition** — a run of `a + b` ticks is a run of `a`, and if that went well a run of `b` on
     what it left (`runFrom_add`).  What the second run REPORTS depends on the first only if `b` is
     zero, for then there is nothing else to report.

  2. **One tick** — does a cycle, reports what that reports, and adds to the log the picture of the
     machine behind it if it drew (`log_tick`).

  3. **A run** — hence it leaves the machine that the cycles leave, one by one up to the first
     fault; it ends with that fault or with the last signal; and what it adds to the log is one
     picture for each cycle that drew, in order (`tracks_run`).  Induction on the number of ticks;
     the last one is looked at, as traces grow at their end.
-/
import Chip8.Proofs.StraightLine
import Chip8.Proofs.Run

namespace Chip8

/-- An outcome with a fault is a failure. -/
theorem Outcome.eq_fail_of_result {σ α : Type} {o : Outcome σ α} {f : Fault}
    (h : o.result = .error f) : o = .fail o.state f := by
  obtain ⟨result, state⟩ := o
  cases h
  rfl

/-- What some steps end with: the fault, or the signal of the last one.  No step is quiet. -/
def Trace.verdict {σ : Type} (t : Trace σ) : Except Fault Signal :=
  match t.fault with
  | some f => .error f
  | none => .ok (t.signals.getLastD .quiet)

namespace Machine

variable {K : Type} [KeySource K]

/-- The picture that a cycle has to show, if it draws: the screen right behind it. -/
def picture? (m : Machine K) : Option DisplayCall :=
  match m.cycle.result with
  | .ok .drawn => some (.frame m.cycle.state.screen)
  | _ => none

/-- The picture of the cycle behind `k` others.  Behind a fault there is none any more. -/
def pictureAt (m : Machine K) (k : Nat) : Option DisplayCall :=
  match (m.cycles k).fault with
  | none => (m.cycles k).state.picture?
  | some _ => none

/-- **The pictures of `n` cycles**, in order. -/
def pictures (m : Machine K) (n : Nat) : List DisplayCall := (List.range n).filterMap m.pictureAt

theorem pictures_succ (m : Machine K) (n : Nat) :
    m.pictures (n + 1) = m.pictures n ++ (m.pictureAt n).toList := by
  rw [pictures, pictures, List.range_succ, List.filterMap_append]
  cases h : m.pictureAt n with
  | none => rw [List.filterMap_cons_none h]; rfl
  | some call => rw [List.filterMap_cons_some h]; rfl

/-- None of them is an order to go blank. -/
theorem ne_clear_of_mem_pictures {m : Machine K} {n : Nat} {call : DisplayCall}
    (h : call ∈ m.pictures n) : call ≠ .clear := by
  obtain ⟨k, -, hk⟩ := List.mem_filterMap.1 h
  rintro rfl
  rw [pictureAt, picture?] at hk
  split at hk
  · split at hk <;> cases hk
  · cases hk

end Machine

namespace Console

variable {K : Type} [KeySource K]

/-! ## Composition -/

/-- **A run of `a + b` ticks is a run of `a` and then of `b`**, unless the first one fails. -/
theorem runFrom_add (last : Signal) (a b : Nat) (c : Console K) :
    runFrom last (a + b) c = match (runFrom last a c).result with
      | .error f => .fail (runFrom last a c).state f
      | .ok s => runFrom s b (runFrom last a c).state := by
  induction a generalizing last c with
  | zero => rw [Nat.zero_add]; rfl
  | succ a ih =>
    rw [Nat.add_right_comm, runFrom_succ, runFrom_succ]
    cases c.tick.result with
    | error f => rfl
    | ok s => exact ih s c.tick.state

theorem run_add_of_error {c : Console K} {a : Nat} {f : Fault} (h : (c.run a).result = .error f)
    (b : Nat) : c.run (a + b) = c.run a := by
  have hadd := runFrom_add .quiet a b c
  rw [show (runFrom .quiet a c).result = .error f from h] at hadd
  exact hadd.trans (Outcome.eq_fail_of_result h).symm

theorem run_add_of_ok {c : Console K} {a : Nat} {s : Signal} (h : (c.run a).result = .ok s)
    (b : Nat) : c.run (a + b) = runFrom s b (c.run a).state := by
  have hadd := runFrom_add .quiet a b c
  rw [show (runFrom .quiet a c).result = .ok s from h] at hadd
  exact hadd

/-- One more tick at the end. -/
theorem run_succ_of_ok {c : Console K} {n : Nat} {s : Signal} (h : (c.run n).result = .ok s) :
    c.run (n + 1) = (c.run n).state.tick := by
  rw [run_add_of_ok h 1, runFrom_succ]
  rcases (c.run n).state.tick with ⟨_ | r, c'⟩ <;> rfl

/-- The signal to start from is reported by a run without ticks only. -/
theorem runFrom_eq_run (last : Signal) (n : Nat) (c : Console K) :
    (runFrom last n c).state = (c.run n).state ∧
    (0 < n → (runFrom last n c).result = (c.run n).result) := by
  rcases n with _ | n
  · exact ⟨rfl, fun h => absurd h (Nat.lt_irrefl 0)⟩
  · have hsame : runFrom last (n + 1) c = c.run (n + 1) := by
      rw [run, runFrom_succ, runFrom_succ]
    rw [hsame]
    exact ⟨rfl, fun _ => rfl⟩

/-! ## One tick -/

/-- **A tick adds the picture to the log**, if there is one. -/
theorem log_tick (c : Console K) :
    c.tick.state.log.toList = c.log.toList ++ c.machine.picture?.toList := by
  rw [Machine.picture?]
  split
  · rename_i hdrawn
    rw [tick_of_drawn hdrawn]
    exact Array.toList_push
  · rename_i hother
    rw [tick_of_not_drawn hother]
    exact (List.append_nil _).symm

/-! ## A run -/

/-- **A run of `n` ticks keeps track of `n` cycles**: the same machine, the same verdict, and a
    picture in the log for every cycle that drew. -/
structure Tracks (c : Console K) (n : Nat) : Prop where
  machine : (c.run n).state.machine = (c.machine.cycles n).state
  result : (c.run n).result = (c.machine.cycles n).verdict
  log : (c.run n).state.log.toList = c.log.toList ++ c.machine.pictures n

theorem tracks_run (c : Console K) (n : Nat) : c.Tracks n := by
  induction n with
  | zero => exact ⟨rfl, rfl, (List.append_nil _).symm⟩
  | succ n ih =>
    obtain ⟨hmachine, hresult, hlog⟩ := ih
    cases hfault : (c.machine.cycles n).fault with
    | some f =>
      -- the run is over already, on both sides
      have hrun : (c.run n).result = .error f := by rw [hresult, Trace.verdict, hfault]
      have hcycles : c.machine.cycles (n + 1) = c.machine.cycles n := by
        rw [Machine.cycles_succ, Trace.next_of_fault hfault]
      constructor
      · rw [run_add_of_error hrun, hcycles, hmachine]
      · rw [run_add_of_error hrun, hcycles, hresult]
      · rw [run_add_of_error hrun, Machine.pictures_succ, Machine.pictureAt, hfault, hlog]
        exact congrArg _ (List.append_nil _).symm
    | none =>
      have hrun : (c.run n).result = .ok ((c.machine.cycles n).signals.getLastD .quiet) := by
        rw [hresult, Trace.verdict, hfault]
      have hlast : (c.run (n + 1)).state.log.toList =
          c.log.toList ++ c.machine.pictures (n + 1) := by
        rw [run_succ_of_ok hrun, log_tick, hlog, hmachine, Machine.pictures_succ,
          Machine.pictureAt, hfault, List.append_assoc]
      cases hcycle : (c.machine.cycles n).state.cycle.result with
      | error f =>
        have hnext := Trace.next_of_error hfault hcycle
        rw [← Machine.cycles_succ] at hnext
        refine ⟨?_, ?_, hlast⟩
        · rw [run_succ_of_ok hrun, machine_tick, hmachine, hnext]
        · rw [run_succ_of_ok hrun, result_tick, hmachine, hcycle, hnext]
          rfl
      | ok r =>
        have hnext := Trace.next_of_ok hfault hcycle
        rw [← Machine.cycles_succ] at hnext
        refine ⟨?_, ?_, hlast⟩
        · rw [run_succ_of_ok hrun, machine_tick, hmachine, hnext]
        · rw [run_succ_of_ok hrun, result_tick, hmachine, hcycle, hnext, Trace.verdict]
          simp

/-- No run orders the display to go blank. -/
theorem clears_run (c : Console K) (n : Nat) : (c.run n).state.clears = c.clears := by
  rw [clears, clears, ← Array.countP_toList, ← Array.countP_toList, (tracks_run c n).log,
    List.countP_append, Nat.add_eq_left, List.countP_eq_zero]
  intro call hcall
  have hne := Machine.ne_clear_of_mem_pictures hcall
  cases call with
  | clear => exact absurd rfl hne
  | frame s => exact Bool.false_ne_true

/-- **A run of ticks is a run of cycles, and runs compose.**  Up to `n` ticks of any console leave
    the machine that up to `n` cycles leave, ending at the first fault.  They end with that fault or
    with the last signal, quiet if there was none.  What they add to the log is, in order, one
    picture for each cycle that drew, showing the screen right behind that cycle, and no order to go
    blank.  So `a` ticks and then `b` are `a + b` ticks if the first `a` go well, but for what is
    reported when `b` is zero; and if they fail, `a + b` ticks are the same as `a`. -/
theorem run_is_iterated_cycle (c : Console K) :
    (∀ n, (c.run n).state.machine = (c.machine.cycles n).state ∧
      (c.run n).result = (c.machine.cycles n).verdict ∧
      (c.run n).state.log.toList = c.log.toList ++ c.machine.pictures n ∧
      (c.run n).state.clears = c.clears) ∧
    ∀ a b,
      (∀ s, (c.run a).result = .ok s →
        ((c.run a).state.run b).state = (c.run (a + b)).state ∧
        (0 < b → ((c.run a).state.run b).result = (c.run (a + b)).result)) ∧
      ∀ f, (c.run a).result = .error f → c.run (a + b) = c.run a := by
  constructor
  · intro n
    obtain ⟨hmachine, hresult, hlog⟩ := tracks_run c n
    exact ⟨hmachine, hresult, hlog, clears_run c n⟩
  · intro a b
    constructor
    · intro s hs
      obtain ⟨hstate, hresult⟩ := runFrom_eq_run s b (c.run a).state
      rw [run_add_of_ok hs]
      exact ⟨hstate.symm, fun hb => (hresult hb).symm⟩
    · intro f hf
      exact run_add_of_error hf b

/-- A program that blanks the screen and then returns from nowhere: one tick draws, the second one
    fails, and with more than two the console does not get any further. -/
theorem run_is_iterated_cycle_of_lone_return :
    let m := ((Machine.powerOn Keypad.released .plain (.repeating #[])).load
      #[0x00, 0xE0, 0x00, 0xEE]).state
    let c := start m
    ((c.run 1).result = .ok .drawn ∧
      ((c.run 1).state.run 1).state = (c.run (1 + 1)).state ∧
      ((c.run 1).state.run 1).result = (c.run (1 + 1)).result) ∧
    (c.run 2).result = .error .stackEmpty ∧ c.run (2 + 3) = c.run 2 := by
  intro m c
  let m' := ((m.begin 0x00E0).effect .clear).follow .next
  have hfetch : m.fetch = .ok 0x00E0 :=
    Machine.fetch_of_overlay (p := #[0x00, 0xE0, 0x00, 0xEE]) (k := 0) rfl (by decide) rfl
      (by decide)
  have hfetch' : m'.fetch = .ok 0x00EE :=
    Machine.fetch_of_overlay (p := #[0x00, 0xE0, 0x00, 0xEE]) (k := 2) rfl (by decide) rfl
      (by decide)
  have hdraw : m.cycle = .ok m' .drawn := Machine.cycle_of_no_fault hfetch (i := .clear) rfl rfl
  have hret := Machine.cycle_of_fault hfetch' (i := .ret) (f := .stackEmpty) rfl rfl
  have hone : c.run 1 = c.tick := run_succ_of_ok (n := 0) rfl
  have hdrawn : (c.run 1).result = .ok .drawn := by
    rw [hone, result_tick]
    show m.cycle.result = .ok .drawn
    rw [hdraw]
    rfl
  have hfailed : (c.run 2).result = .error .stackEmpty := by
    rw [run_succ_of_ok hdrawn, result_tick, hone, machine_tick]
    show m.cycle.state.cycle.result = .error .stackEmpty
    rw [hdraw, Outcome.state_ok, hret]
    rfl
  obtain ⟨-, hcompose⟩ := run_is_iterated_cycle c
  obtain ⟨hstate, hresult⟩ := (hcompose 1 1).1 .drawn hdrawn
  exact ⟨⟨hdrawn, hstate, hresult Nat.one_pos⟩, hfailed, (hcompose 2 3).2 .stackEmpty hfailed⟩

end Console

end Chip8
