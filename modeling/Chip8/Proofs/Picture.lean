/-
  The display always shows the machine's picture.

  A display knows only what it was told: `Console.shown` replays the log of its calls, from a blank
  display on.  A console is IN STEP if that is the screen of its machine.

  1. **A cycle** changes the screen only if it reports a drawing (`Machine.cycle_screen`), and then
     the console sends the new picture at once.  A failing drawing changes nothing, so there is no
     picture to miss.

  2. **A reset** blanks both sides.

  3. **The machine inside** may be given a program and other keys past the console: neither touches
     the screen.  Doing a cycle or a reset there would, and the display could not know; these two
     are ruled out (`Event.Seen`).

  So a console that was started with a new machine is in step after every event and after every
  single cycle of a run (`shown_eq_screen`).
-/
import Chip8.Proofs.Frame
import Chip8.Proofs.Run

namespace Chip8

/-- **A screen that changes is reported**, by a cycle as by an instruction. -/
theorem Machine.cycle_screen {K : Type} [KeySource K] {m : Machine K}
    (h : m.cycle.result ≠ .ok .drawn) : m.cycle.state.screen = m.screen := by
  cases m.course with
  | unfetched f hfetch hcycle => rw [hcycle]; rfl
  | unknown o f hfetch hdecode hcycle => rw [hcycle]; rfl
  | faulted o i f hfetch hdecode hfault hcycle => rw [hcycle]; rfl
  | executed o i hfetch hdecode hfault hcycle =>
    have hreport : m.report i ≠ .drawn := by
      intro hdrawn
      rw [hcycle, hdrawn] at h
      exact h rfl
    rw [hcycle]
    show ((m.begin o).effect i).screen = m.screen
    rw [screen_effect _ (by rw [report_begin]; exact hreport)]
    rfl

namespace Console

variable {K : Type}

/-- The display shows the machine's screen. -/
def InStep (c : Console K) : Prop := c.shown = c.machine.screen

/-- The event goes through the console, or it leaves the screen alone. -/
def Event.Seen : Event K → Prop
  | .direct .cycle | .direct .reset => False
  | _ => True

/-- A new machine's screen is as blank as a display that was told nothing. -/
theorem inStep_start (keys : K) (d : Dialect) (r : ByteStream) :
    InStep (start (.powerOn keys d r)) := rfl

variable [KeySource K]

/-- A cycle that draws sends what it drew; one that does not has nothing to send. -/
theorem inStep_tick {c : Console K} (h : InStep c) : InStep c.tick.state := by
  by_cases hdrawn : c.machine.cycle.result = .ok .drawn
  · rw [tick_of_drawn hdrawn]
    exact shown_tell _ (.frame c.machine.cycle.state.screen)
  · rw [tick_of_not_drawn hdrawn]
    show c.shown = c.machine.cycle.state.screen
    rw [Machine.cycle_screen hdrawn]
    exact h

/-- **No event that is seen gets the two out of step.** -/
theorem inStep_perform {c : Console K} {e : Event K} (he : e.Seen) (h : InStep c) :
    InStep (c.perform e).state := by
  cases e with
  | tick => exact inStep_tick h
  | run n => exact run_induction (fun _ => inStep_tick) n h
  | reset => exact shown_reset c
  | direct e =>
    cases e with
    | cycle => exact absurd he id
    | reset => exact absurd he id
    | rekey change => exact h
    | load program =>
      obtain ⟨memory, hload⟩ := c.machine.perform_load_state program
      show c.shown = (c.machine.perform (.load program)).state.screen
      rw [hload]; exact h

/-- **The display shows the machine's picture** after every event of a run, succeeded or failed,
    and after every single cycle of up to `n` more. -/
theorem shown_eq_screen (keys : K) (d : Dialect) (r : ByteStream) (es : List (Event K))
    (hes : ∀ e ∈ es, e.Seen) :
    let c := (start (.powerOn keys d r)).after es
    c.shown = c.machine.screen ∧ ∀ n, ∀ c' ∈ passed n c, c'.shown = c'.machine.screen := by
  intro c
  have hc : InStep c :=
    after_induction (fun _ _ he => inStep_perform (hes _ he)) (inStep_start keys d r)
  exact ⟨hc, fun n => passed_induction (fun _ => inStep_tick) n hc⟩

/-- A session in which a glyph is drawn, a key goes down, a sprite reaches out of memory, and all is
    reset. -/
theorem shown_eq_screen_of_session :
    let session : List (Event Keypad) :=
      [.direct (.load #[0xF0, 0x29, 0xD0, 0x05, 0xAF, 0xFF, 0xD0, 0x02]), .tick, .tick,
       .direct (.rekey fun p => p.set 7 true), .run 9, .reset, .run 3]
    (∀ e ∈ session, e.Seen) ∧
    ((start (.powerOn .released .plain (.repeating #[]))).after session).shown =
      ((start (.powerOn .released .plain (.repeating #[]))).after session).machine.screen ∧
    ∀ c ∈ passed 9 ((start (.powerOn .released .plain (.repeating #[]))).after session),
      c.shown = c.machine.screen := by
  intro session
  have hseen : ∀ e ∈ session, e.Seen := by simp [session, Event.Seen]
  have hnow := shown_eq_screen Keypad.released .plain (.repeating #[]) session hseen
  exact ⟨hseen, hnow.1, hnow.2 9⟩

end Console

end Chip8
