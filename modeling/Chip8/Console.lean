/-
  A console: a machine wired to a display.

  The display is told two things, to go blank and to show a picture, and the console keeps the log
  of what it was told.  A cycle that draws sends the picture at once; a reset sends the order to go
  blank.  `shown` replays the log and says what is to be seen on the display.

  Mathlib-free.
-/
import Chip8.Machine.Cycle

namespace Chip8

/-- What a display can be told. -/
inductive DisplayCall where
  /-- Go blank. -/
  | clear
  /-- Show this picture. -/
  | frame (s : Screen)
  deriving DecidableEq

/-- What a display shows after a call, whatever it showed before. -/
def DisplayCall.picture : DisplayCall → Screen
  | clear => .blank
  | frame s => s

/-- A machine and the log of its display. -/
structure Console (K : Type) where
  machine : Machine K
  log : Array DisplayCall := #[]

namespace Console

variable {K : Type}

/-- What the display shows: blank at first, then whatever it was told last. -/
def shown (c : Console K) : Screen :=
  c.log.foldl (fun _ call => call.picture) .blank

/-- How often the display was told to go blank. -/
def clears (c : Console K) : Nat := c.log.countP fun call => call matches .clear

/-- How many pictures the display was sent. -/
def frames (c : Console K) : Nat := c.log.countP fun call => call matches .frame _

/-- One more call. -/
def tell (c : Console K) (call : DisplayCall) : Console K := { c with log := c.log.push call }

/-- **The display shows what it was told last.** -/
theorem shown_tell (c : Console K) (call : DisplayCall) : (c.tell call).shown = call.picture := by
  simp [shown, tell]

/-- One cycle; if it drew, the picture goes to the display. -/
def tick [KeySource K] (c : Console K) : Outcome (Console K) Signal :=
  match c.machine.cycle with
  | ⟨.error f, m⟩ => .fail { c with machine := m } f
  | ⟨.ok .drawn, m⟩ => .ok ({ c with machine := m }.tell (.frame m.screen)) .drawn
  | ⟨.ok s, m⟩ => .ok { c with machine := m } s

/-- Up to `n` cycles, with the signal to report if there is none of them. -/
def runFrom [KeySource K] (last : Signal) : Nat → Console K → Outcome (Console K) Signal
  | 0, c => .ok c last
  | n + 1, c =>
    match c.tick with
    | ⟨.error f, c'⟩ => .fail c' f
    | ⟨.ok s, c'⟩ => runFrom s n c'

/-- **Up to `n` cycles**, ending early at the first fault.  The last signal is reported. -/
def run [KeySource K] (n : Nat) (c : Console K) : Outcome (Console K) Signal := runFrom .quiet n c

/-- The machine is reset and the display goes blank. -/
def reset (c : Console K) : Console K := { c with machine := c.machine.reset }.tell .clear

/-- A reset shows on the display at once. -/
theorem shown_reset (c : Console K) : c.reset.shown = c.reset.machine.screen :=
  shown_tell _ .clear

end Console

end Chip8
