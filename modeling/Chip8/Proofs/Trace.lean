/-
  Traces: what comes of several steps, one after the other, up to the first fault.

  A step may fail, and whoever makes several stops there.  The trace keeps what a log would: the
  signals of the steps that went well, in order, the fault if there was one, and the state that was
  left.  Steps behind a fault are not made.

  A trace is extended at its END (`of_concat`), so a property of traces is proved by induction on
  how many steps there are, and the last step is the one to look at.
-/
import Chip8.Machine.Execute
import Mathlib.Data.List.Induction

namespace Chip8

/-- The signals, the fault and the state that some steps left. -/
structure Trace (σ : Type) where
  signals : List Signal
  fault : Option Fault
  state : σ

namespace Trace

variable {σ : Type}

/-- No step yet. -/
def start (s : σ) : Trace σ := ⟨[], none, s⟩

/-- One more step, unless there was a fault. -/
def next (t : Trace σ) (step : σ → Outcome σ Signal) : Trace σ :=
  match t.fault with
  | some _ => t
  | none =>
    match (step t.state).result with
    | .ok r => ⟨t.signals ++ [r], none, (step t.state).state⟩
    | .error f => ⟨t.signals, some f, (step t.state).state⟩

theorem next_of_fault {t : Trace σ} {f : Fault} (h : t.fault = some f)
    (step : σ → Outcome σ Signal) : t.next step = t := by
  rw [next, h]

theorem next_of_ok {t : Trace σ} {step : σ → Outcome σ Signal} {r : Signal} (h : t.fault = none)
    (hr : (step t.state).result = .ok r) :
    t.next step = ⟨t.signals ++ [r], none, (step t.state).state⟩ := by
  rw [next, h, hr]

theorem next_of_error {t : Trace σ} {step : σ → Outcome σ Signal} {f : Fault} (h : t.fault = none)
    (hf : (step t.state).result = .error f) :
    t.next step = ⟨t.signals, some f, (step t.state).state⟩ := by
  rw [next, h, hf]

/-- All the steps, from `s` on. -/
def of (s : σ) (steps : List (σ → Outcome σ Signal)) : Trace σ := steps.foldl next (start s)

@[simp] theorem of_nil (s : σ) : of s [] = start s := rfl

/-- **One more step is made behind all the others.** -/
theorem of_concat (s : σ) (steps : List (σ → Outcome σ Signal)) (step : σ → Outcome σ Signal) :
    of s (steps ++ [step]) = (of s steps).next step := by
  rw [of, List.foldl_append]
  rfl

/-- **Without a fault every step was made** and has its signal. -/
theorem length_signals {s : σ} {steps : List (σ → Outcome σ Signal)}
    (h : (of s steps).fault = none) : (of s steps).signals.length = steps.length := by
  induction steps using List.reverseRecOn with
  | nil => rfl
  | append_singleton steps step ih =>
    rw [of_concat] at h ⊢
    cases hfault : (of s steps).fault with
    | some f =>
      rw [next_of_fault hfault, hfault] at h
      cases h
    | none =>
      cases hr : (step (of s steps).state).result with
      | error f =>
        rw [next_of_error hfault hr] at h
        cases h
      | ok r =>
        rw [next_of_ok hfault hr, List.length_append, List.length_append, ih hfault]
        rfl

end Trace

end Chip8
