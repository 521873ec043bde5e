/-
  Outcomes: what a step reports, and the state it leaves behind.

  The state is there WHETHER OR NOT the step succeeded.  So what a fault leaves behind is part of
  the answer, and that it leaves everything as it was is a statement to be proved, not a matter of
  how the types are built.

  Mathlib-free.
-/
import Chip8.Fault

namespace Chip8

/-- A report or a fault, together with the state afterwards. -/
structure Outcome (σ α : Type) where
  result : Except Fault α
  state : σ

namespace Outcome

/-- Success. -/
def ok {σ α : Type} (s : σ) (a : α) : Outcome σ α := ⟨.ok a, s⟩

/-- Failure. -/
def fail {σ α : Type} (s : σ) (f : Fault) : Outcome σ α := ⟨.error f, s⟩

/-- The same outcome with something done to the state if it is a failure. -/
def onFail {σ α : Type} (o : Outcome σ α) (undo : σ → σ) : Outcome σ α :=
  match o.result with
  | .ok a => ok o.state a
  | .error f => fail (undo o.state) f

section

variable {σ α : Type} (s : σ) (a : α) (f : Fault)

@[simp] theorem result_ok : (ok s a).result = .ok a := rfl

@[simp] theorem state_ok : (ok s a).state = s := rfl

@[simp] theorem result_fail : (fail s f : Outcome σ α).result = .error f := rfl

@[simp] theorem state_fail : (fail s f : Outcome σ α).state = s := rfl

/-- A success has nothing to undo. -/
@[simp] theorem onFail_ok (undo : σ → σ) : (ok s a).onFail undo = ok s a := rfl

@[simp] theorem onFail_fail (undo : σ → σ) :
    (fail s f : Outcome σ α).onFail undo = fail (undo s) f := rfl

end

end Outcome

end Chip8
