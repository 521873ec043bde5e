/-
  What a machine keeps for others to see.

  Two of its parts a machine never looks at itself.  The opcode noted last is there for a dump, and
  the sound timer for whoever makes the sound.  Both are written all the time: every cycle notes an
  opcode and counts the timer down, one that fails puts it back, `FX18` sets it, and a reset does
  both.  So two machines that differ there may go on to differ there in another way, but they never
  come to differ anywhere else.

  1. **One instruction** has the same effect on both, and sets both timers to the same if it sets
     them at all (`effect_refit`).

  2. **One request** is answered the same by both, and leaves them the same but for these two parts
     (`SameButOutput.answer`); and so does one after the other.
-/
import Chip8.Proofs.SameWay

namespace Chip8.Machine

variable {K : Type}

/-- The machine with another noted opcode and another sound timer. -/
def withOutput (m : Machine K) (o : Opcode) (t : Timer) : Machine K :=
  { m with lastOpcode := o, sound := t }

/-- The two machines differ in these two parts at most. -/
def SameButOutput (m m' : Machine K) : Prop := ∃ o t, m' = m.withOutput o t

variable [KeySource K]

/-- Whatever is done aside is done to both of them alike. -/
theorem keptAside_sameButOutput : KeptAside (SameButOutput (K := K)) where
  sameWay := by
    rintro m _ ⟨o, t, rfl⟩
    exact sameWay_refit (.refl m.keys) o t
  aside := by
    rintro m _ ⟨o, t, rfl⟩ note memory pc delay sound keys
    exact ⟨note o, sound t, rfl⟩
  reset := by
    -- there is nothing left that could differ
    rintro m _ ⟨o, t, rfl⟩
    exact ⟨0, .initial, rfl⟩

namespace SameButOutput

variable {m m' : Machine K}

/-- So is the effect of an instruction. -/
theorem effect (h : m.SameButOutput m') (i : Instruction) :
    (m.effect i).SameButOutput (m'.effect i) := by
  obtain ⟨o, t, rfl⟩ := h
  have hrefit : (m.withOutput o t).effect i = (m.effect i).refit o _ m.keys :=
    effect_refit (.refl m.keys) o t i
  rw [← m.keys_effect i] at hrefit
  exact ⟨o, _, hrefit⟩

/-- **A request is answered the same**, and nothing but these two parts can differ afterwards. -/
theorem answer (h : m.SameButOutput m') (q : Request K) :
    Outcome.Related SameButOutput (m.answer q) (m'.answer q) :=
  keptAside_sameButOutput.answer h
    (fun _ i _ _ => (keptAside_sameButOutput.begin h i.encode).effect i) (fun i _ _ => h.effect i)

theorem afterAll (h : m.SameButOutput m') (qs : List (Request K)) :
    (m.afterAll qs).SameButOutput (m'.afterAll qs) :=
  afterAll_related (R := SameButOutput) (fun _ _ q hnow => (hnow.answer q).state) h qs

end SameButOutput

/-- **The sound timer and the noted opcode are output only.**  Let one machine be given others of
    these, and let the same be asked of it as of the machine itself.  Then both answer the same each
    time, and after every request they are the same in every other part: memory, registers, index,
    program counter, stack, delay timer, screen, keys, dialect, and the place in the stream. -/
theorem output_only (m : Machine K) (o : Opcode) (t : Timer)
    (past : List (Request K)) (next : Request K) :
    let here := (m.afterAll past).answer next
    let there := ((m.withOutput o t).afterAll past).answer next
    there.result = here.result ∧
    there.state =
      { here.state with lastOpcode := there.state.lastOpcode, sound := there.state.sound } := by
  intro here there
  have hstart : m.SameButOutput (m.withOutput o t) := ⟨o, t, rfl⟩
  have hnext : Outcome.Related SameButOutput here there := (hstart.afterAll past).answer next
  obtain ⟨o', t', hstate⟩ := hnext.state
  exact ⟨hnext.result, by rw [hstate]; rfl⟩

end Chip8.Machine
