/-
  Histories: a run as somebody sees it who was there all the time.

  `Machine.after` says where a run ends.  Often that is not enough, because what matters is what was
  reported on the way, or what every machine on the way was like.

  1. **Results** — `results` lists what was reported, event by event, faults included.

  2. **Throughout** — a condition holds throughout a run if it holds of every event together with
     the machine that meets it.  It is stated place by place and proved event by event
     (`throughout_cons`), and it holds of every beginning of the run.

  3. **Two runs side by side** — if the same event keeps two related machines related, and each time
     they report the same, then so it is all along (`in_step`).  The condition may be used at every
     event, but it is asked of ONE of the two runs only.
-/
import Chip8.Proofs.Run

namespace Chip8.Machine

variable {K : Type} [KeySource K]

/-! ## Results -/

/-- What was reported in a run. -/
def results (m : Machine K) : List (Event K) → List (Except Fault Signal)
  | [] => []
  | e :: es => (m.perform e).result :: (m.perform e).state.results es

@[simp] theorem results_nil (m : Machine K) : m.results [] = [] := rfl

@[simp] theorem results_cons (m : Machine K) (e : Event K) (es : List (Event K)) :
    m.results (e :: es) = (m.perform e).result :: (m.perform e).state.results es := rfl

/-! ## Throughout -/

/-- The condition holds of every event of a run and the machine that meets it. -/
def Throughout (m : Machine K) (P : Machine K → Event K → Prop) (es : List (Event K)) : Prop :=
  ∀ k e, es[k]? = some e → P (m.after (es.take k)) e

variable {P : Machine K → Event K → Prop}

theorem throughout_nil (m : Machine K) : m.Throughout P [] := by
  intro k e hk
  rw [List.getElem?_nil] at hk
  cases hk

/-- **The first event and the rest.** -/
theorem throughout_cons {m : Machine K} {e : Event K} {es : List (Event K)} :
    m.Throughout P (e :: es) ↔ P m e ∧ (m.perform e).state.Throughout P es := by
  constructor
  · intro h
    exact ⟨h 0 e rfl, fun k e' hk => h (k + 1) e' hk⟩
  · rintro ⟨hhead, htail⟩ k e' hk
    rcases k with _ | k
    · cases hk
      exact hhead
    · exact htail k e' hk

/-- Whatever holds throughout a run holds throughout its beginning. -/
theorem Throughout.take {m : Machine K} {es : List (Event K)} (h : m.Throughout P es) (n : Nat) :
    m.Throughout P (es.take n) := by
  intro k e hk
  rw [List.getElem?_take] at hk
  split at hk
  · rename_i hlt
    rw [List.take_take, Nat.min_eq_left (Nat.le_of_lt hlt)]
    exact h k e hk
  · cases hk

/-! ## Two runs side by side -/

/-- **Two runs stay in step** if every event that meets the condition keeps them in step. -/
theorem in_step {R : Machine K → Machine K → Prop}
    (step : ∀ m m' e, R m m' → P m e →
      (m'.perform e).result = (m.perform e).result ∧ R (m.perform e).state (m'.perform e).state)
    {m m' : Machine K} (h : R m m') {es : List (Event K)} (hes : m.Throughout P es) :
    m'.results es = m.results es ∧ R (m.after es) (m'.after es) := by
  induction es generalizing m m' with
  | nil => exact ⟨rfl, h⟩
  | cons e es ih =>
    obtain ⟨hhead, htail⟩ := throughout_cons.1 hes
    obtain ⟨hresult, hstate⟩ := step m m' e h hhead
    obtain ⟨hresults, hend⟩ := ih hstate htail
    exact ⟨by rw [results_cons, results_cons, hresult, hresults], hend⟩

end Chip8.Machine
