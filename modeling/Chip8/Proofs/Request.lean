/-
  Everything that can be asked of a machine.

  The events of a run are what happens to a machine in use.  Whoever holds it can do two things
  more: have one instruction executed by itself, with no cycle around it, and move the program
  counter.  Together these are its REQUESTS.

  A machine that was handled so may have its program counter anywhere.  But most of what a request
  does is done aside, to the noted opcode, the program counter, the timers, the keys, or memory;
  anything else changes only if an instruction has its effect, or by a reset.  So an invariant
  that looks at none of those parts has two steps to be checked, and `answer_induction` says that
  these are enough.  Two of them are had that way: the stack is never over full, and the dialect is
  the one chosen at the start.
-/
import Chip8.Proofs.Bounds

namespace Chip8.Machine

/-- What can be asked of a machine. -/
inductive Request (K : Type) where
  /-- Something happens to it. -/
  | event (e : Event K)
  /-- It executes an instruction, which it does not fetch. -/
  | execute (i : Instruction)
  /-- Its program counter is moved. -/
  | move (f : Flow)

variable {K : Type} [KeySource K]

/-- One request. -/
def answer (m : Machine K) : Request K → Outcome (Machine K) Signal
  | .event e => m.perform e
  | .execute i => m.execute i
  | .move f => .ok (m.follow f) .quiet

/-- The machine after some requests, one after the other, whatever became of each. -/
def afterAll (m : Machine K) (qs : List (Request K)) : Machine K :=
  qs.foldl (fun m q => (m.answer q).state) m

@[simp] theorem afterAll_nil (m : Machine K) : m.afterAll [] = m := rfl

@[simp] theorem afterAll_cons (m : Machine K) (q : Request K) (qs : List (Request K)) :
    m.afterAll (q :: qs) = (m.answer q).state.afterAll qs := rfl

/-- A run is one of the ways to handle a machine. -/
theorem after_eq_afterAll (m : Machine K) (es : List (Event K)) :
    m.after es = m.afterAll (es.map .event) := by
  rw [afterAll, List.foldl_map]
  rfl

/-! ## What every request keeps -/

/-- The machine with other things in the parts that requests reach without an instruction. -/
def aside (m : Machine K) (o : Opcode) (memory : Memory) (pc : Nat) (delay sound : Timer)
    (keys : K) : Machine K :=
  { m with
    lastOpcode := o
    memory := memory
    pc := pc
    delay := delay
    sound := sound
    keys := keys }

/-- **Two steps to check.**  What does not depend on the parts aside is kept by every request, if
    it is kept by the effect of every instruction that can run, and by a reset. -/
theorem answer_induction {P : Machine K → Prop}
    (haside : ∀ m o memory pc delay sound keys, P m → P (aside m o memory pc delay sound keys))
    (heffect : ∀ m i, m.fault? i = none → P m → P (m.effect i))
    (hreset : ∀ m, P m → P m.reset) {m : Machine K} (h : P m) (q : Request K) :
    P (m.answer q).state := by
  cases q with
  | move f => exact haside m m.lastOpcode m.memory _ m.delay m.sound m.keys h
  | execute i =>
    show P (m.execute i).state
    cases hfault : m.fault? i with
    | some f =>
      rw [execute_of_fault hfault]
      exact h
    | none =>
      have heff := heffect m i hfault h
      rw [execute_of_no_fault hfault]
      exact haside (m.effect i) _ _ _ _ _ _ heff
  | event e =>
    cases e with
    | reset => exact hreset m h
    | rekey change =>
      exact haside m m.lastOpcode m.memory m.pc m.delay m.sound (change m.keys) h
    | load program =>
      obtain ⟨memory, hload⟩ := m.perform_load_state program
      show P (m.perform (.load program)).state
      rw [hload]
      exact haside m m.lastOpcode memory m.pc m.delay m.sound m.keys h
    | cycle =>
      show P m.cycle.state
      have hbegin : ∀ o, P (m.begin o) := by
        intro o
        exact haside m o m.memory _ _ _ m.keys h
      cases m.course with
      | unfetched f hfetch hcycle =>
        rw [hcycle]
        exact h
      | unknown o f hfetch hdecode hcycle =>
        rw [hcycle]
        exact hbegin o
      | faulted o i f hfetch hdecode hfault hcycle =>
        rw [hcycle]
        exact haside m o m.memory m.pc m.delay m.sound m.keys h
      | executed o i hfetch hdecode hfault hcycle =>
        have heff := heffect (m.begin o) i (by rw [fault?_begin, hfault]) (hbegin o)
        rw [hcycle]
        exact haside ((m.begin o).effect i) _ _ _ _ _ _ heff

/-- What one request keeps, any number of them keeps. -/
theorem afterAll_induction {P : Machine K → Prop} (step : ∀ m q, P m → P (m.answer q).state)
    {m : Machine K} (h : P m) (qs : List (Request K)) : P (m.afterAll qs) := by
  induction qs generalizing m with
  | nil => exact h
  | cons q qs ih =>
    rw [afterAll_cons]
    exact ih (step m q h)

/-! ## Two invariants -/

/-- **The stack is never over full**, however the machine is handled. -/
theorem stack_length_afterAll {m : Machine K} (h : m.stack.length ≤ stackSize)
    (qs : List (Request K)) : (m.afterAll qs).stack.length ≤ stackSize := by
  apply afterAll_induction (P := fun m => m.stack.length ≤ stackSize) _ h
  intro m q hm
  apply answer_induction (P := fun m => m.stack.length ≤ stackSize) _ _ _ hm
  · intro m o memory pc delay sound keys hm
    exact hm
  · intro m i hfault hm
    exact stack_length_effect hfault hm
  · intro m hm
    exact Nat.zero_le stackSize

/-- The dialect is chosen once. -/
theorem dialect_afterAll (m : Machine K) (qs : List (Request K)) :
    (m.afterAll qs).dialect = m.dialect := by
  apply afterAll_induction (P := fun m' => m'.dialect = m.dialect) _ rfl
  intro m' q hm'
  apply answer_induction (P := fun m' => m'.dialect = m.dialect) _ _ _ hm'
  · intro m o memory pc delay sound keys hm
    exact hm
  · intro m' i hfault hm'
    rw [dialect_effect]
    exact hm'
  · intro m hm
    exact hm

end Chip8.Machine
