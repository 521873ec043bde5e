/-
  Calls and returns.

  1. **One cycle** — moves the stack in one of three ways (`cycle_stack`): not at all, by one more
     return address, or by one less; and the last is a return, which goes where that address says.

  2. **A frame lasts** — take any lower part of the stack, a FRAME, and any run without a reset.  No
     instruction, failure, load or deeper call touches it, until its own top is returned to
     (`frame_step`).

  3. **The discipline** — so behind a call the frame made of the return address and the caller's
     stack stays until the depth is back at the caller's, and that moment is the return of this very
     call: the program goes on behind it and the stack is the caller's (`call_return_discipline`).
     The program may rewrite itself meanwhile; nothing here looks at what memory holds.

  The stack has its newest address first, so a frame is a suffix of it.
-/
import Chip8.Proofs.Frame
import Chip8.Proofs.Run

namespace Chip8.Machine

variable {K : Type} [KeySource K]

/-! ## One cycle -/

/-- A call leaves its return address on top of the caller's stack. -/
theorem stack_of_call {m : Machine K} {o : Opcode} {a : Address} {s : Signal}
    (hfetch : m.fetch = .ok o) (hdecode : Instruction.decode o = .ok (.call a))
    (hs : m.cycle.result = .ok s) : m.cycle.state.stack = (m.pc + 2) :: m.stack := by
  cases hfault : m.fault? (.call a) with
  | some f => rw [cycle_of_fault hfetch hdecode hfault] at hs; cases hs
  | none => rw [cycle_of_no_fault hfetch hdecode hfault]; rfl

/-- A return takes the newest address off the stack and goes there. -/
theorem cycle_of_ret {m : Machine K} {p : Nat} {rest : List Nat} (hfetch : m.fetch = .ok 0x00EE)
    (hstack : m.stack = p :: rest) :
    m.cycle.result = .ok .quiet ∧ m.cycle.state.pc = p ∧ m.cycle.state.stack = rest := by
  have hfault : m.fault? .ret = none := by rw [fault?, hstack]; rfl
  have hcycle := cycle_of_no_fault hfetch (i := .ret) rfl hfault
  have hflow : m.flow .ret = .jump p := by rw [flow, hstack]; rfl
  have heffect : ((m.begin 0x00EE).effect .ret).stack = rest := by
    rw [stack_effect]
    show m.stack.tail = rest
    rw [hstack]; rfl
  rw [hcycle, hflow]
  exact ⟨rfl, rfl, heffect⟩

/-- **What a cycle does to the stack.** -/
theorem cycle_stack (m : Machine K) :
    m.cycle.state.stack = m.stack ∨
    (∃ p, m.cycle.state.stack = p :: m.stack) ∨
    (m.fetch = .ok 0x00EE ∧ m.cycle.result = .ok .quiet ∧
      m.stack = m.cycle.state.pc :: m.cycle.state.stack) := by
  cases m.course with
  | unfetched f hfetch hcycle => left; rw [hcycle]; rfl
  | unknown o f hfetch hdecode hcycle => left; rw [hcycle]; rfl
  | faulted o i f hfetch hdecode hfault hcycle => left; rw [hcycle]; rfl
  | executed o i hfetch hdecode hfault hcycle =>
    have hstack : m.cycle.state.stack = ((m.begin o).effect i).stack := by rw [hcycle]; rfl
    rw [stack_effect] at hstack
    cases i with
    | ret =>
      right; right
      obtain rfl : Instruction.ret.encode = o := Instruction.encode_of_decode hdecode
      cases hs : m.stack with
      | nil => rw [fault?, hs] at hfault; cases hfault
      | cons p rest =>
        obtain ⟨hres, hpc, hrest⟩ := cycle_of_ret hfetch hs
        exact ⟨hfetch, hres, by rw [hpc, hrest]⟩
    | call a => right; left; exact ⟨_, hstack⟩
    | _ => left; exact hstack

/-! ## A frame lasts -/

/-- **An event keeps a frame, or it is the return to its top.** -/
theorem frame_step {m : Machine K} {e : Event K} {frame : List Nat} (he : e ≠ .reset)
    (h : frame <:+ m.stack) :
    frame <:+ (m.perform e).state.stack ∨
    (e = .cycle ∧ m.fetch = .ok 0x00EE ∧ m.cycle.result = .ok .quiet ∧
      frame = m.cycle.state.pc :: m.cycle.state.stack) := by
  cases e with
  | reset => exact absurd rfl he
  | rekey change => exact Or.inl h
  | load program =>
    obtain ⟨memory, hload⟩ := m.perform_load_state program
    left; rw [hload]; exact h
  | cycle =>
    show frame <:+ m.cycle.state.stack ∨ _
    rcases m.cycle_stack with hsame | ⟨p, hpush⟩ | ⟨hfetch, hres, hpop⟩
    · left; rw [hsame]; exact h
    · left; rw [hpush]; exact h.trans (List.suffix_cons p m.stack)
    · rw [hpop] at h
      rcases List.suffix_cons_iff.1 h with htop | hbelow
      · exact Or.inr ⟨rfl, hfetch, hres, htop⟩
      · exact Or.inl hbelow

/-- A stack that has a frame on it is deeper than what the top of the frame lies on. -/
theorem length_ne_of_frame {p : Nat} {rest stack : List Nat} (h : p :: rest <:+ stack) :
    stack.length ≠ rest.length := by
  have hlen := h.length_le
  rw [List.length_cons] at hlen
  omega

/-- A frame `p :: rest` lasts as long as the depth does not come back to that of `rest`.  Induction on
    the length of the run; the depth rules the return out at each step. -/
theorem frame_lasts {m : Machine K} {p : Nat} {rest : List Nat} (h : p :: rest <:+ m.stack)
    {es : List (Event K)} (hes : .reset ∉ es) (k : Nat)
    (hdepth : ∀ j, 0 < j → j ≤ k → (m.after (es.take j)).stack.length ≠ rest.length) :
    p :: rest <:+ (m.after (es.take k)).stack := by
  induction k with
  | zero => exact h
  | succ k ih =>
    have hk := ih fun j hpos hj => hdepth j hpos (Nat.le_succ_of_le hj)
    rcases Nat.lt_or_ge k es.length with hlt | hge
    · have he : es[k] ≠ .reset := fun heq => hes (heq ▸ List.getElem_mem hlt)
      rw [after_take_succ m hlt]
      rcases frame_step he hk with hkeep | ⟨hcycle, -, -, hframe⟩
      · exact hkeep
      · -- the return would bring the depth back
        have hback := hdepth (k + 1) (Nat.succ_pos k) (Nat.le_refl _)
        rw [after_take_succ m hlt, hcycle] at hback
        exact absurd (congrArg List.length (List.cons.inj hframe).2).symm hback
    · -- the run is over already
      rw [List.take_of_length_le (by omega)] at hk ⊢
      exact hk

/-! ## The discipline -/

/-- **Calls and returns match.**  Behind a call, and for as long as the depth has not come back to
    the caller's, the caller's stack with the return address on it stays as it is.  When the depth
    first comes back, that is by a return; it leads behind the call and leaves the caller's stack. -/
theorem call_return_discipline (m : Machine K) {o : Opcode} {a : Address} {s : Signal}
    (hfetch : m.fetch = .ok o) (hdecode : Instruction.decode o = .ok (.call a))
    (hs : m.cycle.result = .ok s) (es : List (Event K)) (hes : .reset ∉ es) (k : Nat)
    (hdepth : ∀ j, 0 < j → j ≤ k →
      (m.cycle.state.after (es.take j)).stack.length ≠ m.stack.length) :
    let now := m.cycle.state.after (es.take k)
    let then' := m.cycle.state.after (es.take (k + 1))
    (m.pc + 2) :: m.stack <:+ now.stack ∧
    (then'.stack.length = m.stack.length →
      es[k]? = some .cycle ∧ now.fetch = .ok 0x00EE ∧ now.cycle.result = .ok .quiet ∧
        then'.pc = m.pc + 2 ∧ then'.stack = m.stack) := by
  intro now then'
  have hcall : (m.pc + 2) :: m.stack <:+ m.cycle.state.stack :=
    ⟨[], (stack_of_call hfetch hdecode hs).symm⟩
  have hnow : (m.pc + 2) :: m.stack <:+ now.stack := frame_lasts hcall hes k hdepth
  refine ⟨hnow, fun hback => ?_⟩
  have hlt : k < es.length := by
    rcases Nat.lt_or_ge k es.length with hlt | hge
    · exact hlt
    · -- the run is over, with the frame still there
      have hsame : then' = now := by
        show m.cycle.state.after (es.take (k + 1)) = m.cycle.state.after (es.take k)
        rw [List.take_of_length_le hge, List.take_of_length_le (by omega)]
      rw [hsame] at hback
      exact absurd hback (length_ne_of_frame hnow)
  have he : es[k] ≠ .reset := fun heq => hes (heq ▸ List.getElem_mem hlt)
  have hstep : then' = (now.perform es[k]).state := after_take_succ m.cycle.state hlt
  rcases frame_step he hnow with hkeep | ⟨hcycle, hret, hres, hframe⟩
  · rw [← hstep] at hkeep
    exact absurd hback (length_ne_of_frame hkeep)
  · have hthen : then' = now.cycle.state := by rw [hstep, hcycle]; rfl
    obtain ⟨hpc, hstack⟩ := List.cons.inj hframe
    exact ⟨by rw [List.getElem?_eq_getElem hlt, hcycle], hret, hres,
      by rw [hthen, hpc], by rw [hthen, hstack]⟩

/-- A subroutine at `0x204`, called already, calls one at `0x208`, which calls a third at `0x20C`.
    The second call is the one looked at: its frame lasts while the third subroutine is called and
    returns, and goes with the return behind that. -/
theorem call_return_discipline_of_nested_call :
    let start := powerOn Keypad.released .plain (.repeating #[])
    let program : Array UInt8 :=
      #[0x22, 0x04, 0x00, 0x00, 0x22, 0x08, 0x00, 0xEE, 0x22, 0x0C, 0x00, 0xEE, 0x00, 0xEE]
    let m := start.after [.load program, .cycle]
    let es : List (Event Keypad) := [.cycle, .cycle, .cycle]
    (m.fetch = .ok 0x2208 ∧ m.cycle.result = .ok .quiet ∧ m.stack = [0x202]) ∧
    (m.cycle.state.after (es.take 1)).stack = [0x20A, 0x206, 0x202] ∧
    [0x206, 0x202] <:+ (m.cycle.state.after (es.take 2)).stack ∧
    (m.cycle.state.after es).pc = 0x206 ∧ (m.cycle.state.after es).stack = [0x202] := by
  intro start program m es
  -- the machines on the way
  let m₀ := (start.load program).state
  let m₁ := ((m₀.begin 0x2204).effect (.call 0x204)).follow (.jump 0x204)
  let m₂ := ((m₁.begin 0x2208).effect (.call 0x208)).follow (.jump 0x208)
  let m₃ := ((m₂.begin 0x220C).effect (.call 0x20C)).follow (.jump 0x20C)
  let m₄ := ((m₃.begin 0x00EE).effect .ret).follow (.jump 0x20A)
  let m₅ := ((m₄.begin 0x00EE).effect .ret).follow (.jump 0x206)
  have hfetch₀ : m₀.fetch = .ok 0x2204 :=
    fetch_of_overlay (p := program) (k := 0) rfl (by decide) rfl (by decide)
  have hfetch₁ : m₁.fetch = .ok 0x2208 :=
    fetch_of_overlay (p := program) (k := 4) rfl (by decide) rfl (by decide)
  have hfetch₂ : m₂.fetch = .ok 0x220C :=
    fetch_of_overlay (p := program) (k := 8) rfl (by decide) rfl (by decide)
  have hfetch₃ : m₃.fetch = .ok 0x00EE :=
    fetch_of_overlay (p := program) (k := 12) rfl (by decide) rfl (by decide)
  have hfetch₄ : m₄.fetch = .ok 0x00EE :=
    fetch_of_overlay (p := program) (k := 10) rfl (by decide) rfl (by decide)
  have hcycle₀ : m₀.cycle = .ok m₁ .quiet := cycle_of_no_fault hfetch₀ (i := .call 0x204) rfl rfl
  have hcycle₁ : m₁.cycle = .ok m₂ .quiet := cycle_of_no_fault hfetch₁ (i := .call 0x208) rfl rfl
  have hcycle₂ : m₂.cycle = .ok m₃ .quiet := cycle_of_no_fault hfetch₂ (i := .call 0x20C) rfl rfl
  have hcycle₃ : m₃.cycle = .ok m₄ .quiet := cycle_of_no_fault hfetch₃ (i := .ret) rfl rfl
  have hcycle₄ : m₄.cycle = .ok m₅ .quiet := cycle_of_no_fault hfetch₄ (i := .ret) rfl rfl
  -- the run, cycle by cycle
  have hload : start.after [.load program] = m₀ := rfl
  have hm : m = m₁ := by
    rw [show m = start.after ([.load program] ++ [.cycle]) from rfl, after_concat_cycle hload hcycle₀]
  have hcall : m.cycle = .ok m₂ .quiet := by rw [hm, hcycle₁]
  have hzero : m.cycle.state.after [] = m₂ := by rw [hcall, Outcome.state_ok, after_nil]
  have hone : m.cycle.state.after (es.take 1) = m₃ := by
    rw [show es.take 1 = [] ++ [.cycle] from rfl, after_concat_cycle hzero hcycle₂]
  have htwo : m.cycle.state.after (es.take 2) = m₄ := by
    rw [show es.take 2 = es.take 1 ++ [.cycle] from rfl, after_concat_cycle hone hcycle₃]
  have hthree : m.cycle.state.after es = m₅ := by
    rw [show es = es.take 2 ++ [.cycle] from rfl, after_concat_cycle htwo hcycle₄]
  have hfetch : m.fetch = .ok 0x2208 := by rw [hm, hfetch₁]
  have hs : m.cycle.result = .ok .quiet := by rw [hcall, Outcome.result_ok]
  have hstack : m.stack = [0x202] := by rw [hm]; rfl
  have hpc : m.pc = 0x204 := by rw [hm]; rfl
  have hdepth : ∀ j, 0 < j → j ≤ 2 →
      (m.cycle.state.after (es.take j)).stack.length ≠ m.stack.length := by
    intro j hpos hj
    rw [hstack]
    obtain rfl | rfl : j = 1 ∨ j = 2 := by omega
    · rw [hone]
      decide
    · rw [htwo]
      decide
  obtain ⟨hframe, hreturn⟩ :=
    call_return_discipline m hfetch (a := 0x208) rfl hs es (by simp [es]) 2 hdepth
  rw [hpc, hstack] at hframe hreturn
  have hback : (m.cycle.state.after es).stack.length = 1 := by
    rw [hthree]
    rfl
  obtain ⟨-, -, -, hbehind, hcaller⟩ := hreturn hback
  exact ⟨⟨hfetch, hs, hstack⟩, by rw [hone]; rfl, hframe, hbehind, hcaller⟩

end Chip8.Machine
