/-
  Two machines that go the same way.

  Many a property compares two machines that differ in one part, and says that nobody can tell.  The
  comparison always runs along the same lines, which are drawn here once.

  1. **Outcomes** — two outcomes are `Related` if they report the same and leave states that are.

  2. **The same way** — what is fetched, what keeps an instruction from running, where it leads and
     what it reports decide between them how a cycle goes.  Two machines that agree on these four
     report the same, and what is left to look at is whether effects keep them related
     (`SameWay.execute`, `SameWay.cycle`).

  3. **Refitting** — no instruction reads the noted opcode or the sound timer, and those that ask
     for keys ask for the sixteen only.  So a machine may be given others of these, even keys of
     another kind, and its instructions have the effect that they had before (`effect_refit`).

  4. **Requests** — most of what a request does is done aside.  A relation that is KEPT ASIDE takes
     no notice of that; then whether it is kept by a request is a matter of the effect of one
     instruction (`KeptAside.perform`, `KeptAside.answer`).
-/
import Chip8.Proofs.Request

namespace Chip8

/-- The two outcomes report the same and leave related states. -/
structure Outcome.Related {σ σ' α : Type} (R : σ → σ' → Prop) (o : Outcome σ α)
    (o' : Outcome σ' α) : Prop where
  result : o'.result = o.result
  state : R o.state o'.state

namespace Machine

variable {K K' : Type} [KeySource K] [KeySource K']

/-! ## The same way -/

/-- **The two machines go the same way**, whichever instruction it is. -/
structure SameWay (m : Machine K) (m' : Machine K') : Prop where
  fetch : m'.fetch = m.fetch
  fault? : ∀ i, m'.fault? i = m.fault? i
  flow : ∀ i, m'.flow i = m.flow i
  report : ∀ i, m'.report i = m.report i

namespace SameWay

variable {m : Machine K} {m' : Machine K'} {R : Machine K → Machine K' → Prop}

/-- **One instruction**: it is refused by both, or it runs on both. -/
theorem execute (h : m.SameWay m') (hself : R m m') {i : Instruction}
    (hrun : m.fault? i = none →
      R ((m.effect i).follow (m.flow i)) ((m'.effect i).follow (m.flow i))) :
    Outcome.Related R (m.execute i) (m'.execute i) := by
  have hsame := h.fault? i
  cases hfault : m.fault? i with
  | some f =>
    rw [execute_of_fault hfault, execute_of_fault (hsame.trans hfault)]
    exact ⟨rfl, hself⟩
  | none =>
    rw [execute_of_no_fault hfault, execute_of_no_fault (hsame.trans hfault), h.flow, h.report]
    exact ⟨rfl, hrun hfault⟩

/-- **One cycle**: both take the same of the four courses. -/
theorem cycle (h : m.SameWay m') (hself : R m m')
    (hnote : ∀ o, R { m with lastOpcode := o } { m' with lastOpcode := o })
    (hbegin : ∀ o, R (m.begin o) (m'.begin o))
    (hrun : ∀ i, m.fetch = .ok i.encode → m.fault? i = none →
      R (((m.begin i.encode).effect i).follow (m.flow i))
        (((m'.begin i.encode).effect i).follow (m.flow i))) :
    Outcome.Related R m.cycle m'.cycle := by
  cases m.course with
  | unfetched f hfetch hcycle =>
    rw [hcycle, cycle_of_fetch_error (h.fetch.trans hfetch)]
    exact ⟨rfl, hself⟩
  | unknown o f hfetch hdecode hcycle =>
    rw [hcycle, cycle_of_decode_error (h.fetch.trans hfetch) hdecode]
    exact ⟨rfl, hbegin o⟩
  | faulted o i f hfetch hdecode hfault hcycle =>
    rw [hcycle, cycle_of_fault (h.fetch.trans hfetch) hdecode ((h.fault? i).trans hfault)]
    exact ⟨rfl, hnote o⟩
  | executed o i hfetch hdecode hfault hcycle =>
    obtain rfl := Instruction.encode_of_decode hdecode
    rw [hcycle, cycle_of_no_fault (h.fetch.trans hfetch) hdecode ((h.fault? i).trans hfault),
      h.flow, h.report]
    exact ⟨rfl, hrun i hfetch hfault⟩

end SameWay

/-! ## Refitting -/

/-- The machine with another noted opcode, another sound timer and other keys. -/
def refit (m : Machine K) (o : Opcode) (sound : Timer) (keys : K') : Machine K' :=
  { m with lastOpcode := o, sound := sound, keys := keys }

variable {m : Machine K} {keys : K'}

/-- A refitted machine goes the same way. -/
theorem sameWay_refit (hkeys : SameKeys m.keys keys) (o : Opcode) (sound : Timer) :
    m.SameWay (m.refit o sound keys) where
  fetch := rfl
  fault? := fault?_congr rfl rfl
  flow := flow_congr rfl rfl hkeys
  report := report_congr hkeys

/-- **Instructions do to a refitted machine what they did before.**  What it was refitted with is
    still there afterwards, but for the sound timer, which may have been set. -/
theorem effect_refit (hkeys : SameKeys m.keys keys) (o : Opcode) (sound : Timer)
    (i : Instruction) :
    (m.refit o sound keys).effect i =
      (m.effect i).refit o ((m.refit o sound keys).effect i).sound keys := by
  cases i with
  | draw x y rows =>
    have hread : (m.refit o sound keys).memory.read (m.refit o sound keys).index.toNat rows.val =
        m.memory.read m.index.toNat rows.val := rfl
    simp only [effect, hread]
    cases m.memory.read m.index.toNat rows.val <;> rfl
  | load x =>
    simp only [effect, refit]
    cases m.memory.read m.index.toNat (x.val + 1) <;> rfl
  | waitKey x =>
    have hlowest : lowestDown (m.refit o sound keys).keys = lowestDown m.keys := hkeys.lowestDown_eq
    simp only [effect, hlowest]
    cases lowestDown m.keys <;> rfl
  | _ => rfl

/-! ## Requests -/

/-- The machine with its parts aside changed, each of them in its own way. -/
def changeAside (m : Machine K) (note : Opcode → Opcode) (memory : Memory → Memory)
    (pc : Nat → Nat) (delay sound : Timer → Timer) (keys : K → K) : Machine K :=
  m.aside (note m.lastOpcode) (memory m.memory) (pc m.pc) (delay m.delay) (sound m.sound)
    (keys m.keys)

/-- **A relation between machines that go the same way**, which is kept by whatever is done aside,
    and by a reset. -/
structure KeptAside (R : Machine K → Machine K → Prop) : Prop where
  sameWay : ∀ {m m'}, R m m' → m.SameWay m'
  aside : ∀ {m m'}, R m m' → ∀ note memory pc delay sound keys,
    R (m.changeAside note memory pc delay sound keys)
      (m'.changeAside note memory pc delay sound keys)
  reset : ∀ {m m'}, R m m' → R m.reset m'.reset

namespace KeptAside

variable {R : Machine K → Machine K → Prop} {m m' : Machine K}

theorem note (hR : KeptAside R) (h : R m m') (o : Opcode) :
    R { m with lastOpcode := o } { m' with lastOpcode := o } :=
  hR.aside h (fun _ => o) id id id id id

theorem begin (hR : KeptAside R) (h : R m m') (o : Opcode) : R (m.begin o) (m'.begin o) :=
  hR.aside h (fun _ => o) id (· + Code.opcodeSize) Timer.tick Timer.tick id

theorem follow (hR : KeptAside R) (h : R m m') (f : Flow) : R (m.follow f) (m'.follow f) :=
  hR.aside h id id f.target id id id

theorem execute (hR : KeptAside R) (h : R m m') {i : Instruction}
    (heffect : m.fault? i = none → R (m.effect i) (m'.effect i)) :
    Outcome.Related R (m.execute i) (m'.execute i) :=
  (hR.sameWay h).execute h fun hfault => hR.follow (heffect hfault) _

theorem cycle (hR : KeptAside R) (h : R m m')
    (heffect : ∀ i, m.fetch = .ok i.encode → m.fault? i = none →
      R ((m.begin i.encode).effect i) ((m'.begin i.encode).effect i)) :
    Outcome.Related R m.cycle m'.cycle :=
  (hR.sameWay h).cycle h (hR.note h) (hR.begin h)
    fun i hfetch hfault => hR.follow (heffect i hfetch hfault) _

/-- **An event** keeps the two related, if the instruction does that a cycle executes. -/
theorem perform (hR : KeptAside R) (h : R m m') {e : Event K}
    (heffect : e = .cycle → ∀ i, m.fetch = .ok i.encode → m.fault? i = none →
      R ((m.begin i.encode).effect i) ((m'.begin i.encode).effect i)) :
    Outcome.Related R (m.perform e) (m'.perform e) := by
  cases e with
  | cycle => exact hR.cycle h (heffect rfl)
  | rekey change => exact ⟨rfl, hR.aside h id id id id id change⟩
  | reset => exact ⟨rfl, hR.reset h⟩
  | load program =>
    obtain ⟨result, reload, hload⟩ := perform_load (K := K) program
    rw [hload, hload]
    exact ⟨rfl, hR.aside h id reload id id id id⟩

/-- **A request** keeps the two related, if the instruction does that is executed. -/
theorem answer (hR : KeptAside R) (h : R m m') {q : Request K}
    (hcycle : q = .event .cycle → ∀ i, m.fetch = .ok i.encode → m.fault? i = none →
      R ((m.begin i.encode).effect i) ((m'.begin i.encode).effect i))
    (hexecute : ∀ i, q = .execute i → m.fault? i = none → R (m.effect i) (m'.effect i)) :
    Outcome.Related R (m.answer q) (m'.answer q) := by
  cases q with
  | event e => exact hR.perform h fun he => hcycle (congrArg Request.event he)
  | execute i => exact hR.execute h (hexecute i rfl)
  | move f => exact ⟨rfl, hR.follow h f⟩

end KeptAside

/-- **What is kept by every request is kept by any number of them.** -/
theorem afterAll_related {R : Machine K → Machine K → Prop}
    (step : ∀ m m' q, R m m' → R (m.answer q).state (m'.answer q).state) {m m' : Machine K}
    (h : R m m') (qs : List (Request K)) : R (m.afterAll qs) (m'.afterAll qs) := by
  induction qs generalizing m m' with
  | nil => exact h
  | cons q qs ih =>
    rw [afterAll_cons, afterAll_cons]
    exact ih (step m m' q h)

end Machine

end Chip8
