/-
  Only sixteen keys matter.

  A key source can be asked about any number, and whatever it answers past fifteen is its own
  affair.  So take two sources that answer alike about the sixteen keys, be they of one kind or of
  two, and give one to a console and the other to the same console once more.

  1. **A cycle** goes the same way with either source, because it asks for keys below sixteen only
     (`Machine.cycle_withSource`).  It cannot change the keys either, so neither can a run of ticks,
     and the display is told the same (`Console.runFrom_withSource`).

  2. **Sessions** — the keys may be changed in the meantime, on each side in its own way.  Two
     sessions have the same SHAPE if they agree on everything else.  As long as the two sources
     answer alike at every place of two such sessions, nothing tells the consoles apart: not what is
     reported, not the display, not a dump, and not the machines but for the keys themselves
     (`Console.after_sameButKeys`).

  3. **Keys that are none** — a byte past fifteen names no key.  `EX9E` takes it for one that is
     up, and so does `EXA1`, whatever the key source would have said.
-/
import Chip8.Dump
import Chip8.Proofs.SameWay

namespace Chip8

namespace Machine

variable {K K' : Type}

/-! ## One machine with two key sources -/

/-- The machine with other keys, be they of another kind. -/
def withSource (m : Machine K) (keys : K') : Machine K' := { m with keys := keys }

/-- The two machines differ in their keys at most. -/
def SameButKeys (m : Machine K) (m' : Machine K') : Prop := m' = m.withSource m'.keys

/-- No cycle changes the keys. -/
theorem keys_cycle [KeySource K] (m : Machine K) : m.cycle.state.keys = m.keys := by
  cases m.course with
  | unfetched f hfetch hcycle => rw [hcycle]; rfl
  | unknown o f hfetch hdecode hcycle => rw [hcycle]; rfl
  | faulted o i f hfetch hdecode hfault hcycle => rw [hcycle]; rfl
  | executed o i hfetch hdecode hfault hcycle => rw [hcycle]; exact keys_effect (m.begin o) i

section

variable [KeySource K] [KeySource K'] {m : Machine K} {keys : K'}

theorem sameWay_withSource (h : SameKeys m.keys keys) : m.SameWay (m.withSource keys) :=
  sameWay_refit h m.lastOpcode m.sound

theorem effect_withSource (h : SameKeys m.keys keys) (i : Instruction) :
    (m.withSource keys).effect i = (m.effect i).withSource keys := by
  have hnoted : m.lastOpcode = (m.effect i).lastOpcode := (m.lastOpcode_effect i).symm
  have hsound : ((m.withSource keys).effect i).sound = (m.effect i).sound := by
    rw [sound_effect, sound_effect]
    rfl
  have hrefit : (m.withSource keys).effect i =
      (m.effect i).refit m.lastOpcode ((m.withSource keys).effect i).sound keys :=
    effect_refit h m.lastOpcode m.sound i
  rw [hsound, hnoted] at hrefit
  exact hrefit

/-- **A cycle goes the same way**, and leaves the same but for the keys. -/
theorem cycle_withSource (h : SameKeys m.keys keys) :
    Outcome.Related (fun a b => b = a.withSource keys) m.cycle (m.withSource keys).cycle := by
  refine (sameWay_withSource h).cycle rfl (fun _ => rfl) (fun _ => rfl) ?_
  intro i hfetch hfault
  have heffect : ((m.withSource keys).begin i.encode).effect i =
      ((m.begin i.encode).effect i).withSource keys := effect_withSource (m := m.begin i.encode) h i
  rw [heffect]
  rfl

/-- The dump shows sixteen keys. -/
theorem dump_withSource (h : SameKeys m.keys keys) : (m.withSource keys).dump = m.dump := by
  have hshown :
      ((List.range keyCount).map fun k => Dump.keyWord ((m.withSource keys).isKeyDown k)) =
        (List.range keyCount).map fun k => Dump.keyWord (m.isKeyDown k) := by
    apply List.map_congr_left
    intro k hk
    exact congrArg Dump.keyWord (h k (List.mem_range.1 hk))
  rw [dump, dump, Dump.parts, Dump.parts, hshown]
  rfl

end

/-- The event but for what becomes of the keys. -/
def Event.shape : Event K → Event Unit
  | .cycle => .cycle
  | .load program => .load program
  | .rekey _ => .rekey id
  | .reset => .reset

/-- **Events of one shape keep two machines the same but for their keys.** -/
theorem perform_withSource [KeySource K] [KeySource K'] {m : Machine K} {keys : K'} {e : Event K}
    {e' : Event K'} (h : SameKeys m.keys keys) (he : e.shape = e'.shape) :
    Outcome.Related SameButKeys (m.perform e) ((m.withSource keys).perform e') := by
  cases e with
  | cycle =>
    cases e' with
    | cycle =>
      obtain ⟨hresult, hstate⟩ := cycle_withSource h
      refine ⟨hresult, ?_⟩
      rw [perform_cycle, perform_cycle, hstate]
      rfl
    | _ => cases he
  | load program =>
    cases e' with
    | load program' =>
      cases he
      rcases Nat.lt_or_ge programMax program.size with hlt | hle
      · rw [perform, perform, load_of_lt hlt, load_of_lt hlt]
        exact ⟨rfl, rfl⟩
      · rw [perform, perform, load_of_le hle, load_of_le hle]
        exact ⟨rfl, rfl⟩
    | _ => cases he
  | rekey change =>
    cases e' with
    | rekey change' => exact ⟨rfl, rfl⟩
    | _ => cases he
  | reset =>
    cases e' with
    | reset => exact ⟨rfl, rfl⟩
    | _ => cases he

end Machine

namespace Console

open Machine (SameKeys)

variable {K K' : Type}

/-! ## One console with two key sources -/

/-- The console with other keys. -/
def withSource (c : Console K) (keys : K') : Console K' where
  machine := c.machine.withSource keys
  log := c.log

/-- The two consoles differ in their keys at most. -/
def SameButKeys (c : Console K) (c' : Console K') : Prop := c' = c.withSource c'.machine.keys

@[simp] theorem perform_tick [KeySource K] (c : Console K) : c.perform .tick = c.tick := rfl

theorem sameButKeys_withSource (c : Console K) (keys : K') :
    SameButKeys c (c.withSource keys) := rfl

/-- The event but for what becomes of the keys. -/
def Event.shape : Event K → Event Unit
  | .tick => .tick
  | .run n => .run n
  | .reset => .reset
  | .direct e => .direct e.shape

/-- No tick changes the keys. -/
theorem keys_tick [KeySource K] (c : Console K) : c.tick.state.machine.keys = c.machine.keys := by
  rw [machine_tick, Machine.keys_cycle]

variable [KeySource K] [KeySource K'] {c : Console K} {keys : K'}

/-- **A tick** tells the display the same. -/
theorem tick_withSource (h : SameKeys c.machine.keys keys) :
    Outcome.Related (fun a b => b = a.withSource keys) c.tick (c.withSource keys).tick := by
  obtain ⟨hresult, hstate⟩ := Machine.cycle_withSource h
  refine ⟨by rw [result_tick, result_tick]; exact hresult, ?_⟩
  by_cases hdrawn : c.machine.cycle.result = .ok .drawn
  · rw [tick_of_drawn hdrawn, tick_of_drawn (c := c.withSource keys) (hresult.trans hdrawn)]
    show tell { c.withSource keys with machine := (c.machine.withSource keys).cycle.state }
      (.frame (c.machine.withSource keys).cycle.state.screen) = _
    rw [hstate]
    rfl
  · have hsilent : (c.withSource keys).machine.cycle.result ≠ .ok .drawn := by
      intro hother
      exact hdrawn (hresult.symm.trans hother)
    rw [tick_of_not_drawn hdrawn, tick_of_not_drawn hsilent]
    show { c.withSource keys with machine := (c.machine.withSource keys).cycle.state } = _
    rw [hstate]
    rfl

/-- And so do any number of them, because the keys stay the same meanwhile. -/
theorem runFrom_withSource (last : Signal) (n : Nat) (h : SameKeys c.machine.keys keys) :
    Outcome.Related (fun a b => b = a.withSource keys) (runFrom last n c)
      (runFrom last n (c.withSource keys)) := by
  induction n generalizing last c with
  | zero => exact ⟨rfl, rfl⟩
  | succ n ih =>
    obtain ⟨hresult, hstate⟩ := tick_withSource h
    rw [runFrom_succ, runFrom_succ, hresult, hstate]
    cases c.tick.result with
    | error f => exact ⟨rfl, rfl⟩
    | ok s =>
      apply ih
      rw [keys_tick]
      exact h

/-- **Events of one shape keep two consoles the same but for their keys.** -/
theorem perform_withSource {e : Event K} {e' : Event K'} (h : SameKeys c.machine.keys keys)
    (he : e.shape = e'.shape) :
    Outcome.Related SameButKeys (c.perform e) ((c.withSource keys).perform e') := by
  cases e with
  | tick =>
    cases e' with
    | tick =>
      obtain ⟨hresult, hstate⟩ := tick_withSource h
      exact ⟨hresult, by rw [perform, perform, hstate]; rfl⟩
    | _ => cases he
  | run n =>
    cases e' with
    | run n' =>
      cases he
      obtain ⟨hresult, hstate⟩ := runFrom_withSource .quiet n h
      exact ⟨hresult, by rw [perform, perform, run, run, hstate]; rfl⟩
    | _ => cases he
  | reset =>
    cases e' with
    | reset => exact ⟨rfl, rfl⟩
    | _ => cases he
  | direct e =>
    cases e' with
    | direct e' =>
      obtain ⟨hresult, hstate⟩ := Machine.perform_withSource h (Event.direct.inj he)
      exact ⟨hresult, congrArg (fun m => Console.mk m c.log) hstate⟩
    | _ => cases he

/-! ## Sessions -/

/-- **The keys answer alike at every place** of two sessions. -/
def SameKeysThroughout (c : Console K) (c' : Console K') (es : List (Event K))
    (es' : List (Event K')) : Prop :=
  ∀ j, SameKeys (c.after (es.take j)).machine.keys (c'.after (es'.take j)).machine.keys

section

variable {c : Console K} {c' : Console K'}

theorem sameKeysThroughout_nil :
    SameKeysThroughout c c' [] [] ↔ SameKeys c.machine.keys c'.machine.keys := by
  constructor
  · intro h
    exact h 0
  · intro h j
    rw [List.take_nil, List.take_nil]
    exact h

/-- Before the first events, and throughout the rest. -/
theorem sameKeysThroughout_cons {e : Event K} {e' : Event K'} {es : List (Event K)}
    {es' : List (Event K')} :
    SameKeysThroughout c c' (e :: es) (e' :: es') ↔ SameKeys c.machine.keys c'.machine.keys ∧
      SameKeysThroughout (c.perform e).state (c'.perform e').state es es' := by
  constructor
  · intro h
    exact ⟨h 0, fun j => h (j + 1)⟩
  · rintro ⟨hhead, htail⟩ j
    cases j with
    | zero => exact hhead
    | succ j => exact htail j

/-- **Two sessions of one shape keep the consoles the same but for their keys**, and in the end
    these still answer alike.  Induction on the sessions, one event at a time. -/
theorem after_sameButKeys (hstart : SameButKeys c c') {es : List (Event K)}
    {es' : List (Event K')} (hshape : es.map Event.shape = es'.map Event.shape)
    (hkeys : SameKeysThroughout c c' es es') :
    SameButKeys (c.after es) (c'.after es') ∧
      SameKeys (c.after es).machine.keys (c'.after es').machine.keys := by
  induction es generalizing c c' es' with
  | nil =>
    cases es' with
    | nil => exact ⟨hstart, sameKeysThroughout_nil.1 hkeys⟩
    | cons e' es' => cases hshape
  | cons e es ih =>
    cases es' with
    | nil => cases hshape
    | cons e' es' =>
      obtain ⟨he, hes⟩ := List.cons.inj hshape
      obtain ⟨hhead, htail⟩ := sameKeysThroughout_cons.1 hkeys
      have hfirst : SameButKeys (c.perform e).state (c'.perform e').state := by
        have hperform := (perform_withSource hhead he).state
        rwa [← show c' = c.withSource c'.machine.keys from hstart] at hperform
      exact ih hfirst hes htail

end

/-! ## Sixteen keys and no others -/

/-- **Only sixteen keys matter.**  Let one console be given two key sources, and let it be handled
    with either in the same way, but for how the keys are changed meanwhile.  If the two sources
    answer alike about the sixteen keys at every place of the two sessions, then at the end of them
    the display was told the same, the machines are the same but for their keys, so are their dumps,
    and whatever is done next, the same is reported.  And past fifteen it does not matter at all
    what a source answers: there `EX9E` never skips, and `EXA1` always does. -/
theorem only_sixteen_keys_matter :
    (∀ (c : Console K) (keys' : K') (past : List (Event K)) (past' : List (Event K')),
      past.map Event.shape = past'.map Event.shape →
      SameKeysThroughout c (c.withSource keys') past past' →
      let now := c.after past
      let now' := (c.withSource keys').after past'
      now'.log = now.log ∧
      now'.machine = now.machine.withSource now'.machine.keys ∧
      now'.machine.dump = now.machine.dump ∧
      ∀ (next : Event K) (next' : Event K'), next.shape = next'.shape →
        (now'.perform next').result = (now.perform next).result) ∧
    ∀ (m : Machine K) (o : Opcode), m.fetch = .ok o → o.family = 0xE →
      15 < (m.registers.read o.x).toNat →
      (o.low = 0x9E → m.cycle = .ok (m.begin o) .quiet) ∧
      (o.low = 0xA1 → m.cycle = .ok { m.begin o with pc := m.pc + 4 } .quiet) := by
  constructor
  · intro c keys' past past' hshape hkeys now now'
    obtain ⟨hnow, halike⟩ : now' = now.withSource now'.machine.keys ∧
        SameKeys now.machine.keys now'.machine.keys :=
      after_sameButKeys (c.sameButKeys_withSource keys') hshape hkeys
    generalize now'.machine.keys = keys at hnow halike
    rw [hnow]
    exact ⟨rfl, rfl, Machine.dump_withSource halike,
      fun next next' hnext => (perform_withSource halike hnext).result⟩
  · intro m o hfetch hfamily hpast
    have hnone := m.holdsKey_of_le hpast
    constructor
    · intro hlow
      have hdecode : Instruction.decode o = .ok (.skip (.keyDown o.x)) :=
        Instruction.decode_eq_ok_iff.2 (Opcode.ofByte_eq_iff.2 ⟨hfamily, rfl, hlow⟩)
      rw [Machine.cycle_of_no_fault hfetch hdecode rfl, Machine.flow, Machine.holds, hnone]
      rfl
    · intro hlow
      have hdecode : Instruction.decode o = .ok (.skip (.keyUp o.x)) :=
        Instruction.decode_eq_ok_iff.2 (Opcode.ofByte_eq_iff.2 ⟨hfamily, rfl, hlow⟩)
      rw [Machine.cycle_of_no_fault hfetch hdecode rfl, Machine.flow, Machine.holds, hnone]
      rfl

/-- Any function tells which keys are down. -/
instance : KeySource (Nat → Bool) := ⟨id⟩

/-- The fifth key goes down, on a keypad and for a source that says of all numbers past fifteen that
    they are down.  `V0` becomes twenty, `E09E` does not skip, and `F10A` is given the key. -/
theorem only_sixteen_keys_matter_of_twenty :
    let program : Array UInt8 := #[0x60, 0x14, 0xE0, 0x9E, 0xF1, 0x0A]
    let c := start ((Machine.powerOn Keypad.released .plain (.repeating #[])).load program).state
    let keys' : Nat → Bool := fun k => 15 < k
    let past : List (Event Keypad) := [.direct (.rekey fun p => p.set 5 true), .tick, .tick]
    let past' : List (Event (Nat → Bool)) :=
      [.direct (.rekey fun f k => f k || k == 5), .tick, .tick]
    (past.map Event.shape = past'.map Event.shape ∧
      SameKeysThroughout c (c.withSource keys') past past') ∧
    ((c.withSource keys').after past').machine.pc = 0x204 ∧
    ((c.withSource keys').after past').machine.dump = (c.after past).machine.dump ∧
    (((c.withSource keys').after past').perform .tick).result = .ok .quiet := by
  intro program c keys' past past'
  let m := { c.machine with keys := c.machine.keys.set 5 true }
  let m₁ := ((m.begin 0x6014).effect (.setByte 0 20)).follow .next
  let m₂ := m₁.begin 0xE09E
  have hfetch : m.fetch = .ok 0x6014 :=
    Machine.fetch_of_overlay (p := program) (k := 0) rfl (by decide) rfl (by decide)
  have hfetch₁ : m₁.fetch = .ok 0xE09E :=
    Machine.fetch_of_overlay (p := program) (k := 2) rfl (by decide) rfl (by decide)
  have hfetch₂ : m₂.fetch = .ok 0xF10A :=
    Machine.fetch_of_overlay (p := program) (k := 4) rfl (by decide) rfl (by decide)
  have hkeys : SameKeysThroughout c (c.withSource keys') past past' := by
    have hbefore : SameKeys Keypad.released keys' := by decide
    have hafter : SameKeys (Keypad.released.set 5 true) fun k => keys' k || k == 5 := by decide
    simp only [past, past', sameKeysThroughout_cons, sameKeysThroughout_nil, perform_tick,
      keys_tick]
    exact ⟨hbefore, hafter, hafter, hafter⟩
  obtain ⟨hruns, hskips⟩ := @only_sixteen_keys_matter Keypad (Nat → Bool) _ _
  obtain ⟨-, hmachine, hdump, hnext⟩ := hruns c keys' past past' rfl hkeys
  have hcycle : m.cycle = .ok m₁ .quiet :=
    Machine.cycle_of_no_fault hfetch (i := .setByte 0 20) rfl rfl
  have hcycle₁ : m₁.cycle = .ok m₂ .quiet := (hskips m₁ 0xE09E hfetch₁ rfl (by decide)).1 rfl
  have hnow : (c.after past).machine = m₂ := by
    have hticks : (c.after past).machine = m.cycle.state.cycle.state := by
      rw [after_cons, after_cons, after_cons, after_nil, perform_tick, perform_tick, machine_tick,
        machine_tick]
      rfl
    rw [hticks, hcycle, Outcome.state_ok, hcycle₁, Outcome.state_ok]
  refine ⟨⟨rfl, hkeys⟩, ?_, hdump, ?_⟩
  · rw [hmachine, hnow]
    rfl
  · rw [hnext .tick .tick rfl]
    rw [perform_tick, result_tick, hnow,
      Machine.cycle_of_no_fault hfetch₂ (i := .waitKey 1) rfl rfl]
    rfl

end Console

end Chip8
