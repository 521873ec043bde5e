/-
  A machine that was reset cannot be told from a new one.

  1. **What a reset gives** — the machine as it was switched on, in the dialect it was switched on
     with, however it was handled since.  Its keys stay, and so does its place in the byte stream.

  2. **What a stream is good for** — a machine asks its stream for the next byte and for nothing
     else.  So the bytes already taken do not count: two machines that differ only there, and have
     the same bytes AHEAD of them, are `Alike`.

  3. **In step from then on** — machines that are alike are so for any number of bytes, and that is
     more than there will ever be draws.  So whatever is asked of the two, both answer the same and
     are alike again (`alike_answer`).  Being alike also shows: the dumps are the same.

  So let a machine be reset, and build a new one with the same keys and with a stream that begins
  where the old one's has got to.  Nothing that is asked of the two later on tells them apart
  (`reset_indistinguishable`).
-/
import Chip8.Dump
import Chip8.Proofs.RandomBytes

namespace Chip8

/-- A new stream of the bytes still to come. -/
def ByteStream.renewed (s : ByteStream) : ByteStream where
  byte := s.ahead

theorem ByteStream.ahead_renewed (s : ByteStream) : s.renewed.ahead = s.ahead := by
  funext k
  show s.byte (s.taken + (0 + k)) = s.byte (s.taken + k)
  rw [Nat.zero_add]

namespace Machine

variable {K : Type}

/-! ## Machines that are alike -/

/-- The same machine but for the bytes taken from the stream: what is ahead is the same. -/
structure Alike (m m' : Machine K) : Prop where
  ahead : m'.random.ahead = m.random.ahead
  others : m' = m.withRandom m'.random

/-- Machines that are alike are so for any number of bytes. -/
theorem Alike.alikeFor {m m' : Machine K} (h : m.Alike m') (n : Nat) : m.AlikeFor n m' :=
  ⟨m'.random, fun k _ => congrFun h.ahead k, h.others⟩

/-- And the other way round. -/
theorem alike_of_alikeFor {m m' : Machine K} (h : ∀ n, m.AlikeFor n m') : m.Alike m' := by
  have hother : ∀ n, (∀ k < n, m'.random.ahead k = m.random.ahead k) ∧
      m' = m.withRandom m'.random := by
    intro n
    obtain ⟨s, hs, rfl⟩ := h n
    exact ⟨hs, rfl⟩
  exact ⟨funext fun k => (hother (k + 1)).1 k (Nat.lt_succ_self k), (hother 0).2⟩

/-- Both outcomes report the same and leave machines that are alike. -/
structure AlikeOutcome {α : Type} (o o' : Outcome (Machine K) α) : Prop where
  result : o'.result = o.result
  state : o.state.Alike o'.state

section

variable [KeySource K] {m m' : Machine K}

/-- The dump shows nothing of the stream. -/
theorem dump_eq_of_alike (h : m.Alike m') : m'.dump = m.dump := by
  obtain ⟨s, -, rfl⟩ := h.alikeFor 0
  rfl

/-- **Machines that are alike answer alike**, whatever is asked. -/
theorem alike_answer (h : m.Alike m') (q : Request K) :
    AlikeOutcome (m.answer q) (m'.answer q) where
  result := ((h.alikeFor _).answer (n := 0)).result
  state := alike_of_alikeFor fun n => ((h.alikeFor _).answer (n := n)).state

/-- And they stay alike, however often they are asked. -/
theorem alike_afterAll (h : m.Alike m') (qs : List (Request K)) :
    (m.afterAll qs).Alike (m'.afterAll qs) :=
  afterAll_related (R := Alike) (fun _ _ q hnow => (alike_answer hnow q).state) h qs

end

/-! ## The reset -/

/-- **A machine that was reset cannot be told from a new one.**  It is the machine that was switched
    on, whatever was asked of it in between, but for its keys and its place in the byte stream.  And
    let a new machine be given these keys and a stream that begins at this place: whatever is asked
    of both from then on, every answer is the same, every dump is the same, and after every request
    they are the same in every part but the stream, and the same bytes are ahead of both. -/
theorem reset_indistinguishable [KeySource K] (keys : K) (d : Dialect) (r : ByteStream)
    (past : List (Request K)) :
    let m := (powerOn keys d r).afterAll past
    m.reset = powerOn m.keys d m.random ∧
    (∃ n, m.random = { r with taken := r.taken + n }) ∧
    ∀ (future : List (Request K)) (next : Request K),
      let old := m.reset.afterAll future
      let new := (powerOn m.keys d m.random.renewed).afterAll future
      (old.answer next).result = (new.answer next).result ∧
      old.dump = new.dump ∧
      old = { new with random := old.random } ∧
      old.random.ahead = new.random.ahead := by
  intro m
  have hdialect : m.dialect = d := dialect_afterAll (powerOn keys d r) past
  have hreset : m.reset = powerOn m.keys d m.random := by
    rw [reset_eq_powerOn, hdialect]
  refine ⟨hreset, ⟨_, random_afterAll (powerOn keys d r) past⟩, ?_⟩
  intro future next old new
  have hstart : (powerOn m.keys d m.random.renewed).Alike m.reset := by
    rw [hreset]
    exact ⟨(ByteStream.ahead_renewed m.random).symm, rfl⟩
  have hnow : new.Alike old := alike_afterAll hstart future
  exact ⟨(alike_answer hnow next).result, dump_eq_of_alike hnow, hnow.others, hnow.ahead⟩

end Machine

end Chip8
