/-
  The lines of the memory section, as an account of memory.

  1. **Tiling** — each line begins where the one before it ended.  So lines that tile a range are in
     ascending order, and every address of the range is in one of them (`Tiles.ascending`,
     `Tiles.covers`).

  2. **What a line tells** — a line of zeros is about whole rows, and all that is in them is zero.  A
     line of words is about one row that is NOT all zeros, and its words are made of the bytes of the
     row (`Tells`).  A row by itself has such a line (`tells_ofRow`).

  3. **Merging** — of two lines of zeros that follow each other there is one left (`Merged`).  A line
     that is put in front of an account of memory by `absorb` leaves an account of memory, and so the
     memory section is one (`accounts_memoryLines`).

  4. **No other** — these three things leave no choice.  Where two accounts begin at the same place
     they begin with the same line: a line of zeros cannot end earlier than another, for what follows
     it would be zeros again, or a row with something in it (`Accounts.unique`).
-/
import Chip8.Proofs.Dump.Memory
import Mathlib.Data.List.Chain

namespace Chip8.Dump

open MemoryLine

/-! ## Tiling -/

/-- **Lines that follow each other** without gap or overlap, from address `a` to just before `e`. -/
def Tiles (a e : Nat) : List MemoryLine → Prop
  | [] => a = e
  | l :: ls => l.first = a ∧ l.first ≤ l.last ∧ Tiles (l.last + 1) e ls

/-- None of them reaches below the start. -/
theorem Tiles.le_first {a e : Nat} {ls : List MemoryLine} (h : Tiles a e ls) :
    ∀ l ∈ ls, a ≤ l.first := by
  induction ls generalizing a with
  | nil => exact fun l hl => absurd hl List.not_mem_nil
  | cons l ls ih =>
    obtain ⟨hfirst, hle, hrest⟩ := h
    intro l' hl'
    rcases List.mem_cons.1 hl' with rfl | hl'
    · exact Nat.le_of_eq hfirst.symm
    · have := ih hrest l' hl'
      omega

/-- **Every line ends before the next one begins.** -/
theorem Tiles.ascending {a e : Nat} {ls : List MemoryLine} (h : Tiles a e ls) :
    ls.Pairwise fun l l' => l.last < l'.first := by
  induction ls generalizing a with
  | nil => exact List.Pairwise.nil
  | cons l ls ih =>
    obtain ⟨-, -, hrest⟩ := h
    exact List.pairwise_cons.2 ⟨fun l' hl' => hrest.le_first l' hl', ih hrest⟩

theorem Tiles.le {a e : Nat} {ls : List MemoryLine} (h : Tiles a e ls) : a ≤ e := by
  induction ls generalizing a with
  | nil => exact Nat.le_of_eq h
  | cons l ls ih =>
    obtain ⟨hfirst, hle, hrest⟩ := h
    have := ih hrest
    omega

/-- **An address is in one of the lines exactly if it is in the range.** -/
theorem Tiles.covers {a e : Nat} {ls : List MemoryLine} (h : Tiles a e ls) (i : Nat) :
    (∃ l ∈ ls, l.first ≤ i ∧ i ≤ l.last) ↔ a ≤ i ∧ i < e := by
  induction ls generalizing a with
  | nil =>
    obtain rfl : a = e := h
    constructor
    · rintro ⟨l, hl, -⟩
      exact absurd hl List.not_mem_nil
    · omega
  | cons l ls ih =>
    obtain ⟨hfirst, hle, hrest⟩ := h
    have hend := hrest.le
    simp only [List.mem_cons, exists_eq_or_imp, ih hrest]
    omega

/-! ## What a line tells -/

/-- **What a line tells of memory.** -/
inductive Tells (m : Memory) : MemoryLine → Prop
  /-- Rows `r` to `s`, all zeros. -/
  | zeros (r s : Fin 256) (hle : r ≤ s)
      (hzero : ∀ i (hi : i < 4096), 16 * r.val ≤ i → i ≤ 16 * s.val + 15 → m[i] = 0) :
      Tells m (.zeros (16 * r) (16 * s + 15))
  /-- Row `r`, which is not all zeros, as big-endian words. -/
  | words (r : Fin 256) (ws : Vector Opcode 8) (hsome : ∃ k : Fin 16, m[16 * r.val + k.val] ≠ 0)
      (hwords : ∀ k (hk : k < 8), ws[k].toNat =
        256 * m[16 * r.val + 2 * k].toNat + m[16 * r.val + 2 * k + 1].toNat) :
      Tells m (.words (16 * r) ws)

theorem getElem_rowWords (m : Memory) (r : Fin 256) (k : Nat) (hk : k < 8) :
    (rowWords m r)[k] = .ofBytes m[16 * r.val + 2 * k] m[16 * r.val + 2 * k + 1] := by
  simp [rowWords, Vector.get]

/-- A word is zero if both of its bytes are. -/
theorem rowWords_zero_iff {m : Memory} {r : Fin 256} :
    (rowWords m r).all (· == 0) = true ↔ ∀ k : Fin 16, m[16 * r.val + k.val] = 0 := by
  have hzero : (0 : Opcode) = .ofBytes 0 0 := by decide
  rw [Vector.all_eq_true]
  constructor
  · intro h k
    have hword := beq_iff_eq.1 (h (k.val / 2) (by omega))
    rw [getElem_rowWords, hzero] at hword
    obtain ⟨heven, hodd⟩ := Opcode.ofBytes_inj.1 hword
    rcases Nat.mod_two_eq_zero_or_one k.val with hk | hk
    · have hplace : 16 * r.val + 2 * (k.val / 2) = 16 * r.val + k.val := by omega
      simpa only [hplace] using heven
    · have hplace : 16 * r.val + 2 * (k.val / 2) + 1 = 16 * r.val + k.val := by omega
      simpa only [hplace] using hodd
  · intro h k hk
    have heven := h ⟨2 * k, by omega⟩
    have hodd := h ⟨2 * k + 1, by omega⟩
    rw [getElem_rowWords, beq_iff_eq, hzero]
    exact Opcode.ofBytes_inj.2 ⟨heven, hodd⟩

theorem first_ofRow (m : Memory) (r : Fin 256) : (ofRow m r).first = 16 * r := by
  simp only [ofRow]
  split
  · rfl
  · rfl

theorem last_ofRow (m : Memory) (r : Fin 256) : (ofRow m r).last = 16 * r + 15 := by
  simp only [ofRow]
  split
  · rfl
  · rfl

/-- **A row by itself has a line that tells it.** -/
theorem tells_ofRow (m : Memory) (r : Fin 256) : Tells m (ofRow m r) := by
  simp only [ofRow, rowSize]
  split
  · rename_i hall
    apply Tells.zeros r r (Nat.le_refl _)
    intro i hi hlow hhigh
    have hzero := rowWords_zero_iff.1 hall ⟨i - 16 * r.val, by omega⟩
    have hplace : 16 * r.val + (i - 16 * r.val) = i := by omega
    simpa only [hplace] using hzero
  · rename_i hsome
    apply Tells.words r
    · rw [rowWords_zero_iff] at hsome
      exact Classical.not_forall.1 hsome
    · intro k hk
      rw [getElem_rowWords, Opcode.toNat_ofBytes]

/-! ## Merging -/

/-- Is the line one of zeros? -/
def IsZeros : MemoryLine → Prop
  | .zeros _ _ => True
  | .words _ _ => False

/-- No two lines of zeros follow each other. -/
def Merged (ls : List MemoryLine) : Prop := ls.IsChain fun l l' => ¬ (IsZeros l ∧ IsZeros l')

theorem merged_cons {l : MemoryLine} {ls : List MemoryLine} :
    Merged (l :: ls) ↔ (∀ l' ∈ ls.head?, ¬ (IsZeros l ∧ IsZeros l')) ∧ Merged ls :=
  List.isChain_cons

/-- **An account of memory** from address `a` on. -/
structure Accounts (m : Memory) (a : Nat) (ls : List MemoryLine) : Prop where
  tiles : Tiles a memorySize ls
  tells : ∀ l ∈ ls, Tells m l
  merged : Merged ls

/-- A line ends in memory, and not before it begins. -/
theorem Tells.bounds {m : Memory} {l : MemoryLine} (h : Tells m l) :
    l.first ≤ l.last ∧ l.last < memorySize := by
  cases h with
  | zeros r s hle hzero =>
    show 16 * r.val ≤ 16 * s.val + 15 ∧ 16 * s.val + 15 < 4096
    have := Fin.le_def.1 hle
    omega
  | words r ws hsome hwords =>
    show 16 * r.val ≤ 16 * r.val + 15 ∧ 16 * r.val + 15 < 4096
    omega

/-- **Two lines of zeros that follow each other tell the same as one.** -/
theorem Tells.join {m : Memory} {a b e : Nat} (h : Tells m (.zeros a b))
    (h' : Tells m (.zeros (b + 1) e)) : Tells m (.zeros a e) := by
  generalize hnext : b + 1 = c at h'
  cases h with
  | zeros r s hle hzero =>
    cases h' with
    | zeros r' s' hle' hzero' =>
      have hrows : r ≤ s' := by
        rw [Fin.le_def] at hle hle' ⊢
        omega
      apply Tells.zeros r s' hrows
      intro i hi hlow hhigh
      rcases Nat.lt_or_ge (16 * s.val + 15) i with hlt | hge
      · exact hzero' i hi (by omega) hhigh
      · exact hzero i hi hlow hge

/-- **One line more in front**: what comes out is an account again. -/
theorem Accounts.absorb {m : Memory} {l : MemoryLine} {ls : List MemoryLine} (hl : Tells m l)
    (h : Accounts m (l.last + 1) ls) : Accounts m l.first (absorb l ls) := by
  have hbounds := hl.bounds
  have hcons : Tiles l.first memorySize (l :: ls) := ⟨rfl, hbounds.1, h.tiles⟩
  have hall : ∀ l' ∈ l :: ls, Tells m l' := List.forall_mem_cons.2 ⟨hl, h.tells⟩
  cases l with
  | words a ws => exact ⟨hcons, hall, merged_cons.2 ⟨fun l' _ hzeros => hzeros.1, h.merged⟩⟩
  | zeros a b =>
    cases ls with
    | nil => exact ⟨hcons, hall, List.isChain_singleton _⟩
    | cons l' ls =>
      cases l' with
      | words a' ws =>
        refine ⟨hcons, hall, merged_cons.2 ⟨?_, h.merged⟩⟩
        intro l' hl' hzeros
        cases hl'
        exact hzeros.2
      | zeros a' b' =>
        -- the two become one, which ends where the second one ended
        obtain ⟨hfirst, hle, hrest⟩ := h.tiles
        obtain ⟨htells', htells⟩ := List.forall_mem_cons.1 h.tells
        obtain ⟨hhead, hmerged⟩ := merged_cons.1 h.merged
        obtain rfl : a' = b + 1 := hfirst
        have hjoined := hl.join htells'
        exact ⟨⟨rfl, hjoined.bounds.1, hrest⟩, List.forall_mem_cons.2 ⟨hjoined, htells⟩,
          merged_cons.2 ⟨hhead, hmerged⟩⟩

/-- Lines that tile memory to its end are merged one by one, from the last one on. -/
theorem accounts_foldr {m : Memory} {a : Nat} {ls : List MemoryLine} (htiles : Tiles a memorySize ls)
    (htells : ∀ l ∈ ls, Tells m l) : Accounts m a (ls.foldr MemoryLine.absorb []) := by
  induction ls generalizing a with
  | nil => exact ⟨htiles, htells, List.isChain_nil⟩
  | cons l ls ih =>
    obtain ⟨rfl, -, hrest⟩ := htiles
    obtain ⟨hl, hls⟩ := List.forall_mem_cons.1 htells
    exact (ih hrest hls).absorb hl

/-- The rows from row `k` on tile memory from there on.  Induction on how many there are. -/
theorem tiles_rows (m : Memory) {n k : Nat} (h : k + n = 256) :
    Tiles (16 * k) memorySize (((List.finRange 256).drop k).map (ofRow m)) := by
  induction n generalizing k with
  | zero =>
    obtain rfl : k = 256 := h
    rfl
  | succ n ih =>
    have hk : k < (List.finRange 256).length := by
      rw [List.length_finRange]
      omega
    rw [List.drop_eq_getElem_cons hk, List.map_cons, List.getElem_finRange]
    refine ⟨first_ofRow m _, ?_, ?_⟩
    · rw [first_ofRow, last_ofRow]
      omega
    · rw [last_ofRow]
      exact ih (k := k + 1) (by omega)

/-- **The memory section is an account of all of memory.** -/
theorem accounts_memoryLines (m : Memory) : Accounts m 0 (memoryLines m) := by
  have htiles := tiles_rows m (k := 0) (Nat.zero_add 256)
  rw [List.drop_zero] at htiles
  exact accounts_foldr htiles (List.forall_mem_map.2 fun r _ => tells_ofRow m r)

/-! ## No other -/

/-- What a line of zeros says: whole rows, and nothing in them. -/
theorem Tells.of_zeros {m : Memory} {a b : Nat} (h : Tells m (.zeros a b)) :
    (∃ s, b = 16 * s + 15) ∧ ∀ i (hi : i < 4096), a ≤ i → i ≤ b → m[i] = 0 := by
  cases h with
  | zeros r s hle hzero => exact ⟨⟨s, rfl⟩, hzero⟩

/-- **A line of zeros goes as far as it can**: none that begins at the same place ends later. -/
theorem Accounts.le_of_zeros {m : Memory} {a b e : Nat} {ls : List MemoryLine}
    (h : Accounts m a (.zeros a b :: ls)) (h' : Tells m (.zeros a e)) : e ≤ b := by
  obtain ⟨-, hle, hrest⟩ := h.tiles
  obtain ⟨hhead, -⟩ := merged_cons.1 h.merged
  obtain ⟨hl, hls⟩ := List.forall_mem_cons.1 h.tells
  obtain ⟨s, hs⟩ := hl.of_zeros.1
  obtain ⟨⟨s', hs'⟩, hzero⟩ := h'.of_zeros
  have hend : e < memorySize := h'.bounds.2
  apply Nat.le_of_not_lt
  intro hlt
  cases ls with
  | nil =>
    -- the line ends with memory
    have hlast : b + 1 = memorySize := hrest
    omega
  | cons l ls =>
    obtain ⟨hfirst, -, -⟩ := hrest
    cases hls l List.mem_cons_self with
    | zeros r t hle hzero => exact hhead _ rfl ⟨trivial, trivial⟩
    | words r ws hsome hwords =>
      -- the row behind it has something in it
      obtain ⟨k, hk⟩ := hsome
      have hrow : 16 * r.val = b + 1 := hfirst
      have hlow : a ≤ b := hle
      exact hk (hzero _ (by omega) (by omega) (by omega))

/-- A line of words is about a row that no line of zeros is about. -/
theorem Tells.words_ne_zeros {m : Memory} {a b : Nat} {ws : Vector Opcode 8}
    (h : Tells m (.words a ws)) (h' : Tells m (.zeros a b)) : False := by
  cases h with
  | words r ws hsome hwords =>
    obtain ⟨k, hk⟩ := hsome
    obtain ⟨⟨s, hs⟩, hzero⟩ := h'.of_zeros
    have hle : 16 * r.val ≤ b := h'.bounds.1
    exact hk (hzero _ (by omega) (by omega) (by omega))

/-- A row has one list of words. -/
theorem Tells.words_inj {m : Memory} {a : Nat} {ws ws' : Vector Opcode 8}
    (h : Tells m (.words a ws)) (h' : Tells m (.words a ws')) : ws = ws' := by
  cases h with
  | words r ws hsome hwords =>
    generalize hplace : 16 * r.val = c at h'
    cases h' with
    | words r' ws' hsome' hwords' =>
      obtain rfl : r = r' := Fin.ext (by omega)
      apply Vector.ext
      intro k hk
      apply UInt16.toNat_inj.1
      rw [hwords k hk, hwords' k hk]

/-- Where there is a line, there is memory left. -/
theorem Accounts.lt_of_cons {m : Memory} {a : Nat} {l : MemoryLine} {ls : List MemoryLine}
    (h : Accounts m a (l :: ls)) : a < memorySize := by
  obtain ⟨hfirst, -, -⟩ := h.tiles
  have hbounds := (h.tells l List.mem_cons_self).bounds
  omega

/-- **Two accounts that begin at the same place begin with the same line.** -/
theorem Accounts.head_eq {m : Memory} {a : Nat} {l l' : MemoryLine} {ls ls' : List MemoryLine}
    (h : Accounts m a (l :: ls)) (h' : Accounts m a (l' :: ls')) : l = l' := by
  have hl := h.tells l List.mem_cons_self
  have hl' := h'.tells l' List.mem_cons_self
  have hfirst : l.first = a := h.tiles.1
  have hfirst' : l'.first = a := h'.tiles.1
  cases l with
  | zeros b e =>
    obtain rfl : b = a := hfirst
    cases l' with
    | zeros b' e' =>
      obtain rfl : b' = b := hfirst'
      rw [Nat.le_antisymm (h'.le_of_zeros hl) (h.le_of_zeros hl')]
    | words b' ws' =>
      obtain rfl : b' = b := hfirst'
      exact absurd hl fun hl => hl'.words_ne_zeros hl
  | words b ws =>
    obtain rfl : b = a := hfirst
    cases l' with
    | zeros b' e' =>
      obtain rfl : b' = b := hfirst'
      exact absurd hl' fun hl' => hl.words_ne_zeros hl'
    | words b' ws' =>
      obtain rfl : b' = b := hfirst'
      rw [hl.words_inj hl']

/-- What is behind the first line is an account, too. -/
theorem Accounts.tail {m : Memory} {a : Nat} {l : MemoryLine} {ls : List MemoryLine}
    (h : Accounts m a (l :: ls)) : Accounts m (l.last + 1) ls :=
  ⟨h.tiles.2.2, (List.forall_mem_cons.1 h.tells).2, (merged_cons.1 h.merged).2⟩

/-- **There is no other account of memory.** -/
theorem Accounts.unique {m : Memory} {a : Nat} {ls ls' : List MemoryLine} (h : Accounts m a ls)
    (h' : Accounts m a ls') : ls = ls' := by
  induction ls generalizing a ls' with
  | nil =>
    have hend : a = memorySize := h.tiles
    cases ls' with
    | nil => rfl
    | cons l' ls' => exact absurd h'.lt_of_cons (by omega)
  | cons l ls ih =>
    cases ls' with
    | nil =>
      have hend : a = memorySize := h'.tiles
      exact absurd h.lt_of_cons (by omega)
    | cons l' ls' =>
      obtain rfl := h.head_eq h'
      rw [ih h.tail h'.tail]

end Chip8.Dump
