/-
  What the memory section of a dump says of memory.

  1. **From the front** — a section can also be written as one reads it: row after row, and where a
     row of zeros follows a line of zeros, that line is taken back and a longer one put in its place
     (`extend`).  The lines are the same as those built from the end (`memoryLines_eq_foldl`).

  2. **What the lines tell** — lines of zeros are merged, so it cannot be seen from a line how many
     rows went into it.  But a row that is NOT all zeros is never merged: it has its line, and the
     line says where it lies.  So the lines with words are exactly those of the rows that have
     something to show (`words_mem_memoryLines`).  A row that has no such line is zero, and memory is
     known.
-/
import Chip8.Dump.MemoryLine

namespace Chip8.Dump

open MemoryLine

/-! ## From the front -/

/-- A line behind others, which stand in reverse order.  If the one before it and the new one are
    both of zeros, the one before it makes room for a line that begins where it began. -/
def extend : List MemoryLine → MemoryLine → List MemoryLine
  | zeros a _ :: done, zeros _ b => zeros a b :: done
  | done, l => l :: done

/-- **Two lines that follow each other**, seen from the front and from the end: both ways they become
    one and the same line, or both ways they stay two. -/
theorem extend_absorb (l l' : MemoryLine) :
    (∃ joined, (∀ done, extend (l :: done) l' = joined :: done) ∧
      ∀ rest, absorb l (absorb l' rest) = absorb joined rest) ∨
    ((∀ done, extend (l :: done) l' = l' :: l :: done) ∧
      ∀ rest, absorb l (absorb l' rest) = l :: absorb l' rest) := by
  cases l with
  | words a ws => exact Or.inr ⟨fun _ => rfl, fun _ => rfl⟩
  | zeros a b =>
    cases l' with
    | words a' ws => exact Or.inr ⟨fun _ => rfl, fun _ => rfl⟩
    | zeros a' b' =>
      refine Or.inl ⟨zeros a b', fun _ => rfl, fun rest => ?_⟩
      -- what comes behind may be a third line of zeros
      cases rest with
      | nil => rfl
      | cons l'' rest =>
        cases l'' with
        | words a'' ws => rfl
        | zeros a'' b'' => rfl

/-- **Rows merged from the front.**  Induction on the rows still to come: the last line so far is all
    that they can change, so the lines before it stay. -/
theorem reverse_foldl_extend (l : MemoryLine) (done rows : List MemoryLine) :
    (rows.foldl extend (l :: done)).reverse = done.reverse ++ (l :: rows).foldr absorb [] := by
  induction rows generalizing l done with
  | nil =>
    have hlast : absorb l [] = [l] := by cases l <;> rfl
    rw [List.foldl_nil, List.foldr_cons, List.foldr_nil, hlast, List.reverse_cons]
  | cons l' rows ih =>
    rw [List.foldl_cons, List.foldr_cons, List.foldr_cons]
    rcases extend_absorb l l' with ⟨joined, hfront, hend⟩ | ⟨hfront, hend⟩
    · rw [hfront, hend, ih, List.foldr_cons]
    · rw [hfront, hend, ih, List.reverse_cons, List.append_assoc, List.singleton_append,
        List.foldr_cons]

/-- **The memory section, written as it is read.** -/
theorem memoryLines_eq_foldl (m : Memory) :
    memoryLines m = (((List.finRange 256).map (ofRow m)).foldl extend []).reverse := by
  rw [memoryLines]
  cases (List.finRange 256).map (ofRow m) with
  | nil => rfl
  | cons l rows =>
    rw [List.foldl_cons]
    exact (reverse_foldl_extend l [] rows).symm

/-! ## What the lines tell -/

/-- Absorbing leaves lines with words alone. -/
theorem words_mem_absorb {a : Nat} {ws : Vector Opcode 8} (l : MemoryLine)
    (rest : List MemoryLine) : words a ws ∈ absorb l rest ↔ words a ws = l ∨ words a ws ∈ rest := by
  cases l with
  | words b vs => exact List.mem_cons
  | zeros b e =>
    cases rest with
    | nil => exact List.mem_cons
    | cons l' rest =>
      cases l' with
      | words b' vs => exact List.mem_cons
      | zeros b' e' =>
        -- two lines become one, but neither had words
        simp only [absorb, List.mem_cons, reduceCtorEq, false_or]

/-- **The lines with words are those of the rows that are not all zeros.** -/
theorem words_mem_memoryLines {m : Memory} {a : Nat} {ws : Vector Opcode 8} :
    words a ws ∈ memoryLines m ↔ ∃ r, ofRow m r = words a ws := by
  have hfold : ∀ ls : List MemoryLine, words a ws ∈ ls.foldr absorb [] ↔ words a ws ∈ ls := by
    intro ls
    induction ls with
    | nil => exact Iff.rfl
    | cons l ls ih => rw [List.foldr_cons, words_mem_absorb, ih, List.mem_cons]
  rw [memoryLines, hfold, List.mem_map]
  constructor
  · rintro ⟨r, -, hr⟩
    exact ⟨r, hr⟩
  · rintro ⟨r, hr⟩
    exact ⟨r, List.mem_finRange r, hr⟩

/-- The line of a row that is not all zeros lists its words. -/
theorem ofRow_of_not_zero {m : Memory} {r : Fin 256} (h : ¬ (rowWords m r).all (· == 0) = true) :
    ofRow m r = words (rowSize * r) (rowWords m r) := if_neg h

/-- A line with words tells which row it is of, and the words of that row. -/
theorem eq_of_ofRow_eq_words {m : Memory} {r r' : Fin 256} {ws : Vector Opcode 8}
    (h : ofRow m r' = words (rowSize * r) ws) : rowWords m r = ws := by
  simp only [ofRow] at h
  split at h
  · cases h
  · obtain ⟨hplace, hwords⟩ := MemoryLine.words.inj h
    have hrow : r' = r := by
      apply Fin.ext
      simp only [rowSize] at hplace
      omega
    rw [← hrow, hwords]

/-- A row with something to show in one memory is the same in another that has the same lines. -/
theorem rowWords_eq_of_not_zero {m m' : Memory} (h : memoryLines m = memoryLines m') {r : Fin 256}
    (hr : ¬ (rowWords m r).all (· == 0) = true) : rowWords m' r = rowWords m r := by
  have hline : words (rowSize * r) (rowWords m r) ∈ memoryLines m' := by
    rw [← h]
    exact words_mem_memoryLines.2 ⟨r, ofRow_of_not_zero hr⟩
  obtain ⟨r', hr'⟩ := words_mem_memoryLines.1 hline
  exact eq_of_ofRow_eq_words hr'

/-- **The lines determine every row.** -/
theorem rowWords_eq {m m' : Memory} (h : memoryLines m = memoryLines m') (r : Fin 256) :
    rowWords m r = rowWords m' r := by
  by_cases hr : (rowWords m r).all (· == 0) = true
  · by_cases hr' : (rowWords m' r).all (· == 0) = true
    · -- both rows are all zeros
      apply Vector.ext
      intro k hk
      rw [Vector.all_eq_true] at hr hr'
      rw [beq_iff_eq.1 (hr k hk), beq_iff_eq.1 (hr' k hk)]
    · exact rowWords_eq_of_not_zero h.symm hr'
  · exact (rowWords_eq_of_not_zero h hr).symm

/-- **The lines determine memory.** -/
theorem memoryLines_inj {m m' : Memory} (h : memoryLines m = memoryLines m') : m = m' := by
  apply Vector.ext
  intro a ha
  -- the word that the byte is one half of
  have hword := congrArg (fun ws => ws[a % 16 / 2]) (rowWords_eq h ⟨a / 16, by omega⟩)
  simp only [rowWords, Vector.getElem_ofFn, Vector.get] at hword
  obtain ⟨hfirst, hsecond⟩ := Opcode.ofBytes_inj.1 hword
  rcases Nat.mod_two_eq_zero_or_one a with heven | hodd
  · have hplace : 16 * (a / 16) + 2 * (a % 16 / 2) = a := by omega
    simpa [hplace] using hfirst
  · have hplace : 16 * (a / 16) + 2 * (a % 16 / 2) + 1 = a := by omega
    simpa [hplace] using hsecond

end Chip8.Dump
