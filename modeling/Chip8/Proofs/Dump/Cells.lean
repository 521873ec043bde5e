/-
  The lines of a dump, read back.

  A line is cells with blanks between them, and a cell is a WORD: letters and digits, nothing else.
  So a cell ends where the first other character stands, and whoever reads a line from its beginning
  finds one cell after the other, whatever their width.  Nothing below counts columns.

  1. **Runs of one kind** — where things of one kind are followed by something of another, what is
     in front and what follows are both known (`run_append_inj`).

  2. **Words** — are runs of letters and digits, so a word in front is read off
     (`word_append_inj`).

  3. **Cells side by side** — are read back one by one (`sideBySide_inj`); the blanks that fill a
     cell up tell nothing and cost nothing, for equal cells have equally many.

  4. **Ranges, banks and memory lines** — are made of such pieces, and so read back too.  The one
     line without words is told by its dots (`memoryLine_text_inj`).

  That a line has no line break in it (`OneLine`) is what keeps it apart from its neighbours.
-/
import Chip8.Dump

namespace Chip8.Dump

open Numeral

/-! ## Runs of one kind -/

/-- Beginning with something of another kind, if with anything. -/
def StopsAt {α : Type} (p : α → Bool) (s : List α) : Prop := ∀ x, s.head? = some x → ¬ p x = true

/-- A run of one kind ends before the first thing of another. -/
theorem takeWhile_append_of_stopsAt {α : Type} {p : α → Bool} {xs s : List α}
    (hxs : ∀ x ∈ xs, p x = true) (hs : StopsAt p s) : (xs ++ s).takeWhile p = xs := by
  have hrest : s.takeWhile p = [] := by
    cases s with
    | nil => rfl
    | cons x s => exact List.takeWhile_cons_of_neg (hs x rfl)
  rw [List.takeWhile_append_of_pos hxs, hrest, List.append_nil]

/-- **A run of one kind in front is read off.** -/
theorem run_append_inj {α : Type} {p : α → Bool} {xs ys s t : List α} (hxs : ∀ x ∈ xs, p x = true)
    (hys : ∀ y ∈ ys, p y = true) (hs : StopsAt p s) (ht : StopsAt p t) (h : xs ++ s = ys ++ t) :
    xs = ys ∧ s = t := by
  have hrun : xs = ys := by
    rw [← takeWhile_append_of_stopsAt hxs hs, ← takeWhile_append_of_stopsAt hys ht, h]
  rw [hrun, List.append_right_inj] at h
  exact ⟨hrun, h⟩

/-! ## Words -/

/-- Letters and digits only. -/
def Word (s : String) : Prop := ∀ c ∈ s.toList, c.isAlphanum = true

/-- Beginning with neither a letter nor a digit, if with anything. -/
def Apart (s : String) : Prop := StopsAt Char.isAlphanum s.toList

/-- Without a line break. -/
def OneLine (s : String) : Prop := '\n' ∉ s.toList

instance (s : String) : Decidable (Word s) :=
  decidable_of_iff (s.toList.all Char.isAlphanum = true) List.all_eq_true

instance (s : String) : Decidable (OneLine s) := inferInstanceAs (Decidable ('\n' ∉ s.toList))

theorem word_hex (n : Nat) : Word (hex n) := by
  intro c hc
  exact isAlphanum_of_mem_hex hc

theorem word_keyWord (down : Bool) : Word (keyWord down) := by
  cases down with
  | false => decide
  | true => decide

theorem keyWord_inj (a b : Bool) (h : keyWord a = keyWord b) : a = b := by
  revert a b
  decide

/-- **A word in front is read off.** -/
theorem word_append_inj {v w s t : String} (hv : Word v) (hw : Word w) (hs : Apart s)
    (ht : Apart t) (h : v ++ s = w ++ t) : v = w ∧ s = t := by
  rw [← String.toList_inj, String.toList_append, String.toList_append] at h
  obtain ⟨hword, hrest⟩ := run_append_inj hv hw hs ht h
  exact ⟨String.toList_inj.1 hword, String.toList_inj.1 hrest⟩

/-- What has a blank or a mark in front stands apart, whatever follows. -/
theorem apart_append {s : String} {c : Char} (hs : s.toList.head? = some c)
    (hc : ¬ c.isAlphanum = true) (t : String) : Apart (s ++ t) := by
  intro x hx
  rw [String.toList_append, List.head?_append, hs] at hx
  cases hx
  exact hc

theorem apart_blank (s : String) : Apart (" " ++ s) :=
  apart_append (c := ' ') rfl (by decide) s

theorem apart_blanks (k : Nat) (s : String) :
    Apart (String.ofList (List.replicate k ' ') ++ (" " ++ s)) := by
  cases k with
  | zero => exact apart_blank s
  | succ k =>
    refine apart_append (c := ' ') ?_ (by decide) _
    rw [String.toList_ofList, List.replicate_succ, List.head?_cons]

/-! ## One line -/

theorem OneLine.append {s t : String} (hs : OneLine s) (ht : OneLine t) : OneLine (s ++ t) := by
  intro h
  rw [String.toList_append] at h
  rcases List.mem_append.1 h with h | h
  · exact hs h
  · exact ht h

theorem Word.oneLine {s : String} (h : Word s) : OneLine s := by
  intro hc
  exact absurd (h _ hc) (by decide)

theorem oneLine_hex (n : Nat) : OneLine (hex n) := (word_hex n).oneLine

theorem oneLine_range (a b : Nat) : OneLine (range a b) := by
  have hdash : OneLine " - " := by decide
  have hcolon : OneLine " :" := by decide
  exact (((oneLine_hex a).append hdash).append (oneLine_hex b)).append hcolon

/-! ## Cells side by side -/

theorem sideBySide_cons_cons (c d : String) (rest : List String) :
    sideBySide (c :: d :: rest) =
      c ++ (String.ofList (List.replicate (cellWidth - c.length) ' ') ++
        (" " ++ sideBySide (d :: rest))) := by
  rw [sideBySide, filled, String.append_assoc, String.append_assoc]
  exact List.cons_ne_nil d rest

/-- **Cells that are words are read back**, as long as one knows how many there are. -/
theorem sideBySide_inj {cs ds : List String} (hcs : ∀ c ∈ cs, Word c) (hds : ∀ d ∈ ds, Word d)
    (hlen : cs.length = ds.length) (h : sideBySide cs = sideBySide ds) : cs = ds := by
  induction cs generalizing ds with
  | nil => exact (List.length_eq_zero_iff.1 hlen.symm).symm
  | cons c cs ih =>
    cases ds with
    | nil => cases hlen
    | cons d ds =>
      have hc : Word c := hcs c List.mem_cons_self
      have hd : Word d := hds d List.mem_cons_self
      cases cs with
      | nil =>
        -- the last cell stands alone
        obtain rfl := List.length_eq_zero_iff.1 (Nat.succ.inj hlen).symm
        exact congrArg (fun cell => [cell]) h
      | cons c' cs =>
        cases ds with
        | nil => cases hlen
        | cons d' ds =>
          rw [sideBySide_cons_cons, sideBySide_cons_cons] at h
          obtain ⟨rfl, hrest⟩ := word_append_inj hc hd (apart_blanks _ _) (apart_blanks _ _) h
          rw [String.append_right_inj, String.append_right_inj] at hrest
          have htail := ih (fun e he => hcs e (List.mem_cons_of_mem c he))
            (fun e he => hds e (List.mem_cons_of_mem c he)) (Nat.succ.inj hlen) hrest
          rw [htail]

/-- Between the cells there is nothing but blanks. -/
theorem mem_sideBySide {cs : List String} {x : Char} (h : x ∈ (sideBySide cs).toList) :
    x = ' ' ∨ ∃ c ∈ cs, x ∈ c.toList := by
  induction cs with
  | nil => cases h
  | cons c cs ih =>
    cases cs with
    | nil => exact Or.inr ⟨c, List.mem_cons_self, h⟩
    | cons d cs =>
      simp only [sideBySide_cons_cons, String.toList_append, String.toList_ofList,
        List.mem_append, List.mem_replicate] at h
      rcases h with hcell | ⟨-, hblank⟩ | hsep | hrest
      · exact Or.inr ⟨c, List.mem_cons_self, hcell⟩
      · exact Or.inl hblank
      · exact Or.inl (List.mem_singleton.1 hsep)
      · rcases ih hrest with hblank | ⟨e, he, hx⟩
        · exact Or.inl hblank
        · exact Or.inr ⟨e, List.mem_cons_of_mem c he, hx⟩

theorem oneLine_sideBySide {cs : List String} (h : ∀ c ∈ cs, Word c) : OneLine (sideBySide cs) := by
  intro hbreak
  rcases mem_sideBySide hbreak with hblank | ⟨c, hc, hx⟩
  · exact absurd hblank (by decide)
  · exact (h c hc).oneLine hx

/-! ## Ranges and banks -/

/-- **A range in front of a blank is read off.** -/
theorem range_append_inj {a b a' b' : Nat} {s t : String}
    (h : range a b ++ " " ++ s = range a' b' ++ " " ++ t) : a = a' ∧ b = b' ∧ s = t := by
  have hdash : ∀ u, Apart (" - " ++ u) := apart_append (c := ' ') rfl (by decide)
  have hcolon : ∀ u, Apart (" :" ++ u) := apart_append (c := ' ') rfl (by decide)
  simp only [range, String.append_assoc] at h
  obtain ⟨hfirst, h⟩ := word_append_inj (word_hex a) (word_hex a') (hdash _) (hdash _) h
  rw [String.append_right_inj] at h
  obtain ⟨hlast, h⟩ := word_append_inj (word_hex b) (word_hex b') (hcolon _) (hcolon _) h
  rw [String.append_right_inj, String.append_right_inj] at h
  exact ⟨hex_inj hfirst, hex_inj hlast, h⟩

theorem oneLine_range_append {a b : Nat} {s : String} (hs : OneLine s) :
    OneLine (range a b ++ " " ++ s) := by
  have hblank : OneLine " " := by decide
  exact ((oneLine_range a b).append hblank).append hs

/-- **A bank is read back**, cell by cell. -/
theorem bank_inj {cs ds : List String} (hcs : ∀ c ∈ cs, Word c) (hds : ∀ d ∈ ds, Word d)
    (hlen : cs.length = ds.length) (h : bank cs = bank ds) : cs = ds := by
  obtain ⟨hupper, hlower⟩ := List.cons.inj h
  have htake : cs.take 8 = ds.take 8 := by
    apply sideBySide_inj
    · intro c hc; exact hcs c (List.mem_of_mem_take hc)
    · intro d hd; exact hds d (List.mem_of_mem_take hd)
    · rw [List.length_take, List.length_take, hlen]
    · exact (range_append_inj hupper).2.2
  have hdrop : cs.drop 8 = ds.drop 8 := by
    apply sideBySide_inj
    · intro c hc; exact hcs c (List.mem_of_mem_drop hc)
    · intro d hd; exact hds d (List.mem_of_mem_drop hd)
    · rw [List.length_drop, List.length_drop, hlen]
    · exact (range_append_inj (List.cons.inj hlower).1).2.2
  rw [← List.take_append_drop 8 cs, htake, hdrop, List.take_append_drop]

theorem oneLine_bank {cs : List String} (hcs : ∀ c ∈ cs, Word c) : ∀ line ∈ bank cs, OneLine line := by
  intro line hline
  rcases List.mem_cons.1 hline with rfl | hline
  · exact oneLine_range_append (oneLine_sideBySide fun c hc => hcs c (List.mem_of_mem_take hc))
  · obtain rfl := List.mem_singleton.1 hline
    exact oneLine_range_append (oneLine_sideBySide fun c hc => hcs c (List.mem_of_mem_drop hc))

/-- Of a bank of things that are shown by distinct words, the things are read back. -/
theorem bank_map_inj {α : Type} {cell : α → String} (hword : ∀ a, Word (cell a))
    (hcell : ∀ a b, cell a = cell b → a = b) {xs ys : List α} (hlen : xs.length = ys.length)
    (h : bank (xs.map cell) = bank (ys.map cell)) : xs = ys := by
  apply (List.map_inj_right hcell).1
  apply bank_inj _ _ _ h
  · exact List.forall_mem_map.2 fun a _ => hword a
  · exact List.forall_mem_map.2 fun a _ => hword a
  · rw [List.length_map, List.length_map, hlen]

theorem oneLine_bank_map {α : Type} {cell : α → String} (hword : ∀ a, Word (cell a))
    (xs : List α) : ∀ line ∈ bank (xs.map cell), OneLine line :=
  oneLine_bank (List.forall_mem_map.2 fun a _ => hword a)

/-! ## Memory lines -/

/-- The cells of the words of a line. -/
def wordCells (ws : Vector Opcode 8) : List String := ws.toList.map fun w => hex w.toNat

theorem word_of_mem_wordCells {ws : Vector Opcode 8} : ∀ c ∈ wordCells ws, Word c := by
  intro c hc
  obtain ⟨w, -, rfl⟩ := List.mem_map.1 hc
  exact word_hex w.toNat

theorem wordCells_inj {ws vs : Vector Opcode 8} (h : wordCells ws = wordCells vs) : ws = vs := by
  apply Vector.toList_inj.1
  refine (List.map_inj_right ?_).1 h
  intro w v hwv
  exact UInt16.toNat_inj.1 (hex_inj hwv)

/-- Words are shown without dots, so they are not taken for nothing. -/
theorem sideBySide_ne_nothing {ws : Vector Opcode 8} : sideBySide (wordCells ws) ≠ nothing := by
  intro h
  have hdot : '.' ∈ (sideBySide (wordCells ws)).toList := by
    rw [h, nothing]
    simp
  rcases mem_sideBySide hdot with hblank | ⟨c, hc, hx⟩
  · exact absurd hblank (by decide)
  · exact absurd (word_of_mem_wordCells c hc _ hx) (by decide)

theorem oneLine_nothing : OneLine nothing := by
  have hdots : OneLine "..." := by decide
  have hgap : OneLine (String.ofList (List.replicate 20 ' ')) := by
    intro h
    rw [String.toList_ofList] at h
    exact absurd (List.eq_of_mem_replicate h) (by decide)
  exact ((((oneLine_hex 0).append hgap).append hdots).append hgap).append (oneLine_hex 0)

/-- **A memory line is read back.** -/
theorem memoryLine_text_inj {l l' : MemoryLine} (h : l.text = l'.text) : l = l' := by
  obtain ⟨hfirst, hlast, hcells⟩ := range_append_inj h
  cases l with
  | zeros a b =>
    cases l' with
    | zeros a' b' =>
      obtain rfl : a = a' := hfirst
      obtain rfl : b = b' := hlast
      rfl
    | words a' vs => exact absurd hcells.symm sideBySide_ne_nothing
  | words a ws =>
    cases l' with
    | zeros a' b' => exact absurd hcells sideBySide_ne_nothing
    | words a' vs =>
      obtain rfl : a = a' := hfirst
      have hsame : wordCells ws = wordCells vs := by
        apply sideBySide_inj word_of_mem_wordCells word_of_mem_wordCells _ hcells
        simp only [wordCells, List.length_map, Vector.length_toList]
      rw [wordCells_inj hsame]

theorem oneLine_memoryLine (l : MemoryLine) : OneLine l.text := by
  apply oneLine_range_append
  cases l with
  | zeros a b => exact oneLine_nothing
  | words a ws => exact oneLine_sideBySide word_of_mem_wordCells

end Chip8.Dump
