/-
  The memory section, as it stands in the text of a dump.

  1. **Finding it** — the lines under a title are those that are indented twice and follow the line
     of the title.  No two parts of a dump share a title, and no line indented twice is taken for
     one, so under each title stands what belongs to its part (`linesUnder_dump`).

  2. **Its lines** — addresses and words have sixteen bits, and the numerals of all of them fill a
     cell exactly.  So there is one blank between two words (`indented_text`), and no line is longer
     than another (`length_layout`).

  3. **The section** — is an account of all of memory (`memory_section`).  As there is no other, the
     lines are known wherever an account is found, as for memory with one byte in it.
-/
import Chip8.Proofs.Dump.Reading
import Chip8.Proofs.Dump.Tiling

namespace Chip8.Dump

open Numeral

variable {K : Type} [KeySource K]

/-! ## Finding it -/

/-- The lines of a text. -/
def linesOf (text : String) : List String := (text.toList.splitOn '\n').map String.ofList

/-- The line that a title stands on. -/
def titleLine (title : String) : String := "\t" ++ title ++ " :"

/-- **The lines under a title**: those indented twice that follow it. -/
def linesUnder (title text : String) : List String :=
  (((linesOf text).dropWhile (· != titleLine title)).drop 1).takeWhile isBody

/-- **Lines are found under a title** that does not stand before it, as far as they are indented. -/
theorem linesUnder_of_linesOf {title text : String} {before body after : List String}
    (hlines : linesOf text = before ++ titleLine title :: (body ++ after))
    (hbefore : titleLine title ∉ before) (hbody : ∀ line ∈ body, isBody line = true)
    (hafter : StopsAt isBody after) : linesUnder title text = body := by
  have hskipped : ∀ line ∈ before, (line != titleLine title) = true := by
    intro line hline
    rw [bne_iff_ne]
    rintro rfl
    exact hbefore hline
  rw [linesUnder, hlines, List.dropWhile_append_of_pos hskipped,
    List.dropWhile_cons_of_neg (by simp), List.drop_one, List.tail_cons,
    takeWhile_append_of_stopsAt hbody hafter]

/-- A dump has the lines it was made of. -/
theorem linesOf_dump (m : Machine K) :
    linesOf m.dump = ["Chipset \x7b"] ++ (parts m).flatMap Part.lines ++ ["\x7d"] := by
  rw [linesOf, Machine.dump, splitOn_lines (oneLine_dumpLines (parts_clean m)) (List.cons_ne_nil _ _),
    List.map_map]
  exact List.map_id'' (fun _ => String.ofList_toList) _

/-- No two parts share a title. -/
theorem nodup_titles (m : Machine K) : ((parts m).map Part.title).Nodup := by
  simp only [parts, List.map_cons, List.map_nil]
  decide

/-- A title does not stand among the lines of a part with another one. -/
theorem titleLine_not_mem_lines {p q : Part} (hp : p.Clean) (h : q.title ≠ p.title) :
    titleLine p.title ∉ q.lines := by
  intro hmem
  rcases List.mem_cons.1 hmem with htitle | hbody
  · rw [titleLine, String.append_left_inj, String.append_right_inj] at htitle
    exact h htitle.symm
  · obtain ⟨line, -, hline⟩ := List.mem_map.1 hbody
    apply not_isBody_title hp.title.1
    rw [← titleLine, ← hline]
    exact isBody_indented line

/-- Nor is it the line that a dump opens with, which is not indented. -/
theorem titleLine_ne_opening (title : String) : titleLine title ≠ "Chipset \x7b" := by
  intro h
  have hhead : (titleLine title).toList.head? = some '\t' := by
    simp [titleLine]
  rw [h] at hhead
  exact absurd hhead (by decide)

/-- A part ends where the next one begins, or with the brace that closes the dump. -/
theorem stopsAt_closing {ps : List Part} (hps : ∀ p ∈ ps, p.Clean) :
    StopsAt isBody (ps.flatMap Part.lines ++ ["\x7d"]) := by
  cases ps with
  | nil =>
    intro line hline
    cases hline
    decide
  | cons p ps =>
    intro line hline
    exact stopsAt_flatMap_lines hps line hline

/-- **Under each title stands the body of its part.** -/
theorem linesUnder_dump {m : Machine K} {p : Part} (hp : p ∈ parts m) :
    linesUnder p.title m.dump = p.body.map fun line => "\t\t" ++ line := by
  -- the parts before it are skipped, as none of their lines is its title, and those behind it end it
  obtain ⟨before, after, hparts⟩ := List.append_of_mem hp
  have hclean := parts_clean m
  have htitles := nodup_titles m
  rw [hparts] at hclean htitles
  have hlines : linesOf m.dump = (["Chipset \x7b"] ++ before.flatMap Part.lines) ++
      (titleLine p.title :: (p.body.map (fun line => "\t\t" ++ line) ++
        (after.flatMap Part.lines ++ ["\x7d"]))) := by
    rw [linesOf_dump, hparts]
    simp only [List.flatMap_append, List.flatMap_cons, Part.lines, titleLine, List.append_assoc,
      List.cons_append]
  have hbefore : titleLine p.title ∉ ["Chipset \x7b"] ++ before.flatMap Part.lines := by
    intro hline
    rcases List.mem_append.1 hline with hopening | hline
    · exact titleLine_ne_opening p.title (List.mem_singleton.1 hopening)
    · obtain ⟨q, hq, hline⟩ := List.mem_flatMap.1 hline
      rw [List.map_append, List.nodup_append] at htitles
      have hother : q.title ≠ p.title :=
        htitles.2.2 _ (List.mem_map_of_mem hq) _ List.mem_cons_self
      exact titleLine_not_mem_lines (hclean p (List.mem_append_right _ List.mem_cons_self))
        hother hline
  have hafter : StopsAt isBody (after.flatMap Part.lines ++ ["\x7d"]) :=
    stopsAt_closing fun q hq => hclean q (List.mem_append_right _ (List.mem_cons_of_mem p hq))
  exact linesUnder_of_linesOf hlines hbefore
    (List.forall_mem_map.2 fun line _ => isBody_indented line) hafter

/-! ## Its lines -/

/-- Every numeral fills a cell. -/
theorem cellWidth_le_length_hex (n : Nat) : cellWidth ≤ (hex n).length := by
  have hdigits : hexWidth ≤ (hexChars n).length := by
    rw [length_hexChars]
    exact Nat.le_max_left _ _
  rw [length_hex]
  exact Nat.add_le_add_left hdigits 2

/-- Cells that are full have one blank between two. -/
theorem sideBySide_of_full {cs : List String} (h : ∀ c ∈ cs, cellWidth ≤ c.length) :
    sideBySide cs = " ".intercalate cs := by
  induction cs with
  | nil => rfl
  | cons c cs ih =>
    cases cs with
    | nil => exact String.intercalate_singleton.symm
    | cons d cs =>
      rw [sideBySide_cons_cons, Nat.sub_eq_zero_of_le (h c List.mem_cons_self),
        ih fun e he => h e (List.mem_cons_of_mem c he), String.intercalate_cons_cons,
        List.replicate_zero, String.ofList_nil, String.empty_append, String.append_assoc]

/-- Cells of one width, each with a blank behind it but for the last one. -/
theorem length_intercalate_blank {w : Nat} {cs : List String} (h : ∀ c ∈ cs, c.length = w)
    (hne : cs ≠ []) : (" ".intercalate cs).length + 1 = (w + 1) * cs.length := by
  induction cs with
  | nil => exact absurd rfl hne
  | cons c cs ih =>
    have hc : c.length = w := h c List.mem_cons_self
    cases cs with
    | nil => rw [String.intercalate_singleton, hc, List.length_singleton, Nat.mul_one]
    | cons d cs =>
      have hrest := ih (fun e he => h e (List.mem_cons_of_mem c he)) (List.cons_ne_nil d cs)
      have hblank : " ".length = 1 := by decide
      rw [String.intercalate_cons_cons, String.length_append, String.length_append, hblank, hc,
        List.length_cons, Nat.mul_succ, ← hrest]
      omega

/-- **How a line of the memory section stands in a dump.** -/
def MemoryLine.layout : MemoryLine → String
  | .zeros a b => "\t\t" ++ hex a ++ " - " ++ hex b ++
      " : 0x0000                    ...                    0x0000"
  | .words a ws => "\t\t" ++ hex a ++ " - " ++ hex (a + 15) ++
      " : " ++ " ".intercalate (wordCells ws)

/-- A line's text, indented, is laid out so. -/
theorem indented_text (l : MemoryLine) : "\t\t" ++ l.text = l.layout := by
  have hsep : ∀ s, " :" ++ (" " ++ s) = " : " ++ s := by
    intro s
    rw [← String.append_assoc]
    rfl
  cases l with
  | zeros a b =>
    have hnothing : " : " ++ nothing =
        " : 0x0000                    ...                    0x0000" := by
      rw [nothing, hex, hexChars_of_lt (by decide)]
      decide
    rw [MemoryLine.layout, ← hnothing]
    simp only [MemoryLine.text, range, MemoryLine.first, MemoryLine.last, String.append_assoc, hsep]
  | words a ws =>
    have hfull : ∀ c ∈ wordCells ws, cellWidth ≤ c.length :=
      List.forall_mem_map.2 fun w _ => cellWidth_le_length_hex w.toNat
    rw [MemoryLine.layout, ← sideBySide_of_full hfull]
    simp only [MemoryLine.text, wordCells, range, MemoryLine.first, MemoryLine.last, rowSize,
      String.append_assoc, hsep]

/-- **Every line of memory is 75 characters long.** -/
theorem Tells.length_layout {m : Memory} {l : MemoryLine} (h : Tells m l) :
    l.layout.length = 75 := by
  obtain ⟨hle, hend⟩ : l.first ≤ l.last ∧ l.last < 4096 := h.bounds
  have hfirst : (hex l.first).length = 6 := length_hex_of_lt (by omega)
  have hlast : (hex l.last).length = 6 := length_hex_of_lt (by omega)
  cases l with
  | zeros a b =>
    simp only [MemoryLine.first, MemoryLine.last] at hfirst hlast
    simp only [MemoryLine.layout, String.length_append, hfirst, hlast]
    rfl
  | words a ws =>
    have hcells : ∀ c ∈ wordCells ws, c.length = 6 :=
      List.forall_mem_map.2 fun w _ => length_hex_of_lt w.toNat_lt
    have hcount : (wordCells ws).length = 8 := by
      rw [wordCells, List.length_map, Vector.length_toList]
    have hblanks : (" ".intercalate (wordCells ws)).length + 1 = 7 * 8 := by
      rw [length_intercalate_blank hcells (List.ne_nil_of_length_pos (by omega)), hcount]
    have hwords : (" ".intercalate (wordCells ws)).length = 55 := by omega
    simp only [MemoryLine.first, MemoryLine.last, rowSize] at hfirst hlast
    simp only [MemoryLine.layout, String.length_append, hfirst, hlast, hwords]
    rfl

/-! ## The section -/

theorem linesUnder_memory (m : Machine K) :
    linesUnder "Memory" m.dump = (memoryLines m.memory).map MemoryLine.layout := by
  have hpart : ⟨"Memory", (memoryLines m.memory).map MemoryLine.text⟩ ∈ parts m := by
    simp [parts]
  rw [linesUnder_dump hpart, List.map_map]
  exact List.map_congr_left fun l _ => indented_text l

/-- **The memory section of a dump.**  Under the title stand the lines of memory.  Their ranges are
    in ascending order, and together they are all of memory.  Each line is about whole rows without
    anything in them, or lists the words of one row with something in it.  No two lines of zeros
    follow each other, and all lines are equally long. -/
theorem memory_section (m : Machine K) :
    linesUnder "Memory" m.dump = (memoryLines m.memory).map MemoryLine.layout ∧
      (memoryLines m.memory).Pairwise (fun l l' => l.last < l'.first) ∧
      (∀ i, (∃ l ∈ memoryLines m.memory, l.first ≤ i ∧ i ≤ l.last) ↔ i < 4096) ∧
      (∀ l ∈ memoryLines m.memory, Tells m.memory l) ∧
      Merged (memoryLines m.memory) ∧
      ∀ line ∈ linesUnder "Memory" m.dump, line.length = 75 := by
  have haccount := accounts_memoryLines m.memory
  refine ⟨linesUnder_memory m, haccount.tiles.ascending, ?_, haccount.tells, haccount.merged, ?_⟩
  · intro i
    rw [haccount.tiles.covers]
    exact ⟨fun h => h.2, fun h => ⟨Nat.zero_le i, h⟩⟩
  · rw [linesUnder_memory]
    exact List.forall_mem_map.2 fun l hl => (haccount.tells l hl).length_layout

/-- Memory with one byte in it. -/
def loneByte : Memory := Memory.zeros.set 0x201 1

theorem getElem_loneByte {i : Nat} (hi : i < 4096) :
    loneByte[i] = if i = 0x201 then 1 else 0 := by
  rw [loneByte, Vector.getElem_set, Memory.zeros, Vector.getElem_replicate]
  simp only [eq_comm]

/-- Two lines of zeros, and between them the line of the one row with something in it. -/
def loneByteLines : List MemoryLine :=
  [.zeros 0 0x1FF, .words 0x200 #v[1, 0, 0, 0, 0, 0, 0, 0], .zeros 0x210 0xFFF]

theorem memoryLines_loneByte : memoryLines loneByte = loneByteLines := by
  have hbelow : Tells loneByte (.zeros 0 0x1FF) := by
    refine .zeros 0 31 (by decide) fun i hi _ hhigh => ?_
    rw [getElem_loneByte hi, if_neg]
    exact Nat.ne_of_lt (Nat.lt_of_le_of_lt hhigh (by decide))
  have hrow : Tells loneByte (.words 0x200 #v[1, 0, 0, 0, 0, 0, 0, 0]) := by
    apply Tells.words 32
    · exact ⟨1, by simp only [getElem_loneByte]; decide⟩
    · intro k hk
      simp only [getElem_loneByte]
      revert k
      decide
  have habove : Tells loneByte (.zeros 0x210 0xFFF) := by
    refine .zeros 33 255 (by decide) fun i hi hlow _ => ?_
    rw [getElem_loneByte hi, if_neg]
    exact Nat.ne_of_gt (Nat.lt_of_lt_of_le (by decide) hlow)
  apply (accounts_memoryLines loneByte).unique
  refine ⟨?_, ?_, ?_⟩
  · simp [loneByteLines, Tiles, MemoryLine.first, MemoryLine.last, rowSize, memorySize]
  · simp [loneByteLines, hbelow, hrow, habove]
  · simp [loneByteLines, Merged, IsZeros]

theorem map_layout_loneByteLines : loneByteLines.map MemoryLine.layout =
    ["\t\t0x0000 - 0x01FF : 0x0000                    ...                    0x0000",
     "\t\t0x0200 - 0x020F : 0x0001 0x0000 0x0000 0x0000 0x0000 0x0000 0x0000 0x0000",
     "\t\t0x0210 - 0x0FFF : 0x0000                    ...                    0x0000"] := by
  have hword : ∀ w : Opcode, hexChars w.toNat = _ := fun w => hexChars_of_lt w.toNat_lt
  simp (disch := decide) only [loneByteLines, List.map_cons, List.map_nil, MemoryLine.layout,
    wordCells, hex, hword, hexChars_of_lt]
  decide

/-- Its byte is the low one of a word, and that word is the first one of its row. -/
theorem memory_section_of_lone_byte :
    let m := { Machine.powerOn Keypad.released .plain (.repeating #[]) with memory := loneByte }
    let row := "\t\t0x0200 - 0x020F : 0x0001 0x0000 0x0000 0x0000 0x0000 0x0000 0x0000 0x0000"
    linesUnder "Memory" m.dump =
      ["\t\t0x0000 - 0x01FF : 0x0000                    ...                    0x0000",
       row,
       "\t\t0x0210 - 0x0FFF : 0x0000                    ...                    0x0000"] ∧
    row.length = 75 ∧
    Tells loneByte (.words 0x200 #v[1, 0, 0, 0, 0, 0, 0, 0]) := by
  intro m row
  obtain ⟨hlines, -, -, htells, -, hlength⟩ := memory_section m
  have hmemory : memoryLines m.memory = loneByteLines := memoryLines_loneByte
  rw [hmemory, map_layout_loneByteLines] at hlines
  refine ⟨hlines, hlength row ?_, htells _ ?_⟩
  · rw [hlines]
    exact List.mem_cons_of_mem _ List.mem_cons_self
  · rw [hmemory]
    exact List.mem_cons_of_mem _ List.mem_cons_self

end Chip8.Dump
