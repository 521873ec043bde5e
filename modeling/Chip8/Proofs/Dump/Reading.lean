/-
  A dump tells the state it shows.

  Whoever reads a dump from the top gets back everything that went into it:

  1. **Lines** — no line has a line break in it, so the text falls apart into its lines
     (`lines_inj`).

  2. **Parts** — a title is indented once and what stands under it twice, so each part ends where
     the next title stands (`flatMap_lines_inj`).

  3. **The stack** — unused slots show zero.  A return address lies behind an opcode, so it is
     NEVER zero, and the used slots are those before the first zero (`stackSlots_inj`).  This is the
     one place that asks something of the machine: that it is in bounds, as every machine is that a
     run leads to.

  Two machines with the same dump therefore agree in all that a dump is about, and the other way
  round (`dump_eq_iff_sameShown`).  Their keys may be of different kinds; the screens, the byte
  streams and the dialects are not shown and may differ.
-/
import Chip8.Proofs.Bounds
import Chip8.Proofs.Dump.Cells
import Chip8.Proofs.Dump.Memory

namespace Chip8

namespace Dump

open Numeral

/-! ## Lines -/

/-- Splitting a text where the breaks are gives its lines. -/
theorem splitOn_lines {ls : List String} (hls : ∀ l ∈ ls, OneLine l) (hne : ls ≠ []) :
    ("\n".intercalate ls).toList.splitOn '\n' = ls.map String.toList := by
  rw [String.toList_intercalate]
  apply List.splitOn_intercalate
  · intro l hl
    obtain ⟨line, hline, rfl⟩ := List.mem_map.1 hl
    exact hls line hline
  · exact fun hnil => hne (List.map_eq_nil_iff.1 hnil)

/-- **A text is read back into its lines.** -/
theorem lines_inj {ls ms : List String} (hls : ∀ l ∈ ls, OneLine l) (hms : ∀ l ∈ ms, OneLine l)
    (hls_ne : ls ≠ []) (hms_ne : ms ≠ []) (h : "\n".intercalate ls = "\n".intercalate ms) :
    ls = ms := by
  have hlists : ls.map String.toList = ms.map String.toList := by
    rw [← splitOn_lines hls hls_ne, ← splitOn_lines hms hms_ne, h]
  exact (List.map_inj_right fun s t => String.toList_inj.1).1 hlists

/-! ## Parts -/

/-- Is a line one of those under a title?  These are indented twice. -/
def isBody (line : String) : Bool := line.toList.take 2 == ['\t', '\t']

/-- Lines are lines, and the title is not taken for one of those under it. -/
structure Part.Clean (p : Part) : Prop where
  title : '\t' ∉ p.title.toList ∧ OneLine p.title
  body : ∀ line ∈ p.body, OneLine line

theorem isBody_indented (line : String) : isBody ("\t\t" ++ line) = true := by
  simp [isBody]

/-- A title is indented only once. -/
theorem not_isBody_title {title : String} (h : '\t' ∉ title.toList) :
    ¬ isBody ("\t" ++ title ++ " :") = true := by
  cases htitle : title.toList with
  | nil => simp [isBody, htitle]
  | cons c cs =>
    have hc : c ≠ '\t' := fun hc => h (by rw [htitle, hc]; exact List.mem_cons_self)
    simp [isBody, htitle, hc]

/-- Parts begin with a title. -/
theorem stopsAt_flatMap_lines {ps : List Part} (hps : ∀ p ∈ ps, p.Clean) :
    StopsAt isBody (ps.flatMap Part.lines) := by
  intro line hline
  cases ps with
  | nil => cases hline
  | cons p ps =>
    cases hline
    exact not_isBody_title (hps p List.mem_cons_self).title.1

/-- **A part in front is read off**, title and body. -/
theorem part_lines_append_inj {p q : Part} {ls ms : List String} (hls : StopsAt isBody ls)
    (hms : StopsAt isBody ms) (h : p.lines ++ ls = q.lines ++ ms) : p = q ∧ ls = ms := by
  obtain ⟨htitle, hbody⟩ := List.cons.inj h
  have hindented : ∀ body : List String,
      ∀ line ∈ body.map (fun line => "\t\t" ++ line), isBody line = true := by
    intro body line hline
    obtain ⟨l, -, rfl⟩ := List.mem_map.1 hline
    exact isBody_indented l
  obtain ⟨hlines, hrest⟩ := run_append_inj (hindented p.body) (hindented q.body) hls hms hbody
  rw [String.append_left_inj, String.append_right_inj] at htitle
  have hsame : p.body = q.body :=
    (List.map_inj_right fun s t hst => (String.append_right_inj _).1 hst).1 hlines
  have hpart : p = q := congr (congrArg Part.mk htitle) hsame
  exact ⟨hpart, hrest⟩

/-- **Parts are read back**, one after the other. -/
theorem flatMap_lines_inj {ps qs : List Part} (hps : ∀ p ∈ ps, p.Clean) (hqs : ∀ q ∈ qs, q.Clean)
    (h : ps.flatMap Part.lines = qs.flatMap Part.lines) : ps = qs := by
  induction ps generalizing qs with
  | nil =>
    cases qs with
    | nil => rfl
    | cons q qs => cases h
  | cons p ps ih =>
    cases qs with
    | nil => cases h
    | cons q qs =>
      have hps' : ∀ p ∈ ps, p.Clean := fun p' hp' => hps p' (List.mem_cons_of_mem p hp')
      have hqs' : ∀ q ∈ qs, q.Clean := fun q' hq' => hqs q' (List.mem_cons_of_mem q hq')
      rw [List.flatMap_cons, List.flatMap_cons] at h
      obtain ⟨rfl, hrest⟩ :=
        part_lines_append_inj (stopsAt_flatMap_lines hps') (stopsAt_flatMap_lines hqs') h
      rw [ih hps' hqs' hrest]

theorem Part.Clean.oneLine {p : Part} (h : p.Clean) : ∀ line ∈ p.lines, OneLine line := by
  have htab : OneLine "\t" := by decide
  have htabs : OneLine "\t\t" := by decide
  have hcolon : OneLine " :" := by decide
  intro line hline
  rcases List.mem_cons.1 hline with rfl | hline
  · exact (htab.append h.title.2).append hcolon
  · obtain ⟨l, hl, rfl⟩ := List.mem_map.1 hline
    exact htabs.append (h.body l hl)

/-! ## The stack -/

/-- All sixteen slots are shown. -/
theorem length_stackSlots {stack : List Nat} (h : stack.length ≤ stackSize) :
    (stackSlots stack).length = stackSize := by
  rw [stackSlots, List.length_append, List.length_reverse, List.length_replicate]
  omega

/-- **Used slots and unused ones are told apart**, as no return address is zero. -/
theorem stackSlots_inj {s t : List Nat} (hs : ∀ p ∈ s, p ≠ 0) (ht : ∀ p ∈ t, p ≠ 0)
    (h : stackSlots s = stackSlots t) : s = t := by
  have hused : ∀ {u : List Nat}, (∀ p ∈ u, p ≠ 0) → ∀ p ∈ u.reverse, (p != 0) = true :=
    fun hu p hp => bne_iff_ne.2 (hu p (List.mem_reverse.1 hp))
  have hunused : ∀ k, StopsAt (· != 0) (List.replicate k 0) := by
    intro k p hp
    rw [List.eq_of_mem_replicate (List.mem_of_head? hp)]
    decide
  exact List.reverse_inj.1 (run_append_inj (hused hs) (hused ht) (hunused _) (hunused _) h).1

/-! ## Machines -/

variable {K K' : Type} [KeySource K] [KeySource K']

/-- Every part of a machine's dump is clean. -/
theorem parts_clean (m : Machine K) : ∀ p ∈ parts m, p.Clean := by
  have hpart : ∀ {title : String} {body : List String},
      '\t' ∉ title.toList ∧ OneLine title → (∀ line ∈ body, OneLine line) →
      Part.Clean ⟨title, body⟩ := fun htitle hbody => ⟨htitle, hbody⟩
  have hsingle : ∀ n, ∀ line ∈ [hex n], OneLine line :=
    fun n => List.forall_mem_singleton.2 (oneLine_hex n)
  have hmemory : ∀ line ∈ (memoryLines m.memory).map MemoryLine.text, OneLine line :=
    List.forall_mem_map.2 fun l _ => oneLine_memoryLine l
  have hkeys := oneLine_bank_map (fun k => word_keyWord (m.isKeyDown k)) (List.range keyCount)
  have hstack := oneLine_bank_map word_hex (stackSlots m.stack)
  have hregisters := oneLine_bank_map (fun b : UInt8 => word_hex b.toNat) m.registers.toList
  simp only [parts, List.forall_mem_cons]
  exact ⟨hpart (by decide) (hsingle _), hpart (by decide) (hsingle _),
    hpart (by decide) (hsingle _), hpart (by decide) (hsingle _), hpart (by decide) (hsingle _),
    hpart (by decide) hmemory, hpart (by decide) hkeys, hpart (by decide) hstack,
    hpart (by decide) hregisters, List.forall_mem_nil _⟩

/-- No line of a dump has a line break in it. -/
theorem oneLine_dumpLines {ps : List Part} (hps : ∀ p ∈ ps, p.Clean) :
    ∀ line ∈ ["Chipset \x7b"] ++ ps.flatMap Part.lines ++ ["\x7d"], OneLine line := by
  have hopen : OneLine "Chipset \x7b" := by decide
  have hclose : OneLine "\x7d" := by decide
  intro line hline
  simp only [List.mem_append, List.mem_singleton, List.mem_flatMap] at hline
  rcases hline with (rfl | ⟨p, hp, hline⟩) | rfl
  · exact hopen
  · exact (hps p hp).oneLine line hline
  · exact hclose

/-- **A dump is read back into its parts.** -/
theorem parts_eq_of_dump_eq {m : Machine K} {m' : Machine K'} (h : m.dump = m'.dump) :
    parts m = parts m' := by
  have hsame := lines_inj (oneLine_dumpLines (parts_clean m)) (oneLine_dumpLines (parts_clean m'))
    (List.cons_ne_nil _ _) (List.cons_ne_nil _ _) h
  rw [List.append_left_inj, List.append_right_inj] at hsame
  exact flatMap_lines_inj (parts_clean m) (parts_clean m') hsame

end Dump

namespace Machine

open Dump Numeral

variable {K K' : Type} [KeySource K] [KeySource K']

/-- Two machines that agree in all that a dump is about. -/
structure SameShown (m : Machine K) (m' : Machine K') : Prop where
  lastOpcode : m.lastOpcode = m'.lastOpcode
  pc : m.pc = m'.pc
  index : m.index = m'.index
  delay : m.delay = m'.delay
  sound : m.sound = m'.sound
  memory : m.memory = m'.memory
  keys : ∀ k < keyCount, m.isKeyDown k = m'.isKeyDown k
  stack : m.stack = m'.stack
  registers : m.registers = m'.registers

/-- What a dump is about is all that goes into it. -/
theorem dump_eq_of_sameShown {m : Machine K} {m' : Machine K'} (h : m.SameShown m') :
    m.dump = m'.dump := by
  have hkeys : (List.range keyCount).map (fun k => keyWord (m.isKeyDown k)) =
      (List.range keyCount).map (fun k => keyWord (m'.isKeyDown k)) :=
    List.map_congr_left fun k hk => by rw [h.keys k (List.mem_range.1 hk)]
  rw [dump, dump, parts, parts, h.lastOpcode, h.pc, h.index, h.delay, h.sound, h.memory, hkeys,
    h.stack, h.registers]

/-- **The dump of a machine in bounds tells all that it is about.** -/
theorem sameShown_of_dump_eq {m : Machine K} {m' : Machine K'} (hm : m.Bounded) (hm' : m'.Bounded)
    (h : m.dump = m'.dump) : m.SameShown m' := by
  have hparts := parts_eq_of_dump_eq h
  simp only [parts, List.cons.injEq, Dump.Part.mk.injEq, true_and, and_true] at hparts
  obtain ⟨hopcode, hpc, hindex, hdelay, hsound, hmemory, hkeys, hstack, hregisters⟩ := hparts
  have hbyte : ∀ a b : UInt8, hex a.toNat = hex b.toNat → a = b :=
    fun a b hab => UInt8.toNat_inj.1 (hex_inj hab)
  have hdown : (List.range keyCount).map m.isKeyDown = (List.range keyCount).map m'.isKeyDown := by
    apply bank_map_inj word_keyWord keyWord_inj (by rw [List.length_map, List.length_map])
    rw [List.map_map, List.map_map]
    exact hkeys
  have hslots : stackSlots m.stack = stackSlots m'.stack := by
    apply bank_map_inj word_hex (fun a b => hex_inj) _ hstack
    rw [length_stackSlots hm.stack_length, length_stackSlots hm'.stack_length]
  have hbytes : m.registers.toList = m'.registers.toList := by
    apply bank_map_inj (fun b : UInt8 => word_hex b.toNat) hbyte _ hregisters
    rw [Vector.length_toList, Vector.length_toList]
  exact
    { lastOpcode := UInt16.toNat_inj.1 (hex_inj hopcode)
      pc := hex_inj hpc
      index := UInt16.toNat_inj.1 (hex_inj hindex)
      delay := congrArg Timer.mk (hbyte _ _ hdelay)
      sound := congrArg Timer.mk (hbyte _ _ hsound)
      memory := memoryLines_inj ((List.map_inj_right fun l l' => memoryLine_text_inj).1 hmemory)
      keys := fun k hk => List.map_inj_left.1 hdown k (List.mem_range.2 hk)
      stack := stackSlots_inj hm.ne_zero_of_mem_stack hm'.ne_zero_of_mem_stack hslots
      registers := Vector.toList_inj.1 hbytes }

/-- **Two machines show the same dump exactly if they agree in all that a dump is about**, whatever
    was done to them since they were switched on. -/
theorem dump_eq_iff_sameShown (keys : K) (keys' : K') (d d' : Dialect) (r r' : ByteStream)
    (es : List (Event K)) (es' : List (Event K')) :
    ((powerOn keys d r).after es).dump = ((powerOn keys' d' r').after es').dump ↔
      ((powerOn keys d r).after es).SameShown ((powerOn keys' d' r').after es') := by
  constructor
  · exact sameShown_of_dump_eq (bounded_after (bounded_powerOn keys d r) es)
      (bounded_after (bounded_powerOn keys' d' r') es')
  · exact dump_eq_of_sameShown

end Machine

end Chip8
