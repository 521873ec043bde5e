/-
  Messages, read back.

  A message is a sentence with numbers in it.  Whoever reads it finds its words, and among them the
  numerals, without knowing how the message was put together.

  1. **Words** — are the longest runs of letters and digits in a text.  Where two texts meet, no word
     goes across if the first one ends with something else, or the second one begins with it
     (`wordsOf_append_of_ends`, `wordsOf_append_of_begins`).

  2. **Numerals** — are the words that begin with a figure.  A hexadecimal one is `0x` and at least
     four figures, which may be capitals; a decimal one is figures only.  A reader who insists on
     all that gets every number back (`readHex?_hex`, `readDecimal?_decimal`).

  3. **The words of a message** — come out of it one by one (`wordsOf_message`), and tell which fault
     it is (`eq_of_words_eq`).  So a message is never that of two faults (`message_tells_fault`).
-/
import Chip8.Proofs.Dump.Cells

namespace Chip8

open Numeral
open Dump (Word word_hex)

/-! ## Words -/

/-- The longest runs of letters and digits. -/
def runsOf (cs : List Char) : List (List Char) :=
  (cs.splitOnP fun c => !c.isAlphanum).filter fun w => !w.isEmpty

/-- The words of a text. -/
def wordsOf (s : String) : List String := (runsOf s.toList).map String.ofList

/-- **Runs end where something else stands.**  All that is needed of words follows from this. -/
theorem runsOf_append_cons (xs ys : List Char) {c : Char} (hc : (!c.isAlphanum) = true) :
    runsOf (xs ++ c :: ys) = runsOf xs ++ runsOf ys := by
  rw [runsOf, List.splitOnP_append_cons xs ys hc, List.filter_append, runsOf, runsOf]

/-- The text ends with neither a letter nor a digit. -/
def endsApart (s : String) : Bool := s.toList.getLast?.any fun c => !c.isAlphanum

/-- The text begins with neither a letter nor a digit. -/
def beginsApart (s : String) : Bool := s.toList.head?.any fun c => !c.isAlphanum

theorem wordsOf_append_of_ends {s : String} (h : endsApart s = true) (t : String) :
    wordsOf (s ++ t) = wordsOf s ++ wordsOf t := by
  obtain ⟨c, hlast, hc⟩ := (Option.any_eq_true ..).1 h
  obtain ⟨cs, hcs⟩ := List.getLast?_eq_some_iff.1 hlast
  have hleft : runsOf (cs ++ [c]) = runsOf cs := by
    rw [runsOf_append_cons cs [] hc]
    exact List.append_nil _
  rw [wordsOf, wordsOf, wordsOf, String.toList_append, hcs, hleft, List.append_assoc,
    List.singleton_append, runsOf_append_cons cs t.toList hc, List.map_append]

theorem wordsOf_append_of_begins (s : String) {t : String} (h : beginsApart t = true) :
    wordsOf (s ++ t) = wordsOf s ++ wordsOf t := by
  obtain ⟨c, hhead, hc⟩ := (Option.any_eq_true ..).1 h
  obtain ⟨cs, hcs⟩ := List.head?_eq_some_iff.1 hhead
  have hright : runsOf (c :: cs) = runsOf cs := runsOf_append_cons [] cs hc
  rw [wordsOf, wordsOf, wordsOf, String.toList_append, hcs, hright,
    runsOf_append_cons s.toList cs hc, List.map_append]

/-- What comes before does not change how a text ends. -/
theorem endsApart_append (s : String) {t : String} (h : endsApart t = true) :
    endsApart (s ++ t) = true := by
  obtain ⟨c, hlast, hc⟩ := (Option.any_eq_true ..).1 h
  rw [endsApart, String.toList_append, List.getLast?_append, hlast]
  exact hc

/-- A word by itself. -/
theorem wordsOf_word {w : String} (hw : Word w) (hne : w.toList ≠ []) : wordsOf w = [w] := by
  have hsplit : (w.toList.splitOnP fun c => !c.isAlphanum) = [w.toList] := by
    apply List.splitOnP_eq_singleton
    intro c hc
    rw [hw c hc]
    rfl
  have hrun : runsOf w.toList = [w.toList] := by
    rw [runsOf, hsplit]
    exact List.filter_cons_of_pos (by simpa using hne)
  rw [wordsOf, hrun, List.map_singleton, String.ofList_toList]

/-! ## Numerals -/

/-- A hexadecimal figure: one of the ten figures or of the first six capitals. -/
def isHexFigure (c : Char) : Bool := c.isDigit || ('A' ≤ c && c ≤ 'F')

theorem isHexFigure_digitChar {d : Nat} (h : d < 16) : isHexFigure (digitChar d) = true := by
  have hall : ∀ d : Fin 16, isHexFigure (digitChar d) = true := by decide
  exact hall ⟨d, h⟩

theorem isDigit_digitChar {d : Nat} (h : d < 10) : (digitChar d).isDigit = true := by
  have hall : ∀ d : Fin 10, (digitChar d).isDigit = true := by decide
  exact hall ⟨d, h⟩

/-- Reading a hexadecimal numeral: `0x`, and then at least four figures. -/
def readHex? (s : String) : Option Nat :=
  match s.toList with
  | '0' :: 'x' :: ds =>
    if 4 ≤ ds.length ∧ ds.all isHexFigure = true then some (ofDigitChars 16 ds) else none
  | _ => none

/-- Reading a decimal numeral: figures, at least one. -/
def readDecimal? (s : String) : Option Nat :=
  if 1 ≤ s.length ∧ s.toList.all Char.isDigit = true then some (ofDigitChars 10 s.toList) else none

theorem toList_hex (n : Nat) : (hex n).toList = '0' :: 'x' :: hexChars n := by
  simp only [hex, String.toList_append, String.toList_ofList]
  rfl

theorem toList_decimal (n : Nat) : (decimal n).toList = digitChars 10 n := String.toList_ofList

/-- There is a digit to begin with. -/
theorem exists_digitChars (n : Nat) : ∃ d < 10, ∃ cs, digitChars 10 n = digitChar d :: cs := by
  cases hds : digits 10 n with
  | nil =>
    rw [digits] at hds
    split at hds
    · exact absurd hds (by simp)
    · cases hds
  | cons d ds =>
    have hd : d < 10 := lt_of_mem_digits (by decide) (by rw [hds]; exact List.mem_cons_self)
    exact ⟨d, hd, ds.map digitChar, by rw [digitChars, hds, List.map_cons]⟩

/-- **A hexadecimal numeral is read back**, and it is capitals and at least four digits. -/
theorem readHex?_hex (n : Nat) : readHex? (hex n) = some n := by
  have hlong : 4 ≤ (hexChars n).length := by
    rw [length_hexChars]
    exact Nat.le_max_left ..
  have hall : (hexChars n).all isHexFigure = true := by
    rw [List.all_eq_true]
    intro c hc
    simp only [hexChars, digitChars, List.mem_append, List.mem_replicate, List.mem_map] at hc
    rcases hc with ⟨-, rfl⟩ | ⟨d, hd, rfl⟩
    · decide
    · exact isHexFigure_digitChar (lt_of_mem_digits (by decide) hd)
  rw [readHex?, toList_hex]
  show (if _ then some (ofDigitChars 16 (hexChars n)) else none) = some n
  rw [if_pos ⟨hlong, hall⟩, ofDigitChars_hexChars]

/-- **A decimal numeral is read back.** -/
theorem readDecimal?_decimal (n : Nat) : readDecimal? (decimal n) = some n := by
  have hlong : 1 ≤ (decimal n).length := by
    obtain ⟨d, -, cs, hcs⟩ := exists_digitChars n
    rw [decimal, String.length_ofList, hcs]
    exact Nat.le_add_left ..
  have hall : (decimal n).toList.all Char.isDigit = true := by
    rw [List.all_eq_true, toList_decimal]
    intro c hc
    obtain ⟨d, hd, rfl⟩ := List.mem_map.1 hc
    exact isDigit_digitChar (lt_of_mem_digits (by decide) hd)
  rw [readDecimal?, if_pos ⟨hlong, hall⟩, toList_decimal,
    ofDigitChars_digitChars n (by decide) (by decide)]

/-- Does a word begin with a figure? -/
def isNumeral (w : String) : Bool := w.toList.head?.any Char.isDigit

/-- The numerals of a text, in order. -/
def numeralsIn (s : String) : List String := (wordsOf s).filter isNumeral

theorem isNumeral_hex (n : Nat) : isNumeral (hex n) = true := by
  rw [isNumeral, toList_hex]
  rfl

theorem isNumeral_decimal (n : Nat) : isNumeral (decimal n) = true := by
  obtain ⟨d, hd, cs, hcs⟩ := exists_digitChars n
  rw [isNumeral, toList_decimal, hcs]
  exact isDigit_digitChar hd

theorem wordsOf_hex (n : Nat) : wordsOf (hex n) = [hex n] :=
  wordsOf_word (word_hex n) (by rw [toList_hex]; exact List.cons_ne_nil _ _)

theorem wordsOf_decimal (n : Nat) : wordsOf (decimal n) = [decimal n] := by
  apply wordsOf_word
  · intro c hc
    exact isAlphanum_of_mem_decimal hc
  · obtain ⟨d, -, cs, hcs⟩ := exists_digitChars n
    rw [toList_decimal, hcs]
    exact List.cons_ne_nil _ _

/-! ## The words of a message -/

namespace Fault

/-- The words that the area is named with. -/
def areaWords : Fault → List String
  | unsupported _ => ["Invalid", "opcode", "state"]
  | stackFull | stackEmpty => ["Invalid", "stack", "state"]
  | outOfBounds .. => ["Invalid", "memory", "access"]
  | tooLarge .. => ["Unable", "to", "load", "the", "program"]

/-- The words that the cause is told in. -/
def causeWords : Fault → List String
  | unsupported o => ["An", "unsupported", "opcode", "was", "used"] ++ [hex o.toNat]
  | stackFull => ["Stack", "is", "full"]
  | stackEmpty => ["Stack", "is", "empty"]
  | outOfBounds pointer len =>
      ["Memory", "location"] ++ [hex pointer] ++
        ["is", "out", "of", "bounds", "if", "memory", "len", "is"] ++ [decimal len]
  | tooLarge size max =>
      ["The", "program", "has"] ++ [decimal size] ++ ["bytes", "but", "only"] ++ [decimal max] ++
        ["fit", "into", "memory"]

/-- The numerals of a fault. -/
def numerals : Fault → List String
  | unsupported o => [hex o.toNat]
  | stackFull | stackEmpty => []
  | outOfBounds pointer len => [hex pointer, decimal len]
  | tooLarge size max => [decimal size, decimal max]

theorem wordsOf_area (f : Fault) : wordsOf f.area = f.areaWords := by
  cases f with
  | unsupported o =>
    show wordsOf "Invalid opcode state" = ["Invalid", "opcode", "state"]
    decide
  | stackFull => decide
  | stackEmpty => decide
  | outOfBounds pointer len =>
    show wordsOf "Invalid memory access" = ["Invalid", "memory", "access"]
    decide
  | tooLarge size max =>
    show wordsOf "Unable to load the program" = ["Unable", "to", "load", "the", "program"]
    decide

/-- A numeral in the middle of a text. -/
theorem wordsOf_around {s n t : String} (hs : endsApart s = true) (hn : wordsOf n = [n])
    (ht : beginsApart t = true) : wordsOf (s ++ n ++ t) = wordsOf s ++ [n] ++ wordsOf t := by
  rw [wordsOf_append_of_begins _ ht, wordsOf_append_of_ends hs, hn]

theorem wordsOf_cause (f : Fault) : wordsOf f.cause = f.causeWords := by
  cases f with
  | unsupported o =>
    have hused : wordsOf "An unsupported opcode was used " =
        ["An", "unsupported", "opcode", "was", "used"] := by decide
    have hstop : wordsOf "." = [] := by decide
    show wordsOf ("An unsupported opcode was used " ++ hex o.toNat ++ ".") = _
    rw [wordsOf_around (by decide) (wordsOf_hex _) (by decide), hused, hstop, List.append_nil,
      causeWords]
  | stackFull => decide
  | stackEmpty => decide
  | outOfBounds pointer len =>
    have hplace : wordsOf "Memory location " = ["Memory", "location"] := by decide
    have hlen : wordsOf " is out of bounds, if memory len is " =
        ["is", "out", "of", "bounds", "if", "memory", "len", "is"] := by decide
    show wordsOf ("Memory location " ++ hex pointer ++ " is out of bounds, if memory len is " ++
      decimal len) = _
    rw [wordsOf_append_of_ends (endsApart_append _ (by decide)), wordsOf_decimal,
      wordsOf_around (by decide) (wordsOf_hex _) (by decide), hplace, hlen, causeWords]
  | tooLarge size max =>
    have hsize : wordsOf "The program has " = ["The", "program", "has"] := by decide
    have honly : wordsOf " bytes, but only " = ["bytes", "but", "only"] := by decide
    have hfit : wordsOf " fit into memory" = ["fit", "into", "memory"] := by decide
    show wordsOf ("The program has " ++ decimal size ++ " bytes, but only " ++ decimal max ++
      " fit into memory") = _
    rw [wordsOf_around (endsApart_append _ (by decide)) (wordsOf_decimal _) (by decide),
      wordsOf_around (by decide) (wordsOf_decimal _) (by decide), hsize, honly, hfit, causeWords]

/-- **The words of a message**: those of the area, and then, between the quotes, of the cause. -/
theorem wordsOf_message (f : Fault) : wordsOf f.message = f.areaWords ++ f.causeWords := by
  have hopen : wordsOf " '" = [] := by decide
  have hclose : wordsOf "'." = [] := by decide
  have hends : endsApart (f.area ++ " '") = true := endsApart_append _ (by decide)
  rw [message, wordsOf_append_of_begins (t := "'.") _ (by decide), wordsOf_append_of_ends hends,
    wordsOf_append_of_begins (t := " '") _ (by decide), hopen, hclose, List.append_nil,
    List.append_nil, wordsOf_area, wordsOf_cause]

/-- **The numerals of a message** are the numbers of the fault: no other word begins with a
    figure. -/
theorem numeralsIn_message (f : Fault) : numeralsIn f.message = f.numerals := by
  have hhex : ∀ n ws, (hex n :: ws).filter isNumeral = hex n :: ws.filter isNumeral :=
    fun n ws => List.filter_cons_of_pos (isNumeral_hex n)
  have hdecimal : ∀ n ws, (decimal n :: ws).filter isNumeral = decimal n :: ws.filter isNumeral :=
    fun n ws => List.filter_cons_of_pos (isNumeral_decimal n)
  rw [numeralsIn, wordsOf_message]
  cases f <;>
    simp (disch := decide) only [areaWords, causeWords, numerals, List.cons_append, List.nil_append,
      hhex, hdecimal, List.filter_cons_of_neg, List.filter_nil]

/-- **The words tell the fault.** -/
theorem eq_of_words_eq {f g : Fault} (h : f.areaWords ++ f.causeWords = g.areaWords ++ g.causeWords) :
    f = g := by
  cases f with
  | unsupported o =>
    cases g with
    | unsupported o' =>
      have ho : hex o.toNat = hex o'.toNat := by simpa [areaWords, causeWords] using h
      rw [UInt16.toNat_inj.1 (hex_inj ho)]
    | _ => simp [areaWords, causeWords] at h
  | stackFull =>
    cases g with
    | stackFull => rfl
    | _ => simp [areaWords, causeWords] at h
  | stackEmpty =>
    cases g with
    | stackEmpty => rfl
    | _ => simp [areaWords, causeWords] at h
  | outOfBounds pointer len =>
    cases g with
    | outOfBounds pointer' len' =>
      have hnumbers : hex pointer = hex pointer' ∧ decimal len = decimal len' := by
        simpa [areaWords, causeWords] using h
      rw [hex_inj hnumbers.1, decimal_inj hnumbers.2]
    | _ => simp [areaWords, causeWords] at h
  | tooLarge size max =>
    cases g with
    | tooLarge size' max' =>
      have hnumbers : decimal size = decimal size' ∧ decimal max = decimal max' := by
        simpa [areaWords, causeWords] using h
      rw [decimal_inj hnumbers.1, decimal_inj hnumbers.2]
    | _ => simp [areaWords, causeWords] at h

/-- **A message tells its fault.**  Two faults have the same message only if they are the same
    fault.  And the numbers can be read off: the numerals of a message are those of its fault, in
    order, and no others.  That of an unsupported opcode is hexadecimal, and so is the place that is
    out of bounds: `0x` and at least four figures, among them no small letters, and all of the number
    however large it is.  The number of bytes there are, the size of a program and the most that fits
    are decimal. -/
theorem message_tells_fault :
    (∀ f g : Fault, f.message = g.message ↔ f = g) ∧
    (∀ o, ∃ w, numeralsIn (unsupported o).message = [w] ∧ readHex? w = some o.toNat) ∧
    (∀ pointer len, ∃ w v, numeralsIn (outOfBounds pointer len).message = [w, v] ∧
      readHex? w = some pointer ∧ readDecimal? v = some len) ∧
    (∀ size max, ∃ w v, numeralsIn (tooLarge size max).message = [w, v] ∧
      readDecimal? w = some size ∧ readDecimal? v = some max) ∧
    numeralsIn stackFull.message = [] ∧ numeralsIn stackEmpty.message = [] := by
  refine ⟨?_, ?_, ?_, ?_, numeralsIn_message _, numeralsIn_message _⟩
  · intro f g
    constructor
    · intro h
      apply eq_of_words_eq
      rw [← wordsOf_message, ← wordsOf_message, h]
    · rintro rfl
      rfl
  · intro o
    exact ⟨_, numeralsIn_message _, readHex?_hex _⟩
  · intro pointer len
    exact ⟨_, _, numeralsIn_message _, readHex?_hex _, readDecimal?_decimal _⟩
  · intro size max
    exact ⟨_, _, numeralsIn_message _, readDecimal?_decimal _, readDecimal?_decimal _⟩

end Fault

end Chip8
