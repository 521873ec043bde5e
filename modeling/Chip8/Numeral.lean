/-
  Numbers as text: the decimal and hexadecimal numerals of the machine's messages and of its dump.

  1. **Digits** — `digits base n` lists the digits of `n`, the most significant first, and
     `value base` reads them back (`value_digits`).  Zeros in front do not change the value
     (`value_zeros_append`).

  2. **Numerals** — `decimal n` is plain.  `hex n` is `0x` and AT LEAST four upper-case digits: a
     short number gets zeros in front, a long one is never cut.  Both determine the number
     (`decimal_inj`, `hex_inj`).

  Mathlib-free.
-/

namespace Chip8.Numeral

/-! ## Digits -/

/-- The digits of `n` to the given base, most significant first.  There is always at least one. -/
def digits (base n : Nat) : List Nat :=
  if 1 < base ∧ base ≤ n then digits base (n / base) ++ [n % base] else [n]
termination_by n
decreasing_by rename_i h; exact Nat.div_lt_self (by omega) h.1

/-- The number that a list of digits stands for. -/
def value (base : Nat) (ds : List Nat) : Nat :=
  ds.foldl (fun acc d => base * acc + d) 0

/-- **Digits read back**: nothing is lost between a number and its digits. -/
theorem value_digits (base n : Nat) : value base (digits base n) = n := by
  fun_induction digits base n with
  | case1 n h ih =>
    simp only [value] at ih
    simp only [value, List.foldl_append, ih, List.foldl_cons, List.foldl_nil]
    exact Nat.div_add_mod n base
  | case2 n h => simp [value]

/-- Every digit is below the base. -/
theorem lt_of_mem_digits {base n d : Nat} (hb : 1 < base) (hd : d ∈ digits base n) : d < base := by
  fun_induction digits base n with
  | case1 n h ih =>
    rcases List.mem_append.1 hd with hd | hd
    · exact ih hd
    · rw [List.mem_singleton.1 hd]; exact Nat.mod_lt n (by omega)
  | case2 n h => rw [List.mem_singleton.1 hd]; omega

/-- Zeros in front of a numeral leave its value alone. -/
theorem value_zeros_append (base k : Nat) (ds : List Nat) :
    value base (List.replicate k 0 ++ ds) = value base ds := by
  induction k with
  | zero => rfl
  | succ k ih => simpa [value, List.replicate_succ] using ih

/-! ## Characters -/

/-- The character of a digit below sixteen: `0` to `9`, then `A` to `F`. -/
def digitChar (d : Nat) : Char :=
  if d < 10 then Char.ofNat ('0'.toNat + d) else Char.ofNat ('A'.toNat + (d - 10))

/-- The digit that a character stands for. -/
def charDigit (c : Char) : Nat :=
  if c.toNat < 'A'.toNat then c.toNat - '0'.toNat else c.toNat - 'A'.toNat + 10

/-- Each of the sixteen characters stands for its own digit. -/
theorem charDigit_digitChar {d : Nat} (h : d < 16) : charDigit (digitChar d) = d := by
  have hall : ∀ d : Fin 16, charDigit (digitChar d) = d := by decide
  exact hall ⟨d, h⟩

/-- The characters of a number's digits. -/
def digitChars (base n : Nat) : List Char := (digits base n).map digitChar

/-- The number that a list of digit characters stands for. -/
def ofDigitChars (base : Nat) (cs : List Char) : Nat := value base (cs.map charDigit)

theorem ofDigitChars_digitChars {base : Nat} (n : Nat) (hb : 1 < base) (hb16 : base ≤ 16) :
    ofDigitChars base (digitChars base n) = n := by
  have hmap : ((digits base n).map digitChar).map charDigit = digits base n := by
    rw [List.map_map]
    refine (List.map_congr_left fun d hd => ?_).trans (List.map_id _)
    exact charDigit_digitChar (Nat.lt_of_lt_of_le (lt_of_mem_digits hb hd) hb16)
  rw [ofDigitChars, digitChars, hmap, value_digits]

/-! ## Numerals -/

/-- The decimal numeral of `n`. -/
def decimal (n : Nat) : String := String.ofList (digitChars 10 n)

/-- The least number of digits of a hexadecimal numeral. -/
def hexWidth : Nat := 4

/-- The digits of a hexadecimal numeral, zeros in front included. -/
def hexChars (n : Nat) : List Char :=
  let cs := digitChars 16 n
  List.replicate (hexWidth - cs.length) '0' ++ cs

/-- The hexadecimal numeral of `n`: `0x` and at least four upper-case digits. -/
def hex (n : Nat) : String := "0x" ++ String.ofList (hexChars n)

/-- A digit is written as a letter or as one of the ten figures. -/
theorem isAlphanum_digitChar {d : Nat} (h : d < 16) : (digitChar d).isAlphanum = true := by
  have hall : ∀ d : Fin 16, (digitChar d).isAlphanum = true := by decide
  exact hall ⟨d, h⟩

/-- So a hexadecimal numeral has neither blanks nor marks in it. -/
theorem isAlphanum_of_mem_hex {n : Nat} {c : Char} (h : c ∈ (hex n).toList) :
    c.isAlphanum = true := by
  simp only [hex, hexChars, digitChars, String.toList_append, String.toList_ofList,
    List.mem_append, List.mem_replicate, List.mem_map] at h
  rcases h with hprefix | ⟨-, rfl⟩ | ⟨d, hd, rfl⟩
  · have hall : "0x".toList.all Char.isAlphanum = true := by decide
    exact List.all_eq_true.1 hall c hprefix
  · decide
  · exact isAlphanum_digitChar (lt_of_mem_digits (by decide) hd)

/-- A decimal numeral has none either. -/
theorem isAlphanum_of_mem_decimal {n : Nat} {c : Char} (h : c ∈ (decimal n).toList) :
    c.isAlphanum = true := by
  simp only [decimal, digitChars, String.toList_ofList, List.mem_map] at h
  obtain ⟨d, hd, rfl⟩ := h
  exact isAlphanum_digitChar (Nat.lt_of_lt_of_le (lt_of_mem_digits (by decide) hd) (by decide))

/-- Zeros fill a short numeral up, and a long one has all of its digits. -/
theorem length_hexChars (n : Nat) : (hexChars n).length = max hexWidth (digits 16 n).length := by
  simp only [hexChars, digitChars, List.length_append, List.length_replicate, List.length_map]
  omega

theorem length_hex (n : Nat) : (hex n).length = 2 + (hexChars n).length := by
  simp only [hex, String.length_append, String.length_ofList]
  rfl

/-- With zeros in front, too, the last digit is the remainder, and the others are of the quotient. -/
theorem zeros_append_digitChars {k n : Nat} (hk : 0 < k) :
    List.replicate (k + 1 - (digitChars 16 n).length) '0' ++ digitChars 16 n =
      (List.replicate (k - (digitChars 16 (n / 16)).length) '0' ++ digitChars 16 (n / 16)) ++
        [digitChar (n % 16)] := by
  rcases Nat.lt_or_ge n 16 with hsmall | hlarge
  · have hn : digits 16 n = [n] := by rw [digits, if_neg (by omega)]
    have hzero : digits 16 0 = [0] := by rw [digits, if_neg (by omega)]
    obtain ⟨j, rfl⟩ : ∃ j, k = j + 1 := ⟨k - 1, by omega⟩
    rw [Nat.div_eq_of_lt hsmall, Nat.mod_eq_of_lt hsmall]
    simp only [digitChars, hn, hzero, List.map_cons, List.map_nil, List.length_cons,
      List.length_nil, Nat.zero_add, Nat.add_sub_cancel]
    rw [List.replicate_succ']
    rfl
  · have hn : digits 16 n = digits 16 (n / 16) ++ [n % 16] := by rw [digits, if_pos (by omega)]
    simp only [digitChars, hn, List.map_append, List.map_cons, List.map_nil, List.length_append,
      List.length_cons, List.length_nil, Nat.zero_add, Nat.add_sub_add_right, List.append_assoc]

/-- **A numeral of sixteen bits** has four digits. -/
theorem hexChars_of_lt {n : Nat} (h : n < 65536) : hexChars n =
    [digitChar (n / 4096), digitChar (n / 256 % 16), digitChar (n / 16 % 16), digitChar (n % 16)] := by
  have hthird : n / 16 / 16 = n / 256 := Nat.div_div_eq_div_mul n 16 16
  have hfourth : n / 256 / 16 = n / 4096 := Nat.div_div_eq_div_mul n 256 16
  have hlead : digits 16 (n / 4096) = [n / 4096] := by rw [digits, if_neg (by omega)]
  simp only [hexChars, hexWidth]
  rw [zeros_append_digitChars (by decide), zeros_append_digitChars (by decide),
    zeros_append_digitChars (by decide), hthird, hfourth, digitChars, hlead]
  rfl

/-- So all of them are equally wide: six characters, `0x` included. -/
theorem length_hex_of_lt {n : Nat} (h : n < 65536) : (hex n).length = 6 := by
  rw [length_hex, hexChars_of_lt h]
  rfl

/-- The padded digits of a hexadecimal numeral read back. -/
theorem ofDigitChars_hexChars (n : Nat) : ofDigitChars 16 (hexChars n) = n := by
  have hz : charDigit '0' = 0 := by decide
  simp only [ofDigitChars, hexChars, List.map_append, List.map_replicate, hz, value_zeros_append]
  exact ofDigitChars_digitChars n (by decide) (by decide)

/-- **No two numbers share a decimal numeral.** -/
theorem decimal_inj {a b : Nat} (h : decimal a = decimal b) : a = b := by
  have hcs : digitChars 10 a = digitChars 10 b := by
    simpa [decimal] using congrArg String.toList h
  rw [← @ofDigitChars_digitChars 10 a (by decide) (by decide), hcs]
  exact ofDigitChars_digitChars b (by decide) (by decide)

/-- **No two numbers share a hexadecimal numeral**, whatever their length. -/
theorem hex_inj {a b : Nat} (h : hex a = hex b) : a = b := by
  have hcs : hexChars a = hexChars b := by
    simpa [hex] using congrArg String.toList h
  rw [← ofDigitChars_hexChars a, hcs, ofDigitChars_hexChars]

end Chip8.Numeral
