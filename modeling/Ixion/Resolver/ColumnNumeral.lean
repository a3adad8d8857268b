import Ixion.Resolver.CellName
import Ixion.Resolver.Overflow

/-!
# Columns as numerals

Columns are numerals in base 26 whose digits are the letters from one to 26.  The printer divides
with a remainder from zero to 25 and takes one off before the next division, so that no digit for
zero is needed; the scanner adds the letters up and takes one off at the end.
-/

namespace Ixion

/-! ## Printing -/

/-- The loop of `append_column_name_a1` with the letters pushed so far; it has not ended without
more fuel. -/
def pushColumnName : ℕ → Int → List Char → Option (List Char)
  | 0, _, _ => none
  | fuel + 1, col, colName =>
    let rem := col.tmod 26
    let c := Char.ofNat (('A'.toNat : Int) + rem).toNat
    let colName := colName ++ [c]
    if col < 26 then some colName.reverse
    else pushColumnName fuel ((col - rem).tdiv 26 - 1) colName

/-- The loop ends with the letters of the column in front of those that have been pushed. -/
theorem pushColumnName_eq {fuel : ℕ} {col : Int} (hcol : 0 ≤ col) (hfuel : col < fuel)
    (pushed : List Char) :
    pushColumnName fuel col pushed = some (columnName fuel col ++ pushed.reverse) := by
  induction fuel generalizing col pushed with
  | zero => omega
  | succ fuel ih =>
    have hrem : col.tmod 26 = col % 26 := Int.tmod_eq_emod_of_nonneg hcol
    have hdiv : (col - col.tmod 26).tdiv 26 = (col - col.tmod 26) / 26 :=
      Int.tdiv_eq_ediv_of_nonneg (by omega)
    simp only [pushColumnName, columnName]
    by_cases h : col < 26
    · rw [if_pos h, if_pos h, List.reverse_append, List.reverse_singleton]
    · rw [if_neg h, if_neg h, hdiv, ih (by omega) (by omega), List.reverse_append,
        List.reverse_singleton, List.append_assoc]

/-- The letters of a column are capital letters. -/
theorem isUpper_of_mem_columnName {fuel : ℕ} {col : Int} (hcol : 0 ≤ col) {c : Char}
    (h : c ∈ columnName fuel col) : c.toUpper = c ∧ c.isUpper = true := by
  induction fuel generalizing col with
  | zero => exact absurd h List.not_mem_nil
  | succ fuel ih =>
    obtain ⟨r, hr, heq, -⟩ := columnName_succ fuel hcol
    rw [heq, List.mem_append, List.mem_singleton] at h
    rcases h with h | rfl
    · split at h
      case isTrue => exact absurd h List.not_mem_nil
      case isFalse hle => exact ih (by omega) h
    · exact ⟨(letter_spec r hr).1, (letter_spec r hr).2.1⟩

/-! ## Adding up -/

/-- The letters of a column stand for it, counted from one. -/
theorem lettersNumber_columnName {fuel : ℕ} {col : Int} (hcol : 0 ≤ col) (hfuel : col < fuel) :
    lettersNumber 0 (columnName fuel col) = col + 1 := by
  induction fuel generalizing col with
  | zero => omega
  | succ fuel ih =>
    obtain ⟨r, hr, heq, hsum⟩ := columnName_succ fuel hcol
    obtain ⟨hupper, -, hdigit⟩ := letter_spec r hr
    have hlast : ∀ letters, lettersNumber 0 (letters ++ [Char.ofNat (65 + r)]) =
        lettersNumber 0 letters * 26 + (r + 1) := by
      intro letters
      rw [lettersNumber, List.foldl_append, List.foldl_cons, List.foldl_nil, hupper, hdigit]
      rfl
    rw [heq, hlast]
    by_cases h : col < 26
    · rw [if_pos h] at hsum ⊢
      rw [lettersNumber, List.foldl_nil]
      omega
    · rw [if_neg h] at hsum ⊢
      rw [ih (by omega) (by omega)]
      omega

/-- Letters of either case stand for the same number. -/
theorem lettersNumber_map_toUpper (n : Int) {s : List Char}
    (h : ∀ c ∈ s.map Char.toUpper, c.toUpper = c) :
    lettersNumber n (s.map Char.toUpper) = lettersNumber n s := by
  induction s generalizing n with
  | nil => rfl
  | cons c cs ih =>
    have hc : c.toUpper.toUpper = c.toUpper := h _ List.mem_cons_self
    rw [List.map_cons, lettersNumber, List.foldl_cons, hc, lettersNumber, List.foldl_cons]
    exact ih _ fun d hd ↦ h d (List.mem_cons_of_mem _ hd)

section Column

variable {col : Int} (hcol : 0 ≤ col)

include hcol

/-- What is written in front of a row is taken as letters, when it is the name of a column in
either case. -/
theorem isLetter_of_map_toUpper {s : List Char} (hs : s.map Char.toUpper = appendColumnNameA1 col)
    {c : Char} (hc : c ∈ s) : isLetter c = true :=
  (isUpper_of_mem_columnName hcol (hs ▸ List.mem_map_of_mem hc)).2

theorem lettersNumber_of_map_toUpper {s : List Char}
    (hs : s.map Char.toUpper = appendColumnNameA1 col) : lettersNumber 0 s = col + 1 := by
  rw [← lettersNumber_map_toUpper, hs, appendColumnNameA1]
  · exact lettersNumber_columnName hcol (by omega)
  · rw [hs]
    exact fun c hc ↦ (isUpper_of_mem_columnName hcol hc).1

/-- Letters of either case are scanned without overflow as the column they stand for, whatever
follows them. -/
theorem parseAddressA1LoopInt32_columnName (hbound : col < columnUpperBound) {s : List Char}
    (hs : s.map Char.toUpper = appendColumnNameA1 col) {addr : Address} (haddr : addr.column = 0)
    {rest : List Char} (hrest : ∀ c ∈ rest.head?, isLetter c = false) :
    parseAddressA1LoopInt32 .column addr (s ++ rest) =
      parseAddressA1LoopInt32 .column { addr with column := col + 1 } rest := by
  have hletters : ∀ c ∈ s, isLetter c = true := fun c hc ↦ isLetter_of_map_toUpper hcol hs hc
  have htake : (s ++ rest).takeWhile isLetter = s := by
    rw [List.takeWhile_append_of_pos hletters]
    cases rest with
    | nil => rw [List.takeWhile_nil, List.append_nil]
    | cons c cs => rw [List.takeWhile_cons_of_neg (by simp [hrest c rfl]), List.append_nil]
  have hdrop : (s ++ rest).dropWhile isLetter = rest := by
    rw [List.dropWhile_append_of_pos hletters]
    cases rest with
    | nil => rfl
    | cons c cs => rw [List.dropWhile_cons_of_neg (by simp [hrest c rfl])]
  have hsum := lettersNumber_of_map_toUpper hcol hs
  have hscan := parseAddressA1LoopInt32_letters (s ++ rest) haddr.ge
    (haddr.trans_le (by decide))
  rw [htake, hdrop, haddr, hsum] at hscan
  rcases hscan with ⟨-, heq⟩ | ⟨hover, -⟩
  · exact heq
  · omega

end Column

/-- A row number that fits is scanned without overflow after the letters. -/
theorem parseAddressA1LoopInt32_toDigits {addr : Address} (hcolumn : 0 < addr.column)
    (haddr : addr.row = 0) {n : ℕ} (hn : 0 < n) (hfits : (n : Int) ≤ rcMax) :
    parseAddressA1LoopInt32 .column addr (Nat.toDigits 10 n) =
      some ⟨.validAddress, false, [],
        { addr with row := (n : Int) - 1, column := addr.column - 1 }⟩ := by
  obtain ⟨c, cs, heq, hzero⟩ := head_toDigits_ne_zero n hn
  have hdigits : ∀ d ∈ Nat.toDigits 10 n, d.isDigit = true := fun d hd ↦ isDigit_of_mem_toDigits hd
  have hhead : ∀ d ∈ (Nat.toDigits 10 n).head?, isLetter d = false := by
    intro d hd
    exact not_isUpper_of_isDigit (hdigits d (List.mem_of_mem_head? hd))
  have hnumber : digitsNumber (Nat.toDigits 10 n) = n := Nat.ofDigitChars_ten_toDigits
  have hwritten : (if (Nat.toDigits 10 n).head? = some '$' then (Nat.toDigits 10 n).tail
      else Nat.toDigits 10 n).takeWhile Char.isDigit = Nat.toDigits 10 n := by
    rw [if_neg, List.takeWhile_eq_self_iff]
    · exact hdigits
    · intro h
      exact absurd (hdigits '$' (List.mem_of_mem_head? h)) nofun
  rcases parseAddressA1LoopInt32_afterLetters haddr hhead (fun h ↦ absurd h hcolumn.ne') hwritten
    with ⟨hstart, -⟩ | ⟨-, ⟨-, r, hr, -⟩ | ⟨hover, -⟩⟩
  · rw [heq, List.head?_cons, Option.some_inj] at hstart
    exact absurd hstart hzero
  · -- without an overflow, the scanner does what it does on unbounded integers
    rw [hr, Option.some_inj, ← parseAddressA1LoopInt32_eq_some hr]
    have hscan := parseAddressA1Loop_row .column addr haddr hn []
    rw [List.append_nil] at hscan
    rw [hscan, parseAddressA1Loop, finishAddressA1, if_neg (show ¬ (n : Int) = 0 by omega)]
    simp only [hcolumn.ne', ne_eq, not_false_eq_true, if_true]
  · rw [hnumber] at hover
    omega

/-! ## Result -/

/-- A column has a name, which tells it from other columns and which the scanner reads, in either
case and in front of any row number. -/
structure ColumnNamed (col : Int) : Prop where
  terminates : ∃ fuel, pushColumnName fuel col [] = some (appendColumnNameA1 col)
  ne_nil : appendColumnNameA1 col ≠ []
  letters : ∀ c ∈ appendColumnNameA1 col, 'A' ≤ c ∧ c ≤ 'Z'
  injective : ∀ col', 0 ≤ col' → col' < columnUpperBound →
    appendColumnNameA1 col' = appendColumnNameA1 col → col' = col
  letters_read : ∀ s : List Char, s.map Char.toUpper = appendColumnNameA1 col →
    ∀ (addr : Address) (row : List Char), addr.column = 0 → (∀ c ∈ row, c.isDigit = true) →
      parseAddressA1LoopInt32 .column addr (s ++ row) =
        parseAddressA1LoopInt32 .column { addr with column := col + 1 } row
  read : ∀ s : List Char, s.map Char.toUpper = appendColumnNameA1 col →
    ∀ (addr : Address) (n : ℕ), 0 < n → (n : Int) ≤ rcMax →
      parseAddressA1Int32 (s ++ Nat.toDigits 10 n) addr.cleared =
        some ⟨.validAddress, false, [],
          { addr.cleared with row := (n : Int) - 1, column := col }⟩

/-- Every column below the upper bound is named. -/
theorem columnNamed {col : Int} (hcol : 0 ≤ col) (hbound : col < columnUpperBound) :
    ColumnNamed col where
  terminates := by
    refine ⟨col.toNat + 1, ?_⟩
    rw [pushColumnName_eq hcol (by omega), List.reverse_nil, List.append_nil, appendColumnNameA1]
  ne_nil h := by
    have hsum := lettersNumber_of_map_toUpper hcol (s := appendColumnNameA1 col) <| by
      rw [h, List.map_nil]
    rw [h, lettersNumber, List.foldl_nil] at hsum
    omega
  letters c hc := toNat_of_isUpper (isUpper_of_mem_columnName hcol hc).2
  injective col' hcol' _ h := by
    have hsum : lettersNumber 0 (appendColumnNameA1 col') = col' + 1 :=
      lettersNumber_columnName hcol' (by omega)
    have hsum' : lettersNumber 0 (appendColumnNameA1 col) = col + 1 :=
      lettersNumber_columnName hcol (by omega)
    rw [h, hsum'] at hsum
    omega
  letters_read s hs addr row haddr hrow :=
    parseAddressA1LoopInt32_columnName hcol hbound hs haddr fun c hc ↦
      not_isUpper_of_isDigit (hrow c (List.mem_of_mem_head? hc))
  read s hs addr n hn hfits := by
    rw [parseAddressA1Int32, parseAddressA1LoopInt32_columnName hcol hbound hs rfl,
      parseAddressA1LoopInt32_toDigits (by simp only; omega) rfl hn hfits]
    · simp only [add_sub_cancel_right]
    · intro c hc
      exact not_isUpper_of_isDigit (isDigit_of_mem_toDigits (List.mem_of_mem_head? hc))

/-- The column `ZZ`, whose successor is the first one of three letters. -/
theorem columnNamed_zz : ColumnNamed 701 := columnNamed (by decide) (by decide)

end Ixion
