import Ixion.Resolver.Print

/-!
# Scanning what has been printed

Columns, rows and numbers are scanned as what they were printed from.  A column is a
numeral in base 26 without a digit for zero; its last letter is what remains of the
column after the letters before it.
-/

namespace Ixion

/-! ## Rows -/

theorem isDigit_of_mem_toDigits {n : ℕ} {c : Char} (h : c ∈ Nat.toDigits 10 n) :
    c.isDigit = true :=
  Nat.isDigit_of_mem_toDigits (by decide) (by decide) h

theorem digitChar_ne_zero : ∀ n < 10, 0 < n → Nat.digitChar n ≠ '0' := by
  decide

/-- A positive number does not begin with a zero. -/
theorem head_toDigits_ne_zero (n : ℕ) (hn : 0 < n) :
    ∃ c cs, Nat.toDigits 10 n = c :: cs ∧ c ≠ '0' := by
  induction n using Nat.strong_induction_on with
  | _ n ih =>
    by_cases h : n < 10
    · exact ⟨_, [], Nat.toDigits_of_lt_base h, digitChar_ne_zero n h hn⟩
    · obtain ⟨c, cs, heq, hc⟩ := ih (n / 10) (by omega) (by omega)
      refine ⟨c, cs ++ [Nat.digitChar (n % 10)], ?_, hc⟩
      rw [Nat.toDigits_of_base_le (by decide) (by omega), heq]
      rfl

theorem toNat_of_isDigit {c : Char} (h : c.isDigit = true) : 48 ≤ c.toNat ∧ c.toNat ≤ 57 := by
  simp only [Char.isDigit, Bool.and_eq_true, decide_eq_true_eq, UInt32.le_iff_toNat_le] at h
  exact h

theorem toNat_of_isUpper {c : Char} (h : c.isUpper = true) : 65 ≤ c.toNat ∧ c.toNat ≤ 90 :=
  of_decide_eq_true h

theorem not_isUpper_digit : ∀ n < 58, 48 ≤ n → (Char.ofNat n).toUpper.isUpper = false := by
  decide

theorem not_isUpper_of_isDigit {c : Char} (h : c.isDigit = true) : c.toUpper.isUpper = false := by
  obtain ⟨h₁, h₂⟩ := toNat_of_isDigit h
  rw [← Char.ofNat_toNat c]
  exact not_isUpper_digit _ (by omega) h₁

/-- The digits of a row are added to what has been read of it. -/
theorem parseAddressA1Loop_digits {ds : List Char} (hds : ∀ c ∈ ds, c.isDigit = true)
    (addr : Address) (n : ℕ) (haddr : addr.row = n) (rest : List Char) :
    parseAddressA1Loop .row addr (ds ++ rest) =
      parseAddressA1Loop .row { addr with row := (Nat.ofDigitChars 10 ds n : ℕ) } rest := by
  induction ds generalizing addr n with
  | nil =>
    rw [Nat.ofDigitChars_nil, ← haddr]
    rfl
  | cons c cs ih =>
    have hc : c.isDigit = true := hds c List.mem_cons_self
    rw [List.cons_append, parseAddressA1Loop, if_neg (by simp [not_isUpper_of_isDigit hc]),
      if_pos hc, if_neg (by simp), ih (fun d hd ↦ hds d (List.mem_cons_of_mem c hd)) _
        (10 * n + (c.toNat - '0'.toNat))]
    · rw [Nat.ofDigitChars_cons]
    · obtain ⟨h₁, -⟩ := toNat_of_isDigit hc
      simp only [haddr, digitValue, Char.reduceToNat]
      omega

/-- A row is scanned as what it was printed from. -/
theorem parseAddressA1Loop_row (mode : ResolverParseMode) (addr : Address) (haddr : addr.row = 0)
    {n : ℕ} (hn : 0 < n) (rest : List Char) :
    parseAddressA1Loop mode addr (Nat.toDigits 10 n ++ rest) =
      parseAddressA1Loop .row { addr with row := n } rest := by
  have hrow : parseAddressA1Loop .row addr (Nat.toDigits 10 n ++ rest) =
      parseAddressA1Loop .row { addr with row := n } rest := by
    rw [parseAddressA1Loop_digits (fun c hc ↦ isDigit_of_mem_toDigits hc) addr 0 haddr,
      Nat.ofDigitChars_ten_toDigits]
  rw [← hrow]
  obtain ⟨c, cs, heq, hc⟩ := head_toDigits_ne_zero n hn
  have hdigit : c.isDigit = true :=
    isDigit_of_mem_toDigits (n := n) (by rw [heq]; exact List.mem_cons_self)
  rw [heq, List.cons_append, parseAddressA1Loop, parseAddressA1Loop,
    if_neg (by simp [not_isUpper_of_isDigit hdigit]), if_pos hdigit, if_neg fun h ↦ hc h.2,
    if_neg (by simp [not_isUpper_of_isDigit hdigit]), if_pos hdigit, if_neg fun h ↦ hc h.2]

/-! ## Columns -/

/-- The letter for a number below 26. -/
theorem letter_spec : ∀ r < 26, (Char.ofNat (65 + r)).toUpper = Char.ofNat (65 + r) ∧
    (Char.ofNat (65 + r)).isUpper = true ∧ columnDigit (Char.ofNat (65 + r)) = r + 1 := by
  decide

/-- A column is its last letter, after the letters of the column before it if there is
one. -/
theorem columnName_succ (fuel : ℕ) {col : Int} (hcol : 0 ≤ col) :
    ∃ r < 26, columnName (fuel + 1) col =
        (if col < 26 then [] else columnName fuel (col / 26 - 1)) ++ [Char.ofNat (65 + r)] ∧
      (if col < 26 then 0 else col / 26) * 26 + (r : Int) = col := by
  refine ⟨(col % 26).toNat, by omega, ?_, ?_⟩
  · have hrem : col.tmod 26 = col % 26 := Int.tmod_eq_emod_of_nonneg hcol
    have hdiv : (col - col % 26) / 26 = col / 26 := by omega
    have hchar : (('A'.toNat : Int) + col % 26).toNat = 65 + (col % 26).toNat := by
      simp only [Char.reduceToNat]
      omega
    simp only [columnName, hrem, hdiv, hchar]
    split <;> rfl
  · split <;> omega

/-- A letter is added to what has been read of a column. -/
theorem parseAddressA1Loop_letter {r : ℕ} (hr : r < 26) (addr : Address) (rest : List Char) :
    parseAddressA1Loop .column addr (Char.ofNat (65 + r) :: rest) =
      if addr.column * 26 + (r + 1) > columnUpperBound then
        ⟨.invalid, false, Char.ofNat (65 + r) :: rest,
          { addr with column := addr.column * 26 + (r + 1) }⟩
      else
        parseAddressA1Loop .column { addr with column := addr.column * 26 + (r + 1) } rest := by
  obtain ⟨h₁, h₂, h₃⟩ := letter_spec r hr
  rw [parseAddressA1Loop, h₁, h₂, if_pos rfl, if_neg nofun]
  simp only [h₃]

/-- A column below the upper bound is scanned as what it was printed from. -/
theorem parseAddressA1Loop_columnName {fuel : ℕ} {col : Int} (hcol : 0 ≤ col)
    (hfuel : col < fuel) (hbound : col < columnUpperBound) (addr : Address)
    (haddr : addr.column = 0) (rest : List Char) :
    parseAddressA1Loop .column addr (columnName fuel col ++ rest) =
      parseAddressA1Loop .column { addr with column := col + 1 } rest := by
  induction fuel generalizing col rest with
  | zero => omega
  | succ fuel ih =>
    obtain ⟨r, hr, heq, hsum⟩ := columnName_succ fuel hcol
    rw [heq, List.append_assoc]
    by_cases h : col < 26
    · rw [if_pos h] at hsum ⊢
      rw [List.nil_append, List.singleton_append, parseAddressA1Loop_letter hr, haddr,
        if_neg (by omega), show (0 : Int) * 26 + (r + 1) = col + 1 by omega]
    · rw [if_neg h] at hsum ⊢
      rw [ih (by omega) (by omega) (by omega), List.singleton_append,
        parseAddressA1Loop_letter hr, if_neg (by simp only; omega)]
      simp only [show (col / 26 - 1 + 1) * 26 + ((r : Int) + 1) = col + 1 by omega]

/-- A column from the upper bound on is not scanned. -/
theorem parseAddressA1Loop_columnName_of_le {fuel : ℕ} {col : Int} (hcol : 0 ≤ col)
    (hfuel : col < fuel) (hbound : columnUpperBound ≤ col) (addr : Address)
    (haddr : addr.column = 0) (rest : List Char) :
    (parseAddressA1Loop .column addr (columnName fuel col ++ rest)).result = .invalid := by
  induction fuel generalizing col rest with
  | zero => omega
  | succ fuel ih =>
    obtain ⟨r, hr, heq, hsum⟩ := columnName_succ fuel hcol
    have h : ¬ col < 26 := by
      simp only [columnUpperBound, rcMax] at hbound
      omega
    rw [if_neg h] at heq hsum
    rw [heq, List.append_assoc]
    by_cases hprefix : columnUpperBound ≤ col / 26 - 1
    · exact ih (by omega) (by omega) hprefix _
    · rw [parseAddressA1Loop_columnName (by omega) (by omega) (not_le.mp hprefix) addr haddr,
        List.singleton_append, parseAddressA1Loop_letter hr, if_pos (by simp only; omega)]

/-! ## Addresses -/

/-- A dollar sign marks the column. -/
theorem parseAddressA1Loop_dollar_column (absolute : Bool) (addr : Address)
    (haddr : addr.column = 0) (rest : List Char) :
    parseAddressA1Loop .column addr (dollar absolute ++ rest) =
      parseAddressA1Loop .column
        (if absolute then { addr with absColumn := true } else addr) rest := by
  cases absolute with
  | false => rfl
  | true =>
    show parseAddressA1Loop .column addr ('$' :: rest) = _
    rw [parseAddressA1Loop, if_neg (by decide), if_neg (by decide), if_neg (by decide),
      if_pos ⟨rfl, rfl⟩, if_neg (not_not.mpr haddr), if_pos rfl]

/-- A row, which may be marked by a dollar sign, is scanned after a column. -/
theorem parseAddressA1Loop_dollar_row (absolute : Bool) (addr : Address)
    (hcolumn : addr.column ≠ 0) (hrow : addr.row = 0) {n : ℕ} (hn : 0 < n) (rest : List Char) :
    parseAddressA1Loop .column addr (dollar absolute ++ (Nat.toDigits 10 n ++ rest)) =
      parseAddressA1Loop .row
        { addr with row := n, absRow := addr.absRow || absolute } rest := by
  cases absolute with
  | false =>
    show parseAddressA1Loop .column addr (Nat.toDigits 10 n ++ rest) = _
    rw [parseAddressA1Loop_row _ _ hrow hn, Bool.or_false]
  | true =>
    show parseAddressA1Loop .column addr ('$' :: (Nat.toDigits 10 n ++ rest)) = _
    rw [parseAddressA1Loop, if_neg (by decide), if_neg (by decide), if_neg (by decide),
      if_pos ⟨rfl, rfl⟩, if_pos hcolumn]
    rw [parseAddressA1Loop_row _ { addr with absRow := true } hrow hn, Bool.or_true]

theorem decimal_of_nonneg {n : Int} (hn : 0 ≤ n) : decimal n = Nat.toDigits 10 n.toNat := by
  rw [decimal, if_neg (not_lt.mpr hn)]
  congr 1
  omega

section RowColumn

variable {row column : Int} (hcolumn : 0 ≤ column) (absRow absColumn : Bool) {addr : Address}
  (hclear : addr.cleared = addr)

include hcolumn hclear

/-- Row and column are scanned as what they were printed from. -/
theorem parseAddressA1Loop_rowColumn (hrow : 0 ≤ row) (hbound : column < columnUpperBound)
    (rest : List Char) :
    parseAddressA1Loop .column addr (appendRowColumnA1 row column absRow absColumn ++ rest) =
      parseAddressA1Loop .row
        { addr with row := row + 1, column := column + 1, absRow, absColumn } rest := by
  obtain ⟨sheet, row', column', absSheet, absRow', absColumn'⟩ := addr
  simp only [Address.cleared, Address.mk.injEq, true_and] at hclear
  obtain ⟨rfl, rfl, rfl, rfl⟩ := hclear
  have hnat : ((row + 1).toNat : Int) = row + 1 := Int.toNat_of_nonneg (by omega)
  have hmark : (if absColumn then ⟨sheet, 0, 0, absSheet, false, true⟩
      else ⟨sheet, 0, 0, absSheet, false, false⟩ : Address) =
      ⟨sheet, 0, 0, absSheet, false, absColumn⟩ := by
    cases absColumn <;> rfl
  rw [appendRowColumnA1, decimal_of_nonneg (by omega)]
  simp only [List.append_assoc]
  rw [parseAddressA1Loop_dollar_column _ _ rfl, hmark, appendColumnNameA1,
    parseAddressA1Loop_columnName hcolumn (by omega) hbound _ rfl,
    parseAddressA1Loop_dollar_row _ _ (by simp only; omega) rfl (by omega), hnat,
    Bool.false_or]

/-- An address whose column is not below the upper bound is not scanned. -/
theorem parseAddressA1Loop_rowColumn_of_le (hbound : columnUpperBound ≤ column)
    (rest : List Char) :
    (parseAddressA1Loop .column addr
      (appendRowColumnA1 row column absRow absColumn ++ rest)).result = .invalid := by
  have haddr : addr.column = 0 := (congrArg Address.column hclear).symm
  rw [appendRowColumnA1, List.append_assoc, parseAddressA1Loop_dollar_column _ _ haddr,
    List.append_assoc, appendColumnNameA1]
  refine parseAddressA1Loop_columnName_of_le hcolumn (by omega) hbound _ ?_ _
  split
  · exact haddr
  · exact haddr

/-- The address of a cell is scanned as what it was printed from. -/
theorem parseAddressA1_rowColumn (hrow : 0 ≤ row) (hbound : column < columnUpperBound) :
    parseAddressA1 (appendRowColumnA1 row column absRow absColumn) addr =
      ⟨.validAddress, false, [], { addr with row, column, absRow, absColumn }⟩ := by
  have h := parseAddressA1Loop_rowColumn hcolumn absRow absColumn hclear hrow hbound []
  rw [List.append_nil] at h
  rw [parseAddressA1, h, parseAddressA1Loop, finishAddressA1]
  have hrow' : ¬ row + 1 = 0 := by omega
  have hcolumn' : ¬ column + 1 = 0 := by omega
  simp only [hrow', if_false, hcolumn', ne_eq, not_false_eq_true, if_true, add_sub_cancel_right]

theorem parseAddressA1_rowColumn_of_le (hbound : columnUpperBound ≤ column) :
    (parseAddressA1 (appendRowColumnA1 row column absRow absColumn) addr).result = .invalid := by
  have h : (parseAddressA1Loop .column addr
      (appendRowColumnA1 row column absRow absColumn ++ [])).result = .invalid :=
    parseAddressA1Loop_rowColumn_of_le hcolumn absRow absColumn hclear hbound []
  rwa [List.append_nil] at h

end RowColumn

end Ixion
