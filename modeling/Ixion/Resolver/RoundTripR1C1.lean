import Ixion.Resolver.RoundTrip
import Ixion.Resolver.View.ExcelR1C1

/-!
# Scanning what has been printed in R1C1 syntax

Rows and columns in R1C1 syntax are scanned as what they were printed from, except for a
reference of a cell to itself: it is printed as `RC`, which is not an address.
-/

namespace Ixion

open Lib

/-! ## Numbers -/

theorem takeWhile_isDigit {ds rest : List Char} (hds : ∀ c ∈ ds, c.isDigit = true)
    (hrest : ∀ c ∈ rest.head?, c.isDigit = false) :
    (ds ++ rest).takeWhile Char.isDigit = ds ∧ (ds ++ rest).dropWhile Char.isDigit = rest := by
  have htake : rest.takeWhile Char.isDigit = [] ∧ rest.dropWhile Char.isDigit = rest := by
    cases rest with
    | nil => exact ⟨rfl, rfl⟩
    | cons c cs =>
      have hc : c.isDigit = false := hrest c rfl
      rw [List.takeWhile_cons, List.dropWhile_cons, hc]
      exact ⟨rfl, rfl⟩
  rw [List.takeWhile_append_of_pos hds, List.dropWhile_append_of_pos hds, htake.1, htake.2,
    List.append_nil]
  exact ⟨rfl, rfl⟩

/-- The digits of a number have no sign. -/
theorem afterSign_toDigits (n : ℕ) (rest : List Char) :
    afterSign (Nat.toDigits 10 n ++ rest) = Nat.toDigits 10 n ++ rest ∧
      (Nat.toDigits 10 n ++ rest).head? ≠ some '-' := by
  obtain ⟨c, cs, heq⟩ := List.exists_cons_of_ne_nil (Nat.toDigits_ne_nil (n := n) (b := 10))
  have hc : c.isDigit = true := isDigit_of_mem_toDigits (by rw [heq]; exact List.mem_cons_self)
  have hplus : c ≠ '+' := by
    rintro rfl
    exact absurd hc (by decide)
  have hminus : c ≠ '-' := by
    rintro rfl
    exact absurd hc (by decide)
  rw [heq, List.cons_append, afterSign, List.head?_cons]
  refine ⟨if_neg ?_, fun h ↦ hminus (Option.some.inj h)⟩
  rintro (h | h)
  · exact hplus (Option.some.inj h)
  · exact hminus (Option.some.inj h)

/-- A printed number is read as that number. -/
theorem numberValue_decimal (n : Int) (rest : List Char)
    (hrest : ∀ c ∈ rest.head?, c.isDigit = false) :
    numberValue (decimal n ++ rest) = n ∧ afterNumber (decimal n ++ rest) = rest := by
  obtain ⟨htake, hdrop⟩ := takeWhile_isDigit
    (fun c (hc : c ∈ Nat.toDigits 10 n.natAbs) ↦ isDigit_of_mem_toDigits hc) hrest
  rw [decimal]
  split
  case isTrue hneg =>
    have hsign : afterSign ('-' :: Nat.toDigits 10 n.natAbs ++ rest) =
        Nat.toDigits 10 n.natAbs ++ rest := rfl
    rw [numberValue, afterNumber, hsign, htake, hdrop, Nat.ofDigitChars_ten_toDigits]
    refine ⟨?_, rfl⟩
    show (n.natAbs : Int) * -1 = n
    omega
  case isFalse hneg =>
    obtain ⟨hsign, hhead⟩ := afterSign_toDigits n.natAbs rest
    rw [numberValue, afterNumber, hsign, htake, hdrop, Nat.ofDigitChars_ten_toDigits]
    refine ⟨?_, rfl⟩
    show (if _ then _ else _) = n
    rw [if_neg hhead]
    omega

/-- A printed number begins like a number. -/
theorem exists_decimal (n : Int) : ∃ c cs, decimal n = c :: cs ∧ beginsNumber c = true ∧
    c ≠ 'C' ∧ c ≠ 'c' ∧ c ≠ '[' ∧ (0 ≤ n → c.isDigit = true) := by
  rw [decimal]
  split
  case isTrue hneg => exact ⟨'-', _, rfl, rfl, by decide, by decide, by decide, by omega⟩
  case isFalse =>
    obtain ⟨c, cs, heq⟩ := List.exists_cons_of_ne_nil
      (Nat.toDigits_ne_nil (n := n.natAbs) (b := 10))
    have hc : c.isDigit = true := isDigit_of_mem_toDigits (by rw [heq]; exact List.mem_cons_self)
    obtain ⟨-, hle⟩ := toNat_of_isDigit hc
    have hne : ∀ d : Char, 57 < d.toNat → c ≠ d := by
      rintro d hd rfl
      omega
    exact ⟨c, cs, heq, by rw [beginsNumber, hc]; rfl, hne 'C' (by decide), hne 'c' (by decide),
      hne '[' (by decide), fun _ ↦ hc⟩

/-! ## Rows and columns -/

section AfterLetter

variable (n : Int) (addr : Address)

/-- An absolute column after its letter is scanned as what it was printed from. -/
theorem parseAfterColumnR1C1_absolute (hn : 0 ≤ n) :
    parseAfterColumnR1C1 (.ofList (appendNumberR1C1 n true)) addr =
      pure ⟨.validAddress, false, .past 0, { addr with column := n, absColumn := true }⟩ := by
  obtain ⟨hvalue, hafter⟩ := numberValue_decimal (n + 1) [] nofun
  obtain ⟨c, cs, heq, -, -, -, hb, hdigit⟩ := exists_decimal (n + 1)
  rw [List.append_nil, heq] at hvalue hafter
  rw [appendNumberR1C1, if_pos rfl, heq, parseAfterColumnR1C1]
  simp only [Pointer.isEnd_ofList, List.isEmpty_cons, Bool.false_eq_true, if_false,
    Pointer.deref_ofList_cons, pure_bind, hb, hdigit (by omega), if_true, parseNumber_ofList,
    hvalue, hafter, List.isEmpty_nil, if_neg (show ¬ n + 1 ≤ 0 by omega), add_sub_cancel_right]
  rfl

/-- So is a relative column. -/
theorem parseAfterColumnR1C1_relative (hn : n ≠ 0) :
    parseAfterColumnR1C1 (.ofList (appendNumberR1C1 n false)) addr =
      pure ⟨.validAddress, false, .ofList [']'], { addr with column := n }⟩ := by
  obtain ⟨hvalue, hafter⟩ := numberValue_decimal n [']'] (by simp)
  obtain ⟨c, cs, heq, hbegins, -⟩ := exists_decimal n
  rw [heq, List.cons_append] at hvalue hafter
  rw [appendNumberR1C1, if_neg nofun, if_pos hn, heq, parseAfterColumnR1C1]
  simp only [Pointer.isEnd_ofList, List.isEmpty_cons, Bool.false_eq_true, if_false,
    Pointer.deref_ofList_cons, pure_bind, if_true, List.cons_append, List.nil_append,
    Pointer.next_ofList_cons, if_neg (fun h ↦ not_beginsNumber_iff.mp h hbegins),
    parseNumber_ofList, hvalue, hafter]
  rfl

/-- A column that is not given is that of the cell, which may not refer to itself. -/
theorem parseAfterColumnR1C1_zero (haddr : addr.row ≠ rowUnset) :
    parseAfterColumnR1C1 (.ofList (appendNumberR1C1 0 false)) addr =
      pure ⟨if !addr.absRow ∧ addr.row = 0 then .invalid else .validAddress, false, .past 0,
        addr⟩ := by
  show (if addr.row = rowUnset ∨ _ then _ else _ : Scan _) = _
  simp only [haddr, false_or]
  split <;> rfl

section Followed

variable {d : Char} (hd : d.isDigit = false) (rest : List Char)

include hd

/-- An absolute row after its letter is scanned as what it was printed from. -/
theorem parseAfterRowR1C1_absolute (hn : 0 ≤ n) :
    parseAfterRowR1C1 (.ofList (appendNumberR1C1 n true ++ d :: rest)) addr =
      parseColumnR1C1 (.ofList (d :: rest)) { addr with row := n, absRow := true } := by
  obtain ⟨hvalue, hafter⟩ := numberValue_decimal (n + 1) (d :: rest) (by simpa using hd)
  obtain ⟨c, cs, heq, -, hC, hc, hb, hdigit⟩ := exists_decimal (n + 1)
  rw [heq, List.cons_append] at hvalue hafter
  rw [appendNumberR1C1, if_pos rfl, heq, parseAfterRowR1C1]
  simp only [Pointer.isEnd_ofList, List.isEmpty_cons, Bool.false_eq_true, if_false,
    Pointer.deref_ofList_cons, pure_bind, hb, hC, hc, or_self, hdigit (by omega), if_true,
    List.cons_append, parseNumber_ofList, hvalue, hafter,
    if_neg (show ¬ n + 1 ≤ 0 by omega), add_sub_cancel_right]

omit hd in
/-- So is a relative row. -/
theorem parseAfterRowR1C1_relative (hn : n ≠ 0) :
    parseAfterRowR1C1 (.ofList (appendNumberR1C1 n false ++ d :: rest)) addr =
      parseColumnR1C1 (.ofList (d :: rest)) { addr with row := n } := by
  obtain ⟨hvalue, hafter⟩ := numberValue_decimal n (']' :: d :: rest)
    (by simp)
  obtain ⟨c, cs, heq, hbegins, -⟩ := exists_decimal n
  rw [heq, List.cons_append] at hvalue hafter
  rw [appendNumberR1C1, if_neg nofun, if_pos hn, heq, parseAfterRowR1C1]
  simp only [Pointer.isEnd_ofList, List.isEmpty_cons, Bool.false_eq_true, if_false,
    Pointer.deref_ofList_cons, pure_bind, if_true, List.cons_append, List.nil_append,
    List.append_assoc, Pointer.next_ofList_cons, Char.reduceEq, or_self,
    if_neg (fun h ↦ not_beginsNumber_iff.mp h hbegins), parseNumber_ofList, hvalue, hafter]
  rfl

/-- An absolute column is scanned in the same way before something else. -/
theorem parseAfterColumnR1C1_absolute_cons (hn : 0 ≤ n) :
    parseAfterColumnR1C1 (.ofList (appendNumberR1C1 n true ++ d :: rest)) addr =
      parseSeparatorR1C1 (.ofList (d :: rest)) { addr with column := n, absColumn := true } := by
  obtain ⟨hvalue, hafter⟩ := numberValue_decimal (n + 1) (d :: rest) (by simpa using hd)
  obtain ⟨c, cs, heq, -, -, -, hb, hdigit⟩ := exists_decimal (n + 1)
  rw [heq, List.cons_append] at hvalue hafter
  rw [appendNumberR1C1, if_pos rfl, heq, parseAfterColumnR1C1]
  simp only [Pointer.isEnd_ofList, List.isEmpty_cons, Bool.false_eq_true, if_false,
    Pointer.deref_ofList_cons, pure_bind, hb, hdigit (by omega), if_true, List.cons_append,
    parseNumber_ofList, hvalue, hafter, if_neg (show ¬ n + 1 ≤ 0 by omega), add_sub_cancel_right]

omit hd in
/-- So is a relative column. -/
theorem parseAfterColumnR1C1_relative_cons (hn : n ≠ 0) :
    parseAfterColumnR1C1 (.ofList (appendNumberR1C1 n false ++ d :: rest)) addr =
      parseSeparatorR1C1 (.ofList (d :: rest)) { addr with column := n } := by
  obtain ⟨hvalue, hafter⟩ := numberValue_decimal n (']' :: d :: rest) (by simp)
  obtain ⟨c, cs, heq, hbegins, -⟩ := exists_decimal n
  rw [heq, List.cons_append] at hvalue hafter
  rw [appendNumberR1C1, if_neg nofun, if_pos hn, heq, parseAfterColumnR1C1]
  simp only [Pointer.isEnd_ofList, List.isEmpty_cons, Bool.false_eq_true, if_false,
    Pointer.deref_ofList_cons, pure_bind, if_true, List.cons_append, List.nil_append,
    List.append_assoc, Pointer.next_ofList_cons,
    if_neg (fun h ↦ not_beginsNumber_iff.mp h hbegins), parseNumber_ofList, hvalue, hafter]
  rfl

end Followed

/-- An absolute row alone is scanned as what it was printed from. -/
theorem parseAfterRowR1C1_absolute_nil (hn : 0 ≤ n) :
    parseAfterRowR1C1 (.ofList (appendNumberR1C1 n true)) addr =
      pure ⟨.validAddress, false, .past 0, { addr with row := n, absRow := true }⟩ := by
  obtain ⟨hvalue, hafter⟩ := numberValue_decimal (n + 1) [] nofun
  obtain ⟨c, cs, heq, -, hC, hc, hb, hdigit⟩ := exists_decimal (n + 1)
  rw [List.append_nil, heq] at hvalue hafter
  rw [appendNumberR1C1, if_pos rfl, heq, parseAfterRowR1C1]
  simp only [Pointer.isEnd_ofList, List.isEmpty_cons, Bool.false_eq_true, if_false,
    Pointer.deref_ofList_cons, pure_bind, hb, hC, hc, or_self, hdigit (by omega), if_true,
    parseNumber_ofList, hvalue, hafter, List.isEmpty_nil,
    if_neg (show ¬ n + 1 ≤ 0 by omega), add_sub_cancel_right]
  rfl

/-- So is a relative row. -/
theorem parseAfterRowR1C1_relative_nil (hn : n ≠ 0) :
    parseAfterRowR1C1 (.ofList (appendNumberR1C1 n false)) addr =
      pure ⟨.validAddress, false, .ofList [']'], { addr with row := n }⟩ := by
  obtain ⟨hvalue, hafter⟩ := numberValue_decimal n [']'] (by simp)
  obtain ⟨c, cs, heq, hbegins, -⟩ := exists_decimal n
  rw [heq, List.cons_append] at hvalue hafter
  rw [appendNumberR1C1, if_neg nofun, if_pos hn, heq, parseAfterRowR1C1]
  simp only [Pointer.isEnd_ofList, List.isEmpty_cons, Bool.false_eq_true, if_false,
    Pointer.deref_ofList_cons, pure_bind, if_true, List.cons_append, List.nil_append,
    Pointer.next_ofList_cons, Char.reduceEq, or_self,
    if_neg (fun h ↦ not_beginsNumber_iff.mp h hbegins), parseNumber_ofList, hvalue, hafter]
  rfl

/-- A row that is not given is that of the cell. -/
theorem parseAfterRowR1C1_zero (rest : List Char) :
    parseAfterRowR1C1 (.ofList (appendNumberR1C1 0 false ++ 'C' :: rest)) addr =
      parseColumnR1C1 (.ofList ('C' :: rest)) addr :=
  rfl

end AfterLetter

/-- A column is scanned as what it was printed from, unless the cell refers to itself. -/
theorem parseColumnR1C1_appendNumber (n : Int) (absolute : Bool) (hn : absolute = true → 0 ≤ n)
    (addr : Address) (haddr : addr.row ≠ rowUnset) :
    ∃ p : Pointer,
      parseColumnR1C1 (.ofList ('C' :: appendNumberR1C1 n absolute)) addr =
        pure ⟨if addr.absRow = false ∧ addr.row = 0 ∧ absolute = false ∧ n = 0 then .invalid
          else .validAddress, false, p, { addr with column := n, absColumn := absolute }⟩ := by
  rw [parseColumnR1C1, Pointer.deref_ofList_cons, pure_bind, if_pos (.inl rfl),
    Pointer.next_ofList_cons]
  cases absolute with
  | true =>
    rw [parseAfterColumnR1C1_absolute _ _ (hn rfl), if_neg fun h ↦ (by cases h.2.2.1)]
    exact ⟨_, rfl⟩
  | false =>
    by_cases hzero : n = 0
    · subst hzero
      have h := parseAfterColumnR1C1_zero { addr with column := 0, absColumn := false } haddr
      refine ⟨.past 0, h.trans ?_⟩
      simp only [and_true, Bool.not_eq_true']
    · rw [parseAfterColumnR1C1_relative _ _ hzero, if_neg fun h ↦ hzero h.2.2.2]
      exact ⟨_, rfl⟩

/-- A row is scanned as what it was printed from. -/
theorem parseAfterRowR1C1_appendNumber (n : Int) (absolute : Bool)
    (hn : absolute = true → 0 ≤ n) (addr : Address) (hzero : addr.row = 0)
    (habs : addr.absRow = false) (rest : List Char) :
    parseAfterRowR1C1 (.ofList (appendNumberR1C1 n absolute ++ 'C' :: rest)) addr =
      parseColumnR1C1 (.ofList ('C' :: rest)) { addr with row := n, absRow := absolute } := by
  cases absolute with
  | true => exact parseAfterRowR1C1_absolute n addr rfl rest (hn rfl)
  | false =>
    obtain ⟨sheet, row, column, absSheet, absRow, absColumn⟩ := addr
    cases habs
    cases hzero
    by_cases h : n = 0
    · subst h
      exact parseAfterRowR1C1_zero _ rest
    · exact parseAfterRowR1C1_relative n _ rest h

/-- A cell is scanned as what it was printed from, unless it refers to itself. -/
theorem parseAddressR1C1_appendAddressR1C1 (a : Address) (hrow : a.row ≠ rowUnset)
    (hcolumn : a.column ≠ columnUnset) (hrow' : a.absRow = true → 0 ≤ a.row)
    (hcolumn' : a.absColumn = true → 0 ≤ a.column) (addr : Address) :
    ∃ p : Pointer, parseAddressR1C1 (.ofList (appendAddressR1C1 a)) addr =
      pure ⟨if a.absRow = false ∧ a.row = 0 ∧ a.absColumn = false ∧ a.column = 0 then .invalid
        else .validAddress, false, p,
        { a with sheet := addr.sheet, absSheet := addr.absSheet }⟩ := by
  rw [appendAddressR1C1, if_pos hrow, if_pos hcolumn, List.cons_append, parseAddressR1C1,
    Pointer.deref_ofList_cons, pure_bind, if_pos (.inl rfl), Pointer.next_ofList_cons,
    parseAfterRowR1C1_appendNumber _ _ hrow' _ rfl rfl]
  exact parseColumnR1C1_appendNumber _ _ hcolumn' _ hrow

end Ixion
