import Ixion.Resolver.RangeName

/-!
# Names of cells and ranges in R1C1 syntax

A row or column that is relative and the same as that of the cell is printed as its letter
alone.  Such a letter is understood everywhere except at two places: a reference may not end
with an address that has no number at all, and the letter of a row directly before a `':'`
is taken for the first row.
-/

namespace Ixion

open Lib

/-! ## Scanning an address -/

/-- What a printed address is scanned as, on a sheet. -/
def Address.scannedR1C1 (a start : Address) : Address :=
  { a with
    sheet := start.sheet
    absSheet := start.absSheet
    absRow := if a.row = rowUnset then start.absRow else a.absRow
    absColumn := if a.column = columnUnset then start.absColumn else a.absColumn }

/-- Absolute rows and columns are not negative. -/
structure Address.AbsoluteNonneg (a : Address) : Prop where
  row : a.absRow = true → 0 ≤ a.row
  column : a.absColumn = true → 0 ≤ a.column

/-- An address that is printed as the letter of a row alone. -/
def Address.showsLoneRow (a : Address) : Bool :=
  a.column = columnUnset ∧ a.row = 0 ∧ a.absRow = false

section Scan

variable {a : Address} (hnonneg : a.AbsoluteNonneg) (start : Address)

include hnonneg

/-- An address that is printed with a number is scanned as what it was printed from. -/
theorem parseAddressR1C1_print (hnumber : a.ShowsNumber) :
    ∃ p, parseAddressR1C1 (.ofList (appendAddressR1C1 a)) start =
      pure ⟨.validAddress, false, p, a.scannedR1C1 start⟩ := by
  rw [Address.scannedR1C1]
  by_cases hr : a.row = rowUnset
  · obtain ⟨hc, hshown⟩ := hnumber.resolve_left fun h ↦ h.1 hr
    rw [appendAddressR1C1, if_neg (not_not.mpr hr), if_pos hc, List.nil_append, parseAddressR1C1,
      Pointer.deref_ofList_cons, pure_bind, if_neg (by decide), parseColumnR1C1,
      Pointer.deref_ofList_cons, pure_bind, if_pos (.inl rfl), Pointer.next_ofList_cons,
      if_pos hr, if_neg hc]
    cases habs : a.absColumn with
    | true =>
      rw [parseAfterColumnR1C1_absolute _ _ (hnonneg.column habs)]
      exact ⟨_, by rw [← hr]⟩
    | false =>
      have hne : a.column ≠ 0 := hshown.resolve_left (by rw [habs]; rintro ⟨⟩)
      rw [parseAfterColumnR1C1_relative _ _ hne]
      exact ⟨_, by rw [← hr]⟩
  · by_cases hc : a.column = columnUnset
    · obtain ⟨-, hshown⟩ := hnumber.resolve_right fun h ↦ h.1 hc
      rw [appendAddressR1C1, if_pos hr, if_neg (not_not.mpr hc), List.append_nil, parseAddressR1C1,
        Pointer.deref_ofList_cons, pure_bind, if_pos (.inl rfl), Pointer.next_ofList_cons,
        if_neg hr, if_pos hc]
      cases habs : a.absRow with
      | true =>
        rw [parseAfterRowR1C1_absolute_nil _ _ (hnonneg.row habs)]
        exact ⟨_, by rw [← hc]⟩
      | false =>
        have hne : a.row ≠ 0 := hshown.resolve_left (by rw [habs]; rintro ⟨⟩)
        rw [parseAfterRowR1C1_relative_nil _ _ hne]
        exact ⟨_, by rw [← hc]⟩
    · obtain ⟨p, hp⟩ := parseAddressR1C1_appendAddressR1C1 a hr hc hnonneg.row hnonneg.column start
      refine ⟨p, hp.trans ?_⟩
      rw [if_neg, if_neg hr, if_neg hc]
      rintro ⟨habs, hzero, habs', hzero'⟩
      rcases hnumber with ⟨-, h⟩ | ⟨-, h⟩
      · exact h.elim (by rw [habs]; rintro ⟨⟩) fun h ↦ h hzero
      · exact h.elim (by rw [habs']; rintro ⟨⟩) fun h ↦ h hzero'

omit hnonneg in
/-- Without a column, the last corner of a range has to follow. -/
theorem parseColumnR1C1_separator (addr : Address) (rest : List Char) :
    parseColumnR1C1 (.ofList (':' :: rest)) addr =
      pure ⟨if rest.isEmpty then .invalid else .rangeExpected, false, .ofList (':' :: rest),
        addr⟩ := rfl

omit hnonneg in
/-- A column is scanned in the same way before the last corner of a range. -/
theorem parseColumnR1C1_colon (n : Int) (absolute : Bool) (hn : absolute = true → 0 ≤ n)
    (addr : Address) (rest : List Char) :
    parseColumnR1C1 (.ofList ('C' :: (appendNumberR1C1 n absolute ++ ':' :: rest))) addr =
      pure ⟨if rest.isEmpty then .invalid else .rangeExpected, false, .ofList (':' :: rest),
        { addr with column := n, absColumn := absolute }⟩ := by
  rw [parseColumnR1C1, Pointer.deref_ofList_cons, pure_bind, if_pos (.inl rfl),
    Pointer.next_ofList_cons]
  cases absolute with
  | true =>
    rw [parseAfterColumnR1C1_absolute_cons _ _ rfl _ (hn rfl)]
    rfl
  | false =>
    by_cases hzero : n = 0
    · subst hzero
      rfl
    · rw [parseAfterColumnR1C1_relative_cons _ _ _ hzero]
      rfl

/-- An address before the last corner of a range, which may not be empty, is scanned as what
it was printed from, unless it is the letter of a row alone, which is taken for the first
row. -/
theorem parseAddressR1C1_print_colon (rest : List Char) :
    parseAddressR1C1 (.ofList (appendAddressR1C1 a ++ ':' :: rest)) start =
      pure ⟨if rest.isEmpty then .invalid else .rangeExpected, false, .ofList (':' :: rest),
        { a.scannedR1C1 start with
          absRow := (a.scannedR1C1 start).absRow || a.showsLoneRow }⟩ := by
  rw [Address.scannedR1C1, Address.showsLoneRow]
  by_cases hr : a.row = rowUnset
  · by_cases hc : a.column = columnUnset
    · rw [appendAddressR1C1, if_neg (not_not.mpr hr), if_neg (not_not.mpr hc), List.nil_append,
        List.nil_append, parseAddressR1C1, Pointer.deref_ofList_cons, pure_bind,
        if_neg (by decide), parseColumnR1C1_separator, if_pos hr, if_pos hc, hr, hc]
      simp [show ¬ rowUnset = 0 by decide]
    · rw [appendAddressR1C1, if_neg (not_not.mpr hr), if_pos hc, List.nil_append, List.cons_append,
        parseAddressR1C1, Pointer.deref_ofList_cons, pure_bind, if_neg (by decide),
        parseColumnR1C1_colon _ _ hnonneg.column]
      simp [hr, hc]
  · have hcons : ∀ t, appendAddressR1C1 a ++ t = 'R' :: (appendNumberR1C1 a.row a.absRow ++
        ((if a.column ≠ columnUnset then 'C' :: appendNumberR1C1 a.column a.absColumn else []) ++
          t)) := by
      intro t
      rw [appendAddressR1C1, if_pos hr, List.cons_append, List.cons_append, List.append_assoc]
    rw [hcons, parseAddressR1C1, Pointer.deref_ofList_cons, pure_bind, if_pos (.inl rfl),
      Pointer.next_ofList_cons]
    by_cases hc : a.column = columnUnset
    · rw [if_neg (not_not.mpr hc), List.nil_append]
      cases habs : a.absRow with
      | true =>
        rw [parseAfterRowR1C1_absolute _ _ rfl _ (hnonneg.row habs), parseColumnR1C1_separator]
        simp [hr, hc]
      | false =>
        by_cases hzero : a.row = 0
        · -- the row is scanned as an absolute one
          have hrow : ∀ addr : Address, parseAfterRowR1C1
              (.ofList (appendNumberR1C1 0 false ++ ':' :: rest)) addr =
                parseColumnR1C1 (.ofList (':' :: rest)) { addr with absRow := true } :=
            fun addr ↦ rfl
          rw [hzero, hrow, parseColumnR1C1_separator]
          simp [hc]
        · rw [parseAfterRowR1C1_relative _ _ _ hzero, parseColumnR1C1_separator]
          simp [hr, hc, hzero]
    · rw [if_pos hc, List.cons_append, parseAfterRowR1C1_appendNumber _ _ hnonneg.row _ rfl rfl,
        parseColumnR1C1_colon _ _ hnonneg.column]
      simp [hr, hc]

end Scan

/-! ## Printed characters -/

/-- The characters that addresses in R1C1 syntax are printed with. -/
def isPrintedR1C1 (c : Char) : Bool := isPrintedA1 c || c = '[' || c = ']' || c = '-'

theorem isPrintedR1C1_of_mem_decimal {n : Int} {c : Char} (h : c ∈ decimal n) :
    isPrintedR1C1 c = true := by
  have hdigit : ∀ m : ℕ, c ∈ Nat.toDigits 10 m → isPrintedR1C1 c = true := by
    intro m hm
    rw [isPrintedR1C1, isPrintedA1, isDigit_of_mem_toDigits hm, Bool.or_true]
    rfl
  rw [decimal] at h
  split at h
  · rcases List.mem_cons.mp h with rfl | h
    · rfl
    · exact hdigit _ h
  · exact hdigit _ h

theorem isPrintedR1C1_of_mem_number {n : Int} {absolute : Bool} {c : Char}
    (h : c ∈ appendNumberR1C1 n absolute) : isPrintedR1C1 c = true := by
  rw [appendNumberR1C1] at h
  split at h
  · exact isPrintedR1C1_of_mem_decimal h
  · split at h
    · rw [List.mem_append, List.mem_append, List.mem_singleton, List.mem_singleton] at h
      rcases h with (rfl | h) | rfl
      · rfl
      · exact isPrintedR1C1_of_mem_decimal h
      · rfl
    · exact absurd h List.not_mem_nil

/-- The characters of a printed address are its letters and those of its numbers. -/
theorem mem_appendAddressR1C1 {a : Address} {c : Char} (h : c ∈ appendAddressR1C1 a) :
    c = 'R' ∨ c = 'C' ∨ a.row ≠ rowUnset ∧ c ∈ appendNumberR1C1 a.row a.absRow ∨
      a.column ≠ columnUnset ∧ c ∈ appendNumberR1C1 a.column a.absColumn := by
  rw [appendAddressR1C1, List.mem_append] at h
  rcases h with h | h
  · split at h
    case isTrue hset =>
      rcases List.mem_cons.mp h with h | h
      · exact .inl h
      · exact .inr (.inr (.inl ⟨hset, h⟩))
    case isFalse => exact absurd h List.not_mem_nil
  · split at h
    case isTrue hset =>
      rcases List.mem_cons.mp h with h | h
      · exact .inr (.inl h)
      · exact .inr (.inr (.inr ⟨hset, h⟩))
    case isFalse => exact absurd h List.not_mem_nil

theorem isPrintedR1C1_of_mem {a : Address} {c : Char} (h : c ∈ appendAddressR1C1 a) :
    isPrintedR1C1 c = true := by
  rcases mem_appendAddressR1C1 h with rfl | rfl | ⟨-, h⟩ | ⟨-, h⟩
  · rfl
  · rfl
  · exact isPrintedR1C1_of_mem_number h
  · exact isPrintedR1C1_of_mem_number h

/-- A number without brackets is absolute. -/
theorem isPrintedA1_of_mem_number {n : Int} {absolute : Bool} (hn : absolute = true → 0 ≤ n)
    (hbracket : '[' ∉ appendNumberR1C1 n absolute) {c : Char}
    (h : c ∈ appendNumberR1C1 n absolute) : isPrintedA1 c = true := by
  cases absolute with
  | true =>
    have hnonneg := hn rfl
    exact isPrintedA1_of_mem_decimal (show 0 ≤ n + 1 by omega) h
  | false =>
    rw [appendNumberR1C1, if_neg (by rintro ⟨⟩)] at h hbracket
    split at hbracket
    case isTrue => exact absurd (by simp) hbracket
    case isFalse hzero =>
      rw [if_neg hzero] at h
      exact absurd h List.not_mem_nil

/-- No name of a function is an address in R1C1 syntax. -/
theorem all_entries_invalidR1C1 :
    BuiltinFuncs.entries.all (fun e ↦
      decide (((parseAddressR1C1 (.ofList e.1.toList) functionStart).eval fun _ ↦ ' ').result ≠
        .validAddress)) = true := by
  decide +kernel

/-- A printed address is not the name of a function. -/
theorem resolveFunction_appendAddressR1C1 {a : Address} (hnonneg : a.AbsoluteNonneg)
    (hnumber : a.ShowsNumber) : resolveFunction (appendAddressR1C1 a) = none := by
  by_cases hbracket : '[' ∈ appendAddressR1C1 a
  · exact resolveFunction_eq_none hbracket rfl
  · by_contra hsome
    obtain ⟨e, he, heq⟩ := exists_entry_of_resolveFunction hsome
    have hprinted : ∀ c ∈ appendAddressR1C1 a, isPrintedA1 c = true := by
      intro c hc
      rcases mem_appendAddressR1C1 hc with rfl | rfl | ⟨hset, h⟩ | ⟨hset, h⟩
      · rfl
      · rfl
      · refine isPrintedA1_of_mem_number hnonneg.row (fun hmem ↦ hbracket ?_) h
        rw [appendAddressR1C1, if_pos hset]
        exact List.mem_append_left _ (List.mem_cons_of_mem _ hmem)
      · refine isPrintedA1_of_mem_number hnonneg.column (fun hmem ↦ hbracket ?_) h
        rw [appendAddressR1C1, if_pos hset]
        exact List.mem_append_right _ (List.mem_cons_of_mem _ hmem)
    have hmap : (appendAddressR1C1 a).map FormulaFunctions.toUpper = appendAddressR1C1 a := by
      conv_rhs => rw [← List.map_id (appendAddressR1C1 a)]
      apply List.map_congr_left
      intro c hc
      exact toUpper_of_isPrintedA1 (hprinted c hc)
    have hentry := List.all_eq_true.mp all_entries_invalidR1C1 e he
    obtain ⟨p, hp⟩ := parseAddressR1C1_print hnonneg functionStart hnumber
    rw [hmap] at heq
    rw [heq, hp, decide_eq_true_eq] at hentry
    exact hentry rfl

/-! ## Results -/

/-- An address whose sheet is made absolute, as it always is in Excel's syntaxes. -/
def Address.withAbsSheet (addr : Address) (pos : AbsAddress) : Address :=
  { addr with sheet := addr.sheetFrom pos, absSheet := true }

theorem Address.withAbsSheet_of_absSheet {addr : Address} (h : addr.absSheet = true)
    (pos : AbsAddress) : addr.withAbsSheet pos = addr := by
  rw [withAbsSheet, sheetFrom, if_pos h, ← h]

section Returns

variable {wb : Workbook} {pos : AbsAddress}

theorem agrees_scannedR1C1 {addr : Address} (hsheet : addr.sheetFrom pos = pos.sheet) :
    (addr.scannedR1C1 (startA1 pos true)).Agrees (addr.withAbsSheet pos) where
  sheet := hsheet.symm
  row := rfl
  column := rfl
  absSheet := rfl
  absRow hset := if_neg hset
  absColumn hset := if_neg hset

theorem not_mem_appendAddressR1C1 {addr : Address} {c : Char} (h : isPrintedR1C1 c = false) :
    c ∉ appendAddressR1C1 addr :=
  fun hmem ↦ absurd ((isPrintedR1C1_of_mem hmem).symm.trans h) nofun

/-- Something is printed if it has a number. -/
theorem appendAddressR1C1_ne_nil {addr : Address} (hnumber : addr.ShowsNumber) :
    appendAddressR1C1 addr ≠ [] := by
  intro hnil
  rw [appendAddressR1C1, List.append_eq_nil_iff] at hnil
  rcases hnumber with ⟨hset, -⟩ | ⟨hset, -⟩
  · rw [if_pos hset] at hnil
    exact absurd hnil.1 (by rintro ⟨⟩)
  · rw [if_pos hset] at hnil
    exact absurd hnil.2 (by rintro ⟨⟩)

/-- What two printed addresses are resolved to after their sheets.  The last one needs a
number, and the first one is taken for the first row if it is the letter of a row alone. -/
theorem eval_resolveAddressExcelR1C1_corners {first last : Address}
    (hnonneg : first.AbsoluteNonneg)
    (hnonneg' : last.AbsoluteNonneg) {n : ℕ} {sheets : SheetRange} {behind : ℕ → Char}
    {r : Range} :
    (resolveAddressExcelR1C1 pos n sheets
        (appendAddressR1C1 first ++ ':' :: appendAddressR1C1 last)).eval behind =
          .rangeReference r ↔
      last.ShowsNumber ∧
        sheets.range { first.scannedR1C1 (startA1 pos true) with
            absRow := (first.scannedR1C1 (startA1 pos true)).absRow || first.showsLoneRow }
          (last.scannedR1C1 (startA1 pos true)) = .rangeReference r := by
  set addr := { first.scannedR1C1 (startA1 pos true) with
    absRow := (first.scannedR1C1 (startA1 pos true)).absRow || first.showsLoneRow } with haddr
  have hparsed : (parseAddressExcelR1C1
      (.ofList (appendAddressR1C1 first ++ ':' :: appendAddressR1C1 last))
      ⟨pos.sheet, 0, 0, true, true, true⟩).eval behind =
        ⟨if (appendAddressR1C1 last).isEmpty then .invalid else .rangeExpected, false,
          .ofList (':' :: appendAddressR1C1 last), addr⟩ :=
    congrArg (Query.eval behind)
      (parseAddressR1C1_print_colon hnonneg (startA1 pos true) (appendAddressR1C1 last))
  rw [eval_resolveAddressExcelR1C1_eq_reference (FormulaName.isReference_range r) hparsed rfl,
    Pointer.next_ofList_cons, Pointer.isEnd_ofList]
  by_cases hnumber : last.ShowsNumber
  · obtain ⟨p, hp⟩ := parseAddressR1C1_print hnonneg' (startA1 pos true) hnumber
    have hparsed' : (parseAddressExcelR1C1 (.ofList (appendAddressR1C1 last)) addr).eval behind =
        ⟨.validAddress, false, p, last.scannedR1C1 (startA1 pos true)⟩ :=
      congrArg (Query.eval behind) hp
    have hempty : (appendAddressR1C1 last).isEmpty = false := by
      rw [Bool.eq_false_iff, ne_eq, List.isEmpty_iff]
      exact appendAddressR1C1_ne_nil hnumber
    rw [hparsed', hempty]
    simp [hnumber]
  · have hinvalid : ((parseAddressExcelR1C1 (.ofList (appendAddressR1C1 last)) addr).eval
        behind).result ≠ .validAddress :=
      fun h ↦ hnumber ((result_parseAddressR1C1 hnonneg'.row hnonneg'.column _).mp h)
    cases hempty : (appendAddressR1C1 last).isEmpty with
    | true => simp [hnumber]
    | false => simp [hnumber, hinvalid]

end Returns

end Ixion
