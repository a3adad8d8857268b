import Ixion.Resolver.Resolve

/-!
# When a name is a cell

A resolver takes a name for a cell exactly when the name is not that of a function or a
table, its scanner of addresses accepts everything that is left, and the address passes
the checks that come after.  Looking for a function once more never leads to a cell.
-/

namespace Ixion

open Lib

/-! ## Functions and tables -/

/-- A name with a separator is not that of a function. -/
theorem resolveFunction_eq_none {s : List Char} {c : Char} (hc : c ∈ s)
    (h : BuiltinFuncs.isNameChar (FormulaFunctions.toUpper c) = false) :
    resolveFunction s = none := by
  rw [resolveFunction, FormulaFunctions.getFunctionOpcode_eq_none hc h]
  rfl

/-- A table reference ends with a character that means something in it. -/
theorem resolveTable_eq_none_of_last (cxt : Option Workbook) (s : List Char) {c : Char}
    (hc : ∀ d ∈ ['[', ']', ',', ':'], c ≠ d) : resolveTable cxt (s ++ [c]) = none := by
  have hpush : ∀ st : TableName.State, st.push c = some { st with buf := st.buf ++ [c] } := by
    intro st
    rw [TableName.State.push, if_neg (hc '[' (by decide)), if_neg (hc ']' (by decide)),
      if_neg (hc ',' (by decide)), if_neg (hc ':' (by decide))]
  have hbuf : ∀ buf : List Char, (!(buf ++ [c]).isEmpty) = true := by
    intro buf
    cases buf <;> rfl
  cases cxt with
  | none => rfl
  | some wb =>
    rw [resolveTable, List.foldlM_append]
    cases s.foldlM TableName.State.push ⟨0, none, [], [], [], false⟩ with
    | none => rfl
    | some st =>
      simp only [Option.bind_eq_bind, Option.bind_some, List.foldlM_cons, List.foldlM_nil, hpush,
        Option.pure_def, hbuf, true_or, if_true]

/-- A table reference does not end with a digit. -/
theorem resolveTable_eq_none (cxt : Option Workbook) (s : List Char) {c : Char}
    (hc : c.isDigit = true) : resolveTable cxt (s ++ [c]) = none := by
  refine resolveTable_eq_none_of_last cxt s fun d hd ↦ ?_
  rintro rfl
  simp only [List.mem_cons, List.not_mem_nil, or_false] at hd
  rcases hd with rfl | rfl | rfl | rfl <;> exact absurd hc nofun

theorem resolveFunctionOrName_ne_cell {p : Pointer} {n : ℕ} {f : ℕ → Char} {a : Address} :
    (resolveFunctionOrName p n).eval f ≠ .cellReference a := by
  rw [resolveFunctionOrName, Query.eval_bind, Query.eval_pure, resolveFunction]
  cases FormulaFunctions.getFunctionOpcode _ <;> exact nofun

theorem SheetRange.range_ne_cell {sheets : SheetRange} {first last a : Address} :
    sheets.range first last ≠ .cellReference a := by
  rw [SheetRange.range]
  split
  · split <;> exact nofun
  · exact nofun

/-- If there are sheets, a cell is on the second one. -/
theorem SheetRange.cell_eq_cell {sheets : SheetRange} {addr a : Address}
    (hpresent : sheets.present = true) (h : sheets.cell addr = .cellReference a) :
    a = { addr with sheet := sheets.sheet2 } := by
  rw [SheetRange.cell, if_pos hpresent] at h
  split at h
  · exact absurd h nofun
  · cases h
    rfl

/-! ## Resolvers -/

section Resolvers

variable {cxt : Option Workbook} {pos : AbsAddress} {f : ℕ → Char} {a : Address}

/-- The address that the scanner accepts, after the checks of its size. -/
def AcceptedA1 (cxt : Option Workbook) (parsed : ParsedAddress (List Char)) : Prop :=
  parsed.result = .validAddress ∧ checkAddressBySheetBounds cxt parsed.addr = true ∧
    parsed.addr.row ≠ rowUnset

theorem eval_resolveAddressExcelA1_eq_cell {n : ℕ} {sheets : SheetRange} {p : List Char}
    {parsed : ParsedAddress (List Char)}
    (hparsed : parseAddressExcelA1 p ⟨pos.sheet, 0, 0, false, false, false⟩ = parsed) :
    (resolveAddressExcelA1 cxt pos n sheets p).eval f = .cellReference a ↔
      AcceptedA1 cxt parsed ∧
        sheets.cell (toRelativeAddress parsed.addr pos false) = .cellReference a := by
  rw [resolveAddressExcelA1, hparsed, AcceptedA1]
  dsimp only
  generalize toRelativeAddress parsed.addr pos false = addr
  cases hresult : parsed.result with
  | invalid => simp [resolveFunctionOrName_ne_cell]
  | validAddress =>
    cases hcheck : checkAddressBySheetBounds cxt parsed.addr with
    | false => simp [resolveFunctionOrName_ne_cell]
    | true =>
      by_cases hrow : parsed.addr.row = rowUnset
      · simp [hrow, resolveFunctionOrName_ne_cell]
      · simp [hrow]
  | rangeExpected =>
    cases hcheck : checkAddressBySheetBounds cxt parsed.addr with
    | false => simp [resolveFunctionOrName_ne_cell]
    | true =>
      simp only [ne_eq, reduceCtorEq, not_false_eq_true, Bool.not_true, Bool.false_eq_true,
        and_false, if_false, false_and, iff_false, if_true]
      split
      · exact nofun
      · split
        · exact nofun
        · exact SheetRange.range_ne_cell

theorem eval_resolveExcelA1_eq_cell {s : List Char} {sheets : SheetRange} {p : List Char}
    {parsed : ParsedAddress (List Char)} (hs : resolveFunction s = none)
    (ht : resolveTable cxt s = none) (hsheets : resolveSheets cxt s = (sheets, p))
    (hparsed : parseAddressExcelA1 p ⟨pos.sheet, 0, 0, false, false, false⟩ = parsed) :
    (resolveExcelA1 cxt pos s).eval f = .cellReference a ↔
      s ≠ [] ∧ ¬ (sheets.present = true ∧ sheets.sheet2 = invalidSheet) ∧
        AcceptedA1 cxt parsed ∧
          sheets.cell (toRelativeAddress parsed.addr pos false) = .cellReference a := by
  rw [resolveExcelA1, hs, ht, hsheets,
    ← eval_resolveAddressExcelA1_eq_cell (f := f) (n := s.length) hparsed]
  cases s with
  | nil => exact iff_of_false nofun fun h ↦ h.1 rfl
  | cons c cs =>
    dsimp only
    by_cases hsheet : sheets.present = true ∧ sheets.sheet2 = invalidSheet
    · simp [hsheet]
    · simp [hsheet]

theorem eval_resolveExcelR1C1_eq_cell {s : List Char} {sheets : SheetRange} {p : List Char}
    {parsed : ParsedAddress Pointer} (hs : resolveFunction s = none)
    (hsheets : resolveSheets cxt s = (sheets, p))
    (hparsed : (parseAddressExcelR1C1 (.ofList p)
      ⟨pos.sheet, 0, 0, true, true, true⟩).eval f = parsed) :
    (resolveExcelR1C1 cxt pos s).eval f = .cellReference a ↔
      s ≠ [] ∧ ¬ (sheets.present = true ∧ sheets.sheet2 = invalidSheet) ∧
        parsed.result = .validAddress ∧ sheets.cell parsed.addr = .cellReference a := by
  rw [resolveExcelR1C1, hs, hsheets]
  cases s with
  | nil => exact iff_of_false nofun fun h ↦ h.1 rfl
  | cons c cs =>
    dsimp only
    by_cases hsheet : sheets.present = true ∧ sheets.sheet2 = invalidSheet
    · simp [hsheet]
    · rw [resolveAddressExcelR1C1, Query.eval_ite, Query.eval_ite, Query.eval_bind, hparsed]
      cases hresult : parsed.result with
      | invalid => simp [resolveFunctionOrName_ne_cell, hsheet]
      | validAddress => simp [hsheet]
      | rangeExpected =>
        simp only [hsheet, Query.eval_ite, Query.eval_bind, Query.eval_pure, reduceCtorEq,
          false_and, and_false, iff_false, List.isEmpty_cons, Bool.false_eq_true, if_false]
        split
        · exact nofun
        · split
          · exact nofun
          · exact SheetRange.range_ne_cell

theorem eval_resolveDotA1_eq_cell {s : List Char}
    {parseAddress : Option Workbook → List Char → Address → Scan (ParsedAddress (List Char))}
    {parsed : ParsedAddress (List Char)} (hs : resolveFunction s = none)
    (hparsed :
      (parseAddress cxt s ⟨pos.sheet, 0, 0, false, false, false⟩).eval f = parsed) :
    (resolveDotA1 cxt pos parseAddress s).eval f = .cellReference a ↔
      s ≠ [] ∧ parsed.addr.sheet ≠ invalidSheet ∧ AcceptedA1 cxt parsed ∧
        toRelativeAddress parsed.addr pos true = a := by
  rw [resolveDotA1, hs, AcceptedA1]
  cases s with
  | nil => exact iff_of_false nofun fun h ↦ h.1 rfl
  | cons c cs =>
    simp only [List.isEmpty_cons, Bool.false_eq_true, if_false, Query.eval_bind, hparsed]
    generalize toRelativeAddress parsed.addr pos true = addr
    by_cases hsheet : parsed.addr.sheet = invalidSheet
    · cases hresult : parsed.result with
      | invalid => simp [resolveFunctionOrName_ne_cell]
      | validAddress => simp [hsheet]
      | rangeExpected => simp [hsheet]
    · cases hresult : parsed.result with
      | invalid => simp [resolveFunctionOrName_ne_cell]
      | validAddress =>
        cases hcheck : checkAddressBySheetBounds cxt parsed.addr with
        | false => simp [hsheet, resolveFunctionOrName_ne_cell]
        | true =>
          by_cases hrow : parsed.addr.row = rowUnset
          · simp [hsheet, hrow, resolveFunctionOrName_ne_cell]
          · simp [hsheet, hrow]
      | rangeExpected =>
        cases hcheck : checkAddressBySheetBounds cxt parsed.addr with
        | false => simp [hsheet, resolveFunctionOrName_ne_cell]
        | true =>
          simp only [hsheet, ne_eq, reduceCtorEq, not_false_eq_true, Bool.not_true,
            Bool.false_eq_true, and_false, if_false, false_and, iff_false, if_true,
            Query.eval_ite, Query.eval_pure, Query.eval_bind]
          split
          · exact nofun
          · split <;> exact nofun

end Resolvers

end Ixion
