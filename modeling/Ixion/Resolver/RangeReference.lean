import Ixion.Resolver.CellReference

/-!
# When a name is a range

A resolver takes a name for a range when its scanner finds a first corner that is followed
by a `':'`, accepts everything that is left as the last corner, and the first corner passes
the checks that come after; the last one is not checked.  In Excel's syntaxes a cell on two
sheets is a range too.
-/

namespace Ixion

open Lib

/-- A name that is a reference to a cell or a range. -/
def FormulaName.IsReference (name : FormulaName) : Prop :=
  name.type = .cellReference ∨ name.type = .rangeReference

theorem FormulaName.isReference_cell (a : Address) : (cellReference a).IsReference := .inl rfl

theorem FormulaName.isReference_range (r : Range) : (rangeReference r).IsReference := .inr rfl

theorem FormulaName.not_isReference_invalid : ¬ invalid.IsReference := by
  rintro (h | h) <;> exact absurd h nofun

theorem not_isReference_resolveFunctionOrName {p : Pointer} {n : ℕ} {f : ℕ → Char} :
    ¬ ((resolveFunctionOrName p n).eval f).IsReference := by
  rw [resolveFunctionOrName, Query.eval_bind, Query.eval_pure, resolveFunction]
  cases FormulaFunctions.getFunctionOpcode _ with
  | none => rintro (h | h) <;> exact absurd h (by rintro ⟨⟩)
  | some func => rintro (h | h) <;> exact absurd h (by rintro ⟨⟩)

theorem not_isReference_resolveFunction {s : List Char} {name : FormulaName}
    (h : resolveFunction s = some name) : ¬ name.IsReference := by
  obtain ⟨func, -, rfl⟩ := Option.map_eq_some_iff.mp h
  rintro (h | h) <;> exact absurd h nofun

theorem not_isReference_resolveTable {cxt : Option Workbook} {s : List Char}
    {name : FormulaName} (h : resolveTable cxt s = some name) : ¬ name.IsReference := by
  simp only [resolveTable, Option.bind_eq_bind, Option.bind_eq_some_iff] at h
  obtain ⟨_, -, st, -, h⟩ := h
  split at h
  · exact absurd h (by rintro ⟨⟩)
  · simp only [Option.bind_eq_some_iff] at h
    obtain ⟨table, -, h⟩ := h
    cases h
    rintro (h | h) <;> exact absurd h (by rintro ⟨⟩)

/-! ## Excel's syntaxes -/

section Excel

variable {cxt : Option Workbook} {pos : AbsAddress} {f : ℕ → Char} {name : FormulaName}

/-- The sheets of a reference are found, if there are any. -/
def SheetRange.Found (sheets : SheetRange) : Prop :=
  ¬ (sheets.present = true ∧ sheets.sheet2 = invalidSheet)

/-- A reference is what follows the sheets, unless it has been something else before. -/
theorem eval_resolveExcelA1_eq_reference (hname : name.IsReference) {s : List Char} :
    (resolveExcelA1 cxt pos s).eval f = name ↔
      s ≠ [] ∧ resolveFunction s = none ∧ resolveTable cxt s = none ∧
        (resolveSheets cxt s).1.Found ∧
        (resolveAddressExcelA1 cxt pos s.length (resolveSheets cxt s).1
          (resolveSheets cxt s).2).eval f = name := by
  rw [resolveExcelA1, SheetRange.Found]
  cases s with
  | nil =>
    refine iff_of_false ?_ fun h ↦ h.1 rfl
    rintro rfl
    exact FormulaName.not_isReference_invalid hname
  | cons c cs =>
    cases hfunction : resolveFunction (c :: cs) with
    | some name' =>
      refine iff_of_false ?_ fun h ↦ absurd h.2.1 (by rintro ⟨⟩)
      rintro rfl
      exact not_isReference_resolveFunction hfunction hname
    | none =>
      cases htable : resolveTable cxt (c :: cs) with
      | some name' =>
        refine iff_of_false ?_ fun h ↦ absurd h.2.2.1 (by rintro ⟨⟩)
        rintro rfl
        exact not_isReference_resolveTable htable hname
      | none =>
        dsimp only
        by_cases hsheets : (resolveSheets cxt (c :: cs)).1.present = true ∧
          (resolveSheets cxt (c :: cs)).1.sheet2 = invalidSheet
        · rw [if_neg (by rintro ⟨⟩), if_pos hsheets]
          refine iff_of_false ?_ fun h ↦ h.2.2.2.1 hsheets
          rintro rfl
          exact FormulaName.not_isReference_invalid hname
        · rw [if_neg (by rintro ⟨⟩), if_neg hsheets]
          simp only [ne_eq, reduceCtorEq, not_false_eq_true, hsheets, true_and]

theorem eval_resolveExcelR1C1_eq_reference (hname : name.IsReference) {s : List Char} :
    (resolveExcelR1C1 cxt pos s).eval f = name ↔
      s ≠ [] ∧ resolveFunction s = none ∧ (resolveSheets cxt s).1.Found ∧
        (resolveAddressExcelR1C1 pos s.length (resolveSheets cxt s).1
          (resolveSheets cxt s).2).eval f = name := by
  rw [resolveExcelR1C1, SheetRange.Found]
  cases s with
  | nil =>
    refine iff_of_false ?_ fun h ↦ h.1 rfl
    rintro rfl
    exact FormulaName.not_isReference_invalid hname
  | cons c cs =>
    cases hfunction : resolveFunction (c :: cs) with
    | some name' =>
      refine iff_of_false ?_ fun h ↦ absurd h.2.1 (by rintro ⟨⟩)
      rintro rfl
      exact not_isReference_resolveFunction hfunction hname
    | none =>
      dsimp only
      by_cases hsheets : (resolveSheets cxt (c :: cs)).1.present = true ∧
        (resolveSheets cxt (c :: cs)).1.sheet2 = invalidSheet
      · rw [if_neg (by rintro ⟨⟩), if_pos hsheets]
        refine iff_of_false ?_ fun h ↦ h.2.2.1 hsheets
        rintro rfl
        exact FormulaName.not_isReference_invalid hname
      · rw [if_neg (by rintro ⟨⟩), if_neg hsheets]
        simp only [ne_eq, reduceCtorEq, not_false_eq_true, hsheets, true_and]

/-- The first corner that the scanner accepts, after the checks of its size. -/
def AcceptedFirstA1 (cxt : Option Workbook) (parsed : ParsedAddress (List Char)) : Prop :=
  parsed.result = .rangeExpected ∧ checkAddressBySheetBounds cxt parsed.addr = true

/-- What follows the sheets is a cell on them, or a range. -/
theorem eval_resolveAddressExcelA1_eq_reference (hname : name.IsReference) {n : ℕ}
    {sheets : SheetRange} {p : List Char} {parsed parsed₂ : ParsedAddress (List Char)}
    (hparsed : parseAddressExcelA1 p ⟨pos.sheet, 0, 0, false, false, false⟩ = parsed)
    (hparsed₂ : parseAddressExcelA1 parsed.p.tail (toRelativeAddress parsed.addr pos false) =
      parsed₂) :
    (resolveAddressExcelA1 cxt pos n sheets p).eval f = name ↔
      AcceptedA1 cxt parsed ∧ sheets.cell (toRelativeAddress parsed.addr pos false) = name ∨
        AcceptedFirstA1 cxt parsed ∧ parsed₂.result = .validAddress ∧
          sheets.range (toRelativeAddress parsed.addr pos false)
            { toRelativeAddress parsed₂.addr pos false with sheet := parsed.addr.sheet } =
              name := by
  have hsheet : (toRelativeAddress parsed.addr pos false).sheet = parsed.addr.sheet := by
    simp only [toRelativeAddress, Bool.false_eq_true, and_false, if_false]
  have hother : ¬ ((resolveFunctionOrName (.ofList parsed.p) n).eval f = name) := by
    rintro rfl
    exact not_isReference_resolveFunctionOrName hname
  have hinvalid : ¬ (FormulaName.invalid = name) := by
    rintro rfl
    exact FormulaName.not_isReference_invalid hname
  have hempty : parsed.p.tail = [] → parsed₂.result ≠ .validAddress := by
    intro hnil
    rw [← hparsed₂, hnil]
    exact nofun
  rw [resolveAddressExcelA1, hparsed, AcceptedA1, AcceptedFirstA1]
  dsimp only
  rw [hsheet, hparsed₂]
  cases hresult : parsed.result with
  | invalid => simp [hother]
  | validAddress =>
    cases hcheck : checkAddressBySheetBounds cxt parsed.addr with
    | false => simp [hother]
    | true =>
      by_cases hrow : parsed.addr.row = rowUnset
      · simp [hrow, hother]
      · simp [hrow]
  | rangeExpected =>
    cases hcheck : checkAddressBySheetBounds cxt parsed.addr with
    | false => simp [hother]
    | true =>
      by_cases hnil : parsed.p.tail = []
      · simp [hnil, hinvalid, hempty hnil]
      · by_cases hvalid : parsed₂.result = .validAddress
        · simp [hnil, hvalid]
        · simp [hnil, hvalid, hinvalid]

/-- What follows the sheets in R1C1 syntax is a cell on them, or a range. -/
theorem eval_resolveAddressExcelR1C1_eq_reference (hname : name.IsReference) {n : ℕ}
    {sheets : SheetRange} {p : List Char} {parsed parsed₂ : ParsedAddress Pointer}
    (hparsed : (parseAddressExcelR1C1 (.ofList p)
      ⟨pos.sheet, 0, 0, true, true, true⟩).eval f = parsed)
    (hparsed₂ : (parseAddressExcelR1C1 parsed.p.next parsed.addr).eval f = parsed₂) :
    (resolveAddressExcelR1C1 pos n sheets p).eval f = name ↔
      parsed.result = .validAddress ∧ sheets.cell parsed.addr = name ∨
        parsed.result = .rangeExpected ∧ parsed.p.next.isEnd = false ∧
          parsed₂.result = .validAddress ∧ sheets.range parsed.addr parsed₂.addr = name := by
  have hother : ¬ ((resolveFunctionOrName parsed.p n).eval f = name) := by
    rintro rfl
    exact not_isReference_resolveFunctionOrName hname
  have hinvalid : ¬ (FormulaName.invalid = name) := by
    rintro rfl
    exact FormulaName.not_isReference_invalid hname
  rw [resolveAddressExcelR1C1, Query.eval_bind, hparsed]
  cases hresult : parsed.result with
  | invalid => simp [hother]
  | validAddress => simp
  | rangeExpected =>
    simp only [reduceCtorEq, false_and, true_and, false_or, Query.eval_ite, Query.eval_bind,
      Query.eval_pure, hparsed₂]
    by_cases hend : parsed.p.next.isEnd = true
    · simp [hend, hinvalid]
    · by_cases hvalid : parsed₂.result = .validAddress
      · simp [hend, hvalid]
      · simp [hend, hvalid, hinvalid]

end Excel

/-! ## Syntaxes with a dot -/

section Dot

variable {cxt : Option Workbook} {pos : AbsAddress} {f : ℕ → Char} {r : Range}

/-- A range is two corners, of which the last one is on the sheet of the first one if it
has none. -/
theorem eval_resolveDotA1_eq_range {s : List Char}
    {parseAddress : Option Workbook → List Char → Address → Scan (ParsedAddress (List Char))}
    {parsed parsed₂ : ParsedAddress (List Char)} (hs : resolveFunction s = none)
    (hparsed : (parseAddress cxt s ⟨pos.sheet, 0, 0, false, false, false⟩).eval f = parsed)
    (hparsed₂ : (parseAddress cxt parsed.p.tail (toRelativeAddress parsed.addr pos true)).eval f =
      parsed₂) :
    (resolveDotA1 cxt pos parseAddress s).eval f = .rangeReference r ↔
      s ≠ [] ∧ parsed.addr.sheet ≠ invalidSheet ∧ AcceptedFirstA1 cxt parsed ∧
        parsed.p.tail ≠ [] ∧ parsed₂.result = .validAddress ∧
          ⟨toRelativeAddress parsed.addr pos true,
            toRelativeAddress parsed₂.addr pos parsed₂.sheetName⟩ = r := by
  have hother : ∀ n, ¬ ((resolveFunctionOrName (.ofList parsed.p) n).eval f =
      .rangeReference r) :=
    fun n h ↦ not_isReference_resolveFunctionOrName (h ▸ FormulaName.isReference_range r)
  rw [resolveDotA1, hs, AcceptedFirstA1]
  cases s with
  | nil => exact iff_of_false (by rintro ⟨⟩) fun h ↦ h.1 rfl
  | cons c cs =>
    simp only [List.isEmpty_cons, Bool.false_eq_true, if_false, Query.eval_bind, hparsed]
    by_cases hsheet : parsed.addr.sheet = invalidSheet
    · cases hresult : parsed.result with
      | invalid => simp [hother]
      | validAddress => simp [hsheet]
      | rangeExpected => simp [hsheet]
    · cases hresult : parsed.result with
      | invalid => simp [hother]
      | validAddress =>
        cases hcheck : checkAddressBySheetBounds cxt parsed.addr with
        | false => simp [hsheet, hother]
        | true =>
          by_cases hrow : parsed.addr.row = rowUnset
          · simp [hsheet, hrow, hother]
          · simp [hsheet, hrow]
      | rangeExpected =>
        cases hcheck : checkAddressBySheetBounds cxt parsed.addr with
        | false => simp [hsheet, hother]
        | true =>
          by_cases hnil : parsed.p.tail = []
          · simp [hsheet, hnil]
          · by_cases hvalid : parsed₂.result = .validAddress
            · simp [hsheet, hnil, hparsed₂, hvalid]
            · simp [hsheet, hnil, hparsed₂, hvalid]

end Dot

end Ixion
