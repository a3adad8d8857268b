import Ixion.Register
import Ixion.Resolver.CellReference
import Ixion.Resolver.SheetNameR1C1

/-!
# Sheet names survive printing

A cell on a sheet is printed with the name of the sheet, and the result is resolved again.
This leads to the same sheet exactly when the name has no character in it that the scanner
takes for something else, and when the scanner accepts the rest of the reference.
-/

namespace Ixion

open Lib

/-! ## Statement -/

/-- A cell seen from a position, with components that are absolute or relative. -/
def AbsAddress.seenFrom (cell pos : AbsAddress) (absSheet absRow absColumn : Bool) : Address where
  sheet := if absSheet then cell.sheet else cell.sheet - pos.sheet
  row := if absRow then cell.row else cell.row - pos.row
  column := if absColumn then cell.column else cell.column - pos.column
  absSheet := absSheet
  absRow := absRow
  absColumn := absColumn

/-- The name of a cell with its sheet is resolved to a cell on a sheet. -/
def SheetSurvives (type : FormulaNameResolverType) (wb : Workbook) (behind : ℕ → Char)
    (pos : AbsAddress) (addr : Address) (sheet : Int) : Prop :=
  ∃ s, type.getName (some wb) addr pos true = .ok s ∧
    ∃ a, (type.resolve (some wb) pos s).eval behind = .cellReference a ∧
      a.sheetFrom pos = sheet

/-- No character of a sheet name is taken for something else. -/
def SheetNameSurvives (type : FormulaNameResolverType) (name : List Char) (absSheet : Bool) :
    Prop :=
  match type with
  | .excelA1 | .excelR1C1 => ∀ c ∈ name, endsExcelSheet c = false
  | _ => SurvivesDot name absSheet

/-- The rest of the reference is accepted.  In A1 syntax the column is below the upper
bound, and the row is not the one that stands for a whole column; Excel's resolver takes
the upper bounds for the size if there is no sheet at the position.  In R1C1 syntax the
cell is printed with a number. -/
def CellSurvives (type : FormulaNameResolverType) (wb : Workbook) (cell pos : AbsAddress)
    (absRow absColumn : Bool) : Prop :=
  match type with
  | .excelR1C1 => (cell.seenFrom pos true absRow absColumn).ShowsNumber
  | .excelA1 => cell.column < columnUpperBound ∧ cell.row ≠ rowUnset ∧
      (0 ≤ pos.sheet ∧ pos.sheet < wb.sheets.length ∨ cell.row < rowUpperBound)
  | _ => cell.column < columnUpperBound ∧ cell.row ≠ rowUnset

section SeenFrom

variable (cell pos : AbsAddress) (absSheet absRow absColumn : Bool)

@[simp] theorem sheetFrom_seenFrom :
    (cell.seenFrom pos absSheet absRow absColumn).sheetFrom pos = cell.sheet := by
  cases absSheet <;> simp [AbsAddress.seenFrom, Address.sheetFrom]

@[simp] theorem rowFrom_seenFrom :
    (cell.seenFrom pos absSheet absRow absColumn).rowFrom pos = cell.row := by
  cases absRow <;> simp [AbsAddress.seenFrom, Address.rowFrom]

@[simp] theorem columnFrom_seenFrom :
    (cell.seenFrom pos absSheet absRow absColumn).columnFrom pos = cell.column := by
  cases absColumn <;> simp [AbsAddress.seenFrom, Address.columnFrom]

end SeenFrom

/-! ## Scanners in A1 syntax -/

/-- A printed row and column end with a digit. -/
theorem exists_rowColumn_eq {row : Int} (hrow : 0 ≤ row) (column : Int)
    (absRow absColumn : Bool) :
    ∃ t c, appendRowColumnA1 row column absRow absColumn = t ++ [c] ∧ c.isDigit = true := by
  have hne : Nat.toDigits 10 (row + 1).toNat ≠ [] := Nat.toDigits_ne_nil
  refine ⟨dollar absColumn ++ (appendColumnNameA1 column ++
    (dollar absRow ++ (Nat.toDigits 10 (row + 1).toNat).dropLast)), _, ?_,
    isDigit_of_mem_toDigits (List.getLast_mem hne)⟩
  rw [appendRowColumnA1, decimal_of_nonneg (by omega)]
  simp only [List.append_assoc]
  rw [List.dropLast_concat_getLast hne]

/-- The scanner of A1-style addresses leaves the sheet alone. -/
theorem sheet_parseAddressA1Loop (mode : ResolverParseMode) (addr : Address) (p : List Char) :
    (parseAddressA1Loop mode addr p).addr.sheet = addr.sheet ∧
      (parseAddressA1Loop mode addr p).addr.absSheet = addr.absSheet := by
  have hfinish : ∀ {mode addr addr'}, finishAddressA1 mode addr = some addr' →
      addr'.sheet = addr.sheet ∧ addr'.absSheet = addr.absSheet := by
    intro mode addr addr' h
    unfold finishAddressA1 at h
    cases mode <;>
    · dsimp only at h
      split at h
      · exact absurd h nofun
      · cases h
        exact ⟨rfl, rfl⟩
  fun_induction parseAddressA1Loop mode addr p with
  | case1 _ _ _ h => exact hfinish h
  | case5 _ _ _ _ _ _ _ _ ih => exact ih
  | case7 _ _ _ _ _ _ _ ih => exact ih
  | case8 => exact hfinish ‹_›
  | case10 | case11 => assumption
  | case2 | case3 | case4 | case6 | case9 | case12 => exact ⟨rfl, rfl⟩

/-- The characters of an A1-style address. -/
def isCharA1 (c : Char) : Bool := c.toUpper.isUpper || c.isDigit || c = '$'

theorem isCharA1_of_valid {mode : ResolverParseMode} {addr : Address} {p : List Char}
    (h : (parseAddressA1Loop mode addr p).result = .validAddress) :
    ∀ c ∈ p, isCharA1 c = true := by
  fun_induction parseAddressA1Loop mode addr p <;> simp_all [isCharA1]

/-! ## Excel's syntaxes -/

section Printed

variable {wb : Workbook} {cell pos : AbsAddress} {absSheet absRow absColumn : Bool}
  {name : List Char}

theorem appendSheet_eq_ok (hname : wb.getSheetName cell.sheet = .ok name) (sep : Char) :
    appendSheet (some wb) cell.sheet sep = .ok (quoteSheetName name ++ [sep]) := by
  have hvalid : isValidSheet cell.sheet = true := decide_eq_true (getSheetName_eq_ok hname).1
  rw [appendSheet, appendSheetName, hvalid, hname]
  rfl

theorem getNameExcelA1_seenFrom (hname : wb.getSheetName cell.sheet = .ok name) :
    FormulaNameResolverType.excelA1.getName (some wb)
        (cell.seenFrom pos absSheet absRow absColumn) pos true =
      .ok (quoteSheetName name ++
        '!' :: appendRowColumnA1 cell.row cell.column absRow absColumn) := by
  rw [FormulaNameResolverType.getName, getNameExcelA1, appendAddressA1, sheetFrom_seenFrom,
    shownContext, if_pos rfl,
    appendSheet_eq_ok hname, rowFrom_seenFrom, columnFrom_seenFrom]
  exact congrArg Except.ok (List.append_assoc _ _ _)

theorem getNameExcelR1C1_seenFrom (hname : wb.getSheetName cell.sheet = .ok name) :
    FormulaNameResolverType.excelR1C1.getName (some wb)
        (cell.seenFrom pos absSheet absRow absColumn) pos true =
      .ok (quoteSheetName name ++
        '!' :: appendAddressR1C1 (cell.seenFrom pos absSheet absRow absColumn)) := by
  rw [FormulaNameResolverType.getName, getNameExcelR1C1, sheetFrom_seenFrom, shownContext,
    if_pos rfl,
    appendSheet_eq_ok hname]
  exact congrArg Except.ok (List.append_assoc _ _ _)

theorem sheetSurvives_of_getName {type : FormulaNameResolverType} {behind : ℕ → Char}
    {addr : Address} {s : List Char} (hs : type.getName (some wb) addr pos true = .ok s) :
    SheetSurvives type wb behind pos addr cell.sheet ↔
      ∃ a, (type.resolve (some wb) pos s).eval behind = .cellReference a ∧
        a.sheetFrom pos = cell.sheet := by
  constructor
  · rintro ⟨s', hs', h⟩
    cases hs.symm.trans hs'
    exact h
  · intro h
    exact ⟨s, hs, h⟩

/-- What follows the sheets in a printed name that survives. -/
theorem resolveSheets_quoteSheetName (hwb : wb.WellNamed)
    (hname : wb.getSheetName cell.sheet = .ok name)
    (hsurvives : ∀ c ∈ name, endsExcelSheet c = false) (t : List Char) :
    resolveSheets (some wb) (quoteSheetName name ++ '!' :: t) =
      (⟨true, invalidSheet, cell.sheet⟩, t) := by
  rw [resolveSheets, parseExcelSheetName_quoteSheetName wb (ne_nil_of_getSheetName hwb hname)
    hsurvives, getSheetIndex_of_getSheetName hwb hname]
  rfl

/-- A name of a sheet that is found has survived. -/
theorem survives_of_sheet2 (hname : wb.getSheetName cell.sheet = .ok name) {s : List Char}
    (h : (resolveSheets (some wb) s).1.sheet2 = cell.sheet) :
    ∀ c ∈ name, endsExcelSheet c = false := by
  have hne : (parseExcelSheetName wb s).1.sheet2 ≠ invalidSheet := by
    intro hinvalid
    have hnonneg := (getSheetName_eq_ok hname).1
    rw [← h, show (resolveSheets (some wb) s).1.sheet2 = _ from hinvalid] at hnonneg
    exact absurd hnonneg (by decide)
  obtain ⟨x, hx, hsheet⟩ := sheet2_parseExcelSheetName wb hne
  have hxname : x = name := eq_of_getSheetIndex hname (hsheet.symm.trans h)
  rw [← hxname]
  exact hx

/-- If a printed name is a cell on the sheet, the name of the sheet has survived. -/
theorem survives_of_cell (hname : wb.getSheetName cell.sheet = .ok name) {s : List Char}
    {addr a : Address} (hpresent : (resolveSheets (some wb) s).1.present = true)
    (ha : (resolveSheets (some wb) s).1.cell addr = .cellReference a)
    (habs : addr.absSheet = true) (hfrom : a.sheetFrom pos = cell.sheet) :
    ∀ c ∈ name, endsExcelSheet c = false := by
  apply survives_of_sheet2 hname (s := s)
  rw [SheetRange.cell_eq_cell hpresent ha, Address.sheetFrom, if_pos habs] at hfrom
  exact hfrom

theorem inWorkbook_bounds (hcell : wb.inWorkbook cell = true) :
    (0 ≤ cell.sheet ∧ cell.sheet < wb.sheets.length) ∧
      (0 ≤ cell.column ∧ cell.column < wb.sheetSize.column) ∧
        0 ≤ cell.row ∧ cell.row < wb.sheetSize.row := by
  simp only [Workbook.inWorkbook, decide_eq_true_eq] at hcell
  tauto

/-- The row and column of a cell are accepted if they are within the bounds. -/
theorem acceptedA1_rowColumn (hcell : wb.inWorkbook cell = true) (absRow absColumn : Bool)
    (addr : Address) (hclear : addr.cleared = addr) :
    AcceptedA1 (some wb)
        (parseAddressA1 (appendRowColumnA1 cell.row cell.column absRow absColumn) addr) ↔
      cell.column < columnUpperBound ∧ cell.row ≠ rowUnset ∧
        (0 ≤ addr.sheet ∧ addr.sheet < wb.sheets.length ∨ cell.row < rowUpperBound) := by
  obtain ⟨-, ⟨hcolumn, hcolumn'⟩, hrow, hrow'⟩ := inWorkbook_bounds hcell
  by_cases hbound : cell.column < columnUpperBound
  · rw [parseAddressA1_rowColumn hcolumn _ _ hclear hrow hbound, AcceptedA1]
    simp only [checkAddressBySheetBounds, decide_eq_true_eq, true_and, hbound,
      abs_of_nonneg hrow, abs_of_nonneg hcolumn]
    by_cases hsheet : 0 ≤ addr.sheet ∧ addr.sheet < wb.sheets.length
    · simp only [hsheet, and_self, if_true, hrow', hcolumn', or_true, true_and, true_or, and_true]
    · simp only [hsheet, false_or]
      tauto
  · have hinvalid := @parseAddressA1_rowColumn_of_le cell.row _ hcolumn absRow absColumn _
      hclear (not_lt.mp hbound)
    refine iff_of_false (fun h ↦ ?_) fun h ↦ hbound h.1
    exact absurd (hinvalid.symm.trans h.1) (by rintro ⟨⟩)

theorem sheetSurvives_excelA1 (hwb : wb.WellNamed) (hcell : wb.inWorkbook cell = true)
    (hname : wb.getSheetName cell.sheet = .ok name) (behind : ℕ → Char) :
    SheetSurvives .excelA1 wb behind pos (cell.seenFrom pos absSheet absRow absColumn)
        cell.sheet ↔
      SheetNameSurvives .excelA1 name absSheet ∧
        CellSurvives .excelA1 wb cell pos absRow absColumn := by
  obtain ⟨⟨hsheet, -⟩, -, hrow, -⟩ := inWorkbook_bounds hcell
  set t := appendRowColumnA1 cell.row cell.column absRow absColumn with ht
  have hmem : '!' ∈ quoteSheetName name ++ '!' :: t := by simp
  have hfunction := resolveFunction_eq_none hmem rfl
  have htable : resolveTable (some wb) (quoteSheetName name ++ '!' :: t) = none := by
    obtain ⟨t', c, heq, hc⟩ := exists_rowColumn_eq hrow cell.column absRow absColumn
    rw [ht, heq, ← List.cons_append, ← List.append_assoc]
    exact resolveTable_eq_none _ _ hc
  have haccepted := acceptedA1_rowColumn hcell absRow absColumn
    ⟨pos.sheet, 0, 0, true, false, false⟩ rfl
  rw [sheetSurvives_of_getName (getNameExcelA1_seenFrom hname), ← ht]
  constructor
  · rintro ⟨a, ha, hfrom⟩
    obtain ⟨-, -, hvalid, hsheets⟩ :=
      (eval_resolveExcelA1_eq_cell hfunction htable (Prod.eta _).symm rfl).mp ha
    have habs := sheet_parseAddressA1Loop .column ⟨pos.sheet, 0, 0, true, false, false⟩
      (resolveSheets (some wb) (quoteSheetName name ++ '!' :: t)).2
    rcases resolveSheets_cases (some wb) (List.ne_nil_of_mem hmem) with h | h
    · have hsurvives := survives_of_cell hname h.1 hsheets habs.2 hfrom
      rw [resolveSheets_quoteSheetName hwb hname hsurvives] at hvalid
      exact ⟨hsurvives, haccepted.mp hvalid⟩
    · -- without the sheet, the separator is no part of an address
      have hchars := isCharA1_of_valid hvalid.1
      rw [h.2] at hchars
      exact absurd (hchars '!' hmem) (by decide)
  · rintro ⟨hsurvives, hcell'⟩
    refine ⟨_, (eval_resolveExcelA1_eq_cell hfunction htable
      (resolveSheets_quoteSheetName hwb hname hsurvives t) rfl).mpr
        ⟨List.ne_nil_of_mem hmem, ?_, haccepted.mpr hcell', rfl⟩, ?_⟩
    · rintro ⟨-, hinvalid⟩
      rw [show cell.sheet = invalidSheet from hinvalid] at hsheet
      exact absurd hsheet (by decide)
    · have habs := sheet_parseAddressA1Loop .column ⟨pos.sheet, 0, 0, true, false, false⟩ t
      exact if_pos habs.2

theorem sheetSurvives_excelR1C1 (hwb : wb.WellNamed) (hcell : wb.inWorkbook cell = true)
    (hname : wb.getSheetName cell.sheet = .ok name) (behind : ℕ → Char) :
    SheetSurvives .excelR1C1 wb behind pos (cell.seenFrom pos absSheet absRow absColumn)
        cell.sheet ↔
      SheetNameSurvives .excelR1C1 name absSheet ∧
        CellSurvives .excelR1C1 wb cell pos absRow absColumn := by
  obtain ⟨⟨hsheet, -⟩, ⟨hcolumn, -⟩, hrow, -⟩ := inWorkbook_bounds hcell
  set addr := cell.seenFrom pos absSheet absRow absColumn with haddr
  set start : Address := ⟨pos.sheet, 0, 0, true, false, false⟩
  have hmem : '!' ∈ quoteSheetName name ++ '!' :: appendAddressR1C1 addr := by simp
  have hfunction := resolveFunction_eq_none hmem rfl
  have hresult : ((parseAddressR1C1 (.ofList (appendAddressR1C1 addr)) start).eval behind).result =
      .validAddress ↔ CellSurvives .excelR1C1 wb cell pos absRow absColumn := by
    refine result_parseAddressR1C1 (fun habs ↦ ?_) (fun habs ↦ ?_) start
    · have h := rowFrom_seenFrom cell pos absSheet absRow absColumn
      rw [Address.rowFrom, if_pos habs] at h
      rwa [h]
    · have h := columnFrom_seenFrom cell pos absSheet absRow absColumn
      rw [Address.columnFrom, if_pos habs] at h
      rwa [h]
  rw [sheetSurvives_of_getName (getNameExcelR1C1_seenFrom hname), ← haddr]
  constructor
  · rintro ⟨a, ha, hfrom⟩
    rw [FormulaNameResolverType.resolve] at ha
    obtain ⟨-, -, hvalid, hsheets⟩ :=
      (eval_resolveExcelR1C1_eq_cell hfunction (Prod.eta _).symm rfl).mp ha
    have habs := (keeps_parseAddressR1C1 (f := behind)
      (.ofList (resolveSheets (some wb) (quoteSheetName name ++ '!' :: appendAddressR1C1 addr)).2)
      start).absSheet
    rcases resolveSheets_cases (some wb) (List.ne_nil_of_mem hmem) with h | h
    · have hsurvives := survives_of_cell hname h.1 hsheets habs hfrom
      rw [resolveSheets_quoteSheetName hwb hname hsurvives] at hvalid
      exact ⟨hsurvives, hresult.mp hvalid⟩
    · rw [h.2] at hvalid
      have hpresent : (parseExcelSheetName wb
          (quoteSheetName name ++ '!' :: appendAddressR1C1 addr)).1.present = false := h.1
      exact absurd hvalid (parseAddressR1C1_of_not_present hmem hpresent start)
  · rintro ⟨hsurvives, hcell'⟩
    refine ⟨_, (eval_resolveExcelR1C1_eq_cell hfunction
      (resolveSheets_quoteSheetName hwb hname hsurvives _) rfl).mpr
        ⟨List.ne_nil_of_mem hmem, ?_, hresult.mpr hcell', rfl⟩, ?_⟩
    · rintro ⟨-, hinvalid⟩
      rw [show cell.sheet = invalidSheet from hinvalid] at hsheet
      exact absurd hsheet (by decide)
    · have habs := (keeps_parseAddressR1C1 (f := behind)
        (.ofList (appendAddressR1C1 addr)) start).absSheet
      exact if_pos habs

/-! ## Syntaxes with a dot -/

theorem sheetFrom_toRelativeAddress (addr : Address) (pos : AbsAddress) :
    (toRelativeAddress addr pos true).sheetFrom pos = addr.sheet := by
  cases habs : addr.absSheet <;> simp [toRelativeAddress, Address.sheetFrom, habs]

/-- The name of a cell in a syntax with a dot. -/
theorem getNameDotA1_seenFrom (hname : wb.getSheetName cell.sheet = .ok name) :
    getNameDotA1 (some wb) pos true appendAddressA1
        (cell.seenFrom pos absSheet absRow absColumn) =
      .ok (dollar absSheet ++ (quoteSheetName name ++
        '.' :: appendRowColumnA1 cell.row cell.column absRow absColumn)) := by
  rw [getNameDotA1, appendAddressA1, sheetFrom_seenFrom, shownContext, if_pos rfl,
    appendSheet_eq_ok hname, rowFrom_seenFrom, columnFrom_seenFrom]
  exact congrArg (fun t ↦ Except.ok (dollar absSheet ++ t)) (List.append_assoc _ _ _)

/-- What is printed is a cell on the sheet if the scanner finds the sheet's name, and the
rest of it is accepted. -/
theorem eval_resolveDotA1_iff (hwb : wb.WellNamed) (hcell : wb.inWorkbook cell = true)
    (hname : wb.getSheetName cell.sheet = .ok name) {behind : ℕ → Char}
    {parseAddress : Option Workbook → List Char → Address → Scan (ParsedAddress (List Char))}
    {t s x rest : List Char}
    (ht : t = appendRowColumnA1 cell.row cell.column absRow absColumn) (hs : '.' ∈ s)
    (hparse : (parseAddress (some wb) s ⟨pos.sheet, 0, 0, false, false, false⟩).eval behind =
      parseAddressAfterSheet s ⟨pos.sheet, 0, 0, false, false, false⟩
        (some (wb.getSheetIndex x, rest)))
    (hx : SurvivesDot name absSheet → x = name ∧ rest = '.' :: t)
    (hx' : x = name → SurvivesDot name absSheet) :
    (∃ a, (resolveDotA1 (some wb) pos parseAddress s).eval behind = .cellReference a ∧
        a.sheetFrom pos = cell.sheet) ↔
      SurvivesDot name absSheet ∧ cell.column < columnUpperBound ∧ cell.row ≠ rowUnset := by
  obtain ⟨hsheet, -⟩ := inWorkbook_bounds hcell
  set start : Address :=
    ⟨wb.getSheetIndex x, 0, 0, decide (s.head? = some '$'), false, false⟩ with hstart
  have hkeeps := sheet_parseAddressA1Loop .column start rest.tail
  have haccepted := acceptedA1_rowColumn hcell absRow absColumn start rfl
  constructor
  · rintro ⟨a, ha, hfrom⟩
    obtain ⟨-, -, hvalid, rfl⟩ :=
      (eval_resolveDotA1_eq_cell (resolveFunction_eq_none hs rfl) hparse).mp ha
    rw [sheetFrom_toRelativeAddress] at hfrom
    have hsurvives := hx' (eq_of_getSheetIndex hname (hkeeps.1.symm.trans hfrom))
    obtain ⟨-, rfl⟩ := hx hsurvives
    have hbounds := haccepted.mp (ht ▸ hvalid)
    exact ⟨hsurvives, hbounds.1, hbounds.2.1⟩
  · rintro ⟨hsurvives, hcolumn, hrow⟩
    obtain ⟨rfl, rfl⟩ := hx hsurvives
    have hindex : wb.getSheetIndex x = cell.sheet := getSheetIndex_of_getSheetName hwb hname
    have hparsed : (parseAddressAfterSheet s ⟨pos.sheet, 0, 0, false, false, false⟩
        (some (wb.getSheetIndex x, '.' :: t))).addr.sheet = cell.sheet := hkeeps.1.trans hindex
    refine ⟨_, (eval_resolveDotA1_eq_cell (resolveFunction_eq_none hs rfl) hparse).mpr
      ⟨List.ne_nil_of_mem hs, ?_, ?_, rfl⟩, ?_⟩
    · rw [hparsed]
      rintro hinvalid
      rw [hinvalid] at hsheet
      exact absurd hsheet.1 (by decide)
    · exact ht ▸ haccepted.mpr ⟨hcolumn, hrow, .inl (by rw [hstart]; exact hindex ▸ hsheet)⟩
    · rw [sheetFrom_toRelativeAddress, hparsed]

theorem sheetSurvives_calcA1 (hwb : wb.WellNamed) (hcell : wb.inWorkbook cell = true)
    (hname : wb.getSheetName cell.sheet = .ok name) (behind : ℕ → Char) :
    SheetSurvives .calcA1 wb behind pos (cell.seenFrom pos absSheet absRow absColumn)
        cell.sheet ↔
      SheetNameSurvives .calcA1 name absSheet ∧
        CellSurvives .calcA1 wb cell pos absRow absColumn := by
  obtain ⟨x, rest, hparse, hx, hx'⟩ := parseSheetName_quoteSheetName wb
    (ne_nil_of_getSheetName hwb hname) absSheet
    (appendRowColumnA1 cell.row cell.column absRow absColumn)
  have hget : FormulaNameResolverType.calcA1.getName (some wb)
      (cell.seenFrom pos absSheet absRow absColumn) pos true = _ := getNameDotA1_seenFrom hname
  rw [sheetSurvives_of_getName hget]
  refine eval_resolveDotA1_iff hwb hcell hname rfl (by simp) ?_ hx hx'
  rw [parseAddressCalcA1, parseSheetNameOf, hparse]
  rfl

theorem sheetSurvives_odfCra (hwb : wb.WellNamed) (hcell : wb.inWorkbook cell = true)
    (hname : wb.getSheetName cell.sheet = .ok name) (behind : ℕ → Char) :
    SheetSurvives .odfCra wb behind pos (cell.seenFrom pos absSheet absRow absColumn)
        cell.sheet ↔
      SheetNameSurvives .odfCra name absSheet ∧
        CellSurvives .odfCra wb cell pos absRow absColumn := by
  have hget : FormulaNameResolverType.odfCra.getName (some wb)
      (cell.seenFrom pos absSheet absRow absColumn) pos true =
        .ok (dollar absSheet ++ (quoteSheetName name ++
          '.' :: appendRowColumnA1 cell.row cell.column absRow absColumn)) := by
    rw [FormulaNameResolverType.getName,
      ← @getNameDotA1_seenFrom wb cell pos absSheet absRow absColumn name hname, getNameDotA1,
      getNameDotA1, appendAddressA1WithSheetNameSep]
    simp only [shownContext, if_true, Option.isNone_some, Bool.false_eq_true, if_false, bind_pure]
  rw [sheetSurvives_of_getName hget]
  set t := appendRowColumnA1 cell.row cell.column absRow absColumn with ht
  by_cases hdot : (dollar absSheet ++ (quoteSheetName name ++ '.' :: t)).head? = some '.'
  · -- the name begins with a dot, which is taken for the absence of a sheet name
    obtain ⟨c, cs, rfl⟩ := List.exists_cons_of_ne_nil (ne_nil_of_getSheetName hwb hname)
    have habs : absSheet = false := by
      cases absSheet with
      | true => exact absurd hdot (by rintro ⟨⟩)
      | false => rfl
    subst habs
    have hquote : (c :: cs).any needsQuote = false := by
      rw [quoteSheetName] at hdot
      cases h : (c :: cs).any needsQuote with
      | true =>
        rw [h] at hdot
        exact absurd hdot (by rintro ⟨⟩)
      | false => rfl
    have hs : dollar false ++ (quoteSheetName (c :: cs) ++ '.' :: t) = c :: (cs ++ '.' :: t) := by
      rw [quoteSheetName, hquote]
      rfl
    rw [hs] at hdot ⊢
    obtain rfl : c = '.' := Option.some_inj.mp hdot
    refine iff_of_false ?_ ?_
    · rintro ⟨a, ha, -⟩
      rw [FormulaNameResolverType.resolve] at ha
      obtain ⟨-, -, hvalid, -⟩ := (eval_resolveDotA1_eq_cell
        (resolveFunction_eq_none List.mem_cons_self rfl) rfl).mp ha
      have hchars := @isCharA1_of_valid .column _ (cs ++ '.' :: t) hvalid.1
      exact absurd (hchars '.' (by simp)) (by decide)
    · rintro ⟨hquote' | ⟨hmem, -⟩, -⟩
      · exact absurd (hquote.symm.trans hquote') (by rintro ⟨⟩)
      · exact hmem List.mem_cons_self
  · obtain ⟨x, rest, hparse, hx, hx'⟩ := parseSheetName_quoteSheetName wb
      (ne_nil_of_getSheetName hwb hname) absSheet t
    refine eval_resolveDotA1_iff hwb hcell hname ht (by simp) ?_ hx hx'
    obtain ⟨c, cs, hcons⟩ :
        ∃ c cs, dollar absSheet ++ (quoteSheetName name ++ '.' :: t) = c :: cs :=
      List.exists_cons_of_ne_nil (by simp)
    rw [hcons] at hdot hparse ⊢
    rw [parseAddressOdfCra, deref_cons, pure_bind, if_neg fun h ↦ hdot (congrArg some h),
      parseAddressCalcA1, parseSheetNameOf, hparse]
    rfl

end Printed

/-! ## Result -/

section Result

variable {type : FormulaNameResolverType} {wb : Workbook} {cell pos : AbsAddress}
  {name : List Char}

/-- A printed cell is resolved to a cell on the same sheet exactly when no character of the
sheet's name is taken for something else and the rest of the reference is accepted. -/
theorem sheetSurvives_iff (htype : type ≠ .odff) (hwb : wb.WellNamed)
    (hcell : wb.inWorkbook cell = true) (hname : wb.getSheetName cell.sheet = .ok name)
    (absSheet absRow absColumn : Bool) (behind : ℕ → Char) :
    SheetSurvives type wb behind pos (cell.seenFrom pos absSheet absRow absColumn)
        cell.sheet ↔
      SheetNameSurvives type name absSheet ∧
        CellSurvives type wb cell pos absRow absColumn := by
  cases type with
  | excelA1 => exact sheetSurvives_excelA1 hwb hcell hname behind
  | excelR1C1 => exact sheetSurvives_excelR1C1 hwb hcell hname behind
  | calcA1 => exact sheetSurvives_calcA1 hwb hcell hname behind
  | odff => exact absurd rfl htype
  | odfCra => exact sheetSurvives_odfCra hwb hcell hname behind

end Result

/-- A workbook with one sheet. -/
def oneSheet (name : String) : Workbook :=
  { (ModelContext.new ⟨1048576, 16384⟩ :
      ModelContext ModelContext.Ranges (ListTree ModelContext.Ranges)).toWorkbook with
    sheets := [⟨name, []⟩] }

theorem wellNamed_oneSheet {name : String} (h : name ≠ "") : (oneSheet name).WellNamed where
  ne_empty ws hws := by
    rw [List.mem_singleton.mp hws]
    exact h
  nodup := List.nodup_singleton name

/-- A quoted name, with a reference that is relative in its row only. -/
theorem sheetSurvives_iff_oneSheet :
    FormulaNameResolverType.odfCra ≠ .odff ∧ (oneSheet "No. 1").WellNamed ∧
      (oneSheet "No. 1").inWorkbook ⟨0, 4, 2⟩ = true ∧
      (oneSheet "No. 1").getSheetName 0 = .ok "No. 1".toList ∧
      (SheetSurvives .odfCra (oneSheet "No. 1") (fun _ ↦ ' ') ⟨0, 1, 1⟩
          ((⟨0, 4, 2⟩ : AbsAddress).seenFrom ⟨0, 1, 1⟩ true false true) 0 ↔
        SheetNameSurvives .odfCra "No. 1".toList true ∧
          CellSurvives .odfCra (oneSheet "No. 1") ⟨0, 4, 2⟩ ⟨0, 1, 1⟩ false true) :=
  ⟨by decide, wellNamed_oneSheet (by decide), rfl, rfl,
    sheetSurvives_iff (by decide) (wellNamed_oneSheet (by decide)) rfl rfl true false true _⟩

/-- The name of the sheet `a.b` is not quoted, and the scanner stops at its dot. -/
theorem not_sheetSurvives_dot :
    ¬ ∀ (type : FormulaNameResolverType) (wb : Workbook) (cell pos : AbsAddress)
      (absSheet absRow absColumn : Bool) (behind : ℕ → Char), type ≠ .odff → wb.WellNamed →
        wb.inWorkbook cell = true →
          SheetSurvives type wb behind pos (cell.seenFrom pos absSheet absRow absColumn)
            cell.sheet := by
  intro h
  have hwb : (oneSheet "a.b").WellNamed := wellNamed_oneSheet (by decide)
  have hsurvives := (sheetSurvives_calcA1 hwb rfl rfl _).mp
    (h .calcA1 (oneSheet "a.b") ⟨0, 0, 0⟩ ⟨0, 0, 0⟩ true true true (fun _ ↦ ' ') (by decide)
      hwb rfl)
  rcases hsurvives.1 with hquote | ⟨hdot, -⟩
  · exact absurd hquote (by decide)
  · exact hdot (by decide)

end Ixion
