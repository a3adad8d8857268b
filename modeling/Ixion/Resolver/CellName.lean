import Ixion.Resolver.Survives

/-!
# Names of cells in Excel's A1 syntax

A printed cell is resolved to that cell again unless its name is that of a function,
which is looked for first.  Columns from the upper bound on are not scanned, and rows above
theirs are not made relative.

The names of functions that are also cells are found by scanning all names of functions:
since a printed cell is scanned as that cell, no other cell has such a name.
-/

namespace Ixion

open Lib

/-! ## Printed characters -/

/-- The characters that rows and columns in A1 syntax are printed with. -/
def isPrintedA1 (c : Char) : Bool := c.isUpper || c.isDigit || c = '$'

theorem isPrintedA1_of_mem_dollar {absolute : Bool} {c : Char} (h : c ∈ dollar absolute) :
    isPrintedA1 c = true := by
  cases absolute with
  | false => exact absurd h List.not_mem_nil
  | true =>
    rw [List.mem_singleton.mp h]
    rfl

theorem isPrintedA1_of_mem_columnName (fuel : ℕ) {col : Int} (hcol : 0 ≤ col) {c : Char}
    (h : c ∈ columnName fuel col) : isPrintedA1 c = true := by
  induction fuel generalizing col with
  | zero => exact absurd h List.not_mem_nil
  | succ fuel ih =>
    obtain ⟨r, hr, heq, -⟩ := columnName_succ fuel hcol
    rw [heq, List.mem_append, List.mem_singleton] at h
    rcases h with h | rfl
    · split at h
      · exact absurd h List.not_mem_nil
      · exact ih (by omega) h
    · rw [isPrintedA1, (letter_spec r hr).2.1]
      rfl

theorem isPrintedA1_of_mem_decimal {n : Int} (hn : 0 ≤ n) {c : Char} (h : c ∈ decimal n) :
    isPrintedA1 c = true := by
  rw [decimal_of_nonneg hn] at h
  rw [isPrintedA1, isDigit_of_mem_toDigits h, Bool.or_true]
  rfl

theorem isPrintedA1_of_mem_rowColumn {row column : Int} (hrow : 0 ≤ row) (hcolumn : 0 ≤ column)
    {absRow absColumn : Bool} {c : Char}
    (h : c ∈ appendRowColumnA1 row column absRow absColumn) : isPrintedA1 c = true := by
  simp only [appendRowColumnA1, List.mem_append] at h
  rcases h with h | h | h | h
  · exact isPrintedA1_of_mem_dollar h
  · exact isPrintedA1_of_mem_columnName _ hcolumn h
  · exact isPrintedA1_of_mem_dollar h
  · exact isPrintedA1_of_mem_decimal (by omega) h

theorem not_mem_of_isPrintedA1 {s : List Char} (hs : ∀ c ∈ s, isPrintedA1 c = true) {d : Char}
    (hd : isPrintedA1 d = false) : d ∉ s :=
  fun h ↦ absurd ((hs d h).symm.trans hd) nofun

/-- What is printed is in upper case. -/
theorem toUpper_of_isPrintedA1 {c : Char} (h : isPrintedA1 c = true) :
    FormulaFunctions.toUpper c = c := by
  rw [FormulaFunctions.toUpper, if_neg]
  rintro ⟨hlt, -⟩
  have hnat : 90 < c.toNat := hlt
  simp only [isPrintedA1, Bool.or_eq_true, decide_eq_true_eq] at h
  rcases h with (h | h) | rfl
  · obtain ⟨-, hle⟩ := toNat_of_isUpper h
    omega
  · obtain ⟨-, hle⟩ := toNat_of_isDigit h
    omega
  · exact absurd hnat (by decide)

/-! ## What is found before the address -/

/-- Without a `'!'` there are no sheets. -/
theorem resolveSheets_eq_none (cxt : Option Workbook) {s : List Char} (hs : '!' ∉ s) :
    resolveSheets cxt s = (.none false, s) := by
  cases cxt with
  | none => rfl
  | some wb =>
    have hparse : parseExcelSheetName wb s = (.none false, s) := by
      have hquoted : ∀ {sheet1 wasQuote name p}, '!' ∉ p →
          parseExcelSheetNameQuotedLoop wb sheet1 wasQuote name p = none := by
        intro sheet1 wasQuote name p hp
        fun_induction parseExcelSheetNameQuotedLoop wb sheet1 wasQuote name p <;> simp_all
      have hloop : ∀ {sheet1 name p}, '!' ∉ p →
          parseExcelSheetNameLoop wb sheet1 name p = .error false := by
        intro sheet1 name p hp
        fun_induction parseExcelSheetNameLoop wb sheet1 name p with
        | case1 => rfl
        | case2 => exact absurd List.mem_cons_self hp
        | case3 => rfl
        | case4 _ _ _ _ _ ih => exact ih fun h ↦ hp (List.mem_cons_of_mem _ h)
        | case5 _ _ c cs _ _ _ =>
          have hcs : cs.contains '!' = false := by
            rw [Bool.eq_false_iff, ne_eq, List.contains_iff_mem]
            exact fun h ↦ hp (List.mem_cons_of_mem c h)
          rw [hcs]
          rfl
        | case6 _ _ _ _ _ _ _ ih => exact ih fun h ↦ hp (List.mem_cons_of_mem _ h)
      rw [parseExcelSheetName]
      split
      · rw [hquoted fun h ↦ hs (List.mem_of_mem_tail h)]
      · rw [hloop hs]
    rw [resolveSheets, hparse]
    rfl

/-- Without a bracket there is no table. -/
theorem resolveTable_eq_none_of_not_mem (cxt : Option Workbook) {s : List Char} (hs : '[' ∉ s) :
    resolveTable cxt s = none := by
  have hpush : ∀ {st st' : TableName.State}, s.foldlM TableName.State.push st = some st' →
      st.tableDetected = false → st'.tableDetected = false := by
    intro st st' h hst
    induction s generalizing st with
    | nil =>
      cases h
      exact hst
    | cons c cs ih =>
      have hc : c ≠ '[' := fun h ↦ hs (h ▸ List.mem_cons_self)
      rw [List.foldlM_cons, Option.bind_eq_bind, Option.bind_eq_some_iff] at h
      obtain ⟨st₁, h₁, h⟩ := h
      refine ih (fun h ↦ hs (List.mem_cons_of_mem c h)) h ?_
      rw [TableName.State.push, if_neg hc] at h₁
      split at h₁
      · split at h₁
        · exact absurd h₁ (by rintro ⟨⟩)
        · split at h₁ <;> cases h₁ <;> exact hst
      · split at h₁
        · split at h₁
          · cases h₁
            exact hst
          · exact absurd h₁ (by rintro ⟨⟩)
        · split at h₁
          · split at h₁
            · exact absurd h₁ (by rintro ⟨⟩)
            · cases h₁
              exact hst
          · cases h₁
            exact hst
  cases cxt with
  | none => rfl
  | some wb =>
    rw [resolveTable]
    cases hfold : s.foldlM TableName.State.push ⟨0, none, [], [], [], false⟩ with
    | none => rfl
    | some st =>
      simp [hpush hfold rfl]

/-! ## Names of functions -/

/-- What is the name of a function in upper case is in the table. -/
theorem exists_entry_of_resolveFunction {s : List Char} (h : resolveFunction s ≠ none) :
    ∃ e ∈ BuiltinFuncs.entries, e.1.toList = s.map FormulaFunctions.toUpper := by
  by_contra hnone
  apply h
  rw [resolveFunction, FormulaFunctions.getFunctionOpcode, List.lookup_eq_none_iff.mpr]
  · rfl
  · intro e he
    rw [bne_iff_ne]
    intro heq
    exact hnone ⟨e, he, by rw [← heq, String.toList_ofList]⟩

/-- The cells whose names in A1 syntax are those of functions, by row and column: `LOG10`,
`ATAN2` and `DAYS360`. -/
def functionCells : List (Int × Int) := [(9, 8508), (1, 31135), (359, 71648)]

/-- The address that the scanner starts from in order to look for cells among the names of
functions. -/
def functionStart : Address := ⟨0, 0, 0, true, false, false⟩

theorem all_entries_functionCells :
    BuiltinFuncs.entries.all (fun e ↦
      decide ((parseAddressA1 e.1.toList functionStart).result = .validAddress →
        (parseAddressA1 e.1.toList functionStart).addr.row = rowUnset ∨
          ((parseAddressA1 e.1.toList functionStart).addr.row,
            (parseAddressA1 e.1.toList functionStart).addr.column) ∈ functionCells)) = true := by
  decide +kernel

theorem all_functionCells :
    functionCells.all (fun cell ↦
      (resolveFunction (appendRowColumnA1 cell.1 cell.2 false false)).isSome) = true := by
  decide +kernel

/-- A printed cell has the name of a function exactly if it is one of those that do, and
no part of it is absolute. -/
theorem resolveFunction_rowColumn {row column : Int} (hrow : 0 ≤ row) (hcolumn : 0 ≤ column)
    (hbound : column < columnUpperBound) (hunset : row ≠ rowUnset) (absRow absColumn : Bool) :
    resolveFunction (appendRowColumnA1 row column absRow absColumn) = none ↔
      ¬ (absRow = false ∧ absColumn = false ∧ (row, column) ∈ functionCells) := by
  constructor
  · rintro hnone ⟨rfl, rfl, hmem⟩
    have h := List.all_eq_true.mp all_functionCells _ hmem
    rw [hnone] at h
    exact absurd h nofun
  · intro hcells
    by_contra hsome
    obtain ⟨e, he, heq⟩ := exists_entry_of_resolveFunction hsome
    have hmap : (appendRowColumnA1 row column absRow absColumn).map FormulaFunctions.toUpper =
        appendRowColumnA1 row column absRow absColumn := by
      conv_rhs => rw [← List.map_id (appendRowColumnA1 row column absRow absColumn)]
      apply List.map_congr_left
      intro c hc
      exact toUpper_of_isPrintedA1 (isPrintedA1_of_mem_rowColumn hrow hcolumn hc)
    rw [hmap] at heq
    have hentry := List.all_eq_true.mp all_entries_functionCells e he
    have hparsed := @parseAddressA1_rowColumn row column hcolumn absRow absColumn functionStart rfl
      hrow hbound
    rw [decide_eq_true_eq, heq, hparsed] at hentry
    have hplain : ∀ c ∈ appendRowColumnA1 row column absRow absColumn,
        BuiltinFuncs.isNameChar c = true := by
      rw [← heq]
      exact BuiltinFuncs.isNameChar_of_mem_entries e he
    have hdollar : ∀ {absolute : Bool},
        (∀ c ∈ dollar absolute, BuiltinFuncs.isNameChar c = true) → absolute = false := by
      intro absolute h
      cases absolute with
      | false => rfl
      | true => exact absurd (h '$' List.mem_cons_self) (by decide)
    refine hcells ⟨hdollar fun c hc ↦ hplain c ?_, hdollar fun c hc ↦ hplain c ?_,
      (hentry rfl).resolve_left hunset⟩
    · simp [appendRowColumnA1, hc]
    · simp [appendRowColumnA1, hc]

/-! ## Statement -/

/-- The cell that an address denotes seen from an origin. -/
def Address.cellFrom (addr : Address) (pos : AbsAddress) : AbsAddress :=
  ⟨addr.sheetFrom pos, addr.rowFrom pos, addr.columnFrom pos⟩

/-- The name of a cell is resolved to that cell again. -/
def CellReturns (type : FormulaNameResolverType) (wb : Workbook) (behind : ℕ → Char)
    (pos : AbsAddress) (addr : Address) (sheetName : Bool) : Prop :=
  ∃ s, type.getName (some wb) addr pos sheetName = .ok s ∧
    (type.resolve (some wb) pos s).eval behind = .cellReference addr

/-- Two addresses are the same, up to the flags of what is unset. -/
structure Address.Agrees (a b : Address) : Prop where
  sheet : a.sheet = b.sheet
  row : a.row = b.row
  column : a.column = b.column
  absSheet : a.absSheet = b.absSheet
  absRow : b.row ≠ rowUnset → a.absRow = b.absRow
  absColumn : b.column ≠ columnUnset → a.absColumn = b.absColumn

/-- The name of a cell is resolved to an address, up to the flags of what is unset. -/
def CellReturnsAs (type : FormulaNameResolverType) (wb : Workbook) (behind : ℕ → Char)
    (pos : AbsAddress) (addr : Address) (sheetName : Bool) (addr' : Address) : Prop :=
  ∃ s, type.getName (some wb) addr pos sheetName = .ok s ∧
    ∃ a, (type.resolve (some wb) pos s).eval behind = .cellReference a ∧ a.Agrees addr'

/-- The name of a range is resolved to that range again, up to the flags of what is
unset. -/
def RangeReturns (type : FormulaNameResolverType) (wb : Workbook) (behind : ℕ → Char)
    (pos : AbsAddress) (range : Range) (sheetName : Bool) : Prop :=
  ∃ s, type.getRangeName (some wb) range pos sheetName = .ok s ∧
    ∃ r, (type.resolve (some wb) pos s).eval behind = .rangeReference r ∧
      r.first.Agrees range.first ∧ r.last.Agrees range.last

/-- A row that has been printed is made relative again.  This is not so above the upper
bound, unless there is nothing to be added. -/
def Address.RowReturns (addr : Address) (pos : AbsAddress) : Prop :=
  addr.absRow = true ∨ addr.rowFrom pos ≤ rowUpperBound ∨ pos.row = 0

/-- A row that comes back is not the one that stands for no row. -/
theorem Address.RowReturns.rowFrom_ne_unset {addr : Address} {pos : AbsAddress}
    (h : addr.RowReturns pos) (hset : addr.row ≠ rowUnset) : addr.rowFrom pos ≠ rowUnset := by
  rcases h with habs | hle | hzero
  · rwa [Address.rowFrom, if_pos habs]
  · intro heq
    rw [heq] at hle
    exact absurd hle (by decide)
  · rwa [Address.rowFrom, hzero, add_zero, ite_self]

/-- The name of a cell means that cell: its sheet is absolute, as it always is in Excel's
syntaxes, its row and column are not too large, and it does not have the name of a function. -/
def Address.NameReturnsA1 (addr : Address) (pos : AbsAddress) : Prop :=
  addr.absSheet = true ∧ addr.columnFrom pos < columnUpperBound ∧
    addr.rowFrom pos ≠ rowUnset ∧ addr.RowReturns pos ∧
    ¬ (addr.absRow = false ∧ addr.absColumn = false ∧
      (addr.rowFrom pos, addr.columnFrom pos) ∈ functionCells)

/-- A coordinate made relative to that of an origin, unless it is above a bound. -/
def unshift (absolute : Bool) (x origin bound : Int) : Int :=
  if !absolute ∧ x ≤ bound then x - origin else x

theorem row_toRelativeAddress (addr : Address) (pos : AbsAddress) (sheet : Bool) :
    (toRelativeAddress addr pos sheet).row =
      unshift addr.absRow addr.row pos.row rowUpperBound := rfl

theorem column_toRelativeAddress (addr : Address) (pos : AbsAddress) (sheet : Bool) :
    (toRelativeAddress addr pos sheet).column =
      unshift addr.absColumn addr.column pos.column columnUpperBound := rfl

theorem unshift_of_lt {x bound : Int} (h : bound < x) (absolute : Bool) (origin : Int) :
    unshift absolute x origin bound = x :=
  if_neg fun hle ↦ absurd hle.2 (not_le.mpr h)

/-- What is added before printing is subtracted after scanning. -/
theorem unshift_eq_iff {absolute : Bool} {y origin bound : Int} :
    unshift absolute (if absolute then y else y + origin) origin bound = y ↔
      absolute = true ∨ (if absolute then y else y + origin) ≤ bound ∨ origin = 0 := by
  rw [unshift]
  cases absolute with
  | true => simp
  | false =>
    simp only [Bool.not_false, true_and, Bool.false_eq_true, false_or, if_false]
    split
    case isTrue h => exact iff_of_true (by omega) (.inl h)
    case isFalse h => omega

theorem unshift_rowFrom {addr : Address} {pos : AbsAddress} :
    unshift addr.absRow (addr.rowFrom pos) pos.row rowUpperBound = addr.row ↔
      addr.RowReturns pos :=
  unshift_eq_iff

theorem unshift_columnFrom {addr : Address} {pos : AbsAddress}
    (h : addr.columnFrom pos ≤ columnUpperBound) :
    unshift addr.absColumn (addr.columnFrom pos) pos.column columnUpperBound = addr.column :=
  unshift_eq_iff.mpr (.inr (.inl h))

/-- What is resolved to a cell is not the name of a function. -/
theorem resolveFunction_of_cell {cxt : Option Workbook} {pos : AbsAddress} {s : List Char}
    {f : ℕ → Char} {a : Address} (h : (resolveExcelA1 cxt pos s).eval f = .cellReference a) :
    resolveFunction s = none := by
  rw [resolveExcelA1] at h
  split at h
  · exact absurd h (by rintro ⟨⟩)
  · cases hfunction : resolveFunction s with
    | none => rfl
    | some name =>
      rw [hfunction] at h
      obtain ⟨func, -, rfl⟩ := Option.map_eq_some_iff.mp hfunction
      exact absurd h (by rintro ⟨⟩)

section Returns

variable {wb : Workbook} {pos : AbsAddress} {addr : Address}

/-- A scanned address is made relative again. -/
theorem toRelativeAddress_cellFrom (hcolumn : addr.columnFrom pos ≤ columnUpperBound)
    (hsheet : addr.sheetFrom pos = pos.sheet) :
    toRelativeAddress ⟨pos.sheet, addr.rowFrom pos, addr.columnFrom pos, true, addr.absRow,
        addr.absColumn⟩ pos false = addr ↔
      addr.absSheet = true ∧ addr.RowReturns pos := by
  constructor
  · intro h
    exact ⟨(congrArg Address.absSheet h).symm, unshift_rowFrom.mp (congrArg Address.row h)⟩
  · rintro ⟨habs, hrow⟩
    rw [Address.sheetFrom, if_pos habs] at hsheet
    apply Address.ext
    · exact hsheet.symm
    · exact unshift_rowFrom.mpr hrow
    · exact unshift_columnFrom hcolumn
    · exact habs.symm
    · rfl
    · rfl

/-- A printed cell is resolved to that cell again exactly when the address of the sheet is
absolute, row and column are not too large and it does not have the name of a function. -/
theorem cellReturns_excelA1_iff (hsheet : addr.sheetFrom pos = pos.sheet)
    (hcell : wb.inWorkbook (addr.cellFrom pos) = true) (behind : ℕ → Char) :
    CellReturns .excelA1 wb behind pos addr false ↔ addr.NameReturnsA1 pos := by
  obtain ⟨hinside, ⟨hcolumn, -⟩, hrow, -⟩ := inWorkbook_bounds hcell
  change 0 ≤ addr.columnFrom pos at hcolumn
  change 0 ≤ addr.rowFrom pos at hrow
  set s := appendRowColumnA1 (addr.rowFrom pos) (addr.columnFrom pos) addr.absRow addr.absColumn
    with hs
  have hprinted : ∀ c ∈ s, isPrintedA1 c = true :=
    fun c hc ↦ isPrintedA1_of_mem_rowColumn hrow hcolumn hc
  have htable : resolveTable (some wb) s = none :=
    resolveTable_eq_none_of_not_mem _ (not_mem_of_isPrintedA1 hprinted rfl)
  have hsheets : resolveSheets (some wb) s = (.none false, s) :=
    resolveSheets_eq_none _ (not_mem_of_isPrintedA1 hprinted rfl)
  have hreturns : CellReturns .excelA1 wb behind pos addr false ↔
      (resolveExcelA1 (some wb) pos s).eval behind = .cellReference addr := by
    constructor
    · rintro ⟨s', hs', h⟩
      cases hs'
      exact h
    · intro h
      exact ⟨s, rfl, h⟩
  have haccepted : AcceptedA1 (some wb)
      (parseAddressExcelA1 s ⟨pos.sheet, 0, 0, false, false, false⟩) ↔ _ :=
    acceptedA1_rowColumn hcell addr.absRow addr.absColumn ⟨pos.sheet, 0, 0, true, false, false⟩ rfl
  have hparsed : addr.columnFrom pos < columnUpperBound →
      parseAddressExcelA1 s ⟨pos.sheet, 0, 0, false, false, false⟩ =
        ⟨.validAddress, false, [], ⟨pos.sheet, addr.rowFrom pos, addr.columnFrom pos, true,
          addr.absRow, addr.absColumn⟩⟩ :=
    parseAddressA1_rowColumn hcolumn addr.absRow addr.absColumn rfl hrow
  have hrelative : addr.columnFrom pos < columnUpperBound →
      (SheetRange.cell (.none false) (toRelativeAddress (parseAddressExcelA1 s
        ⟨pos.sheet, 0, 0, false, false, false⟩).addr pos false) = .cellReference addr ↔
          addr.absSheet = true ∧ addr.RowReturns pos) := by
    intro hbound
    rw [hparsed hbound, ← toRelativeAddress_cellFrom hbound.le hsheet]
    exact FormulaName.cellReference.injEq _ _ ▸ Iff.rfl
  rw [hreturns]
  constructor
  · intro h
    have hfunction := resolveFunction_of_cell h
    obtain ⟨-, -, hvalid, hcell'⟩ :=
      (eval_resolveExcelA1_eq_cell hfunction htable hsheets rfl).mp h
    obtain ⟨hbound, hunset, -⟩ := haccepted.mp hvalid
    obtain ⟨habs, hreturns⟩ := (hrelative hbound).mp hcell'
    exact ⟨habs, hbound, hunset, hreturns,
      (resolveFunction_rowColumn hrow hcolumn hbound hunset _ _).mp hfunction⟩
  · rintro ⟨habs, hbound, hunset, hreturns, hfunction⟩
    refine (eval_resolveExcelA1_eq_cell
      ((resolveFunction_rowColumn hrow hcolumn hbound hunset _ _).mpr hfunction) htable hsheets
      rfl).mpr ⟨?_, nofun, haccepted.mpr ⟨hbound, hunset, .inl ?_⟩,
        (hrelative hbound).mpr ⟨habs, hreturns⟩⟩
    · obtain ⟨t, c, heq, -⟩ := exists_rowColumn_eq hrow (addr.columnFrom pos) addr.absRow
        addr.absColumn
      show appendRowColumnA1 _ _ _ _ ≠ []
      rw [heq]
      exact List.append_ne_nil_of_right_ne_nil t (List.cons_ne_nil c [])
    · show 0 ≤ pos.sheet ∧ pos.sheet < wb.sheets.length
      rw [← hsheet]
      exact hinside

end Returns

/-- A cell that is printed with dollar signs. -/
theorem cellReturns_excelA1_iff_absolute :
    (⟨0, 9, 8508, true, true, true⟩ : Address).sheetFrom ⟨0, 1, 1⟩ = 0 ∧
      (oneSheet "A").inWorkbook ⟨0, 9, 8508⟩ = true ∧
      (CellReturns .excelA1 (oneSheet "A") (fun _ ↦ ' ') ⟨0, 1, 1⟩
          ⟨0, 9, 8508, true, true, true⟩ false ↔
        (⟨0, 9, 8508, true, true, true⟩ : Address).NameReturnsA1 ⟨0, 1, 1⟩) :=
  ⟨rfl, rfl, cellReturns_excelA1_iff rfl rfl _⟩

/-- The cell in row 10 of the column `LOG` is resolved to a function. -/
theorem not_cellReturns_excelA1 :
    ¬ ∀ (wb : Workbook) (pos : AbsAddress) (addr : Address) (behind : ℕ → Char),
      addr.sheetFrom pos = pos.sheet → wb.inWorkbook (addr.cellFrom pos) = true →
        CellReturns .excelA1 wb behind pos addr false := by
  intro h
  obtain ⟨s, hs, hresolve⟩ := h (oneSheet "A") ⟨0, 0, 0⟩ ⟨0, 9, 8508, true, false, false⟩
    (fun _ ↦ ' ') rfl rfl
  have hfunction : resolveFunction s = none := resolveFunction_of_cell hresolve
  cases hs
  exact absurd hfunction (by decide +kernel)

end Ixion
