import Ixion.Resolver.CellName
import Ixion.Resolver.RangeReference

/-!
# Names of ranges in Excel's A1 syntax

The corners of a range are cells, whole columns or whole rows, and all of them are scanned
by the same loop.  A dollar sign means the column as long as no column has been scanned: that of an
absolute row without a column is therefore taken for that of a column, and the row comes
back as a relative one.
-/

namespace Ixion

open Lib

/-! ## Scanning a corner -/

/-- The result of scanning a whole address, which is the end of the string or followed by
the last corner of a range. -/
def endResult : List Char → ParseAddressResultType
  | [] => .validAddress
  | _ :: _ => .rangeExpected

theorem finishAddressA1_row {addr : Address} (h : addr.row ≠ 0) :
    finishAddressA1 .row addr = some { addr with
      row := addr.row - 1
      column := if addr.column ≠ 0 then addr.column - 1 else columnUnset } :=
  if_neg h

theorem finishAddressA1_column {addr : Address} (h : addr.column ≠ 0) :
    finishAddressA1 .column addr =
      some { addr with row := rowUnset, column := addr.column - 1 } :=
  if_neg h

/-- At the end of an address, its row and column are turned into those that are stored. -/
theorem parseAddressA1Loop_end {mode : ResolverParseMode} {addr addr' : Address}
    (hfinish : finishAddressA1 mode addr = some addr') {rest : List Char}
    (hrest : ∀ c ∈ rest.head?, c = ':') :
    parseAddressA1Loop mode addr rest = ⟨endResult rest, false, rest, addr'⟩ := by
  cases rest with
  | nil =>
    rw [parseAddressA1Loop, hfinish]
    rfl
  | cons c cs =>
    obtain rfl : c = ':' := hrest c rfl
    rw [parseAddressA1Loop, if_neg (by decide), if_neg (by decide), if_pos rfl, hfinish]
    rfl

/-- A corner whose row and column are not both unset is shown as what it stands for. -/
def Address.ShowsCorner (addr : Address) : Prop :=
  addr.row ≠ rowUnset ∨ addr.column ≠ columnUnset

/-- The rows and columns of a corner that are set are not negative. -/
structure Address.NonnegFrom (addr : Address) (pos : AbsAddress) : Prop where
  row : addr.row ≠ rowUnset → 0 ≤ addr.rowFrom pos
  column : addr.column ≠ columnUnset → 0 ≤ addr.columnFrom pos

/-- What a printed corner is scanned as, on a sheet.  The dollar sign of a row without a
column is taken for that of the column. -/
def Address.scannedA1 (addr : Address) (pos : AbsAddress) (start : Address) : Address :=
  { start with
    row := if addr.row = rowUnset then rowUnset else addr.rowFrom pos
    column := if addr.column = columnUnset then columnUnset else addr.columnFrom pos
    absRow := addr.row ≠ rowUnset ∧ addr.column ≠ columnUnset ∧ addr.absRow = true
    absColumn := if addr.column = columnUnset then addr.absRow else addr.absColumn }

section Corner

variable {addr start : Address} {pos : AbsAddress} {rest : List Char}

theorem appendCornerA1_of_set (hrow : addr.row ≠ rowUnset) (hcolumn : addr.column ≠ columnUnset) :
    appendCornerA1 addr pos =
      appendRowColumnA1 (addr.rowFrom pos) (addr.columnFrom pos) addr.absRow addr.absColumn := by
  rw [appendCornerA1, appendColumnAddressA1, if_neg hcolumn, appendRowAddressA1, if_neg hrow,
    appendRowColumnA1, List.append_assoc]
  rfl

theorem appendCornerA1_of_row (hrow : addr.row ≠ rowUnset) (hcolumn : addr.column = columnUnset) :
    appendCornerA1 addr pos = dollar addr.absRow ++ decimal (addr.rowFrom pos + 1) := by
  rw [appendCornerA1, appendColumnAddressA1, if_pos hcolumn, appendRowAddressA1, if_neg hrow]
  rfl

theorem appendCornerA1_of_column (hrow : addr.row = rowUnset)
    (hcolumn : addr.column ≠ columnUnset) :
    appendCornerA1 addr pos =
      dollar addr.absColumn ++ appendColumnNameA1 (addr.columnFrom pos) := by
  rw [appendCornerA1, appendColumnAddressA1, if_neg hcolumn, appendRowAddressA1, if_pos hrow,
    List.append_nil]
  rfl

/-- The characters of a printed corner. -/
theorem isPrintedA1_of_mem_corner (hnonneg : addr.NonnegFrom pos) {c : Char}
    (h : c ∈ appendCornerA1 addr pos) : isPrintedA1 c = true := by
  rw [appendCornerA1, List.mem_append] at h
  rcases h with h | h
  · rw [appendColumnAddressA1] at h
    split at h
    case isTrue => exact absurd h List.not_mem_nil
    case isFalse hset =>
      rw [List.mem_append] at h
      rcases h with h | h
      · exact isPrintedA1_of_mem_dollar h
      · exact isPrintedA1_of_mem_columnName _ (hnonneg.column hset) h
  · rw [appendRowAddressA1] at h
    split at h
    case isTrue => exact absurd h List.not_mem_nil
    case isFalse hset =>
      rw [List.mem_append] at h
      rcases h with h | h
      · exact isPrintedA1_of_mem_dollar h
      · have hrow : 0 ≤ addr.rowFrom pos := hnonneg.row hset
        exact isPrintedA1_of_mem_decimal (show 0 ≤ addr.rowFrom pos + 1 by omega) h

/-- What is shown of a corner can be scanned. -/
structure Address.ScansA1 (addr : Address) (pos : AbsAddress) : Prop where
  shows : addr.ShowsCorner
  row : addr.row ≠ rowUnset → 0 ≤ addr.rowFrom pos
  column : addr.column ≠ columnUnset → addr.columnFrom pos < columnUpperBound

/-- A printed corner is scanned up to its end. -/
theorem parseAddressA1_corner (hscans : addr.ScansA1 pos)
    (hcolumn : addr.column ≠ columnUnset → 0 ≤ addr.columnFrom pos)
    (hclear : start.cleared = start) (hrest : ∀ c ∈ rest.head?, c = ':') :
    parseAddressA1 (appendCornerA1 addr pos ++ rest) start =
      ⟨endResult rest, false, rest, addr.scannedA1 pos start⟩ := by
  obtain ⟨hshows, hnonneg, hbound⟩ := hscans
  obtain ⟨sheet, row, column, absSheet, absRow, absColumn⟩ := start
  simp only [Address.cleared, Address.mk.injEq, true_and] at hclear
  obtain ⟨rfl, rfl, rfl, rfl⟩ := hclear
  have hmark : ∀ absolute : Bool, (if absolute then ⟨sheet, 0, 0, absSheet, false, true⟩
      else ⟨sheet, 0, 0, absSheet, false, false⟩ : Address) =
      ⟨sheet, 0, 0, absSheet, false, absolute⟩ := by
    intro absolute
    cases absolute <;> rfl
  rw [parseAddressA1, Address.scannedA1]
  by_cases hrow : addr.row = rowUnset
  · have hset : addr.column ≠ columnUnset := hshows.resolve_left (not_not.mpr hrow)
    have hfrom := hcolumn hset
    rw [appendCornerA1_of_column hrow hset, List.append_assoc,
      parseAddressA1Loop_dollar_column _ _ rfl, hmark, appendColumnNameA1,
      parseAddressA1Loop_columnName hfrom (by omega) (hbound hset) _ rfl]
    have hne : addr.columnFrom pos + 1 ≠ 0 := by omega
    refine (parseAddressA1Loop_end (finishAddressA1_column hne) hrest).trans ?_
    simp [hrow, hset]
  · have hfrom := hnonneg hrow
    have hnat : ((addr.rowFrom pos + 1).toNat : Int) = addr.rowFrom pos + 1 :=
      Int.toNat_of_nonneg (by omega)
    have hne : addr.rowFrom pos + 1 ≠ 0 := by omega
    by_cases hset : addr.column = columnUnset
    · rw [appendCornerA1_of_row hrow hset, List.append_assoc,
        parseAddressA1Loop_dollar_column _ _ rfl, hmark, decimal_of_nonneg (by omega),
        parseAddressA1Loop_row _ _ rfl (by omega), hnat]
      refine (parseAddressA1Loop_end (finishAddressA1_row hne) hrest).trans ?_
      simp [hrow, hset]
    · have hfrom' := hcolumn hset
      have hne' : ¬ addr.columnFrom pos + 1 = 0 := by omega
      rw [appendCornerA1_of_set hrow hset,
        parseAddressA1Loop_rowColumn hfrom' _ _ rfl hfrom (hbound hset)]
      refine (parseAddressA1Loop_end (finishAddressA1_row hne) hrest).trans ?_
      simp [hrow, hset, hne']

/-- A row that is not positive is not scanned. -/
theorem result_parseAddressA1Loop_decimal {mode : ResolverParseMode} {addr : Address} {n : Int}
    (hn : n ≤ 0) (haddr : addr.row = 0) (hrest : ∀ c ∈ rest.head?, c = ':') :
    (parseAddressA1Loop mode addr (decimal n ++ rest)).result = .invalid := by
  rw [decimal]
  split
  case isTrue =>
    rw [List.cons_append, parseAddressA1Loop, if_neg (by decide), if_neg (by decide),
      if_neg (by decide), if_neg (show ¬ ('-' = '$' ∧ _) from fun h ↦ absurd h.1 (by decide))]
  case isFalse hneg =>
    obtain rfl : n = 0 := by omega
    show (parseAddressA1Loop mode addr ('0' :: rest)).result = .invalid
    rw [parseAddressA1Loop, if_neg (by decide), if_pos (by decide)]
    split
    · rfl
    · have hfinish : finishAddressA1 .row { addr with row := addr.row * 10 + digitValue '0' } =
          none := if_pos (by rw [haddr]; rfl)
      cases rest with
      | nil => rw [parseAddressA1Loop, hfinish]
      | cons c cs =>
        obtain rfl : c = ':' := hrest c rfl
        rw [parseAddressA1Loop, if_neg (by decide), if_neg (by decide), if_pos rfl, hfinish]

/-- Any other corner is not scanned: its column is not below the upper bound, its row is
negative, or nothing is shown of it. -/
theorem result_parseAddressA1_corner (hscans : ¬ addr.ScansA1 pos)
    (hcolumn : addr.column ≠ columnUnset → 0 ≤ addr.columnFrom pos)
    (hclear : start.cleared = start) (hrest : ∀ c ∈ rest.head?, c = ':') :
    (parseAddressA1 (appendCornerA1 addr pos ++ rest) start).result = .invalid := by
  have hstart : start.column = 0 := (congrArg Address.column hclear).symm
  have hstart' : start.row = 0 := (congrArg Address.row hclear).symm
  have hmark : ∀ absolute : Bool,
      (if absolute then { start with absColumn := true } else start).column = 0 ∧
        (if absolute then { start with absColumn := true } else start).row = 0 := by
    intro absolute
    cases absolute <;> exact ⟨hstart, hstart'⟩
  rw [parseAddressA1, appendCornerA1, appendColumnAddressA1, appendRowAddressA1]
  by_cases hset : addr.column = columnUnset
  · rw [if_pos hset, List.nil_append]
    by_cases hset' : addr.row = rowUnset
    · -- nothing is shown
      rw [if_pos hset', List.nil_append]
      have hfinish : finishAddressA1 .column start = none := if_pos hstart
      cases rest with
      | nil => rw [parseAddressA1Loop, hfinish]
      | cons c cs =>
        obtain rfl : c = ':' := hrest c rfl
        rw [parseAddressA1Loop, if_neg (by decide), if_neg (by decide), if_pos rfl, hfinish]
    · have hneg : addr.rowFrom pos < 0 := by
        by_contra hle
        exact hscans ⟨.inl hset', fun _ ↦ not_lt.mp hle, fun h ↦ absurd hset h⟩
      change (if addr.absRow then addr.row else addr.row + pos.row) < 0 at hneg
      rw [if_neg hset', List.append_assoc, parseAddressA1Loop_dollar_column _ _ hstart]
      exact result_parseAddressA1Loop_decimal (by omega) (hmark _).2 hrest
  · have hfrom : 0 ≤ (if addr.absColumn then addr.column else addr.column + pos.column) :=
      hcolumn hset
    rw [if_neg hset, List.append_assoc, List.append_assoc,
      parseAddressA1Loop_dollar_column _ _ hstart]
    by_cases hbound : addr.columnFrom pos < columnUpperBound
    · obtain ⟨hset', hneg⟩ : addr.row ≠ rowUnset ∧ addr.rowFrom pos < 0 := by
        by_contra hnone
        rw [not_and, not_lt] at hnone
        exact hscans ⟨.inr hset, hnone, fun _ ↦ hbound⟩
      change (if addr.absRow then addr.row else addr.row + pos.row) < 0 at hneg
      rw [appendColumnNameA1, parseAddressA1Loop_columnName hfrom (by omega) hbound _ (hmark _).1,
        if_neg hset', List.append_assoc]
      have hne : ¬ (if addr.absColumn then addr.column else addr.column + pos.column) + 1 = 0 := by
        omega
      cases habs : addr.absRow with
      | false =>
        rw [habs] at hneg
        refine result_parseAddressA1Loop_decimal (Int.add_one_le_iff.mpr ?_) (hmark _).2 hrest
        simpa using hneg
      | true =>
        rw [habs] at hneg
        show (parseAddressA1Loop .column _ ('$' :: _)).result = .invalid
        rw [parseAddressA1Loop, if_neg (by decide), if_neg (by decide), if_neg (by decide),
          if_pos ⟨rfl, rfl⟩, if_pos hne]
        refine result_parseAddressA1Loop_decimal (Int.add_one_le_iff.mpr ?_) (hmark _).2 hrest
        simpa using hneg
    · exact parseAddressA1Loop_columnName_of_le hfrom (by omega) (not_lt.mp hbound) _ (hmark _).1 _

end Corner

/-! ## Making a corner relative -/

/-- A corner comes back as what it was printed from: its sheet is absolute, its column and
row are not too large, and it is not an absolute row without a column. -/
structure Address.CornerReturnsA1 (addr : Address) (pos : AbsAddress) : Prop where
  absSheet : addr.absSheet = true
  column : addr.column ≠ columnUnset → addr.columnFrom pos < columnUpperBound
  row : addr.row ≠ rowUnset → addr.RowReturns pos
  absRow : addr.column = columnUnset → addr.absRow = false

section Agrees

variable {addr : Address} {pos : AbsAddress}

/-- A scanned corner is made relative again. -/
theorem agrees_toRelativeAddress_scannedA1 (hshows : addr.ShowsCorner)
    (hbound : addr.column ≠ columnUnset → addr.columnFrom pos < columnUpperBound)
    (hsheet : addr.sheetFrom pos = pos.sheet) :
    (toRelativeAddress (addr.scannedA1 pos (startA1 pos true)) pos false).Agrees addr ↔
      addr.CornerReturnsA1 pos := by
  have hrow : addr.row ≠ rowUnset →
      (toRelativeAddress (addr.scannedA1 pos (startA1 pos true)) pos false).row =
        unshift (addr.column ≠ columnUnset ∧ addr.absRow = true) (addr.rowFrom pos) pos.row
          rowUpperBound := by
    intro hset
    rw [row_toRelativeAddress]
    simp only [Address.scannedA1, hset, if_false, ne_eq, not_false_eq_true, true_and]
  have habsRow : addr.row ≠ rowUnset →
      (toRelativeAddress (addr.scannedA1 pos (startA1 pos true)) pos false).absRow =
        decide (addr.column ≠ columnUnset ∧ addr.absRow = true) := by
    intro hset
    simp only [toRelativeAddress, Address.scannedA1, hset, ne_eq, not_false_eq_true, true_and]
  constructor
  · intro h
    have habs : addr.column = columnUnset → addr.absRow = false := by
      intro hunset
      have hset : addr.row ≠ rowUnset := hshows.resolve_right (not_not.mpr hunset)
      rw [← h.absRow hset, habsRow hset]
      simp [hunset]
    refine ⟨h.absSheet.symm, hbound, fun hset ↦ unshift_rowFrom.mp ?_, habs⟩
    rw [← h.absRow hset, habsRow hset, ← hrow hset]
    exact h.row
  · intro h
    have hflag : decide (addr.column ≠ columnUnset ∧ addr.absRow = true) = addr.absRow := by
      by_cases hunset : addr.column = columnUnset
      · simp [hunset, h.absRow hunset]
      · simp [hunset]
    refine ⟨?_, ?_, ?_, h.absSheet.symm, fun hset ↦ (habsRow hset).trans hflag,
      fun hset ↦ if_neg hset⟩
    · rw [Address.sheetFrom, if_pos h.absSheet] at hsheet
      exact hsheet.symm
    · by_cases hset : addr.row = rowUnset
      · rw [row_toRelativeAddress, Address.scannedA1]
        simp only [hset, if_true]
        exact unshift_of_lt (by decide) _ _
      · rw [hrow hset, hflag]
        exact unshift_rowFrom.mpr (h.row hset)
    · rw [column_toRelativeAddress, Address.scannedA1]
      by_cases hset : addr.column = columnUnset
      · simp only [hset, if_true]
        exact unshift_of_lt (by decide) _ _
      · simp only [if_neg hset]
        exact unshift_columnFrom (hbound hset).le

end Agrees

/-! ## Result -/

/-- What is set of a corner is within the size of the sheets. -/
structure Address.InBounds (addr : Address) (pos : AbsAddress) (size : RcSize) : Prop where
  row : addr.row ≠ rowUnset → 0 ≤ addr.rowFrom pos ∧ addr.rowFrom pos < size.row
  column : addr.column ≠ columnUnset → 0 ≤ addr.columnFrom pos ∧ addr.columnFrom pos < size.column

theorem Address.InBounds.nonneg {addr : Address} {pos : AbsAddress} {size : RcSize}
    (h : addr.InBounds pos size) : addr.NonnegFrom pos :=
  ⟨fun hset ↦ (h.row hset).1, fun hset ↦ (h.column hset).1⟩

section Returns

variable {wb : Workbook} {pos : AbsAddress}

/-- The check of the first corner, which is against the upper bounds if there is no sheet at
the origin. -/
theorem checkAddressBySheetBounds_scannedA1 {addr : Address}
    (hbounds : addr.InBounds pos wb.sheetSize) (hreturns : addr.CornerReturnsA1 pos) :
    checkAddressBySheetBounds (some wb) (addr.scannedA1 pos (startA1 pos true)) = true ↔
      (addr.row ≠ rowUnset → 0 ≤ pos.sheet ∧ pos.sheet < wb.sheets.length ∨
        addr.rowFrom pos < rowUpperBound) := by
  have hstart : (startA1 pos true).sheet = pos.sheet := rfl
  have hcolumn : ∀ size : RcSize, (addr.column ≠ columnUnset → addr.columnFrom pos < size.column) →
      ((if addr.column = columnUnset then columnUnset else addr.columnFrom pos) = columnUnset ∨
        |if addr.column = columnUnset then columnUnset else addr.columnFrom pos| <
          size.column) := by
    intro size hsize
    by_cases hset : addr.column = columnUnset
    · exact .inl (if_pos hset)
    · rw [if_neg hset, abs_of_nonneg (hbounds.column hset).1]
      exact .inr (hsize hset)
  simp only [checkAddressBySheetBounds, Address.scannedA1, hstart, decide_eq_true_eq]
  by_cases hinside : 0 ≤ pos.sheet ∧ pos.sheet < wb.sheets.length
  · refine iff_of_true ⟨?_, ?_⟩ fun _ ↦ .inl hinside
    · by_cases hset : addr.row = rowUnset
      · exact .inl (if_pos hset)
      · rw [if_neg hset, if_pos hinside, abs_of_nonneg (hbounds.row hset).1]
        exact .inr (hbounds.row hset).2
    · rw [if_pos hinside]
      exact hcolumn _ fun hset ↦ (hbounds.column hset).2
  · rw [if_neg hinside]
    rw [and_iff_left (hcolumn _ hreturns.column)]
    by_cases hset : addr.row = rowUnset
    · exact iff_of_true (.inl (if_pos hset)) fun h ↦ absurd hset h
    · rw [if_neg hset, abs_of_nonneg (hbounds.row hset).1,
        or_iff_right ((hreturns.row hset).rowFrom_ne_unset hset)]
      exact ⟨fun h _ ↦ .inr h, fun h ↦ (h hset).resolve_left hinside⟩

/-- What two printed corners are resolved to after their sheets. -/
theorem eval_resolveAddressExcelA1_corners {cxt : Option Workbook} {first last : Address}
    (hcolumn : first.column ≠ columnUnset → 0 ≤ first.columnFrom pos)
    (hcolumn' : last.column ≠ columnUnset → 0 ≤ last.columnFrom pos) {n : ℕ}
    {sheets : SheetRange} {behind : ℕ → Char} {r : Range} :
    (resolveAddressExcelA1 cxt pos n sheets
        (appendCornerA1 first pos ++ ':' :: appendCornerA1 last pos)).eval behind =
          .rangeReference r ↔
      first.ScansA1 pos ∧ last.ScansA1 pos ∧
        checkAddressBySheetBounds cxt (first.scannedA1 pos (startA1 pos true)) = true ∧
        sheets.range (toRelativeAddress (first.scannedA1 pos (startA1 pos true)) pos false)
          (toRelativeAddress (last.scannedA1 pos (startA1 pos true)) pos false) =
            .rangeReference r := by
  have hcolon : ∀ c ∈ (':' :: appendCornerA1 last pos).head?, c = ':' :=
    fun c hc ↦ (Option.some_inj.mp hc).symm
  by_cases hscans : first.ScansA1 pos
  · have hparsed : parseAddressExcelA1 (appendCornerA1 first pos ++ ':' :: appendCornerA1 last pos)
        ⟨pos.sheet, 0, 0, false, false, false⟩ = ⟨.rangeExpected, false,
          ':' :: appendCornerA1 last pos, first.scannedA1 pos (startA1 pos true)⟩ :=
      parseAddressA1_corner hscans hcolumn rfl hcolon
    rw [eval_resolveAddressExcelA1_eq_reference (FormulaName.isReference_range r) hparsed rfl]
    by_cases hscans' : last.ScansA1 pos
    · have hparsed' : parseAddressExcelA1 (appendCornerA1 last pos)
          (toRelativeAddress (first.scannedA1 pos (startA1 pos true)) pos false) =
            ⟨.validAddress, false, [], last.scannedA1 pos (startA1 pos true)⟩ := by
        have h := @parseAddressA1_corner last (startA1 pos true) pos [] hscans' hcolumn' rfl nofun
        rwa [List.append_nil] at h
      rw [List.tail_cons, hparsed']
      simp only [AcceptedA1, AcceptedFirstA1, reduceCtorEq, false_and, false_or, true_and, hscans,
        hscans']
      rfl
    · have hinvalid : (parseAddressExcelA1 (appendCornerA1 last pos)
          (toRelativeAddress (first.scannedA1 pos (startA1 pos true)) pos false)).result =
            .invalid := by
        have h := @result_parseAddressA1_corner last (startA1 pos true) pos [] hscans' hcolumn' rfl
          nofun
        rwa [List.append_nil] at h
      rw [List.tail_cons, hinvalid]
      simp [AcceptedA1, hscans']
  · have hinvalid : (parseAddressExcelA1
        (appendCornerA1 first pos ++ ':' :: appendCornerA1 last pos)
        ⟨pos.sheet, 0, 0, false, false, false⟩).result = .invalid :=
      result_parseAddressA1_corner hscans hcolumn rfl hcolon
    rw [eval_resolveAddressExcelA1_eq_reference (FormulaName.isReference_range r) rfl rfl,
      AcceptedA1, AcceptedFirstA1, hinvalid]
    simp [hscans]

theorem rangeReturns_iff_exists {range : Range} {s : List Char} {type : FormulaNameResolverType}
    {sheetName : Bool} {behind : ℕ → Char}
    (hs : type.getRangeName (some wb) range pos sheetName = .ok s) :
    RangeReturns type wb behind pos range sheetName ↔
      ∃ r, (type.resolve (some wb) pos s).eval behind = .rangeReference r ∧
        r.first.Agrees range.first ∧ r.last.Agrees range.last := by
  constructor
  · rintro ⟨s', hs', h⟩
    cases hs.symm.trans hs'
    exact h
  · intro h
    exact ⟨s, hs, h⟩

/-- The name of a range in Excel's A1 syntax is resolved to that range exactly when both
corners come back; without a sheet at the origin, the first row has to be below the upper
bound. -/
theorem rangeReturns_excelA1_iff {range : Range}
    (hsheet : range.first.sheetFrom pos = pos.sheet)
    (hsheet' : range.last.sheetFrom pos = pos.sheet)
    (hshows : range.first.ShowsCorner) (hshows' : range.last.ShowsCorner)
    (hbounds : range.first.InBounds pos wb.sheetSize)
    (hbounds' : range.last.InBounds pos wb.sheetSize) (behind : ℕ → Char) :
    RangeReturns .excelA1 wb behind pos range false ↔
      range.first.CornerReturnsA1 pos ∧ range.last.CornerReturnsA1 pos ∧
        (range.first.row ≠ rowUnset → 0 ≤ pos.sheet ∧ pos.sheet < wb.sheets.length ∨
          range.first.rowFrom pos < rowUpperBound) := by
  set corner := appendCornerA1 range.first pos with hcorner
  set corner' := appendCornerA1 range.last pos with hcorner'
  have hname : FormulaNameResolverType.excelA1.getRangeName (some wb) range pos false =
      .ok (corner ++ ':' :: corner') :=
    congrArg Except.ok (List.append_assoc corner [':'] corner')
  have hnot : ∀ c, isPrintedA1 c = false → c ≠ ':' → c ∉ corner ++ ':' :: corner' := by
    intro c hprinted hcolon hmem
    rw [List.mem_append, List.mem_cons] at hmem
    rcases hmem with hmem | hmem | hmem
    · exact absurd ((isPrintedA1_of_mem_corner hbounds.nonneg hmem).symm.trans hprinted) nofun
    · exact hcolon hmem
    · exact absurd ((isPrintedA1_of_mem_corner hbounds'.nonneg hmem).symm.trans hprinted) nofun
  have hsheets := resolveSheets_eq_none (some wb) (hnot '!' rfl (by decide))
  have htable := resolveTable_eq_none_of_not_mem (some wb) (hnot '[' rfl (by decide))
  have hfunction : resolveFunction (corner ++ ':' :: corner') = none :=
    resolveFunction_eq_none (c := ':') (by simp) rfl
  have hresolve : ∀ r, (resolveExcelA1 (some wb) pos (corner ++ ':' :: corner')).eval behind =
      .rangeReference r ↔ range.first.ScansA1 pos ∧ range.last.ScansA1 pos ∧
        checkAddressBySheetBounds (some wb) (range.first.scannedA1 pos (startA1 pos true)) = true ∧
        FormulaName.rangeReference
          ⟨toRelativeAddress (range.first.scannedA1 pos (startA1 pos true)) pos false,
            toRelativeAddress (range.last.scannedA1 pos (startA1 pos true)) pos false⟩ =
          .rangeReference r := by
    intro r
    rw [eval_resolveExcelA1_eq_reference (FormulaName.isReference_range r), hsheets]
    exact (and_iff_right (by simp)).trans <| (and_iff_right hfunction).trans <|
      (and_iff_right htable).trans <| (and_iff_right nofun).trans
        (eval_resolveAddressExcelA1_corners hbounds.nonneg.column hbounds'.nonneg.column)
  rw [rangeReturns_iff_exists hname]
  constructor
  · rintro ⟨r, hr, hagrees, hagrees'⟩
    obtain ⟨hscans, hscans', hcheck, heq⟩ := (hresolve r).mp hr
    cases heq
    have hreturns := (agrees_toRelativeAddress_scannedA1 hshows hscans.column hsheet).mp hagrees
    exact ⟨hreturns,
      (agrees_toRelativeAddress_scannedA1 hshows' hscans'.column hsheet').mp hagrees',
      (checkAddressBySheetBounds_scannedA1 hbounds hreturns).mp hcheck⟩
  · rintro ⟨hreturns, hreturns', hcheck⟩
    exact ⟨_, (hresolve _).mpr ⟨⟨hshows, hbounds.nonneg.row, hreturns.column⟩,
      ⟨hshows', hbounds'.nonneg.row, hreturns'.column⟩,
      (checkAddressBySheetBounds_scannedA1 hbounds hreturns).mpr hcheck, rfl⟩,
      (agrees_toRelativeAddress_scannedA1 hshows hreturns.column hsheet).mpr hreturns,
      (agrees_toRelativeAddress_scannedA1 hshows' hreturns'.column hsheet').mpr hreturns'⟩

end Returns

/-- Whole columns, the first of which is absolute. -/
theorem rangeReturns_excelA1_iff_columns :
    RangeReturns .excelA1 (oneSheet "A") (fun _ ↦ ' ') ⟨0, 3, 1⟩
        ⟨⟨0, rowUnset, 0, true, false, true⟩, ⟨0, rowUnset, 1, true, true, false⟩⟩ false ↔
      (⟨0, rowUnset, 0, true, false, true⟩ : Address).CornerReturnsA1 ⟨0, 3, 1⟩ ∧
        (⟨0, rowUnset, 1, true, true, false⟩ : Address).CornerReturnsA1 ⟨0, 3, 1⟩ ∧
        (rowUnset ≠ rowUnset → 0 ≤ (0 : Int) ∧ (0 : Int) < (oneSheet "A").sheets.length ∨
          (⟨0, rowUnset, 0, true, false, true⟩ : Address).rowFrom ⟨0, 3, 1⟩ < rowUpperBound) :=
  rangeReturns_excelA1_iff rfl rfl (.inr (by decide)) (.inr (by decide))
    ⟨fun h ↦ absurd rfl h, fun _ ↦ by decide⟩ ⟨fun h ↦ absurd rfl h, fun _ ↦ by decide⟩ _

/-- The absolute rows `$1:$3` are resolved to relative ones. -/
theorem not_rangeReturns_excelA1 :
    ¬ ∀ (wb : Workbook) (pos : AbsAddress) (range : Range) (behind : ℕ → Char),
      range.first.sheetFrom pos = pos.sheet → range.last.sheetFrom pos = pos.sheet →
        range.first.ShowsCorner → range.last.ShowsCorner →
        (range.first.row = rowUnset ↔ range.last.row = rowUnset) →
        (range.first.column = columnUnset ↔ range.last.column = columnUnset) →
        range.first.InBounds pos wb.sheetSize → range.last.InBounds pos wb.sheetSize →
        RangeReturns .excelA1 wb behind pos range false := by
  intro h
  obtain ⟨s, hs, r, hr, hagrees, -⟩ := h (oneSheet "A") ⟨0, 0, 0⟩
    ⟨⟨0, 0, columnUnset, true, true, false⟩, ⟨0, 2, columnUnset, true, true, false⟩⟩ (fun _ ↦ ' ')
    rfl rfl (.inl (by decide)) (.inl (by decide)) (by decide) (by decide)
    ⟨fun _ ↦ by decide, fun h ↦ absurd rfl h⟩ ⟨fun _ ↦ by decide, fun h ↦ absurd rfl h⟩
  have hresolve : (FormulaNameResolverType.excelA1.resolve (some (oneSheet "A")) ⟨0, 0, 0⟩
      ['$', '1', ':', '$', '3']).eval (fun _ ↦ ' ') =
        .rangeReference ⟨⟨0, 0, columnUnset, true, false, true⟩,
          ⟨0, 2, columnUnset, true, false, true⟩⟩ := by
    decide +kernel
  cases hs
  cases hresolve.symm.trans hr
  exact absurd (hagrees.absRow (by decide)) nofun

end Ixion
