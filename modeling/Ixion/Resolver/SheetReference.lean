import Ixion.Resolver.Scanned
import Ixion.Resolver.SheetPrefix

/-!
# References to several sheets

A reference to two sheets is a range whose corners are on different sheets.  It is printed
with the name of the first sheet alone, so that what is printed is a reference to one sheet.
Everything else about a printed reference comes back, except for a few corners: those whose
unset coordinates are marked as absolute, and those that Excel's syntaxes cannot express.
-/

namespace Ixion

open Lib

/-! ## Corners -/

/-- What is unset of an address is not marked as absolute. -/
structure Address.UnsetRelative (a : Address) : Prop where
  row : a.row = rowUnset → a.absRow = false
  column : a.column = columnUnset → a.absColumn = false

/-- A corner is printed in A1 syntax in such a way that it is scanned as itself. -/
structure Address.ReprintsA1 (a : Address) (pos : AbsAddress) : Prop where
  shows : a.ShowsCorner
  unset : a.UnsetRelative
  absRow : a.column = columnUnset → a.absRow = false
  row : a.row ≠ rowUnset → 0 ≤ a.rowFrom pos ∧ a.RowReturns pos

/-- The corners of a range are printed in such a way that they are scanned as themselves. -/
def Range.Reprints (range : Range) (type : FormulaNameResolverType) (pos : AbsAddress) : Prop :=
  match type with
  | .excelR1C1 => range.first.showsLoneRow = false ∧ range.last.ShowsNumber ∧
      range.first.UnsetRelative ∧ range.last.UnsetRelative
  | _ => range.first.ReprintsA1 pos ∧ range.last.ReprintsA1 pos

section CornersA1

variable {pos : AbsAddress} {a b : Address}

/-- A scanned address that is made relative, on any sheet. -/
def Address.IsRelativeOf (a b : Address) (pos : AbsAddress) : Prop :=
  a = { toRelativeAddress b pos false with sheet := a.sheet }

theorem Address.IsRelativeOf.eq (h : a.IsRelativeOf b pos) :
    a = { toRelativeAddress b pos false with sheet := a.sheet } := h

theorem Address.IsRelativeOf.row (h : a.IsRelativeOf b pos) :
    a.row = unshift b.absRow b.row pos.row rowUpperBound := congrArg Address.row h.eq

theorem Address.IsRelativeOf.column (h : a.IsRelativeOf b pos) :
    a.column = unshift b.absColumn b.column pos.column columnUpperBound :=
  congrArg Address.column h.eq

theorem Address.IsRelativeOf.absSheet (h : a.IsRelativeOf b pos) : a.absSheet = b.absSheet :=
  (congrArg Address.absSheet h.eq).trans rfl

theorem Address.IsRelativeOf.absRow (h : a.IsRelativeOf b pos) : a.absRow = b.absRow :=
  (congrArg Address.absRow h.eq).trans rfl

theorem Address.IsRelativeOf.absColumn (h : a.IsRelativeOf b pos) : a.absColumn = b.absColumn :=
  (congrArg Address.absColumn h.eq).trans rfl

/-- The column of a scanned address is the same again. -/
theorem Address.IsRelativeOf.columnFrom_eq (h : a.IsRelativeOf b pos) (hb : b.InScanA1)
    (hset : a.column ≠ columnUnset) :
    a.columnFrom pos = b.column ∧ 0 ≤ b.column ∧ b.column < columnUpperBound := by
  rcases hb.column with hunset | ⟨hnonneg, hbound⟩
  · rw [h.column, hunset] at hset
    exact absurd (unshift_of_lt (by decide) _ _) hset
  · refine ⟨?_, hnonneg, hbound⟩
    rw [Address.columnFrom, h.column, h.absColumn, unshift]
    cases b.absColumn with
    | true => rfl
    | false =>
      rw [if_neg (by rintro ⟨⟩), if_pos ⟨rfl, hbound.le⟩]
      omega

/-- The row of a corner that comes back does not exceed the one that has been scanned. -/
theorem Address.IsRelativeOf.rowFrom_le (h : a.IsRelativeOf b pos)
    (hreturns : a.RowReturns pos) (hset : a.row ≠ rowUnset) :
    a.rowFrom pos ≤ b.row ∧ b.row ≠ rowUnset := by
  rw [Address.RowReturns] at hreturns
  rw [Address.rowFrom, h.absRow] at hreturns ⊢
  have hrow := h.row
  rw [unshift] at hrow
  cases habs : b.absRow with
  | true =>
    simp only [habs, Bool.not_true, Bool.false_eq_true, false_and, if_false] at hrow
    simp only [if_true, hrow, le_refl, true_and]
    exact hrow ▸ hset
  | false =>
    simp only [habs, Bool.not_false, true_and, Bool.false_eq_true, if_false, false_or]
      at hrow hreturns ⊢
    split at hrow
    case isTrue hle =>
      refine ⟨by omega, ?_⟩
      rintro heq
      rw [heq] at hle
      exact absurd hle (by decide)
    case isFalse hgt =>
      refine ⟨?_, hrow ▸ hset⟩
      omega

/-- The flag of a row is scanned again if there is a column or the row is relative. -/
theorem decide_absRow (h : a.column = columnUnset → a.absRow = false) :
    decide (a.column ≠ columnUnset ∧ a.absRow = true) = a.absRow := by
  by_cases heq : a.column = columnUnset
  · simp [heq, h heq]
  · simp [heq]

/-- A corner that is printed and scanned again is the same corner. -/
theorem eq_toRelativeAddress_scannedA1 {start : Address} (habs : start.absSheet = a.absSheet)
    (hbound : a.column ≠ columnUnset → a.columnFrom pos < columnUpperBound) (shift : Bool)
    (sheet : Int) :
    { toRelativeAddress (a.scannedA1 pos start) pos shift with sheet } = a ↔
      sheet = a.sheet ∧ a.UnsetRelative ∧ (a.column = columnUnset → a.absRow = false) ∧
        (a.row ≠ rowUnset → a.RowReturns pos) := by
  have hrow : a.row ≠ rowUnset →
      (toRelativeAddress (a.scannedA1 pos start) pos shift).row =
        unshift (a.column ≠ columnUnset ∧ a.absRow = true) (a.rowFrom pos) pos.row
          rowUpperBound := by
    intro hset
    rw [row_toRelativeAddress]
    simp only [Address.scannedA1, hset, if_false, ne_eq, not_false_eq_true, true_and]
  constructor
  · intro h
    have habsRow :
        decide (a.row ≠ rowUnset ∧ a.column ≠ columnUnset ∧ a.absRow = true) = a.absRow :=
      congrArg Address.absRow h
    have habsColumn : (if a.column = columnUnset then a.absRow else a.absColumn) = a.absColumn :=
      congrArg Address.absColumn h
    have hunset : a.column = columnUnset → a.absRow = false := by
      intro heq
      rw [← habsRow]
      simp [heq]
    refine ⟨congrArg Address.sheet h, ⟨?_, ?_⟩, hunset, fun hset ↦ unshift_rowFrom.mp ?_⟩
    · intro heq
      rw [← habsRow]
      simp [heq]
    · intro heq
      rw [← habsColumn, if_pos heq, hunset heq]
    · have heq := congrArg Address.row h
      change (toRelativeAddress (a.scannedA1 pos start) pos shift).row = a.row at heq
      rwa [hrow hset, decide_absRow hunset] at heq
  · rintro ⟨hsheet, hunset, habsRow, hreturns⟩
    have hflag := decide_absRow habsRow
    apply Address.ext
    · exact hsheet
    · show (toRelativeAddress (a.scannedA1 pos start) pos shift).row = a.row
      by_cases hset : a.row = rowUnset
      · rw [row_toRelativeAddress, Address.scannedA1]
        simp only [hset, if_true]
        exact unshift_of_lt (by decide) _ _
      · rw [hrow hset, hflag]
        exact unshift_rowFrom.mpr (hreturns hset)
    · show (toRelativeAddress (a.scannedA1 pos start) pos shift).column = a.column
      rw [column_toRelativeAddress, Address.scannedA1]
      by_cases hset : a.column = columnUnset
      · simp only [hset, if_true]
        exact unshift_of_lt (by decide) _ _
      · simp only [if_neg hset]
        exact unshift_columnFrom (hbound hset).le
    · exact habs
    · show decide (a.row ≠ rowUnset ∧ a.column ≠ columnUnset ∧ a.absRow = true) = a.absRow
      by_cases hset : a.row = rowUnset
      · simp [hset, hunset.row hset]
      · simpa only [hset, ne_eq, not_false_eq_true, true_and] using hflag
    · show (if a.column = columnUnset then a.absRow else a.absColumn) = a.absColumn
      split
      case isTrue heq => rw [habsRow heq, hunset.column heq]
      case isFalse => rfl

/-- The bounds that addresses on a sheet are checked against. -/
theorem exists_sheetBounds (cxt : Option Workbook) (sheet : Int) :
    ∃ size : RcSize, ∀ a : Address, a.sheet = sheet →
      (checkAddressBySheetBounds cxt a = true ↔
        (a.row = rowUnset ∨ |a.row| < size.row) ∧
          (a.column = columnUnset ∨ |a.column| < size.column)) := by
  cases cxt with
  | none =>
    refine ⟨⟨rowUpperBound, columnUpperBound⟩, fun a _ ↦ ?_⟩
    rw [checkAddressBySheetBounds, decide_eq_true_eq]
  | some wb =>
    refine ⟨if 0 ≤ sheet ∧ sheet < wb.sheets.length then wb.sheetSize
      else ⟨rowUpperBound, columnUpperBound⟩, fun a ha ↦ ?_⟩
    rw [checkAddressBySheetBounds, decide_eq_true_eq, ha]

/-- The check of the first corner is passed again. -/
theorem checkAddressBySheetBounds_reprints {cxt : Option Workbook} (h : a.IsRelativeOf b pos)
    (hb : b.InScanA1) (hsheet : b.sheet = pos.sheet) (hreprints : a.ReprintsA1 pos)
    (hcheck : checkAddressBySheetBounds cxt b = true) :
    checkAddressBySheetBounds cxt (a.scannedA1 pos (startA1 pos true)) = true := by
  obtain ⟨size, hsize⟩ := exists_sheetBounds cxt pos.sheet
  obtain ⟨hrow, hcolumn⟩ := (hsize b hsheet).mp hcheck
  refine (hsize _ rfl).mpr ⟨?_, ?_⟩
  · by_cases hset : a.row = rowUnset
    · exact .inl (if_pos hset)
    · right
      obtain ⟨hnonneg, hreturns⟩ := hreprints.row hset
      obtain ⟨hle, hne⟩ := h.rowFrom_le hreturns hset
      show |if a.row = rowUnset then rowUnset else a.rowFrom pos| < size.row
      have hlt := hrow.resolve_left hne
      rw [abs_of_nonneg hb.row] at hlt
      rw [if_neg hset, abs_of_nonneg hnonneg]
      exact hle.trans_lt hlt
  · by_cases hset : a.column = columnUnset
    · exact .inl (if_pos hset)
    · right
      show |if a.column = columnUnset then columnUnset else a.columnFrom pos| < size.column
      obtain ⟨heq, -, hbound⟩ := h.columnFrom_eq hb hset
      rw [if_neg hset, heq]
      refine hcolumn.resolve_left fun hunset ↦ ?_
      rw [hunset] at hbound
      exact absurd hbound (by decide)

end CornersA1

/-! ## Corners of a range that has been resolved -/

section Resolved

variable {cxt : Option Workbook} {pos : AbsAddress} {f : ℕ → Char} {n : ℕ} {sheets : SheetRange}
  {p : List Char} {a b : Address} {r : Range}

/-- The corners of a cell on two sheets, up to the sheets. -/
theorem SheetRange.cell_eq_range (h : sheets.cell a = .rangeReference r) :
    r.first = { a with sheet := r.first.sheet } ∧ r.last = { a with sheet := r.last.sheet } := by
  rw [cell] at h
  split at h
  · split at h
    · cases h
      exact ⟨rfl, rfl⟩
    · exact absurd h (by rintro ⟨⟩)
  · exact absurd h (by rintro ⟨⟩)

/-- The corners of a range, up to the sheets. -/
theorem SheetRange.range_eq_range (h : sheets.range a b = .rangeReference r) :
    r.first = { a with sheet := r.first.sheet } ∧ r.last = { b with sheet := r.last.sheet } := by
  rw [range] at h
  split at h
  · split at h
    · cases h
      exact ⟨rfl, rfl⟩
    · cases h
      exact ⟨rfl, rfl⟩
  · cases h
    exact ⟨rfl, rfl⟩

/-- An address that Excel's A1 scanner has found. -/
structure Address.FoundExcelA1 (a : Address) (pos : AbsAddress) : Prop where
  inScan : a.InScanA1
  absSheet : a.absSheet = true

theorem foundExcelA1_parseAddressExcelA1 {addr : Address}
    (h : (parseAddressExcelA1 p addr).result ≠ .invalid) :
    (parseAddressExcelA1 p addr).addr.FoundExcelA1 pos :=
  ⟨inScanA1_parseAddressA1 rfl h, (sheet_parseAddressA1Loop .column _ p).2⟩

/-- The corners of a range in A1 syntax are addresses that have been scanned, and the first one
has passed the check. -/
theorem corners_resolveAddressExcelA1
    (h : (resolveAddressExcelA1 cxt pos n sheets p).eval f = .rangeReference r) :
    ∃ b b', (r.first.IsRelativeOf b pos ∧ b.FoundExcelA1 pos) ∧
      (r.last.IsRelativeOf b' pos ∧ b'.FoundExcelA1 pos) ∧ b.sheet = pos.sheet ∧
        checkAddressBySheetBounds cxt b = true := by
  have hsheet := (sheet_parseAddressA1Loop .column ⟨pos.sheet, 0, 0, true, false, false⟩ p).1
  rcases (eval_resolveAddressExcelA1_eq_reference (FormulaName.isReference_range r) rfl rfl).mp h
    with ⟨⟨hvalid, hcheck, -⟩, heq⟩ | ⟨⟨hexpected, hcheck⟩, hvalid, heq⟩
  · obtain ⟨hfirst, hlast⟩ := SheetRange.cell_eq_range heq
    have hfound : (parseAddressExcelA1 p ⟨pos.sheet, 0, 0, false, false, false⟩).addr.FoundExcelA1
        pos := foundExcelA1_parseAddressExcelA1 (by rw [hvalid]; exact nofun)
    exact ⟨_, _, ⟨hfirst, hfound⟩, ⟨hlast, hfound⟩, hsheet, hcheck⟩
  · obtain ⟨hfirst, hlast⟩ := SheetRange.range_eq_range heq
    exact ⟨_, _, ⟨hfirst, foundExcelA1_parseAddressExcelA1 (by rw [hexpected]; exact nofun)⟩,
      ⟨hlast, foundExcelA1_parseAddressExcelA1 (by rw [hvalid]; exact nofun)⟩, hsheet, hcheck⟩

/-- The corners of a range in R1C1 syntax. -/
theorem corners_resolveAddressExcelR1C1
    (h : (resolveAddressExcelR1C1 pos n sheets p).eval f = .rangeReference r) :
    (r.first.AbsoluteNonneg ∧ r.first.absSheet = true) ∧
      r.last.AbsoluteNonneg ∧ r.last.absSheet = true := by
  have hfound : ∀ {q : Pointer} {addr : Address} {a : Address} {sheet : Int},
      ((parseAddressExcelR1C1 q addr).eval f).result ≠ .invalid →
      a = { ((parseAddressExcelR1C1 q addr).eval f).addr with sheet } →
        a.AbsoluteNonneg ∧ a.absSheet = true := by
    rintro q addr a sheet hne rfl
    have hnonneg := nonneg_parseAddressR1C1 (f := f) (p := q) hne
    exact ⟨⟨hnonneg.row, hnonneg.column⟩, (keeps_parseAddressR1C1 q _).absSheet⟩
  rcases (eval_resolveAddressExcelR1C1_eq_reference (FormulaName.isReference_range r) rfl
    rfl).mp h with ⟨hvalid, heq⟩ | ⟨hexpected, -, hvalid, heq⟩
  · obtain ⟨hfirst, hlast⟩ := SheetRange.cell_eq_range heq
    exact ⟨hfound (by rw [hvalid]; exact nofun) hfirst, hfound (by rw [hvalid]; exact nofun) hlast⟩
  · obtain ⟨hfirst, hlast⟩ := SheetRange.range_eq_range heq
    exact ⟨hfound (by rw [hexpected]; exact nofun) hfirst,
      hfound (by rw [hvalid]; exact nofun) hlast⟩

end Resolved

/-! ## Result -/

/-- A character of a sheet name that means nothing to any scanner, as letters and digits do. -/
def isPlainSheetChar (c : Char) : Bool :=
  !needsQuote c && !endsExcelSheet c && c ≠ '.' && c ≠ '$'

/-- The names of the sheets have plain characters only. -/
def Workbook.PlainNames (wb : Workbook) : Prop :=
  ∀ ws ∈ wb.sheets, ∀ c ∈ ws.name.toList, isPlainSheetChar c = true

/-- The name of a range with its sheet is resolved to that range again. -/
def RangeReprints (type : FormulaNameResolverType) (wb : Workbook) (behind : ℕ → Char)
    (pos : AbsAddress) (r : Range) : Prop :=
  ∃ s, type.getRangeName (some wb) r pos true = .ok s ∧
    (type.resolve (some wb) pos s).eval behind = .rangeReference r

theorem isPlainSheetChar_of_isAlphanum {c : Char} (h : c.isAlphanum = true) :
    isPlainSheetChar c = true := by
  have hne : ∀ d : Char, d.isAlphanum = false → c ≠ d := by
    rintro d hd rfl
    exact absurd (hd.symm.trans h) nofun
  simp [isPlainSheetChar, needsQuote, endsExcelSheet, hne ' ' rfl, hne '"' rfl, hne '\'' rfl,
    hne '!' rfl, hne ':' rfl, hne '.' rfl, hne '$' rfl]

/-- Names of letters and digits are plain. -/
theorem Workbook.plainNames_of_isAlphanum {wb : Workbook}
    (h : ∀ ws ∈ wb.sheets, ∀ c ∈ ws.name.toList, c.isAlphanum = true) : wb.PlainNames :=
  fun ws hws c hc ↦ isPlainSheetChar_of_isAlphanum (h ws hws c hc)

/-- Whether the names are of letters and digits can be checked one by one. -/
theorem Workbook.isAlphanum_of_all {wb : Workbook}
    (h : (wb.sheets.all fun ws ↦ ws.name.toList.all Char.isAlphanum) = true) :
    ∀ ws ∈ wb.sheets, ∀ c ∈ ws.name.toList, c.isAlphanum = true :=
  fun ws hws c hc ↦ List.all_eq_true.mp (List.all_eq_true.mp h ws hws) c hc

section Result

variable {type : FormulaNameResolverType} {wb : Workbook} {behind : ℕ → Char} {pos : AbsAddress}
  {P : SheetPrefix} {ref name : List Char} {r : Range}

/-- The sheet that is found by a name has that name. -/
theorem getSheetName_getSheetIndex (h : wb.getSheetIndex name ≠ invalidSheet) :
    wb.getSheetName (wb.getSheetIndex name) = .ok name ∧ name ≠ [] := by
  rw [Workbook.getSheetIndex] at h ⊢
  split at h
  case h_1 i hi =>
    obtain ⟨hlt, hp, -⟩ := List.findIdx?_eq_some_iff_getElem.mp hi
    rw [decide_eq_true_eq] at hp
    refine ⟨?_, ?_⟩
    · rw [Workbook.getSheetName, if_pos (Int.natCast_nonneg i), Int.toNat_natCast,
        List.getElem?_eq_getElem hlt]
      exact congrArg Except.ok hp.2
    · rintro rfl
      exact hp.1 (String.toList_eq_nil_iff.mp hp.2)
  case h_2 => exact absurd rfl h

/-- A sheet whose name is plain is written without quotes. -/
theorem appendSheet_of_plain (hplain : ∀ c ∈ name, isPlainSheetChar c = true) {sheet : Int}
    (hname : wb.getSheetName sheet = .ok name) :
    appendSheet (some wb) sheet '!' = .ok (name ++ ['!']) := by
  have hquote : name.any needsQuote = false := by
    rw [List.any_eq_false]
    intro c hc hneeds
    have h := hplain c hc
    rw [isPlainSheetChar, hneeds] at h
    exact absurd h nofun
  have hvalid : isValidSheet sheet = true := decide_eq_true (getSheetName_eq_ok hname).1
  rw [appendSheet, appendSheetName, hvalid, hname]
  show Except.ok (quoteSheetName name ++ ['!']) = _
  rw [quoteSheetName, hquote]
  rfl

/-- A plain name in front of a reference. -/
theorem wellFormed_of_plain (hplain : ∀ c ∈ name, isPlainSheetChar c = true) :
    (⟨false, none, name⟩ : SheetPrefix).WellFormed ∧ (⟨false, none, name⟩ : SheetPrefix).Scans := by
  have hnot : ∀ d, isPlainSheetChar d = false → d ∉ name :=
    fun d hd h ↦ absurd (hd.symm.trans (hplain d h)) nofun
  have hmem : ∀ x ∈ (⟨false, none, name⟩ : SheetPrefix).names, x = name :=
    fun x hx ↦ List.mem_singleton.mp hx
  refine ⟨⟨fun x hx ↦ ?_, fun _ x hx ↦ ?_, fun _ ↦ ?_⟩, fun x hx c hc ↦ ?_⟩
  · rw [hmem x hx]
    exact hnot ':' rfl
  · rw [hmem x hx]
    exact hnot '!' rfl
  · intro hhead
    exact hnot '\'' rfl (List.mem_of_mem_head? hhead)
  · rw [hmem x hx] at hc
    have h := hplain c hc
    simp only [isPlainSheetChar, Bool.and_eq_true, Bool.not_eq_true'] at h
    exact h.1.1.1

/-- The first sheet of a resolved range has a name. -/
theorem exists_name_of_resolve_write (htype : type = .excelA1 ∨ type = .excelR1C1)
    (hwf : P.WellFormed)
    (hr : (type.resolve (some wb) pos (P.write ref)).eval behind = .rangeReference r) :
    ∃ name, r.first.sheet = wb.getSheetIndex name ∧ wb.getSheetIndex name ≠ invalidSheet := by
  obtain ⟨hreference, hsheets⟩ := @resolve_write type wb behind pos P ref htype hwf
  rw [hr] at hreference hsheets
  obtain ⟨hname2, -, -⟩ := hreference.mp (FormulaName.isReference_range r)
  have heq := hsheets (FormulaName.isReference_range r)
  simp only [FormulaName.sheets, Option.some.injEq, Prod.mk.injEq] at heq
  rw [heq.1]
  split
  case isTrue hne =>
    rw [SheetPrefix.sheets] at hne ⊢
    cases hname1 : P.name1 with
    | none =>
      rw [hname1] at hne
      exact absurd rfl hne
    | some name1 =>
      rw [hname1] at hne
      exact ⟨name1, rfl, hne⟩
  case isFalse => exact ⟨P.name2, rfl, getSheetIndex_ne_invalid.mpr hname2⟩

/-- A range on one sheet is that range again if its corners are. -/
theorem range_eq_iff {sheet : Int} {a b : Address} :
    SheetRange.range ⟨true, invalidSheet, sheet⟩ a b = .rangeReference r ↔
      { a with sheet } = r.first ∧ { b with sheet } = r.last := by
  rw [SheetRange.range, if_pos rfl, if_neg fun h ↦ h rfl]
  constructor
  · intro h
    cases h
    exact ⟨rfl, rfl⟩
  · rintro ⟨h, h'⟩
    rw [h, h']

/-- An address in R1C1 syntax is scanned as itself if nothing unset of it is absolute and it is
not taken for the first row. -/
theorem eq_scannedR1C1 {a : Address} (habs : a.absSheet = true) (sheet : Int) (lone : Bool)
    (hlone : lone = true → a.showsLoneRow = true) :
    { a.scannedR1C1 (startA1 pos true) with
        absRow := (a.scannedR1C1 (startA1 pos true)).absRow || lone, sheet } = a ↔
      sheet = a.sheet ∧ a.UnsetRelative ∧ lone = false := by
  have hstart : (startA1 pos true).absRow = false ∧ (startA1 pos true).absColumn = false :=
    ⟨rfl, rfl⟩
  constructor
  · intro h
    have hrow : ((if a.row = rowUnset then (startA1 pos true).absRow else a.absRow) || lone) =
        a.absRow := congrArg Address.absRow h
    have hcolumn : (if a.column = columnUnset then (startA1 pos true).absColumn
        else a.absColumn) = a.absColumn := congrArg Address.absColumn h
    have hfalse : lone = false := by
      rw [Bool.eq_false_iff]
      intro htrue
      have hshows := hlone htrue
      rw [Address.showsLoneRow, decide_eq_true_eq] at hshows
      rw [htrue, Bool.or_true, hshows.2.2] at hrow
      exact absurd hrow (by rintro ⟨⟩)
    refine ⟨congrArg Address.sheet h, ⟨?_, ?_⟩, hfalse⟩
    · intro heq
      rw [← hrow, if_pos heq, hfalse, hstart.1]
      rfl
    · intro heq
      rw [← hcolumn, if_pos heq, hstart.2]
  · rintro ⟨hsheet, hunset, hfalse⟩
    apply Address.ext
    · exact hsheet
    · rfl
    · rfl
    · exact habs.symm
    · show ((if a.row = rowUnset then (startA1 pos true).absRow else a.absRow) || lone) = a.absRow
      rw [hfalse, Bool.or_false]
      split
      case isTrue heq => rw [hunset.row heq, hstart.1]
      case isFalse => rfl
    · show (if a.column = columnUnset then (startA1 pos true).absColumn else a.absColumn) =
        a.absColumn
      split
      case isTrue heq => rw [hunset.column heq, hstart.2]
      case isFalse => rfl

/-- What a range on one sheet is printed as: the sheet in front of two corners. -/
def writtenRange (type : FormulaNameResolverType) (pos : AbsAddress) (r : Range) : List Char :=
  match type with
  | .excelR1C1 => appendAddressR1C1 r.first ++ ':' :: appendAddressR1C1 r.last
  | _ => appendCornerA1 r.first pos ++ ':' :: appendCornerA1 r.last pos

/-- The name of a range on a sheet with a plain name. -/
theorem getRangeName_of_plain (htype : type = .excelA1 ∨ type = .excelR1C1)
    (hplain : ∀ c ∈ name, isPlainSheetChar c = true)
    (hname : wb.getSheetName (r.first.sheetFrom pos) = .ok name) :
    type.getRangeName (some wb) r pos true =
      .ok ((⟨false, none, name⟩ : SheetPrefix).write (writtenRange type pos r)) := by
  have hsheet := appendSheet_of_plain hplain hname
  have hwrite : ∀ ref : List Char,
      (⟨false, none, name⟩ : SheetPrefix).write ref = name ++ ['!'] ++ ref := by
    intro ref
    rw [List.append_assoc]
    rfl
  rw [hwrite]
  rcases htype with rfl | rfl
  · show getRangeNameExcelA1 (some wb) pos true r = _
    rw [getRangeNameExcelA1, shownContext, if_pos rfl, hsheet]
    show Except.ok _ = Except.ok _
    simp only [writtenRange, List.append_assoc, List.cons_append, List.nil_append]
  · show getRangeNameExcelR1C1 (some wb) pos true r = _
    rw [getRangeNameExcelR1C1, shownContext, if_pos rfl, hsheet]
    show Except.ok _ = Except.ok _
    simp only [writtenRange, List.append_assoc, List.cons_append, List.nil_append]

/-- A range that has been resolved in A1 syntax is resolved again, from what it is printed as,
to a range on one sheet. -/
theorem eval_resolveExcelA1_written {cxt : Option Workbook} {p : List Char} {n n' : ℕ}
    {sheets : SheetRange} {f : ℕ → Char} {sheet : Int}
    (h : (resolveAddressExcelA1 cxt pos n sheets p).eval f = .rangeReference r) :
    (resolveAddressExcelA1 cxt pos n' ⟨true, invalidSheet, sheet⟩
        (writtenRange .excelA1 pos r)).eval behind = .rangeReference r ↔
      (sheet = r.first.sheet ∧ sheet = r.last.sheet) ∧ r.Reprints .excelA1 pos := by
  obtain ⟨b, b', ⟨hrel, hb⟩, ⟨hrel', hb'⟩, hsheet, hcheck⟩ := corners_resolveAddressExcelA1 h
  have hbound : r.first.column ≠ columnUnset → r.first.columnFrom pos < columnUpperBound := by
    intro hset
    obtain ⟨heq, -, hlt⟩ := hrel.columnFrom_eq hb.inScan hset
    rwa [heq]
  have hbound' : r.last.column ≠ columnUnset → r.last.columnFrom pos < columnUpperBound := by
    intro hset
    obtain ⟨heq, -, hlt⟩ := hrel'.columnFrom_eq hb'.inScan hset
    rwa [heq]
  have hnonneg : r.first.column ≠ columnUnset → 0 ≤ r.first.columnFrom pos := by
    intro hset
    obtain ⟨heq, hle, -⟩ := hrel.columnFrom_eq hb.inScan hset
    rwa [heq]
  have hnonneg' : r.last.column ≠ columnUnset → 0 ≤ r.last.columnFrom pos := by
    intro hset
    obtain ⟨heq, hle, -⟩ := hrel'.columnFrom_eq hb'.inScan hset
    rwa [heq]
  have hwritten : writtenRange .excelA1 pos r =
      appendCornerA1 r.first pos ++ ':' :: appendCornerA1 r.last pos := rfl
  rw [hwritten, eval_resolveAddressExcelA1_corners hnonneg hnonneg', range_eq_iff,
    eq_toRelativeAddress_scannedA1 (hrel.absSheet.trans hb.absSheet).symm hbound,
    eq_toRelativeAddress_scannedA1 (hrel'.absSheet.trans hb'.absSheet).symm hbound']
  constructor
  · rintro ⟨hscans, hscans', -, ⟨hfirst, hunset, habs, hrow⟩, ⟨hlast, hunset', habs', hrow'⟩⟩
    exact ⟨⟨hfirst, hlast⟩,
      ⟨hscans.shows, hunset, habs, fun hset ↦ ⟨hscans.row hset, hrow hset⟩⟩,
      ⟨hscans'.shows, hunset', habs', fun hset ↦ ⟨hscans'.row hset, hrow' hset⟩⟩⟩
  · rintro ⟨⟨hfirst, hlast⟩, hreprints, hreprints'⟩
    refine ⟨⟨hreprints.shows, fun hset ↦ (hreprints.row hset).1, hbound⟩,
      ⟨hreprints'.shows, fun hset ↦ (hreprints'.row hset).1, hbound'⟩,
      checkAddressBySheetBounds_reprints hrel hb.inScan hsheet hreprints hcheck,
      ⟨hfirst, hreprints.unset, hreprints.absRow, fun hset ↦ (hreprints.row hset).2⟩,
      ⟨hlast, hreprints'.unset, hreprints'.absRow, fun hset ↦ (hreprints'.row hset).2⟩⟩

/-- The same in R1C1 syntax. -/
theorem eval_resolveExcelR1C1_written {p : List Char} {n n' : ℕ} {sheets : SheetRange}
    {f : ℕ → Char} {sheet : Int}
    (h : (resolveAddressExcelR1C1 pos n sheets p).eval f = .rangeReference r) :
    (resolveAddressExcelR1C1 pos n' ⟨true, invalidSheet, sheet⟩
        (writtenRange .excelR1C1 pos r)).eval behind = .rangeReference r ↔
      (sheet = r.first.sheet ∧ sheet = r.last.sheet) ∧ r.Reprints .excelR1C1 pos := by
  obtain ⟨⟨hnonneg, habs⟩, hnonneg', habs'⟩ := corners_resolveAddressExcelR1C1 h
  have hlast := @eq_scannedR1C1 pos r.last habs' sheet false nofun
  simp only [Bool.or_false, and_true] at hlast
  rw [writtenRange, eval_resolveAddressExcelR1C1_corners hnonneg hnonneg', range_eq_iff,
    eq_scannedR1C1 habs _ _ id, hlast]
  constructor
  · rintro ⟨hnumber, ⟨hfirst, hunset, hlone⟩, hlast, hunset'⟩
    exact ⟨⟨hfirst, hlast⟩, hlone, hnumber, hunset, hunset'⟩
  · rintro ⟨⟨hfirst, hlast⟩, hlone, hnumber, hunset, hunset'⟩
    exact ⟨hnumber, ⟨hfirst, hunset, hlone⟩, hlast, hunset'⟩

end Result

/-- A workbook with two sheets. -/
def twoSheets (name name' : String) : Workbook :=
  { oneSheet name with sheets := [⟨name, []⟩, ⟨name', []⟩] }

end Ixion
