import Ixion.Resolver.DotName

/-!
# References inside the sheets

The first corner of a reference is checked against the size of the sheets and must be on a sheet
that exists.  The last corner of a range is only scanned: its sheet may be unknown, its row or
column may be outside the sheet, and it may be a whole column after a cell.
-/

namespace Ixion

open Lib

/-! ## Statement -/

/-- There is a sheet with an index. -/
def Workbook.IsSheet (wb : Workbook) (sheet : Int) : Prop :=
  0 ≤ sheet ∧ sheet < wb.sheets.length

/-- An address on a sheet that exists, whose row and column are inside the sheet as far as they
are set. -/
structure AbsAddress.InsideSheet (a : AbsAddress) (wb : Workbook) : Prop where
  sheet : wb.IsSheet a.sheet
  row : a.row = rowUnset ∨ 0 ≤ a.row ∧ a.row < wb.sheetSize.row
  column : a.column = columnUnset ∨ 0 ≤ a.column ∧ a.column < wb.sheetSize.column

/-- The same coordinates of both corners are set. -/
structure SameShape (first last : AbsAddress) : Prop where
  row : first.row = rowUnset ↔ last.row = rowUnset
  column : first.column = columnUnset ↔ last.column = columnUnset

/-- A name is no reference, or one whose absolute form stays inside the sheets. -/
def FormulaName.InsideSheets (name : FormulaName) (wb : Workbook) (pos : AbsAddress) : Prop :=
  match name with
  | .cellReference a => (a.toAbs pos).InsideSheet wb
  | .rangeReference r =>
    ((r.toAbs pos).first.InsideSheet wb ∧ (r.toAbs pos).last.InsideSheet wb) ∧
      SameShape (r.toAbs pos).first (r.toAbs pos).last
  | _ => True

/-- What is scanned as an address: what follows the sheets in Excel's syntax, and everything in
Calc's. -/
def FormulaNameResolverType.addressPart (type : FormulaNameResolverType) (wb : Workbook)
    (s : List Char) : List Char :=
  match type with
  | .excelA1 => (resolveSheets (some wb) s).2
  | _ => s

/-- The scanner of one corner. -/
def FormulaNameResolverType.parseCornerA1 (type : FormulaNameResolverType) (wb : Workbook)
    (p : List Char) (addr : Address) : Scan (ParsedAddress (List Char)) :=
  match type with
  | .excelA1 => return parseAddressExcelA1 p addr
  | _ => parseAddressCalcA1 (some wb) p addr

section Corners

variable (type : FormulaNameResolverType) (wb : Workbook) (behind : ℕ → Char) (pos : AbsAddress)
  (s : List Char)

/-- The first corner as it is scanned. -/
def firstCorner : ParsedAddress (List Char) :=
  (type.parseCornerA1 wb (type.addressPart wb s)
    ⟨pos.sheet, 0, 0, false, false, false⟩).eval behind

/-- The last corner as it is scanned, on the sheet of the first one if it has none. -/
def lastCorner : ParsedAddress (List Char) :=
  (type.parseCornerA1 wb (firstCorner type wb behind pos s).p.tail
    (firstCorner type wb behind pos s).addr).eval behind

/-- Two corners are scanned, and the first one is accepted. -/
structure ScansRange : Prop where
  function : resolveFunction s = none
  sheets : type = .excelA1 → resolveTable (some wb) s = none ∧ (resolveSheets (some wb) s).1.Found
  sheet : (firstCorner type wb behind pos s).addr.sheet ≠ invalidSheet
  first : AcceptedFirstA1 (some wb) (firstCorner type wb behind pos s)
  last : (lastCorner type wb behind pos s).result = .validAddress

/-- The last corner would be accepted as a first one, and fits the first one. -/
structure LastCornerFits : Prop where
  sheet : (lastCorner type wb behind pos s).addr.sheet ≠ invalidSheet
  bounds : checkAddressBySheetBounds (some wb) (lastCorner type wb behind pos s).addr = true
  row : (firstCorner type wb behind pos s).addr.row = rowUnset ↔
    (lastCorner type wb behind pos s).addr.row = rowUnset
  column : (firstCorner type wb behind pos s).addr.column = columnUnset ↔
    (lastCorner type wb behind pos s).addr.column = columnUnset

end Corners

/-! ## Sheets -/

section Sheets

variable {wb : Workbook}

/-- A name is that of a sheet or not found. -/
theorem isSheet_getSheetIndex (name : List Char) :
    wb.getSheetIndex name = invalidSheet ∨ wb.IsSheet (wb.getSheetIndex name) := by
  rw [Workbook.getSheetIndex]
  split
  case h_1 i hi =>
    obtain ⟨hlt, -, -⟩ := List.findIdx?_eq_some_iff_getElem.mp hi
    exact .inr ⟨Int.natCast_nonneg i, Int.ofNat_lt.mpr hlt⟩
  case h_2 => exact .inl rfl

theorem Workbook.IsSheet.ne_invalid {sheet : Int} (h : wb.IsSheet sheet) :
    sheet ≠ invalidSheet := by
  rintro rfl
  exact absurd h.1 (by decide)

/-- Sheets that exist, as far as they are found. -/
def SheetRange.Known (sheets : SheetRange) (wb : Workbook) : Prop :=
  (sheets.sheet1 = invalidSheet ∨ wb.IsSheet sheets.sheet1) ∧
    (sheets.sheet2 = invalidSheet ∨ wb.IsSheet sheets.sheet2)

theorem known_parseExcelSheetNameQuotedLoop {sheet1 : Int} {wasQuote : Bool}
    {name p : List Char} (hsheet : sheet1 = invalidSheet ∨ wb.IsSheet sheet1)
    {r : SheetRange × List Char}
    (h : parseExcelSheetNameQuotedLoop wb sheet1 wasQuote name p = some r) : r.1.Known wb := by
  fun_induction parseExcelSheetNameQuotedLoop wb sheet1 wasQuote name p with
  | case2 =>
    cases h
    exact ⟨hsheet, isSheet_getSheetIndex _⟩
  | case1 | case3 | case4 => exact absurd h (by rintro ⟨⟩)
  | case5 _ _ _ _ _ _ ih => exact ih (isSheet_getSheetIndex _) h
  | case6 _ _ _ _ _ _ ih => exact ih hsheet h
  | case7 _ _ _ _ _ _ _ _ ih => exact ih hsheet h

theorem known_parseExcelSheetNameLoop {sheet1 : Int} {name p : List Char}
    (hsheet : sheet1 = invalidSheet ∨ wb.IsSheet sheet1) {r : SheetRange × List Char}
    (h : parseExcelSheetNameLoop wb sheet1 name p = .ok r) : r.1.Known wb := by
  fun_induction parseExcelSheetNameLoop wb sheet1 name p with
  | case2 =>
    cases h
    exact ⟨hsheet, isSheet_getSheetIndex _⟩
  | case1 | case3 | case5 => exact absurd h (by rintro ⟨⟩)
  | case4 _ _ _ _ _ ih => exact ih (isSheet_getSheetIndex _) h
  | case6 _ _ _ _ _ _ _ ih => exact ih hsheet h

theorem known_resolveSheets (s : List Char) : (resolveSheets (some wb) s).1.Known wb := by
  show (parseExcelSheetName wb s).1.Known wb
  rw [parseExcelSheetName]
  split
  · split
    case h_1 r hr => exact known_parseExcelSheetNameQuotedLoop (.inl rfl) hr
    case h_2 => exact ⟨.inl rfl, .inl rfl⟩
  · split
    case h_1 r hr => exact known_parseExcelSheetNameLoop (.inl rfl) hr
    case h_2 => exact ⟨.inl rfl, .inl rfl⟩

theorem isSheet_parseSheetNameFrom {sep c : Char} {p : List Char} {r : Int × List Char}
    (h : parseSheetNameFrom wb sep c p = some r) : r.1 = invalidSheet ∨ wb.IsSheet r.1 := by
  have hquoted : ∀ {name q : List Char}, parseSheetNameQuotedLoop wb sep name q = some r →
      r.1 = invalidSheet ∨ wb.IsSheet r.1 := by
    intro name q hq
    fun_induction parseSheetNameQuotedLoop wb sep name q with
    | case1 | case2 | case5 => exact absurd hq (by rintro ⟨⟩)
    | case6 =>
      cases hq
      exact isSheet_getSheetIndex _
    | case3 _ _ _ ih => exact ih hq
    | case4 _ _ ih => exact ih hq
    | case7 _ _ _ _ _ ih => exact ih hq
  rw [parseSheetNameFrom] at h
  split at h
  · exact hquoted h
  · split at h
    case h_1 => exact absurd h (by rintro ⟨⟩)
    case h_2 =>
      cases h
      exact isSheet_getSheetIndex _

end Sheets

/-! ## Corners -/

section Inside

variable {wb : Workbook} {pos : AbsAddress} {a b a' b' : Address}

theorem sheet_toAbs (hpos : pos.valid = true) (a : Address) :
    (a.toAbs pos).sheet = a.sheetFrom pos := by
  have hvalid : isValidSheet pos.sheet = true := by
    simp only [AbsAddress.valid, decide_eq_true_eq] at hpos
    exact decide_eq_true hpos.1
  rw [Address.toAbs, Address.sheetFrom, hvalid]
  cases a.absSheet <;> rfl

/-- Row and column of a corner are those that have been scanned. -/
theorem Address.IsRelativeOf.toAbs (h : a.IsRelativeOf b pos) (hpos : pos.valid = true) :
    (a.toAbs pos).row = b.row ∧ (a.toAbs pos).column = b.column := by
  rw [h.eq]
  exact toAbs_toRelativeAddress b hpos false

/-- On a sheet that exists, the check of the size is about the sheets. -/
theorem checkAddressBySheetBounds_iff (hb : b.InScanA1) (hsheet : wb.IsSheet b.sheet) :
    checkAddressBySheetBounds (some wb) b = true ↔
      (b.row = rowUnset ∨ 0 ≤ b.row ∧ b.row < wb.sheetSize.row) ∧
        (b.column = columnUnset ∨ 0 ≤ b.column ∧ b.column < wb.sheetSize.column) := by
  have hrow := hb.row
  have hcolumn : 0 ≤ b.column := by
    rcases hb.column with heq | ⟨hle, -⟩
    · rw [heq]
      decide
    · exact hle
  rw [checkAddressBySheetBounds, decide_eq_true_eq]
  simp only [if_pos (show 0 ≤ b.sheet ∧ b.sheet < wb.sheets.length from hsheet),
    abs_of_nonneg hrow, abs_of_nonneg hcolumn, hrow, hcolumn, true_and]

/-- A corner stays inside a sheet exactly when its sheet is found and it passes the check of its
size. -/
theorem Address.IsRelativeOf.insideSheet_iff (h : a.IsRelativeOf b pos)
    (hpos : pos.valid = true) (hb : b.InScanA1)
    (hknown : b.sheet = invalidSheet ∨ wb.IsSheet b.sheet)
    (hsheet : wb.IsSheet (a.sheetFrom pos) ↔ b.sheet ≠ invalidSheet) :
    (a.toAbs pos).InsideSheet wb ↔
      b.sheet ≠ invalidSheet ∧ checkAddressBySheetBounds (some wb) b = true := by
  obtain ⟨hrow, hcolumn⟩ := h.toAbs hpos
  constructor
  · rintro ⟨hs, hr, hc⟩
    rw [sheet_toAbs hpos] at hs
    rw [hrow] at hr
    rw [hcolumn] at hc
    have hne := hsheet.mp hs
    exact ⟨hne, (checkAddressBySheetBounds_iff hb (hknown.resolve_left hne)).mpr ⟨hr, hc⟩⟩
  · rintro ⟨hne, hcheck⟩
    obtain ⟨hr, hc⟩ := (checkAddressBySheetBounds_iff hb (hknown.resolve_left hne)).mp hcheck
    refine ⟨?_, ?_, ?_⟩
    · rw [sheet_toAbs hpos]
      exact hsheet.mpr hne
    · rw [hrow]
      exact hr
    · rw [hcolumn]
      exact hc

/-- Two corners have the same shape as what has been scanned. -/
theorem Address.IsRelativeOf.sameShape_iff (h : a.IsRelativeOf b pos) (h' : a'.IsRelativeOf b' pos)
    (hpos : pos.valid = true) :
    SameShape (a.toAbs pos) (a'.toAbs pos) ↔
      (b.row = rowUnset ↔ b'.row = rowUnset) ∧
      (b.column = columnUnset ↔ b'.column = columnUnset) := by
  obtain ⟨hrow, hcolumn⟩ := h.toAbs hpos
  obtain ⟨hrow', hcolumn'⟩ := h'.toAbs hpos
  constructor
  · rintro ⟨hr, hc⟩
    rw [hrow, hrow'] at hr
    rw [hcolumn, hcolumn'] at hc
    exact ⟨hr, hc⟩
  · rintro ⟨hr, hc⟩
    refine ⟨?_, ?_⟩
    · rw [hrow, hrow']
      exact hr
    · rw [hcolumn, hcolumn']
      exact hc

end Inside

/-! ## Excel's syntax -/

section Excel

variable {wb : Workbook} {pos : AbsAddress} {behind : ℕ → Char} {s : List Char}

theorem isSheet_origin (hpos : pos.valid = true) (hsheet : pos.sheet < wb.sheets.length) :
    wb.IsSheet pos.sheet := by
  simp only [AbsAddress.valid, decide_eq_true_eq] at hpos
  exact ⟨hpos.1, hsheet⟩

/-- The sheets of a reference exist: those in front of it if there are any, or else that of the
origin. -/
theorem isSheet_of_found {sheets : SheetRange} (hknown : sheets.Known wb) (hfound : sheets.Found)
    (hpresent : sheets.present = true) :
    wb.IsSheet sheets.sheet2 ∧ (sheets.sheet1 ≠ invalidSheet → wb.IsSheet sheets.sheet1) :=
  ⟨hknown.2.resolve_left fun h ↦ hfound ⟨hpresent, h⟩, hknown.1.resolve_left⟩

/-- A cell that has been scanned is inside the sheets. -/
theorem insideSheets_cell (hpos : pos.valid = true) (hsheet : pos.sheet < wb.sheets.length)
    {sheets : SheetRange} (hknown : sheets.Known wb) (hfound : sheets.Found) {b : Address}
    (hb : b.FoundExcelA1 pos) (hbsheet : b.sheet = pos.sheet)
    (hcheck : checkAddressBySheetBounds (some wb) b = true) :
    (sheets.cell (toRelativeAddress b pos false)).InsideSheets wb pos := by
  have horigin := isSheet_origin hpos hsheet
  have hinside : ∀ sheet : Int, wb.IsSheet sheet →
      (({ toRelativeAddress b pos false with sheet } : Address).toAbs pos).InsideSheet wb := by
    intro sheet hs
    have hrel : ({ toRelativeAddress b pos false with sheet } : Address).IsRelativeOf b pos := rfl
    have hfrom : ({ toRelativeAddress b pos false with sheet } : Address).sheetFrom pos = sheet :=
      if_pos hb.absSheet
    have hknown' : wb.IsSheet b.sheet := hbsheet ▸ horigin
    refine (hrel.insideSheet_iff hpos hb.inScan (.inr hknown') ?_).mpr ⟨hknown'.ne_invalid, hcheck⟩
    rw [hfrom]
    exact iff_of_true hs hknown'.ne_invalid
  have hshape : ∀ sheet sheet' : Int, SameShape
      (({ toRelativeAddress b pos false with sheet } : Address).toAbs pos)
      (({ toRelativeAddress b pos false with sheet := sheet' } : Address).toAbs pos) :=
    fun _ _ ↦ ⟨Iff.rfl, Iff.rfl⟩
  rw [SheetRange.cell]
  split
  case isTrue hpresent =>
    obtain ⟨hsheet2, hsheet1⟩ := isSheet_of_found hknown hfound hpresent
    split
    case isTrue hne => exact ⟨⟨hinside _ (hsheet1 hne), hinside _ hsheet2⟩, hshape _ _⟩
    case isFalse => exact hinside _ hsheet2
  case isFalse =>
    have heta : toRelativeAddress b pos false =
        { toRelativeAddress b pos false with sheet := b.sheet } := by
      rw [← sheet_toRelativeAddress b pos]
    rw [heta]
    exact hinside _ (hbsheet ▸ horigin)

/-- A range that has been scanned is inside the sheets exactly when its last corner is accepted
as the first one has been. -/
theorem insideSheets_range (hpos : pos.valid = true) (hsheet : pos.sheet < wb.sheets.length)
    {sheets : SheetRange} (hknown : sheets.Known wb) (hfound : sheets.Found) {b b' : Address}
    (hb : b.FoundExcelA1 pos) (hb' : b'.FoundExcelA1 pos) (hbsheet : b.sheet = pos.sheet)
    (hbsheet' : b'.sheet = pos.sheet)
    (hcheck : checkAddressBySheetBounds (some wb) b = true) :
    (sheets.range (toRelativeAddress b pos false)
        { toRelativeAddress b' pos false with sheet := b.sheet }).InsideSheets wb pos ↔
      checkAddressBySheetBounds (some wb) b' = true ∧ (b.row = rowUnset ↔ b'.row = rowUnset) ∧
        (b.column = columnUnset ↔ b'.column = columnUnset) := by
  have horigin := isSheet_origin hpos hsheet
  have hinside : ∀ {c : Address} {sheet : Int}, c.FoundExcelA1 pos → c.sheet = pos.sheet →
      wb.IsSheet sheet →
        ((({ toRelativeAddress c pos false with sheet } : Address).toAbs pos).InsideSheet wb ↔
          checkAddressBySheetBounds (some wb) c = true) := by
    intro c sheet hc hcsheet hs
    have hrel : ({ toRelativeAddress c pos false with sheet } : Address).IsRelativeOf c pos := rfl
    have hfrom : ({ toRelativeAddress c pos false with sheet } : Address).sheetFrom pos = sheet :=
      if_pos hc.absSheet
    have hknown' : wb.IsSheet c.sheet := hcsheet ▸ horigin
    refine (hrel.insideSheet_iff hpos hc.inScan (.inr hknown') ?_).trans
      (and_iff_right hknown'.ne_invalid)
    rw [hfrom]
    exact iff_of_true hs hknown'.ne_invalid
  have hrange : ∀ {sheet sheet' : Int}, wb.IsSheet sheet → wb.IsSheet sheet' →
      ((FormulaName.rangeReference ⟨{ toRelativeAddress b pos false with sheet },
          { toRelativeAddress b' pos false with sheet := sheet' }⟩).InsideSheets wb pos ↔
        checkAddressBySheetBounds (some wb) b' = true ∧ (b.row = rowUnset ↔ b'.row = rowUnset) ∧
          (b.column = columnUnset ↔ b'.column = columnUnset)) := by
    intro sheet sheet' hs hs'
    have hrel : ({ toRelativeAddress b pos false with sheet } : Address).IsRelativeOf b pos := rfl
    have hrel' : ({ toRelativeAddress b' pos false with sheet := sheet' } : Address).IsRelativeOf b'
        pos := rfl
    have hshape := hrel.sameShape_iff hrel' hpos
    constructor
    · rintro ⟨⟨-, hlast⟩, hsame⟩
      exact ⟨(hinside hb' hbsheet' hs').mp hlast, hshape.mp hsame⟩
    · rintro ⟨hcheck', hsame⟩
      exact ⟨⟨(hinside hb hbsheet hs).mpr hcheck, (hinside hb' hbsheet' hs').mpr hcheck'⟩,
        hshape.mpr hsame⟩
  rw [SheetRange.range]
  split
  case isTrue hpresent =>
    obtain ⟨hsheet2, hsheet1⟩ := isSheet_of_found hknown hfound hpresent
    split
    case isTrue hne => exact hrange (hsheet1 hne) hsheet2
    case isFalse => exact hrange hsheet2 hsheet2
  case isFalse =>
    have heta : toRelativeAddress b pos false =
        { toRelativeAddress b pos false with sheet := b.sheet } := by
      rw [← sheet_toRelativeAddress b pos]
    rw [heta]
    exact hrange (hbsheet ▸ horigin) (hbsheet ▸ horigin)

/-- Names that are no references are inside the sheets. -/
theorem FormulaName.insideSheets_of_not_isReference {name : FormulaName}
    (h : ¬ name.IsReference) : name.InsideSheets wb pos := by
  cases name with
  | cellReference a => exact absurd (isReference_cell a) h
  | rangeReference r => exact absurd (isReference_range r) h
  | _ => trivial

/-- A name stays inside the sheets unless it is a range whose last corner does not fit. -/
theorem insideSheets_excelA1 (hpos : pos.valid = true) (hsheet : pos.sheet < wb.sheets.length) :
    ((resolveExcelA1 (some wb) pos s).eval behind).InsideSheets wb pos ↔
      (ScansRange .excelA1 wb behind pos s → LastCornerFits .excelA1 wb behind pos s) := by
  have horigin := isSheet_origin hpos hsheet
  set first := firstCorner .excelA1 wb behind pos s with hfirst
  set last := lastCorner .excelA1 wb behind pos s with hlast
  have hscan : parseAddressExcelA1 (resolveSheets (some wb) s).2
      ⟨pos.sheet, 0, 0, false, false, false⟩ = first := rfl
  have hscan' : parseAddressExcelA1 first.p.tail (toRelativeAddress first.addr pos false) =
      last := by
    have hclear : (toRelativeAddress first.addr pos false).cleared = first.addr.cleared := by
      simp [toRelativeAddress, Address.cleared]
    rw [hlast, parseAddressExcelA1, hclear]
    rfl
  have hbsheet : first.addr.sheet = pos.sheet := (sheet_parseAddressA1Loop _ _ _).1
  have hbsheet' : last.addr.sheet = pos.sheet :=
    (sheet_parseAddressA1Loop _ _ _).1.trans hbsheet
  have hfound : first.result ≠ .invalid → first.addr.FoundExcelA1 pos :=
    fun h ↦ foundExcelA1_parseAddressExcelA1 h
  have hfound' : last.result ≠ .invalid → last.addr.FoundExcelA1 pos :=
    fun h ↦ foundExcelA1_parseAddressExcelA1 h
  have hknown := @known_resolveSheets wb s
  by_cases href : ((resolveExcelA1 (some wb) pos s).eval behind).IsReference
  · obtain ⟨-, hfunction, htable, hsheets, heq⟩ :=
      (eval_resolveExcelA1_eq_reference href).mp rfl
    rcases (eval_resolveAddressExcelA1_eq_reference href hscan hscan').mp heq with
      ⟨⟨hvalid, hcheck, -⟩, hname⟩ | ⟨⟨hexpected, hcheck⟩, hvalid, hname⟩
    · -- a single cell
      rw [← hname]
      refine iff_of_true (insideSheets_cell hpos hsheet hknown hsheets
        (hfound (by rw [hvalid]; rintro ⟨⟩)) hbsheet hcheck) fun hrange ↦ ?_
      exact absurd (hvalid.symm.trans hrange.first.1) (by rintro ⟨⟩)
    · rw [← hname, insideSheets_range hpos hsheet hknown hsheets
        (hfound (by rw [hexpected]; rintro ⟨⟩)) (hfound' (by rw [hvalid]; rintro ⟨⟩)) hbsheet
        hbsheet' hcheck]
      constructor
      · rintro ⟨hcheck', hrow, hcolumn⟩ -
        exact ⟨hbsheet' ▸ horigin.ne_invalid, hcheck', hrow, hcolumn⟩
      · intro hfits
        obtain ⟨-, hcheck', hrow, hcolumn⟩ := hfits ⟨hfunction, fun _ ↦ ⟨htable, hsheets⟩,
          hbsheet ▸ horigin.ne_invalid, ⟨hexpected, hcheck⟩, hvalid⟩
        exact ⟨hcheck', hrow, hcolumn⟩
  · refine iff_of_true (FormulaName.insideSheets_of_not_isReference href) fun hrange ↦ ?_
    obtain ⟨htable, hsheets⟩ := hrange.sheets rfl
    have hne : s ≠ [] := by
      rintro rfl
      exact absurd hrange.first.1 (by rintro ⟨⟩)
    have hname := (eval_resolveAddressExcelA1_eq_reference (f := behind) (n := s.length)
      ((resolveSheets (some wb) s).1.isReference_range _ _) hscan hscan').mpr
        (.inr ⟨hrange.first, hrange.last, rfl⟩)
    have heq := (eval_resolveExcelA1_eq_reference
      ((resolveSheets (some wb) s).1.isReference_range _ _)).mpr
        ⟨hne, hrange.function, htable, hsheets, hname⟩
    rw [heq] at href
    exact absurd (SheetRange.isReference_range _ _ _) href

end Excel

/-! ## Calc's syntax -/

section Calc

variable {wb : Workbook} {pos : AbsAddress} {behind : ℕ → Char} {s p : List Char}

/-- The scanner of A1-style addresses does not look at the sheet. -/
theorem parseAddressA1Loop_withSheet (mode : ResolverParseMode) (addr : Address) (p : List Char)
    (sheet : Int) :
    parseAddressA1Loop mode { addr with sheet } p =
      { parseAddressA1Loop mode addr p with
        addr := { (parseAddressA1Loop mode addr p).addr with sheet } } := by
  have hfinish : ∀ (mode : ResolverParseMode) (addr : Address),
      finishAddressA1 mode { addr with sheet } =
        (finishAddressA1 mode addr).map fun a ↦ { a with sheet } := by
    intro mode addr
    unfold finishAddressA1
    cases mode with
    | row => by_cases h : addr.row = 0 <;> simp [h]
    | column => by_cases h : addr.column = 0 <;> simp [h]
  induction p generalizing mode addr with
  | nil =>
    rw [parseAddressA1Loop, parseAddressA1Loop, hfinish]
    cases finishAddressA1 mode addr <;> rfl
  | cons c cs ih =>
    simp only [parseAddressA1Loop]
    split_ifs
    · rfl
    · rfl
    · exact ih mode { addr with column := addr.column * 26 + columnDigit c.toUpper }
    · rfl
    · exact ih .row { addr with row := addr.row * 10 + digitValue c }
    · rw [hfinish]
      cases finishAddressA1 mode addr <;> rfl
    · exact ih .row { addr with absRow := true }
    · exact ih .column { addr with absColumn := true }
    · rfl

/-- A corner is scanned on the sheet with its name, or else on the given sheet. -/
theorem parseAddressCalcA1_cases (wb : Workbook) (behind : ℕ → Char) (p : List Char) :
    (∃ (start : Address) (rest : List Char), start.cleared = start ∧
        (start.sheet = invalidSheet ∨ wb.IsSheet start.sheet) ∧
        ∀ addr : Address, (parseAddressCalcA1 (some wb) p addr).eval behind =
          { parseAddressA1 rest start with sheetName := true }) ∨
      ∀ addr : Address, (parseAddressCalcA1 (some wb) p addr).eval behind =
        parseAddressA1 p addr.cleared := by
  have heval : ∀ addr : Address, (parseAddressCalcA1 (some wb) p addr).eval behind =
      parseAddressAfterSheet p addr.cleared ((parseSheetName wb '.' p).eval behind) :=
    fun addr ↦ Query.eval_bind _ _ _
  cases hsheet : (parseSheetName wb '.' p).eval behind with
  | none =>
    right
    intro addr
    rw [heval, hsheet]
    rfl
  | some r =>
    left
    obtain ⟨sheet, rest⟩ := r
    refine ⟨⟨sheet, 0, 0, p.head? = some '$', false, false⟩, rest.tail, rfl, ?_, fun addr ↦ ?_⟩
    · rw [parseSheetName, Query.eval_bind, Query.eval_bind, Query.eval_pure] at hsheet
      exact isSheet_parseSheetNameFrom hsheet
    · rw [heval, hsheet]
      rfl

/-- There is no address in nothing. -/
theorem result_parseAddressCalcA1_nil (addr : Address) :
    ((parseAddressCalcA1 (some wb) [] addr).eval behind).result = .invalid := by
  have hsheet : (parseSheetName wb '.' []).eval behind = none :=
    parseSheetName_eq_none List.not_mem_nil List.not_mem_nil
  rw [parseAddressCalcA1, Query.eval_bind, parseSheetNameOf, hsheet]
  rfl

/-- What the scanner accepts is an address on a sheet with a name or on the given sheet. -/
theorem found_parseAddressCalcA1 {addr : Address} :
    (((parseAddressCalcA1 (some wb) p addr).eval behind).result ≠ .invalid →
        ((parseAddressCalcA1 (some wb) p addr).eval behind).addr.InScanA1) ∧
      ((((parseAddressCalcA1 (some wb) p addr).eval behind).addr.sheet = invalidSheet ∨
          wb.IsSheet ((parseAddressCalcA1 (some wb) p addr).eval behind).addr.sheet) ∨
        ((parseAddressCalcA1 (some wb) p addr).eval behind).addr.sheet = addr.sheet) := by
  rcases parseAddressCalcA1_cases wb behind p with ⟨start, rest, hclear, hknown, heq⟩ | heq
  · rw [heq]
    refine ⟨fun h ↦ inScanA1_parseAddressA1 hclear h, .inl ?_⟩
    rw [show (parseAddressA1 rest start).addr.sheet = start.sheet from
      (sheet_parseAddressA1Loop _ _ _).1]
    exact hknown
  · rw [heq]
    exact ⟨fun h ↦ inScanA1_parseAddressA1 rfl h, .inr (sheet_parseAddressA1Loop _ _ _).1⟩

/-- The last corner of a range is the one that is scanned on the sheet of the first corner, made
relative. -/
theorem lastCorner_calcA1 (b : Address) :
    ((parseAddressCalcA1 (some wb) p (toRelativeAddress b pos true)).eval behind).result =
        ((parseAddressCalcA1 (some wb) p b).eval behind).result ∧
      ∃ a : Address, toRelativeAddress
          ((parseAddressCalcA1 (some wb) p (toRelativeAddress b pos true)).eval behind).addr pos
          ((parseAddressCalcA1 (some wb) p (toRelativeAddress b pos true)).eval behind).sheetName =
            a ∧
        a.IsRelativeOf ((parseAddressCalcA1 (some wb) p b).eval behind).addr pos ∧
        a.sheetFrom pos = ((parseAddressCalcA1 (some wb) p b).eval behind).addr.sheet := by
  rcases parseAddressCalcA1_cases wb behind p with ⟨start, rest, -, -, heq⟩ | heq
  · rw [heq, heq]
    exact ⟨rfl, _, rfl, rfl, sheetFrom_toRelativeAddress _ pos⟩
  · set x := (toRelativeAddress b pos true).sheet with hx
    have hclear : (toRelativeAddress b pos true).cleared = { b.cleared with sheet := x } := rfl
    have hsheet : (parseAddressA1 p b.cleared).addr.sheet = b.sheet ∧
        (parseAddressA1 p b.cleared).addr.absSheet = b.absSheet := sheet_parseAddressA1Loop _ _ _
    have hname : (parseAddressA1 p b.cleared).sheetName = false :=
      sheetName_parseAddressA1Loop _ _ _
    have hscan : parseAddressA1 p { b.cleared with sheet := x } = _ :=
      parseAddressA1Loop_withSheet .column b.cleared p x
    rw [heq, heq, hclear, hscan]
    refine ⟨rfl, toRelativeAddress { (parseAddressA1 p b.cleared).addr with sheet := x } pos false,
      ?_, rfl, ?_⟩
    · show toRelativeAddress { (parseAddressA1 p b.cleared).addr with sheet := x } pos
        (parseAddressA1 p b.cleared).sheetName = _
      rw [hname]
    · rw [hsheet.1, ← sheetFrom_toRelativeAddress b pos, Address.sheetFrom, sheet_toRelativeAddress]
      show (if (parseAddressA1 p b.cleared).addr.absSheet then x else x + pos.sheet) = _
      rw [hsheet.2]
      rfl

/-- A name stays inside the sheets unless it is a range whose last corner does not fit. -/
theorem insideSheets_calcA1 (hpos : pos.valid = true) (hsheet : pos.sheet < wb.sheets.length) :
    ((resolveDotA1 (some wb) pos parseAddressCalcA1 s).eval behind).InsideSheets wb pos ↔
      (ScansRange .calcA1 wb behind pos s → LastCornerFits .calcA1 wb behind pos s) := by
  have horigin := isSheet_origin hpos hsheet
  set first := firstCorner .calcA1 wb behind pos s with hfirst
  set last := lastCorner .calcA1 wb behind pos s with hlast
  have hscan : (parseAddressCalcA1 (some wb) s ⟨pos.sheet, 0, 0, false, false, false⟩).eval behind =
      first := rfl
  obtain ⟨hresult, a', ha', hrel', hfrom'⟩ :=
    @lastCorner_calcA1 wb pos behind first.p.tail first.addr
  have hrel : (toRelativeAddress first.addr pos true).IsRelativeOf first.addr pos := rfl
  obtain ⟨hfound, hknown⟩ := @found_parseAddressCalcA1 wb behind s
    ⟨pos.sheet, 0, 0, false, false, false⟩
  rw [hscan] at hfound hknown
  obtain ⟨hfound', hknown'⟩ := @found_parseAddressCalcA1 wb behind first.p.tail first.addr
  have hsheets : first.addr.sheet = invalidSheet ∨ wb.IsSheet first.addr.sheet :=
    hknown.elim id fun heq ↦ .inr (heq ▸ horigin)
  have hsheets' : last.addr.sheet = invalidSheet ∨ wb.IsSheet last.addr.sheet :=
    hknown'.elim id fun heq ↦ by
      rw [show last.addr.sheet = first.addr.sheet from heq]
      exact hsheets
  have hfrom : wb.IsSheet ((toRelativeAddress first.addr pos true).sheetFrom pos) ↔
      first.addr.sheet ≠ invalidSheet := by
    rw [sheetFrom_toRelativeAddress]
    exact ⟨Workbook.IsSheet.ne_invalid, hsheets.resolve_left⟩
  have hfrom'' : wb.IsSheet (a'.sheetFrom pos) ↔ last.addr.sheet ≠ invalidSheet := by
    rw [hfrom']
    exact ⟨Workbook.IsSheet.ne_invalid, hsheets'.resolve_left⟩
  cases hfunction : resolveFunction s with
  | some name =>
    refine iff_of_true (FormulaName.insideSheets_of_not_isReference ?_) fun hrange ↦ ?_
    · rw [resolveDotA1, hfunction]
      split
      · exact FormulaName.not_isReference_invalid
      · exact not_isReference_resolveFunction hfunction
    · exact absurd (hfunction.symm.trans hrange.function) (by rintro ⟨⟩)
  | none =>
    have hcell := fun a ↦
      @eval_resolveDotA1_eq_cell (some wb) pos behind a s parseAddressCalcA1 first
      hfunction hscan
    have hrange := fun r ↦ @eval_resolveDotA1_eq_range (some wb) pos behind r s parseAddressCalcA1
      first _ hfunction hscan rfl
    simp only [ha', hresult] at hrange
    cases hname : (resolveDotA1 (some wb) pos parseAddressCalcA1 s).eval behind with
    | cellReference a =>
      obtain ⟨-, hne, ⟨hvalid, hcheck, -⟩, rfl⟩ := (hcell a).mp hname
      refine iff_of_true ?_ fun hscans ↦ absurd (hvalid.symm.trans hscans.first.1) (by rintro ⟨⟩)
      exact (hrel.insideSheet_iff hpos (hfound (by rw [hvalid]; rintro ⟨⟩)) hsheets hfrom).mpr
        ⟨hne, hcheck⟩
    | rangeReference r =>
      obtain ⟨-, hne, ⟨hexpected, hcheck⟩, -, hvalid, rfl⟩ := (hrange r).mp hname
      have hfirst := (hrel.insideSheet_iff hpos (hfound (by rw [hexpected]; rintro ⟨⟩)) hsheets
        hfrom).mpr ⟨hne, hcheck⟩
      have hlast :=
        hrel'.insideSheet_iff hpos (hfound' (by rw [hvalid]; rintro ⟨⟩)) hsheets' hfrom''
      have hshape := hrel.sameShape_iff hrel' hpos
      constructor
      · rintro ⟨⟨-, hinside⟩, hsame⟩ -
        obtain ⟨hne', hcheck'⟩ := hlast.mp hinside
        obtain ⟨hrow, hcolumn⟩ := hshape.mp hsame
        exact ⟨hne', hcheck', hrow, hcolumn⟩
      · intro hfits
        obtain ⟨hne', hcheck', hrow, hcolumn⟩ :=
          hfits ⟨hfunction, (by rintro ⟨⟩), hne, ⟨hexpected, hcheck⟩, hvalid⟩
        exact ⟨⟨hfirst, hlast.mpr ⟨hne', hcheck'⟩⟩, hshape.mpr ⟨hrow, hcolumn⟩⟩
    | _ =>
      refine iff_of_true trivial fun hscans ↦ ?_
      have hne : s ≠ [] := by
        rintro rfl
        exact absurd (hscans.first.1.symm.trans (result_parseAddressCalcA1_nil _)) (by rintro ⟨⟩)
      have hne' : first.p.tail ≠ [] := by
        intro hnil
        have hvalid : ((parseAddressCalcA1 (some wb) first.p.tail first.addr).eval behind).result =
            .validAddress := hscans.last
        rw [hnil] at hvalid
        exact absurd (hvalid.symm.trans (result_parseAddressCalcA1_nil _)) (by rintro ⟨⟩)
      have heq := (hrange _).mpr ⟨hne, hscans.sheet, hscans.first, hne', hscans.last, rfl⟩
      exact absurd (hname.symm.trans heq) (by rintro ⟨⟩)

end Calc

/-! ## Result -/

end Ixion
