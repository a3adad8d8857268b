import Ixion.Resolver.Resolve

/-!
# Printing references

The names that the resolvers give to cells and ranges, with or without their sheets.  The
sheet name is quoted when it has a blank or a quote in it; whoever prints it must know
that the sheet exists.
-/

namespace Ixion

/-! ## Sheet names -/

/-- The name of a sheet, which must exist. -/
def Workbook.getSheetName (wb : Workbook) (sheet : Int) : Except Exn (List Char) :=
  match if 0 ≤ sheet then wb.sheets[sheet.toNat]? else none with
  | some ws => return ws.name.toList
  | none => throw (.invalidArgument s!"invalid sheet index: {sheet}")

/-- Whether a character makes quotes necessary. -/
def needsQuote (c : Char) : Bool := c = ' ' || c = '"' || c = '\''

/-- A sheet name in which every quote is doubled. -/
def doubleQuotes (name : List Char) : List Char :=
  name.flatMap fun c ↦ if c = '\'' then ['\'', '\''] else [c]

/-- A sheet name, in quotes if necessary. -/
def quoteSheetName (name : List Char) : List Char :=
  if name.any needsQuote then ['\''] ++ doubleQuotes name ++ ['\''] else name

/-- Print the name of a sheet.  Nothing is printed for an invalid index. -/
def appendSheetName (wb : Workbook) (sheet : Int) : Except Exn (List Char) :=
  if !isValidSheet sheet then return []
  else do
    let name ← wb.getSheetName sheet
    return quoteSheetName name

/-! ## Rows and columns -/

/-- Print a number. -/
def decimal (n : Int) : List Char :=
  if n < 0 then '-' :: Nat.toDigits 10 n.natAbs else Nat.toDigits 10 n.natAbs

/-- The loop of `append_column_name_a1`, which runs at most once for each number up to the
column. -/
def columnName : ℕ → Int → List Char
  | 0, _ => []
  | fuel + 1, col =>
    let rem := col.tmod 26
    let c := Char.ofNat (('A'.toNat : Int) + rem).toNat
    if col < 26 then [c] else columnName fuel ((col - rem) / 26 - 1) ++ [c]

/-- Print a column as letters. -/
def appendColumnNameA1 (col : Int) : List Char := columnName (col.toNat + 1) col

/-- A dollar sign for what is absolute. -/
def dollar (absolute : Bool) : List Char := if absolute then ['$'] else []

/-- Print a column, unless it is unset. -/
def appendColumnAddressA1 (col origin : Int) (absolute : Bool) : List Char :=
  if col = columnUnset then []
  else dollar absolute ++ appendColumnNameA1 (if absolute then col else col + origin)

/-- Print a row, unless it is unset. -/
def appendRowAddressA1 (row origin : Int) (absolute : Bool) : List Char :=
  if row = rowUnset then []
  else dollar absolute ++ decimal ((if absolute then row else row + origin) + 1)

/-! ## Addresses -/

namespace Address

/-- The sheet of an address seen from an origin. -/
def sheetFrom (addr : Address) (pos : AbsAddress) : Int :=
  if addr.absSheet then addr.sheet else addr.sheet + pos.sheet

/-- The row of an address seen from an origin. -/
def rowFrom (addr : Address) (pos : AbsAddress) : Int :=
  if addr.absRow then addr.row else addr.row + pos.row

/-- The column of an address seen from an origin. -/
def columnFrom (addr : Address) (pos : AbsAddress) : Int :=
  if addr.absColumn then addr.column else addr.column + pos.column

end Address

/-- Print a sheet and a separator, if there is a model context. -/
def appendSheet (cxt : Option Workbook) (sheet : Int) (sheetNameSep : Char) :
    Except Exn (List Char) :=
  match cxt with
  | some wb => do
    let name ← appendSheetName wb sheet
    return name ++ [sheetNameSep]
  | none => return []

/-- Row and column in A1 syntax. -/
def appendRowColumnA1 (row column : Int) (absRow absColumn : Bool) : List Char :=
  dollar absColumn ++ (appendColumnNameA1 column ++ (dollar absRow ++ decimal (row + 1)))

/-- Print an address in A1 syntax. -/
def appendAddressA1 (cxt : Option Workbook) (addr : Address) (pos : AbsAddress)
    (sheetNameSep : Char) : Except Exn (List Char) := do
  let sheet ← appendSheet cxt (addr.sheetFrom pos) sheetNameSep
  return sheet ++
    appendRowColumnA1 (addr.rowFrom pos) (addr.columnFrom pos) addr.absRow addr.absColumn

/-- Print an address in A1 syntax, with a separator even without a sheet. -/
def appendAddressA1WithSheetNameSep (cxt : Option Workbook) (addr : Address) (pos : AbsAddress)
    (sheetNameSep : Char) : Except Exn (List Char) := do
  let s ← appendAddressA1 cxt addr pos sheetNameSep
  return if cxt.isNone then sheetNameSep :: s else s

/-- A row or column in R1C1 syntax after its letter. -/
def appendNumberR1C1 (n : Int) (absolute : Bool) : List Char :=
  if absolute then decimal (n + 1) else if n ≠ 0 then ['['] ++ decimal n ++ [']'] else []

/-- Print an address in R1C1 syntax. -/
def appendAddressR1C1 (addr : Address) : List Char :=
  (if addr.row ≠ rowUnset then 'R' :: appendNumberR1C1 addr.row addr.absRow else []) ++
    (if addr.column ≠ columnUnset then 'C' :: appendNumberR1C1 addr.column addr.absColumn else [])

/-! ## Names of cells -/

section Names

variable (cxt : Option Workbook) (pos : AbsAddress) (sheetName : Bool)

/-- The model context, if the sheet is to be shown. -/
def shownContext : Option Workbook := if sheetName then cxt else none

/-- The name of a cell in Excel's A1 syntax. -/
def getNameExcelA1 (addr : Address) : Except Exn (List Char) :=
  appendAddressA1 (shownContext cxt sheetName) addr pos '!'

/-- The name of a cell in Excel's R1C1 syntax. -/
def getNameExcelR1C1 (addr : Address) : Except Exn (List Char) := do
  let sheet ← appendSheet (shownContext cxt sheetName) (addr.sheetFrom pos) '!'
  return sheet ++ appendAddressR1C1 addr

/-- The name of a cell in a syntax with a dot. -/
def getNameDotA1
    (appendAddress : Option Workbook → Address → AbsAddress → Char → Except Exn (List Char))
    (addr : Address) : Except Exn (List Char) := do
  let s ← appendAddress (shownContext cxt sheetName) addr pos '.'
  return dollar (sheetName && addr.absSheet) ++ s

/-- The name of a cell in ODFF syntax. -/
def getNameOdff (addr : Address) : Except Exn (List Char) :=
  if sheetName ∧ cxt.isSome then do
    let s ← appendAddressA1 cxt addr pos '.'
    return ['['] ++ dollar addr.absSheet ++ s ++ [']']
  else do
    let s ← appendAddressA1 none addr pos '.'
    return ['[', '.'] ++ s ++ [']']

end Names

/-- The name of a cell. -/
def FormulaNameResolverType.getName (type : FormulaNameResolverType) (cxt : Option Workbook)
    (addr : Address) (pos : AbsAddress) (sheetName : Bool) : Except Exn (List Char) :=
  match type with
  | .excelA1 => getNameExcelA1 cxt pos sheetName addr
  | .excelR1C1 => getNameExcelR1C1 cxt pos sheetName addr
  | .calcA1 => getNameDotA1 cxt pos sheetName appendAddressA1 addr
  | .odff => getNameOdff cxt pos sheetName addr
  | .odfCra => getNameDotA1 cxt pos sheetName appendAddressA1WithSheetNameSep addr

/-! ## Names of ranges -/

/-- Row and column of the corner of a range in A1 syntax, as far as they are set. -/
def appendCornerA1 (addr : Address) (pos : AbsAddress) : List Char :=
  appendColumnAddressA1 addr.column pos.column addr.absColumn ++
    appendRowAddressA1 addr.row pos.row addr.absRow

/-- Print the sheet of a corner in Calc's A1 syntax. -/
def appendSheetNameCalcA1 (cxt : Option Workbook) (addr : Address) (pos : AbsAddress) :
    Except Exn (List Char) := do
  let s ← appendSheet cxt (addr.sheetFrom pos) '.'
  return if cxt.isNone then s else dollar addr.absSheet ++ s

/-- Print the sheet of a corner in ODF cell-range-address syntax, which begins with a dot
when there is no sheet. -/
def appendSheetNameOdfCra (cxt : Option Workbook) (addr : Address) (pos : AbsAddress) :
    Except Exn (List Char) := do
  let s ← appendSheetNameCalcA1 cxt addr pos
  return if cxt.isNone then ['.'] else s

/-- Whether the sheet of the last corner is shown. -/
def displayLastSheet (range : Range) (pos : AbsAddress) : Bool :=
  range.first.absSheet ≠ range.last.absSheet ∨
    (range.toAbs pos).first.sheet ≠ (range.toAbs pos).last.sheet

section RangeNames

variable (cxt : Option Workbook) (pos : AbsAddress) (sheetName : Bool)

/-- The name of a range in Excel's A1 syntax.  The sheet of its end is ignored. -/
def getRangeNameExcelA1 (range : Range) : Except Exn (List Char) := do
  let sheet ← appendSheet (shownContext cxt sheetName) (range.first.sheetFrom pos) '!'
  return sheet ++ appendCornerA1 range.first pos ++ [':'] ++ appendCornerA1 range.last pos

/-- The name of a range in Excel's R1C1 syntax. -/
def getRangeNameExcelR1C1 (range : Range) : Except Exn (List Char) := do
  let sheet ← appendSheet (shownContext cxt sheetName) (range.first.sheetFrom pos) '!'
  return sheet ++ appendAddressR1C1 range.first ++ [':'] ++ appendAddressR1C1 range.last

/-- The name of a range in a syntax with a dot. -/
def getRangeNameDotA1
    (appendSheetName : Option Workbook → Address → AbsAddress → Except Exn (List Char))
    (range : Range) : Except Exn (List Char) := do
  let first ← appendSheetName (shownContext cxt sheetName) range.first pos
  let last ← appendSheetName
    (shownContext cxt (sheetName && displayLastSheet range pos)) range.last pos
  return first ++ appendCornerA1 range.first pos ++ [':'] ++
    last ++ appendCornerA1 range.last pos

/-- The name of a range in ODFF syntax.  The sheet of its end is shown when it differs from
that of its beginning. -/
def getRangeNameOdff (range : Range) : Except Exn (List Char) :=
  if sheetName ∧ cxt.isSome then do
    let differs : Bool := range.last.sheet ≠ range.first.sheet ∨
      range.last.absSheet ≠ range.first.absSheet
    let first ← appendAddressA1 cxt range.first pos '.'
    let last ← appendAddressA1 (if differs then cxt else none) range.last pos '.'
    return ['['] ++ dollar range.first.absSheet ++ first ++ [':'] ++
      (if differs then dollar range.last.absSheet else ['.']) ++ last ++ [']']
  else do
    let first ← appendAddressA1 none range.first pos '.'
    let last ← appendAddressA1 none range.last pos '.'
    return ['[', '.'] ++ first ++ [':', '.'] ++ last ++ [']']

end RangeNames

/-- The name of a range. -/
def FormulaNameResolverType.getRangeName (type : FormulaNameResolverType)
    (cxt : Option Workbook) (range : Range) (pos : AbsAddress) (sheetName : Bool) :
    Except Exn (List Char) :=
  match type with
  | .excelA1 => getRangeNameExcelA1 cxt pos sheetName range
  | .excelR1C1 => getRangeNameExcelR1C1 cxt pos sheetName range
  | .calcA1 => getRangeNameDotA1 cxt pos sheetName appendSheetNameCalcA1 range
  | .odff => getRangeNameOdff cxt pos sheetName range
  | .odfCra => getRangeNameDotA1 cxt pos sheetName appendSheetNameOdfCra range

end Ixion
