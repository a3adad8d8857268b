import Ixion.Resolver.Function
import Ixion.Resolver.Scan

/-!
# Resolving names

The name resolvers.  Each of them first looks for a built-in function, then for a
reference in its own syntax; everything else is a named expression, unless the name of a
function is found once more where the scanner of addresses has stopped.
-/

namespace Ixion

open Lib

/-- The types of name resolvers. -/
inductive FormulaNameResolverType where
  | excelA1
  | excelR1C1
  | calcA1
  | odff
  | odfCra
deriving DecidableEq, Repr

/-- A table reference in a string, by the names that occur in it. -/
structure TableName where
  name : List Char
  columnFirst : List Char
  columnLast : List Char
  areas : ℕ
deriving DecidableEq, Repr

/-- What a name is resolved to. -/
inductive FormulaName where
  | invalid
  | cellReference (addr : Address)
  | rangeReference (range : Range)
  | tableReference (table : TableName)
  | namedExpression
  | function (func : FormulaFunction)
deriving DecidableEq, Repr

/-- The types of what a name is resolved to. -/
inductive FormulaName.NameType where
  | invalid
  | cellReference
  | rangeReference
  | tableReference
  | namedExpression
  | function
deriving DecidableEq, Repr

/-- The type of what a name is resolved to. -/
def FormulaName.type : FormulaName → NameType
  | .invalid => .invalid
  | .cellReference _ => .cellReference
  | .rangeReference _ => .rangeReference
  | .tableReference _ => .tableReference
  | .namedExpression => .namedExpression
  | .function _ => .function

/-! ## Functions and tables -/

/-- The built-in function with a name, if there is one. -/
def resolveFunction (s : List Char) : Option FormulaName :=
  (FormulaFunctions.getFunctionOpcode s).map .function

/-- A built-in function, or else a named expression.  The name is the given number of
characters from where the pointer is now. -/
def resolveFunctionOrName (p : Pointer) (n : ℕ) : Scan FormulaName := do
  let s ← p.readString n
  return (resolveFunction s).getD .namedExpression

namespace TableName

/-- What `resolve_table` knows about the part of the name that it has read. -/
structure State where
  scope : ℕ
  lastColumnPos : Option ℕ
  buf : List Char
  tableName : List Char
  names : List (List Char)
  tableDetected : Bool

/-- Read one character of a table reference. -/
def State.push (st : State) (c : Char) : Option State :=
  if c = '[' then
    if 2 ≤ st.scope then none
    else if st.buf.isEmpty then some { st with tableDetected := true, scope := st.scope + 1 }
    else if st.scope ≠ 0 then none
    else some { st with
      tableDetected := true
      tableName := st.buf
      buf := []
      scope := st.scope + 1 }
  else if c = ']' then
    -- non-matching brace
    if st.scope = 0 then none
    else if st.buf.isEmpty then some { st with scope := st.scope - 1 }
    else some { st with names := st.names ++ [st.buf], buf := [], scope := st.scope - 1 }
  else if c = ',' then if st.buf.isEmpty then some st else none
  else if c = ':' then
    -- allowed only inside the first scope
    if st.scope ≠ 1 ∨ !st.buf.isEmpty ∨ st.names.isEmpty then none
    else some { st with lastColumnPos := some st.names.length }
  else some { st with buf := st.buf ++ [c] }

/-- Take one name inside the brackets: an area specifier or a column. -/
def addName (lastColumnPos : Option ℕ) (table : TableName) (i : ℕ) (name : List Char) :
    Option TableName :=
  if name.head? = some '#' then
    let area := String.ofList name.tail
    if area = "Headers" then some { table with areas := table.areas ||| 2 }
    else if area = "Data" then some { table with areas := table.areas ||| 1 }
    else if area = "Totals" then some { table with areas := table.areas ||| 4 }
    else if area = "All" then some { table with areas := 7 }
    else some table
  else if table.columnFirst ≠ [] then
    -- this is a second column name
    if table.columnLast ≠ [] ∨ some i ≠ lastColumnPos then none
    else some { table with columnLast := name }
  else some { table with
    areas := if table.areas = 0 then 1 else table.areas
    columnFirst := name }

end TableName

/-- Parse a table reference. -/
def resolveTable (cxt : Option Workbook) (s : List Char) : Option FormulaName := do
  let _ ← cxt
  let st ← s.foldlM TableName.State.push ⟨0, none, [], [], [], false⟩
  if !st.buf.isEmpty ∨ !st.tableDetected ∨ st.names.isEmpty then none
  else
    let table ← st.names.zipIdx.foldlM (fun table e ↦ table.addName st.lastColumnPos e.2 e.1)
      ⟨st.tableName, [], [], 0⟩
    return .tableReference table

/-! ## Addresses -/

/-- Whether row and column are within the size of the sheets, or within the upper
bounds if the sheet does not exist. -/
def checkAddressBySheetBounds (cxt : Option Workbook) (pos : Address) : Bool :=
  let bounds : RcSize := ⟨rowUpperBound, columnUpperBound⟩
  let ss : RcSize :=
    match cxt with
    | some wb => if 0 ≤ pos.sheet ∧ pos.sheet < wb.sheets.length then wb.sheetSize else bounds
    | none => bounds
  (pos.row = rowUnset ∨ |pos.row| < ss.row) ∧ (pos.column = columnUnset ∨ |pos.column| < ss.column)

/-- Make the relative components of an address relative to a position; that of the
sheet only on demand. -/
def toRelativeAddress (addr : Address) (pos : AbsAddress) (sheet : Bool) : Address :=
  { addr with
    sheet := if !addr.absSheet ∧ sheet then addr.sheet - pos.sheet else addr.sheet
    row := if !addr.absRow ∧ addr.row ≤ rowUpperBound then addr.row - pos.row else addr.row
    column :=
      if !addr.absColumn ∧ addr.column ≤ columnUpperBound then addr.column - pos.column
      else addr.column }

/-- The sheets of an Excel reference, and what follows them. -/
def resolveSheets (cxt : Option Workbook) (s : List Char) : SheetRange × List Char :=
  match cxt with
  | some wb =>
    let (sheets, p) := parseExcelSheetName wb s
    -- skip the '!'
    (sheets, if sheets.present then p.tail else p)
  | none => (.none false, s)

namespace SheetRange

/-- A single cell on the given sheets, which is a range when there are two of them. -/
def cell (sheets : SheetRange) (addr : Address) : FormulaName :=
  if sheets.present then
    if sheets.sheet1 ≠ invalidSheet then
      .rangeReference ⟨{ addr with sheet := sheets.sheet1 }, { addr with sheet := sheets.sheet2 }⟩
    else .cellReference { addr with sheet := sheets.sheet2 }
  else .cellReference addr

/-- A range on the given sheets. -/
def range (sheets : SheetRange) (first last : Address) : FormulaName :=
  if sheets.present then
    if sheets.sheet1 ≠ invalidSheet then
      .rangeReference
        ⟨{ first with sheet := sheets.sheet1 }, { last with sheet := sheets.sheet2 }⟩
    else
      .rangeReference
        ⟨{ first with sheet := sheets.sheet2 }, { last with sheet := sheets.sheet2 }⟩
  else .rangeReference ⟨first, last⟩

end SheetRange

/-! ## Resolvers -/

section Resolvers

variable (cxt : Option Workbook) (pos : AbsAddress)

/-- Resolve what follows the sheets of a reference in A1 syntax, in a name of length
`n`. -/
def resolveAddressExcelA1 (n : ℕ) (sheets : SheetRange) (p : List Char) : Scan FormulaName :=
  -- use the sheet where the cell is unless a sheet name is explicitly given
  let parsed := parseAddressExcelA1 p ⟨pos.sheet, 0, 0, false, false, false⟩
  let result :=
    if parsed.result ≠ .invalid ∧ !checkAddressBySheetBounds cxt parsed.addr then .invalid
    else parsed.result
  let addr := toRelativeAddress parsed.addr pos false
  -- prevent for example H to be recognized as column address
  if result = .validAddress ∧ parsed.addr.row ≠ rowUnset then return sheets.cell addr
  else if result = .rangeExpected then
    let p := parsed.p.tail
    -- ':' must not be the last character
    if p.isEmpty then return .invalid
    else
      let parsed₂ := parseAddressExcelA1 p addr
      if parsed₂.result ≠ .validAddress then return .invalid
      else
        let last := toRelativeAddress parsed₂.addr pos false
        return sheets.range addr { last with sheet := addr.sheet }
  else resolveFunctionOrName (.ofList parsed.p) n

/-- Resolve a name in Excel's A1 syntax. -/
def resolveExcelA1 (s : List Char) : Scan FormulaName :=
  if s.isEmpty then return .invalid
  else
    match resolveFunction s with
    | some name => return name
    | none =>
      match resolveTable cxt s with
      | some name => return name
      | none =>
        let (sheets, p) := resolveSheets cxt s
        -- sheet names given but not found in the model
        if sheets.present ∧ sheets.sheet2 = invalidSheet then return .invalid
        else resolveAddressExcelA1 cxt pos s.length sheets p

/-- Resolve what follows the sheets of a reference in R1C1 syntax, in a name of length
`n`. -/
def resolveAddressExcelR1C1 (n : ℕ) (sheets : SheetRange) (p : List Char) :
    Scan FormulaName := do
  let parsed ← parseAddressExcelR1C1 (.ofList p) ⟨pos.sheet, 0, 0, true, true, true⟩
  match parsed.result with
  | .validAddress => return sheets.cell parsed.addr
  | .rangeExpected =>
    let p := parsed.p.next
    if p.isEnd then return .invalid
    else
      let parsed₂ ← parseAddressExcelR1C1 p parsed.addr
      if parsed₂.result ≠ .validAddress then return .invalid
      else return sheets.range parsed.addr parsed₂.addr
  | .invalid => resolveFunctionOrName parsed.p n

/-- Resolve a name in Excel's R1C1 syntax. -/
def resolveExcelR1C1 (s : List Char) : Scan FormulaName :=
  if s.isEmpty then return .invalid
  else
    match resolveFunction s with
    | some name => return name
    | none =>
      let (sheets, p) := resolveSheets cxt s
      -- sheet names given but not found in the model
      if sheets.present ∧ sheets.sheet2 = invalidSheet then return .invalid
      else resolveAddressExcelR1C1 pos s.length sheets p

/-- Resolve a name in a syntax where a dot separates the sheet from the cell. -/
def resolveDotA1
    (parseAddress : Option Workbook → List Char → Address → Scan (ParsedAddress (List Char)))
    (s : List Char) : Scan FormulaName :=
  if s.isEmpty then return .invalid
  else
    match resolveFunction s with
    | some name => return name
    | none => do
      let parsed ← parseAddress cxt s ⟨pos.sheet, 0, 0, false, false, false⟩
      -- sheet name is not found in the model context
      if parsed.result ≠ .invalid ∧ parsed.addr.sheet = invalidSheet then return .invalid
      else
        let result :=
          if parsed.result ≠ .invalid ∧ !checkAddressBySheetBounds cxt parsed.addr then .invalid
          else parsed.result
        let addr := toRelativeAddress parsed.addr pos true
        -- prevent for example H to be recognized as column address
        if result = .validAddress ∧ parsed.addr.row ≠ rowUnset then return .cellReference addr
        else if result = .rangeExpected then
          let p := parsed.p.tail
          -- ':' must not be the last character
          if p.isEmpty then return .invalid
          else
            let parsed₂ ← parseAddress cxt p addr
            if parsed₂.result ≠ .validAddress then return .invalid
            else
              return .rangeReference
                ⟨addr, toRelativeAddress parsed₂.addr pos parsed₂.sheetName⟩
        else resolveFunctionOrName (.ofList parsed.p) s.length

/-- The characters behind the inner part of a bracketed name: the closing bracket, and
then those behind the name. -/
def behindBracket : ℕ → Scan Char
  | 0 => return ']'
  | k + 1 => Query.query k

/-- Resolve a reference in ODFF syntax, in a name of length `n`: what is between the
brackets. -/
def resolveAddressOdff (n : ℕ) (p : List Char) : Scan FormulaName := do
  let parsed ← parseAddressOdff cxt p ⟨pos.sheet, 0, 0, true, false, false⟩
  let addr := toRelativeAddress parsed.addr pos true
  -- prevent for example H to be recognized as column address
  if parsed.result = .validAddress ∧ parsed.addr.row ≠ rowUnset then
    return .cellReference addr
  else if parsed.result = .rangeExpected then
    let p := parsed.p.tail
    -- ':' must not be the last character
    if p.isEmpty then return .invalid
    else
      let parsed₂ ← parseAddressOdff cxt p addr
      if parsed₂.result ≠ .validAddress then return .invalid
      else
        return .rangeReference ⟨addr, toRelativeAddress parsed₂.addr pos parsed₂.sheetName⟩
  else resolveFunctionOrName (.ofList parsed.p) n

/-- Resolve a name in ODFF syntax. -/
def resolveOdff (s : List Char) : Scan FormulaName :=
  match resolveFunction s with
  | some name => return name
  | none =>
    match s with
    | [] => return .invalid
    | c :: cs =>
      -- the first character must be '[' for this to be a reference
      if c ≠ '[' then return .namedExpression
      else
        -- the last character must be ']'
        if (c :: cs).getLast? ≠ some ']' then return .invalid
        else (resolveAddressOdff cxt pos (c :: cs).length cs.dropLast).handle behindBracket

end Resolvers

/-- Resolve a name. -/
def FormulaNameResolverType.resolve (type : FormulaNameResolverType) (cxt : Option Workbook)
    (pos : AbsAddress) (s : List Char) : Scan FormulaName :=
  match type with
  | .excelA1 => resolveExcelA1 cxt pos s
  | .excelR1C1 => resolveExcelR1C1 cxt pos s
  | .calcA1 => resolveDotA1 cxt pos parseAddressCalcA1 s
  | .odff => resolveOdff cxt pos s
  | .odfCra => resolveDotA1 cxt pos parseAddressOdfCra s

end Ixion
