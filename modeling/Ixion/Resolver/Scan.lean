import Ixion.Context
import Ixion.Lib.Query

/-!
# Scanning names

The scanners of the name resolvers.  A string is a part of a larger memory.  What a
scanner reads inside the string is found in the list of the characters that are left;
what lies behind the end of the string is asked for, by its distance from the end
(`Scan`).  A `Pointer` that has moved past the end therefore still has something to
point to, and a scanner that stays inside asks nothing.

A scanner that never passes the end takes and returns the list of the characters that
are left instead of a pointer.
-/

namespace Ixion

open Lib

/-- The index that stands for a sheet that does not exist. -/
def invalidSheet : Int := -2

/-- The index of the sheet with a name.  A sheet without a name is not found. -/
def Workbook.getSheetIndex (wb : Workbook) (name : List Char) : Int :=
  match wb.sheets.findIdx? fun ws ↦ ws.name ≠ "" ∧ ws.name.toList = name with
  | some i => i
  | none => invalidSheet

/-! ## Pointers -/

/-- A computation that may read characters behind the end of a string. -/
abbrev Scan (α : Type) : Type := Query (fun _ : ℕ ↦ Char) Empty α

/-- A pointer into a string: either a character of it and those that follow, or a
place at a distance from its end. -/
inductive Pointer where
  | inside (c : Char) (cs : List Char)
  | past (k : ℕ)
deriving DecidableEq, Repr

namespace Pointer

/-- The pointer to the first of the remaining characters. -/
def ofList : List Char → Pointer
  | [] => past 0
  | c :: cs => inside c cs

/-- The remaining characters. -/
def rest : Pointer → List Char
  | inside c cs => c :: cs
  | past _ => []

/-- Read the character. -/
def deref : Pointer → Scan Char
  | inside c _ => return c
  | past k => Query.query k

/-- Move on by one. -/
def next : Pointer → Pointer
  | inside _ cs => ofList cs
  | past k => past (k + 1)

/-- Whether the pointer is at the end of the string. -/
def isEnd : Pointer → Bool
  | inside _ _ => false
  | past k => k = 0

/-- Whether the pointer is at the last character. -/
def isLast : Pointer → Bool
  | inside _ cs => cs.isEmpty
  | past _ => false

@[simp] theorem deref_ofList_cons (c : Char) (cs : List Char) :
    (ofList (c :: cs)).deref = pure c := rfl

@[simp] theorem next_ofList_cons (c : Char) (cs : List Char) :
    (ofList (c :: cs)).next = ofList cs := rfl

@[simp] theorem isEnd_ofList (cs : List Char) : (ofList cs).isEnd = cs.isEmpty := by
  cases cs <;> rfl

@[simp] theorem rest_ofList (cs : List Char) : (ofList cs).rest = cs := by
  cases cs <;> rfl

/-- Read a number of characters. -/
def readString : ℕ → Pointer → Scan (List Char)
  | 0, _ => return []
  | n + 1, p => do
    let c ← p.deref
    let s ← readString n p.next
    return c :: s

end Pointer

/-- Read the first of the remaining characters. -/
def deref (p : List Char) : Scan Char := (Pointer.ofList p).deref

@[simp] theorem deref_cons (c : Char) (cs : List Char) : deref (c :: cs) = pure c := rfl

/-! ## Sheet names -/

section SheetNames

variable (wb : Workbook) (sep : Char)

/-- The loop of `parse_sheet_name_quoted`, with the name read so far. -/
def parseSheetNameQuotedLoop (name : List Char) : List Char → Option (Int × List Char)
  | [] => none
  | [c] => if c = '\'' then none else parseSheetNameQuotedLoop (name ++ [c]) []
  | c :: d :: cs =>
    if c = '\'' then
      -- a second quote stands for a quote, anything else but the separator is wrong
      if d = '\'' then parseSheetNameQuotedLoop (name ++ ['\'']) cs
      else if d ≠ sep then none
      else some (wb.getSheetIndex name, d :: cs)
    else parseSheetNameQuotedLoop (name ++ [c]) (d :: cs)

/-- Parse a sheet name after its open quote. -/
def parseSheetNameQuoted (p : List Char) : Option (Int × List Char) :=
  parseSheetNameQuotedLoop wb sep [] p

/-- Parse a sheet name that begins with a character, and stop at the separator. -/
def parseSheetNameFrom (c : Char) (p : List Char) : Option (Int × List Char) :=
  if c = '\'' then parseSheetNameQuoted wb sep p.tail
  else
    match p.dropWhile (· ≠ sep) with
    | [] => none
    | rest => some (wb.getSheetIndex (p.takeWhile (· ≠ sep)), rest)

/-- Try to parse a sheet name, which may follow a dollar sign. -/
def parseSheetName (p : List Char) : Scan (Option (Int × List Char)) := do
  let c ← deref p
  let p := if c = '$' then p.tail else p
  let c ← deref p
  return parseSheetNameFrom wb sep c p

end SheetNames

/-- The sheets of an Excel reference. -/
structure SheetRange where
  present : Bool
  sheet1 : Int
  sheet2 : Int
deriving DecidableEq, Repr

/-- No sheets. -/
def SheetRange.none (present : Bool) : SheetRange := ⟨present, invalidSheet, invalidSheet⟩

section ExcelSheetNames

variable (wb : Workbook)

/-- The loop of `parse_excel_sheet_name_quoted`, with the name read so far.  A quote
that follows a quote has been taken into the name already. -/
def parseExcelSheetNameQuotedLoop (sheet1 : Int) (wasQuote : Bool) (name : List Char) :
    List Char → Option (SheetRange × List Char)
  | [] => none
  | c :: cs =>
    if c = '!' then
      -- the closing quote is not part of the name
      if wasQuote then some (⟨true, sheet1, wb.getSheetIndex name.dropLast⟩, c :: cs) else none
    else if c = ':' then
      if sheet1 ≠ invalidSheet then none
      else parseExcelSheetNameQuotedLoop (wb.getSheetIndex name) false [] cs
    else if c = '\'' then
      parseExcelSheetNameQuotedLoop sheet1 (!wasQuote)
        (if wasQuote then name else name ++ [c]) cs
    else parseExcelSheetNameQuotedLoop sheet1 false (name ++ [c]) cs

/-- The loop of `parse_excel_sheet_name`, with the name read so far.  When it fails,
the result tells whether there is a sheet name nevertheless. -/
def parseExcelSheetNameLoop (sheet1 : Int) (name : List Char) :
    List Char → Except Bool (SheetRange × List Char)
  | [] => throw false
  | c :: cs =>
    if c = '!' then return (⟨true, sheet1, wb.getSheetIndex name⟩, c :: cs)
    else if c = ':' then
      if sheet1 ≠ invalidSheet then throw false
      else parseExcelSheetNameLoop (wb.getSheetIndex name) [] cs
    else if c = ' ' ∨ c = '\'' ∨ c = '"' then
      -- invalid character; check if a '!' occurs at a later position
      throw (cs.contains '!')
    else parseExcelSheetNameLoop sheet1 (name ++ [c]) cs

/-- Parse the sheets of an Excel reference, which is not empty, and stop at the
separator, or stay where the reference begins. -/
def parseExcelSheetName (p : List Char) : SheetRange × List Char :=
  if p.head? = some '\'' then
    match parseExcelSheetNameQuotedLoop wb invalidSheet false [] p.tail with
    | some r => r
    | none => (.none false, p)
  else
    match parseExcelSheetNameLoop wb invalidSheet [] p with
    | .ok r => r
    | .error present => (.none present, p)

end ExcelSheetNames

/-! ## Addresses -/

/-- What the scanners of addresses find. -/
inductive ParseAddressResultType where
  | invalid
  | validAddress
  /-- A valid address followed by a `':'`. -/
  | rangeExpected
deriving DecidableEq, Repr

/-- The result of a scanner of addresses, where it has stopped and the address. -/
structure ParsedAddress (π : Type) where
  result : ParseAddressResultType
  sheetName : Bool
  p : π
  addr : Address

/-- Which part of an A1-style address is being scanned. -/
inductive ResolverParseMode where
  | column
  | row
deriving DecidableEq, Repr

/-- The value of a digit. -/
def digitValue (c : Char) : Int := (c.toNat : Int) - '0'.toNat

/-- The value of a letter as a digit of a column. -/
def columnDigit (c : Char) : Int := (c.toNat : Int) - 'A'.toNat + 1

/-- Turn row and column, which start from one while an address is scanned and are zero
when not set, into those of an address. -/
def finishAddressA1 (mode : ResolverParseMode) (addr : Address) : Option Address :=
  match mode with
  | .row =>
    if addr.row = 0 then none
    else some { addr with
      row := addr.row - 1
      column := if addr.column ≠ 0 then addr.column - 1 else columnUnset }
  | .column =>
    -- row number is not given
    if addr.column = 0 then none
    else some { addr with row := rowUnset, column := addr.column - 1 }

/-- The loop of `parse_address_a1`. -/
def parseAddressA1Loop (mode : ResolverParseMode) (addr : Address) :
    List Char → ParsedAddress (List Char)
  | [] =>
    match finishAddressA1 mode addr with
    | some addr => ⟨.validAddress, false, [], addr⟩
    | none => ⟨.invalid, false, [], addr⟩
  | c :: cs =>
    if c.toUpper.isUpper then
      if mode = .row then ⟨.invalid, false, c :: cs, addr⟩
      else
        let addr := { addr with column := addr.column * 26 + columnDigit c.toUpper }
        if addr.column > columnUpperBound then ⟨.invalid, false, c :: cs, addr⟩
        else parseAddressA1Loop mode addr cs
    else if c.isDigit then
      if mode = .column ∧ c = '0' then
        -- leading zeros not allowed
        ⟨.invalid, false, c :: cs, addr⟩
      else parseAddressA1Loop .row { addr with row := addr.row * 10 + digitValue c } cs
    else if c = ':' then
      match finishAddressA1 mode addr with
      | some addr => ⟨.rangeExpected, false, c :: cs, addr⟩
      | none => ⟨.invalid, false, c :: cs, addr⟩
    else if c = '$' ∧ mode = .column then
      if addr.column ≠ 0 then
        -- column position has been already parsed
        parseAddressA1Loop .row { addr with absRow := true } cs
      else parseAddressA1Loop .column { addr with absColumn := true } cs
    else ⟨.invalid, false, c :: cs, addr⟩

/-- Parse an A1-style single cell address. -/
def parseAddressA1 (p : List Char) (addr : Address) : ParsedAddress (List Char) :=
  parseAddressA1Loop .column addr p

/-- Parse a number, which is zero when there are no digits. -/
def parseNumber (p : Pointer) : Scan (Int × Pointer) := do
  let c ← p.deref
  let p := if c = '+' ∨ c = '-' then p.next else p
  let num : Int := (Nat.ofDigitChars 10 (p.rest.takeWhile Char.isDigit) 0 : ℕ)
  let p :=
    match p with
    | .inside c cs => .ofList ((c :: cs).dropWhile Char.isDigit)
    | .past k => .past k
  return (if c = '-' then num * -1 else num, p)

/-- The end of `parse_address_r1c1`: only a range may go on here. -/
def parseSeparatorR1C1 (p : Pointer) (addr : Address) : Scan (ParsedAddress Pointer) := do
  let c ← p.deref
  if c = ':' then return ⟨if p.isLast then .invalid else .rangeExpected, false, p, addr⟩
  else return ⟨.invalid, false, p, addr⟩

/-- The end of a relative row or column: it is either the last character, a closing
bracket, or skipped. -/
def parseBracketR1C1 (p : Pointer) (addr : Address)
    (k : Pointer → Address → Scan (ParsedAddress Pointer)) : Scan (ParsedAddress Pointer) := do
  if p.isLast then
    let c ← p.deref
    return ⟨if c = ']' then .validAddress else .invalid, false, p, addr⟩
  else k p.next addr

/-- What follows the `'C'` of an address. -/
def parseAfterColumnR1C1 (p : Pointer) (addr : Address) : Scan (ParsedAddress Pointer) := do
  if p.isEnd then
    -- the row must be set, and 'RC' is invalid as it references itself
    if addr.row = rowUnset ∨ (!addr.absRow ∧ addr.row = 0) then
      return ⟨.invalid, false, p, addr⟩
    else return ⟨.validAddress, false, p, addr⟩
  else
    let c ← p.deref
    if c = '[' then
      -- relative column address
      let p := p.next
      if p.isEnd then return ⟨.invalid, false, p, addr⟩
      else
        let c ← p.deref
        if !c.isDigit ∧ c ≠ '-' ∧ c ≠ '+' then return ⟨.invalid, false, p, addr⟩
        else
          let (column, p) ← parseNumber p
          parseBracketR1C1 p { addr with column } parseSeparatorR1C1
    else if c.isDigit then
      -- absolute column address
      let (column, p) ← parseNumber p
      let addr := { addr with column, absColumn := true }
      if column ≤ 0 then return ⟨.invalid, false, p, addr⟩
      else
        let addr := { addr with column := column - 1 }
        if p.isEnd then return ⟨.validAddress, false, p, addr⟩
        else parseSeparatorR1C1 p addr
    else parseSeparatorR1C1 p addr

/-- The second part of `parse_address_r1c1`: the column. -/
def parseColumnR1C1 (p : Pointer) (addr : Address) : Scan (ParsedAddress Pointer) := do
  let c ← p.deref
  if c = 'C' ∨ c = 'c' then
    parseAfterColumnR1C1 p.next { addr with column := 0, absColumn := false }
  else parseSeparatorR1C1 p addr

/-- What follows the `'R'` of an address. -/
def parseAfterRowR1C1 (p : Pointer) (addr : Address) : Scan (ParsedAddress Pointer) := do
  if p.isEnd then
    -- just 'R'
    return ⟨.invalid, false, p, addr⟩
  else
    let c ← p.deref
    if c = 'C' ∨ c = 'c' then parseColumnR1C1 p addr
    else if c = '[' then
      -- relative row address
      let p := p.next
      let c ← p.deref
      if !c.isDigit ∧ c ≠ '-' ∧ c ≠ '+' then return ⟨.invalid, false, p, addr⟩
      else
        let (row, p) ← parseNumber p
        parseBracketR1C1 p { addr with row } parseColumnR1C1
    else if c.isDigit then
      -- absolute row address
      let (row, p) ← parseNumber p
      let addr := { addr with row, absRow := true }
      if row ≤ 0 then return ⟨.invalid, false, p, addr⟩
      else
        let addr := { addr with row := row - 1 }
        if p.isEnd then return ⟨.validAddress, false, p, addr⟩
        else parseColumnR1C1 p addr
    else parseColumnR1C1 p { addr with absRow := true }

/-- Parse an R1C1-style single cell address. -/
def parseAddressR1C1 (p : Pointer) (addr : Address) : Scan (ParsedAddress Pointer) := do
  let addr := { addr with row := rowUnset, column := columnUnset }
  let c ← p.deref
  if c = 'R' ∨ c = 'r' then parseAfterRowR1C1 p.next { addr with row := 0, absRow := false }
  else parseColumnR1C1 p addr

/-- An address to be scanned: no row, no column, and both of them relative. -/
def Address.cleared (addr : Address) : Address :=
  { addr with row := 0, column := 0, absRow := false, absColumn := false }

/-- Parse an A1-style address after its sheets.  Excel's sheet position is always
absolute. -/
def parseAddressExcelA1 (p : List Char) (addr : Address) : ParsedAddress (List Char) :=
  parseAddressA1 p { addr.cleared with absSheet := true }

/-- Parse an R1C1-style address after its sheets.  Excel's sheet position is always
absolute. -/
def parseAddressExcelR1C1 (p : Pointer) (addr : Address) : Scan (ParsedAddress Pointer) :=
  parseAddressR1C1 p { addr.cleared with absSheet := true }

/-- Try to parse the sheet name of an address, if there is a model context. -/
def parseSheetNameOf (cxt : Option Workbook) (p : List Char) :
    Scan (Option (Int × List Char)) :=
  match cxt with
  | some wb => parseSheetName wb '.' p
  | none => return none

/-- Parse an address after its sheet name.  The sheet is overwritten only when the sheet
name is parsed successfully. -/
def parseAddressAfterSheet (p : List Char) (addr : Address) :
    Option (Int × List Char) → ParsedAddress (List Char)
  | some (sheet, rest) =>
    let addr := { addr with sheet, absSheet := p.head? = some '$' }
    -- skip the separator
    { parseAddressA1 rest.tail addr with sheetName := true }
  | none => parseAddressA1 p addr

/-- Parse an address in Calc's A1 syntax. -/
def parseAddressCalcA1 (cxt : Option Workbook) (p : List Char) (addr : Address) :
    Scan (ParsedAddress (List Char)) := do
  let sheet ← parseSheetNameOf cxt p
  return parseAddressAfterSheet p addr.cleared sheet

/-- Parse an address in ODF cell-range-address syntax, which allows a leading `'.'`. -/
def parseAddressOdfCra (cxt : Option Workbook) (p : List Char) (addr : Address) :
    Scan (ParsedAddress (List Char)) := do
  let c ← deref p
  if c = '.' then
    -- assume absence of sheet name
    parseAddressCalcA1 none p.tail addr
  else parseAddressCalcA1 cxt p addr

/-- Try to parse the sheet name of an ODFF reference, if there is anything left. -/
def parseSheetNameOdff (wb : Workbook) (p : List Char) : Scan (Option (Int × List Char)) :=
  if p.isEmpty then return none else parseSheetName wb '.' p

/-- Parse an address of an ODFF reference.  Unless it begins with a `'.'`, it has a sheet
name, which is invalid when it cannot be parsed. -/
def parseAddressOdff (cxt : Option Workbook) (p : List Char) (addr : Address) :
    Scan (ParsedAddress (List Char)) := do
  let addr := addr.cleared
  let c ← deref p
  if c = '.' then return parseAddressA1 p.tail addr
  else
    match cxt with
    | none => return parseAddressA1 p addr
    | some wb => do
      let addr := { addr with absSheet := c = '$', sheet := invalidSheet }
      let p := if c = '$' then p.tail else p
      let sheet ← parseSheetNameOdff wb p
      match sheet with
      | some (sheet, rest) =>
        return { parseAddressA1 rest.tail { addr with sheet } with sheetName := true }
      | none => return { parseAddressA1 p addr with sheetName := true }

end Ixion
