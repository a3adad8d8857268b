import Ixion.Interp.Value
import Ixion.Lib.Loop
import Ixion.Number

/-!
# Reading ranges

Functions read the cells of a range in several ways: they count those with a value of some
types, walk through the columns, ask whether all cells are empty, or go through the cells
row by row.  A column is stored in blocks of cells of one type, and neighbouring blocks are
of different types; the blocks of a column are therefore the longest runs of cells of one
type.
-/

namespace Ixion

open Lib

/-! ## Types of values -/

/-- The types of values. -/
inductive ValueT where
  | string
  | numeric
  | boolean
  | empty
deriving DecidableEq, Repr

/-- A mixture of types of values, one bit for each. -/
abbrev Values : Type := BitVec 32

namespace ValueT

/-- The bit of a type. -/
def bits : ValueT → Values
  | string => 0x01
  | numeric => 0x02
  | boolean => 0x04
  | empty => 0x08

end ValueT

namespace Values

/-- Whether a mixture has a type. -/
def has (values : Values) (t : ValueT) : Bool := values &&& t.bits = t.bits

end Values

/-- The type of a result, if it is one that counts. -/
def FormulaResult.valueT? : FormulaResult → Option ValueT
  | .boolean _ => some .boolean
  | .value _ => some .numeric
  | .string _ => some .string
  | .error _ => none
  | .matrix _ => none

namespace Workbook

/-- Replace the rows of a range that are not set by those of the sheet. -/
def clipRange (range : AbsRange) (sheetSize : RcSize) : AbsRange where
  first := if range.first.row = rowUnset then { range.first with row := 0 } else range.first
  last := if range.last.row = rowUnset then { range.last with row := sheetSize.row - 1 }
    else range.last

variable (wb : Workbook)

/-- Whether there is a sheet of this number. -/
def hasSheet (sheet : Int) : Prop := 0 ≤ sheet ∧ sheet < wb.sheets.length

instance (sheet : Int) : Decidable (wb.hasSheet sheet) := by unfold hasSheet; infer_instance

/-- Whether the sheets have a column of this number. -/
def hasColumn (col : Int) : Prop := 0 ≤ col ∧ col < wb.sheetSize.column

instance (col : Int) : Decidable (wb.hasColumn col) := by unfold hasColumn; infer_instance

/-! ## Counting -/

/-- The type that a cell counts by: a formula cell counts by its result. -/
def cellValueT (addr : AbsAddress) : Reader (Option ValueT) := do
  match ← Reader.getCellType addr with
  | .numeric => return some .numeric
  | .boolean => return some .boolean
  | .string => return some .string
  | .empty => return some .empty
  | .formula => return (← Reader.getFormulaResult addr).valueT?

/-- Count a cell if its value is of one of the types. -/
def countCell (values : Values) (ret : ℚ) (addr : AbsAddress) : Reader ℚ := do
  return if (← cellValueT addr).any values.has then ret + 1 else ret

/-- Count the cells of a column from a first to a last row.  Where the last row comes before
the first, the length of the part of the block is negative; as a `size_t` it is large, unless
it is 0. -/
def countColumn (values : Values) (sheet col first last : Int) (ret : ℚ) : Reader ℚ := do
  if first < 0 ∨ wb.sheetSize.row < first then Reader.ofExcept (.error .outOfRange)
  if first = wb.sheetSize.row then return ret
  if last < first then
    let len := toSize (last - first + 1)
    let counted (t : ValueT) : ℚ := if values.has t then ret + len else ret
    match ← Reader.getCellType ⟨sheet, first, col⟩ with
    | .numeric => return counted .numeric
    | .boolean => return counted .boolean
    | .string => return counted .string
    | .empty => return counted .empty
    | .formula => if len = 0 then return ret else .throw .undefined
  else
    (countUp first (min last (wb.sheetSize.row - 1))).foldlM
      (fun ret row ↦ countCell values ret ⟨sheet, row, col⟩) ret

/-- Count the cells of a range that have a value of some types. -/
def countRange (range : AbsRange) (values : Values) : Reader ℚ := do
  if wb.sheets.isEmpty then return 0
  let range := clipRange range wb.sheetSize
  -- a negative sheet is a large one as a `size_t`
  let lastSheet : Int :=
    if range.last.sheet < 0 ∨ (wb.sheets.length : Int) ≤ range.last.sheet then
      wb.sheets.length - 1
    else range.last.sheet
  (countUp range.first.sheet lastSheet).foldlM (fun ret sheet ↦ do
    if ¬ wb.hasSheet sheet then Reader.ofExcept (.error .outOfRange)
    (countUp range.first.column range.last.column).foldlM (fun ret col ↦ do
      if ¬ wb.hasColumn col then Reader.ofExcept (.error .outOfRange)
      wb.countColumn values sheet col range.first.row range.last.row ret) ret) 0

/-! ## Walking -/

/-- A part of a column that lies in one block. -/
structure Segment where
  col : Int
  row1 : Int
  row2 : Int
  type : CellType

/-- The addresses of a segment. -/
def Segment.addresses (seg : Segment) (sheet : Int) : List AbsAddress :=
  (countUp seg.row1 seg.row2).map fun row ↦ ⟨sheet, row, seg.col⟩

/-- The segments of a column that lie between two rows, given the types of its cells from the
first of them on. -/
def segments (col row : Int) : List CellType → List Segment
  | [] => []
  | type :: types =>
    match segments col (row + 1) types with
    | seg :: segs =>
      if seg.type = type then { seg with row1 := row } :: segs
      else ⟨col, row, row, type⟩ :: seg :: segs
    | [] => [⟨col, row, row, type⟩]

variable {β : Type}

/-- What is done with a segment: it makes a new state and says whether to go on. -/
abbrev ColumnBlockCallback (β : Type) : Type := Segment → β → Reader (β × Bool)

/-- Call back for one segment after the other, until there is no going on. -/
def walkSegments (cb : ColumnBlockCallback β) : List Segment → β → Reader (β × Bool)
  | [], b => return (b, true)
  | seg :: segs, b => do
    let (b, more) ← cb seg b
    if more then walkSegments cb segs b else return (b, false)

/-- Walk through the part of a column between two rows.  Past the end of the column there is
no block. -/
def walkColumn (cb : ColumnBlockCallback β) (sheet col first last : Int) (b : β) :
    Reader (β × Bool) := do
  if last < first then return (b, true)
  if ¬ wb.hasColumn col ∨ first < 0 ∨ wb.sheetSize.row < first then
    Reader.ofExcept (.error .outOfRange)
  let types ← (countUp first (min last (wb.sheetSize.row - 1))).mapM fun row ↦
    Reader.getCellType ⟨sheet, row, col⟩
  let (b, more) ← walkSegments cb (segments col first types) b
  if more ∧ wb.sheetSize.row ≤ last then .throw .undefined else return (b, more)

/-- Walk through columns. -/
def walkColumns (cb : ColumnBlockCallback β) (sheet first last : Int) :
    List Int → β → Reader β
  | [], b => return b
  | col :: cols, b => do
    let (b, more) ← wb.walkColumn cb sheet col first last b
    if more then walkColumns cb sheet first last cols b else return b

/-- Walk through a range of a sheet, column by column and block by block. -/
def walk (sheet : Int) (range : AbsRange) (cb : ColumnBlockCallback β) (b : β) : Reader β := do
  if ¬ wb.hasSheet sheet then Reader.ofExcept (.error .outOfRange)
  wb.walkColumns cb sheet range.first.row range.last.row
    (countUp range.first.column range.last.column) b

/-! ## Emptiness -/

/-- The part of a range that lies in the workbook.  Without a sheet or a column the range
stays as it is. -/
def shrinkToWorkbook (range : AbsRange) : Except Exn AbsRange := do
  let range := range.reorder
  if wb.sheets.isEmpty then return range
  if (wb.sheets.length : Int) ≤ range.first.sheet then
    throw (.generalError "out-of-bound sheet ranges")
  let range := { range with last :=
    { range.last with sheet := min range.last.sheet (wb.sheets.length - 1) } }
  if wb.sheetSize.column ≤ 0 then return range
  if wb.sheetSize.column ≤ range.first.column then
    throw (.generalError "out-of-bound column ranges")
  let range := { range with last :=
    { range.last with column := min range.last.column (wb.sheetSize.column - 1) } }
  if wb.sheetSize.row ≤ range.first.row then
    throw (.generalError "out-of-bound row ranges")
  return { range with last := { range.last with row := min range.last.row (wb.sheetSize.row - 1) } }

/-- Whether the cells of a column are empty from a first to a last row. -/
def isEmptyColumn (sheet col : Int) : List Int → Reader Bool
  | [] => return true
  | row :: rows => do
    if (← Reader.getCellType ⟨sheet, row, col⟩) ≠ .empty then return false
    isEmptyColumn sheet col rows

/-- Whether the columns of a part of a sheet are empty. -/
def isEmptyColumns (first last : Int) : List (Int × Int) → Reader Bool
  | [] => return true
  | (sheet, col) :: cols => do
    -- neither the sheet nor the column is checked
    if ¬ wb.hasSheet sheet ∨ ¬ wb.hasColumn col then .throw .undefined
    if first < 0 then Reader.ofExcept (.error .outOfRange)
    if ← isEmptyColumn sheet col (countUp first last) then isEmptyColumns first last cols
    else return false

/-- Whether all cells of a range are empty. -/
def isEmpty (range : AbsRange) : Reader Bool := do
  let range ← Reader.ofExcept (wb.shrinkToWorkbook range)
  wb.isEmptyColumns range.first.row range.last.row
    ((countUp range.first.sheet range.last.sheet).flatMap fun sheet ↦
      (countUp range.first.column range.last.column).map fun col ↦ (sheet, col))

/-! ## Going through the rows -/

/-- Whether the rows and columns of a range are valid.  A row or a column that is not set is in
order with any other. -/
def rcValid (range : AbsRange) : Bool :=
  (0 ≤ range.first.row ∧ 0 ≤ range.first.column ∧ range.first.row ≤ rowUnset ∧
    range.first.column ≤ columnUnset) ∧
  (0 ≤ range.last.row ∧ 0 ≤ range.last.column ∧ range.last.row ≤ rowUnset ∧
    range.last.column ≤ columnUnset) ∧
  (range.first.row = rowUnset ∨ range.last.row = rowUnset ∨ range.first.row ≤ range.last.row) ∧
  (range.first.column = columnUnset ∨ range.last.column = columnUnset ∨
    range.first.column ≤ range.last.column)

/-- The part between a first and a last index of a collection of some size, as it is set. -/
def collectionRange (msg : String) (size first last : Int) : Except Exn (List Int) :=
  if first < size ∧ first ≤ last ∧ last < size then .ok (countUp first last)
  else .error (.invalidArgument msg)

/-- The addresses of a range of a sheet that there are, row by row. -/
def horizontalAddresses (sheet : Int) (range : AbsRange) : Except Exn (List AbsAddress) :=
  if ¬ wb.hasSheet sheet ∨ wb.sheetSize.column ≤ 0 then .ok []
  else do
    let all (size : Int) := countUp 0 (size - 1)
    let c1 := if range.first.column = columnUnset then 0 else range.first.column
    let c2 := if range.last.column = columnUnset then wb.sheetSize.column - 1 else range.last.column
    let cols ← if !rcValid range || range.allColumns then pure (all wb.sheetSize.column)
      else collectionRange "collection::check_collection_range" wb.sheetSize.column c1 c2
    let r1 := if range.first.row = rowUnset then 0 else range.first.row
    let r2 := if range.last.row = rowUnset then wb.sheetSize.row - 1 else range.last.row
    let rows ← if !rcValid range || range.allRows then pure (all wb.sheetSize.row)
      else collectionRange "collection::check_element_range" wb.sheetSize.row r1 r2
    return rows.flatMap fun row ↦ cols.map fun col ↦ ⟨sheet, row, col⟩

end Workbook

end Ixion
