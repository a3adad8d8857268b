import Ixion.StringPool
import Ixion.Tracker.Basic

/-!
# The model context

A model context holds the sheets with their cells, the named expressions, the
string pool and the dirty cell tracker.  All sheets have the same size; an access
to a cell outside the workbook throws an exception.

A formula cell shares its calculation status with the other cells of its group.
Statuses are therefore kept apart from the cells, which refer to them by number; a
cell that is not grouped has a status of its own.
-/

namespace Ixion

open Lib

/-! ## Cells -/

/-- What is known about the calculation of a formula cell or of a group. -/
structure CalcStatus where
  result : Option FormulaResult
  groupSize : RcSize
  circularSafe : Bool
deriving DecidableEq

/-- A formula cell: its tokens, its position in its group and the number of its
status.  A cell that is not grouped has the group position `(-1, -1)`. -/
structure FormulaCell where
  tokens : List FormulaToken
  groupRow : Int
  groupColumn : Int
  status : Nat
deriving DecidableEq, Repr

namespace FormulaCell

/-- Whether the cell belongs to a group. -/
def isGrouped (c : FormulaCell) : Bool := 0 ≤ c.groupColumn ∧ 0 ≤ c.groupRow

/-- Whether the cell is the top-left cell of its group. -/
def isGroupParent (c : FormulaCell) : Bool := c.groupColumn = 0 ∧ c.groupRow = 0

/-- Whether the cell may be interpreted. -/
def calcAllowed (c : FormulaCell) : Bool :=
  if !c.isGrouped then true else c.isGroupParent

end FormulaCell

/-- The content of a cell. -/
inductive Cell where
  | empty
  | boolean (b : Bool)
  | numeric (v : ℚ)
  | string (sid : StringId)
  | formula (c : FormulaCell)
deriving DecidableEq, Repr

/-! ## The context -/

/-- A named expression. -/
structure NamedExpression where
  origin : AbsAddress
  tokens : List FormulaToken
deriving DecidableEq, Repr

/-- Named expressions by name. -/
abbrev NamedExpressions : Type := List (String × NamedExpression)

/-- Resolves table references to ranges. -/
structure TableHandler where
  /-- The range for a table name, two column names and the areas. -/
  getRange : StringId → StringId → StringId → Int → AbsRange
  /-- The range of the table around a position. -/
  getRangeAt : AbsAddress → StringId → StringId → Int → AbsRange

/-- A sheet, without its cells. -/
structure Sheet where
  name : String
  namedExpressions : NamedExpressions
deriving DecidableEq, Repr

/-- What a workbook contains, without anything that a calculation changes. -/
structure Workbook where
  sheetSize : RcSize
  sheets : List Sheet
  namedExpressions : NamedExpressions
  cells : AbsAddress → Cell
  strPool : StringPool
  tableHandler : Option TableHandler

/-- The model context: a workbook, the statuses of its formula cells and what they
refer to. -/
structure ModelContext (S T : Type) extends Workbook where
  statuses : Nat → CalcStatus
  statusCount : Nat
  tracker : DirtyCellTracker S T

namespace Workbook

/-- Whether there is a cell at an address. -/
def inWorkbook (wb : Workbook) (addr : AbsAddress) : Bool :=
  0 ≤ addr.sheet ∧ addr.sheet < wb.sheets.length ∧
    0 ≤ addr.column ∧ addr.column < wb.sheetSize.column ∧
    0 ≤ addr.row ∧ addr.row < wb.sheetSize.row

/-- The cell at an address. -/
def getCell (wb : Workbook) (addr : AbsAddress) : Except Exn Cell :=
  if wb.inWorkbook addr then return wb.cells addr else throw .outOfRange

/-- The formula cell at an address, if there is one. -/
def getFormulaCell (wb : Workbook) (addr : AbsAddress) :
    Except Exn (Option FormulaCell) := do
  match ← wb.getCell addr with
  | .formula c => return some c
  | _ => return none

/-- The named expression visible from a sheet: the sheet's own ones come first. -/
def getNamedExpression (wb : Workbook) (sheet : Int) (name : String) :
    Option NamedExpression :=
  match if 0 ≤ sheet then wb.sheets[sheet.toNat]? else none with
  | some ws => (ws.namedExpressions.lookup name).or (wb.namedExpressions.lookup name)
  | none => wb.namedExpressions.lookup name

theorem getCell_of_inWorkbook {wb : Workbook} {addr : AbsAddress}
    (h : wb.inWorkbook addr = true) : wb.getCell addr = .ok (wb.cells addr) := by
  rw [getCell, if_pos h]
  rfl

theorem getCell_of_not_inWorkbook {wb : Workbook} {addr : AbsAddress}
    (h : wb.inWorkbook addr = false) : wb.getCell addr = .error .outOfRange := by
  rw [getCell, if_neg (by simp [h])]
  rfl

theorem getFormulaCell_of_not_inWorkbook {wb : Workbook} {addr : AbsAddress}
    (h : wb.inWorkbook addr = false) : wb.getFormulaCell addr = .error .outOfRange := by
  rw [getFormulaCell, getCell_of_not_inWorkbook h]
  rfl

theorem exists_getFormulaCell {wb : Workbook} {addr : AbsAddress}
    (h : wb.inWorkbook addr = true) : ∃ p, wb.getFormulaCell addr = .ok p := by
  rw [getFormulaCell, getCell_of_inWorkbook h]
  cases wb.cells addr <;> exact ⟨_, rfl⟩

/-- There is a formula cell at an address exactly when the address is in the
workbook and holds one. -/
theorem getFormulaCell_eq_some_iff {wb : Workbook} {addr : AbsAddress} {c : FormulaCell} :
    wb.getFormulaCell addr = .ok (some c) ↔
      wb.inWorkbook addr = true ∧ wb.cells addr = .formula c := by
  rw [getFormulaCell]
  cases h : wb.inWorkbook addr with
  | false =>
    rw [getCell_of_not_inWorkbook h]
    exact ⟨fun hc ↦ (nomatch hc), fun hc ↦ (nomatch hc.1)⟩
  | true =>
    rw [getCell_of_inWorkbook h]
    change (match wb.cells addr with | .formula c => _ | _ => _) = _ ↔ _
    split
    case h_1 c' hc =>
      rw [hc]
      exact ⟨fun he ↦ ⟨rfl, by cases he; rfl⟩, fun he ↦ by cases he.2; rfl⟩
    case h_2 hc =>
      exact ⟨fun he ↦ (nomatch he), fun he ↦ absurd he.2 (hc c)⟩

end Workbook

/-- The status of a cell that has not been calculated. -/
def CalcStatus.new (groupSize : RcSize) : CalcStatus := ⟨none, groupSize, false⟩

namespace ModelContext

variable {S T : Type}

/-- A context without sheets. -/
def new [UnorderedSet S AbsRange] [RTree T S] (sheetSize : RcSize) : ModelContext S T where
  sheetSize := sheetSize
  sheets := []
  namedExpressions := []
  cells _ := .empty
  statuses _ := .new ⟨0, 0⟩
  statusCount := 0
  strPool := .new
  tracker := .new
  tableHandler := none

/-- The status of a formula cell. -/
def statusOf (cxt : ModelContext S T) (c : FormulaCell) : CalcStatus := cxt.statuses c.status

/-- Change the status of a formula cell. -/
def setStatus (cxt : ModelContext S T) (c : FormulaCell) (status : CalcStatus) :
    ModelContext S T :=
  { cxt with statuses := Function.update cxt.statuses c.status status }

/-- Change the content of a cell. -/
def setCell (cxt : ModelContext S T) (addr : AbsAddress) (cell : Cell) : ModelContext S T :=
  { cxt with cells := Function.update cxt.cells addr cell }

/-! ### Operations -/

/-- Append a sheet. -/
def appendSheet (name : String) : Exec (ModelContext S T) Unit := do
  let cxt ← get
  -- the name must be new
  if cxt.sheets.any fun ws ↦ ws.name = name then
    throwExn (.modelContextError s!"Sheet name '{name}' already exists.")
  else
    let ws : Sheet := ⟨name, []⟩
    set { cxt with sheets := cxt.sheets ++ [ws] }

/-- Add a string to the pool. -/
def addString (s : Text) : Exec (ModelContext S T) StringId := do
  let cxt ← get
  set { cxt with strPool := (cxt.strPool.addString s).1 }
  return (cxt.strPool.addString s).2

/-- Change the content of a cell, which must be in the workbook. -/
def storeCell (addr : AbsAddress) (cell : Cell) : Exec (ModelContext S T) Unit := do
  let cxt ← get
  if cxt.inWorkbook addr then set (cxt.setCell addr cell) else throwExn .outOfRange

/-- Empty a cell. -/
def emptyCell (addr : AbsAddress) : Exec (ModelContext S T) Unit := storeCell addr .empty

/-- Put a number into a cell. -/
def setNumericCell (addr : AbsAddress) (v : ℚ) : Exec (ModelContext S T) Unit :=
  storeCell addr (.numeric v)

/-- Put a truth value into a cell. -/
def setBooleanCell (addr : AbsAddress) (b : Bool) : Exec (ModelContext S T) Unit :=
  storeCell addr (.boolean b)

/-- Put a string into a cell.  It goes into the pool once the sheet is known to
exist. -/
def setStringCell (addr : AbsAddress) (s : Text) : Exec (ModelContext S T) Unit := do
  let cxt ← get
  if 0 ≤ addr.sheet ∧ addr.sheet < cxt.sheets.length then
    let sid ← addString s
    storeCell addr (.string sid)
  else throwExn .outOfRange

/-- Put a formula into a cell.  The formula cell has a status of its own. -/
def setFormulaCell (addr : AbsAddress) (tokens : List FormulaToken) :
    Exec (ModelContext S T) FormulaCell := do
  let cxt ← get
  let cell : FormulaCell := ⟨tokens, -1, -1, cxt.statusCount⟩
  set { cxt with
    statuses := Function.update cxt.statuses cxt.statusCount (.new ⟨0, 0⟩)
    statusCount := cxt.statusCount + 1 }
  storeCell addr (.formula cell)
  return cell

/-- Run an operation of the tracker. -/
def modifyTracker (f : DirtyCellTracker S T → Except Exn (DirtyCellTracker S T)) :
    Exec (ModelContext S T) Unit := do
  let cxt ← get
  let tracker ← liftExcept (f cxt.tracker)
  set { cxt with tracker }

end ModelContext

end Ixion
