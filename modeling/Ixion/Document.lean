import Ixion.Calc.Interpret
import Ixion.Registered

/-!
# Documents

A document is a model context together with the cells that have been modified since
the last calculation: raw cells and formula cells are kept apart.

What the name resolver and the formula parser make of a string is part of the
operation that is given the string.  The parser changes nothing in the context but
the string pool, and keeps what it has added to it when it throws.
-/

namespace Ixion

open Lib UnorderedSet

/-- A document. -/
structure Document (S T : Type) where
  cxt : ModelContext S T
  modifiedCells : S
  modifiedFormulaCells : S

/-- The position of a cell: an address, or a string with the reference it is resolved
to, if it is a reference to a cell. -/
inductive CellPos where
  | string (s : String) (ref : Option Address)
  | address (addr : AbsAddress)
deriving DecidableEq, Repr

/-- The address of a position. -/
def CellPos.toAddress : CellPos → Except Exn AbsAddress
  | .string _ (some addr) => return addr.toAbs ⟨0, 0, 0⟩
  | .string s none => throw (.invalidArgument s!"invalid cell address: {s}")
  | .address addr => return addr

/-- A formula as the parser reads it: the strings that it adds to the pool, and the
tokens, unless it throws. -/
structure ParsedFormula where
  strings : List Text
  tokens : Except Exn (List FormulaToken)

/-- The content that a raw cell is given. -/
inductive RawValue where
  | numeric (v : ℚ)
  | string (s : Text)
  | boolean (b : Bool)
  | empty
deriving DecidableEq, Repr

/-- The value of a raw cell. -/
def RawValue.toCellValue : RawValue → CellValue
  | .numeric v => .numeric v
  | .string s => .string (some s)
  | .boolean b => .boolean b
  | .empty => .empty

/-- Operations on a document. -/
inductive Op where
  | appendSheet (name : String)
  | setCell (pos : CellPos) (value : RawValue)
  | setFormulaCell (pos : CellPos) (formula : ParsedFormula)
  | calculate

namespace ModelContext

variable {S T : Type}

/-- Parse a formula. -/
def parseFormulaString (formula : ParsedFormula) : Exec (ModelContext S T) (List FormulaToken) := do
  formula.strings.forM fun s ↦ discard (addString s)
  liftExcept formula.tokens

/-- Give a raw cell its content. -/
def setRawCell (addr : AbsAddress) : RawValue → Exec (ModelContext S T) Unit
  | .numeric v => setNumericCell addr v
  | .string s => setStringCell addr s
  | .boolean b => setBooleanCell addr b
  | .empty => emptyCell addr

end ModelContext

namespace Document

variable {S T : Type} [UnorderedSet S AbsRange] [RTree T S]

/-- A document without sheets. -/
def new : Document S T := ⟨.new ⟨1048576, 16384⟩, empty, empty⟩

omit [UnorderedSet S AbsRange] [RTree T S] in
/-- Run something on the model context. -/
def onContext {α : Type} (x : Exec (ModelContext S T) α) : Exec (Document S T) α := fun d ↦
  match x d.cxt with
  | .ok a cxt => .ok a { d with cxt }
  | .error e cxt => .error e { d with cxt }

/-- Append a sheet. -/
def appendSheet (name : String) : Exec (Document S T) Unit :=
  onContext (ModelContext.appendSheet name)

/-- What the setters of raw cells have in common: the cell is unregistered, changed
and noted as modified. -/
def setCell (depth : Nat) (pos : CellPos) (value : RawValue) : Exec (Document S T) Unit := do
  let addr ← liftExcept pos.toAddress
  onContext (ModelContext.unregisterFormulaCell depth addr)
  onContext (ModelContext.setRawCell addr value)
  modify fun d ↦ { d with modifiedCells := insert d.modifiedCells addr.toRange }

/-- Put a number into a cell. -/
def setNumericCell (depth : Nat) (pos : CellPos) (v : ℚ) : Exec (Document S T) Unit :=
  setCell depth pos (.numeric v)

/-- Put a string into a cell. -/
def setStringCell (depth : Nat) (pos : CellPos) (s : Text) : Exec (Document S T) Unit :=
  setCell depth pos (.string s)

/-- Put a truth value into a cell. -/
def setBooleanCell (depth : Nat) (pos : CellPos) (b : Bool) : Exec (Document S T) Unit :=
  setCell depth pos (.boolean b)

/-- Empty a cell. -/
def emptyCell (depth : Nat) (pos : CellPos) : Exec (Document S T) Unit :=
  setCell depth pos .empty

/-- Put a formula into a cell.  The cell has been unregistered when the formula is
parsed. -/
def setFormulaCell (depth : Nat) (pos : CellPos) (formula : ParsedFormula) :
    Exec (Document S T) Unit := do
  let addr ← liftExcept pos.toAddress
  onContext (ModelContext.unregisterFormulaCell depth addr)
  let tokens ← onContext (ModelContext.parseFormulaString formula)
  let cell ← onContext (ModelContext.setFormulaCell addr tokens)
  onContext (ModelContext.registerFormulaCell depth addr (some cell))
  modify fun d ↦ { d with modifiedFormulaCells := insert d.modifiedFormulaCells addr.toRange }

/-- The ranges that the next calculation calculates.  Sorting them never fails. -/
def sortedCells (d : Document S T) : List AbsRange :=
  (d.cxt.tracker.queryAndSortDirtyCells d.modifiedCells (some d.modifiedFormulaCells)).2

/-- Forget which cells have been modified. -/
def clearModified (d : Document S T) : Document S T :=
  { d with modifiedCells := empty, modifiedFormulaCells := empty }

/-- Calculate all dirty cells on one thread.  What has been modified is forgotten if
that returns. -/
def calculate (ev : Evaluator) : Exec (Document S T) Unit := do
  let d ← get
  onContext (ModelContext.calculateSortedCells ev d.sortedCells)
  modify clearModified

end Document

/-- Run an operation. -/
def Op.run {S T : Type} [UnorderedSet S AbsRange] [RTree T S] (depth : Nat) (ev : Evaluator) :
    Op → Exec (Document S T) Unit
  | .appendSheet name => Document.appendSheet name
  | .setCell pos (.numeric v) => Document.setNumericCell depth pos v
  | .setCell pos (.string s) => Document.setStringCell depth pos s
  | .setCell pos (.boolean b) => Document.setBooleanCell depth pos b
  | .setCell pos .empty => Document.emptyCell depth pos
  | .setFormulaCell pos formula => Document.setFormulaCell depth pos formula
  | .calculate => Document.calculate ev

end Ixion
