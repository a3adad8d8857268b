import Mathlib.Data.Rat.Defs
import Ixion.Error

/-!
# Formula tokens and results

A formula is a list of tokens.  The payload of a token is an argument of its
constructor, so that a token whose payload does not fit its opcode cannot be
built.  Strings are kept in a pool and tokens refer to them by number.

Floating-point numbers are modelled by rational ones, and the contents of strings are
sequences of bytes.
-/

namespace Ixion

/-- The content of a string, byte by byte. -/
abbrev Text : Type := List UInt8

/-- The number of a string in the string pool.  The number that is reserved for
the empty string is kept apart from the others. -/
inductive StringId where
  | empty
  | index (n : Nat)
deriving DecidableEq, Repr

/-- Built-in functions.  Those without a handler are told apart by their names
only. -/
inductive FormulaFunction where
  | funcAbs | funcAnd | funcAverage | funcColumn | funcColumns | funcConcatenate
  | funcCount | funcCounta | funcCountblank | funcExact | funcFalse | funcFind
  | funcIf | funcIsblank | funcIserr | funcIserror | funcIseven | funcIsformula
  | funcIslogical | funcIsna | funcIsnontext | funcIsnumber | funcIsodd | funcIsref
  | funcIstext | funcInt | funcLeft | funcLen | funcMax | funcMedian | funcMid
  | funcMin | funcMmult | funcMode | funcN | funcNa | funcNot | funcNow | funcOr
  | funcPi | funcReplace | funcRept | funcRight | funcRow | funcRows | funcSheet
  | funcSheets | funcSubstitute | funcSubtotal | funcSum | funcT | funcTextjoin
  | funcTrim | funcTrue | funcType | funcWait
  | unimplemented (name : String)
deriving DecidableEq, Repr

/-- A reference to a part of a table, by the names of the table and of its
columns. -/
structure Table where
  name : StringId
  columnFirst : StringId
  columnLast : StringId
  areas : Int
deriving DecidableEq, Repr

/-- Formula tokens. -/
inductive FormulaToken where
  | singleRef (addr : Address)
  | rangeRef (range : Range)
  | tableRef (table : Table)
  | namedExpression (name : String)
  | string (sid : StringId)
  | value (v : ℚ)
  | function (func : FormulaFunction)
  | error (e : FormulaError)
  | plus | minus | divide | multiply | exponent
  | concat
  | equal | notEqual | less | greater | lessEqual | greaterEqual
  | parenOpen | parenClose | sep | arrayRowSep | arrayOpen | arrayClose
  | invalidFormula
  | unknown
deriving DecidableEq, Repr

/-! ## Matrices -/

/-- One element of a matrix. -/
inductive MatrixElement where
  | empty
  | numeric (v : ℚ)
  | boolean (b : Bool)
  | string (s : Text)
  | error (e : FormulaError)
deriving DecidableEq, Repr

/-- A matrix, row by row. -/
structure Matrix where
  rowSize : Nat
  colSize : Nat
  elements : List MatrixElement
  length_elements : elements.length = rowSize * colSize
deriving DecidableEq

namespace Matrix

/-- A matrix of empty elements. -/
def new (rows cols : Nat) : Matrix :=
  ⟨rows, cols, List.replicate (rows * cols) .empty, List.length_replicate⟩

/-- What is read of an element.  An error is kept as its negated number, so that
`no_error` is read as an empty element. -/
def readElement : MatrixElement → MatrixElement
  | .error .noError => .empty
  | e => e

/-- The element at a position, empty outside the matrix. -/
def get (m : Matrix) (row col : Nat) : MatrixElement :=
  readElement ((m.elements[row * m.colSize + col]?).getD .empty)

/-- Replace the element at a position. -/
def set (m : Matrix) (row col : Nat) (e : MatrixElement) : Matrix where
  rowSize := m.rowSize
  colSize := m.colSize
  elements := m.elements.set (row * m.colSize + col) e
  length_elements := by rw [List.length_set, m.length_elements]

end Matrix

/-! ## Results -/

/-- The result of a formula cell. -/
inductive FormulaResult where
  | boolean (b : Bool)
  | value (v : ℚ)
  | string (s : Text)
  | error (e : FormulaError)
  | matrix (m : Matrix)
deriving DecidableEq

/-- The result a formula cell has while it is being interpreted. -/
def FormulaResult.new : FormulaResult := .value 0

end Ixion
