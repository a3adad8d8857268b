import Mathlib.Algebra.Order.Field.Rat
import Mathlib.Algebra.Field.Rat
import Mathlib.Algebra.Order.Ring.Abs
import Mathlib.Tactic.Common
import Ixion.Calc.Interpret

/-!
# Values on the stack

While a formula is interpreted its intermediate values are kept on a stack.  A value is
popped as the type that is asked for; a reference is resolved at this moment, by reading
the cell it refers to.

What the code takes from the C++ library for numbers is a parameter, `NumberLib`.
-/

namespace Ixion

open Lib

/-- What the C++ library does with numbers: `std::pow` and the way a number is written
to a stream.  A power with another exponent than a natural number is anything that a
power with this base can be. -/
structure NumberLib where
  pow : ℚ → ℚ → ℚ
  toText : ℚ → Text
  pow_natCast (x : ℚ) (n : ℕ) : pow x n = x ^ n
  one_pow (y : ℚ) : pow 1 y = 1
  /-- A number is the power of a base for one exponent only. -/
  pow_inj {b y : ℚ} {n : ℕ} : b ≠ 0 → b ≠ 1 → b ≠ -1 → pow b y = b ^ n → y = n

/-- A library in which other powers than those with a natural exponent are 0, but for
those of 1, and numbers have no text. -/
def NumberLib.natural : NumberLib where
  pow x y := if y.den = 1 ∧ 0 ≤ y then x ^ y.num.toNat else if x = 1 then 1 else 0
  toText _ := []
  pow_natCast x n := by simp
  one_pow y := by simp
  pow_inj {b y n} h₀ h₁ h₁' h := by
    split_ifs at h with hy
    · obtain ⟨hden, hnonneg⟩ := hy
      have hnum : (y.num.toNat : ℤ) = y.num := Int.toNat_of_nonneg (Rat.num_nonneg.mpr hnonneg)
      have hcast : (y.num.toNat : ℚ) = y := by
        rw [← Int.cast_natCast, hnum]
        exact Rat.den_eq_one_iff y |>.mp hden
      have habs : |b| ≠ 1 := fun hb ↦ ((abs_eq zero_le_one).mp hb).elim h₁ h₁'
      have hpow : |b| ^ y.num.toNat = |b| ^ n := by rw [← abs_pow, ← abs_pow, h]
      rw [← hcast, pow_right_injective₀ (abs_pos.mpr h₀) habs hpow]
    · exact absurd h.symm (pow_ne_zero n h₀)

/-- The number that stands for a Boolean value. -/
def boolToNumber (b : Bool) : ℚ := if b then 1 else 0

/-- The text of a Boolean value. -/
def boolToText (b : Bool) : Text := (if b then "true" else "false").toUTF8.toList

/-- Throw a formula error. -/
def throwFormulaError {α : Type} (e : FormulaError) : Reader α :=
  .throw (.exception (.formulaError e))

/-- A computation that may throw an exception and reads no cell. -/
def Reader.ofExcept {α : Type} : Except Exn α → Reader α
  | .ok a => pure a
  | .error e => .throw (.exception e)

/-! ## The elements of a matrix -/

namespace Matrix

/-- The element at a position, counted down the columns.  There is none past the end. -/
def get? (m : Matrix) (row col : Nat) : Except Exn MatrixElement :=
  if m.rowSize * col + row < m.rowSize * m.colSize then
    .ok (m.get ((m.rowSize * col + row) % m.rowSize) ((m.rowSize * col + row) / m.rowSize))
  else .error .outOfRange

/-- The number at a position. -/
def getNumeric (m : Matrix) (row col : Nat) : Except Exn ℚ := do
  match ← m.get? row col with
  | .numeric v => return v
  | .boolean b => return boolToNumber b
  | .error e => return -(e.code : ℚ)
  | .string _ | .empty => return 0

/-- The Boolean value at a position. -/
def getBoolean (m : Matrix) (row col : Nat) : Except Exn Bool := do
  match ← m.get? row col with
  | .numeric v => return v ≠ 0
  | .boolean b => return b
  | .error e => return e.code ≠ 0
  | .string _ | .empty => return false

/-- A matrix with one element. -/
def single (e : MatrixElement) : Matrix := (new 1 1).set 0 0 e

end Matrix

/-! ## Reading cells -/

namespace Reader

/-- The type of a cell. -/
def getCellType (addr : AbsAddress) : Reader CellType := Query.query (Question.cellType addr)

/-- The value of a cell. -/
def getCellValue (addr : AbsAddress) : Reader CellValue := Query.query (Question.cellValue addr)

end Reader

/-- Whether a group position is one of a grouped cell. -/
def isGroupPos (row column : Int) : Bool := 0 ≤ column ∧ 0 ≤ row

/-- The element of a matrix at the group position of a cell.  The position of a cell that
belongs to no group is past the end. -/
def groupElement (m : Matrix) (row column : Int) : Except Exn MatrixElement :=
  if row ≥ m.rowSize ∨ column ≥ m.colSize then .error (.formulaError .invalidValueType)
  else if row < 0 ∨ column < 0 then .error .outOfRange
  else m.get? row.toNat column.toNat

/-- The part of a result that belongs to a cell at a group position. -/
def getSingleFormulaResult (row column : Int) (src : FormulaResult) : Except Exn FormulaResult :=
  if isGroupPos row column then
    match src with
    | .matrix m =>
      if row ≥ m.rowSize ∨ column ≥ m.colSize then .ok (.error .invalidValueType)
      else do
        match ← m.get? row.toNat column.toNat with
        | .numeric v => return .value v
        | .string s => return .string s
        | .error e => return .error e
        | .empty => return .new
        | .boolean b => return .value (boolToNumber b)
    | _ => .ok src
  else .ok src

/-- The number that a result gives a cell at a group position. -/
def fetchValueFromResult (row column : Int) : FormulaResult → Except Exn ℚ
  | .error e => .error (.formulaError e)
  | .boolean b => .ok (boolToNumber b)
  | .value v => .ok v
  | .matrix m => do
    match ← groupElement m row column with
    | .numeric v => return v
    | .empty => return 0
    | .boolean b => return boolToNumber b
    | .string _ | .error _ => throw (.formulaError .invalidValueType)
  | .string _ => .error (.formulaError .invalidValueType)

/-- The string that a result gives a cell at a group position. -/
def fetchStringFromResult (row column : Int) : FormulaResult → Except Exn Text
  | .error e => .error (.formulaError e)
  | .string s => .ok s
  | .matrix m => do
    match ← groupElement m row column with
    | .string s => return s
    | _ => throw (.formulaError .invalidValueType)
  | .boolean _ | .value _ => .error (.formulaError .invalidValueType)

namespace Reader

/-- The number in a cell. -/
def getNumericValue (addr : AbsAddress) : Reader ℚ := do
  match ← getCellValue addr with
  | .numeric v => return v
  | .boolean b => return boolToNumber b
  | .formula row column res => ofExcept (fetchValueFromResult row column res)
  | .string _ | .empty => return 0

/-- The Boolean value in a cell. -/
def getBooleanValue (addr : AbsAddress) : Reader Bool := do
  match ← getCellValue addr with
  | .numeric v => return v ≠ 0
  | .boolean b => return b
  | .formula row column res => return (← ofExcept (fetchValueFromResult row column res)) ≠ 0
  | .string _ | .empty => return false

/-- The string in a cell. -/
def getStringValue (addr : AbsAddress) : Reader Text := do
  match ← getCellValue addr with
  | .string s => return s.getD []
  | .formula row column res => ofExcept (fetchStringFromResult row column res)
  | .numeric _ | .boolean _ | .empty => return []

/-- The result of a formula cell. -/
def getFormulaResult (addr : AbsAddress) : Reader FormulaResult := do
  match ← getCellValue addr with
  | .formula row column res => ofExcept (getSingleFormulaResult row column res)
  | _ => ofExcept (.error (.generalError "not a formula cell."))

/-- The types of values in cells. -/
inductive ValueType where
  | empty
  | boolean
  | numeric
  | string
  | error
deriving DecidableEq, Repr

/-- The type of the value in a cell. -/
def getCellValueType (addr : AbsAddress) : Reader ValueType := do
  match ← getCellValue addr with
  | .empty => return .empty
  | .boolean _ => return .boolean
  | .numeric _ => return .numeric
  | .string _ => return .string
  | .formula row column res =>
    match ← ofExcept (getSingleFormulaResult row column res) with
    | .boolean _ => return .boolean
    | .value _ => return .numeric
    | .string _ => return .string
    | .error _ => return .error
    | .matrix _ =>
      ofExcept (.error (.logicError "we shouldn't be getting a matrix result type here."))

/-- The numbers in a range, as a matrix. -/
def getRangeValue (sheetSize : RcSize) (range : AbsRange) : Reader Matrix := do
  if range.first.sheet ≠ range.last.sheet then
    ofExcept (.error (.generalError "multi-sheet range is not allowed."))
  if !range.valid then
    ofExcept (.error (.invalidArgument "invalid range"))
  let rowFirst := if range.allRows then 0 else range.first.row
  let rowLast := if range.allRows then sheetSize.row - 1 else range.last.row
  let colFirst := if range.allColumns then 0 else range.first.column
  let colLast := if range.allColumns then sheetSize.column - 1 else range.last.column
  let rows := (rowLast - rowFirst + 1).toNat
  let cols := (colLast - colFirst + 1).toNat
  (List.range rows).foldlM (fun m (i : Nat) ↦
    (List.range cols).foldlM (fun m (j : Nat) ↦ do
      let v ← getNumericValue ⟨range.first.sheet, (i : Int) + rowFirst, (j : Int) + colFirst⟩
      return m.set i j (.numeric v)) m) (Matrix.new rows cols)

end Reader

/-! ## The stack -/

/-- Intermediate values. -/
inductive StackValue where
  | boolean (b : Bool)
  | error (e : FormulaError)
  | value (v : ℚ)
  | string (s : Text)
  | singleRef (addr : AbsAddress)
  | rangeRef (range : AbsRange)
  | matrix (m : Matrix)
deriving DecidableEq

/-- A stack of values, the one that was pushed last in front. -/
abbrev ValueStack : Type := List StackValue

/-- A computation that works on a stack of values and may read cells. -/
abbrev StackM (α : Type) : Type := StateT ValueStack Reader α

/-- A value whose references are resolved, for an operator. -/
inductive ResolvedStackValue where
  | matrix (m : Matrix)
  | numeric (v : ℚ)
  | string (s : Text)
deriving DecidableEq

namespace ValueStack

/-- Throw a formula error. -/
def raise {α : Type} (e : FormulaError) : StackM α := fun _ ↦ throwFormulaError e

/-- Throw an exception. -/
def raiseExn {α : Type} (e : Exn) : StackM α := fun _ ↦ .throw (.exception e)

/-- Push a value. -/
def push (v : StackValue) : StackM Unit := modify (v :: ·)

/-- The value on top. -/
def back : StackM StackValue := do
  match ← get with
  | [] => raise .stackError
  | v :: _ => return v

/-- Remove the value on top. -/
def popBack : StackM Unit := modify List.tail

/-- The Boolean value that a stack value stands for. -/
def booleanOf : StackValue → Reader Bool
  | .boolean b => return b
  | .value v => return v ≠ 0
  | .matrix m => return (← .ofExcept (m.getNumeric 0 0)) ≠ 0
  | .singleRef addr => do
    match ← Reader.getCellValueType addr with
    | .numeric | .boolean => Reader.getBooleanValue addr
    | .empty => return false
    | .string | .error => throwFormulaError .invalidValueType
  | .error _ | .string _ | .rangeRef _ => throwFormulaError .invalidValueType

/-- The number that a stack value stands for. -/
def numericOf : StackValue → Reader ℚ
  | .boolean b => return boolToNumber b
  | .value v => return v
  | .matrix m => .ofExcept (m.getNumeric 0 0)
  | .string _ => return 0
  | .singleRef addr => Reader.getNumericValue addr
  | .error _ | .rangeRef _ => throwFormulaError .invalidValueType

/-- Pop a Boolean value. -/
def popBoolean : StackM Bool := do
  let b ← booleanOf (← back)
  popBack
  return b

/-- Pop a number. -/
def popValue : StackM ℚ := do
  let v ← numericOf (← back)
  popBack
  return v

/-- The text of the result of a formula cell. -/
def resultText (lib : NumberLib) : FormulaResult → Reader Text
  | .error e => throwFormulaError e
  | .string s => return s
  | .boolean b => return boolToText b
  | .value v => return lib.toText v
  | .matrix _ => throwFormulaError .stackError

/-- Pop a string. -/
def popString (lib : NumberLib) : StackM Text := do
  match ← back with
  | .string s => popBack; return s
  | .boolean b => popBack; return boolToText b
  | .value v => popBack; return lib.toText v
  | .singleRef addr =>
    popBack
    match ← Reader.getCellType addr with
    | .empty => return []
    | .formula => resultText lib (← Reader.getFormulaResult addr)
    | .numeric => return lib.toText (← Reader.getNumericValue addr)
    | .string =>
      match ← Reader.getCellValue addr with
      | .string (some s) => return s
      | _ => raise .stackError
    | .boolean => raise .stackError
  | .error _ | .rangeRef _ | .matrix _ => raise .stackError

/-- Pop a reference to a cell. -/
def popSingleRef : StackM AbsAddress := do
  match ← back with
  | .singleRef addr => popBack; return addr
  | .rangeRef range => popBack; return range.first
  | _ => raise .stackError

/-- Pop a reference to a range. -/
def popRangeRef : StackM AbsRange := do
  match ← back with
  | .singleRef addr => popBack; return addr.toRange
  | .rangeRef range => popBack; return range
  | _ => raise .stackError

/-- Pop the values of a range. -/
def popRangeValue (sheetSize : RcSize) : StackM Matrix := do
  match ← back with
  | .rangeRef range =>
    let m ← Reader.getRangeValue sheetSize range
    popBack
    return m
  | _ => raise .stackError

/-- Pop a matrix if there is one on top. -/
def maybePopMatrix (sheetSize : RcSize) : StackM (Option Matrix) := do
  match ← back with
  | .matrix m => popBack; return some m
  | .rangeRef _ => return some (← popRangeValue sheetSize)
  | _ => return none

/-- Pop a matrix. -/
def popMatrix (sheetSize : RcSize) : StackM Matrix := do
  match ← maybePopMatrix sheetSize with
  | some m => return m
  | none => raise .stackError

/-- Pop an error. -/
def popError : StackM FormulaError := do
  match ← back with
  | .error e => popBack; return e
  | _ => raise .stackError

/-- Pop a matrix or else a number. -/
def popMatrixOrNumeric (sheetSize : RcSize) : StackM ResolvedStackValue := do
  match ← maybePopMatrix sheetSize with
  | some m => return .matrix m
  | none => return .numeric (← popValue)

/-- Pop a matrix or else a string. -/
def popMatrixOrString (lib : NumberLib) (sheetSize : RcSize) : StackM ResolvedStackValue := do
  match ← maybePopMatrix sheetSize with
  | some m => return .matrix m
  | none => return .string (← popString lib)

end ValueStack

end Ixion
