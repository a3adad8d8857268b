import Ixion.Interp.Interpreter
import Ixion.Interp.Range
import Ixion.Interp.Utf8

/-!
# Built-in functions

A function finds its arguments on a stack of their own, the last one on top, and leaves its
value there in their place.  A formula error with a number below 200 becomes that value;
any other exception leaves the call.

Some functions go by what the model context and the C++ library do beyond numbers: the
current time, the texts of formula results and where a number with a fixed precision is
written.
-/

namespace Ixion

open Lib

/-! ## Texts of results -/

/-- How results are written. -/
structure Config where
  sepMatrixColumn : UInt8
  sepMatrixRow : UInt8
  outputPrecision : Int
deriving DecidableEq, Repr

/-- What functions go by: the library, the workbook, the position of the cell, how results
are written, a number with a fixed number of decimals, and the time in seconds. -/
structure FormulaFunctions where
  lib : NumberLib
  workbook : Workbook
  pos : AbsAddress
  config : Config
  toFixed : Nat → ℚ → Text
  currentTime : ℚ

/-- The bytes of a string. -/
def textOf (s : String) : Text := s.toUTF8.toList

/-- The names of the formula errors. -/
def formulaErrorName : FormulaError → Text
  | .noError => []
  | .refResultNotAvailable => textOf "#REF!"
  | .divisionByZero => textOf "#DIV/0!"
  | .invalidExpression => textOf "#NUM!"
  | .nameNotFound => textOf "#NAME?"
  | .noRangeIntersection => textOf "#NULL!"
  | .invalidValueType => textOf "#VALUE!"
  | .noValueAvailable => textOf "#N/A"
  | .noResultError | .stackError | .generalError => textOf "#ERR!"

namespace FormulaFunctions

variable (f : FormulaFunctions)

/-- The text of an element of a matrix. -/
def elementText : MatrixElement → Text
  | .numeric v => f.lib.toText v
  | .string s => textOf "\"" ++ s ++ textOf "\""
  | .error e => formulaErrorName e
  | .boolean b => textOf (if b then "1" else "0")
  | .empty => []

/-- The text of a formula result. -/
def resultStr : FormulaResult → Text
  | .error e => formulaErrorName e
  | .string s => s
  | .boolean b => boolToText b
  | .value v =>
    if 0 ≤ f.config.outputPrecision then f.toFixed f.config.outputPrecision.toNat v
    else f.lib.toText v
  | .matrix m =>
    let row (i : Nat) : Text :=
      [f.config.sepMatrixColumn].intercalate
        ((List.range m.colSize).map fun j ↦ f.elementText (m.get i j))
    textOf "\x7b" ++ [f.config.sepMatrixRow].intercalate ((List.range m.rowSize).map row) ++
      textOf "\x7d"

/-! ## Arguments -/

open ValueStack

/-- Throw an exception about the arguments unless their number is right. -/
def requireArgs (p : Nat → Bool) (msg : String) : StackM Unit := do
  if !p (← get).length then raiseExn (.invalidArg msg)

/-- Remove all arguments. -/
def clear : StackM Unit := set ([] : ValueStack)

/-- Leave a value in place of the arguments that are left. -/
def clearAndPush (v : StackValue) : StackM Unit := do
  clear
  push v

/-- Do something with the arguments from the last one on, as long as there are any and going
on is wanted.  Each time one of them is removed. -/
def forArgs {β : Type} (more : β → Bool) (step : β → StackM β) (b : β) : StackM β := do
  let rec loop : Nat → β → StackM β
    | 0, b => return b
    | n + 1, b => do
      if (← get).isEmpty || !more b then return b
      loop n (← step b)
  loop (← get).length b

/-- Convert a number to an `int`, which it has to fit. -/
def toInt (n : Int) : StackM Int :=
  if FitsInt n then return n else fun _ ↦ .throw .undefined

/-- Pop a number and round it down to an `int`. -/
def popFloor : StackM Int := do toInt (← popValue).floor

/-- Fail as the behaviour is undefined. -/
def undefined {α : Type} : StackM α := fun _ ↦ .throw .undefined

/-- Read an element of a vector, which has to be there. -/
def elementAt {α : Type} (l : List α) (i : Nat) : StackM α :=
  match l[i]? with
  | some a => return a
  | none => undefined

/-- The positions of the characters of a string. -/
def bytePositions (s : Text) : StackM (List Nat) := Reader.ofExcept (calcUtf8BytePositions s)

/-- The sum of the elements of a matrix. -/
def sumMatrixElements (m : Matrix) : Except Exn ℚ :=
  (List.range m.rowSize).foldlM (fun sum row ↦
    (List.range m.colSize).foldlM (fun sum col ↦ do return sum + (← m.getNumeric row col)) sum) 0

/-- Pop a number and tell whether its integer part is odd. -/
def popAndCheckForOddValue : StackM Bool := do
  let iv := trunc (← popValue)
  if |iv| < 2 ^ 63 then return iv % 2 ≠ 0 else undefined

/-- Pop a single value as a Boolean value, if it is one or a number. -/
def popOneValueAsBoolean : StackM (Option Bool) := do
  match ← back with
  | .singleRef _ =>
    let addr ← popSingleRef
    match ← Reader.getCellValueType addr with
    | .boolean | .numeric => return some (← Reader.getBooleanValue addr)
    | _ => return none
  | .value _ | .boolean _ => return some (← popBoolean)
  | .string _ | .error _ =>
    popBack
    return none
  | .rangeRef _ | .matrix _ => raise .generalError

/-- The number that a cell of a block of some type adds to a sequence. -/
def blockNumber (type : CellType) (addr : AbsAddress) : Reader (Option ℚ) := do
  match type with
  | .boolean => return some (boolToNumber (← Reader.getBooleanValue addr))
  | .numeric => return some (← Reader.getNumericValue addr)
  | .formula =>
    match ← Reader.getFormulaResult addr with
    | .boolean b => return some (boolToNumber b)
    | .value v => return some v
    | _ => return none
  | .string | .empty => return none

/-- Append the numbers of a segment to a sequence. -/
def appendSegment (sheet : Int) : Workbook.ColumnBlockCallback (List ℚ) := fun seg seq ↦ do
  let vs ← (seg.addresses sheet).mapM (blockNumber seg.type)
  return (seq ++ vs.reduceOption, true)

/-- Pop a value and append the numbers it stands for to a sequence. -/
def appendValuesFromStack (seq : List ℚ) : StackM (List ℚ) := do
  match ← back with
  | .boolean _ | .value _ => return seq ++ [← popValue]
  | .singleRef _ =>
    let addr ← popSingleRef
    match ← Reader.getCellValueType addr with
    | .boolean => return seq ++ [boolToNumber (← Reader.getBooleanValue addr)]
    | .numeric => return seq ++ [← Reader.getNumericValue addr]
    | _ => return seq
  | .rangeRef _ =>
    let range ← popRangeRef
    (countUp range.first.sheet range.last.sheet).foldlM (fun seq sheet ↦
      f.workbook.walk sheet range (appendSegment sheet) seq) seq
  | .error _ | .string _ | .matrix _ =>
    popBack
    return seq

/-- The numbers that the arguments stand for. -/
def popSequence : StackM (List ℚ) := forArgs (fun _ ↦ true) f.appendValuesFromStack []

/-! ## Numbers -/

/-- The greatest or the least of the arguments, by whether one number takes the place of
another. -/
def popExtreme (name : String) (takes : ℚ → ℚ → Bool) : StackM Unit := do
  requireArgs (0 < ·) s!"{name} requires one or more arguments."
  let ret ← popValue
  let ret ← forArgs (fun _ ↦ true) (fun ret ↦ do
    let v ← popValue
    return if takes v ret then v else ret) ret
  push (.value ret)

def fncMax : StackM Unit := popExtreme "MAX" fun v ret ↦ v > ret

def fncMin : StackM Unit := popExtreme "MIN" fun v ret ↦ v < ret

/-- The number in the middle of a sequence, or the mean of the two in the middle.  Where there
is no number, one before the first is read. -/
def fncMedian : StackM Unit := do
  requireArgs (0 < ·) "MEDIAN requires one or more arguments."
  let seq ← f.popSequence
  let sorted := seq.mergeSort (· ≤ ·)
  let midPos := seq.length / 2
  if seq.length % 2 = 1 then
    push (.value (← elementAt sorted midPos))
  else if midPos = 0 then undefined
  else
    let v := (← elementAt sorted (midPos - 1)) + (← elementAt sorted midPos)
    push (.value (v / 2))

/-- The values of a sorted sequence and how often each is there. -/
def valueCounts : List ℚ → List (ℚ × Nat)
  | [] => []
  | v :: vs =>
    match valueCounts vs with
    | (w, n) :: counts => if v < w then (v, 1) :: (w, n) :: counts else (w, n + 1) :: counts
    | [] => [(v, 1)]

/-- The order in which values are sorted by how often they are there. -/
def modeLess (lhs rhs : ℚ × Nat) : Bool := rhs.2 < lhs.2 || lhs.1 < rhs.1

/-- A comparison is a strict weak order on the elements of a list. -/
def StrictWeakOrderOn {α : Type} (lt : α → α → Bool) (l : List α) : Prop :=
  (∀ a ∈ l, lt a a = false) ∧ (∀ a ∈ l, ∀ b ∈ l, lt a b = true → lt b a = false) ∧
    (∀ a ∈ l, ∀ b ∈ l, ∀ c ∈ l, lt a b = true → lt b c = true → lt a c = true) ∧
    ∀ a ∈ l, ∀ b ∈ l, ∀ c ∈ l, lt a b = false → lt b a = false → lt b c = false → lt c b = false →
      lt a c = false ∧ lt c a = false

instance {α : Type} (lt : α → α → Bool) (l : List α) : Decidable (StrictWeakOrderOn lt l) := by
  unfold StrictWeakOrderOn; infer_instance

/-- Sort a list.  The comparison has to be a strict weak order. -/
def stdSort {α : Type} (lt : α → α → Bool) (l : List α) : StackM (List α) :=
  if StrictWeakOrderOn lt l then return l.mergeSort fun a b ↦ !lt b a else undefined

/-- The number that is there most often. -/
def fncMode : StackM Unit := do
  requireArgs (0 < ·) "MODE requires one or more arguments."
  let seq ← f.popSequence
  match ← stdSort modeLess (valueCounts (seq.mergeSort (· ≤ ·))) with
  | [] => push (.error .noValueAvailable)
  | (topValue, topCount) :: _ =>
    if topCount = 1 then push (.error .noValueAvailable) else push (.value topValue)

def fncSum : StackM Unit := do
  requireArgs (0 < ·) "SUM requires one or more arguments."
  let ret ← forArgs (fun _ ↦ true) (fun ret ↦ do
    match ← back with
    | .rangeRef _ =>
      let sum ← Reader.ofExcept (sumMatrixElements (← popRangeValue f.workbook.sheetSize))
      return ret + sum
    | _ => return ret + (← popValue)) (0 : ℚ)
  push (.value ret)

/-- Count the arguments and the cells they refer to. -/
def countArgs (counted : StackValue → Bool) (values : Values) : StackM Unit := do
  let ret ← forArgs (fun _ ↦ true) (fun ret ↦ do
    match ← back with
    | .rangeRef _ =>
      let range ← popRangeRef
      return ret + (← f.workbook.countRange range values)
    | .singleRef _ =>
      let pos ← popSingleRef
      return ret + (← f.workbook.countRange pos.toRange values)
    | v =>
      popBack
      return if counted v then ret + 1 else ret) (0 : ℚ)
  push (.value ret)

def fncCount : StackM Unit :=
  f.countArgs (fun | .value _ => true | _ => false) (ValueT.numeric.bits ||| ValueT.boolean.bits)

def fncCounta : StackM Unit :=
  f.countArgs (fun | .string _ | .value _ => true | _ => false)
    (ValueT.numeric.bits ||| ValueT.boolean.bits ||| ValueT.string.bits)

def fncCountblank : StackM Unit := do
  requireArgs (· = 1) "COUNTBLANK requires exactly 1 argument."
  match ← back with
  | .singleRef _ | .rangeRef _ =>
    let range ← popRangeRef
    push (.value (← f.workbook.countRange range ValueT.empty.bits))
  | _ => raiseExn (.invalidArg "COUNTBLANK only takes a reference argument.")

def fncAbs : StackM Unit := do
  requireArgs (· = 1) "ABS requires exactly 1 argument."
  push (.value |← popValue|)

/-- Add the numbers of a matrix to a sum and count them. -/
def averageMatrix (m : Matrix) (ret count : ℚ) : Except Exn (ℚ × ℚ) :=
  (List.range m.rowSize).foldlM (fun p r ↦
    (List.range m.colSize).foldlM (fun (ret, count) c ↦ do
      match ← m.get? r c with
      | .numeric _ | .boolean _ => return (ret + (← m.getNumeric r c), count + 1)
      | _ => return (ret, count)) p) (ret, count)

def fncAverage : StackM Unit := do
  requireArgs (0 < ·) "AVERAGE requires one or more arguments."
  let (ret, count) ← forArgs (fun _ ↦ true) (fun (ret, count) ↦ do
    match ← back with
    | .rangeRef _ =>
      Reader.ofExcept (averageMatrix (← popRangeValue f.workbook.sheetSize) ret count)
    | _ => return (ret + (← popValue), count + 1)) ((0, 0) : ℚ × ℚ)
  push (.value (ret / count))

/-- Whether a matrix has numbers only.  Errors are kept as integers and count as such. -/
def isNumericMatrix (m : Matrix) : Bool :=
  m.elements.all fun
    | .numeric _ | .boolean _ | .error _ => true
    | .string _ | .empty => false

/-- The number that an element of a matrix of numbers stands for. -/
def asNumeric : MatrixElement → ℚ
  | .numeric v => v
  | .boolean b => boolToNumber b
  | .error _ | .string _ | .empty => 0

/-- Multiply two matrices. -/
def multiplyMatrices (left right : Matrix) : StackM Matrix :=
  if left.colSize ≠ right.rowSize then raise .invalidExpression
  else
    let entry (row col : Nat) : ℚ :=
      ((List.range left.colSize).map fun i ↦
        asNumeric (left.get row i) * asNumeric (right.get i col)).sum
    return (List.range left.rowSize).foldl (fun m row ↦
      (List.range right.colSize).foldl (fun m col ↦ m.set row col (.numeric (entry row col))) m)
      (.new left.rowSize right.colSize)

/-- Pop matrices as long as there are arguments, two at most. -/
def popMatrices : Nat → List Matrix → StackM (Option (List Matrix))
  | n, ms => do
    if (← get).isEmpty then return some ms
    match n with
    | 0 => return none
    | n + 1 =>
      match ← maybePopMatrix f.workbook.sheetSize with
      | none => return none
      | some m => popMatrices n (m :: ms)

def fncMmult : StackM Unit := do
  match ← f.popMatrices 2 [] with
  | some [left, right] =>
    if !isNumericMatrix left || !isNumericMatrix right then
      raiseExn (.invalidArg
        "MMULT requires two numeric ranges. At least one range is not numeric.")
    let ans ← multiplyMatrices left right
    push (.matrix ans)
  | _ => raiseExn (.invalidArg "MMULT requires exactly two ranges.")

/-- The number `M_PI`. -/
def mPi : ℚ := 884279719003555 / 281474976710656

def fncPi : StackM Unit := do
  requireArgs (· = 0) "PI takes no arguments."
  push (.value mPi)

def fncInt : StackM Unit := do
  requireArgs (· = 1) "INT requires exactly 1 argument."
  push (.value (← popValue).floor)

/-! ## Logic -/

/-- Whether all values of a segment are true.  Of formula cells it is the last one with a
Boolean value or a number that counts. -/
def andSegment (sheet : Int) : Workbook.ColumnBlockCallback Bool := fun seg finalResult ↦ do
  let addrs := seg.addresses sheet
  let res ← match seg.type with
    | .empty | .string => pure finalResult
    | .boolean | .numeric => do
      let bs ← addrs.mapM Reader.getBooleanValue
      pure (bs.all id)
    | .formula =>
      addrs.foldlM (fun b addr ↦ do
        match ← Reader.getFormulaResult addr with
        | .boolean b => return b
        | .value v => return v ≠ 0
        | _ => return b) finalResult
  return (res, res)

def fncAnd : StackM Unit := do
  let finalResult ← forArgs id (fun finalResult ↦ do
    match ← back with
    | .singleRef _ | .value _ | .string _ =>
      return (← popOneValueAsBoolean).getD finalResult
    | .rangeRef _ =>
      let range ← popRangeRef
      f.workbook.walk range.first.sheet range (andSegment range.first.sheet) finalResult
    | _ => raise .generalError) true
  clearAndPush (.boolean finalResult)

/-- Read formula cells until one of them is true. -/
def orFormulas : List AbsAddress → Bool → Reader Bool
  | [], b => return b
  | addr :: addrs, b => do
    let b ← match ← Reader.getFormulaResult addr with
      | .boolean b => pure b
      | .value v => pure (decide (v ≠ 0))
      | _ => pure b
    if b then return true else orFormulas addrs b

/-- Whether some value of a segment is true. -/
def orSegment (sheet : Int) : Workbook.ColumnBlockCallback Bool := fun seg thisResult ↦ do
  let addrs := seg.addresses sheet
  let res ← match seg.type with
    | .empty | .string => pure thisResult
    | .boolean | .numeric => do
      let bs ← addrs.mapM Reader.getBooleanValue
      pure (bs.any id)
    | .formula => orFormulas addrs thisResult
  return (res, !res)

def fncOr : StackM Unit := do
  let finalResult ← forArgs (!·) (fun _ ↦ do
    match ← back with
    | .singleRef _ | .value _ | .string _ => return (← popOneValueAsBoolean).getD false
    | .rangeRef _ =>
      let range ← popRangeRef
      f.workbook.walk range.first.sheet range (orSegment range.first.sheet) false
    | _ => raise .generalError) false
  clearAndPush (.boolean finalResult)

def fncIf : StackM Unit := do
  match ← get with
  | [v3, v2, v1] =>
    let eval := decide ((← numericOf v1) ≠ 0)
    set [if eval then v2 else v3]
  | _ => raiseExn (.invalidArg "IF requires exactly 3 arguments.")

def fncTrue : StackM Unit := do
  requireArgs (· = 0) "TRUE takes no arguments."
  push (.boolean true)

def fncFalse : StackM Unit := do
  requireArgs (· = 0) "FALSE takes no arguments."
  push (.boolean false)

def fncNot : StackM Unit := do
  requireArgs (· = 1) "NOT requires exactly one argument."
  push (.boolean !(← popBoolean))

/-! ## Information -/

/-- Replace the only argument by what is found out about the cell it refers to, or by what it
is itself. -/
def fncIs (msg : String) (cell : AbsAddress → Reader Bool) (value : StackValue → Bool) :
    StackM Unit := do
  requireArgs (· = 1) msg
  match ← back with
  | .singleRef _ =>
    let addr ← popSingleRef
    push (.boolean (← cell addr))
  | v => clearAndPush (.boolean (value v))

/-- The type of the value of a cell has a property. -/
def cellValueIs (p : Reader.ValueType → Bool) (addr : AbsAddress) : Reader Bool := do
  return p (← Reader.getCellValueType addr)

/-- The error that is the result of a formula cell. -/
def getErrorValue (addr : AbsAddress) : Reader FormulaError := do
  match ← Reader.getCellType addr with
  | .formula =>
    match ← Reader.getFormulaResult addr with
    | .error e => return e
    | _ => return .noError
  | _ => return .noError

def fncIsblank : StackM Unit := do
  requireArgs (· = 1) "ISBLANK requires exactly one argument."
  match ← back with
  | .singleRef _ =>
    let addr ← popSingleRef
    push (.boolean ((← Reader.getCellType addr) = .empty))
  | .rangeRef _ =>
    let range ← popRangeRef
    push (.boolean (← f.workbook.isEmpty range))
  | _ => clearAndPush (.boolean false)

/-- The errors for which `ISERR` is true. -/
def isErr (e : FormulaError) : Bool := 1 ≤ e.code ∧ e.code ≤ 6

def fncIserr : StackM Unit :=
  fncIs "ISERR requires exactly one argument."
    (fun addr ↦ do
      if (← Reader.getCellValueType addr) ≠ .error then return false
      return isErr (← getErrorValue addr))
    fun | .error e => isErr e | _ => false

def fncIserror : StackM Unit :=
  fncIs "ISERROR requires exactly one argument." (cellValueIs (· = .error))
    fun | .error _ => true | _ => false

def fncIseven : StackM Unit := do
  requireArgs (· = 1) "ISEVEN requires exactly one argument."
  push (.boolean !(← popAndCheckForOddValue))

def fncIsformula : StackM Unit :=
  fncIs "ISFORMULA requires exactly one argument."
    (fun addr ↦ do return (← Reader.getCellType addr) = .formula) fun _ ↦ false

def fncIslogical : StackM Unit :=
  fncIs "ISLOGICAL requires exactly one argument." (cellValueIs (· = .boolean))
    fun | .boolean _ => true | _ => false

def fncIsna : StackM Unit :=
  fncIs "ISNA requires exactly one argument."
    (fun addr ↦ do return (← getErrorValue addr) = .noValueAvailable)
    fun | .error e => e = .noValueAvailable | _ => false

def fncIsnontext : StackM Unit :=
  fncIs "ISNONTEXT requires exactly one argument." (cellValueIs (· ≠ .string))
    fun | .string _ => false | _ => true

def fncIsnumber : StackM Unit :=
  fncIs "ISNUMBER requires exactly one argument." (cellValueIs (· = .numeric))
    fun | .value _ => true | _ => false

def fncIsodd : StackM Unit := do
  requireArgs (· = 1) "ISODD requires exactly one argument."
  push (.boolean (← popAndCheckForOddValue))

def fncIsref : StackM Unit := do
  requireArgs (· = 1) "ISREF requires exactly one argument."
  match ← back with
  | .singleRef _ | .rangeRef _ => clearAndPush (.boolean true)
  | _ => clearAndPush (.boolean false)

def fncIstext : StackM Unit :=
  fncIs "ISTEXT requires exactly one argument." (cellValueIs (· = .string))
    fun | .string _ => true | _ => false

def fncN : StackM Unit := do
  requireArgs (· = 1) "N takes exactly one argument."
  push (.value (← popValue))

def fncNa : StackM Unit := do
  requireArgs (· = 0) "NA takes no arguments."
  push (.error .noValueAvailable)

/-- The number for the type of the value of a cell. -/
def typeNumber : Reader.ValueType → ℚ
  | .boolean => 4
  | .empty | .numeric => 1
  | .error => 16
  | .string => 2

def fncType : StackM Unit := do
  requireArgs (· = 1) "TYPE requires exactly one argument."
  match ← back with
  | .boolean _ => popBack; push (.value 4)
  | .error _ => popBack; push (.value 16)
  | .matrix _ | .rangeRef _ => popBack; push (.value 64)
  | .string _ => popBack; push (.value 2)
  | .value _ => popBack; push (.value 1)
  | .singleRef _ =>
    let addr ← popSingleRef
    push (.value (typeNumber (← Reader.getCellValueType addr)))

/-! ## Texts -/

def fncLen : StackM Unit := do
  requireArgs (· = 1) "LEN requires exactly one argument."
  let s ← popString f.lib
  push (.value (← bytePositions s).length)

def fncMid : StackM Unit := do
  requireArgs (· = 3) "MID requires exactly 3 arguments."
  let len ← popFloor
  let start ← popFloor
  if len < 0 ∨ start < 1 then clearAndPush (.error .invalidValueType)
  else
    let s ← popString f.lib
    let positions ← bytePositions s
    let start := (start - 1).toNat
    if positions.length ≤ start then push (.string [])
    else
      let skipFront ← elementAt positions start
      let last ← if len < asInt (positions.length - start) then do
          elementAt positions (toSize (← toInt (start + len)))
        else pure s.length
      push (.string ((s.take last).drop skipFront))

def fncConcatenate : StackM Unit := do
  let s ← forArgs (fun _ ↦ true) (fun s ↦ do return (← popString f.lib) ++ s) ([] : Text)
  push (.string s)

def fncExact : StackM Unit := do
  requireArgs (· = 2) "EXACT requires exactly 2 arguments."
  let right ← popString f.lib
  let left ← popString f.lib
  push (.boolean (right = left))

/-- Where a part is found in a string, from a position on. -/
def findFrom (content part : Text) (pos : Nat) : Option Nat :=
  (List.range (content.length + 1)).find? fun i ↦ pos ≤ i && part.isPrefixOf (content.drop i)

/-- The number of the character that begins at a byte position. -/
def characterAt (positions : List Nat) (pos : Nat) : Option Nat :=
  let i := positions.findIdx (pos ≤ ·)
  if positions[i]? = some pos then some i else none

def fncFind : StackM Unit := do
  requireArgs (fun n ↦ 2 ≤ n && n ≤ 3) "FIND requires at least 2 and no more than 3 arguments."
  let startPos ← if (← get).length = 3 then do toInt ((← popValue).floor - 1) else pure 0
  if startPos < 0 then clearAndPush (.error .invalidValueType)
  else
    let content ← popString f.lib
    let part ← popString f.lib
    let positions ← bytePositions content
    match positions[startPos.toNat]? with
    | none => push (.error .invalidValueType)
    | some start =>
      -- the byte position is kept in an `int`
      match (findFrom content part (toSize (asInt start))).bind (characterAt positions) with
      | none => push (.error .invalidValueType)
      | some i => push (.value (i + 1))

/-- The number of characters, which is 1 if it is left out. -/
def popCount : StackM Int := do
  if (← get).length = 2 then popFloor else return 1

def fncLeft : StackM Unit := do
  requireArgs (fun n ↦ 1 ≤ n && n ≤ 2) "LEFT requires at least one argument but no more than 2."
  let n ← popCount
  if n < 0 then clearAndPush (.error .invalidValueType)
  else
    let s ← popString f.lib
    match (← bytePositions s)[n.toNat]? with
    | some pos => push (.string (s.take pos))
    | none => push (.string s)

def fncReplace : StackM Unit := do
  requireArgs (· = 4) "REPLACE requires exactly 4 arguments."
  let newText ← popString f.lib
  let nSegment ← popFloor
  let posSegment ← toInt ((← popValue).floor - 1)
  if nSegment < 0 ∨ posSegment < 0 then clearAndPush (.error .invalidValueType)
  else
    let content ← popString f.lib
    let positions ← bytePositions content
    let posSegment := min posSegment (asInt positions.length)
    let nSegment := min nSegment (asInt (positions.length - posSegment))
    let bytePos (i : Int) : Nat := positions.getD (toSize i) content.length
    let posLogical ← toInt (posSegment + nSegment)
    push (.string
      (content.take (bytePos posSegment) ++ newText ++ content.drop (bytePos posLogical)))

def fncRept : StackM Unit := do
  requireArgs (· = 2) "REPT requires 2 arguments."
  let count ← toInt (trunc (← popValue))
  if count < 0 then clearAndPush (.error .invalidValueType)
  else
    let s ← popString f.lib
    push (.string (List.replicate count.toNat s).flatten)

def fncRight : StackM Unit := do
  requireArgs (fun n ↦ 1 ≤ n && n ≤ 2) "RIGHT requires at least one argument but no more than 2."
  let n ← popCount
  if n < 0 then clearAndPush (.error .invalidValueType)
  else if n = 0 then clearAndPush (.string [])
  else
    let s ← popString f.lib
    let positions ← bytePositions s
    let skip ← toInt (asInt positions.length - n)
    if 0 < skip then push (.string (s.drop (← elementAt positions skip.toNat)))
    else push (.string s)

/-- Replace the occurrences of a text, or one of them only.  They are counted by an `int`; once
there are too many for it, the behaviour is undefined. -/
def substituteFrom (content old new : Text) (which : Option Int) :
    Nat → Nat → Int → Text → StackM Text
  | 0, _, _, _ => undefined
  | n + 1, pos, whichFound, contentNew =>
    match findFrom content old pos with
    | none => return contentNew ++ content.drop pos
    | some foundPos =>
      let replaceThis : Bool := which = none ∨ which = some (whichFound + 1)
      substituteFrom content old new which n (foundPos + old.length) (whichFound + 1)
        (contentNew ++ (content.take foundPos).drop pos ++ if replaceThis then new else old)

def fncSubstitute : StackM Unit := do
  requireArgs (fun n ↦ 3 ≤ n && n ≤ 4)
    "SUBSTITUTE requires at least 3 arguments but no more than 4."
  let which ← if (← get).length = 4 then do pure (some (← popFloor)) else pure none
  if which.any (· < 1) then clearAndPush (.error .invalidValueType)
  else
    let textNew ← popString f.lib
    let textOld ← popString f.lib
    let content ← popString f.lib
    let contentNew ← substituteFrom content textOld textNew which (2 ^ 31) 0 0 []
    clearAndPush (.string contentNew)

def fncT : StackM Unit := do
  requireArgs (· = 1) "T takes exactly one argument."
  match ← back with
  | .string _ => return ()
  | .singleRef _ | .rangeRef _ =>
    let addr ← popSingleRef
    if (← Reader.getCellValueType addr) = .string then
      push (.string (← Reader.getStringValue addr))
    else push (.string [])
  | _ =>
    popBack
    push (.string [])

/-- The text of a cell, if it has one. -/
def cellText (skipEmpty : Bool) (addr : AbsAddress) : Reader (Option Text) := do
  match ← Reader.getCellType addr with
  | .string =>
    match ← Reader.getCellValue addr with
    | .string (some s) => return some s
    | _ => .throw .undefined
  | .numeric => return some (f.lib.toText (← Reader.getNumericValue addr))
  | .boolean => return some (boolToText (← Reader.getBooleanValue addr))
  | .formula => return some (f.resultStr (← Reader.getFormulaResult addr))
  | .empty => return if skipEmpty then none else some []

/-- The texts of the cells of a range. -/
def rangeTexts (skipEmpty : Bool) (tokens : List Text) (range : AbsRange) : Reader (List Text) :=
  (countUp range.first.sheet range.last.sheet).foldlM (fun tokens sheet ↦ do
    let addrs ← Reader.ofExcept (f.workbook.horizontalAddresses sheet range)
    addrs.foldlM (fun tokens addr ↦ do
      return tokens ++ (← f.cellText skipEmpty addr).toList) tokens) tokens

/-- Pop references to ranges down to the first two arguments. -/
def popRanges : Nat → List AbsRange → StackM (List AbsRange)
  | 0, ranges => return ranges
  | n + 1, ranges => do
    let range ← popRangeRef
    popRanges n (range :: ranges)

def fncTextjoin : StackM Unit := do
  requireArgs (3 ≤ ·) "TEXTJOIN requires at least 3 arguments."
  let ranges ← popRanges ((← get).length - 2) []
  let skipEmpty ← popBoolean
  let delim ← popString f.lib
  let tokens ← ranges.foldlM (fun tokens range ↦ f.rangeTexts skipEmpty tokens range) []
  push (.string (delim.intercalate tokens))

/-- The words of a text, between blanks. -/
def words (head : Text) : Text → List Text
  | [] => if head = [] then [] else [head]
  | c :: cs =>
    if c = 0x20 then if head = [] then words [] cs else head :: words [] cs
    else words (head ++ [c]) cs

def fncTrim : StackM Unit := do
  requireArgs (· = 1) "TRIM takes exactly one argument."
  let s ← popString f.lib
  push (.string ((textOf " ").intercalate (words [] s)))

/-! ## Times -/

def fncNow : StackM Unit := do
  requireArgs (· = 0) "NOW takes no arguments."
  push (.value (f.currentTime / 86400))

def fncWait : StackM Unit := clearAndPush (.value 1)

/-! ## References -/

def fncSubtotal : StackM Unit := do
  requireArgs (· = 2) "SUBTOTAL requires exactly 2 arguments."
  let range ← popRangeRef
  let subtype ← toInt (trunc (← popValue))
  if subtype = 109 then
    let m ← Reader.getRangeValue f.workbook.sheetSize range
    push (.value (← Reader.ofExcept (sumMatrixElements m)))
  else raiseExn (.invalidArg s!"SUBTOTAL: function type {subtype} not implemented yet")

/-- A number of the position of the cell, or of that of the cell that the only argument refers
to. -/
def fncPosition (msg : String) (number : AbsAddress → Int) : StackM Unit := do
  if (← get).isEmpty then push (.value (number f.pos + 1))
  else
    requireArgs (· ≤ 1) msg
    match ← back with
    | .singleRef _ | .rangeRef _ =>
      let addr ← popSingleRef
      push (.value (number addr + 1))
    | _ => raise .invalidValueType

def fncColumn : StackM Unit :=
  f.fncPosition "COLUMN requires 1 argument or less." AbsAddress.column

def fncRow : StackM Unit := f.fncPosition "ROW requires 1 argument or less." AbsAddress.row

/-- The sum of the extents of the arguments. -/
def fncExtent (extent : AbsRange → Int) : StackM Unit := do
  let res ← forArgs (fun _ ↦ true) (fun (res : ℚ) ↦ do
    match ← back with
    | .singleRef _ | .rangeRef _ =>
      let range ← popRangeRef
      return res + extent range
    | _ => raise .invalidValueType) 0
  push (.value res)

def fncColumns : StackM Unit :=
  fncExtent fun range ↦ range.last.column - range.first.column + 1

def fncRows : StackM Unit := fncExtent fun range ↦ range.last.row - range.first.row + 1

/-- The number of the sheet with a name. -/
def getSheetIndex (name : Text) : Option Nat :=
  f.workbook.sheets.findIdx? fun ws ↦ ws.name ≠ "" ∧ textOf ws.name = name

def fncSheet : StackM Unit := do
  if (← get).isEmpty then push (.value (f.pos.sheet + 1))
  else
    requireArgs (· ≤ 1) "SHEET only takes one argument or less."
    match ← back with
    | .singleRef _ | .rangeRef _ =>
      let range ← popRangeRef
      push (.value (range.first.sheet + 1))
    | .string _ =>
      let sheetName ← popString f.lib
      match f.getSheetIndex sheetName with
      | none => raise .noValueAvailable
      | some i => push (.value (i + 1))
    | _ => raise .invalidValueType

def fncSheets : StackM Unit := do
  if (← get).isEmpty then push (.value f.workbook.sheets.length)
  else
    requireArgs (· = 1) "SHEETS only takes one argument or less."
    match ← back with
    | .singleRef _ | .rangeRef _ =>
      let range ← popRangeRef
      push (.value (range.last.sheet - range.first.sheet + 1))
    | _ => raise .noValueAvailable

/-! ## Calling a function -/

/-- What a function does to its arguments. -/
def handler : FormulaFunction → StackM Unit
  | .funcAbs => fncAbs
  | .funcAnd => f.fncAnd
  | .funcAverage => f.fncAverage
  | .funcColumn => f.fncColumn
  | .funcColumns => fncColumns
  | .funcConcatenate => f.fncConcatenate
  | .funcCount => f.fncCount
  | .funcCounta => f.fncCounta
  | .funcCountblank => f.fncCountblank
  | .funcExact => f.fncExact
  | .funcFalse => fncFalse
  | .funcFind => f.fncFind
  | .funcIf => fncIf
  | .funcIsblank => f.fncIsblank
  | .funcIserr => fncIserr
  | .funcIserror => fncIserror
  | .funcIseven => fncIseven
  | .funcIsformula => fncIsformula
  | .funcIslogical => fncIslogical
  | .funcIsna => fncIsna
  | .funcIsnontext => fncIsnontext
  | .funcIsnumber => fncIsnumber
  | .funcIsodd => fncIsodd
  | .funcIsref => fncIsref
  | .funcIstext => fncIstext
  | .funcInt => fncInt
  | .funcLeft => f.fncLeft
  | .funcLen => f.fncLen
  | .funcMax => fncMax
  | .funcMedian => f.fncMedian
  | .funcMid => f.fncMid
  | .funcMin => fncMin
  | .funcMmult => f.fncMmult
  | .funcMode => f.fncMode
  | .funcN => fncN
  | .funcNa => fncNa
  | .funcNot => fncNot
  | .funcNow => f.fncNow
  | .funcOr => f.fncOr
  | .funcPi => fncPi
  | .funcReplace => f.fncReplace
  | .funcRept => f.fncRept
  | .funcRight => f.fncRight
  | .funcRow => f.fncRow
  | .funcRows => fncRows
  | .funcSheet => f.fncSheet
  | .funcSheets => f.fncSheets
  | .funcSubstitute => f.fncSubstitute
  | .funcSubtotal => f.fncSubtotal
  | .funcSum => f.fncSum
  | .funcT => fncT
  | .funcTextjoin => f.fncTextjoin
  | .funcTrim => f.fncTrim
  | .funcTrue => fncTrue
  | .funcType => fncType
  | .funcWait => fncWait
  | .unimplemented name =>
    raiseExn (.notImplementedError s!"formula function not implemented yet (name={name})")

/-- Turn a formula error that is not an internal one into the value of a function. -/
def catchFormulaError (x : StackM Unit) : StackM Unit := fun stack ↦
  (x stack).tryCatch fun
    | .exception (.formulaError e) =>
      if 200 ≤ e.code then .throw (.exception (.formulaError e)) else pure ((), [.error e])
    | e => .throw e

/-- Call a function. -/
def interpret (func : FormulaFunction) : StackM Unit := catchFormulaError (f.handler func)

/-- The interpreter that calls these functions. -/
def interpreter (assertions : Bool) : Interpreter where
  lib := f.lib
  workbook := f.workbook
  pos := f.pos
  call := f.interpret
  assertions := assertions

/-- The functions for a cell of a workbook, with powers of natural numbers only and results
written as they are by default. -/
def plain (workbook : Workbook) (pos : AbsAddress) : FormulaFunctions where
  lib := .natural
  workbook := workbook
  pos := pos
  config := ⟨0x2C, 0x3B, -1⟩
  toFixed _ _ := []
  currentTime := 0

end FormulaFunctions

end Ixion
