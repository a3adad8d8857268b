import Ixion.Interp.Value

/-!
# Operators

The operators of an expression are the additive and the relational ones; those of a term
are the multiplicative ones, the power and the concatenation.  An operator applied to a
matrix is applied to each of its elements.
-/

namespace Ixion

/-! ## Operators of expressions -/

/-- The operators of an expression. -/
inductive ExpressionOp where
  | plus
  | minus
  | equal
  | notEqual
  | less
  | lessEqual
  | greater
  | greaterEqual
deriving DecidableEq, Repr

/-- The operator of an expression that a token is. -/
def validExpressionOp : FormulaToken → Option ExpressionOp
  | .plus => some .plus
  | .minus => some .minus
  | .equal => some .equal
  | .notEqual => some .notEqual
  | .less => some .less
  | .lessEqual => some .lessEqual
  | .greater => some .greater
  | .greaterEqual => some .greaterEqual
  | _ => none

/-- Apply an operator to two numbers. -/
def compareValues : ExpressionOp → ℚ → ℚ → ℚ
  | .plus, v, w => v + w
  | .minus, v, w => v - w
  | .equal, v, w => boolToNumber (v = w)
  | .notEqual, v, w => boolToNumber (v ≠ w)
  | .less, v, w => boolToNumber (v < w)
  | .lessEqual, v, w => boolToNumber (v ≤ w)
  | .greater, v, w => boolToNumber (v > w)
  | .greaterEqual, v, w => boolToNumber (v ≥ w)

/-- Apply an operator to two strings. -/
def compareStrings : ExpressionOp → Text → Text → Except Exn ℚ
  | .plus, _, _ => .error (.formulaError .invalidExpression)
  | .minus, _, _ => .error (.formulaError .invalidExpression)
  | .equal, s, t => .ok (boolToNumber (s = t))
  | .notEqual, s, t => .ok (boolToNumber (s ≠ t))
  | .less, s, t => .ok (boolToNumber (s < t))
  | .lessEqual, s, t => .ok (boolToNumber (¬ t < s))
  | .greater, s, t => .ok (boolToNumber (t < s))
  | .greaterEqual, s, t => .ok (boolToNumber (¬ s < t))

/-- Apply an operator to a number and a string, which is always greater. -/
def compareValueToString : ExpressionOp → Except Exn ℚ
  | .plus | .minus => .error (.formulaError .invalidExpression)
  | .equal => .ok (boolToNumber false)
  | .notEqual => .ok (boolToNumber true)
  | .less | .lessEqual => .ok (boolToNumber true)
  | .greater | .greaterEqual => .ok (boolToNumber false)

/-- Apply an operator to a string and a number. -/
def compareStringToValue : ExpressionOp → Except Exn ℚ
  | .plus | .minus => .error (.formulaError .invalidExpression)
  | .equal => .ok (boolToNumber false)
  | .notEqual => .ok (boolToNumber true)
  | .less | .lessEqual => .ok (boolToNumber false)
  | .greater | .greaterEqual => .ok (boolToNumber true)

/-! ## Operators on the elements of a matrix -/

namespace Matrix

theorem index_lt {m : Matrix} {i j : Nat} (hi : i < m.rowSize) (hj : j < m.colSize) :
    i * m.colSize + j < m.elements.length := by
  rw [m.length_elements]
  calc i * m.colSize + j < i * m.colSize + m.colSize := Nat.add_lt_add_left hj _
    _ = (i + 1) * m.colSize := (Nat.succ_mul _ _).symm
    _ ≤ m.rowSize * m.colSize := Nat.mul_le_mul_right _ hi

/-- Replace every element. -/
def map (f : MatrixElement → MatrixElement) (m : Matrix) : Matrix where
  rowSize := m.rowSize
  colSize := m.colSize
  elements := m.elements.map f
  length_elements := by rw [List.length_map, m.length_elements]

/-- Combine the elements of two matrices of the same size. -/
def zipWith (f : MatrixElement → MatrixElement → MatrixElement) (m m' : Matrix) : Matrix where
  rowSize := m.rowSize
  colSize := m.colSize
  elements := (List.range (m.rowSize * m.colSize)).map fun i ↦
    f ((m.elements[i]?).getD .empty) ((m'.elements[i]?).getD .empty)
  length_elements := by rw [List.length_map, List.length_range]

end Matrix

/-- An operator on numbers as it is applied to elements of a matrix. -/
abbrev ElementOp : Type := ℚ → ℚ → Except FormulaError MatrixElement

/-- The element that is set for the outcome of an operator. -/
def elementOf : Except FormulaError MatrixElement → MatrixElement
  | .ok elem => elem
  | .error e => .error e

/-- Apply an operator to every element of a matrix that is a number. -/
def operateAllElements (op : ℚ → Except FormulaError MatrixElement) (m : Matrix) : Matrix :=
  m.map fun
    | .numeric v => elementOf (op v)
    | .boolean b => elementOf (op (boolToNumber b))
    | .string s => .string s
    | .error e => .error e
    | .empty => .empty

/-- Apply an operation on texts to every element of a matrix that has one. -/
def operateAllTexts (lib : NumberLib) (op : Text → Text) (m : Matrix) : Matrix :=
  m.map fun
    | .numeric v => .string (op (lib.toText v))
    | .string s => .string (op s)
    | .boolean b => .string (op (boolToText b))
    | .error e => .error e
    | .empty => .empty

/-- The operators of an expression for elements of a matrix. -/
def ExpressionOp.elementOp : ExpressionOp → ElementOp
  | .plus, v, w => .ok (.numeric (v + w))
  | .minus, v, w => .ok (.numeric (v - w))
  | .equal, v, w => .ok (.numeric (boolToNumber (v = w)))
  | .notEqual, v, w => .ok (.boolean (v ≠ w))
  | .less, v, w => .ok (.boolean (v < w))
  | .lessEqual, v, w => .ok (.boolean (v ≤ w))
  | .greater, v, w => .ok (.boolean (v > w))
  | .greaterEqual, v, w => .ok (.boolean (v ≥ w))

/-- Apply an operator to a matrix and a number.  A number is subtracted by adding its
opposite. -/
def compareMatrixToValue (oc : ExpressionOp) (m : Matrix) (val : ℚ) : Matrix :=
  match oc with
  | .minus => operateAllElements (ExpressionOp.plus.elementOp · (-val)) m
  | oc => operateAllElements (oc.elementOp · val) m

/-- Apply an operator to a number and a matrix. -/
def compareValueToMatrix (oc : ExpressionOp) (val : ℚ) (m : Matrix) : Matrix :=
  operateAllElements (oc.elementOp val) m

/-- Apply an operator to two values of the types that `popStackValue` returns. -/
def compare (oc : ExpressionOp) : StackValue → StackValue → Except Exn StackValue
  | .value v, .value w => .ok (.value (compareValues oc v w))
  | .value _, .string _ => return .value (← compareValueToString oc)
  | .value v, .matrix m => .ok (.matrix (compareValueToMatrix oc v m))
  | .value _, .error e => .ok (.error e)
  | .string _, .value _ => return .value (← compareStringToValue oc)
  | .string s, .string t => return .value (← compareStrings oc s t)
  | .matrix m, .value v => .ok (.matrix (compareMatrixToValue oc m v))
  | .error e, _ => .ok (.error e)
  | _, _ => .error (.formulaError .generalError)

/-! ## Operators of terms -/

/-- The arithmetical operators of a term. -/
inductive TermOp where
  | multiply
  | exponent
  | divide
deriving DecidableEq, Repr

/-- Apply an operator of a term to two numbers. -/
def TermOp.apply (lib : NumberLib) : TermOp → ℚ → ℚ → Except FormulaError ℚ
  | .multiply, v, w => .ok (v * w)
  | .exponent, v, w => .ok (lib.pow v w)
  | .divide, v, w => if w = 0 then .error .divisionByZero else .ok (v / w)

/-- An operator of a term for elements of a matrix. -/
def TermOp.elementOp (lib : NumberLib) (op : TermOp) : ElementOp := fun v w ↦
  (op.apply lib v w).map .numeric

/-- The number that an element of a matrix stands for. -/
def elemToNumeric : MatrixElement → Option ℚ
  | .numeric v => some v
  | .boolean b => some (boolToNumber b)
  | .empty => some 0
  | .string _ | .error _ => none

/-- Apply an operator of a term to matrices and numbers. -/
def opMatrixOrNumeric (lib : NumberLib) (op : TermOp) :
    ResolvedStackValue → ResolvedStackValue → Except Exn ResolvedStackValue
  | .matrix m, .matrix m' =>
    if m.rowSize ≠ m'.rowSize ∨ m.colSize ≠ m'.colSize then
      .error (.invalidExpression "matrix size mis-match")
    else
      .ok (.matrix (m.zipWith (fun e e' ↦
        match elemToNumeric (Matrix.readElement e), elemToNumeric (Matrix.readElement e') with
        | some v, some w => elementOf (op.elementOp lib v w)
        | _, _ => .error .invalidValueType) m'))
  | .matrix m, .numeric w => .ok (.matrix (operateAllElements (op.elementOp lib · w) m))
  | .numeric v, .matrix m => .ok (.matrix (operateAllElements (op.elementOp lib v) m))
  | .numeric v, .numeric w =>
    match op.apply lib v w with
    | .ok r => .ok (.numeric r)
    | .error e => .error (.formulaError e)
  | .string _, _ | _, .string _ => .error (.invalidExpression "unexpected string value")

/-- The text of an element of a matrix. -/
def elemToText (lib : NumberLib) : MatrixElement → Text
  | .numeric v => lib.toText v
  | .string s => s
  | .boolean b => boolToText b
  | .error _ | .empty => []

/-- Concatenate matrices and strings. -/
def concatMatrixOrString (lib : NumberLib) :
    ResolvedStackValue → ResolvedStackValue → Except Exn ResolvedStackValue
  | .matrix m, .matrix m' =>
    if m.rowSize ≠ m'.rowSize ∨ m.colSize ≠ m'.colSize then
      .error (.invalidExpression "matrix size mis-match")
    else
      .ok (.matrix (m.zipWith (fun e e' ↦ .string (elemToText lib e ++ elemToText lib e')) m'))
  | .matrix m, .string s => .ok (.matrix (operateAllTexts lib (· ++ s) m))
  | .string s, .matrix m => .ok (.matrix (operateAllTexts lib (s ++ ·) m))
  | .string s, .string t => .ok (.string (s ++ t))
  | .numeric _, _ | _, .numeric _ => .error (.invalidExpression "unexpected numeric value")

/-- A resolved value on the stack. -/
def ResolvedStackValue.toStackValue : ResolvedStackValue → StackValue
  | .matrix m => .matrix m
  | .numeric v => .value v
  | .string s => .string s

namespace ValueStack

/-- Pop a number, a string, a matrix or an error.  There is none for a range, nor for a
cell whose result is a matrix. -/
def popStackValue (sheetSize : RcSize) : StackM (Option StackValue) := do
  match ← back with
  | .boolean _ => return some (.value (boolToNumber (← popBoolean)))
  | .value _ => return some (.value (← popValue))
  | .string s => popBack; return some (.string s)
  | .matrix _ => return some (.matrix (← popMatrix sheetSize))
  | .error _ => return some (.error (← popError))
  | .singleRef _ =>
    match ← Reader.getCellValue (← popSingleRef) with
    | .empty => return some (.value 0)
    | .boolean b => return some (.value (boolToNumber b))
    | .numeric v => return some (.value v)
    | .string s => return s.map .string
    | .formula row column res =>
      match ← Reader.ofExcept (getSingleFormulaResult row column res) with
      | .boolean b => return some (.value (boolToNumber b))
      | .value v => return some (.value v)
      | .string s => return some (.string s)
      | .error e => return some (.error e)
      | .matrix _ => return none
  | .rangeRef _ => return none

end ValueStack

end Ixion
