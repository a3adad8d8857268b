import Ixion.Expand
import Ixion.Interp.Operator

/-!
# The formula interpreter

A formula is interpreted by recursive descent over its tokens, one function for each
level of the grammar:

    expression := term (op term)*         with an additive or a relational operator
    term       := factor (op term)?       with an operator of a term
    factor     := sign? (constant | reference | string | array | function | paren)
    paren      := '(' expression ')'

An exception that is not a formula error or an invalid expression leaves `interpret`.

Every function takes the number of calls that may be nested; `interpret` provides for
as many as there can be.
-/

namespace Ixion

open Lib

/-- What the interpretation of a formula goes by: the library, the workbook, the position of
the cell, what calling a function does to the stack of its arguments, and whether
assertions are checked. -/
structure Interpreter where
  lib : NumberLib
  workbook : Workbook
  pos : AbsAddress
  call : FormulaFunction → StackM Unit
  assertions : Bool

/-- The state of an interpretation: the tokens from the current one on, the stack in use
and those of the enclosing function calls. -/
structure InterpState where
  tokens : List FormulaToken
  stack : ValueStack
  outer : List ValueStack

/-- A step of an interpretation. -/
abbrev InterpM (α : Type) : Type := StateT InterpState Reader α

namespace InterpM

/-- Throw an exception. -/
def raise {α : Type} (e : Exn) : InterpM α := fun _ ↦ .throw (.exception e)

/-- Throw an invalid expression. -/
def invalid {α : Type} (msg : String) : InterpM α := raise (.invalidExpression msg)

/-- Fail in a way that is not an exception. -/
def fail {α : Type} (e : Failure) : InterpM α := fun _ ↦ .throw e

/-- Work on the stack in use. -/
def onStack {α : Type} (x : StackM α) : InterpM α := fun s ↦ do
  let (a, stack) ← x s.stack
  return (a, { s with stack })

/-- Read cells. -/
def ofReader {α : Type} (x : Reader α) : InterpM α := fun s ↦ do
  return (← x, s)

/-- The current token, if there is one. -/
def token? : InterpM (Option FormulaToken) := fun s ↦ pure (s.tokens.head?, s)

/-- Go to the next token. -/
def next : InterpM Unit := modify fun s ↦ { s with tokens := s.tokens.tail }

/-- The current token. -/
def tokenOrThrow : InterpM FormulaToken := do
  match ← token? with
  | some t => return t
  | none => invalid "formula expression ended prematurely"

/-- Go to the next token, which there has to be. -/
def nextToken : InterpM FormulaToken := do
  next
  match ← token? with
  | some t => return t
  | none => invalid "expecting a token but no more tokens found."

/-- Push a value. -/
def push (v : StackValue) : InterpM Unit := onStack (ValueStack.push v)

/-- Begin a stack for the arguments of a function. -/
def pushStack : InterpM Unit := modify fun s ↦ { s with stack := [], outer := s.stack :: s.outer }

end InterpM

open InterpM

namespace Interpreter

/-! ## Factors without an expression inside -/

/-- A sign that may be there.  It is not the last token. -/
def sign : InterpM Bool := do
  let skip : InterpM Unit := do
    next
    if (← token?).isNone then invalid "sign: a sign cannot be the last token"
  match ← tokenOrThrow with
  | .minus => skip; return true
  | .plus => skip; return false
  | _ => return false

variable (env : Interpreter)

/-- Check an assertion, in a build that checks them. -/
def assert (expr : String) (p : Prop) [Decidable p] : InterpM Unit :=
  if env.assertions = true ∧ ¬ p then fail (.assertionFailed expr) else return ()

/-- Push a reference to a range, which has to be valid. -/
def pushRangeRef (range : AbsRange) : InterpM Unit := do
  env.assert "val.valid()" (range.valid = true)
  push (.rangeRef range)

/-- A reference to a cell, which is not the cell itself. -/
def singleRef (addr : Address) : InterpM Unit := do
  let absAddr := addr.toAbs env.pos
  if absAddr = env.pos then raise (.formulaError .refResultNotAvailable)
  push (.singleRef absAddr)
  next

/-- A reference to a range, which does not contain the cell itself. -/
def rangeRef (range : Range) : InterpM Unit := do
  let absRange := (range.toAbs env.pos).reorder
  if absRange.contains env.pos then raise (.formulaError .refResultNotAvailable)
  env.pushRangeRef absRange
  next

/-- A reference to a table. -/
def tableRef (table : Table) : InterpM Unit := do
  match env.workbook.tableRange env.pos table with
  | none => raise (.formulaError .refResultNotAvailable)
  | some range =>
    env.pushRangeRef range
    next

/-- A string of the pool. -/
def stringOrThrow (sid : StringId) : InterpM Text :=
  match env.workbook.strPool.getString sid with
  | some s => return s
  | none => raise (.generalError "no string found for the specified string ID.")

/-- A string. -/
def literal (sid : StringId) : InterpM Unit := do
  let s ← env.stringOrThrow sid
  next
  push (.string s)

/-- A matrix of numbers. -/
structure NumericMatrix where
  array : List ℚ
  rows : Nat
  cols : Nat

namespace NumericMatrix

/-- Where the array has the element of a row and a column. -/
def toArrayPos (m : NumericMatrix) (row col : Nat) : Nat := m.rows * col + row

/-- The element at a position. -/
def get (m : NumericMatrix) (row col : Nat) : ℚ := (m.array[m.toArrayPos row col]?).getD 0

/-- The matrix that has at each position what a function says. -/
def ofFn (rows cols : Nat) (f : Nat → Nat → ℚ) : NumericMatrix where
  array := (List.range (rows * cols)).map fun pos ↦ f (pos % rows) (pos / rows)
  rows := rows
  cols := cols

/-- A matrix of numbers as one of elements of any type. -/
def toMatrix (m : NumericMatrix) : Matrix where
  rowSize := m.rows
  colSize := m.cols
  elements := (List.range (m.rows * m.cols)).map fun i ↦
    .numeric (m.get (i / m.cols) (i % m.cols))
  length_elements := by rw [List.length_map, List.length_range]

end NumericMatrix

/-- An array so far: its numbers row by row with 0 in the place of a string, its strings with
their rows and columns, the number of rows before the current one, the length of the current
one, and that of those before it. -/
structure ArrayState where
  values : List ℚ
  strings : List (Nat × Nat × Text)
  row : Nat
  col : Nat
  prevCol : Option Nat
  prevOp : FormulaToken

namespace ArrayState

/-- An element is expected next. -/
def expectsElement (a : ArrayState) : Bool :=
  a.prevOp = .arrayOpen ∨ a.prevOp = .sep ∨ a.prevOp = .arrayRowSep

/-- The token before is an element. -/
def afterElement (a : ArrayState) : Bool :=
  match a.prevOp with
  | .value _ | .string _ => true
  | _ => false

/-- The current row is as long as those before it. -/
def widthFits (a : ArrayState) : Bool := a.prevCol = none ∨ a.prevCol = some a.col

/-- The numbers as a matrix.  They are stored row by row and a matrix column by column, so that
they are first taken for the transposed matrix. -/
def numMtx (a : ArrayState) : NumericMatrix :=
  let transposed : NumericMatrix := ⟨a.values, a.col, a.row + 1⟩
  .ofFn (a.row + 1) a.col fun r c ↦ transposed.get c r

/-- The array as a matrix. -/
def toMatrix (a : ArrayState) : Matrix :=
  a.strings.foldl (fun mtx s ↦ mtx.set s.1 s.2.1 (.string s.2.2)) a.numMtx.toMatrix

end ArrayState

/-- The name of a token in messages. -/
def opcodeName : FormulaToken → String
  | .singleRef _ => "single-ref"
  | .rangeRef _ => "range-ref"
  | .tableRef _ => "table-ref"
  | .namedExpression _ => "named-expression"
  | .string _ => "string"
  | .value _ => "value"
  | .function _ => "function"
  | .error _ => "error"
  | .plus => "plus"
  | .minus => "minus"
  | .divide => "divide"
  | .multiply => "multiply"
  | .exponent => "exponent"
  | .concat => "concat"
  | .equal => "equal"
  | .notEqual => "not-equal"
  | .less => "less"
  | .greater => "greater"
  | .lessEqual => "less-equal"
  | .greaterEqual => "greater-equal"
  | .parenOpen => "open"
  | .parenClose => "close"
  | .sep => "sep"
  | .arrayRowSep => "array-row-sep"
  | .arrayOpen => "array-open"
  | .arrayClose => "array-close"
  | .invalidFormula => "invalid-formula"
  | .unknown => "unknown"

/-- The elements of an array, to its closing brace. -/
def arrayElements : Nat → ArrayState → InterpM Unit
  | 0, _ => fail .stackOverflow
  | depth + 1, a => do
    if (← token?).isNone then invalid "array: ended prematurely"
    let hasSign ← if a.expectsElement then sign else pure false
    let t ← tokenOrThrow
    match t with
    | .string sid =>
      if !a.expectsElement then invalid "array: invalid placement of value"
      let s ← env.stringOrThrow sid
      next
      arrayElements depth
        { a with
          values := a.values ++ [0]
          strings := a.strings ++ [(a.row, a.col, s)]
          col := a.col + 1
          prevOp := t }
    | .value v =>
      if !a.expectsElement then invalid "array: invalid placement of value"
      next
      arrayElements depth
        { a with
          values := a.values ++ [if hasSign then -v else v]
          col := a.col + 1
          prevOp := t }
    | .sep =>
      if !a.afterElement then invalid "array: unexpected separator"
      next
      arrayElements depth { a with prevOp := t }
    | .arrayRowSep =>
      if !a.afterElement then invalid "array: unexpected row separator"
      if !a.widthFits then invalid "array: inconsistent column width"
      next
      arrayElements depth
        { a with row := a.row + 1, col := 0, prevCol := some a.col, prevOp := t }
    | .arrayClose =>
      if !(a.prevOp = .arrayOpen ∨ a.afterElement) then
        invalid "array: invalid placement of array close operator"
      if !a.widthFits then invalid "array: inconsistent column width"
      push (.matrix a.toMatrix)
      next
    | t => invalid s!"array: unexpected token type: <{opcodeName t}>"

/-! ## The grammar -/

/-- End the stack of a function, which has one value, and keep that value. -/
def popStack : InterpM Unit := do
  let s ← get
  env.assert "m_stacks.size() >= 2" (s.outer ≠ [])
  env.assert "m_stacks.back().size() == 1" (s.stack.length = 1)
  match s.stack, s.outer with
  | v :: _, stack :: outer => set { s with stack := v :: stack, outer }
  | _, _ => fail .undefined

/-- Apply an operator of a term. -/
def applyTermOp (op : TermOp) (lhs rhs : ResolvedStackValue) : InterpM Unit :=
  match opMatrixOrNumeric env.lib op lhs rhs with
  | .ok v => push v.toStackValue
  | .error e => raise e

mutual

/-- Terms joined by additive and relational operators. -/
def expression : Nat → InterpM Unit
  | 0 => fail .stackOverflow
  | depth + 1 => do
    term depth
    expressionRest depth

/-- The operators and terms that follow the first term of an expression.  The value so far is
on top of the stack. -/
def expressionRest : Nat → InterpM Unit
  | 0 => fail .stackOverflow
  | depth + 1 => do
    match (← token?).bind validExpressionOp with
    | none => return ()
    | some oc =>
      match ← onStack (ValueStack.popStackValue env.workbook.sheetSize) with
      | none => raise (.formulaError .generalError)
      | some sv1 =>
        next
        term depth
        match ← onStack (ValueStack.popStackValue env.workbook.sheetSize) with
        | none => raise (.formulaError .generalError)
        | some sv2 =>
          match compare oc sv1 sv2 with
          | .ok v => push v
          | .error e => raise e
          expressionRest depth

/-- A factor, and what an operator after it does with it and the term that follows. -/
def term : Nat → InterpM Unit
  | 0 => fail .stackOverflow
  | depth + 1 => do
    factor depth
    let arithmetic (op : TermOp) : InterpM Unit := do
      let v1 ← onStack (ValueStack.popMatrixOrNumeric env.workbook.sheetSize)
      next
      term depth
      let v2 ← onStack (ValueStack.popMatrixOrNumeric env.workbook.sheetSize)
      env.applyTermOp op v1 v2
    match ← token? with
    | some .multiply => arithmetic .multiply
    | some .exponent => arithmetic .exponent
    | some .concat =>
      let lhs ← onStack (ValueStack.popMatrixOrString env.lib env.workbook.sheetSize)
      next
      term depth
      let rhs ← onStack (ValueStack.popMatrixOrString env.lib env.workbook.sheetSize)
      match concatMatrixOrString env.lib lhs rhs with
      | .ok v => push v.toStackValue
      | .error e => raise e
    | some .divide => arithmetic .divide
    | _ => return ()

/-- A constant, a reference, a function call or a parenthesis, with a sign that may be
there. -/
def factor : Nat → InterpM Unit
  | 0 => fail .stackOverflow
  | depth + 1 => do
    let operand : InterpM Unit := do
      match ← tokenOrThrow with
      | .parenOpen => paren depth
      | .namedExpression _ => raise (.formulaError .generalError)
      | .value v => next; push (.value v)
      | .error e => next; push (.error e)
      | .singleRef addr => env.singleRef addr
      | .rangeRef range => env.rangeRef range
      | .tableRef table => env.tableRef table
      | .function func => function depth func
      | .string sid => env.literal sid
      | .arrayOpen =>
        next
        env.arrayElements depth ⟨[], [], 0, 0, none, .arrayOpen⟩
      | t => invalid s!"factor: unexpected token type: <{opcodeName t}>"
    let negativeSign ← sign
    operand
    if negativeSign then
      let v ← onStack ValueStack.popValue
      push (.value (v * -1))

/-- An expression in parentheses. -/
def paren : Nat → InterpM Unit
  | 0 => fail .stackOverflow
  | depth + 1 => do
    next
    expression depth
    if (← tokenOrThrow) ≠ .parenClose then invalid "paren: expected close paren"
    next

/-- A function call. -/
def function : Nat → FormulaFunction → InterpM Unit
  | 0, _ => fail .stackOverflow
  | depth + 1, func => do
    pushStack
    if (← nextToken) ≠ .parenOpen then invalid "expecting a '(' after a function name."
    let _ ← nextToken
    arguments depth false
    next
    onStack (env.call func)
    env.assert "get_stack().size() == 1" ((← get).stack.length = 1)
    env.popStack

/-- The arguments of a function, to the closing parenthesis. -/
def arguments : Nat → Bool → InterpM Unit
  | 0, _ => fail .stackOverflow
  | depth + 1, expectSep => do
    match ← tokenOrThrow with
    | .parenClose => return ()
    | oc =>
      if expectSep then
        if oc ≠ .sep then invalid "argument separator is expected, but not found."
        next
        arguments depth false
      else
        expression depth
        arguments depth true

end

/-! ## Interpreting a formula -/

/-- The result that the value of a cell makes. -/
def getResultFromCell (addr : AbsAddress) : Reader FormulaResult := do
  match ← Reader.getCellType addr with
  | .formula => Reader.getFormulaResult addr
  | .boolean => return .boolean (← Reader.getBooleanValue addr)
  | .numeric => return .value (← Reader.getNumericValue addr)
  | .string => return .string (← Reader.getStringValue addr)
  | .empty => return .new

/-- The result that the value on top of a stack makes. -/
def topResult : ValueStack → Reader FormulaResult
  | [] => .throw .undefined
  | .rangeRef range :: _ => getResultFromCell range.first
  | .singleRef addr :: _ => getResultFromCell addr
  | .string s :: _ => return .string s
  | .boolean b :: _ => return .boolean b
  | .value v :: _ => return .value v
  | .matrix m :: _ => return .matrix m
  | .error e :: _ => return .error e

/-- The result that the one value left makes. -/
def popResult (stack : ValueStack) : Reader FormulaResult :=
  if env.assertions = true ∧ stack.length ≠ 1 then
    .throw (.assertionFailed "get_stack().size() == 1")
  else topResult stack

@[simp] theorem popResult_singleton (v : StackValue) : env.popResult [v] = topResult [v] :=
  if_neg fun h ↦ h.2 rfl

/-- How many calls may be nested while a list of tokens is interpreted. -/
def depthFor (tokens : List FormulaToken) : Nat := 5 * tokens.length + 5

/-- Interpret the tokens of a formula.  Where there are none, or some are left over, the
result is an error without a kind. -/
def interpretTokens (tokens : List FormulaToken) : Reader FormulaResult := do
  if tokens = [] then return .error .noError
  let (_, s) ← env.expression (depthFor tokens) ⟨tokens, [], []⟩
  if s.tokens ≠ [] then return .error .noError
  env.popResult s.stack

/-- Turn the exceptions that stand for an error of the formula into its result. -/
def catchErrors (x : Reader FormulaResult) : Reader FormulaResult :=
  x.tryCatch fun
    | .exception (.invalidExpression _) => pure (.error .invalidExpression)
    | .exception (.formulaError e) => pure (.error e)
    | e => .throw e

end Interpreter

/-- How many named expressions there are. -/
def Workbook.nameCount (wb : Workbook) : Nat :=
  wb.namedExpressions.length + (wb.sheets.map fun ws ↦ ws.namedExpressions.length).sum

/-- Interpret a formula cell. -/
def Interpreter.interpret (env : Interpreter) (cell : FormulaCell) : Reader FormulaResult :=
  catchErrors <|
    match env.workbook.expandedTokens (env.workbook.nameCount + 1) cell env.pos with
    | .ok tokens => env.interpretTokens tokens
    | .error e => .throw e

/-- Interpret formula cells, in a build without assertions. -/
def formulaInterpreter (lib : NumberLib)
    (call : Workbook → AbsAddress → FormulaFunction → StackM Unit) : Evaluator :=
  fun wb cell pos ↦ Interpreter.interpret ⟨lib, wb, pos, call wb pos, false⟩ cell

end Ixion
