import Ixion.Interp.Arithmetic
import Ixion.Result.Read

/-!
# Array literals

An array literal is a grid of constants between braces, row by row, with separators between the
elements of a row and others between the rows.  The interpreter goes over its tokens once, and
what it has of the array is a matter of the rows that are read and of the elements of the current
one (`stateOf`): each element, separator and row adds to these (`reads_element`, `reads_sep`,
`reads_rowSep`).  So a grid is read to its end (`reads_rows`), and what is read to its end without
an error is a grid or has no element at all (`rejected_or_isGridOrSign`).
-/

namespace Ixion

open Lib InterpM Interpreter

namespace ArrayLiteral

/-! ## Grids -/

/-- A sign before an element. -/
inductive Sign where
  | plus
  | minus
deriving DecidableEq, Repr

/-- The token of a sign. -/
def Sign.token : Sign → FormulaToken
  | .plus => .plus
  | .minus => .minus

/-- A constant in an array. -/
inductive Constant where
  | number (v : ℚ)
  | string (sid : StringId)
deriving DecidableEq

/-- The token of a constant. -/
def Constant.token : Constant → FormulaToken
  | .number v => .value v
  | .string sid => .string sid

/-- An element of an array as it is written, with a sign that may be there. -/
structure Element where
  sign : Option Sign
  constant : Constant
deriving DecidableEq

namespace Element

/-- The tokens of an element. -/
def tokens (e : Element) : List FormulaToken :=
  (e.sign.map Sign.token).toList ++ [e.constant.token]

/-- A sign stands before a number only. -/
def Proper (e : Element) : Prop :=
  match e.constant with
  | .number _ => True
  | .string _ => e.sign = none

/-- The number of an element, 0 for a string. -/
def number (e : Element) : ℚ :=
  match e.constant with
  | .number v => if e.sign = some .minus then -v else v
  | .string _ => 0

/-- The text of an element that is a string. -/
def text? (pool : StringPool) (e : Element) : Option Text :=
  match e.constant with
  | .number _ => none
  | .string sid => pool.getString sid

/-- The element of a matrix that an element shows. -/
def shown (pool : StringPool) (e : Element) : MatrixElement :=
  match e.text? pool with
  | some s => .string s
  | none => .numeric e.number

end Element

/-- The tokens of a row. -/
def rowTokens (row : List Element) : List FormulaToken :=
  List.intercalate [.sep] (row.map Element.tokens)

/-- The tokens of rows. -/
def rowsTokens (rows : List (List Element)) : List FormulaToken :=
  List.intercalate [.arrayRowSep] (rows.map rowTokens)

/-- The element in a row and a column. -/
def lookup (rows : List (List Element)) (i j : Nat) : Option Element :=
  rows[i]?.bind (·[j]?)

/-- Elements in rows of one length. -/
structure Grid where
  rows : List (List Element)
  width : Nat
  rows_ne_nil : rows ≠ []
  width_pos : 0 < width
  length_eq : ∀ row ∈ rows, row.length = width

namespace Grid

/-- The tokens of a grid. -/
def tokens (g : Grid) : List FormulaToken := rowsTokens g.rows

/-- Signs stand before numbers only. -/
def Proper (g : Grid) : Prop := ∀ row ∈ g.rows, ∀ e ∈ row, e.Proper

end Grid

/-- The strings among the tokens are in the pool. -/
def Pooled (pool : StringPool) (ts : List FormulaToken) : Prop :=
  ∀ sid, .string sid ∈ ts → (pool.getString sid).isSome

/-! ## Tokens of rows and elements -/

theorem rowTokens_singleton (e : Element) : rowTokens [e] = e.tokens := List.intercalate_singleton

theorem rowTokens_cons_cons (e e' : Element) (row : List Element) :
    rowTokens (e :: e' :: row) = e.tokens ++ .sep :: rowTokens (e' :: row) := by
  rw [rowTokens, List.map_cons, List.map_cons, List.intercalate_cons_cons, List.append_assoc]
  rfl

theorem rowsTokens_singleton (row : List Element) : rowsTokens [row] = rowTokens row :=
  List.intercalate_singleton

theorem rowsTokens_cons_cons (row row' : List Element) (rows : List (List Element)) :
    rowsTokens (row :: row' :: rows) =
      rowTokens row ++ .arrayRowSep :: rowsTokens (row' :: rows) := by
  rw [rowsTokens, List.map_cons, List.map_cons, List.intercalate_cons_cons, List.append_assoc]
  rfl

theorem rowTokens_append_singleton {row : List Element} (hrow : row ≠ []) (e : Element) :
    rowTokens (row ++ [e]) = rowTokens row ++ .sep :: e.tokens := by
  induction row with
  | nil => exact absurd rfl hrow
  | cons e' row ih =>
    cases row with
    | nil => rw [rowTokens_singleton, ← rowTokens_singleton e, ← rowTokens_cons_cons]; rfl
    | cons e'' row =>
      rw [List.cons_append, List.cons_append, rowTokens_cons_cons, rowTokens_cons_cons,
        ← List.cons_append, ih (List.cons_ne_nil _ _), List.append_assoc]
      rfl

theorem rowsTokens_append_singleton {rows : List (List Element)} (hrows : rows ≠ [])
    (row : List Element) :
    rowsTokens (rows ++ [row]) = rowsTokens rows ++ .arrayRowSep :: rowTokens row := by
  induction rows with
  | nil => exact absurd rfl hrows
  | cons row' rows ih =>
    cases rows with
    | nil => rw [rowsTokens_singleton, ← rowsTokens_singleton row, ← rowsTokens_cons_cons]; rfl
    | cons row'' rows =>
      rw [List.cons_append, List.cons_append, rowsTokens_cons_cons, rowsTokens_cons_cons,
        ← List.cons_append, ih (List.cons_ne_nil _ _), List.append_assoc]
      rfl

/-- An element after others of its row. -/
theorem rowsTokens_push {rows : List (List Element)} {row : List Element} (hrow : row ≠ [])
    (e : Element) :
    rowsTokens (rows ++ [row ++ [e]]) = rowsTokens (rows ++ [row]) ++ .sep :: e.tokens := by
  rcases eq_or_ne rows [] with rfl | hrows
  · rw [List.nil_append, List.nil_append, rowsTokens_singleton, rowsTokens_singleton,
      rowTokens_append_singleton hrow]
  · rw [rowsTokens_append_singleton hrows, rowsTokens_append_singleton hrows,
      rowTokens_append_singleton hrow, List.append_assoc]
    rfl

/-! ## The state after rows and elements -/

section State

variable (pool : StringPool)

/-- The strings of a row with their places. -/
def rowStrings (i : Nat) (row : List Element) : List (Nat × Nat × Text) :=
  row.zipIdx.filterMap fun p ↦ (p.1.text? pool).map fun s ↦ (i, p.2, s)

/-- The strings of rows with their places. -/
def rowsStrings (rows : List (List Element)) : List (Nat × Nat × Text) :=
  rows.zipIdx.flatMap fun p ↦ rowStrings pool p.2 p.1

/-- The state after rows, elements of another row and a token. -/
def stateOf (rows : List (List Element)) (row : List Element) (t : FormulaToken) : ArrayState where
  values := (rows.flatten ++ row).map Element.number
  strings := rowsStrings pool rows ++ rowStrings pool rows.length row
  row := rows.length
  col := row.length
  prevCol := rows.getLast?.map List.length
  prevOp := t

variable {pool} {rows : List (List Element)} {row : List Element}

theorem rowStrings_append_singleton (i : Nat) (row : List Element) (e : Element) :
    rowStrings pool i (row ++ [e]) =
      rowStrings pool i row ++ ((e.text? pool).map fun s ↦ (i, row.length, s)).toList := by
  rw [rowStrings, List.zipIdx_append, List.filterMap_append, Nat.zero_add]
  cases h : e.text? pool with
  | none =>
    rw [List.zipIdx_singleton, List.filterMap_cons_none (by rw [h]; rfl)]
    rfl
  | some s =>
    rw [List.zipIdx_singleton, List.filterMap_cons_some (b := _) (by rw [h]; rfl)]
    rfl

theorem rowsStrings_append_singleton (rows : List (List Element)) (row : List Element) :
    rowsStrings pool (rows ++ [row]) =
      rowsStrings pool rows ++ rowStrings pool rows.length row := by
  rw [rowsStrings, List.zipIdx_append, List.flatMap_append, Nat.zero_add]
  rw [List.zipIdx_singleton, List.flatMap_cons, List.flatMap_nil, List.append_nil]
  rfl

theorem numbers_append_singleton (rows : List (List Element)) (row : List Element) (e : Element) :
    (rows.flatten ++ (row ++ [e])).map Element.number =
      (rows.flatten ++ row).map Element.number ++ [e.number] := by
  rw [← List.append_assoc, List.map_append]
  rfl

/-- The state after a number. -/
theorem stateOf_number {e : Element} {v : ℚ} (he : e.constant = .number v) (t t' : FormulaToken) :
    { stateOf pool rows row t with
      values := (stateOf pool rows row t).values ++ [e.number]
      col := row.length + 1
      prevOp := t' } = stateOf pool rows (row ++ [e]) t' := by
  have htext : e.text? pool = none := by
    rw [Element.text?, he]
  rw [stateOf, stateOf, numbers_append_singleton, rowStrings_append_singleton, htext,
    List.length_append, Option.map_none, Option.toList_none, List.append_nil,
    List.length_singleton]

/-- The state after a string. -/
theorem stateOf_string {e : Element} {sid : StringId} (he : e.constant = .string sid) {s : Text}
    (hs : pool.getString sid = some s) (t t' : FormulaToken) :
    { stateOf pool rows row t with
      values := (stateOf pool rows row t).values ++ [0]
      strings := (stateOf pool rows row t).strings ++ [(rows.length, row.length, s)]
      col := row.length + 1
      prevOp := t' } = stateOf pool rows (row ++ [e]) t' := by
  have htext : e.text? pool = some s := by
    rw [Element.text?, he]
    exact hs
  have hnumber : e.number = 0 := by
    rw [Element.number, he]
  rw [stateOf, stateOf, numbers_append_singleton, rowStrings_append_singleton, htext, hnumber,
    List.length_append, Option.map_some, Option.toList_some, List.append_assoc,
    List.length_singleton]

/-- The state after the end of a row. -/
theorem stateOf_newRow (t t' : FormulaToken) :
    { stateOf pool rows row t with
      row := rows.length + 1
      col := 0
      prevCol := some row.length
      prevOp := t' } = stateOf pool (rows ++ [row]) [] t' := by
  have hstrings : rowStrings pool (rows ++ [row]).length [] = [] := rfl
  rw [stateOf, stateOf, rowsStrings_append_singleton, hstrings, List.getLast?_concat,
    List.flatten_append, List.flatten_singleton, List.append_nil, List.append_nil,
    List.length_append, List.length_singleton, Option.map_some]
  rfl

end State

/-! ## One token -/

section Steps

variable (env : Interpreter) (rest : List FormulaToken) (stack : ValueStack)
  (outer : List ValueStack)

/-- The elements of an array are read from tokens before the closing brace. -/
def readFrom (depth : Nat) (a : ArrayState) (ts : List FormulaToken) :
    Reader (Unit × InterpState) :=
  env.arrayElements (depth + 1) a ⟨ts ++ .arrayClose :: rest, stack, outer⟩

/-- Reading the elements of an array from tokens comes to reading them from other ones. -/
def Reads (a : ArrayState) (ts : List FormulaToken) (a' : ArrayState) (ts' : List FormulaToken) :
    Prop :=
  ∀ depth, ts.length ≤ depth → ∃ depth', ts'.length ≤ depth' ∧
    readFrom env rest stack outer depth a ts = readFrom env rest stack outer depth' a' ts'

/-- The expression is rejected. -/
def Rejected (x : Reader (Unit × InterpState)) : Prop :=
  ∃ msg, x = .throw (.exception (.invalidExpression msg))

variable {env rest stack outer} {a a' a'' : ArrayState} {ts ts' ts'' : List FormulaToken}
  {depth : Nat}

theorem Reads.trans (h : Reads env rest stack outer a ts a' ts')
    (h' : Reads env rest stack outer a' ts' a'' ts'') :
    Reads env rest stack outer a ts a'' ts'' := by
  intro depth hdepth
  obtain ⟨depth', hdepth', heq⟩ := h depth hdepth
  obtain ⟨depth'', hdepth'', heq'⟩ := h' depth' hdepth'
  exact ⟨depth'', hdepth'', heq.trans heq'⟩

theorem afterElement_of_expectsElement (h : a.expectsElement = true) : a.afterElement = false := by
  rw [ArrayState.expectsElement, decide_eq_true_eq] at h
  rw [ArrayState.afterElement]
  rcases h with h | h | h <;> rw [h]

theorem expectsElement_of_afterElement (h : a.afterElement = true) : a.expectsElement = false := by
  by_contra hne
  rw [afterElement_of_expectsElement (Bool.eq_true_of_not_eq_false hne)] at h
  exact Bool.false_ne_true h

/-- What is done about a token that is read, after the sign before it. -/
def consume (env : Interpreter) (depth : Nat) (a : ArrayState) (minus : Bool) (t : FormulaToken) :
    InterpM Unit := do
  match t with
  | .string sid =>
    if !a.expectsElement then invalid "array: invalid placement of value"
    let s ← env.stringOrThrow sid
    next
    env.arrayElements depth
      { a with
        values := a.values ++ [0]
        strings := a.strings ++ [(a.row, a.col, s)]
        col := a.col + 1
        prevOp := t }
  | .value v =>
    if !a.expectsElement then invalid "array: invalid placement of value"
    next
    env.arrayElements depth
      { a with
        values := a.values ++ [if minus then -v else v]
        col := a.col + 1
        prevOp := t }
  | .sep =>
    if !a.afterElement then invalid "array: unexpected separator"
    next
    env.arrayElements depth { a with prevOp := t }
  | .arrayRowSep =>
    if !a.afterElement then invalid "array: unexpected row separator"
    if !a.widthFits then invalid "array: inconsistent column width"
    next
    env.arrayElements depth
      { a with row := a.row + 1, col := 0, prevCol := some a.col, prevOp := t }
  | .arrayClose =>
    if !(a.prevOp = .arrayOpen ∨ a.afterElement) then
      invalid "array: invalid placement of array close operator"
    if !a.widthFits then invalid "array: inconsistent column width"
    push (.matrix a.toMatrix)
    next
  | t => invalid s!"array: unexpected token type: <{opcodeName t}>"

theorem arrayElements_eq (t : FormulaToken) :
    env.arrayElements (depth + 1) a ⟨t :: rest, stack, outer⟩ =
      (do
        let minus ← if a.expectsElement then sign else Pure.pure false
        consume env depth a minus (← tokenOrThrow) : InterpM Unit) ⟨t :: rest, stack, outer⟩ := rfl

/-- Where an element is expected, there may be a sign before the token. -/
theorem arrayElements_of_expectsElement (ha : a.expectsElement = true) {sign : Option Sign}
    {t : FormulaToken} (hsign : sign = none → t ≠ .plus ∧ t ≠ .minus) :
    env.arrayElements (depth + 1) a ⟨(sign.map Sign.token).toList ++ t :: rest, stack, outer⟩ =
      consume env depth a (sign = some .minus) t ⟨t :: rest, stack, outer⟩ := by
  rcases sign with _ | _ | _
  · obtain ⟨hplus, hminus⟩ := hsign rfl
    rw [Option.map_none, Option.toList_none, List.nil_append, arrayElements_eq, ha]
    cases t with
    | plus => exact absurd rfl hplus
    | minus => exact absurd rfl hminus
    | _ => rfl
  all_goals
    rw [Option.map_some, Option.toList_some, List.singleton_append, arrayElements_eq, ha]
    rfl

/-- After an element there is none. -/
theorem arrayElements_of_afterElement (ha : a.afterElement = true) (t : FormulaToken) :
    env.arrayElements (depth + 1) a ⟨t :: rest, stack, outer⟩ =
      consume env depth a false t ⟨t :: rest, stack, outer⟩ := by
  rw [arrayElements_eq, expectsElement_of_afterElement ha]
  rfl

/-- A number that is expected. -/
theorem reads_number (ha : a.expectsElement = true) (sign : Option Sign) (v : ℚ)
    (ts : List FormulaToken) :
    Reads env rest stack outer a ((sign.map Sign.token).toList ++ .value v :: ts)
      { a with
        values := a.values ++ [if sign = some .minus then -v else v]
        col := a.col + 1
        prevOp := .value v } ts := by
  intro depth hdepth
  rw [List.length_append, List.length_cons] at hdepth
  obtain ⟨depth, rfl⟩ : ∃ n, depth = n + 1 := ⟨depth - 1, by omega⟩
  refine ⟨depth, by omega, ?_⟩
  rw [readFrom, List.append_assoc, List.cons_append,
    arrayElements_of_expectsElement (t := .value v) ha fun _ ↦ ⟨nofun, nofun⟩, consume, ha]
  rcases sign with _ | _ | _ <;> rfl

/-- A string that is expected. -/
theorem reads_string (ha : a.expectsElement = true) (sign : Option Sign) {sid : StringId} {s : Text}
    (hs : env.workbook.strPool.getString sid = some s) (ts : List FormulaToken) :
    Reads env rest stack outer a ((sign.map Sign.token).toList ++ .string sid :: ts)
      { a with
        values := a.values ++ [0]
        strings := a.strings ++ [(a.row, a.col, s)]
        col := a.col + 1
        prevOp := .string sid } ts := by
  intro depth hdepth
  rw [List.length_append, List.length_cons] at hdepth
  obtain ⟨depth, rfl⟩ : ∃ n, depth = n + 1 := ⟨depth - 1, by omega⟩
  refine ⟨depth, by omega, ?_⟩
  have hpush : env.stringOrThrow sid = Pure.pure s := by
    rw [Interpreter.stringOrThrow, hs]
  rw [readFrom, List.append_assoc, List.cons_append,
    arrayElements_of_expectsElement (t := .string sid) ha fun _ ↦ ⟨nofun, nofun⟩, consume, ha]
  show (env.stringOrThrow sid _).bind _ = _
  rw [hpush]
  rfl

/-- A separator after an element. -/
theorem reads_sep (ha : a.afterElement = true) (ts : List FormulaToken) :
    Reads env rest stack outer a (.sep :: ts) { a with prevOp := .sep } ts := by
  intro depth hdepth
  rw [List.length_cons] at hdepth
  obtain ⟨depth, rfl⟩ : ∃ n, depth = n + 1 := ⟨depth - 1, by omega⟩
  refine ⟨depth, by omega, ?_⟩
  rw [readFrom, List.cons_append, arrayElements_of_afterElement ha, consume, ha]
  rfl

/-- The end of a row that is as long as those before it. -/
theorem reads_rowSep (ha : a.afterElement = true) (hwidth : a.widthFits = true)
    (ts : List FormulaToken) :
    Reads env rest stack outer a (.arrayRowSep :: ts)
      { a with row := a.row + 1, col := 0, prevCol := some a.col, prevOp := .arrayRowSep } ts := by
  intro depth hdepth
  rw [List.length_cons] at hdepth
  obtain ⟨depth, rfl⟩ : ∃ n, depth = n + 1 := ⟨depth - 1, by omega⟩
  refine ⟨depth, by omega, ?_⟩
  rw [readFrom, List.cons_append, arrayElements_of_afterElement ha, consume, ha, hwidth]
  rfl

/-- The closing brace after an element. -/
theorem readFrom_nil (ha : a.afterElement = true) (hwidth : a.widthFits = true) :
    readFrom env rest stack outer depth a [] =
      .pure ((), ⟨rest, .matrix a.toMatrix :: stack, outer⟩) := by
  have hop : decide (a.prevOp = .arrayOpen ∨ a.afterElement) = true := decide_eq_true (.inr ha)
  rw [readFrom, List.nil_append, arrayElements_of_afterElement ha, consume, hop, hwidth]
  rfl

/-! ## Tokens that are rejected -/

/-- Where an element is expected, there is nothing but a number or a string. -/
theorem rejected_of_expectsElement (ha : a.expectsElement = true) {sign : Option Sign}
    {t : FormulaToken} (hsign : sign = none → t ≠ .plus ∧ t ≠ .minus) (hvalue : ∀ v, t ≠ .value v)
    (hstring : ∀ sid, t ≠ .string sid) (hclose : t ≠ .arrayClose) (ts : List FormulaToken) :
    Rejected (readFrom env rest stack outer depth a ((sign.map Sign.token).toList ++ t :: ts)) := by
  rw [readFrom, List.append_assoc, List.cons_append, arrayElements_of_expectsElement ha hsign]
  cases t with
  | value v => exact absurd rfl (hvalue v)
  | string sid => exact absurd rfl (hstring sid)
  | arrayClose => exact absurd rfl hclose
  | sep | arrayRowSep =>
    rw [consume, afterElement_of_expectsElement ha]
    exact ⟨_, rfl⟩
  | _ => exact ⟨_, rfl⟩

/-- After a separator the closing brace does not come. -/
theorem rejected_close_of_expectsElement (ha : a.expectsElement = true)
    (hop : a.prevOp ≠ .arrayOpen) (sign : Option Sign) :
    Rejected (readFrom env rest stack outer depth a (sign.map Sign.token).toList) := by
  have hnot : decide (a.prevOp = .arrayOpen ∨ a.afterElement) = false := by
    refine decide_eq_false ?_
    rintro (h | h)
    · exact hop h
    · exact Bool.false_ne_true ((afterElement_of_expectsElement ha).symm.trans h)
  rw [readFrom, arrayElements_of_expectsElement (t := .arrayClose) ha fun _ ↦
    ⟨nofun, nofun⟩, consume,
    hnot]
  exact ⟨_, rfl⟩

/-- After an element there is a separator of some kind. -/
theorem rejected_of_afterElement (ha : a.afterElement = true) {t : FormulaToken} (hsep : t ≠ .sep)
    (hrowSep : t ≠ .arrayRowSep) (hclose : t ≠ .arrayClose) (ts : List FormulaToken) :
    Rejected (readFrom env rest stack outer depth a (t :: ts)) := by
  rw [readFrom, List.cons_append, arrayElements_of_afterElement ha]
  cases t with
  | sep => exact absurd rfl hsep
  | arrayRowSep => exact absurd rfl hrowSep
  | arrayClose => exact absurd rfl hclose
  | value | string =>
    rw [consume, expectsElement_of_afterElement ha]
    exact ⟨_, rfl⟩
  | _ => exact ⟨_, rfl⟩

/-- A row that is not as long as those before it does not end in a separator. -/
theorem rejected_rowSep (ha : a.afterElement = true) (hwidth : a.widthFits = false)
    (ts : List FormulaToken) :
    Rejected (readFrom env rest stack outer depth a (.arrayRowSep :: ts)) := by
  rw [readFrom, List.cons_append, arrayElements_of_afterElement ha, consume, ha, hwidth]
  exact ⟨_, rfl⟩

/-- Neither does it end in the closing brace. -/
theorem rejected_close (ha : a.afterElement = true) (hwidth : a.widthFits = false) :
    Rejected (readFrom env rest stack outer depth a []) := by
  have hop : decide (a.prevOp = .arrayOpen ∨ a.afterElement) = true := decide_eq_true (.inr ha)
  rw [readFrom, List.nil_append, arrayElements_of_afterElement ha, consume, hop, hwidth]
  exact ⟨_, rfl⟩

/-! ## Steps of the state -/

variable {rows : List (List Element)} {row : List Element} {t : FormulaToken}

/-- An element that is expected adds to its row. -/
theorem reads_element (ha : (stateOf env.workbook.strPool rows row t).expectsElement = true)
    {e : Element} {ts : List FormulaToken} (hpool : Pooled env.workbook.strPool (e.tokens ++ ts)) :
    Reads env rest stack outer (stateOf env.workbook.strPool rows row t) (e.tokens ++ ts)
      (stateOf env.workbook.strPool rows (row ++ [e]) e.constant.token) ts := by
  obtain ⟨sign, constant⟩ := e
  rw [Element.tokens, List.append_assoc, List.singleton_append] at hpool ⊢
  cases constant with
  | number v =>
    rw [← stateOf_number rfl t]
    exact reads_number ha sign v ts
  | string sid =>
    obtain ⟨s, hs⟩ := Option.isSome_iff_exists.mp
      (hpool sid (List.mem_append_right _ List.mem_cons_self))
    rw [← stateOf_string rfl hs t]
    exact reads_string ha sign hs ts

/-- The end of a row begins another one. -/
theorem reads_newRow (ha : (stateOf env.workbook.strPool rows row t).afterElement = true)
    (hwidth : (stateOf env.workbook.strPool rows row t).widthFits = true)
    (ts : List FormulaToken) :
    Reads env rest stack outer (stateOf env.workbook.strPool rows row t) (.arrayRowSep :: ts)
      (stateOf env.workbook.strPool (rows ++ [row]) [] .arrayRowSep) ts := by
  rw [← stateOf_newRow t]
  exact reads_rowSep ha hwidth ts

theorem afterElement_stateOf (e : Element) (pool : StringPool) :
    (stateOf pool rows row e.constant.token).afterElement = true := by
  obtain ⟨sign, _ | _⟩ := e <;> rfl

theorem widthFits_stateOf {pool : StringPool} :
    (stateOf pool rows row t).widthFits = true ↔ ∀ r ∈ rows.getLast?, r.length = row.length := by
  rw [ArrayState.widthFits, decide_eq_true_eq]
  show rows.getLast?.map List.length = none ∨ rows.getLast?.map List.length = some row.length ↔ _
  cases rows.getLast? with
  | none => exact ⟨fun _ ↦ nofun, fun _ ↦ .inl rfl⟩
  | some r =>
    constructor
    · rintro (h | h)
      · exact nomatch h
      · rintro r' ⟨⟩
        exact Option.some.inj h
    · exact fun h ↦ .inr (congrArg some (h r rfl))

/-! ## What is read to the end -/

/-- Rows are of one length. -/
def SameWidth (rows : List (List Element)) : Prop := ∃ w, 0 < w ∧ ∀ r ∈ rows, r.length = w

theorem SameWidth.append_singleton {pool : StringPool} (h : SameWidth rows) (hrow : row ≠ [])
    (hwidth : (stateOf pool rows row t).widthFits = true) : SameWidth (rows ++ [row]) := by
  rw [widthFits_stateOf] at hwidth
  rcases List.eq_nil_or_concat rows with rfl | ⟨rows, r, rfl⟩
  · refine ⟨row.length, List.length_pos_iff.mpr hrow, fun r hr ↦ ?_⟩
    rw [List.nil_append, List.mem_singleton] at hr
    rw [hr]
  · rw [List.concat_eq_append] at *
    obtain ⟨w, hpos, hw⟩ := h
    refine ⟨w, hpos, fun r' hr' ↦ ?_⟩
    rcases List.mem_append.mp hr' with hr' | hr'
    · exact hw r' hr'
    · have hlast : r.length = row.length := hwidth r (by rw [List.getLast?_concat]; rfl)
      rw [List.mem_singleton.mp hr', ← hlast]
      exact hw r (List.mem_append_right _ (List.mem_singleton_self r))

/-- The tokens before a state, in rows of one length but for the current one. -/
inductive Consumed (pool : StringPool) : List FormulaToken → ArrayState → Prop where
  | opened : Consumed pool [] (stateOf pool [] [] .arrayOpen)
  | element {rows : List (List Element)} {row : List Element} (e : Element)
      (hrows : SameWidth rows) (hrow : row ≠ []) :
      Consumed pool (rowsTokens (rows ++ [row])) (stateOf pool rows row e.constant.token)
  | sep {rows : List (List Element)} {row : List Element} (hrows : SameWidth rows)
      (hrow : row ≠ []) :
      Consumed pool (rowsTokens (rows ++ [row]) ++ [.sep]) (stateOf pool rows row .sep)
  | rowSep {rows : List (List Element)} (hrows : SameWidth rows) (hne : rows ≠ []) :
      Consumed pool (rowsTokens rows ++ [.arrayRowSep]) (stateOf pool rows [] .arrayRowSep)

namespace Consumed

variable {pre : List FormulaToken}

/-- An element that is expected is consumed. -/
theorem next (h : Consumed env.workbook.strPool pre a) (ha : a.expectsElement = true) {e : Element}
    (hpool : Pooled env.workbook.strPool (e.tokens ++ ts)) :
    ∃ a', Consumed env.workbook.strPool (pre ++ e.tokens) a' ∧
      Reads env rest stack outer a (e.tokens ++ ts) a' ts := by
  cases h with
  | opened =>
    refine ⟨_, ?_, reads_element ha hpool⟩
    rw [List.nil_append, ← rowTokens_singleton, ← rowsTokens_singleton]
    exact @Consumed.element _ [] _ e ⟨1, Nat.one_pos, nofun⟩ (List.cons_ne_nil _ _)
  | element e' hrows hrow =>
    rw [expectsElement_of_afterElement (afterElement_stateOf e' _)] at ha
    exact absurd ha Bool.false_ne_true
  | sep hrows hrow =>
    refine ⟨_, ?_, reads_element ha hpool⟩
    rw [List.append_assoc, List.singleton_append, ← rowsTokens_push hrow]
    exact .element e hrows (List.append_ne_nil_of_right_ne_nil _ (List.cons_ne_nil _ _))
  | rowSep hrows hne =>
    refine ⟨_, ?_, reads_element ha hpool⟩
    rw [List.append_assoc, List.singleton_append, ← rowTokens_singleton,
      ← rowsTokens_append_singleton hne]
    exact .element e hrows (List.cons_ne_nil _ _)

/-- After an element there is the row it belongs to. -/
theorem exists_row {pool : StringPool} (h : Consumed pool pre a) (ha : a.afterElement = true) :
    ∃ rows row t, SameWidth rows ∧ row ≠ [] ∧ a = stateOf pool rows row t ∧
      pre = rowsTokens (rows ++ [row]) := by
  cases h with
  | element e hrows hrow => exact ⟨_, _, _, hrows, hrow, rfl, rfl⟩
  | opened | sep | rowSep => exact absurd ha Bool.false_ne_true

theorem expectsElement_or_afterElement {pool : StringPool} (h : Consumed pool pre a) :
    a.expectsElement = true ∨ a.afterElement = true := by
  cases h with
  | element e hrows hrow => exact .inr (afterElement_stateOf e pool)
  | opened | sep | rowSep => exact .inl rfl

theorem eq_nil {pool : StringPool} (h : Consumed pool pre a) (ha : a.prevOp = .arrayOpen) :
    pre = [] := by
  cases h with
  | opened => rfl
  | element e => obtain ⟨sign, _ | _⟩ := e <;> cases ha
  | sep | rowSep => cases ha

end Consumed

/-- Rows of one length are a grid. -/
theorem SameWidth.exists_grid (h : SameWidth rows) (hne : rows ≠ []) :
    ∃ g : Grid, rowsTokens rows = g.tokens := by
  obtain ⟨w, hpos, hw⟩ := h
  exact ⟨⟨rows, w, hne, hpos, hw⟩, rfl⟩

/-- Tokens begin with a sign and something else, are a sign, or do not begin with a sign. -/
theorem exists_sign (ts : List FormulaToken) :
    (∃ sign : Option Sign, ts = (sign.map Sign.token).toList) ∨
      ∃ (sign : Option Sign) (t : FormulaToken) (ts' : List FormulaToken),
        ts = (sign.map Sign.token).toList ++ t :: ts' ∧
          (sign = none → t ≠ .plus ∧ t ≠ .minus) := by
  cases ts with
  | nil => exact .inl ⟨none, rfl⟩
  | cons t ts =>
    by_cases hplus : t = .plus
    · subst hplus
      cases ts with
      | nil => exact .inl ⟨some .plus, rfl⟩
      | cons t ts => exact .inr ⟨some .plus, t, ts, rfl, nofun⟩
    by_cases hminus : t = .minus
    · subst hminus
      cases ts with
      | nil => exact .inl ⟨some .minus, rfl⟩
      | cons t ts => exact .inr ⟨some .minus, t, ts, rfl, nofun⟩
    exact .inr ⟨none, t, ts, rfl, fun _ ↦ ⟨hplus, hminus⟩⟩

/-- Tokens are those of a grid, or there is at most a sign. -/
def IsGridOrSign (ts : List FormulaToken) : Prop :=
  (∃ g : Grid, ts = g.tokens) ∨ ∃ sign : Option Sign, ts = (sign.map Sign.token).toList

/-- What is not rejected is a grid, or there is no element in it. -/
theorem rejected_or_isGridOrSign {pre : List FormulaToken}
    (h : Consumed env.workbook.strPool pre a) (hpool : Pooled env.workbook.strPool ts)
    (hclose : .arrayClose ∉ ts) (hdepth : ts.length ≤ depth) :
    Rejected (readFrom env rest stack outer depth a ts) ∨ IsGridOrSign (pre ++ ts) := by
  induction hn : ts.length using Nat.strong_induction_on generalizing pre a ts depth with
  | _ n ih =>
  subst hn
  -- what is left is read from another state
  have hstep {pre' pre'' ts' : List FormulaToken} {a' : ArrayState} (hts : ts = pre'' ++ ts')
      (hne : pre'' ≠ []) (hpre : pre' = pre ++ pre'') (h' : Consumed env.workbook.strPool pre' a')
      (hreads : Reads env rest stack outer a ts a' ts') :
      Rejected (readFrom env rest stack outer depth a ts) ∨ IsGridOrSign (pre ++ ts) := by
    subst hts hpre
    obtain ⟨depth', hdepth', heq⟩ := hreads depth hdepth
    rw [heq, ← List.append_assoc]
    have hpos := List.length_pos_iff.mpr hne
    refine ih _ ?_ h' (fun sid hsid ↦ hpool sid (List.mem_append_right _ hsid))
      (fun hmem ↦ hclose (List.mem_append_right _ hmem)) hdepth' rfl
    rw [List.length_append]
    omega
  rcases h.expectsElement_or_afterElement with ha | ha
  · rcases exists_sign ts with ⟨sign, rfl⟩ | ⟨sign, t, ts', rfl, hsign⟩
    · by_cases hop : a.prevOp = .arrayOpen
      · exact .inr (.inr ⟨sign, by rw [h.eq_nil hop, List.nil_append]⟩)
      · exact .inl (rejected_close_of_expectsElement ha hop sign)
    have hnext (c : Constant) (hc : t = c.token) :
        Rejected (readFrom env rest stack outer depth a
          ((sign.map Sign.token).toList ++ t :: ts')) ∨
        IsGridOrSign (pre ++ ((sign.map Sign.token).toList ++ t :: ts')) := by
      have hts : (sign.map Sign.token).toList ++ t :: ts' = (Element.mk sign c).tokens ++ ts' := by
        rw [Element.tokens, List.append_assoc, hc]
        rfl
      rw [hts] at hpool hstep ⊢
      obtain ⟨a', h', hreads⟩ := h.next ha hpool
      exact hstep rfl (List.append_ne_nil_of_right_ne_nil _ (List.cons_ne_nil _ _)) rfl h' hreads
    by_cases hvalue : ∃ v, t = .value v
    · obtain ⟨v, rfl⟩ := hvalue
      exact hnext (.number v) rfl
    by_cases hstring : ∃ sid, t = .string sid
    · obtain ⟨sid, rfl⟩ := hstring
      exact hnext (.string sid) rfl
    refine .inl (rejected_of_expectsElement ha hsign (fun v hv ↦ hvalue ⟨v, hv⟩)
      (fun sid hsid ↦ hstring ⟨sid, hsid⟩) (fun ht ↦ hclose ?_) ts')
    exact List.mem_append_right _ (ht ▸ List.mem_cons_self)
  · obtain ⟨rows, row, t, hrows, hrow, rfl, rfl⟩ := h.exists_row ha
    cases ts with
    | nil =>
      cases hwidth : (stateOf env.workbook.strPool rows row t).widthFits with
      | false => exact .inl (rejected_close ha hwidth)
      | true =>
        rw [List.append_nil]
        exact .inr (.inl ((hrows.append_singleton hrow hwidth).exists_grid
          (List.append_ne_nil_of_right_ne_nil _ (List.cons_ne_nil _ _))))
    | cons t' ts =>
      by_cases hsep : t' = .sep
      · subst hsep
        exact @hstep _ [.sep] _ _ rfl (List.cons_ne_nil _ _) rfl (.sep hrows hrow)
          (reads_sep ha ts)
      by_cases hrowSep : t' = .arrayRowSep
      · subst hrowSep
        cases hwidth : (stateOf env.workbook.strPool rows row t).widthFits with
        | false => exact .inl (rejected_rowSep ha hwidth ts)
        | true =>
          exact @hstep _ [.arrayRowSep] _ _ rfl (List.cons_ne_nil _ _) rfl
            (.rowSep (hrows.append_singleton hrow hwidth)
              (List.append_ne_nil_of_right_ne_nil _ (List.cons_ne_nil _ _)))
            (reads_newRow ha hwidth ts)
      exact .inl (rejected_of_afterElement ha hsep hrowSep
        (fun ht ↦ hclose (ht ▸ List.mem_cons_self)) ts)

/-! ## Grids are read to the end -/

/-- A row is read to its end. -/
theorem reads_row (e : Element) (later : List Element) {cur : List Element}
    (ha : (stateOf env.workbook.strPool rows cur t).expectsElement = true)
    (hpool : Pooled env.workbook.strPool (rowTokens (e :: later) ++ ts)) :
    ∃ t', (stateOf env.workbook.strPool rows (cur ++ e :: later) t').afterElement = true ∧
      Reads env rest stack outer (stateOf env.workbook.strPool rows cur t)
        (rowTokens (e :: later) ++ ts)
        (stateOf env.workbook.strPool rows (cur ++ e :: later) t') ts := by
  induction later generalizing e cur t with
  | nil =>
    rw [rowTokens_singleton] at hpool ⊢
    exact ⟨e.constant.token, afterElement_stateOf e _, reads_element ha hpool⟩
  | cons e' later ih =>
    rw [rowTokens_cons_cons, List.append_assoc, List.cons_append] at hpool ⊢
    obtain ⟨t', hafter, hreads⟩ := @ih .sep e' (cur ++ [e]) rfl
      fun sid hsid ↦ hpool sid (List.mem_append_right _ (List.mem_cons_of_mem _ hsid))
    rw [List.append_assoc, List.singleton_append] at hafter hreads
    refine ⟨t', hafter, (reads_element ha hpool).trans (.trans ?_ hreads)⟩
    exact reads_sep (afterElement_stateOf e _) _

theorem widthFits_of_length_eq {pool : StringPool} {width : Nat}
    (hwidth : ∀ r ∈ rows ++ [row], r.length = width) :
    (stateOf pool rows row t).widthFits = true := by
  refine widthFits_stateOf.mpr fun r hr ↦ ?_
  rw [hwidth r (List.mem_append_left _ (List.mem_of_getLast? hr)),
    hwidth row (List.mem_append_right _ (List.mem_singleton_self row))]

/-- Rows of one length are read to their end. -/
theorem reads_rows {width : Nat} (hpos : 0 < width) (row : List Element)
    (later : List (List Element)) (hwidth : ∀ r ∈ rows ++ row :: later, r.length = width)
    (ha : (stateOf env.workbook.strPool rows [] t).expectsElement = true)
    (hpool : Pooled env.workbook.strPool (rowsTokens (row :: later) ++ ts)) :
    ∃ before last t', rows ++ row :: later = before ++ [last] ∧
      (stateOf env.workbook.strPool before last t').afterElement = true ∧
      Reads env rest stack outer (stateOf env.workbook.strPool rows [] t)
        (rowsTokens (row :: later) ++ ts) (stateOf env.workbook.strPool before last t') ts := by
  induction later generalizing rows row t with
  | nil =>
    obtain ⟨e, cells, rfl⟩ := List.exists_cons_of_length_pos
      (hpos.trans_eq (hwidth row (List.mem_append_right _ List.mem_cons_self)).symm)
    rw [rowsTokens_singleton] at hpool ⊢
    obtain ⟨t', hafter, hreads⟩ := reads_row e cells ha hpool
    exact ⟨rows, e :: cells, t', rfl, hafter, hreads⟩
  | cons row' later ih =>
    obtain ⟨e, cells, rfl⟩ := List.exists_cons_of_length_pos
      (hpos.trans_eq (hwidth row (List.mem_append_right _ List.mem_cons_self)).symm)
    rw [List.append_cons] at hwidth
    rw [rowsTokens_cons_cons, List.append_assoc, List.cons_append] at hpool ⊢
    obtain ⟨t', hafter, hreads⟩ :
        ∃ t', (stateOf env.workbook.strPool rows (e :: cells) t').afterElement = true ∧
          Reads env rest stack outer (stateOf env.workbook.strPool rows [] t)
            (rowTokens (e :: cells) ++ .arrayRowSep :: (rowsTokens (row' :: later) ++ ts))
            (stateOf env.workbook.strPool rows (e :: cells) t')
            (.arrayRowSep :: (rowsTokens (row' :: later) ++ ts)) :=
      reads_row e cells ha hpool
    have hfits : (stateOf env.workbook.strPool rows (e :: cells) t').widthFits = true :=
      widthFits_of_length_eq fun r hr ↦ hwidth r (List.mem_append_left _ hr)
    obtain ⟨before, last, t'', heq, hlast, hrest⟩ := ih (t := .arrayRowSep) row' hwidth rfl
      fun sid hsid ↦ hpool sid (List.mem_append_right _ (List.mem_cons_of_mem _ hsid))
    refine ⟨before, last, t'', ?_, hlast, hreads.trans ((reads_newRow hafter hfits _).trans hrest)⟩
    rw [← heq, ← List.append_cons]

end Steps

/-! ## The matrix -/

/-- An element of rows of one length among the elements of all rows. -/
theorem getElem?_flatten {rows : List (List Element)} {width i j : Nat} {e : Element}
    (hwidth : ∀ r ∈ rows, r.length = width) (he : lookup rows i j = some e) :
    rows.flatten[width * i + j]? = some e := by
  obtain ⟨row, hrow, hcell⟩ := Option.bind_eq_some_iff.mp he
  induction rows generalizing i with
  | nil => exact nomatch hrow
  | cons r rows ih =>
    rw [List.flatten_cons]
    have hr : r.length = width := hwidth r List.mem_cons_self
    cases i with
    | zero =>
      obtain rfl : r = row := Option.some.inj hrow
      rw [Nat.mul_zero, Nat.zero_add, List.getElem?_append_left]
      · exact hcell
      · exact (List.getElem?_eq_some_iff.mp hcell).1
    | succ i =>
      rw [List.getElem?_append_right (by rw [hr, Nat.mul_succ]; omega)]
      rw [hr, Nat.mul_succ, show width * i + width + j - width = width * i + j by omega]
      exact ih (fun r hr ↦ hwidth r (List.mem_cons_of_mem _ hr)) he hrow

theorem lookup_bounds {rows : List (List Element)} {width i j : Nat} {e : Element}
    (hwidth : ∀ r ∈ rows, r.length = width) (he : lookup rows i j = some e) :
    i < rows.length ∧ j < width := by
  obtain ⟨row, hrow, hcell⟩ := Option.bind_eq_some_iff.mp he
  obtain ⟨hi, rfl⟩ := List.getElem?_eq_some_iff.mp hrow
  rw [← hwidth _ (List.getElem_mem hi)]
  exact ⟨hi, (List.getElem?_eq_some_iff.mp hcell).1⟩

theorem mem_rowsStrings {pool : StringPool} {rows : List (List Element)} {i j : Nat} {s : Text} :
    (i, j, s) ∈ rowsStrings pool rows ↔
      ∃ e, lookup rows i j = some e ∧ e.text? pool = some s := by
  rw [rowsStrings, List.mem_flatMap]
  constructor
  · rintro ⟨⟨row, i'⟩, hrow, hmem⟩
    obtain ⟨⟨e, j'⟩, hcell, he⟩ := List.mem_filterMap.mp hmem
    obtain ⟨s', hs, heq⟩ := Option.map_eq_some_iff.mp he
    obtain ⟨rfl, rfl, rfl⟩ : i' = i ∧ j' = j ∧ s' = s := by
      simpa only [Prod.mk.injEq] using heq
    refine ⟨e, Option.bind_eq_some_iff.mpr ⟨row, ?_, ?_⟩, hs⟩
    · exact List.mk_mem_zipIdx_iff_getElem?.mp hrow
    · exact List.mk_mem_zipIdx_iff_getElem?.mp hcell
  · rintro ⟨e, he, hs⟩
    obtain ⟨row, hrow, hcell⟩ := Option.bind_eq_some_iff.mp he
    refine ⟨(row, i), List.mk_mem_zipIdx_iff_getElem?.mpr hrow, ?_⟩
    refine List.mem_filterMap.mpr ⟨(e, j), List.mk_mem_zipIdx_iff_getElem?.mpr hcell, ?_⟩
    rw [hs]
    rfl

/-- The element of a matrix of numbers. -/
theorem get_ofFn {rows cols i j : Nat} (f : Nat → Nat → ℚ) (hi : i < rows) (hj : j < cols) :
    (NumericMatrix.ofFn rows cols f).get i j = f i j := by
  have hpos : rows * j + i < rows * cols := calc
    rows * j + i < rows * j + rows := Nat.add_lt_add_left hi _
    _ = rows * (j + 1) := (Nat.mul_succ _ _).symm
    _ ≤ rows * cols := Nat.mul_le_mul_left _ hj
  show (((List.range (rows * cols)).map fun pos ↦ f (pos % rows) (pos / rows))[rows * j + i]?).getD
    0 = _
  rw [List.getElem?_map, List.getElem?_range hpos, Option.map_some, Option.getD_some,
    Nat.mul_add_mod, Nat.mod_eq_of_lt hi, Nat.mul_add_div (Nat.zero_lt_of_lt hi),
    Nat.div_eq_of_lt hi, Nat.add_zero]

theorem get_numericToMatrix (m : NumericMatrix) {i j : Nat} (hi : i < m.rows) (hj : j < m.cols) :
    m.toMatrix.get i j = .numeric (m.get i j) := by
  have hpos : i * m.cols + j < m.rows * m.cols := calc
    i * m.cols + j < i * m.cols + m.cols := Nat.add_lt_add_left hj _
    _ = (i + 1) * m.cols := (Nat.succ_mul _ _).symm
    _ ≤ m.rows * m.cols := Nat.mul_le_mul_right _ hi
  show Matrix.readElement ((((List.range (m.rows * m.cols)).map fun i ↦
    MatrixElement.numeric (m.get (i / m.cols) (i % m.cols)))[i * m.cols + j]?).getD .empty) = _
  rw [List.getElem?_map, List.getElem?_range hpos, Option.map_some, Option.getD_some,
    Nat.mul_comm, Nat.mul_add_mod, Nat.mod_eq_of_lt hj, Nat.mul_add_div (Nat.zero_lt_of_lt hj),
    Nat.div_eq_of_lt hj, Nat.add_zero]
  rfl

/-- Set strings at places of a matrix. -/
def setStrings (m : Matrix) (strings : List (Nat × Nat × Text)) : Matrix :=
  strings.foldl (fun mtx s ↦ mtx.set s.1 s.2.1 (.string s.2.2)) m

theorem size_setStrings (m : Matrix) (strings : List (Nat × Nat × Text)) :
    (setStrings m strings).rowSize = m.rowSize ∧ (setStrings m strings).colSize = m.colSize := by
  induction strings generalizing m with
  | nil => exact ⟨rfl, rfl⟩
  | cons s strings ih => exact ih (m.set s.1 s.2.1 (.string s.2.2))

/-- A place has a string that is set there, and what was there where none is set. -/
theorem get_setStrings {m : Matrix} {strings : List (Nat × Nat × Text)} {i j : Nat}
    {x : MatrixElement} (hj : j < m.colSize)
    (hsize : ∀ p ∈ strings, p.1 < m.rowSize ∧ p.2.1 < m.colSize)
    (hset : ∀ s, (i, j, s) ∈ strings → .string s = x)
    (hx : m.get i j = x ∨ ∃ s, (i, j, s) ∈ strings) : (setStrings m strings).get i j = x := by
  induction strings generalizing m with
  | nil =>
    rcases hx with hx | ⟨s, hs⟩
    · exact hx
    · exact nomatch hs
  | cons p strings ih =>
    obtain ⟨hp, hp'⟩ := hsize p List.mem_cons_self
    refine ih (m := m.set p.1 p.2.1 (.string p.2.2)) hj
      (fun q hq ↦ hsize q (List.mem_cons_of_mem _ hq))
      (fun s hs ↦ hset s (List.mem_cons_of_mem _ hs)) ?_
    by_cases hplace : p.1 = i ∧ p.2.1 = j
    · obtain ⟨rfl, rfl⟩ := hplace
      rw [Matrix.get_set_self hp hp']
      exact .inl (hset p.2.2 List.mem_cons_self)
    · rw [Matrix.get_set_of_ne hp' hj hplace]
      refine hx.imp id ?_
      rintro ⟨s, hs⟩
      refine ⟨s, (List.mem_cons.mp hs).resolve_left ?_⟩
      rintro rfl
      exact hplace ⟨rfl, rfl⟩

variable {pool : StringPool} {rows : List (List Element)} {row : List Element} {t : FormulaToken}
  {width : Nat}

theorem size_toMatrix :
    (stateOf pool rows row t).toMatrix.rowSize = rows.length + 1 ∧
      (stateOf pool rows row t).toMatrix.colSize = row.length :=
  size_setStrings _ _

/-- The matrix shows the elements of rows of one length. -/
theorem get_toMatrix (hwidth : ∀ r ∈ rows ++ [row], r.length = width) {i j : Nat} {e : Element}
    (he : lookup (rows ++ [row]) i j = some e) :
    (stateOf pool rows row t).toMatrix.get i j = e.shown pool := by
  have hrow : row.length = width := hwidth row (List.mem_append_right _ (List.mem_singleton_self _))
  obtain ⟨hi, hj⟩ := lookup_bounds hwidth he
  rw [List.length_append, List.length_singleton] at hi
  have hstrings : (stateOf pool rows row t).strings = rowsStrings pool (rows ++ [row]) :=
    (rowsStrings_append_singleton rows row).symm
  have hnumber : (stateOf pool rows row t).numMtx.toMatrix.get i j = .numeric e.number := by
    rw [← hrow] at hj
    rw [get_numericToMatrix _ hi hj]
    refine congrArg _ ((get_ofFn _ hi hj).trans ?_)
    show ((((rows.flatten ++ row).map Element.number)[row.length * i + j]?).getD 0) = _
    have hflatten := getElem?_flatten hwidth he
    rw [List.flatten_append, List.flatten_singleton, ← hrow] at hflatten
    rw [List.getElem?_map, hflatten]
    rfl
  show (setStrings _ (stateOf pool rows row t).strings).get i j = _
  rw [hstrings]
  refine get_setStrings (hj.trans_eq hrow.symm) ?_ ?_ ?_
  · rintro ⟨i', j', s⟩ hmem
    obtain ⟨e', he', -⟩ := mem_rowsStrings.mp hmem
    obtain ⟨hi', hj'⟩ := lookup_bounds hwidth he'
    rw [List.length_append] at hi'
    exact ⟨hi', hj'.trans_eq hrow.symm⟩
  · intro s hmem
    obtain ⟨e', he', hs⟩ := mem_rowsStrings.mp hmem
    obtain rfl : e = e' := Option.some.inj (he.symm.trans he')
    rw [Element.shown, hs]
  · rw [hnumber, Element.shown]
    cases hs : e.text? pool with
    | none => exact .inl rfl
    | some s => exact .inr ⟨s, mem_rowsStrings.mpr ⟨e, he, hs⟩⟩

/-! ## Array literals -/

/-- Interpret tokens in braces where there is to be a factor. -/
def interpretLiteral (env : Interpreter) (depth : Nat) (ts rest : List FormulaToken)
    (stack : ValueStack) (outer : List ValueStack) : Reader (Unit × InterpState) :=
  env.factor depth ⟨.arrayOpen :: ts ++ .arrayClose :: rest, stack, outer⟩

/-- A literal is interpreted as a matrix. -/
def Pushes (x : Reader (Unit × InterpState)) (rest : List FormulaToken) (m : Matrix)
    (stack : ValueStack) (outer : List ValueStack) : Prop :=
  x = .pure ((), ⟨rest, .matrix m :: stack, outer⟩)

/-- The elements of a matrix are those that a grid shows. -/
def Shows (pool : StringPool) (g : Grid) (m : Matrix) : Prop :=
  m.rowSize = g.rows.length ∧ m.colSize = g.width ∧
    ∀ i j e, lookup g.rows i j = some e → m.get i j = e.shown pool

variable {env : Interpreter} {depth : Nat} {ts rest : List FormulaToken} {stack : ValueStack}
  {outer : List ValueStack}

/-- The elements are read from the first token after the brace. -/
theorem interpretLiteral_eq :
    interpretLiteral env (depth + 2) ts rest stack outer =
      (readFrom env rest stack outer depth (stateOf env.workbook.strPool [] [] .arrayOpen)
        ts).bind fun p ↦ .pure ((), p.2) :=
  Arithmetic.factor_succ (depth + 1) _

theorem pushes_of_readFrom {m : Matrix}
    (h : readFrom env rest stack outer depth (stateOf env.workbook.strPool [] [] .arrayOpen) ts =
      .pure ((), ⟨rest, .matrix m :: stack, outer⟩)) :
    Pushes (interpretLiteral env (depth + 2) ts rest stack outer) rest m stack outer := by
  rw [Pushes, interpretLiteral_eq, h]
  rfl

/-- A grid is interpreted as the matrix that shows it. -/
theorem pushes_grid (g : Grid) (hpool : Pooled env.workbook.strPool g.tokens)
    (hdepth : g.tokens.length ≤ depth) :
    ∃ m, Pushes (interpretLiteral env (depth + 2) g.tokens rest stack outer) rest m stack outer ∧
      Shows env.workbook.strPool g m := by
  obtain ⟨row, later, hrows⟩ := List.exists_cons_of_ne_nil g.rows_ne_nil
  have htokens : g.tokens = rowsTokens (row :: later) ++ [] := by
    rw [Grid.tokens, hrows, List.append_nil]
  have hwidth := g.length_eq
  rw [hrows] at hwidth
  obtain ⟨before, last, t, heq, hafter, hreads⟩ :
      ∃ before last t, [] ++ row :: later = before ++ [last] ∧
        (stateOf env.workbook.strPool before last t).afterElement = true ∧
        Reads env rest stack outer (stateOf env.workbook.strPool [] [] .arrayOpen)
          (rowsTokens (row :: later) ++ []) (stateOf env.workbook.strPool before last t) [] :=
    reads_rows g.width_pos row later hwidth rfl (htokens ▸ hpool)
  rw [List.nil_append] at heq
  rw [heq] at hwidth
  obtain ⟨depth', -, hread⟩ := hreads depth (htokens ▸ hdepth)
  rw [readFrom_nil hafter (widthFits_of_length_eq hwidth), ← htokens] at hread
  have hsize : g.rows.length = before.length + 1 := by
    rw [hrows, heq, List.length_append, List.length_singleton]
  refine ⟨_, pushes_of_readFrom hread, size_toMatrix.1.trans hsize.symm, size_toMatrix.2.trans ?_,
    fun i j e he ↦ get_toMatrix hwidth ?_⟩
  · exact hwidth last (List.mem_append_right _ (List.mem_singleton_self last))
  · rwa [hrows, heq] at he

theorem Grid.exists_mem_tokens (g : Grid) : ∃ c : Constant, c.token ∈ g.tokens := by
  obtain ⟨row, later, hrows⟩ := List.exists_cons_of_ne_nil g.rows_ne_nil
  have hlength := g.length_eq row (hrows ▸ List.mem_cons_self)
  obtain ⟨e, cells, rfl⟩ := List.exists_cons_of_length_pos (g.width_pos.trans_eq hlength.symm)
  have hmem : e.constant.token ∈ rowTokens (e :: cells) := by
    have htokens : e.constant.token ∈ e.tokens :=
      List.mem_append_right _ (List.mem_singleton_self _)
    cases cells with
    | nil => rwa [rowTokens_singleton]
    | cons e' cells =>
      rw [rowTokens_cons_cons]
      exact List.mem_append_left _ htokens
  refine ⟨e.constant, ?_⟩
  rw [Grid.tokens, hrows]
  cases later with
  | nil => rwa [rowsTokens_singleton]
  | cons row' later =>
    rw [rowsTokens_cons_cons]
    exact List.mem_append_left _ hmem

/-- An array literal is interpreted as the matrix it shows, and one without elements as a row
without elements.  Everything else is rejected, but for a sign without a number that is alone
between the braces. -/
theorem interpretLiteral_spec (hclose : .arrayClose ∉ ts)
    (hpool : Pooled env.workbook.strPool ts) (hdepth : ts.length ≤ depth) :
    (∀ g : Grid, g.Proper → ts = g.tokens →
      ∃ m, Pushes (interpretLiteral env (depth + 2) ts rest stack outer) rest m stack outer ∧
        Shows env.workbook.strPool g m) ∧
    (ts = [] →
      ∃ m, Pushes (interpretLiteral env (depth + 2) ts rest stack outer) rest m stack outer ∧
        m.rowSize = 1 ∧ m.colSize = 0) ∧
    ((∀ g : Grid, ts ≠ g.tokens) → ts ≠ [] → (∀ sign : Sign, ts ≠ [sign.token]) →
      Rejected (interpretLiteral env (depth + 2) ts rest stack outer)) := by
  refine ⟨?_, ?_, fun hgrid hne hsign ↦ ?_⟩
  · rintro g - rfl
    exact pushes_grid g hpool hdepth
  · rintro rfl
    exact ⟨_, pushes_of_readFrom rfl, rfl, rfl⟩
  · have hread : Rejected (readFrom env rest stack outer depth
        (stateOf env.workbook.strPool [] [] .arrayOpen) ts) ∨ IsGridOrSign ts :=
      rejected_or_isGridOrSign .opened hpool hclose hdepth
    rcases hread with ⟨msg, h⟩ | ⟨g, hg⟩ | ⟨sign, hs⟩
    · refine ⟨msg, ?_⟩
      rw [interpretLiteral_eq, h]
      rfl
    · exact absurd hg (hgrid g)
    · cases sign with
      | none => exact absurd hs hne
      | some sign => exact absurd hs (hsign sign)

/-- An interpreter with one string, `a`, and a grid with that string. -/
def oneString : Interpreter where
  lib := .natural
  workbook := ⟨⟨1, 1⟩, [], [], fun _ ↦ .empty, (StringPool.new.addString [97]).1, none⟩
  pos := ⟨0, 0, 0⟩
  call _ := Pure.pure ()
  assertions := false

/-- The grid `1, -2; "a", +4`. -/
def twoRows : Grid where
  rows := [
    [⟨none, .number 1⟩, ⟨some .minus, .number 2⟩],
    [⟨none, .string (.index 0)⟩, ⟨some .plus, .number 4⟩]]
  width := 2
  rows_ne_nil := List.cons_ne_nil _ _
  width_pos := Nat.two_pos
  length_eq := by decide

theorem interpretLiteral_spec_twoRows :
    (∃ m, Pushes (interpretLiteral oneString 20 twoRows.tokens [] [] []) [] m [] [] ∧
      m.rowSize = 2 ∧ m.colSize = 2 ∧ m.get 0 1 = .numeric (-2) ∧ m.get 1 0 = .string [97]) ∧
    Rejected (interpretLiteral oneString 20 [.sep] [] [] []) := by
  have htokens : twoRows.tokens = [.value 1, .sep, .minus, .value 2, .arrayRowSep,
    .string (.index 0), .sep, .plus, .value 4] := rfl
  have hpool : Pooled oneString.workbook.strPool twoRows.tokens := by
    intro sid hsid
    rw [htokens] at hsid
    obtain rfl : sid = .index 0 := by simpa using hsid
    rfl
  have hproper : twoRows.Proper := by
    simp [Grid.Proper, twoRows, Element.Proper]
  constructor
  · obtain ⟨m, hm, hrows, hcols, hget⟩ := (interpretLiteral_spec
      (by rw [htokens]; decide) hpool (show twoRows.tokens.length ≤ 18 by rw [htokens]; decide)).1
      twoRows hproper rfl
    exact ⟨m, hm, hrows, hcols, hget 0 1 _ rfl, hget 1 0 _ rfl⟩
  · refine (interpretLiteral_spec (by decide) ?_ (by decide)).2.2 (fun g hg ↦ ?_)
      (List.cons_ne_nil _ _) (fun sign h ↦ ?_)
    · exact fun sid hsid ↦ nomatch List.mem_singleton.mp hsid
    · obtain ⟨c, hc⟩ := g.exists_mem_tokens
      rw [← hg, List.mem_singleton] at hc
      cases c <;> cases hc
    · cases sign <;> cases h

/-- Braces with nothing or with a sign between them are not rejected. -/
theorem not_rejected_empty :
    ((∀ g : Grid, [] ≠ g.tokens) ∧ ¬Rejected (interpretLiteral oneString 2 [] [] [] [])) ∧
      (∀ g : Grid, [.minus] ≠ g.tokens) ∧
        ¬Rejected (interpretLiteral oneString 3 [.minus] [] [] []) := by
  refine ⟨⟨fun g h ↦ ?_, ?_⟩, fun g h ↦ ?_, ?_⟩
  · obtain ⟨c, hc⟩ := g.exists_mem_tokens
    rw [← h] at hc
    exact nomatch hc
  · rintro ⟨msg, h⟩
    exact nomatch h
  · obtain ⟨c, hc⟩ := g.exists_mem_tokens
    rw [← h, List.mem_singleton] at hc
    cases c <;> exact nomatch hc
  · rintro ⟨msg, h⟩
    exact nomatch h

end ArrayLiteral

end Ixion
