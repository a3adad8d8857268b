import Ixion.Interp.Grammar

/-!
# What formulas mean

The value of a tree is put together from the values of its parts: an operator is applied to the
values on its sides, a function to the values of its arguments and to nothing else.  The values of
the parts are found from left to right, and each of them may ask for cells or throw.

The interpreter works on one row of tokens and a stack of stacks instead.  It comes to the value of
the tree that is written in the row, whatever is on the stacks.  Where there is no such tree, it
comes to nothing: it throws, or ends with the error that has no kind.
-/

namespace Ixion

open Lib InterpM

namespace Grammar

open ArrayLiteral (Sign)

/-! ## Values -/

section Values

variable (env : Interpreter)

/-- What is taken off a stack with one value on it. -/
def onTop {α : Type} (x : StackM α) (v : StackValue) : Reader α := do return (← x [v]).1

/-- Pop an operand of an operator of an expression. -/
def popOperand : StackM StackValue := do
  match ← ValueStack.popStackValue env.workbook.sheetSize with
  | none => ValueStack.raise .generalError
  | some sv => return sv

/-- Apply an operator to two operands that are taken from values in the same way.  The value on the
right is found after the one on the left has been taken. -/
def operate {α : Type} (x : StackM α) (f : α → α → Except Exn StackValue) (v : StackValue)
    (w : Reader StackValue) : Reader StackValue := do
  let lhs ← onTop x v
  let rhs ← onTop x (← w)
  Reader.ofExcept (f lhs rhs)

/-- Apply an operator of an expression. -/
def applyExpressionOp (oc : ExpressionOp) : StackValue → Reader StackValue → Reader StackValue :=
  operate (popOperand env) (compare oc)

/-- Apply an operator of a term. -/
def applyFactorOp : FactorOp → StackValue → Reader StackValue → Reader StackValue
  | .arithmetic op =>
    operate (ValueStack.popMatrixOrNumeric env.workbook.sheetSize) fun lhs rhs ↦
      (opMatrixOrNumeric env.lib op lhs rhs).map ResolvedStackValue.toStackValue
  | .concat =>
    operate (ValueStack.popMatrixOrString env.lib env.workbook.sheetSize) fun lhs rhs ↦
      (concatMatrixOrString env.lib lhs rhs).map ResolvedStackValue.toStackValue

/-- Apply a sign. -/
def applySign : Option Sign → StackValue → Reader StackValue
  | some .minus, v => do return .value ((← onTop ValueStack.popValue v) * -1)
  | some .plus, v => return v
  | none, v => return v

/-- The value of a reference to a range, which has to be valid. -/
def rangeValue (range : AbsRange) : Reader StackValue :=
  if env.assertions = true ∧ ¬ range.valid = true then .throw (.assertionFailed "val.valid()")
  else return .rangeRef range

/-- The value that is left of the stack of a function. -/
def leftValue : ValueStack → Reader StackValue
  | [] => .throw .undefined
  | v :: _ => return v

/-- The value of a function for the values of its arguments. -/
def callValue (func : FormulaFunction) (args : List StackValue) : Reader StackValue := do
  let (_, stack) ← env.call func args.reverse
  if env.assertions = true ∧ ¬ stack.length = 1 then
    .throw (.assertionFailed "get_stack().size() == 1")
  else leftValue stack

/-- The value of an array, which is read alone. -/
def arrayValue (ts : Braced) : Reader StackValue := do
  let (_, s) ← env.arrayElements (ts.1.length + 1) ⟨[], [], 0, 0, none, .arrayOpen⟩
    ⟨ts.1 ++ [.arrayClose], [], []⟩
  leftValue s.stack

mutual

/-- The value of an expression. -/
def Expression.value : Expression → Reader StackValue
  | .mk t joined => do joined.value (← t.value)

/-- What the operators after the first term make of its value, from left to right. -/
def Joined.value : Joined → StackValue → Reader StackValue
  | .none, v => return v
  | .op oc t joined, v => do joined.value (← applyExpressionOp env oc v t.value)

/-- The value of a term, of which the operators are applied from right to left. -/
def Term.value : Term → Reader StackValue
  | .factor f => f.value
  | .op f op t => do applyFactorOp env op (← f.value) t.value

/-- The value of a factor. -/
def Factor.value : Factor → Reader StackValue
  | .mk sign o => do applySign sign (← o.value)

/-- The value of an operand.  A reference is no value of a cell yet. -/
def Operand.value : Operand → Reader StackValue
  | .number v => return .value v
  | .error e => return .error e
  | .string sid =>
    match env.workbook.strPool.getString sid with
    | some s => return .string s
    | none => .throw (.exception (.generalError "no string found for the specified string ID."))
  | .singleRef addr =>
    if addr.toAbs env.pos = env.pos then throwFormulaError .refResultNotAvailable
    else return .singleRef (addr.toAbs env.pos)
  | .rangeRef range =>
    if (range.toAbs env.pos).reorder.contains env.pos then
      throwFormulaError .refResultNotAvailable
    else rangeValue env (range.toAbs env.pos).reorder
  | .tableRef table =>
    match env.workbook.tableRange env.pos table with
    | none => throwFormulaError .refResultNotAvailable
    | some range => rangeValue env range
  | .paren e => e.value
  | .function func args => do callValue env func (← args.values)
  | .array ts => arrayValue env ts

/-- The values of arguments. -/
def Arguments.values : Arguments → Reader (List StackValue)
  | .none => return []
  | .one e => do return [← e.value]
  | .more e args => do return (← e.value) :: (← args.values)

end

end Values

/-! ## Pushing a value -/

/-- A value is found and pushed. -/
def pushing (x : Reader StackValue) (rest : List FormulaToken) (stack : ValueStack)
    (outer : List ValueStack) : Reader (Unit × InterpState) :=
  x.bind fun v ↦ .pure ((), ⟨rest, v :: stack, outer⟩)

variable {env : Interpreter} {depth : Nat} {rest : List FormulaToken} {stack : ValueStack}
  {outer : List ValueStack}

theorem pushing_bind {α : Type} (x : Reader α) (f : α → Reader StackValue) :
    pushing (x >>= f) rest stack outer = x.bind fun v ↦ pushing (f v) rest stack outer :=
  Query.bind_assoc x f _

/-- What is done with a value that is found and pushed. -/
theorem bind_pushing {α : Type} (x : Reader StackValue) (f : Unit × InterpState → Reader α) :
    (pushing x rest stack outer).bind f = x.bind fun v ↦ f ((), ⟨rest, v :: stack, outer⟩) :=
  Query.bind_assoc x _ f

/-! ## Taking a value off the stack -/

section Rules

variable {α β : Type} {x : StackM α} {f : α → StackM β} {v : StackValue}

/-- Something leaves the stack as it is, and does not go by it. -/
def Keeps (x : StackM α) : Prop :=
  ∃ r : Reader α, ∀ stack, x stack = r.bind fun a ↦ .pure (a, stack)

/-- Something takes a value off the stack, and goes by that value alone. -/
def Pops (x : StackM α) (v : StackValue) : Prop :=
  ∃ r : Reader α, ∀ stack, x (v :: stack) = r.bind fun a ↦ .pure (a, stack)

theorem Pops.eq (h : Pops x v) (stack : ValueStack) :
    x (v :: stack) = (onTop x v).bind fun a ↦ .pure (a, stack) := by
  obtain ⟨r, hr⟩ := h
  have htop : onTop x v = r := by
    show (x [v]).bind _ = _
    rw [hr, Query.bind_assoc]
    exact bind_pure r
  rw [htop, hr]

theorem keeps_pure (a : α) : Keeps (pure a : StackM α) := ⟨.pure a, fun _ ↦ rfl⟩

theorem keeps_throw (e : Failure) : Keeps (fun _ ↦ .throw e : StackM α) :=
  ⟨.throw e, fun _ ↦ rfl⟩

theorem keeps_reader (r : Reader α) : Keeps (liftM r : StackM α) := ⟨r, fun _ ↦ rfl⟩

theorem keeps_bind (hx : Keeps x) (hf : ∀ a, Keeps (f a)) : Keeps (x >>= f) := by
  obtain ⟨r, hr⟩ := hx
  choose g hg using hf
  refine ⟨r.bind g, fun stack ↦ ?_⟩
  show (x stack).bind _ = _
  rw [hr, Query.bind_assoc, Query.bind_assoc]
  exact congrArg r.bind (funext fun a ↦ hg a stack)

theorem pops_throw (e : Failure) : Pops (fun _ ↦ .throw e : StackM α) v :=
  ⟨.throw e, fun _ ↦ rfl⟩

theorem pops_popBack : Pops ValueStack.popBack v := ⟨.pure (), fun _ ↦ rfl⟩

theorem pops_bind (hx : Pops x v) (hf : ∀ a, Keeps (f a)) : Pops (x >>= f) v := by
  obtain ⟨r, hr⟩ := hx
  choose g hg using hf
  refine ⟨r.bind g, fun stack ↦ ?_⟩
  show (x (v :: stack)).bind _ = _
  rw [hr, Query.bind_assoc, Query.bind_assoc]
  exact congrArg r.bind (funext fun a ↦ hg a stack)

theorem pops_keeps_bind (hx : Keeps x) (hf : ∀ a, Pops (f a) v) : Pops (x >>= f) v := by
  obtain ⟨r, hr⟩ := hx
  choose g hg using hf
  refine ⟨r.bind g, fun stack ↦ ?_⟩
  show (x (v :: stack)).bind _ = _
  rw [hr, Query.bind_assoc, Query.bind_assoc]
  exact congrArg r.bind (funext fun a ↦ hg a stack)

/-- It is known which value is on top. -/
theorem pops_back_bind {f : StackValue → StackM β} (h : Pops (f v) v) :
    Pops (ValueStack.back >>= f) v := h

theorem pops_return {g : α → β} (hx : Pops x v) : Pops (do return g (← x)) v :=
  pops_bind hx fun _ ↦ keeps_pure _

end Rules

theorem pops_popValue (v : StackValue) : Pops ValueStack.popValue v :=
  pops_back_bind <| pops_keeps_bind (keeps_reader _) fun _ ↦
    pops_bind pops_popBack fun _ ↦ keeps_pure _

theorem pops_popBoolean (v : StackValue) : Pops ValueStack.popBoolean v :=
  pops_back_bind <| pops_keeps_bind (keeps_reader _) fun _ ↦
    pops_bind pops_popBack fun _ ↦ keeps_pure _

theorem pops_popString (lib : NumberLib) (v : StackValue) : Pops (ValueStack.popString lib) v := by
  refine pops_back_bind ?_
  cases v with
  | singleRef addr =>
    refine pops_bind pops_popBack fun _ ↦ keeps_bind (keeps_reader _) fun type ↦ ?_
    cases type with
    | empty => exact keeps_pure _
    | boolean => exact keeps_throw _
    | numeric => exact keeps_bind (keeps_reader _) fun _ ↦ keeps_pure _
    | formula => exact keeps_bind (keeps_reader _) fun _ ↦ keeps_reader _
    | string =>
      refine keeps_bind (keeps_reader _) fun value ↦ ?_
      rcases value with _ | _ | _ | (_ | s) | _
      case string.some => exact keeps_pure s
      all_goals exact keeps_throw _
  | string | boolean | value => exact pops_bind pops_popBack fun _ ↦ keeps_pure _
  | _ => exact pops_throw _

/-- Popping a matrix takes a matrix or a range off the stack and leaves everything else. -/
theorem maybePopMatrix_cons (sheetSize : RcSize) (v : StackValue) :
    (∃ r : Reader Matrix, ∀ stack, ValueStack.maybePopMatrix sheetSize (v :: stack) =
      r.bind fun m ↦ .pure (some m, stack)) ∨
    ∀ stack, ValueStack.maybePopMatrix sheetSize (v :: stack) = .pure (none, v :: stack) := by
  cases v with
  | matrix m => exact .inl ⟨.pure m, fun _ ↦ rfl⟩
  | rangeRef range =>
    refine .inl ⟨Reader.getRangeValue sheetSize range, fun stack ↦ ?_⟩
    show ((((Reader.getRangeValue sheetSize range).bind fun m ↦
      .pure (m, .rangeRef range :: stack)).bind fun p ↦ .pure (p.1, p.2.tail)).bind
        fun p ↦ .pure (some p.1, p.2)) = _
    rw [Query.bind_assoc, Query.bind_assoc]
    rfl
  | _ => exact .inr fun _ ↦ rfl

theorem pops_popMatrixOr {α : Type} {x : StackM α} {v : StackValue} (hx : Pops x v)
    (sheetSize : RcSize) (f : Matrix → ResolvedStackValue) (g : α → ResolvedStackValue) :
    Pops (do
      match ← ValueStack.maybePopMatrix sheetSize with
      | some m => return f m
      | none => return g (← x)) v := by
  rcases maybePopMatrix_cons sheetSize v with ⟨r, hr⟩ | hnone
  · refine ⟨r.bind fun m ↦ .pure (f m), fun stack ↦ ?_⟩
    show (ValueStack.maybePopMatrix sheetSize (v :: stack)).bind _ = _
    rw [hr, Query.bind_assoc, Query.bind_assoc]
    rfl
  · obtain ⟨r, hr⟩ := pops_return (g := g) hx
    refine ⟨r, fun stack ↦ ?_⟩
    show (ValueStack.maybePopMatrix sheetSize (v :: stack)).bind _ = _
    rw [hnone]
    exact hr stack

theorem pops_popMatrixOrNumeric (sheetSize : RcSize) (v : StackValue) :
    Pops (ValueStack.popMatrixOrNumeric sheetSize) v :=
  pops_popMatrixOr (pops_popValue v) sheetSize .matrix .numeric

theorem pops_popMatrixOrString (lib : NumberLib) (sheetSize : RcSize) (v : StackValue) :
    Pops (ValueStack.popMatrixOrString lib sheetSize) v :=
  pops_popMatrixOr (pops_popString lib v) sheetSize .matrix .string

/-- A range is no operand of an operator of an expression.  All other values are taken off. -/
theorem pops_popStackValue (sheetSize : RcSize) {v : StackValue}
    (hv : ∀ range, v ≠ .rangeRef range) : Pops (ValueStack.popStackValue sheetSize) v := by
  refine pops_back_bind ?_
  cases v with
  | rangeRef range => exact absurd rfl (hv range)
  | boolean b => exact pops_bind (pops_popBoolean _) fun _ ↦ keeps_pure _
  | value v => exact pops_bind (pops_popValue _) fun _ ↦ keeps_pure _
  | string s => exact pops_bind pops_popBack fun _ ↦ keeps_pure _
  | matrix m => exact ⟨.pure (some (.matrix m)), fun _ ↦ rfl⟩
  | error e => exact ⟨.pure (some (.error e)), fun _ ↦ rfl⟩
  | singleRef addr =>
    refine pops_bind (x := ValueStack.popSingleRef) ⟨.pure addr, fun _ ↦ rfl⟩ fun _ ↦
      keeps_bind (keeps_reader _) fun value ↦ ?_
    cases value with
    | formula row column res =>
      refine keeps_bind (keeps_reader _) fun result ↦ ?_
      cases result <;> exact keeps_pure _
    | string s => cases s <;> exact keeps_pure _
    | _ => exact keeps_pure _

theorem pops_popOperand (env : Interpreter) (v : StackValue) : Pops (popOperand env) v := by
  by_cases hv : ∃ range, v = .rangeRef range
  · obtain ⟨range, rfl⟩ := hv
    exact ⟨.throw (.exception (.formulaError .generalError)), fun _ ↦ rfl⟩
  · refine pops_bind (pops_popStackValue _ fun range h ↦ hv ⟨range, h⟩) fun sv ↦ ?_
    cases sv with
    | none => exact keeps_throw _
    | some sv => exact keeps_pure sv

/-! ## Arrays -/

section Arrays

open ArrayLiteral Interpreter

variable (env)

/-- From the tokens of an array on, what is found does not depend on what is around it. -/
def ReadsAlone (a : ArrayState) (ts : List FormulaToken) : Prop :=
  ∃ r : Reader StackValue, ∀ depth rest stack outer, ts.length < depth →
    env.arrayElements depth a ⟨ts ++ .arrayClose :: rest, stack, outer⟩ =
      pushing r rest stack outer

/-- A token that is read, after a sign that may be there, and what comes after it. -/
def ConsumesAlone (a : ArrayState) (minus : Bool) (t : FormulaToken) (ts : List FormulaToken) :
    Prop :=
  ∃ r : Reader StackValue, ∀ depth rest stack outer, ts.length < depth →
    consume env depth a minus t ⟨t :: (ts ++ .arrayClose :: rest), stack, outer⟩ =
      pushing r rest stack outer

variable {env} {a : ArrayState} {ts : List FormulaToken}

theorem consumesAlone_throw {minus : Bool} {t : FormulaToken} (e : Failure)
    (h : ∀ depth s, consume env depth a minus t s = .throw e) :
    ConsumesAlone env a minus t ts :=
  ⟨.throw e, fun depth _ _ _ _ ↦ h depth _⟩

theorem consumesAlone (h : ∀ a, ReadsAlone env a ts) (a : ArrayState) (minus : Bool)
    {t : FormulaToken} (ht : t ≠ .arrayClose) : ConsumesAlone env a minus t ts := by
  cases t with
  | arrayClose => exact absurd rfl ht
  | string sid =>
    cases ha : a.expectsElement with
    | false =>
      refine consumesAlone_throw (.exception (.invalidExpression
        "array: invalid placement of value")) fun depth s ↦ ?_
      rw [consume, ha]
      rfl
    | true =>
      cases hs : env.workbook.strPool.getString sid with
      | none =>
        refine consumesAlone_throw (.exception (.generalError
          "no string found for the specified string ID.")) fun depth s ↦ ?_
        rw [consume, ha, stringOrThrow, hs]
        rfl
      | some s =>
        obtain ⟨r, hr⟩ := h { a with
          values := a.values ++ [0]
          strings := a.strings ++ [(a.row, a.col, s)]
          col := a.col + 1
          prevOp := .string sid }
        refine ⟨r, fun depth rest stack outer hdepth ↦ ?_⟩
        rw [consume, ha, stringOrThrow, hs]
        exact hr depth rest stack outer hdepth
  | value v =>
    cases ha : a.expectsElement with
    | false =>
      refine consumesAlone_throw (.exception (.invalidExpression
        "array: invalid placement of value")) fun depth s ↦ ?_
      rw [consume, ha]
      rfl
    | true =>
      obtain ⟨r, hr⟩ := h { a with
        values := a.values ++ [if minus then -v else v]
        col := a.col + 1
        prevOp := .value v }
      refine ⟨r, fun depth rest stack outer hdepth ↦ ?_⟩
      rw [consume, ha]
      exact hr depth rest stack outer hdepth
  | sep =>
    cases ha : a.afterElement with
    | false =>
      refine consumesAlone_throw (.exception (.invalidExpression
        "array: unexpected separator")) fun depth s ↦ ?_
      rw [consume, ha]
      rfl
    | true =>
      obtain ⟨r, hr⟩ := h { a with prevOp := .sep }
      refine ⟨r, fun depth rest stack outer hdepth ↦ ?_⟩
      rw [consume, ha]
      exact hr depth rest stack outer hdepth
  | arrayRowSep =>
    cases ha : a.afterElement with
    | false =>
      refine consumesAlone_throw (.exception (.invalidExpression
        "array: unexpected row separator")) fun depth s ↦ ?_
      rw [consume, ha]
      rfl
    | true =>
      cases hwidth : a.widthFits with
      | false =>
        refine consumesAlone_throw (.exception (.invalidExpression
          "array: inconsistent column width")) fun depth s ↦ ?_
        rw [consume, ha, hwidth]
        rfl
      | true =>
        obtain ⟨r, hr⟩ := h
          { a with row := a.row + 1, col := 0, prevCol := some a.col, prevOp := .arrayRowSep }
        refine ⟨r, fun depth rest stack outer hdepth ↦ ?_⟩
        rw [consume, ha, hwidth]
        exact hr depth rest stack outer hdepth
  | _ => exact consumesAlone_throw _ fun _ _ ↦ rfl

/-- The closing brace. -/
theorem exists_consume_close (env : Interpreter) (a : ArrayState) (minus : Bool) :
    ∃ r : Reader StackValue, ∀ depth rest stack outer,
      consume env depth a minus .arrayClose ⟨.arrayClose :: rest, stack, outer⟩ =
        pushing r rest stack outer := by
  cases hop : decide (a.prevOp = .arrayOpen ∨ a.afterElement) with
  | false =>
    refine ⟨.throw (.exception (.invalidExpression
      "array: invalid placement of array close operator")), fun depth rest stack outer ↦ ?_⟩
    rw [consume, hop]
    rfl
  | true =>
    cases hwidth : a.widthFits with
    | false =>
      refine ⟨.throw (.exception (.invalidExpression "array: inconsistent column width")),
        fun depth rest stack outer ↦ ?_⟩
      rw [consume, hop, hwidth]
      rfl
    | true =>
      refine ⟨.pure (.matrix a.toMatrix), fun depth rest stack outer ↦ ?_⟩
      rw [consume, hop, hwidth]
      rfl

/-- A token with a sign that may be there, or nothing but the sign, is read first. -/
theorem exists_sign_append (ts : List FormulaToken) : ∃ (sign : Option Sign) (ts' : _),
    ts = (sign.map Sign.token).toList ++ ts' ∧
      (sign = none → ∀ t ∈ ts'.head?, t ≠ .plus ∧ t ≠ .minus) := by
  cases ts with
  | nil => exact ⟨none, [], rfl, fun _ _ ht ↦ by cases ht⟩
  | cons t ts =>
    by_cases hplus : t = .plus
    · exact ⟨some .plus, ts, by rw [hplus]; rfl, fun h ↦ by cases h⟩
    by_cases hminus : t = .minus
    · exact ⟨some .minus, ts, by rw [hminus]; rfl, fun h ↦ by cases h⟩
    · refine ⟨none, t :: ts, rfl, fun _ t' ht' ↦ ?_⟩
      cases ht'
      exact ⟨hplus, hminus⟩

/-- Where no element is expected, no sign is looked for. -/
theorem arrayElements_of_not_expectsElement {a : ArrayState} (ha : a.expectsElement = false)
    (t : FormulaToken) (ts : List FormulaToken) :
    env.arrayElements (depth + 1) a ⟨t :: ts, stack, outer⟩ =
      consume env depth a false t ⟨t :: ts, stack, outer⟩ := by
  rw [arrayElements_eq, ha]
  rfl

/-- A token is read, after a sign that may be there. -/
theorem exists_arrayElements_cons (env : Interpreter) (a : ArrayState)
    (ts : List FormulaToken) :
    ∃ (pre : List FormulaToken) (ts' : List FormulaToken) (minus : Bool), ts = pre ++ ts' ∧
      ∀ depth t rest stack outer, (∀ t' ∈ ts'.head?, t = t') → (ts' = [] → t = .arrayClose) →
        env.arrayElements (depth + 1) a ⟨pre ++ t :: rest, stack, outer⟩ =
          consume env depth a minus t ⟨t :: rest, stack, outer⟩ := by
  cases ha : a.expectsElement with
  | false =>
    exact ⟨[], ts, false, rfl, fun depth t rest stack outer _ _ ↦
      arrayElements_of_not_expectsElement ha t rest⟩
  | true =>
    obtain ⟨sign, ts', rfl, hsign⟩ := exists_sign_append ts
    refine ⟨_, ts', _, rfl, fun depth t rest stack outer ht hnil ↦
      arrayElements_of_expectsElement ha fun h ↦ ?_⟩
    cases ts' with
    | nil =>
      rw [hnil rfl]
      exact ⟨by rintro ⟨⟩, by rintro ⟨⟩⟩
    | cons t' ts' =>
      rw [ht t' rfl]
      exact hsign h t' rfl

/-- An array is read alone. -/
theorem readsAlone (env : Interpreter) (ts : List FormulaToken) (hclose : .arrayClose ∉ ts)
    (a : ArrayState) :
    ReadsAlone env a ts := by
  induction hn : ts.length using Nat.strong_induction_on generalizing ts a with
  | _ n ih =>
    subst hn
    obtain ⟨pre, ts', minus, rfl, hread⟩ := exists_arrayElements_cons env a ts
    cases ts' with
    | nil =>
      obtain ⟨r, hr⟩ := exists_consume_close env a minus
      refine ⟨r, fun depth rest stack outer hdepth ↦ ?_⟩
      obtain ⟨depth, rfl⟩ := Nat.exists_eq_add_of_lt hdepth
      rw [List.append_nil, hread _ _ _ _ _ (fun _ h ↦ by cases h) fun _ ↦ rfl, hr]
    | cons t ts' =>
      have hlength : ts'.length < (pre ++ t :: ts').length := by
        rw [List.length_append, List.length_cons]
        omega
      have hclose' : .arrayClose ∉ ts' := fun h ↦
        hclose (List.mem_append_right _ (List.mem_cons_of_mem _ h))
      have ht : t ≠ .arrayClose := by
        rintro rfl
        exact hclose (List.mem_append_right _ List.mem_cons_self)
      obtain ⟨r, hr⟩ := consumesAlone (fun a ↦ ih _ hlength ts' hclose' a rfl) a minus ht
      refine ⟨r, fun depth rest stack outer hdepth ↦ ?_⟩
      obtain ⟨depth, rfl⟩ := Nat.exists_eq_add_of_lt hdepth
      rw [List.append_assoc, List.cons_append,
        hread _ _ _ _ _ (fun _ h ↦ Option.some.inj h) (fun h ↦ absurd h (List.cons_ne_nil _ _)),
        hr _ _ _ _ (hlength.trans_le (Nat.le_add_right _ _))]

/-- What is found of an array is its value. -/
theorem arrayElements_eq_pushing (ts : Braced) (hdepth : ts.1.length < depth) :
    env.arrayElements depth ⟨[], [], 0, 0, none, .arrayOpen⟩
      ⟨ts.1 ++ .arrayClose :: rest, stack, outer⟩ =
        pushing (arrayValue env ts) rest stack outer := by
  obtain ⟨r, hr⟩ := readsAlone env ts.1 ts.2 ⟨[], [], 0, 0, none, .arrayOpen⟩
  have hvalue : arrayValue env ts = r := by
    show (env.arrayElements _ _ _).bind _ = _
    rw [hr _ [] [] [] (Nat.lt_succ_self _), bind_pushing]
    exact bind_pure r
  rw [hvalue, hr _ _ _ _ hdepth]

end Arrays

/-! ## Operators -/

/-- Push a value, or throw. -/
def pushOrRaise : Except Exn StackValue → InterpM Unit
  | .ok v => push v
  | .error e => raise e

/-- Apply an operator to operands on the stack, of which the second one is pushed by something
that goes on from the token after the operator. -/
def operateOnStack {α : Type} (x : StackM α) (y : InterpM Unit)
    (f : α → α → Except Exn StackValue) : InterpM Unit := do
  let lhs ← onStack x
  next
  y
  let rhs ← onStack x
  pushOrRaise (f lhs rhs)

theorem pushOrRaise_eq (r : Except Exn StackValue) :
    pushOrRaise r ⟨rest, stack, outer⟩ = pushing (Reader.ofExcept r) rest stack outer := by
  cases r <;> rfl

theorem onStack_run {α : Type} (x : StackM α) (s : InterpState) :
    onStack x s = (x s.stack).bind fun p ↦ .pure (p.1, { s with stack := p.2 }) := rfl

/-- What is applied to the stack is applied to the values. -/
theorem operateOnStack_eq {α : Type} {x : StackM α} (hx : ∀ v, Pops x v) {y : InterpM Unit}
    {w : Reader StackValue} {ts : List FormulaToken} {v : StackValue}
    (hy : y ⟨ts, stack, outer⟩ = pushing w rest stack outer) (f : α → α → Except Exn StackValue)
    (t : FormulaToken) :
    operateOnStack x y f ⟨t :: ts, v :: stack, outer⟩ =
      pushing (operate x f v w) rest stack outer := by
  have hstep : operateOnStack x y f ⟨t :: ts, v :: stack, outer⟩ =
      (x (v :: stack)).bind fun p ↦ (y ⟨ts, p.2, outer⟩).bind fun q ↦
        (x q.2.stack).bind fun p' ↦
          pushOrRaise (f p.1 p'.1) { q.2 with stack := p'.2 } := by
    show ((x (v :: stack)).bind _).bind _ = _
    rw [Query.bind_assoc]
    refine congrArg (Query.bind _) (funext fun p ↦ ?_)
    refine congrArg (Query.bind (y ⟨ts, p.2, outer⟩)) (funext fun q ↦ ?_)
    show ((x q.2.stack).bind _).bind _ = _
    rw [Query.bind_assoc]
    rfl
  rw [hstep, (hx v).eq, Query.bind_assoc, operate]
  refine Eq.trans ?_ (pushing_bind (onTop x v) _).symm
  refine congrArg (Query.bind _) (funext fun lhs ↦ ?_)
  show (y ⟨ts, stack, outer⟩).bind _ = pushing (w.bind _) rest stack outer
  rw [hy, bind_pushing]
  refine Eq.trans ?_ (pushing_bind w _).symm
  refine congrArg (Query.bind _) (funext fun v' ↦ ?_)
  show (x (v' :: stack)).bind _ = pushing ((onTop x v').bind _) rest stack outer
  rw [(hx v').eq, Query.bind_assoc]
  refine Eq.trans ?_ (pushing_bind (onTop x v') _).symm
  exact congrArg (Query.bind _) (funext fun rhs ↦ pushOrRaise_eq _)

/-- An operand is popped if there is one. -/
theorem onStack_popOperand_bind {α : Type} (f : StackValue → InterpM α) :
    (onStack (popOperand env) >>= f) =
      onStack (ValueStack.popStackValue env.workbook.sheetSize) >>= fun sv ↦
        sv.elim (raise (.formulaError .generalError)) f := by
  funext s
  show (((ValueStack.popStackValue _ s.stack).bind _).bind _).bind _ =
    ((ValueStack.popStackValue _ s.stack).bind _).bind _
  rw [Query.bind_assoc, Query.bind_assoc, Query.bind_assoc]
  refine congrArg (Query.bind _) (funext fun p ↦ ?_)
  obtain ⟨_ | sv, stack'⟩ := p
  · rfl
  · rfl

/-! ## The interpreter -/

section Run

open Interpreter Arithmetic

variable {ts : List FormulaToken} {v : StackValue} {w : Reader StackValue}

/-- An operator after a factor. -/
theorem termRest_op (op : FactorOp)
    (h : env.term depth ⟨ts, stack, outer⟩ = pushing w rest stack outer) :
    termRest env depth ⟨op.token :: ts, v :: stack, outer⟩ =
      pushing (applyFactorOp env op v w) rest stack outer := by
  cases op with
  | arithmetic op =>
    refine Eq.trans ?_ (operateOnStack_eq (pops_popMatrixOrNumeric _) h _ (opToken op))
    have hoperate (lhs rhs : ResolvedStackValue) : env.applyTermOp op lhs rhs =
        pushOrRaise
          ((opMatrixOrNumeric env.lib op lhs rhs).map ResolvedStackValue.toStackValue) := by
      rw [applyTermOp]
      cases opMatrixOrNumeric env.lib op lhs rhs <;> rfl
    rw [operateOnStack]
    simp only [← hoperate]
    cases op <;> rfl
  | concat =>
    refine Eq.trans ?_ (operateOnStack_eq (pops_popMatrixOrString _ _) h _ .concat)
    rw [termRest, bind_run, token?_apply, Query.bind]
    refine congrFun (bind_congr fun lhs ↦ bind_congr fun _ ↦ bind_congr fun _ ↦
      bind_congr fun rhs ↦ ?_) _
    show _ = pushOrRaise ((concatMatrixOrString env.lib lhs rhs).map _)
    cases concatMatrixOrString env.lib lhs rhs <;> rfl

/-- An operator after a term of an expression. -/
theorem expressionRest_op (oc : ExpressionOp)
    (h : env.term depth ⟨ts, stack, outer⟩ = pushing w rest stack outer) :
    env.expressionRest (depth + 1) ⟨Comparison.opToken oc :: ts, v :: stack, outer⟩ =
      (applyExpressionOp env oc v w).bind fun v' ↦
        env.expressionRest depth ⟨rest, v' :: stack, outer⟩ := by
  have hrun : env.expressionRest (depth + 1) ⟨Comparison.opToken oc :: ts, v :: stack, outer⟩ =
      (operateOnStack (popOperand env) (env.term depth) (compare oc) >>= fun _ ↦
        env.expressionRest depth) ⟨Comparison.opToken oc :: ts, v :: stack, outer⟩ := by
    rw [Interpreter.expressionRest, bind_run, token?_apply, Query.bind]
    dsimp only
    rw [List.head?_cons, Option.bind_some, Comparison.validExpressionOp_opToken, operateOnStack]
    simp only [bind_assoc, onStack_popOperand_bind]
    refine congrFun (bind_congr fun sv1 ↦ ?_) _
    cases sv1 with
    | none => rfl
    | some sv1 =>
      simp only [Option.elim_some, bind_assoc]
      refine bind_congr fun _ ↦ bind_congr fun _ ↦ bind_congr fun sv2 ↦ ?_
      cases sv2 with
      | none => rfl
      | some sv2 =>
        simp only [Option.elim_some]
        cases compare oc sv1 sv2 <;> rfl
  rw [hrun, bind_run, operateOnStack_eq (pops_popOperand env) h, bind_pushing]
  rfl

/-- The signs of a factor. -/
theorem sign_tokens (sign : Option Sign) (o : Operand) (rest : List FormulaToken) :
    Interpreter.sign ⟨(sign.map Sign.token).toList ++ (o.tokens ++ rest), stack, outer⟩ =
      .pure (decide (sign = some .minus), ⟨o.tokens ++ rest, stack, outer⟩) := by
  obtain ⟨t, ts, htokens, -, ht⟩ := o.exists_cons
  rw [htokens]
  rcases sign with _ | _ | _
  · have hplus := ht .plus
    have hminus := ht .minus
    cases t with
    | plus => exact absurd rfl hplus
    | minus => exact absurd rfl hminus
    | _ => rfl
  · rfl
  · rfl

/-- What follows the sign of a factor. -/
theorem applySign_eq (sign : Option Sign) :
    (if decide (sign = some .minus) then do
        let v ← onStack ValueStack.popValue
        push (.value (v * -1)) else pure () : InterpM Unit) ⟨rest, v :: stack, outer⟩ =
      pushing (applySign sign v) rest stack outer := by
  rcases sign with _ | _ | _
  · rfl
  · rfl
  · show (onStack ValueStack.popValue >>= _) _ = _
    rw [bind_run, onStack_run, (pops_popValue v).eq, Query.bind_assoc, Query.bind_assoc,
      applySign, pushing_bind]
    rfl

/-- Operands without anything inside. -/
theorem operand_leaf (o : Operand) (ho : ∀ e, o ≠ .paren e)
    (ho' : ∀ func args, o ≠ .function func args) (hdepth : 5 * o.tokens.length ≤ depth) :
    operand env depth ⟨o.tokens ++ rest, stack, outer⟩ =
      pushing (o.value env) rest stack outer := by
  cases o with
  | paren e => exact absurd rfl (ho e)
  | function func args => exact absurd rfl (ho' func args)
  | number v => rfl
  | error e => rfl
  | string sid =>
    show (env.stringOrThrow sid _).bind _ = _
    rw [stringOrThrow, Operand.value]
    cases env.workbook.strPool.getString sid <;> rfl
  | singleRef addr =>
    show env.singleRef addr _ = _
    rw [Interpreter.singleRef, Operand.value]
    dsimp only
    split <;> rfl
  | rangeRef range =>
    show env.rangeRef range _ = _
    rw [Interpreter.rangeRef, Operand.value, pushRangeRef, assert, rangeValue]
    dsimp only
    split
    · rfl
    · split <;> rfl
  | tableRef table =>
    show env.tableRef table _ = _
    rw [Interpreter.tableRef, Operand.value]
    cases env.workbook.tableRange env.pos table with
    | none => rfl
    | some range =>
      dsimp only
      rw [pushRangeRef, assert, rangeValue]
      split <;> rfl
  | array ts =>
    rw [Operand.tokens, List.length_cons, List.length_append, List.length_singleton] at hdepth
    rw [Operand.tokens, Operand.value, List.cons_append, List.append_assoc]
    exact arrayElements_eq_pushing ts (by omega)

/-- An expression in parentheses. -/
theorem operand_paren {e : Expression} (hdepth : 0 < depth) (h : ∀ depth', depth ≤ depth' + 1 →
    env.expression depth' ⟨e.tokens ++ .parenClose :: rest, stack, outer⟩ =
      pushing (e.value env) (.parenClose :: rest) stack outer) :
    operand env depth ⟨(Operand.paren e).tokens ++ rest, stack, outer⟩ =
      pushing ((Operand.paren e).value env) rest stack outer := by
  obtain ⟨depth, rfl⟩ := Nat.exists_eq_succ_of_ne_zero hdepth.ne'
  rw [Operand.tokens, List.cons_append, List.append_assoc, Operand.value]
  show env.paren (depth + 1) _ = _
  rw [Interpreter.paren]
  show (env.expression depth ⟨e.tokens ++ .parenClose :: rest, stack, outer⟩).bind _ = _
  rw [h depth le_rfl, bind_pushing]
  rfl

/-- The values of arguments are found and pushed, the last one on top. -/
def pushingAll (x : Reader (List StackValue)) (rest : List FormulaToken) (stack : ValueStack)
    (outer : List ValueStack) : Reader (Unit × InterpState) :=
  x.bind fun vs ↦ .pure ((), ⟨rest, vs.reverse ++ stack, outer⟩)

/-- What a function leaves is its value. -/
theorem popStack_eq (func : FormulaFunction) (args : List StackValue) :
    ((do
      onStack (env.call func)
      env.assert "get_stack().size() == 1" ((← get).stack.length = 1)
      env.popStack : InterpM Unit) ⟨rest, args.reverse, stack :: outer⟩) =
        pushing (callValue env func args) rest stack outer := by
  rw [bind_run, onStack_run, Query.bind_assoc, callValue, pushing_bind]
  refine congrArg (Query.bind _) (funext fun p ↦ ?_)
  obtain ⟨-, left⟩ := p
  show (env.assert _ _ >>= fun _ ↦ env.popStack) ⟨rest, left, stack :: outer⟩ = _
  rw [Interpreter.assert]
  dsimp only
  split
  · rfl
  case isFalse hsize =>
    show env.popStack ⟨rest, left, stack :: outer⟩ = _
    rw [Interpreter.popStack]
    show (env.assert _ _ >>= fun _ ↦ env.assert _ _ >>= fun _ ↦ _)
      ⟨rest, left, stack :: outer⟩ = _
    rw [Interpreter.assert, if_neg fun h ↦ h.2 (List.cons_ne_nil _ _), Interpreter.assert,
      if_neg hsize]
    cases left <;> rfl

/-- A function call. -/
theorem operand_function (func : FormulaFunction) {args : Arguments} (hdepth : 0 < depth)
    (h : ∀ depth', depth ≤ depth' + 1 →
      env.arguments depth' false ⟨args.tokens ++ .parenClose :: rest, [], stack :: outer⟩ =
        pushingAll (args.values env) (.parenClose :: rest) [] (stack :: outer)) :
    operand env depth ⟨(Operand.function func args).tokens ++ rest, stack, outer⟩ =
      pushing ((Operand.function func args).value env) rest stack outer := by
  obtain ⟨depth, rfl⟩ := Nat.exists_eq_succ_of_ne_zero hdepth.ne'
  rw [Operand.tokens, List.cons_append, List.cons_append, List.append_assoc, Operand.value,
    pushing_bind]
  show env.function (depth + 1) func _ = _
  have htokens : ∃ t ts, args.tokens ++ .parenClose :: rest = t :: ts :=
    List.exists_cons_of_ne_nil (List.append_ne_nil_of_right_ne_nil _ (List.cons_ne_nil _ _))
  have hrun : env.function (depth + 1) func
      ⟨.function func :: .parenOpen :: (args.tokens ++ .parenClose :: rest), stack, outer⟩ =
        (env.arguments depth false
          ⟨args.tokens ++ .parenClose :: rest, [], stack :: outer⟩).bind fun p ↦
            (do
              next
              onStack (env.call func)
              env.assert "get_stack().size() == 1" ((← get).stack.length = 1)
              env.popStack : InterpM Unit) p.2 := by
    obtain ⟨t, ts, hts⟩ := htokens
    rw [Interpreter.function, hts]
    rfl
  refine hrun.trans ?_
  rw [h depth le_rfl, pushingAll, Query.bind_assoc]
  refine congrArg (Query.bind _) (funext fun vs ↦ ?_)
  rw [List.append_nil]
  exact popStack_eq func vs

/-- The next argument. -/
theorem arguments_expression {e : Expression} {ts : List FormulaToken}
    (h : env.expression depth ⟨e.tokens ++ ts, stack, outer⟩ =
      pushing (e.value env) ts stack outer) :
    env.arguments (depth + 1) false ⟨e.tokens ++ ts, stack, outer⟩ =
      (e.value env).bind fun v ↦ env.arguments depth true ⟨ts, v :: stack, outer⟩ := by
  rw [← bind_pushing (f := fun p ↦ env.arguments depth true p.2), ← h]
  have hne := e.ne_parenClose_append ts
  obtain ⟨t, ts', hts⟩ := List.exists_cons_of_ne_nil
    (List.append_ne_nil_of_left_ne_nil e.tokens_ne_nil ts)
  rw [hts] at hne ⊢
  rw [Interpreter.arguments]
  cases t with
  | parenClose => exact absurd rfl (hne ts')
  | _ => rfl

theorem arguments_parenClose (expectSep : Bool) (rest : List FormulaToken) :
    env.arguments (depth + 1) expectSep ⟨.parenClose :: rest, stack, outer⟩ =
      .pure ((), ⟨.parenClose :: rest, stack, outer⟩) := by
  rw [Interpreter.arguments]
  rfl

theorem arguments_sep (ts : List FormulaToken) :
    env.arguments (depth + 1) true ⟨.sep :: ts, stack, outer⟩ =
      env.arguments depth false ⟨ts, stack, outer⟩ := by
  rw [Interpreter.arguments]
  rfl

/-- A term ends where no operator comes next. -/
theorem termRest_end (hrest : EndsTerm rest) :
    termRest env depth ⟨rest, v :: stack, outer⟩ = .pure ((), ⟨rest, v :: stack, outer⟩) := by
  cases rest with
  | nil => rfl
  | cons t rest =>
    obtain ⟨h₁, h₂, h₃, h₄⟩ := hrest t rfl
    cases t <;> first | rfl | contradiction

/-- An expression ends where no operator comes next. -/
theorem expressionRest_end (hdepth : 0 < depth) (hrest : EndsExpression rest) :
    env.expressionRest depth ⟨rest, v :: stack, outer⟩ =
      .pure ((), ⟨rest, v :: stack, outer⟩) := by
  obtain ⟨depth, rfl⟩ := Nat.exists_eq_succ_of_ne_zero hdepth.ne'
  exact Arithmetic.expressionRest_end hrest.op depth (v :: stack) outer

mutual

/-- An expression is interpreted as its value, whatever is on the stacks. -/
theorem Expression.run : ∀ (e : Expression) {depth : Nat} {rest : List FormulaToken}
    {stack : ValueStack} {outer : List ValueStack}, EndsExpression rest →
    5 * e.tokens.length + 3 ≤ depth →
    env.expression depth ⟨e.tokens ++ rest, stack, outer⟩ =
      pushing (e.value env) rest stack outer
  | .mk t joined, depth, rest, stack, outer, hrest, hdepth => by
    obtain ⟨depth, rfl⟩ := Nat.exists_eq_add_of_lt (show 0 < depth by omega)
    rw [Expression.tokens, List.length_append] at hdepth
    rw [Expression.tokens, List.append_assoc, Expression.value, pushing_bind, Nat.zero_add,
      Interpreter.expression, bind_run, t.run (joined.endsTerm hrest) (by omega), bind_pushing]
    exact congrArg (Query.bind _) (funext fun v ↦ joined.run hrest (by omega))

theorem Joined.run : ∀ (joined : Joined) {depth : Nat} {rest : List FormulaToken}
    {v : StackValue} {stack : ValueStack} {outer : List ValueStack}, EndsExpression rest →
    5 * joined.tokens.length + 1 ≤ depth →
    env.expressionRest depth ⟨joined.tokens ++ rest, v :: stack, outer⟩ =
      pushing (joined.value env v) rest stack outer
  | .none, depth, rest, v, stack, outer, hrest, hdepth => expressionRest_end (by omega) hrest
  | .op oc t joined, depth, rest, v, stack, outer, hrest, hdepth => by
    obtain ⟨depth, rfl⟩ := Nat.exists_eq_add_of_lt (show 0 < depth by omega)
    rw [Joined.tokens, List.length_cons, List.length_append] at hdepth
    rw [Joined.tokens, List.cons_append, List.append_assoc, Joined.value, pushing_bind,
      Nat.zero_add, expressionRest_op oc (t.run (joined.endsTerm hrest) (by omega))]
    exact congrArg (Query.bind _) (funext fun v ↦ joined.run hrest (by omega))

theorem Term.run : ∀ (t : Term) {depth : Nat} {rest : List FormulaToken} {stack : ValueStack}
    {outer : List ValueStack}, EndsTerm rest → 5 * t.tokens.length + 2 ≤ depth →
    env.term depth ⟨t.tokens ++ rest, stack, outer⟩ = pushing (t.value env) rest stack outer
  | .factor f, depth, rest, stack, outer, hrest, hdepth => by
    obtain ⟨depth, rfl⟩ := Nat.exists_eq_add_of_lt (show 0 < depth by omega)
    rw [Term.tokens] at hdepth
    rw [Term.tokens, Term.value, Nat.zero_add, term_succ, f.run (by omega), bind_pushing]
    exact congrArg (Query.bind _) (funext fun v ↦ termRest_end hrest)
  | .op f op t, depth, rest, stack, outer, hrest, hdepth => by
    obtain ⟨depth, rfl⟩ := Nat.exists_eq_add_of_lt (show 0 < depth by omega)
    rw [Term.tokens, List.length_append, List.length_cons] at hdepth
    rw [Term.tokens, List.append_assoc, List.cons_append, Term.value, pushing_bind, Nat.zero_add,
      term_succ, f.run (by omega), bind_pushing]
    exact congrArg (Query.bind _) (funext fun v ↦ termRest_op op (t.run hrest (by omega)))

theorem Factor.run : ∀ (f : Factor) {depth : Nat} {rest : List FormulaToken}
    {stack : ValueStack} {outer : List ValueStack}, 5 * f.tokens.length + 1 ≤ depth →
    env.factor depth ⟨f.tokens ++ rest, stack, outer⟩ = pushing (f.value env) rest stack outer
  | .mk sign o, depth, rest, stack, outer, hdepth => by
    obtain ⟨depth, rfl⟩ := Nat.exists_eq_add_of_lt (show 0 < depth by omega)
    rw [Factor.tokens, List.length_append] at hdepth
    rw [Factor.tokens, List.append_assoc, Factor.value, pushing_bind, Nat.zero_add, factor_succ,
      sign_tokens]
    show (operand env depth _).bind _ = _
    rw [o.run (by omega), bind_pushing]
    exact congrArg (Query.bind _) (funext fun v ↦ applySign_eq sign)

theorem Operand.run : ∀ (o : Operand) {depth : Nat} {rest : List FormulaToken}
    {stack : ValueStack} {outer : List ValueStack}, 5 * o.tokens.length ≤ depth →
    operand env depth ⟨o.tokens ++ rest, stack, outer⟩ = pushing (o.value env) rest stack outer
  | .paren e, depth, rest, stack, outer, hdepth => by
    rw [Operand.tokens, List.length_cons, List.length_append] at hdepth
    exact operand_paren (by omega) fun depth' h ↦
      e.run (endsExpression_parenClose rest) (by simp at hdepth; omega)
  | .function func args, depth, rest, stack, outer, hdepth => by
    rw [Operand.tokens, List.length_cons, List.length_cons, List.length_append] at hdepth
    exact operand_function func (by omega) fun depth' h ↦ args.run (by simp at hdepth; omega)
  | .number v, _, _, _, _, h => operand_leaf (.number v) (by rintro _ ⟨⟩) (by rintro _ _ ⟨⟩) h
  | .error e, _, _, _, _, h => operand_leaf (.error e) (by rintro _ ⟨⟩) (by rintro _ _ ⟨⟩) h
  | .string sid, _, _, _, _, h =>
    operand_leaf (.string sid) (by rintro _ ⟨⟩) (by rintro _ _ ⟨⟩) h
  | .singleRef addr, _, _, _, _, h =>
    operand_leaf (.singleRef addr) (by rintro _ ⟨⟩) (by rintro _ _ ⟨⟩) h
  | .rangeRef range, _, _, _, _, h =>
    operand_leaf (.rangeRef range) (by rintro _ ⟨⟩) (by rintro _ _ ⟨⟩) h
  | .tableRef table, _, _, _, _, h =>
    operand_leaf (.tableRef table) (by rintro _ ⟨⟩) (by rintro _ _ ⟨⟩) h
  | .array ts, _, _, _, _, h => operand_leaf (.array ts) (by rintro _ ⟨⟩) (by rintro _ _ ⟨⟩) h

theorem Arguments.run : ∀ (args : Arguments) {depth : Nat} {rest : List FormulaToken}
    {stack : ValueStack} {outer : List ValueStack}, 5 * args.tokens.length + 4 ≤ depth →
    env.arguments depth false ⟨args.tokens ++ .parenClose :: rest, stack, outer⟩ =
      pushingAll (args.values env) (.parenClose :: rest) stack outer
  | .none, depth, rest, stack, outer, hdepth => by
    obtain ⟨depth, rfl⟩ := Nat.exists_eq_add_of_lt (show 0 < depth by omega)
    rw [Nat.zero_add]
    exact arguments_parenClose false rest
  | .one e, depth, rest, stack, outer, hdepth => by
    obtain ⟨depth, rfl⟩ := Nat.exists_eq_add_of_le' (show 2 ≤ depth by omega)
    rw [Arguments.tokens] at hdepth ⊢
    rw [arguments_expression (e.run (endsExpression_parenClose rest) (by omega)), pushingAll,
      Arguments.values]
    show _ = ((e.value env).bind _).bind _
    rw [Query.bind_assoc]
    exact congrArg (Query.bind _) (funext fun v ↦ arguments_parenClose true rest)
  | .more e args, depth, rest, stack, outer, hdepth => by
    obtain ⟨depth, rfl⟩ := Nat.exists_eq_add_of_le' (show 2 ≤ depth by omega)
    rw [Arguments.tokens, List.length_append, List.length_cons] at hdepth
    rw [Arguments.tokens, List.append_assoc, List.cons_append,
      arguments_expression (e.run (endsExpression_sep _) (by omega)), pushingAll,
      Arguments.values]
    show _ = ((e.value env).bind _).bind _
    rw [Query.bind_assoc]
    refine congrArg (Query.bind _) (funext fun v ↦ ?_)
    show _ = ((args.values env).bind _).bind _
    rw [Query.bind_assoc, arguments_sep, args.run (by omega), pushingAll]
    refine congrArg (Query.bind _) (funext fun vs ↦ ?_)
    show _ = Query.pure ((), _)
    rw [List.reverse_cons, List.append_assoc]
    rfl

end

end Run

end Grammar

end Ixion
