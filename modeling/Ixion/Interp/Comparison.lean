import Ixion.Interp.Arithmetic

/-!
# Comparing sums

An expression has its additive and relational operators on one level, and applies them
from left to right.  Where two sums are compared, the left one is therefore compared with
the first constant of the right one, and the other constants are added to the outcome.
-/

namespace Ixion

open Lib InterpM Arithmetic

namespace Comparison

/-! ## Operators in a row -/

/-- The token of an operator of an expression. -/
def opToken : ExpressionOp → FormulaToken
  | .plus => .plus
  | .minus => .minus
  | .equal => .equal
  | .notEqual => .notEqual
  | .less => .less
  | .lessEqual => .lessEqual
  | .greater => .greater
  | .greaterEqual => .greaterEqual

@[simp] theorem validExpressionOp_opToken (oc : ExpressionOp) :
    validExpressionOp (opToken oc) = some oc := by
  cases oc <;> rfl

/-- The tokens of operators with a constant after each. -/
def opTokens (ops : List (ExpressionOp × ℚ)) : List FormulaToken :=
  ops.flatMap fun x ↦ [opToken x.1, .value x.2]

/-- The value of operators with a constant after each, applied from left to right. -/
def applyOps (v : ℚ) (ops : List (ExpressionOp × ℚ)) : ℚ :=
  ops.foldl (fun v x ↦ compareValues x.1 v x.2) v

theorem endsTerm_opTokens (ops : List (ExpressionOp × ℚ)) : EndsTerm (opTokens ops) := by
  cases ops with
  | nil => exact endsTerm_nil
  | cons x ops => exact endsTerm_of_validExpressionOp (validExpressionOp_opToken x.1) _

@[simp] theorem length_opTokens (ops : List (ExpressionOp × ℚ)) :
    (opTokens ops).length = 2 * ops.length := by
  induction ops with
  | nil => rfl
  | cons x ops ih =>
    show (opTokens ops).length + 1 + 1 = 2 * (ops.length + 1)
    rw [ih]
    omega

variable {env : Interpreter}

/-- A constant is a term. -/
theorem term_const (c : ℚ) {rest : List FormulaToken} (hrest : EndsTerm rest) {depth : Nat}
    (hdepth : 6 ≤ depth) (stack : ValueStack) (outer : List ValueStack) :
    env.term depth ⟨.value c :: rest, stack, outer⟩ = outcome (.ok c) rest stack outer :=
  (Power.factor (.const c)).term_eq (follows_end hrest) hdepth stack outer

theorem expressionRest_opTokens (ops : List (ExpressionOp × ℚ)) {depth : Nat}
    (hdepth : ops.length + 7 ≤ depth) (v : ℚ) (stack : ValueStack) (outer : List ValueStack) :
    env.expressionRest depth ⟨opTokens ops, .value v :: stack, outer⟩ =
      .pure ((), ⟨[], .value (applyOps v ops) :: stack, outer⟩) := by
  induction ops generalizing depth v with
  | nil =>
    obtain ⟨depth, rfl⟩ : ∃ n, depth = n + 1 := ⟨depth - 1, by omega⟩
    exact expressionRest_end rfl ..
  | cons x ops ih =>
    rw [List.length_cons] at hdepth
    obtain ⟨depth, rfl⟩ : ∃ n, depth = n + 1 := ⟨depth - 1, by omega⟩
    have hterm : env.term depth ⟨.value x.2 :: opTokens ops, stack, outer⟩ =
        outcome (.ok x.2) (opTokens ops) stack outer :=
      term_const x.2 (endsTerm_opTokens ops) (by omega) stack outer
    show env.expressionRest (depth + 1)
      ⟨opToken x.1 :: .value x.2 :: opTokens ops, .value v :: stack, outer⟩ = _
    rw [expressionRest_op (validExpressionOp_opToken x.1) hterm]
    exact ih (by omega) _

/-- A formula of constants with additive and relational operators between them is computed
from left to right. -/
theorem formulaInterpreter_opTokens (lib : NumberLib)
    (call : Workbook → AbsAddress → FormulaFunction → StackM Unit) (wb : Workbook)
    {cell : FormulaCell} (pos : AbsAddress) {c : ℚ} {ops : List (ExpressionOp × ℚ)}
    (h : cell.tokens = .value c :: opTokens ops) :
    formulaInterpreter lib call wb cell pos = pure (.value (applyOps c ops)) := by
  have hnames (name : String) : .namedExpression name ∉ cell.tokens := by
    rw [h, List.mem_cons, opTokens, List.mem_flatMap]
    rintro (hname | ⟨⟨oc, c⟩, -, hmem⟩)
    · cases hname
    · cases oc <;> simp [opToken] at hmem
  have hdepth : Interpreter.depthFor (.value c :: opTokens ops) = 10 * ops.length + 9 + 1 := by
    rw [Interpreter.depthFor, List.length_cons, length_opTokens]
    omega
  rw [formulaInterpreter, Interpreter.interpret, wb.expandedTokens_of_noNames _ pos hnames, h]
  show Interpreter.catchErrors (Interpreter.interpretTokens ⟨lib, wb, pos, call wb pos, false⟩ _) =
    _
  rw [Interpreter.interpretTokens, if_neg (List.cons_ne_nil _ _), hdepth, Interpreter.expression,
    InterpM.bind_run, term_const c (endsTerm_opTokens ops) (by omega)]
  rw [outcome_ok]
  show Interpreter.catchErrors (((Interpreter.expressionRest ⟨lib, wb, pos, call wb pos, false⟩
    (10 * ops.length + 9) ⟨opTokens ops, [.value c], []⟩).bind _)) = _
  rw [expressionRest_opTokens ops (by omega)]
  rfl

/-! ## Comparing two sums -/

/-- How a constant of a sum is joined to those before it. -/
inductive Sign where
  | plus
  | minus
deriving DecidableEq, Repr

namespace Sign

/-- The operator of a sign. -/
def op : Sign → ExpressionOp
  | plus => .plus
  | minus => .minus

/-- A number with a sign. -/
def apply : Sign → ℚ → ℚ
  | plus, c => c
  | minus, c => -c

end Sign

/-- The operators that compare. -/
inductive RelationalOp where
  | equal
  | notEqual
  | less
  | lessEqual
  | greater
  | greaterEqual
deriving DecidableEq, Repr

namespace RelationalOp

/-- The operator of an expression. -/
def op : RelationalOp → ExpressionOp
  | equal => .equal
  | notEqual => .notEqual
  | less => .less
  | lessEqual => .lessEqual
  | greater => .greater
  | greaterEqual => .greaterEqual

/-- Whether two numbers stand in the relation. -/
def holds : RelationalOp → ℚ → ℚ → Bool
  | equal, v, w => v = w
  | notEqual, v, w => v ≠ w
  | less, v, w => v < w
  | lessEqual, v, w => v ≤ w
  | greater, v, w => v > w
  | greaterEqual, v, w => v ≥ w

theorem compareValues_op (r : RelationalOp) (v w : ℚ) :
    compareValues r.op v w = boolToNumber (r.holds v w) := by
  cases r <;> rfl

end RelationalOp

/-- A sum of constants. -/
structure Chain where
  first : ℚ
  rest : List (Sign × ℚ)

namespace Chain

/-- The sum of the constants after the first. -/
def restValue (s : Chain) : ℚ := (s.rest.map fun x ↦ x.1.apply x.2).sum

/-- The value of a sum. -/
def value (s : Chain) : ℚ := s.first + s.restValue

/-- The operators and constants after the first constant. -/
def ops (s : Chain) : List (ExpressionOp × ℚ) := s.rest.map fun x ↦ (x.1.op, x.2)

/-- The tokens of a sum. -/
def tokens (s : Chain) : List FormulaToken := .value s.first :: opTokens s.ops

theorem applyOps_ops (s : Chain) (v : ℚ) : applyOps v s.ops = v + s.restValue := by
  obtain ⟨c, rest⟩ := s
  show applyOps v (rest.map fun x ↦ (x.1.op, x.2)) = v + (rest.map fun x ↦ x.1.apply x.2).sum
  induction rest generalizing v with
  | nil => exact (add_zero v).symm
  | cons x rest ih =>
    obtain ⟨sign, c⟩ := x
    have hstep : compareValues sign.op v c = v + sign.apply c := by
      cases sign with
      | plus => rfl
      | minus => exact sub_eq_add_neg v c
    calc applyOps v ((sign.op, c) :: rest.map fun x ↦ (x.1.op, x.2))
      _ = applyOps (v + sign.apply c) (rest.map fun x ↦ (x.1.op, x.2)) := by rw [← hstep]; rfl
      _ = v + sign.apply c + (rest.map fun x ↦ x.1.apply x.2).sum := ih _
      _ = v + ((⟨sign, c⟩ :: rest).map fun x ↦ x.1.apply x.2).sum := by
        rw [add_assoc, List.map_cons, List.sum_cons]

end Chain

/-- The tokens of a comparison. -/
def compareTokens (s₁ : Chain) (r : RelationalOp) (s₂ : Chain) : List FormulaToken :=
  s₁.tokens ++ opToken r.op :: s₂.tokens

/-- The left sum is compared with the first constant of the right one, and the other
constants are added. -/
theorem formulaInterpreter_compare (lib : NumberLib)
    (call : Workbook → AbsAddress → FormulaFunction → StackM Unit) (wb : Workbook)
    {cell : FormulaCell} (pos : AbsAddress) {s₁ s₂ : Chain} {r : RelationalOp}
    (h : cell.tokens = compareTokens s₁ r s₂) :
    formulaInterpreter lib call wb cell pos =
      pure (.value (boolToNumber (r.holds s₁.value s₂.first) + s₂.restValue)) := by
  have htokens : cell.tokens =
      .value s₁.first :: opTokens (s₁.ops ++ (r.op, s₂.first) :: s₂.ops) := by
    rw [h, compareTokens, Chain.tokens, Chain.tokens, opTokens, opTokens, opTokens,
      List.flatMap_append, List.flatMap_cons]
    rfl
  rw [formulaInterpreter_opTokens lib call wb pos htokens, applyOps, List.foldl_append,
    List.foldl_cons]
  show pure (FormulaResult.value
    (applyOps (compareValues r.op (applyOps s₁.first s₁.ops) s₂.first) s₂.ops)) = _
  rw [s₁.applyOps_ops, r.compareValues_op, s₂.applyOps_ops]
  rfl

/-- A comparison is interpreted as one of whole sums. -/
def ComparesSums (lib : NumberLib)
    (call : Workbook → AbsAddress → FormulaFunction → StackM Unit) (wb : Workbook)
    (pos : AbsAddress) (s₁ : Chain) (r : RelationalOp) (s₂ : Chain) : Prop :=
  ∀ cell : FormulaCell, cell.tokens = compareTokens s₁ r s₂ →
    formulaInterpreter lib call wb cell pos =
      pure (.value (boolToNumber (r.holds s₁.value s₂.value)))

/-- The constants after the first one of the right sum make no difference: they cancel out,
or they are 1 or -1 altogether and make up for what the comparison with the first one alone
gets wrong. -/
def RestMakesUp (s₁ : Chain) (r : RelationalOp) (s₂ : Chain) : Prop :=
  s₂.restValue = 0 ∨
    (s₂.restValue = 1 ∧ r.holds s₁.value s₂.first = false ∧
      r.holds s₁.value (s₂.first + 1) = true) ∨
    (s₂.restValue = -1 ∧ r.holds s₁.value s₂.first = true ∧
      r.holds s₁.value (s₂.first - 1) = false)

theorem boolToNumber_add_eq_iff (b b' : Bool) (t : ℚ) :
    boolToNumber b + t = boolToNumber b' ↔
      (t = 0 ∧ b = b') ∨ (t = 1 ∧ b = false ∧ b' = true) ∨ (t = -1 ∧ b = true ∧ b' = false) := by
  cases b <;> cases b' <;> simp [boolToNumber, add_eq_zero_iff_eq_neg']

/-- Two sums are compared as wholes exactly when the constants after the first one of the
right sum make no difference. -/
theorem comparesSums_iff (lib : NumberLib)
    (call : Workbook → AbsAddress → FormulaFunction → StackM Unit) (wb : Workbook)
    (pos : AbsAddress) (s₁ : Chain) (r : RelationalOp) (s₂ : Chain) :
    ComparesSums lib call wb pos s₁ r s₂ ↔ RestMakesUp s₁ r s₂ := by
  have hiff : ComparesSums lib call wb pos s₁ r s₂ ↔
      boolToNumber (r.holds s₁.value s₂.first) + s₂.restValue =
        boolToNumber (r.holds s₁.value s₂.value) := by
    constructor
    · intro h
      have hrun := h ⟨compareTokens s₁ r s₂, -1, -1, 0⟩ rfl
      rw [formulaInterpreter_compare lib call wb pos rfl] at hrun
      exact FormulaResult.value.inj (Query.pure.inj hrun)
    · intro h cell hcell
      rw [formulaInterpreter_compare lib call wb pos hcell, h]
  rw [hiff, boolToNumber_add_eq_iff, RestMakesUp, Chain.value]
  constructor
  · rintro (⟨h, -⟩ | ⟨h, h₁, h₂⟩ | ⟨h, h₁, h₂⟩)
    · exact .inl h
    · exact .inr (.inl ⟨h, h₁, h ▸ h₂⟩)
    · exact .inr (.inr ⟨h, h₁, by rw [sub_eq_add_neg, ← h]; exact h₂⟩)
  · rintro (h | ⟨h, h₁, h₂⟩ | ⟨h, h₁, h₂⟩)
    · exact .inl ⟨h, by rw [Chain.value, h, add_zero]⟩
    · exact .inr (.inl ⟨h, h₁, by rw [Chain.value, h]; exact h₂⟩)
    · exact .inr (.inr ⟨h, h₁, by rw [Chain.value, h, ← sub_eq_add_neg]; exact h₂⟩)

/-- The equation `1=1+1` is interpreted as `(1=1)+1`. -/
theorem not_comparesSums_one :
    ¬ ∀ (lib : NumberLib) (call : Workbook → AbsAddress → FormulaFunction → StackM Unit)
      (wb : Workbook) (pos : AbsAddress) (s₁ : Chain) (r : RelationalOp) (s₂ : Chain),
      ComparesSums lib call wb pos s₁ r s₂ := by
  intro h
  let s₁ : Chain := ⟨1, []⟩
  let s₂ : Chain := ⟨1, [(.plus, 1)]⟩
  let wb : Workbook := (ModelContext.new ⟨1048576, 16384⟩ :
    ModelContext ModelContext.Ranges (ListTree ModelContext.Ranges)).toWorkbook
  have hrun := h .natural (fun _ _ _ ↦ pure ()) wb ⟨0, 0, 0⟩ s₁ .equal s₂
    ⟨compareTokens s₁ .equal s₂, -1, -1, 0⟩ rfl
  rw [formulaInterpreter_compare _ _ _ _ rfl] at hrun
  have hvalue := FormulaResult.value.inj (Query.pure.inj hrun)
  exact absurd hvalue (by decide +kernel)

end Comparison

end Ixion
