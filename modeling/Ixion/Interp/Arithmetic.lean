import Ixion.Interp.Interpreter

/-!
# Arithmetic formulas

The grammar of arithmetic as it is conventionally read: sums of products of powers of
factors.  A sum and a product associate to the left, a power to the right, and a sign
belongs to the factor after it.

The interpreter reads the tokens of a term from the right: what follows an operator is
always a whole term.  `read` says what this comes to, and `interpretTokens_eq` that it is
what the interpreter computes.
-/

namespace Ixion

open Lib InterpM

namespace Arithmetic

mutual

/-- Sums and differences. -/
inductive Sum where
  | product (t : Product)
  | add (s : Sum) (t : Product)
  | sub (s : Sum) (t : Product)

/-- Products and quotients. -/
inductive Product where
  | power (p : Power)
  | mul (t : Product) (p : Power)
  | div (t : Product) (p : Power)

/-- Powers. -/
inductive Power where
  | factor (f : Factor)
  | pow (f : Factor) (p : Power)

/-- Constants, signed factors and sums in parentheses. -/
inductive Factor where
  | const (v : ℚ)
  | plus (f : Factor)
  | minus (f : Factor)
  | paren (s : Sum)

end

/-! ## Tokens -/

mutual

/-- The tokens of a sum. -/
def Sum.tokens : Sum → List FormulaToken
  | .product t => t.tokens
  | .add s t => s.tokens ++ .plus :: t.tokens
  | .sub s t => s.tokens ++ .minus :: t.tokens

/-- The tokens of a product. -/
def Product.tokens : Product → List FormulaToken
  | .power p => p.tokens
  | .mul t p => t.tokens ++ .multiply :: p.tokens
  | .div t p => t.tokens ++ .divide :: p.tokens

/-- The tokens of a power. -/
def Power.tokens : Power → List FormulaToken
  | .factor f => f.tokens
  | .pow f p => f.tokens ++ .exponent :: p.tokens

/-- The tokens of a factor. -/
def Factor.tokens : Factor → List FormulaToken
  | .const v => [.value v]
  | .plus f => .plus :: f.tokens
  | .minus f => .minus :: f.tokens
  | .paren s => .parenOpen :: s.tokens ++ [.parenClose]

end

/-! ## The conventional value -/

/-- Divide by a number that is not 0. -/
def divide (v w : ℚ) : Except FormulaError ℚ :=
  if w = 0 then .error .divisionByZero else .ok (v / w)

mutual

/-- The value of a sum. -/
def Sum.value : Sum → Except FormulaError ℚ
  | .product t => t.value
  | .add s t => return (← s.value) + (← t.value)
  | .sub s t => return (← s.value) - (← t.value)

/-- The value of a product. -/
def Product.value : Product → Except FormulaError ℚ
  | .power p => p.value
  | .mul t p => return (← t.value) * (← p.value)
  | .div t p => do divide (← t.value) (← p.value)

/-- The value of a power, whose exponent is meant to be a natural number. -/
def Power.value : Power → Except FormulaError ℚ
  | .factor f => f.value
  | .pow f p => return (← f.value) ^ (← p.value).num.toNat

/-- The value of a factor. -/
def Factor.value : Factor → Except FormulaError ℚ
  | .const v => .ok v
  | .plus f => f.value
  | .minus f => return -(← f.value)
  | .paren s => s.value

end

/-! ## The value that is computed -/

/-- A factor that begins with a sign. -/
def Factor.signed : Factor → Bool
  | .plus _ | .minus _ => true
  | .const _ | .paren _ => false

/-- The name of the sign that a factor begins with. -/
def Factor.signName : Factor → String
  | .plus _ => "plus"
  | .minus _ => "minus"
  | .const _ | .paren _ => ""

/-- The exception for a second sign. -/
def secondSign (f : Factor) : Exn :=
  .invalidExpression s!"factor: unexpected token type: <{f.signName}>"

/-- Apply an operator of a term. -/
def applyOp (lib : NumberLib) (op : TermOp) (v w : ℚ) : Except Exn ℚ :=
  match op.apply lib v w with
  | .ok r => .ok r
  | .error e => .error (.formulaError e)

section

variable (lib : NumberLib)

mutual

/-- What is computed for a sum. -/
def Sum.read : Sum → Except Exn ℚ
  | .product t => t.readWith .ok
  | .add s t => return (← s.read) + (← t.readWith .ok)
  | .sub s t => return (← s.read) - (← t.readWith .ok)

/-- What is computed for a product and what follows it, which is applied to its last
factor. -/
def Product.readWith : Product → (ℚ → Except Exn ℚ) → Except Exn ℚ
  | .power p, k => p.readWith k
  | .mul t p, k => t.readWith fun v ↦ do applyOp lib .multiply v (← p.readWith k)
  | .div t p, k => t.readWith fun v ↦ do applyOp lib .divide v (← p.readWith k)

/-- What is computed for a power and what follows it, which is applied to its last
factor. -/
def Power.readWith : Power → (ℚ → Except Exn ℚ) → Except Exn ℚ
  | .factor f, k => f.read >>= k
  | .pow f p, k => do applyOp lib .exponent (← f.read) (← p.readWith k)

/-- What is computed for a factor. -/
def Factor.read : Factor → Except Exn ℚ
  | .const v => .ok v
  | .plus f => if f.signed then .error (secondSign f) else f.read
  | .minus f => if f.signed then .error (secondSign f) else return (← f.read) * -1
  | .paren s => s.read

end

end

end Arithmetic

/-! ## Running the interpreter -/

namespace InterpM

variable {α β : Type} {s : InterpState}

@[simp] theorem bind_run (x : InterpM α) (f : α → InterpM β) (s : InterpState) :
    (x >>= f) s = (x s).bind fun p ↦ f p.1 p.2 := rfl

@[simp] theorem pure_run (a : α) (s : InterpState) : (pure a : InterpM α) s = .pure (a, s) := rfl

@[simp] theorem next_apply (s : InterpState) :
    next s = .pure ((), { s with tokens := s.tokens.tail }) := rfl

@[simp] theorem token?_apply (s : InterpState) : token? s = .pure (s.tokens.head?, s) := rfl

@[simp] theorem push_apply (v : StackValue) (s : InterpState) :
    push v s = .pure ((), { s with stack := v :: s.stack }) := rfl

@[simp] theorem raise_apply (e : Exn) (s : InterpState) :
    (raise e : InterpM α) s = .throw (.exception e) := rfl

@[simp] theorem invalid_apply (msg : String) (s : InterpState) :
    (invalid msg : InterpM α) s = .throw (.exception (.invalidExpression msg)) := rfl

/-- What a step comes to that pushes a number, or throws. -/
def outcome (r : Except Exn ℚ) (rest : List FormulaToken) (stack : ValueStack)
    (outer : List ValueStack) : Reader (Unit × InterpState) :=
  match r with
  | .ok v => .pure ((), ⟨rest, .value v :: stack, outer⟩)
  | .error e => .throw (.exception e)

@[simp] theorem outcome_ok (v : ℚ) (rest : List FormulaToken) (stack : ValueStack)
    (outer : List ValueStack) :
    outcome (.ok v) rest stack outer = .pure ((), ⟨rest, .value v :: stack, outer⟩) := rfl

@[simp] theorem outcome_error (e : Exn) (rest : List FormulaToken) (stack : ValueStack)
    (outer : List ValueStack) :
    outcome (.error e) rest stack outer = .throw (.exception e) := rfl

end InterpM

namespace Arithmetic

/-- The token of an operator of a term. -/
def opToken : TermOp → FormulaToken
  | .multiply => .multiply
  | .exponent => .exponent
  | .divide => .divide

variable {env : Interpreter}

/-- What `term` does after its first factor. -/
def termRest (env : Interpreter) (depth : Nat) : InterpM Unit := do
  let arithmetic (op : TermOp) : InterpM Unit := do
    let v1 ← onStack (ValueStack.popMatrixOrNumeric env.workbook.sheetSize)
    next
    env.term depth
    let v2 ← onStack (ValueStack.popMatrixOrNumeric env.workbook.sheetSize)
    env.applyTermOp op v1 v2
  match ← token? with
  | some .multiply => arithmetic .multiply
  | some .exponent => arithmetic .exponent
  | some .concat =>
    let lhs ← onStack (ValueStack.popMatrixOrString env.lib env.workbook.sheetSize)
    next
    env.term depth
    let rhs ← onStack (ValueStack.popMatrixOrString env.lib env.workbook.sheetSize)
    match concatMatrixOrString env.lib lhs rhs with
    | .ok v => push v.toStackValue
    | .error e => raise e
  | some .divide => arithmetic .divide
  | _ => return ()

theorem term_succ (depth : Nat) (s : InterpState) :
    env.term (depth + 1) s = (env.factor depth s).bind fun p ↦ termRest env depth p.2 := by
  rw [Interpreter.term]
  rfl

/-- What follows a factor is applied to its value by `k`. -/
def Follows (env : Interpreter) (d : Nat) (rest : List FormulaToken) (k : ℚ → Except Exn ℚ)
    (rest' : List FormulaToken) : Prop :=
  ∀ depth, d ≤ depth → ∀ v stack outer,
    termRest env depth ⟨rest, .value v :: stack, outer⟩ = outcome (k v) rest' stack outer

/-- A term ends before a token that is none of its operators. -/
def EndsTerm (rest : List FormulaToken) : Prop :=
  ∀ t ∈ rest.head?, t ≠ .multiply ∧ t ≠ .exponent ∧ t ≠ .concat ∧ t ≠ .divide

theorem endsTerm_nil : EndsTerm [] := fun _ ht ↦ by cases ht

theorem endsTerm_cons {t : FormulaToken}
    (h : t ≠ .multiply ∧ t ≠ .exponent ∧ t ≠ .concat ∧ t ≠ .divide) (rest : List FormulaToken) :
    EndsTerm (t :: rest) := by
  intro t' ht
  cases ht
  exact h

theorem endsTerm_parenClose (rest : List FormulaToken) : EndsTerm (.parenClose :: rest) :=
  endsTerm_cons (t := .parenClose) ⟨nofun, nofun, nofun, nofun⟩ rest

theorem endsTerm_of_validExpressionOp {t : FormulaToken} {oc : ExpressionOp}
    (h : validExpressionOp t = some oc) (rest : List FormulaToken) : EndsTerm (t :: rest) := by
  refine endsTerm_cons ⟨?_, ?_, ?_, ?_⟩ rest <;> rintro rfl <;> cases h

theorem follows_end {rest : List FormulaToken} (h : EndsTerm rest) :
    Follows env 0 rest .ok rest := by
  intro depth _ v stack outer
  cases rest with
  | nil => rfl
  | cons t rest =>
    obtain ⟨h₁, h₂, h₃, h₄⟩ := h t rfl
    cases t <;> first | rfl | contradiction

/-- An operator is applied to the value before it and that of the term after it. -/
theorem follows_op {d : Nat} {tokens rest' : List FormulaToken} {r : Except Exn ℚ} (op : TermOp)
    (h : ∀ depth, d ≤ depth → ∀ stack outer,
      env.term depth ⟨tokens, stack, outer⟩ = outcome r rest' stack outer) :
    Follows env d (opToken op :: tokens) (fun v ↦ do applyOp env.lib op v (← r)) rest' := by
  intro depth hdepth v stack outer
  have hrun : termRest env depth ⟨opToken op :: tokens, .value v :: stack, outer⟩ =
      (env.term depth ⟨tokens, stack, outer⟩).bind fun p ↦
        (onStack (ValueStack.popMatrixOrNumeric env.workbook.sheetSize) p.2).bind fun q ↦
          env.applyTermOp op (.numeric v) q.1 q.2 := by
    cases op <;> rfl
  rw [hrun, h depth hdepth]
  cases r with
  | error e => rfl
  | ok w =>
    show env.applyTermOp op (.numeric v) (.numeric w) ⟨rest', stack, outer⟩ =
      outcome (applyOp env.lib op v w) rest' stack outer
    rw [Interpreter.applyTermOp, opMatrixOrNumeric, applyOp]
    cases op.apply env.lib v w <;> rfl

/-- How many operators a sum has outside of its terms. -/
def Sum.ops : Sum → Nat
  | .product _ => 0
  | .add s _ | .sub s _ => s.ops + 1

theorem Sum.ops_le_length (s : Sum) : s.ops ≤ s.tokens.length := by
  cases s with
  | product t => exact Nat.zero_le _
  | add s t =>
    have := s.ops_le_length
    simp only [Sum.ops, Sum.tokens, List.length_append, List.length_cons]
    omega
  | sub s t =>
    have := s.ops_le_length
    simp only [Sum.ops, Sum.tokens, List.length_append, List.length_cons]
    omega

/-- What `factor` does after a sign that may be there. -/
def operand (env : Interpreter) (depth : Nat) : InterpM Unit := do
  match ← tokenOrThrow with
  | .parenOpen => env.paren depth
  | .namedExpression _ => raise (.formulaError .generalError)
  | .value v => next; push (.value v)
  | .error e => next; push (.error e)
  | .singleRef addr => env.singleRef addr
  | .rangeRef range => env.rangeRef range
  | .tableRef table => env.tableRef table
  | .function func => env.function depth func
  | .string sid => env.literal sid
  | .arrayOpen =>
    next
    env.arrayElements depth ⟨[], [], 0, 0, none, .arrayOpen⟩
  | t => invalid s!"factor: unexpected token type: <{Interpreter.opcodeName t}>"

theorem factor_succ (depth : Nat) (s : InterpState) :
    env.factor (depth + 1) s = (Interpreter.sign s).bind fun p ↦
      (operand env depth p.2).bind fun q ↦
        (if p.1 then do
          let v ← onStack ValueStack.popValue
          push (.value (v * -1)) else pure () : InterpM Unit) q.2 := by
  rw [Interpreter.factor]
  rfl

/-- A factor that does not begin with a sign begins with a constant or a parenthesis. -/
theorem sign_unsigned {f : Factor} (hf : f.signed = false) (rest : List FormulaToken)
    (stack : ValueStack) (outer : List ValueStack) :
    Interpreter.sign ⟨f.tokens ++ rest, stack, outer⟩ =
      .pure (false, ⟨f.tokens ++ rest, stack, outer⟩) := by
  cases f with
  | const v => rfl
  | paren s => rfl
  | plus f => cases hf
  | minus f => cases hf

theorem Factor.tokens_ne_nil (f : Factor) : f.tokens ≠ [] := by
  cases f <;> exact List.cons_ne_nil _ _

theorem sign_plus (f : Factor) (rest : List FormulaToken) (stack : ValueStack)
    (outer : List ValueStack) :
    Interpreter.sign ⟨.plus :: f.tokens ++ rest, stack, outer⟩ =
      .pure (false, ⟨f.tokens ++ rest, stack, outer⟩) := by
  cases f <;> rfl

theorem sign_minus (f : Factor) (rest : List FormulaToken) (stack : ValueStack)
    (outer : List ValueStack) :
    Interpreter.sign ⟨.minus :: f.tokens ++ rest, stack, outer⟩ =
      .pure (true, ⟨f.tokens ++ rest, stack, outer⟩) := by
  cases f <;> rfl

/-- A second sign is not accepted. -/
theorem operand_signed {f : Factor} (hf : f.signed = true) (depth : Nat)
    (rest : List FormulaToken) (stack : ValueStack) (outer : List ValueStack) :
    operand env depth ⟨f.tokens ++ rest, stack, outer⟩ =
      .throw (.exception (secondSign f)) := by
  cases f with
  | const v => cases hf
  | paren s => cases hf
  | plus f => rfl
  | minus f => rfl

theorem factor_of_unsigned {f : Factor} (hf : f.signed = false) {depth : Nat}
    {rest : List FormulaToken} {stack : ValueStack} {outer : List ValueStack}
    {r : Except Exn ℚ} (h : operand env depth ⟨f.tokens ++ rest, stack, outer⟩ =
      outcome r rest stack outer) :
    env.factor (depth + 1) ⟨f.tokens ++ rest, stack, outer⟩ = outcome r rest stack outer := by
  rw [factor_succ, sign_unsigned hf]
  show (operand env depth ⟨f.tokens ++ rest, stack, outer⟩).bind _ = _
  rw [h]
  cases r <;> rfl

/-- An expression ends before a token that is none of its operators. -/
theorem expressionRest_end {rest : List FormulaToken}
    (hrest : rest.head?.bind validExpressionOp = none) (depth : Nat) (stack : ValueStack)
    (outer : List ValueStack) :
    env.expressionRest (depth + 1) ⟨rest, stack, outer⟩ = .pure ((), ⟨rest, stack, outer⟩) := by
  rw [Interpreter.expressionRest, bind_run, token?_apply, Query.bind]
  dsimp only
  rw [hrest]
  rfl

/-- An operator is applied to the value so far and that of the term after it. -/
theorem expressionRest_op {oc : ExpressionOp} {t : FormulaToken}
    (ht : validExpressionOp t = some oc) {depth : Nat} {tokens rest : List FormulaToken}
    {v : ℚ} {r : Except Exn ℚ} {stack : ValueStack} {outer : List ValueStack}
    (h : env.term depth ⟨tokens, stack, outer⟩ = outcome r rest stack outer) :
    env.expressionRest (depth + 1) ⟨t :: tokens, .value v :: stack, outer⟩ =
      (outcome (compareValues oc v <$> r) rest stack outer).bind fun p ↦
        env.expressionRest depth p.2 := by
  rw [Interpreter.expressionRest, bind_run, token?_apply, Query.bind]
  dsimp only
  rw [List.head?_cons, Option.bind_some, ht]
  show (env.term depth ⟨tokens, stack, outer⟩).bind _ = _
  rw [h]
  cases r with
  | error e => rfl
  | ok w =>
    rfl

/-- A sum in parentheses. -/
theorem operand_paren {s : Sum} {depth : Nat} {rest : List FormulaToken} {stack : ValueStack}
    {outer : List ValueStack} (hdepth : 5 * s.tokens.length + 9 ≤ depth)
    (h : ∀ n, 5 * s.tokens.length + 3 ≤ n + s.ops + 1 →
      env.expression (n + s.ops + 1) ⟨s.tokens ++ .parenClose :: rest, stack, outer⟩ =
      (outcome (s.read env.lib) (.parenClose :: rest) stack outer).bind fun p ↦
        env.expressionRest n p.2) :
    operand env depth ⟨(Factor.paren s).tokens ++ rest, stack, outer⟩ =
      outcome (s.read env.lib) rest stack outer := by
  have hops := s.ops_le_length
  obtain ⟨n, rfl⟩ : ∃ n, depth = (n + 1 + s.ops + 1) + 1 := ⟨depth - s.ops - 3, by omega⟩
  rw [Factor.tokens, List.cons_append, List.cons_append, List.append_assoc,
    List.singleton_append]
  show env.paren (n + 1 + s.ops + 1 + 1) ⟨_, stack, outer⟩ = _
  rw [Interpreter.paren]
  show (env.expression (n + 1 + s.ops + 1)
    ⟨s.tokens ++ .parenClose :: rest, stack, outer⟩).bind _ = _
  rw [h (n + 1) (by omega)]
  cases s.read env.lib with
  | error e => rfl
  | ok v =>
    rw [outcome_ok]
    show ((env.expressionRest (n + 1) ⟨.parenClose :: rest, .value v :: stack, outer⟩).bind _) = _
    rw [expressionRest_end rfl]
    rfl

mutual

theorem Factor.operand_eq (f : Factor) (hf : f.signed = false) {depth : Nat}
    (hdepth : 5 * f.tokens.length ≤ depth + 1) (rest : List FormulaToken) (stack : ValueStack)
    (outer : List ValueStack) :
    operand env depth ⟨f.tokens ++ rest, stack, outer⟩ =
      outcome (f.read env.lib) rest stack outer := by
  cases f with
  | const v => rfl
  | plus f => cases hf
  | minus f => cases hf
  | paren s =>
    rw [Factor.tokens, List.length_append, List.length_cons, List.length_singleton] at hdepth
    exact operand_paren (by omega) fun n hn ↦
      s.expression_eq (endsTerm_parenClose rest) n hn stack outer

/-- What `factor` computes. -/
theorem Factor.factor_eq (f : Factor) {depth : Nat} (hdepth : 5 * f.tokens.length ≤ depth)
    (rest : List FormulaToken) (stack : ValueStack) (outer : List ValueStack) :
    env.factor depth ⟨f.tokens ++ rest, stack, outer⟩ =
      outcome (f.read env.lib) rest stack outer := by
  have hlength : 0 < f.tokens.length := List.length_pos_of_ne_nil f.tokens_ne_nil
  obtain ⟨depth, rfl⟩ : ∃ n, depth = n + 1 := ⟨depth - 1, by omega⟩
  cases f with
  | const v => exact factor_of_unsigned (f := .const v) rfl rfl
  | paren s =>
    rw [Factor.tokens, List.length_append, List.length_cons, List.length_singleton] at hdepth
    exact factor_of_unsigned rfl (operand_paren (by omega) fun n hn ↦
      s.expression_eq (endsTerm_parenClose rest) n hn stack outer)
  | plus f =>
    rw [Factor.tokens, List.length_cons] at hdepth
    rw [factor_succ, Factor.tokens, sign_plus, Factor.read]
    show (operand env depth ⟨f.tokens ++ rest, stack, outer⟩).bind _ = _
    cases hf : f.signed with
    | true =>
      rw [operand_signed hf]
      rfl
    | false =>
      rw [f.operand_eq hf (by omega)]
      cases f.read env.lib <;> rfl
  | minus f =>
    rw [Factor.tokens, List.length_cons] at hdepth
    rw [factor_succ, Factor.tokens, sign_minus, Factor.read]
    show (operand env depth ⟨f.tokens ++ rest, stack, outer⟩).bind _ = _
    cases hf : f.signed with
    | true =>
      rw [operand_signed hf]
      rfl
    | false =>
      rw [f.operand_eq hf (by omega)]
      cases f.read env.lib <;> rfl

theorem Power.term_eq (p : Power) {d : Nat} {rest rest' : List FormulaToken}
    {k : ℚ → Except Exn ℚ} (hrest : Follows env d rest k rest') {depth : Nat}
    (hdepth : 5 * p.tokens.length + d + 1 ≤ depth) (stack : ValueStack)
    (outer : List ValueStack) :
    env.term depth ⟨p.tokens ++ rest, stack, outer⟩ =
      outcome (p.readWith env.lib k) rest' stack outer := by
  obtain ⟨depth, rfl⟩ : ∃ n, depth = n + 1 := ⟨depth - 1, by omega⟩
  cases p with
  | factor f =>
    rw [Power.tokens] at hdepth ⊢
    rw [term_succ, f.factor_eq (by omega), Power.readWith]
    cases f.read env.lib with
    | error e => rfl
    | ok v => exact hrest depth (by omega) v stack outer
  | pow f p =>
    rw [Power.tokens, List.length_append, List.length_cons] at hdepth
    rw [Power.tokens, List.append_assoc, List.cons_append, term_succ, f.factor_eq (by omega),
      Power.readWith]
    have hop := follows_op .exponent
      fun depth (hdepth : 5 * p.tokens.length + d + 1 ≤ depth) stack outer ↦
        p.term_eq hrest hdepth stack outer
    cases f.read env.lib with
    | error e => rfl
    | ok v => exact hop depth (by omega) v stack outer

theorem Product.term_eq (t : Product) {d : Nat} {rest rest' : List FormulaToken}
    {k : ℚ → Except Exn ℚ} (hrest : Follows env d rest k rest') {depth : Nat}
    (hdepth : 5 * t.tokens.length + d + 1 ≤ depth) (stack : ValueStack)
    (outer : List ValueStack) :
    env.term depth ⟨t.tokens ++ rest, stack, outer⟩ =
      outcome (t.readWith env.lib k) rest' stack outer := by
  cases t with
  | power p => exact p.term_eq hrest hdepth stack outer
  | mul t p =>
    rw [Product.tokens, List.length_append, List.length_cons] at hdepth
    rw [Product.tokens, List.append_assoc, List.cons_append]
    have hop := follows_op .multiply
      fun depth (hdepth : 5 * p.tokens.length + d + 1 ≤ depth) stack outer ↦
        p.term_eq hrest hdepth stack outer
    exact t.term_eq hop (by omega) stack outer
  | div t p =>
    rw [Product.tokens, List.length_append, List.length_cons] at hdepth
    rw [Product.tokens, List.append_assoc, List.cons_append]
    have hop := follows_op .divide
      fun depth (hdepth : 5 * p.tokens.length + d + 1 ≤ depth) stack outer ↦
        p.term_eq hrest hdepth stack outer
    exact t.term_eq hop (by omega) stack outer

/-- What `expression` computes before it comes to the end of a sum. -/
theorem Sum.expression_eq (s : Sum) {rest : List FormulaToken} (hrest : EndsTerm rest)
    (depth : Nat) (hdepth : 5 * s.tokens.length + 3 ≤ depth + s.ops + 1) (stack : ValueStack)
    (outer : List ValueStack) :
    env.expression (depth + s.ops + 1) ⟨s.tokens ++ rest, stack, outer⟩ =
      (outcome (s.read env.lib) rest stack outer).bind fun p ↦ env.expressionRest depth p.2 := by
  cases s with
  | product t =>
    rw [Sum.tokens] at hdepth ⊢
    rw [Sum.read, Sum.ops, Nat.add_zero]
    rw [Sum.ops] at hdepth
    rw [Interpreter.expression, bind_run,
      t.term_eq (follows_end hrest) (by omega) stack outer]
  | add s t =>
    have hops := s.ops_le_length
    rw [Sum.tokens, List.length_append, List.length_cons, Sum.ops] at hdepth
    rw [Sum.tokens, List.append_assoc, List.cons_append, Sum.ops,
      show depth + (s.ops + 1) + 1 = (depth + 1) + s.ops + 1 by omega]
    rw [s.expression_eq (endsTerm_of_validExpressionOp rfl _) (depth + 1) (by omega) stack
      outer, Sum.read]
    cases s.read env.lib with
    | error e => rfl
    | ok v =>
      have hterm : env.term depth ⟨t.tokens ++ rest, stack, outer⟩ =
          outcome (t.readWith env.lib .ok) rest stack outer :=
        t.term_eq (follows_end hrest) (by omega) stack outer
      show env.expressionRest (depth + 1) ⟨.plus :: (t.tokens ++ rest), .value v :: stack, outer⟩
        = _
      rw [expressionRest_op rfl hterm]
      rfl
  | sub s t =>
    have hops := s.ops_le_length
    rw [Sum.tokens, List.length_append, List.length_cons, Sum.ops] at hdepth
    rw [Sum.tokens, List.append_assoc, List.cons_append, Sum.ops,
      show depth + (s.ops + 1) + 1 = (depth + 1) + s.ops + 1 by omega]
    rw [s.expression_eq (endsTerm_of_validExpressionOp rfl _) (depth + 1) (by omega) stack
      outer, Sum.read]
    cases s.read env.lib with
    | error e => rfl
    | ok v =>
      have hterm : env.term depth ⟨t.tokens ++ rest, stack, outer⟩ =
          outcome (t.readWith env.lib .ok) rest stack outer :=
        t.term_eq (follows_end hrest) (by omega) stack outer
      show env.expressionRest (depth + 1) ⟨.minus :: (t.tokens ++ rest), .value v :: stack, outer⟩
        = _
      rw [expressionRest_op rfl hterm]
      rfl

end

/-! ## The result of an arithmetic formula -/

mutual

theorem Sum.noNames (s : Sum) (name : String) : .namedExpression name ∉ s.tokens := by
  cases s with
  | product t => exact t.noNames name
  | add s t => simp [Sum.tokens, s.noNames name, t.noNames name]
  | sub s t => simp [Sum.tokens, s.noNames name, t.noNames name]

theorem Product.noNames (t : Product) (name : String) : .namedExpression name ∉ t.tokens := by
  cases t with
  | power p => exact p.noNames name
  | mul t p => simp [Product.tokens, t.noNames name, p.noNames name]
  | div t p => simp [Product.tokens, t.noNames name, p.noNames name]

theorem Power.noNames (p : Power) (name : String) : .namedExpression name ∉ p.tokens := by
  cases p with
  | factor f => exact f.noNames name
  | pow f p => simp [Power.tokens, f.noNames name, p.noNames name]

theorem Factor.noNames (f : Factor) (name : String) : .namedExpression name ∉ f.tokens := by
  cases f with
  | const v => simp [Factor.tokens]
  | plus f => simp [Factor.tokens, f.noNames name]
  | minus f => simp [Factor.tokens, f.noNames name]
  | paren s => simp [Factor.tokens, s.noNames name]

end

/-- A value, or one of the ways in which the computation of a sum can fail. -/
def FailsWell (r : Except Exn ℚ) : Prop :=
  ∀ e, r = .error e → e = .formulaError .divisionByZero ∨ ∃ msg, e = .invalidExpression msg

theorem failsWell_ok (v : ℚ) : FailsWell (.ok v) := nofun

theorem FailsWell.bind {r : Except Exn ℚ} {f : ℚ → Except Exn ℚ} (hr : FailsWell r)
    (hf : ∀ v, FailsWell (f v)) : FailsWell (r >>= f) := by
  cases r with
  | ok v => exact hf v
  | error e => exact hr

theorem failsWell_secondSign (f : Factor) : FailsWell (.error (secondSign f)) := by
  rintro e ⟨⟩
  exact .inr ⟨_, rfl⟩

theorem failsWell_applyOp (lib : NumberLib) (op : TermOp) (v w : ℚ) :
    FailsWell (applyOp lib op v w) := by
  cases op with
  | multiply => exact failsWell_ok _
  | exponent => exact failsWell_ok _
  | divide =>
    rw [applyOp, TermOp.apply]
    split_ifs with hw
    · rintro e ⟨⟩
      exact .inl rfl
    · exact failsWell_ok _

section

variable (lib : NumberLib)

mutual

theorem Sum.failsWell (s : Sum) : FailsWell (s.read lib) := by
  cases s with
  | product t => exact t.failsWell failsWell_ok
  | add s t =>
    exact s.failsWell.bind fun _ ↦ (t.failsWell failsWell_ok).bind fun _ ↦ failsWell_ok _
  | sub s t =>
    exact s.failsWell.bind fun _ ↦ (t.failsWell failsWell_ok).bind fun _ ↦ failsWell_ok _

theorem Product.failsWell (t : Product) {k : ℚ → Except Exn ℚ} (hk : ∀ v, FailsWell (k v)) :
    FailsWell (t.readWith lib k) := by
  cases t with
  | power p => exact p.failsWell hk
  | mul t p => exact t.failsWell fun v ↦ (p.failsWell hk).bind fun w ↦ failsWell_applyOp lib _ v w
  | div t p => exact t.failsWell fun v ↦ (p.failsWell hk).bind fun w ↦ failsWell_applyOp lib _ v w

theorem Power.failsWell (p : Power) {k : ℚ → Except Exn ℚ} (hk : ∀ v, FailsWell (k v)) :
    FailsWell (p.readWith lib k) := by
  cases p with
  | factor f => exact f.failsWell.bind hk
  | pow f p =>
    exact f.failsWell.bind fun v ↦ (p.failsWell hk).bind fun w ↦ failsWell_applyOp lib _ v w

theorem Factor.failsWell (f : Factor) : FailsWell (f.read lib) := by
  cases f with
  | const v => exact failsWell_ok v
  | paren s => exact s.failsWell
  | plus f =>
    rw [Factor.read]
    split_ifs
    · exact failsWell_secondSign f
    · exact f.failsWell
  | minus f =>
    rw [Factor.read]
    split_ifs
    · exact failsWell_secondSign f
    · exact f.failsWell.bind fun _ ↦ failsWell_ok _

end

end

theorem Sum.tokens_ne_nil (s : Sum) : s.tokens ≠ [] := by
  cases s with
  | product t =>
    cases t with
    | power p =>
      cases p with
      | factor f => exact f.tokens_ne_nil
      | pow f p => exact List.append_ne_nil_of_right_ne_nil _ (List.cons_ne_nil _ _)
    | mul t p => exact List.append_ne_nil_of_right_ne_nil _ (List.cons_ne_nil _ _)
    | div t p => exact List.append_ne_nil_of_right_ne_nil _ (List.cons_ne_nil _ _)
  | add s t => exact List.append_ne_nil_of_right_ne_nil _ (List.cons_ne_nil _ _)
  | sub s t => exact List.append_ne_nil_of_right_ne_nil _ (List.cons_ne_nil _ _)

/-- The result of a formula for what is computed. -/
def resultOf : Except Exn ℚ → FormulaResult
  | .ok v => .value v
  | .error (.formulaError e) => .error e
  | .error _ => .error .invalidExpression

theorem interpretTokens_eq (s : Sum) :
    env.interpretTokens s.tokens = (outcome (s.read env.lib) [] [] []).bind fun p ↦
      Interpreter.topResult p.2.stack := by
  have hops := s.ops_le_length
  obtain ⟨n, hn⟩ : ∃ n, Interpreter.depthFor s.tokens = n + 1 + s.ops + 1 :=
    ⟨5 * s.tokens.length + 5 - s.ops - 2, by rw [Interpreter.depthFor]; omega⟩
  have hdepth : 5 * s.tokens.length + 5 = n + 1 + s.ops + 1 := hn
  have hrun : env.expression (n + 1 + s.ops + 1) ⟨s.tokens, [], []⟩ =
      (outcome (s.read env.lib) [] [] []).bind fun p ↦ env.expressionRest (n + 1) p.2 := by
    rw [← s.expression_eq endsTerm_nil (n + 1) (by omega), List.append_nil]
  rw [Interpreter.interpretTokens, if_neg s.tokens_ne_nil, hn, hrun]
  cases s.read env.lib with
  | error e => rfl
  | ok v =>
    rw [outcome_ok]
    show ((env.expressionRest (n + 1) ⟨[], [.value v], []⟩).bind _).bind _ = _
    rw [expressionRest_end rfl]
    exact env.popResult_singleton (.value v)

/-- An arithmetic formula is interpreted as it is read from the right. -/
theorem formulaInterpreter_eq (lib : NumberLib)
    (call : Workbook → AbsAddress → FormulaFunction → StackM Unit) (wb : Workbook)
    {cell : FormulaCell} (pos : AbsAddress) {s : Sum} (h : cell.tokens = s.tokens) :
    formulaInterpreter lib call wb cell pos = pure (resultOf (s.read lib)) := by
  rw [formulaInterpreter, Interpreter.interpret,
    wb.expandedTokens_of_noNames _ pos (by rw [h]; exact s.noNames), h]
  show Interpreter.catchErrors (Interpreter.interpretTokens _ s.tokens) = _
  rw [interpretTokens_eq]
  show Interpreter.catchErrors ((outcome (s.read lib) [] [] []).bind _) = _
  cases hs : s.read lib with
  | ok v => rfl
  | error e =>
    obtain rfl | ⟨msg, rfl⟩ := s.failsWell lib e hs <;> rfl

end Arithmetic

end Ixion
