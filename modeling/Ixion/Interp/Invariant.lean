import Ixion.Interp.Interpreter

/-!
# Invariants of an interpretation

What an interpretation asks and throws, and what is on its stacks, is a matter of a few
operations: of the values that are popped, of the references that are pushed, of the operators
and of the functions that are called.  A policy says what is allowed, and where each of these
keeps to it the whole grammar does (`Policy.soundAt`).
-/

namespace Ixion

open Lib Query Workbook InterpM

/-- A value that does not refer to cells. -/
def StackValue.IsPlain : StackValue → Prop
  | .singleRef _ | .rangeRef _ => False
  | _ => True

/-- The operators of an expression make values that refer to nothing. -/
theorem isPlain_of_compare {oc : ExpressionOp} {v w r : StackValue}
    (h : compare oc v w = .ok r) : r.IsPlain := by
  have hvalue : ∀ x : Except Exn ℚ, (do return StackValue.value (← x)) = .ok r → r.IsPlain := by
    rintro (e | q) hx
    · exact absurd hx nofun
    · cases hx
      trivial
  unfold compare at h
  split at h
  case h_2 => exact hvalue _ h
  case h_5 => exact hvalue _ h
  case h_6 => exact hvalue _ h
  case h_9 => exact absurd h nofun
  all_goals
    cases h
    trivial

theorem ResolvedStackValue.isPlain_toStackValue (v : ResolvedStackValue) :
    v.toStackValue.IsPlain := by
  cases v <;> trivial

/-- What an interpretation may ask and throw, and the values that it may have on its
stacks. -/
structure Policy where
  asks : Question → Prop
  throws : Failure → Prop
  value : StackValue → Prop

namespace Policy

/-- The texts of the assertions about the sizes of stacks. -/
def sizeAssertions : List String :=
  ["get_stack().size() == 1", "m_stacks.size() >= 2", "m_stacks.back().size() == 1"]

/-- A computation on a stack keeps to a policy. -/
abbrev OnStack {α : Type} (p : Policy) (x : StackM α) : Prop :=
  Keeps p.asks p.throws (fun stack : ValueStack ↦ ∀ v ∈ stack, p.value v) (fun _ ↦ True) x

/-- The tokens to come are among those of the formula, and the values on the stacks are
allowed. -/
structure Holds (p : Policy) (tokens : List FormulaToken) (s : InterpState) : Prop where
  tokens : s.tokens ⊆ tokens
  stack : ∀ v ∈ s.stack, p.value v
  outer : ∀ stack ∈ s.outer, ∀ v ∈ stack, p.value v

/-- A part of an interpretation keeps to a policy. -/
abbrev Sound {α : Type} (p : Policy) (tokens : List FormulaToken) (Q : α → Prop)
    (x : InterpM α) : Prop :=
  Keeps p.asks p.throws (p.Holds tokens) Q x

/-- The operations of an interpreter on the tokens of a formula keep to a policy. -/
structure Allows (p : Policy) (env : Interpreter) (tokens : List FormulaToken) : Prop where
  invalid : ∀ msg, p.throws (.exception (.invalidExpression msg))
  noString : p.throws (.exception (.generalError "no string found for the specified string ID."))
  generalError : p.throws (.exception (.formulaError .generalError))
  stackOverflow : p.throws .stackOverflow
  undefined : p.throws .undefined
  assertion : env.assertions = true → ∀ expr ∈ sizeAssertions, p.throws (.assertionFailed expr)
  plain : ∀ v : StackValue, v.IsPlain → p.value v
  popStackValue : p.OnStack (ValueStack.popStackValue env.workbook.sheetSize)
  popMatrixOrNumeric : p.OnStack (ValueStack.popMatrixOrNumeric env.workbook.sheetSize)
  popMatrixOrString : p.OnStack (ValueStack.popMatrixOrString env.lib env.workbook.sheetSize)
  popValue : p.OnStack ValueStack.popValue
  compare : ∀ oc l r e, compare oc l r = .error e → p.throws (.exception e)
  termOp : ∀ op l r e, opMatrixOrNumeric env.lib op l r = .error e → p.throws (.exception e)
  concat : ∀ l r e, concatMatrixOrString env.lib l r = .error e → p.throws (.exception e)
  call : ∀ func, p.OnStack (env.call func)
  singleRef : ∀ addr, .singleRef addr ∈ tokens →
    p.Sound tokens (fun _ ↦ True) (env.singleRef addr)
  rangeRef : ∀ range, .rangeRef range ∈ tokens →
    p.Sound tokens (fun _ ↦ True) (env.rangeRef range)
  tableRef : ∀ table, .tableRef table ∈ tokens →
    p.Sound tokens (fun _ ↦ True) (env.tableRef table)

section Sound

variable {p : Policy} {env : Interpreter} {tokens : List FormulaToken} {α β : Type} {Q : α → Prop}
  {R : β → Prop}

theorem sound_pure {a : α} (h : Q a) : p.Sound tokens Q (Pure.pure a : InterpM α) := keeps_pure h

theorem sound_bind {x : InterpM α} {f : α → InterpM β} (hx : p.Sound tokens Q x)
    (hf : ∀ a, Q a → p.Sound tokens R (f a)) : p.Sound tokens R (x >>= f) :=
  keeps_bind hx hf

theorem sound_raise {e : Exn} (h : p.throws (.exception e)) :
    p.Sound tokens Q (raise e : InterpM α) := fun _ _ ↦ h

theorem sound_fail {e : Failure} (h : p.throws e) : p.Sound tokens Q (fail e : InterpM α) :=
  fun _ _ ↦ h

theorem sound_onStack {x : StackM α} (hx : p.OnStack x) :
    p.Sound tokens (fun _ ↦ True) (onStack x) :=
  fun s hs ↦ ensures_bind (hx s.stack hs.stack) fun _ hp ↦ ⟨trivial, hs.tokens, hp.2, hs.outer⟩

theorem sound_push {v : StackValue} (h : p.value v) :
    p.Sound tokens (fun _ ↦ True) (push v) := by
  refine sound_onStack (keeps_modify fun stack hs w hw ↦ ?_)
  rcases List.mem_cons.mp hw with rfl | hw
  · exact h
  · exact hs w hw

theorem sound_token? : p.Sound tokens (fun t? ↦ ∀ t, t? = some t → t ∈ tokens) token? := by
  intro s hs
  exact ⟨fun t ht ↦ hs.tokens (List.mem_of_mem_head? ht), hs⟩

theorem sound_next : p.Sound tokens (fun _ ↦ True) next :=
  keeps_modify fun _ hs ↦ ⟨fun _ ht ↦ hs.tokens (List.mem_of_mem_tail ht), hs.stack, hs.outer⟩

theorem sound_pushStack : p.Sound tokens (fun _ ↦ True) pushStack := by
  refine keeps_modify fun s hs ↦ ⟨hs.tokens, fun _ hv ↦ absurd hv List.not_mem_nil, ?_⟩
  intro stack hstack
  rcases List.mem_cons.mp hstack with rfl | hstack
  · exact hs.stack
  · exact hs.outer stack hstack

/-- Go on unless an exception is thrown. -/
theorem sound_guard {c : Prop} [Decidable c] {e : Exn} {f : Unit → InterpM α}
    (he : p.throws (.exception e)) (h : p.Sound tokens Q (f ())) :
    p.Sound tokens Q (if c then raise e >>= f else f ()) := by
  split
  · exact sound_bind (sound_raise (Q := fun _ ↦ True) he) fun _ _ ↦ h
  · exact h

/-- Go on after either of two computations. -/
theorem sound_ite_bind {c : Prop} [Decidable c] {x y : InterpM α} {f : α → InterpM β}
    (hx : p.Sound tokens Q x) (hy : p.Sound tokens Q y)
    (hf : ∀ a, Q a → p.Sound tokens R (f a)) :
    p.Sound tokens R (if c then x >>= f else y >>= f) := by
  split
  · exact sound_bind hx hf
  · exact sound_bind hy hf

theorem sound_assert {expr : String} {c : Prop} [Decidable c]
    (h : env.assertions = true → p.throws (.assertionFailed expr)) :
    p.Sound tokens (fun _ ↦ True) (env.assert expr c) := by
  rw [Interpreter.assert]
  split
  case isTrue hc => exact sound_fail (h hc.1)
  case isFalse => exact sound_pure trivial

variable (h : p.Allows env tokens)

include h

theorem sound_tokenOrThrow : p.Sound tokens (· ∈ tokens) tokenOrThrow := by
  refine sound_bind sound_token? fun t? ht ↦ ?_
  cases t? with
  | none => exact sound_raise (h.invalid _)
  | some t => exact sound_pure (ht t rfl)

theorem sound_nextToken : p.Sound tokens (· ∈ tokens) nextToken := by
  refine sound_bind sound_next fun _ _ ↦ sound_bind sound_token? fun t? ht ↦ ?_
  cases t? with
  | none => exact sound_raise (h.invalid _)
  | some t => exact sound_pure (ht t rfl)

theorem sound_popStack : p.Sound tokens (fun _ ↦ True) env.popStack := by
  refine keeps_bind keeps_get fun s hs ↦ ?_
  refine sound_bind (sound_assert fun ha ↦ h.assertion ha _ (by decide)) fun _ _ ↦ ?_
  refine sound_bind (sound_assert fun ha ↦ h.assertion ha _ (by decide)) fun _ _ ↦ ?_
  obtain ⟨rest, stack, outer⟩ := s
  cases stack with
  | nil => exact sound_fail h.undefined
  | cons v stack =>
    cases outer with
    | nil => exact sound_fail h.undefined
    | cons below outer =>
      refine fun _ _ ↦ ⟨trivial, hs.tokens, fun w hw ↦ ?_, fun l hl ↦ ?_⟩
      · rcases List.mem_cons.mp hw with rfl | hw
        · exact hs.stack w List.mem_cons_self
        · exact hs.outer below List.mem_cons_self w hw
      · exact hs.outer l (List.mem_cons_of_mem _ hl)

theorem sound_sign : p.Sound tokens (fun _ ↦ True) Interpreter.sign := by
  have hskip : p.Sound tokens (fun _ ↦ True) (do
      next
      if (← token?).isNone then invalid "sign: a sign cannot be the last token" : InterpM Unit) :=
    sound_bind sound_next fun _ _ ↦ sound_bind sound_token? fun _ _ ↦ by
      split
      · exact sound_raise (h.invalid _)
      · exact sound_pure trivial
  refine sound_bind (sound_tokenOrThrow h) fun t _ ↦ ?_
  cases t with
  | minus => exact sound_bind hskip fun _ _ ↦ sound_pure trivial
  | plus => exact sound_bind hskip fun _ _ ↦ sound_pure trivial
  | _ => exact sound_pure trivial

theorem sound_stringOrThrow (sid : StringId) :
    p.Sound tokens (fun _ ↦ True) (env.stringOrThrow sid) := by
  rw [Interpreter.stringOrThrow]
  split
  · exact sound_pure trivial
  · exact sound_raise h.noString

theorem sound_literal (sid : StringId) : p.Sound tokens (fun _ ↦ True) (env.literal sid) :=
  sound_bind (sound_stringOrThrow h sid) fun _ _ ↦
    sound_bind sound_next fun _ _ ↦ sound_push (h.plain _ trivial)

theorem sound_arrayElements (depth : Nat) (a : Interpreter.ArrayState) :
    p.Sound tokens (fun _ ↦ True) (env.arrayElements depth a) := by
  induction depth generalizing a with
  | zero => exact sound_fail h.stackOverflow
  | succ depth ih =>
    rw [Interpreter.arrayElements]
    refine sound_bind sound_token? fun t? _ ↦ ?_
    dsimp only
    refine sound_guard (h.invalid _) ?_
    refine sound_ite_bind (Q := fun _ ↦ True) (sound_sign h) (sound_pure trivial) fun hasSign _ ↦ ?_
    refine sound_bind (sound_tokenOrThrow h) fun t _ ↦ ?_
    cases t with
    | string sid =>
      refine sound_guard (h.invalid _) (sound_bind (sound_stringOrThrow h sid) fun _ _ ↦ ?_)
      exact sound_bind sound_next fun _ _ ↦ ih _
    | value v => exact sound_guard (h.invalid _) (sound_bind sound_next fun _ _ ↦ ih _)
    | sep => exact sound_guard (h.invalid _) (sound_bind sound_next fun _ _ ↦ ih _)
    | arrayRowSep =>
      exact sound_guard (h.invalid _) (sound_guard (h.invalid _)
        (sound_bind sound_next fun _ _ ↦ ih _))
    | arrayClose =>
      exact sound_guard (h.invalid _) (sound_guard (h.invalid _)
        (sound_bind (sound_push (h.plain _ trivial)) fun _ _ ↦ sound_next))
    | _ => exact sound_raise (h.invalid _)

theorem sound_applyTermOp (op : TermOp) (lhs rhs : ResolvedStackValue) :
    p.Sound tokens (fun _ ↦ True) (env.applyTermOp op lhs rhs) := by
  rw [Interpreter.applyTermOp]
  split
  case h_1 v _ => exact sound_push (h.plain _ v.isPlain_toStackValue)
  case h_2 e he => exact sound_raise (h.termOp _ _ _ e he)

omit h

/-- All functions of the grammar keep to a policy as long as their calls are not nested more
deeply than a number. -/
structure SoundAt (p : Policy) (env : Interpreter) (tokens : List FormulaToken) (depth : Nat) :
    Prop where
  expression : p.Sound tokens (fun _ ↦ True) (env.expression depth)
  expressionRest : p.Sound tokens (fun _ ↦ True) (env.expressionRest depth)
  term : p.Sound tokens (fun _ ↦ True) (env.term depth)
  factor : p.Sound tokens (fun _ ↦ True) (env.factor depth)
  paren : p.Sound tokens (fun _ ↦ True) (env.paren depth)
  function : ∀ func, p.Sound tokens (fun _ ↦ True) (env.function depth func)
  arguments : ∀ expectSep, p.Sound tokens (fun _ ↦ True) (env.arguments depth expectSep)

variable {depth : Nat} (hat : SoundAt p env tokens depth)

include h hat

theorem expressionRest_succ :
    p.Sound tokens (fun _ ↦ True) (env.expressionRest (depth + 1)) := by
  rw [Interpreter.expressionRest]
  refine sound_bind sound_token? fun t? _ ↦ ?_
  split
  · exact sound_pure trivial
  case h_2 oc _ =>
    refine sound_bind (sound_onStack h.popStackValue) fun sv1 _ ↦ ?_
    cases sv1 with
    | none => exact sound_raise h.generalError
    | some sv1 =>
      refine sound_bind sound_next fun _ _ ↦ sound_bind hat.term fun _ _ ↦ ?_
      refine sound_bind (sound_onStack h.popStackValue) fun sv2 _ ↦ ?_
      cases sv2 with
      | none => exact sound_raise h.generalError
      | some sv2 =>
        dsimp only
        split
        case h_1 v hv =>
          exact sound_bind (sound_push (h.plain _ (isPlain_of_compare hv))) fun _ _ ↦
            hat.expressionRest
        case h_2 e he =>
          exact sound_bind (sound_raise (Q := fun _ ↦ True) (h.compare _ _ _ e he)) fun _ _ ↦
            hat.expressionRest

theorem term_succ : p.Sound tokens (fun _ ↦ True) (env.term (depth + 1)) := by
  rw [Interpreter.term]
  refine sound_bind hat.factor fun _ _ ↦ ?_
  have harithmetic (op : TermOp) : p.Sound tokens (fun _ ↦ True) (do
      let v1 ← onStack (ValueStack.popMatrixOrNumeric env.workbook.sheetSize)
      next
      Interpreter.term env depth
      let v2 ← onStack (ValueStack.popMatrixOrNumeric env.workbook.sheetSize)
      env.applyTermOp op v1 v2 : InterpM Unit) := by
    refine sound_bind (sound_onStack h.popMatrixOrNumeric) fun _ _ ↦ ?_
    refine sound_bind sound_next fun _ _ ↦ sound_bind hat.term fun _ _ ↦ ?_
    refine sound_bind (sound_onStack h.popMatrixOrNumeric) fun _ _ ↦ ?_
    exact sound_applyTermOp h _ _ _
  refine sound_bind sound_token? fun t? _ ↦ ?_
  split
  · exact harithmetic .multiply
  · exact harithmetic .exponent
  · refine sound_bind (sound_onStack h.popMatrixOrString) fun _ _ ↦ ?_
    refine sound_bind sound_next fun _ _ ↦ sound_bind hat.term fun _ _ ↦ ?_
    refine sound_bind (sound_onStack h.popMatrixOrString) fun _ _ ↦ ?_
    split
    case h_1 v _ => exact sound_push (h.plain _ v.isPlain_toStackValue)
    case h_2 e he => exact sound_raise (h.concat _ _ e he)
  · exact harithmetic .divide
  · exact sound_pure trivial

theorem factor_succ : p.Sound tokens (fun _ ↦ True) (env.factor (depth + 1)) := by
  rw [Interpreter.factor]
  refine sound_bind (sound_sign h) fun negativeSign _ ↦ ?_
  refine sound_bind (Q := fun _ ↦ True) ?_ fun _ _ ↦ ?_
  · refine sound_bind (sound_tokenOrThrow h) fun t ht ↦ ?_
    cases t with
    | parenOpen => exact hat.paren
    | namedExpression name => exact sound_raise h.generalError
    | value v => exact sound_bind sound_next fun _ _ ↦ sound_push (h.plain _ trivial)
    | error e => exact sound_bind sound_next fun _ _ ↦ sound_push (h.plain _ trivial)
    | singleRef addr => exact h.singleRef addr ht
    | rangeRef range => exact h.rangeRef range ht
    | tableRef table => exact h.tableRef table ht
    | function func => exact hat.function func
    | string sid => exact sound_literal h sid
    | arrayOpen => exact sound_bind sound_next fun _ _ ↦ sound_arrayElements h _ _
    | _ => exact sound_raise (h.invalid _)
  · split
    · refine sound_bind (sound_onStack h.popValue) fun v _ ↦ ?_
      exact sound_push (h.plain _ trivial)
    · exact sound_pure trivial

theorem paren_succ : p.Sound tokens (fun _ ↦ True) (env.paren (depth + 1)) := by
  rw [Interpreter.paren]
  refine sound_bind sound_next fun _ _ ↦ sound_bind hat.expression fun _ _ ↦ ?_
  refine sound_bind (sound_tokenOrThrow h) fun t _ ↦ ?_
  exact sound_guard (h.invalid _) sound_next

theorem function_succ (func : FormulaFunction) :
    p.Sound tokens (fun _ ↦ True) (env.function (depth + 1) func) := by
  rw [Interpreter.function]
  refine sound_bind sound_pushStack fun _ _ ↦ sound_bind (sound_nextToken h) fun t _ ↦ ?_
  refine sound_guard (h.invalid _) ?_
  refine sound_bind (sound_nextToken h) fun _ _ ↦ sound_bind (hat.arguments false) fun _ _ ↦ ?_
  refine sound_bind sound_next fun _ _ ↦ sound_bind (sound_onStack (h.call func)) fun _ _ ↦ ?_
  refine sound_bind (Q := fun _ ↦ True) (fun s hs ↦ ⟨trivial, hs⟩) fun s _ ↦ ?_
  refine sound_bind (sound_assert fun ha ↦ h.assertion ha _ (by decide)) fun _ _ ↦ ?_
  exact sound_popStack h

theorem arguments_succ (expectSep : Bool) :
    p.Sound tokens (fun _ ↦ True) (env.arguments (depth + 1) expectSep) := by
  rw [Interpreter.arguments]
  refine sound_bind (sound_tokenOrThrow h) fun t _ ↦ ?_
  split
  · exact sound_pure trivial
  · split
    · exact sound_guard (h.invalid _) (sound_bind sound_next fun _ _ ↦ hat.arguments false)
    · exact sound_bind hat.expression fun _ _ ↦ hat.arguments true

omit hat

/-- Where the operations keep to a policy, the grammar does. -/
theorem soundAt (depth : Nat) : SoundAt p env tokens depth := by
  induction depth with
  | zero =>
    have hzero {Q : Unit → Prop} : p.Sound tokens Q (fail .stackOverflow : InterpM Unit) :=
      sound_fail h.stackOverflow
    exact ⟨hzero, hzero, hzero, hzero, hzero, fun _ ↦ hzero, fun _ ↦ hzero⟩
  | succ depth ih =>
    exact ⟨sound_bind ih.term fun _ _ ↦ ih.expressionRest, expressionRest_succ h ih,
      term_succ h ih, factor_succ h ih, paren_succ h ih, function_succ h ih, arguments_succ h ih⟩

/-! ### Whole formulas -/

/-- Making the result of a formula keeps to a policy. -/
abbrev Results (p : Policy) (env : Interpreter) : Prop :=
  ∀ stack : ValueStack, (∀ v ∈ stack, p.value v) →
    (env.popResult stack).Ensures p.asks p.throws fun _ ↦ True

theorem ensures_interpretTokens (hresult : p.Results env) :
    (env.interpretTokens tokens).Ensures p.asks p.throws fun _ ↦ True := by
  rw [Interpreter.interpretTokens]
  split
  · trivial
  · have hexpression := (soundAt h (Interpreter.depthFor tokens)).expression ⟨tokens, [], []⟩
      ⟨List.Subset.refl tokens, fun _ hv ↦ absurd hv List.not_mem_nil,
        fun _ hl ↦ absurd hl List.not_mem_nil⟩
    refine ensures_bind hexpression fun ⟨_, s⟩ hs ↦ ?_
    dsimp only
    split
    · trivial
    · exact hresult s.stack hs.2.stack

omit h

theorem ensures_catchErrors {r : Reader FormulaResult}
    (h : r.Ensures p.asks p.throws fun _ ↦ True) :
    (Interpreter.catchErrors r).Ensures p.asks p.throws fun _ ↦ True := by
  refine ensures_tryCatch h fun e he ↦ ?_
  split
  · trivial
  · trivial
  · exact he

/-- Where the operations on the tokens of a formula keep to a policy, its interpretation
does. -/
theorem ensures_interpret (hresult : p.Results env) {cell : FormulaCell}
    (hallows : ∀ tokens,
      env.workbook.expandedTokens (env.workbook.nameCount + 1) cell env.pos = .ok tokens →
        p.Allows env tokens)
    (herror : ∀ e, env.workbook.expandedTokens (env.workbook.nameCount + 1) cell env.pos =
      .error e → p.throws e) :
    (env.interpret cell).Ensures p.asks p.throws fun _ ↦ True := by
  refine ensures_catchErrors ?_
  split
  case h_1 tokens hexp => exact ensures_interpretTokens (hallows tokens hexp) hresult
  case h_2 e hexp => exact herror e hexp

end Sound

end Policy

end Ixion
