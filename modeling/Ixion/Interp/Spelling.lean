import Ixion.Lib.Alike
import Ixion.Interp.Reads
import Ixion.Document.Queue

/-!
# Formulas that are spelled alike

The tokens of a formula name strings of a pool, and the same string has other numbers in other
pools.  What the interpretation of a formula asks and comes to is a matter of the strings and not of
their numbers, and of what is done by the functions that the formula calls
(`formulaInterpreter_congr`).
-/

namespace Ixion

open Lib Query Workbook InterpM

namespace Workbook

/-- What formulas may depend on besides cells and strings. -/
structure SameSetting (wb wb' : Workbook) : Prop where
  sheetSize : wb'.sheetSize = wb.sheetSize
  sheets : wb'.sheets = wb.sheets
  namedExpressions : wb'.namedExpressions = wb.namedExpressions
  tableHandler : wb'.tableHandler = wb.tableHandler

namespace SameSetting

variable {wb wb' : Workbook} (h : wb.SameSetting wb')

include h

theorem inWorkbook (a : AbsAddress) : wb'.inWorkbook a = wb.inWorkbook a := by
  rw [Workbook.inWorkbook, Workbook.inWorkbook, h.sheetSize, h.sheets]

theorem noNames (hno : wb.NoNames) : wb'.NoNames where
  global := h.namedExpressions.trans hno.global
  sheets := h.sheets ▸ hno.sheets

theorem refersTo {pos a : AbsAddress} {t : FormulaToken} :
    wb'.RefersTo pos t a ↔ wb.RefersTo pos t a := by
  cases t with
  | tableRef table => simp only [RefersTo, tableRange, h.tableHandler]
  | _ => rfl

end SameSetting

/-- A token with the text of the string that it stands for. -/
def spell (wb : Workbook) : FormulaToken → FormulaToken × Option Text
  | .string sid => (.string .empty, wb.strPool.getString sid)
  | t => (t, none)

end Workbook

/-- What a formula comes to depends on its tokens, the strings among them and what it reads. -/
def Evaluator.Local (ev : Evaluator) : Prop :=
  ∀ (wb wb' : Workbook) (cell cell' : FormulaCell) (pos : AbsAddress), wb.SameSetting wb' →
    wb.NoNames → cell'.tokens.map wb'.spell = cell.tokens.map wb.spell →
      ev wb' cell' pos = ev wb cell pos

namespace Interpreter

/-- Two interpreters do the same but for strings and functions. -/
structure SameBut (env env' : Interpreter) : Prop where
  lib : env'.lib = env.lib
  pos : env'.pos = env.pos
  assertions : env'.assertions = env.assertions
  sheetSize : env'.workbook.sheetSize = env.workbook.sheetSize
  tableRange : ∀ pos table,
    env'.workbook.tableRange pos table = env.workbook.tableRange pos table

/-- Two tokens mean the same to two interpreters. -/
inductive SameToken (env env' : Interpreter) : FormulaToken → FormulaToken → Prop where
  | string {sid sid' : StringId} :
    env'.workbook.strPool.getString sid' = env.workbook.strPool.getString sid →
      SameToken env env' (.string sid) (.string sid')
  | function {func : FormulaFunction} : env'.call func = env.call func →
    SameToken env env' (.function func) (.function func)
  | other {t : FormulaToken} : (∀ sid, t ≠ .string sid) → (∀ func, t ≠ .function func) →
    SameToken env env' t t

/-- Two states have tokens that mean the same, and the same stacks. -/
structure SameState (env env' : Interpreter) (s s' : InterpState) : Prop where
  tokens : List.Forall₂ (SameToken env env') s.tokens s'.tokens
  stack : s'.stack = s.stack
  outer : s'.outer = s.outer

/-- Two parts of interpretations are alike. -/
abbrev Same {α α' : Type} (env env' : Interpreter) (R : α → α' → Prop) (x : InterpM α)
    (x' : InterpM α') : Prop :=
  AlikeFrom (SameState env env') R x x'

/-- Nothing is said of what is returned. -/
abbrev Same₀ {α : Type} (env env' : Interpreter) (x x' : InterpM α) : Prop :=
  Same env env' (fun _ _ ↦ True) x x'

section Same

variable {env env' : Interpreter} {α α' β β' : Type} {R : α → α' → Prop} {T : β → β' → Prop}

theorem SameToken.iff_eq {t t' u : FormulaToken} (h : SameToken env env' t t')
    (hstring : ∀ sid, u ≠ .string sid) : t' = u ↔ t = u := by
  cases h with
  | string => exact iff_of_false (hstring _).symm (hstring _).symm
  | function => rfl
  | other => rfl

theorem same_pure {a : α} {a' : α'} (h : R a a') :
    Same env env' R (Pure.pure a : InterpM α) (Pure.pure a') := alikeFrom_pure h

theorem same_bind {x : InterpM α} {x' : InterpM α'} {f : α → InterpM β} {f' : α' → InterpM β'}
    (h : Same env env' R x x') (hf : ∀ a a', R a a' → Same env env' T (f a) (f' a')) :
    Same env env' T (x >>= f) (x' >>= f') := alikeFrom_bind h hf

theorem same_raise (e : Exn) : Same env env' R (raise e : InterpM α) (raise e : InterpM α') :=
  alikeFrom_throw _

theorem same_fail (e : Failure) : Same env env' R (fail e : InterpM α) (fail e : InterpM α') :=
  alikeFrom_throw _

theorem same_onStack (x : StackM α) : Same env env' (· = ·) (onStack x) (onStack x) := by
  intro s s' hs
  show Alike _ (x s.stack >>= _) (x s'.stack >>= _)
  rw [hs.stack]
  refine (Alike.refl (R := Eq) (fun _ ↦ rfl) (x s.stack)).bind ?_
  rintro p _ rfl
  exact .pure ⟨rfl, hs.tokens, rfl, hs.outer⟩

theorem same_push (v : StackValue) : Same₀ env env' (push v) (push v) :=
  fun s s' hs ↦ (same_onStack (ValueStack.push v) s s' hs).mono fun _ _ hp ↦ ⟨trivial, hp.2⟩

theorem same_token? : Same env env' (Option.Rel (SameToken env env')) token? token? := by
  intro s s' hs
  refine .pure ⟨?_, hs⟩
  obtain ⟨tokens, stack, outer⟩ := s
  obtain ⟨tokens', stack', outer'⟩ := s'
  obtain ⟨htokens, _, _⟩ := hs
  cases htokens with
  | nil => exact .none
  | cons h _ => exact .some h

theorem same_next : Same₀ env env' next next := by
  refine alikeFrom_modify fun s s' hs ↦ ⟨?_, hs.stack, hs.outer⟩
  obtain ⟨tokens, stack, outer⟩ := s
  obtain ⟨tokens', stack', outer'⟩ := s'
  obtain ⟨htokens, _, _⟩ := hs
  cases htokens with
  | nil => exact .nil
  | cons _ h => exact h

theorem same_pushStack : Same₀ env env' pushStack pushStack :=
  alikeFrom_modify fun _ _ hs ↦ ⟨hs.tokens, rfl, by rw [hs.stack, hs.outer]⟩

/-- Go on unless an exception is thrown. -/
theorem same_guard {c c' : Prop} [Decidable c] [Decidable c'] (hc : c' ↔ c) (e : Exn)
    {f : Unit → InterpM α} {f' : Unit → InterpM α'} (h : Same env env' R (f ()) (f' ())) :
    Same env env' R (if c then raise e >>= f else f ()) (if c' then raise e >>= f' else f' ()) := by
  by_cases hcond : c
  · rw [if_pos hcond, if_pos (hc.mpr hcond)]
    exact same_raise e
  · rw [if_neg hcond, if_neg fun h ↦ hcond (hc.mp h)]
    exact h

/-- Go on after either of two computations. -/
theorem same_ite_bind {c : Prop} [Decidable c] {x y : InterpM α} {x' y' : InterpM α'}
    {f : α → InterpM β} {f' : α' → InterpM β'} (hx : Same env env' R x x')
    (hy : Same env env' R y y') (hf : ∀ a a', R a a' → Same env env' T (f a) (f' a')) :
    Same env env' T (if c then x >>= f else y >>= f) (if c then x' >>= f' else y' >>= f') := by
  split
  · exact same_bind hx hf
  · exact same_bind hy hf

theorem same_tokenOrThrow : Same env env' (SameToken env env') tokenOrThrow tokenOrThrow := by
  refine same_bind same_token? fun t? t?' ht ↦ ?_
  cases ht with
  | none => exact same_raise _
  | some ht => exact same_pure ht

theorem same_nextToken : Same env env' (SameToken env env') nextToken nextToken := by
  refine same_bind same_next fun _ _ _ ↦ same_bind same_token? fun t? t?' ht ↦ ?_
  cases ht with
  | none => exact same_raise _
  | some ht => exact same_pure ht

theorem same_sign : Same env env' (· = ·) sign sign := by
  have hskip : Same₀ env env' (do
      next
      if (← token?).isNone then invalid "sign: a sign cannot be the last token" : InterpM Unit) (do
      next
      if (← token?).isNone then invalid "sign: a sign cannot be the last token" : InterpM Unit) :=
      by
    refine same_bind same_next fun _ _ _ ↦ same_bind same_token? fun t? t?' ht ↦ ?_
    cases ht with
    | none => exact same_raise _
    | some _ => exact same_pure trivial
  refine same_bind same_tokenOrThrow fun t t' ht ↦ ?_
  cases ht with
  | string => exact same_pure rfl
  | function => exact same_pure rfl
  | @other t =>
    cases t with
    | minus => exact same_bind hskip fun _ _ _ ↦ same_pure rfl
    | plus => exact same_bind hskip fun _ _ _ ↦ same_pure rfl
    | _ => exact same_pure rfl

theorem same_stringOrThrow {sid sid' : StringId}
    (h : env'.workbook.strPool.getString sid' = env.workbook.strPool.getString sid) :
    Same env env' (· = ·) (env.stringOrThrow sid) (env'.stringOrThrow sid') := by
  rw [stringOrThrow, stringOrThrow, h]
  cases env.workbook.strPool.getString sid with
  | none => exact same_raise _
  | some s => exact same_pure rfl

theorem same_literal {sid sid' : StringId}
    (h : env'.workbook.strPool.getString sid' = env.workbook.strPool.getString sid) :
    Same₀ env env' (env.literal sid) (env'.literal sid') := by
  refine same_bind (same_stringOrThrow h) ?_
  rintro s _ rfl
  exact same_bind same_next fun _ _ _ ↦ same_push _

theorem expectsElement_of_sameToken {a : ArrayState} {t : FormulaToken}
    (h : SameToken env env' a.prevOp t) :
    ({ a with prevOp := t } : ArrayState).expectsElement = a.expectsElement := by
  simp only [ArrayState.expectsElement, h.iff_eq (u := .arrayOpen) (by rintro _ ⟨⟩),
    h.iff_eq (u := .sep) (by rintro _ ⟨⟩), h.iff_eq (u := .arrayRowSep) (by rintro _ ⟨⟩)]

theorem afterElement_of_sameToken {a : ArrayState} {t : FormulaToken}
    (h : SameToken env env' a.prevOp t) :
    ({ a with prevOp := t } : ArrayState).afterElement = a.afterElement := by
  obtain ⟨values, strings, row, col, prevCol, prevOp⟩ := a
  cases h with
  | string => rfl
  | function => rfl
  | other => rfl

theorem same_arrayElements (depth : Nat) (a : ArrayState) {prevOp : FormulaToken}
    (h : SameToken env env' a.prevOp prevOp) :
    Same₀ env env' (env.arrayElements depth a)
      (env'.arrayElements depth { a with prevOp := prevOp }) := by
  induction depth generalizing a prevOp with
  | zero => exact same_fail _
  | succ depth ih =>
    have hnext {values strings row col prevCol} {t t' : FormulaToken}
        (ht : SameToken env env' t t') :
        Same₀ env env'
          (next >>= fun _ ↦ env.arrayElements depth ⟨values, strings, row, col, prevCol, t⟩)
          (next >>= fun _ ↦ env'.arrayElements depth ⟨values, strings, row, col, prevCol, t'⟩) :=
      same_bind same_next fun _ _ _ ↦ ih ⟨values, strings, row, col, prevCol, t⟩ ht
    rw [arrayElements, arrayElements, expectsElement_of_sameToken h, afterElement_of_sameToken h]
    refine same_bind same_token? fun t? t?' ht? ↦ ?_
    dsimp only
    refine same_guard (by cases ht? <;> rfl) _ ?_
    refine same_ite_bind (R := (· = ·)) same_sign (same_pure rfl) ?_
    rintro hasSign _ rfl
    refine same_bind same_tokenOrThrow fun t t' ht ↦ ?_
    cases ht with
    | @string sid sid' hsid =>
      refine same_guard .rfl _ (same_bind (same_stringOrThrow hsid) ?_)
      rintro s _ rfl
      exact hnext (.string hsid)
    | function => exact same_raise _
    | @other t hstring hfunction =>
      cases t with
      | string sid => exact absurd rfl (hstring sid)
      | value v => exact same_guard .rfl _ (hnext (.other hstring hfunction))
      | sep => exact same_guard .rfl _ (hnext (.other hstring hfunction))
      | arrayRowSep =>
        exact same_guard .rfl _ (same_guard .rfl _ (hnext (.other hstring hfunction)))
      | arrayClose =>
        have hclose : (prevOp = .arrayOpen ∨ a.afterElement = true) ↔
            (a.prevOp = .arrayOpen ∨ a.afterElement = true) :=
          or_congr_left (h.iff_eq (by rintro _ ⟨⟩))
        refine same_guard (by simp only [hclose]) _ (same_guard .rfl _ ?_)
        exact same_bind (same_push _) fun _ _ _ ↦ same_next
      | _ => exact same_raise _

/-! ## The grammar -/

variable (h : SameBut env env')

include h

theorem same_assert (expr : String) {p p' : Prop} [Decidable p] [Decidable p'] (hp : p' ↔ p) :
    Same₀ env env' (env.assert expr p) (env'.assert expr p') := by
  rw [assert, assert, h.assertions]
  by_cases hcond : env.assertions = true ∧ ¬ p
  · rw [if_pos hcond, if_pos (by rwa [hp])]
    exact same_fail _
  · rw [if_neg hcond, if_neg (by rwa [hp])]
    exact same_pure trivial

theorem same_pushRangeRef (range : AbsRange) :
    Same₀ env env' (env.pushRangeRef range) (env'.pushRangeRef range) :=
  same_bind (same_assert h _ .rfl) fun _ _ _ ↦ same_push _

theorem same_singleRef (addr : Address) :
    Same₀ env env' (env.singleRef addr) (env'.singleRef addr) := by
  rw [singleRef, singleRef, h.pos]
  exact same_guard .rfl _ (same_bind (same_push _) fun _ _ _ ↦ same_next)

theorem same_rangeRef (range : Range) :
    Same₀ env env' (env.rangeRef range) (env'.rangeRef range) := by
  rw [rangeRef, rangeRef, h.pos]
  exact same_guard .rfl _ (same_bind (same_pushRangeRef h _) fun _ _ _ ↦ same_next)

theorem same_tableRef (table : Table) :
    Same₀ env env' (env.tableRef table) (env'.tableRef table) := by
  rw [tableRef, tableRef, h.pos, h.tableRange]
  cases env.workbook.tableRange env.pos table with
  | none => exact same_raise _
  | some range => exact same_bind (same_pushRangeRef h _) fun _ _ _ ↦ same_next

theorem same_popStack : Same₀ env env' env.popStack env'.popStack := by
  refine same_bind alikeFrom_get fun s s' hs ↦ ?_
  have hstack := hs.stack
  have houter := hs.outer
  refine same_bind (same_assert h _ (by rw [houter])) fun _ _ _ ↦ ?_
  refine same_bind (same_assert h _ (by rw [hstack])) fun _ _ _ ↦ ?_
  rw [hstack, houter]
  cases s.stack with
  | nil => exact same_fail _
  | cons v stack =>
    cases s.outer with
    | nil => exact same_fail _
    | cons below outer => exact fun _ _ _ ↦ .pure ⟨trivial, hs.tokens, rfl, rfl⟩

theorem same_applyTermOp (op : TermOp) (lhs rhs : ResolvedStackValue) :
    Same₀ env env' (env.applyTermOp op lhs rhs) (env'.applyTermOp op lhs rhs) := by
  rw [applyTermOp, applyTermOp, h.lib]
  cases opMatrixOrNumeric env.lib op lhs rhs with
  | ok v => exact same_push _
  | error e => exact same_raise _

omit h

/-- All functions of the grammar are alike as long as their calls are not nested more deeply than a
number. -/
structure SameAt (env env' : Interpreter) (depth : Nat) : Prop where
  expression : Same₀ env env' (env.expression depth) (env'.expression depth)
  expressionRest : Same₀ env env' (env.expressionRest depth) (env'.expressionRest depth)
  term : Same₀ env env' (env.term depth) (env'.term depth)
  factor : Same₀ env env' (env.factor depth) (env'.factor depth)
  paren : Same₀ env env' (env.paren depth) (env'.paren depth)
  function : ∀ func, env'.call func = env.call func →
    Same₀ env env' (env.function depth func) (env'.function depth func)
  arguments : ∀ expectSep,
    Same₀ env env' (env.arguments depth expectSep) (env'.arguments depth expectSep)

variable {depth : Nat} (hat : SameAt env env' depth)

include h hat

theorem same_expressionRest :
    Same₀ env env' (env.expressionRest (depth + 1)) (env'.expressionRest (depth + 1)) := by
  rw [Interpreter.expressionRest, Interpreter.expressionRest, h.sheetSize]
  refine same_bind same_token? fun t? t?' ht ↦ ?_
  have hop : t?'.bind validExpressionOp = t?.bind validExpressionOp := by
    cases ht with
    | none => rfl
    | some ht => cases ht <;> rfl
  rw [hop]
  cases t?.bind validExpressionOp with
  | none => exact same_pure trivial
  | some oc =>
    refine same_bind (same_onStack _) ?_
    rintro sv1 _ rfl
    cases sv1 with
    | none => exact same_raise _
    | some sv1 =>
      refine same_bind same_next fun _ _ _ ↦ same_bind hat.term fun _ _ _ ↦ ?_
      refine same_bind (same_onStack _) ?_
      rintro sv2 _ rfl
      cases sv2 with
      | none => exact same_raise _
      | some sv2 =>
        dsimp only
        cases compare oc sv1 sv2 with
        | ok v => exact same_bind (same_push v) fun _ _ _ ↦ hat.expressionRest
        | error e =>
          exact same_bind (R := fun _ _ ↦ True) (same_raise e) fun _ _ _ ↦ hat.expressionRest

theorem same_term : Same₀ env env' (env.term (depth + 1)) (env'.term (depth + 1)) := by
  rw [Interpreter.term, Interpreter.term, h.sheetSize, h.lib]
  refine same_bind hat.factor fun _ _ _ ↦ ?_
  have harithmetic (op : TermOp) : Same₀ env env' (do
      let v1 ← onStack (ValueStack.popMatrixOrNumeric env.workbook.sheetSize)
      next
      Interpreter.term env depth
      let v2 ← onStack (ValueStack.popMatrixOrNumeric env.workbook.sheetSize)
      env.applyTermOp op v1 v2 : InterpM Unit) (do
      let v1 ← onStack (ValueStack.popMatrixOrNumeric env.workbook.sheetSize)
      next
      Interpreter.term env' depth
      let v2 ← onStack (ValueStack.popMatrixOrNumeric env.workbook.sheetSize)
      env'.applyTermOp op v1 v2 : InterpM Unit) := by
    refine same_bind (same_onStack _) ?_
    rintro v1 _ rfl
    refine same_bind same_next fun _ _ _ ↦ same_bind hat.term fun _ _ _ ↦ ?_
    refine same_bind (same_onStack _) ?_
    rintro v2 _ rfl
    exact same_applyTermOp h op v1 v2
  refine same_bind same_token? fun t? t?' ht ↦ ?_
  cases ht with
  | none => exact same_pure trivial
  | @some t _ ht =>
    cases ht with
    | string => exact same_pure trivial
    | function => exact same_pure trivial
    | other =>
      cases t with
      | multiply => exact harithmetic .multiply
      | exponent => exact harithmetic .exponent
      | divide => exact harithmetic .divide
      | concat =>
        refine same_bind (same_onStack _) ?_
        rintro lhs _ rfl
        refine same_bind same_next fun _ _ _ ↦ same_bind hat.term fun _ _ _ ↦ ?_
        refine same_bind (same_onStack _) ?_
        rintro rhs _ rfl
        cases concatMatrixOrString env.lib lhs rhs with
        | ok v => exact same_push _
        | error e => exact same_raise e
      | _ => exact same_pure trivial

theorem same_factor : Same₀ env env' (env.factor (depth + 1)) (env'.factor (depth + 1)) := by
  rw [Interpreter.factor, Interpreter.factor]
  refine same_bind same_sign ?_
  rintro negativeSign _ rfl
  refine same_bind (R := fun _ _ ↦ True) ?_ fun _ _ _ ↦ ?_
  · refine same_bind same_tokenOrThrow fun t t' ht ↦ ?_
    cases ht with
    | string hsid => exact same_literal hsid
    | function hcall => exact hat.function _ hcall
    | @other t hstring hfunction =>
      cases t with
      | parenOpen => exact hat.paren
      | namedExpression name => exact same_raise _
      | value v => exact same_bind same_next fun _ _ _ ↦ same_push _
      | error e => exact same_bind same_next fun _ _ _ ↦ same_push _
      | singleRef addr => exact same_singleRef h addr
      | rangeRef range => exact same_rangeRef h range
      | tableRef table => exact same_tableRef h table
      | function func => exact absurd rfl (hfunction func)
      | string sid => exact absurd rfl (hstring sid)
      | arrayOpen =>
        exact same_bind same_next fun _ _ _ ↦
          same_arrayElements depth ⟨[], [], 0, 0, none, .arrayOpen⟩ (.other hstring hfunction)
      | _ => exact same_raise _
  · split
    · refine same_bind (same_onStack _) ?_
      rintro v _ rfl
      exact same_push _
    · exact same_pure trivial

omit h in
theorem same_paren : Same₀ env env' (env.paren (depth + 1)) (env'.paren (depth + 1)) := by
  rw [Interpreter.paren, Interpreter.paren]
  refine same_bind same_next fun _ _ _ ↦ same_bind hat.expression fun _ _ _ ↦ ?_
  refine same_bind same_tokenOrThrow fun t t' ht ↦ ?_
  exact same_guard (not_congr (ht.iff_eq (by rintro _ ⟨⟩))) _ same_next

theorem same_function {func : FormulaFunction} (hcall : env'.call func = env.call func) :
    Same₀ env env' (env.function (depth + 1) func) (env'.function (depth + 1) func) := by
  rw [Interpreter.function, Interpreter.function, hcall]
  refine same_bind same_pushStack fun _ _ _ ↦ same_bind same_nextToken fun t t' ht ↦ ?_
  refine same_guard (not_congr (ht.iff_eq (by rintro _ ⟨⟩))) _ ?_
  refine same_bind same_nextToken fun _ _ _ ↦ same_bind (hat.arguments false) fun _ _ _ ↦ ?_
  refine same_bind same_next fun _ _ _ ↦ same_bind (same_onStack _) fun _ _ _ ↦ ?_
  refine same_bind alikeFrom_get fun s s' hs ↦ ?_
  refine same_bind (same_assert h _ (by rw [hs.stack])) fun _ _ _ ↦ ?_
  exact same_popStack h

omit h in
theorem same_arguments (expectSep : Bool) :
    Same₀ env env' (env.arguments (depth + 1) expectSep)
      (env'.arguments (depth + 1) expectSep) := by
  rw [Interpreter.arguments, Interpreter.arguments]
  have harguments {u u' : FormulaToken} (hu : SameToken env env' u u') : Same₀ env env' (do
      if expectSep then
        if u ≠ .sep then invalid "argument separator is expected, but not found."
        next
        Interpreter.arguments env depth false
      else
        Interpreter.expression env depth
        Interpreter.arguments env depth true : InterpM Unit) (do
      if expectSep then
        if u' ≠ .sep then invalid "argument separator is expected, but not found."
        next
        Interpreter.arguments env' depth false
      else
        Interpreter.expression env' depth
        Interpreter.arguments env' depth true : InterpM Unit) := by
    cases expectSep with
    | true =>
      rw [if_pos rfl, if_pos rfl]
      exact same_guard (not_congr (hu.iff_eq (by rintro _ ⟨⟩))) _
        (same_bind same_next fun _ _ _ ↦ hat.arguments false)
    | false => exact same_bind hat.expression fun _ _ _ ↦ hat.arguments true
  refine same_bind same_tokenOrThrow fun t t' ht ↦ ?_
  cases ht with
  | string hsid => exact harguments (.string hsid)
  | function hcall => exact harguments (.function hcall)
  | @other t hstring hfunction =>
    cases t with
    | parenClose => exact same_pure trivial
    | _ => exact harguments (.other hstring hfunction)

omit hat

/-- The whole grammar is alike. -/
theorem sameAt (depth : Nat) : SameAt env env' depth := by
  induction depth with
  | zero =>
    have hzero : Same₀ env env' (fail .stackOverflow : InterpM Unit) (fail .stackOverflow) :=
      same_fail _
    exact ⟨hzero, hzero, hzero, hzero, hzero, fun _ _ ↦ hzero, fun _ ↦ hzero⟩
  | succ depth ih =>
    exact ⟨same_bind ih.term fun _ _ _ ↦ ih.expressionRest, same_expressionRest h ih,
      same_term h ih, same_factor h ih, same_paren ih, fun _ hcall ↦ same_function h ih hcall,
      same_arguments ih⟩

/-! ## Whole formulas -/

theorem interpretTokens_eq_of_same {tokens tokens' : List FormulaToken}
    (ht : List.Forall₂ (SameToken env env') tokens tokens') :
    env'.interpretTokens tokens' = env.interpretTokens tokens := by
  rw [interpretTokens, interpretTokens, depthFor, depthFor, ht.length_eq]
  cases ht with
  | nil => rfl
  | @cons t t' l l' hhead htail =>
    rw [if_neg (List.cons_ne_nil _ _), if_neg (List.cons_ne_nil _ _)]
    refine (Alike.eq ?_).symm
    refine ((sameAt h _).expression ⟨_, [], []⟩ ⟨_, [], []⟩ ⟨.cons hhead htail, rfl, rfl⟩).bind ?_
    rintro ⟨_, s⟩ ⟨_, s'⟩ ⟨_, hs⟩
    have hnil : s'.tokens = [] ↔ s.tokens = [] := by
      rw [← List.length_eq_zero_iff, ← List.length_eq_zero_iff, hs.tokens.length_eq]
    dsimp only
    rw [hs.stack, popResult, popResult, h.assertions]
    simp only [ne_eq, hnil]
    exact .refl (fun _ ↦ rfl) _

end Same

end Interpreter

/-! ## The interpreter of a document -/

namespace Workbook

/-- Where there are no names, none is found. -/
theorem NoNames.expandedTokens_of_mem {wb : Workbook} (h : wb.NoNames) (depth : Nat)
    {cell : FormulaCell} (pos : AbsAddress) {name : String}
    (hname : .namedExpression name ∈ cell.tokens) :
    wb.expandedTokens depth cell pos = .error (.exception (.formulaError .nameNotFound)) := by
  have hrun (tokens : List FormulaToken) (hname : .namedExpression name ∈ tokens)
      (s : ExpandState) : ∃ s', wb.initTokens depth { cell with tokens } pos s =
      .error (.exception (.formulaError .nameNotFound)) s' := by
    induction tokens generalizing s with
    | nil => exact absurd hname List.not_mem_nil
    | cons t tokens ih =>
      cases t with
      | namedExpression name' =>
        refine ⟨{ s with usedNames := name' :: s.usedNames }, ?_⟩
        show ((useName name' >>= fun _ ↦ wb.expandNamedExpression pos.sheet depth
          (wb.getNamedExpression pos.sheet name')) >>= fun _ ↦ _ : Exec ExpandState Unit) s = _
        rw [h.getNamedExpression]
        cases depth <;> rfl
      | _ =>
        obtain ⟨s', hs'⟩ := ih ((List.mem_cons.mp hname).resolve_left (by rintro ⟨⟩)) _
        exact ⟨s', hs'⟩
  obtain ⟨s', hs'⟩ : ∃ s', wb.initTokens depth cell pos ⟨[], []⟩ =
      .error (.exception (.formulaError .nameNotFound)) s' := hrun cell.tokens hname ⟨[], []⟩
  rw [expandedTokens, hs']

theorem spell_of_ne {wb : Workbook} {t : FormulaToken} (h : ∀ sid, t ≠ .string sid) :
    wb.spell t = (t, none) := by
  cases t with
  | string sid => exact absurd rfl (h sid)
  | _ => rfl

/-- Tokens other than strings are spelled alike only if they are equal. -/
theorem eq_of_spell {wb wb' : Workbook} {t t' : FormulaToken} (h : wb'.spell t' = wb.spell t)
    (ht : ∀ sid, t ≠ .string sid) : t' = t := by
  rw [spell_of_ne ht] at h
  cases t' with
  | string sid => exact absurd (congrArg Prod.fst h).symm (ht _)
  | _ => exact congrArg Prod.fst h

/-- Tokens that are spelled alike mean the same, if the functions among them do. -/
theorem sameToken_of_spell {env env' : Interpreter} {t t' : FormulaToken}
    (h : env'.workbook.spell t' = env.workbook.spell t)
    (hcall : ∀ func, t = .function func → env'.call func = env.call func) :
    Interpreter.SameToken env env' t t' := by
  by_cases ht : ∃ sid, t = .string sid
  · obtain ⟨sid, rfl⟩ := ht
    by_cases ht' : ∃ sid', t' = .string sid'
    · obtain ⟨sid', rfl⟩ := ht'
      exact .string (congrArg Prod.snd h)
    · have hne : ∀ sid', t' ≠ .string sid' := fun sid' heq ↦ ht' ⟨sid', heq⟩
      exact absurd (eq_of_spell h.symm hne).symm (hne sid)
  · have hne : ∀ sid, t ≠ .string sid := fun sid heq ↦ ht ⟨sid, heq⟩
    obtain rfl := eq_of_spell h hne
    by_cases hfunc : ∃ func, t' = .function func
    · obtain ⟨func, rfl⟩ := hfunc
      exact .function (hcall func rfl)
    · exact .other hne fun func heq ↦ hfunc ⟨func, heq⟩

theorem forall₂_of_spell {env env' : Interpreter} {tokens tokens' : List FormulaToken}
    (h : tokens'.map env'.workbook.spell = tokens.map env.workbook.spell)
    (hcall : ∀ func, .function func ∈ tokens → env'.call func = env.call func) :
    List.Forall₂ (Interpreter.SameToken env env') tokens tokens' := by
  have heq : List.Forall₂ (fun t t' ↦ env'.workbook.spell t' = env.workbook.spell t)
      tokens tokens' := by
    rw [← List.forall₂_eq_eq_eq, List.forall₂_map_left_iff, List.forall₂_map_right_iff] at h
    exact h.flip
  have hmem : List.Forall₂ (fun t t' ↦ t ∈ tokens ∧
      env'.workbook.spell t' = env.workbook.spell t) tokens tokens' :=
    (List.forall₂_and_left ..).mpr ⟨fun _ ht ↦ ht, heq⟩
  exact hmem.imp fun t t' ht ↦ sameToken_of_spell ht.2 fun func hfunc ↦ hcall func (hfunc ▸ ht.1)

/-- A token that is not a string occurs in all formulas that are spelled alike. -/
theorem mem_of_spell {wb wb' : Workbook} {tokens tokens' : List FormulaToken}
    (h : tokens'.map wb'.spell = tokens.map wb.spell) {t : FormulaToken} (ht : t ∈ tokens')
    (hne : ∀ sid, t ≠ .string sid) : t ∈ tokens := by
  have hmem : wb'.spell t ∈ tokens.map wb.spell := h ▸ List.mem_map_of_mem ht
  obtain ⟨u, hu, heq⟩ := List.mem_map.mp hmem
  exact eq_of_spell heq hne ▸ hu

end Workbook

/-- Two formulas that are spelled alike, in workbooks that have no names and do not differ in what
formulas may depend on, ask the same and come to the same, if the functions that they call do. -/
theorem formulaInterpreter_congr (lib : NumberLib)
    {call call' : Workbook → AbsAddress → FormulaFunction → StackM Unit} {wb wb' : Workbook}
    (hset : wb.SameSetting wb') (hno : wb.NoNames) {cell cell' : FormulaCell} {pos : AbsAddress}
    (htokens : cell'.tokens.map wb'.spell = cell.tokens.map wb.spell)
    (hcall : ∀ func, .function func ∈ cell.tokens → call' wb' pos func = call wb pos func) :
    formulaInterpreter lib call' wb' cell' pos = formulaInterpreter lib call wb cell pos := by
  rw [formulaInterpreter, formulaInterpreter, Interpreter.interpret, Interpreter.interpret]
  refine congrArg Interpreter.catchErrors ?_
  dsimp only
  by_cases hname : ∃ name, FormulaToken.namedExpression name ∈ cell.tokens
  · obtain ⟨name, hname⟩ := hname
    rw [hno.expandedTokens_of_mem _ pos hname,
      (hset.noNames hno).expandedTokens_of_mem _ pos
        (mem_of_spell htokens.symm hname (by rintro _ ⟨⟩))]
  · rw [wb.expandedTokens_of_noNames _ pos fun name hmem ↦ hname ⟨name, hmem⟩,
      wb'.expandedTokens_of_noNames _ pos fun name hmem ↦
        hname ⟨name, mem_of_spell htokens hmem (by rintro _ ⟨⟩)⟩]
    let env : Interpreter := ⟨lib, wb, pos, call wb pos, false⟩
    let env' : Interpreter := ⟨lib, wb', pos, call' wb' pos, false⟩
    have hbut : Interpreter.SameBut env env' := ⟨rfl, rfl, rfl, hset.sheetSize, fun p table ↦ by
      rw [tableRange, tableRange, hset.tableHandler]⟩
    have hsame : List.Forall₂ (Interpreter.SameToken env env') cell.tokens cell'.tokens :=
      forall₂_of_spell htokens hcall
    exact Interpreter.interpretTokens_eq_of_same hbut hsame

/-- What functions do depends on nothing but their arguments, what they read and the setting. -/
structure Calls (calls : Set (Workbook → AbsAddress → FormulaFunction → StackM Unit)) : Prop where
  reads : ∀ call ∈ calls, ∀ wb pos, ReadsArguments (call wb pos)
  setting : ∀ call ∈ calls, ∀ wb wb' pos func, wb.SameSetting wb' →
    call wb' pos func = call wb pos func
  agree : ∀ call ∈ calls, ∀ call' ∈ calls, ∀ wb pos func, isVolatile func = false →
    call' wb pos func = call wb pos func

/-- Evaluators that go by the tokens of formulas and by what the tokens refer to, and that agree on
all formulas which do not call a volatile function. -/
structure Evaluators (evs : Set Evaluator) : Prop where
  isLocal : ∀ ev ∈ evs, ev.Local
  reads : ∀ ev ∈ evs, ∀ wb, ev.ReadsReferences wb
  agree : ∀ ev ∈ evs, ∀ ev' ∈ evs, ∀ wb cell pos, wb.NoNames →
    hasVolatile cell.tokens = false → ev' wb cell pos = ev wb cell pos

/-- The interpreter is such an evaluator, where its functions may differ from one calculation to the
next as long as the others than the volatile ones do not. -/
theorem evaluators_formulaInterpreter (lib : NumberLib)
    {calls : Set (Workbook → AbsAddress → FormulaFunction → StackM Unit)} (h : Calls calls) :
    Evaluators (formulaInterpreter lib '' calls) where
  isLocal := by
    rintro _ ⟨call, hcall, rfl⟩ wb wb' cell cell' pos hset hno htokens
    exact formulaInterpreter_congr lib hset hno htokens fun func _ ↦
      h.setting call hcall wb wb' pos func hset
  reads := by
    rintro _ ⟨call, hcall, rfl⟩ wb
    exact formulaInterpreter_readsReferences lib wb (h.reads call hcall wb)
  agree := by
    rintro _ ⟨call, hcall, rfl⟩ _ ⟨call', hcall', rfl⟩ wb cell pos hno hvolatile
    refine formulaInterpreter_congr lib ⟨rfl, rfl, rfl, rfl⟩ hno rfl fun func hfunc ↦ ?_
    refine h.agree call hcall call' hcall' wb pos func ?_
    exact Bool.eq_false_iff.mpr fun hv ↦
      Bool.false_ne_true (hvolatile.symm.trans (List.any_eq_true.mpr ⟨_, hfunc, hv⟩))

end Ixion
