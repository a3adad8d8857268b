import Ixion.Interp.StackSize
import Ixion.NamedExpression

/-!
# What an interpretation leaves behind

Each function of the grammar takes a part of the tokens that is a matter of the tokens alone
(`skipExpression` and its companions), and where it returns it has put one value on the stack
in use and left the stacks of the enclosing calls as they were.  Both are shown by one
induction over the nesting of calls, which also shows that there are never more calls nested
than `interpret` provides for.
-/

namespace Ixion

open Lib Query ValueStack InterpM

/-! ## The tokens that are taken -/

namespace Interpreter

/-- The tokens after a sign that may be there. -/
def skipSign : List FormulaToken → List FormulaToken
  | .minus :: ts => ts
  | .plus :: ts => ts
  | ts => ts

/-- The tokens after the closing brace of an array. -/
def skipArray (ts : List FormulaToken) : Option (List FormulaToken) :=
  match ts.dropWhile (· ≠ .arrayClose) with
  | [] => none
  | _ :: ts => some ts

mutual

/-- The tokens after an expression. -/
def skipExpression : Nat → List FormulaToken → Option (List FormulaToken)
  | 0, _ => none
  | depth + 1, ts => do skipExpressionRest depth (← skipTerm depth ts)

/-- The tokens after the operators and terms that follow the first term of an expression. -/
def skipExpressionRest : Nat → List FormulaToken → Option (List FormulaToken)
  | 0, _ => none
  | depth + 1, ts =>
    match ts.head?.bind validExpressionOp with
    | none => some ts
    | some _ => do skipExpressionRest depth (← skipTerm depth ts.tail)

/-- The tokens after a term. -/
def skipTerm : Nat → List FormulaToken → Option (List FormulaToken)
  | 0, _ => none
  | depth + 1, ts => do
    match ← skipFactor depth ts with
    | .multiply :: ts => skipTerm depth ts
    | .exponent :: ts => skipTerm depth ts
    | .concat :: ts => skipTerm depth ts
    | .divide :: ts => skipTerm depth ts
    | ts => some ts

/-- The tokens after a factor. -/
def skipFactor : Nat → List FormulaToken → Option (List FormulaToken)
  | 0, _ => none
  | depth + 1, ts =>
    match skipSign ts with
    | .parenOpen :: ts => skipParen depth (.parenOpen :: ts)
    | .value _ :: ts => some ts
    | .error _ :: ts => some ts
    | .singleRef _ :: ts => some ts
    | .rangeRef _ :: ts => some ts
    | .tableRef _ :: ts => some ts
    | .function func :: ts => skipFunction depth (.function func :: ts)
    | .string _ :: ts => some ts
    | .arrayOpen :: ts => skipArray ts
    | _ => none

/-- The tokens after an expression in parentheses. -/
def skipParen : Nat → List FormulaToken → Option (List FormulaToken)
  | 0, _ => none
  | depth + 1, ts => do
    match ← skipExpression depth ts.tail with
    | .parenClose :: ts => some ts
    | _ => none

/-- The tokens after a function call. -/
def skipFunction : Nat → List FormulaToken → Option (List FormulaToken)
  | 0, _ => none
  | depth + 1, ts =>
    match ts.tail with
    | .parenOpen :: ts => List.tail <$> skipArguments depth false ts
    | _ => none

/-- The tokens from the closing parenthesis of a function call on. -/
def skipArguments : Nat → Bool → List FormulaToken → Option (List FormulaToken)
  | 0, _, _ => none
  | depth + 1, expectSep, ts =>
    match ts with
    | [] => none
    | .parenClose :: ts => some (.parenClose :: ts)
    | t :: ts =>
      if expectSep then
        if t = .sep then skipArguments depth false ts else none
      else do skipArguments depth true (← skipExpression depth (t :: ts))

end

end Interpreter

/-! ## Rules -/

/-- The tokens from the current one on, the size of the stack in use, and the other stacks. -/
structure InterpState.At (ts : List FormulaToken) (m : Nat) (outer : List ValueStack)
    (s : InterpState) : Prop where
  tokens : s.tokens = ts
  size : s.stack.length = m
  outer : s.outer = outer

namespace InterpM

/-- A part of an interpretation that starts at some tokens with a stack of some size ends with a
value, tokens, a size and other stacks that belong together. -/
abbrev Steps {α : Type} (E : Failure → Prop) (ts : List FormulaToken) (m : Nat)
    (outer : List ValueStack) (R : α → List FormulaToken → Nat → List ValueStack → Prop)
    (x : InterpM α) : Prop :=
  Meets (fun _ ↦ True) E (InterpState.At ts m outer)
    (fun a s ↦ R a s.tokens s.stack.length s.outer) x

variable {E : Failure → Prop} {α β : Type} {ts : List FormulaToken} {m : Nat}
  {outer : List ValueStack} {R : α → List FormulaToken → Nat → List ValueStack → Prop}
  {S : β → List FormulaToken → Nat → List ValueStack → Prop}

theorem steps_pure {a : α} (h : R a ts m outer) :
    Steps E ts m outer R (Pure.pure a : InterpM α) := by
  refine meets_pure fun s hs ↦ ?_
  rw [hs.tokens, hs.size, hs.outer]
  exact h

theorem steps_bind {x : InterpM α} {f : α → InterpM β} (hx : Steps E ts m outer R x)
    (hf : ∀ a ts' n outer', R a ts' n outer' → Steps E ts' n outer' S (f a)) :
    Steps E ts m outer S (x >>= f) :=
  meets_bind hx fun a s hs ↦ hf a _ _ _ hs s ⟨rfl, rfl, rfl⟩

theorem steps_fail {e : Failure} (h : E e) : Steps E ts m outer R (fail e : InterpM α) :=
  meets_throw h

theorem steps_raise {e : Exn} (h : E (.exception e)) :
    Steps E ts m outer R (raise e : InterpM α) :=
  meets_throw h

/-- Go on unless an exception is thrown. -/
theorem steps_guard {c : Prop} [Decidable c] {e : Exn} {f : Unit → InterpM β}
    (he : E (.exception e)) (h : ¬ c → Steps E ts m outer S (f ())) :
    Steps E ts m outer S (if c then raise e >>= f else f ()) := by
  split
  · exact steps_bind (R := fun _ _ _ _ ↦ False) (steps_raise he) fun _ _ _ _ h ↦ h.elim
  case isFalse hc => exact h hc

/-- Go on after either of two computations. -/
theorem steps_ite_bind {c : Prop} [Decidable c] {x y : InterpM α} {f : α → InterpM β}
    (hx : Steps E ts m outer R x) (hy : Steps E ts m outer R y)
    (hf : ∀ a ts' n outer', R a ts' n outer' → Steps E ts' n outer' S (f a)) :
    Steps E ts m outer S (if c then x >>= f else y >>= f) := by
  split
  · exact steps_bind hx hf
  · exact steps_bind hy hf

theorem steps_onStack_bind {x : StackM α} {f : α → InterpM β} {R : α → Nat → Prop}
    (hx : Sized E m R x) (hf : ∀ a n, R a n → Steps E ts n outer S (f a)) :
    Steps E ts m outer S (onStack x >>= f) := by
  refine steps_bind (R := fun a ts' n outer' ↦ R a n ∧ ts' = ts ∧ outer' = outer) ?_ ?_
  · rintro s ⟨rfl, hsize, rfl⟩
    exact ensures_bind (hx s.stack hsize) fun p hp ↦ ⟨hp, rfl, rfl⟩
  · rintro a _ n _ ⟨ha, rfl, rfl⟩
    exact hf a n ha

theorem steps_push_bind {v : StackValue} {f : Unit → InterpM β}
    (hf : Steps E ts (m + 1) outer S (f ())) : Steps E ts m outer S (push v >>= f) := by
  refine steps_onStack_bind (R := fun _ n ↦ n = m + 1) ?_ fun _ _ hn ↦ hn ▸ hf
  exact meets_modify fun s hs ↦ congrArg Nat.succ hs

theorem steps_push {v : StackValue} :
    Steps E ts m outer (fun _ ts' n outer' ↦ ts' = ts ∧ n = m + 1 ∧ outer' = outer) (push v) := by
  rintro s ⟨rfl, rfl, rfl⟩
  exact ⟨rfl, rfl, rfl⟩

theorem steps_token?_bind {f : Option FormulaToken → InterpM β}
    (hf : Steps E ts m outer S (f ts.head?)) : Steps E ts m outer S (token? >>= f) := by
  rintro s ⟨rfl, rfl, rfl⟩
  exact hf s ⟨rfl, rfl, rfl⟩

theorem steps_next_bind {f : Unit → InterpM β} (hf : Steps E ts.tail m outer S (f ())) :
    Steps E ts m outer S (next >>= f) := by
  rintro s ⟨rfl, rfl, rfl⟩
  exact hf _ ⟨rfl, rfl, rfl⟩

theorem steps_next_cons_bind {t : FormulaToken} {f : Unit → InterpM β}
    (hf : Steps E ts m outer S (f ())) : Steps E (t :: ts) m outer S (next >>= f) :=
  steps_next_bind hf

theorem steps_next :
    Steps E ts m outer (fun _ ts' n outer' ↦ ts' = ts.tail ∧ n = m ∧ outer' = outer) next := by
  rintro s ⟨rfl, rfl, rfl⟩
  exact ⟨rfl, rfl, rfl⟩

theorem steps_pushStack_bind {f : Unit → InterpM β}
    (hf : ∀ below : ValueStack, below.length = m → Steps E ts 0 (below :: outer) S (f ())) :
    Steps E ts m outer S (pushStack >>= f) := by
  rintro s ⟨rfl, hsize, rfl⟩
  exact hf s.stack hsize _ ⟨rfl, rfl, rfl⟩

theorem steps_get_bind {f : InterpState → InterpM β}
    (hf : ∀ s : InterpState, s.At ts m outer → Steps E ts m outer S (f s)) :
    Steps E ts m outer S (MonadState.get >>= f) :=
  fun s hs ↦ hf s hs s hs

theorem steps_assert_bind (env : Interpreter) {expr : String} {p : Prop} [Decidable p] (hp : p)
    {f : Unit → InterpM β} (hf : Steps E ts m outer S (f ())) :
    Steps E ts m outer S (env.assert expr p >>= f) := by
  rw [Interpreter.assert, if_neg fun h ↦ h.2 hp]
  exact hf

variable (hE : ∀ e, E (.exception e))

include hE

theorem steps_tokenOrThrow_bind {f : FormulaToken → InterpM β}
    (hf : ∀ t ts', ts = t :: ts' → Steps E (t :: ts') m outer S (f t)) :
    Steps E ts m outer S (tokenOrThrow >>= f) := by
  refine steps_bind
    (R := fun t ts' n outer' ↦ ts'.head? = some t ∧ ts' = ts ∧ n = m ∧ outer' = outer)
    (steps_token?_bind ?_) ?_
  · cases ts with
    | nil => exact steps_raise (hE _)
    | cons t ts => exact steps_pure ⟨rfl, rfl, rfl, rfl⟩
  · rintro t _ _ _ ⟨ht, rfl, rfl, rfl⟩
    obtain ⟨ts', rfl⟩ := List.head?_eq_some_iff.mp ht
    exact hf t ts' rfl

theorem steps_nextToken_bind {f : FormulaToken → InterpM β}
    (hf : ∀ t ts', ts.tail = t :: ts' → Steps E (t :: ts') m outer S (f t)) :
    Steps E ts m outer S (nextToken >>= f) := by
  refine steps_bind
    (R := fun t ts' n outer' ↦ ts'.head? = some t ∧ ts' = ts.tail ∧ n = m ∧ outer' = outer)
    (steps_next_bind (steps_token?_bind ?_)) ?_
  · cases hts : ts.tail with
    | nil => exact steps_raise (hE _)
    | cons t ts => exact steps_pure ⟨rfl, rfl, rfl, rfl⟩
  · rintro t ts'' _ _ ⟨ht, rfl, rfl, rfl⟩
    obtain ⟨ts', hts⟩ := List.head?_eq_some_iff.mp ht
    rw [hts]
    exact hf t ts' hts

end InterpM

/-! ## Values that are popped -/

namespace ValueStack

variable {E : Failure → Prop} (hE : ∀ e, E (.exception e)) {m : Nat}

include hE

/-- A matrix that is popped is taken off the stack, and any other value is left there. -/
theorem sized_maybePopMatrix (sheetSize : RcSize) :
    Sized E m (fun o n ↦ if o.isSome then n + 1 = m else n = m) (maybePopMatrix sheetSize) := by
  refine sized_back_bind hE fun v n hn ↦ ?_
  obtain rfl := hn
  cases v with
  | matrix mat => exact takesOne_bind sized_popBack fun _ ↦ sized_pure rfl
  | rangeRef range =>
    exact takesOne_bind (pops_popRangeValue hE sheetSize).takesOne fun _ ↦ sized_pure rfl
  | _ => exact sized_pure rfl

theorem sized_popMatrix (sheetSize : RcSize) :
    Sized E m (fun _ n ↦ n + 1 = m) (popMatrix sheetSize) := by
  refine sized_bind (sized_maybePopMatrix hE sheetSize) fun o n hn ↦ ?_
  cases o with
  | some mat => exact sized_pure hn
  | none => exact sized_raise hE _

theorem sized_popMatrixOr {α : Type} {x : StackM α} (hx : TakesOne E x) (sheetSize : RcSize)
    (r : α → ResolvedStackValue) :
    Sized E m (fun _ n ↦ n + 1 = m) (do
      match ← maybePopMatrix sheetSize with
      | some mat => return .matrix mat
      | none => return r (← x) : StackM ResolvedStackValue) := by
  cases m with
  | zero =>
    intro s hs
    obtain rfl := List.eq_nil_of_length_eq_zero hs
    exact hE _
  | succ m =>
    refine sized_bind (sized_maybePopMatrix hE sheetSize) fun o n hn ↦ ?_
    cases o with
    | some mat => exact sized_pure hn
    | none =>
      obtain rfl : n = m + 1 := hn
      exact takesOne_bind hx fun _ ↦ sized_pure rfl

theorem sized_popMatrixOrNumeric (sheetSize : RcSize) :
    Sized E m (fun _ n ↦ n + 1 = m) (popMatrixOrNumeric sheetSize) :=
  sized_popMatrixOr hE (pops_popValue hE).takesOne sheetSize .numeric

theorem sized_popMatrixOrString (lib : NumberLib) (sheetSize : RcSize) :
    Sized E m (fun _ n ↦ n + 1 = m) (popMatrixOrString lib sheetSize) :=
  sized_popMatrixOr hE (pops_popString hE lib).takesOne sheetSize .string

/-- A value that is popped for an operator is taken off the stack, except for a reference to a
range, for which there is none. -/
theorem sized_popStackValue (sheetSize : RcSize) :
    Sized E m (fun o n ↦ o ≠ none → n + 1 = m) (popStackValue sheetSize) := by
  refine sized_back_bind hE fun v n hn ↦ ?_
  obtain rfl := hn
  cases v with
  | boolean b => exact takesOne_bind (pops_popBoolean hE).takesOne fun _ ↦ sized_pure fun _ ↦ rfl
  | value q => exact takesOne_bind (pops_popValue hE).takesOne fun _ ↦ sized_pure fun _ ↦ rfl
  | string text => exact takesOne_bind sized_popBack fun _ ↦ sized_pure fun _ ↦ rfl
  | matrix mat =>
    exact sized_bind (sized_popMatrix hE sheetSize) fun _ _ hn ↦ sized_pure fun _ ↦ hn
  | error e => exact takesOne_bind (pops_popError hE).takesOne fun _ ↦ sized_pure fun _ ↦ rfl
  | singleRef a =>
    refine takesOne_bind (pops_popSingleRef hE).takesOne fun addr ↦ ?_
    refine sized_lift_bind (Reader.within_getCellValue trivial) fun w ↦ ?_
    cases w with
    | formula row column res =>
      refine sized_lift_bind (Reader.within_ofExcept hE _) fun r ↦ ?_
      cases r with
      | _ => exact sized_pure fun _ ↦ rfl
    | _ => exact sized_pure fun _ ↦ rfl
  | rangeRef range => exact sized_pure fun h ↦ absurd rfl h

end ValueStack

/-! ## The grammar -/

namespace Interpreter

/-- One value has been put on the stack in use, and a part of the tokens has been taken. -/
def OneMore (skipped : Option (List FormulaToken)) (ts : List FormulaToken) (m : Nat)
    (outer : List ValueStack) : Unit → List FormulaToken → Nat → List ValueStack → Prop :=
  fun _ ts' n outer' ↦
    skipped = some ts' ∧ ts'.length < ts.length ∧ n = m + 1 ∧ outer' = outer

/-- The functions of the grammar keep the stacks balanced as long as their calls may be nested
as deeply as the tokens need. -/
structure BalancedAt (E : Failure → Prop) (env : Interpreter) (depth : Nat) : Prop where
  expression : ∀ ts m outer, 5 * ts.length + 3 ≤ depth →
    Steps E ts m outer (OneMore (skipExpression depth ts) ts m outer) (env.expression depth)
  expressionRest : ∀ ts m outer, 5 * ts.length + 1 ≤ depth →
    Steps E ts (m + 1) outer
      (fun _ ts' n outer' ↦ skipExpressionRest depth ts = some ts' ∧ ts'.length ≤ ts.length ∧
        n = m + 1 ∧ outer' = outer) (env.expressionRest depth)
  term : ∀ ts m outer, 5 * ts.length + 2 ≤ depth →
    Steps E ts m outer (OneMore (skipTerm depth ts) ts m outer) (env.term depth)
  factor : ∀ ts m outer, 5 * ts.length + 1 ≤ depth →
    Steps E ts m outer (OneMore (skipFactor depth ts) ts m outer) (env.factor depth)
  paren : ∀ t ts m outer, 5 * (ts.length + 1) ≤ depth →
    Steps E (t :: ts) m outer (OneMore (skipParen depth (t :: ts)) (t :: ts) m outer)
      (env.paren depth)
  function : ∀ func t ts m outer, 5 * (ts.length + 1) ≤ depth →
    Steps E (t :: ts) m outer (OneMore (skipFunction depth (t :: ts)) (t :: ts) m outer)
      (env.function depth func)
  arguments : ∀ expectSep ts m outer, 5 * ts.length + 4 ≤ depth →
    Steps E ts m outer
      (fun _ ts' _ outer' ↦ skipArguments depth expectSep ts = some ts' ∧
        (∃ rest, ts' = .parenClose :: rest) ∧ ts'.length ≤ ts.length ∧ outer' = outer)
      (env.arguments depth expectSep)

variable {E : Failure → Prop} (hE : ∀ e, E (.exception e)) {env : Interpreter} {depth m : Nat}
  {ts : List FormulaToken} {outer : List ValueStack}

theorem length_skipSign (ts : List FormulaToken) : (skipSign ts).length ≤ ts.length := by
  rw [skipSign.eq_def]
  split
  · exact Nat.le_succ _
  · exact Nat.le_succ _
  · exact le_rfl

theorem skipArray_cons_of_ne {t : FormulaToken} (h : t ≠ .arrayClose) (ts : List FormulaToken) :
    skipArray (t :: ts) = skipArray ts := by
  rw [skipArray, skipArray, List.dropWhile_cons_of_pos (by simpa using h)]

theorem skipArray_skipSign (ts : List FormulaToken) : skipArray (skipSign ts) = skipArray ts := by
  rw [skipSign.eq_def]
  split
  · exact (skipArray_cons_of_ne (t := .minus) nofun _).symm
  · exact (skipArray_cons_of_ne (t := .plus) nofun _).symm
  · rfl

/-- Ending the stack of a function that has left one value keeps that value. -/
theorem steps_popStack (env : Interpreter) (below : ValueStack) :
    Steps E ts 1 (below :: outer)
      (fun _ ts' n outer' ↦ ts' = ts ∧ n = below.length + 1 ∧ outer' = outer) env.popStack := by
  refine steps_get_bind fun s hs ↦ ?_
  refine steps_assert_bind env (by rw [hs.outer]; exact List.cons_ne_nil _ _) ?_
  refine steps_assert_bind env hs.size ?_
  obtain ⟨v, hv⟩ := List.length_eq_one_iff.mp hs.size
  rw [hv, hs.outer]
  rintro t ht
  exact ⟨hs.tokens, rfl, rfl⟩

include hE

theorem steps_sign : Steps E ts m outer
    (fun _ ts' n outer' ↦ ts' = skipSign ts ∧ n = m ∧ outer' = outer) sign := by
  refine steps_tokenOrThrow_bind hE fun t ts' hts ↦ ?_
  subst hts
  have hskip : Steps E (t :: ts') m outer
      (fun _ ts'' n outer' ↦ ts'' = ts' ∧ n = m ∧ outer' = outer) (do
        next
        if (← token?).isNone then invalid "sign: a sign cannot be the last token" :
        InterpM Unit) := by
    refine steps_next_bind (steps_token?_bind ?_)
    split
    · exact steps_raise (hE _)
    · exact steps_pure ⟨rfl, rfl, rfl⟩
  cases t with
  | minus => exact steps_bind hskip fun _ _ _ _ h ↦ steps_pure h
  | plus => exact steps_bind hskip fun _ _ _ _ h ↦ steps_pure h
  | _ => exact steps_pure ⟨rfl, rfl, rfl⟩

theorem steps_stringOrThrow_bind {β : Type}
    {S : β → List FormulaToken → Nat → List ValueStack → Prop}
    {sid : StringId} {f : Text → InterpM β} (hf : ∀ s, Steps E ts m outer S (f s)) :
    Steps E ts m outer S (env.stringOrThrow sid >>= f) := by
  rw [stringOrThrow]
  split
  · exact hf _
  · exact steps_bind (R := fun _ _ _ _ ↦ False) (steps_raise (hE _)) fun _ _ _ _ h ↦ h.elim

/-- An array is taken up to its closing brace. -/
theorem steps_arrayElements (a : ArrayState) (h : ts.length + 1 ≤ depth) :
    Steps E ts m outer (OneMore (skipArray ts) ts m outer) (env.arrayElements depth a) := by
  induction depth generalizing ts a with
  | zero => exact absurd h (Nat.not_succ_le_zero _)
  | succ depth ih =>
    rw [arrayElements]
    refine steps_token?_bind ?_
    dsimp only
    refine steps_guard (hE _) fun _ ↦ ?_
    refine steps_ite_bind
      (R := fun _ ts' n outer' ↦
        (skipArray ts' = skipArray ts ∧ ts'.length ≤ ts.length) ∧ n = m ∧ outer' = outer)
      ?_ ?_ fun hasSign ts' n outer' ↦ ?_
    · refine (steps_sign hE).post ?_
      rintro _ s ⟨hs, hsize⟩
      exact ⟨hs ▸ ⟨skipArray_skipSign ts, length_skipSign ts⟩, hsize⟩
    · exact steps_pure ⟨⟨rfl, le_rfl⟩, rfl, rfl⟩
    rintro ⟨⟨hskip, hlength⟩, rfl, rfl⟩
    refine steps_tokenOrThrow_bind hE fun t rest hts ↦ ?_
    subst hts
    have hrest : rest.length < ts.length := hlength
    -- an element or a separator is taken, and the rest is taken as an array
    have hnext (ht : t ≠ .arrayClose) (a : ArrayState) :
        Steps E (t :: rest) n outer' (OneMore (skipArray ts) ts n outer')
          (do next; env.arrayElements depth a) := by
      refine steps_next_cons_bind ((@ih rest a (by omega)).post ?_)
      rintro _ s ⟨hs, hless, hsize⟩
      exact ⟨by rw [← hskip, skipArray_cons_of_ne ht, hs], hless.trans hrest, hsize⟩
    cases t with
    | string sid =>
      exact steps_guard (hE _) fun _ ↦ steps_stringOrThrow_bind hE fun _ ↦ hnext (by rintro ⟨⟩) _
    | value v => exact steps_guard (hE _) fun _ ↦ hnext (by rintro ⟨⟩) _
    | sep => exact steps_guard (hE _) fun _ ↦ hnext (by rintro ⟨⟩) _
    | arrayRowSep =>
      exact steps_guard (hE _) fun _ ↦ steps_guard (hE _) fun _ ↦ hnext (by rintro ⟨⟩) _
    | arrayClose =>
      refine steps_guard (hE _) fun _ ↦ steps_guard (hE _) fun _ ↦ steps_push_bind ?_
      refine steps_next.post ?_
      rintro _ s ⟨hs, hsize⟩
      exact ⟨by rw [← hskip, hs]; rfl, by rw [hs]; exact hrest, hsize⟩
    | _ => exact steps_raise (hE _)

variable (hat : BalancedAt E env depth)

omit hE in
theorem skipArguments_cons {t : FormulaToken} (ht : t = .parenClose → False) {expectSep : Bool} :
    skipArguments (depth + 1) expectSep (t :: ts) =
      if expectSep then if t = .sep then skipArguments depth false ts else none
      else (skipExpression depth (t :: ts)).bind (skipArguments depth true) := by
  cases t with
  | parenClose => exact absurd rfl ht
  | _ => rfl

include hat

omit hE in
theorem balanced_expression (h : 5 * ts.length + 3 ≤ depth + 1) :
    Steps E ts m outer (OneMore (skipExpression (depth + 1) ts) ts m outer)
      (env.expression (depth + 1)) := by
  rw [expression, skipExpression]
  refine steps_bind (hat.term ts m outer (by omega)) ?_
  rintro _ ts' _ _ ⟨hterm, hless, rfl, rfl⟩
  refine (hat.expressionRest ts' m _ (by omega)).post ?_
  rintro _ s ⟨hrest, hle, hsize⟩
  exact ⟨by rw [hterm]; exact hrest, by omega, hsize⟩

theorem balanced_expressionRest (h : 5 * ts.length + 1 ≤ depth + 1) :
    Steps E ts (m + 1) outer
      (fun _ ts' n outer' ↦ skipExpressionRest (depth + 1) ts = some ts' ∧ ts'.length ≤ ts.length ∧
        n = m + 1 ∧ outer' = outer) (env.expressionRest (depth + 1)) := by
  rw [expressionRest, skipExpressionRest]
  refine steps_token?_bind ?_
  dsimp only
  cases hoc : ts.head?.bind validExpressionOp with
  | none => exact steps_pure ⟨rfl, le_rfl, rfl, rfl⟩
  | some oc =>
    obtain ⟨t, rest, rfl⟩ : ∃ t rest, ts = t :: rest := by
      cases ts with
      | nil => exact absurd hoc (by rintro ⟨⟩)
      | cons t rest => exact ⟨t, rest, rfl⟩
    rw [List.length_cons] at h
    refine steps_onStack_bind (sized_popStackValue hE _) fun sv1 n hn ↦ ?_
    cases sv1 with
    | none => exact steps_raise (hE _)
    | some sv1 =>
      obtain rfl := Nat.succ.inj (hn (by rintro ⟨⟩))
      refine steps_next_cons_bind
        (steps_bind (hat.term rest n outer (by omega)) ?_)
      rintro _ ts' _ _ ⟨hterm, hless, rfl, rfl⟩
      refine steps_onStack_bind (sized_popStackValue hE _) fun sv2 k hk ↦ ?_
      cases sv2 with
      | none => exact steps_raise (hE _)
      | some sv2 =>
        obtain rfl := Nat.succ.inj (hk (by rintro ⟨⟩))
        dsimp only
        split
        · refine steps_push_bind ((hat.expressionRest ts' k _ (by omega)).post ?_)
          rintro _ s ⟨hrest, hle, hsize⟩
          exact ⟨by rw [List.tail_cons, hterm]; exact hrest,
            (hle.trans hless.le).trans (Nat.le_succ _), hsize⟩
        · exact steps_bind (R := fun _ _ _ _ ↦ False) (steps_raise (hE _)) fun _ _ _ _ h ↦ h.elim

omit hE in
/-- What an operator of a term does with the factor before it and the term after it. -/
theorem balanced_operator {t : FormulaToken} {α : Type} {x : StackM α} {f : α → α → InterpM Unit}
    (hx : ∀ m, Sized E m (fun _ n ↦ n + 1 = m) x)
    (hf : ∀ lhs rhs ts m outer,
      Steps E ts m outer (fun _ ts' n outer' ↦ ts' = ts ∧ n = m + 1 ∧ outer' = outer)
        (f lhs rhs))
    (h : 5 * ts.length + 2 ≤ depth) :
    Steps E (t :: ts) (m + 1) outer (OneMore (skipTerm depth ts) ts m outer) (do
      let lhs ← onStack x
      next
      env.term depth
      let rhs ← onStack x
      f lhs rhs) := by
  refine steps_onStack_bind (hx _) fun lhs n hn ↦ ?_
  obtain rfl := Nat.succ.inj hn
  refine steps_next_cons_bind (steps_bind (hat.term ts n outer h) ?_)
  rintro _ ts' _ _ ⟨hterm, hless, rfl, rfl⟩
  refine steps_onStack_bind (hx _) fun rhs k hk ↦ ?_
  obtain rfl := Nat.succ.inj hk
  refine (hf lhs rhs _ _ _).post ?_
  rintro _ s ⟨rfl, hsize⟩
  exact ⟨hterm, hless, hsize⟩

theorem balanced_term (h : 5 * ts.length + 2 ≤ depth + 1) :
    Steps E ts m outer (OneMore (skipTerm (depth + 1) ts) ts m outer) (env.term (depth + 1)) := by
  rw [term, skipTerm]
  refine steps_bind (hat.factor ts m outer (by omega)) ?_
  rintro _ ts' _ outer' ⟨hfactor, hless, rfl, rfl⟩
  rw [hfactor]
  refine steps_token?_bind ?_
  cases ts' with
  | nil => exact steps_pure ⟨rfl, hless, rfl, rfl⟩
  | cons t rest =>
    rw [List.length_cons] at hless
    have hlonger {x : InterpM Unit}
        (hx : Steps E (t :: rest) (m + 1) outer' (OneMore (skipTerm depth rest) rest m outer') x) :
        Steps E (t :: rest) (m + 1) outer' (OneMore (skipTerm depth rest) ts m outer') x := by
      refine hx.post ?_
      rintro _ s ⟨hs, hrest, hsize⟩
      exact ⟨hs, by omega, hsize⟩
    have hrest : 5 * rest.length + 2 ≤ depth := by omega
    have harithmetic (op : TermOp) := hlonger <| balanced_operator (f := env.applyTermOp op) hat
      (fun _ ↦ sized_popMatrixOrNumeric hE env.workbook.sheetSize) (fun lhs rhs ts m outer ↦ by
        rw [applyTermOp]
        split
        · exact steps_push
        · exact steps_raise (hE _)) hrest
    cases t with
    | multiply => exact harithmetic .multiply
    | exponent => exact harithmetic .exponent
    | divide => exact harithmetic .divide
    | concat =>
      refine hlonger (balanced_operator hat
        (fun _ ↦ sized_popMatrixOrString hE env.lib env.workbook.sheetSize)
        (fun lhs rhs ts m outer ↦ ?_) hrest)
      split
      · exact steps_push
      · exact steps_raise (hE _)
    | _ => exact steps_pure ⟨rfl, hless, rfl, rfl⟩

theorem balanced_paren {t : FormulaToken} (h : 5 * (ts.length + 1) ≤ depth + 1) :
    Steps E (t :: ts) m outer (OneMore (skipParen (depth + 1) (t :: ts)) (t :: ts) m outer)
      (env.paren (depth + 1)) := by
  rw [paren, skipParen]
  refine steps_next_cons_bind (steps_bind (hat.expression ts m outer (by omega)) ?_)
  rintro _ ts' _ outer' ⟨hexpression, hless, rfl, rfl⟩
  refine steps_tokenOrThrow_bind hE fun t' rest hts ↦ ?_
  subst hts
  refine steps_guard (hE _) fun ht ↦ ?_
  obtain rfl := not_not.mp ht
  refine steps_next.post ?_
  rintro _ s ⟨hs, hsize⟩
  refine ⟨by rw [List.tail_cons, hexpression, hs]; rfl, ?_, hsize⟩
  rw [hs]
  exact (Nat.lt_of_succ_lt hless).trans (Nat.lt_succ_self _)

theorem balanced_arguments (expectSep : Bool) (h : 5 * ts.length + 4 ≤ depth + 1) :
    Steps E ts m outer
      (fun _ ts' _ outer' ↦ skipArguments (depth + 1) expectSep ts = some ts' ∧
        (∃ rest, ts' = .parenClose :: rest) ∧ ts'.length ≤ ts.length ∧ outer' = outer)
      (env.arguments (depth + 1) expectSep) := by
  rw [arguments]
  refine steps_tokenOrThrow_bind hE fun t rest hts ↦ ?_
  subst hts
  split
  · exact steps_pure ⟨rfl, ⟨rest, rfl⟩, le_rfl, rfl⟩
  case h_2 ht =>
    rw [skipArguments_cons ht]
    rw [List.length_cons] at h
    split
    · refine steps_guard (hE _) fun hsep ↦ ?_
      rw [if_pos (not_not.mp hsep)]
      refine steps_next_cons_bind ((hat.arguments false rest m outer (by omega)).post ?_)
      rintro _ s ⟨hs, hclose, hle, houter⟩
      exact ⟨hs, hclose, hle.trans (Nat.le_succ _), houter⟩
    · refine steps_bind (hat.expression (t :: rest) m outer (by rw [List.length_cons]; omega)) ?_
      rintro _ ts' n outer' ⟨hexpression, hless, -, rfl⟩
      rw [List.length_cons] at hless
      refine (hat.arguments true ts' n _ (by omega)).post ?_
      rintro _ s ⟨hs, hclose, hle, houter⟩
      exact ⟨by rw [hexpression]; exact hs, hclose, hle.trans hless.le, houter⟩

theorem balanced_function (hcall : ∀ func, LeavesOne E (env.call func)) (func : FormulaFunction)
    {t : FormulaToken} (h : 5 * (ts.length + 1) ≤ depth + 1) :
    Steps E (t :: ts) m outer (OneMore (skipFunction (depth + 1) (t :: ts)) (t :: ts) m outer)
      (env.function (depth + 1) func) := by
  rw [function, skipFunction]
  refine steps_pushStack_bind fun below hbelow ↦ ?_
  refine steps_nextToken_bind hE fun t' ts' hts ↦ ?_
  obtain rfl : ts = t' :: ts' := hts
  refine steps_guard (hE _) fun ht ↦ ?_
  obtain rfl := not_not.mp ht
  refine steps_nextToken_bind hE fun t' ts'' hts ↦ ?_
  obtain rfl : ts' = t' :: ts'' := hts
  simp only [List.length_cons] at h
  refine steps_bind (hat.arguments false (t' :: ts'') 0 _ (by rw [List.length_cons]; omega)) ?_
  rintro _ _ n _ ⟨harguments, ⟨rest, rfl⟩, hle, rfl⟩
  refine steps_next_cons_bind (steps_onStack_bind (hcall func n) ?_)
  rintro _ _ rfl
  refine steps_get_bind fun s hs ↦ steps_assert_bind env hs.size ?_
  refine (steps_popStack env below).post ?_
  rintro _ s' ⟨htokens, hsize, houter⟩
  simp only [List.length_cons] at hle
  refine ⟨?_, ?_, by rw [hsize, hbelow], houter⟩
  · show List.tail <$> skipArguments depth false (t' :: ts'') = _
    rw [htokens, harguments]
    rfl
  · rw [htokens]
    simp only [List.length_cons]
    omega

omit hE hat in
theorem steps_pushRangeRef_bind (hvalid : E (.assertionFailed "val.valid()")) (range : AbsRange)
    {f : Unit → InterpM Unit} {S : Unit → List FormulaToken → Nat → List ValueStack → Prop}
    (hf : Steps E ts (m + 1) outer S (f ())) :
    Steps E ts m outer S (env.pushRangeRef range >>= f) := by
  refine steps_bind (R := fun _ ts' n outer' ↦ ts' = ts ∧ n = m + 1 ∧ outer' = outer) ?_ ?_
  · refine steps_bind (R := fun _ ts' n outer' ↦ ts' = ts ∧ n = m ∧ outer' = outer) ?_ ?_
    · rw [assert]
      split
      · exact steps_fail hvalid
      · exact steps_pure ⟨rfl, rfl, rfl⟩
    · rintro _ _ _ _ ⟨rfl, rfl, rfl⟩
      exact steps_push
  · rintro _ _ _ _ ⟨rfl, rfl, rfl⟩
    exact hf

theorem balanced_factor (hvalid : E (.assertionFailed "val.valid()"))
    (h : 5 * ts.length + 1 ≤ depth + 1) :
    Steps E ts m outer (OneMore (skipFactor (depth + 1) ts) ts m outer)
      (env.factor (depth + 1)) := by
  rw [factor]
  refine steps_bind (steps_sign hE) ?_
  rintro negativeSign ts' m outer ⟨hts, rfl, rfl⟩
  refine steps_bind (R := OneMore (skipFactor (depth + 1) ts) ts m outer) ?_ ?_
  · refine steps_tokenOrThrow_bind hE fun t rest hrest ↦ ?_
    subst hrest
    have hlength := length_skipSign ts
    rw [← hts, List.length_cons] at hlength
    rw [skipFactor, ← hts]
    -- a factor of one token
    have hnext : Steps E (t :: rest) (m + 1) outer (OneMore (some rest) ts m outer) next := by
      refine steps_next.post ?_
      rintro _ s ⟨hs, hsize⟩
      exact ⟨congrArg some hs.symm, by rw [hs]; exact hlength, hsize⟩
    have hvalue (v : StackValue) : Steps E (t :: rest) m outer (OneMore (some rest) ts m outer)
        (do next; push v) := by
      refine steps_next_cons_bind (steps_push.post ?_)
      rintro _ s ⟨hs, hsize⟩
      exact ⟨congrArg some hs.symm, by rw [hs]; exact hlength, hsize⟩
    -- a factor that begins with this token
    have hwhole {skipped : Option (List FormulaToken)} {x : InterpM Unit}
        (hx : Steps E (t :: rest) m outer (OneMore skipped (t :: rest) m outer) x) :
        Steps E (t :: rest) m outer (OneMore skipped ts m outer) x := by
      refine hx.post ?_
      rintro _ s ⟨hs, hless, hsize⟩
      exact ⟨hs, hless.trans_le hlength, hsize⟩
    cases t with
    | parenOpen => exact hwhole (hat.paren .parenOpen rest m outer (by omega))
    | value v => exact hvalue _
    | error e => exact hvalue _
    | singleRef addr =>
      show Steps E _ _ _ (OneMore (some rest) ts m outer) (env.singleRef addr)
      rw [singleRef]
      exact steps_guard (hE _) fun _ ↦ steps_push_bind hnext
    | rangeRef range =>
      show Steps E _ _ _ (OneMore (some rest) ts m outer) (env.rangeRef range)
      rw [rangeRef]
      exact steps_guard (hE _) fun _ ↦ steps_pushRangeRef_bind hvalid _ hnext
    | tableRef table =>
      show Steps E _ _ _ (OneMore (some rest) ts m outer) (env.tableRef table)
      rw [tableRef]
      split
      · exact steps_raise (hE _)
      · exact steps_pushRangeRef_bind hvalid _ hnext
    | function func => exact hwhole (hat.function func (.function func) rest m outer (by omega))
    | string sid => exact steps_stringOrThrow_bind hE fun s ↦ hvalue _
    | arrayOpen =>
      refine steps_next_cons_bind
        ((steps_arrayElements hE _ (by omega)).post ?_)
      rintro _ s ⟨hs, hless, hsize⟩
      exact ⟨hs, hless.trans hlength, hsize⟩
    | _ => exact steps_raise (hE _)
  · rintro _ ts'' _ outer'' ⟨hfactor, hless, rfl, rfl⟩
    split
    · refine steps_onStack_bind ((pops_popValue hE).takesOne _) fun v n hn ↦ ?_
      refine steps_push.post ?_
      rintro _ s ⟨rfl, hsize, houter⟩
      exact ⟨hfactor, hless, by rw [hsize, hn], houter⟩
    · exact steps_pure ⟨hfactor, hless, rfl, rfl⟩

omit hat in
/-- The functions of the grammar keep the stacks balanced. -/
theorem balancedAt (hcall : ∀ func, LeavesOne E (env.call func))
    (hvalid : E (.assertionFailed "val.valid()")) (depth : Nat) : BalancedAt E env depth := by
  induction depth with
  | zero =>
    exact ⟨fun _ _ _ h ↦ absurd h nofun, fun _ _ _ h ↦ absurd h nofun,
      fun _ _ _ h ↦ absurd h nofun, fun _ _ _ h ↦ absurd h nofun,
      fun _ _ _ _ h ↦ absurd h nofun, fun _ _ _ _ _ h ↦ absurd h nofun,
      fun _ _ _ _ h ↦ absurd h nofun⟩
  | succ depth ih =>
    exact ⟨fun _ _ _ h ↦ balanced_expression ih h, fun _ _ _ h ↦ balanced_expressionRest hE ih h,
      fun _ _ _ h ↦ balanced_term hE ih h, fun _ _ _ h ↦ balanced_factor hE ih hvalid h,
      fun _ _ _ _ h ↦ balanced_paren hE ih h,
      fun func _ _ _ _ h ↦ balanced_function hE ih hcall func h,
      fun expectSep _ _ _ h ↦ balanced_arguments hE ih expectSep h⟩

omit hat in
variable (env) in
/-- A formula that is interpreted as an expression leaves one value, and the tokens that are left
over are those after the expression. -/
theorem balanced_formula (hcall : ∀ func, LeavesOne E (env.call func))
    (hvalid : E (.assertionFailed "val.valid()")) (tokens : List FormulaToken) :
    (env.expression (depthFor tokens) ⟨tokens, [], []⟩).Ensures (fun _ ↦ True) E fun p ↦
      skipExpression (depthFor tokens) tokens = some p.2.tokens ∧ p.2.stack.length = 1 ∧
        p.2.outer = [] := by
  refine ((balancedAt hE hcall hvalid (depthFor tokens)).expression tokens 0 []
    (Nat.add_le_add_left (by decide) _) _ ⟨rfl, rfl, rfl⟩).mono ?_
  rintro p ⟨hskip, -, hsize, houter⟩
  exact ⟨hskip, hsize, houter⟩

end Interpreter

/-- There are no more names than named expressions. -/
theorem Workbook.card_names_le (wb : Workbook) : wb.names.card ≤ wb.nameCount := by
  refine (List.toFinset_card_le _).trans_eq ?_
  rw [List.length_map, List.length_append, List.length_flatMap]
  rfl

/-- The expansion of a formula that is interpreted fails in two ways only. -/
theorem Workbook.expansionFails {wb : Workbook} {cell : FormulaCell} {pos : AbsAddress}
    {e : Failure}
    (h : wb.expandedTokens (wb.nameCount + 1) cell pos = .error e) : ExpansionFails e :=
  expansionFails_of_expandedTokens (Nat.lt_succ_of_le wb.card_names_le) h

end Ixion
