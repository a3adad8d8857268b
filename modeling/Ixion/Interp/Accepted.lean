import Ixion.Interp.Meaning

/-!
# The formulas that are accepted

Where the interpreter comes to a result, it has taken a tree of the grammar off the tokens, and
there is only one tree it can have taken.  The stacks and the values on them have nothing to do with
that.
-/

namespace Ixion

open Lib InterpM

namespace Grammar

open ArrayLiteral (Sign)

/-! ## What is taken apart -/

section Takes

open Interpreter

variable {α β : Type} {ts : List FormulaToken} {R : α → List FormulaToken → Prop}
  {S : β → List FormulaToken → Prop}

/-- Where a part of an interpretation that starts at some tokens returns, its value and the tokens
that are left belong together. -/
def Takes (ts : List FormulaToken) (R : α → List FormulaToken → Prop) (x : InterpM α) : Prop :=
  ∀ s, s.tokens = ts → (x s).Returns fun p ↦ R p.1 p.2.tokens

theorem takes_pure {a : α} (h : R a ts) : Takes ts R (pure a : InterpM α) := by
  rintro s rfl
  exact h

theorem takes_bind {x : InterpM α} {f : α → InterpM β} (hx : Takes ts R x)
    (hf : ∀ a ts', R a ts' → Takes ts' S (f a)) : Takes ts S (x >>= f) := fun s hs ↦
  Query.returns_bind (Query.returns_mono (fun p hp ↦ hf p.1 _ hp p.2 rfl) (hx s hs))

theorem takes_fail (e : Failure) : Takes ts R (fail e : InterpM α) := fun _ _ ↦ trivial

theorem takes_raise (e : Exn) : Takes ts R (raise e : InterpM α) := fun _ _ ↦ trivial

theorem Takes.post {R' : α → List FormulaToken → Prop} {x : InterpM α} (hx : Takes ts R x)
    (h : ∀ a ts', R a ts' → R' a ts') : Takes ts R' x := fun s hs ↦
  Query.returns_mono (fun p hp ↦ h p.1 _ hp) (hx s hs)

theorem takes_raise_bind (e : Exn) (f : α → InterpM β) : Takes ts S (raise e >>= f) :=
  takes_bind (R := fun _ _ ↦ False) (takes_raise e) fun _ _ h ↦ h.elim

/-- Go on unless an exception is thrown. -/
theorem takes_guard {c : Prop} [Decidable c] {e : Exn} {f : Unit → InterpM β}
    (h : ¬ c → Takes ts S (f ())) : Takes ts S (if c then raise e >>= f else f ()) := by
  split
  · exact takes_raise_bind e f
  case isFalse hc => exact h hc

/-- Go on after either of two computations. -/
theorem takes_ite_bind {c : Prop} [Decidable c] {x y : InterpM α} {f : α → InterpM β}
    (hx : Takes ts R x) (hy : Takes ts R y) (hf : ∀ a ts', R a ts' → Takes ts' S (f a)) :
    Takes ts S (if c then x >>= f else y >>= f) := by
  split
  · exact takes_bind hx hf
  · exact takes_bind hy hf

/-- The stack has nothing to do with the tokens. -/
theorem takes_onStack (x : StackM α) : Takes ts (fun _ ts' ↦ ts' = ts) (onStack x) := fun _ hs ↦
  Query.returns_bind (Query.returns_of_forall (fun _ ↦ hs) _)

theorem takes_onStack_bind {x : StackM α} {f : α → InterpM β} (hf : ∀ a, Takes ts S (f a)) :
    Takes ts S (onStack x >>= f) :=
  takes_bind (takes_onStack x) fun a _ h ↦ h ▸ hf a

theorem takes_push_bind {v : StackValue} {f : Unit → InterpM β} (hf : Takes ts S (f ())) :
    Takes ts S (push v >>= f) :=
  takes_onStack_bind fun _ ↦ hf

theorem takes_next : Takes ts (fun _ ts' ↦ ts' = ts.tail) next := fun _ hs ↦ hs ▸ rfl

theorem takes_next_bind {f : Unit → InterpM β} (hf : Takes ts.tail S (f ())) :
    Takes ts S (next >>= f) :=
  takes_bind takes_next fun _ _ h ↦ h ▸ hf

theorem takes_token?_bind {f : Option FormulaToken → InterpM β} (hf : Takes ts S (f ts.head?)) :
    Takes ts S (token? >>= f) := by
  rintro s rfl
  exact hf s rfl

theorem takes_tokenOrThrow_bind {f : FormulaToken → InterpM β}
    (hf : ∀ t ts', ts = t :: ts' → Takes (t :: ts') S (f t)) :
    Takes ts S (tokenOrThrow >>= f) := by
  refine takes_bind (R := fun t ts' ↦ ts'.head? = some t ∧ ts' = ts) (takes_token?_bind ?_) ?_
  · cases ts with
    | nil => exact takes_raise _
    | cons t ts => exact takes_pure ⟨rfl, rfl⟩
  · rintro t _ ⟨ht, rfl⟩
    obtain ⟨ts', rfl⟩ := List.head?_eq_some_iff.mp ht
    exact hf t ts' rfl

theorem takes_nextToken_bind {f : FormulaToken → InterpM β}
    (hf : ∀ t ts', ts.tail = t :: ts' → Takes (t :: ts') S (f t)) :
    Takes ts S (nextToken >>= f) := by
  refine takes_bind (R := fun t ts' ↦ ts'.head? = some t ∧ ts' = ts.tail)
    (takes_next_bind (takes_token?_bind ?_)) ?_
  · cases hts : ts.tail with
    | nil => exact takes_raise _
    | cons t ts => exact takes_pure ⟨rfl, rfl⟩
  · rintro t ts'' ⟨ht, rfl⟩
    obtain ⟨ts', hts⟩ := List.head?_eq_some_iff.mp ht
    rw [hts]
    exact hf t ts' hts

theorem takes_assert (env : Interpreter) (expr : String) (p : Prop) [Decidable p] :
    Takes ts (fun _ ts' ↦ ts' = ts) (env.assert expr p) := by
  rw [Interpreter.assert]
  split
  · exact takes_fail _
  · exact takes_pure rfl

theorem takes_assert_bind (env : Interpreter) {expr : String} {p : Prop} [Decidable p]
    {f : Unit → InterpM β} (hf : Takes ts S (f ())) : Takes ts S (env.assert expr p >>= f) :=
  takes_bind (takes_assert env expr p) fun _ _ h ↦ h ▸ hf

theorem takes_get_bind {f : InterpState → InterpM β} (hf : ∀ s, s.tokens = ts → Takes ts S (f s)) :
    Takes ts S (MonadState.get >>= f) := fun s hs ↦ hf s hs s hs

theorem takes_pushStack_bind {f : Unit → InterpM β} (hf : Takes ts S (f ())) :
    Takes ts S (pushStack >>= f) := by
  rintro s rfl
  exact hf _ rfl

theorem takes_popStack (env : Interpreter) : Takes ts (fun _ ts' ↦ ts' = ts) env.popStack := by
  refine takes_get_bind fun s hs ↦ takes_assert_bind env (takes_assert_bind env ?_)
  rcases s.stack with _ | ⟨v, stack⟩
  · exact takes_fail _
  rcases s.outer with _ | ⟨stack', outer⟩
  · exact takes_fail _
  rintro t rfl
  exact hs

/-! ## The grammar -/

theorem takes_sign : Takes ts (fun minus ts' ↦ ∃ sign : Option Sign,
    ts = (sign.map Sign.token).toList ++ ts' ∧ minus = decide (sign = some .minus)) sign := by
  refine takes_tokenOrThrow_bind fun t ts' hts ↦ ?_
  have hskip : Takes (t :: ts') (fun _ ts'' ↦ ts'' = ts') (do
      next
      if (← token?).isNone then invalid "sign: a sign cannot be the last token" :
      InterpM Unit) := by
    refine takes_next_bind (takes_token?_bind ?_)
    split
    · exact takes_raise _
    · exact takes_pure rfl
  subst hts
  cases t with
  | minus =>
    refine takes_bind hskip fun _ ts'' h ↦ takes_pure ⟨some .minus, ?_, rfl⟩
    rw [h]
    rfl
  | plus =>
    refine takes_bind hskip fun _ ts'' h ↦ takes_pure ⟨some .plus, ?_, rfl⟩
    rw [h]
    rfl
  | _ => exact takes_pure ⟨none, rfl, rfl⟩

theorem sign_token_ne (sign : Sign) : sign.token ≠ .arrayClose := by
  cases sign <;> rintro ⟨⟩

theorem takes_stringOrThrow_bind (env : Interpreter) {sid : StringId} {f : Text → InterpM β}
    (hf : ∀ s, Takes ts S (f s)) : Takes ts S (env.stringOrThrow sid >>= f) := by
  rw [stringOrThrow]
  split
  · exact hf _
  · exact takes_raise_bind _ f

theorem takes_pushRangeRef_bind (env : Interpreter) {range : AbsRange} {f : Unit → InterpM β}
    (hf : Takes ts S (f ())) : Takes ts S (env.pushRangeRef range >>= f) := by
  refine takes_bind (R := fun _ ts' ↦ ts' = ts) ?_ fun _ _ h ↦ h ▸ hf
  exact takes_assert_bind env (takes_onStack _)

theorem opToken_of_validExpressionOp {t : FormulaToken} {oc : ExpressionOp}
    (h : validExpressionOp t = some oc) : Comparison.opToken oc = t := by
  cases t <;> cases h <;> rfl

/-- The tokens of an array up to its closing brace. -/
def TakesBraced (ts ts' : List FormulaToken) : Prop :=
  ∃ braced : Braced, ts = braced.1 ++ .arrayClose :: ts'

theorem takes_arrayElements (env : Interpreter) (depth : Nat) (a : ArrayState)
    (ts : List FormulaToken) :
    Takes ts (fun _ ts' ↦ TakesBraced ts ts') (env.arrayElements depth a) := by
  induction depth generalizing a ts with
  | zero => exact takes_fail _
  | succ depth ih =>
    rw [arrayElements]
    refine takes_token?_bind (takes_guard fun _ ↦ ?_)
    refine takes_ite_bind (R := fun _ ts' ↦ ∃ pre, .arrayClose ∉ pre ∧ ts = pre ++ ts')
      (takes_sign.post ?_) (takes_pure ⟨[], List.not_mem_nil, rfl⟩) ?_
    · rintro _ ts' ⟨sign, rfl, -⟩
      refine ⟨_, ?_, rfl⟩
      cases sign with
      | none => exact List.not_mem_nil
      | some sign => exact fun h ↦ sign_token_ne sign (List.mem_singleton.mp h).symm
    rintro _ ts' ⟨pre, hpre, rfl⟩
    refine takes_tokenOrThrow_bind fun t rest hts ↦ ?_
    subst hts
    -- an element or a separator is taken, and the rest is taken as an array
    have hnext (ht : t ≠ .arrayClose) (a : ArrayState) : Takes (t :: rest)
        (fun _ ts' ↦ TakesBraced (pre ++ t :: rest) ts') (do next; env.arrayElements depth a) := by
      refine takes_next_bind ((ih a rest).post ?_)
      rintro _ ts' ⟨⟨l, hl⟩, rfl⟩
      refine ⟨⟨pre ++ t :: l, fun hmem ↦ ?_⟩, by simp⟩
      rcases List.mem_append.mp hmem with h | h
      · exact hpre h
      rcases List.mem_cons.mp h with h | h
      · exact ht h.symm
      · exact hl h
    cases t with
    | string sid =>
      exact takes_guard fun _ ↦ takes_stringOrThrow_bind env fun _ ↦ hnext (by rintro ⟨⟩) _
    | value v => exact takes_guard fun _ ↦ hnext (by rintro ⟨⟩) _
    | sep => exact takes_guard fun _ ↦ hnext (by rintro ⟨⟩) _
    | arrayRowSep => exact takes_guard fun _ ↦ takes_guard fun _ ↦ hnext (by rintro ⟨⟩) _
    | arrayClose =>
      refine takes_guard fun _ ↦ takes_guard fun _ ↦ takes_push_bind (takes_next.post ?_)
      rintro _ _ rfl
      exact ⟨⟨pre, hpre⟩, rfl⟩
    | _ => exact takes_raise _

/-- The tokens that the functions of the grammar take are those of trees. -/
structure TakesAt (env : Interpreter) (depth : Nat) : Prop where
  expression : ∀ ts, Takes ts (fun _ ts' ↦ ∃ e : Expression, ts = e.tokens ++ ts')
    (env.expression depth)
  expressionRest : ∀ ts, Takes ts (fun _ ts' ↦ ∃ joined : Joined, ts = joined.tokens ++ ts')
    (env.expressionRest depth)
  term : ∀ ts, Takes ts (fun _ ts' ↦ ∃ t : Term, ts = t.tokens ++ ts') (env.term depth)
  factor : ∀ ts, Takes ts (fun _ ts' ↦ ∃ f : Factor, ts = f.tokens ++ ts') (env.factor depth)
  paren : ∀ ts, Takes (.parenOpen :: ts)
    (fun _ ts' ↦ ∃ e : Expression, ts = e.tokens ++ .parenClose :: ts') (env.paren depth)
  function : ∀ func ts, Takes (.function func :: ts)
    (fun _ ts' ↦ ∃ args : Arguments, ts = .parenOpen :: (args.tokens ++ .parenClose :: ts'))
    (env.function depth func)
  arguments : ∀ ts, Takes ts
    (fun _ ts' ↦ ∃ (args : Arguments) (ts'' : _), ts' = .parenClose :: ts'' ∧
      ts = args.tokens ++ ts') (env.arguments depth false)
  argumentsSep : ∀ ts, Takes ts
    (fun _ ts' ↦ ∃ ts'', ts' = .parenClose :: ts'' ∧
      (ts = ts' ∨ ∃ args : Arguments, ts = .sep :: (args.tokens ++ ts')))
    (env.arguments depth true)

variable {env : Interpreter} {depth : Nat} (hat : TakesAt env depth)

include hat

theorem takes_expression (ts : List FormulaToken) :
    Takes ts (fun _ ts' ↦ ∃ e : Expression, ts = e.tokens ++ ts')
      (env.expression (depth + 1)) := by
  rw [expression]
  refine takes_bind (hat.term ts) ?_
  rintro _ ts' ⟨t, rfl⟩
  refine (hat.expressionRest ts').post ?_
  rintro _ ts'' ⟨joined, rfl⟩
  exact ⟨.mk t joined, by rw [Expression.tokens, List.append_assoc]⟩

theorem takes_expressionRest (ts : List FormulaToken) :
    Takes ts (fun _ ts' ↦ ∃ joined : Joined, ts = joined.tokens ++ ts')
      (env.expressionRest (depth + 1)) := by
  rw [expressionRest]
  refine takes_token?_bind ?_
  dsimp only
  cases hoc : ts.head?.bind validExpressionOp with
  | none => exact takes_pure ⟨.none, rfl⟩
  | some oc =>
    obtain ⟨t, ht, hop⟩ := Option.bind_eq_some_iff.mp hoc
    obtain ⟨rest, rfl⟩ := List.head?_eq_some_iff.mp ht
    refine takes_onStack_bind fun sv1 ↦ ?_
    cases sv1 with
    | none => exact takes_raise _
    | some sv1 =>
      refine takes_next_bind (takes_bind (hat.term rest) ?_)
      rintro _ ts' ⟨t', rfl⟩
      refine takes_onStack_bind fun sv2 ↦ ?_
      cases sv2 with
      | none => exact takes_raise _
      | some sv2 =>
        have hrest : Takes ts' (fun _ ts'' ↦ ∃ joined : Joined,
            t :: (t'.tokens ++ ts') = joined.tokens ++ ts'') (env.expressionRest depth) := by
          refine (hat.expressionRest ts').post ?_
          rintro _ ts'' ⟨joined, rfl⟩
          refine ⟨.op oc t' joined, ?_⟩
          rw [Joined.tokens, List.cons_append, List.append_assoc, opToken_of_validExpressionOp hop]
        dsimp only
        split
        · exact takes_push_bind hrest
        · exact takes_raise_bind _ _

omit hat in
/-- What an operator of a term does with the factor before it and the term after it. -/
theorem takes_operator {x : StackM α} {f : α → α → InterpM Unit} (hat : TakesAt env depth)
    (hf : ∀ lhs rhs ts, Takes ts (fun _ ts' ↦ ts' = ts) (f lhs rhs)) (op : FactorOp)
    (g : Factor) (ts : List FormulaToken) :
    Takes (op.token :: ts) (fun _ ts' ↦ ∃ t : Term, g.tokens ++ op.token :: ts = t.tokens ++ ts')
      (do
        let lhs ← onStack x
        next
        env.term depth
        let rhs ← onStack x
        f lhs rhs) := by
  refine takes_onStack_bind fun lhs ↦ takes_next_bind (takes_bind (hat.term ts) ?_)
  rintro _ ts' ⟨t, rfl⟩
  refine takes_onStack_bind fun rhs ↦ (hf lhs rhs ts').post ?_
  rintro _ _ rfl
  exact ⟨.op g op t, by rw [Term.tokens, List.append_assoc, List.cons_append]⟩

theorem takes_term (ts : List FormulaToken) :
    Takes ts (fun _ ts' ↦ ∃ t : Term, ts = t.tokens ++ ts') (env.term (depth + 1)) := by
  rw [term]
  refine takes_bind (hat.factor ts) ?_
  rintro _ ts' ⟨f, rfl⟩
  have harithmetic (op : TermOp) (lhs rhs : ResolvedStackValue) (ts : List FormulaToken) :
      Takes ts (fun _ ts' ↦ ts' = ts) (env.applyTermOp op lhs rhs) := by
    rw [applyTermOp]
    split
    · exact takes_onStack _
    · exact takes_raise _
  have hfactor : ∃ t : Term, f.tokens ++ ts' = t.tokens ++ ts' := ⟨.factor f, rfl⟩
  refine takes_token?_bind ?_
  cases ts' with
  | nil => exact takes_pure hfactor
  | cons t ts =>
    cases t with
    | multiply =>
      exact takes_operator hat (harithmetic .multiply) (.arithmetic .multiply) f ts
    | exponent =>
      exact takes_operator hat (harithmetic .exponent) (.arithmetic .exponent) f ts
    | divide => exact takes_operator hat (harithmetic .divide) (.arithmetic .divide) f ts
    | concat =>
      refine takes_operator hat (fun lhs rhs ts ↦ ?_) .concat f ts
      split
      · exact takes_onStack _
      · exact takes_raise _
    | _ => exact takes_pure hfactor

theorem takes_factor (ts : List FormulaToken) :
    Takes ts (fun _ ts' ↦ ∃ f : Factor, ts = f.tokens ++ ts') (env.factor (depth + 1)) := by
  rw [factor]
  refine takes_bind takes_sign ?_
  rintro minus ts' ⟨sign, rfl, -⟩
  have hoperand : Takes ts' (fun _ ts'' ↦ ∃ f : Factor,
      (sign.map Sign.token).toList ++ ts' = f.tokens ++ ts'') (Arithmetic.operand env depth) := by
    have hmk {ts''} {o : Operand} (h : ts' = o.tokens ++ ts'') : ∃ f : Factor,
        (sign.map Sign.token).toList ++ ts' = f.tokens ++ ts'' :=
      ⟨.mk sign o, by rw [Factor.tokens, h, List.append_assoc]⟩
    refine takes_tokenOrThrow_bind fun t ts hts ↦ ?_
    subst hts
    cases t with
    | parenOpen =>
      refine (hat.paren ts).post ?_
      rintro _ ts'' ⟨e, rfl⟩
      exact hmk (o := .paren e) (by rw [Operand.tokens]; simp)
    | function func =>
      refine (hat.function func ts).post ?_
      rintro _ ts'' ⟨args, rfl⟩
      exact hmk (o := .function func args) (by rw [Operand.tokens]; simp)
    | arrayOpen =>
      refine takes_next_bind ((takes_arrayElements env depth _ ts).post ?_)
      rintro _ ts'' ⟨braced, rfl⟩
      exact hmk (o := .array braced) (by rw [Operand.tokens]; simp)
    | value v =>
      refine takes_next_bind ((takes_onStack _).post ?_)
      rintro _ _ rfl
      exact hmk (o := .number v) rfl
    | error e =>
      refine takes_next_bind ((takes_onStack _).post ?_)
      rintro _ _ rfl
      exact hmk (o := .error e) rfl
    | string sid =>
      refine takes_stringOrThrow_bind env fun s ↦ takes_next_bind ((takes_onStack _).post ?_)
      rintro _ _ rfl
      exact hmk (o := .string sid) rfl
    | singleRef addr =>
      show Takes _ _ (env.singleRef addr)
      rw [singleRef]
      refine takes_guard fun _ ↦ takes_push_bind (takes_next.post ?_)
      rintro _ _ rfl
      exact hmk (o := .singleRef addr) rfl
    | rangeRef range =>
      show Takes _ _ (env.rangeRef range)
      rw [rangeRef]
      refine takes_guard fun _ ↦ takes_pushRangeRef_bind env (takes_next.post ?_)
      rintro _ _ rfl
      exact hmk (o := .rangeRef range) rfl
    | tableRef table =>
      show Takes _ _ (env.tableRef table)
      rw [tableRef]
      split
      · exact takes_raise _
      · refine takes_pushRangeRef_bind env (takes_next.post ?_)
        rintro _ _ rfl
        exact hmk (o := .tableRef table) rfl
    | _ => exact takes_raise _
  refine takes_bind hoperand fun _ ts'' hf ↦ ?_
  split
  · exact takes_onStack_bind fun _ ↦ (takes_onStack _).post fun _ _ h ↦ h ▸ hf
  · exact takes_pure hf

theorem takes_paren (ts : List FormulaToken) : Takes (.parenOpen :: ts)
    (fun _ ts' ↦ ∃ e : Expression, ts = e.tokens ++ .parenClose :: ts')
    (env.paren (depth + 1)) := by
  rw [paren]
  refine takes_next_bind (takes_bind (hat.expression ts) ?_)
  rintro _ ts' ⟨e, rfl⟩
  refine takes_tokenOrThrow_bind fun t ts hts ↦ ?_
  subst hts
  refine takes_guard fun ht ↦ takes_next.post ?_
  rintro _ _ rfl
  obtain rfl := not_not.mp ht
  exact ⟨e, rfl⟩

theorem takes_function (func : FormulaFunction) (ts : List FormulaToken) :
    Takes (.function func :: ts)
      (fun _ ts' ↦ ∃ args : Arguments, ts = .parenOpen :: (args.tokens ++ .parenClose :: ts'))
      (env.function (depth + 1) func) := by
  rw [function]
  refine takes_pushStack_bind (takes_nextToken_bind fun t ts' hts ↦ ?_)
  obtain rfl : ts = t :: ts' := hts
  refine takes_guard fun ht ↦ ?_
  obtain rfl := not_not.mp ht
  refine takes_nextToken_bind fun t ts'' hts ↦ ?_
  obtain rfl : ts' = t :: ts'' := hts
  refine takes_bind (hat.arguments _) ?_
  rintro _ _ ⟨args, ts', rfl, hargs⟩
  refine takes_next_bind (takes_onStack_bind fun _ ↦ takes_get_bind fun _ _ ↦
    takes_assert_bind env ((takes_popStack env).post ?_))
  rintro _ _ rfl
  exact ⟨args, by rw [hargs]⟩

theorem takes_arguments (ts : List FormulaToken) :
    Takes ts (fun _ ts' ↦ ∃ (args : Arguments) (ts'' : _), ts' = .parenClose :: ts'' ∧
      ts = args.tokens ++ ts') (env.arguments (depth + 1) false) := by
  rw [arguments]
  refine takes_tokenOrThrow_bind fun t ts' hts ↦ ?_
  subst hts
  have hexpression : Takes (t :: ts') (fun _ ts'' ↦ ∃ (args : Arguments) (rest : _),
      ts'' = .parenClose :: rest ∧ t :: ts' = args.tokens ++ ts'')
      (do env.expression depth; env.arguments depth true) := by
    refine takes_bind (hat.expression (t :: ts')) ?_
    rintro _ ts'' ⟨e, he⟩
    refine (hat.argumentsSep ts'').post ?_
    rintro _ _ ⟨rest, rfl, rfl | ⟨args, rfl⟩⟩
    · exact ⟨.one e, rest, rfl, he⟩
    · exact ⟨.more e args, rest, rfl, by rw [he, Arguments.tokens]; simp⟩
  cases t with
  | parenClose => exact takes_pure ⟨.none, ts', rfl, rfl⟩
  | _ => exact hexpression

theorem takes_argumentsSep (ts : List FormulaToken) :
    Takes ts (fun _ ts' ↦ ∃ ts'', ts' = .parenClose :: ts'' ∧
      (ts = ts' ∨ ∃ args : Arguments, ts = .sep :: (args.tokens ++ ts')))
      (env.arguments (depth + 1) true) := by
  rw [arguments]
  refine takes_tokenOrThrow_bind fun t ts' hts ↦ ?_
  subst hts
  have hsep : Takes (t :: ts') (fun _ ts'' ↦ ∃ rest, ts'' = .parenClose :: rest ∧
      (t :: ts' = ts'' ∨ ∃ args : Arguments, t :: ts' = .sep :: (args.tokens ++ ts'')))
      (do
        if t ≠ .sep then invalid "argument separator is expected, but not found."
        next
        env.arguments depth false) := by
    refine takes_guard fun ht ↦ takes_next_bind ((hat.arguments ts').post ?_)
    obtain rfl := not_not.mp ht
    rintro _ _ ⟨args, rest, rfl, rfl⟩
    exact ⟨rest, rfl, .inr ⟨args, rfl⟩⟩
  cases t with
  | parenClose => exact takes_pure ⟨ts', rfl, .inl rfl⟩
  | _ => exact hsep

omit hat in
/-- What is taken is a tree, however deeply calls may be nested. -/
theorem takesAt (env : Interpreter) (depth : Nat) : TakesAt env depth := by
  induction depth with
  | zero =>
    exact ⟨fun _ ↦ takes_fail _, fun _ ↦ takes_fail _, fun _ ↦ takes_fail _, fun _ ↦ takes_fail _,
      fun _ ↦ takes_fail _, fun _ _ ↦ takes_fail _, fun _ ↦ takes_fail _, fun _ ↦ takes_fail _⟩
  | succ depth ih =>
    exact ⟨takes_expression ih, takes_expressionRest ih, takes_term ih, takes_factor ih,
      takes_paren ih, takes_function ih, takes_arguments ih, takes_argumentsSep ih⟩

end Takes

/-! ## The formulas that are accepted -/

/-- The tokens of an expression are interpreted as its value. -/
theorem interpretTokens_tokens (env : Interpreter) (e : Expression) :
    env.interpretTokens e.tokens = (do Interpreter.topResult [← e.value env]) := by
  rw [Interpreter.interpretTokens, if_neg e.tokens_ne_nil]
  have hrun : env.expression (Interpreter.depthFor e.tokens) ⟨e.tokens ++ [], [], []⟩ =
      pushing (e.value env) [] [] [] :=
    e.run endsExpression_nil (by rw [Interpreter.depthFor]; omega)
  rw [List.append_nil] at hrun
  show (env.expression _ ⟨e.tokens, [], []⟩).bind _ = _
  rw [hrun, bind_pushing]
  exact congrArg (Query.bind _) (funext fun v ↦ env.popResult_singleton v)

/-- Tokens that are those of no expression are interpreted as nothing: an exception is thrown, or
the result is an error without a kind. -/
theorem returns_interpretTokens (env : Interpreter) {tokens : List FormulaToken}
    (h : ∀ e : Expression, e.tokens ≠ tokens) :
    (env.interpretTokens tokens).Returns (· = .error .noError) := by
  rw [Interpreter.interpretTokens]
  split
  · exact rfl
  refine Query.returns_bind (Query.returns_mono ?_ ((takesAt env _).expression tokens _ rfl))
  rintro p ⟨e, he⟩
  by_cases hnil : p.2.tokens = []
  · rw [hnil, List.append_nil] at he
    exact absurd he.symm (h e)
  · show Query.Returns _ (if p.2.tokens ≠ [] then _ else _)
    rw [if_pos hnil]
    exact rfl

/-- The interpreter gives a formula the value of the one expression that is written in its tokens,
with the function calls, references and operators in it applied to the values of their parts
alone.  Tokens in which no expression is written come to no result. -/
theorem interpretTokens_spec (env : Interpreter) (tokens : List FormulaToken) :
    (∃! e : Expression, e.tokens = tokens ∧
      env.interpretTokens tokens = (do Interpreter.topResult [← e.value env])) ∨
    (∀ e : Expression, e.tokens ≠ tokens) ∧
      (env.interpretTokens tokens).Returns (· = .error .noError) := by
  by_cases h : ∃ e : Expression, e.tokens = tokens
  · obtain ⟨e, rfl⟩ := h
    exact .inl ⟨e, ⟨rfl, interpretTokens_tokens env e⟩,
      fun e' he' ↦ Expression.tokens_injective he'.1⟩
  · have hnone : ∀ e : Expression, e.tokens ≠ tokens := fun e he ↦ h ⟨e, he⟩
    exact .inr ⟨hnone, returns_interpretTokens env hnone⟩

end Grammar

end Ixion
