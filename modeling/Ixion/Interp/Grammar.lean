import Ixion.Interp.ArrayLiteral
import Ixion.Interp.Comparison

/-!
# The grammar of formulas

The interpreter takes a formula apart as it goes.  The trees of this module are the formulas it
takes apart without complaint, and the tokens of a tree are written from left to right.  No two
trees have the same tokens.

All operators of a term associate to the right and have the same precedence, which is that of the
source; so do all operators of an expression, which are applied from left to right.
-/

namespace Ixion

open ArrayLiteral (Sign)

namespace Grammar

/-! ## Trees -/

/-- An operator between a factor and the term after it. -/
inductive FactorOp where
  | arithmetic (op : TermOp)
  | concat
deriving DecidableEq

/-- The token of an operator after a factor. -/
def FactorOp.token : FactorOp → FormulaToken
  | .arithmetic op => Arithmetic.opToken op
  | .concat => .concat

/-- The tokens between the braces of an array. -/
abbrev Braced : Type := {ts : List FormulaToken // .arrayClose ∉ ts}

mutual

/-- Terms that are joined by operators. -/
inductive Expression where
  | mk (first : Term) (joined : Joined)

/-- The operators after the first term of an expression, with a term after each. -/
inductive Joined where
  | none
  | op (oc : ExpressionOp) (t : Term) (joined : Joined)

/-- A factor, or one that an operator joins to a term. -/
inductive Term where
  | factor (f : Factor)
  | op (f : Factor) (op : FactorOp) (t : Term)

/-- An operand with a sign that may be there. -/
inductive Factor where
  | mk (sign : Option Sign) (o : Operand)

/-- A constant, a reference, an array, or something in parentheses. -/
inductive Operand where
  | number (v : ℚ)
  | error (e : FormulaError)
  | string (sid : StringId)
  | singleRef (addr : Address)
  | rangeRef (range : Range)
  | tableRef (table : Table)
  | paren (e : Expression)
  | function (func : FormulaFunction) (args : Arguments)
  | array (ts : Braced)

/-- The arguments of a function.  There may be a separator after the last one. -/
inductive Arguments where
  | none
  | one (e : Expression)
  | more (e : Expression) (args : Arguments)

end

/-! ## Tokens -/

mutual

/-- The tokens of an expression. -/
def Expression.tokens : Expression → List FormulaToken
  | .mk t joined => t.tokens ++ joined.tokens

/-- The tokens of the operators and terms after the first term. -/
def Joined.tokens : Joined → List FormulaToken
  | .none => []
  | .op oc t joined => Comparison.opToken oc :: (t.tokens ++ joined.tokens)

/-- The tokens of a term. -/
def Term.tokens : Term → List FormulaToken
  | .factor f => f.tokens
  | .op f op t => f.tokens ++ op.token :: t.tokens

/-- The tokens of a factor. -/
def Factor.tokens : Factor → List FormulaToken
  | .mk sign o => (sign.map Sign.token).toList ++ o.tokens

/-- The tokens of an operand. -/
def Operand.tokens : Operand → List FormulaToken
  | .number v => [.value v]
  | .error e => [.error e]
  | .string sid => [.string sid]
  | .singleRef addr => [.singleRef addr]
  | .rangeRef range => [.rangeRef range]
  | .tableRef table => [.tableRef table]
  | .paren e => .parenOpen :: (e.tokens ++ [.parenClose])
  | .function func args => .function func :: .parenOpen :: (args.tokens ++ [.parenClose])
  | .array ts => .arrayOpen :: (ts.1 ++ [.arrayClose])

/-- The tokens of arguments. -/
def Arguments.tokens : Arguments → List FormulaToken
  | .none => []
  | .one e => e.tokens
  | .more e args => e.tokens ++ .sep :: args.tokens

end

theorem Operand.tokens_ne_nil (o : Operand) : o.tokens ≠ [] := by
  cases o <;> exact List.cons_ne_nil _ _

theorem Factor.tokens_ne_nil (f : Factor) : f.tokens ≠ [] := by
  cases f with
  | mk sign o => exact List.append_ne_nil_of_right_ne_nil _ o.tokens_ne_nil

theorem Term.tokens_ne_nil (t : Term) : t.tokens ≠ [] := by
  cases t with
  | factor f => exact f.tokens_ne_nil
  | op f op t => exact List.append_ne_nil_of_left_ne_nil f.tokens_ne_nil _

theorem Expression.tokens_ne_nil (e : Expression) : e.tokens ≠ [] := by
  cases e with
  | mk t joined => exact List.append_ne_nil_of_left_ne_nil t.tokens_ne_nil _

/-! ## Where trees end -/

/-- An expression ends before a token that is no operator. -/
structure EndsExpression (rest : List FormulaToken) : Prop where
  term : Arithmetic.EndsTerm rest
  op : rest.head?.bind validExpressionOp = none

theorem endsExpression_nil : EndsExpression [] := ⟨Arithmetic.endsTerm_nil, rfl⟩

theorem endsExpression_parenClose (rest : List FormulaToken) :
    EndsExpression (.parenClose :: rest) := ⟨Arithmetic.endsTerm_parenClose rest, rfl⟩

theorem endsExpression_sep (rest : List FormulaToken) : EndsExpression (.sep :: rest) :=
  ⟨Arithmetic.endsTerm_cons ⟨by rintro ⟨⟩, by rintro ⟨⟩, by rintro ⟨⟩, by rintro ⟨⟩⟩ rest, rfl⟩

/-- A term ends before the operators of the expression. -/
theorem Joined.endsTerm (joined : Joined) {rest : List FormulaToken} (h : EndsExpression rest) :
    Arithmetic.EndsTerm (joined.tokens ++ rest) := by
  cases joined with
  | none => exact h.term
  | op oc t joined =>
    exact Arithmetic.endsTerm_of_validExpressionOp (Comparison.validExpressionOp_opToken oc) _

theorem not_endsTerm_token (op : FactorOp) (rest : List FormulaToken) :
    ¬ Arithmetic.EndsTerm (op.token :: rest) := by
  intro h
  obtain ⟨h₁, h₂, h₃, h₄⟩ := h _ rfl
  rcases op with ⟨_ | _ | _⟩ | _
  · exact h₁ rfl
  · exact h₂ rfl
  · exact h₄ rfl
  · exact h₃ rfl

theorem not_endsExpression_opToken (oc : ExpressionOp) (rest : List FormulaToken) :
    ¬ EndsExpression (Comparison.opToken oc :: rest) := by
  intro h
  have hop := h.op
  rw [List.head?_cons, Option.bind_some, Comparison.validExpressionOp_opToken] at hop
  cases hop

theorem FactorOp.token_injective : Function.Injective FactorOp.token := by
  rintro (⟨_ | _ | _⟩ | _) (⟨_ | _ | _⟩ | _) h <;> first | rfl | cases h

theorem opToken_injective : Function.Injective Comparison.opToken := fun oc oc' h ↦
  Option.some.inj <| (Comparison.validExpressionOp_opToken oc).symm.trans <|
    (congrArg validExpressionOp h).trans (Comparison.validExpressionOp_opToken oc')

/-! ## One tree for each list of tokens -/

/-- An operand begins with a token that is neither a sign nor a closing parenthesis. -/
theorem Operand.exists_cons (o : Operand) : ∃ t ts, o.tokens = t :: ts ∧
    t ≠ .parenClose ∧ ∀ sign : Sign, t ≠ sign.token := by
  cases o <;> exact ⟨_, _, rfl, by rintro ⟨⟩, by rintro (_ | _) ⟨⟩⟩

/-- An expression does not begin with a closing parenthesis. -/
theorem Expression.ne_parenClose_append (e : Expression) (rest rest' : List FormulaToken) :
    e.tokens ++ rest ≠ .parenClose :: rest' := by
  have hfactor (f : Factor) (rest : List FormulaToken) :
      f.tokens ++ rest ≠ .parenClose :: rest' := by
    obtain ⟨sign, o⟩ := f
    rw [Factor.tokens, List.append_assoc]
    rcases sign with _ | _ | _
    · obtain ⟨t, ts, htokens, hne, -⟩ := o.exists_cons
      rw [htokens]
      exact fun h ↦ hne (List.cons.inj h).1
    · exact fun h ↦ by cases (List.cons.inj h).1
    · exact fun h ↦ by cases (List.cons.inj h).1
  obtain ⟨t, joined⟩ := e
  rw [Expression.tokens, List.append_assoc]
  cases t with
  | factor f => exact hfactor f _
  | op f op t =>
    rw [Term.tokens, List.append_assoc]
    exact hfactor f _

/-- What is in braces ends at the first closing brace. -/
theorem Braced.eq_of_append {ts ts' : Braced} {rest rest' : List FormulaToken}
    (h : ts.1 ++ .arrayClose :: rest = ts'.1 ++ .arrayClose :: rest') :
    ts = ts' ∧ rest = rest' := by
  obtain ⟨l, hl⟩ := ts
  obtain ⟨l', hl'⟩ := ts'
  replace h : l ++ .arrayClose :: rest = l' ++ .arrayClose :: rest' := h
  rcases List.append_eq_append_iff.mp h with ⟨m, rfl, hrest⟩ | ⟨m, rfl, hrest⟩
  · cases m with
    | nil => exact ⟨Subtype.ext (List.append_nil l).symm, (List.cons.inj hrest).2⟩
    | cons t m =>
      obtain ⟨rfl, -⟩ := List.cons.inj hrest
      exact absurd (List.mem_append_right _ List.mem_cons_self) hl'
  · cases m with
    | nil => exact ⟨Subtype.ext (List.append_nil l'), (List.cons.inj hrest).2.symm⟩
    | cons t m =>
      obtain ⟨rfl, -⟩ := List.cons.inj hrest
      exact absurd (List.mem_append_right _ List.mem_cons_self) hl

mutual

/-- An expression can be told from its tokens and what comes after it. -/
theorem Expression.eq_of_append : ∀ (e e' : Expression) {rest rest' : List FormulaToken},
    EndsExpression rest → EndsExpression rest' → e.tokens ++ rest = e'.tokens ++ rest' →
    e = e' ∧ rest = rest'
  | .mk t joined, .mk t' joined', rest, rest', hrest, hrest', h => by
    rw [Expression.tokens, Expression.tokens, List.append_assoc, List.append_assoc] at h
    obtain ⟨rfl, hjoined⟩ :=
      t.eq_of_append t' (joined.endsTerm hrest) (joined'.endsTerm hrest') h
    obtain ⟨rfl, heq⟩ := joined.eq_of_append joined' hrest hrest' hjoined
    exact ⟨rfl, heq⟩

theorem Joined.eq_of_append : ∀ (joined joined' : Joined) {rest rest' : List FormulaToken},
    EndsExpression rest → EndsExpression rest' → joined.tokens ++ rest = joined'.tokens ++ rest' →
    joined = joined' ∧ rest = rest'
  | .none, .none, _, _, _, _, h => ⟨rfl, h⟩
  | .none, .op oc t joined, rest, rest', hrest, _, h => by
    replace h : rest = Comparison.opToken oc :: (t.tokens ++ joined.tokens ++ rest') := h
    exact absurd (h ▸ hrest) (not_endsExpression_opToken oc _)
  | .op oc t joined, .none, rest, rest', _, hrest', h => by
    replace h : Comparison.opToken oc :: (t.tokens ++ joined.tokens ++ rest) = rest' := h
    exact absurd (h.symm ▸ hrest') (not_endsExpression_opToken oc _)
  | .op oc t joined, .op oc' t' joined', rest, rest', hrest, hrest', h => by
    rw [Joined.tokens, Joined.tokens, List.cons_append, List.cons_append, List.append_assoc,
      List.append_assoc] at h
    obtain ⟨hoc, hterm⟩ := List.cons.inj h
    obtain ⟨rfl, hjoined⟩ :=
      t.eq_of_append t' (joined.endsTerm hrest) (joined'.endsTerm hrest') hterm
    obtain ⟨rfl, heq⟩ := joined.eq_of_append joined' hrest hrest' hjoined
    exact ⟨congrArg (Joined.op · t joined) (opToken_injective hoc), heq⟩

theorem Term.eq_of_append : ∀ (t t' : Term) {rest rest' : List FormulaToken},
    Arithmetic.EndsTerm rest → Arithmetic.EndsTerm rest' → t.tokens ++ rest = t'.tokens ++ rest' →
    t = t' ∧ rest = rest'
  | .factor f, .factor f', _, _, _, _, h => by
    obtain ⟨rfl, heq⟩ := f.eq_of_append f' h
    exact ⟨rfl, heq⟩
  | .factor f, .op f' op t, _, _, hrest, _, h => by
    rw [Term.tokens, Term.tokens, List.append_assoc] at h
    obtain ⟨-, rfl⟩ := f.eq_of_append f' h
    exact absurd hrest (not_endsTerm_token op _)
  | .op f op t, .factor f', _, _, _, hrest', h => by
    rw [Term.tokens, Term.tokens, List.append_assoc] at h
    obtain ⟨-, rfl⟩ := f.eq_of_append f' h
    exact absurd hrest' (not_endsTerm_token op _)
  | .op f op t, .op f' op' t', _, _, hrest, hrest', h => by
    rw [Term.tokens, Term.tokens, List.append_assoc, List.append_assoc] at h
    obtain ⟨rfl, hterm⟩ := f.eq_of_append f' h
    obtain ⟨hop, hterm⟩ := List.cons.inj hterm
    obtain ⟨rfl, heq⟩ := t.eq_of_append t' hrest hrest' hterm
    exact ⟨congrArg (Term.op f · t) (FactorOp.token_injective hop), heq⟩

theorem Factor.eq_of_append : ∀ (f f' : Factor) {rest rest' : List FormulaToken},
    f.tokens ++ rest = f'.tokens ++ rest' → f = f' ∧ rest = rest'
  | .mk sign o, .mk sign' o', rest, rest', h => by
    rw [Factor.tokens, Factor.tokens, List.append_assoc, List.append_assoc] at h
    obtain ⟨t, ts, htokens, -, hsign⟩ := o.exists_cons
    obtain ⟨t', ts', htokens', -, hsign'⟩ := o'.exists_cons
    rcases sign with _ | sign <;> rcases sign' with _ | sign'
    · obtain ⟨rfl, heq⟩ := o.eq_of_append o' h
      exact ⟨rfl, heq⟩
    · rw [htokens] at h
      exact absurd (List.cons.inj h).1 (hsign sign')
    · rw [htokens'] at h
      exact absurd (List.cons.inj h).1.symm (hsign' sign)
    · obtain ⟨hsign, ho⟩ := List.cons.inj h
      obtain ⟨rfl, heq⟩ := o.eq_of_append o' ho
      cases sign <;> cases sign' <;> first | exact ⟨rfl, heq⟩ | cases hsign

theorem Operand.eq_of_append : ∀ (o o' : Operand) {rest rest' : List FormulaToken},
    o.tokens ++ rest = o'.tokens ++ rest' → o = o' ∧ rest = rest'
  | .paren e, o', rest, rest', h => by
    cases o' with
    | paren e' =>
      rw [Operand.tokens, Operand.tokens, List.cons_append, List.cons_append, List.append_assoc,
        List.append_assoc] at h
      obtain ⟨rfl, hclose⟩ := e.eq_of_append e' (endsExpression_parenClose rest)
        (endsExpression_parenClose rest') (List.cons.inj h).2
      exact ⟨rfl, (List.cons.inj hclose).2⟩
    | _ => cases (List.cons.inj h).1
  | .function func args, o', rest, rest', h => by
    cases o' with
    | function func' args' =>
      rw [Operand.tokens, Operand.tokens, List.cons_append, List.cons_append, List.cons_append,
        List.cons_append, List.append_assoc, List.append_assoc] at h
      obtain ⟨hfunc, hopen⟩ := List.cons.inj h
      obtain ⟨rfl, heq⟩ := args.eq_of_append args' (List.cons.inj hopen).2
      exact ⟨congrArg (Operand.function · args) (FormulaToken.function.inj hfunc), heq⟩
    | _ => cases (List.cons.inj h).1
  | .array ts, o', rest, rest', h => by
    cases o' with
    | array ts' =>
      rw [Operand.tokens, Operand.tokens, List.cons_append, List.cons_append, List.append_assoc,
        List.append_assoc] at h
      obtain ⟨rfl, heq⟩ := Braced.eq_of_append (List.cons.inj h).2
      exact ⟨rfl, heq⟩
    | _ => cases (List.cons.inj h).1
  | .number v, o', rest, rest', h => by
    cases o' <;> cases h
    exact ⟨rfl, rfl⟩
  | .error e, o', rest, rest', h => by
    cases o' <;> cases h
    exact ⟨rfl, rfl⟩
  | .string sid, o', rest, rest', h => by
    cases o' <;> cases h
    exact ⟨rfl, rfl⟩
  | .singleRef addr, o', rest, rest', h => by
    cases o' <;> cases h
    exact ⟨rfl, rfl⟩
  | .rangeRef range, o', rest, rest', h => by
    cases o' <;> cases h
    exact ⟨rfl, rfl⟩
  | .tableRef table, o', rest, rest', h => by
    cases o' <;> cases h
    exact ⟨rfl, rfl⟩

theorem Arguments.eq_of_append : ∀ (args args' : Arguments) {rest rest' : List FormulaToken},
    args.tokens ++ .parenClose :: rest = args'.tokens ++ .parenClose :: rest' →
    args = args' ∧ rest = rest'
  | .none, args', rest, rest', h => by
    cases args' with
    | none => exact ⟨rfl, (List.cons.inj h).2⟩
    | one e' => exact absurd h.symm (e'.ne_parenClose_append _ _)
    | more e' args' =>
      rw [Arguments.tokens, Arguments.tokens, List.append_assoc] at h
      exact absurd h.symm (e'.ne_parenClose_append _ _)
  | .one e, args', rest, rest', h => by
    cases args' with
    | none => exact absurd h (e.ne_parenClose_append _ _)
    | one e' =>
      obtain ⟨rfl, hclose⟩ := e.eq_of_append e' (endsExpression_parenClose rest)
        (endsExpression_parenClose rest') h
      exact ⟨rfl, (List.cons.inj hclose).2⟩
    | more e' args' =>
      rw [Arguments.tokens, Arguments.tokens, List.append_assoc] at h
      obtain ⟨-, hsep⟩ := e.eq_of_append e' (endsExpression_parenClose rest)
        (endsExpression_sep _) h
      cases (List.cons.inj hsep).1
  | .more e args, args', rest, rest', h => by
    rw [Arguments.tokens, List.append_assoc] at h
    cases args' with
    | none => exact absurd h (e.ne_parenClose_append _ _)
    | one e' =>
      obtain ⟨-, hsep⟩ := e.eq_of_append e' (endsExpression_sep _)
        (endsExpression_parenClose rest') h
      cases (List.cons.inj hsep).1
    | more e' args' =>
      rw [Arguments.tokens, List.append_assoc] at h
      obtain ⟨rfl, hsep⟩ := e.eq_of_append e' (endsExpression_sep _) (endsExpression_sep _) h
      obtain ⟨rfl, heq⟩ := args.eq_of_append args' (List.cons.inj hsep).2
      exact ⟨rfl, heq⟩

end

/-- No two expressions have the same tokens. -/
theorem Expression.tokens_injective : Function.Injective Expression.tokens := fun e e' h ↦
  (e.eq_of_append e' endsExpression_nil endsExpression_nil (congrArg (· ++ []) h)).1

end Grammar

end Ixion
