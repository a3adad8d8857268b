import Ixion.Interp.Balance

/-!
# Failed interpretations

Interpreting a formula ends with success and a result, or without success and with an error; a
session handler is told where it begins and where it ends.  The error and the end are left
out where there are no tokens, and where some are left over after an expression.
-/

namespace Ixion

open Lib ValueStack InterpM

/-- What a session handler is told about an interpretation as a whole. -/
inductive SessionEvent where
  | beginCellInterpret
  | setInvalidExpression (msg : String)
  | setFormulaError (e : FormulaError)
  | setResult (res : FormulaResult)
  | endCellInterpret
deriving DecidableEq

/-- How an interpretation ends: whether it succeeds, its error and its result, and what the
session handler has been told. -/
structure Outcome where
  success : Bool
  error : FormulaError
  result : FormulaResult
  events : List SessionEvent

namespace Outcome

/-- The interpretation fails with an exception that is caught. -/
def failed (e : FormulaError) (event : SessionEvent) : Outcome where
  success := false
  error := e
  result := .new
  events := [.beginCellInterpret, event, .endCellInterpret]

/-- The interpretation is given up without an exception. -/
def givenUp (events : List SessionEvent) : Outcome where
  success := false
  error := .noError
  result := .new
  events := .beginCellInterpret :: events

/-- The interpretation succeeds. -/
def succeeded (res : FormulaResult) : Outcome where
  success := true
  error := .noError
  result := res
  events := [.beginCellInterpret, .setResult res, .endCellInterpret]

/-- The result that the cell stores. -/
def stored (o : Outcome) : FormulaResult := if o.success then o.result else .error o.error

/-- A failure is reported as an error, the session handler is told once where the interpretation
begins and ends, and no error without a kind is stored. -/
structure Reported (o : Outcome) : Prop where
  error : o.success = false → o.error ≠ .noError
  events : o.success = false → o.events.count .beginCellInterpret = 1 ∧
    o.events.count .endCellInterpret = 1
  stored : o.stored ≠ .error .noError

end Outcome

namespace Interpreter

variable (env : Interpreter)

/-- Interpret the tokens of a formula, and say how that ends. -/
def tokensOutcome (tokens : List FormulaToken) : Reader Outcome := do
  if tokens = [] then return .givenUp []
  let (_, s) ← env.expression (depthFor tokens) ⟨tokens, [], []⟩
  if s.tokens ≠ [] then
    return .givenUp
      [.setInvalidExpression "formula token interpretation ended prematurely."]
  return .succeeded (← env.popResult s.stack)

/-- Turn the exceptions that stand for an error of the formula into a failure. -/
def catchOutcome (x : Reader Outcome) : Reader Outcome :=
  x.tryCatch fun
    | .exception (.invalidExpression msg) =>
      pure (.failed .invalidExpression (.setInvalidExpression msg))
    | .exception (.formulaError e) => pure (.failed e (.setFormulaError e))
    | e => .throw e

/-- Interpret a formula cell, and say how that ends. -/
def outcome (cell : FormulaCell) : Reader Outcome :=
  catchOutcome <|
    match env.workbook.expandedTokens (env.workbook.nameCount + 1) cell env.pos with
    | .ok tokens => env.tokensOutcome tokens
    | .error e => .throw e

theorem interpretTokens_eq_stored (tokens : List FormulaToken) :
    env.interpretTokens tokens = Outcome.stored <$> env.tokensOutcome tokens := by
  rw [interpretTokens, tokensOutcome]
  split
  · rfl
  · rw [map_bind]
    refine congrArg _ (funext fun p ↦ ?_)
    dsimp only
    split
    · rfl
    · rw [map_bind]
      exact (bind_pure (env.popResult p.2.stack)).symm

/-- What is stored is the result of the interpretation. -/
theorem interpret_eq_stored (cell : FormulaCell) :
    env.interpret cell = Outcome.stored <$> env.outcome cell := by
  rw [outcome, catchOutcome, Query.map_tryCatch, interpret, catchErrors]
  congr 1
  · cases env.workbook.expandedTokens (env.workbook.nameCount + 1) cell env.pos with
    | ok tokens => exact env.interpretTokens_eq_stored tokens
    | error e => rfl
  · funext e
    cases e with
    | exception x => cases x <;> rfl
    | _ => rfl

/-! ## How an interpretation ends -/

section Ends

variable {env} {ans : ∀ i, Question.Answer i}

theorem result_catchOutcome_of_ok {x : Reader Outcome} {o : Outcome} (h : x.result ans = .ok o) :
    (catchOutcome x).result ans = .ok o := by
  rw [catchOutcome, Query.result_tryCatch, h]
  rfl

theorem result_catchOutcome_of_formulaError {x : Reader Outcome} {e : FormulaError}
    (h : x.result ans = .error (.exception (.formulaError e))) :
    (catchOutcome x).result ans = .ok (.failed e (.setFormulaError e)) := by
  rw [catchOutcome, Query.result_tryCatch, h]
  rfl

/-- What comes back was returned, or it is a failure with the error that was thrown. -/
theorem of_result_catchOutcome {x : Reader Outcome} {o : Outcome}
    (h : (catchOutcome x).result ans = .ok o) :
    x.result ans = .ok o ∨ (∃ msg, o = .failed .invalidExpression (.setInvalidExpression msg)) ∨
      ∃ e, x.result ans = .error (.exception (.formulaError e)) ∧
        o = .failed e (.setFormulaError e) := by
  rw [catchOutcome, Query.result_tryCatch] at h
  cases hx : x.result ans with
  | ok o' =>
    rw [hx] at h
    exact .inl h
  | error failure =>
    rw [hx] at h
    cases failure with
    | exception e =>
      cases e with
      | invalidExpression msg => exact .inr (.inl ⟨msg, (Except.ok.inj h).symm⟩)
      | formulaError e => exact .inr (.inr ⟨e, rfl, (Except.ok.inj h).symm⟩)
      | _ => exact absurd h nofun
    | _ => exact absurd h nofun

variable {tokens : List FormulaToken}

theorem result_tokensOutcome (h : tokens ≠ []) :
    (env.tokensOutcome tokens).result ans =
      (env.expression (depthFor tokens) ⟨tokens, [], []⟩).result ans >>= fun p ↦
        if p.2.tokens ≠ [] then .ok (.givenUp
          [.setInvalidExpression "formula token interpretation ended prematurely."])
        else Outcome.succeeded <$> (env.popResult p.2.stack).result ans := by
  rw [tokensOutcome, if_neg h, Query.result_bind]
  congr 1
  funext p
  dsimp only
  split
  · rfl
  · rw [Query.result_bind]
    cases (env.popResult p.2.stack).result ans <;> rfl

/-- Where no tokens are left over, the result is the one on the stack. -/
theorem result_tokensOutcome_of_done (h : tokens ≠ []) {s : InterpState}
    (hs : (env.expression (depthFor tokens) ⟨tokens, [], []⟩).result ans = .ok ((), s))
    (hdone : s.tokens = []) :
    (env.tokensOutcome tokens).result ans =
      Outcome.succeeded <$> (env.popResult s.stack).result ans := by
  rw [result_tokensOutcome h, hs]
  exact if_neg (not_not.mpr hdone)

variable (env ans tokens)

/-- Nothing keeps an interpretation from reporting an error: there are tokens, and if some are
left over after an expression then interpreting it throws; and neither is the error without a
kind thrown, nor is it the result. -/
structure Reportable : Prop where
  nonempty : tokens ≠ []
  complete : ∀ rest, skipExpression (depthFor tokens) tokens = some rest → rest ≠ [] →
    ∃ e, (env.expression (depthFor tokens) ⟨tokens, [], []⟩).result ans = .error e
  raises : (env.expression (depthFor tokens) ⟨tokens, [], []⟩).result ans ≠
    .error (.exception (.formulaError .noError))
  result : ∀ s, (env.expression (depthFor tokens) ⟨tokens, [], []⟩).result ans = .ok ((), s) →
    (topResult s.stack).result ans ≠ .error (.exception (.formulaError .noError)) ∧
      (topResult s.stack).result ans ≠ .ok (.error .noError)

end Ends

end Interpreter

namespace Outcome

theorem not_reported_givenUp (events : List SessionEvent) : ¬ (givenUp events).Reported :=
  fun h ↦ h.error rfl rfl

theorem not_reported_failed (event : SessionEvent) : ¬ (failed .noError event).Reported :=
  fun h ↦ h.error rfl rfl

theorem reported_invalidExpression (msg : String) :
    (failed .invalidExpression (.setInvalidExpression msg)).Reported where
  error _ := nofun
  events _ := ⟨rfl, rfl⟩
  stored := nofun

theorem reported_formulaError {e : FormulaError} (h : e ≠ .noError) :
    (failed e (.setFormulaError e)).Reported where
  error _ := h
  events _ := ⟨rfl, rfl⟩
  stored he := h (FormulaResult.error.inj he)

theorem reported_succeeded_iff {res : FormulaResult} :
    (succeeded res).Reported ↔ res ≠ .error .noError :=
  ⟨fun h ↦ h.stored, fun h ↦ ⟨nofun, nofun, h⟩⟩

end Outcome

namespace Interpreter

variable {env : Interpreter} {ans : ∀ i, Question.Answer i} {tokens : List FormulaToken}

/-- Any failure but the error without a kind is reported. -/
theorem reported_of_error {e : Failure} (herror : (env.tokensOutcome tokens).result ans = .error e)
    (he : e ≠ .exception (.formulaError .noError)) {o : Outcome}
    (ho : (catchOutcome (env.tokensOutcome tokens)).result ans = .ok o) : o.Reported := by
  rcases of_result_catchOutcome ho with h | ⟨msg, rfl⟩ | ⟨e', h, rfl⟩
  · cases herror.symm.trans h
  · exact Outcome.reported_invalidExpression msg
  · refine Outcome.reported_formulaError ?_
    rintro rfl
    exact he (Except.error.inj (herror.symm.trans h))

/-- An interpretation reports its failure exactly if nothing keeps it from that. -/
theorem reported_iff_reportable
    (hbalanced : ∀ s, (env.expression (depthFor tokens) ⟨tokens, [], []⟩).result ans = .ok ((), s) →
      skipExpression (depthFor tokens) tokens = some s.tokens ∧ s.stack.length = 1) :
    (∀ o, (catchOutcome (env.tokensOutcome tokens)).result ans = .ok o → o.Reported) ↔
      env.Reportable ans tokens := by
  have hresult {s : InterpState}
      (hs : (env.expression (depthFor tokens) ⟨tokens, [], []⟩).result ans = .ok ((), s)) :
      env.popResult s.stack = topResult s.stack := by
    obtain ⟨v, hv⟩ := List.length_eq_one_iff.mp (hbalanced s hs).2
    rw [hv, popResult_singleton]
  constructor
  · intro h
    have hne : tokens ≠ [] := by
      rintro rfl
      exact Outcome.not_reported_givenUp _ (h _ rfl)
    have hrest (s : InterpState)
        (hs : (env.expression (depthFor tokens) ⟨tokens, [], []⟩).result ans = .ok ((), s)) :
        s.tokens = [] := by
      by_contra hleft
      have hgiven : (env.tokensOutcome tokens).result ans = .ok (.givenUp
          [.setInvalidExpression "formula token interpretation ended prematurely."]) := by
        rw [result_tokensOutcome hne, hs]
        exact if_pos hleft
      exact Outcome.not_reported_givenUp _ (h _ (result_catchOutcome_of_ok hgiven))
    refine ⟨hne, fun rest hskip hleft ↦ ?_, fun hraise ↦ ?_, fun s hs ↦
      ⟨fun hraise ↦ ?_, fun hres ↦ ?_⟩⟩
    · cases hs : (env.expression (depthFor tokens) ⟨tokens, [], []⟩).result ans with
      | error e => exact ⟨e, rfl⟩
      | ok p =>
        have hp := (hbalanced p.2 hs).1.symm.trans hskip
        exact absurd ((Option.some.inj hp).symm.trans (hrest p.2 hs)) hleft
    · refine Outcome.not_reported_failed _ (h _ (result_catchOutcome_of_formulaError ?_))
      rw [result_tokensOutcome hne, hraise]
      rfl
    · refine Outcome.not_reported_failed _ (h _ (result_catchOutcome_of_formulaError ?_))
      rw [result_tokensOutcome_of_done hne hs (hrest s hs), hresult hs, hraise]
      rfl
    · refine Outcome.reported_succeeded_iff.mp (h (.succeeded (.error .noError))
        (result_catchOutcome_of_ok ?_)) rfl
      rw [result_tokensOutcome_of_done hne hs (hrest s hs), hresult hs, hres]
      rfl
  · intro hr o ho
    -- what interpreting the expression comes to
    cases hs : (env.expression (depthFor tokens) ⟨tokens, [], []⟩).result ans with
    | error e =>
      have herror : (env.tokensOutcome tokens).result ans = .error e := by
        rw [result_tokensOutcome hr.nonempty, hs]
        rfl
      exact reported_of_error herror (fun he ↦ hr.raises (he ▸ hs)) ho
    | ok p =>
      have hdone : p.2.tokens = [] := by
        by_contra hleft
        obtain ⟨e, he⟩ := hr.complete _ (hbalanced p.2 hs).1 hleft
        cases hs.symm.trans he
      have htokens := result_tokensOutcome_of_done hr.nonempty hs hdone
      rw [hresult hs] at htokens
      have hres := hr.result p.2 hs
      cases htop : (topResult p.2.stack).result ans with
      | error e =>
        rw [htop] at htokens
        exact reported_of_error htokens (fun he ↦ hres.1 (he ▸ htop)) ho
      | ok res =>
        rw [htop] at htokens
        cases ho.symm.trans (result_catchOutcome_of_ok htokens)
        exact Outcome.reported_succeeded_iff.mpr fun he ↦ hres.2 (he ▸ htop)

end Interpreter

/-- A sheet without cells. -/
def blankWorkbook : Workbook where
  sheetSize := ⟨10, 10⟩
  sheets := [⟨"one", []⟩]
  namedExpressions := []
  cells _ := .empty
  strPool := .new
  tableHandler := none

/-- The answers of a workbook without cells. -/
def blankAnswers : ∀ i, Question.Answer i
  | .cellType _ => .empty
  | .cellValue _ => .empty

end Ixion
