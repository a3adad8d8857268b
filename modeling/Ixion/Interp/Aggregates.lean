import Ixion.Interp.RangeNumbers
import Mathlib.Data.List.Sort

/-!
# Aggregates over references

SUM, AVERAGE, COUNT, COUNTA, MEDIAN and MODE take ranges and single cells.  A range is not read
the way its cells are one by one, and what comes of it is the same but for one kind of cell.
-/

namespace Ixion

open Lib ValueStack

namespace FormulaFunctions

variable {f : FormulaFunctions} {result : FormulaCell → Except Exn FormulaResult}
  {func : FormulaFunction} {args args' : List StackValue}

/-! ## Calls -/

/-- Call a function with arguments, where the results of formula cells are known or throw an
exception. -/
def call (f : FormulaFunctions) (result : FormulaCell → Except Exn FormulaResult)
    (func : FormulaFunction) (args : List StackValue) : Except Failure ValueStack :=
  ((f.interpret func args.reverse).run (f.workbook.answers result)).map Prod.snd

/-- The functions for a workbook without sheets. -/
def emptyFunctions : FormulaFunctions :=
  plain ⟨⟨1, 1⟩, [], [], fun _ ↦ .empty, .new, none⟩ ⟨0, 0, 0⟩

/-- An exception. -/
def IsException (e : Failure) : Prop := ∃ x, e = .exception x

/-- A call gives an error, as its value or as an exception. -/
def IsError (x : Except Failure ValueStack) : Prop :=
  (∃ e, x = .error (.exception e)) ∨ ∃ e, x = .ok [.error e]

/-- Calls give the same value, or both of them an error. -/
def SameOutcome (x y : Except Failure ValueStack) : Prop := x = y ∨ IsError x ∧ IsError y

/-- What a function does with its arguments. -/
def handle (f : FormulaFunctions) (result : FormulaCell → Except Exn FormulaResult)
    (func : FormulaFunction) (args : List StackValue) : Except Failure (Unit × ValueStack) :=
  (f.handler func args.reverse).run (f.workbook.answers result)

/-- A function that does not fail leaves its value. -/
theorem call_of_ok {stack : ValueStack} (h : f.handle result func args = .ok ((), stack)) :
    f.call result func args = .ok stack :=
  congrArg (Except.map Prod.snd) (Query.run_tryCatch_of_ok h)

/-- An exception is an error. -/
theorem isError_call {e : Failure} (h : f.handle result func args = .error e)
    (he : IsException e) : IsError (f.call result func args) := by
  obtain ⟨x, rfl⟩ := he
  have hrun (y : Except Failure (Unit × ValueStack))
      (h : (f.interpret func args.reverse).run (f.workbook.answers result) = y) :
      f.call result func args = y.map Prod.snd := congrArg (Except.map Prod.snd) h
  rcases Query.run_tryCatch_of_error h with hcatch | hcatch
  · exact .inl ⟨x, hrun _ hcatch⟩
  · cases x with
    | formulaError e =>
      have hcatch : (f.interpret func args.reverse).run (f.workbook.answers result) =
          (if 200 ≤ e.code then .throw (.exception (.formulaError e)) else pure ((), [.error e]) :
            Reader (Unit × ValueStack)).run (f.workbook.answers result) := hcatch
      split at hcatch
      case isTrue => exact .inl ⟨_, hrun _ hcatch⟩
      case isFalse => exact .inr ⟨e, hrun _ hcatch⟩
    | _ => exact .inl ⟨_, hrun _ hcatch⟩

/-- Any other failure goes through. -/
theorem call_of_failure {e : Failure} (h : f.handle result func args = .error e)
    (he : ¬IsException e) : f.call result func args = .error e := by
  rcases Query.run_tryCatch_of_error h with hcatch | hcatch
  · exact congrArg (Except.map Prod.snd) hcatch
  · refine (congrArg (Except.map Prod.snd) hcatch).trans ?_
    cases e with
    | exception x => exact absurd ⟨x, rfl⟩ he
    | _ => rfl

/-- A function that has a number as its value leaves it. -/
theorem handle_of_call {v : ℚ} (h : f.call result func args = .ok [.value v]) :
    f.handle result func args = .ok ((), [.value v]) := by
  cases hhandle : f.handle result func args with
  | ok p =>
    obtain ⟨⟨⟩, stack⟩ := p
    rw [call_of_ok hhandle] at h
    rw [Except.ok.inj h]
  | error e =>
    by_cases he : IsException e
    · have herror := isError_call hhandle he
      rw [h] at herror
      rcases herror with ⟨x, hx⟩ | ⟨x, hx⟩
      · exact nomatch hx
      · exact nomatch hx
    · exact nomatch (call_of_failure hhandle he).symm.trans h

/-- Functions that do alike things with their arguments have the same outcome. -/
theorem sameOutcome_of_alike
    (h : Alike IsException (f.handle result func args) (f.handle result func args')) :
    SameOutcome (f.call result func args) (f.call result func args') := by
  rcases h with heq | ⟨⟨e, he, hx⟩, e', he', hy⟩
  · cases hx : f.handle result func args with
    | ok p =>
      obtain ⟨⟨⟩, stack⟩ := p
      exact .inl ((call_of_ok hx).trans (call_of_ok (heq ▸ hx)).symm)
    | error e =>
      by_cases he : IsException e
      · exact .inr ⟨isError_call hx he, isError_call (heq ▸ hx) he⟩
      · exact .inl ((call_of_failure hx he).trans (call_of_failure (heq ▸ hx) he).symm)
  · exact .inr ⟨isError_call hx he, isError_call hy he'⟩

/-! ## Computations on the stack -/

section Run

variable {α β : Type} {ans : ∀ i : Question, Except Failure i.Answer} {rest : ValueStack}

theorem run_bind_apply (x : StackM α) (k : α → StackM β) (stack : ValueStack) :
    ((x >>= k) stack).run ans = (x stack).run ans >>= fun p ↦ (k p.1 p.2).run ans :=
  Query.run_bind _ _

/-- What only reads leaves the stack as it is. -/
theorem run_lift_apply (q : Reader α) (stack : ValueStack) :
    ((liftM q : StackM α) stack).run ans = (q.run ans).map (·, stack) := by
  refine (Query.run_bind q fun a ↦ pure (a, stack)).trans ?_
  cases q.run ans <;> rfl

/-- What is done with a value is done with the stack that is left then. -/
theorem run_bind_of_ok {x : StackM α} {k : α → StackM β} {stack stack' : ValueStack} {a : α}
    (h : (x stack).run ans = .ok (a, stack')) :
    ((x >>= k) stack).run ans = (k a stack').run ans :=
  (run_bind_apply x k stack).trans (congrArg (· >>= fun p ↦ (k p.1 p.2).run ans) h)

theorem run_bind_of_error {x : StackM α} {k : α → StackM β} {stack : ValueStack} {e : Failure}
    (h : (x stack).run ans = .error e) : ((x >>= k) stack).run ans = .error e :=
  (run_bind_apply x k stack).trans (congrArg (· >>= fun p ↦ (k p.1 p.2).run ans) h)

/-- A loop that only reads leaves the stack as it is. -/
theorem run_foldlM_lift {γ : Type} (g : β → γ → Reader β) (l : List γ) (b : β)
    (stack : ValueStack) :
    ((l.foldlM (fun b c ↦ liftM (g b c)) b : StackM β) stack).run ans =
      (l.foldlM (fun b c ↦ (g b c).run ans) b).map (·, stack) := by
  induction l generalizing b with
  | nil => rfl
  | cons c l ih =>
    rw [List.foldlM_cons, List.foldlM_cons, run_bind_apply, run_lift_apply]
    cases (g b c).run ans with
    | error e => rfl
    | ok b' => exact ih b'

/-- The value on top is there. -/
theorem back_bind (k : StackValue → StackM α) (v : StackValue) :
    (back >>= k) (v :: rest) = k v (v :: rest) :=
  rfl

/-- A number is popped. -/
theorem run_popValue (v : StackValue) :
    (popValue (v :: rest)).run ans = ((numericOf v).run ans).map (·, rest) := by
  rw [popValue, back_bind, run_bind_apply, run_lift_apply]
  cases (numericOf v).run ans <;> rfl

/-- An integer that fits an `int` is one. -/
theorem run_toInt {n : Int} (h : FitsInt n) {stack : ValueStack} :
    (toInt n stack).run ans = .ok (n, stack) := by
  rw [toInt, if_pos h]
  rfl

theorem run_toInt_undefined {n : Int} (h : ¬FitsInt n) {stack : ValueStack} :
    (toInt n stack).run ans = .error .undefined := by
  rw [toInt, if_neg h]
  rfl

/-- An integer is popped and converted. -/
theorem run_popFloor (n : Int) :
    (popFloor (.value n :: rest)).run ans = (toInt n rest).run ans := by
  refine (run_bind_of_ok (run_popValue (.value n))).trans ?_
  rw [Rat.floor_intCast]

/-- The values of a range are popped. -/
theorem run_popRangeValue (sheetSize : RcSize) (r : AbsRange) :
    (popRangeValue sheetSize (.rangeRef r :: rest)).run ans =
      ((Reader.getRangeValue sheetSize r).run ans).map (·, rest) := by
  rw [popRangeValue, back_bind]
  dsimp only
  rw [run_bind_apply, run_lift_apply]
  cases (Reader.getRangeValue sheetSize r).run ans <;> rfl

/-- A loop whose steps each take one argument. -/
theorem run_forArgs {step : β → StackM β} {g : β → StackValue → Except Failure β}
    {args : ValueStack}
    (h : ∀ b, ∀ v ∈ args, ∀ rest, (step b (v :: rest)).run ans = (g b v).map (·, rest)) (b : β) :
    (forArgs (fun _ ↦ true) step b args).run ans = (args.foldlM g b).map (·, []) := by
  show (forArgs.loop (fun _ ↦ true) step args.length b args).run ans = _
  induction args generalizing b with
  | nil => rfl
  | cons v args ih =>
    refine (run_bind_apply (step b) (forArgs.loop (fun _ ↦ true) step args.length)
      (v :: args)).trans ?_
    rw [h b v List.mem_cons_self, List.foldlM_cons]
    cases g b v with
    | error e => rfl
    | ok b' => exact ih (fun b v' hv' ↦ h b v' (List.mem_cons_of_mem v hv')) b'

/-- A loop over the arguments and the value that is left in the end. -/
theorem run_forArgs_push {step : β → StackM β} {g : β → StackValue → Except Failure β}
    {args : ValueStack}
    (h : ∀ b, ∀ v ∈ args, ∀ rest, (step b (v :: rest)).run ans = (g b v).map (·, rest)) (b : β)
    (finish : β → StackValue) :
    ((forArgs (fun _ ↦ true) step b >>= fun b ↦ push (finish b)) args).run ans =
      (args.foldlM g b).map fun b ↦ ((), [finish b]) := by
  rw [run_bind_apply, run_forArgs h]
  cases args.foldlM g b <;> rfl

/-- An element that is there is read. -/
theorem run_elementAt {l : List α} {i : Nat} (h : i < l.length) (a : α) {stack : ValueStack} :
    (elementAt l i stack).run ans = .ok (l.getD i a, stack) := by
  rw [elementAt, List.getD_eq_getElem?_getD, List.getElem?_eq_getElem h]
  rfl

/-- The number of arguments is right. -/
theorem requireArgs_bind (msg : String) (k : Unit → StackM α) (v : StackValue) :
    (requireArgs (0 < ·) msg >>= k) (v :: rest) = k () (v :: rest) :=
  rfl

end Run

/-- The stack of some arguments. -/
theorem exists_reverse_eq_cons (h : args ≠ []) : ∃ v rest, args.reverse = v :: rest :=
  List.exists_cons_of_ne_nil fun hnil ↦ h (List.reverse_eq_nil_iff.mp hnil)

/-! ## Sums -/

/-- Add the number that an argument stands for, or those of a range. -/
def sumArg (f : FormulaFunctions) (result : FormulaCell → Except Exn FormulaResult) (ret : ℚ) :
    StackValue → Except Failure ℚ
  | .rangeRef r =>
    ((Reader.getRangeValue f.workbook.sheetSize r).run (f.workbook.answers result)).bind fun m ↦
      (ofExn (sumMatrixElements m)).map (ret + ·)
  | v => ((numericOf v).run (f.workbook.answers result)).map (ret + ·)

/-- SUM adds up its arguments. -/
theorem handle_funcSum (hargs : args ≠ []) :
    f.handle result .funcSum args =
      (args.reverse.foldlM (f.sumArg result) 0).map fun sum ↦ ((), [.value sum]) := by
  obtain ⟨v, rest, hstack⟩ := exists_reverse_eq_cons hargs
  show (f.fncSum args.reverse).run _ = _
  rw [hstack, fncSum, requireArgs_bind]
  refine run_forArgs_push (fun ret v _ rest ↦ ?_) 0 .value
  rw [back_bind]
  cases v with
  | rangeRef r =>
    dsimp only
    rw [run_bind_apply, run_popRangeValue, sumArg]
    cases (Reader.getRangeValue f.workbook.sheetSize r).run (f.workbook.answers result) with
    | error e => rfl
    | ok m =>
      show ((liftM (Reader.ofExcept (sumMatrixElements m)) >>= fun sum ↦ pure (ret + sum) :
        StackM ℚ) rest).run _ = ((ofExn (sumMatrixElements m)).map (ret + ·)).map (·, rest)
      rw [run_bind_apply, run_lift_apply, Workbook.run_ofExcept]
      cases sumMatrixElements m <;> rfl
  | _ =>
    dsimp only
    rw [run_bind_apply, run_popValue, sumArg]
    · cases (numericOf _).run (f.workbook.answers result) <;> rfl
    all_goals nofun

/-- Add the number that an argument stands for and count it, or those of a range. -/
def averageArg (f : FormulaFunctions) (result : FormulaCell → Except Exn FormulaResult)
    (p : ℚ × ℚ) : StackValue → Except Failure (ℚ × ℚ)
  | .rangeRef r =>
    ((Reader.getRangeValue f.workbook.sheetSize r).run (f.workbook.answers result)).bind fun m ↦
      ofExn (averageMatrix m p.1 p.2)
  | v => ((numericOf v).run (f.workbook.answers result)).map fun x ↦ (p.1 + x, p.2 + 1)

/-- AVERAGE adds up its arguments and counts them. -/
theorem handle_funcAverage (hargs : args ≠ []) :
    f.handle result .funcAverage args =
      (args.reverse.foldlM (f.averageArg result) (0, 0)).map fun p ↦
        ((), [.value (p.1 / p.2)]) := by
  obtain ⟨v, rest, hstack⟩ := exists_reverse_eq_cons hargs
  show (f.fncAverage args.reverse).run _ = _
  rw [hstack, fncAverage, requireArgs_bind]
  refine run_forArgs_push (fun p v _ rest ↦ ?_) (0, 0) fun p ↦ .value (p.1 / p.2)
  dsimp only
  rw [back_bind]
  cases v with
  | rangeRef r =>
    dsimp only
    rw [run_bind_apply, run_popRangeValue, averageArg]
    cases (Reader.getRangeValue f.workbook.sheetSize r).run (f.workbook.answers result) with
    | error e => rfl
    | ok m =>
      show ((liftM (Reader.ofExcept (averageMatrix m p.1 p.2)) : StackM (ℚ × ℚ)) rest).run _ =
        (ofExn (averageMatrix m p.1 p.2)).map (·, rest)
      rw [run_lift_apply, Workbook.run_ofExcept]
  | _ =>
    dsimp only
    rw [run_bind_apply, run_popValue, averageArg]
    · cases (numericOf _).run (f.workbook.answers result) <;> rfl
    all_goals nofun

/-! ## Counts -/

/-- Count an argument, or the cells it refers to. -/
def countArg (f : FormulaFunctions) (result : FormulaCell → Except Exn FormulaResult)
    (counted : StackValue → Bool) (values : Values) (ret : ℚ) : StackValue → Except Failure ℚ
  | .rangeRef r =>
    ((f.workbook.countRange r values).run (f.workbook.answers result)).map (ret + ·)
  | .singleRef a =>
    ((f.workbook.countRange a.toRange values).run (f.workbook.answers result)).map (ret + ·)
  | v => .ok (if counted v then ret + 1 else ret)

/-- Arguments are counted. -/
theorem run_countArgs (counted : StackValue → Bool) (values : Values) (stack : ValueStack) :
    (f.countArgs counted values stack).run (f.workbook.answers result) =
      (stack.foldlM (f.countArg result counted values) 0).map fun n ↦ ((), [.value n]) := by
  rw [countArgs]
  refine run_forArgs_push (fun ret v _ rest ↦ ?_) 0 .value
  rw [back_bind]
  cases v with
  | rangeRef r =>
    show ((liftM (f.workbook.countRange r values) >>= fun n ↦ pure (ret + n) : StackM ℚ) rest).run
      _ = _
    rw [run_bind_apply, run_lift_apply, countArg]
    cases (f.workbook.countRange r values).run (f.workbook.answers result) <;> rfl
  | singleRef a =>
    show ((liftM (f.workbook.countRange a.toRange values) >>= fun n ↦ pure (ret + n) :
      StackM ℚ) rest).run _ = _
    rw [run_bind_apply, run_lift_apply, countArg]
    cases (f.workbook.countRange a.toRange values).run (f.workbook.answers result) <;> rfl
  | _ => rfl

/-! ## Sequences -/

/-- Append the number that an argument stands for, or those of a range. -/
def sequenceArg (f : FormulaFunctions) (result : FormulaCell → Except Exn FormulaResult)
    (seq : List ℚ) : StackValue → Except Failure (List ℚ)
  | .rangeRef r =>
    (countUp r.first.sheet r.last.sheet).foldlM (fun seq sheet ↦
      (f.workbook.walk sheet r (appendSegment sheet) seq).run (f.workbook.answers result)) seq
  | .singleRef a => (Workbook.singleNumber seq a).run (f.workbook.answers result)
  | .boolean b => .ok (seq ++ [boolToNumber b])
  | .value v => .ok (seq ++ [v])
  | .error _ | .string _ | .matrix _ => .ok seq

theorem popSingleRef_bind {α : Type} (g : AbsAddress → StackM α) (a : AbsAddress)
    (rest : ValueStack) : (popSingleRef >>= g) (.singleRef a :: rest) = g a rest := rfl

/-- The numbers of arguments are collected. -/
theorem run_popSequence (stack : ValueStack) :
    (f.popSequence stack).run (f.workbook.answers result) =
      (stack.foldlM (f.sequenceArg result) []).map (·, []) := by
  refine run_forArgs (fun seq v _ rest ↦ ?_) []
  rw [appendValuesFromStack, back_bind]
  cases v with
  | rangeRef r =>
    show (((countUp r.first.sheet r.last.sheet).foldlM (fun seq sheet ↦
      liftM (f.workbook.walk sheet r (appendSegment sheet) seq)) seq : StackM (List ℚ)) rest).run _
        = _
    rw [run_foldlM_lift, sequenceArg]
  | singleRef a =>
    show ((popSingleRef >>= _ : StackM (List ℚ)) (.singleRef a :: rest)).run _ = _
    rw [popSingleRef_bind, run_bind_apply, run_lift_apply, sequenceArg, Workbook.singleNumber,
      Query.run_bind]
    cases (Reader.getCellValueType a).run (f.workbook.answers result) with
    | error e => rfl
    | ok t =>
      cases t with
      | boolean =>
        show ((liftM (Reader.getBooleanValue a) >>= fun b ↦ pure (seq ++ [boolToNumber b]) :
          StackM (List ℚ)) rest).run _ = Except.map _ ((Reader.getBooleanValue a >>= fun b ↦
            pure (seq ++ [boolToNumber b]) : Reader (List ℚ)).run _)
        rw [run_bind_apply, run_lift_apply, Query.run_bind]
        cases (Reader.getBooleanValue a).run (f.workbook.answers result) <;> rfl
      | numeric =>
        show ((liftM (Reader.getNumericValue a) >>= fun x ↦ pure (seq ++ [x]) :
          StackM (List ℚ)) rest).run _ = Except.map _ ((Reader.getNumericValue a >>= fun x ↦
            pure (seq ++ [x]) : Reader (List ℚ)).run _)
        rw [run_bind_apply, run_lift_apply, Query.run_bind]
        cases (Reader.getNumericValue a).run (f.workbook.answers result) <;> rfl
      | _ => rfl
  | _ => rfl

/-! ## The middle -/

/-- The number in the middle of a sorted sequence. -/
def medianOf (sorted : List ℚ) : Except Failure StackValue :=
  if sorted.length % 2 = 1 then .ok (.value (sorted.getD (sorted.length / 2) 0))
  else if sorted.length / 2 = 0 then .error .undefined
  else .ok (.value
    ((sorted.getD (sorted.length / 2 - 1) 0 + sorted.getD (sorted.length / 2) 0) / 2))

/-- MEDIAN goes by the numbers in order. -/
theorem handle_funcMedian (hargs : args ≠ []) :
    f.handle result .funcMedian args =
      (args.reverse.foldlM (f.sequenceArg result) []).bind fun seq ↦
        (medianOf (seq.mergeSort (· ≤ ·))).map fun v ↦ ((), [v]) := by
  obtain ⟨v, rest, hstack⟩ := exists_reverse_eq_cons hargs
  show (f.fncMedian args.reverse).run _ = _
  rw [hstack, fncMedian, requireArgs_bind, run_bind_apply, run_popSequence]
  cases (v :: rest).foldlM (f.sequenceArg result) [] with
  | error e => rfl
  | ok seq =>
    show _ = (medianOf (seq.mergeSort (· ≤ ·))).map _
    rw [medianOf, List.length_mergeSort]
    show ((if seq.length % 2 = 1 then _ else _ : StackM Unit) []).run _ = _
    have hread {i : Nat} (hi : i < seq.length) :=
      @run_elementAt _ (f.workbook.answers result) (seq.mergeSort (· ≤ ·)) _
        (hi.trans_eq (List.length_mergeSort seq).symm) 0 []
    dsimp only
    split
    case isTrue hodd =>
      rw [run_bind_apply, hread (by omega)]
      rfl
    case isFalse heven =>
      split
      case isTrue => rfl
      case isFalse hzero =>
        rw [run_bind_apply, hread (by omega)]
        refine (run_bind_apply _ _ _).trans ?_
        rw [hread (by omega)]
        rfl

/-- There is a number in the middle if there are any. -/
theorem exists_medianOf {sorted : List ℚ} (h : sorted ≠ []) :
    ∃ v, medianOf sorted = .ok (.value v) := by
  rw [medianOf]
  split
  case isTrue => exact ⟨_, rfl⟩
  case isFalse hodd =>
    have hlength := List.length_pos_iff.mpr h
    rw [if_neg (by omega)]
    exact ⟨_, rfl⟩

/-! ## What is there most often -/

/-- The number that is there most often in a sorted sequence. -/
def modeOf (sorted : List ℚ) : Except Failure StackValue :=
  if StrictWeakOrderOn modeLess (valueCounts sorted) then
    match (valueCounts sorted).mergeSort fun a b ↦ !modeLess b a with
    | [] => .ok (.error .noValueAvailable)
    | (topValue, topCount) :: _ =>
      if topCount = 1 then .ok (.error .noValueAvailable) else .ok (.value topValue)
  else .error .undefined

/-- MODE goes by the numbers in order. -/
theorem handle_funcMode (hargs : args ≠ []) :
    f.handle result .funcMode args =
      (args.reverse.foldlM (f.sequenceArg result) []).bind fun seq ↦
        (modeOf (seq.mergeSort (· ≤ ·))).map fun v ↦ ((), [v]) := by
  obtain ⟨v, rest, hstack⟩ := exists_reverse_eq_cons hargs
  show (f.fncMode args.reverse).run _ = _
  rw [hstack, fncMode, requireArgs_bind, run_bind_apply, run_popSequence]
  cases (v :: rest).foldlM (f.sequenceArg result) [] with
  | error e => rfl
  | ok seq =>
    show ((stdSort modeLess (valueCounts (seq.mergeSort (· ≤ ·))) >>= fun counts ↦ match counts with
      | [] => push (.error .noValueAvailable)
      | (topValue, topCount) :: _ =>
        if topCount = 1 then push (.error .noValueAvailable) else push (.value topValue) :
          StackM Unit) []).run _ = (modeOf (seq.mergeSort (· ≤ ·))).map _
    rw [run_bind_apply, stdSort, modeOf]
    by_cases horder : StrictWeakOrderOn modeLess (valueCounts (seq.mergeSort (· ≤ ·)))
    · rw [if_pos horder, if_pos horder]
      generalize (valueCounts (seq.mergeSort (· ≤ ·))).mergeSort (fun a b ↦ !modeLess b a) = sorted
      cases sorted with
      | nil => rfl
      | cons top counts =>
        obtain ⟨topValue, topCount⟩ := top
        show ((if topCount = 1 then push (.error .noValueAvailable) else push (.value topValue) :
          StackM Unit) []).run _ = (if topCount = 1 then _ else _ : Except Failure StackValue).map _
        by_cases htop : topCount = 1
        · rw [if_pos htop, if_pos htop]
          rfl
        · rw [if_neg htop, if_neg htop]
          rfl
    · rw [if_neg horder, if_neg horder]
      rfl

/-- The values of a sorted sequence are counted in order, each of them once. -/
theorem valueCounts_of_sorted {l : List ℚ} (h : l.Pairwise (· ≤ ·)) :
    (valueCounts l).Pairwise (fun a b ↦ a.1 < b.1) ∧ (∀ c ∈ valueCounts l, 1 ≤ c.2) ∧
      (valueCounts l).head?.map Prod.fst = l.head? ∧
      (l.Nodup ↔ ∀ c ∈ valueCounts l, c.2 = 1) := by
  induction l with
  | nil => exact ⟨.nil, nofun, rfl, iff_of_true .nil nofun⟩
  | cons v vs ih =>
    obtain ⟨hv, hvs⟩ := List.pairwise_cons.mp h
    obtain ⟨hpairwise, hpos, hhead, hnodup⟩ := ih hvs
    rw [valueCounts]
    cases hcounts : valueCounts vs with
    | nil =>
      rw [hcounts] at hhead
      obtain rfl := List.head?_eq_none_iff.mp hhead.symm
      refine ⟨List.pairwise_singleton _ _, fun c hc ↦ ?_, rfl,
        iff_of_true (List.nodup_singleton v) fun c hc ↦ ?_⟩
      · rw [List.mem_singleton.mp hc]
      · rw [List.mem_singleton.mp hc]
    | cons top counts =>
      obtain ⟨w, n⟩ := top
      rw [hcounts] at hpairwise hpos hhead hnodup
      have hw : w ∈ vs := List.mem_of_mem_head? hhead.symm
      dsimp only
      split
      case isTrue hlt =>
        have hnot : v ∉ vs := by
          obtain ⟨vs', rfl⟩ := List.head?_eq_some_iff.mp hhead.symm
          intro hmem
          rcases List.mem_cons.mp hmem with rfl | hmem
          · exact lt_irrefl v hlt
          · exact absurd ((List.pairwise_cons.mp hvs).1 v hmem) (not_le.mpr hlt)
        refine ⟨List.pairwise_cons.mpr ⟨fun c hc ↦ ?_, hpairwise⟩, fun c hc ↦ ?_, rfl, ?_⟩
        · rcases List.mem_cons.mp hc with rfl | hc
          · exact hlt
          · exact hlt.trans ((List.pairwise_cons.mp hpairwise).1 c hc)
        · rcases List.mem_cons.mp hc with rfl | hc
          · exact Nat.le_refl 1
          · exact hpos c hc
        · rw [List.nodup_cons, and_iff_right hnot, hnodup,
            List.forall_mem_cons (l := (w, n) :: counts),
            and_iff_right rfl]
      case isFalse hge =>
        have heq : v = w := le_antisymm (hv w hw) (not_lt.mp hge)
        refine ⟨List.pairwise_cons.mpr (List.pairwise_cons.mp hpairwise), fun c hc ↦ ?_,
          congrArg some heq.symm, ?_⟩
        · rcases List.mem_cons.mp hc with rfl | hc
          · exact Nat.le_add_left 1 n
          · exact hpos c (List.mem_cons_of_mem _ hc)
        · refine iff_of_false (fun h ↦ (List.nodup_cons.mp h).1 (heq ▸ hw)) fun h ↦ ?_
          have hn := hpos (w, n) List.mem_cons_self
          have hone := h (w, n + 1) List.mem_cons_self
          dsimp only at hn hone
          omega

/-- Where only the values are compared, the comparison is an order. -/
theorem strictWeakOrderOn_of_lt {counts : List (ℚ × Nat)}
    (hless : ∀ a ∈ counts, ∀ b ∈ counts, modeLess a b = decide (a.1 < b.1)) :
    StrictWeakOrderOn modeLess counts := by
  refine ⟨fun a ha ↦ ?_, fun a ha b hb hab ↦ ?_, fun a ha b hb c hc hab hbc ↦ ?_,
    fun a ha b hb c hc hab hba hbc hcb ↦ ?_⟩
  · rw [hless a ha a ha]
    exact decide_eq_false (lt_irrefl a.1)
  · rw [hless a ha b hb, decide_eq_true_eq] at hab
    rw [hless b hb a ha]
    exact decide_eq_false hab.le.not_gt
  · rw [hless a ha b hb, decide_eq_true_eq] at hab
    rw [hless b hb c hc, decide_eq_true_eq] at hbc
    rw [hless a ha c hc]
    exact decide_eq_true (hab.trans hbc)
  · rw [hless a ha b hb, decide_eq_false_iff_not, not_lt] at hab
    rw [hless b hb a ha, decide_eq_false_iff_not, not_lt] at hba
    rw [hless b hb c hc, decide_eq_false_iff_not, not_lt] at hbc
    rw [hless c hc b hb, decide_eq_false_iff_not, not_lt] at hcb
    rw [hless a ha c hc, hless c hc a ha]
    exact ⟨decide_eq_false (hbc.trans hab).not_gt, decide_eq_false (hba.trans hcb).not_gt⟩

/-- Where no number is there twice, none is there most often. -/
theorem modeOf_of_nodup {sorted : List ℚ} (h : sorted.Pairwise (· ≤ ·)) (hnodup : sorted.Nodup) :
    modeOf sorted = .ok (.error .noValueAvailable) := by
  obtain ⟨-, -, -, hone⟩ := valueCounts_of_sorted h
  have hone := hone.mp hnodup
  have hless : ∀ a ∈ valueCounts sorted, ∀ b ∈ valueCounts sorted,
      modeLess a b = decide (a.1 < b.1) := by
    intro a ha b hb
    rw [modeLess, hone a ha, hone b hb]
    rfl
  have horder := strictWeakOrderOn_of_lt hless
  rw [modeOf, if_pos horder]
  cases hsort : (valueCounts sorted).mergeSort fun a b ↦ !modeLess b a with
  | nil => rfl
  | cons top counts =>
    have hmem : top ∈ valueCounts sorted :=
      List.mem_mergeSort.mp (hsort ▸ List.mem_cons_self : top ∈ (valueCounts sorted).mergeSort _)
    exact if_pos (hone top hmem)

/-- Where values can be sorted by how often they are there, a greater one is not there more often
than a smaller one, and they are in order already. -/
theorem valueCounts_of_order {sorted : List ℚ} (h : sorted.Pairwise (· ≤ ·))
    (horder : StrictWeakOrderOn modeLess (valueCounts sorted)) :
    (valueCounts sorted).Pairwise (fun a b ↦ b.2 ≤ a.2) ∧
      ((valueCounts sorted).mergeSort fun a b ↦ !modeLess b a) = valueCounts sorted := by
  obtain ⟨hpairwise, -⟩ := valueCounts_of_sorted h
  have hle : (valueCounts sorted).Pairwise fun a b ↦ (!modeLess b a) = true ∧ b.2 ≤ a.2 := by
    refine hpairwise.imp_of_mem fun {a b} ha hb hlt ↦ ?_
    have hab : modeLess a b = true := Bool.or_eq_true_iff.mpr (.inr (decide_eq_true hlt))
    have hba := horder.2.1 a ha b hb hab
    refine ⟨by rw [hba]; rfl, ?_⟩
    exact Nat.not_lt.mp (of_decide_eq_false (Bool.or_eq_false_iff.mp hba).1)
  exact ⟨hle.imp fun h ↦ h.2, List.mergeSort_of_pairwise (hle.imp fun h ↦ h.1)⟩

/-- Where a number is there twice, one is there most often, if they can be sorted at all. -/
theorem modeOf_of_not_nodup {sorted : List ℚ} (h : sorted.Pairwise (· ≤ ·))
    (hnodup : ¬sorted.Nodup) :
    modeOf sorted = .error .undefined ∨ ∃ v, modeOf sorted = .ok (.value v) := by
  obtain ⟨-, hpos, -, hone⟩ := valueCounts_of_sorted h
  by_cases horder : StrictWeakOrderOn modeLess (valueCounts sorted)
  · refine .inr ?_
    obtain ⟨hle, hsort⟩ := valueCounts_of_order h horder
    have hmany : ∃ c ∈ valueCounts sorted, c.2 ≠ 1 := by
      by_contra hall
      exact hnodup (hone.mpr fun c hc ↦ by_contra fun hne ↦ hall ⟨c, hc, hne⟩)
    rw [modeOf, if_pos horder, hsort]
    cases hcounts : valueCounts sorted with
    | nil =>
      obtain ⟨c, hc, -⟩ := hmany
      exact nomatch (hcounts ▸ hc : c ∈ [])
    | cons top counts =>
      rw [hcounts] at hmany hle hpos
      have htop : top.2 ≠ 1 := by
        obtain ⟨c, hc, hne⟩ := hmany
        rcases List.mem_cons.mp hc with rfl | hmem
        · exact hne
        · have hc₁ := hpos c hc
          have hc₂ := (List.pairwise_cons.mp hle).1 c hmem
          omega
      exact ⟨top.1, if_neg htop⟩
  · exact .inl (if_neg horder)

/-! ## Ranges and their cells -/

section Ranges

variable {r : AbsRange} {cells : List AbsAddress}

theorem isException_of_ofExn {α : Type} {x : Except Exn α} {e : Failure} (h : ofExn x = .error e) :
    IsException e := by
  cases x with
  | ok a => exact nomatch h
  | error x => exact ⟨x, (Except.error.inj h).symm⟩

/-- A range inside a sheet has a cell. -/
theorem ne_nil_of_perm (hr : r.Inside f.workbook) (hperm : cells.Perm r.addresses) :
    cells.map StackValue.singleRef ≠ [] := by
  rw [Ne, List.map_eq_nil_iff]
  rintro rfl
  have hmem : r.first ∈ r.addresses := by
    rw [AbsRange.mem_addresses, AbsRange.contains_iff]
    exact ⟨Int.le_refl _, hr.single.le, Int.le_refl _, hr.row_le, Int.le_refl _, hr.column_le⟩
  rw [List.nil_perm.mp hperm] at hmem
  exact nomatch hmem

/-- What is made of the matrix of a range is alike what is made of its cells. -/
theorem alike_getRangeValue {β : Type} (hr : r.Inside f.workbook)
    (hmem : ∀ a, a ∈ r.addresses ↔ a ∈ cells) {k : Matrix → Except Failure β}
    {put : β → AbsAddress → ℚ → β} {b : β}
    (hk : ∀ (m : Matrix) (number : AbsAddress → ℚ),
      m.Holds (r.last.row - r.first.row + 1).toNat (r.last.column - r.first.column + 1).toNat
        (number ∘ r.cellAt) r.positions →
      k m = .ok (cells.foldl (fun b a ↦ put b a (number a)) b)) :
    Alike IsException
      (((Reader.getRangeValue f.workbook.sheetSize r).run (f.workbook.answers result)).bind k)
      (gather (fun a ↦ ofExn (f.workbook.readNumber result a)) put cells b) := by
  rw [Workbook.getRangeValue_eq hr.single hr.valid, hr.fillUnset]
  rcases values_or_error (f.workbook.readNumber result) r.addresses with
    ⟨number, hnumber⟩ | ⟨a, ha, e, he⟩
  · obtain ⟨m, hrun, hm⟩ := Workbook.exists_run_rangeMatrix hr.single hnumber
    rw [hrun, Workbook.gather_ofExn_eq_ok fun a ha ↦ hnumber a ((hmem a).mpr ha)]
    exact .inl (hk m number hm)
  · obtain ⟨e₁, hrange⟩ := Workbook.run_rangeMatrix_of_error hr.single ⟨a, ha, e, he⟩
    obtain ⟨e₂, hcells⟩ := Workbook.gather_ofExn_eq_error _ put
      ⟨a, (hmem a).mp ha, e, he⟩ b
    rw [hrange, hcells]
    exact .inr ⟨⟨_, ⟨e₁, rfl⟩, rfl⟩, _, ⟨e₂, rfl⟩, rfl⟩

/-- A range is added up like its cells. -/
theorem alike_funcSum (hr : r.Inside f.workbook) (hperm : cells.Perm r.addresses) :
    Alike IsException (f.handle result .funcSum [.rangeRef r])
      (f.handle result .funcSum (cells.map .singleRef)) := by
  rw [handle_funcSum (List.cons_ne_nil _ _), handle_funcSum (ne_nil_of_perm hr hperm)]
  refine Alike.map ?_ _
  rw [← List.map_reverse, List.foldlM_map]
  have hone : [StackValue.rangeRef r].reverse.foldlM (f.sumArg result) 0 =
      f.sumArg result 0 (.rangeRef r) := bind_pure _
  have hcells : cells.reverse.foldlM (fun ret a ↦ f.sumArg result ret (.singleRef a)) 0 =
      gather (fun a ↦ ofExn (f.workbook.readNumber result a)) (fun ret _ v ↦ ret + v)
        cells.reverse 0 := by
    refine foldlM_congr (fun ret a _ ↦ ?_) 0
    show ((Reader.getNumericValue a).run _).map _ = _
    rw [Workbook.run_getNumericValue]
    rfl
  rw [hone, hcells]
  refine alike_getRangeValue hr (fun a ↦ ?_) fun m number hm ↦ ?_
  · rw [List.mem_reverse, hperm.mem_iff]
  · rw [hm.sum, Workbook.sum_positions hr.single, foldl_add_eq, List.map_reverse,
      List.sum_reverse, (hperm.map number).sum_eq]
    rfl

/-- The average of a range is like that of its cells. -/
theorem alike_funcAverage (hr : r.Inside f.workbook) (hperm : cells.Perm r.addresses) :
    Alike IsException (f.handle result .funcAverage [.rangeRef r])
      (f.handle result .funcAverage (cells.map .singleRef)) := by
  rw [handle_funcAverage (List.cons_ne_nil _ _), handle_funcAverage (ne_nil_of_perm hr hperm)]
  refine Alike.map ?_ _
  rw [← List.map_reverse, List.foldlM_map]
  have hone : [StackValue.rangeRef r].reverse.foldlM (f.averageArg result) (0, 0) =
      f.averageArg result (0, 0) (.rangeRef r) := bind_pure _
  have hcells : cells.reverse.foldlM (fun p a ↦ f.averageArg result p (.singleRef a)) (0, 0) =
      gather (fun a ↦ ofExn (f.workbook.readNumber result a)) (fun p _ v ↦ (p.1 + v, p.2 + 1))
        cells.reverse (0, 0) := by
    refine foldlM_congr (fun p a _ ↦ ?_) (0, 0)
    show ((Reader.getNumericValue a).run _).map _ = _
    rw [Workbook.run_getNumericValue]
    rfl
  rw [hone, hcells]
  refine alike_getRangeValue hr (fun a ↦ ?_) fun m number hm ↦ ?_
  · rw [List.mem_reverse, hperm.mem_iff]
  · rw [hm.average, Workbook.sum_positions hr.single, Workbook.length_positions hr.single,
      foldl_add_count_eq, List.map_reverse, List.sum_reverse, (hperm.map number).sum_eq,
      List.length_reverse, hperm.length_eq]
    rfl

/-- A range is counted like its cells. -/
theorem alike_countArgs (hr : r.Inside f.workbook) (hperm : cells.Perm r.addresses)
    (counted : StackValue → Bool) (values : Values) :
    Alike IsException
      ((f.countArgs counted values [.rangeRef r]).run (f.workbook.answers result))
      ((f.countArgs counted values (cells.map .singleRef).reverse).run
        (f.workbook.answers result)) := by
  rw [run_countArgs, run_countArgs]
  refine Alike.map ?_ _
  rw [← List.map_reverse, List.foldlM_map]
  have hzero (x : Except Failure ℚ) : x.map ((0 : ℚ) + ·) = x := by
    cases x with
    | error e => rfl
    | ok n => exact congrArg Except.ok (zero_add n)
  have hone : [StackValue.rangeRef r].foldlM (f.countArg result counted values) 0 =
      gather (fun a ↦ ofExn (f.workbook.readCount result values a))
        (fun ret _ v ↦ ret + v) r.addresses 0 := by
    refine (bind_pure (f.countArg result counted values 0 (.rangeRef r))).trans ?_
    rw [countArg, Workbook.run_countRange hr.clipRange hr.toInSheet, hzero]
  have hcells : cells.reverse.foldlM
        (fun ret a ↦ f.countArg result counted values ret (.singleRef a)) 0 =
      gather (fun a ↦ ofExn (f.workbook.readCount result values a))
        (fun ret _ v ↦ ret + v) cells.reverse 0 := by
    refine foldlM_congr (fun ret a ha ↦ ?_) 0
    have hin := hr.toRange (hperm.mem_iff.mp (List.mem_reverse.mp ha))
    rw [countArg, Workbook.run_countRange hin.clipRange hin.toInSheet, AbsRange.addresses_toRange,
      gather_cons]
    show ((ofExn (f.workbook.readCount result values a)).bind _).map _ =
      (ofExn (f.workbook.readCount result values a)).map _
    cases f.workbook.readCount result values a with
    | error e => rfl
    | ok n => exact congrArg (fun x ↦ Except.ok (ret + x)) (zero_add n)
  rw [hone, hcells]
  exact alike_gather_add (fun a e ↦ isException_of_ofExn)
    (hperm.symm.trans cells.reverse_perm.symm) 0

/-- The numbers of a range are collected. -/
theorem sequenceArg_rangeRef (hr : r.Inside f.workbook) (seq : List ℚ) :
    f.sequenceArg result seq (.rangeRef r) = f.workbook.appendNumbers result r.addresses seq := by
  rw [sequenceArg, ← hr.single, countUp_cons (Int.le_refl _), countUp_eq_nil (Int.lt_succ _),
    List.foldlM_cons, Workbook.run_walk_appendSegment hr.toInSheet]
  exact bind_pure _

/-- The numbers of cells that are referred to one by one are collected. -/
theorem foldlM_sequenceArg_singleRef (cells : List AbsAddress) (seq : List ℚ) :
    (cells.map StackValue.singleRef).foldlM (f.sequenceArg result) seq =
      gather (fun a ↦ ofExn (f.workbook.readCell result a >>= CellValue.single?))
        (fun seq _ v ↦ seq ++ v.toList) cells seq := by
  rw [List.foldlM_map]
  refine foldlM_congr (fun seq a _ ↦ ?_) seq
  rw [sequenceArg, Workbook.run_singleNumber]
  show ofExn ((f.workbook.readCell result a >>= CellValue.single?).map _) =
    (ofExn (f.workbook.readCell result a >>= CellValue.single?)).map _
  cases f.workbook.readCell result a >>= CellValue.single? <;> rfl

/-- Some numbers in order do not depend on the order they were in. -/
theorem mergeSort_eq_of_perm {l l' : List ℚ} (h : l.Perm l') :
    l.mergeSort (· ≤ ·) = l'.mergeSort (· ≤ ·) :=
  ((List.mergeSort_perm l _).trans (h.trans (List.mergeSort_perm l' _).symm)).eq_of_pairwise'
    (List.pairwise_mergeSort' _ l) (List.pairwise_mergeSort' _ l')

/-- What the numbers of a range are in order. -/
theorem foldl_append_toList {value : AbsAddress → Option ℚ} (l : List AbsAddress) (seq : List ℚ) :
    l.foldl (fun seq a ↦ seq ++ (value a).toList) seq = seq ++ l.filterMap value := by
  induction l generalizing seq with
  | nil => exact (List.append_nil seq).symm
  | cons a l ih =>
    rw [List.foldl_cons, ih, List.append_assoc]
    cases h : value a with
    | none => rw [List.filterMap_cons_none h]; rfl
    | some v => rw [List.filterMap_cons_some h]; rfl

/-- The numbers in the cells that can be read. -/
def numbers (f : FormulaFunctions) (result : FormulaCell → Except Exn FormulaResult)
    (l : List AbsAddress) : List ℚ :=
  l.filterMap fun a ↦ match f.workbook.readCell result a with
    | .ok c => c.number?
    | .error _ => none

/-- The numbers that an argument stands for. -/
def argNumbers (f : FormulaFunctions) (result : FormulaCell → Except Exn FormulaResult) :
    StackValue → List ℚ
  | .value v => [v]
  | .boolean b => [boolToNumber b]
  | .singleRef a => f.numbers result [a]
  | .rangeRef r => f.numbers result r.addresses
  | .string _ | .error _ | .matrix _ => []

theorem numbers_append (l l' : List AbsAddress) :
    f.numbers result (l ++ l') = f.numbers result l ++ f.numbers result l' :=
  List.filterMap_append

/-- A cell can be read. -/
def Readable (f : FormulaFunctions) (result : FormulaCell → Except Exn FormulaResult)
    (a : AbsAddress) : Prop := ∃ c, f.workbook.readCell result a = .ok c

/-- A cell that can be read is in the workbook. -/
theorem Readable.inWorkbook {a : AbsAddress} (h : f.Readable result a) :
    f.workbook.inWorkbook a = true := by
  obtain ⟨c, hc⟩ := h
  cases hin : f.workbook.inWorkbook a with
  | true => rfl
  | false => exact nomatch hc.symm.trans (Workbook.readCell_of_outside hin)

/-- A cell of a range has a matrix of which no part is its own. -/
def HasMatrix (f : FormulaFunctions) (result : FormulaCell → Except Exn FormulaResult)
    (l : List AbsAddress) : Prop :=
  ∃ a ∈ l, ∃ c, f.workbook.readCell result a = .ok c ∧ c.isMatrix = true

/-- A cell of a range cannot be read. -/
def HasFailure (f : FormulaFunctions) (result : FormulaCell → Except Exn FormulaResult)
    (l : List AbsAddress) : Prop :=
  ∃ a ∈ l, ∃ e, f.workbook.readCell result a = .error e

section Order

variable {order : List ℚ → Except Failure StackValue}

/-- What a function goes by that puts numbers in order. -/
def GoesBy (f : FormulaFunctions) (result : FormulaCell → Except Exn FormulaResult)
    (func : FormulaFunction) (order : List ℚ → Except Failure StackValue) : Prop :=
  ∀ args ≠ [], f.handle result func args =
    (args.reverse.foldlM (f.sequenceArg result) []).bind fun seq ↦
      (order (seq.mergeSort (· ≤ ·))).map fun v ↦ ((), [v])

theorem GoesBy.handle_rangeRef (h : f.GoesBy result func order) (hr : r.Inside f.workbook) :
    f.handle result func [.rangeRef r] =
      (f.workbook.appendNumbers result r.addresses []).bind fun seq ↦
        (order (seq.mergeSort (· ≤ ·))).map fun v ↦ ((), [v]) := by
  have hone : [StackValue.rangeRef r].reverse.foldlM (f.sequenceArg result) [] =
      f.sequenceArg result [] (.rangeRef r) := bind_pure _
  rw [h _ (List.cons_ne_nil _ _), hone, sequenceArg_rangeRef hr]

theorem GoesBy.handle_singleRef (h : f.GoesBy result func order) (hr : r.Inside f.workbook)
    (hperm : cells.Perm r.addresses) :
    f.handle result func (cells.map .singleRef) =
      (gather (fun a ↦ ofExn (f.workbook.readCell result a >>= CellValue.single?))
        (fun seq _ v ↦ seq ++ v.toList) cells.reverse []).bind fun seq ↦
          (order (seq.mergeSort (· ≤ ·))).map fun v ↦ ((), [v]) := by
  rw [h _ (ne_nil_of_perm hr hperm), ← List.map_reverse, foldlM_sequenceArg_singleRef]

/-- Cells without a matrix are read alike one by one. -/
theorem GoesBy.alike (h : f.GoesBy result func order) (hr : r.Inside f.workbook)
    (hperm : cells.Perm r.addresses) (hmatrix : ¬f.HasMatrix result r.addresses) :
    Alike IsException (f.handle result func [.rangeRef r])
      (f.handle result func (cells.map .singleRef)) := by
  have hsingle : gather (fun a ↦ ofExn (f.workbook.readCell result a >>= CellValue.single?))
        (fun (seq : List ℚ) _ v ↦ seq ++ v.toList) cells.reverse [] =
      f.workbook.appendNumbers result cells.reverse [] := by
    refine foldlM_congr (fun seq a ha ↦ ?_) []
    refine congrArg (fun x ↦ (ofExn x).map _) ?_
    cases hread : f.workbook.readCell result a with
    | error e => rfl
    | ok c =>
      have hno : c.isMatrix = false := Bool.eq_false_iff.mpr fun hyes ↦
        hmatrix ⟨a, hperm.mem_iff.mp (List.mem_reverse.mp ha), c, hread, hyes⟩
      show c.single? = .ok c.number?
      rw [CellValue.single?, hno]
      rfl
  have hexception (a : AbsAddress) (e : Failure)
      (h : ofExn ((f.workbook.readCell result a).map CellValue.number?) = .error e) :
      IsException e := isException_of_ofExn h
  have hsorted := alike_gather (fun (seq : List ℚ) (_ : AbsAddress) v ↦ seq ++ v.toList) []
    hexception
    (fun a ↦ (hperm.mem_iff.symm.trans List.mem_reverse.symm : a ∈ r.addresses ↔ a ∈ cells.reverse))
    (fun seq ↦ seq.mergeSort (· ≤ ·)) fun value ↦ by
      rw [foldl_append_toList, foldl_append_toList]
      exact mergeSort_eq_of_perm
        ((hperm.symm.trans cells.reverse_perm.symm).filterMap value)
  rw [h.handle_rangeRef hr, h.handle_singleRef hr hperm, hsingle]
  have hbind (x : Except Failure (List ℚ)) :
      (x.bind fun seq ↦ (order (seq.mergeSort (· ≤ ·))).map fun v ↦ ((), [v])) =
        (x.map fun seq ↦ seq.mergeSort (· ≤ ·)).bind fun sorted ↦
          (order sorted).map fun v ↦ ((), [v]) := by
    cases x <;> rfl
  rw [hbind, hbind]
  exact hsorted.bind _

/-- Both calls fail where a cell cannot be read. -/
theorem GoesBy.alike_of_hasFailure (h : f.GoesBy result func order) (hr : r.Inside f.workbook)
    (hperm : cells.Perm r.addresses) (hfails : f.HasFailure result r.addresses) :
    Alike IsException (f.handle result func [.rangeRef r])
      (f.handle result func (cells.map .singleRef)) := by
  obtain ⟨a, ha, e, he⟩ := hfails
  obtain ⟨e₁, hrange⟩ := Workbook.gather_ofExn_eq_error
    (fun a ↦ (f.workbook.readCell result a).map CellValue.number?)
    (fun (seq : List ℚ) (_ : AbsAddress) v ↦ seq ++ v.toList) ⟨a, ha, e, by rw [he]; rfl⟩ []
  obtain ⟨e₂, hcells⟩ := Workbook.gather_ofExn_eq_error
    (fun a ↦ f.workbook.readCell result a >>= CellValue.single?)
    (fun (seq : List ℚ) (_ : AbsAddress) v ↦ seq ++ v.toList)
    ⟨a, List.mem_reverse.mpr (hperm.mem_iff.mpr ha), e, by rw [he]; rfl⟩ []
  rw [h.handle_rangeRef hr, h.handle_singleRef hr hperm, Workbook.appendNumbers, hrange, hcells]
  exact .inr ⟨⟨_, ⟨e₁, rfl⟩, rfl⟩, _, ⟨e₂, rfl⟩, rfl⟩

/-- Where all cells can be read, the numbers of a range are those in its cells. -/
theorem GoesBy.handle_rangeRef_of_read (h : f.GoesBy result func order) (hr : r.Inside f.workbook)
    (hread : ¬f.HasFailure result r.addresses) :
    f.handle result func [.rangeRef r] =
      (order ((f.numbers result r.addresses).mergeSort (· ≤ ·))).map fun v ↦ ((), [v]) := by
  have hnumber : ∀ a ∈ r.addresses, (f.workbook.readCell result a).map CellValue.number? =
      .ok (match f.workbook.readCell result a with
        | .ok c => c.number?
        | .error _ => none) := by
    intro a ha
    cases hcell : f.workbook.readCell result a with
    | ok c => rfl
    | error e => exact absurd ⟨a, ha, e, hcell⟩ hread
  rw [h.handle_rangeRef hr, Workbook.appendNumbers, Workbook.gather_ofExn_eq_ok hnumber,
    foldl_append_toList]
  rfl

/-- A matrix is not taken from a cell that is referred to alone. -/
theorem GoesBy.isError_of_hasMatrix (h : f.GoesBy result func order) (hr : r.Inside f.workbook)
    (hperm : cells.Perm r.addresses) (hmatrix : f.HasMatrix result r.addresses) :
    IsError (f.call result func (cells.map .singleRef)) := by
  obtain ⟨a, ha, c, hread, hc⟩ := hmatrix
  obtain ⟨e, hcells⟩ := Workbook.gather_ofExn_eq_error
    (fun a ↦ f.workbook.readCell result a >>= CellValue.single?)
    (fun (seq : List ℚ) (_ : AbsAddress) v ↦ seq ++ v.toList)
    ⟨a, List.mem_reverse.mpr (hperm.mem_iff.mpr ha), _, by
      rw [hread]
      exact if_pos hc⟩ []
  refine isError_call ?_ ⟨e, rfl⟩
  rw [h.handle_singleRef hr hperm, hcells]
  rfl

/-- When a function that puts numbers in order has the same outcome for a range and for its
cells. -/
theorem GoesBy.sameOutcome_iff (h : f.GoesBy result func order) (hr : r.Inside f.workbook)
    (horder : ∀ e, order ((f.numbers result r.addresses).mergeSort (· ≤ ·)) = .error e →
      ¬IsException e) :
    (∀ cells : List AbsAddress, cells.Perm r.addresses →
        SameOutcome (f.call result func [.rangeRef r])
          (f.call result func (cells.map .singleRef))) ↔
      f.HasFailure result r.addresses ∨ ¬f.HasMatrix result r.addresses ∨
        ∃ e, order ((f.numbers result r.addresses).mergeSort (· ≤ ·)) = .ok (.error e) := by
  by_cases hfails : f.HasFailure result r.addresses
  · exact iff_of_true
      (fun cells hperm ↦ sameOutcome_of_alike (h.alike_of_hasFailure hr hperm hfails))
      (.inl hfails)
  by_cases hmatrix : f.HasMatrix result r.addresses
  case neg =>
    exact iff_of_true (fun cells hperm ↦ sameOutcome_of_alike (h.alike hr hperm hmatrix))
      (.inr (.inl hmatrix))
  rw [or_iff_right hfails, or_iff_right (not_not.mpr hmatrix)]
  have hrange := h.handle_rangeRef_of_read hr hfails
  constructor
  · intro hsame
    have herror : IsError (f.call result func [.rangeRef r]) := by
      have hcells := h.isError_of_hasMatrix hr (List.Perm.refl _) hmatrix
      rcases hsame r.addresses (List.Perm.refl _) with heq | ⟨hrange, -⟩
      · exact heq ▸ hcells
      · exact hrange
    cases hvalue : order ((f.numbers result r.addresses).mergeSort (· ≤ ·)) with
    | ok v =>
      rw [hvalue] at hrange
      rw [call_of_ok hrange] at herror
      rcases herror with ⟨e, he⟩ | ⟨e, he⟩
      · exact nomatch he
      · exact ⟨e, congrArg Except.ok (List.cons.inj (Except.ok.inj he)).1⟩
    | error e =>
      rw [hvalue] at hrange
      rw [call_of_failure hrange (horder e hvalue)] at herror
      rcases herror with ⟨x, hx⟩ | ⟨x, hx⟩
      · exact absurd ⟨x, Except.error.inj hx⟩ (horder e hvalue)
      · exact nomatch hx
  · rintro ⟨e, he⟩ cells hperm
    rw [he] at hrange
    exact .inr ⟨.inr ⟨e, call_of_ok hrange⟩, h.isError_of_hasMatrix hr hperm hmatrix⟩

end Order

/-- The functions that take ranges and cells for their numbers. -/
def aggregates : List FormulaFunction :=
  [.funcSum, .funcAverage, .funcCount, .funcCounta, .funcMedian, .funcMode]

/-- A function has the same outcome for a range as for its cells in any order, but for MEDIAN and
MODE where a cell has a matrix of which no part is its own: it is passed over in a range, and
alone it makes for an error.  They differ unless there is an error anyway, as a cell cannot be
read or no number is there twice. -/
theorem sameOutcome_range_iff (hfunc : func ∈ aggregates) (hr : r.Inside f.workbook)
    (hnumber : func = .funcMedian ∨ func = .funcMode → f.numbers result r.addresses ≠ []) :
    (∀ cells : List AbsAddress, cells.Perm r.addresses →
        SameOutcome (f.call result func [.rangeRef r])
          (f.call result func (cells.map .singleRef))) ↔
      (func = .funcMedian ∨ func = .funcMode →
        f.HasFailure result r.addresses ∨ ¬f.HasMatrix result r.addresses ∨
          func = .funcMode ∧ (f.numbers result r.addresses).Nodup) := by
  have hperm := List.mergeSort_perm (f.numbers result r.addresses) (· ≤ ·)
  have hother (hne : ¬(func = .funcMedian ∨ func = .funcMode))
      (halike : ∀ cells : List AbsAddress, cells.Perm r.addresses →
        Alike IsException (f.handle result func [.rangeRef r])
          (f.handle result func (cells.map .singleRef))) :=
    iff_of_true (fun cells hperm ↦ sameOutcome_of_alike (halike cells hperm))
      fun h : func = .funcMedian ∨ func = .funcMode ↦ (absurd h hne :
        f.HasFailure result r.addresses ∨ ¬f.HasMatrix result r.addresses ∨
          func = .funcMode ∧ (f.numbers result r.addresses).Nodup)
  simp only [aggregates, List.mem_cons, List.not_mem_nil, or_false] at hfunc
  rcases hfunc with rfl | rfl | rfl | rfl | rfl | rfl
  · exact hother (by decide) fun cells hcells ↦ alike_funcSum hr hcells
  · exact hother (by decide) fun cells hcells ↦ alike_funcAverage hr hcells
  · exact hother (by decide) fun cells hcells ↦ alike_countArgs hr hcells _ _
  · exact hother (by decide) fun cells hcells ↦ alike_countArgs hr hcells _ _
  · have hmedian : f.GoesBy result .funcMedian medianOf := fun args hargs ↦ handle_funcMedian hargs
    have hsorted : (f.numbers result r.addresses).mergeSort (· ≤ ·) ≠ [] := fun hnil ↦
      hnumber (.inl rfl) (List.nil_perm.mp (hnil ▸ hperm))
    obtain ⟨v, hv⟩ := exists_medianOf hsorted
    have hno : ¬∃ e, (Except.ok (.value v) : Except Failure StackValue) = .ok (.error e) := by
      rintro ⟨e, he⟩
      exact nomatch he
    have hno' : ¬(FormulaFunction.funcMedian = .funcMode ∧
        (f.numbers result r.addresses).Nodup) := by
      rintro ⟨h, -⟩
      exact nomatch h
    rw [hmedian.sameOutcome_iff hr (fun e he ↦ nomatch he.symm.trans hv), hv,
      imp_iff_right (.inl rfl), or_iff_left hno, or_iff_left hno']
  · have hmode : f.GoesBy result .funcMode modeOf := fun args hargs ↦ handle_funcMode hargs
    have hpairwise : ((f.numbers result r.addresses).mergeSort (· ≤ ·)).Pairwise (· ≤ ·) :=
      List.pairwise_mergeSort' _ _
    rw [imp_iff_right (.inr rfl), and_iff_right rfl, ← hperm.nodup_iff]
    by_cases hnodup : ((f.numbers result r.addresses).mergeSort (· ≤ ·)).Nodup
    · have hvalue := modeOf_of_nodup hpairwise hnodup
      rw [hmode.sameOutcome_iff hr (fun e he ↦ nomatch he.symm.trans hvalue)]
      exact or_congr_right (or_congr_right (iff_of_true ⟨_, hvalue⟩ hnodup))
    · have hvalue := modeOf_of_not_nodup hpairwise hnodup
      rw [hmode.sameOutcome_iff hr fun e he ↦ ?_]
      · refine or_congr_right (or_congr_right (iff_of_false ?_ hnodup))
        rintro ⟨e, he⟩
        rcases hvalue with hvalue | ⟨v, hvalue⟩
        · exact nomatch he.symm.trans hvalue
        · exact nomatch he.symm.trans hvalue
      · rcases hvalue with hvalue | ⟨v, hvalue⟩
        · obtain rfl := Except.error.inj (he.symm.trans hvalue)
          rintro ⟨x, hx⟩
          exact nomatch hx
        · exact nomatch he.symm.trans hvalue

end Ranges

/-- The number below, as a range. -/
def numberRef : Range := ⟨⟨0, 1, 0, true, true, true⟩, ⟨0, 1, 0, true, true, true⟩⟩

/-- A product of matrices, in a cell of no group. -/
def productCell : FormulaCell :=
  ⟨[.function .funcMmult, .parenOpen, .rangeRef numberRef, .sep, .rangeRef numberRef, .parenClose],
    -1, -1, 0⟩

/-- A workbook with a product of matrices above the number that it is a product of. -/
def productWorkbook : Workbook where
  sheetSize := ⟨10, 10⟩
  sheets := [⟨"one", []⟩]
  namedExpressions := []
  cells a :=
    if a = ⟨0, 0, 0⟩ then .formula productCell else if a = ⟨0, 1, 0⟩ then .numeric 1 else .empty
  strPool := .new
  tableHandler := none

/-- The functions for a cell of this workbook. -/
def productFunctions : FormulaFunctions := plain productWorkbook ⟨0, 5, 5⟩

/-- The result of the product. -/
def productResult (_ : FormulaCell) : Except Exn FormulaResult :=
  .ok (.matrix (.single (.numeric 1)))

/-- The product and the number. -/
def productRange : AbsRange := ⟨⟨0, 0, 0⟩, ⟨0, 1, 0⟩⟩

theorem inside_productRange : productRange.Inside productFunctions.workbook := by
  refine ⟨⟨rfl, ?_, ?_, ?_, ?_, ?_, ?_, ?_⟩, ?_, ?_⟩
  all_goals decide

theorem addresses_productRange : productRange.addresses = [⟨0, 0, 0⟩, ⟨0, 1, 0⟩] := rfl

theorem numbers_productRange :
    productFunctions.numbers productResult productRange.addresses = [1] := rfl

/-- MODE of the product and the number: no number is there twice. -/
theorem sameOutcome_range_iff_product :
    (∀ cells : List AbsAddress, cells.Perm productRange.addresses →
        SameOutcome (productFunctions.call productResult .funcMode [.rangeRef productRange])
          (productFunctions.call productResult .funcMode (cells.map .singleRef))) ↔
      (FormulaFunction.funcMode = .funcMedian ∨ FormulaFunction.funcMode = .funcMode →
        productFunctions.HasFailure productResult productRange.addresses ∨
          ¬productFunctions.HasMatrix productResult productRange.addresses ∨
          FormulaFunction.funcMode = .funcMode ∧
            (productFunctions.numbers productResult productRange.addresses).Nodup) :=
  sameOutcome_range_iff (by decide) inside_productRange fun _ ↦ by
    rw [numbers_productRange]
    exact List.cons_ne_nil _ _

/-- MEDIAN of a range with a product of matrices is a number, and MEDIAN of its cells an error. -/
theorem not_sameOutcome_product :
    FormulaFunction.funcMedian ∈ aggregates ∧ productRange.Inside productFunctions.workbook ∧
      productFunctions.numbers productResult productRange.addresses ≠ [] ∧
      ¬SameOutcome (productFunctions.call productResult .funcMedian [.rangeRef productRange])
        (productFunctions.call productResult .funcMedian
          [.singleRef ⟨0, 0, 0⟩, .singleRef ⟨0, 1, 0⟩]) := by
  have hmedian : productFunctions.GoesBy productResult .funcMedian medianOf :=
    fun args hargs ↦ handle_funcMedian hargs
  have hmatrix : productFunctions.HasMatrix productResult productRange.addresses :=
    ⟨⟨0, 0, 0⟩, List.mem_cons_self, _, rfl, rfl⟩
  have hread : ¬productFunctions.HasFailure productResult productRange.addresses := by
    rw [HasFailure, addresses_productRange]
    rintro ⟨a, ha, e, he⟩
    rcases List.mem_cons.mp ha with rfl | ha
    · exact nomatch he
    · obtain rfl := List.mem_singleton.mp ha
      exact nomatch he
  have hcells := hmedian.isError_of_hasMatrix inside_productRange (List.Perm.refl _) hmatrix
  have hrange : productFunctions.call productResult .funcMedian [.rangeRef productRange] =
      .ok [.value 1] := by
    refine call_of_ok ?_
    rw [hmedian.handle_rangeRef_of_read inside_productRange hread, numbers_productRange,
      List.mergeSort_singleton]
    rfl
  refine ⟨by decide, inside_productRange, numbers_productRange ▸ List.cons_ne_nil _ _, ?_⟩
  have herror : ¬IsError (.ok [.value 1]) := by
    rintro (⟨e, he⟩ | ⟨e, he⟩)
    · exact nomatch he
    · exact nomatch he
  rw [hrange]
  rintro (heq | ⟨hfirst, -⟩)
  · exact herror (heq ▸ hcells)
  · exact herror hfirst

end FormulaFunctions

end Ixion
