import Ixion.Column.Walk
import Ixion.Interp.Functions
import Ixion.Lib.Gather

/-!
# Numbers in cells

A function that is given a reference reads the cells it refers to one by one, in ways that
differ: the cell is read as a number, which a string or an empty cell is read as too, or only the
numbers that there are are taken.  Here is what each of these ways makes of the value of a cell.
-/

namespace Ixion

open Lib

/-! ## Values of cells -/

/-- The part of a result that belongs to a cell at a group position; that there is one is known. -/
def singleResult (row column : Int) (src : FormulaResult) : FormulaResult :=
  if isGroupPos row column then
    match src with
    | .matrix m =>
      if row ≥ m.rowSize ∨ column ≥ m.colSize then .error .invalidValueType
      else elementResult (m.get row.toNat column.toNat)
    | _ => src
  else src

/-- A result that is no matrix is that of each of its cells. -/
theorem singleResult_eq_self {row column : Int} {r : FormulaResult}
    (h : ∀ m, r ≠ .matrix m) : singleResult row column r = r := by
  unfold singleResult
  split
  case isFalse => rfl
  case isTrue =>
    cases r with
    | matrix m => exact absurd rfl (h m)
    | _ => rfl

/-- The element at a group position. -/
theorem Matrix.get?_group {m : Matrix} {row column : Int} (hgroup : isGroupPos row column = true)
    (h : ¬(row ≥ m.rowSize ∨ column ≥ m.colSize)) :
    m.get? row.toNat column.toNat = .ok (m.get row.toNat column.toNat) := by
  obtain ⟨hcol, hrow⟩ := decide_eq_true_eq.mp hgroup
  apply Matrix.get?_of_lt
  · omega
  · omega

theorem getSingleFormulaResult_eq (row column : Int) (src : FormulaResult) :
    getSingleFormulaResult row column src = .ok (singleResult row column src) := by
  unfold getSingleFormulaResult singleResult
  split
  case isFalse => rfl
  case isTrue hgroup =>
    cases src with
    | matrix m =>
      dsimp only
      split
      case isTrue => rfl
      case isFalse h =>
        rw [Matrix.get?_group hgroup h]
        cases m.get row.toNat column.toNat <;> rfl
    | _ => rfl

/-- The number that a result is. -/
def FormulaResult.number? : FormulaResult → Option ℚ
  | .boolean b => some (boolToNumber b)
  | .value v => some v
  | .string _ | .error _ | .matrix _ => none

namespace CellValue

/-- What the cell is read as when a number is wanted. -/
def readNumber : CellValue → Except Exn ℚ
  | .numeric v => .ok v
  | .boolean b => .ok (boolToNumber b)
  | .formula row column res => fetchValueFromResult row column res
  | .string _ | .empty => .ok 0

/-- The number in the cell, if there is one. -/
def number? : CellValue → Option ℚ
  | .numeric v => some v
  | .boolean b => some (boolToNumber b)
  | .formula row column res => (singleResult row column res).number?
  | .string _ | .empty => none

/-- The type that the cell counts by. -/
def valueT? : CellValue → Option ValueT
  | .numeric _ => some .numeric
  | .boolean _ => some .boolean
  | .string _ => some .string
  | .empty => some .empty
  | .formula row column res => (singleResult row column res).valueT?

/-- Whether the cell has a matrix of which no part is its own. -/
def isMatrix : CellValue → Bool
  | .formula row column res =>
    match singleResult row column res with
    | .matrix _ => true
    | _ => false
  | _ => false

/-- The number in a cell that is referred to alone, for which a matrix is not expected. -/
def single? (c : CellValue) : Except Exn (Option ℚ) :=
  if c.isMatrix then
    .error (.logicError "we shouldn't be getting a matrix result type here.")
  else .ok c.number?

/-- Whether the cell has an error. -/
def isError : CellValue → Bool
  | .formula row column res =>
    match singleResult row column res with
    | .error _ => true
    | _ => false
  | _ => false

/-- The number of a result is that of its part. -/
theorem fetchValueFromResult_eq_ok_iff {row column : Int} {res : FormulaResult} {v : ℚ} :
    fetchValueFromResult row column res = .ok v ↔ (formula row column res).number? = some v := by
  have hiff (w : ℚ) : (Except.ok w : Except Exn ℚ) = .ok v ↔ some w = some v :=
    ⟨fun h ↦ congrArg some (Except.ok.inj h), fun h ↦ congrArg Except.ok (Option.some.inj h)⟩
  rw [number?]
  cases res with
  | boolean b =>
    rw [singleResult_eq_self (r := .boolean b) (by rintro _ ⟨⟩)]
    exact hiff _
  | value w =>
    rw [singleResult_eq_self (r := .value w) (by rintro _ ⟨⟩)]
    exact hiff w
  | string s =>
    rw [singleResult_eq_self (r := .string s) (by rintro _ ⟨⟩)]
    exact ⟨fun h ↦ (by cases h), fun h ↦ (by cases h)⟩
  | error e =>
    rw [singleResult_eq_self (r := .error e) (by rintro _ ⟨⟩)]
    exact ⟨fun h ↦ (by cases h), fun h ↦ (by cases h)⟩
  | matrix m =>
    show (groupElement m row column >>= fun e ↦ _) = _ ↔ _
    rw [groupElement]
    unfold singleResult
    by_cases hgroup : isGroupPos row column = true
    · rw [if_pos hgroup]
      dsimp only
      obtain ⟨hcol, hrow⟩ := decide_eq_true_eq.mp hgroup
      by_cases hout : row ≥ m.rowSize ∨ column ≥ m.colSize
      · rw [if_pos hout, if_pos hout]
        exact ⟨fun h ↦ (by cases h), fun h ↦ (by cases h)⟩
      · rw [if_neg hout, if_neg hout, if_neg (by omega), Matrix.get?_group hgroup hout]
        cases m.get row.toNat column.toNat with
        | numeric w => exact hiff w
        | empty => exact hiff 0
        | boolean b => exact hiff _
        | string s => exact ⟨fun h ↦ (by cases h), fun h ↦ (by cases h)⟩
        | error e => exact ⟨fun h ↦ (by cases h), fun h ↦ (by cases h)⟩
    · rw [if_neg hgroup]
      split
      case isTrue => exact ⟨fun h ↦ (by cases h), fun h ↦ (by cases h)⟩
      case isFalse =>
        rw [if_pos (by
          rw [isGroupPos, decide_eq_true_eq] at hgroup
          omega)]
        exact ⟨fun h ↦ (by cases h), fun h ↦ (by cases h)⟩

/-- A cell with a number is read as it. -/
theorem readNumber_of_number? {c : CellValue} {v : ℚ} (h : c.number? = some v) :
    c.readNumber = .ok v := by
  cases c with
  | formula row column res => exact fetchValueFromResult_eq_ok_iff.mpr h
  | numeric w => exact congrArg Except.ok (Option.some.inj h)
  | boolean b => exact congrArg Except.ok (Option.some.inj h)
  | string s => exact nomatch h
  | empty => exact nomatch h

end CellValue

/-! ## Reading cells -/

namespace Workbook

variable {wb : Workbook} {result : FormulaCell → Except Exn FormulaResult} {a : AbsAddress}

/-- The value of a cell, where the results of formula cells are known or throw an exception. -/
def readCell (wb : Workbook) (result : FormulaCell → Except Exn FormulaResult) (a : AbsAddress) :
    Except Exn CellValue := do
  match ← wb.getCell a with
  | .empty => return .empty
  | .boolean b => return .boolean b
  | .numeric v => return .numeric v
  | .string sid => return .string (wb.strPool.getString sid)
  | .formula c => return .formula c.groupRow c.groupColumn (← result c)

/-- The answers to the questions that are asked. -/
def answers (wb : Workbook) (result : FormulaCell → Except Exn FormulaResult) :
    ∀ i : Question, Except Failure i.Answer :=
  wb.answer fun c ↦ ofExn (result c)

theorem run_getCellValue_answers :
    (Reader.getCellValue a).run (wb.answers result) = ofExn (wb.readCell result a) := by
  refine (Query.run_query (Question.cellValue a)).trans ?_
  rw [answers, answer, readCell]
  cases wb.getCell a with
  | error e => rfl
  | ok c =>
    cases c with
    | formula c =>
      show (ofExn (result c) >>= fun r ↦ _) = ofExn (result c >>= fun r ↦ _)
      cases result c <;> rfl
    | _ => rfl

/-- What is done with the value of a cell. -/
theorem run_getCellValue_bind {β : Type} {k : CellValue → Reader β} {g : CellValue → Except Exn β}
    (h : ∀ c, (k c).run (wb.answers result) = ofExn (g c)) :
    (Reader.getCellValue a >>= k).run (wb.answers result) = ofExn (wb.readCell result a >>= g) := by
  rw [Query.run_bind, run_getCellValue_answers]
  cases wb.readCell result a with
  | error e => rfl
  | ok c => exact h c

theorem run_ofExcept {β : Type} (x : Except Exn β) :
    (Reader.ofExcept x).run (wb.answers result) = ofExn x := by
  cases x <;> rfl

/-- A cell is read as a number. -/
theorem run_getNumericValue :
    (Reader.getNumericValue a).run (wb.answers result) =
      ofExn (wb.readCell result a >>= CellValue.readNumber) := by
  refine run_getCellValue_bind fun c ↦ ?_
  cases c with
  | formula row column res => exact run_ofExcept _
  | _ => rfl

/-- What is read of a cell that there is. -/
theorem readCell_of_inWorkbook (h : wb.inWorkbook a = true) :
    wb.readCell result a = match wb.cells a with
      | .empty => .ok .empty
      | .boolean b => .ok (.boolean b)
      | .numeric v => .ok (.numeric v)
      | .string sid => .ok (.string (wb.strPool.getString sid))
      | .formula c => (result c).map (.formula c.groupRow c.groupColumn) := by
  rw [readCell, getCell_of_inWorkbook h]
  cases wb.cells a with
  | formula c =>
    show (result c >>= fun r ↦ _) = (result c).map _
    cases result c <;> rfl
  | _ => rfl

/-- A cell that there is not is not read. -/
theorem readCell_of_outside (h : wb.inWorkbook a = false) :
    wb.readCell result a = .error .outOfRange := by
  rw [readCell, getCell_of_not_inWorkbook h]
  rfl

/-- The result of a formula cell is read for the part that is its own. -/
theorem run_getFormulaResult {c : FormulaCell} (h : wb.inWorkbook a = true)
    (hc : wb.cells a = .formula c) :
    (Reader.getFormulaResult a).run (wb.answers result) =
      ofExn ((result c).map (singleResult c.groupRow c.groupColumn)) := by
  rw [Reader.getFormulaResult, Query.run_bind, run_getCellValue_answers,
    readCell_of_inWorkbook h, hc]
  show (ofExn ((result c).map _) >>= fun v ↦ _) = _
  cases result c with
  | error e => rfl
  | ok r =>
    show (Reader.ofExcept (getSingleFormulaResult c.groupRow c.groupColumn r)).run _ = _
    rw [getSingleFormulaResult_eq]
    rfl

/-- A cell counts by the type of its value. -/
theorem run_countCell (h : wb.inWorkbook a = true) (values : Values) (ret : ℚ) :
    (countCell values ret a).run (wb.answers result) =
      ofExn ((wb.readCell result a).map fun c ↦
        if c.valueT?.any values.has then ret + 1 else ret) := by
  rw [countCell, Query.run_bind, cellValueT, Query.run_bind, answers, run_getCellType h, ← answers,
    readCell_of_inWorkbook h]
  cases hc : wb.cells a with
  | formula c =>
    show ((Reader.getFormulaResult a >>= fun r ↦ _).run _ >>= fun t ↦ _) = _
    rw [Query.run_bind, run_getFormulaResult h hc]
    dsimp only
    cases result c <;> rfl
  | _ => rfl

/-- The number that a cell adds to a sequence. -/
theorem run_blockNumber (h : wb.inWorkbook a = true) :
    (FormulaFunctions.blockNumber (wb.cells a).type a).run (wb.answers result) =
      ofExn ((wb.readCell result a).map CellValue.number?) := by
  cases hc : wb.cells a with
  | formula c =>
    show (Reader.getFormulaResult a >>= fun r ↦ _).run _ = _
    rw [Query.run_bind, run_getFormulaResult h hc, readCell_of_inWorkbook h, hc]
    dsimp only
    cases result c with
    | error e => rfl
    | ok r =>
      show Query.run _ _ = .ok (singleResult c.groupRow c.groupColumn r).number?
      cases singleResult c.groupRow c.groupColumn r <;> rfl
  | boolean b =>
    show (Reader.getBooleanValue a >>= fun b ↦ _).run _ = _
    rw [Query.run_bind, Reader.getBooleanValue, Query.run_bind, run_getCellValue_answers,
      readCell_of_inWorkbook h, hc]
    rfl
  | numeric v =>
    show (Reader.getNumericValue a >>= fun v ↦ _).run _ = _
    rw [Query.run_bind, run_getNumericValue, readCell_of_inWorkbook h, hc]
    rfl
  | string sid =>
    rw [readCell_of_inWorkbook h, hc]
    rfl
  | empty =>
    rw [readCell_of_inWorkbook h, hc]
    rfl

/-- The number in a cell that is referred to alone. -/
def singleNumber (seq : List ℚ) (a : AbsAddress) : Reader (List ℚ) := do
  match ← Reader.getCellValueType a with
  | .boolean => return seq ++ [boolToNumber (← Reader.getBooleanValue a)]
  | .numeric => return seq ++ [← Reader.getNumericValue a]
  | _ => return seq

/-- The number in a cell that is referred to alone is the same as in a range, but for a matrix. -/
theorem run_singleNumber (seq : List ℚ) :
    (singleNumber seq a).run (wb.answers result) =
      ofExn ((wb.readCell result a >>= CellValue.single?).map fun v ↦ seq ++ v.toList) := by
  have hvalue : (Reader.getCellValue a).run (wb.answers result) = ofExn (wb.readCell result a) :=
    run_getCellValue_answers
  have hnumber : (Reader.getNumericValue a).run (wb.answers result) =
      ofExn (wb.readCell result a >>= CellValue.readNumber) := run_getNumericValue
  rw [singleNumber, Query.run_bind, Reader.getCellValueType, Query.run_bind, hvalue]
  cases hc : wb.readCell result a with
  | error e => rfl
  | ok c =>
    rw [hc] at hvalue hnumber
    cases c with
    | empty => exact congrArg Except.ok (List.append_nil seq).symm
    | string s => exact congrArg Except.ok (List.append_nil seq).symm
    | boolean b =>
      show (Reader.getBooleanValue a >>= fun b ↦ _).run _ = _
      rw [Query.run_bind, Reader.getBooleanValue, Query.run_bind, hvalue]
      rfl
    | numeric v =>
      show (Reader.getNumericValue a >>= fun v ↦ _).run _ = _
      rw [Query.run_bind, hnumber]
      rfl
    | formula row column res =>
      show ((Reader.ofExcept (getSingleFormulaResult row column res) >>= fun r ↦ _).run _ >>=
        fun t ↦ _) = ofExn ((CellValue.single? _).map _)
      rw [getSingleFormulaResult_eq, CellValue.single?, CellValue.isMatrix, CellValue.number?]
      cases hsingle : singleResult row column res with
      | string s => exact congrArg Except.ok (List.append_nil seq).symm
      | error e => exact congrArg Except.ok (List.append_nil seq).symm
      | matrix m => rfl
      | boolean b =>
        have hfetch : fetchValueFromResult row column res = .ok (boolToNumber b) :=
          CellValue.fetchValueFromResult_eq_ok_iff.mpr (by rw [CellValue.number?, hsingle]; rfl)
        show (Reader.getBooleanValue a >>= fun b ↦ _).run _ = _
        rw [Query.run_bind, Reader.getBooleanValue, Query.run_bind, hvalue]
        show ((Reader.ofExcept (fetchValueFromResult row column res) >>= fun v ↦ _).run _ >>=
          fun b ↦ _) = _
        rw [hfetch]
        cases b <;> rfl
      | value v =>
        have hfetch : fetchValueFromResult row column res = .ok v :=
          CellValue.fetchValueFromResult_eq_ok_iff.mpr (by rw [CellValue.number?, hsingle]; rfl)
        show (Reader.getNumericValue a >>= fun v ↦ _).run _ = _
        rw [Query.run_bind, hnumber]
        show (ofExn (fetchValueFromResult row column res) >>= fun v ↦ _) = _
        rw [hfetch]
        rfl

end Workbook

end Ixion
