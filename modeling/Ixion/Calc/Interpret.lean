import Ixion.Calc.Check
import Ixion.Lib.Query

/-!
# Interpreting cells

The interpretation of a formula cell reads other cells: it asks for the type or for
the value of the cell at an address, and goes on with the answer.  What is done with
the answers is the business of an `Evaluator`; here is how the answers are obtained
and where the result is stored.

The value of a formula cell is its result, and whoever asks for it waits until there
is one.  A cell whose own result, or that of its group, is being calculated is locked
meanwhile.
-/

namespace Ixion

open Lib

/-! ## What an interpretation reads -/

/-- The types of cells. -/
inductive CellType where
  | empty
  | boolean
  | numeric
  | string
  | formula
deriving DecidableEq, Repr

/-- The type of a cell. -/
def Cell.type : Cell → CellType
  | .empty => .empty
  | .boolean _ => .boolean
  | .numeric _ => .numeric
  | .string _ => .string
  | .formula _ => .formula

/-- The value of a cell.  A formula cell also tells its position in its group, which
decides on the part of a matrix that is its own. -/
inductive CellValue where
  | empty
  | boolean (b : Bool)
  | numeric (v : ℚ)
  | string (s : Option Text)
  | formula (groupRow groupColumn : Int) (result : FormulaResult)
deriving DecidableEq

/-- The questions an interpretation asks. -/
inductive Question where
  | cellType (addr : AbsAddress)
  | cellValue (addr : AbsAddress)
deriving DecidableEq

namespace Question

/-- The cell that is asked about. -/
def addr : Question → AbsAddress
  | cellType a => a
  | cellValue a => a

/-- The answers to a question. -/
def Answer : Question → Type
  | cellType _ => CellType
  | cellValue _ => CellValue

end Question

/-- A computation that reads cells. -/
abbrev Reader (α : Type) : Type := Query Question.Answer Failure α

/-- Asks only about cells with a property. -/
abbrev Reader.Reads {α : Type} (P : AbsAddress → Prop) (r : Reader α) : Prop :=
  r.Asks fun i ↦ P i.addr

/-- How formula cells are evaluated: what is read, and the result that comes of it. -/
abbrev Evaluator : Type := Workbook → FormulaCell → AbsAddress → Reader FormulaResult

namespace Workbook

/-- The value of a cell, given how the results of formula cells are obtained. -/
def valueOf (wb : Workbook) (result : FormulaCell → Except Failure FormulaResult) :
    Cell → Except Failure CellValue
  | .empty => return .empty
  | .boolean b => return .boolean b
  | .numeric v => return .numeric v
  | .string sid => return .string (wb.strPool.getString sid)
  | .formula c => return .formula c.groupRow c.groupColumn (← result c)

/-- The answer to a question.  There is none for a cell outside the workbook. -/
def answer (wb : Workbook) (result : FormulaCell → Except Failure FormulaResult) :
    ∀ i : Question, Except Failure i.Answer
  | .cellType a =>
    match wb.getCell a with
    | .ok c => .ok c.type
    | .error e => .error (.exception e)
  | .cellValue a =>
    match wb.getCell a with
    | .ok c => wb.valueOf result c
    | .error e => .error (.exception e)

end Workbook

namespace ModelContext

open Workbook

variable {S T : Type}

/-- The result of a formula cell, as the interpretation of a cell with the given
status finds it. -/
def fetchResult (cxt : ModelContext S T) (status : Nat) (c : FormulaCell) :
    Except Failure FormulaResult :=
  if c.status = status then .error .deadlock
  else
    match (cxt.statusOf c).result with
    | some r => .ok r
    | none => .error .wait

/-! ## Calculating a list of cells -/

/-- Interpret a formula cell at a position.  A cell that has a result already is left
alone; while a cell is interpreted its result is 0. -/
def interpret (ev : Evaluator) (cell : FormulaCell) (pos : AbsAddress) :
    Exec (ModelContext S T) Unit := do
  if !cell.calcAllowed then
    throwExn (.logicError "Calculation on this formula cell is not allowed.")
  let cxt ← get
  if (cxt.statusOf cell).result.isSome then return ()
  set (cxt.setStatus cell { cxt.statusOf cell with result := some .new })
  let result ← liftFailure
    ((ev cxt.toWorkbook cell pos).run (cxt.answer (cxt.fetchResult cell.status)))
  modify fun cxt ↦ cxt.setStatus cell { cxt.statusOf cell with result := some result }

/-- Interpret the cells of a list of entries. -/
def interpretEntries (ev : Evaluator) (entries : List QueueEntry) :
    Exec (ModelContext S T) Unit :=
  entries.forM fun e ↦ do interpret ev (← deref e.p) e.pos

/-- Calculate a list of formula cells on one thread. -/
def calculateSortedCells (ev : Evaluator) (formulaCells : List AbsRange) :
    Exec (ModelContext S T) Unit := do
  let entries ← prepare formulaCells
  interpretEntries ev entries

/-! ## What an interpretation does -/

/-- The result that the evaluation of a visited cell comes to. -/
def evaluate (ev : Evaluator) (x : Visit) (cxt : ModelContext S T) :
    Except Failure FormulaResult :=
  (ev cxt.toWorkbook x.cell x.pos).run (cxt.answer (cxt.fetchResult x.key))

/-- The context with a result for a visited cell. -/
def withResult (cxt : ModelContext S T) (x : Visit) (r : FormulaResult) : ModelContext S T :=
  cxt.setStatus x.cell { cxt.statusOf x.cell with result := some r }

@[simp] theorem withResult_toWorkbook (cxt : ModelContext S T) (x : Visit) (r : FormulaResult) :
    (cxt.withResult x r).toWorkbook = cxt.toWorkbook := rfl

theorem withResult_withResult (cxt : ModelContext S T) (x : Visit) (r r' : FormulaResult) :
    (cxt.withResult x r).withResult x r' = cxt.withResult x r' := by
  simp [withResult, setStatus, statusOf]

/-- What interpreting a visited cell does. -/
inductive Interpreted (ev : Evaluator) (x : Visit) (cxt : ModelContext S T) :
    ModelContext S T → Prop where
  | cached : (cxt.statuses x.key).result.isSome = true → Interpreted ev x cxt cxt
  | evaluated {r : FormulaResult} : (cxt.statuses x.key).result = none →
    cxt.evaluate ev x = .ok r → Interpreted ev x cxt (cxt.withResult x r)

/-- Why and how interpreting a visited cell fails: it must not be calculated, or its
evaluation fails, and leaves the result that was put in its place. -/
inductive InterpretFails (ev : Evaluator) (x : Visit) (cxt : ModelContext S T) :
    Failure → ModelContext S T → Prop where
  | notAllowed : x.cell.calcAllowed = false → InterpretFails ev x cxt
    (.exception (.logicError "Calculation on this formula cell is not allowed.")) cxt
  | evaluation {e : Failure} : x.cell.calcAllowed = true → (cxt.statuses x.key).result = none →
    cxt.evaluate ev x = .error e → InterpretFails ev x cxt e (cxt.withResult x .new)

theorem wp_interpret (ev : Evaluator) (x : Visit) (cxt : ModelContext S T) :
    wp (interpret ev x.cell x.pos)
      (fun _ cxt' ↦ x.cell.calcAllowed = true ∧ Interpreted ev x cxt cxt')
      (InterpretFails ev x cxt) cxt := by
  rw [interpret]
  cases hallowed : x.cell.calcAllowed with
  | false => exact .notAllowed hallowed
  | true =>
    simp only [Bool.not_true, Bool.false_eq_true, if_false, wp_bind, wp_get]
    cases hresult : (cxt.statusOf x.cell).result with
    | some r =>
      refine ⟨trivial, .cached ?_⟩
      rw [show cxt.statuses x.key = cxt.statusOf x.cell from rfl, hresult]
      rfl
    | none =>
      simp only [Option.isSome_none, Bool.false_eq_true, if_false, wp_bind, wp_set]
      cases hev : cxt.evaluate ev x with
      | error e =>
        rw [evaluate] at hev
        rw [show x.cell.status = x.key from rfl, hev]
        exact .evaluation hallowed hresult hev
      | ok r =>
        have hrun := hev
        rw [evaluate] at hrun
        rw [show x.cell.status = x.key from rfl, hrun]
        refine ⟨trivial, ?_⟩
        have hset := Interpreted.evaluated hresult hev
        rw [← withResult_withResult cxt x .new] at hset
        exact hset

/-! ## A calculation changes nothing but statuses -/

/-- Only the statuses have changed. -/
def OnlyStatuses (cxt cxt' : ModelContext S T) : Prop := cxt' = cxt.withStatuses cxt'.statuses

instance : Std.Refl (OnlyStatuses (S := S) (T := T)) := ⟨fun _ ↦ rfl⟩

instance : IsTrans (ModelContext S T) OnlyStatuses where
  trans cxt cxt' cxt'' h h' := by
    rw [OnlyStatuses, h', h]
    rfl

theorem respects_setStatus (f : ModelContext S T → FormulaCell × CalcStatus) :
    Respects OnlyStatuses (modify fun cxt ↦ cxt.setStatus (f cxt).1 (f cxt).2 :
      Exec (ModelContext S T) Unit) :=
  fun _ ↦ rfl

theorem respects_liftExcept {α : Type} (x : Except Exn α) :
    Respects OnlyStatuses (liftExcept x : Exec (ModelContext S T) α) := by
  cases x with
  | ok a => exact respects_pure a
  | error e => exact respects_throw _

theorem respects_deref (p : Option FormulaCell) :
    Respects OnlyStatuses (deref p : Exec (ModelContext S T) FormulaCell) := by
  cases p with
  | some cell => exact respects_pure cell
  | none => exact respects_throw _

theorem respects_checkCells (cell : FormulaCell) (l : List AbsAddress) :
    Respects OnlyStatuses (checkCells cell l : Exec (ModelContext S T) Unit) := by
  induction l with
  | nil =>
    rw [checkCells]
    exact respects_setStatus fun cxt ↦ (cell, { cxt.statusOf cell with circularSafe := true })
  | cons a l ih =>
    rw [checkCells]
    refine respects_get.bind fun cxt ↦ (respects_liftExcept _).bind fun p ↦ ?_
    cases p with
    | none => exact ih
    | some ref =>
      have hcheck : Respects OnlyStatuses (checkRefForCircularSafety cell ref :
          Exec (ModelContext S T) Bool) := by
        intro cxt
        simp only [checkRefForCircularSafety, wp_bind, wp_get]
        cases (cxt.statusOf ref).circularSafe <;> rfl
      refine hcheck.bind fun b ↦ ?_
      cases b with
      | false => exact respects_pure _
      | true => exact ih

theorem respects_interpret (ev : Evaluator) (cell : FormulaCell) (pos : AbsAddress) :
    Respects OnlyStatuses (interpret ev cell pos : Exec (ModelContext S T) Unit) := by
  intro cxt
  refine (wp_interpret ev ⟨cell, pos⟩ cxt).mono ?_ ?_
  · rintro _ _ ⟨_, _ | _⟩ <;> rfl
  · rintro _ _ (_ | _) <;> rfl

/-- Whether it returns or fails, a calculation changes nothing but statuses. -/
theorem respects_calculateSortedCells (ev : Evaluator) (formulaCells : List AbsRange) :
    Respects OnlyStatuses
    (calculateSortedCells ev formulaCells : Exec (ModelContext S T) Unit) := by
  refine Respects.bind ?_ fun entries ↦ ?_
  · refine respects_get.bind fun cxt ↦ (respects_liftExcept _).bind fun entries ↦ ?_
    refine (respects_forM fun q _ ↦ (respects_deref q.p).bind fun cell ↦ ?_).bind fun _ ↦
      (respects_forM fun q _ ↦ (respects_deref q.p).bind fun cell ↦ ?_).bind fun _ ↦
        respects_pure entries
    · exact respects_setStatus fun cxt ↦
        (cell, { cxt.statusOf cell with result := none, circularSafe := false })
    · exact respects_get.bind fun cxt ↦ respects_checkCells cell _
  · exact respects_forM fun q _ ↦ (respects_deref q.p).bind fun cell ↦
      respects_interpret ev cell q.pos

end ModelContext

end Ixion
