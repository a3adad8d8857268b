import Ixion.Interp.Value

/-!
# Answers from a workbook

What is read from a cell of a workbook, given how the results of formula cells are obtained.
-/

namespace Ixion

open Lib

namespace Workbook

variable {wb : Workbook} {result : FormulaCell → Except Failure FormulaResult} {a : AbsAddress}

/-- The type of a cell. -/
theorem run_getCellType (h : wb.inWorkbook a = true) :
    (Reader.getCellType a).run (wb.answer result) = .ok (wb.cells a).type := by
  refine (Query.run_query (Question.cellType a)).trans ?_
  rw [answer, getCell_of_inWorkbook h]
  rfl

/-- The value of a cell. -/
theorem run_getCellValue (h : wb.inWorkbook a = true) :
    (Reader.getCellValue a).run (wb.answer result) = wb.valueOf result (wb.cells a) := by
  refine (Query.run_query (Question.cellValue a)).trans ?_
  rw [answer, getCell_of_inWorkbook h]

end Workbook

end Ixion
