import Ixion.Register
import Ixion.Resolver.View.ExcelR1C1
import Ixion.Resolver.View.Odff

/-!
# Name resolution looks only at the name

A resolver reads nothing but the characters of a name exactly when the text of the name
meets the condition of its syntax.
-/

namespace Ixion

open Lib

/-- When resolving stays inside a name. -/
def StaysInside (type : FormulaNameResolverType) (cxt : Option Workbook) (pos : AbsAddress)
    (s : List Char) : Prop :=
  match type with
  | .excelA1 => StaysInsideExcelA1 cxt pos s
  | .excelR1C1 => StaysInsideExcelR1C1 cxt pos s
  | .calcA1 => StaysInsideDotA1 parseAddressCalcA1 beginsAddressA1 cxt pos s
  | .odff => StaysInsideOdff cxt pos s
  | .odfCra =>
    StaysInsideDotA1 parseAddressOdfCra (fun c ↦ beginsAddressA1 c || c = '.') cxt pos s

/-- The name `ab`, followed by some characters. -/
def viewAb (s : List Char) : View := ⟨fun a ↦ ('a' :: 'b' :: s).getD a ' ', 0, 2⟩

end Ixion
