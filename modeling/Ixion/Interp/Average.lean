import Ixion.Interp.Aggregates

/-!
# Averages

AVERAGE of a range is to be the sum of the numbers in it, divided by how many there are.  It takes
the numbers from the same matrix as SUM, in which a cell without a number is a zero, and COUNT goes
through the cells themselves; so a cell without a number makes a difference, unless the sum is
zero.
-/

namespace Ixion

open Lib ValueStack

/-! ## Ranges of cells that there are -/

namespace AbsRange

variable {r : AbsRange} {wb : Workbook}

/-- A range of cells that there are lies in a sheet. -/
theorem inSheet_of_addresses (hsingle : r.first.sheet = r.last.sheet) (hne : r.addresses ≠ [])
    (h : ∀ a ∈ r.addresses, wb.inWorkbook a = true) : r.InSheet wb := by
  obtain ⟨a, ha⟩ := List.exists_mem_of_ne_nil r.addresses hne
  rw [mem_addresses, contains_iff] at ha
  obtain ⟨h₁, h₂, h₃, h₄, h₅, h₆⟩ := ha
  have hrow := h₃.trans h₄
  have hcol := h₅.trans h₆
  have hfirst := h r.first (mem_addresses.mpr (contains_iff.mpr
    ⟨Int.le_refl _, hsingle.le, Int.le_refl _, hrow, Int.le_refl _, hcol⟩))
  have hlast := h r.last (mem_addresses.mpr (contains_iff.mpr
    ⟨hsingle.le, Int.le_refl _, hrow, Int.le_refl _, hcol, Int.le_refl _⟩))
  obtain ⟨hs, hs', hc, -, hr, -⟩ := decide_eq_true_eq.mp hfirst
  obtain ⟨-, -, -, hc', -, hr'⟩ := decide_eq_true_eq.mp hlast
  exact ⟨hsingle, ⟨hs, hs'⟩, hr, hrow, hr', hc, hcol, hc'⟩

/-- The rows that are counted are in the sheet. -/
theorem InSheet.rows_clipRange (hvalid : r.valid = true)
    (h : (r.fillUnset wb.sheetSize).InSheet wb) :
    0 ≤ (Workbook.clipRange r wb.sheetSize).first.row ∧
      (Workbook.clipRange r wb.sheetSize).first.row ≤
        (Workbook.clipRange r wb.sheetSize).last.row ∧
      (Workbook.clipRange r wb.sheetSize).last.row < wb.sheetSize.row := by
  obtain ⟨hfirst, hlast, -, hrows, -⟩ := valid_iff.mp hvalid
  obtain ⟨-, hnonneg, -, -, -⟩ := decide_eq_true_eq.mp hfirst
  obtain ⟨-, -, -, hle, -⟩ := decide_eq_true_eq.mp hlast
  have hrow := h.row_le
  have hrow' := h.row_lt
  rw [Workbook.clipRange]
  by_cases hunset : r.first.row = rowUnset
  · have hunset' : r.last.row = rowUnset := le_antisymm hle (hunset ▸ hrows)
    rw [fillUnset, allRows, decide_eq_true ⟨hunset, hunset'⟩] at hrow
    rw [if_pos hunset, if_pos hunset']
    exact ⟨Int.le_refl 0, hrow, Int.sub_one_lt_of_le (Int.le_refl _)⟩
  · have hall : r.allRows = false := decide_eq_false fun hall ↦ hunset hall.1
    rw [fillUnset, hall] at hrow hrow'
    rw [if_neg hunset]
    split
    · exact ⟨hnonneg, Int.le_sub_one_of_lt (Int.lt_of_le_of_lt hrow hrow'),
        Int.sub_one_lt_of_le (Int.le_refl _)⟩
    · exact ⟨hnonneg, hrow, hrow'⟩

/-- The columns that are counted are in the sheet, if they are set. -/
theorem InSheet.columns_clipRange (hvalid : r.valid = true)
    (h : (r.fillUnset wb.sheetSize).InSheet wb)
    (hcols : r.allColumns = true → columnUnset < wb.sheetSize.column) :
    0 ≤ r.first.column ∧ r.first.column ≤ r.last.column ∧
      r.last.column < wb.sheetSize.column := by
  obtain ⟨hfirst, -, -, -, hcolumns⟩ := valid_iff.mp hvalid
  obtain ⟨-, -, hnonneg, -, -⟩ := decide_eq_true_eq.mp hfirst
  have hcol := h.column_lt
  cases hall : r.allColumns with
  | true => exact ⟨hnonneg, hcolumns, (decide_eq_true_eq.mp hall).2 ▸ hcols hall⟩
  | false =>
    rw [fillUnset, hall] at hcol
    exact ⟨hnonneg, hcolumns, hcol⟩

/-- A range is counted in a sheet, as far as its columns are set. -/
theorem InSheet.clipRange (hvalid : r.valid = true) (h : (r.fillUnset wb.sheetSize).InSheet wb)
    (hcols : r.allColumns = true → columnUnset < wb.sheetSize.column) :
    (Workbook.clipRange r wb.sheetSize).InSheet wb := by
  obtain ⟨hrow, hrow', hrow''⟩ := InSheet.rows_clipRange hvalid h
  obtain ⟨hcol, hcol', hcol''⟩ := InSheet.columns_clipRange hvalid h hcols
  refine ⟨?_, ?_, hrow, hrow', hrow'', ?_, ?_, ?_⟩
  · rw [ModelContext.first_sheet_clipRange, ModelContext.last_sheet_clipRange]
    exact h.single
  · rw [ModelContext.first_sheet_clipRange]
    exact h.sheet
  · rw [ModelContext.first_column_clipRange]
    exact hcol
  · rw [ModelContext.first_column_clipRange, ModelContext.last_column_clipRange]
    exact hcol'
  · rw [ModelContext.last_column_clipRange]
    exact hcol''

end AbsRange

/-! ## Numbers of cells -/

namespace CellValue

/-- A cell that can be read as a number has this number, or none and is read as zero. -/
theorem number?_of_readNumber {c : CellValue} {v : ℚ} (h : c.readNumber = .ok v) :
    c.number?.getD 0 = v := by
  cases c with
  | formula row column res =>
    rw [fetchValueFromResult_eq_ok_iff.mp h]
    rfl
  | _ => exact Except.ok.inj h

/-- The cells that have a number count as such. -/
theorem countCellValue_numeric (c : CellValue) :
    Workbook.countCellValue (ValueT.numeric.bits ||| ValueT.boolean.bits) c =
      if c.number?.isSome then 1 else 0 := by
  rw [Workbook.countCellValue]
  cases c with
  | formula row column res =>
    rw [valueT?, number?]
    cases singleResult row column res <;> rfl
  | _ => rfl

end CellValue

namespace FormulaFunctions

variable {f : FormulaFunctions} {result : FormulaCell → Except Exn FormulaResult}
  {func : FormulaFunction} {args : List StackValue} {r : AbsRange}

/-- What is read of cells adds up to the numbers in them. -/
theorem sum_numbers {l : List AbsAddress} {number : AbsAddress → ℚ}
    (h : ∀ a ∈ l, f.workbook.readNumber result a = .ok (number a)) :
    (l.map number).sum = (f.numbers result l).sum := by
  induction l with
  | nil => rfl
  | cons a l ih =>
    have hread := h a List.mem_cons_self
    rw [Workbook.readNumber] at hread
    rw [List.map_cons, List.sum_cons, ih fun a' ha' ↦ h a' (List.mem_cons_of_mem a ha'), numbers,
      numbers, List.filterMap_cons]
    cases hc : f.workbook.readCell result a with
    | error e =>
      rw [hc] at hread
      exact nomatch hread
    | ok c =>
      rw [hc] at hread
      rw [← CellValue.number?_of_readNumber hread]
      dsimp only
      cases c.number? with
      | none => exact zero_add _
      | some v => exact List.sum_cons.symm

/-- The numbers in cells are counted. -/
theorem sum_counts {l : List AbsAddress} {count : AbsAddress → ℚ}
    (h : ∀ a ∈ l, f.workbook.readCount result (ValueT.numeric.bits ||| ValueT.boolean.bits) a =
      .ok (count a)) :
    (l.map count).sum = (f.numbers result l).length := by
  induction l with
  | nil => rfl
  | cons a l ih =>
    have hread := h a List.mem_cons_self
    rw [Workbook.readCount] at hread
    rw [List.map_cons, List.sum_cons, ih fun a' ha' ↦ h a' (List.mem_cons_of_mem a ha'), numbers,
      numbers, List.filterMap_cons]
    cases hc : f.workbook.readCell result a with
    | error e =>
      rw [hc] at hread
      cases hread
    | ok c =>
      rw [hc] at hread
      have hcount : Workbook.countCellValue _ c = count a := Except.ok.inj hread
      rw [← hcount, CellValue.countCellValue_numeric]
      dsimp only
      cases c.number? with
      | none => exact zero_add _
      | some v =>
        rw [List.length_cons, Nat.cast_succ]
        exact add_comm _ _

/-! ## The functions -/

theorem value_inj {x y : ℚ} (h : (Except.ok ((), [.value x]) : Except Failure (Unit × ValueStack)) =
    .ok ((), [.value y])) : x = y :=
  StackValue.value.inj (List.cons.inj (Prod.mk.inj (Except.ok.inj h)).2).1

/-- SUM of a range. -/
theorem handle_funcSum_rangeRef :
    f.handle result .funcSum [.rangeRef r] =
      (f.sumArg result 0 (.rangeRef r)).map fun sum ↦ ((), [.value sum]) := by
  rw [handle_funcSum (List.cons_ne_nil _ _)]
  exact congrArg (Except.map _) (bind_pure (f.sumArg result 0 (.rangeRef r)))

/-- The numbers of a range are added up. -/
theorem sumArg_rangeRef (hsheet : r.first.sheet = r.last.sheet) (hvalid : r.valid = true)
    (h : ∀ a ∈ (r.fillUnset f.workbook.sheetSize).addresses,
      ∃ v, f.workbook.readNumber result a = .ok v) :
    f.sumArg result 0 (.rangeRef r) =
      .ok (f.numbers result (r.fillUnset f.workbook.sheetSize).addresses).sum := by
  choose! number hnumber using h
  have hfill : (r.fillUnset f.workbook.sheetSize).first.sheet =
      (r.fillUnset f.workbook.sheetSize).last.sheet := hsheet
  obtain ⟨m, hrun, hm⟩ := Workbook.exists_run_rangeMatrix hfill hnumber
  rw [sumArg, Workbook.getRangeValue_eq hsheet hvalid, hrun]
  show (ofExn (sumMatrixElements m)).map _ = _
  rw [hm.sum, Workbook.sum_positions hfill, sum_numbers hnumber]
  exact congrArg Except.ok (zero_add _)

/-- SUM of a range of cells that can be read as numbers. -/
theorem handle_funcSum_of_read (hsheet : r.first.sheet = r.last.sheet) (hvalid : r.valid = true)
    (h : ∀ a ∈ (r.fillUnset f.workbook.sheetSize).addresses,
      ∃ v, f.workbook.readNumber result a = .ok v) :
    f.handle result .funcSum [.rangeRef r] =
      .ok ((), [.value (f.numbers result (r.fillUnset f.workbook.sheetSize).addresses).sum]) := by
  rw [handle_funcSum_rangeRef, sumArg_rangeRef hsheet hvalid h]
  rfl

/-- A range of which the numbers are added up is valid, and they can be read. -/
theorem of_sumArg_rangeRef (hsheet : r.first.sheet = r.last.sheet) {sum : ℚ}
    (h : f.sumArg result 0 (.rangeRef r) = .ok sum) :
    r.valid = true ∧ ∀ a ∈ (r.fillUnset f.workbook.sheetSize).addresses,
      ∃ v, f.workbook.readNumber result a = .ok v := by
  rw [sumArg] at h
  have hvalid : r.valid = true := by
    by_contra hvalid
    rw [Workbook.answers, Workbook.getRangeValue_of_not_valid hsheet
      (Bool.eq_false_iff.mpr hvalid)] at h
    cases h
  refine ⟨hvalid, fun a ha ↦ ?_⟩
  cases hread : f.workbook.readNumber result a with
  | ok v => exact ⟨v, rfl⟩
  | error e =>
    have hfill : (r.fillUnset f.workbook.sheetSize).first.sheet =
        (r.fillUnset f.workbook.sheetSize).last.sheet := hsheet
    obtain ⟨e', hrun⟩ := Workbook.run_rangeMatrix_of_error hfill ⟨a, ha, e, hread⟩
    rw [Workbook.getRangeValue_eq hsheet hvalid, hrun] at h
    cases h

/-- AVERAGE of a range of cells that can be read as numbers. -/
theorem handle_funcAverage_rangeRef (hsheet : r.first.sheet = r.last.sheet)
    (hvalid : r.valid = true)
    (h : ∀ a ∈ (r.fillUnset f.workbook.sheetSize).addresses,
      ∃ v, f.workbook.readNumber result a = .ok v) :
    f.handle result .funcAverage [.rangeRef r] =
      .ok ((), [.value ((f.numbers result (r.fillUnset f.workbook.sheetSize).addresses).sum /
        (r.fillUnset f.workbook.sheetSize).addresses.length)]) := by
  choose! number hnumber using h
  have hfill : (r.fillUnset f.workbook.sheetSize).first.sheet =
      (r.fillUnset f.workbook.sheetSize).last.sheet := hsheet
  obtain ⟨m, hrun, hm⟩ := Workbook.exists_run_rangeMatrix hfill hnumber
  have hone : [StackValue.rangeRef r].reverse.foldlM (f.averageArg result) (0, 0) =
      f.averageArg result (0, 0) (.rangeRef r) := bind_pure _
  rw [handle_funcAverage (List.cons_ne_nil _ _), hone, averageArg,
    Workbook.getRangeValue_eq hsheet hvalid, hrun]
  show (ofExn (averageMatrix m 0 0)).map _ = _
  rw [hm.average, Workbook.sum_positions hfill, Workbook.length_positions hfill,
    sum_numbers hnumber, zero_add, zero_add]
  rfl

/-- COUNT of a range. -/
theorem handle_funcCount_rangeRef :
    f.handle result .funcCount [.rangeRef r] =
      ((f.workbook.countRange r (ValueT.numeric.bits ||| ValueT.boolean.bits)).run
        (f.workbook.answers result)).map fun n ↦ ((), [.value n]) := by
  refine (run_countArgs _ _ _).trans ?_
  refine (congrArg (Except.map _) (bind_pure (f.countArg result _ _ 0 (.rangeRef r)))).trans ?_
  rw [countArg]
  cases (f.workbook.countRange r (ValueT.numeric.bits ||| ValueT.boolean.bits)).run
      (f.workbook.answers result) with
  | error e => rfl
  | ok n => exact congrArg (fun n ↦ Except.ok ((), [StackValue.value n])) (zero_add n)

/-- The numbers in a range are counted. -/
theorem handle_funcCount_of_inSheet
    (h : (Workbook.clipRange r f.workbook.sheetSize).InSheet f.workbook)
    (hread : ¬f.HasFailure result (Workbook.clipRange r f.workbook.sheetSize).addresses) :
    f.handle result .funcCount [.rangeRef r] =
      .ok ((), [.value
        (f.numbers result (Workbook.clipRange r f.workbook.sheetSize).addresses).length]) := by
  have hcount : ∀ a ∈ (Workbook.clipRange r f.workbook.sheetSize).addresses, ∃ n,
      f.workbook.readCount result (ValueT.numeric.bits ||| ValueT.boolean.bits) a = .ok n := by
    intro a ha
    cases hc : f.workbook.readCell result a with
    | error e => exact absurd ⟨a, ha, e, hc⟩ hread
    | ok c => exact ⟨_, by rw [Workbook.readCount, hc]; rfl⟩
  choose! count hcount using hcount
  rw [handle_funcCount_rangeRef, Workbook.run_countRange rfl h,
    Workbook.gather_ofExn_eq_ok hcount, foldl_add_eq, sum_counts hcount, zero_add]
  rfl

/-- Nothing is counted in a cell that cannot be read. -/
theorem handle_funcCount_of_hasFailure
    (h : (Workbook.clipRange r f.workbook.sheetSize).InSheet f.workbook)
    (hfails : f.HasFailure result (Workbook.clipRange r f.workbook.sheetSize).addresses) :
    ∃ e, f.handle result .funcCount [.rangeRef r] = .error e := by
  obtain ⟨a, ha, e, he⟩ := hfails
  have hread : f.workbook.readCount result (ValueT.numeric.bits ||| ValueT.boolean.bits) a =
      .error e := by
    rw [Workbook.readCount, he]
    rfl
  obtain ⟨e', hgather⟩ := Workbook.gather_ofExn_eq_error _
    (fun (ret : ℚ) (_ : AbsAddress) v ↦ ret + v) ⟨a, ha, e, hread⟩ 0
  rw [handle_funcCount_rangeRef, Workbook.run_countRange rfl h, hgather]
  exact ⟨_, rfl⟩

/-- Nothing is counted in columns that there are not. -/
theorem handle_funcCount_of_not_hasColumn
    (result : FormulaCell → Except Exn FormulaResult) (hsheet : r.first.sheet = r.last.sheet)
    (hhas : f.workbook.hasSheet r.first.sheet) (hle : r.first.column ≤ r.last.column)
    (hno : ¬f.workbook.hasColumn r.first.column) :
    ∃ e, f.handle result .funcCount [.rangeRef r] = .error e := by
  have hlast : ¬(r.last.sheet < 0 ∨ (f.workbook.sheets.length : Int) ≤ r.last.sheet) := by
    rw [← hsheet]
    rintro (hlt | hle)
    · exact Int.not_lt.mpr hhas.1 hlt
    · exact Int.not_lt.mpr hle hhas.2
  rw [handle_funcCount_rangeRef, Workbook.countRange, hhas.isEmpty, if_neg Bool.false_ne_true]
  dsimp only
  rw [ModelContext.last_sheet_clipRange, if_neg hlast, ModelContext.first_sheet_clipRange,
    ModelContext.first_column_clipRange, ModelContext.last_column_clipRange, ← hsheet,
    countUp_cons (Int.le_refl _), List.foldlM_cons, if_neg (not_not.mpr hhas), countUp_cons hle,
    List.foldlM_cons, if_pos hno]
  exact ⟨_, rfl⟩

/-! ## The average -/

/-- The average of a range is the sum of the numbers in it divided by how many there are. -/
def AverageIsMean (f : FormulaFunctions) (result : FormulaCell → Except Exn FormulaResult)
    (r : AbsRange) : Prop :=
  ∃ sum count : ℚ, f.call result .funcSum [.rangeRef r] = .ok [.value sum] ∧
    f.call result .funcCount [.rangeRef r] = .ok [.value count] ∧ count ≠ 0 ∧
    f.call result .funcAverage [.rangeRef r] = .ok [.value (sum / count)]

/-- The average of a range with a number in it is the sum divided by the count exactly if the range
is valid and does not stand for all columns, its cells can be read, for COUNT and as numbers, and
the sum is zero or COUNT finds a number in every cell. -/
theorem averageIsMean_iff (hsheet : r.first.sheet = r.last.sheet)
    (hnumber : f.numbers result (r.fillUnset f.workbook.sheetSize).addresses ≠ []) :
    f.AverageIsMean result r ↔
      r.valid = true ∧ (r.allColumns = true → columnUnset < f.workbook.sheetSize.column) ∧
        (∀ a ∈ (r.fillUnset f.workbook.sheetSize).addresses,
          ∃ v, f.workbook.readNumber result a = .ok v) ∧
        ¬f.HasFailure result (Workbook.clipRange r f.workbook.sheetSize).addresses ∧
        f.numbers result (Workbook.clipRange r f.workbook.sheetSize).addresses ≠ [] ∧
        ((f.numbers result (r.fillUnset f.workbook.sheetSize).addresses).sum = 0 ∨
          (f.numbers result (Workbook.clipRange r f.workbook.sheetSize).addresses).length =
            (r.fillUnset f.workbook.sheetSize).addresses.length) := by
  have hne : (r.fillUnset f.workbook.sheetSize).addresses ≠ [] := by
    intro hnil
    rw [hnil] at hnumber
    exact hnumber rfl
  have hin (h : ∀ a ∈ (r.fillUnset f.workbook.sheetSize).addresses,
      ∃ v, f.workbook.readNumber result a = .ok v) :
      (r.fillUnset f.workbook.sheetSize).InSheet f.workbook := by
    refine AbsRange.inSheet_of_addresses hsheet hne fun a ha ↦ ?_
    by_contra hout
    obtain ⟨v, hv⟩ := h a ha
    rw [Workbook.readNumber, Workbook.readCell_of_outside (Bool.eq_false_iff.mpr hout)] at hv
    exact nomatch hv
  constructor
  · rintro ⟨sum, count, hsum, hcount, hzero, haverage⟩
    have hsum := handle_of_call hsum
    have hcount := handle_of_call hcount
    have haverage := handle_of_call haverage
    obtain ⟨hvalid, hread⟩ : r.valid = true ∧ _ := by
      rw [handle_funcSum_rangeRef] at hsum
      cases harg : f.sumArg result 0 (.rangeRef r) with
      | ok s => exact of_sumArg_rangeRef hsheet harg
      | error e =>
        rw [harg] at hsum
        exact nomatch hsum
    have hcols : r.allColumns = true → columnUnset < f.workbook.sheetSize.column := by
      intro hall
      by_contra hno
      have hcolumn : ¬f.workbook.hasColumn r.first.column := fun h ↦
        hno ((decide_eq_true_eq.mp hall).1 ▸ h.2)
      obtain ⟨e, he⟩ := handle_funcCount_of_not_hasColumn result hsheet
        (hin hread).sheet (AbsRange.valid_iff.mp hvalid).2.2.2.2 hcolumn
      exact nomatch he.symm.trans hcount
    have hclip := AbsRange.InSheet.clipRange hvalid (hin hread) hcols
    have hfails : ¬f.HasFailure result (Workbook.clipRange r f.workbook.sheetSize).addresses := by
      intro hfails
      obtain ⟨e, he⟩ := handle_funcCount_of_hasFailure hclip hfails
      exact nomatch he.symm.trans hcount
    rw [handle_funcSum_of_read hsheet hvalid hread] at hsum
    rw [handle_funcCount_of_inSheet hclip hfails] at hcount
    rw [handle_funcAverage_rangeRef hsheet hvalid hread] at haverage
    rw [← value_inj hcount] at hzero
    have hmean := value_inj haverage
    rw [← value_inj hsum, ← value_inj hcount, div_eq_div_iff
      (Nat.cast_ne_zero.mpr fun h ↦ hne (List.length_eq_zero_iff.mp h)) hzero] at hmean
    refine ⟨hvalid, hcols, hread, hfails, fun hnil ↦ ?_, ?_⟩
    · rw [hnil] at hzero
      exact hzero rfl
    · rcases mul_eq_mul_left_iff.mp hmean with hmean | hmean
      · exact .inr (Nat.cast_injective hmean)
      · exact .inl hmean
  · rintro ⟨hvalid, hcols, hread, hfails, hnumber', hmean⟩
    have hclip := AbsRange.InSheet.clipRange hvalid (hin hread) hcols
    have hlength : (f.numbers result
        (Workbook.clipRange r f.workbook.sheetSize).addresses).length ≠ 0 :=
      fun h ↦ hnumber' (List.length_eq_zero_iff.mp h)
    refine ⟨_, _, call_of_ok (handle_funcSum_of_read hsheet hvalid hread),
      call_of_ok (handle_funcCount_of_inSheet hclip hfails), Nat.cast_ne_zero.mpr hlength,
      call_of_ok ?_⟩
    rw [handle_funcAverage_rangeRef hsheet hvalid hread]
    rcases hmean with hmean | hmean
    · rw [hmean, zero_div, zero_div]
    · rw [hmean]

/-- A number and the empty cell below it. -/
def halfRange : AbsRange := ⟨⟨0, 1, 0⟩, ⟨0, 2, 0⟩⟩

theorem numbers_halfRange : productFunctions.numbers productResult
    (halfRange.fillUnset productFunctions.workbook.sheetSize).addresses = [1] := rfl

/-- The average of a number and an empty cell. -/
theorem averageIsMean_iff_half :
    productFunctions.AverageIsMean productResult halfRange ↔
      halfRange.valid = true ∧
        (halfRange.allColumns = true →
          columnUnset < productFunctions.workbook.sheetSize.column) ∧
        (∀ a ∈ (halfRange.fillUnset productFunctions.workbook.sheetSize).addresses,
          ∃ v, productFunctions.workbook.readNumber productResult a = .ok v) ∧
        ¬productFunctions.HasFailure productResult
          (Workbook.clipRange halfRange productFunctions.workbook.sheetSize).addresses ∧
        productFunctions.numbers productResult
          (Workbook.clipRange halfRange productFunctions.workbook.sheetSize).addresses ≠ [] ∧
        ((productFunctions.numbers productResult
            (halfRange.fillUnset productFunctions.workbook.sheetSize).addresses).sum = 0 ∨
          (productFunctions.numbers productResult
              (Workbook.clipRange halfRange productFunctions.workbook.sheetSize).addresses).length =
            (halfRange.fillUnset productFunctions.workbook.sheetSize).addresses.length) :=
  averageIsMean_iff rfl (numbers_halfRange ▸ List.cons_ne_nil _ _)

/-- The average of a number and an empty cell is half of the number, though there is only one. -/
theorem not_averageIsMean_half :
    halfRange.Inside productFunctions.workbook ∧
      productFunctions.numbers productResult halfRange.addresses = [1] ∧
      productFunctions.workbook.readCell productResult ⟨0, 1, 0⟩ = .ok (.numeric 1) ∧
      productFunctions.workbook.readCell productResult ⟨0, 2, 0⟩ = .ok .empty ∧
      ¬productFunctions.AverageIsMean productResult halfRange := by
  have hinside : halfRange.Inside productFunctions.workbook := by
    refine ⟨⟨rfl, ?_, ?_, ?_, ?_, ?_, ?_, ?_⟩, ?_, ?_⟩
    all_goals decide
  have haddresses : (halfRange.fillUnset productFunctions.workbook.sheetSize).addresses =
      [⟨0, 1, 0⟩, ⟨0, 2, 0⟩] := rfl
  have hread : ∀ a ∈ (halfRange.fillUnset productFunctions.workbook.sheetSize).addresses,
      ∃ v, productFunctions.workbook.readNumber productResult a = .ok v := by
    intro a ha
    rw [haddresses] at ha
    rcases List.mem_cons.mp ha with rfl | ha
    · exact ⟨1, rfl⟩
    · obtain rfl := List.mem_singleton.mp ha
      exact ⟨0, rfl⟩
  have hclip : (Workbook.clipRange halfRange productFunctions.workbook.sheetSize).InSheet
      productFunctions.workbook := hinside.clipRange.symm ▸ hinside.toInSheet
  have hcells : ¬productFunctions.HasFailure productResult
      (Workbook.clipRange halfRange productFunctions.workbook.sheetSize).addresses := by
    rintro ⟨a, ha, e, he⟩
    obtain ⟨v, hv⟩ := hread a (hinside.fillUnset.symm ▸ hinside.clipRange ▸ ha)
    rw [Workbook.readNumber, he] at hv
    exact nomatch hv
  refine ⟨hinside, rfl, rfl, rfl, ?_⟩
  rintro ⟨sum, count, hsum, hcount, -, haverage⟩
  have hsum := (handle_funcSum_of_read rfl hinside.valid hread).symm.trans (handle_of_call hsum)
  have hcount := (handle_funcCount_of_inSheet hclip hcells).symm.trans (handle_of_call hcount)
  have haverage := (handle_funcAverage_rangeRef rfl hinside.valid hread).symm.trans
    (handle_of_call haverage)
  have hone : ([1] : List ℚ).sum = sum := value_inj hsum
  have hone' : ((1 : Nat) : ℚ) = count := value_inj hcount
  have hhalf : ([1] : List ℚ).sum / ((2 : Nat) : ℚ) = sum / count := value_inj haverage
  rw [← hone, ← hone'] at hhalf
  norm_num at hhalf

end FormulaFunctions

end Ixion
