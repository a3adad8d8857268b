import Ixion.Column.Walk
import Ixion.Interp.Answers

/-!
# Ranges of whole rows and columns

Rows or columns that are not set stand for those of the sheet.  The numbers of a range are read
with this in mind; counting replaces rows only, and walking and the test for emptiness replace
nothing, so a range that starts in the workbook is not the same to all of them
(`readAlike_fillUnset_iff`).
-/

namespace Ixion

open Lib

/-- Replace rows and columns that are not set by those of the sheet. -/
def AbsRange.fillUnset (range : AbsRange) (sheetSize : RcSize) : AbsRange where
  first := ⟨range.first.sheet, if range.allRows then 0 else range.first.row,
    if range.allColumns then 0 else range.first.column⟩
  last := ⟨range.last.sheet, if range.allRows then sheetSize.row - 1 else range.last.row,
    if range.allColumns then sheetSize.column - 1 else range.last.column⟩

namespace Workbook

variable {wb : Workbook} {result : FormulaCell → Except Failure FormulaResult}
  {range range' : AbsRange}

/-- Two ranges are the same to all that read them. -/
structure ReadAlike (wb : Workbook) (result : FormulaCell → Except Failure FormulaResult)
    (range range' : AbsRange) : Prop where
  getRangeValue : (Reader.getRangeValue wb.sheetSize range).run (wb.answer result) =
    (Reader.getRangeValue wb.sheetSize range').run (wb.answer result)
  countRange : ∀ values, (wb.countRange range values).run (wb.answer result) =
    (wb.countRange range' values).run (wb.answer result)
  walk : ∀ (β : Type) (cb : ColumnBlockCallback β) (b : β),
    (wb.walk range.first.sheet range cb b).run (wb.answer result) =
      (wb.walk range'.first.sheet range' cb b).run (wb.answer result)
  isEmpty : (wb.isEmpty range).run (wb.answer result) = (wb.isEmpty range').run (wb.answer result)

/-- With a sheet there are sheets. -/
theorem hasSheet.isEmpty {sheet : Int} (h : wb.hasSheet sheet) : wb.sheets.isEmpty = false := by
  rw [List.isEmpty_eq_false_iff]
  intro hnil
  have hlt := h.2
  rw [hnil, List.length_nil] at hlt
  exact Int.not_lt.mpr h.1 hlt

/-! ## Reading numbers -/

/-- The numbers between the corners of a range. -/
def rangeMatrix (range : AbsRange) : Reader Matrix :=
  let rows := (range.last.row - range.first.row + 1).toNat
  let cols := (range.last.column - range.first.column + 1).toNat
  (List.range rows).foldlM (fun m (i : Nat) ↦
    (List.range cols).foldlM (fun m (j : Nat) ↦ do
      let v ← Reader.getNumericValue
        ⟨range.first.sheet, (i : Int) + range.first.row, (j : Int) + range.first.column⟩
      return m.set i j (.numeric v)) m) (Matrix.new rows cols)

theorem getRangeValue_eq {sheetSize : RcSize} (hsheet : range.first.sheet = range.last.sheet)
    (hvalid : range.valid = true) :
    Reader.getRangeValue sheetSize range = rangeMatrix (range.fillUnset sheetSize) := by
  rw [Reader.getRangeValue, if_neg (not_not.mpr hsheet), hvalid]
  rfl

theorem getRangeValue_of_not_valid {sheetSize : RcSize}
    (hsheet : range.first.sheet = range.last.sheet) (hvalid : range.valid = false) :
    (Reader.getRangeValue sheetSize range).run (wb.answer result) =
      .error (.exception (.invalidArgument "invalid range")) := by
  rw [Reader.getRangeValue, if_neg (not_not.mpr hsheet), hvalid]
  rfl

/-- There is no number outside the workbook. -/
theorem run_getNumericValue_of_outside {a : AbsAddress} (h : wb.inWorkbook a = false) :
    (Reader.getNumericValue a).run (wb.answer result) = .error (.exception .outOfRange) := by
  have hvalue : (Reader.getCellValue a).run (wb.answer result) =
      .error (.exception .outOfRange) := by
    refine (Query.run_query (Question.cellValue a)).trans ?_
    rw [answer, getCell_of_not_inWorkbook h]
    rfl
  rw [Reader.getNumericValue, Query.run_bind, hvalue]
  rfl

variable (result) in
/-- No number is read, or the first one is outside the workbook. -/
theorem run_rangeMatrix_of_outside (h : wb.inWorkbook range.first = false) :
    (∃ m, (rangeMatrix range).run (wb.answer result) = .ok m) ∨
      (rangeMatrix range).run (wb.answer result) = .error (.exception .outOfRange) := by
  rw [rangeMatrix]
  generalize Matrix.new _ _ = m
  cases (range.last.row - range.first.row + 1).toNat with
  | zero => exact .inl ⟨m, rfl⟩
  | succ rows =>
    cases (range.last.column - range.first.column + 1).toNat with
    | zero =>
      refine .inl ⟨m, ?_⟩
      rw [Query.run_foldlM]
      generalize List.range (rows + 1) = l
      induction l with
      | nil => rfl
      | cons i l ih => exact ih
    | succ cols =>
      refine .inr ?_
      have hfirst : (Reader.getNumericValue ⟨range.first.sheet, ((0 : Nat) : Int) + range.first.row,
          ((0 : Nat) : Int) + range.first.column⟩).run (wb.answer result) =
          .error (.exception .outOfRange) := by
        rw [Nat.cast_zero, Int.zero_add, Int.zero_add]
        exact run_getNumericValue_of_outside h
      rw [List.range_succ_eq_map, List.range_succ_eq_map, List.foldlM_cons, Query.run_bind,
        List.foldlM_cons, Query.run_bind, Query.run_bind, hfirst]
      rfl

/-! ## Walking -/

section Walk

variable {β : Type} {cb : ColumnBlockCallback β} {b : β}

/-- How walking through a range fails that does not start in the workbook. -/
def walkError (wb : Workbook) (range : AbsRange) : Failure :=
  if wb.hasColumn range.first.column ∧ range.first.row ≤ wb.sheetSize.row then .undefined
  else .exception .outOfRange

/-- Walking fails at a first cell that is not in the workbook. -/
theorem run_walk_of_outside (hsheet : wb.hasSheet range.first.sheet) (hordered : range.Ordered)
    (hrow : 0 ≤ range.first.row) (hout : wb.inWorkbook range.first = false) :
    (wb.walk range.first.sheet range cb b).run (wb.answer result) =
      .error (wb.walkError range) := by
  obtain ⟨-, hrows, hcols⟩ := hordered
  rw [walk, if_neg (not_not.mpr hsheet), countUp_cons hcols]
  show (walkColumns wb cb range.first.sheet range.first.row range.last.row _ b).run _ = _
  rw [walkColumns, Query.run_bind, walkColumn, if_neg (Int.not_lt.mpr hrows)]
  by_cases hstart : wb.hasColumn range.first.column ∧ range.first.row ≤ wb.sheetSize.row
  · -- the row after the last one has no block
    have hlast : wb.sheetSize.row ≤ range.first.row := by
      by_contra hlt
      rw [inWorkbook, decide_eq_false_iff_not] at hout
      exact hout ⟨hsheet.1, hsheet.2, hstart.1.1, hstart.1.2, hrow, Int.not_le.mp hlt⟩
    have hnil : countUp range.first.row (min range.last.row (wb.sheetSize.row - 1)) = [] :=
      countUp_eq_nil (by omega)
    have hok : ¬(¬wb.hasColumn range.first.column ∨ range.first.row < 0 ∨
        wb.sheetSize.row < range.first.row) := by
      rintro (hcol | hlt | hlt)
      · exact hcol hstart.1
      · exact Int.not_lt.mpr hrow hlt
      · exact Int.not_lt.mpr hstart.2 hlt
    have hmore : true = true ∧ wb.sheetSize.row ≤ range.last.row := ⟨rfl, hlast.trans hrows⟩
    rw [if_neg hok, hnil, walkError, if_pos hstart]
    show ((if true = true ∧ wb.sheetSize.row ≤ range.last.row then Query.throw Failure.undefined
      else pure (b, true) : Reader (β × Bool)).run _ >>= fun p ↦ _) = _
    rw [if_pos hmore]
    rfl
  · have hbad : ¬wb.hasColumn range.first.column ∨ range.first.row < 0 ∨
        wb.sheetSize.row < range.first.row := by
      by_cases hcol : wb.hasColumn range.first.column
      · exact .inr (.inr (Int.not_le.mp fun hle ↦ hstart ⟨hcol, hle⟩))
      · exact .inl hcol
    rw [if_pos hbad, walkError, if_neg hstart]
    rfl

/-- The first segment starts at the first cell. -/
theorem exists_segments_start (col row : Int) (type : CellType) (types : List CellType) :
    ∃ seg segs, segments col row (type :: types) = seg :: segs ∧
      seg.row1 = row ∧ seg.col = col := by
  induction types generalizing row type with
  | nil => exact ⟨_, _, rfl, rfl, rfl⟩
  | cons type' types ih =>
    obtain ⟨seg, segs, hsegs, -, hcol⟩ := ih (row + 1) type'
    rw [segments, hsegs]
    dsimp only
    split
    · exact ⟨_, _, rfl, rfl, hcol⟩
    · exact ⟨_, _, rfl, rfl, rfl⟩

/-- The callback that notes where it is called first. -/
def noteFirst : ColumnBlockCallback (Option (Int × Int)) :=
  fun seg _ ↦ return (some (seg.row1, seg.col), false)

/-- Walking starts at the first cell. -/
theorem run_walk_noteFirst (hordered : range.Ordered) (hin : wb.inWorkbook range.first = true) :
    (wb.walk range.first.sheet range noteFirst none).run (wb.answer result) =
      .ok (some (range.first.row, range.first.column)) := by
  obtain ⟨-, hrows, hcols⟩ := hordered
  obtain ⟨h₁, h₂, h₃, h₄, h₅, h₆⟩ := decide_eq_true_eq.mp hin
  have hle : range.first.row ≤ min range.last.row (wb.sheetSize.row - 1) :=
    le_min hrows (Int.le_sub_one_of_lt h₆)
  have hlt : min range.last.row (wb.sheetSize.row - 1) < wb.sheetSize.row :=
    Int.lt_of_le_sub_one (min_le_right _ _)
  have htypes := ColumnStores.run_mapM_getCellType result ⟨h₁, h₂⟩ ⟨h₃, h₄⟩ h₅ hlt
  rw [walk, if_neg (not_not.mpr ⟨h₁, h₂⟩), countUp_cons hcols]
  show (walkColumns wb _ range.first.sheet range.first.row range.last.row _ none).run _ = _
  rw [walkColumns, Query.run_bind, walkColumn, if_neg (Int.not_lt.mpr hrows), if_neg (by
    rintro (hcol | hrow | hrow)
    · exact hcol ⟨h₃, h₄⟩
    · exact Int.not_lt.mpr h₅ hrow
    · exact Int.not_lt.mpr h₆.le hrow)]
  show ((((countUp range.first.row (min range.last.row (wb.sheetSize.row - 1))).mapM fun row ↦
    Reader.getCellType ⟨range.first.sheet, row, range.first.column⟩) >>= fun types ↦
      walkSegments noteFirst (segments range.first.column range.first.row types) none >>= fun x ↦
        _ : Reader _).run _ >>= fun p ↦ _) = _
  obtain ⟨seg, segs, hsegs, hrow, hcol⟩ := exists_segments_start range.first.column range.first.row
    (wb.cells ⟨range.first.sheet, range.first.row, range.first.column⟩).type
    ((countUp (range.first.row + 1) (min range.last.row (wb.sheetSize.row - 1))).map fun row ↦
      (wb.cells ⟨range.first.sheet, row, range.first.column⟩).type)
  rw [Query.run_bind, htypes, countUp_cons hle, List.map_cons]
  show ((walkSegments noteFirst (segments range.first.column range.first.row (_ :: _)) none >>=
    fun x ↦ _ : Reader _).run _ >>= fun p ↦ _) = _
  rw [hsegs, ← hrow, ← hcol]
  rfl

end Walk

/-! ## Emptiness -/

/-- How the test for emptiness fails for a range that does not start in the workbook. -/
def emptyError (wb : Workbook) (range : AbsRange) : Failure :=
  if wb.sheets.isEmpty then .undefined
  else if (wb.sheets.length : Int) ≤ range.first.sheet then
    .exception (.generalError "out-of-bound sheet ranges")
  else if wb.sheetSize.column ≤ 0 then .undefined
  else if wb.sheetSize.column ≤ range.first.column then
    .exception (.generalError "out-of-bound column ranges")
  else .exception (.generalError "out-of-bound row ranges")

/-- Neither the sheet nor the column of a cell is checked. -/
theorem run_isEmptyColumns_of_outside {first last : Int} {x : Int × Int} {cols : List (Int × Int)}
    (h : ¬wb.hasSheet x.1 ∨ ¬wb.hasColumn x.2) :
    (wb.isEmptyColumns first last (x :: cols)).run (wb.answer result) = .error .undefined := by
  rw [isEmptyColumns, if_pos h]
  rfl

/-- The test for emptiness fails at a first cell that is not in the workbook. -/
theorem run_isEmpty_of_outside (hordered : range.Ordered) (hsheet : 0 ≤ range.first.sheet)
    (hrow : 0 ≤ range.first.row) (hcol : 0 ≤ range.first.column)
    (hout : wb.inWorkbook range.first = false) :
    (wb.isEmpty range).run (wb.answer result) = .error (wb.emptyError range) := by
  obtain ⟨hsheets, hrows, hcols⟩ := id hordered
  rw [isEmpty, shrinkToWorkbook, AbsRange.reorder_eq_self hordered, emptyError]
  dsimp only
  split
  case isTrue hempty =>
    have hno : ¬wb.hasSheet range.first.sheet := by
      rintro ⟨-, hlt⟩
      rw [List.isEmpty_iff.mp hempty, List.length_nil] at hlt
      exact Int.not_lt.mpr hsheet hlt
    show (wb.isEmptyColumns range.first.row range.last.row _).run _ = _
    rw [countUp_cons hsheets, List.flatMap_cons, countUp_cons hcols]
    exact run_isEmptyColumns_of_outside (.inl hno)
  case isFalse hempty =>
    split
    case isTrue => rfl
    case isFalse hlt =>
      split
      case isTrue hcolumns =>
        have hno : ¬wb.hasColumn range.first.column := fun h ↦ by
          have := h.2
          omega
        show (wb.isEmptyColumns range.first.row range.last.row _).run _ = _
        rw [countUp_cons (le_min hsheets (by omega)), List.flatMap_cons, countUp_cons hcols]
        exact run_isEmptyColumns_of_outside (.inr hno)
      case isFalse =>
        split
        case isTrue => rfl
        case isFalse hcolumn =>
          have hbelow : wb.sheetSize.row ≤ range.first.row := by
            by_contra hrow'
            rw [inWorkbook, decide_eq_false_iff_not] at hout
            exact hout ⟨hsheet, Int.not_le.mp hlt, hcol, Int.not_le.mp hcolumn, hrow,
              Int.not_le.mp hrow'⟩
          rw [if_pos hbelow]
          rfl

/-! ## Counting -/

section Count

variable {values : Values}

/-- Nothing is counted on a sheet that there is not. -/
theorem run_countRange_of_no_sheet (hsheet : range.first.sheet = range.last.sheet)
    (hnonneg : 0 ≤ range.first.sheet) (hno : ¬wb.hasSheet range.first.sheet) :
    (wb.countRange range values).run (wb.answer result) = .ok 0 := by
  have hle : (wb.sheets.length : Int) ≤ range.first.sheet :=
    Int.not_lt.mp fun hlt ↦ hno ⟨hnonneg, hlt⟩
  rw [countRange]
  split
  case isTrue => rfl
  case isFalse =>
    have hlast : (wb.sheets.length : Int) ≤ range.last.sheet := hsheet ▸ hle
    have hnil : countUp range.first.sheet (wb.sheets.length - 1) = [] :=
      countUp_eq_nil (Int.lt_of_lt_of_le (Int.sub_one_lt_of_le (Int.le_refl _)) hle)
    dsimp only
    rw [ModelContext.first_sheet_clipRange, ModelContext.last_sheet_clipRange,
      if_pos (.inr hlast), hnil]
    rfl

/-- Below the last row no cell of a column counts. -/
theorem run_countColumn_of_below {sheet col first last : Int} {ret : ℚ} (hfirst : 0 ≤ first)
    (hbelow : wb.sheetSize.row ≤ first) :
    (wb.countColumn values sheet col first last ret).run (wb.answer result) =
      if wb.sheetSize.row < first then .error (.exception .outOfRange) else .ok ret := by
  rw [countColumn]
  split
  case isTrue h =>
    rw [if_pos (h.resolve_left (Int.not_lt.mpr hfirst))]
    rfl
  case isFalse h =>
    have hlt := (not_or.mp h).2
    rw [if_neg hlt, if_pos (Int.le_antisymm (Int.not_lt.mp hlt) hbelow)]
    rfl

/-- A loop whose steps all fail, or all do nothing. -/
theorem foldlM_of_forall {α β ε : Type} {g : β → α → Except ε β} {e : ε} {p : Prop} [Decidable p]
    {a : α} {l : List α} (h : ∀ b, ∀ a' ∈ a :: l, g b a' = if p then .error e else .ok b) {b : β} :
    (a :: l).foldlM g b = if p then .error e else .ok b := by
  rw [List.foldlM_cons, h b a List.mem_cons_self]
  by_cases hp : p
  · rw [if_pos hp]
    rfl
  · rw [if_neg hp]
    show l.foldlM g b = .ok b
    induction l with
    | nil => rfl
    | cons a' l ih =>
      rw [List.foldlM_cons, h b a' (List.mem_cons_of_mem a List.mem_cons_self), if_neg hp]
      refine ih fun b a'' ha'' ↦ h b a'' ?_
      rcases List.mem_cons.mp ha'' with rfl | hmem
      · exact List.mem_cons_self
      · exact List.mem_cons_of_mem a (List.mem_cons_of_mem a' hmem)

/-- Counting below the last row. -/
theorem run_countRange_of_below (hsheet : range.first.sheet = range.last.sheet)
    (hhas : wb.hasSheet range.first.sheet) (hrow : 0 ≤ range.first.row)
    (hunset : range.first.row ≠ rowUnset) (hbelow : wb.sheetSize.row ≤ range.first.row)
    (hcol : 0 ≤ range.first.column) (hcols : range.first.column ≤ range.last.column)
    (hlast : range.last.column < wb.sheetSize.column) :
    (wb.countRange range values).run (wb.answer result) =
      if wb.sheetSize.row < range.first.row then .error (.exception .outOfRange) else .ok 0 := by
  have hlast' : ¬(range.last.sheet < 0 ∨ (wb.sheets.length : Int) ≤ range.last.sheet) := by
    rw [← hsheet]
    rintro (hlt | hle)
    · exact Int.not_lt.mpr hhas.1 hlt
    · exact Int.not_lt.mpr hle hhas.2
  have hfirst : (clipRange range wb.sheetSize).first = range.first := if_neg hunset
  rw [countRange, hhas.isEmpty, if_neg Bool.false_ne_true]
  dsimp only
  rw [ModelContext.last_sheet_clipRange, if_neg hlast', hfirst, ModelContext.last_column_clipRange,
    ← hsheet, countUp_cons (Int.le_refl _), countUp_eq_nil (Int.lt_succ _), List.foldlM_cons,
    if_neg (not_not.mpr hhas), Query.run_bind, Query.run_foldlM]
  rw [countUp_cons hcols, foldlM_of_forall (e := .exception .outOfRange)
    (p := wb.sheetSize.row < range.first.row) fun ret col h ↦ by
      rw [← countUp_cons hcols, mem_countUp] at h
      rw [if_neg (not_not.mpr ⟨hcol.trans h.1, Int.lt_of_le_of_lt h.2 hlast⟩)]
      exact run_countColumn_of_below hrow hbelow]
  split <;> rfl

end Count

end Workbook

/-! ## What is left of a range without a row or column that is not set -/

namespace AbsRange

variable {range : AbsRange} {sheetSize : RcSize}

theorem allRows_fillUnset : (range.fillUnset sheetSize).allRows = false := by
  rw [allRows, decide_eq_false_iff_not]
  rintro ⟨hfirst, hlast⟩
  by_cases h : range.allRows = true
  · exact absurd ((if_pos h).symm.trans hfirst) (show (0 : Int) ≠ rowUnset by decide)
  · exact h (decide_eq_true ⟨(if_neg h).symm.trans hfirst, (if_neg h).symm.trans hlast⟩)

theorem allColumns_fillUnset : (range.fillUnset sheetSize).allColumns = false := by
  rw [allColumns, decide_eq_false_iff_not]
  rintro ⟨hfirst, hlast⟩
  by_cases h : range.allColumns = true
  · exact absurd ((if_pos h).symm.trans hfirst) (show (0 : Int) ≠ columnUnset by decide)
  · exact h (decide_eq_true ⟨(if_neg h).symm.trans hfirst, (if_neg h).symm.trans hlast⟩)

/-- Nothing is left to replace. -/
theorem fillUnset_fillUnset :
    (range.fillUnset sheetSize).fillUnset sheetSize = range.fillUnset sheetSize := by
  rw [fillUnset, allRows_fillUnset, allColumns_fillUnset]
  rfl

/-- A range with unset rows or columns starts elsewhere. -/
theorem first_fillUnset_ne (h : range.allRows = true ∨ range.allColumns = true) :
    (range.first.row, range.first.column) ≠
      ((range.fillUnset sheetSize).first.row, (range.fillUnset sheetSize).first.column) := by
  intro heq
  obtain ⟨hrow, hcol⟩ := Prod.mk.inj heq
  rcases h with h | h
  · rw [(decide_eq_true_eq.mp h).1] at hrow
    exact absurd (hrow.trans (if_pos h)) (show rowUnset ≠ (0 : Int) by decide)
  · rw [(decide_eq_true_eq.mp h).1] at hcol
    exact absurd (hcol.trans (if_pos h)) (show columnUnset ≠ (0 : Int) by decide)

/-- A range that starts in the workbook has its corners in order. -/
theorem ordered_fillUnset (h : range.Ordered) (hrow : 0 < sheetSize.row)
    (hcol : 0 < sheetSize.column) : (range.fillUnset sheetSize).Ordered := by
  obtain ⟨hsheets, hrows, hcols⟩ := h
  refine ⟨hsheets, ?_, ?_⟩
  · show (if _ then _ else _) ≤ if _ then _ else _
    split
    · exact Int.le_sub_one_of_lt hrow
    · exact hrows
  · show (if _ then _ else _) ≤ if _ then _ else _
    split
    · exact Int.le_sub_one_of_lt hcol
    · exact hcols

end AbsRange

namespace Workbook

variable {wb : Workbook} {result : FormulaCell → Except Failure FormulaResult}
  {range : AbsRange}

/-- A range that is the same to all readers does not start in the workbook. -/
theorem ReadAlike.outside (h : ReadAlike wb result range (range.fillUnset wb.sheetSize))
    (hvalid : range.valid = true) (hunset : range.allRows = true ∨ range.allColumns = true) :
    wb.inWorkbook (range.fillUnset wb.sheetSize).first = false := by
  by_contra hin
  rw [Bool.not_eq_false] at hin
  obtain ⟨hfirst, -, hordered⟩ := AbsRange.valid_iff.mp hvalid
  obtain ⟨-, hrow, -⟩ := decide_eq_true_eq.mp hfirst
  obtain ⟨hs, hs', hc, hc', hr, hr'⟩ := decide_eq_true_eq.mp hin
  have hwalk := h.walk _ noteFirst none
  rw [run_walk_noteFirst (AbsRange.ordered_fillUnset hordered (Int.lt_of_le_of_lt hr hr')
    (Int.lt_of_le_of_lt hc hc')) hin] at hwalk
  by_cases hin' : wb.inWorkbook range.first = true
  · rw [run_walk_noteFirst hordered hin'] at hwalk
    exact AbsRange.first_fillUnset_ne hunset (Option.some.inj (Except.ok.inj hwalk))
  · have hfails : (wb.walk range.first.sheet range noteFirst none).run (wb.answer result) =
        .error (wb.walkError range) :=
      run_walk_of_outside ⟨hs, hs'⟩ hordered hrow (Bool.eq_false_iff.mpr hin')
    rw [hfails] at hwalk
    exact nomatch hwalk

/-- A range that is the same to all readers is valid without an unset row or column. -/
theorem ReadAlike.valid (h : ReadAlike wb result range (range.fillUnset wb.sheetSize))
    (hvalid : range.valid = true) (hsheet : range.first.sheet = range.last.sheet)
    (hunset : range.allRows = true ∨ range.allColumns = true) :
    (range.fillUnset wb.sheetSize).valid = true := by
  by_contra hinvalid
  rw [Bool.not_eq_true] at hinvalid
  have hread := h.getRangeValue
  have hfails : (Reader.getRangeValue wb.sheetSize (range.fillUnset wb.sheetSize)).run
      (wb.answer result) = .error (.exception (.invalidArgument "invalid range")) :=
    getRangeValue_of_not_valid hsheet hinvalid
  rw [getRangeValue_eq hsheet hvalid, hfails] at hread
  obtain ⟨m, hm⟩ | hm := run_rangeMatrix_of_outside result (h.outside hvalid hunset)
  · rw [hm] at hread
    exact nomatch hread
  · rw [hm] at hread
    exact nomatch hread

/-- Where a range is past the end of a sheet that does not start in it. -/
theorem columns_or_rows_of_outside (hvalid : range.valid = true)
    (hvalid' : (range.fillUnset wb.sheetSize).valid = true)
    (hunset : range.allRows = true ∨ range.allColumns = true)
    (hhas : wb.hasSheet range.first.sheet)
    (hout : wb.inWorkbook (range.fillUnset wb.sheetSize).first = false) :
    (range.allColumns = false ∧ wb.sheetSize.column ≤ range.first.column) ∨
      (range.allRows = false ∧ range.allColumns = true ∧ wb.sheetSize.row ≤ range.first.row ∧
        0 < wb.sheetSize.column) := by
  obtain ⟨-, hrow, hcol, -, -⟩ := decide_eq_true_eq.mp (AbsRange.valid_iff.mp hvalid).1
  obtain ⟨-, -, -, hrows, hcols⟩ := AbsRange.valid_iff.mp hvalid'
  rw [inWorkbook, decide_eq_false_iff_not] at hout
  cases hall : range.allColumns with
  | false =>
    have hall' : range.allRows = true := hunset.resolve_right (hall ▸ Bool.false_ne_true)
    rw [AbsRange.fillUnset, hall, hall'] at hrows hout
    refine .inl ⟨rfl, ?_⟩
    by_contra hlt
    exact hout ⟨hhas.1, hhas.2, hcol, Int.not_le.mp hlt, Int.le_refl 0, Int.lt_of_le_sub_one hrows⟩
  | true =>
    rw [AbsRange.fillUnset, hall] at hcols hrows hout
    have hpos : 0 < wb.sheetSize.column := Int.lt_of_le_sub_one hcols
    refine .inr ?_
    cases hall' : range.allRows with
    | true =>
      rw [hall'] at hrows hout
      exact absurd ⟨hhas.1, hhas.2, Int.le_refl 0, hpos, Int.le_refl 0, Int.lt_of_le_sub_one hrows⟩
        hout
    | false =>
      rw [hall'] at hout
      refine ⟨rfl, rfl, ?_, hpos⟩
      by_contra hlt
      exact hout ⟨hhas.1, hhas.2, Int.le_refl 0, hpos, hrow, Int.not_le.mp hlt⟩

/-- How the test for emptiness fails below the last row of a sheet. -/
theorem emptyError_of_below (hhas : wb.hasSheet range.first.sheet)
    (hpos : 0 < wb.sheetSize.column) :
    wb.emptyError range =
      if wb.sheetSize.column ≤ range.first.column then
        .exception (.generalError "out-of-bound column ranges")
      else .exception (.generalError "out-of-bound row ranges") := by
  rw [emptyError, hhas.isEmpty, if_neg Bool.false_ne_true, if_neg (Int.not_le.mpr hhas.2),
    if_neg (Int.not_le.mpr hpos)]

/-- Rows that are not set are replaced for counting. -/
theorem clipRange_fillUnset {sheetSize : RcSize} (hrows : range.allRows = true)
    (hcols : range.allColumns = false) :
    clipRange (range.fillUnset sheetSize) sheetSize = clipRange range sheetSize := by
  obtain ⟨hfirst, hlast⟩ := decide_eq_true_eq.mp hrows
  have hzero : (0 : Int) ≠ rowUnset := by decide
  rw [AbsRange.fillUnset, hrows, hcols, clipRange, clipRange, if_pos hfirst, if_pos hlast]
  dsimp only
  rw [if_pos rfl, if_pos rfl, if_neg hzero, ite_self]
  rfl

/-- Ranges that fail alike are the same to all readers. -/
theorem readAlike_of_outside (hvalid : range.valid = true)
    (hsheet : range.first.sheet = range.last.sheet)
    (hvalid' : (range.fillUnset wb.sheetSize).valid = true)
    (hout : wb.inWorkbook range.first = false)
    (hout' : wb.inWorkbook (range.fillUnset wb.sheetSize).first = false)
    (hcount : ∀ values, (wb.countRange range values).run (wb.answer result) =
      (wb.countRange (range.fillUnset wb.sheetSize) values).run (wb.answer result))
    (hwalk : wb.hasSheet range.first.sheet →
      wb.walkError range = wb.walkError (range.fillUnset wb.sheetSize))
    (hempty : wb.emptyError range = wb.emptyError (range.fillUnset wb.sheetSize)) :
    ReadAlike wb result range (range.fillUnset wb.sheetSize) := by
  obtain ⟨hfirst, -, hordered⟩ := AbsRange.valid_iff.mp hvalid
  obtain ⟨hs, hr, hc, -, -⟩ := decide_eq_true_eq.mp hfirst
  obtain ⟨hfirst', -, hordered'⟩ := AbsRange.valid_iff.mp hvalid'
  obtain ⟨hs', hr', hc', -, -⟩ := decide_eq_true_eq.mp hfirst'
  refine ⟨?_, hcount, fun β cb b ↦ ?_, ?_⟩
  · have hsheet' : (range.fillUnset wb.sheetSize).first.sheet =
        (range.fillUnset wb.sheetSize).last.sheet := hsheet
    rw [getRangeValue_eq hsheet hvalid, getRangeValue_eq hsheet' hvalid',
      AbsRange.fillUnset_fillUnset]
  · by_cases hhas : wb.hasSheet range.first.sheet
    · have hfails : (wb.walk range.first.sheet range cb b).run (wb.answer result) = _ :=
        run_walk_of_outside hhas hordered hr hout
      have hfails' : (wb.walk (range.fillUnset wb.sheetSize).first.sheet
          (range.fillUnset wb.sheetSize) cb b).run (wb.answer result) = _ :=
        run_walk_of_outside hhas hordered' hr' hout'
      rw [hfails, hfails', hwalk hhas]
    · have hhas' : ¬wb.hasSheet (range.fillUnset wb.sheetSize).first.sheet := hhas
      rw [walk, if_pos hhas, walk, if_pos hhas']
      rfl
  · rw [run_isEmpty_of_outside hordered hs hr hc hout, hempty,
      run_isEmpty_of_outside hordered' hs' hr' hc' hout']

/-- A range on a sheet that does not exist fails alike. -/
theorem readAlike_of_no_sheet (hvalid : range.valid = true)
    (hsheet : range.first.sheet = range.last.sheet)
    (hvalid' : (range.fillUnset wb.sheetSize).valid = true)
    (hhas : ¬wb.hasSheet range.first.sheet) :
    ReadAlike wb result range (range.fillUnset wb.sheetSize) := by
  obtain ⟨hfirst, -, -⟩ := AbsRange.valid_iff.mp hvalid
  obtain ⟨hs, -⟩ := decide_eq_true_eq.mp hfirst
  have hno {range' : AbsRange} (hs' : range'.first.sheet = range.first.sheet) :
      wb.inWorkbook range'.first = false := by
    rw [inWorkbook, decide_eq_false_iff_not, hs']
    exact fun hin ↦ hhas ⟨hin.1, hin.2.1⟩
  have hle : (wb.sheets.length : Int) ≤ range.first.sheet :=
    Int.not_lt.mp fun hlt ↦ hhas ⟨hs, hlt⟩
  have herror (range' : AbsRange) (hs' : range'.first.sheet = range.first.sheet) :
      wb.emptyError range' = if wb.sheets.isEmpty then .undefined
        else .exception (.generalError "out-of-bound sheet ranges") := by
    rw [emptyError, hs', if_pos hle]
  refine readAlike_of_outside hvalid hsheet hvalid' (hno rfl) (hno rfl) (fun values ↦ ?_)
    (fun h ↦ absurd h hhas)
    ((herror range rfl).trans (herror (range.fillUnset wb.sheetSize) rfl).symm)
  have hsheet' : (range.fillUnset wb.sheetSize).first.sheet =
      (range.fillUnset wb.sheetSize).last.sheet := hsheet
  have hhas' : ¬wb.hasSheet (range.fillUnset wb.sheetSize).first.sheet := hhas
  rw [run_countRange_of_no_sheet hsheet hs hhas, run_countRange_of_no_sheet hsheet' hs hhas']

/-- Whole rows past the last column fail alike. -/
theorem readAlike_of_past (hvalid : range.valid = true)
    (hsheet : range.first.sheet = range.last.sheet)
    (hvalid' : (range.fillUnset wb.sheetSize).valid = true) (hrows : range.allRows = true)
    (hcols : range.allColumns = false) (hpast : wb.sheetSize.column ≤ range.first.column) :
    ReadAlike wb result range (range.fillUnset wb.sheetSize) := by
  have hcol : (range.fillUnset wb.sheetSize).first.column = range.first.column :=
    if_neg (hcols ▸ Bool.false_ne_true)
  have hno {range' : AbsRange} (hc' : range'.first.column = range.first.column) :
      ¬wb.hasColumn range'.first.column := by
    rw [hc']
    exact fun h ↦ Int.not_lt.mpr hpast h.2
  have hout {range' : AbsRange} (hc' : range'.first.column = range.first.column) :
      wb.inWorkbook range'.first = false := by
    rw [inWorkbook, decide_eq_false_iff_not]
    exact fun hin ↦ hno hc' ⟨hin.2.2.1, hin.2.2.2.1⟩
  refine readAlike_of_outside hvalid hsheet hvalid' (hout rfl) (hout hcol) (fun values ↦ ?_)
    (fun _ ↦ ?_) ?_
  · unfold countRange
    rw [clipRange_fillUnset hrows hcols]
  · rw [walkError, walkError, if_neg fun h ↦ hno rfl h.1, if_neg fun h ↦ hno hcol h.1]
  · rw [emptyError, emptyError, hcol]
    rfl

/-- Whole columns below the last row fail alike where the last column is the greatest one. -/
theorem readAlike_of_below (hvalid : range.valid = true)
    (hsheet : range.first.sheet = range.last.sheet)
    (hvalid' : (range.fillUnset wb.sheetSize).valid = true)
    (hhas : wb.hasSheet range.first.sheet) (hrows : range.allRows = false)
    (hcols : range.allColumns = true) (hbelow : wb.sheetSize.row ≤ range.first.row)
    (hcolumns : wb.sheetSize.column = columnUnset + 1) :
    ReadAlike wb result range (range.fillUnset wb.sheetSize) := by
  obtain ⟨hfirst, -, hordered⟩ := AbsRange.valid_iff.mp hvalid
  obtain ⟨-, hr, hc, -, -⟩ := decide_eq_true_eq.mp hfirst
  obtain ⟨hcolFirst, hcolLast⟩ := decide_eq_true_eq.mp hcols
  obtain ⟨-, hlast, -⟩ := AbsRange.valid_iff.mp hvalid
  obtain ⟨-, -, -, hmax, -⟩ := decide_eq_true_eq.mp hlast
  obtain ⟨-, -, -, -, hcolumns'⟩ := AbsRange.valid_iff.mp hvalid'
  have hunset' : range.first.row ≠ rowUnset := by
    intro hrow
    have hrow' : range.last.row = rowUnset := Int.le_antisymm hmax (hrow ▸ hordered.2.1)
    rw [AbsRange.allRows, decide_eq_false_iff_not] at hrows
    exact hrows ⟨hrow, hrow'⟩
  have hlt : columnUnset < wb.sheetSize.column := hcolumns ▸ Int.lt_succ columnUnset
  have hpos : 0 < wb.sheetSize.column := Int.lt_of_le_of_lt (by decide) hlt
  have hrow : (range.fillUnset wb.sheetSize).first.row = range.first.row :=
    if_neg (hrows ▸ Bool.false_ne_true)
  have hcol : (range.fillUnset wb.sheetSize).first.column = 0 := if_pos hcols
  have hcol' : (range.fillUnset wb.sheetSize).last.column = wb.sheetSize.column - 1 :=
    if_pos hcols
  have hout {range' : AbsRange} (hr' : range'.first.row = range.first.row) :
      wb.inWorkbook range'.first = false := by
    rw [inWorkbook, decide_eq_false_iff_not, hr']
    exact fun hin ↦ Int.not_lt.mpr hbelow hin.2.2.2.2.2
  have hhas' : wb.hasSheet (range.fillUnset wb.sheetSize).first.sheet := hhas
  have hsheet' : (range.fillUnset wb.sheetSize).first.sheet =
      (range.fillUnset wb.sheetSize).last.sheet := hsheet
  refine readAlike_of_outside hvalid hsheet hvalid' (hout rfl) (hout hrow) (fun values ↦ ?_)
    (fun _ ↦ ?_) ?_
  · rw [run_countRange_of_below hsheet hhas hr hunset' hbelow hc hordered.2.2
        (hcolLast ▸ hlt),
      run_countRange_of_below hsheet' hhas' (hrow ▸ hr) (hrow ▸ hunset') (hrow ▸ hbelow)
        (hcol ▸ Int.le_refl 0) hcolumns' (hcol' ▸ Int.sub_one_lt_of_le (Int.le_refl _)), hrow]
  · have hfirst₁ : wb.hasColumn range.first.column := ⟨hc, hcolFirst ▸ hlt⟩
    have hfirst₂ : wb.hasColumn (0 : Int) := ⟨Int.le_refl 0, hpos⟩
    rw [walkError, walkError, hrow, hcol]
    simp only [hfirst₁, hfirst₂, true_and]
  · rw [emptyError_of_below hhas hpos, emptyError_of_below hhas' hpos, hcol,
      if_neg (hcolFirst ▸ Int.not_le.mpr hlt), if_neg (Int.not_le.mpr hpos)]

/-- Whole columns below the last row fail alike only where the last column is the greatest one: a
range that is past the last column fails in another way than one below the last row. -/
theorem column_eq_of_readAlike (hvalid : range.valid = true)
    (hvalid' : (range.fillUnset wb.sheetSize).valid = true)
    (h : ReadAlike wb result range (range.fillUnset wb.sheetSize))
    (hhas : wb.hasSheet range.first.sheet)
    (hout : wb.inWorkbook (range.fillUnset wb.sheetSize).first = false)
    (hcols : range.allColumns = true) (hbelow : wb.sheetSize.row ≤ range.first.row)
    (hpos : 0 < wb.sheetSize.column) : wb.sheetSize.column = columnUnset + 1 := by
  obtain ⟨hfirst, -, hordered⟩ := AbsRange.valid_iff.mp hvalid
  obtain ⟨hs, hr, hc, -, -⟩ := decide_eq_true_eq.mp hfirst
  obtain ⟨hfirst', hlast', hordered'⟩ := AbsRange.valid_iff.mp hvalid'
  obtain ⟨hs', hr', hc', -, -⟩ := decide_eq_true_eq.mp hfirst'
  obtain ⟨-, -, -, -, hle⟩ := decide_eq_true_eq.mp hlast'
  have hout' : wb.inWorkbook range.first = false := by
    rw [inWorkbook, decide_eq_false_iff_not]
    exact fun hin ↦ Int.not_lt.mpr hbelow hin.2.2.2.2.2
  have hempty := h.isEmpty
  have hhas' : wb.hasSheet (range.fillUnset wb.sheetSize).first.sheet := hhas
  have hcolumn : (range.fillUnset wb.sheetSize).first.column = 0 := if_pos hcols
  rw [run_isEmpty_of_outside hordered hs hr hc hout',
    run_isEmpty_of_outside hordered' hs' hr' hc' hout, emptyError_of_below hhas hpos,
    emptyError_of_below hhas' hpos, hcolumn, if_neg (Int.not_le.mpr hpos)] at hempty
  have hlt : columnUnset < wb.sheetSize.column := by
    by_contra hnot
    rw [(decide_eq_true_eq.mp hcols).1, if_pos (Int.not_lt.mp hnot)] at hempty
    exact absurd hempty (by decide)
  rw [AbsRange.fillUnset, hcols] at hle
  exact Int.le_antisymm (Int.le_add_of_sub_right_le hle) hlt

/-- Whole rows or columns of a sheet are the same to all readers exactly if they are a valid
range of cells none of which are there. -/
theorem readAlike_fillUnset_iff (result : FormulaCell → Except Failure FormulaResult)
    (hvalid : range.valid = true) (hsheet : range.first.sheet = range.last.sheet)
    (hunset : range.allRows = true ∨ range.allColumns = true) :
    ReadAlike wb result range (range.fillUnset wb.sheetSize) ↔
      (range.fillUnset wb.sheetSize).valid = true ∧
        (¬wb.hasSheet range.first.sheet ∨
          (range.allColumns = false ∧ wb.sheetSize.column ≤ range.first.column) ∨
          (range.allRows = false ∧ wb.sheetSize.row ≤ range.first.row ∧
            wb.sheetSize.column = columnUnset + 1)) := by
  constructor
  · intro h
    have hvalid' := h.valid hvalid hsheet hunset
    have hout := h.outside hvalid hunset
    refine ⟨hvalid', ?_⟩
    by_cases hhas : wb.hasSheet range.first.sheet
    · refine .inr ((columns_or_rows_of_outside hvalid hvalid' hunset hhas hout).imp_right ?_)
      rintro ⟨hrows, hcols, hbelow, hpos⟩
      exact ⟨hrows, hbelow, column_eq_of_readAlike hvalid hvalid' h hhas hout hcols hbelow hpos⟩
    · exact .inl hhas
  · rintro ⟨hvalid', h⟩
    by_cases hhas : wb.hasSheet range.first.sheet
    · obtain ⟨hcols, hpast⟩ | ⟨hrows, hbelow, hcolumns⟩ := h.resolve_left (not_not.mpr hhas)
      · have hrows : range.allRows = true := hunset.resolve_right (hcols ▸ Bool.false_ne_true)
        exact readAlike_of_past hvalid hsheet hvalid' hrows hcols hpast
      · have hcols : range.allColumns = true := hunset.resolve_left (hrows ▸ Bool.false_ne_true)
        exact readAlike_of_below hvalid hsheet hvalid' hhas hrows hcols hbelow hcolumns
    · exact readAlike_of_no_sheet hvalid hsheet hvalid' hhas

/-! ### A whole column with a number -/

theorem readAlike_fillUnset_iff_column :
    ReadAlike ModelContext.numberContext.toWorkbook (fun _ ↦ .ok (.value 0))
        ModelContext.numberRange
        (ModelContext.numberRange.fillUnset ModelContext.numberContext.sheetSize) ↔
      (ModelContext.numberRange.fillUnset ModelContext.numberContext.sheetSize).valid = true ∧
        (¬ModelContext.numberContext.hasSheet ModelContext.numberRange.first.sheet ∨
          (ModelContext.numberRange.allColumns = false ∧
            ModelContext.numberContext.sheetSize.column ≤
              ModelContext.numberRange.first.column) ∨
          (ModelContext.numberRange.allRows = false ∧
            ModelContext.numberContext.sheetSize.row ≤ ModelContext.numberRange.first.row ∧
            ModelContext.numberContext.sheetSize.column = columnUnset + 1)) :=
  readAlike_fillUnset_iff _ (by decide) (by decide) (.inl (by decide))

theorem not_readAlike_column :
    ¬ReadAlike ModelContext.numberContext.toWorkbook (fun _ ↦ .ok (.value 0))
      ModelContext.numberRange
      (ModelContext.numberRange.fillUnset ModelContext.numberContext.sheetSize) := by
  intro h
  exact absurd (h.outside (by decide) (.inl (by decide))) (by decide)

end Workbook

end Ixion
