import Ixion.Interp.Aggregates

/-!
# The middle of the arguments

MEDIAN collects the numbers that its arguments stand for and takes the one in the middle.  Where
there is none it takes the one before the first all the same (`takesMiddle_iff`).
-/

namespace Ixion

open Lib ValueStack

namespace FormulaFunctions

variable {f : FormulaFunctions} {result : FormulaCell → Except Exn FormulaResult}
  {args : List StackValue} {r : AbsRange} {sheet col : Int} {seq : List ℚ}

/-! ## Reading arguments -/

/-- Walking down a column of a sheet gets past its end before it meets a cell that cannot be
read. -/
structure RunsOutAt (f : FormulaFunctions) (result : FormulaCell → Except Exn FormulaResult)
    (r : AbsRange) (sheet col : Int) : Prop where
  column : f.workbook.hasColumn col
  first_nonneg : 0 ≤ r.first.row
  first_le : r.first.row ≤ f.workbook.sheetSize.row
  le_last : f.workbook.sheetSize.row ≤ r.last.row
  readable : ∀ a ∈ AbsRange.columnAddresses sheet col r.first.row (f.workbook.sheetSize.row - 1),
    f.Readable result a

/-- Walking through a range gets past the end of its first column. -/
structure RunsOut (f : FormulaFunctions) (result : FormulaCell → Except Exn FormulaResult)
    (r : AbsRange) : Prop extends RunsOutAt f result r r.first.sheet r.first.column where
  sheet : f.workbook.hasSheet r.first.sheet
  sheet_le : r.first.sheet ≤ r.last.sheet
  column_le : r.first.column ≤ r.last.column
  row_le : r.first.row ≤ r.last.row

/-- The numbers of an argument can be collected. -/
def ArgReadable (f : FormulaFunctions) (result : FormulaCell → Except Exn FormulaResult) :
    StackValue → Prop
  | .singleRef a => ∃ c, f.workbook.readCell result a = .ok c ∧ c.isMatrix = false
  | .rangeRef r => (∀ sheet ∈ countUp r.first.sheet r.last.sheet, f.workbook.hasSheet sheet) ∧
      ∀ a ∈ r.addresses, f.Readable result a
  | _ => True

/-- Collecting the numbers of an argument gets past the end of a column. -/
def ArgRunsOut (f : FormulaFunctions) (result : FormulaCell → Except Exn FormulaResult) :
    StackValue → Prop
  | .rangeRef r => f.RunsOut result r
  | _ => False

/-- The numbers of cells are appended, or one of the cells cannot be read. -/
theorem outcome_appendNumbers (l : List AbsAddress) (seq : List ℚ) :
    StepOutcome IsException .undefined (∀ a ∈ l, f.Readable result a) False
      (f.workbook.appendNumbers result l seq) (seq ++ f.numbers result l) := by
  rw [numbers, ← foldl_append_toList, Workbook.appendNumbers]
  refine (@outcome_foldlM _ _ _ _ _ _ (f.Readable result) (fun _ ↦ False) _ _ (fun a _ seq ↦ ?_)
    seq).congr Iff.rfl ?_
  · dsimp only
    rw [Readable]
    cases hread : f.workbook.readCell result a with
    | ok c => exact ⟨fun _ ↦ rfl, by rintro ⟨⟩, fun hno ↦ absurd ⟨c, rfl⟩ hno⟩
    | error e => exact ⟨by rintro ⟨c, ⟨⟩⟩, by rintro ⟨⟩, fun _ _ ↦ ⟨_, ⟨e, rfl⟩, rfl⟩⟩
  · constructor
    · rintro ⟨⟩
    · rintro ⟨_, _, _, _, _, hbad⟩
      exact hbad

/-- There are no cells past the end of a column. -/
theorem not_readable_of_le (hrow : r.first.row ≤ r.last.row)
    (hend : f.workbook.sheetSize.row ≤ r.last.row) :
    ¬∀ a ∈ AbsRange.columnAddresses sheet col r.first.row r.last.row, f.Readable result a := by
  intro hall
  have hlast := (hall ⟨sheet, r.last.row, col⟩
    (List.mem_map_of_mem (mem_countUp.mpr ⟨hrow, le_rfl⟩))).inWorkbook
  exact absurd (of_decide_eq_true hlast).2.2.2.2.2 (Int.not_lt.mpr hend)

/-- What comes of the numbers of a column. -/
theorem outcome_walkColumn (hsheet : f.workbook.hasSheet sheet) (hrow : r.first.row ≤ r.last.row)
    (seq : List ℚ) :
    StepOutcome IsException .undefined
      (∀ a ∈ AbsRange.columnAddresses sheet col r.first.row r.last.row, f.Readable result a)
      (f.RunsOutAt result r sheet col)
      ((f.workbook.walkColumn (appendSegment sheet) sheet col r.first.row r.last.row seq).run
        (f.workbook.answers result))
      (seq ++ f.numbers result (AbsRange.columnAddresses sheet col r.first.row r.last.row),
        true) := by
  by_cases hstart : f.workbook.hasColumn col ∧ 0 ≤ r.first.row ∧
      r.first.row ≤ f.workbook.sheetSize.row
  · obtain ⟨hcol, hfirst, hfirst'⟩ := hstart
    obtain ⟨haddresses, hcells⟩ := f.workbook.columnSegments_addresses sheet col r.first.row
      (min r.last.row (f.workbook.sheetSize.row - 1))
    have hinside : ∀ seg ∈ f.workbook.columnSegments sheet col r.first.row
        (min r.last.row (f.workbook.sheetSize.row - 1)), ∀ a ∈ seg.addresses sheet,
          f.workbook.inWorkbook a = true ∧ (f.workbook.cells a).type = seg.type := by
      intro seg hseg a ha
      obtain ⟨hmem, htype⟩ := hcells seg hseg a ha
      obtain ⟨row, hrow', rfl⟩ := List.mem_map.mp hmem
      have hrow' := mem_countUp.mp hrow'
      refine ⟨decide_eq_true ?_, htype⟩
      exact ⟨hsheet.1, hsheet.2, hcol.1, hcol.2, by dsimp only; omega, by dsimp only; omega⟩
    rw [Workbook.run_walkColumn hsheet hcol hfirst hfirst' hrow,
      Workbook.run_walkSegments_appendSegment hinside, haddresses]
    have hbind (x : Except Failure (List ℚ)) : (x.map (·, true) >>= fun p ↦
        if p.2 = true ∧ f.workbook.sheetSize.row ≤ r.last.row then .error .undefined else .ok p) =
          x >>= fun seq ↦ if f.workbook.sheetSize.row ≤ r.last.row then .error .undefined
            else .ok (seq, true) := by
      cases x with
      | error e => rfl
      | ok seq => exact if_congr (and_iff_right rfl) rfl rfl
    rw [hbind]
    by_cases hend : f.workbook.sheetSize.row ≤ r.last.row
    · -- the column ends before the range does
      have hmin : min r.last.row (f.workbook.sheetSize.row - 1) = f.workbook.sheetSize.row - 1 := by
        omega
      rw [hmin]
      refine (@StepOutcome.bind _ _ _ _ _ _ False True _ _ _ _ _
        (outcome_appendNumbers _ seq) fun _ ↦
        ⟨nofun, fun _ ↦ if_pos hend, nofun⟩).congr ?_ ?_
      · rw [and_false, iff_false]
        exact not_readable_of_le hrow hend
      · rw [and_true, false_or]
        exact ⟨fun h ↦ h.readable, fun h ↦ ⟨hcol, hfirst, hfirst', hend, h⟩⟩
    · have hmin : min r.last.row (f.workbook.sheetSize.row - 1) = r.last.row := by omega
      rw [hmin]
      refine (@StepOutcome.bind _ _ _ _ _ _ True False _ _ _ _ _
        (outcome_appendNumbers _ seq) fun _ ↦
        ⟨fun _ ↦ if_neg hend, nofun, fun hno ↦ absurd trivial hno⟩).congr ?_ ?_
      · rw [and_true]
      · rw [and_false, or_false, iff_false]
        exact fun h ↦ hend h.le_last
  · have hbad : ¬f.workbook.hasColumn col ∨ r.first.row < 0 ∨
        f.workbook.sheetSize.row < r.first.row := by
      by_contra hno
      rw [not_or, not_or, not_not, Int.not_lt, Int.not_lt] at hno
      exact hstart hno
    rw [Workbook.walkColumn, if_neg (Int.not_lt.mpr hrow), if_pos hbad]
    refine ⟨fun hall ↦ absurd ?_ hstart, fun h ↦
      absurd ⟨h.column, h.first_nonneg, h.first_le⟩ hstart,
      fun _ _ ↦ ⟨_, ⟨_, rfl⟩, rfl⟩⟩
    have hfirst := of_decide_eq_true (hall ⟨sheet, r.first.row, col⟩
      (List.mem_map_of_mem (mem_countUp.mpr ⟨le_rfl, hrow⟩))).inWorkbook
    exact ⟨⟨hfirst.2.2.1, hfirst.2.2.2.1⟩, hfirst.2.2.2.2.1, hfirst.2.2.2.2.2.le⟩

/-- The addresses of a range on one of its sheets. -/
def sheetAddresses (r : AbsRange) (sheet : Int) : List AbsAddress :=
  (countUp r.first.column r.last.column).flatMap fun col ↦
    AbsRange.columnAddresses sheet col r.first.row r.last.row

/-- The numbers of parts are those of the whole. -/
theorem foldl_numbers {α : Type} (part : α → List AbsAddress) (l : List α) (seq : List ℚ) :
    l.foldl (fun seq a ↦ seq ++ f.numbers result (part a)) seq =
      seq ++ f.numbers result (l.flatMap part) := by
  induction l generalizing seq with
  | nil => exact (List.append_nil seq).symm
  | cons a l ih => rw [List.foldl_cons, ih, List.flatMap_cons, numbers_append, List.append_assoc]

/-- Columns are walked through one after the other. -/
theorem run_walkColumns (hsheet : f.workbook.hasSheet sheet) (hrow : r.first.row ≤ r.last.row)
    (cols : List Int) (seq : List ℚ) :
    (f.workbook.walkColumns (appendSegment sheet) sheet r.first.row r.last.row cols seq).run
        (f.workbook.answers result) =
      cols.foldlM (fun seq col ↦ ((f.workbook.walkColumn (appendSegment sheet) sheet col r.first.row
        r.last.row seq).run (f.workbook.answers result)).map Prod.fst) seq := by
  induction cols generalizing seq with
  | nil => rfl
  | cons col cols ih =>
    have houtcome := @outcome_walkColumn _ result _ _ col hsheet hrow seq
    rw [Workbook.walkColumns, Query.run_bind, List.foldlM_cons]
    cases hwalk : (f.workbook.walkColumn (appendSegment sheet) sheet col r.first.row r.last.row
        seq).run (f.workbook.answers result) with
    | error e => rfl
    | ok p =>
      rw [houtcome.eq_of_ok hwalk]
      exact ih _

/-- Nothing is walked through where there are no rows. -/
theorem walkColumns_of_lt {β : Type} {cb : Workbook.ColumnBlockCallback β} {first last : Int}
    (h : last < first) (cols : List Int) (b : β) :
    f.workbook.walkColumns cb sheet first last cols b = Pure.pure b := by
  induction cols with
  | nil => rfl
  | cons col cols ih =>
    rw [Workbook.walkColumns, Workbook.walkColumn, if_pos h]
    exact ih

/-- What comes of the numbers of a sheet. -/
theorem outcome_walk (sheet : Int) (seq : List ℚ) :
    StepOutcome IsException .undefined
      (f.workbook.hasSheet sheet ∧ ∀ a ∈ sheetAddresses r sheet, f.Readable result a)
      (f.workbook.hasSheet sheet ∧ r.first.column ≤ r.last.column ∧ r.first.row ≤ r.last.row ∧
        f.RunsOutAt result r sheet r.first.column)
      ((f.workbook.walk sheet r (appendSegment sheet) seq).run (f.workbook.answers result))
      (seq ++ f.numbers result (sheetAddresses r sheet)) := by
  rw [Workbook.walk]
  by_cases hsheet : f.workbook.hasSheet sheet
  · rw [if_neg (not_not.mpr hsheet)]
    show StepOutcome _ _ _ _
      ((Workbook.walkColumns f.workbook (appendSegment sheet) sheet _ _ _ seq).run _) _
    by_cases hrow : r.first.row ≤ r.last.row
    · rw [run_walkColumns hsheet hrow, sheetAddresses, ← foldl_numbers]
      refine (outcome_foldlM (fun col _ seq ↦
        (@outcome_walkColumn _ _ _ _ col hsheet hrow seq).map Prod.fst) seq).congr ?_ ?_
      · rw [and_iff_right hsheet]
        exact List.forall_mem_flatMap
      · rw [firstBad_iff_head fun _ _ _ _ h ↦ not_readable_of_le hrow h.le_last,
          and_iff_right hsheet, and_iff_right hrow, exists_mem_head_countUp]
    · have hlt := Int.not_le.mp hrow
      have hnone : sheetAddresses r sheet = [] := by
        refine List.flatMap_eq_nil_iff.mpr fun col _ ↦ ?_
        rw [AbsRange.columnAddresses, countUp_eq_nil hlt]
        rfl
      rw [walkColumns_of_lt hlt, hnone]
      refine ⟨fun _ ↦ congrArg Except.ok (List.append_nil seq).symm, fun h ↦ absurd h.2.2.1 hrow,
        fun hno ↦ absurd ⟨hsheet, fun a ha ↦ absurd ha List.not_mem_nil⟩ hno⟩
  · rw [if_pos hsheet]
    exact ⟨fun h ↦ absurd h.1 hsheet, fun h ↦ absurd h.1 hsheet, fun _ _ ↦ ⟨_, ⟨_, rfl⟩, rfl⟩⟩

/-- What comes of the numbers of an argument. -/
theorem outcome_sequenceArg (v : StackValue) (seq : List ℚ) :
    StepOutcome IsException .undefined (f.ArgReadable result v) (f.ArgRunsOut result v)
      (f.sequenceArg result seq v) (seq ++ f.argNumbers result v) := by
  cases v with
  | rangeRef r =>
    have haddresses : r.addresses =
        (countUp r.first.sheet r.last.sheet).flatMap (sheetAddresses r) := rfl
    rw [sequenceArg, argNumbers, ArgReadable, ArgRunsOut, haddresses, ← foldl_numbers]
    refine (outcome_foldlM (fun sheet _ seq ↦ outcome_walk sheet seq) seq).congr ?_ ?_
    · rw [List.forall_mem_flatMap]
      exact ⟨fun h sheet hs ↦ ⟨h.1 sheet hs, h.2 sheet hs⟩,
        fun h ↦ ⟨fun sheet hs ↦ (h sheet hs).1, fun sheet hs ↦ (h sheet hs).2⟩⟩
    · rw [firstBad_iff_head, exists_mem_head_countUp]
      · refine ⟨fun h ↦ ⟨h.sheet_le, h.sheet, h.column_le, h.row_le, h.toRunsOutAt⟩, ?_⟩
        rintro ⟨hle, hsheet, hcol, hrow, h⟩
        exact ⟨h, hsheet, hle, hcol, hrow⟩
      · rintro sheet - sheet' - ⟨-, hcol, hrow, h⟩ ⟨-, hall⟩
        exact not_readable_of_le hrow h.le_last
          (List.forall_mem_flatMap.mp hall r.first.column (mem_countUp.mpr ⟨le_rfl, hcol⟩))
  | singleRef a =>
    rw [sequenceArg, Workbook.run_singleNumber, ArgReadable, argNumbers]
    cases hread : f.workbook.readCell result a with
    | error e =>
      exact ⟨by rintro ⟨c, ⟨⟩, _⟩, by rintro ⟨⟩, fun _ _ ↦ ⟨_, ⟨e, rfl⟩, rfl⟩⟩
    | ok c =>
      have hnumbers : f.numbers result [a] = c.number?.toList := by
        rw [numbers, List.filterMap_cons, hread]
        dsimp only
        cases c.number? <;> rfl
      rw [hnumbers]
      show StepOutcome _ _ _ _ (ofExn (c.single?.map _)) _
      rw [CellValue.single?]
      cases hmatrix : c.isMatrix with
      | false => exact ⟨fun _ ↦ rfl, by rintro ⟨⟩, fun hno ↦ absurd ⟨c, rfl, hmatrix⟩ hno⟩
      | true =>
        refine ⟨?_, by rintro ⟨⟩, fun _ _ ↦ ⟨_, ⟨_, rfl⟩, rfl⟩⟩
        rintro ⟨c', hc', hno⟩
        rw [← Except.ok.inj hc', hmatrix] at hno
        cases hno
  | value v => exact ⟨fun _ ↦ rfl, by rintro ⟨⟩, fun hno ↦ absurd trivial hno⟩
  | boolean b => exact ⟨fun _ ↦ rfl, by rintro ⟨⟩, fun hno ↦ absurd trivial hno⟩
  | string s => exact ⟨fun _ ↦ congrArg Except.ok (List.append_nil seq).symm, by rintro ⟨⟩,
      fun hno ↦ absurd trivial hno⟩
  | error e => exact ⟨fun _ ↦ congrArg Except.ok (List.append_nil seq).symm, by rintro ⟨⟩,
      fun hno ↦ absurd trivial hno⟩
  | matrix m => exact ⟨fun _ ↦ congrArg Except.ok (List.append_nil seq).symm, by rintro ⟨⟩,
      fun hno ↦ absurd trivial hno⟩

/-! ## The middle -/

/-- The number in the middle of a sorted list, or the mean of the two in the middle. -/
def middle (sorted : List ℚ) : ℚ :=
  if sorted.length % 2 = 1 then sorted.getD (sorted.length / 2) 0
  else (sorted.getD (sorted.length / 2 - 1) 0 + sorted.getD (sorted.length / 2) 0) / 2

theorem medianOf_of_ne_nil {sorted : List ℚ} (h : sorted ≠ []) :
    medianOf sorted = .ok (.value (middle sorted)) := by
  have hlength := List.length_pos_iff.mpr h
  rw [medianOf, middle]
  split
  case isTrue => rfl
  case isFalse =>
    rw [if_neg (by omega)]

/-- MEDIAN leaves the middle of the numbers that the arguments stand for, or there is no number and
it gives an error. -/
structure TakesMiddle (f : FormulaFunctions) (result : FormulaCell → Except Exn FormulaResult)
    (args : List StackValue) : Prop where
  middle : args.flatMap (f.argNumbers result) ≠ [] →
    ∀ sorted, sorted.Perm (args.flatMap (f.argNumbers result)) → sorted.Pairwise (· ≤ ·) →
      f.call result .funcMedian args = .ok [.value (middle sorted)]
  error : args.flatMap (f.argNumbers result) = [] → IsError (f.call result .funcMedian args)

/-- What comes of the middle of the numbers that arguments stand for. -/
theorem outcome_funcMedian (hargs : args ≠ []) :
    StepOutcome IsException .undefined
      ((∀ v ∈ args, f.ArgReadable result v) ∧ args.flatMap (f.argNumbers result) ≠ [])
      (FirstBad (f.ArgReadable result) (f.ArgRunsOut result) args.reverse ∨
        (∀ v ∈ args, f.ArgReadable result v) ∧ args.flatMap (f.argNumbers result) = [])
      (f.handle result .funcMedian args)
      ((), [.value (middle
        ((args.flatMap (f.argNumbers result)).mergeSort (· ≤ ·)))]) := by
  have hperm : (args.reverse.flatMap (f.argNumbers result)).Perm
      (args.flatMap (f.argNumbers result)) := args.reverse_perm.flatMap_right _
  have hcollect := outcome_foldlM (l := args.reverse)
    (fun v _ seq ↦ @outcome_sequenceArg f result v seq) []
  rw [← List.flatMap_eq_foldl] at hcollect
  rw [handle_funcMedian hargs, mergeSort_eq_of_perm hperm.symm]
  refine (@StepOutcome.bind _ _ _ _ _ _ (args.flatMap (f.argNumbers result) ≠ [])
    (args.flatMap (f.argNumbers result) = []) _ _ _ _ _ hcollect fun _ ↦ ?_).congr ?_ ?_
  · refine ⟨fun hne ↦ ?_, fun hnil ↦ ?_, fun hnil hne ↦ absurd hne hnil⟩
    · rw [medianOf_of_ne_nil fun hnil ↦ hne ?_]
      · rfl
      · have hlength := hperm.length_eq
        rw [← @List.length_mergeSort _ (· ≤ ·), hnil] at hlength
        exact List.length_eq_zero_iff.mp hlength.symm
    · rw [hnil] at hperm
      rw [hperm.eq_nil, List.mergeSort_nil]
      rfl
  · exact and_congr_left' (forall_congr' fun v ↦ by rw [List.mem_reverse])
  · exact or_congr_right (and_congr_left' (forall_congr' fun v ↦ by rw [List.mem_reverse]))

end FormulaFunctions

end Ixion
