import Ixion.Interp.Numbers
import Ixion.Interp.WholeRange

/-!
# Numbers in ranges

A range is read cell by cell, whatever it is read for: the numbers of a matrix, what is counted
and what is collected while walking are loops over the cells, in an order of their own.
-/

namespace Ixion

open Lib

/-! ## The cells of a range -/

namespace AbsRange

/-- A range of rows and columns of a sheet. -/
structure InSheet (r : AbsRange) (wb : Workbook) : Prop where
  single : r.first.sheet = r.last.sheet
  sheet : wb.hasSheet r.first.sheet
  row_nonneg : 0 ≤ r.first.row
  row_le : r.first.row ≤ r.last.row
  row_lt : r.last.row < wb.sheetSize.row
  column_nonneg : 0 ≤ r.first.column
  column_le : r.first.column ≤ r.last.column
  column_lt : r.last.column < wb.sheetSize.column

/-- A range of set rows and columns of a sheet. -/
structure Inside (r : AbsRange) (wb : Workbook) : Prop extends InSheet r wb where
  row_set : r.last.row < rowUnset
  column_set : r.last.column < columnUnset

variable {r : AbsRange} {wb : Workbook}

/-- The addresses of the cells of a sheet's column. -/
def columnAddresses (sheet col first last : Int) : List AbsAddress :=
  (countUp first last).map fun row ↦ ⟨sheet, row, col⟩

/-- The cells of a range of a single sheet. -/
theorem addresses_of_single (h : r.first.sheet = r.last.sheet) :
    r.addresses = (countUp r.first.column r.last.column).flatMap fun col ↦
      columnAddresses r.first.sheet col r.first.row r.last.row := by
  rw [addresses, ← h, countUp_cons (Int.le_refl _), countUp_eq_nil (Int.lt_succ _),
    List.flatMap_singleton]
  rfl

/-- The cells of a range inside a sheet are in the workbook. -/
theorem InSheet.inWorkbook (h : r.InSheet wb) {a : AbsAddress} (ha : a ∈ r.addresses) :
    wb.inWorkbook a = true := by
  rw [mem_addresses, contains_iff] at ha
  obtain ⟨h₁, h₂, h₃, h₄, h₅, h₆⟩ := ha
  rw [← h.single] at h₂
  obtain ⟨hs, hs'⟩ := h.sheet
  exact decide_eq_true ⟨hs.trans h₁, Int.lt_of_le_of_lt h₂ hs', h.column_nonneg.trans h₅,
    Int.lt_of_le_of_lt h₆ h.column_lt, h.row_nonneg.trans h₃, Int.lt_of_le_of_lt h₄ h.row_lt⟩

theorem InSheet.ordered (h : r.InSheet wb) : r.Ordered :=
  ⟨h.single.le, h.row_le, h.column_le⟩

theorem Inside.valid (h : r.Inside wb) : r.valid = true := by
  have hrow := h.row_le
  have hcol := h.column_le
  refine valid_iff.mpr ⟨decide_eq_true ?_, decide_eq_true ?_, h.ordered⟩
  · exact ⟨h.sheet.1, h.row_nonneg, h.column_nonneg, hrow.trans h.row_set.le,
      hcol.trans h.column_set.le⟩
  · exact ⟨h.single ▸ h.sheet.1, h.row_nonneg.trans hrow, h.column_nonneg.trans hcol,
      h.row_set.le, h.column_set.le⟩

/-- A single cell as a range. -/
theorem addresses_toRange (a : AbsAddress) : a.toRange.addresses = [a] := by
  rw [addresses_of_single rfl, AbsAddress.toRange_first, AbsAddress.toRange_last,
    countUp_cons (Int.le_refl _), countUp_eq_nil (Int.lt_succ _), List.flatMap_singleton,
    columnAddresses, countUp_cons (Int.le_refl _), countUp_eq_nil (Int.lt_succ _)]
  rfl

/-- Nothing is replaced in a range of set rows and columns. -/
theorem Inside.fillUnset (h : r.Inside wb) : r.fillUnset wb.sheetSize = r := by
  have hrows : r.allRows = false := by
    rw [allRows, decide_eq_false_iff_not]
    exact fun hall ↦ h.row_set.ne hall.2
  have hcols : r.allColumns = false := by
    rw [allColumns, decide_eq_false_iff_not]
    exact fun hall ↦ h.column_set.ne hall.2
  rw [AbsRange.fillUnset, hrows, hcols]
  rfl

/-- A range of set rows is counted as it is. -/
theorem Inside.clipRange (h : r.Inside wb) : Workbook.clipRange r wb.sheetSize = r := by
  have hfirst : r.first.row ≠ rowUnset := (Int.lt_of_le_of_lt h.row_le h.row_set).ne
  rw [Workbook.clipRange, if_neg hfirst, if_neg h.row_set.ne]

/-- A cell of a range inside a sheet is inside it. -/
theorem Inside.toRange (h : r.Inside wb) {a : AbsAddress} (ha : a ∈ r.addresses) :
    a.toRange.Inside wb := by
  rw [mem_addresses, contains_iff] at ha
  obtain ⟨h₁, h₂, h₃, h₄, h₅, h₆⟩ := ha
  have hsheet : r.first.sheet = a.sheet := le_antisymm h₁ (h.single ▸ h₂)
  refine ⟨⟨rfl, ?_, h.row_nonneg.trans h₃, Int.le_refl _, Int.lt_of_le_of_lt h₄ h.row_lt,
    h.column_nonneg.trans h₅, Int.le_refl _, Int.lt_of_le_of_lt h₆ h.column_lt⟩,
    Int.lt_of_le_of_lt h₄ h.row_set, Int.lt_of_le_of_lt h₆ h.column_set⟩
  rw [AbsAddress.toRange_first, ← hsheet]
  exact h.sheet

/-- The positions of a matrix of the size of a range, row by row. -/
def positions (r : AbsRange) : List (Nat × Nat) :=
  (List.range (r.last.row - r.first.row + 1).toNat).flatMap fun i ↦
    (List.range (r.last.column - r.first.column + 1).toNat).map fun j ↦ (i, j)

/-- The cell at a position of the matrix. -/
def cellAt (r : AbsRange) (p : Nat × Nat) : AbsAddress :=
  ⟨r.first.sheet, (p.1 : Int) + r.first.row, (p.2 : Int) + r.first.column⟩

theorem mem_positions {p : Nat × Nat} :
    p ∈ r.positions ↔ p.1 < (r.last.row - r.first.row + 1).toNat ∧
      p.2 < (r.last.column - r.first.column + 1).toNat := by
  obtain ⟨i, j⟩ := p
  rw [positions, List.mem_flatMap]
  constructor
  · rintro ⟨i', hi', hmem⟩
    obtain ⟨j', hj', heq⟩ := List.mem_map.mp hmem
    obtain ⟨rfl, rfl⟩ := Prod.mk.inj heq
    exact ⟨List.mem_range.mp hi', List.mem_range.mp hj'⟩
  · rintro ⟨hi, hj⟩
    exact ⟨i, List.mem_range.mpr hi, List.mem_map.mpr ⟨j, List.mem_range.mpr hj, rfl⟩⟩

theorem cellAt_injective : Function.Injective r.cellAt := by
  rintro ⟨i, j⟩ ⟨i', j'⟩ h
  obtain ⟨-, hrow, hcol⟩ := AbsAddress.mk.inj h
  exact Prod.ext (Int.ofNat.inj (add_right_cancel hrow))
    (Int.ofNat.inj (add_right_cancel hcol))

theorem nodup_positions : r.positions.Nodup := by
  rw [positions, List.nodup_flatMap]
  constructor
  · intro i _
    exact List.nodup_range.map fun _ _ h ↦ congrArg Prod.snd h
  · refine List.nodup_range.imp fun {i i'} hne p h h' ↦ hne ?_
    obtain ⟨j, -, rfl⟩ := List.mem_map.mp h
    obtain ⟨j', -, h'⟩ := List.mem_map.mp h'
    exact (congrArg Prod.fst h').symm

/-- Row by row the cells are the same as column by column. -/
theorem map_cellAt_perm (h : r.first.sheet = r.last.sheet) :
    (r.positions.map r.cellAt).Perm r.addresses := by
  refine (List.perm_ext_iff_of_nodup (nodup_positions.map cellAt_injective)
    r.nodup_addresses).mpr fun a ↦ ?_
  rw [mem_addresses, contains_iff, List.mem_map]
  constructor
  · rintro ⟨p, hp, rfl⟩
    obtain ⟨hi, hj⟩ := mem_positions.mp hp
    dsimp only [cellAt]
    omega
  · rintro ⟨h₁, h₂, h₃, h₄, h₅, h₆⟩
    refine ⟨((a.row - r.first.row).toNat, (a.column - r.first.column).toNat),
      mem_positions.mpr ⟨?_, ?_⟩, ?_⟩
    · dsimp only
      omega
    · dsimp only
      omega
    · obtain ⟨sheet, row, col⟩ := a
      dsimp only at h₁ h₂ h₃ h₄ h₅ h₆
      rw [cellAt, AbsAddress.mk.injEq]
      dsimp only
      omega

end AbsRange

/-! ## Matrices of numbers -/

namespace Matrix

variable {m : Matrix}

/-- A matrix has some numbers. -/
structure Holds (m : Matrix) (rows cols : Nat) (value : Nat × Nat → ℚ) (l : List (Nat × Nat)) :
    Prop where
  rowSize : m.rowSize = rows
  colSize : m.colSize = cols
  get : ∀ p ∈ l, m.get p.1 p.2 = .numeric (value p)

/-- Numbers that are set are there. -/
theorem holds_foldl_set {rows cols : Nat} (value : Nat × Nat → ℚ) {l l' : List (Nat × Nat)}
    (hl : ∀ p ∈ l, p.1 < rows ∧ p.2 < cols) (hl' : ∀ p ∈ l', p.1 < rows ∧ p.2 < cols)
    (h : m.Holds rows cols value l') :
    (l.foldl (fun m p ↦ m.set p.1 p.2 (.numeric (value p))) m).Holds rows cols value (l' ++ l) := by
  induction l generalizing m l' with
  | nil =>
    rw [List.append_nil]
    exact h
  | cons p l ih =>
    obtain ⟨hi, hj⟩ := hl p List.mem_cons_self
    have hstep : (m.set p.1 p.2 (.numeric (value p))).Holds rows cols value (l' ++ [p]) := by
      refine ⟨h.rowSize, h.colSize, fun q hq ↦ ?_⟩
      rcases eq_or_ne p q with rfl | hne
      · exact get_set_self (h.rowSize ▸ hi) (h.colSize ▸ hj) _
      · have hmem : q ∈ l' :=
          (List.mem_append.mp hq).resolve_right fun h ↦ hne (List.mem_singleton.mp h).symm
        rw [get_set_of_ne (h.colSize ▸ hj) (h.colSize ▸ (hl' q hmem).2)
          fun h ↦ hne (Prod.ext h.1 h.2)]
        exact h.get q hmem
    have hrest := ih (fun q hq ↦ hl q (List.mem_cons_of_mem p hq)) (fun q hq ↦ ?_) hstep
    · rw [List.append_assoc] at hrest
      exact hrest
    · rcases List.mem_append.mp hq with hq | hq
      · exact hl' q hq
      · rw [List.mem_singleton.mp hq]
        exact ⟨hi, hj⟩

/-- The sum of a matrix of numbers. -/
theorem Holds.sum {r : AbsRange} {value : Nat × Nat → ℚ}
    (h : m.Holds (r.last.row - r.first.row + 1).toNat (r.last.column - r.first.column + 1).toNat
      value r.positions) :
    FormulaFunctions.sumMatrixElements m = .ok (r.positions.map value).sum := by
  have hfold : FormulaFunctions.sumMatrixElements m =
      gather (fun p : Nat × Nat ↦ m.getNumeric p.1 p.2) (fun sum _ v ↦ sum + v) r.positions 0 := by
    rw [gather, AbsRange.positions, foldlM_flatMap, FormulaFunctions.sumMatrixElements, h.rowSize,
      h.colSize]
    refine congrArg (fun g ↦ List.foldlM g 0 _) (funext fun sum ↦ funext fun i ↦ ?_)
    rw [List.foldlM_map]
    rfl
  have hread (p : Nat × Nat) (hp : p ∈ r.positions) : m.getNumeric p.1 p.2 = .ok (value p) := by
    obtain ⟨hi, hj⟩ := AbsRange.mem_positions.mp hp
    rw [getNumeric, get?_of_lt (h.rowSize ▸ hi) (h.colSize ▸ hj), h.get p hp]
    rfl
  rw [hfold, gather_eq_ok hread, foldl_add_eq, zero_add]

/-- A number of a range is added and counted. -/
theorem Holds.average_step {r : AbsRange} {value : Nat × Nat → ℚ}
    (h : m.Holds (r.last.row - r.first.row + 1).toNat (r.last.column - r.first.column + 1).toNat
      value r.positions) (b : ℚ × ℚ) {p : Nat × Nat} (hp : p ∈ r.positions) :
    (do match ← m.get? p.1 p.2 with
        | .numeric _ | .boolean _ => return (b.1 + (← m.getNumeric p.1 p.2), b.2 + 1)
        | _ => return (b.1, b.2) : Except Exn (ℚ × ℚ)) = .ok (b.1 + value p, b.2 + 1) := by
  obtain ⟨hi, hj⟩ := AbsRange.mem_positions.mp hp
  rw [getNumeric, get?_of_lt (h.rowSize ▸ hi) (h.colSize ▸ hj), h.get p hp]
  rfl

/-- The sum of a matrix of numbers, and how many there are. -/
theorem Holds.average {r : AbsRange} {value : Nat × Nat → ℚ}
    (h : m.Holds (r.last.row - r.first.row + 1).toNat (r.last.column - r.first.column + 1).toNat
      value r.positions) (ret count : ℚ) :
    FormulaFunctions.averageMatrix m ret count =
      .ok (ret + (r.positions.map value).sum, count + r.positions.length) := by
  rw [← foldl_add_count_eq value r.positions (ret, count),
    ← foldlM_eq_ok fun b p hp ↦ h.average_step b hp,
    AbsRange.positions, foldlM_flatMap, FormulaFunctions.averageMatrix, h.rowSize, h.colSize]
  refine congrArg (fun g ↦ List.foldlM g (ret, count) _) (funext fun b ↦ funext fun i ↦ ?_)
  exact Eq.symm List.foldlM_map

end Matrix

/-! ## Reading ranges -/

namespace Workbook

variable {wb : Workbook} {result : FormulaCell → Except Exn FormulaResult} {r : AbsRange}

/-- What a cell is read as when a number is wanted. -/
def readNumber (wb : Workbook) (result : FormulaCell → Except Exn FormulaResult) (a : AbsAddress) :
    Except Exn ℚ :=
  wb.readCell result a >>= CellValue.readNumber

/-- The numbers of a range are read row by row. -/
theorem run_rangeMatrix :
    (rangeMatrix r).run (wb.answers result) =
      gather (fun p ↦ ofExn (wb.readNumber result (r.cellAt p)))
        (fun m p v ↦ m.set p.1 p.2 (.numeric v)) r.positions
        (Matrix.new (r.last.row - r.first.row + 1).toNat
          (r.last.column - r.first.column + 1).toNat) := by
  rw [gather, AbsRange.positions, foldlM_flatMap, rangeMatrix, Query.run_foldlM]
  refine congrArg (fun g ↦ List.foldlM g _ _) (funext fun m ↦ funext fun i ↦ ?_)
  rw [Query.run_foldlM, List.foldlM_map]
  refine congrArg (fun g ↦ List.foldlM g _ _) (funext fun m ↦ funext fun j ↦ ?_)
  rw [Query.run_bind, run_getNumericValue]
  show (ofExn (wb.readNumber result (r.cellAt (i, j))) >>= fun v ↦ _) = _
  cases wb.readNumber result (r.cellAt (i, j)) <;> rfl

/-- A loop whose readings succeed. -/
theorem gather_ofExn_eq_ok {α β γ : Type} {read : α → Except Exn γ} {put : β → α → γ → β}
    {value : α → γ} {l : List α} (h : ∀ a ∈ l, read a = .ok (value a)) (b : β) :
    gather (fun a ↦ ofExn (read a)) put l b = .ok (l.foldl (fun b a ↦ put b a (value a)) b) := by
  refine gather_eq_ok (fun a ha ↦ ?_) b
  rw [h a ha]
  rfl

/-- A loop with a reading that throws an exception. -/
theorem gather_ofExn_eq_error {α β γ : Type} (read : α → Except Exn γ) (put : β → α → γ → β)
    {l : List α} (h : ∃ a ∈ l, ∃ e, read a = .error e) (b : β) :
    ∃ e, gather (fun a ↦ ofExn (read a)) put l b = .error (.exception e) := by
  obtain ⟨a, ha, e, he⟩ := h
  have hfails : ∃ a ∈ l, ∃ e', ofExn (read a) = .error e' ∧
      gather (fun a ↦ ofExn (read a)) put l b = .error e' :=
    gather_eq_error put ⟨a, ha, .exception e, by rw [he]; rfl⟩ b
  obtain ⟨a', -, e', he', hgather⟩ := hfails
  rw [hgather]
  cases hread : read a' with
  | ok v =>
    rw [hread] at he'
    exact nomatch he'
  | error e'' =>
    rw [hread] at he'
    exact ⟨e'', congrArg Except.error (Except.error.inj he').symm⟩

/-- A range of cells that can be read as numbers makes a matrix of them. -/
theorem exists_run_rangeMatrix (hsingle : r.first.sheet = r.last.sheet) {number : AbsAddress → ℚ}
    (h : ∀ a ∈ r.addresses, wb.readNumber result a = .ok (number a)) :
    ∃ m : Matrix, (rangeMatrix r).run (wb.answers result) = .ok m ∧
      m.Holds (r.last.row - r.first.row + 1).toNat (r.last.column - r.first.column + 1).toNat
        (number ∘ r.cellAt) r.positions := by
  have hread : ∀ p ∈ r.positions,
      wb.readNumber result (r.cellAt p) = .ok ((number ∘ r.cellAt) p) := fun p hp ↦
    h (r.cellAt p) ((AbsRange.map_cellAt_perm hsingle).mem_iff.mp (List.mem_map_of_mem hp))
  refine ⟨_, run_rangeMatrix.trans (gather_ofExn_eq_ok hread _), ?_⟩
  have hnew : (Matrix.new (r.last.row - r.first.row + 1).toNat
      (r.last.column - r.first.column + 1).toNat).Holds (r.last.row - r.first.row + 1).toNat
        (r.last.column - r.first.column + 1).toNat (number ∘ r.cellAt) [] :=
    ⟨rfl, rfl, fun p hp ↦ nomatch hp⟩
  refine Matrix.holds_foldl_set (number ∘ r.cellAt) (fun p hp ↦ AbsRange.mem_positions.mp hp) ?_
    hnew
  exact fun p hp ↦ nomatch hp

/-- A range with a cell that cannot be read as a number makes no matrix. -/
theorem run_rangeMatrix_of_error (hsingle : r.first.sheet = r.last.sheet)
    (h : ∃ a ∈ r.addresses, ∃ e, wb.readNumber result a = .error e) :
    ∃ e, (rangeMatrix r).run (wb.answers result) = .error (.exception e) := by
  obtain ⟨a, ha, e, he⟩ := h
  obtain ⟨p, hp, rfl⟩ := List.mem_map.mp ((AbsRange.map_cellAt_perm hsingle).mem_iff.mpr ha)
  rw [run_rangeMatrix]
  exact gather_ofExn_eq_error _ _ ⟨p, hp, e, he⟩ _

/-- The numbers at the positions of a matrix are those of the cells. -/
theorem sum_positions (hsingle : r.first.sheet = r.last.sheet) (number : AbsAddress → ℚ) :
    (r.positions.map (number ∘ r.cellAt)).sum = (r.addresses.map number).sum := by
  rw [← List.map_map]
  exact ((AbsRange.map_cellAt_perm hsingle).map number).sum_eq

theorem length_positions (hsingle : r.first.sheet = r.last.sheet) :
    r.positions.length = r.addresses.length := by
  rw [← List.length_map r.cellAt]
  exact (AbsRange.map_cellAt_perm hsingle).length_eq

/-! ## Counting -/

/-- What a cell counts for. -/
def countCellValue (values : Values) (c : CellValue) : ℚ :=
  if c.valueT?.any values.has then 1 else 0

/-- What a cell is counted as. -/
def readCount (wb : Workbook) (result : FormulaCell → Except Exn FormulaResult) (values : Values)
    (a : AbsAddress) : Except Exn ℚ :=
  (wb.readCell result a).map (countCellValue values)

/-- The cells of a range are counted column by column. -/
theorem run_countRange {range : AbsRange} (hclip : clipRange range wb.sheetSize = r)
    (h : r.InSheet wb) (values : Values) :
    (wb.countRange range values).run (wb.answers result) =
      gather (fun a ↦ ofExn (wb.readCount result values a))
        (fun ret _ v ↦ ret + v) r.addresses 0 := by
  have hlast : ¬(r.last.sheet < 0 ∨ (wb.sheets.length : Int) ≤ r.last.sheet) := by
    rw [← h.single]
    rintro (hlt | hle)
    · exact Int.not_lt.mpr h.sheet.1 hlt
    · exact Int.not_lt.mpr hle h.sheet.2
  have hcount (ret : ℚ) (a : AbsAddress) (ha : a ∈ r.addresses) :
      (countCell values ret a).run (wb.answers result) =
        (ofExn (wb.readCount result values a)).map (ret + ·) := by
    rw [run_countCell (h.inWorkbook ha), readCount]
    cases wb.readCell result a with
    | error e => rfl
    | ok c =>
      show Except.ok (if _ then ret + 1 else ret) = Except.ok (ret + if _ then 1 else 0)
      split
      case isTrue => rfl
      case isFalse => rw [add_zero]
  rw [countRange, h.sheet.isEmpty, if_neg Bool.false_ne_true]
  dsimp only
  rw [hclip, if_neg hlast, ← h.single, countUp_cons (Int.le_refl _),
    countUp_eq_nil (Int.lt_succ _), List.foldlM_cons, if_neg (not_not.mpr h.sheet), Query.run_bind,
    Query.run_foldlM]
  have hcolumns : (countUp r.first.column r.last.column).foldlM (fun ret col ↦
      (do if ¬wb.hasColumn col then Reader.ofExcept (.error .outOfRange)
          wb.countColumn values r.first.sheet col r.first.row r.last.row ret : Reader ℚ).run
        (wb.answers result)) 0 =
      gather (fun a ↦ ofExn (wb.readCount result values a))
        (fun ret _ v ↦ ret + v) r.addresses 0 := by
    rw [gather, AbsRange.addresses_of_single h.single, foldlM_flatMap]
    refine foldlM_congr (fun ret col hcol ↦ ?_) 0
    have hcol' := mem_countUp.mp hcol
    have hfirst := Int.lt_of_le_of_lt h.row_le h.row_lt
    rw [if_neg (not_not.mpr ⟨h.column_nonneg.trans hcol'.1,
        Int.lt_of_le_of_lt hcol'.2 h.column_lt⟩), countColumn,
      if_neg (not_or.mpr ⟨Int.not_lt.mpr h.row_nonneg, Int.not_lt.mpr hfirst.le⟩),
      if_neg hfirst.ne, if_neg (Int.not_lt.mpr h.row_le),
      Int.min_eq_left (Int.le_sub_one_of_lt h.row_lt), Query.run_foldlM,
      AbsRange.columnAddresses, List.foldlM_map]
    refine foldlM_congr (fun ret row hrow ↦ hcount ret _ ?_) ret
    rw [AbsRange.addresses_of_single h.single]
    exact List.mem_flatMap.mpr ⟨col, hcol, List.mem_map_of_mem hrow⟩
  exact (congrArg (fun x : Except Failure ℚ ↦ x >>= _) hcolumns).trans (bind_pure _)

/-! ## Walking -/

/-- The rows of a segment, each with the column and the type. -/
def Segment.labelled (seg : Segment) : List (Int × Int × CellType) :=
  (countUp seg.row1 seg.row2).map fun row ↦ (row, seg.col, seg.type)

/-- The rows of a column with their types. -/
def labelledColumn (col row : Int) : List CellType → List (Int × Int × CellType)
  | [] => []
  | type :: types => (row, col, type) :: labelledColumn col (row + 1) types

theorem Segment.labelled_cons {seg : Segment} (h : seg.row1 ≤ seg.row2) :
    seg.labelled =
      (seg.row1, seg.col, seg.type) :: { seg with row1 := seg.row1 + 1 : Segment }.labelled := by
  rw [labelled, countUp_cons h]
  rfl

/-- A segment of one row. -/
theorem Segment.labelled_single (col row : Int) (type : CellType) :
    (⟨col, row, row, type⟩ : Segment).labelled = [(row, col, type)] := by
  rw [labelled_cons (Int.le_refl row), labelled, countUp_eq_nil (Int.lt_succ row)]
  rfl

/-- The segments of a column make it up, and the first of them starts with it. -/
theorem labelled_segments (col row : Int) (types : List CellType) :
    (segments col row types).flatMap Segment.labelled = labelledColumn col row types ∧
      ∀ seg ∈ (segments col row types).head?,
        seg.row1 = row ∧ seg.col = col ∧ seg.row1 ≤ seg.row2 := by
  induction types generalizing row with
  | nil => exact ⟨rfl, fun seg h ↦ nomatch h⟩
  | cons type types ih =>
    obtain ⟨hflat, hhead⟩ := ih (row + 1)
    rw [segments, labelledColumn, ← hflat]
    cases hsegs : segments col (row + 1) types with
    | nil =>
      refine ⟨congrArg (· ++ []) (Segment.labelled_single col row type), fun seg h ↦ ?_⟩
      obtain rfl := Option.some.inj h
      exact ⟨rfl, rfl, Int.le_refl row⟩
    | cons seg segs =>
      rw [hsegs] at hhead
      obtain ⟨hrow, hcol, hle⟩ := hhead seg rfl
      dsimp only
      split
      case isTrue htype =>
        have hle' : row ≤ seg.row2 := by omega
        refine ⟨?_, fun seg' h ↦ ?_⟩
        · obtain ⟨segCol, segRow1, segRow2, segType⟩ := seg
          obtain rfl : segRow1 = row + 1 := hrow
          obtain rfl : segCol = col := hcol
          obtain rfl : segType = type := htype
          rw [List.flatMap_cons, Segment.labelled_cons hle']
          rfl
        · obtain rfl := Option.some.inj h
          exact ⟨rfl, hcol, hle'⟩
      case isFalse =>
        refine ⟨congrArg (· ++ (seg :: segs).flatMap Segment.labelled)
          (Segment.labelled_single col row type), fun seg' h ↦ ?_⟩
        obtain rfl := Option.some.inj h
        exact ⟨rfl, rfl, Int.le_refl row⟩

/-- The types of the cells of a column, each with its row. -/
theorem labelledColumn_map (col first last : Int) (type : Int → CellType) :
    labelledColumn col first ((countUp first last).map type) =
      (countUp first last).map fun row ↦ (row, col, type row) := by
  induction hn : (last + 1 - first).toNat generalizing first with
  | zero =>
    rw [countUp_eq_nil (by omega)]
    rfl
  | succ n ih =>
    rw [countUp_cons (by omega), List.map_cons, labelledColumn, ih (first + 1) (by omega)]
    rfl

/-- The numbers in the cells of a range. -/
def appendNumbers (wb : Workbook) (result : FormulaCell → Except Exn FormulaResult) :
    List AbsAddress → List ℚ → Except Failure (List ℚ) :=
  gather (fun a ↦ ofExn ((wb.readCell result a).map CellValue.number?)) fun seq _ v ↦
    seq ++ v.toList

/-- The numbers of a segment are appended. -/
theorem run_appendSegment {sheet : Int} {seg : Segment}
    (h : ∀ a ∈ seg.addresses sheet, wb.inWorkbook a = true ∧ (wb.cells a).type = seg.type)
    (seq : List ℚ) :
    (FormulaFunctions.appendSegment sheet seg seq).run (wb.answers result) =
      (wb.appendNumbers result (seg.addresses sheet) seq).map (·, true) := by
  have hread (a : AbsAddress) (ha : a ∈ seg.addresses sheet) :
      (FormulaFunctions.blockNumber seg.type a).run (wb.answers result) =
        ofExn ((wb.readCell result a).map CellValue.number?) := by
    rw [← (h a ha).2]
    exact run_blockNumber (h a ha).1
  rw [FormulaFunctions.appendSegment, Query.run_bind, Query.run_mapM, appendNumbers,
    ← map_mapM_eq_gather Option.toList hread]
  cases (seg.addresses sheet).mapM fun a ↦
      (FormulaFunctions.blockNumber seg.type a).run (wb.answers result) with
  | error e => rfl
  | ok vs =>
    show Except.ok (seq ++ vs.filterMap id, true) =
      Except.ok (seq ++ vs.flatMap Option.toList, true)
    rw [List.filterMap_eq_flatMap_toList]
    rfl

/-- The numbers of segments are appended one segment after the other. -/
theorem run_walkSegments_appendSegment {sheet : Int} {segs : List Segment}
    (h : ∀ seg ∈ segs, ∀ a ∈ seg.addresses sheet,
      wb.inWorkbook a = true ∧ (wb.cells a).type = seg.type) (seq : List ℚ) :
    (walkSegments (FormulaFunctions.appendSegment sheet) segs seq).run (wb.answers result) =
      (wb.appendNumbers result (segs.flatMap (·.addresses sheet)) seq).map (·, true) := by
  induction segs generalizing seq with
  | nil => rfl
  | cons seg segs ih =>
    rw [walkSegments, Query.run_bind, run_appendSegment (h seg List.mem_cons_self),
      List.flatMap_cons,
      appendNumbers, gather_append, ← appendNumbers]
    cases wb.appendNumbers result (seg.addresses sheet) seq with
    | error e => rfl
    | ok seq' => exact ih (fun seg' hseg' ↦ h seg' (List.mem_cons_of_mem seg hseg')) seq'

/-- The addresses of a segment are those of its rows. -/
theorem Segment.addresses_eq (seg : Segment) (sheet : Int) :
    seg.addresses sheet = seg.labelled.map fun x ↦ ⟨sheet, x.1, x.2.1⟩ := by
  rw [labelled, List.map_map]
  rfl

/-- The segments between two rows of a column have its cells, with their types. -/
theorem segments_countUp (sheet col first last : Int) (type : Int → CellType) :
    (segments col first ((countUp first last).map type)).flatMap (·.addresses sheet) =
        AbsRange.columnAddresses sheet col first last ∧
      ∀ seg ∈ segments col first ((countUp first last).map type), ∀ a ∈ seg.addresses sheet,
        a ∈ AbsRange.columnAddresses sheet col first last ∧ type a.row = seg.type := by
  have hflat := (labelled_segments col first ((countUp first last).map type)).1
  rw [labelledColumn_map] at hflat
  constructor
  · simp only [Segment.addresses_eq]
    rw [← List.map_flatMap, hflat, List.map_map]
    rfl
  · intro seg hseg a ha
    obtain ⟨x, hx, rfl⟩ := List.mem_map.mp (Segment.addresses_eq seg sheet ▸ ha)
    have hmem : x ∈ (countUp first last).map fun row ↦ (row, col, type row) :=
      hflat ▸ List.mem_flatMap.mpr ⟨seg, hseg, hx⟩
    obtain ⟨row, hrow, rfl⟩ := List.mem_map.mp hmem
    obtain ⟨row', -, hlabel⟩ := List.mem_map.mp hx
    refine ⟨List.mem_map_of_mem hrow, ?_⟩
    exact (congrArg (fun x : Int × Int × CellType ↦ x.2.2) hlabel).symm

/-- The segments of a column between two rows. -/
def columnSegments (wb : Workbook) (sheet col first last : Int) : List Segment :=
  segments col first ((countUp first last).map fun row ↦ (wb.cells ⟨sheet, row, col⟩).type)

section Walk

variable {β : Type} {cb : ColumnBlockCallback β} {sheet col first last : Int}

/-- A column is walked through segment by segment, and then perhaps past its end. -/
theorem run_walkColumn (hsheet : wb.hasSheet sheet) (hcol : wb.hasColumn col) (hfirst : 0 ≤ first)
    (hfirst' : first ≤ wb.sheetSize.row) (hle : first ≤ last) (b : β) :
    (wb.walkColumn cb sheet col first last b).run (wb.answers result) =
      (walkSegments cb (wb.columnSegments sheet col first (min last (wb.sheetSize.row - 1))) b).run
          (wb.answers result) >>= fun p ↦
        if p.2 = true ∧ wb.sheetSize.row ≤ last then .error .undefined else .ok p := by
  have hinside : ¬(¬wb.hasColumn col ∨ first < 0 ∨ wb.sheetSize.row < first) := by
    rintro (hno | hneg | hout)
    · exact hno hcol
    · exact Int.not_lt.mpr hfirst hneg
    · exact Int.not_lt.mpr hfirst' hout
  have hlast : min last (wb.sheetSize.row - 1) < wb.sheetSize.row :=
    Int.lt_of_le_sub_one (Int.min_le_right _ _)
  rw [walkColumn, if_neg (Int.not_lt.mpr hle), if_neg hinside]
  show ((countUp first (min last (wb.sheetSize.row - 1))).mapM _ >>= _ : Reader (β × Bool)).run _ =
    _
  rw [Query.run_bind, answers, ColumnStores.run_mapM_getCellType _ hsheet hcol hfirst hlast,
    ← answers]
  show (walkSegments cb (segments col first _) b >>= _ : Reader (β × Bool)).run _ = _
  rw [Query.run_bind, columnSegments]
  refine congrArg (_ >>= ·) (funext fun p ↦ ?_)
  obtain ⟨b, more⟩ := p
  show ((if _ ∧ _ then _ else _ : Reader (β × Bool))).run _ = if _ ∧ _ then _ else _
  split <;> rfl

/-- Segments are walked through one part after the other. -/
theorem run_walkSegments_append (segs segs' : List Segment) (b : β) :
    (walkSegments cb (segs ++ segs') b).run (wb.answers result) =
      (walkSegments cb segs b).run (wb.answers result) >>= fun p ↦
        if p.2 then (walkSegments cb segs' p.1).run (wb.answers result) else .ok p := by
  induction segs generalizing b with
  | nil => rfl
  | cons seg segs ih =>
    rw [List.cons_append, walkSegments, walkSegments, Query.run_bind, Query.run_bind]
    cases (cb seg b).run (wb.answers result) with
    | error e => rfl
    | ok p =>
      obtain ⟨b, more⟩ := p
      cases more with
      | false => rfl
      | true => exact ih b

/-- The segments of the columns of a range. -/
def rangeSegments (wb : Workbook) (r : AbsRange) : List Segment :=
  (countUp r.first.column r.last.column).flatMap fun col ↦
    wb.columnSegments r.first.sheet col r.first.row r.last.row

/-- A range of a sheet is walked through segment by segment. -/
theorem run_walk (h : r.InSheet wb) (b : β) :
    (wb.walk r.first.sheet r cb b).run (wb.answers result) =
      ((walkSegments cb (wb.rangeSegments r) b).run (wb.answers result)).map Prod.fst := by
  have hcolumns (cols : List Int) (hcols : ∀ col ∈ cols, col ∈ countUp r.first.column r.last.column)
      (b : β) :
      (wb.walkColumns cb r.first.sheet r.first.row r.last.row cols b).run (wb.answers result) =
        ((walkSegments cb (cols.flatMap fun col ↦
          wb.columnSegments r.first.sheet col r.first.row r.last.row) b).run
            (wb.answers result)).map Prod.fst := by
    induction cols generalizing b with
    | nil => rfl
    | cons col cols ih =>
      have hcol := mem_countUp.mp (hcols col List.mem_cons_self)
      have hhas : wb.hasColumn col :=
        ⟨h.column_nonneg.trans hcol.1, Int.lt_of_le_of_lt hcol.2 h.column_lt⟩
      have hfirst := Int.lt_of_le_of_lt h.row_le h.row_lt
      rw [walkColumns, Query.run_bind, run_walkColumn h.sheet hhas h.row_nonneg hfirst.le h.row_le,
        Int.min_eq_left (Int.le_sub_one_of_lt h.row_lt), List.flatMap_cons, run_walkSegments_append]
      cases (walkSegments cb (wb.columnSegments r.first.sheet col r.first.row r.last.row) b).run
          (wb.answers result) with
      | error e => rfl
      | ok p =>
        obtain ⟨b, more⟩ := p
        show ((if _ ∧ _ then _ else _ : Except Failure (β × Bool)) >>= _) = _
        rw [if_neg fun hend ↦ absurd hend.2 (Int.not_le.mpr h.row_lt)]
        cases more with
        | false => rfl
        | true => exact ih (fun col' hcol' ↦ hcols col' (List.mem_cons_of_mem col hcol')) b
  rw [walk, if_neg (not_not.mpr h.sheet)]
  exact hcolumns _ (fun col hcol ↦ hcol) b

/-- The segments of a column have its cells, with their types. -/
theorem columnSegments_addresses (wb : Workbook) (sheet col first last : Int) :
    (wb.columnSegments sheet col first last).flatMap (·.addresses sheet) =
        AbsRange.columnAddresses sheet col first last ∧
      ∀ seg ∈ wb.columnSegments sheet col first last, ∀ a ∈ seg.addresses sheet,
        a ∈ AbsRange.columnAddresses sheet col first last ∧ (wb.cells a).type = seg.type := by
  obtain ⟨haddresses, hseg⟩ := segments_countUp sheet col first last
    fun row ↦ (wb.cells ⟨sheet, row, col⟩).type
  refine ⟨haddresses, fun seg hmem a ha ↦ ?_⟩
  obtain ⟨hin, htype⟩ := hseg seg hmem a ha
  obtain ⟨row, -, rfl⟩ := List.mem_map.mp hin
  exact ⟨hin, htype⟩

/-- The segments of a range have its cells, with their types. -/
theorem rangeSegments_addresses (h : r.InSheet wb) :
    (wb.rangeSegments r).flatMap (·.addresses r.first.sheet) = r.addresses ∧
      ∀ seg ∈ wb.rangeSegments r, ∀ a ∈ seg.addresses r.first.sheet,
        wb.inWorkbook a = true ∧ (wb.cells a).type = seg.type := by
  have haddresses : (wb.rangeSegments r).flatMap (·.addresses r.first.sheet) = r.addresses := by
    rw [rangeSegments, AbsRange.addresses_of_single h.single, List.flatMap_assoc]
    refine List.flatMap_congr fun col _ ↦ ?_
    exact (wb.columnSegments_addresses r.first.sheet col r.first.row r.last.row).1
  refine ⟨haddresses, fun seg hseg a ha ↦ ⟨h.inWorkbook ?_, ?_⟩⟩
  · rw [← haddresses]
    exact List.mem_flatMap.mpr ⟨seg, hseg, ha⟩
  · obtain ⟨col, -, hseg⟩ := List.mem_flatMap.mp hseg
    exact ((wb.columnSegments_addresses r.first.sheet col r.first.row r.last.row).2 seg hseg a ha).2

end Walk

/-- The numbers of a range are appended column by column. -/
theorem run_walk_appendSegment (h : r.InSheet wb) (seq : List ℚ) :
    (wb.walk r.first.sheet r (FormulaFunctions.appendSegment r.first.sheet) seq).run
        (wb.answers result) =
      wb.appendNumbers result r.addresses seq := by
  obtain ⟨haddresses, hcells⟩ := rangeSegments_addresses h
  rw [run_walk h, run_walkSegments_appendSegment hcells, haddresses]
  cases wb.appendNumbers result r.addresses seq <;> rfl

end Workbook

end Ixion
