import Ixion.Column.Count
import Ixion.Column.Position
import Ixion.Lib.Carry

/-!
# Iterating over the cells of a sheet

The vertical iterator goes down the columns of a range of a sheet, one after the other.  Its
range is clipped where it leaves the sheet.  Where nothing of it is left, no position is set,
but the iterator says that it has a cell (`visits_new_iff`).
-/

namespace Ixion

open Lib

/-- A cell as an iterator shows it. -/
structure ModelCell where
  row : Int
  col : Int
  value : Cell

/-- The columns of a sheet, if there is one. -/
def ColumnStores.getColumns {wb : Workbook} (stores : ColumnStores wb) (sheet : Int) :
    Option (List (List Block)) :=
  if 0 ≤ sheet ∧ sheet < wb.sheets.length then
    some ((countUp 0 (wb.sheetSize.column - 1)).map (stores.blocks sheet))
  else none

/-- The state of a vertical iterator.  Columns are given by their indices; a position is not set
before it has been found. -/
structure IteratorCoreVertical where
  cols : Option (List (List Block))
  itCols : Int
  itColsBegin : Int
  itColsEnd : Int
  currentPos : Option ColumnPosition
  endPos : Option ColumnPosition
  rowFirst : Int
  rowLast : Int

namespace IteratorCoreVertical

/-- Set the positions for the first cell and the end in the current column. -/
def resetPositions (it : IteratorCoreVertical) (cols : List (List Block)) :
    Except Failure IteratorCoreVertical :=
  match cols[it.itCols.toNat]? with
  | none => .error .undefined
  | some col => do
    let currentPos ← (ColumnPosition.ofRow col it.rowFirst).mapError .exception
    let endPos ← (ColumnPosition.ofRow col (it.rowLast + 1)).mapError .exception
    return { it with currentPos := some currentPos, endPos := some endPos }

/-- The iterator over a range of a sheet. -/
def new {wb : Workbook} (stores : ColumnStores wb) (sheet : Int) (range : AbsRange) :
    Except Failure IteratorCoreVertical :=
  match stores.getColumns sheet with
  | none => .ok ⟨none, 0, 0, 0, none, none, 0, rowUnset⟩
  | some [] => .ok ⟨some [], 0, 0, 0, none, none, 0, rowUnset⟩
  | some (col :: cols) =>
    let it : IteratorCoreVertical :=
      { cols := some (col :: cols), itCols := 0, itColsBegin := 0,
        itColsEnd := (col :: cols).length, currentPos := none, endPos := none, rowFirst := 0,
        rowLast := toRow (toSize (((col.flatMap Block.cells).length : Int) - 1)) }
    if !Workbook.rcValid range then it.resetPositions (col :: cols)
    else
      let lastCol : Int := (col :: cols).length - 1
      -- shrink the tail end
      let diff : Int :=
        if range.last.column ≠ columnUnset ∧ range.last.column < lastCol then
          range.last.column - lastCol
        else 0
      let it := { it with itColsEnd := it.itColsEnd + diff }
      let lastCol := lastCol + diff
      if range.first.column ≠ columnUnset ∧ lastCol < range.first.column then
        -- the first column is past the last one
        .ok { it with itColsBegin := it.itColsEnd }
      else
        let it := { it with
          itCols := if range.first.column ≠ columnUnset then range.first.column else 0 }
        -- shrink the tail end
        let it := { it with
          rowLast := if range.last.row ≠ rowUnset ∧ range.last.row < it.rowLast then range.last.row
            else it.rowLast }
        if range.first.row ≠ rowUnset ∧ it.rowLast < range.first.row then
          -- the first row is past the last one
          .ok { it with itColsBegin := it.itColsEnd }
        else
          let it := { it with
            rowFirst := if range.first.row ≠ rowUnset then range.first.row else 0 }
          it.resetPositions (col :: cols)

/-- Whether there is a cell. -/
def has (it : IteratorCoreVertical) : Bool := it.cols.isSome ∧ it.itCols ≠ it.itColsEnd

/-- Go to the next cell. -/
def next (it : IteratorCoreVertical) : Except Failure IteratorCoreVertical :=
  match it.cols, it.currentPos, it.endPos with
  | some cols, some currentPos, some endPos => do
    let currentPos ← currentPos.nextPosition
    let it := { it with currentPos := some currentPos }
    if !currentPos.same endPos then return it
    else
      -- move to the next column
      let it := { it with itCols := it.itCols + 1 }
      if it.itCols = it.itColsEnd then return it else it.resetPositions cols
  | _, _, _ => .error .undefined

/-- The current cell. -/
def get (it : IteratorCoreVertical) : Except Failure ModelCell :=
  match it.currentPos with
  | none => .error .undefined
  | some p =>
    match p.rest with
    | [] => .error .undefined
    | b :: _ =>
      match b.cells[p.offset]? with
      | none => .error .undefined
      | some value => .ok ⟨p.logicalPosition, it.itCols - it.itColsBegin, value⟩

/-- As long as the iterator has a cell, the cells are those of a list. -/
def Visits : IteratorCoreVertical → List ModelCell → Prop
  | it, [] => it.has = false
  | it, c :: cs => it.has = true ∧ it.get = .ok c ∧ ∃ it', it.next = .ok it' ∧ Visits it' cs

/-! ## The cells of a clipped range -/

/-- Whether a range has a row.  A row that is not set is no bound. -/
def hasRow (range : AbsRange) (row : Int) : Bool :=
  (range.first.row = rowUnset ∨ range.first.row ≤ row) ∧
    (range.last.row = rowUnset ∨ row ≤ range.last.row)

/-- Whether a range has a column.  A column that is not set is no bound. -/
def hasColumn (range : AbsRange) (col : Int) : Bool :=
  (range.first.column = columnUnset ∨ range.first.column ≤ col) ∧
    (range.last.column = columnUnset ∨ col ≤ range.last.column)

/-- The cells of a sheet that a range has, column by column. -/
def clippedCells (wb : Workbook) (sheet : Int) (range : AbsRange) : List ModelCell :=
  if 0 ≤ sheet ∧ sheet < wb.sheets.length then
    ((countUp 0 (wb.sheetSize.column - 1)).filter (hasColumn range)).flatMap fun col ↦
      ((countUp 0 (wb.sheetSize.row - 1)).filter (hasRow range)).map fun row ↦
        ⟨row, col, wb.cells ⟨sheet, row, col⟩⟩
  else []

/-! ## One step -/

section Step

variable {wb : Workbook} {stores : ColumnStores wb} {sheet : Int}
  {firstCol lastCol firstRow lastRow : Int}

/-- The iterator is at a cell of its range. -/
structure Ready (stores : ColumnStores wb) (sheet firstCol lastCol firstRow lastRow : Int)
    (it : IteratorCoreVertical) (x : Int × Int) : Prop where
  cols : it.cols = stores.getColumns sheet
  itCols : it.itCols = x.1
  itColsBegin : it.itColsBegin = 0
  itColsEnd : it.itColsEnd = lastCol + 1
  rowFirst : it.rowFirst = firstRow
  rowLast : it.rowLast = lastRow
  col : firstCol ≤ x.1 ∧ x.1 ≤ lastCol
  row : firstRow ≤ x.2 ∧ x.2 ≤ lastRow
  currentPos : ∃ p, it.currentPos = some p ∧ p.At (stores.blocks sheet x.1) x.2.toNat
  endPos : ∃ q, it.endPos = some q ∧ q.At (stores.blocks sheet x.1) (lastRow + 1).toNat

/-- The range of an iterator is in its sheet. -/
structure Clipped (wb : Workbook) (sheet firstCol lastCol firstRow lastRow : Int) : Prop where
  sheet_mem : 0 ≤ sheet ∧ sheet < wb.sheets.length
  firstCol_nonneg : 0 ≤ firstCol
  firstCol_le : firstCol ≤ lastCol
  lastCol_lt : lastCol < wb.sheetSize.column
  firstRow_nonneg : 0 ≤ firstRow
  firstRow_le : firstRow ≤ lastRow
  lastRow_lt : lastRow < wb.sheetSize.row

/-- The column of a sheet at an index. -/
theorem getElem?_getColumns (hsheet : 0 ≤ sheet ∧ sheet < wb.sheets.length)
    {cols : List (List Block)} (hcols : stores.getColumns sheet = some cols) (col : Int)
    (hcol : 0 ≤ col ∧ col < wb.sheetSize.column) :
    cols[col.toNat]? = some (stores.blocks sheet col) := by
  rw [ColumnStores.getColumns, if_pos hsheet] at hcols
  obtain rfl := Option.some.inj hcols
  rw [List.getElem?_map, countUp, List.getElem?_map, List.getElem?_range (by omega),
    Option.map_some, Option.map_some]
  congr 2
  omega

/-- At the start of a column the iterator is at its first cell. -/
theorem ready_resetPositions (h : Clipped wb sheet firstCol lastCol firstRow lastRow)
    {it : IteratorCoreVertical} {cols : List (List Block)}
    (hcols : stores.getColumns sheet = some cols) (hitCols : it.cols = some cols)
    (hbegin : it.itColsBegin = 0) (hend : it.itColsEnd = lastCol + 1)
    (hrowFirst : it.rowFirst = firstRow) (hrowLast : it.rowLast = lastRow)
    (hcol : firstCol ≤ it.itCols ∧ it.itCols ≤ lastCol) :
    ∃ it', it.resetPositions cols = .ok it' ∧
      Ready stores sheet firstCol lastCol firstRow lastRow it' (it.itCols, firstRow) := by
  obtain ⟨hsheet, h₁, h₂, h₃, h₄, h₅, h₆⟩ := h
  have hlength : ((stores.blocks sheet it.itCols).flatMap Block.cells).length =
      wb.sheetSize.row.toNat := by
    rw [stores.cells_blocks, Workbook.length_column]
  have hrows := stores.row_le
  obtain ⟨p, hp, hpAt⟩ := ColumnPosition.exists_ofRow (stores.blocks sheet it.itCols)
    firstRow h₄ (by omega) (by omega)
  obtain ⟨q, hq, hqAt⟩ := ColumnPosition.exists_ofRow (stores.blocks sheet it.itCols)
    (lastRow + 1) (by omega) (by omega) (by omega)
  refine ⟨{ it with currentPos := some p, endPos := some q }, ?_, ?_⟩
  · rw [resetPositions, getElem?_getColumns hsheet hcols _ ⟨by omega, by omega⟩, hrowFirst,
      hrowLast]
    dsimp only
    rw [hp, hq]
    rfl
  · exact ⟨hitCols.trans hcols.symm, rfl, hbegin, hend, hrowFirst, hrowLast, hcol,
      ⟨Int.le_refl _, h₅⟩,
      ⟨p, rfl, hpAt⟩, ⟨q, rfl, hqAt⟩⟩

/-- At a cell of its range the iterator shows it. -/
theorem get_of_ready (h : Clipped wb sheet firstCol lastCol firstRow lastRow)
    {it : IteratorCoreVertical} {x : Int × Int}
    (hready : Ready stores sheet firstCol lastCol firstRow lastRow it x) :
    it.has = true ∧ it.get = .ok ⟨x.2, x.1, wb.cells ⟨sheet, x.2, x.1⟩⟩ := by
  obtain ⟨hsheet, h₁, h₂, h₃, h₄, h₅, h₆⟩ := h
  obtain ⟨col, row⟩ := x
  obtain ⟨p, hp, hpAt⟩ := hready.currentPos
  have hcol := hready.col
  have hrow := hready.row
  have hitCols := hready.itCols
  dsimp only at hcol hrow hitCols hpAt ⊢
  have hlength : ((stores.blocks sheet col).flatMap Block.cells).length =
      wb.sheetSize.row.toNat := by
    rw [stores.cells_blocks, Workbook.length_column]
  constructor
  · rw [has, decide_eq_true_eq, hready.cols, ColumnStores.getColumns, if_pos hsheet]
    refine ⟨rfl, ?_⟩
    rw [hready.itColsEnd, hitCols]
    omega
  · obtain ⟨b, rest, hrest, -⟩ := hpAt.exists_block (by omega)
    have hget := hpAt.getElem hrest
    rw [stores.cells_blocks, Workbook.column, List.getElem?_map, List.getElem?_range (by omega),
      Option.map_some] at hget
    have hrow' : (row.toNat : Int) = row := by omega
    have hposition : (p.logicalPosition : Int) = row := by
      rw [ColumnPosition.logicalPosition, hpAt.row, hrow']
    rw [get, hp]
    dsimp only
    rw [hrest]
    dsimp only
    rw [hget, hposition, hready.itColsBegin, hitCols, hrow', Int.sub_zero]

/-- From a cell of its range the iterator goes to the next one, and from the last one past the
end. -/
theorem next_of_ready (h : Clipped wb sheet firstCol lastCol firstRow lastRow)
    (hcanonical : ∀ sheet col, Canonical (stores.blocks sheet col))
    {it : IteratorCoreVertical} {x : Int × Int}
    (hready : Ready stores sheet firstCol lastCol firstRow lastRow it x) :
    ∃ it', it.next = .ok it' ∧
      match carry (countInc lastCol) (countInc lastRow) firstRow x with
      | some y => Ready stores sheet firstCol lastCol firstRow lastRow it' y
      | none => it'.has = false := by
  obtain ⟨col, row⟩ := x
  obtain ⟨cols?, itCols, itColsBegin, itColsEnd, currentPos, endPos, rowFirst, rowLast⟩ := it
  obtain ⟨hcols, hitCols, hbegin, hcolsEnd, hrowFirst, hrowLast, hcol, hrow, ⟨p, hp, hpAt⟩,
    ⟨q, hq, hqAt⟩⟩ := hready
  dsimp only at hcols hitCols hbegin hcolsEnd hrowFirst hrowLast hcol hrow hp hpAt hq hqAt ⊢
  subst hitCols hbegin hcolsEnd hrowFirst hrowLast hp hq
  have hrowNonneg := h.firstRow_nonneg
  have hrowLt := h.lastRow_lt
  obtain ⟨cols, hcols'⟩ : ∃ cols, stores.getColumns sheet = some cols := by
    rw [ColumnStores.getColumns, if_pos h.sheet_mem]
    exact ⟨_, rfl⟩
  rw [hcols'] at hcols
  subst hcols
  have hlength : ((stores.blocks sheet itCols).flatMap Block.cells).length =
      wb.sheetSize.row.toNat := by
    rw [stores.cells_blocks, Workbook.length_column]
  obtain ⟨p', hp', hpAt'⟩ := hpAt.next (hcanonical sheet itCols) (by omega)
  have hsame : p'.same q = true ↔ row.toNat + 1 = (rowLast + 1).toNat := hpAt'.same_iff hqAt
  rw [next]
  dsimp only
  rw [hp']
  by_cases hlt : row < rowLast
  · -- there is a next row
    have hinc : countInc rowLast row = some (row + 1) := if_pos hlt
    have hnot : p'.same q = false := by
      rw [Bool.eq_false_iff, ne_eq, hsame]
      omega
    have hrow' : (row + 1).toNat = row.toNat + 1 := by omega
    rw [carry_of_some _ hinc]
    show ∃ it', (if !p'.same q then _ else _ : Except Failure IteratorCoreVertical) = .ok it' ∧ _
    rw [hnot]
    exact ⟨_, rfl, hcols'.symm, rfl, rfl, rfl, rfl, rfl, hcol, ⟨by dsimp only; omega, hlt⟩,
      ⟨p', rfl, hrow' ▸ hpAt'⟩, ⟨q, rfl, hqAt⟩⟩
  · -- the column is at its end
    have hinc : countInc rowLast row = none := if_neg hlt
    have hend : p'.same q = true := by
      rw [hsame]
      omega
    rw [carry_of_none _ hinc]
    show ∃ it', (if !p'.same q then _ else if itCols + 1 = lastCol + 1 then _ else _ :
      Except Failure IteratorCoreVertical) = .ok it' ∧ _
    rw [hend]
    by_cases hlast : itCols < lastCol
    · have hcolInc : countInc lastCol itCols = some (itCols + 1) := if_pos hlast
      rw [hcolInc, if_neg (by simp), if_neg (by omega)]
      exact ready_resetPositions h hcols' rfl rfl rfl rfl rfl ⟨by dsimp only; omega, hlast⟩
    · have hcolInc : countInc lastCol itCols = none := if_neg hlast
      rw [hcolInc, if_neg (by simp), if_pos (by omega)]
      refine ⟨_, rfl, ?_⟩
      show decide _ = false
      rw [decide_eq_false_iff_not]
      rintro ⟨-, hne⟩
      exact hne (by dsimp only; omega)

/-- The cell that the iterator shows at a place. -/
def cellAt (wb : Workbook) (sheet : Int) (x : Int × Int) : ModelCell :=
  ⟨x.2, x.1, wb.cells ⟨sheet, x.2, x.1⟩⟩

/-- From one of the places of its range on, the iterator visits what comes there. -/
theorem visits_of_ready (h : Clipped wb sheet firstCol lastCol firstRow lastRow)
    (hcanonical : ∀ sheet col, Canonical (stores.blocks sheet col)) {places : List (Int × Int)}
    {dec : Int × Int → Option (Int × Int)}
    (hplaces : Enumerates (carry (countInc lastCol) (countInc lastRow) firstRow) dec
      (firstCol, firstRow) (lastCol, lastRow) places) (n : Nat) {i : Nat}
    (hi : i < places.length) (hn : places.length - i = n + 1) (it : IteratorCoreVertical)
    (hready : Ready stores sheet firstCol lastCol firstRow lastRow it places[i]) :
    it.Visits ((places.drop i).map (cellAt wb sheet)) := by
  induction n generalizing i it with
  | zero =>
    have hend : i + 1 = places.length := by omega
    obtain ⟨it', hnext, hit'⟩ := next_of_ready h hcanonical hready
    rw [hplaces.getElem_last hend, hplaces.inc_last] at hit'
    obtain ⟨hhas, hget⟩ := get_of_ready h hready
    rw [List.drop_eq_getElem_cons hi, List.drop_eq_nil_of_le hend.ge]
    exact ⟨hhas, hget, it', hnext, hit'⟩
  | succ n ih =>
    have hlt : i + 1 < places.length := by omega
    obtain ⟨it', hnext, hit'⟩ := next_of_ready h hcanonical hready
    rw [hplaces.inc_getElem hlt] at hit'
    obtain ⟨hhas, hget⟩ := get_of_ready h hready
    rw [List.drop_eq_getElem_cons hi]
    exact ⟨hhas, hget, it', hnext, ih hlt (by omega) it' hit'⟩

/-- From the start of its range the iterator visits all of it. -/
theorem visits_of_ready_first (h : Clipped wb sheet firstCol lastCol firstRow lastRow)
    (hcanonical : ∀ sheet col, Canonical (stores.blocks sheet col)) {it : IteratorCoreVertical}
    (hready : Ready stores sheet firstCol lastCol firstRow lastRow it (firstCol, firstRow)) :
    it.Visits ((countUp firstCol lastCol).flatMap fun col ↦
      (countUp firstRow lastRow).map fun row ↦ cellAt wb sheet (col, row)) := by
  have hplaces := (enumerates_countUp h.firstCol_le).carry (enumerates_countUp h.firstRow_le)
  have hpos := List.length_pos_of_ne_nil hplaces.ne_nil
  have hvisits := visits_of_ready h hcanonical hplaces _ hpos
    (by rw [Nat.sub_zero, Nat.sub_one_add_one hpos.ne']) it
    (by rwa [hplaces.getElem_zero hpos])
  rw [List.drop_zero, List.map_flatMap] at hvisits
  simp only [List.map_map] at hvisits
  exact hvisits

end Step

/-! ## All cells of a clipped range -/

section New

variable {wb : Workbook} {stores : ColumnStores wb} {sheet : Int} {range : AbsRange}

/-- The last column of a range, clipped. -/
def lastColOf (wb : Workbook) (range : AbsRange) : Int :=
  if range.last.column ≠ columnUnset ∧ range.last.column < wb.sheetSize.column - 1 then
    range.last.column
  else wb.sheetSize.column - 1

/-- The last row of a range, clipped. -/
def lastRowOf (wb : Workbook) (range : AbsRange) : Int :=
  if range.last.row ≠ rowUnset ∧ range.last.row < wb.sheetSize.row.toNat - 1 then range.last.row
  else wb.sheetSize.row.toNat - 1

/-- The first column of a range. -/
def firstColOf (range : AbsRange) : Int :=
  if range.first.column ≠ columnUnset then range.first.column else 0

/-- The first row of a range. -/
def firstRowOf (range : AbsRange) : Int :=
  if range.first.row ≠ rowUnset then range.first.row else 0

theorem firstColOf_nonneg (hvalid : Workbook.rcValid range = true) : 0 ≤ firstColOf range := by
  obtain ⟨⟨-, hfirstCol, -⟩, -⟩ := decide_eq_true_eq.mp hvalid
  rw [firstColOf]
  split
  · exact hfirstCol
  · exact Int.le_refl 0

theorem firstRowOf_nonneg (hvalid : Workbook.rcValid range = true) : 0 ≤ firstRowOf range := by
  obtain ⟨⟨hfirstRow, -⟩, -⟩ := decide_eq_true_eq.mp hvalid
  rw [firstRowOf]
  split
  · exact hfirstRow
  · exact Int.le_refl 0

theorem lastColOf_lt : lastColOf wb range < wb.sheetSize.column := by
  rw [lastColOf]
  split <;> omega

theorem lastRowOf_lt : lastRowOf wb range < wb.sheetSize.row.toNat := by
  rw [lastRowOf]
  split <;> omega

theorem lastColOf_nonneg (hcols : 0 < wb.sheetSize.column)
    (hvalid : Workbook.rcValid range = true) : 0 ≤ lastColOf wb range := by
  rw [Workbook.rcValid, decide_eq_true_eq] at hvalid
  rw [lastColOf]
  split <;> omega

/-- A column of the sheet is in the range exactly if it is between the clipped bounds. -/
theorem hasColumn_iff {col : Int} (hvalid : Workbook.rcValid range = true) (h : 0 ≤ col)
    (h' : col < wb.sheetSize.column) :
    hasColumn range col = true ↔ firstColOf range ≤ col ∧ col ≤ lastColOf wb range := by
  rw [Workbook.rcValid, decide_eq_true_eq] at hvalid
  rw [hasColumn, decide_eq_true_eq, firstColOf, lastColOf]
  split <;> split <;> omega

/-- A row of the sheet is in the range exactly if it is between the clipped bounds. -/
theorem hasRow_iff {row : Int} (hvalid : Workbook.rcValid range = true) (h : 0 ≤ row)
    (h' : row < wb.sheetSize.row) :
    hasRow range row = true ↔ firstRowOf range ≤ row ∧ row ≤ lastRowOf wb range := by
  rw [Workbook.rcValid, decide_eq_true_eq] at hvalid
  rw [hasRow, decide_eq_true_eq, firstRowOf, lastRowOf]
  split <;> split <;> omega

variable (stores) in
/-- A sheet with columns has a first one. -/
theorem exists_getColumns (hsheet : 0 ≤ sheet ∧ sheet < wb.sheets.length)
    (hcols : 0 < wb.sheetSize.column) :
    ∃ col cols, stores.getColumns sheet = some (col :: cols) ∧
      ((col.flatMap Block.cells).length : Int) = wb.sheetSize.row.toNat ∧
      ((col :: cols).length : Int) = wb.sheetSize.column := by
  refine ⟨stores.blocks sheet 0,
    (countUp (0 + 1) (wb.sheetSize.column - 1)).map (stores.blocks sheet), ?_, ?_, ?_⟩
  · rw [ColumnStores.getColumns, if_pos hsheet, countUp_cons (by omega), List.map_cons]
  · rw [stores.cells_blocks, Workbook.length_column]
  · rw [List.length_cons, List.length_map, length_countUp]
    omega

/-- What an iterator over a sheet with columns is made. -/
theorem new_of_getColumns {col : List Block} {cols : List (List Block)}
    (hcolumns : stores.getColumns sheet = some (col :: cols))
    (hlength : ((col.flatMap Block.cells).length : Int) = wb.sheetSize.row.toNat)
    (hcount : ((col :: cols).length : Int) = wb.sheetSize.column)
    (hvalid : Workbook.rcValid range = true) :
    new stores sheet range =
      let itColsEnd := lastColOf wb range + 1
      if range.first.column ≠ columnUnset ∧ lastColOf wb range < range.first.column then
        .ok ⟨some (col :: cols), 0, itColsEnd, itColsEnd, none, none, 0,
          wb.sheetSize.row.toNat - 1⟩
      else if range.first.row ≠ rowUnset ∧ lastRowOf wb range < range.first.row then
        .ok ⟨some (col :: cols), firstColOf range, itColsEnd, itColsEnd, none, none, 0,
          lastRowOf wb range⟩
      else
        resetPositions ⟨some (col :: cols), firstColOf range, 0, itColsEnd, none, none,
          firstRowOf range, lastRowOf wb range⟩ (col :: cols) := by
  have hmax : (0 : Int) ≤ rcMax := by decide
  have hrows := stores.row_le
  have hlast : toRow (toSize ((wb.sheetSize.row.toNat : Int) - 1)) =
      wb.sheetSize.row.toNat - 1 := toRow_toSize (by omega) (by omega)
  have hlastCol : wb.sheetSize.column - 1 + (if range.last.column ≠ columnUnset ∧
      range.last.column < wb.sheetSize.column - 1 then
        range.last.column - (wb.sheetSize.column - 1) else 0) = lastColOf wb range := by
    rw [lastColOf]
    split <;> omega
  have hend : wb.sheetSize.column + (if range.last.column ≠ columnUnset ∧
      range.last.column < wb.sheetSize.column - 1 then
        range.last.column - (wb.sheetSize.column - 1) else 0) = lastColOf wb range + 1 := by
    rw [← hlastCol]
    omega
  have hlastRow : (if range.last.row ≠ rowUnset ∧ range.last.row < wb.sheetSize.row.toNat - 1 then
      range.last.row else wb.sheetSize.row.toNat - 1) = lastRowOf wb range := rfl
  have hfirstCol : (if range.first.column ≠ columnUnset then range.first.column else 0) =
      firstColOf range := rfl
  have hfirstRow : (if range.first.row ≠ rowUnset then range.first.row else 0) =
      firstRowOf range := rfl
  rw [new, hcolumns]
  simp only [hvalid, hlength, hcount, hlast, hlastCol, hend, hlastRow, hfirstCol, hfirstRow,
    Bool.not_true, Bool.false_eq_true, if_false]

/-- Where no row is set and the columns have no cell, there is a position nevertheless. -/
theorem has_resetPositions (hsheet : 0 ≤ sheet ∧ sheet < wb.sheets.length)
    {cols : List (List Block)} (hcolumns : stores.getColumns sheet = some cols)
    {it : IteratorCoreVertical} (hcols : it.cols = some cols) (hfirst : it.rowFirst = 0)
    (hlast : it.rowLast = -1) (hcol : 0 ≤ it.itCols ∧ it.itCols < wb.sheetSize.column)
    (hne : it.itCols ≠ it.itColsEnd) :
    ∃ it', it.resetPositions cols = .ok it' ∧ it'.has = true := by
  obtain ⟨p, hp, -⟩ := ColumnPosition.exists_ofRow (stores.blocks sheet it.itCols) 0
    (Int.le_refl 0) (Nat.zero_le _) (by decide)
  refine ⟨{ it with currentPos := some p, endPos := some p }, ?_, ?_⟩
  · rw [resetPositions, getElem?_getColumns hsheet hcolumns _ hcol]
    dsimp only
    rw [hfirst, hlast]
    show ((ColumnPosition.ofRow _ 0).mapError _ >>= fun p ↦
      (ColumnPosition.ofRow _ 0).mapError _ >>= fun q ↦ _) = _
    rw [hp]
    rfl
  · rw [has, decide_eq_true_eq]
    exact ⟨congrArg Option.isSome hcols, hne⟩

variable (stores) in
/-- Where nothing of a range is left, an iterator over a sheet with columns has a cell, but no
position is set. -/
theorem new_eq (hsheet : 0 ≤ sheet ∧ sheet < wb.sheets.length) (hcols : 0 < wb.sheetSize.column)
    (hvalid : Workbook.rcValid range = true) :
    ∃ cols, stores.getColumns sheet = some cols ∧
      if lastColOf wb range < firstColOf range ∨ lastRowOf wb range < firstRowOf range then
        ∃ it, new stores sheet range = .ok it ∧ it.has = true
      else
        ∃ it : IteratorCoreVertical, new stores sheet range = it.resetPositions cols ∧
          it.cols = some cols ∧ it.itColsBegin = 0 ∧ it.itColsEnd = lastColOf wb range + 1 ∧
          it.rowFirst = firstRowOf range ∧ it.rowLast = lastRowOf wb range ∧
          it.itCols = firstColOf range := by
  obtain ⟨col, cols, hcolumns, hlength, hcount⟩ := exists_getColumns stores hsheet hcols
  refine ⟨_, hcolumns, ?_⟩
  rw [new_of_getColumns hcolumns hlength hcount hvalid]
  dsimp only
  by_cases hcol : range.first.column ≠ columnUnset ∧ lastColOf wb range < range.first.column
  · have hfirst : firstColOf range = range.first.column := if_pos hcol.1
    rw [if_pos hcol, if_pos (.inl (hfirst ▸ hcol.2))]
    refine ⟨_, rfl, decide_eq_true ⟨rfl, ?_⟩⟩
    have hnonneg := lastColOf_nonneg hcols hvalid
    show (0 : Int) ≠ lastColOf wb range + 1
    omega
  have hfirst : firstColOf range ≤ lastColOf wb range := by
    have hnonneg := lastColOf_nonneg hcols hvalid
    rw [firstColOf]
    split <;> omega
  have hne : firstColOf range ≠ lastColOf wb range + 1 := by omega
  rw [if_neg hcol]
  by_cases hrow : range.first.row ≠ rowUnset ∧ lastRowOf wb range < range.first.row
  · have hfirst' : firstRowOf range = range.first.row := if_pos hrow.1
    rw [if_pos hrow, if_pos (.inr (hfirst' ▸ hrow.2))]
    exact ⟨_, rfl, decide_eq_true ⟨rfl, hne⟩⟩
  rw [if_neg hrow]
  split
  case isTrue hempty =>
    -- no row is set, and the columns have no cell
    have hlt := hempty.resolve_left (Int.not_lt.mpr hfirst)
    have hunset : ¬range.first.row ≠ rowUnset := by
      intro hset
      rw [firstRowOf, if_pos hset] at hlt
      exact hrow ⟨hset, hlt⟩
    have hrowFirst : firstRowOf range = 0 := if_neg hunset
    have hrowLast : lastRowOf wb range = -1 := by
      have hnonneg : 0 ≤ range.last.row := (decide_eq_true_eq.mp hvalid).2.1.1
      rw [hrowFirst] at hlt
      rw [lastRowOf] at hlt ⊢
      clear * - hlt hnonneg
      split at hlt
      case isTrue => omega
      case isFalse h =>
        rw [if_neg h]
        omega
    exact has_resetPositions hsheet hcolumns rfl hrowFirst hrowLast
      ⟨firstColOf_nonneg hvalid, hfirst.trans_lt lastColOf_lt⟩ hne
  case isFalse => exact ⟨_, rfl, rfl, rfl, rfl, rfl, rfl, rfl⟩

/-- An iterator that has a cell visits at least one. -/
theorem not_visits_nil {it : IteratorCoreVertical} (h : it.has = true) : ¬it.Visits [] := by
  intro hnil
  rw [Visits, h] at hnil
  exact nomatch hnil

/-- What is left of a range that does not meet its sheet. -/
theorem clippedCells_eq_nil
    (h : ¬∃ row col, 0 ≤ row ∧ row < wb.sheetSize.row ∧ 0 ≤ col ∧ col < wb.sheetSize.column ∧
      hasRow range row = true ∧ hasColumn range col = true) :
    clippedCells wb sheet range = [] := by
  rw [clippedCells]
  split
  case isFalse => rfl
  case isTrue =>
    rw [List.flatMap_eq_nil_iff]
    intro col hcol
    rw [List.map_eq_nil_iff, List.filter_eq_nil_iff]
    intro row hrow hhas
    rw [List.mem_filter, mem_countUp] at hcol
    rw [mem_countUp] at hrow
    exact h ⟨row, col, hrow.1, by omega, hcol.1.1, by omega, hhas, hcol.2⟩

/-- The clipped bounds of a range of which something is left. -/
theorem clipped (hsheet : 0 ≤ sheet ∧ sheet < wb.sheets.length)
    (hvalid : Workbook.rcValid range = true)
    (hcol : firstColOf range ≤ lastColOf wb range) (hrow : firstRowOf range ≤ lastRowOf wb range) :
    Clipped wb sheet (firstColOf range) (lastColOf wb range) (firstRowOf range)
      (lastRowOf wb range) := by
  have hfirstRow := firstRowOf_nonneg hvalid
  have hlastRow := @lastRowOf_lt wb range
  exact ⟨hsheet, firstColOf_nonneg hvalid, hcol, lastColOf_lt, hfirstRow, hrow, by omega⟩

/-- What is left of a range of a sheet, by the clipped bounds. -/
theorem clippedCells_eq (hvalid : Workbook.rcValid range = true)
    (h : Clipped wb sheet (firstColOf range) (lastColOf wb range) (firstRowOf range)
      (lastRowOf wb range)) :
    clippedCells wb sheet range =
      (countUp (firstColOf range) (lastColOf wb range)).flatMap fun col ↦
        (countUp (firstRowOf range) (lastRowOf wb range)).map fun row ↦
          cellAt wb sheet (col, row) := by
  rw [clippedCells, if_pos h.sheet_mem,
    filter_countUp h.firstCol_nonneg (Int.le_sub_one_of_lt h.lastCol_lt) fun col hc hc' ↦
      hasColumn_iff hvalid hc (Int.lt_of_le_sub_one hc'),
    filter_countUp h.firstRow_nonneg (Int.le_sub_one_of_lt h.lastRow_lt) fun row hr hr' ↦
      hasRow_iff hvalid hr (Int.lt_of_le_sub_one hr')]
  rfl

/-- A vertical iterator visits each cell of its range that is in the sheet, column by column,
exactly if there is no such sheet or column at all, or the range meets the sheet. -/
theorem visits_new_iff (stores : ColumnStores wb)
    (hcanonical : ∀ sheet col, Canonical (stores.blocks sheet col))
    (hvalid : Workbook.rcValid range = true) :
    (∃ it, new stores sheet range = .ok it ∧ it.Visits (clippedCells wb sheet range)) ↔
      ¬(0 ≤ sheet ∧ sheet < wb.sheets.length) ∨ wb.sheetSize.column ≤ 0 ∨
        ∃ row col, 0 ≤ row ∧ row < wb.sheetSize.row ∧ 0 ≤ col ∧ col < wb.sheetSize.column ∧
          hasRow range row = true ∧ hasColumn range col = true := by
  by_cases hsheet : 0 ≤ sheet ∧ sheet < wb.sheets.length
  swap
  · -- there is no sheet
    refine iff_of_true ⟨_, by rw [new, ColumnStores.getColumns, if_neg hsheet], ?_⟩ (.inl hsheet)
    rw [clippedCells, if_neg hsheet]
    rfl
  by_cases hcols : 0 < wb.sheetSize.column
  swap
  · -- there is no column
    have hcountUp : countUp 0 (wb.sheetSize.column - 1) = [] := countUp_eq_nil (by omega)
    refine iff_of_true ⟨_, by rw [new, ColumnStores.getColumns, if_pos hsheet, hcountUp]; rfl, ?_⟩
      (.inr (.inl (Int.not_lt.mp hcols)))
    rw [clippedCells, if_pos hsheet, hcountUp]
    rfl
  obtain ⟨cols, hcolumns, hnew⟩ := new_eq stores hsheet hcols hvalid
  by_cases hempty : lastColOf wb range < firstColOf range ∨ lastRowOf wb range < firstRowOf range
  · -- nothing is left of the range
    rw [if_pos hempty] at hnew
    obtain ⟨it, hit, hhas⟩ := hnew
    have hnot : ¬∃ row col, 0 ≤ row ∧ row < wb.sheetSize.row ∧ 0 ≤ col ∧
        col < wb.sheetSize.column ∧ hasRow range row = true ∧ hasColumn range col = true := by
      rintro ⟨row, col, hr, hr', hc, hc', hrow, hcol⟩
      obtain ⟨hcol₁, hcol₂⟩ := (hasColumn_iff hvalid hc hc').mp hcol
      obtain ⟨hrow₁, hrow₂⟩ := (hasRow_iff hvalid hr hr').mp hrow
      exact hempty.elim (Int.not_lt.mpr (hcol₁.trans hcol₂)) (Int.not_lt.mpr (hrow₁.trans hrow₂))
    refine iff_of_false ?_ fun h ↦
      h.elim (fun h ↦ h hsheet) fun h ↦ h.elim (Int.not_le.mpr hcols) hnot
    rw [clippedCells_eq_nil hnot]
    rintro ⟨it', hit', hvisits⟩
    obtain rfl := Except.ok.inj (hit.symm.trans hit')
    exact not_visits_nil hhas hvisits
  · -- the iterator starts at the first cell of what is left
    rw [if_neg hempty] at hnew
    obtain ⟨it, hit, hitCols, hbegin, hend, hrowFirst, hrowLast, hcol⟩ := hnew
    obtain ⟨hcol', hrow'⟩ := not_or.mp hempty
    have h := clipped hsheet hvalid (Int.not_lt.mp hcol') (Int.not_lt.mp hrow')
    obtain ⟨it', hit', hready⟩ := ready_resetPositions h hcolumns hitCols hbegin hend hrowFirst
      hrowLast ⟨hcol.ge, hcol.trans_le h.firstCol_le⟩
    rw [hcol] at hready
    refine iff_of_true ⟨it', hit.trans hit', ?_⟩
      (.inr (.inr ⟨firstRowOf range, firstColOf range, ?_⟩))
    · rw [clippedCells_eq hvalid h]
      exact visits_of_ready_first h hcanonical hready
    · have hrow : firstRowOf range < wb.sheetSize.row :=
        Int.lt_of_le_of_lt h.firstRow_le h.lastRow_lt
      have hcolumn : firstColOf range < wb.sheetSize.column :=
        Int.lt_of_le_of_lt h.firstCol_le h.lastCol_lt
      exact ⟨h.firstRow_nonneg, hrow, h.firstCol_nonneg, hcolumn,
        (hasRow_iff hvalid h.firstRow_nonneg hrow).mpr ⟨Int.le_refl _, h.firstRow_le⟩,
        (hasColumn_iff hvalid h.firstCol_nonneg hcolumn).mpr ⟨Int.le_refl _, h.firstCol_le⟩⟩

end New

/-! ### A range to the right of an empty sheet -/

/-- A sheet of one column of three empty cells. -/
def emptyWorkbook : Workbook :=
  { (ModelContext.new ⟨3, 1⟩ :
      ModelContext ModelContext.Ranges (ListTree ModelContext.Ranges)).toWorkbook with
    sheets := [⟨"Sheet1", []⟩] }

/-- The cells are in one block. -/
def emptyStores : ColumnStores emptyWorkbook where
  blocks _ _ := [.empty 3]
  cells_blocks _ _ := rfl
  row_le := by decide

theorem canonical_emptyStores (sheet col : Int) : Canonical (emptyStores.blocks sheet col) where
  size_pos b hb := by
    obtain rfl := List.mem_singleton.mp hb
    decide
  chain := List.isChain_singleton _

/-- The whole first column. -/
def firstColumn : AbsRange := ⟨⟨0, 0, 0⟩, ⟨0, rowUnset, 0⟩⟩

/-- The column after the last one. -/
def columnAfter : AbsRange := ⟨⟨0, 0, 1⟩, ⟨0, 2, 1⟩⟩

theorem visits_new_iff_column :
    (∃ it, new emptyStores 0 firstColumn = .ok it ∧
      it.Visits (clippedCells emptyWorkbook 0 firstColumn)) ↔
      ¬((0 : Int) ≤ 0 ∧ (0 : Int) < emptyWorkbook.sheets.length) ∨
        emptyWorkbook.sheetSize.column ≤ 0 ∨
          ∃ row col, 0 ≤ row ∧ row < emptyWorkbook.sheetSize.row ∧ 0 ≤ col ∧
            col < emptyWorkbook.sheetSize.column ∧ hasRow firstColumn row = true ∧
            hasColumn firstColumn col = true :=
  visits_new_iff emptyStores canonical_emptyStores (by decide)

theorem not_visits_new_columnAfter :
    ¬∃ it, new emptyStores 0 columnAfter = .ok it ∧
      it.Visits (clippedCells emptyWorkbook 0 columnAfter) := by
  rintro ⟨it, hit, hvisits⟩
  have hcells : clippedCells emptyWorkbook 0 columnAfter = [] := by rfl
  have hsheet : 0 ≤ (0 : Int) ∧ (0 : Int) < emptyWorkbook.sheets.length := by decide
  have hvalid : Workbook.rcValid columnAfter = true := by decide
  obtain ⟨cols, -, hnew⟩ := new_eq emptyStores hsheet (by decide) hvalid
  rw [if_pos (.inl (by decide))] at hnew
  obtain ⟨it', hit', hhas⟩ := hnew
  obtain rfl := Except.ok.inj (hit'.symm.trans hit)
  rw [hcells] at hvisits
  exact not_visits_nil hhas hvisits

end IteratorCoreVertical

end Ixion
