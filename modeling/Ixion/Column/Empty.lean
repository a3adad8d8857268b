import Ixion.Column.DataRange
import Ixion.Interp.Range

/-!
# Whether a range is empty

Of each column only the block at the first row of the range is looked at: where it is empty and
does not reach the last row, the cell that comes after it is not empty (`isEmptyRange_iff`).
-/

namespace Ixion

open Lib

/-- Whether a column is empty from a first to a last row. -/
def isEmptyBlocks (first last : Int) (blocks : List Block) : Except Failure Bool := do
  let pos ← (ColumnPosition.ofRow blocks first).mapError .exception
  match pos.rest with
  | [] => .error .undefined
  | b :: _ =>
    -- the top block is not empty
    if b.type ≠ .empty then return false
    -- whether this block covers the entire row range
    let lastEmptyRow := toRow (toSize (first + b.size - pos.offset - 1))
    return !decide (lastEmptyRow < last)

namespace ColumnStores

variable {wb : Workbook}

/-- Whether some columns are empty from a first to a last row. -/
def isEmptyColumns (stores : ColumnStores wb) (first last : Int) :
    List (Int × Int) → Except Failure Bool
  | [] => return true
  | (sheet, col) :: cols => do
    -- neither the sheet nor the column is checked
    if ¬ wb.hasSheet sheet ∨ ¬ wb.hasColumn col then .error .undefined
    else if ← isEmptyBlocks first last (stores.blocks sheet col) then
      stores.isEmptyColumns first last cols
    else return false

/-- Whether all cells of a range are empty. -/
def isEmptyRange (stores : ColumnStores wb) (range : AbsRange) : Except Failure Bool := do
  let range ← (wb.shrinkToWorkbook range).mapError .exception
  stores.isEmptyColumns range.first.row range.last.row
    ((countUp range.first.sheet range.last.sheet).flatMap fun sheet ↦
      (countUp range.first.column range.last.column).map fun col ↦ (sheet, col))

end ColumnStores

/-! ## One column -/

section Column

variable {blocks : List Block} {n : Nat} {p : ColumnPosition} {first last : Int}

/-- The cells from a position on, one by one. -/
theorem ColumnPosition.At.getElem?_add (h : p.At blocks n) (k : Nat) :
    (blocks.flatMap Block.cells)[n + k]? = (p.rest.flatMap Block.cells)[p.offset + k]? := by
  rw [← List.getElem?_drop, ← List.getElem?_drop, h.drop]

/-- The block at the first row tells whether a column is empty. -/
theorem exists_isEmptyBlocks (h : Canonical blocks) (hfirst : 0 ≤ first) (hle : first ≤ last)
    (hlast : last < (blocks.flatMap Block.cells).length)
    (hmax : (blocks.flatMap Block.cells).length ≤ rcMax) :
    ∃ e, isEmptyBlocks first last blocks = .ok e ∧
      (e = true ↔ ∀ row, first ≤ row → row ≤ last →
        (blocks.flatMap Block.cells)[row.toNat]? = some .empty) := by
  obtain ⟨p, hp, hat⟩ := ColumnPosition.exists_ofRow blocks first hfirst
    (by omega) (by omega)
  obtain ⟨b, rest, hrest, hoffset⟩ := hat.exists_block (by omega)
  have hcell (k : Nat) : (blocks.flatMap Block.cells)[first.toNat + k]? =
      (b.cells ++ rest.flatMap Block.cells)[p.offset + k]? := by
    rw [hat.getElem?_add, hrest, List.flatMap_cons]
  have hempty_iff (k : Nat) (hk : p.offset + k < b.size) :
      (blocks.flatMap Block.cells)[first.toNat + k]? = some .empty ↔ b.type = .empty := by
    rw [← Block.length_cells] at hk
    rw [hcell, List.getElem?_append_left hk, List.getElem?_eq_getElem hk, Option.some_inj,
      ← Block.type_eq_empty_iff (List.getElem_mem hk)]
  have hsize : first.toNat + (b.size - p.offset) ≤ (blocks.flatMap Block.cells).length := by
    have hdrop := congrArg List.length hat.drop
    rw [hrest, List.flatMap_cons, List.length_drop, List.length_drop, List.length_append,
      Block.length_cells] at hdrop
    omega
  have hrow : toRow (toSize (first + b.size - p.offset - 1)) = first + b.size - p.offset - 1 :=
    toRow_toSize (by omega) (by omega)
  rw [isEmptyBlocks, hp]
  show ∃ e, (match p.rest with | [] => _ | b :: _ => _ : Except Failure Bool) = .ok e ∧ _
  rw [hrest]
  dsimp only
  rw [hrow]
  by_cases hb : b.type = .empty
  · rw [if_neg (not_not.mpr hb)]
    refine ⟨_, rfl, ?_⟩
    rw [Bool.not_eq_true', decide_eq_false_iff_not]
    constructor
    · intro hcover row hrow₁ hrow₂
      obtain ⟨k, hk⟩ : ∃ k : Nat, row.toNat = first.toNat + k := ⟨row.toNat - first.toNat, by omega⟩
      rw [hk, hempty_iff k (by omega)]
      exact hb
    · intro hall hlt
      -- the cell after the block is in the range, and it is not empty
      have hne : rest ≠ [] := by
        rintro rfl
        have hdrop := congrArg List.length hat.drop
        rw [hrest, List.flatMap_singleton, List.length_drop, List.length_drop,
          Block.length_cells] at hdrop
        omega
      obtain ⟨pre, hpre, -⟩ := hat.suffix
      have hcanonical : Canonical (b :: rest) := (hrest ▸ hpre ▸ h).of_append
      obtain ⟨c, hc, htype⟩ := hcanonical.exists_next hne
      have hafter := hall (first + b.size - p.offset) (by omega) (by omega)
      obtain ⟨k, hk, hk'⟩ : ∃ k : Nat, (first + b.size - p.offset).toNat = first.toNat + k ∧
          p.offset + k = b.cells.length := by
        refine ⟨b.size - p.offset, by omega, ?_⟩
        rw [Block.length_cells]
        omega
      rw [hk, hcell, hk', List.getElem?_append_right (Nat.le_refl _), Nat.sub_self,
        ← List.head?_eq_getElem?, hc] at hafter
      rw [Option.some.inj hafter, hb] at htype
      exact htype rfl
  · rw [if_pos hb]
    refine ⟨_, rfl, iff_of_false Bool.false_ne_true fun hall ↦ hb ?_⟩
    rw [← hempty_iff 0 hoffset, Nat.add_zero]
    exact hall first (Int.le_refl _) hle

end Column

/-! ## All columns -/

section Columns

variable {wb : Workbook} {stores : ColumnStores wb} {first last : Int}

/-- The columns are empty exactly if each of them is. -/
theorem exists_isEmptyColumns (hcanonical : ∀ sheet col, Canonical (stores.blocks sheet col))
    (hfirst : 0 ≤ first) (hle : first ≤ last) (hlast : last < wb.sheetSize.row)
    {cols : List (Int × Int)} (hcols : ∀ x ∈ cols, wb.hasSheet x.1 ∧ wb.hasColumn x.2) :
    ∃ e, stores.isEmptyColumns first last cols = .ok e ∧
      (e = true ↔ ∀ x ∈ cols, ∀ row, first ≤ row → row ≤ last →
        wb.cells ⟨x.1, row, x.2⟩ = .empty) := by
  induction cols with
  | nil => exact ⟨true, rfl, iff_of_true rfl fun x hx ↦ (by cases hx)⟩
  | cons x cols ih =>
    obtain ⟨sheet, col⟩ := x
    obtain ⟨hsheet, hcol⟩ := hcols _ List.mem_cons_self
    obtain ⟨rest, hrest, hrestIff⟩ := ih fun x hx ↦ hcols x (List.mem_cons_of_mem _ hx)
    have hlength : (((stores.blocks sheet col).flatMap Block.cells).length : Int) =
        wb.sheetSize.row := by
      rw [stores.cells_blocks, Workbook.length_column]
      omega
    have hmax := stores.row_le
    obtain ⟨e, he, hiff⟩ := exists_isEmptyBlocks (hcanonical sheet col) hfirst hle
      (hlength ▸ hlast) (hlength ▸ hmax)
    have hcell (row : Int) (h : first ≤ row) (h' : row ≤ last) :
        ((stores.blocks sheet col).flatMap Block.cells)[row.toNat]? =
          some (wb.cells ⟨sheet, row, col⟩) := by
      rw [stores.cells_blocks, Workbook.column, List.getElem?_map, List.getElem?_range (by omega),
        Option.map_some, Int.toNat_of_nonneg (hfirst.trans h)]
    have hcolumn : e = true ↔ ∀ row, first ≤ row → row ≤ last →
        wb.cells ⟨sheet, row, col⟩ = .empty := by
      rw [hiff]
      refine forall_congr' fun row ↦ forall_congr' fun h ↦ forall_congr' fun h' ↦ ?_
      rw [hcell row h h', Option.some_inj]
    rw [ColumnStores.isEmptyColumns, if_neg (not_or.mpr ⟨not_not.mpr hsheet, not_not.mpr hcol⟩), he]
    show ∃ e', (if e = true then _ else _ : Except Failure Bool) = .ok e' ∧ _
    rw [List.forall_mem_cons, ← hcolumn]
    cases e with
    | true => exact ⟨rest, hrest, by rw [hrestIff, eq_self_iff_true, true_and]⟩
    | false => exact ⟨false, rfl, iff_of_false Bool.false_ne_true fun h ↦ (by cases h.1)⟩

/-- The part of a range that lies in the workbook, where its first corner does. -/
theorem shrinkToWorkbook_eq {range : AbsRange} (h : wb.inWorkbook range.reorder.first = true) :
    wb.shrinkToWorkbook range = .ok ⟨range.reorder.first,
      ⟨min range.reorder.last.sheet (wb.sheets.length - 1),
        min range.reorder.last.row (wb.sheetSize.row - 1),
        min range.reorder.last.column (wb.sheetSize.column - 1)⟩⟩ := by
  obtain ⟨h₁, h₂, h₃, h₄, h₅, h₆⟩ := decide_eq_true_eq.mp h
  have hsheets : wb.sheets.isEmpty = false := by
    rw [List.isEmpty_eq_false_iff]
    rintro hnil
    rw [hnil, List.length_nil] at h₂
    omega
  rw [Workbook.shrinkToWorkbook]
  dsimp only
  rw [hsheets, if_neg Bool.false_ne_true, if_neg (Int.not_le.mpr h₂), if_neg (by omega),
    if_neg (Int.not_le.mpr h₄), if_neg (Int.not_le.mpr h₆)]
  rfl

/-- A range that meets the workbook from its first corner on is empty exactly if all its cells in
the workbook are. -/
theorem isEmptyRange_iff (stores : ColumnStores wb)
    (hcanonical : ∀ sheet col, Canonical (stores.blocks sheet col)) {range : AbsRange}
    (h : wb.inWorkbook range.reorder.first = true) :
    ∃ e, stores.isEmptyRange range = .ok e ∧
      (e = true ↔ ∀ a, wb.inWorkbook a = true → range.reorder.contains a = true →
        wb.cells a = .empty) := by
  obtain ⟨h₁, h₂, h₃, h₄, h₅, h₆⟩ := decide_eq_true_eq.mp h
  obtain ⟨hsheets, hrows, hcolumns⟩ : range.reorder.Ordered :=
    ⟨min_le_max, min_le_max, min_le_max⟩
  have hcols : ∀ x ∈ ((countUp range.reorder.first.sheet
        (min range.reorder.last.sheet (wb.sheets.length - 1))).flatMap fun sheet ↦
      (countUp range.reorder.first.column
        (min range.reorder.last.column (wb.sheetSize.column - 1))).map fun col ↦ (sheet, col)),
      wb.hasSheet x.1 ∧ wb.hasColumn x.2 := by
    intro x hx
    obtain ⟨sheet, hsheet, hx⟩ := List.mem_flatMap.mp hx
    obtain ⟨col, hcol, rfl⟩ := List.mem_map.mp hx
    rw [mem_countUp, le_min_iff] at hsheet hcol
    exact ⟨⟨h₁.trans hsheet.1, Int.lt_of_le_sub_one hsheet.2.2⟩,
      h₃.trans hcol.1, Int.lt_of_le_sub_one hcol.2.2⟩
  obtain ⟨e, he, hiff⟩ := exists_isEmptyColumns hcanonical h₅
    (le_min hrows (Int.le_sub_one_of_lt h₆))
    (Int.lt_of_le_sub_one (min_le_right _ _)) hcols
  refine ⟨e, ?_, ?_⟩
  · rw [ColumnStores.isEmptyRange, shrinkToWorkbook_eq h]
    exact he
  · rw [hiff]
    constructor
    · intro hall a ha hrange
      obtain ⟨-, hs, -, hc, -, hr⟩ := decide_eq_true_eq.mp ha
      obtain ⟨hs₁, hs₂, hr₁, hr₂, hc₁, hc₂⟩ := AbsRange.contains_iff.mp hrange
      refine hall (a.sheet, a.column) (List.mem_flatMap.mpr ⟨a.sheet, ?_, ?_⟩) a.row hr₁
        (le_min hr₂ (Int.le_sub_one_of_lt hr))
      · exact mem_countUp.mpr ⟨hs₁, le_min hs₂ (Int.le_sub_one_of_lt hs)⟩
      · exact List.mem_map.mpr ⟨a.column,
          mem_countUp.mpr ⟨hc₁, le_min hc₂ (Int.le_sub_one_of_lt hc)⟩, rfl⟩
    · intro hall x hx row hrow hrow'
      obtain ⟨sheet, hsheet, hx⟩ := List.mem_flatMap.mp hx
      obtain ⟨col, hcol, rfl⟩ := List.mem_map.mp hx
      rw [mem_countUp, le_min_iff] at hsheet hcol
      rw [le_min_iff] at hrow'
      refine hall ⟨sheet, row, col⟩ (decide_eq_true_eq.mpr ?_) (AbsRange.contains_iff.mpr ?_)
      · exact ⟨h₁.trans hsheet.1, Int.lt_of_le_sub_one hsheet.2.2, h₃.trans hcol.1,
          Int.lt_of_le_sub_one hcol.2.2, h₅.trans hrow, Int.lt_of_le_sub_one hrow'.2⟩
      · exact ⟨hsheet.1, hsheet.2.1, hrow, hrow'.1, hcol.1, hcol.2.1⟩

end Columns

theorem isEmptyRange_iff_oneRow :
    ∃ e, oneRowStores.isEmptyRange ⟨⟨0, 3, 1⟩, ⟨0, 0, 0⟩⟩ = .ok e ∧
      (e = true ↔ ∀ a, oneRowWorkbook.inWorkbook a = true →
        (AbsRange.mk ⟨0, 3, 1⟩ ⟨0, 0, 0⟩).reorder.contains a = true →
          oneRowWorkbook.cells a = .empty) :=
  isEmptyRange_iff oneRowStores canonical_oneRowStores (by decide)

end Ixion
