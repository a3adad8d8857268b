import Ixion.Lib.Blocks
import Ixion.Number
import Ixion.Result.Cache

/-!
# Column stores

A column keeps its cells in blocks.  The cells of a block are of one type; a block of empty
cells keeps no more than their number.  Nothing is assumed about how a column is divided,
but that its blocks hold its cells one after the other.
-/

namespace Ixion

open Lib

/-! ## Blocks -/

/-- A block of a column. -/
inductive Block where
  | empty (size : Nat)
  | boolean (bs : List Bool)
  | numeric (vs : List ℚ)
  | string (sids : List StringId)
  | formula (cs : List FormulaCell)

namespace Block

/-- The cells in a block. -/
def cells : Block → List Cell
  | empty size => .replicate size .empty
  | boolean bs => bs.map .boolean
  | numeric vs => vs.map .numeric
  | string sids => sids.map .string
  | formula cs => cs.map .formula

/-- The number of cells in a block. -/
def size : Block → Nat
  | empty size => size
  | boolean bs => bs.length
  | numeric vs => vs.length
  | string sids => sids.length
  | formula cs => cs.length

@[simp] theorem length_cells (b : Block) : b.cells.length = b.size := by
  cases b with
  | empty size => exact List.length_replicate
  | _ => exact List.length_map _

end Block

/-! ## Stores -/

variable {S T : Type}

/-- The cells of a column, from the first row on. -/
def Workbook.column (wb : Workbook) (sheet col : Int) : List Cell :=
  (List.range wb.sheetSize.row.toNat).map fun row : Nat ↦ wb.cells ⟨sheet, row, col⟩

/-- A division of the columns of a workbook into blocks.  The number of rows is that of a
sheet, which is a row number. -/
structure ColumnStores (wb : Workbook) where
  blocks : Int → Int → List Block
  cells_blocks : ∀ sheet col, (blocks sheet col).flatMap Block.cells = wb.column sheet col
  row_le : wb.sheetSize.row ≤ rcMax

@[simp] theorem Workbook.length_column (wb : Workbook) (sheet col : Int) :
    (wb.column sheet col).length = wb.sheetSize.row.toNat := by
  rw [Workbook.column, List.length_map, List.length_range]

/-- The cells of a column from a first to a last row. -/
theorem Workbook.take_drop_column (wb : Workbook) (sheet col : Int) {first last : Int}
    (hfirst : 0 ≤ first) (hlast : last < wb.sheetSize.row) :
    ((wb.column sheet col).drop first.toNat).take (last - first + 1).toNat =
      (countUp first last).map fun row ↦ wb.cells ⟨sheet, row, col⟩ := by
  apply List.ext_getElem
  · rw [List.length_take, List.length_drop, length_column, countUp, List.length_map,
      List.length_map, List.length_range]
    omega
  · intro i h h'
    have hrow : ((first.toNat + i : Nat) : Int) = first + i := by omega
    simp only [Workbook.column, countUp, List.getElem_take, List.getElem_drop, List.getElem_map,
      List.getElem_range, hrow]

namespace ColumnStores

variable {wb : Workbook}

/-- The blocks of a column that there is. -/
def columnAt (stores : ColumnStores wb) (sheet col : Int) : Except Exn (List Block) :=
  if 0 ≤ sheet ∧ sheet < wb.sheets.length ∧ 0 ≤ col ∧ col < wb.sheetSize.column then
    .ok (stores.blocks sheet col)
  else .error .outOfRange

/-- The block and the position in it of a row. -/
def position (blocks : List Block) (row : Int) : Except Exn (List Block × Nat) :=
  match Lib.position Block.cells blocks (toSize row) with
  | some pos => .ok pos
  | none => .error .outOfRange

end ColumnStores

/-! ## The cells of a range -/

namespace AbsRange

/-- The rows and columns of a valid range are those of a sheet, or its rows are not set. -/
structure InsideSheet (r : AbsRange) (sheetSize : RcSize) : Prop where
  valid : r.valid = true
  rows : r.allRows = true ∨ (r.last.row < sheetSize.row ∧ r.last.row < rowUnset)
  columns : r.last.column < sheetSize.column

/-- Whether a cell is in a range, which has every row if its rows are not set. -/
def Selects (r : AbsRange) (a : AbsAddress) : Prop :=
  (r.first.sheet ≤ a.sheet ∧ a.sheet ≤ r.last.sheet) ∧
    (r.allRows = true ∨ (r.first.row ≤ a.row ∧ a.row ≤ r.last.row)) ∧
    (r.first.column ≤ a.column ∧ a.column ≤ r.last.column)

/-- The addresses of a range, sheet by sheet and column by column. -/
def addresses (r : AbsRange) : List AbsAddress :=
  (countUp r.first.sheet r.last.sheet).flatMap fun sheet ↦
    (countUp r.first.column r.last.column).flatMap fun col ↦
      (countUp r.first.row r.last.row).map fun row ↦ ⟨sheet, row, col⟩

theorem mem_addresses {r : AbsRange} {a : AbsAddress} : a ∈ r.addresses ↔ r.contains a = true := by
  rw [addresses, List.mem_flatMap, contains_iff]
  constructor
  · rintro ⟨sheet, hsheet, hmem⟩
    obtain ⟨col, hcol, hmem⟩ := List.mem_flatMap.mp hmem
    obtain ⟨row, hrow, rfl⟩ := List.mem_map.mp hmem
    rw [mem_countUp] at hsheet hcol hrow
    exact ⟨hsheet.1, hsheet.2, hrow.1, hrow.2, hcol.1, hcol.2⟩
  · rintro ⟨h₁, h₂, h₃, h₄, h₅, h₆⟩
    refine ⟨a.sheet, mem_countUp.mpr ⟨h₁, h₂⟩, List.mem_flatMap.mpr ⟨a.column, ?_, ?_⟩⟩
    · exact mem_countUp.mpr ⟨h₅, h₆⟩
    · exact List.mem_map.mpr ⟨a.row, mem_countUp.mpr ⟨h₃, h₄⟩, rfl⟩

/-- No address is there twice. -/
theorem nodup_addresses (r : AbsRange) : r.addresses.Nodup := by
  rw [addresses, List.nodup_flatMap]
  constructor
  · intro sheet _
    rw [List.nodup_flatMap]
    constructor
    · intro col _
      exact (nodup_countUp _ _).map fun _ _ h ↦ congrArg AbsAddress.row h
    · refine (nodup_countUp _ _).imp fun {col col'} hne a h h' ↦ hne ?_
      obtain ⟨row, -, rfl⟩ := List.mem_map.mp h
      obtain ⟨row', -, h'⟩ := List.mem_map.mp h'
      exact (congrArg AbsAddress.column h').symm
  · refine (nodup_countUp _ _).imp fun {sheet sheet'} hne a h h' ↦ hne ?_
    obtain ⟨col, -, h⟩ := List.mem_flatMap.mp h
    obtain ⟨row, -, rfl⟩ := List.mem_map.mp h
    obtain ⟨col', -, h'⟩ := List.mem_flatMap.mp h'
    obtain ⟨row', -, h'⟩ := List.mem_map.mp h'
    exact (congrArg AbsAddress.sheet h').symm

end AbsRange

end Ixion
