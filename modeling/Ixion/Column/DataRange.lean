import Ixion.Column.Iterator
import Ixion.Table
import Mathlib.Order.Bounds.Basic

/-!
# The data range of a sheet

The data range of a sheet is found from the first and the last block of each of its columns.
The first and the last row with data are not looked for any more where they cannot get better;
so with a single row they are never looked for, and the empty columns that come first are not
left out (`getDataRange_iff`).
-/

namespace Ixion

open Lib

/-! ## One column -/

/-- Set the first row from a column.  Where the whole column is seen to be empty there is no
range. -/
def dataRangeFirst (range : AbsRange) (col : List Block) : Except Failure (Option AbsRange) :=
  if 0 < range.first.row then
    match col with
    | [] => .error (.assertionFailed "it != it_end")
    | b :: rest =>
      if b.type = .empty then
        -- the first block is empty
        let offset := toRow b.size
        match rest with
        | [] => .ok none
        | b' :: _ =>
          if b'.type = .empty then .error (.assertionFailed "it->type != element_type_empty")
          else .ok (some (if offset < range.first.row then { range with first.row := offset }
            else range))
      else .ok (some { range with first.row := 0 })
  else .ok (some range)

/-- Set the last row from a column. -/
def dataRangeLast (rowSize : Int) (range : AbsRange) (col : List Block) :
    Except Failure (Option AbsRange) :=
  if range.last.row < rowSize - 1 then
    match col.reverse with
    | [] => .error (.assertionFailed "it != it_end")
    | b :: rest =>
      if b.type = .empty then
        -- the last block is empty
        match rest with
        | [] => .ok none
        | b' :: _ =>
          if b'.type = .empty then .error (.assertionFailed "it->type != element_type_empty")
          else
            let lastDataRow := toRow (toSize ((col.flatMap Block.cells).length - b.size - 1))
            .ok (some (if range.last.row < lastDataRow then { range with last.row := lastDataRow }
              else range))
      else .ok (some { range with last.row := rowSize - 1 })
  else .ok (some range)

/-- An empty column is left out if it comes before all others. -/
def skipColumn (range : AbsRange) : AbsRange :=
  if range.last.column < 0 then { range with first.column := range.first.column + 1 } else range

/-- Whether the first cell of a column is empty. -/
def ColumnStores.isEmptyAt (blocks : List Block) (row : Int) : Except Exn Bool := do
  match ← position blocks row with
  | ([], _) => throw .outOfRange
  | (b :: _, _) => return b.type = .empty

/-- What a column makes of the range. -/
def dataRangeColumn (rowSize : Int) (range : AbsRange) (col : List Block) (i : Nat) :
    Except Failure AbsRange :=
  if col.isEmpty then .ok (skipColumn range)
  else do
    match ← dataRangeFirst range col with
    | none => return skipColumn range
    | some range =>
      match ← dataRangeLast rowSize range col with
      | none => return skipColumn range
      | some range =>
        -- whether the column contains a cell that is not empty
        if 1 < col.length then return { range with last.column := i }
        else if ← (ColumnStores.isEmptyAt col 0).mapError .exception then return range
        else return { range with last.column := i }

/-- The range of the cells of a sheet that are not empty. -/
def ColumnStores.getDataRange {wb : Workbook} (stores : ColumnStores wb) (sheet : Int) :
    Except Failure AbsRange :=
  match stores.getColumns sheet with
  | none => .error (.exception .outOfRange)
  | some [] => .ok .invalid
  | some (col :: cols) => do
    let rowSize := toRow (col.flatMap Block.cells).length
    if rowSize = 0 then return .invalid
    let range : AbsRange := ⟨⟨sheet, rowSize - 1, 0⟩, ⟨sheet, 0, -1⟩⟩
    let range ← (col :: cols).zipIdx.foldlM (fun range x ↦ dataRangeColumn rowSize range x.1 x.2)
      range
    -- without a data column the whole sheet is empty
    if range.last.column < 0 then return .invalid
    return range

/-! ## The data of a column -/

/-- The rows of a column with a cell that is not empty. -/
def dataRows (cs : List Cell) : Set Int :=
  {row | 0 ≤ row ∧ ∃ c, cs[row.toNat]? = some c ∧ c ≠ .empty}

section Rows

variable {cs : List Cell} {c : Cell} {n : Nat}

/-- Empty cells before the first one that is not. -/
theorem isLeast_dataRows (hc : c ≠ .empty) :
    IsLeast (dataRows (.replicate n .empty ++ c :: cs)) n := by
  refine ⟨⟨Int.natCast_nonneg n, c, ?_, hc⟩, ?_⟩
  · rw [Int.toNat_natCast, List.getElem?_append_right (by rw [List.length_replicate]),
      List.length_replicate, Nat.sub_self]
    rfl
  · rintro row ⟨hrow, c', hc', hne⟩
    by_contra hlt
    have hlt' : row.toNat < n := by omega
    rw [List.getElem?_append_left (by rwa [List.length_replicate]),
      List.getElem?_replicate_of_lt hlt'] at hc'
    exact hne (Option.some.inj hc').symm

/-- Empty cells after the last one that is not. -/
theorem isGreatest_dataRows (hc : c ≠ .empty) :
    IsGreatest (dataRows (cs ++ c :: .replicate n .empty)) cs.length := by
  refine ⟨⟨Int.natCast_nonneg _, c, ?_, hc⟩, ?_⟩
  · rw [Int.toNat_natCast, List.getElem?_append_right (Nat.le_refl _), Nat.sub_self]
    rfl
  · rintro row ⟨hrow, c', hc', hne⟩
    by_contra hlt
    obtain ⟨k, hk⟩ : ∃ k, row.toNat = cs.length + (k + 1) := ⟨row.toNat - cs.length - 1, by omega⟩
    rw [hk, List.getElem?_append_right (Nat.le_add_right _ _), Nat.add_sub_cancel_left,
      List.getElem?_cons_succ] at hc'
    exact hne (List.eq_of_mem_replicate (List.mem_of_getElem? hc'))

theorem dataRows_replicate : dataRows (.replicate n .empty) = ∅ := by
  rw [Set.eq_empty_iff_forall_notMem]
  rintro row ⟨-, c, hc, hne⟩
  exact hne (List.eq_of_mem_replicate (List.mem_of_getElem? hc))

end Rows

/-- The cells of a block that is empty. -/
theorem Block.cells_of_type_empty {b : Block} (h : b.type = .empty) :
    b.cells = .replicate b.size .empty := by
  cases b with
  | empty size => rfl
  | _ => exact nomatch h

/-- The cells of a block that is not empty. -/
theorem Block.ne_empty_of_type_ne {b : Block} (h : b.type ≠ .empty) {c : Cell} (hc : c ∈ b.cells) :
    c ≠ .empty := fun hempty ↦ h ((Block.type_eq_empty_iff hc).mpr hempty)

/-- The cells of a block, from the first on. -/
theorem Block.exists_cons {b : Block} (h : 0 < b.size) : ∃ c cs, b.cells = c :: cs :=
  List.exists_cons_of_length_pos (by rwa [Block.length_cells])

/-- The cells of a block, up to the last. -/
theorem Block.exists_concat {b : Block} (h : 0 < b.size) : ∃ cs c, b.cells = cs ++ [c] := by
  have hne : b.cells ≠ [] := by
    intro hnil
    rw [← Block.length_cells, hnil] at h
    exact nomatch h
  exact ⟨b.cells.dropLast, b.cells.getLast hne, (List.dropLast_append_getLast hne).symm⟩

/-! ## What one column makes of the range -/

theorem toRow_natCast {n : Nat} (h : (n : Int) ≤ rcMax) : toRow n = n := by
  have hrow := toRow_toSize (n := n) (Int.le_trans (by decide) (Int.natCast_nonneg n)) h
  rwa [toSize_of_nonneg (Int.natCast_nonneg n) h, Int.toNat_natCast] at hrow

section Column

variable {b : Block} {blocks : List Block} {range : AbsRange} {rowSize : Int}

/-- A column with an empty block only. -/
theorem dataRows_singleton (hb : b.type = .empty) :
    dataRows ([b].flatMap Block.cells) = ∅ := by
  rw [List.flatMap_singleton, Block.cells_of_type_empty hb, dataRows_replicate]

/-- The first row with data is that of the first or of the second block. -/
theorem isLeast_dataRows_blocks (h : Canonical (b :: blocks))
    (hdata : b.type = .empty → blocks ≠ []) :
    IsLeast (dataRows ((b :: blocks).flatMap Block.cells))
    (if b.type = .empty then b.size else 0) := by
  split
  case isTrue hb =>
    obtain ⟨b', blocks, rfl⟩ := List.exists_cons_of_ne_nil (hdata hb)
    have hb' : b'.type ≠ .empty := hb ▸ ((List.isChain_cons_cons.mp h.chain).1).symm
    obtain ⟨c, cs, hcs⟩ := Block.exists_cons h.tail.head_pos
    rw [List.flatMap_cons, List.flatMap_cons, Block.cells_of_type_empty hb, hcs]
    exact isLeast_dataRows (Block.ne_empty_of_type_ne hb' (hcs ▸ List.mem_cons_self))
  case isFalse hb =>
    obtain ⟨c, cs, hcs⟩ := Block.exists_cons h.head_pos
    rw [List.flatMap_cons, hcs]
    exact isLeast_dataRows (n := 0) (Block.ne_empty_of_type_ne hb (hcs ▸ List.mem_cons_self))

/-- A column without data has one block, which is empty. -/
theorem exists_eq_singleton (h : Canonical blocks) (hne : blocks ≠ [])
    (hdata : dataRows (blocks.flatMap Block.cells) = ∅) :
    ∃ b, blocks = [b] ∧ b.type = .empty ∧ 0 < b.size := by
  obtain ⟨b, rest, rfl⟩ := List.exists_cons_of_ne_nil hne
  by_cases hb : b.type = .empty ∧ rest = []
  · exact ⟨b, congrArg (List.cons b) hb.2, hb.1, h.head_pos⟩
  · obtain ⟨hmem, -⟩ := isLeast_dataRows_blocks h fun hb' hrest ↦ hb ⟨hb', hrest⟩
    rw [hdata] at hmem
    exact absurd hmem (Set.notMem_empty _)

variable (range) in
/-- The first row with data is found in the first two blocks. -/
theorem exists_dataRangeFirst (h : Canonical (b :: blocks)) (hdata : b.type = .empty → blocks ≠ [])
    (hmax : ((b :: blocks).flatMap Block.cells).length ≤ rcMax) (hrow : 0 ≤ range.first.row) :
    ∃ row, IsLeast (dataRows ((b :: blocks).flatMap Block.cells)) row ∧
      dataRangeFirst range (b :: blocks) =
        .ok (some { range with first.row := min range.first.row row }) := by
  refine ⟨_, isLeast_dataRows_blocks h hdata, ?_⟩
  by_cases hb : b.type = .empty
  · obtain ⟨b', blocks, rfl⟩ := List.exists_cons_of_ne_nil (hdata hb)
    have hb' : b'.type ≠ .empty := hb ▸ ((List.isChain_cons_cons.mp h.chain).1).symm
    have hsize : toRow b.size = b.size := by
      rw [List.flatMap_cons, List.length_append, Block.length_cells] at hmax
      rw [toRow_natCast (by omega)]
    rw [dataRangeFirst, if_pos hb]
    dsimp only
    rw [if_pos hb, if_neg hb', hsize]
    split
    case isTrue =>
      split
      case isTrue hlt => rw [Int.min_eq_right hlt.le]
      case isFalse hle => rw [Int.min_eq_left (Int.not_lt.mp hle)]
    case isFalse hlt =>
      rw [Int.min_eq_left (Int.le_trans (Int.not_lt.mp hlt) (Int.natCast_nonneg b.size))]
  · rw [dataRangeFirst, if_neg hb, if_neg hb, Int.min_eq_right hrow]
    split
    case isTrue => rfl
    case isFalse hlt =>
      have hzero : range.first.row = 0 := Int.le_antisymm (Int.not_lt.mp hlt) hrow
      rw [← hzero]

variable (range) in
/-- The last row with data is found in the last two blocks. -/
theorem exists_dataRangeLast (h : Canonical (blocks ++ [b])) (hdata : b.type = .empty → blocks ≠ [])
    (hsize : ((blocks ++ [b]).flatMap Block.cells).length = rowSize) (hmax : rowSize ≤ rcMax)
    (hrow : range.last.row ≤ rowSize - 1) :
    ∃ row, IsGreatest (dataRows ((blocks ++ [b]).flatMap Block.cells)) row ∧
      dataRangeLast rowSize range (blocks ++ [b]) =
        .ok (some { range with last.row := max range.last.row row }) := by
  have hpos := h.size_pos b (List.mem_append_right blocks List.mem_cons_self)
  by_cases hb : b.type = .empty
  · obtain ⟨blocks, b', rfl⟩ : ∃ front b', blocks = front ++ [b'] :=
      ⟨_, _, (List.dropLast_append_getLast (hdata hb)).symm⟩
    have hne : b'.type ≠ b.type := (List.isChain_append.mp h.chain).2.2 b'
      (by rw [List.getLast?_concat]; rfl) b rfl
    have hb' : b'.type ≠ .empty := hb ▸ hne
    obtain ⟨cs, c, hcs⟩ := Block.exists_concat (b := b') (h.size_pos b'
      (List.mem_append_left _ List.mem_concat_self))
    have hc : c ≠ .empty := Block.ne_empty_of_type_ne hb' (hcs ▸ List.mem_concat_self)
    have hcells : (blocks ++ [b'] ++ [b]).flatMap Block.cells =
        (blocks.flatMap Block.cells ++ cs) ++ c :: .replicate b.size .empty := by
      rw [List.flatMap_append, List.flatMap_append, List.flatMap_singleton, List.flatMap_singleton,
        hcs, Block.cells_of_type_empty hb]
      simp only [List.append_assoc, List.singleton_append]
    have hlength : rowSize - b.size - 1 = (blocks.flatMap Block.cells ++ cs).length := by
      rw [← hsize, hcells]
      simp only [List.length_append, List.length_cons, List.length_replicate]
      omega
    refine ⟨rowSize - b.size - 1, ?_, ?_⟩
    · rw [hcells, hlength]
      exact isGreatest_dataRows hc
    · have hrow'' : toRow (toSize (rowSize - b.size - 1)) = rowSize - b.size - 1 :=
        toRow_toSize (by omega) (by omega)
      rw [dataRangeLast, hsize, List.reverse_append, List.reverse_singleton,
        List.singleton_append, List.reverse_append, List.reverse_singleton, List.singleton_append]
      dsimp only
      rw [if_pos hb, if_neg hb', hrow'']
      split
      case isTrue =>
        split
        case isTrue hlt => rw [Int.max_eq_right hlt.le]
        case isFalse hle => rw [Int.max_eq_left (Int.not_lt.mp hle)]
      case isFalse hlt =>
        rw [Int.max_eq_left (by omega)]
  · obtain ⟨cs, c, hcs⟩ := Block.exists_concat hpos
    have hc : c ≠ .empty := Block.ne_empty_of_type_ne hb (hcs ▸ List.mem_concat_self)
    have hcells : (blocks ++ [b]).flatMap Block.cells =
        (blocks.flatMap Block.cells ++ cs) ++ c :: .replicate 0 .empty := by
      rw [List.flatMap_append, List.flatMap_singleton, hcs, List.append_assoc]
      rfl
    have hlast : (((blocks.flatMap Block.cells ++ cs).length : Nat) : Int) = rowSize - 1 := by
      rw [← hsize, hcells]
      simp only [List.length_append, List.length_cons, List.length_replicate]
      omega
    refine ⟨rowSize - 1, ?_, ?_⟩
    · rw [hcells, ← hlast]
      exact isGreatest_dataRows hc
    · rw [dataRangeLast, Int.max_eq_right hrow, List.reverse_append, List.reverse_singleton,
        List.singleton_append]
      dsimp only
      rw [if_neg hb]
      split
      case isTrue => rfl
      case isFalse hlt =>
        have heq : range.last.row = rowSize - 1 := Int.le_antisymm hrow (Int.not_lt.mp hlt)
        rw [← heq]

/-- The first cell of a column. -/
theorem isEmptyAt_zero (hpos : 0 < b.size) :
    ColumnStores.isEmptyAt (b :: blocks) 0 = .ok (b.type = .empty) := by
  have hposition : ColumnStores.position (b :: blocks) 0 = .ok (b :: blocks, 0) := by
    rw [ColumnStores.position, toSize_of_nonneg (Int.le_refl 0) (by decide), Lib.position,
      if_pos (by rwa [Block.length_cells])]
    rfl
  rw [ColumnStores.isEmptyAt, hposition]
  rfl

/-- A column without data is left out, unless the rows with data are not looked for any more. -/
theorem dataRangeColumn_of_empty (hb : b.type = .empty) (hpos : 0 < b.size) (i : Nat) :
    dataRangeColumn rowSize range [b] i =
      .ok (if 0 < range.first.row ∨ range.last.row < rowSize - 1 then skipColumn range
        else range) := by
  by_cases hfirst : 0 < range.first.row
  · rw [if_pos (.inl hfirst), dataRangeColumn, dataRangeFirst, if_pos hfirst]
    dsimp only
    rw [if_pos hb]
    rfl
  by_cases hlast : range.last.row < rowSize - 1
  · rw [if_pos (.inr hlast), dataRangeColumn, dataRangeFirst, if_neg hfirst]
    show (dataRangeLast rowSize range [b] >>= fun o ↦ _) = _
    rw [dataRangeLast, if_pos hlast, List.reverse_singleton]
    dsimp only
    rw [if_pos hb]
    rfl
  · rw [if_neg (not_or.mpr ⟨hfirst, hlast⟩), dataRangeColumn, dataRangeFirst, if_neg hfirst]
    show (dataRangeLast rowSize range [b] >>= fun o ↦ _) = _
    rw [dataRangeLast, if_neg hlast]
    show ((ColumnStores.isEmptyAt [b] 0).mapError Failure.exception >>= fun o ↦ _) = _
    rw [isEmptyAt_zero hpos, decide_eq_true hb]
    rfl

/-- A column with data is in the range, and its rows are. -/
theorem exists_dataRangeColumn (h : Canonical blocks)
    (hdata : (dataRows (blocks.flatMap Block.cells)).Nonempty)
    (hsize : (blocks.flatMap Block.cells).length = rowSize) (hmax : rowSize ≤ rcMax)
    (hfirst : 0 ≤ range.first.row) (hlast : range.last.row ≤ rowSize - 1) (i : Nat) :
    ∃ first last, IsLeast (dataRows (blocks.flatMap Block.cells)) first ∧
      IsGreatest (dataRows (blocks.flatMap Block.cells)) last ∧
      dataRangeColumn rowSize range blocks i =
        .ok ⟨⟨range.first.sheet, min range.first.row first, range.first.column⟩,
          ⟨range.last.sheet, max range.last.row last, i⟩⟩ := by
  have hne : ∀ b, b.type = .empty → blocks ≠ [b] := by
    rintro b hb rfl
    rw [dataRows_singleton hb] at hdata
    exact Set.not_nonempty_empty hdata
  obtain ⟨b, rest, rfl⟩ : ∃ b rest, blocks = b :: rest := by
    refine List.exists_cons_of_ne_nil ?_
    rintro rfl
    obtain ⟨row, -, c, hc, -⟩ := hdata
    exact nomatch hc
  obtain ⟨first, hleast, hfirstEq⟩ := exists_dataRangeFirst range h
    (fun hb hrest ↦ hne b hb (congrArg (List.cons b) hrest)) (hsize ▸ hmax) hfirst
  obtain ⟨front, b', hfront⟩ : ∃ front b', b :: rest = front ++ [b'] :=
    ⟨_, _, (List.dropLast_append_getLast (List.cons_ne_nil b rest)).symm⟩
  obtain ⟨last, hgreatest, hlastEq⟩ := exists_dataRangeLast
    { range with first.row := min range.first.row first } (hfront ▸ h)
    (fun hb hnil ↦ hne b' hb (by rw [hfront, hnil]; rfl)) (hfront ▸ hsize) hmax hlast
  refine ⟨first, last, hleast, hfront ▸ hgreatest, ?_⟩
  rw [dataRangeColumn, hfirstEq]
  show (dataRangeLast rowSize _ (b :: rest) >>= fun o ↦ _) = _
  rw [hfront, hlastEq, ← hfront]
  show (if 1 < (b :: rest).length then .ok _ else _ : Except Failure AbsRange) = _
  split
  case isTrue => rfl
  case isFalse hlen =>
    have hrest : rest = [] := by
      rw [List.length_cons] at hlen
      exact List.eq_nil_of_length_eq_zero (by omega)
    have hb : b.type ≠ .empty := fun hb ↦ hne b hb (congrArg (List.cons b) hrest)
    rw [isEmptyAt_zero h.head_pos, decide_eq_false hb]
    rfl

end Column

/-! ## All columns -/

section Columns

variable {wb : Workbook} {stores : ColumnStores wb} {sheet : Int}

/-- The rows and columns of the cells of a sheet that are not empty. -/
def dataCells (wb : Workbook) (sheet : Int) : Set (Int × Int) :=
  {x | (0 ≤ x.1 ∧ x.1 < wb.sheetSize.row) ∧ (0 ≤ x.2 ∧ x.2 < wb.sheetSize.column) ∧
    wb.cells ⟨sheet, x.1, x.2⟩ ≠ .empty}

/-- A range has all cells of a set, and one of them on each of its sides. -/
structure IsBoundingBox (data : Set (Int × Int)) (range : AbsRange) : Prop where
  firstRow : IsLeast (Prod.fst '' data) range.first.row
  lastRow : IsGreatest (Prod.fst '' data) range.last.row
  firstColumn : IsLeast (Prod.snd '' data) range.first.column
  lastColumn : IsGreatest (Prod.snd '' data) range.last.column

/-- The range is the smallest one of its sheet with all its data, and is invalid exactly if there
is none. -/
structure IsDataRange (wb : Workbook) (sheet : Int) (range : AbsRange) : Prop where
  invalid_iff : range = .invalid ↔ dataCells wb sheet = ∅
  sheets : (dataCells wb sheet).Nonempty → range.first.sheet = sheet ∧ range.last.sheet = sheet
  box : (dataCells wb sheet).Nonempty → IsBoundingBox (dataCells wb sheet) range

/-- The data in the columns before one. -/
def dataBefore (wb : Workbook) (sheet n : Int) : Set (Int × Int) :=
  {x | x ∈ dataCells wb sheet ∧ x.2 < n}

/-- The data in one column. -/
def dataAt (wb : Workbook) (sheet n : Int) : Set (Int × Int) :=
  {x | x ∈ dataCells wb sheet ∧ x.2 = n}

theorem dataBefore_succ (n : Int) :
    dataBefore wb sheet (n + 1) = dataBefore wb sheet n ∪ dataAt wb sheet n := by
  ext x
  rw [Set.mem_union]
  constructor
  · rintro ⟨hx, hlt⟩
    exact (Int.lt_or_eq_of_le (Int.lt_add_one_iff.mp hlt)).imp (⟨hx, ·⟩) (⟨hx, ·⟩)
  · rintro (⟨hx, hlt⟩ | ⟨hx, heq⟩)
    · exact ⟨hx, Int.lt_trans hlt (Int.lt_succ n)⟩
    · exact ⟨hx, heq ▸ Int.lt_succ x.2⟩

theorem dataBefore_zero : dataBefore wb sheet 0 = ∅ := by
  rw [Set.eq_empty_iff_forall_notMem]
  rintro x ⟨hx, hlt⟩
  exact Int.not_lt.mpr hx.2.1.1 hlt

theorem dataBefore_column : dataBefore wb sheet wb.sheetSize.column = dataCells wb sheet := by
  ext x
  exact ⟨fun h ↦ h.1, fun h ↦ ⟨h, h.2.1.2⟩⟩

variable (wb sheet) in
/-- The rows of the data in a column. -/
theorem fst_dataAt {n : Int} (hn : 0 ≤ n) (hn' : n < wb.sheetSize.column) :
    Prod.fst '' dataAt wb sheet n = dataRows (wb.column sheet n) := by
  ext row
  rw [Set.mem_image]
  constructor
  · rintro ⟨⟨row, col⟩, ⟨⟨⟨h₁, h₂⟩, -, hne⟩, rfl⟩, rfl⟩
    dsimp only at h₁ h₂ hne ⊢
    refine ⟨h₁, _, ?_, hne⟩
    rw [Workbook.column, List.getElem?_map, List.getElem?_range (by omega), Option.map_some,
      Int.toNat_of_nonneg h₁]
  · rintro ⟨hrow, c, hc, hne⟩
    have hlt : row.toNat < wb.sheetSize.row.toNat := by
      rw [← wb.length_column sheet n]
      exact List.getElem?_eq_some_iff.mp hc |>.1
    rw [Workbook.column, List.getElem?_map, List.getElem?_range hlt, Option.map_some,
      Int.toNat_of_nonneg hrow] at hc
    refine ⟨(row, n), ⟨⟨⟨hrow, by omega⟩, ⟨hn, hn'⟩, ?_⟩, rfl⟩, rfl⟩
    rw [Option.some.inj hc]
    exact hne

/-- The column of the data in it. -/
theorem snd_dataAt {n : Int} (h : (dataAt wb sheet n).Nonempty) :
    Prod.snd '' dataAt wb sheet n = {n} := by
  obtain ⟨x, hx⟩ := h
  ext col
  rw [Set.mem_image, Set.mem_singleton_iff]
  constructor
  · rintro ⟨y, ⟨-, rfl⟩, rfl⟩
    rfl
  · rintro rfl
    exact ⟨x, hx, hx.2⟩

/-- The range after the columns before one.  With a single row the first column stays where it
is. -/
def DataRangeBefore (wb : Workbook) (sheet n : Int) (range : AbsRange) : Prop :=
  (dataBefore wb sheet n = ∅ ∧
    range = ⟨⟨sheet, wb.sheetSize.row - 1, if 1 < wb.sheetSize.row then n else 0⟩,
      ⟨sheet, 0, -1⟩⟩) ∨
  (range.first.sheet = sheet ∧ range.last.sheet = sheet ∧
    ∃ first, range.first.column = (if 1 < wb.sheetSize.row then first else 0) ∧
      IsBoundingBox (dataBefore wb sheet n) { range with first.column := first })

/-- A column without data. -/
theorem dataRangeBefore_of_empty {n : Nat} {range : AbsRange}
    (hempty : dataAt wb sheet n = ∅) {b : Block} (hb : b.type = .empty) (hpos : 0 < b.size)
    (h : DataRangeBefore wb sheet n range) :
    ∃ range', dataRangeColumn wb.sheetSize.row range [b] n = .ok range' ∧
      DataRangeBefore wb sheet (n + 1) range' := by
  refine ⟨_, dataRangeColumn_of_empty hb hpos n, ?_⟩
  have hbefore : dataBefore wb sheet (n + 1) = dataBefore wb sheet n := by
    rw [dataBefore_succ, hempty, Set.union_empty]
  rw [DataRangeBefore, hbefore]
  obtain ⟨hnone, rfl⟩ | h := h
  · refine .inl ⟨hnone, ?_⟩
    dsimp only
    by_cases hrows : 1 < wb.sheetSize.row
    · have hnone : (-1 : Int) < 0 := by decide
      rw [if_pos (.inl (Int.sub_pos_of_lt hrows)), skipColumn]
      dsimp only
      rw [if_pos hnone, if_pos hrows, if_pos hrows]
    · rw [if_neg (by omega), if_neg hrows, if_neg hrows]
  · refine .inr ?_
    obtain ⟨-, -, first, -, hbox⟩ := id h
    obtain ⟨⟨x, hx, hcol⟩, -⟩ := hbox.lastColumn
    have hskip : skipColumn range = range := by
      rw [skipColumn, if_neg]
      exact Int.not_lt.mpr (hcol ▸ hx.1.2.1.1)
    rw [hskip, ite_self]
    exact h

/-- A column with data. -/
theorem dataRangeBefore_of_nonempty {n : Nat} {range : AbsRange} (hn : n < wb.sheetSize.column)
    (hcanonical : Canonical (stores.blocks sheet n)) (hdata : (dataAt wb sheet n).Nonempty)
    (hrows : 0 < wb.sheetSize.row) (h : DataRangeBefore wb sheet n range) :
    ∃ range', dataRangeColumn wb.sheetSize.row range (stores.blocks sheet n) n = .ok range' ∧
      DataRangeBefore wb sheet (n + 1) range' := by
  have hfst := fst_dataAt wb sheet (Int.natCast_nonneg n) hn
  have hcells := stores.cells_blocks sheet n
  have hsize : (((stores.blocks sheet n).flatMap Block.cells).length : Int) =
      wb.sheetSize.row := by
    rw [hcells, Workbook.length_column, Int.toNat_of_nonneg hrows.le]
  have hbounds : 0 ≤ range.first.row ∧ range.last.row ≤ wb.sheetSize.row - 1 := by
    obtain ⟨-, rfl⟩ | ⟨-, -, first, -, hbox⟩ := h
    · exact ⟨Int.le_sub_one_of_lt hrows, Int.le_sub_one_of_lt hrows⟩
    · obtain ⟨⟨x, hx, hrow⟩, -⟩ := hbox.firstRow
      obtain ⟨⟨y, hy, hrow'⟩, -⟩ := hbox.lastRow
      exact ⟨hrow ▸ hx.1.1.1, hrow' ▸ Int.le_sub_one_of_lt hy.1.1.2⟩
  obtain ⟨first, last, hfirst, hlast, heq⟩ := exists_dataRangeColumn hcanonical
    (by rw [hcells, ← hfst]; exact hdata.image _) hsize stores.row_le hbounds.1 hbounds.2 n
  rw [hcells, ← hfst] at hfirst hlast
  have hsnd := snd_dataAt hdata
  refine ⟨_, heq, .inr ?_⟩
  rw [dataBefore_succ]
  obtain ⟨hnone, rfl⟩ | ⟨hsheet, hsheet', col, hcol, hbox⟩ := h
  · -- the first column with data
    obtain ⟨⟨x, hx, hrow⟩, -⟩ := id hfirst
    obtain ⟨⟨y, hy, hrow'⟩, -⟩ := id hlast
    have hmin : min (wb.sheetSize.row - 1) first = first :=
      Int.min_eq_right (hrow ▸ Int.le_sub_one_of_lt hx.1.1.2)
    have hmax : max 0 last = last := Int.max_eq_right (hrow' ▸ hy.1.1.1)
    refine ⟨rfl, rfl, n, rfl, ?_⟩
    dsimp only
    rw [hnone, Set.empty_union, hmin, hmax]
    exact ⟨hfirst, hlast, hsnd ▸ isLeast_singleton, hsnd ▸ isGreatest_singleton⟩
  · -- another column with data
    refine ⟨hsheet, hsheet', col, hcol, ?_, ?_, ?_, ?_⟩
    · rw [Set.image_union]
      exact hbox.firstRow.union hfirst
    · rw [Set.image_union]
      exact hbox.lastRow.union hlast
    · obtain ⟨⟨x, hx, hcol'⟩, -⟩ := id hbox.firstColumn
      dsimp only at hcol' ⊢
      have hmin := hbox.firstColumn.union (isLeast_singleton (a := (n : Int)))
      rw [Int.min_eq_left (hcol' ▸ hx.2.le), ← hsnd, ← Set.image_union] at hmin
      exact hmin
    · obtain ⟨⟨x, hx, hcol'⟩, -⟩ := id hbox.lastColumn
      dsimp only at hcol' ⊢
      have hmax := hbox.lastColumn.union (isGreatest_singleton (a := (n : Int)))
      rw [Int.max_eq_right (hcol' ▸ hx.2.le), ← hsnd, ← Set.image_union] at hmax
      exact hmax

/-- The range after all columns. -/
theorem exists_foldlM_dataRangeColumn (sheet : Int) (k : Nat) (l : List (List Block))
    (range : AbsRange) (hcanonical : ∀ sheet col, Canonical (stores.blocks sheet col))
    (hrows : 0 < wb.sheetSize.row) (hk : k + l.length = wb.sheetSize.column)
    (hl : ∀ i (h : i < l.length), l[i] = stores.blocks sheet (k + i : Nat))
    (h : DataRangeBefore wb sheet k range) :
    ∃ range', (l.zipIdx k).foldlM (fun range x ↦
        dataRangeColumn wb.sheetSize.row range x.1 x.2) range = .ok range' ∧
      DataRangeBefore wb sheet wb.sheetSize.column range' := by
  induction l generalizing k range with
  | nil =>
    rw [List.length_nil, Nat.cast_zero, Int.add_zero] at hk
    exact ⟨range, rfl, hk ▸ h⟩
  | cons col l ih =>
    rw [List.length_cons] at hk
    have hcol : col = stores.blocks sheet k := hl 0 (Nat.zero_lt_succ _)
    subst hcol
    have hstep : ∃ range', dataRangeColumn wb.sheetSize.row range (stores.blocks sheet k) k =
        .ok range' ∧ DataRangeBefore wb sheet (k + 1) range' := by
      rcases Set.eq_empty_or_nonempty (dataAt wb sheet k) with hempty | hdata
      · have hrowsEmpty := fst_dataAt wb sheet (Int.natCast_nonneg k) (by omega)
        rw [hempty, Set.image_empty, ← stores.cells_blocks] at hrowsEmpty
        have hne : stores.blocks sheet k ≠ [] := by
          intro hnil
          have hlength := wb.length_column sheet k
          rw [← stores.cells_blocks, hnil, List.flatMap_nil, List.length_nil] at hlength
          omega
        obtain ⟨b, hb, htype, hpos⟩ := exists_eq_singleton (hcanonical sheet k) hne hrowsEmpty.symm
        rw [hb]
        exact dataRangeBefore_of_empty hempty htype hpos h
      · exact dataRangeBefore_of_nonempty (by omega) (hcanonical sheet k) hdata hrows h
    obtain ⟨range', heq, h'⟩ := hstep
    rw [List.zipIdx_cons, List.foldlM_cons]
    dsimp only
    rw [heq]
    refine ih (k + 1) range' (by omega) (fun i hi ↦ ?_) (by exact_mod_cast h')
    have hi' := hl (i + 1) (Nat.succ_lt_succ hi)
    rw [List.getElem_cons_succ] at hi'
    rw [hi', Nat.add_right_comm, Nat.add_assoc]

/-- What is found for a sheet with cells, before an empty one is told apart. -/
theorem exists_getDataRange (hcanonical : ∀ sheet col, Canonical (stores.blocks sheet col))
    (hsheet : 0 ≤ sheet ∧ sheet < wb.sheets.length) (hrows : 0 < wb.sheetSize.row)
    (hcols : 0 < wb.sheetSize.column) :
    ∃ range, DataRangeBefore wb sheet wb.sheetSize.column range ∧
      stores.getDataRange sheet = .ok (if range.last.column < 0 then .invalid else range) := by
  obtain ⟨col, cols, hcolumns, hlength, hcount⟩ :=
    IteratorCoreVertical.exists_getColumns stores hsheet hcols
  have hrowMax := stores.row_le
  rw [Int.toNat_of_nonneg hrows.le] at hlength
  have hrowSize : toRow (col.flatMap Block.cells).length = wb.sheetSize.row := by
    rw [toRow_natCast (hlength ▸ hrowMax), hlength]
  obtain ⟨range, hfold, hrange⟩ := exists_foldlM_dataRangeColumn sheet 0 (col :: cols)
    ⟨⟨sheet, wb.sheetSize.row - 1, 0⟩, ⟨sheet, 0, -1⟩⟩ hcanonical hrows
    (by rw [hcount, Nat.cast_zero, Int.zero_add])
    (fun i hi ↦ by
      have hget := IteratorCoreVertical.getElem?_getColumns hsheet hcolumns (i : Nat)
        ⟨Int.natCast_nonneg i, by omega⟩
      rw [Int.toNat_natCast, List.getElem?_eq_getElem hi] at hget
      rw [Nat.zero_add, Option.some.inj hget])
    (.inl ⟨dataBefore_zero, by rw [Nat.cast_zero, ite_self]⟩)
  refine ⟨range, hrange, ?_⟩
  rw [ColumnStores.getDataRange, hcolumns]
  dsimp only
  rw [hrowSize, if_neg hrows.ne', hfold]
  show (if range.last.column < 0 then _ else _ : Except Failure AbsRange) = _
  split <;> rfl

/-- The data range is right exactly if there is more than one row, the first column has data, or
there is none. -/
theorem getDataRange_iff (stores : ColumnStores wb)
    (hcanonical : ∀ sheet col, Canonical (stores.blocks sheet col))
    (hsheet : 0 ≤ sheet ∧ sheet < wb.sheets.length) (hrows : 0 < wb.sheetSize.row)
    (hcols : 0 < wb.sheetSize.column) :
    (∃ range, stores.getDataRange sheet = .ok range ∧ IsDataRange wb sheet range) ↔
      1 < wb.sheetSize.row ∨ (∃ row, (row, 0) ∈ dataCells wb sheet) ∨ dataCells wb sheet = ∅ := by
  obtain ⟨range, hrange, heq⟩ := exists_getDataRange hcanonical hsheet hrows hcols
  rw [DataRangeBefore, dataBefore_column] at hrange
  obtain ⟨hempty, rfl⟩ | ⟨hfirst, hlast, col, hcol, hbox⟩ := hrange
  · refine iff_of_true ⟨_, heq, ⟨?_, ?_, ?_⟩⟩ (.inr (.inr hempty))
    · exact iff_of_true (if_pos (show (-1 : Int) < 0 by decide)) hempty
    · exact fun h ↦ absurd hempty h.ne_empty
    · exact fun h ↦ absurd hempty h.ne_empty
  · obtain ⟨⟨x, hx, hlastColumn⟩, -⟩ := id hbox.lastColumn
    obtain ⟨⟨y, hy, hfirstColumn⟩, hlower⟩ := id hbox.firstColumn
    dsimp only at hlastColumn hfirstColumn hlower
    have hnonneg : ¬range.last.column < 0 := Int.not_lt.mpr (hlastColumn ▸ hx.2.1.1)
    rw [if_neg hnonneg] at heq
    have hvalid : range ≠ .invalid := by
      rintro rfl
      exact absurd hsheet.1 (hfirst ▸ by decide)
    have hproperty : (∃ range, stores.getDataRange sheet = .ok range ∧
        IsDataRange wb sheet range) ↔ range.first.column = col := by
      constructor
      · rintro ⟨range', hrange', hdata⟩
        obtain rfl := Except.ok.inj (heq.symm.trans hrange')
        exact (hdata.box ⟨x, hx⟩).firstColumn.unique hbox.firstColumn
      · intro hfirst'
        refine ⟨range, heq, ⟨?_, fun _ ↦ ⟨hfirst, hlast⟩, fun _ ↦ ?_⟩⟩
        · exact iff_of_false hvalid (Set.Nonempty.ne_empty ⟨x, hx⟩)
        · rw [← hfirst'] at hbox
          exact hbox
    rw [hproperty, hcol]
    split
    case isTrue hlt => exact iff_of_true rfl (.inl hlt)
    case isFalse hone =>
      constructor
      · intro hzero
        refine .inr (.inl ⟨y.1, ?_⟩)
        rw [hzero, ← hfirstColumn]
        exact hy
      · rintro (hlt | ⟨row, hrow⟩ | hempty)
        · exact absurd hlt hone
        · exact Int.le_antisymm (hfirstColumn ▸ hy.2.1.1) (hlower ⟨_, hrow, rfl⟩)
        · exact absurd hempty (Set.Nonempty.ne_empty ⟨x, hx⟩)

end Columns

/-! ### A sheet with one row -/

theorem getDataRange_iff_empty :
    (∃ range, IteratorCoreVertical.emptyStores.getDataRange 0 = .ok range ∧
      IsDataRange IteratorCoreVertical.emptyWorkbook 0 range) ↔
      1 < IteratorCoreVertical.emptyWorkbook.sheetSize.row ∨
        (∃ row, (row, 0) ∈ dataCells IteratorCoreVertical.emptyWorkbook 0) ∨
          dataCells IteratorCoreVertical.emptyWorkbook 0 = ∅ :=
  getDataRange_iff IteratorCoreVertical.emptyStores IteratorCoreVertical.canonical_emptyStores
    (by decide) (by decide) (by decide)

/-- A sheet of one row, with a number in the second of its two columns. -/
def oneRowWorkbook : Workbook :=
  { (ModelContext.new ⟨1, 2⟩ :
      ModelContext ModelContext.Ranges (ListTree ModelContext.Ranges)).toWorkbook with
    sheets := [⟨"Sheet1", []⟩]
    cells := fun a ↦ if a = ⟨0, 0, 1⟩ then .numeric 1 else .empty }

/-- Each cell is in a block of its own. -/
def oneRowStores : ColumnStores oneRowWorkbook where
  blocks sheet col := if sheet = 0 ∧ col = 1 then [.numeric [1]] else [.empty 1]
  cells_blocks sheet col := by
    split
    case isTrue h =>
      obtain ⟨rfl, rfl⟩ := h
      rfl
    case isFalse h =>
      have hempty : oneRowWorkbook.cells ⟨sheet, (0 : Nat), col⟩ = .empty :=
        if_neg fun h' ↦ h ⟨congrArg AbsAddress.sheet h', congrArg AbsAddress.column h'⟩
      show [Cell.empty] = [oneRowWorkbook.cells ⟨sheet, (0 : Nat), col⟩]
      rw [hempty]
  row_le := by decide

theorem canonical_oneRowStores (sheet col : Int) : Canonical (oneRowStores.blocks sheet col) := by
  show Canonical (if sheet = 0 ∧ col = 1 then _ else _)
  split
  · exact ⟨by decide, List.isChain_singleton _⟩
  · exact ⟨by decide, List.isChain_singleton _⟩

theorem not_isDataRange_oneRow :
    (∀ sheet col, Canonical (oneRowStores.blocks sheet col)) ∧
      ¬∃ range, oneRowStores.getDataRange 0 = .ok range ∧ IsDataRange oneRowWorkbook 0 range := by
  refine ⟨canonical_oneRowStores, ?_⟩
  rintro ⟨range, hrange, hdata⟩
  have heq : oneRowStores.getDataRange 0 = .ok ⟨⟨0, 0, 0⟩, ⟨0, 0, 1⟩⟩ := by decide +kernel
  obtain rfl := Except.ok.inj (heq.symm.trans hrange)
  have hcell : ((0, 1) : Int × Int) ∈ dataCells oneRowWorkbook 0 :=
    ⟨by decide, by decide, fun h ↦ nomatch h⟩
  obtain ⟨⟨⟨row, col⟩, hx, hcol⟩, -⟩ := (hdata.box ⟨_, hcell⟩).firstColumn
  obtain rfl : col = 0 := hcol
  exact hx.2.2 (if_neg fun h ↦
    absurd (congrArg AbsAddress.column h) (show (0 : Int) ≠ 1 by decide))

end Ixion
