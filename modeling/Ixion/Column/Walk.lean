import Ixion.Column.Count
import Ixion.Column.Position
import Ixion.Interp.Answers

/-!
# Walking through a range

A range of a sheet is walked through column by column, and a column block by block: for each
part of a block that lies in the range there is a call back, which is told the rows and where
the part is in the block.  The consumers find the values of a part again from its place in the
block.  The parts make up the range, whatever the blocks are (`walk_eq_foldlM`).
-/

namespace Ixion

open Lib

/-- What a callback is told about a block. -/
structure ColumnBlockShape where
  /-- The row at which the block starts. -/
  position : Nat
  size : Nat
  /-- Where in the block the part starts. -/
  offset : Nat
  type : CellType
  data : Block

/-- What a callback is told about a part of a block. -/
structure BlockPart where
  col : Int
  row1 : Int
  row2 : Int
  node : ColumnBlockShape

namespace BlockPart

/-- The addresses of a part. -/
def addresses (part : BlockPart) (sheet : Int) : List AbsAddress :=
  (countUp part.row1 part.row2).map fun row ↦ ⟨sheet, row, part.col⟩

/-- The number of rows of a part, as its consumers find it. -/
def length (part : BlockPart) : Int := part.row2 - part.row1 + 1

/-- What a part is without its block. -/
def segment (part : BlockPart) : Workbook.Segment :=
  ⟨part.col, part.row1, part.row2, part.node.type⟩

end BlockPart

/-- The elements of a block from its place on, as many as asked for and left. -/
def makeElementRange {α : Type} (elements : List α) (node : ColumnBlockShape) (length : Nat) :
    List α :=
  (elements.drop node.offset).take (min (node.size - node.offset) length)

/-- What is done with a part of a block: it makes a new state and says whether to go on. -/
abbrev BlockPartCallback (β : Type) : Type := BlockPart → β → Except Failure (β × Bool)

/-- A computation that throws exceptions only. -/
def ofExn {α : Type} (x : Except Exn α) : Except Failure α := x.mapError .exception

/-- The first segment has the type of the first cell. -/
theorem Workbook.exists_segments_cons (col row : Int) (type : CellType) (types : List CellType) :
    ∃ seg segs, segments col row (type :: types) = seg :: segs ∧ seg.type = type := by
  rw [segments]
  cases segments col (row + 1) types with
  | nil => exact ⟨_, _, rfl, rfl⟩
  | cons seg segs =>
    dsimp only
    split
    case isTrue htype => exact ⟨_, _, rfl, htype⟩
    case isFalse => exact ⟨_, _, rfl, rfl⟩

/-- Cells of one type, before one of another type, make a segment. -/
theorem Workbook.segments_replicate_append {col row : Int} {type : CellType}
    {types : List CellType} {n : Nat} (hn : 0 < n) (h : ∀ type' ∈ types.head?, type' ≠ type) :
    segments col row (.replicate n type ++ types) =
      ⟨col, row, row + n - 1, type⟩ :: segments col (row + n) types := by
  induction n generalizing row with
  | zero => exact absurd hn (Nat.lt_irrefl 0)
  | succ n ih =>
    rw [List.replicate_succ, List.cons_append, segments]
    rcases n with - | n
    · -- the last of the cells: what comes after them is of another type
      rw [List.replicate_zero, List.nil_append]
      have hrow : row + ((0 + 1 : Nat) : Int) - 1 = row := by omega
      rw [hrow]
      cases types with
      | nil => rfl
      | cons type' types =>
        obtain ⟨seg, segs, hsegs, htype⟩ := exists_segments_cons col (row + 1) type' types
        show _ = _ :: segments col (row + 1) (type' :: types)
        rw [hsegs]
        dsimp only
        rw [if_neg (by rw [htype]; exact h type' rfl)]
    · rw [ih (Nat.succ_pos n)]
      dsimp only
      rw [if_pos rfl]
      congr 2
      · push_cast
        ring
      · push_cast
        ring

namespace ColumnStores

variable {wb : Workbook} {β : Type}

/-- Walk through the rows of a column from one on; there are at most as many calls back as
rows.  Past the last block there is none to tell of. -/
def walkRows (stores : ColumnStores wb) (cb : BlockPartCallback β) (sheet col last : Int) :
    Nat → Int → β → Except Failure (β × Bool)
  | 0, _, b => .ok (b, true)
  | n + 1, curRow, b =>
    if last < curRow then .ok (b, true)
    else do
      let blocks ← ofExn (stores.columnAt sheet col)
      let (rest, offset) ← ofExn (ColumnStores.position blocks curRow)
      match rest with
      | [] => .error .undefined
      | blk :: _ =>
        let node : ColumnBlockShape := ⟨toSize curRow - offset, blk.size, offset, blk.type, blk⟩
        -- the last row of the range, or the row of the last cell of the block
        let lastRow := min (toRow (toSize (((blk.size - offset - 1 : Nat) : Int) + curRow))) last
        let (b, more) ← cb ⟨col, curRow, lastRow, node⟩ b
        if more then
          walkRows stores cb sheet col last n
            (toRow (toSize (curRow + ((blk.size - offset : Nat) : Int)))) b
        else return (b, false)

/-- Walk through columns. -/
def walkColumns (stores : ColumnStores wb) (cb : BlockPartCallback β) (sheet first last : Int) :
    List Int → β → Except Failure β
  | [], b => return b
  | col :: cols, b => do
    let (b, more) ← stores.walkRows cb sheet col last (last - first + 1).toNat first b
    if more then walkColumns stores cb sheet first last cols b else return b

/-- Walk through a range of a sheet. -/
def walk (stores : ColumnStores wb) (sheet : Int) (range : AbsRange) (cb : BlockPartCallback β)
    (b : β) : Except Failure β :=
  if 0 ≤ sheet ∧ sheet < wb.sheets.length then
    stores.walkColumns cb sheet range.first.row range.last.row
      (countUp range.first.column range.last.column) b
  else .error (.exception .outOfRange)

/-! ## The parts of a column -/

/-- Call back for one part after the other, until there is no going on. -/
def walkParts (cb : BlockPartCallback β) : List BlockPart → β → Except Failure (β × Bool)
  | [], b => return (b, true)
  | part :: parts, b => do
    let (b, more) ← cb part b
    if more then walkParts cb parts b else return (b, false)

theorem walkParts_append (cb : BlockPartCallback β) (parts parts' : List BlockPart) (b : β) :
    walkParts cb (parts ++ parts') b = (do
      let (b, more) ← walkParts cb parts b
      if more then walkParts cb parts' b else return (b, false)) := by
  induction parts generalizing b with
  | nil => rfl
  | cons part parts ih =>
    rw [List.cons_append, walkParts, walkParts]
    cases cb part b with
    | error e => rfl
    | ok p =>
      obtain ⟨b, more⟩ := p
      cases more with
      | false => rfl
      | true => exact ih b

/-- A callback that always says to go on. -/
def always (g : β → BlockPart → Except Failure β) : BlockPartCallback β :=
  fun part b ↦ do return (← g b part, true)

theorem walkParts_always (g : β → BlockPart → Except Failure β) (parts : List BlockPart) (b : β) :
    walkParts (always g) parts b = (parts.foldlM g b).map fun b ↦ (b, true) := by
  induction parts generalizing b with
  | nil => rfl
  | cons part parts ih =>
    rw [walkParts, always, List.foldlM_cons]
    cases g b part with
    | error e => rfl
    | ok b => exact ih b

/-- A part of one block of its column, with the values of its rows. -/
structure IsPart (stores : ColumnStores wb) (sheet : Int) (part : BlockPart) : Prop where
  rows : part.row1 ≤ part.row2
  block : part.node.data ∈ stores.blocks sheet part.col
  type : part.node.type = part.node.data.type
  size : part.node.size = part.node.data.size
  position : ((part.node.position + part.node.offset : Nat) : Int) = part.row1
  inside : part.node.offset + part.length ≤ part.node.size
  cells : (part.node.data.cells.drop part.node.offset).take part.length.toNat =
    (part.addresses sheet).map wb.cells

/-- At each row up to the last one of a range there is a part of a block. -/
theorem exists_part (stores : ColumnStores wb) (sheet col : Int) {curRow last : Int}
    (hrow : 0 ≤ curRow) (hle : curRow ≤ last) (hlast : last < wb.sheetSize.row) :
    ∃ blk rest offset part,
      ColumnStores.position (stores.blocks sheet col) curRow = .ok (blk :: rest, offset) ∧
      offset < blk.size ∧ curRow + (blk.size - offset : Nat) ≤ wb.sheetSize.row ∧
      part = ⟨col, curRow, min (curRow + (blk.size - offset - 1 : Nat)) last,
        ⟨curRow.toNat - offset, blk.size, offset, blk.type, blk⟩⟩ ∧
      stores.IsPart sheet part ∧
      (Canonical (stores.blocks sheet col) →
        curRow + (blk.size - offset : Nat) < wb.sheetSize.row →
          (wb.cells ⟨sheet, curRow + (blk.size - offset : Nat), col⟩).type ≠ blk.type) := by
  have hmax := stores.row_le
  have hcurRow : toSize curRow = curRow.toNat := toSize_of_nonneg hrow (by omega)
  have hlength : ((stores.blocks sheet col).flatMap Block.cells).length =
      wb.sheetSize.row.toNat := by
    rw [stores.cells_blocks, Workbook.length_column]
  obtain ⟨rest, offset, hpos⟩ : ∃ rest offset,
      Lib.position Block.cells (stores.blocks sheet col) curRow.toNat = some (rest, offset) :=
    exists_position (by omega)
  have hdrop := drop_of_position hpos
  have hleft := congrArg List.length hdrop
  rw [List.length_drop, List.length_drop, hlength] at hleft
  cases rest with
  | nil =>
    rw [List.flatMap_nil, List.length_nil] at hleft
    omega
  | cons blk rest =>
    have hoffset := offset_lt_of_position hpos
    obtain ⟨pre, hpre, hstart⟩ := exists_append_of_position hpos
    rw [Block.length_cells] at hoffset
    rw [List.flatMap_cons, List.length_append, Block.length_cells] at hleft
    refine ⟨blk, rest, offset, _, ?_, hoffset, by omega, rfl, ⟨?_, ?_, rfl, rfl, ?_, ?_, ?_⟩, ?_⟩
    · rw [ColumnStores.position, hcurRow, hpos]
    · dsimp only
      omega
    · dsimp only
      rw [hpre]
      exact List.mem_append_right pre List.mem_cons_self
    · dsimp only
      omega
    · dsimp only [BlockPart.length]
      omega
    · have hlt : min (curRow + ((blk.size - offset - 1 : Nat) : Int)) last < wb.sheetSize.row := by
        omega
      have htake := wb.take_drop_column sheet col hrow hlt
      rw [← stores.cells_blocks, ← hdrop, List.flatMap_cons,
        List.drop_append_of_le_length (by rw [Block.length_cells]; exact hoffset.le),
        List.take_append_of_le_length (by rw [List.length_drop, Block.length_cells]; omega)]
        at htake
      rw [BlockPart.addresses, List.map_map]
      exact htake
    · intro hcanonical hnext
      obtain ⟨c, hc, htype⟩ := (hpre ▸ hcanonical).of_append.exists_next (by
        rintro rfl
        rw [List.flatMap_nil, List.length_nil] at hleft
        omega)
      -- the cell after the block is the first of the next one
      have hget := congrArg (fun l ↦ l[blk.size - offset]?) hdrop
      rw [stores.cells_blocks, List.flatMap_cons,
        List.drop_append_of_le_length (by rw [Block.length_cells]; exact hoffset.le),
        List.getElem?_append_right (by rw [List.length_drop, Block.length_cells]),
        List.length_drop, Block.length_cells, Nat.sub_self, ← List.head?_eq_getElem?, hc,
        List.getElem?_drop, Workbook.column, List.getElem?_map,
        List.getElem?_range (by omega), Option.map_some] at hget
      have hrow' : ((curRow.toNat + (blk.size - offset) : Nat) : Int) =
          curRow + (blk.size - offset : Nat) := by omega
      rw [hrow'] at hget
      rwa [← Option.some.inj hget]

/-- The rows up to the last one are those of a part of `k` rows and those after it. -/
theorem countUp_part (curRow last : Int) {k : Nat} (hk : 0 < k) :
    countUp curRow last =
      countUp curRow (min (curRow + ((k - 1 : Nat) : Int)) last) ++ countUp (curRow + k) last := by
  by_cases hrest : curRow + ((k - 1 : Nat) : Int) ≤ last
  · rw [min_eq_left hrest, countUp_append (by omega) hrest]
    congr 2
    omega
  · rw [min_eq_right (by omega), countUp_eq_nil (by omega : last < curRow + (k : Int)),
      List.append_nil]

/-- The cells of a part have the type of its block. -/
theorem IsPart.types {stores : ColumnStores wb} {sheet : Int} {part : BlockPart}
    (h : stores.IsPart sheet part) :
    ((countUp part.row1 part.row2).map fun row ↦ (wb.cells ⟨sheet, row, part.col⟩).type) =
      .replicate (part.row2 + 1 - part.row1).toNat part.node.data.type := by
  rw [List.eq_replicate_iff, List.length_map, length_countUp]
  refine ⟨rfl, fun type htype ↦ ?_⟩
  obtain ⟨row, hrow, rfl⟩ := List.mem_map.mp htype
  apply Block.type_of_mem (b := part.node.data)
  have hmem : wb.cells ⟨sheet, row, part.col⟩ ∈ (part.addresses sheet).map wb.cells :=
    List.mem_map_of_mem (List.mem_map_of_mem hrow)
  rw [← h.cells] at hmem
  exact List.mem_of_mem_drop (List.mem_of_mem_take hmem)

theorem IsPart.segment {stores : ColumnStores wb} {sheet : Int} {part : BlockPart}
    (h : stores.IsPart sheet part) :
    part.segment = ⟨part.col, part.row1, part.row1 + (part.row2 + 1 - part.row1).toNat - 1,
      part.node.data.type⟩ := by
  have hrow : part.row2 = part.row1 + (part.row2 + 1 - part.row1).toNat - 1 := by
    have hrows := h.rows
    omega
  rw [← hrow, ← h.type]
  rfl

/-- A call back for the part of the block that a row is in, and the rows after that part. -/
theorem walkRows_of_position (stores : ColumnStores wb) (cb : BlockPartCallback β)
    {sheet col last : Int} (hsheet : 0 ≤ sheet ∧ sheet < wb.sheets.length)
    (hcol : 0 ≤ col ∧ col < wb.sheetSize.column) {curRow : Int} (hrow : 0 ≤ curRow)
    (hle : curRow ≤ last) {blk : Block} {rest : List Block} {offset : Nat}
    (hpos : ColumnStores.position (stores.blocks sheet col) curRow = .ok (blk :: rest, offset))
    (hoffset : offset < blk.size)
    (hmax : curRow + (blk.size - offset : Nat) ≤ wb.sheetSize.row) (n : Nat) (b : β) :
    stores.walkRows cb sheet col last (n + 1) curRow b = (do
      let (b, more) ← cb ⟨col, curRow, min (curRow + (blk.size - offset - 1 : Nat)) last,
        ⟨curRow.toNat - offset, blk.size, offset, blk.type, blk⟩⟩ b
      if more then
        stores.walkRows cb sheet col last n (curRow + (blk.size - offset : Nat)) b
      else return (b, false)) := by
  have hrows := stores.row_le
  have hcurRow : toSize curRow = curRow.toNat := toSize_of_nonneg hrow (by omega)
  have hnonneg : -1 ≤ curRow + ((blk.size - offset : Nat) : Int) := by omega
  have hnonneg' : -1 ≤ curRow + ((blk.size - offset - 1 : Nat) : Int) := by omega
  have hmax' : curRow + ((blk.size - offset - 1 : Nat) : Int) ≤ rcMax := by omega
  rw [walkRows, if_neg (Int.not_lt.mpr hle), columnAt,
    if_pos ⟨hsheet.1, hsheet.2, hcol.1, hcol.2⟩]
  show (do
    let (rest, offset) ← ofExn (ColumnStores.position (stores.blocks sheet col) curRow)
    _ : Except Failure _) = _
  rw [hpos]
  show (do
    let (b, more) ← cb ⟨col, curRow, min _ last, ⟨toSize curRow - offset, _, _, _, _⟩⟩ b
    _ : Except Failure _) = _
  rw [Int.add_comm _ curRow, toRow_toSize hnonneg' hmax', hcurRow,
    toRow_toSize hnonneg (hmax.trans hrows)]

/-- A column is walked through part by part. -/
theorem walkRows_eq_walkParts (stores : ColumnStores wb) {sheet col last : Int}
    (hsheet : 0 ≤ sheet ∧ sheet < wb.sheets.length) (hcol : 0 ≤ col ∧ col < wb.sheetSize.column)
    (hlast : last < wb.sheetSize.row) {n : Nat} {curRow : Int} (hrow : 0 ≤ curRow)
    (hn : last - curRow + 1 ≤ n) :
    ∃ parts : List BlockPart,
      (∀ {β : Type} (cb : BlockPartCallback β) (b : β),
        stores.walkRows cb sheet col last n curRow b = walkParts cb parts b) ∧
      (∀ part ∈ parts, part.col = col ∧ stores.IsPart sheet part) ∧
      parts.flatMap (BlockPart.addresses · sheet) =
        ((countUp curRow last).map fun row ↦ ⟨sheet, row, col⟩) ∧
      (Canonical (stores.blocks sheet col) → parts.map BlockPart.segment =
        Workbook.segments col curRow
          ((countUp curRow last).map fun row ↦ (wb.cells ⟨sheet, row, col⟩).type)) := by
  induction n generalizing curRow with
  | zero =>
    refine ⟨[], fun cb b ↦ rfl, fun part h ↦ absurd h List.not_mem_nil, ?_, fun _ ↦ ?_⟩
    · rw [countUp_eq_nil (by omega)]
      rfl
    · rw [countUp_eq_nil (by omega)]
      rfl
  | succ n ih =>
    by_cases hdone : last < curRow
    · refine ⟨[], fun cb b ↦ ?_, fun part h ↦ absurd h List.not_mem_nil, ?_, fun _ ↦ ?_⟩
      · rw [walkRows, if_pos hdone]
        rfl
      · rw [countUp_eq_nil hdone]
        rfl
      · rw [countUp_eq_nil hdone]
        rfl
    · have hle := Int.not_lt.mp hdone
      obtain ⟨blk, rest, offset, part, hpos, hoffset, hmax, hpart, hispart, hnexttype⟩ :=
        exists_part stores sheet col hrow hle hlast
      -- the rows after the part are those of the parts to come
      have hnext : 0 ≤ curRow + ((blk.size - offset : Nat) : Int) := by omega
      obtain ⟨parts, hfold, hparts, haddrs, hsegments⟩ := ih hnext (by omega)
      have hcountUp := countUp_part curRow last (Nat.sub_pos_of_lt hoffset)
      refine ⟨part :: parts, fun cb b ↦ ?_, ?_, ?_, fun hcanonical ↦ ?_⟩
      · rw [walkRows_of_position stores cb hsheet hcol hrow hle hpos hoffset hmax, ← hpart,
          walkParts]
        simp only [hfold]
      · exact List.forall_mem_cons.mpr ⟨⟨by rw [hpart], hispart⟩, hparts⟩
      · rw [List.flatMap_cons, haddrs, BlockPart.addresses, hpart, ← List.map_append, ← hcountUp]
      · have htypes := hispart.types
        have hsegment := hispart.segment
        rw [List.map_cons, hsegments hcanonical, hcountUp, List.map_append]
        rw [hpart] at htypes hsegment ⊢
        rw [htypes, hsegment, Workbook.segments_replicate_append (by dsimp only; omega)]
        · by_cases hrest : last < curRow + (blk.size - offset : Nat)
          · rw [countUp_eq_nil hrest]
            rfl
          · congr 2
            dsimp only
            omega
        · intro type htype
          by_cases hrest : last < curRow + (blk.size - offset : Nat)
          · rw [countUp_eq_nil hrest] at htype
            cases htype
          · rw [countUp_cons (Int.not_lt.mp hrest)] at htype
            cases htype
            exact hnexttype hcanonical (by omega)

/-! ## The parts of a range -/

/-- Columns are walked through one after the other. -/
theorem walkColumns_eq_walkParts (stores : ColumnStores wb) {sheet first last : Int}
    (hsheet : 0 ≤ sheet ∧ sheet < wb.sheets.length) (hfirst : 0 ≤ first)
    (hlast : last < wb.sheetSize.row) {cols : List Int}
    (hcols : ∀ col ∈ cols, 0 ≤ col ∧ col < wb.sheetSize.column) :
    ∃ parts : List BlockPart,
      (∀ {β : Type} (cb : BlockPartCallback β) (b : β),
        stores.walkColumns cb sheet first last cols b = (walkParts cb parts b).map Prod.fst) ∧
      (∀ part ∈ parts, stores.IsPart sheet part) ∧
      parts.flatMap (BlockPart.addresses · sheet) =
        cols.flatMap fun col ↦ (countUp first last).map fun row ↦ ⟨sheet, row, col⟩ := by
  induction cols with
  | nil => exact ⟨[], fun cb b ↦ rfl, fun part h ↦ absurd h List.not_mem_nil, rfl⟩
  | cons col cols ih =>
    obtain ⟨hcol, hcols⟩ := List.forall_mem_cons.mp hcols
    obtain ⟨parts, hfold, hparts, haddrs⟩ := ih hcols
    obtain ⟨parts', hfold', hparts', haddrs', hsegments'⟩ :=
      walkRows_eq_walkParts stores hsheet hcol hlast hfirst
      (n := (last - first + 1).toNat) (Int.self_le_toNat _)
    refine ⟨parts' ++ parts, fun cb b ↦ ?_, ?_, ?_⟩
    · rw [walkColumns, hfold', walkParts_append]
      cases walkParts cb parts' b with
      | error e => rfl
      | ok p =>
        obtain ⟨b', more⟩ := p
        cases more with
        | false => rfl
        | true => exact hfold cb b'
    · intro part hpart
      rcases List.mem_append.mp hpart with hpart | hpart
      · exact (hparts' part hpart).2
      · exact hparts part hpart
    · rw [List.flatMap_append, haddrs, haddrs', List.flatMap_cons]

/-- The elements of a block that a consumer finds are those of the rows of its part. -/
theorem IsPart.map_makeElementRange {stores : ColumnStores wb} {sheet : Int} {part : BlockPart}
    (h : stores.IsPart sheet part) {α : Type} {cell : α → Cell} {elements : List α}
    (hcells : part.node.data.cells = elements.map cell) (hlength : part.length ≤ rcMax) :
    (makeElementRange elements part.node (toSize part.length)).map cell =
      (part.addresses sheet).map wb.cells := by
  have hrows := h.rows
  have hinside := h.inside
  have hpositive : 0 ≤ part.length := by
    rw [BlockPart.length]
    omega
  rw [makeElementRange, toSize_of_nonneg hpositive hlength, ← h.cells, hcells, List.map_take,
    List.map_drop, Nat.min_eq_right (by omega)]

/-! ## Walking by questions -/

section Questions

variable {result : FormulaCell → Except Failure FormulaResult}

/-- Walking through parts is walking through their segments. -/
theorem run_walkSegments (cb : Workbook.ColumnBlockCallback β) (parts : List BlockPart) (b : β) :
    (Workbook.walkSegments cb (parts.map BlockPart.segment) b).run (wb.answer result) =
      walkParts (fun part b ↦ (cb part.segment b).run (wb.answer result)) parts b := by
  induction parts generalizing b with
  | nil => rfl
  | cons part parts ih =>
    rw [List.map_cons, Workbook.walkSegments, walkParts, Query.run_bind]
    cases (cb part.segment b).run (wb.answer result) with
    | error e => rfl
    | ok p =>
      obtain ⟨b, more⟩ := p
      cases more with
      | false => rfl
      | true => exact ih b

variable (result) in
/-- The types of the cells of a column are asked for one by one. -/
theorem run_mapM_getCellType {sheet col first last : Int}
    (hsheet : 0 ≤ sheet ∧ sheet < wb.sheets.length) (hcol : 0 ≤ col ∧ col < wb.sheetSize.column)
    (hfirst : 0 ≤ first) (hlast : last < wb.sheetSize.row) :
    ((countUp first last).mapM fun row ↦ Reader.getCellType ⟨sheet, row, col⟩).run
        (wb.answer result) =
      .ok ((countUp first last).map fun row ↦ (wb.cells ⟨sheet, row, col⟩).type) := by
  rw [Query.run_mapM]
  have hcell {row : Int} (hrow : row ∈ countUp first last) :
      (Reader.getCellType ⟨sheet, row, col⟩).run (wb.answer result) =
        .ok (wb.cells ⟨sheet, row, col⟩).type := by
    rw [mem_countUp] at hrow
    have hin : wb.inWorkbook ⟨sheet, row, col⟩ = true := by
      rw [Workbook.inWorkbook, decide_eq_true_eq]
      dsimp only
      omega
    exact Workbook.run_getCellType hin
  generalize countUp first last = rows at hcell
  induction rows with
  | nil => rfl
  | cons row rows ih =>
    rw [List.mapM_cons, hcell List.mem_cons_self, ih fun h ↦ hcell (List.mem_cons_of_mem row h)]
    rfl

/-- Where the blocks are as long as they can be, the questions that walking through a range by
runs of cells of one type asks are answered as walking through its blocks does. -/
theorem run_walk (stores : ColumnStores wb)
    (hcanonical : ∀ sheet col, Canonical (stores.blocks sheet col))
    {sheet : Int} {range : AbsRange} (hsheet : 0 ≤ sheet ∧ sheet < wb.sheets.length)
    (hrows : 0 ≤ range.first.row ∧ range.last.row < wb.sheetSize.row)
    (hcols : 0 ≤ range.first.column ∧ range.last.column < wb.sheetSize.column)
    (cb : Workbook.ColumnBlockCallback β) (b : β) :
    (wb.walk sheet range cb b).run (wb.answer result) =
      stores.walk sheet range (fun part b ↦ (cb part.segment b).run (wb.answer result)) b := by
  rw [walk, if_pos hsheet, Workbook.walk,
    if_neg (show ¬¬wb.hasSheet sheet from not_not.mpr hsheet)]
  have hcols' : ∀ col ∈ countUp range.first.column range.last.column,
      0 ≤ col ∧ col < wb.sheetSize.column := by
    intro col hcol
    rw [mem_countUp] at hcol
    exact ⟨hcols.1.trans hcol.1, lt_of_le_of_lt hcol.2 hcols.2⟩
  generalize countUp range.first.column range.last.column = cols at hcols'
  induction cols generalizing b with
  | nil => rfl
  | cons col cols ih =>
    obtain ⟨hcol, hcols'⟩ := List.forall_mem_cons.mp hcols'
    obtain ⟨parts, hfold, -, -, hsegments⟩ := walkRows_eq_walkParts stores hsheet hcol hrows.2
      (n := (range.last.row - range.first.row + 1).toNat) hrows.1 (Int.self_le_toNat _)
    have hcolumn : (wb.walkColumn cb sheet col range.first.row range.last.row b).run
        (wb.answer result) =
        walkParts (fun part b ↦ (cb part.segment b).run (wb.answer result)) parts b := by
      rw [Workbook.walkColumn]
      by_cases hempty : range.last.row < range.first.row
      · rw [if_pos hempty]
        have hnil := hsegments (hcanonical sheet col)
        rw [countUp_eq_nil hempty, List.map_nil] at hnil
        rw [List.map_eq_nil_iff.mp hnil]
        rfl
      · have hinside : ¬(¬wb.hasColumn col ∨ range.first.row < 0 ∨
            wb.sheetSize.row < range.first.row) := by
          rw [Workbook.hasColumn]
          omega
        have hend : min range.last.row (wb.sheetSize.row - 1) = range.last.row :=
          min_eq_left (Int.le_sub_one_of_lt hrows.2)
        rw [if_neg hempty, if_neg hinside, hend]
        show ((countUp range.first.row range.last.row).mapM _ >>= _ : Reader (β × Bool)).run _ = _
        rw [Query.run_bind, run_mapM_getCellType result hsheet hcol hrows.1 hrows.2]
        show (Workbook.walkSegments cb (Workbook.segments col range.first.row _) b >>= _ :
          Reader (β × Bool)).run _ = _
        rw [← hsegments (hcanonical sheet col), Query.run_bind, run_walkSegments]
        cases walkParts (fun part b ↦ (cb part.segment b).run (wb.answer result)) parts b with
        | error e => rfl
        | ok p =>
          obtain ⟨b', more⟩ := p
          show ((if _ ∧ _ then _ else _ : Reader (β × Bool))).run _ = _
          rw [if_neg fun h ↦ absurd h.2 (Int.not_le.mpr hrows.2)]
          rfl
    rw [Workbook.walkColumns, walkColumns, Query.run_bind, hcolumn, hfold]
    cases walkParts (fun part b ↦ (cb part.segment b).run (wb.answer result)) parts b with
    | error e => rfl
    | ok p =>
      obtain ⟨b', more⟩ := p
      cases more with
      | false => rfl
      | true => exact ih b' hcols'

end Questions

end ColumnStores

/-- The callbacks of a walk through a range of a sheet, whatever its blocks are: the parts they
are for make up the range, column by column and from its first row to its last; each is a part
of one block, of its type, with the values of its rows, which is what its consumers find. -/
theorem ColumnStores.walk_eq_foldlM {wb : Workbook} (stores : ColumnStores wb) {sheet : Int}
    {range : AbsRange} (hsheet : 0 ≤ sheet ∧ sheet < wb.sheets.length)
    (hrows : 0 ≤ range.first.row ∧ range.last.row < wb.sheetSize.row)
    (hcols : 0 ≤ range.first.column ∧ range.last.column < wb.sheetSize.column) :
    ∃ parts : List BlockPart,
      (∀ {β : Type} (g : β → BlockPart → Except Failure β) (b : β),
        stores.walk sheet range (always g) b = parts.foldlM g b) ∧
      parts.flatMap (BlockPart.addresses · sheet) =
        ((countUp range.first.column range.last.column).flatMap fun col ↦
          (countUp range.first.row range.last.row).map fun row ↦ ⟨sheet, row, col⟩) ∧
      ∀ part ∈ parts, stores.IsPart sheet part ∧
        (∀ bs, part.node.data = .boolean bs →
          (makeElementRange bs part.node (toSize part.length)).map Cell.boolean =
            (part.addresses sheet).map wb.cells) ∧
        (∀ vs, part.node.data = .numeric vs →
          (makeElementRange vs part.node (toSize part.length)).map Cell.numeric =
            (part.addresses sheet).map wb.cells) ∧
        (∀ cs, part.node.data = .formula cs →
          (makeElementRange cs part.node (toSize part.length)).map Cell.formula =
            (part.addresses sheet).map wb.cells) := by
  have hcols' : ∀ col ∈ countUp range.first.column range.last.column,
      0 ≤ col ∧ col < wb.sheetSize.column := by
    intro col hcol
    rw [mem_countUp] at hcol
    exact ⟨hcols.1.trans hcol.1, lt_of_le_of_lt hcol.2 hcols.2⟩
  obtain ⟨parts, hfold, hparts, haddrs⟩ :=
    walkColumns_eq_walkParts stores hsheet hrows.1 hrows.2 hcols'
  refine ⟨parts, fun g b ↦ ?_, haddrs, fun part hpart ↦ ⟨hparts part hpart, ?_⟩⟩
  · rw [walk, if_pos hsheet, hfold, walkParts_always]
    cases parts.foldlM g b <;> rfl
  · have h := hparts part hpart
    have hlength : part.length ≤ rcMax := by
      -- the rows of a part are rows of the range
      have hmem {row : Int} (hrow : part.row1 ≤ row ∧ row ≤ part.row2) :
          range.first.row ≤ row ∧ row ≤ range.last.row := by
        have ha : (⟨sheet, row, part.col⟩ : AbsAddress) ∈
            parts.flatMap (BlockPart.addresses · sheet) :=
          List.mem_flatMap.mpr ⟨part, hpart, List.mem_map.mpr ⟨row, mem_countUp.mpr hrow, rfl⟩⟩
        rw [haddrs] at ha
        obtain ⟨col, -, ha⟩ := List.mem_flatMap.mp ha
        obtain ⟨row', hrow', heq⟩ := List.mem_map.mp ha
        obtain rfl : row' = row := congrArg AbsAddress.row heq
        exact mem_countUp.mp hrow'
      have h₁ := (hmem ⟨Int.le_refl _, h.rows⟩).1
      have h₂ := (hmem ⟨h.rows, Int.le_refl _⟩).2
      have hmax := stores.row_le
      rw [BlockPart.length]
      omega
    refine ⟨fun bs hbs ↦ ?_, fun vs hvs ↦ ?_, fun cs hcs ↦ ?_⟩
    · exact h.map_makeElementRange (by rw [hbs]; rfl) hlength
    · exact h.map_makeElementRange (by rw [hvs]; rfl) hlength
    · exact h.map_makeElementRange (by rw [hcs]; rfl) hlength

theorem ColumnStores.walk_eq_foldlM_number :
    ∃ parts : List BlockPart, parts.flatMap (BlockPart.addresses · 0) =
      [⟨0, 0, 0⟩, ⟨0, 1, 0⟩, ⟨0, 2, 0⟩] := by
  have hsheet : 0 ≤ (0 : Int) ∧ (0 : Int) < ModelContext.numberContext.sheets.length := by decide
  have hrows : 0 ≤ (⟨⟨0, 0, 0⟩, ⟨0, 2, 0⟩⟩ : AbsRange).first.row ∧
      (⟨⟨0, 0, 0⟩, ⟨0, 2, 0⟩⟩ : AbsRange).last.row <
        ModelContext.numberContext.sheetSize.row := by decide
  obtain ⟨parts, -, haddrs, -⟩ :=
    ColumnStores.walk_eq_foldlM ModelContext.numberStores hsheet hrows (by decide)
  exact ⟨parts, haddrs⟩

example : ModelContext.numberStores.walk 0 ⟨⟨0, 0, 0⟩, ⟨0, 2, 0⟩⟩
    (ColumnStores.always fun rows part ↦ .ok (rows ++ [(part.row1, part.row2)])) [] =
      .ok [(0, 0), (1, 1), (2, 2)] := by
  decide +kernel

end Ixion
