import Ixion.Column.Store
import Ixion.Interp.Range

/-!
# Counting the cells of a range

The cells of a range that have a value of some types are counted block by block: a block of
values counts as a whole or not at all, and only formula cells are looked at one by one.
The result is the number of those cells in the range (`countRange_eq_ncard`).
-/

namespace Ixion

open Lib Workbook

namespace ModelContext

variable {S T : Type}

/-! ## Counting by blocks -/

/-- Count the formula cells of a part of a block. -/
def countFormulaBlock (cxt : ModelContext S T) (cells : List FormulaCell) (offset len : Nat)
    (values : Values) : Except Exn ℚ :=
  ((cells.drop offset).take len).foldlM (fun ret fc ↦ do
    match ← cxt.getResultCache fc with
    | .boolean _ => return if values.has .boolean then ret + 1 else ret
    | .value _ => return if values.has .numeric then ret + 1 else ret
    | .string _ => return if values.has .string then ret + 1 else ret
    | .error _ => return ret
    | .matrix _ => return ret) 0

/-- Count the cells of a part of a block. -/
def countPart (cxt : ModelContext S T) (values : Values) (b : Block) (offset len : Nat) (ret : ℚ) :
    Except Exn ℚ :=
  match b with
  | .numeric _ => .ok (if values.has .numeric then ret + len else ret)
  | .boolean _ => .ok (if values.has .boolean then ret + len else ret)
  | .string _ => .ok (if values.has .string then ret + len else ret)
  | .empty _ => .ok (if values.has .empty then ret + len else ret)
  | .formula cells => do
    let n ← cxt.countFormulaBlock cells offset len values
    return ret + n

/-- Count from a position in a column to a last row. -/
def countBlocks (cxt : ModelContext S T) (values : Values) (rangeLast : Int) :
    List Block → Int → Nat → ℚ → Except Exn ℚ
  | [], _, _, ret => .ok ret
  | b :: blocks, curRow, offset, ret => do
    let len := toSize ((b.size : Int) - offset)
    let lastRow := toRow (toSize (curRow + len - 1))
    let cont : Bool := lastRow < rangeLast
    let len := if cont then len else toSize (rangeLast - curRow + 1)
    let lastRow := if cont then lastRow else rangeLast
    let ret ← cxt.countPart values b offset len ret
    if cont then countBlocks cxt values rangeLast blocks (lastRow + 1) 0 ret else return ret

/-- Count the cells of a range that have a value of some types. -/
def countRange (cxt : ModelContext S T) (stores : ColumnStores cxt.toWorkbook) (range : AbsRange)
    (values : Values) : Except Exn ℚ :=
  if cxt.sheets.isEmpty then .ok 0
  else
    let range := clipRange range cxt.sheetSize
    -- a negative sheet is a large one as a `size_t`
    let lastSheet : Int :=
      if range.last.sheet < 0 ∨ (cxt.sheets.length : Int) ≤ range.last.sheet then
        cxt.sheets.length - 1
      else range.last.sheet
    (countUp range.first.sheet lastSheet).foldlM (fun ret sheet ↦
      (countUp range.first.column range.last.column).foldlM (fun ret col ↦ do
        let blocks ← stores.columnAt sheet col
        let (itb, offset) ← ColumnStores.position blocks range.first.row
        cxt.countBlocks values range.last.row itb range.first.row offset ret) ret) 0

/-! ## Counting one by one -/

/-- The type that a cell counts by: a formula cell counts by its result. -/
def valueT (cxt : ModelContext S T) : Cell → Except Exn (Option ValueT)
  | .empty => .ok (some .empty)
  | .boolean _ => .ok (some .boolean)
  | .numeric _ => .ok (some .numeric)
  | .string _ => .ok (some .string)
  | .formula c => do return (← cxt.getResultCache c).valueT?

/-- Whether a cell counts. -/
def counts (cxt : ModelContext S T) (values : Values) (cell : Cell) : Except Exn Bool := do
  return (← cxt.valueT cell).any values.has

variable {cxt : ModelContext S T} {values : Values}

/-- Only of a formula cell it may not be known whether it counts. -/
theorem exists_formula_of_counts {cell : Cell} {e : Exn} (h : cxt.counts values cell = .error e) :
    ∃ c, cell = .formula c ∧ cxt.getResultCache c = .error e := by
  cases cell with
  | formula c =>
    refine ⟨c, rfl, ?_⟩
    rw [counts, valueT] at h
    cases hc : cxt.getResultCache c with
    | ok res => rw [hc] at h; exact nomatch h
    | error e' => rw [hc] at h; cases h; rfl
  | _ => exact nomatch h

/-- Counting a part of a formula block is counting its cells. -/
theorem countFormulaBlock_eq (cells : List FormulaCell) (offset len : Nat) :
    cxt.countFormulaBlock cells offset len values =
      addCountM (cxt.counts values) (((Block.formula cells).cells.drop offset).take len) 0 := by
  have hcell (fc : FormulaCell) (ret : ℚ) :
      (do match ← cxt.getResultCache fc with
        | .boolean _ => return if values.has .boolean then ret + 1 else ret
        | .value _ => return if values.has .numeric then ret + 1 else ret
        | .string _ => return if values.has .string then ret + 1 else ret
        | .error _ => return ret
        | .matrix _ => return ret : Except Exn ℚ) =
      addCountM (cxt.counts values) [.formula fc] ret := by
    rw [addCountM, countM_cons, countM_nil, counts, valueT]
    cases cxt.getResultCache fc with
    | error e => rfl
    | ok res =>
      show _ = Except.ok (ret + ((res.valueT?.any values.has).toNat + 0 : Nat))
      cases res with
      | boolean _ =>
        show Except.ok _ = Except.ok (ret + ((values.has .boolean).toNat + 0 : Nat))
        cases values.has .boolean <;> simp
      | value _ =>
        show Except.ok _ = Except.ok (ret + ((values.has .numeric).toNat + 0 : Nat))
        cases values.has .numeric <;> simp
      | string _ =>
        show Except.ok _ = Except.ok (ret + ((values.has .string).toNat + 0 : Nat))
        cases values.has .string <;> simp
      | error _ =>
        show Except.ok ret = Except.ok (ret + ((false).toNat + 0 : Nat))
        simp
      | matrix _ =>
        show Except.ok ret = Except.ok (ret + ((false).toNat + 0 : Nat))
        simp
  rw [countFormulaBlock, foldlM_addCountM (g := fun fc ↦ [Cell.formula fc])
    (fun fc _ ret ↦ hcell fc ret)]
  rw [Block.cells, ← List.map_drop, ← List.map_take, List.map_eq_flatMap]

/-- Counting a part of a block is counting its cells. -/
theorem countPart_eq (b : Block) {offset len : Nat} (h : offset + len ≤ b.size) (ret : ℚ) :
    cxt.countPart values b offset len ret =
      addCountM (cxt.counts values) ((b.cells.drop offset).take len) ret := by
  have hlen : ((b.cells.drop offset).take len).length = len := by
    rw [List.length_take, List.length_drop, Block.length_cells]
    exact Nat.min_eq_left (Nat.le_sub_of_add_le' h)
  have hpart {cell : Cell → Prop} (hcell : ∀ c ∈ b.cells, cell c) :
      ∀ c ∈ (b.cells.drop offset).take len, cell c :=
    fun c hc ↦ hcell c (List.mem_of_mem_drop (List.mem_of_mem_take hc))
  cases b with
  | formula cells =>
    rw [countPart, countFormulaBlock_eq]
    exact addCountM_zero_bind _ ret
  | numeric vs =>
    rw [addCountM_of_forall (b := values.has .numeric) (hpart ?_), hlen]
    · rfl
    · intro c hc
      obtain ⟨v, -, rfl⟩ := List.mem_map.mp hc
      rfl
  | boolean bs =>
    rw [addCountM_of_forall (b := values.has .boolean) (hpart ?_), hlen]
    · rfl
    · intro c hc
      obtain ⟨v, -, rfl⟩ := List.mem_map.mp hc
      rfl
  | string sids =>
    rw [addCountM_of_forall (b := values.has .string) (hpart ?_), hlen]
    · rfl
    · intro c hc
      obtain ⟨v, -, rfl⟩ := List.mem_map.mp hc
      rfl
  | empty size =>
    rw [addCountM_of_forall (b := values.has .empty) (hpart ?_), hlen]
    · rfl
    · intro c hc
      obtain rfl := List.eq_of_mem_replicate hc
      rfl

/-- Counting block by block is counting the cells up to the last row. -/
theorem countBlocks_eq {blocks : List Block} {curRow rangeLast : Int} {offset : Nat} {ret : ℚ}
    (hrow : 0 ≤ curRow) (hlast : curRow ≤ rangeLast) (hmax : rangeLast < rcMax)
    (hoffset : ∀ b ∈ blocks.head?, offset ≤ b.size)
    (hblocks : curRow + ((blocks.flatMap Block.cells).drop offset).length ≤ rcMax) :
    cxt.countBlocks values rangeLast blocks curRow offset ret =
      addCountM (cxt.counts values) (((blocks.flatMap Block.cells).drop offset).take
        (rangeLast - curRow + 1).toNat) ret := by
  induction blocks generalizing curRow offset ret with
  | nil =>
    rw [List.flatMap_nil, List.drop_nil, List.take_nil, addCountM_nil]
    rfl
  | cons b blocks ih =>
    have hb : offset ≤ b.size := hoffset b rfl
    have hdrop : ((b :: blocks).flatMap Block.cells).drop offset =
        b.cells.drop offset ++ blocks.flatMap Block.cells := by
      rw [List.flatMap_cons, List.drop_append_of_le_length (by rwa [Block.length_cells])]
    have hlen : (b.cells.drop offset).length = b.size - offset := by
      rw [List.length_drop, Block.length_cells]
    rw [hdrop] at hblocks ⊢
    rw [List.length_append, hlen] at hblocks
    have hsize : toSize ((b.size : Int) - offset) = b.size - offset := by
      rw [toSize_of_nonneg (by omega) (by omega)]
      omega
    have hlastRow : toRow (toSize (curRow + ((b.size - offset : Nat) : Int) - 1)) =
        curRow + ((b.size - offset : Nat) : Int) - 1 := toRow_toSize (by omega) (by omega)
    unfold countBlocks
    rw [hsize]
    dsimp only
    rw [hlastRow]
    by_cases hcont : curRow + ((b.size - offset : Nat) : Int) - 1 < rangeLast
    · have hrows : (rangeLast - (curRow + ((b.size - offset : Nat) : Int) - 1 + 1) + 1).toNat =
          (rangeLast - curRow + 1).toNat - (b.size - offset) := by omega
      have hrest (ret : ℚ) : cxt.countBlocks values rangeLast blocks
          (curRow + ((b.size - offset : Nat) : Int) - 1 + 1) 0 ret =
          addCountM (cxt.counts values) ((blocks.flatMap Block.cells).take
            ((rangeLast - curRow + 1).toNat - (b.size - offset))) ret := by
        rw [ih (by omega) (by omega) (fun _ _ ↦ Nat.zero_le _) (by rw [List.drop_zero]; omega),
          List.drop_zero, hrows]
      simp only [hcont, decide_true, if_true, hrest]
      rw [countPart_eq b (by omega), List.take_append,
        List.take_of_length_le (i := b.size - offset) (by rw [hlen]),
        List.take_of_length_le (l := b.cells.drop offset) (by rw [hlen]; omega), hlen,
        addCountM_append]
    · have hsize' : toSize (rangeLast - curRow + 1) = (rangeLast - curRow + 1).toNat :=
        toSize_of_nonneg (by omega) (by omega)
      simp only [hcont, decide_false, Bool.false_eq_true, if_false]
      rw [hsize', countPart_eq b (by omega), List.take_append_of_le_length (by omega)]
      exact bind_pure _

/-- Counting in a column is counting its cells. -/
theorem countColumn_eq (stores : ColumnStores cxt.toWorkbook) {sheet col first last : Int}
    (hsheet : 0 ≤ sheet ∧ sheet < cxt.sheets.length) (hcol : 0 ≤ col ∧ col < cxt.sheetSize.column)
    (hfirst : 0 ≤ first) (hfirst' : first ≤ cxt.sheetSize.row.toNat)
    (hlast : last < cxt.sheetSize.row) (horder : first < cxt.sheetSize.row → first ≤ last)
    (ret : ℚ) :
    (do let blocks ← stores.columnAt sheet col
        let (itb, offset) ← ColumnStores.position blocks first
        cxt.countBlocks values last itb first offset ret) =
      addCountM (fun a ↦ cxt.counts values (cxt.cells a))
        ((countUp first last).map fun row ↦ ⟨sheet, row, col⟩) ret := by
  have hcells := stores.cells_blocks sheet col
  have hrows :
      ((stores.blocks sheet col).flatMap Block.cells).length = cxt.sheetSize.row.toNat := by
    rw [hcells, Workbook.length_column]
  have hle : first.toNat ≤ ((stores.blocks sheet col).flatMap Block.cells).length := by omega
  obtain ⟨itb, offset, hpos⟩ := exists_position hle
  have hdrop := drop_of_position hpos
  have hrow := stores.row_le
  have hmax : 0 ≤ rcMax := by decide
  rw [ColumnStores.columnAt, if_pos ⟨hsheet.1, hsheet.2, hcol.1, hcol.2⟩]
  show (do
    let (itb, offset) ← ColumnStores.position (stores.blocks sheet col) first
    cxt.countBlocks values last itb first offset ret) = _
  rw [ColumnStores.position, toSize_of_nonneg hfirst (by omega), hpos]
  show cxt.countBlocks values last itb first offset ret = _
  have hcolumn : addCountM (fun a ↦ cxt.counts values (cxt.cells a))
      ((countUp first last).map fun row ↦ (⟨sheet, row, col⟩ : AbsAddress)) ret =
      addCountM (cxt.counts values) (((itb.flatMap Block.cells).drop offset).take
        (last - first + 1).toNat) ret := by
    rw [hdrop, hcells, Workbook.take_drop_column _ _ _ hfirst hlast, addCountM_map, addCountM_map]
  rw [hcolumn]
  cases itb with
  | nil =>
    rw [List.flatMap_nil, List.drop_nil, List.take_nil, addCountM_nil]
    rfl
  | cons b blocks =>
    have hoffset := offset_lt_of_position hpos
    have hleft : (((b :: blocks).flatMap Block.cells).drop offset).length =
        cxt.sheetSize.row.toNat - first.toNat := by
      rw [hdrop, List.length_drop, hrows]
    have hpositive : 0 < (((b :: blocks).flatMap Block.cells).drop offset).length := by
      rw [List.length_drop, List.flatMap_cons, List.length_append]
      omega
    apply countBlocks_eq hfirst (horder (by omega)) (by omega)
    · rintro b' hb'
      obtain rfl := Option.mem_some_iff.mp hb'
      rw [← Block.length_cells]
      exact Nat.le_of_lt hoffset
    · omega

/-! ## The cells of a range -/

/-- The part of a range that is counted. -/
def countedRange (cxt : ModelContext S T) (range : AbsRange) : AbsRange :=
  let r := clipRange range cxt.sheetSize
  { r with last := { r.last with sheet := min r.last.sheet (cxt.sheets.length - 1) } }

section Range

variable {range : AbsRange}

/-- The rows that are counted are those of the sheet. -/
theorem rows_clipRange {sheetSize : RcSize} (hrange : range.InsideSheet sheetSize) :
    let r := clipRange range sheetSize
    0 ≤ r.first.row ∧ r.first.row ≤ sheetSize.row.toNat ∧ r.last.row < sheetSize.row ∧
      (r.first.row < sheetSize.row → r.first.row ≤ r.last.row) ∧
      ∀ row, 0 ≤ row → row < sheetSize.row →
        ((range.allRows = true ∨ (range.first.row ≤ row ∧ row ≤ range.last.row)) ↔
          (r.first.row ≤ row ∧ row ≤ r.last.row)) := by
  obtain ⟨hfirst, -, -, hrows, -⟩ := AbsRange.valid_iff.mp hrange.valid
  obtain ⟨-, hrow, -⟩ : 0 ≤ range.first.sheet ∧ 0 ≤ range.first.row ∧ _ := of_decide_eq_true hfirst
  rcases hrange.rows with hall | ⟨hlast, hunset⟩
  · obtain ⟨h₁, h₂⟩ : range.first.row = rowUnset ∧ range.last.row = rowUnset :=
      of_decide_eq_true hall
    rw [clipRange, if_pos h₁, if_pos h₂]
    dsimp only
    refine ⟨Int.le_refl 0, by omega, by omega, by omega, fun row h h' ↦ ?_⟩
    exact ⟨fun _ ↦ ⟨h, Int.le_sub_one_of_lt h'⟩, fun _ ↦ .inl hall⟩
  · have h₁ : range.first.row ≠ rowUnset := by omega
    have h₂ : range.last.row ≠ rowUnset := by omega
    rw [clipRange, if_neg h₁, if_neg h₂]
    dsimp only
    refine ⟨hrow, by omega, hlast, fun _ ↦ hrows, fun row _ _ ↦ ?_⟩
    constructor
    · rintro (hall | h)
      · exact absurd (of_decide_eq_true hall : _ ∧ _).1 h₁
      · exact h
    · exact .inr

@[simp] theorem first_sheet_clipRange (sheetSize : RcSize) :
    (clipRange range sheetSize).first.sheet = range.first.sheet := by
  unfold clipRange; split <;> rfl

@[simp] theorem first_column_clipRange (sheetSize : RcSize) :
    (clipRange range sheetSize).first.column = range.first.column := by
  unfold clipRange; split <;> rfl

@[simp] theorem last_sheet_clipRange (sheetSize : RcSize) :
    (clipRange range sheetSize).last.sheet = range.last.sheet := by
  unfold clipRange; dsimp only; split <;> rfl

@[simp] theorem last_column_clipRange (sheetSize : RcSize) :
    (clipRange range sheetSize).last.column = range.last.column := by
  unfold clipRange; dsimp only; split <;> rfl

/-- What is counted are the cells of the workbook that the range selects. -/
theorem contains_countedRange (hrange : range.InsideSheet cxt.sheetSize) {a : AbsAddress} :
    (cxt.countedRange range).contains a = true ↔
      cxt.inWorkbook a = true ∧ range.Selects a := by
  obtain ⟨hfirst, -, hsheets, -, hcols⟩ := AbsRange.valid_iff.mp hrange.valid
  obtain ⟨hsheet, -, hcol, -⟩ : 0 ≤ range.first.sheet ∧ 0 ≤ range.first.row ∧
    0 ≤ range.first.column ∧ _ := of_decide_eq_true hfirst
  obtain ⟨hrow, -, hlast, -, hrows⟩ := rows_clipRange hrange
  have hlastcol := hrange.columns
  rw [AbsRange.contains_iff, Workbook.inWorkbook, decide_eq_true_iff, AbsRange.Selects]
  simp only [countedRange, first_sheet_clipRange, first_column_clipRange, last_sheet_clipRange,
    last_column_clipRange]
  constructor
  · rintro ⟨h₁, h₂, h₃, h₄, h₅, h₆⟩
    refine ⟨by omega, ⟨h₁, by omega⟩, (hrows a.row (by omega) (by omega)).mpr ⟨h₃, h₄⟩, h₅, h₆⟩
  · rintro ⟨hin, ⟨h₁, h₂⟩, h, h₅, h₆⟩
    obtain ⟨h₃, h₄⟩ := (hrows a.row hin.2.2.2.2.1 hin.2.2.2.2.2).mp h
    exact ⟨h₁, by omega, h₃, h₄, h₅, h₆⟩

/-- Counting a range block by block is counting its addresses. -/
theorem countRange_eq (stores : ColumnStores cxt.toWorkbook)
    (hrange : range.InsideSheet cxt.sheetSize) :
    cxt.countRange stores range values =
      addCountM (fun a ↦ cxt.counts values (cxt.cells a)) (cxt.countedRange range).addresses 0 := by
  obtain ⟨hfirst, hlast, hsheets, -, hcols⟩ := AbsRange.valid_iff.mp hrange.valid
  obtain ⟨hsheet, -, hcol, -⟩ : 0 ≤ range.first.sheet ∧ 0 ≤ range.first.row ∧
    0 ≤ range.first.column ∧ _ := of_decide_eq_true hfirst
  obtain ⟨hrow, hrow', hlastRow, horder, -⟩ := rows_clipRange hrange
  have hlastcol := hrange.columns
  rw [countRange]
  split
  case isTrue hempty =>
    have hnil : (cxt.countedRange range).addresses = [] := by
      rw [List.eq_nil_iff_forall_not_mem]
      intro a ha
      have := (AbsRange.contains_iff.mp (AbsRange.mem_addresses.mp ha))
      simp only [countedRange, first_sheet_clipRange, last_sheet_clipRange,
        List.isEmpty_iff.mp hempty, List.length_nil] at this
      omega
    rw [hnil, addCountM_nil]
  case isFalse hempty =>
    have hlastSheet : (if (clipRange range cxt.sheetSize).last.sheet < 0 ∨
        (cxt.sheets.length : Int) ≤ (clipRange range cxt.sheetSize).last.sheet then
          (cxt.sheets.length : Int) - 1
        else (clipRange range cxt.sheetSize).last.sheet) =
        (cxt.countedRange range).last.sheet := by
      simp only [countedRange, last_sheet_clipRange]
      split <;> omega
    dsimp only
    rw [hlastSheet]
    refine foldlM_addCountM (fun sheet hmem ret ↦ foldlM_addCountM (fun col hmem' ret ↦ ?_) ret) 0
    rw [mem_countUp] at hmem hmem'
    simp only [countedRange, first_column_clipRange, last_column_clipRange, first_sheet_clipRange]
      at hmem hmem'
    exact countColumn_eq stores (by omega) (by omega) hrow hrow' hlastRow horder ret

/-- However the columns are divided into blocks: the number of the cells in a range that
have a value of one of the types is returned, unless a formula cell in the range has no
result that can be read. -/
theorem countRange_eq_ncard (cxt : ModelContext S T) (stores : ColumnStores cxt.toWorkbook)
    {range : AbsRange} (hrange : range.InsideSheet cxt.sheetSize) (values : Values) :
    cxt.countRange stores range values =
      .ok (Set.ncard {a | cxt.inWorkbook a = true ∧ range.Selects a ∧
        cxt.counts values (cxt.cells a) = .ok true} : ℚ) ∨
    ∃ a c e, cxt.inWorkbook a = true ∧ range.Selects a ∧ cxt.cells a = .formula c ∧
      cxt.getResultCache c = .error e ∧ cxt.countRange stores range values = .error e := by
  rw [countRange_eq stores hrange, addCountM]
  cases hcount : countM (fun a ↦ cxt.counts values (cxt.cells a))
      (cxt.countedRange range).addresses with
  | ok n =>
    refine .inl ?_
    have hset : {a | a ∈ (cxt.countedRange range).addresses ∧
        cxt.counts values (cxt.cells a) = .ok true} =
        {a | cxt.inWorkbook a = true ∧ range.Selects a ∧
          cxt.counts values (cxt.cells a) = .ok true} := by
      ext a
      simp only [Set.mem_ofPred_eq, AbsRange.mem_addresses, contains_countedRange hrange, and_assoc]
    rw [← hset, ← eq_ncard_of_countM (AbsRange.nodup_addresses _) hcount]
    exact congrArg Except.ok (zero_add _)
  | error e =>
    obtain ⟨a, ha, he⟩ := exists_error_of_countM hcount
    obtain ⟨hin, hselects⟩ := (contains_countedRange hrange).mp (AbsRange.mem_addresses.mp ha)
    obtain ⟨c, hc, hresult⟩ := exists_formula_of_counts he
    exact .inr ⟨a, c, e, hin, hselects, hc, hresult, rfl⟩

end Range

/-! ### A column with a number -/

/-- A sheet of one column, with a number in its first row. -/
def numberContext : ModelContext Ranges (ListTree Ranges) :=
  { ModelContext.new ⟨3, 1⟩ with
    sheets := [⟨"Sheet1", []⟩]
    cells := fun a ↦ if a = ⟨0, 0, 0⟩ then .numeric 1 else .empty }

/-- The number has a block of its own, and the empty cells are in two. -/
def numberStores : ColumnStores numberContext.toWorkbook where
  blocks sheet col :=
    if sheet = 0 ∧ col = 0 then [.numeric [1], .empty 1, .empty 1] else [.empty 3]
  cells_blocks sheet col := by
    split
    case isTrue h =>
      obtain ⟨rfl, rfl⟩ := h
      rfl
    case isFalse h =>
      have hempty (row : Nat) : numberContext.cells ⟨sheet, row, col⟩ = .empty :=
        if_neg fun h' ↦ h ⟨congrArg AbsAddress.sheet h', congrArg AbsAddress.column h'⟩
      show [Cell.empty, .empty, .empty] = [numberContext.cells ⟨sheet, (0 : Nat), col⟩,
        numberContext.cells ⟨sheet, (1 : Nat), col⟩, numberContext.cells ⟨sheet, (2 : Nat), col⟩]
      rw [hempty 0, hempty 1, hempty 2]
  row_le := by decide

/-- The whole column. -/
def numberRange : AbsRange := ⟨⟨0, rowUnset, 0⟩, ⟨0, rowUnset, 0⟩⟩

theorem countRange_eq_ncard_number :
    numberContext.countRange numberStores numberRange ValueT.empty.bits =
      .ok (Set.ncard {a | numberContext.inWorkbook a = true ∧ numberRange.Selects a ∧
        numberContext.counts ValueT.empty.bits (numberContext.cells a) = .ok true} : ℚ) ∨
    ∃ a c e, numberContext.inWorkbook a = true ∧ numberRange.Selects a ∧
      numberContext.cells a = .formula c ∧ numberContext.getResultCache c = .error e ∧
      numberContext.countRange numberStores numberRange ValueT.empty.bits = .error e :=
  countRange_eq_ncard numberContext numberStores ⟨by decide, .inl (by decide), by decide⟩ _

example : numberContext.countRange numberStores numberRange ValueT.empty.bits = .ok 2 := by
  decide +kernel

end ModelContext

end Ixion
