import Mathlib.Data.Int.ConditionallyCompleteOrder
import Mathlib.Data.List.Pairwise
import Mathlib.Data.Set.Prod
import Mathlib.Order.CompletePartialOrder
import Mathlib.Order.Interval.Set.UnorderedInterval
import Ixion.Table

/-!
# Areas of tables

A table has a row of headers, rows of data, and rows of totals, which a reference may select
together or alone.  Without the headers, the row in front of the table is selected instead of
being left out, so that no table is divided into its areas.  Of a pair of columns, only the first
is selected.
-/

namespace Ixion

/-! ## What is selected -/

/-- The area of the data. -/
def tableAreaData : Int := 1

/-- The area of the headers. -/
def tableAreaHeaders : Int := 2

/-- The area of the totals. -/
def tableAreaTotals : Int := 4

namespace AbsRange

/-- The rows of a range; the invalid range has none. -/
def rowSet (r : AbsRange) : Set Int := {row | r ≠ .invalid ∧ row ∈ Set.Icc r.first.row r.last.row}

/-- The columns of a range; the invalid range has none. -/
def columnSet (r : AbsRange) : Set Int :=
  {column | r ≠ .invalid ∧ column ∈ Set.Icc r.first.column r.last.column}

/-- The rows and columns of the cells of a range. -/
def cellSet (r : AbsRange) : Set (Int × Int) := r.rowSet ×ˢ r.columnSet

end AbsRange

namespace TableEntry

variable (e : TableEntry)

/-- A table has a row of headers and those of its totals. -/
structure WellFormed : Prop where
  valid : e.range.valid = true
  totals : 0 ≤ e.totalsRowCount
  rows : e.range.first.row + e.totalsRowCount ≤ e.range.last.row

/-- A name of a column of the table, or none. -/
def Known (column : StringId) : Prop := column = .empty ∨ column ∈ e.columns

/-- The rows of areas of a table. -/
def areaRows (areas : Int) : Set Int :=
  {row | (hasArea areas tableAreaHeaders ∧ row = e.range.first.row) ∨
    (hasArea areas tableAreaData ∧
      row ∈ Set.Ioc e.range.first.row (e.range.last.row - e.totalsRowCount)) ∨
    (hasArea areas tableAreaTotals ∧
      row ∈ Set.Ioc (e.range.last.row - e.totalsRowCount) e.range.last.row)}

/-- Where the column with a name is. -/
def columnIndex (column : StringId) : Int :=
  e.range.first.column + (e.columns.findIdx (· = column) : ℕ)

/-- The columns from one to another, or that one if there is no other, or all if there is none. -/
def selectedColumns (columnFirst columnLast : StringId) : Set Int :=
  if columnFirst = .empty then Set.Icc e.range.first.column e.range.last.column
  else if columnLast = .empty then {e.columnIndex columnFirst}
  else Set.uIcc (e.columnIndex columnFirst) (e.columnIndex columnLast)

/-- Areas that lie next to each other: the data and any others, the headers, or the totals. -/
def Contiguous (areas : Int) : Prop :=
  hasArea areas tableAreaData = true ∨
    hasArea areas tableAreaHeaders ≠ hasArea areas tableAreaTotals

/-- The areas of a table make up its rows, and are put together when several are selected; what is
selected lies in the table; and of columns those are selected that are named. -/
structure Tiles (get : StringId → StringId → Int → AbsRange) (columnFirst columnLast : StringId) :
    Prop where
  headers_data : Disjoint (get columnFirst columnLast tableAreaHeaders).rowSet
    (get columnFirst columnLast tableAreaData).rowSet
  headers_totals : Disjoint (get columnFirst columnLast tableAreaHeaders).rowSet
    (get columnFirst columnLast tableAreaTotals).rowSet
  data_totals : Disjoint (get columnFirst columnLast tableAreaData).rowSet
    (get columnFirst columnLast tableAreaTotals).rowSet
  rows : (get columnFirst columnLast tableAreaHeaders).rowSet ∪
    (get columnFirst columnLast tableAreaData).rowSet ∪
    (get columnFirst columnLast tableAreaTotals).rowSet =
      Set.Icc e.range.first.row e.range.last.row
  union : ∀ areas, Contiguous areas → (get columnFirst columnLast areas).rowSet =
    {row | ∃ area ∈ [tableAreaHeaders, tableAreaData, tableAreaTotals],
      hasArea areas area = true ∧ row ∈ (get columnFirst columnLast area).rowSet}
  inside : ∀ areas, (get columnFirst columnLast areas).cellSet ⊆ e.range.cellSet
  columns : ∀ areas, get columnFirst columnLast areas ≠ .invalid →
    (get columnFirst columnLast areas).columnSet = e.selectedColumns columnFirst columnLast

/-! ## Rows -/

section Rows

variable {e} {range : AbsRange}

/-- What is left of the rows of a range of columns when areas are selected. -/
structure Adjusted (range : AbsRange) (e : TableEntry) : Prop where
  ne_invalid : 0 ≤ range.first.sheet
  first : range.first.row = e.range.first.row
  last : range.last.row = e.range.last.row

theorem ne_invalid_of_sheet (h : 0 ≤ range.first.sheet) : range ≠ .invalid := by
  rintro rfl
  exact absurd h (by decide)

theorem rowSet_of_sheet (h : 0 ≤ range.first.sheet) :
    range.rowSet = Set.Icc range.first.row range.last.row := by
  ext row
  exact and_iff_right (ne_invalid_of_sheet h)

theorem columnSet_of_sheet (h : 0 ≤ range.first.sheet) :
    range.columnSet = Set.Icc range.first.column range.last.column := by
  ext column
  exact and_iff_right (ne_invalid_of_sheet h)

theorem rowSet_invalid : AbsRange.invalid.rowSet = ∅ :=
  Set.eq_empty_of_forall_notMem fun _ h ↦ h.1 rfl

/-- With the headers, or without the data, the rows are those of the areas. -/
theorem rowSet_adjustTableArea (h : e.WellFormed) (hrange : Adjusted range e) {areas : Int}
    (hcontiguous : Contiguous areas)
    (hareas : hasArea areas tableAreaHeaders = true ∨ hasArea areas tableAreaData = false) :
    (adjustTableArea range e areas).rowSet = e.areaRows areas := by
  obtain ⟨-, htotals, hrows⟩ := h
  obtain ⟨hsheet, hfirst, hlast⟩ := hrange
  simp only [Contiguous, tableAreaHeaders, tableAreaData, tableAreaTotals] at hcontiguous hareas
  simp only [adjustTableArea, areaRows, tableAreaHeaders, tableAreaData, tableAreaTotals]
  cases hheaders : hasArea areas 2 <;> cases hdata : hasArea areas 1 <;>
    cases htotalsArea : hasArea areas 4 <;>
    simp only [hheaders, hdata, htotalsArea, Bool.false_eq_true, if_true, if_false, false_and,
      false_or, or_false, true_and, reduceCtorEq, ne_eq, not_true_eq_false, not_false_eq_true,
      or_self] at hcontiguous hareas ⊢
  case false.false.true =>
    split
    case isTrue hle =>
      rw [rowSet_invalid]
      ext row
      simp only [Set.mem_empty_iff_false, Set.mem_Ioc, Set.mem_ofPred_eq, false_iff]
      omega
    case isFalse hlt =>
      rw [rowSet_of_sheet]
      · ext row
        simp only [Set.mem_Icc, Set.mem_Ioc, Set.mem_ofPred_eq]
        omega
      · exact hsheet
  case true.false.false =>
    rw [rowSet_of_sheet]
    · ext row
      simp only [Set.mem_Icc, Set.mem_ofPred_eq]
      omega
    · exact hsheet
  case true.true.false =>
    rw [rowSet_of_sheet]
    · ext row
      simp only [Set.mem_Icc, Set.mem_Ioc, Set.mem_ofPred_eq]
      omega
    · exact hsheet
  case true.true.true =>
    rw [rowSet_of_sheet]
    · ext row
      simp only [Set.mem_Icc, Set.mem_Ioc, Set.mem_ofPred_eq]
      omega
    · exact hsheet

/-- Without the headers, but with the data, the row in front of the table is there, too. -/
theorem mem_rowSet_adjustTableArea (h : e.WellFormed) (hrange : Adjusted range e) {areas : Int}
    (hheaders : hasArea areas tableAreaHeaders = false)
    (hdata : hasArea areas tableAreaData = true) :
    e.range.first.row - 1 ∈ (adjustTableArea range e areas).rowSet ∧
      e.range.first.row ∈ (adjustTableArea range e areas).rowSet := by
  obtain ⟨-, htotals, hrows⟩ := h
  obtain ⟨hsheet, hfirst, hlast⟩ := hrange
  simp only [tableAreaHeaders, tableAreaData] at hheaders hdata
  simp only [adjustTableArea, hheaders, hdata, Bool.false_eq_true, if_true, if_false]
  split
  · rw [rowSet_of_sheet]
    · simp only [Set.mem_Icc]
      omega
    · exact hsheet
  · rw [rowSet_of_sheet]
    · simp only [Set.mem_Icc]
      omega
    · exact hsheet

/-- Areas are selected as they are exactly with the headers or without the data. -/
theorem rowSet_adjustTableArea_iff (h : e.WellFormed) (hrange : Adjusted range e) {areas : Int}
    (hcontiguous : Contiguous areas) :
    (adjustTableArea range e areas).rowSet = e.areaRows areas ↔
      hasArea areas tableAreaHeaders = true ∨ hasArea areas tableAreaData = false := by
  refine ⟨fun heq ↦ ?_, rowSet_adjustTableArea h hrange hcontiguous⟩
  by_contra hareas
  simp only [not_or, Bool.not_eq_true, Bool.not_eq_false] at hareas
  obtain ⟨hmem, -⟩ := mem_rowSet_adjustTableArea h hrange hareas.1 hareas.2
  obtain ⟨-, htotals, hrows⟩ := h
  rw [heq] at hmem
  simp only [areaRows, Set.mem_ofPred_eq, Set.mem_Ioc] at hmem
  omega

/-- Adjusting the rows does not change the columns. -/
theorem columnSet_adjustTableArea (areas : Int)
    (hne : adjustTableArea range e areas ≠ .invalid) :
    (adjustTableArea range e areas).columnSet =
      Set.Icc range.first.column range.last.column := by
  have hcolumns : (adjustTableArea range e areas).first.column = range.first.column ∧
      (adjustTableArea range e areas).last.column = range.last.column := by
    revert hne
    unfold adjustTableArea
    dsimp only
    split_ifs <;> intro hne <;> first | exact ⟨rfl, rfl⟩ | exact absurd rfl hne
  ext column
  rw [AbsRange.columnSet, hcolumns.1, hcolumns.2]
  exact and_iff_right hne

end Rows

/-! ## Columns -/

section Columns

variable {e} {columnFirst columnLast : StringId}

/-- The range of the column with a name, or of all columns if there is none. -/
def namedRange (e : TableEntry) (column : StringId) : AbsRange :=
  if column = .empty then e.range
  else ⟨{ e.range.first with column := e.columnIndex column },
    { e.range.last with column := e.columnIndex column }⟩

theorem adjusted_namedRange (h : e.WellFormed) (column : StringId) :
    Adjusted (e.namedRange column) e := by
  have hsheet : 0 ≤ e.range.first.sheet := by
    have hfirst := (AbsRange.valid_iff.mp h.valid).1
    simp only [AbsAddress.valid, decide_eq_true_eq] at hfirst
    exact hfirst.1
  unfold namedRange
  split
  · exact ⟨hsheet, rfl, rfl⟩
  · exact ⟨hsheet, rfl, rfl⟩

/-- Areas are selected from the range of the first column. -/
theorem getColumnRange_eq (hknown : e.Known columnFirst) (columnLast : StringId) (areas : Int) :
    e.getColumnRange columnFirst columnLast areas =
      adjustTableArea (e.namedRange columnFirst) e areas := by
  rw [getColumnRange, namedRange]
  rcases hknown with rfl | hmem
  · rw [if_pos rfl, if_pos rfl]
  · by_cases hempty : columnFirst = .empty
    · rw [if_pos hempty, if_pos hempty]
    · have hindex : e.columns.findIdx? (· = columnFirst) =
          some (e.columns.findIdx (· = columnFirst)) :=
        List.findIdx?_eq_some_of_exists ⟨columnFirst, hmem, decide_eq_true rfl⟩
      rw [if_neg hempty, if_neg hempty, hindex]
      rfl

/-- Columns with different names are in different places. -/
theorem columnIndex_inj (hfirst : columnFirst ∈ e.columns) (hlast : columnLast ∈ e.columns) :
    e.columnIndex columnFirst = e.columnIndex columnLast ↔ columnFirst = columnLast := by
  refine ⟨fun h ↦ ?_, fun h ↦ by rw [h]⟩
  have hget : ∀ {column : StringId}, column ∈ e.columns →
      e.columns[e.columns.findIdx (· = column)]? = some column := by
    intro column hmem
    have hlt : e.columns.findIdx (· = column) < e.columns.length :=
      List.findIdx_lt_length.mpr ⟨column, hmem, decide_eq_true rfl⟩
    rw [List.getElem?_eq_getElem hlt]
    exact congrArg some (of_decide_eq_true (List.findIdx_getElem (w := hlt)))
  have hindex : e.columns.findIdx (· = columnFirst) = e.columns.findIdx (· = columnLast) := by
    simp only [columnIndex] at h
    omega
  have hsome := hget hfirst
  rw [hindex, hget hlast] at hsome
  exact (Option.some_inj.mp hsome).symm

/-- The columns of the first name are those that are selected exactly if there is no other. -/
theorem columns_namedRange_iff (hfirst : e.Known columnFirst) (hlast : e.Known columnLast) :
    Set.Icc (e.namedRange columnFirst).first.column (e.namedRange columnFirst).last.column =
        e.selectedColumns columnFirst columnLast ↔
      columnFirst = .empty ∨ columnLast = .empty ∨ columnLast = columnFirst := by
  rw [namedRange, selectedColumns]
  by_cases hempty : columnFirst = .empty
  · rw [if_pos hempty, if_pos hempty]
    exact iff_of_true rfl (.inl hempty)
  rw [if_neg hempty, if_neg hempty, Set.Icc_self]
  by_cases hempty' : columnLast = .empty
  · rw [if_pos hempty']
    exact iff_of_true rfl (.inr (.inl hempty'))
  rw [if_neg hempty', ← columnIndex_inj (hlast.resolve_left hempty') (hfirst.resolve_left hempty)]
  simp only [hempty, hempty', false_or]
  constructor
  · intro h
    have hmem : e.columnIndex columnLast ∈ ({e.columnIndex columnFirst} : Set Int) :=
      h ▸ Set.right_mem_uIcc
    exact hmem
  · intro h
    rw [h, Set.uIcc_self]

theorem selectedColumns_nonempty (h : e.WellFormed) (columnFirst columnLast : StringId) :
    (e.selectedColumns columnFirst columnLast).Nonempty := by
  obtain ⟨-, -, -, -, hcolumns⟩ := AbsRange.valid_iff.mp h.valid
  unfold selectedColumns
  split_ifs
  · exact Set.nonempty_Icc.mpr hcolumns
  · exact Set.singleton_nonempty _
  · exact Set.nonempty_uIcc

theorem columns_namedRange_nonempty (h : e.WellFormed) (column : StringId) :
    (e.namedRange column).first.column ≤ (e.namedRange column).last.column := by
  obtain ⟨-, -, -, -, hcolumns⟩ := AbsRange.valid_iff.mp h.valid
  unfold namedRange
  split
  · exact hcolumns
  · exact le_rfl

end Columns

/-! ## Cells -/

section Cells

variable {e} {columnFirst columnLast : StringId} {areas : Int}

/-- The rows of contiguous areas that have the headers or lack the data are missing exactly if
there are only totals, and the table has none. -/
theorem areaRows_eq_empty_iff (h : e.WellFormed) (hcontiguous : Contiguous areas)
    (hareas : hasArea areas tableAreaHeaders = true ∨ hasArea areas tableAreaData = false) :
    e.areaRows areas = ∅ ↔
      hasArea areas tableAreaHeaders = false ∧ e.totalsRowCount = 0 := by
  have htotals := h.totals
  by_cases hheaders : hasArea areas tableAreaHeaders = true
  · -- the row of the headers is selected
    refine iff_of_false (fun hempty ↦ ?_) fun hnot ↦ by rw [hheaders] at hnot; exact nomatch hnot.1
    have hmem : e.range.first.row ∈ e.areaRows areas := .inl ⟨hheaders, rfl⟩
    rw [hempty] at hmem
    exact hmem
  · -- only totals are selected
    have hdata : hasArea areas tableAreaData = false := hareas.resolve_left hheaders
    rw [Bool.not_eq_true] at hheaders
    have htotalsArea : hasArea areas tableAreaTotals = true := by
      rw [Contiguous, hdata, hheaders] at hcontiguous
      simpa using hcontiguous
    rw [areaRows, hheaders, hdata, htotalsArea]
    simp only [Bool.false_eq_true, false_and, false_or, true_and]
    constructor
    · intro hempty
      by_contra hne
      have hmem : e.range.last.row ∈ {row | row ∈ Set.Ioc (e.range.last.row - e.totalsRowCount)
          e.range.last.row} := ⟨by omega, le_rfl⟩
      rw [hempty] at hmem
      exact hmem
    · intro hzero
      rw [hzero, sub_zero]
      exact Set.Ioc_self _

/-- The cells of columns and areas are selected exactly with the headers or without the data, and
without a second column, unless there is nothing to select. -/
theorem cellSet_getColumnRange_iff (h : e.WellFormed) (hfirst : e.Known columnFirst)
    (hlast : e.Known columnLast) (hcontiguous : Contiguous areas) :
    (e.getColumnRange columnFirst columnLast areas).cellSet =
        e.areaRows areas ×ˢ e.selectedColumns columnFirst columnLast ↔
      (hasArea areas tableAreaHeaders = true ∨ hasArea areas tableAreaData = false) ∧
        (columnFirst = .empty ∨ columnLast = .empty ∨ columnLast = columnFirst ∨
          (hasArea areas tableAreaHeaders = false ∧ e.totalsRowCount = 0)) := by
  have hrange := adjusted_namedRange h columnFirst
  rw [getColumnRange_eq hfirst, AbsRange.cellSet]
  by_cases hareas : hasArea areas tableAreaHeaders = true ∨ hasArea areas tableAreaData = false
  · rw [rowSet_adjustTableArea h hrange hcontiguous hareas,
      and_iff_right hareas, ← areaRows_eq_empty_iff h hcontiguous hareas]
    by_cases hempty : e.areaRows areas = ∅
    · rw [hempty, Set.empty_prod, Set.empty_prod]
      exact iff_of_true rfl (.inr (.inr (.inr rfl)))
    · have hne : adjustTableArea (e.namedRange columnFirst) e areas ≠ .invalid := by
        intro hinvalid
        rw [← rowSet_adjustTableArea h hrange hcontiguous hareas, hinvalid] at hempty
        exact hempty rowSet_invalid
      rw [columnSet_adjustTableArea areas hne, ← or_assoc, ← or_assoc, or_iff_left hempty, or_assoc,
        ← columns_namedRange_iff hfirst hlast]
      constructor
      · intro heq
        rcases Set.prod_eq_prod_iff.mp heq with ⟨-, hcolumns⟩ | ⟨hrows | hcolumns, -⟩
        · exact hcolumns
        · exact absurd hrows hempty
        · exact absurd hcolumns
            (Set.nonempty_Icc.mpr (columns_namedRange_nonempty h columnFirst)).ne_empty
      · intro hcolumns
        rw [hcolumns]
  · -- the row in front of the table is selected
    refine iff_of_false (fun heq ↦ ?_) fun hright ↦ hareas hright.1
    have hbad := hareas
    simp only [not_or, Bool.not_eq_true, Bool.not_eq_false] at hbad
    obtain ⟨hmem, -⟩ := mem_rowSet_adjustTableArea h hrange hbad.1 hbad.2
    have hne : adjustTableArea (e.namedRange columnFirst) e areas ≠ .invalid := hmem.1
    have hcolumns : (e.namedRange columnFirst).first.column ∈
        (adjustTableArea (e.namedRange columnFirst) e areas).columnSet := by
      rw [columnSet_adjustTableArea areas hne]
      exact ⟨le_rfl, columns_namedRange_nonempty h columnFirst⟩
    have hcell := Set.mk_mem_prod hmem hcolumns
    rw [heq] at hcell
    obtain ⟨-, htotals, hrows⟩ := h
    have hrow := hcell.1
    simp only [areaRows, Set.mem_ofPred_eq, Set.mem_Ioc] at hrow
    omega

/-- No table is made up by its areas. -/
theorem not_tiles (h : e.WellFormed) (hfirst : e.Known columnFirst) :
    ¬ e.Tiles e.getColumnRange columnFirst columnLast := by
  intro htiles
  have hdisjoint := htiles.headers_data
  have hrange := adjusted_namedRange h columnFirst
  rw [getColumnRange_eq hfirst, getColumnRange_eq hfirst,
    rowSet_adjustTableArea h hrange (.inr (by decide)) (.inl (by decide))] at hdisjoint
  have hmem := (@mem_rowSet_adjustTableArea e _ h hrange tableAreaData (by decide) (by decide)).2
  exact Set.disjoint_left.mp hdisjoint (.inl ⟨by decide, rfl⟩) hmem

end Cells

end TableEntry

/-! ## Result -/

namespace TableEntries

variable {tables : TableEntries} {e : TableEntry}

/-- A table is found by its name. -/
theorem getRange_of_mem (he : e ∈ tables.entries) : tables.getRange e.name = e.getColumnRange := by
  have hnames : tables.entries.Pairwise fun e e' ↦ e.name ≠ e'.name := by
    refine tables.sorted.imp fun {e e'} hless heq ↦ ?_
    rw [heq] at hless
    cases hname : e'.name with
    | index n =>
      rw [hname] at hless
      exact absurd (of_decide_eq_true hless) (Nat.lt_irrefl n)
    | empty =>
      rw [hname] at hless
      exact nomatch hless
  have hsome : (tables.entries.find? (·.name = e.name)).isSome = true :=
    List.find?_isSome.mpr ⟨e, he, decide_eq_true rfl⟩
  obtain ⟨e', hfind⟩ := Option.isSome_iff_exists.mp hsome
  have hname : e'.name = e.name := by simpa using List.find?_some hfind
  have heq : e' = e := by
    by_contra hne
    have hsymm : Std.Symm fun e e' : TableEntry ↦ e.name ≠ e'.name := ⟨fun _ _ h ↦ h.symm⟩
    exact hnames.forall (List.mem_of_find?_eq_some hfind) he hne hname
  funext columnFirst columnLast areas
  rw [getRange, hfind, heq]

/-- Of a table that is found by its name or by a position in it, contiguous areas of columns are
selected as they are exactly with the headers or without the data, and without a second column,
unless there is nothing to select; and its areas never make it up. -/
theorem getRange_tiles_iff (he : e ∈ tables.entries) (h : e.WellFormed)
    {get : StringId → StringId → Int → AbsRange}
    (hget : get = tables.getRange e.name ∨
      ∃ pos, tables.entries.find? (·.range.contains pos) = some e ∧ get = tables.getRangeAt pos)
    {columnFirst columnLast : StringId} (hfirst : e.Known columnFirst)
    (hlast : e.Known columnLast) :
    ¬ e.Tiles get columnFirst columnLast ∧
      ∀ areas, TableEntry.Contiguous areas →
        ((get columnFirst columnLast areas).cellSet =
            e.areaRows areas ×ˢ e.selectedColumns columnFirst columnLast ↔
          (hasArea areas tableAreaHeaders = true ∨ hasArea areas tableAreaData = false) ∧
            (columnFirst = .empty ∨ columnLast = .empty ∨ columnLast = columnFirst ∨
              (hasArea areas tableAreaHeaders = false ∧ e.totalsRowCount = 0))) := by
  have heq : get = e.getColumnRange := by
    rcases hget with rfl | ⟨pos, hpos, rfl⟩
    · exact getRange_of_mem he
    · funext columnFirst columnLast areas
      rw [getRangeAt, hpos]
  subst heq
  exact ⟨TableEntry.not_tiles h hfirst,
    fun areas hcontiguous ↦ TableEntry.cellSet_getColumnRange_iff h hfirst hlast hcontiguous⟩

/-- The table of the test of table references: two columns with one row of totals. -/
def categories : TableEntry :=
  ⟨.index 0, ⟨⟨0, 2, 2⟩, ⟨0, 8, 3⟩⟩, [.index 1, .index 2], 1⟩

/-- The tables of the test. -/
def categoryTables : TableEntries := ⟨[categories], List.pairwise_singleton ..⟩

theorem wellFormed_categories : categories.WellFormed := ⟨by decide, by decide, by decide⟩

/-- The areas of the second column of that table. -/
theorem getRange_tiles_iff_categories :
    ¬ categories.Tiles (categoryTables.getRange (.index 0)) (.index 2) .empty ∧
      ∀ areas, TableEntry.Contiguous areas →
        ((categoryTables.getRange (.index 0) (.index 2) .empty areas).cellSet =
            categories.areaRows areas ×ˢ categories.selectedColumns (.index 2) .empty ↔
          (hasArea areas tableAreaHeaders = true ∨ hasArea areas tableAreaData = false) ∧
            ((.index 2 : StringId) = .empty ∨ (.empty : StringId) = .empty ∨
              .empty = (.index 2 : StringId) ∨
              (hasArea areas tableAreaHeaders = false ∧ categories.totalsRowCount = 0))) :=
  getRange_tiles_iff (List.mem_singleton.mpr rfl) wellFormed_categories (.inl rfl)
    (.inr (by decide)) (.inl rfl)

/-- The data of that table have the row of its headers, too, and the row in front of it. -/
theorem not_tiles_categories :
    ¬ ∀ (tables : TableEntries) (e : TableEntry), e ∈ tables.entries → e.WellFormed →
      ∀ columnFirst columnLast : StringId, e.Known columnFirst → e.Known columnLast →
        e.Tiles (tables.getRange e.name) columnFirst columnLast := by
  intro h
  have htiles := h categoryTables categories (List.mem_singleton.mpr rfl) wellFormed_categories
    .empty .empty (.inl rfl) (.inl rfl)
  have hinside := htiles.inside tableAreaData
  have hcell : ((1, 2) : Int × Int) ∈
      (categoryTables.getRange categories.name .empty .empty tableAreaData).cellSet :=
    ⟨⟨by decide, by decide, by decide⟩, by decide, by decide, by decide⟩
  exact absurd (hinside hcell).1.2.1 (by decide)

end TableEntries

end Ixion
