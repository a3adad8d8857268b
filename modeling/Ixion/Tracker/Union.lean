import Ixion.Tracker.Query

/-!
# The dirty cells of a range, cell by cell

A modified range is looked up once, with its rectangle and on its first sheet.  Whether this
finds what its cells find, taken one by one, depends on the range: on its other sheets nothing
is looked up, and a row or a column that is not set is looked up as a number
(`unionOfCells_iff`).
-/

namespace Ixion

open Lib UnorderedSet Relation

/-- Whether a cell is in a range.  A range whose rows or columns are not set has all of them. -/
def AbsRange.HasCell (r : AbsRange) (a : AbsAddress) : Prop :=
  (0 ≤ a.row ∧ a.row < rowUnset ∧ 0 ≤ a.column ∧ a.column < columnUnset) ∧
    (r.first.sheet ≤ a.sheet ∧ a.sheet ≤ r.last.sheet) ∧
    (r.allRows = true ∨ (r.first.row ≤ a.row ∧ a.row ≤ r.last.row)) ∧
    (r.allColumns = true ∨ (r.first.column ≤ a.column ∧ a.column ≤ r.last.column))

namespace DirtyCellTracker

variable {S T : Type} [UnorderedSet S AbsRange] [RTree T S]

/-- The ranges that are dirty once one range is modified. -/
def queryDirtyCellsOf (t : DirtyCellTracker S T) (modifiedCell : AbsRange) : S :=
  t.queryDirtyCells (insert empty modifiedCell)

/-- What is dirty once a range is modified is what is dirty once one of its cells is. -/
def UnionOfCells (t : DirtyCellTracker S T) (range : AbsRange) : Prop :=
  ∀ s, s ∈ toList (t.queryDirtyCellsOf range) ↔
    ∃ a, range.HasCell a ∧ s ∈ toList (t.queryDirtyCellsOf a.toRange)

/-- A range is dirty without the cells that a modified range is not looked up with: it is
volatile, or tracking leads to it from a volatile range or from what the lookup finds. -/
def FoundFrom (t : DirtyCellTracker S T) (range s : AbsRange) : Prop :=
  s ∈ toList t.volatileCells ∨
    ∃ m, (m = range ∨ m ∈ toList t.volatileCells) ∧ TransGen t.Step m s

theorem mem_queryDirtyCellsOf {t : DirtyCellTracker S T} {range s : AbsRange} :
    s ∈ toList (t.queryDirtyCellsOf range) ↔ t.FoundFrom range s := by
  rw [queryDirtyCellsOf, mem_queryDirtyCells, FoundFrom]
  simp only [mem_toList_insert, toList_empty, List.not_mem_nil, or_false]

/-! ## Rectangles -/

/-- In a reachable tracker every rectangle is that of a valid range with a row and a column. -/
theorem Reachable.extent {t : DirtyCellTracker S T} (h : t.Reachable) {sheet : Int} {e : Extent}
    {s : AbsRange} (hs : t.Tracked sheet e s) :
    0 ≤ e.rowStart ∧ e.rowStart ≤ e.rowEnd ∧ e.rowStart < rowUnset ∧
      0 ≤ e.columnStart ∧ e.columnStart ≤ e.columnEnd ∧ e.columnStart < columnUnset := by
  induction h with
  | new =>
    rw [tracked_iff] at hs
    exact absurd hs.2 not_listens_empty
  | add ht hadd ih =>
    rcases (tracked_add ht.wf hadd).mp hs with ⟨-, rfl, -⟩ | hs
    · obtain ⟨htr, -⟩ := add_eq_ok_iff.mp hadd
      obtain ⟨hfirst, hlast, -, hrow, hcol⟩ := AbsRange.valid_iff.mp htr.dest_valid
      rw [AbsAddress.valid, decide_eq_true_eq] at hfirst hlast
      have hrows := htr.not_allRows
      have hcols := htr.not_allColumns
      rw [AbsRange.allRows, decide_eq_false_iff_not] at hrows
      rw [AbsRange.allColumns, decide_eq_false_iff_not] at hcols
      dsimp only [AbsRange.extent]
      omega
    · exact ih hs
  | remove ht hremove ih => exact ih ((tracked_remove ht.wf hremove).mp hs).2
  | addVolatile _ _ ih => exact ih hs
  | removeVolatile _ _ ih => exact ih hs

/-- What a range affects, one of its cells does. -/
theorem exists_cell_of_step {t : DirtyCellTracker S T} (ht : t.Reachable) {range s : AbsRange}
    (hrange : range.valid = true) (h : t.Step range s) :
    ∃ a, range.HasCell a ∧ t.Step a.toRange s := by
  obtain ⟨e, htracked, hrow₁, hrow₂, hcol₁, hcol₂⟩ := h
  obtain ⟨he₁, he₂, he₃, he₄, he₅, he₆⟩ := ht.extent htracked
  obtain ⟨hfirst, hlast, hsheet, hrow, hcol⟩ := AbsRange.valid_iff.mp hrange
  rw [AbsAddress.valid, decide_eq_true_eq] at hfirst hlast
  dsimp only [AbsRange.extent] at hrow₁ hrow₂ hcol₁ hcol₂
  -- the first row and the first column that the two rectangles share
  obtain ⟨row, hrow₃, hrow₄, hrow₅⟩ : ∃ row, (0 ≤ row ∧ row < rowUnset) ∧
      (e.rowStart ≤ row ∧ row ≤ e.rowEnd) ∧
      (range.allRows = true ∨ (range.first.row ≤ row ∧ row ≤ range.last.row)) := by
    by_cases hall : range.allRows = true
    · exact ⟨e.rowStart, ⟨he₁, he₃⟩, ⟨Int.le_refl _, he₂⟩, .inl hall⟩
    · refine ⟨max e.rowStart range.first.row, ?_⟩
      rw [AbsRange.allRows, decide_eq_true_eq] at hall
      exact ⟨by omega, by omega, .inr (by omega)⟩
  obtain ⟨col, hcol₃, hcol₄, hcol₅⟩ : ∃ col, (0 ≤ col ∧ col < columnUnset) ∧
      (e.columnStart ≤ col ∧ col ≤ e.columnEnd) ∧
      (range.allColumns = true ∨ (range.first.column ≤ col ∧ col ≤ range.last.column)) := by
    by_cases hall : range.allColumns = true
    · exact ⟨e.columnStart, ⟨he₄, he₆⟩, ⟨Int.le_refl _, he₅⟩, .inl hall⟩
    · refine ⟨max e.columnStart range.first.column, ?_⟩
      rw [AbsRange.allColumns, decide_eq_true_eq] at hall
      exact ⟨by omega, by omega, .inr (by omega)⟩
  refine ⟨⟨range.first.sheet, row, col⟩, ⟨⟨hrow₃.1, hrow₃.2, hcol₃⟩, ?_, hrow₅, hcol₅⟩, e, htracked,
    hrow₄.1, hrow₄.2, hcol₄⟩
  exact ⟨Int.le_refl _, hsheet⟩

/-- On one sheet, a range with rows and columns affects what its cells do. -/
theorem step_of_cell {t : DirtyCellTracker S T} {range s : AbsRange} {a : AbsAddress}
    (hsheet : range.first.sheet = range.last.sheet) (hrows : range.allRows = false)
    (hcols : range.allColumns = false) (ha : range.HasCell a) (h : t.Step a.toRange s) :
    t.Step range s := by
  obtain ⟨-, ⟨hs₁, hs₂⟩, hrow, hcol⟩ := ha
  obtain ⟨e, htracked, h₁, h₂, h₃, h₄⟩ := h
  rw [hrows] at hrow
  rw [hcols] at hcol
  obtain ⟨hr₁, hr₂⟩ := hrow.resolve_left Bool.false_ne_true
  obtain ⟨hc₁, hc₂⟩ := hcol.resolve_left Bool.false_ne_true
  dsimp only [AbsRange.extent, AbsAddress.toRange] at htracked h₁ h₂ h₃ h₄
  have hfirst : range.first.sheet = a.sheet := by omega
  refine ⟨e, hfirst ▸ htracked, ?_⟩
  dsimp only [AbsRange.extent, Extent.Intersects]
  omega

/-! ## Cell by cell -/

/-- A valid range has a cell. -/
theorem exists_hasCell {range : AbsRange} (h : range.valid = true) : ∃ a, range.HasCell a := by
  obtain ⟨hfirst, hlast, hsheet, hrow, hcol⟩ := AbsRange.valid_iff.mp h
  rw [AbsAddress.valid, decide_eq_true_eq] at hfirst hlast
  have hunset : 0 < rowUnset ∧ 0 < columnUnset := by decide
  refine ⟨⟨range.last.sheet, if range.first.row = rowUnset then 0 else range.first.row,
    if range.first.column = columnUnset then 0 else range.first.column⟩, ?_, ?_, ?_, ?_⟩
  · dsimp only
    split <;> split <;> omega
  · exact ⟨hsheet, Int.le_refl _⟩
  · rw [AbsRange.allRows, decide_eq_true_eq]
    dsimp only
    split <;> omega
  · rw [AbsRange.allColumns, decide_eq_true_eq]
    dsimp only
    split <;> omega

/-- The cells of a range find what the range does exactly if the range finds what directly
tracks one of its cells. -/
theorem unionOfCells_iff_found {t : DirtyCellTracker S T} (ht : t.Reachable) {range : AbsRange}
    (hrange : range.valid = true) : t.UnionOfCells range ↔
      ∀ a s, range.HasCell a → t.Step a.toRange s → t.FoundFrom range s := by
  constructor
  · intro h a s ha hstep
    apply mem_queryDirtyCellsOf.mp
    rw [h s]
    exact ⟨a, ha, mem_queryDirtyCellsOf.mpr (.inr ⟨_, .inl rfl, .single hstep⟩)⟩
  · intro h s
    simp only [mem_queryDirtyCellsOf]
    constructor
    · rintro (hs | ⟨m, rfl | hm, hreach⟩)
      · obtain ⟨a, ha⟩ := exists_hasCell hrange
        exact ⟨a, ha, .inl hs⟩
      · rcases TransGen.head'_iff.mp hreach with ⟨s', hstep, hrest⟩
        obtain ⟨a, ha, hstep⟩ := exists_cell_of_step ht hrange hstep
        exact ⟨a, ha, .inr ⟨_, .inl rfl, TransGen.head' hstep hrest⟩⟩
      · obtain ⟨a, ha⟩ := exists_hasCell hrange
        exact ⟨a, ha, .inr ⟨m, .inr hm, hreach⟩⟩
    · rintro ⟨a, ha, hs | ⟨m, rfl | hm, hreach⟩⟩
      · exact .inl hs
      · rcases TransGen.head'_iff.mp hreach with ⟨s', hstep, hrest⟩
        -- what tracks the cell is found, and so is what tracks that
        rcases h a s' ha hstep with hvolatile | ⟨m, hm, hreach'⟩
        · rcases hrest.cases_head with rfl | ⟨s'', hstep', hrest'⟩
          · exact .inl hvolatile
          · exact .inr ⟨s', .inr hvolatile, TransGen.head' hstep' hrest'⟩
        · exact .inr ⟨m, hm, hreach'.trans_left hrest⟩
      · exact .inr ⟨m, .inr hm, hreach⟩

/-- A tracker in which one cell is tracked, by the first cell of all. -/
def trackingCell (a : AbsAddress) : DirtyCellTracker S T :=
  (new : DirtyCellTracker S T).withPairs (AbsAddress.toRange ⟨0, 0, 0⟩) a.toRange

/-- A cell may be tracked. -/
theorem trackable_cell {range : AbsRange} (hrange : range.valid = true) {a : AbsAddress}
    (ha : range.HasCell a) : Trackable (AbsAddress.toRange ⟨0, 0, 0⟩) a.toRange := by
  obtain ⟨⟨h₁, h₂, h₃, h₄⟩, ⟨hsheet, -⟩, -⟩ := ha
  have hfirst := (AbsRange.valid_iff.mp hrange).1
  rw [AbsAddress.valid, decide_eq_true_eq] at hfirst
  refine ⟨by decide, rfl, ?_, ?_, ?_⟩
  · rw [AbsRange.valid_iff, AbsAddress.toRange, AbsAddress.valid, decide_eq_true_eq]
    exact ⟨by dsimp only; omega, by dsimp only; omega, Int.le_refl _, Int.le_refl _, Int.le_refl _⟩
  · rw [AbsRange.allColumns, decide_eq_false_iff_not, AbsAddress.toRange]
    dsimp only
    omega
  · rw [AbsRange.allRows, decide_eq_false_iff_not, AbsAddress.toRange]
    dsimp only
    omega

theorem step_trackingCell {range m s : AbsRange} (hrange : range.valid = true) {a : AbsAddress}
    (ha : range.HasCell a) : (trackingCell a : DirtyCellTracker S T).Step m s ↔
      s = AbsAddress.toRange ⟨0, 0, 0⟩ ∧ m.first.sheet = a.sheet ∧
        a.toRange.extent.Intersects m.extent := by
  have hwf : (new : DirtyCellTracker S T).WF := Reachable.new.wf
  have hnew {sheet : Int} {e : Extent} {s : AbsRange} :
      ¬ (new : DirtyCellTracker S T).Tracked sheet e s :=
    fun h ↦ not_listens_empty (tracked_iff.mp h).2
  rw [Step]
  simp only [trackingCell, tracked_withPairs hwf (trackable_cell hrange ha), hnew, or_false, Pairs,
    AbsAddress.toRange_first, AbsAddress.toRange_last]
  constructor
  · rintro ⟨e, ⟨rfl, rfl, h₁, h₂⟩, hinter⟩
    exact ⟨rfl, Int.le_antisymm h₂ h₁, hinter⟩
  · rintro ⟨rfl, hsheet, hinter⟩
    exact ⟨_, ⟨rfl, rfl, hsheet.ge, hsheet.le⟩, hinter⟩

/-- Where a cell of a range is not looked up with it, a tracker in which that cell is tracked
does not find what tracks it. -/
theorem not_unionOfCells_of_cell {range : AbsRange} (hrange : range.valid = true) {a : AbsAddress}
    (ha : range.HasCell a)
    (hout : ¬ (range.first.sheet = a.sheet ∧ a.toRange.extent.Intersects range.extent)) :
    (trackingCell a : DirtyCellTracker S T).Reachable ∧
      ¬ (trackingCell a : DirtyCellTracker S T).UnionOfCells range := by
  have hreach : (trackingCell a : DirtyCellTracker S T).Reachable :=
    .add .new (add_eq_ok_iff.mpr ⟨trackable_cell hrange ha, rfl⟩)
  refine ⟨hreach, fun h ↦ ?_⟩
  have hstep :
      (trackingCell a : DirtyCellTracker S T).Step a.toRange (AbsAddress.toRange ⟨0, 0, 0⟩) :=
    (step_trackingCell hrange ha).mpr
      ⟨rfl, rfl, Int.le_refl _, Int.le_refl _, Int.le_refl _, Int.le_refl _⟩
  have hvolatile : toList (trackingCell a : DirtyCellTracker S T).volatileCells = [] := by
    rw [trackingCell, volatileCells_withPairs]
    exact toList_empty
  rcases (unionOfCells_iff_found hreach hrange).mp h a _ ha hstep with hs | ⟨m, rfl | hm, hpath⟩
  · rw [hvolatile] at hs
    exact List.not_mem_nil hs
  · obtain ⟨s', hs', -⟩ := TransGen.head'_iff.mp hpath
    exact hout ((step_trackingCell hrange ha).mp hs').2
  · rw [hvolatile] at hm
    exact List.not_mem_nil hm

/-- A range finds what its cells find in every tracker that holds what directly tracks one of
its cells to be dirty anyway; and it does so in all trackers exactly if it is on one sheet and
has its rows and columns set. -/
theorem unionOfCells_iff {range : AbsRange} (hrange : range.valid = true) :
    (∀ t : DirtyCellTracker S T, t.Reachable → (t.UnionOfCells range ↔
      ∀ a s, range.HasCell a → t.Step a.toRange s → t.FoundFrom range s)) ∧
    ((∀ t : DirtyCellTracker S T, t.Reachable → t.UnionOfCells range) ↔
      range.first.sheet = range.last.sheet ∧ range.allRows = false ∧ range.allColumns = false) := by
  refine ⟨fun t ht ↦ unionOfCells_iff_found ht hrange, ?_⟩
  constructor
  · intro h
    obtain ⟨hfirst, hlast, hsheet, hrow, hcol⟩ := AbsRange.valid_iff.mp hrange
    rw [AbsAddress.valid, decide_eq_true_eq] at hfirst hlast
    obtain ⟨a, ha⟩ := exists_hasCell hrange
    -- the cell that is tracked must be looked up with the range
    have hlooked {a : AbsAddress} (ha : range.HasCell a) :
        range.first.sheet = a.sheet ∧ a.toRange.extent.Intersects range.extent := by
      by_contra hout
      obtain ⟨hreach, hnot⟩ := not_unionOfCells_of_cell (S := S) (T := T) hrange ha hout
      exact hnot (h _ hreach)
    obtain ⟨-, h₁, h₂, h₃, h₄⟩ := hlooked ha
    obtain ⟨⟨hr₁, hr₂, hc₁, hc₂⟩, hs, hrows, hcols⟩ := ha
    dsimp only [AbsRange.extent, AbsAddress.toRange] at h₁ h₂ h₃ h₄
    refine ⟨(hlooked (a := { a with sheet := range.last.sheet })
      ⟨⟨hr₁, hr₂, hc₁, hc₂⟩, ⟨hsheet, Int.le_refl _⟩, hrows, hcols⟩).1, ?_, ?_⟩
    · rw [AbsRange.allRows, decide_eq_false_iff_not]
      omega
    · rw [AbsRange.allColumns, decide_eq_false_iff_not]
      omega
  · rintro ⟨hsheet, hrows, hcols⟩ t ht
    rw [unionOfCells_iff_found ht hrange]
    intro a s ha hstep
    exact .inr ⟨range, .inl rfl, .single (step_of_cell hsheet hrows hcols ha hstep)⟩

/-- The first cells of two sheets. -/
def twoFirstCells : AbsRange := ⟨⟨0, 0, 1⟩, ⟨1, 0, 1⟩⟩

/-- What tracks some cells of a row is found for the cells together. -/
theorem unionOfCells_iff_row :
    (∀ t : DirtyCellTracker (ListSet AbsRange) (ListTree (ListSet AbsRange)), t.Reachable →
        t.UnionOfCells ⟨⟨0, 0, 1⟩, ⟨0, 0, 4⟩⟩) ↔
      (0 : Int) = 0 ∧ AbsRange.allRows ⟨⟨0, 0, 1⟩, ⟨0, 0, 4⟩⟩ = false ∧
        AbsRange.allColumns ⟨⟨0, 0, 1⟩, ⟨0, 0, 4⟩⟩ = false := by
  have hvalid : AbsRange.valid ⟨⟨0, 0, 1⟩, ⟨0, 0, 4⟩⟩ = true := by decide
  exact (unionOfCells_iff hvalid).2

/-- What tracks a cell of the second sheet is not found. -/
theorem not_unionOfCells_twoSheets :
    ¬ ∀ (t : DirtyCellTracker (ListSet AbsRange) (ListTree (ListSet AbsRange))) (range : AbsRange),
      t.Reachable → range.valid = true → t.UnionOfCells range := by
  intro h
  have hvalid : twoFirstCells.valid = true := by decide
  have hcell : twoFirstCells.HasCell ⟨1, 0, 1⟩ :=
    ⟨by decide, by decide, .inr (by decide), .inr (by decide)⟩
  obtain ⟨hreach, hnot⟩ := not_unionOfCells_of_cell (S := ListSet AbsRange)
    (T := ListTree (ListSet AbsRange)) hvalid hcell (by decide)
  exact hnot (h _ _ hreach hvalid)

end DirtyCellTracker

end Ixion
