import Ixion.Context

/-!
# Tables

A table handler knows tables by their names.  A table lies in a range whose first row has the
headers and whose last rows, if there are any, have the totals.  What is not found is the
invalid range.
-/

namespace Ixion

/-- The address that stands for none. -/
def AbsAddress.invalid : AbsAddress := ⟨-1, -1, -1⟩

/-- The range that stands for none. -/
def AbsRange.invalid : AbsRange := ⟨.invalid, .invalid⟩

theorem AbsRange.valid_invalid : AbsRange.invalid.valid = false := by decide

/-- The order of the numbers of strings.  The number of the empty string is the largest. -/
def StringId.less : StringId → StringId → Bool
  | .index n, .index m => n < m
  | .index _, .empty => true
  | .empty, _ => false

/-- A table: its name, its range, the names of its columns and the number of rows with
totals. -/
structure TableEntry where
  name : StringId
  range : AbsRange
  columns : List StringId
  totalsRowCount : Int
deriving DecidableEq, Repr

/-- Whether an area is one of those that a reference selects. -/
def hasArea (areas area : Int) : Bool := areas / area % 2 = 1

/-- The rows of the areas that a reference selects. -/
def adjustTableArea (range : AbsRange) (e : TableEntry) (areas : Int) : AbsRange :=
  let data := hasArea areas 1
  let headers := hasArea areas 2
  let totals := hasArea areas 4
  if headers then
    if data then
      if totals then range
      else { range with last := { range.last with row := range.last.row - e.totalsRowCount } }
    else { range with last := { range.last with row := range.first.row } }
  else
    -- the row of the headers is meant to be left out, and the row before it is added
    let range := { range with first := { range.first with row := range.first.row - 1 } }
    if data then
      if totals then range
      else { range with last := { range.last with row := range.last.row - e.totalsRowCount } }
    else if e.totalsRowCount ≤ 0 then .invalid
    else
      { range with first :=
        { range.first with row := range.last.row - (e.totalsRowCount - 1) } }

/-- The range of a column of a table, or of all columns if none is given.  The name of the last
column is not looked at. -/
def TableEntry.getColumnRange (e : TableEntry) (columnFirst _columnLast : StringId) (areas : Int) :
    AbsRange :=
  if columnFirst = .empty then adjustTableArea e.range e areas
  else
    match e.columns.findIdx? (· = columnFirst) with
    | some i =>
      let col := e.range.first.column + i
      adjustTableArea ⟨{ e.range.first with column := col }, { e.range.last with column := col }⟩ e
        areas
    | none => .invalid

/-- The tables that a table handler knows, in the order of their names. -/
structure TableEntries where
  entries : List TableEntry
  sorted : entries.Pairwise fun e e' ↦ e.name.less e'.name

namespace TableEntries

variable (tables : TableEntries)

/-- The range of a part of the table with a name. -/
def getRange (name columnFirst columnLast : StringId) (areas : Int) : AbsRange :=
  match tables.entries.find? (·.name = name) with
  | none => .invalid
  | some e => e.getColumnRange columnFirst columnLast areas

/-- The range of a part of the first table that contains a position. -/
def getRangeAt (pos : AbsAddress) (columnFirst columnLast : StringId) (areas : Int) : AbsRange :=
  match tables.entries.find? (·.range.contains pos) with
  | none => .invalid
  | some e => e.getColumnRange columnFirst columnLast areas

/-- The table handler that knows these tables. -/
def toTableHandler : TableHandler where
  getRange := tables.getRange
  getRangeAt := tables.getRangeAt

/-- A table that is not known has the invalid range. -/
theorem getRange_of_unknown {name : StringId} (h : ∀ e ∈ tables.entries, e.name ≠ name)
    (columnFirst columnLast : StringId) (areas : Int) :
    tables.getRange name columnFirst columnLast areas = .invalid := by
  rw [getRange, List.find?_eq_none.mpr fun e he ↦ by simpa using h e he]

end TableEntries

/-- A column that is not known has the invalid range. -/
theorem TableEntry.getColumnRange_of_unknown {e : TableEntry} {columnFirst : StringId}
    (h : columnFirst ≠ .empty) (hcolumn : columnFirst ∉ e.columns) (columnLast : StringId)
    (areas : Int) : e.getColumnRange columnFirst columnLast areas = .invalid := by
  have hnone : e.columns.findIdx? (· = columnFirst) = none := by
    rw [List.findIdx?_eq_none_iff]
    intro c hc
    simpa using fun (heq : c = columnFirst) ↦ hcolumn (heq ▸ hc)
  rw [getColumnRange, if_neg h, hnone]

end Ixion
