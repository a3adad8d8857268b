import Mathlib.Data.Prod.Lex
import Mathlib.Order.Lattice
import Mathlib.Tactic.Linarith
import Ixion.Lib.Container

/-!
# Cell addresses and ranges

Absolute addresses (`AbsAddress`, `AbsRange`) and addresses whose components may
be relative to an origin (`Address`, `Range`), with the operations of
`address.cpp`.

An unset row or column, which stands for a whole column or a whole row, is the
special value `rowUnset` or `columnUnset`.  Coordinates are unbounded integers
here; the 32-bit limits enter through the constants only.
-/

namespace Ixion

open Lib

/-! ## Constants -/

/-- The largest 32-bit signed integer, for rows as for columns. -/
def rcMax : Int := 2147483647

/-- Row address not specified: a reference to an entire column. -/
def rowUnset : Int := rcMax - 9

/-- Highest number that can be used as a row address. -/
def rowUpperBound : Int := rcMax - 10

/-- Column address not specified: a reference to an entire row. -/
def columnUnset : Int := rcMax - 9

/-- Highest number that can be used as a column address. -/
def columnUpperBound : Int := rcMax / 26 - 26

/-- Whether a sheet index is valid. -/
def isValidSheet (sheet : Int) : Bool := 0 ≤ sheet

/-- A two-dimensional size. -/
structure RcSize where
  row : Int
  column : Int
deriving DecidableEq, Repr

/-! ## Absolute addresses -/

/-- An absolute cell address. -/
structure AbsAddress where
  sheet : Int
  row : Int
  column : Int
deriving DecidableEq, Repr

namespace AbsAddress

/-- All components are set to something a reference may hold. -/
def valid (a : AbsAddress) : Bool :=
  0 ≤ a.sheet ∧ 0 ≤ a.row ∧ 0 ≤ a.column ∧ a.row ≤ rowUnset ∧ a.column ≤ columnUnset

/-- The components in the order in which they are compared. -/
def key (a : AbsAddress) : Int ×ₗ Int ×ₗ Int := toLex (a.sheet, toLex (a.row, a.column))

theorem key_injective : Function.Injective key := by
  rintro ⟨_, _, _⟩ ⟨_, _, _⟩ h
  simpa [key] using h

/-- Addresses are ordered by sheet, then by row, then by column. -/
instance instLinearOrder : LinearOrder AbsAddress := LinearOrder.lift' key key_injective

theorem lt_iff {a b : AbsAddress} :
    a < b ↔ a.sheet < b.sheet ∨
      (a.sheet = b.sheet ∧ (a.row < b.row ∨ (a.row = b.row ∧ a.column < b.column))) := by
  change key a < key b ↔ _
  simp only [key, Prod.Lex.toLex_lt_toLex]

end AbsAddress

/-- The text an address is printed as. -/
def AbsAddress.print (a : AbsAddress) : String :=
  s!"(sheet:{a.sheet}; row:{a.row}; column:{a.column})"

/-! ## Absolute ranges -/

/-- An absolute cell range, given by its two corners. -/
structure AbsRange where
  first : AbsAddress
  last : AbsAddress
deriving DecidableEq, Repr

/-- The text a range is printed as. -/
def AbsRange.print (r : AbsRange) : String := s!"{r.first.print}-{r.last.print}"

/-- A single cell as a range. -/
def AbsAddress.toRange (a : AbsAddress) : AbsRange := ⟨a, a⟩

@[simp] theorem AbsAddress.toRange_first (a : AbsAddress) : a.toRange.first = a := rfl

@[simp] theorem AbsAddress.toRange_last (a : AbsAddress) : a.toRange.last = a := rfl

theorem AbsAddress.toRange_injective : Function.Injective AbsAddress.toRange :=
  fun _ _ h ↦ congrArg AbsRange.first h

namespace AbsRange

/-- Both corners are valid and in order. -/
def valid (r : AbsRange) : Bool :=
  r.first.valid ∧ r.last.valid ∧
    r.first.sheet ≤ r.last.sheet ∧ r.first.column ≤ r.last.column ∧ r.first.row ≤ r.last.row

/-- All columns are selected. -/
def allColumns (r : AbsRange) : Bool :=
  r.first.column = columnUnset ∧ r.last.column = columnUnset

/-- All rows are selected. -/
def allRows (r : AbsRange) : Bool :=
  r.first.row = rowUnset ∧ r.last.row = rowUnset

/-- Whether an address lies in the range. -/
def contains (r : AbsRange) (a : AbsAddress) : Bool :=
  r.first.sheet ≤ a.sheet ∧ a.sheet ≤ r.last.sheet ∧
    r.first.row ≤ a.row ∧ a.row ≤ r.last.row ∧
    r.first.column ≤ a.column ∧ a.column ≤ r.last.column

/-- Swap the corners' components as needed to put them in order. -/
def reorder (r : AbsRange) : AbsRange where
  first := ⟨min r.first.sheet r.last.sheet, min r.first.row r.last.row,
    min r.first.column r.last.column⟩
  last := ⟨max r.first.sheet r.last.sheet, max r.first.row r.last.row,
    max r.first.column r.last.column⟩

/-- The corners are in order. -/
def Ordered (r : AbsRange) : Prop :=
  r.first.sheet ≤ r.last.sheet ∧ r.first.row ≤ r.last.row ∧ r.first.column ≤ r.last.column

instance (r : AbsRange) : Decidable r.Ordered := by unfold Ordered; infer_instance

/-- The corners' rectangle, forgetting the sheets. -/
def extent (r : AbsRange) : Extent :=
  ⟨r.first.row, r.first.column, r.last.row, r.last.column⟩

/-- The corners in the order in which they are compared. -/
def key (r : AbsRange) : AbsAddress ×ₗ AbsAddress := toLex (r.first, r.last)

theorem key_injective : Function.Injective key := by
  rintro ⟨_, _⟩ ⟨_, _⟩ h
  simpa [key] using h

/-- Ranges are ordered by their first corner, then by their last. -/
instance instLinearOrder : LinearOrder AbsRange := LinearOrder.lift' key key_injective

theorem lt_iff {r s : AbsRange} :
    r < s ↔ r.first < s.first ∨ (r.first = s.first ∧ r.last < s.last) := by
  change key r < key s ↔ _
  simp only [key, Prod.Lex.toLex_lt_toLex]

theorem contains_iff {r : AbsRange} {a : AbsAddress} :
    r.contains a = true ↔ r.first.sheet ≤ a.sheet ∧ a.sheet ≤ r.last.sheet ∧
      r.first.row ≤ a.row ∧ a.row ≤ r.last.row ∧
      r.first.column ≤ a.column ∧ a.column ≤ r.last.column :=
  decide_eq_true_iff

theorem valid_iff {r : AbsRange} :
    r.valid = true ↔ r.first.valid = true ∧ r.last.valid = true ∧ r.Ordered := by
  simp only [valid, Ordered, decide_eq_true_eq]
  tauto

/-- Reordering puts the corners in order. -/
theorem ordered_reorder (r : AbsRange) : r.reorder.Ordered :=
  ⟨min_le_max, min_le_max, min_le_max⟩

/-- Reordering changes nothing when the corners are in order. -/
theorem reorder_eq_self {r : AbsRange} (h : r.Ordered) : r.reorder = r := by
  obtain ⟨h₁, h₂, h₃⟩ := h
  obtain ⟨⟨_, _, _⟩, ⟨_, _, _⟩⟩ := r
  simp only [reorder, min_eq_left, max_eq_right, h₁, h₂, h₃]

@[simp] theorem contains_toRange {a b : AbsAddress} : a.toRange.contains b = true ↔ b = a := by
  rw [contains_iff]
  obtain ⟨_, _, _⟩ := a
  obtain ⟨_, _, _⟩ := b
  simp only [AbsAddress.toRange, AbsAddress.mk.injEq]
  omega

end AbsRange

/-! ## Relative and absolute addresses -/

/-- An address each of whose components is relative or absolute. -/
@[ext]
structure Address where
  sheet : Int
  row : Int
  column : Int
  absSheet : Bool
  absRow : Bool
  absColumn : Bool
deriving DecidableEq, Repr

/-- The absolute position of an address seen from `origin`.  Nothing is added to
an unset row or column, nor to anything else above the upper bounds; an invalid
origin sheet makes the sheet invalid. -/
def Address.toAbs (a : Address) (origin : AbsAddress) : AbsAddress where
  sheet :=
    if !isValidSheet origin.sheet then origin.sheet
    else if !a.absSheet then a.sheet + origin.sheet
    else a.sheet
  row := if !a.absRow ∧ a.row ≤ rowUpperBound then a.row + origin.row else a.row
  column :=
    if !a.absColumn ∧ a.column ≤ columnUpperBound then a.column + origin.column
    else a.column

/-- An absolute address as an address. -/
def AbsAddress.toAddress (a : AbsAddress) : Address := ⟨a.sheet, a.row, a.column, true, true, true⟩

/-- A range whose corners' components are relative or absolute. -/
structure Range where
  first : Address
  last : Address
deriving DecidableEq, Repr

/-- The absolute position of a range seen from `origin`. -/
def Range.toAbs (r : Range) (origin : AbsAddress) : AbsRange :=
  ⟨r.first.toAbs origin, r.last.toAbs origin⟩

end Ixion
