import Ixion.Interp.Balance
import Ixion.Table

/-!
# Ranges on the stack

A range that is pushed has to be valid, which an assertion checks.  A reference is made
absolute and its corners are put in order before that, but nothing checks that the corners
are addresses at all, and a table that is not known has the invalid range.  An interpretation
keeps clear of the assertion if every reference in its tokens fits the position of the cell.
-/

namespace Ixion

open Lib Query ValueStack InterpM

/-- The corners of a reference are addresses, as seen from a position, or the position lies
between them. -/
def Range.Fits (pos : AbsAddress) (range : Range) : Prop :=
  ((range.toAbs pos).first.valid = true ∧ (range.toAbs pos).last.valid = true) ∨
    (range.toAbs pos).reorder.contains pos = true

instance (pos : AbsAddress) (range : Range) : Decidable (range.Fits pos) := by
  unfold Range.Fits; infer_instance

/-- A reference to a table has a valid range, if there is a table handler at all. -/
def Table.Fits (wb : Workbook) (pos : AbsAddress) (table : Table) : Prop :=
  ∀ range, wb.tableRange pos table = some range → range.valid = true

/-- A token that is a reference to a range or to a table fits a position. -/
def FormulaToken.Fits (wb : Workbook) (pos : AbsAddress) : FormulaToken → Prop
  | .rangeRef range => range.Fits pos
  | .tableRef table => table.Fits wb pos
  | _ => True

/-- Putting the corners in order makes a valid range of addresses that are valid, and only of
these. -/
theorem AbsRange.valid_reorder_iff {range : AbsRange} :
    range.reorder.valid = true ↔ range.first.valid = true ∧ range.last.valid = true := by
  rw [AbsRange.valid_iff, ← and_assoc, and_iff_left range.ordered_reorder]
  simp only [AbsRange.reorder, AbsAddress.valid, decide_eq_true_eq, le_min_iff, le_max_iff,
    max_le_iff, min_le_iff]
  constructor
  · omega
  · omega

namespace Interpreter

/-- The assertion that a range is valid does not fail. -/
def PushesValid (x : InterpM Unit) : Prop :=
  ∀ s, (x s).Throws (· ≠ .assertionFailed "val.valid()")

variable {env : Interpreter}

/-- A valid range is pushed, and an invalid one fails the assertion. -/
theorem pushesValid_pushRangeRef_iff (hassert : env.assertions = true) {range : AbsRange} :
    PushesValid (do env.pushRangeRef range; next) ↔ range.valid = true := by
  cases hvalid : range.valid with
  | true =>
    refine iff_of_true (fun s ↦ ?_) rfl
    have hpush : env.pushRangeRef range = InterpM.push (.rangeRef range) := by
      rw [pushRangeRef, assert, if_neg fun h ↦ h.2 hvalid]
      rfl
    rw [hpush]
    trivial
  | false =>
    refine iff_of_false (fun h ↦ ?_) Bool.false_ne_true
    have hpush : (do env.pushRangeRef range; next : InterpM Unit) =
        fail (.assertionFailed "val.valid()") := by
      rw [pushRangeRef, assert, if_pos ⟨hassert, by rw [hvalid]; exact Bool.false_ne_true⟩]
      rfl
    rw [hpush] at h
    exact h ⟨[], [], []⟩ rfl

/-- A reference to a range fails the assertion unless it fits the position. -/
theorem pushesValid_rangeRef_iff (hassert : env.assertions = true) {range : Range} :
    PushesValid (env.rangeRef range) ↔ range.Fits env.pos := by
  rw [rangeRef, Range.Fits, ← AbsRange.valid_reorder_iff]
  dsimp only
  by_cases hcontains : (range.toAbs env.pos).reorder.contains env.pos = true
  · rw [if_pos hcontains]
    exact iff_of_true (by rintro s ⟨⟩) (.inr hcontains)
  · rw [if_neg hcontains, or_iff_left hcontains]
    exact pushesValid_pushRangeRef_iff hassert

/-- A reference to a table fails the assertion unless its range is valid. -/
theorem pushesValid_tableRef_iff (hassert : env.assertions = true) {table : Table} :
    PushesValid (env.tableRef table) ↔ table.Fits env.workbook env.pos := by
  rw [tableRef, Table.Fits]
  cases env.workbook.tableRange env.pos table with
  | none => exact iff_of_true (by rintro s ⟨⟩) (by rintro _ ⟨⟩)
  | some range =>
    rw [pushesValid_pushRangeRef_iff hassert]
    simp only [Option.some.injEq, forall_eq']

/-- What is sized fails in allowed ways only. -/
theorem onStack_of_sized {E : Failure → Prop} {α : Type} {x : StackM α} {R : Nat → α → Nat → Prop}
    (h : ∀ m, Sized E m (R m) x) : Policy.OnStack ⟨fun _ ↦ True, E, fun _ ↦ True⟩ x :=
  fun s _ ↦ (h s.length s rfl).mono fun _ _ ↦ ⟨trivial, fun _ _ ↦ trivial⟩

/-- Anything but failing the assertion that a range is valid. -/
def validPolicy : Policy :=
  ⟨fun _ ↦ True, (· ≠ .assertionFailed "val.valid()"), fun _ ↦ True⟩

variable {tokens : List FormulaToken}

theorem sound_pushValid {range : AbsRange} (h : range.valid = true) :
    validPolicy.Sound tokens (fun _ ↦ True) (do env.pushRangeRef range; next) := by
  refine Policy.sound_bind (Policy.sound_bind (Q := fun _ ↦ True) ?_ fun _ _ ↦
    Policy.sound_push trivial) fun _ _ ↦ Policy.sound_next
  rw [assert, if_neg fun hfails ↦ hfails.2 h]
  exact Policy.sound_pure trivial

/-- Where the references of a formula fit the position of its cell, they are pushed as valid
ranges. -/
theorem allows_validPolicy
    (hcall : ∀ func, LeavesOne (· ≠ .assertionFailed "val.valid()") (env.call func))
    (hfits : ∀ t ∈ tokens, t.Fits env.workbook env.pos) : validPolicy.Allows env tokens where
  invalid _ := (by rintro ⟨⟩)
  noString := (by rintro ⟨⟩)
  generalError := (by rintro ⟨⟩)
  stackOverflow := (by rintro ⟨⟩)
  undefined := (by rintro ⟨⟩)
  assertion _ expr hexpr h := by
    cases h
    exact absurd hexpr (by decide)
  plain _ _ := trivial
  popStackValue := onStack_of_sized fun _ ↦ sized_popStackValue (fun _ ↦ (by rintro ⟨⟩)) _
  popMatrixOrNumeric := onStack_of_sized fun _ ↦ sized_popMatrixOrNumeric (fun _ ↦ (by rintro ⟨⟩)) _
  popMatrixOrString := onStack_of_sized fun _ ↦ sized_popMatrixOrString (fun _ ↦ (by rintro ⟨⟩)) _ _
  popValue := onStack_of_sized fun _ ↦
    (pops_popValue fun _ ↦ (by rintro ⟨⟩)).sized fun _ ↦ (by rintro ⟨⟩)
  compare _ _ _ _ _ := (by rintro ⟨⟩)
  termOp _ _ _ _ _ := (by rintro ⟨⟩)
  concat _ _ _ _ := (by rintro ⟨⟩)
  call func := onStack_of_sized (hcall func)
  singleRef addr _ := by
    rw [singleRef]
    dsimp only
    split
    · exact Policy.sound_raise (by rintro ⟨⟩)
    · exact Policy.sound_bind (Policy.sound_push trivial) fun _ _ ↦ Policy.sound_next
  rangeRef range hrange := by
    rw [rangeRef]
    dsimp only
    split
    · exact Policy.sound_raise (by rintro ⟨⟩)
    case isFalse hcontains =>
      refine sound_pushValid (AbsRange.valid_reorder_iff.mpr ?_)
      exact (hfits _ hrange).resolve_right hcontains
  tableRef table htable := by
    rw [tableRef]
    split
    · exact Policy.sound_raise (by rintro ⟨⟩)
    case h_2 range hrange => exact sound_pushValid (hfits _ htable range hrange)

theorem results_validPolicy (env : Interpreter) : validPolicy.Results env := by
  intro stack _
  rw [popResult]
  split
  · exact fun h ↦ absurd (Failure.assertionFailed.inj h) (by decide)
  · exact within_topResult (fun _ ↦ (by rintro ⟨⟩)) (by rintro ⟨⟩) (P := fun _ ↦ True) fun v _ ↦
      RefersOnly.all v

end Interpreter

/-- The references of a formula and of the names in it fit the position of its cell. -/
def FormulaCell.ReferencesFit (wb : Workbook) (pos : AbsAddress) (cell : FormulaCell) : Prop :=
  ∀ t, wb.Occurs pos.sheet cell.tokens t → t.Fits wb pos

/-- A sheet without cells and a table handler that knows no tables. -/
def noTables : Workbook where
  sheetSize := ⟨10, 10⟩
  sheets := [⟨"one", []⟩]
  namedExpressions := []
  cells _ := .empty
  strPool := .new
  tableHandler := some (TableEntries.toTableHandler ⟨[], .nil⟩)

/-- A formula that is the range of the two cells above in the next column. -/
def aboveCell : FormulaCell :=
  ⟨[.rangeRef ⟨⟨0, -2, 1, false, false, false⟩, ⟨0, -1, 1, false, false, false⟩⟩], -1, -1, 0⟩

/-- A formula that is the data of a table. -/
def tableCell : FormulaCell := ⟨[.tableRef ⟨.index 0, .empty, .empty, 1⟩], -1, -1, 0⟩

end Ixion
