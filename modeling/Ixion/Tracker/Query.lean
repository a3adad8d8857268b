import Ixion.Tracker.Basic
import Ixion.Lib.Wave
import Mathlib.Data.Set.Basic

/-!
# Dirty cells

Given a set of modified ranges, `queryDirtyCells` collects the ranges that have
to be recalculated: the volatile ranges, and in waves everything that tracks a
cell of a modified, volatile or dirty range.

One range *affects* another when the second tracks, on the sheet of the first, a
rectangle that overlaps it (`Step`).  The dirty ranges are the transitive closure
of this relation: `mem_queryDirtyCells`.
-/

namespace Ixion

open Lib UnorderedSet Relation

namespace DirtyCellTracker

variable {S T : Type} [UnorderedSet S AbsRange] [RTree T S]

/-! ## Ranges affected directly -/

/-- Put the listeners of the entry at a position of an index into a set. -/
def collect (grid : T) (ranges : S) (i : Nat) : S :=
  match (RTree.entries grid)[i]? with
  | some (_, rangeSet) => insertAll ranges (toList rangeSet)
  | none => ranges

/-- The ranges that are directly affected by a modified range. -/
def getAffectedCellRanges (t : DirtyCellTracker S T) (range : AbsRange) : S :=
  match t.fetchGrid range.first.sheet with
  | none => empty
  | some grid => (RTree.overlapSearch grid range.extent).foldl (collect grid) empty

/-- `m` affects `s`: on the sheet of `m`, the source `s` tracks a rectangle that
overlaps `m`. -/
def Step (t : DirtyCellTracker S T) (m s : AbsRange) : Prop :=
  ∃ e, t.Tracked m.first.sheet e s ∧ e.Intersects m.extent

theorem mem_collect {grid : T} {ranges : S} {i : Nat} {s : AbsRange} :
    s ∈ toList (collect grid ranges i) ↔
      (∃ p, (RTree.entries grid)[i]? = some p ∧ s ∈ toList p.2) ∨ s ∈ toList ranges := by
  rw [collect]
  cases (RTree.entries grid)[i]? with
  | none => simp
  | some p => simp

theorem mem_foldl_collect {grid : T} (res : List Nat) {ranges : S} {s : AbsRange} :
    s ∈ toList (res.foldl (collect grid) ranges) ↔
      (∃ i ∈ res, ∃ p, (RTree.entries grid)[i]? = some p ∧ s ∈ toList p.2) ∨
        s ∈ toList ranges := by
  induction res generalizing ranges with
  | nil => simp
  | cons i res ih =>
    rw [List.foldl_cons, ih, mem_collect, List.exists_mem_cons_iff, or_left_comm, or_assoc]

/-- The affected ranges are those one step away. -/
theorem mem_getAffectedCellRanges {t : DirtyCellTracker S T} {m s : AbsRange} :
    s ∈ toList (t.getAffectedCellRanges m) ↔ t.Step m s := by
  rw [getAffectedCellRanges, Step]
  simp only [Tracked]
  cases t.fetchGrid m.first.sheet with
  | none => simp
  | some grid =>
    simp only [mem_foldl_collect, toList_empty, List.not_mem_nil, or_false,
      RTree.mem_overlapSearch, Option.some.injEq, exists_eq_left', Listens]
    constructor
    · rintro ⟨i, ⟨p, hi, hp⟩, q, hq, hs⟩
      have hpq : p = q := Option.some.inj (hi.symm.trans hq)
      exact ⟨p.1, ⟨p.2, List.mem_of_getElem? hi, hpq ▸ hs⟩, hp⟩
    · rintro ⟨e, ⟨l, hl, hs⟩, he⟩
      obtain ⟨i, hi⟩ := List.mem_iff_getElem?.mp hl
      exact ⟨i, ⟨_, hi, he⟩, _, hi, hs⟩

/-- All listeners of all sheets. -/
def listeners (t : DirtyCellTracker S T) : List AbsRange :=
  t.grids.flatMap fun grid ↦ (RTree.entries grid).flatMap fun p ↦ toList p.2

/-- Only listeners are affected by anything, so the waves come to an end. -/
theorem mem_listeners (t : DirtyCellTracker S T) (m s : AbsRange)
    (h : s ∈ toList (t.getAffectedCellRanges m)) : s ∈ t.listeners := by
  obtain ⟨e, ⟨grid, hgrid, l, hl, hs⟩, _⟩ := mem_getAffectedCellRanges.mp h
  rw [fetchGrid] at hgrid
  split at hgrid
  case isTrue =>
    exact List.mem_flatMap.mpr
      ⟨grid, List.mem_of_getElem? hgrid, List.mem_flatMap.mpr ⟨_, hl, hs⟩⟩
  case isFalse => exact absurd hgrid (by simp)

/-! ## All dirty ranges -/

/-- The ranges that are dirty once the given ones are modified. -/
def queryDirtyCells (t : DirtyCellTracker S T) (modifiedCells : S) : S :=
  -- volatile ranges are dirty, and they are modified as well
  let dirtyFormulaCells := insertAll (empty : S) (toList t.volatileCells)
  let curModifiedCells := insertAll modifiedCells (toList t.volatileCells)
  (spread t.getAffectedCellRanges (fun _ _ _ ↦ ()) t.listeners t.mem_listeners
    ⟨(), dirtyFormulaCells, curModifiedCells⟩).reached

theorem affects_getAffectedCellRanges (t : DirtyCellTracker S T) :
    Affects t.getAffectedCellRanges = t.Step := by
  funext m s
  exact propext mem_getAffectedCellRanges

theorem mem_queryDirtyCells (t : DirtyCellTracker S T) (modifiedCells : S) (s : AbsRange) :
    s ∈ toList (t.queryDirtyCells modifiedCells) ↔
      s ∈ toList t.volatileCells ∨
        ∃ m, (m ∈ toList modifiedCells ∨ m ∈ toList t.volatileCells) ∧ TransGen t.Step m s := by
  have h₀ : ∀ a ∈ toList (insertAll (empty : S) (toList t.volatileCells)),
      a ∈ toList (insertAll modifiedCells (toList t.volatileCells)) := by
    intro a ha
    rw [mem_toList_insertAll, toList_empty] at ha
    exact mem_toList_insertAll.mpr (.inl (ha.resolve_right List.not_mem_nil))
  rw [queryDirtyCells, mem_spread_iff t.mem_listeners h₀, affects_getAffectedCellRanges]
  simp only [mem_toList_insertAll, toList_empty, List.not_mem_nil, or_false]
  rw [exists_congr fun m ↦ and_congr_left fun _ ↦ or_comm]

/-- The dirty ranges are the volatile ones and the closure, in one or more steps,
of the modified and the volatile ranges. -/
theorem queryDirtyCells_eq_closure (t : DirtyCellTracker S T) (modifiedCells : S) :
    {s | s ∈ toList (t.queryDirtyCells modifiedCells)} =
      {s | s ∈ toList t.volatileCells} ∪
        {s | ∃ m ∈ {m | m ∈ toList modifiedCells} ∪ {m | m ∈ toList t.volatileCells},
          TransGen t.Step m s} := by
  ext s
  exact mem_queryDirtyCells t modifiedCells s

end DirtyCellTracker

end Ixion
