import Ixion.Tracker.Query
import Ixion.DepthFirstSearch

/-!
# Dirty cells in the order of their calculation

`queryAndSortDirtyCells` collects the dirty ranges, together with a set of ranges
that are known to be dirty, and sorts them so that a range comes after those it
depends on.

The first wave, from the modified ranges, is not recorded: modified ranges need
not be formula cells.  From the second wave on every pair is recorded.  No pair of
dirty ranges is missed that way, since every dirty range is current in one of the
recorded waves: `depends_iff`.
-/

namespace Ixion

open Lib UnorderedSet Relation

namespace DirtyCellTracker

variable {S T : Type} [UnorderedSet S AbsRange] [RTree T S]

/-- The elements of a set that may be missing. -/
def optionalCells : Option S → List AbsRange
  | some cells => toList cells
  | none => []

/-- The dirty ranges that the modified ranges affect directly. -/
def firstWave (t : DirtyCellTracker S T) (modifiedCells : S) : WaveState S Unit :=
  wave t.getAffectedCellRanges (fun _ _ _ ↦ ()) () empty modifiedCells

/-- The waves after the first one, in which the relations are recorded. -/
def recordedWaves (t : DirtyCellTracker S T) (modifiedCells : S) (dirtyFormulaCells : Option S) :
    SpreadState S (Relations AbsRange) :=
  let first := t.firstWave modifiedCells
  let curModifiedCells := insertAll first.next (toList t.volatileCells)
  let curModifiedCells := insertAll curModifiedCells (optionalCells dirtyFormulaCells)
  spread t.getAffectedCellRanges Relations.insert t.listeners t.mem_listeners
    ⟨Relations.new, first.reached, curModifiedCells⟩

/-- All dirty ranges: those reached in a wave, the volatile ones, and those given
as dirty. -/
def finalDirtyFormulaCells (t : DirtyCellTracker S T) (modifiedCells : S)
    (dirtyFormulaCells : Option S) : S :=
  let final := (t.recordedWaves modifiedCells dirtyFormulaCells).reached
  let final := insertAll final (toList t.volatileCells)
  insertAll final (optionalCells dirtyFormulaCells)

/-- The search that sorts the dirty ranges. -/
def sorter (t : DirtyCellTracker S T) (modifiedCells : S) (dirtyFormulaCells : Option S) :
    DepthFirstSearch AbsRange where
  values := toList (t.finalDirtyFormulaCells modifiedCells dirtyFormulaCells)
  nodup := nodup_toList _
  precedentMap := (t.recordedWaves modifiedCells dirtyFormulaCells).record

/-- The dirty ranges in the order of their calculation, and the error of the
search if it fails. -/
def queryAndSortDirtyCells (t : DirtyCellTracker S T) (modifiedCells : S)
    (dirtyFormulaCells : Option S) : Option DfsError × List AbsRange :=
  (t.sorter modifiedCells dirtyFormulaCells).run

/-! ## What is dirty -/

/-- A range is dirty when it is volatile, or given as dirty, or when it can be
reached in one or more steps from a modified, a volatile or a dirty range. -/
def IsDirty (t : DirtyCellTracker S T) (modifiedCells : S) (dirtyFormulaCells : Option S)
    (s : AbsRange) : Prop :=
  s ∈ toList t.volatileCells ∨ s ∈ optionalCells dirtyFormulaCells ∨
    ∃ m, (m ∈ toList modifiedCells ∨ m ∈ toList t.volatileCells ∨
      m ∈ optionalCells dirtyFormulaCells) ∧ TransGen t.Step m s

/-- Whatever a dirty range affects is dirty. -/
theorem IsDirty.step {t : DirtyCellTracker S T} {M : S} {D : Option S} {a b : AbsRange}
    (ha : t.IsDirty M D a) (hab : t.Step a b) : t.IsDirty M D b := by
  refine .inr (.inr ?_)
  rcases ha with ha | ha | ⟨m, hm, hma⟩
  · exact ⟨a, .inr (.inl ha), .single hab⟩
  · exact ⟨a, .inr (.inr ha), .single hab⟩
  · exact ⟨m, hm, hma.tail hab⟩

theorem mem_firstWave_reached {t : DirtyCellTracker S T} {M : S} {s : AbsRange} :
    s ∈ toList (t.firstWave M).reached ↔ ∃ m ∈ toList M, t.Step m s := by
  rw [firstWave, mem_reached_wave, toList_empty, AffectedBy]
  simp only [mem_getAffectedCellRanges, List.not_mem_nil, or_false]

theorem mem_firstWave_next {t : DirtyCellTracker S T} {M : S} {s : AbsRange} :
    s ∈ toList (t.firstWave M).next ↔ ∃ m ∈ toList M, t.Step m s := by
  rw [firstWave, mem_next_wave, toList_empty, AffectedBy]
  simp only [mem_getAffectedCellRanges, List.not_mem_nil, not_false_eq_true, and_true]

/-- What the recorded waves start from contains what has been reached before. -/
theorem firstWave_reached_subset (t : DirtyCellTracker S T) (M : S) (D : Option S) :
    ∀ a ∈ toList (t.firstWave M).reached,
      a ∈ toList (insertAll (insertAll (t.firstWave M).next (toList t.volatileCells))
        (optionalCells D)) := by
  intro a ha
  rw [mem_toList_insertAll, mem_toList_insertAll, mem_firstWave_next]
  exact .inr (.inr (mem_firstWave_reached.mp ha))

theorem mem_recordedWaves_reached {t : DirtyCellTracker S T} {M : S} {D : Option S}
    {s : AbsRange} :
    s ∈ toList (t.recordedWaves M D).reached ↔
      ∃ m, (m ∈ toList M ∨ m ∈ toList t.volatileCells ∨ m ∈ optionalCells D) ∧
        TransGen t.Step m s := by
  rw [recordedWaves, mem_spread_iff t.mem_listeners (t.firstWave_reached_subset M D),
    affects_getAffectedCellRanges]
  simp only [mem_toList_insertAll, mem_firstWave_reached, mem_firstWave_next]
  constructor
  · rintro (⟨m, hm, hms⟩ | ⟨c, hc | hc | ⟨m, hm, hmc⟩, hcs⟩)
    · exact ⟨m, .inl hm, .single hms⟩
    · exact ⟨c, .inr (.inr hc), hcs⟩
    · exact ⟨c, .inr (.inl hc), hcs⟩
    · exact ⟨m, .inl hm, .head hmc hcs⟩
  · rintro ⟨m, hm | hm | hm, hms⟩
    · -- the first step is the wave that is not recorded
      obtain ⟨c, hmc, hcs⟩ := TransGen.head'_iff.mp hms
      rcases reflTransGen_iff_eq_or_transGen.mp hcs with rfl | hcs
      · exact .inl ⟨m, hm, hmc⟩
      · exact .inr ⟨c, .inr (.inr ⟨m, hm, hmc⟩), hcs⟩
    · exact .inr ⟨m, .inr (.inl hm), hms⟩
    · exact .inr ⟨m, .inl hm, hms⟩

theorem mem_finalDirtyFormulaCells {t : DirtyCellTracker S T} {M : S} {D : Option S}
    {s : AbsRange} : s ∈ toList (t.finalDirtyFormulaCells M D) ↔ t.IsDirty M D s := by
  rw [finalDirtyFormulaCells, mem_toList_insertAll, mem_toList_insertAll,
    mem_recordedWaves_reached, IsDirty]
  exact or_left_comm

/-! ## What is recorded -/

/-- The recorded relations are exactly the steps from dirty ranges. -/
theorem depends_iff {t : DirtyCellTracker S T} {M : S} {D : Option S} {a b : AbsRange} :
    (t.sorter M D).precedentMap.Depends a b ↔ t.Step b a ∧ t.IsDirty M D b := by
  have hsub := t.firstWave_reached_subset M D
  rw [sorter, recordedWaves, recorded_spread_iff t.mem_listeners Relations.depends_insert hsub
    fun _ _ ↦ Relations.not_depends_new, affects_getAffectedCellRanges]
  refine and_congr_right fun _ ↦ ?_
  rw [← mem_finalDirtyFormulaCells, finalDirtyFormulaCells, mem_toList_insertAll,
    mem_toList_insertAll]
  change _ ∨ b ∈ toList (t.recordedWaves M D).reached ↔ _
  simp only [mem_toList_insertAll]
  constructor
  · rintro ((h | h | h) | h)
    · exact .inl h
    · exact .inr (.inl h)
    · refine .inr (.inr (mem_recordedWaves_reached.mpr ?_))
      obtain ⟨m, hm, hmb⟩ := mem_firstWave_next.mp h
      exact ⟨m, .inl hm, .single hmb⟩
    · exact .inr (.inr h)
  · rintro (h | h | h)
    · exact .inl (.inl h)
    · exact .inl (.inr (.inl h))
    · exact .inr h

theorem closed_sorter (t : DirtyCellTracker S T) (M : S) (D : Option S) :
    (t.sorter M D).Closed := by
  intro i b h
  exact mem_finalDirtyFormulaCells.mpr (depends_iff.mp h).2

theorem reflTransGen_step_of_depends {t : DirtyCellTracker S T} {M : S} {D : Option S}
    {a b : AbsRange} (h : ReflTransGen (t.sorter M D).precedentMap.Depends a b) :
    ReflTransGen t.Step b a := by
  induction h with
  | refl => exact .refl
  | tail _ hbc ih => exact .head (depends_iff.mp hbc).1 ih

/-! ## The sorted ranges -/

/-- The search never fails to find a node. -/
theorem queryAndSort_no_error (t : DirtyCellTracker S T) (M : S) (D : Option S) :
    (t.queryAndSortDirtyCells M D).1 = none :=
  ((t.sorter M D).run_spec (t.closed_sorter M D)).1

theorem nodup_queryAndSort (t : DirtyCellTracker S T) (M : S) (D : Option S) :
    (t.queryAndSortDirtyCells M D).2.Nodup :=
  ((t.sorter M D).run_spec (t.closed_sorter M D)).2.1

theorem mem_queryAndSort {t : DirtyCellTracker S T} {M : S} {D : Option S} {s : AbsRange} :
    s ∈ (t.queryAndSortDirtyCells M D).2 ↔ t.IsDirty M D s :=
  (((t.sorter M D).run_spec (t.closed_sorter M D)).2.2.1 s).trans mem_finalDirtyFormulaCells

/-- A range that affects another one comes before it, unless there is a way
back. -/
theorem before_queryAndSort {t : DirtyCellTracker S T} {M : S} {D : Option S} {a b : AbsRange}
    (hab : t.Step a b) (ha : t.IsDirty M D a) :
    DepthFirstSearch.Before (t.queryAndSortDirtyCells M D).2 a b ∨ ReflTransGen t.Step b a := by
  have hb : b ∈ (t.sorter M D).values := mem_finalDirtyFormulaCells.mpr (ha.step hab)
  refine (((t.sorter M D).run_spec (t.closed_sorter M D)).2.2.2 b hb a
    (depends_iff.mpr ⟨hab, ha⟩)).imp_right reflTransGen_step_of_depends

/-- One returned range affects another. -/
def StepAmong (t : DirtyCellTracker S T) (l : List AbsRange) (a b : AbsRange) : Prop :=
  a ∈ l ∧ b ∈ l ∧ t.Step a b

/-- A chain of steps from a returned range stays among the returned ranges. -/
theorem transGen_stepAmong {t : DirtyCellTracker S T} {M : S} {D : Option S} {a b : AbsRange}
    (ha : t.IsDirty M D a) (h : TransGen t.Step a b) :
    TransGen (t.StepAmong (t.queryAndSortDirtyCells M D).2) a b ∧ t.IsDirty M D b := by
  induction h with
  | single hab =>
    have hb := ha.step hab
    exact ⟨.single ⟨mem_queryAndSort.mpr ha, mem_queryAndSort.mpr hb, hab⟩, hb⟩
  | tail _ hbc ih =>
    have hc := ih.2.step hbc
    exact ⟨ih.1.tail ⟨mem_queryAndSort.mpr ih.2, mem_queryAndSort.mpr hc, hbc⟩, hc⟩

theorem before_of_not_transGen {t : DirtyCellTracker S T} {M : S} {D : Option S} {a b : AbsRange}
    (hab : t.Step a b) (ha : t.IsDirty M D a) (hba : ¬ TransGen t.Step b a) :
    DepthFirstSearch.Before (t.queryAndSortDirtyCells M D).2 a b := by
  refine (before_queryAndSort hab ha).resolve_right fun h ↦ ?_
  rcases reflTransGen_iff_eq_or_transGen.mp h with rfl | h
  · exact hba (.single hab)
  · exact hba h

/-- The returned vector holds every dirty range exactly once, the search does not
fail, and whenever `b` tracks a rectangle that overlaps `a` and `a` does not
depend on `b` in turn, `a` comes before `b`; where no returned range depends on
itself this is a topological order. -/
theorem queryAndSortDirtyCells_topological (t : DirtyCellTracker S T) (modifiedCells : S)
    (dirtyFormulaCells : Option S) :
    let out := t.queryAndSortDirtyCells modifiedCells dirtyFormulaCells
    out.1 = none ∧ out.2.Nodup ∧
      (∀ s, s ∈ out.2 ↔ t.IsDirty modifiedCells dirtyFormulaCells s) ∧
      (∀ a b, a ∈ out.2 → b ∈ out.2 → t.Step a b → ¬ TransGen t.Step b a →
        DepthFirstSearch.Before out.2 a b) ∧
      ((∀ a, ¬ TransGen (t.StepAmong out.2) a a) → out.2.Pairwise fun a b ↦ ¬ t.Step b a) := by
  refine ⟨t.queryAndSort_no_error _ _, t.nodup_queryAndSort _ _, fun _ ↦ mem_queryAndSort,
    fun a b ha _ hab hba ↦ before_of_not_transGen hab (mem_queryAndSort.mp ha) hba,
    fun hacyclic ↦ ?_⟩
  have hnodup := t.nodup_queryAndSort modifiedCells dirtyFormulaCells
  -- of two ranges in the wrong order one would come both before and after the other
  refine List.pairwise_iff_forall_sublist.mpr fun {a b} hsub hba ↦ ?_
  have hb : t.IsDirty modifiedCells dirtyFormulaCells b :=
    mem_queryAndSort.mp (hsub.subset (by simp))
  have hnot : ¬ TransGen t.Step a b := by
    intro h
    exact hacyclic b (transGen_stepAmong hb (.head hba h)).1
  exact (before_of_not_transGen hba hb hnot).asymm hnodup hsub

end DirtyCellTracker

end Ixion
