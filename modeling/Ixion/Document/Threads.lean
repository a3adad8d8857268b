import Ixion.Document.History
import Ixion.Calc.Agree

/-!
# Documents calculated with threads

A document may be calculated with any number of threads, which interpret the dirty cells at the same
time and wait for each other's results.  In the documents that edits lead to, every cell that a
formula reads has its result by then, or is listed before it: a dirty cell comes after all that it
depends on, a cell that is not dirty has been calculated before, and a circular cell has been found
circular.  Hence no thread waits for ever, and no order of steps makes a difference
(`endsIn_calculate_threads`).
-/

namespace Ixion

open Lib UnorderedSet DirtyCellTracker Relation

namespace Document

open ModelContext Workbook FormulaCellQueue

variable {S T : Type} [UnorderedSet S AbsRange] [RTree T S]

/-- Where the check looks into all references, it finds every listed cell that is circular. -/
theorem foundCircular_of_circular {evs : Set Evaluator} {d : Document S T} (hs : d.cxt.Sound)
    (hpoints : d.ModifiedPoints) (hd : d.Consistent evs) {ev : Evaluator} (hev : ev ∈ evs)
    (hdirect : d.cxt.AllDirect) {l₁ : List Visit} {x : Visit}
    (hx : SplitAt (d.cxt.visits d.sortedCells) l₁ x) (hc : Circular d.cxt.DependsOn x.pos) :
    FoundCircular d.sortedCells d.cxt x.key := by
  have hcell := ((mem_visits_iff hs hpoints).mp hx.mem).1
  obtain ⟨b, ⟨cell, hcell', hmem, k, hk⟩, hb⟩ :=
    circular_iff_exists.mp ((hs.circular_looks_iff hdirect).mpr hc)
  obtain rfl : cell = x.cell :=
    Cell.formula.inj ((hs.tidy.getFormulaCell.mp hcell').symm.trans hcell)
  obtain ⟨cb, hcb, rfl⟩ := hs.hasStatus_iff.mp hk
  -- the cell that leads to the cycle from here is not found safe
  refine mem_marked_sweep.mpr (.inr ⟨l₁, x, hx, rfl, fun hseen ↦ ?_⟩)
  exact not_mem_safe_of_circular hs hpoints hd hev (fun _ hy ↦ hx.subset hy) hcb hb
    (hseen ⟨b, hmem, cb, hs.tidy.getFormulaCell.mpr hcb, rfl⟩)

/-- What a cell that is calculated depends on is listed before it if it is dirty, and has a result
if it is not. -/
theorem precedentsListed {evs : Set Evaluator} {d : Document S T} (hs : d.cxt.Sound)
    (hpoints : d.ModifiedPoints) (hd : d.Consistent evs) {ev : Evaluator} (hev : ev ∈ evs)
    (hdirect : d.cxt.AllDirect) : PrecedentsListed d.sortedCells d.cxt := by
  intro l₁ x hx _ hfound b k hdep hk
  have hcirc : ¬ Circular d.cxt.DependsOn x.pos := fun hc ↦
    hfound (foundCircular_of_circular hs hpoints hd hev hdirect hx hc)
  obtain ⟨cb, hcb, rfl⟩ := hs.hasStatus_iff.mp hk
  constructor
  · rintro ⟨y, hy, hkey⟩ _
    obtain ⟨hycell, hystale⟩ := (mem_visits_iff hs hpoints).mp hy
    rw [hs.ownStatus y.pos b y.cell cb hycell hcb hkey] at hystale
    exact .inr ⟨⟨cb, b⟩, mem_before_of_dependsOn hs hpoints hx hcirc hcb hdep hystale, rfl⟩
  · intro hunlisted
    have hstale : ¬ d.Stale b := fun hstale ↦
      hunlisted ⟨cb, b⟩ ((mem_visits_iff hs hpoints).mpr ⟨hcb, hstale⟩) rfl
    obtain ⟨r, hr, _⟩ := (hd ev hev b cb hcb hstale).current
    exact Option.isSome_iff_exists.mpr ⟨r, hr⟩

/-- The context in which `=B1` is interpreted. -/
def editedPrepared : ModelContext Ranges (ListTree Ranges) :=
  finalState (prepare [(⟨0, 0, 0⟩ : AbsAddress).toRange]) editedDoc.cxt

/-- The visit to `=B1`. -/
def visitRight : Visit := ⟨⟨[.singleRef ⟨0, 0, 1, false, false, false⟩], -1, -1, 0⟩, ⟨0, 0, 0⟩⟩

theorem sortedCells_editedDoc : editedDoc.sortedCells = [(⟨0, 0, 0⟩ : AbsAddress).toRange] := by
  decide +kernel

theorem visits_editedDoc :
    editedDoc.cxt.visits [(⟨0, 0, 0⟩ : AbsAddress).toRange] = [visitRight] := rfl

theorem prepare_editedDoc : prepare [(⟨0, 0, 0⟩ : AbsAddress).toRange] editedDoc.cxt =
    .ok [visitRight.toEntry] editedPrepared := rfl

theorem raisesNothing_editedDoc : RaisesNothing plain editedDoc.sortedCells editedDoc.cxt := by
  intro entries cxt₀ hprepare l₁ x cxt₁ hx hrun _ results _
  rw [sortedCells_editedDoc] at hprepare hx
  rw [visits_editedDoc] at hx
  cases prepare_editedDoc.symm.trans hprepare
  rcases splitAt_cons.mp hx with ⟨rfl, rfl⟩ | ⟨l₂, _, hx⟩
  · cases hrun
    exact ⟨_, rfl⟩
  · exact absurd hx.mem List.not_mem_nil

end Document

end Ixion
