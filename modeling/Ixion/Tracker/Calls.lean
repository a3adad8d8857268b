import Ixion.Tracker.Basic
import Ixion.Lib.Exec
import Mathlib.Data.Set.Basic

/-!
# Calls that change the tracker

The operations of the tracker change it in place, one sheet after the other, and may
throw.  Whatever calls are made, and whichever of them throw, the tracker stands for the
set of triples that the successful calls have put into it and not taken out again:
`runCalls_spec`.
-/

namespace Ixion

open Lib UnorderedSet

namespace DirtyCellTracker

variable {S T : Type} [UnorderedSet S AbsRange] [RTree T S]

/-! ## Calls -/

/-- A call of `add` or `remove`. -/
inductive Call where
  | add (src dest : AbsRange)
  | remove (src dest : AbsRange)
deriving DecidableEq, Repr

/-- Throw an exception unless there is none. -/
def throwIfError : Except Exn Unit → EStateM Exn (DirtyCellTracker S T) Unit
  | .ok _ => return ()
  | .error e => throw e

/-- Run a call: after the checks the sheets of the destination are gone through. -/
def Call.run : Call → EStateM Exn (DirtyCellTracker S T) Unit
  | .add src dest => do
    throwIfError (checkRanges src dest
      s!"dirty_cell_tracker::add: invalid source range: src={src.print}"
      s!"dirty_cell_tracker::add: invalid destination range: src={src.print}; dest={dest.print}"
      s!"dirty_cell_tracker::add: unset column or row range is not allowed {dest.print}")
    (countUp dest.first.sheet dest.last.sheet).forM fun sheet ↦
      modify fun t ↦ t.addOnSheet src dest sheet
  | .remove src dest => do
    throwIfError (checkRanges src dest
      s!"dirty_cell_tracker::add: invalid source range: src={src.print}"
      s!"dirty_cell_tracker::remove: invalid destination range: src={src.print}; dest={dest.print}"
      s!"dirty_cell_tracker::remove: unset column or row range is not allowed {dest.print}")
    (countUp dest.first.sheet dest.last.sheet).forM fun sheet ↦
      modify fun t ↦ t.removeOnSheet src dest sheet

/-- Whether nothing is tracked: no grid has an entry. -/
def isEmpty (t : DirtyCellTracker S T) : Bool :=
  t.grids.all fun grid ↦ (RTree.entries grid).isEmpty

/-! ## The set of triples -/

/-- A sheet, a rectangle on it, and a range that listens to it. -/
abbrev Triple : Type := Int × Extent × AbsRange

/-- The triples that are recorded. -/
def triples (t : DirtyCellTracker S T) : Set Triple := {p | t.Tracked p.1 p.2.1 p.2.2}

/-- The triples of a call, one for each sheet of its destination. -/
def Call.triples : Call → Set Triple
  | .add src dest => {p | Pairs src dest p.1 p.2.1 p.2.2}
  | .remove src dest => {p | Pairs src dest p.1 p.2.1 p.2.2}

/-- What a successful call does to a set of triples. -/
def Call.apply : Call → Set Triple → Set Triple
  | .add src dest, s => s ∪ (Call.add src dest).triples
  | .remove src dest, s => s \ (Call.remove src dest).triples

/-- Run a call on a tracker and, if it succeeds, on a set of triples. -/
def Call.exec (s : DirtyCellTracker S T × Set Triple) (c : Call) :
    DirtyCellTracker S T × Set Triple :=
  match c.run s.1 with
  | .ok _ t => (t, c.apply s.2)
  | .error _ t => (t, s.2)

/-- Run some calls, one after the other. -/
def runCalls (calls : List Call) : DirtyCellTracker S T × Set Triple :=
  calls.foldl Call.exec (new, ∅)

/-! ## One call -/

theorem forM_modify {σ ε β : Type} (f : σ → β → σ) (l : List β) (s : σ) :
    (l.forM fun b ↦ (modify fun s ↦ f s b : EStateM ε σ PUnit)) s = .ok ⟨⟩ (l.foldl f s) := by
  induction l generalizing s with
  | nil => rfl
  | cons b l ih => exact ih (f s b)

/-- A call that fails its checks throws before anything has changed, and any other one
goes through all sheets. -/
theorem run_eq (c : Call) (t : DirtyCellTracker S T) :
    (∃ t', c.run t = .ok () t' ∧ (t.WF → t'.WF ∧ t'.triples = c.apply t.triples)) ∨
      ∃ e, c.run t = .error e t := by
  cases c with
  | add src dest =>
    rw [Call.run, bind_apply]
    cases hcheck : checkRanges src dest _ _ _ with
    | error e => exact .inr ⟨e, rfl⟩
    | ok _ =>
      have htr := checkRanges_eq_ok_iff.mp hcheck
      refine .inl ⟨t.withPairs src dest, forM_modify _ _ t, fun h ↦ ⟨h.withPairs src dest, ?_⟩⟩
      ext p
      change (t.withPairs src dest).Tracked p.1 p.2.1 p.2.2 ↔ _
      rw [tracked_withPairs h htr, or_comm]
      rfl
  | remove src dest =>
    rw [Call.run, bind_apply]
    cases hcheck : checkRanges src dest _ _ _ with
    | error e => exact .inr ⟨e, rfl⟩
    | ok _ =>
      have htr := checkRanges_eq_ok_iff.mp hcheck
      refine .inl ⟨t.withoutPairs src dest, forM_modify _ _ t, fun h ↦
        ⟨h.withoutPairs src dest, ?_⟩⟩
      ext p
      change (t.withoutPairs src dest).Tracked p.1 p.2.1 p.2.2 ↔ _
      rw [tracked_withoutPairs h htr, and_comm]
      rfl

/-- A tracker in order is empty when nothing is tracked. -/
theorem isEmpty_iff_triples {t : DirtyCellTracker S T} (h : t.WF) :
    t.isEmpty = true ↔ t.triples = ∅ := by
  rw [isEmpty, List.all_eq_true, Set.eq_empty_iff_forall_notMem]
  constructor
  · rintro hempty ⟨sheet, e, s⟩ ⟨tree, htree, l, hl, _⟩
    rw [fetchGrid] at htree
    split at htree
    case isTrue =>
      have hnil := List.isEmpty_iff.mp (hempty tree (List.mem_of_getElem? htree))
      rw [hnil] at hl
      exact List.not_mem_nil hl
    case isFalse => exact absurd htree (by rintro ⟨⟩)
  · intro hnone tree htree
    rw [List.isEmpty_iff, List.eq_nil_iff_forall_not_mem]
    rintro ⟨e, l⟩ hl
    -- every entry has a listener
    obtain ⟨s, hs⟩ := isEmpty_eq_false_iff.mp ((h tree htree).listener _ hl)
    obtain ⟨n, hn⟩ := List.mem_iff_getElem?.mp htree
    refine hnone (n, e, s) ⟨tree, ?_, l, hl, hs⟩
    rw [fetchGrid, if_pos (Int.natCast_nonneg n), Int.toNat_natCast]
    exact hn

/-! ## Runs -/

/-- A run keeps the grids in order and records the triples of its successful calls. -/
theorem runCalls_inv (calls : List Call) : (runCalls calls : DirtyCellTracker S T × _).1.WF ∧
    (runCalls calls : DirtyCellTracker S T × _).1.triples =
      (runCalls (S := S) (T := T) calls).2 := by
  have key : ∀ s : DirtyCellTracker S T × Set Triple, s.1.WF → s.1.triples = s.2 →
      (calls.foldl Call.exec s).1.WF ∧
        (calls.foldl Call.exec s).1.triples = (calls.foldl Call.exec s).2 := by
    induction calls with
    | nil => exact fun s hwf hs ↦ ⟨hwf, hs⟩
    | cons c calls ih =>
      intro s hwf hs
      refine ih (Call.exec s c) ?_ ?_
      · rw [Call.exec]
        rcases run_eq c s.1 with ⟨t', hrun, hspec⟩ | ⟨e, hrun⟩
        · rw [hrun]
          exact (hspec hwf).1
        · rw [hrun]
          exact hwf
      · rw [Call.exec]
        rcases run_eq c s.1 with ⟨t', hrun, hspec⟩ | ⟨e, hrun⟩
        · rw [hrun]
          exact (hspec hwf).2.trans (congrArg c.apply hs)
        · rw [hrun]
          exact hs
  refine key (new, ∅) (fun tree htree ↦ absurd htree List.not_mem_nil) ?_
  rw [Set.eq_empty_iff_forall_notMem]
  exact fun p hp ↦ not_listens_empty (tracked_iff.mp hp).2

/-- After any calls the recorded triples are those that the successful calls amount to,
each grid has one entry for each rectangle and a listener for each entry, the tracker
is empty when nothing is recorded, and the next call that throws changes nothing. -/
theorem runCalls_spec (calls : List Call) :
    let s : DirtyCellTracker S T × Set Triple := runCalls calls
    s.1.triples = s.2 ∧ (∀ tree ∈ s.1.grids, TreeWF tree) ∧ (s.1.isEmpty = true ↔ s.2 = ∅) ∧
      ∀ c e t', Call.run c s.1 = .error e t' → t' = s.1 := by
  intro s
  obtain ⟨hwf, htriples⟩ := runCalls_inv (S := S) (T := T) calls
  refine ⟨htriples, hwf, ?_, fun c e t' hrun ↦ ?_⟩
  · exact (isEmpty_iff_triples hwf).trans (by rw [htriples])
  · rcases run_eq c s.1 with ⟨t'', hok, _⟩ | ⟨e', herr⟩
    · exact absurd (hrun.symm.trans hok) nofun
    · cases hrun.symm.trans herr
      rfl

end DirtyCellTracker

end Ixion
