import Mathlib.Data.Set.Finite.Lattice
import Ixion.Document.Calculated

/-!
# Results do not depend on histories

Once a calculation has returned, every formula cell is up to date (`current_of_calculate`), and its
result is a matter of what is in the cells, but not of how it has come there: the results of cells
that are not circular are determined one after the other, and circular cells have an error that
does not depend on the order in which they are found.  So it makes no difference whether the dirty
cells have been calculated after each edit or everything is calculated at once
(`sameResults_of_sameContents`).
-/

namespace Ixion

open Lib UnorderedSet DirtyCellTracker Relation

namespace ModelContext

open Workbook

variable {S T : Type} [UnorderedSet S AbsRange] [RTree T S]

/-! ## What results depend on -/

omit [UnorderedSet S AbsRange] [RTree T S] in
/-- The result of the formula cell at an address. -/
def resultAt (cxt : ModelContext S T) (a : AbsAddress) : Option FormulaResult :=
  match cxt.cells a with
  | .formula cell => (cxt.statuses cell.status).result
  | _ => none

omit [UnorderedSet S AbsRange] [RTree T S] in
theorem resultAt_of_formula {cxt : ModelContext S T} {a : AbsAddress} {cell : FormulaCell}
    (h : cxt.cells a = .formula cell) : cxt.resultAt a = (cxt.statuses cell.status).result := by
  rw [resultAt, h]

omit [UnorderedSet S AbsRange] [RTree T S] in
theorem resultAt_of_not_formula {cxt : ModelContext S T} {a : AbsAddress}
    (h : ∀ cell, cxt.cells a ≠ .formula cell) : cxt.resultAt a = none := by
  rw [resultAt]
  split
  case h_1 cell hcell => exact absurd hcell (h cell)
  case h_2 => rfl

/-- There are finitely many formula cells, since each has a status of its own. -/
theorem Sound.finite_formulas {cxt : ModelContext S T} (h : cxt.Sound) :
    {a | ∃ cell, cxt.cells a = .formula cell}.Finite := by
  have hone (k : Nat) : {a | ∃ cell, cxt.cells a = .formula cell ∧ cell.status = k}.Finite := by
    refine Set.Subsingleton.finite ?_
    rintro a ⟨ca, hca, ha⟩ b ⟨cb, hcb, hb⟩
    exact h.ownStatus a b ca cb hca hcb (ha.trans hb.symm)
  refine (Set.Finite.biUnion (Set.finite_lt_nat cxt.statusCount) fun k _ ↦ hone k).subset ?_
  rintro a ⟨cell, hcell⟩
  exact Set.mem_biUnion (h.status_lt a cell hcell) ⟨cell, hcell, rfl⟩

/-- Where the check looks into all references, it looks at whatever a formula cell depends on. -/
theorem Sound.looks_of_dependsOn {cxt : ModelContext S T} (h : cxt.Sound)
    (hdirect : cxt.AllDirect) {a b : AbsAddress} (hdep : cxt.DependsOn a b) : cxt.Looks a b := by
  obtain ⟨ca, cb, hca, hcb, href⟩ := h.dependsOn_iff.mp hdep
  have hhead := h.head_iff.mpr hca
  obtain ⟨t, ht, hrefers⟩ := href
  have hmem := mem_of_occurs_of_direct a (hdirect a ca hhead) ht
  have hwalked := mem_walkedCells_of_refersTo (hdirect a ca hhead t hmem) (h.inWorkbook hcb) hrefers
  exact ⟨ca, h.tidy.getFormulaCell.mpr hca, List.mem_flatMap.mpr ⟨t, hmem, hwalked⟩, cb.status,
    h.hasStatus_iff.mpr ⟨cb, hcb, rfl⟩⟩

theorem Sound.circular_looks_iff {cxt : ModelContext S T} (h : cxt.Sound)
    (hdirect : cxt.AllDirect) {a : AbsAddress} :
    Circular cxt.Looks a ↔ Circular cxt.DependsOn a :=
  circular_congr (N := fun _ ↦ True) (fun _ _ _ _ ↦ trivial)
    (fun _ _ _ ↦ ⟨h.dependsOn_of_looks, h.looks_of_dependsOn hdirect⟩) trivial

namespace AlikeOn

variable {cxt cxt' : ModelContext S T} (h : AlikeOn (fun _ ↦ True) cxt cxt') (hs : cxt.Sound)
  (hs' : cxt'.Sound)

include h hs hs'

theorem allDirect (hdirect : cxt.AllDirect) : cxt'.AllDirect := by
  intro pos cell' hhead t ht
  obtain ⟨cell, hcell, htokens⟩ := (h.contents pos trivial).exists_formula' (hs'.head_iff.mp hhead)
  by_cases hstring : ∃ sid, t = .string sid
  · obtain ⟨sid, rfl⟩ := hstring
    trivial
  · exact hdirect pos cell (hs.head_iff.mpr hcell) t
      (mem_of_spell htokens ht fun sid heq ↦ hstring ⟨sid, heq⟩)

/-- Where all formula cells are fresh, the contents of the cells decide the results. -/
theorem resultAt_eq {ev : Evaluator} (hlocal : ev.Local)
    (hreads : ev.ReadsReferences cxt.toWorkbook) (hdirect : cxt.AllDirect)
    (hfresh : ∀ a cell, cxt.cells a = .formula cell → cxt.Fresh ev ⟨cell, a⟩)
    (hfresh' : ∀ a cell, cxt'.cells a = .formula cell → cxt'.Fresh ev ⟨cell, a⟩) (a : AbsAddress) :
    cxt'.resultAt a = cxt.resultAt a := by
  have hcirc (a : AbsAddress) : Circular cxt'.DependsOn a ↔ Circular cxt.DependsOn a :=
    (h.circular_iff hs hs' trivial).symm
  by_cases hc : Circular cxt.DependsOn a
  · -- both have the error for a circular cell
    obtain ⟨b, hdep, _⟩ := circular_iff_exists.mp hc
    obtain ⟨ca, _, hca, _, _⟩ := hs.dependsOn_iff.mp hdep
    obtain ⟨ca', hca', _⟩ := (h.contents a trivial).exists_formula hca
    have hmarked := (hfresh a ca hca).marked ((hs.circular_looks_iff hdirect).mpr hc)
    have hmarked' := (hfresh' a ca' hca').marked
      ((hs'.circular_looks_iff (h.allDirect hs hs' hdirect)).mpr ((hcirc a).mpr hc))
    rw [resultAt_of_formula hca, resultAt_of_formula hca']
    exact hmarked'.2.trans hmarked.2.symm
  · refine eq_of_not_circular hs.finite_formulas (fun a b (hdep : cxt.DependsOn a b) ↦ ?_)
      (f := cxt'.resultAt) (g := cxt.resultAt) (fun a hc ih ↦ ?_) hc
    · obtain ⟨_, cb, _, hcb, _⟩ := hs.dependsOn_iff.mp hdep
      exact ⟨cb, hcb⟩
    · by_cases hformula : ∃ ca, cxt.cells a = .formula ca
      · obtain ⟨ca, hca⟩ := hformula
        obtain ⟨ca', hca', htokens⟩ := (h.contents a trivial).exists_formula hca
        obtain ⟨r, hr, heval⟩ := (hfresh a ca hca).current
        obtain ⟨r', hr', heval'⟩ := (hfresh' a ca' hca').current
        have heval := heval.resolve_right fun hbad ↦ hc hbad.2
        have heval' := heval'.resolve_right fun hbad ↦ hc ((hcirc a).mp hbad.2)
        have hcongr : cxt'.evaluate ev ⟨ca', a⟩ = .ok r := by
          refine evaluate_congr hlocal hreads h.setting hs.tidy.noNames ⟨ca, a⟩ ⟨ca', a⟩ rfl htokens
            (fun b href _ ↦ ⟨h.contents b trivial,
              fun _ _ hcb hcb' ↦ own hs' ⟨ca, a⟩ ⟨ca', a⟩ rfl hca hca' hcb hcb',
              fun cb cb' hcb hcb' ↦ ?_⟩) heval
          have heq := ih b (hs.dependsOn_iff.mpr ⟨ca, cb, hca, hcb, href⟩)
          rwa [resultAt_of_formula hcb, resultAt_of_formula hcb'] at heq
        rw [resultAt_of_formula hca, resultAt_of_formula hca']
        exact (hr'.trans (congrArg some (Except.ok.inj (heval'.symm.trans hcongr)))).trans hr.symm
      · rw [resultAt_of_not_formula fun cell hcell ↦ hformula ⟨cell, hcell⟩,
          resultAt_of_not_formula fun cell hcell ↦ ?_]
        obtain ⟨c, hc, _⟩ := (h.contents a trivial).exists_formula' hcell
        exact hformula ⟨c, hc⟩

end AlikeOn

end ModelContext

namespace Document

open ModelContext Workbook

variable {S T : Type} [UnorderedSet S AbsRange] [RTree T S]

/-! ## Main results -/

/-- When a calculation returns, every formula cell of the document has the result that its formula
comes to with the results of the others, or it is circular and has the error for that; and whatever
the check can follow to a cycle has that error. -/
theorem current_of_calculate {depth : Nat} {evs : Set Evaluator} (hevs : Evaluators evs)
    {l : List (Document S T × Op)} {d d' : Document S T} (hrun : Edits depth evs l d)
    (hl : Ordinary l) {ev : Evaluator} (hev : ev ∈ evs) (hcalc : calculate ev d = .ok () d')
    {a : AbsAddress} {cell : FormulaCell} (hcell : d'.cxt.cells a = .formula cell) :
    d'.cxt.Current ev ⟨cell, a⟩ ∧ (Circular d'.cxt.Looks a →
      (d'.cxt.statuses cell.status).result = some (.error .refResultNotAvailable)) :=
  have hfresh := hrun.fresh_of_calculate hevs hl hev hcalc hcell
  ⟨hfresh.current, fun hc ↦ (hfresh.marked hc).2⟩

/-- Two documents have the same contents. -/
structure SameContents (d d' : Document S T) : Prop where
  setting : d.cxt.SameSetting d'.cxt.toWorkbook
  contents : ∀ a, SameContent d.cxt.toWorkbook d'.cxt.toWorkbook (d.cxt.cells a) (d'.cxt.cells a)

/-- The interpreter, where functions do nothing. -/
def plain : Evaluator := formulaInterpreter .natural fun _ _ _ ↦ pure ⟨⟩

/-- Evaluators that are that interpreter. -/
def plains : Set Evaluator := formulaInterpreter .natural '' {fun _ _ _ ↦ pure ⟨⟩}

theorem plain_mem : plain ∈ plains := ⟨_, rfl, rfl⟩

theorem evaluators_plains : Evaluators plains := by
  refine evaluators_formulaInterpreter .natural ⟨?_, ?_, ?_⟩
  · rintro _ rfl wb pos P func
    exact ValueStack.sound_pure trivial
  · rintro _ rfl wb wb' pos func _
    rfl
  · rintro _ rfl _ rfl wb pos func _
    rfl

/-- The number 7 set in `B1`. -/
def numbered (d : Document Ranges (ListTree Ranges)) : Document Ranges (ListTree Ranges) :=
  finalState (setCell 0 (.address ⟨0, 0, 1⟩) (.numeric 7)) d

/-- The cell `A1` calculated. -/
def calculated (d : Document Ranges (ListTree Ranges)) : Document Ranges (ListTree Ranges) :=
  clearModified
    { d with
      cxt := finalState (calculateSortedCells plain [(⟨0, 0, 0⟩ : AbsAddress).toRange]) d.cxt }

/-- A document where `=B1` has been calculated in `A1` before `B1` is set. -/
def editedDoc : Document Ranges (ListTree Ranges) :=
  numbered (calculated (typed parsedRight oneSheet))

/-- A document where `B1` is set first. -/
def freshDoc : Document Ranges (ListTree Ranges) := typed parsedRight (numbered oneSheet)

theorem calculate_eq {d : Document Ranges (ListTree Ranges)}
    (hsorted : d.sortedCells = [(⟨0, 0, 0⟩ : AbsAddress).toRange])
    (hcalc : calculateSortedCells plain [(⟨0, 0, 0⟩ : AbsAddress).toRange] d.cxt =
      .ok () (calculated d).cxt) : calculate plain d = .ok () (calculated d) := by
  rw [calculate, bind_apply]
  show (onContext (calculateSortedCells plain d.sortedCells) >>= fun _ ↦ _ :
    Exec (Document Ranges (ListTree Ranges)) Unit) d = _
  rw [hsorted, bind_apply, onContext, hcalc]
  rfl

theorem calculate_typed : calculate plain (typed parsedRight oneSheet) =
    .ok () (calculated (typed parsedRight oneSheet)) :=
  calculate_eq (by decide +kernel) rfl

theorem calculate_editedDoc : calculate plain editedDoc = .ok () (calculated editedDoc) :=
  calculate_eq (by decide +kernel) rfl

theorem calculate_freshDoc : calculate plain freshDoc = .ok () (calculated freshDoc) :=
  calculate_eq (by decide +kernel) rfl

theorem edits_oneSheet_plains : Edits 0 plains [(new, .appendSheet "Sheet1")] oneSheet :=
  .returns .new plain_mem rfl

theorem edits_editedDoc : Edits 0 plains [(new, .appendSheet "Sheet1"),
    (oneSheet, .setFormulaCell (.address ⟨0, 0, 0⟩) parsedRight),
    (typed parsedRight oneSheet, .calculate),
    (calculated (typed parsedRight oneSheet), .setCell (.address ⟨0, 0, 1⟩) (.numeric 7))]
    editedDoc :=
  ((edits_oneSheet_plains.returns plain_mem rfl).calculated plain_mem calculate_typed).returns
    plain_mem rfl

theorem edits_freshDoc : Edits 0 plains [(new, .appendSheet "Sheet1"),
    (oneSheet, .setCell (.address ⟨0, 0, 1⟩) (.numeric 7)),
    (numbered oneSheet, .setFormulaCell (.address ⟨0, 0, 0⟩) parsedRight)] freshDoc :=
  (edits_oneSheet_plains.returns plain_mem rfl).returns plain_mem rfl

/-- The only formula is `=B1` in `A1`. -/
def OnlyRight (cells : AbsAddress → Cell) : Prop :=
  ∀ a cell, cells a = .formula cell →
    a = ⟨0, 0, 0⟩ ∧ cell.tokens = [.singleRef ⟨0, 0, 1, false, false, false⟩]

theorem onlyRight_empty : OnlyRight fun _ ↦ .empty :=
  fun _ _ h ↦ absurd h (by rintro ⟨⟩)

theorem onlyRight_formula {cells : AbsAddress → Cell} (h : OnlyRight cells) (status : Nat) :
    OnlyRight (Function.update cells ⟨0, 0, 0⟩
      (.formula ⟨[.singleRef ⟨0, 0, 1, false, false, false⟩], -1, -1, status⟩)) := by
  intro a cell hcell
  by_cases ha : a = ⟨0, 0, 0⟩
  · rw [ha, Function.update_self] at hcell
    cases hcell
    exact ⟨ha, rfl⟩
  · rw [Function.update_of_ne ha] at hcell
    exact h a cell hcell

theorem onlyRight_numeric {cells : AbsAddress → Cell} (h : OnlyRight cells) :
    OnlyRight (Function.update cells ⟨0, 0, 1⟩ (.numeric 7)) := by
  intro a cell hcell
  by_cases ha : a = ⟨0, 0, 1⟩
  · rw [ha, Function.update_self] at hcell
    exact absurd hcell (by rintro ⟨⟩)
  · rw [Function.update_of_ne ha] at hcell
    exact h a cell hcell

theorem OnlyRight.formulaStrings {d : Document Ranges (ListTree Ranges)}
    (h : OnlyRight d.cxt.cells) : d.FormulaStrings := by
  intro a cell hcell sid hsid
  rw [(h a cell hcell).2, List.mem_singleton] at hsid
  exact absurd hsid (by rintro ⟨⟩)

theorem onlyRight_typed : OnlyRight (typed parsedRight oneSheet).cxt.cells :=
  onlyRight_formula onlyRight_empty 0

theorem onlyRight_editedDoc : OnlyRight editedDoc.cxt.cells := onlyRight_numeric onlyRight_typed

theorem ordinary_freshDoc : Ordinary [(new, .appendSheet "Sheet1"),
    (oneSheet, .setCell (.address ⟨0, 0, 1⟩) (.numeric 7)),
    (numbered oneSheet, .setFormulaCell (.address ⟨0, 0, 0⟩) parsedRight)] := by
  constructor
  · simp only [List.forall_mem_cons]
    exact ⟨OnlyRight.formulaStrings onlyRight_empty, OnlyRight.formulaStrings onlyRight_empty,
      OnlyRight.formulaStrings (onlyRight_numeric onlyRight_empty),
      fun _ h ↦ absurd h List.not_mem_nil⟩
  · simp only [List.forall_mem_cons]
    exact ⟨fun _ _ _ _ h ↦ absurd h (by rintro ⟨⟩), fun _ h ↦ absurd h (by rintro ⟨⟩),
      fun _ h ↦ absurd h (by rintro ⟨⟩), fun _ h ↦ absurd h List.not_mem_nil⟩

theorem ordinary_editedDoc : Ordinary [(new, .appendSheet "Sheet1"),
    (oneSheet, .setFormulaCell (.address ⟨0, 0, 0⟩) parsedRight),
    (typed parsedRight oneSheet, .calculate),
    (calculated (typed parsedRight oneSheet), .setCell (.address ⟨0, 0, 1⟩) (.numeric 7))] := by
  constructor
  · simp only [List.forall_mem_cons]
    exact ⟨OnlyRight.formulaStrings onlyRight_empty, OnlyRight.formulaStrings onlyRight_empty,
      onlyRight_typed.formulaStrings, OnlyRight.formulaStrings onlyRight_typed,
      fun _ h ↦ absurd h List.not_mem_nil⟩
  · simp only [List.forall_mem_cons]
    exact ⟨fun _ _ _ _ h ↦ absurd h (by rintro ⟨⟩), fun _ h ↦ absurd h (by rintro ⟨⟩),
      fun _ h ↦ absurd h (by rintro ⟨⟩), fun _ h ↦ absurd h (by rintro ⟨⟩),
      fun _ h ↦ absurd h List.not_mem_nil⟩

theorem current_of_calculate_editedDoc :
    (calculated editedDoc).cxt.Current plain
        ⟨⟨[.singleRef ⟨0, 0, 1, false, false, false⟩], -1, -1, 0⟩, ⟨0, 0, 0⟩⟩ ∧
      (Circular (calculated editedDoc).cxt.Looks ⟨0, 0, 0⟩ →
        ((calculated editedDoc).cxt.statuses 0).result = some (.error .refResultNotAvailable)) :=
  current_of_calculate evaluators_plains edits_editedDoc ordinary_editedDoc plain_mem
    calculate_editedDoc rfl

theorem sameContents_calculated : SameContents (calculated editedDoc) (calculated freshDoc) where
  setting := ⟨rfl, rfl, rfl, rfl⟩
  contents a := by
    have hcells : (calculated freshDoc).cxt.cells = (calculated editedDoc).cxt.cells :=
      Function.update_comm (by decide) ..
    rw [hcells]
    exact .of_eq (fun _ _ ↦ rfl) fun c hc ↦ by
      rw [(onlyRight_editedDoc a c hc).2]
      rfl

theorem allDirect_calculated : (calculated editedDoc).cxt.AllDirect := by
  intro pos cell hhead t ht
  have hcell := (getFormulaCell_eq_some_iff.mp hhead.formula).2
  rw [(onlyRight_editedDoc pos cell hcell).2, List.mem_singleton] at ht
  rw [ht]
  trivial

end Document

end Ixion
