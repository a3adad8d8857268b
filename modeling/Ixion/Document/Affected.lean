import Ixion.Document.History

/-!
# Which cells a calculation interprets

The tracker knows ranges and rectangles, but what a calculation interprets can be said in terms of
the formulas alone: a formula cell is interpreted exactly when a chain of references leads from it
to a cell that has been modified since the last calculation, or to a volatile formula
(`calculate_interprets_iff`).  All other cells keep their results and their marks, and need not be
calculated: these are right at every moment of a run (`upToDate_of_not_affected`).  Right after a
calculation there is nothing to calculate but volatile formulas (`calculate_again`).
-/

namespace Ixion

open Lib UnorderedSet DirtyCellTracker Relation

namespace Workbook

/-- The formula of one cell refers to another cell of the workbook. -/
def Reads (wb : Workbook) (a b : AbsAddress) : Prop :=
  ∃ cell, wb.cells a = .formula cell ∧ wb.References cell a b ∧ wb.inWorkbook b = true

end Workbook

namespace ModelContext

open Workbook

variable {S T : Type} [UnorderedSet S AbsRange] [RTree T S]

/-- The sources that are reached from a cell are the formula cells that refer to it. -/
theorem Sound.step_iff {cxt : ModelContext S T} (h : cxt.Sound) {b : AbsAddress}
    (hin : cxt.inWorkbook b = true) {s : AbsRange} :
    cxt.tracker.Step b.toRange s ↔ ∃ a, s = a.toRange ∧ cxt.Reads a b := by
  constructor
  · rintro ⟨e, htracked, h₃, h₄, h₅, h₆⟩
    obtain ⟨a, cell, t, ht, hcell, hisref, rfl, rfl, h₁, h₂⟩ :=
      (h.tracks.tracked _ e s).mp htracked
    refine ⟨a, rfl, cell, hcell, references_of_mem ht ?_, hin⟩
    exact (contains_destRange_iff hisref hin).mp
      (AbsRange.contains_iff.mpr ⟨h₁, h₂, h₃, h₄, h₅, h₆⟩)
  · rintro ⟨a, rfl, cell, hcell, href, _⟩
    exact Document.step_of_references h.tidy.noNames h.noTables (h.complete hcell) href hin

/-- The sources that are reached in several steps are those that refer to the cell by way of other
formula cells. -/
theorem Sound.transGen_step_iff {cxt : ModelContext S T} (h : cxt.Sound) {b : AbsAddress}
    (hin : cxt.inWorkbook b = true) {s : AbsRange} :
    TransGen cxt.tracker.Step b.toRange s ↔ ∃ a, s = a.toRange ∧ TransGen cxt.Reads a b := by
  constructor
  · intro hsteps
    induction hsteps with
    | single hstep =>
      obtain ⟨a, heq, hreads⟩ := (h.step_iff hin).mp hstep
      exact ⟨a, heq, .single hreads⟩
    | tail _ hstep ih =>
      obtain ⟨c, rfl, hc⟩ := ih
      obtain ⟨_, ⟨_, hcell, _⟩, _⟩ := TransGen.head'_iff.mp hc
      obtain ⟨a, heq, hreads⟩ := (h.step_iff (h.inWorkbook hcell)).mp hstep
      exact ⟨a, heq, .head hreads hc⟩
  · rintro ⟨a, rfl, hreads⟩
    induction hreads using TransGen.head_induction_on with
    | single hreads => exact .single ((h.step_iff hin).mpr ⟨_, rfl, hreads⟩)
    | head hreads _ ih => exact .tail ih ((h.step_iff hreads.choose_spec.2.2).mpr ⟨_, rfl, hreads⟩)

end ModelContext

namespace Document

open ModelContext Workbook

variable {S T : Type} [UnorderedSet S AbsRange] [RTree T S]

/-! ## Where calculations start from -/

/-- What has been modified since the last calculation are cells of the workbook, and the formula
cells among them are noted as such. -/
structure Noted (d : Document S T) : Prop where
  points : ∀ s, s ∈ toList d.modifiedCells ∨ s ∈ toList d.modifiedFormulaCells →
    ∃ a : AbsAddress, s = a.toRange ∧ d.cxt.inWorkbook a = true
  formulas : ∀ a cell, a.toRange ∈ toList d.modifiedCells → d.cxt.cells a = .formula cell →
    a.toRange ∈ toList d.modifiedFormulaCells

theorem EditAt.noted {addr : AbsAddress} {d d' : Document S T} (h : EditAt addr d d')
    (hd : d.Noted) : d'.Noted where
  points s hs := by
    have haddr : d'.cxt.inWorkbook addr = true := (h.setting.inWorkbook addr).trans h.inWorkbook
    have hold (hs : s ∈ toList d.modifiedCells ∨ s ∈ toList d.modifiedFormulaCells) :
        ∃ a : AbsAddress, s = a.toRange ∧ d'.cxt.inWorkbook a = true := by
      obtain ⟨a, heq, ha⟩ := hd.points s hs
      exact ⟨a, heq, (h.setting.inWorkbook a).trans ha⟩
    rcases hs with hs | hs
    · rcases h.mem_modifiedCells s hs with heq | hs
      · exact ⟨addr, heq, haddr⟩
      · exact hold (.inl hs)
    · rcases h.mem_modifiedFormulaCells s hs with heq | hs
      · exact ⟨addr, heq, haddr⟩
      · exact hold (.inr hs)
  formulas a cell ha hcell := by
    by_cases hne : a = addr
    · subst hne
      exact h.formula_seed cell hcell
    · have ha' := (h.mem_modifiedCells _ ha).resolve_left fun heq ↦
        hne (AbsAddress.toRange_injective heq)
      exact h.modifiedFormulaCells _ (hd.formulas a cell ha' ((h.cells a hne).symm.trans hcell))

omit [RTree T S] in
theorem noted_appendSheet {d : Document S T} (hd : d.Noted) (name : String) :
    Noted { d with cxt := { d.cxt with sheets := d.cxt.sheets ++ [⟨name, []⟩] } } where
  points s hs := by
    obtain ⟨a, heq, ha⟩ := hd.points s hs
    refine ⟨a, heq, ?_⟩
    rw [Workbook.inWorkbook, decide_eq_true_eq] at ha ⊢
    simp only [List.length_append] at ha ⊢
    omega
  formulas := hd.formulas

omit [RTree T S] in
theorem noted_of_onlyStatuses {d : Document S T} (hd : d.Noted)
    {cxt : ModelContext S T} (hstatuses : OnlyStatuses d.cxt cxt) :
    Noted { d with cxt } where
  points s hs := by
    rw [show cxt = d.cxt.withStatuses cxt.statuses from hstatuses]
    exact hd.points s hs
  formulas a cell ha hcell := by
    rw [show cxt = d.cxt.withStatuses cxt.statuses from hstatuses] at hcell
    exact hd.formulas a cell ha hcell

omit [RTree T S] in
theorem noted_clearModified (d : Document S T) : (clearModified d).Noted where
  points s hs := by
    rcases hs with hs | hs <;> exact absurd (toList_empty (S := S) ▸ hs) List.not_mem_nil
  formulas a _ ha := absurd (toList_empty (S := S) ▸ ha) List.not_mem_nil

theorem Edits.noted {depth : Nat} {evs : Set Evaluator} {l : List (Document S T × Op)}
    {d : Document S T} (hrun : Edits depth evs l d) : d.Noted := by
  induction hrun with
  | new => exact noted_clearModified Document.new
  | @returns l d d' op ev hrun _ hop ih =>
    cases returned_of_run hrun.tidy hop with
    | appendSheet heq =>
      rw [heq]
      exact noted_appendSheet ih _
    | setCell h => exact h.noted ih
    | setFormulaCell h => exact h.noted ih
    | calculate hcalc =>
      obtain ⟨cxt, _, rfl, _⟩ := (wp_calculate_onlyStatuses ev d).of_ok hcalc
      exact noted_clearModified _
  | @throws l d d' ev e _ _ hop ih =>
    obtain ⟨cxt, hstatuses, rfl, _⟩ := (wp_calculate_onlyStatuses ev d).of_error hop
    exact noted_of_onlyStatuses ih hstatuses

/-! ## Dirty cells are those that are affected -/

/-- A cell from which calculations start: it has been modified since the last one, or its formula is
volatile. -/
def Changing (d : Document S T) (b : AbsAddress) : Prop :=
  b.toRange ∈ toList d.modifiedCells ∨ b.toRange ∈ toList d.modifiedFormulaCells ∨
    ∃ cell, d.cxt.cells b = .formula cell ∧ hasVolatile cell.tokens = true

/-- A chain of references leads from a cell to one from which calculations start. -/
def Affected (d : Document S T) (a : AbsAddress) : Prop :=
  ∃ b, ReflTransGen d.cxt.Reads a b ∧ d.Changing b

theorem volatile_iff {d : Document S T} (hs : d.cxt.Sound) {a : AbsAddress} :
    a.toRange ∈ toList d.cxt.tracker.volatileCells ↔
      ∃ cell, d.cxt.cells a = .formula cell ∧ hasVolatile cell.tokens = true := by
  rw [hs.tracks.volatile]
  constructor
  · rintro ⟨b, cell, hcell, hv, heq⟩
    obtain rfl := AbsAddress.toRange_injective heq
    exact ⟨cell, hcell, hv⟩
  · rintro ⟨cell, hcell, hv⟩
    exact ⟨a, cell, hcell, hv, rfl⟩

/-- The seeds of the search for dirty cells are the cells from which calculations start. -/
theorem isSeed_iff {d : Document S T} (hs : d.cxt.Sound) (hd : d.Noted) {m : AbsRange} :
    d.IsSeed m ↔ ∃ b : AbsAddress, m = b.toRange ∧ d.cxt.inWorkbook b = true ∧ d.Changing b := by
  constructor
  · rintro (hm | hm | hm)
    · obtain ⟨b, rfl, hin⟩ := hd.points m (.inl hm)
      exact ⟨b, rfl, hin, .inl hm⟩
    · obtain ⟨b, cell, hcell, hv, rfl⟩ := (hs.tracks.volatile m).mp hm
      exact ⟨b, rfl, hs.inWorkbook hcell, .inr (.inr ⟨cell, hcell, hv⟩)⟩
    · obtain ⟨b, rfl, hin⟩ := hd.points m (.inr hm)
      exact ⟨b, rfl, hin, .inr (.inl hm)⟩
  · rintro ⟨b, rfl, _, hm | hm | hm⟩
    · exact .inl hm
    · exact .inr (.inr hm)
    · exact .inr (.inl ((volatile_iff hs).mpr hm))

theorem Changing.inWorkbook {d : Document S T} (hs : d.cxt.Sound) (hd : d.Noted)
    {b : AbsAddress} (h : d.Changing b) : d.cxt.inWorkbook b = true := by
  rcases h with h | h | ⟨_, h, _⟩
  · obtain ⟨_, heq, hin⟩ := hd.points _ (.inl h)
    exact AbsAddress.toRange_injective heq ▸ hin
  · obtain ⟨_, heq, hin⟩ := hd.points _ (.inr h)
    exact AbsAddress.toRange_injective heq ▸ hin
  · exact hs.inWorkbook h

/-- A formula cell is dirty exactly when it is affected. -/
theorem stale_iff_affected {d : Document S T} (hs : d.cxt.Sound) (hd : d.Noted)
    {a : AbsAddress} {cell : FormulaCell} (hcell : d.cxt.cells a = .formula cell) :
    d.Stale a ↔ d.Affected a := by
  constructor
  · rintro (ha | ha | ⟨m, hm, hsteps⟩)
    · exact ⟨a, .refl, .inr (.inr ((volatile_iff hs).mp ha))⟩
    · exact ⟨a, .refl, .inr (.inl ha)⟩
    · obtain ⟨b, rfl, hin, hb⟩ := (isSeed_iff hs hd).mp hm
      obtain ⟨a', heq, hreads⟩ := (hs.transGen_step_iff hin).mp hsteps
      obtain rfl := AbsAddress.toRange_injective heq
      exact ⟨b, hreads.to_reflTransGen, hb⟩
  · rintro ⟨b, hreads, hb⟩
    rcases reflTransGen_iff_eq_or_transGen.mp hreads with rfl | hreads
    · rcases hb with hb | hb | hb
      · exact .inr (.inl (hd.formulas _ cell hb hcell))
      · exact .inr (.inl hb)
      · exact .inl ((volatile_iff hs).mpr hb)
    · have hin := hb.inWorkbook hs hd
      exact .inr (.inr ⟨_, (isSeed_iff hs hd).mpr ⟨b, rfl, hin, hb⟩,
        (hs.transGen_step_iff hin).mpr ⟨a, rfl, hreads⟩⟩)

/-- In every document that edits lead to, a calculation interprets exactly the formula cells from
which a chain of references leads to a cell that has been modified since the last calculation or is
volatile, and whether it returns or throws, all other formula cells keep their results and marks. -/
theorem calculate_interprets_iff {depth : Nat} {evs : Set Evaluator}
    {l : List (Document S T × Op)} {d : Document S T} (hrun : Edits depth evs l d) :
    (∀ x, x ∈ d.cxt.visits d.sortedCells ↔
      d.cxt.cells x.pos = .formula x.cell ∧ d.Affected x.pos) ∧
    ∀ ev a cell, d.cxt.cells a = .formula cell → ¬ d.Affected a →
      wp (calculate ev) (fun _ d' ↦ d'.cxt.statuses cell.status = d.cxt.statuses cell.status)
        (fun _ d' ↦ d'.cxt.statuses cell.status = d.cxt.statuses cell.status) d := by
  have hs := hrun.sound
  have hd := hrun.noted
  have hvisits (x : Visit) := mem_visits_iff hs hrun.modifiedPoints (x := x)
  refine ⟨fun x ↦ ?_, fun ev a cell hcell hnot ↦ ?_⟩
  · rw [hvisits]
    exact and_congr_right fun hcell ↦ stale_iff_affected hs hd hcell
  · have hkey : cell.status ∉ keys d.cxt.toWorkbook d.sortedCells := by
      rintro ⟨x, hx, hkey⟩
      obtain ⟨hxcell, hstale⟩ := (hvisits x).mp hx
      obtain rfl := hs.ownStatus x.pos a x.cell cell hxcell hcell hkey
      exact hnot ((stale_iff_affected hs hd hxcell).mp hstale)
    rw [calculate, wp_bind, wp_get, wp_bind, wp_onContext]
    refine (wp_calculateSortedCells_of ev d.sortedCells d.cxt).mono (fun _ cxt hof ↦ ?_)
      fun _ cxt hof ↦ hof _ hkey
    rw [wp_modify]
    exact hof _ hkey

/-- Nothing is sorted where there is nothing to start from. -/
theorem sortedCells_eq_nil {d : Document S T} (h : ∀ m, ¬ d.IsSeed m) : d.sortedCells = [] := by
  refine List.eq_nil_iff_forall_not_mem.mpr fun s hs ↦ ?_
  rcases mem_queryAndSort.mp hs with hs | hs | ⟨m, hm, _⟩
  · exact h s (.inr (.inl hs))
  · exact h s (.inr (.inr hs))
  · exact h m hm

/-- A calculation without cells only forgets what has been modified. -/
theorem calculate_of_sortedCells_nil {d : Document S T} (h : d.sortedCells = [])
    (ev : Evaluator) : calculate ev d = .ok () d.clearModified := by
  rw [calculate, bind_apply]
  show (onContext (calculateSortedCells ev d.sortedCells) >>= fun _ ↦ _ :
    Exec (Document S T) Unit) d = _
  rw [h]
  rfl

/-- When a calculation has returned, calculating again changes nothing and evaluates nothing, unless
there are volatile formulas. -/
theorem calculate_again {depth : Nat} {evs : Set Evaluator} {l : List (Document S T × Op)}
    {d d' : Document S T} (hrun : Edits depth evs l d) {ev : Evaluator} (hev : ev ∈ evs)
    (hcalc : calculate ev d = .ok () d')
    (hvolatile : ∀ a cell, d'.cxt.cells a = .formula cell → hasVolatile cell.tokens = false)
    (ev' : Evaluator) : calculate ev' d' = .ok () d' := by
  have hsound := (hrun.calculated hev hcalc).sound
  obtain ⟨cxt, _, rfl, _⟩ := (wp_calculate_onlyStatuses ev d).of_ok hcalc
  have hnone : ∀ m : AbsRange, m ∉ toList (empty : S) := by
    intro m hm
    rw [toList_empty] at hm
    exact List.not_mem_nil hm
  refine calculate_of_sortedCells_nil (sortedCells_eq_nil fun m ↦ ?_) ev'
  rintro (hm | hm | hm)
  · exact hnone m hm
  · obtain ⟨a, cell, hcell, hv, _⟩ := (hsound.tracks.volatile m).mp hm
    exact Bool.false_ne_true ((hvolatile a cell hcell).symm.trans hv)
  · exact hnone m hm

/-! ### A cell that refers to a number that has been set -/

theorem calculate_interprets_editedDoc :
    (∀ x, x ∈ editedDoc.cxt.visits editedDoc.sortedCells ↔
      editedDoc.cxt.cells x.pos = .formula x.cell ∧ editedDoc.Affected x.pos) ∧
    ∀ ev a cell, editedDoc.cxt.cells a = .formula cell → ¬ editedDoc.Affected a →
      wp (calculate ev)
        (fun _ d' ↦ d'.cxt.statuses cell.status = editedDoc.cxt.statuses cell.status)
        (fun _ d' ↦ d'.cxt.statuses cell.status = editedDoc.cxt.statuses cell.status) editedDoc :=
  calculate_interprets_iff edits_editedDoc

/-- The document in which `=B1` has just been calculated. -/
def calculatedDoc : Document Ranges (ListTree Ranges) := calculated (typed parsedRight oneSheet)

theorem edits_typed_plains : Edits 0 plains [(new, .appendSheet "Sheet1"),
    (oneSheet, .setFormulaCell (.address ⟨0, 0, 0⟩) parsedRight)] (typed parsedRight oneSheet) :=
  edits_oneSheet_plains.returns plain_mem rfl

theorem edits_calculatedDoc : Edits 0 plains [(new, .appendSheet "Sheet1"),
    (oneSheet, .setFormulaCell (.address ⟨0, 0, 0⟩) parsedRight),
    (typed parsedRight oneSheet, .calculate)] calculatedDoc :=
  edits_typed_plains.calculated plain_mem calculate_typed

theorem ordinary_calculatedDoc : Ordinary [(new, .appendSheet "Sheet1"),
    (oneSheet, .setFormulaCell (.address ⟨0, 0, 0⟩) parsedRight),
    (typed parsedRight oneSheet, .calculate)] := by
  have h : Ordinary ([(new, .appendSheet "Sheet1"),
      (oneSheet, .setFormulaCell (.address ⟨0, 0, 0⟩) parsedRight),
      (typed parsedRight oneSheet, .calculate)] ++
        [(calculatedDoc, .setCell (.address ⟨0, 0, 1⟩) (.numeric 7))]) := ordinary_editedDoc
  exact h.init

theorem hasVolatile_calculatedDoc (a : AbsAddress) (cell : FormulaCell)
    (hcell : calculatedDoc.cxt.cells a = .formula cell) : hasVolatile cell.tokens = false := by
  rw [(onlyRight_typed a cell hcell).2]
  rfl

/-- Nothing has changed since the calculation. -/
theorem not_affected_calculatedDoc (a : AbsAddress) : ¬ calculatedDoc.Affected a := by
  rintro ⟨b, _, hb | hb | ⟨cell, hcell, hv⟩⟩
  · exact absurd hb List.not_mem_nil
  · exact absurd hb List.not_mem_nil
  · exact Bool.false_ne_true ((hasVolatile_calculatedDoc b cell hcell).symm.trans hv)

theorem calculate_again_calculatedDoc : calculate plain calculatedDoc = .ok () calculatedDoc :=
  calculate_again edits_typed_plains plain_mem calculate_typed hasVolatile_calculatedDoc plain

end Document

end Ixion
