import Ixion.Document.Effects

/-!
# What is queued for calculation

A calculation dereferences the formula cell at the beginning of every range that is
queued.  Overwriting a formula cell unregisters it, but a formula cell that has not
been calculated since it was set is remembered by the document as well, and that is
not forgotten.  In a run in which no such cell is overwritten with a raw value, only
formula cells are queued, whatever the operations are and wherever they throw:
`allFormulas_iff`.
-/

namespace Ixion

open Lib UnorderedSet DirtyCellTracker Relation

namespace Workbook

/-! ## References without named expressions -/

/-- Nothing is named. -/
structure NoNames (wb : Workbook) : Prop where
  global : wb.namedExpressions = []
  sheets : ∀ ws ∈ wb.sheets, ws.namedExpressions = []

theorem NoNames.getNamedExpression {wb : Workbook} (h : wb.NoNames) (sheet : Int)
    (name : String) : wb.getNamedExpression sheet name = none := by
  rw [Workbook.getNamedExpression, h.global]
  split
  case h_1 ws hws =>
    have hmem : ws ∈ wb.sheets := by
      split at hws
      · exact List.mem_of_getElem? hws
      · exact absurd hws nofun
    rw [h.sheets ws hmem]
    rfl
  case h_2 => rfl

/-- Without names the references of a formula are those among its tokens. -/
theorem NoNames.getRefTokens {wb : Workbook} (h : wb.NoNames) (depth : Nat) (cell : FormulaCell)
    (pos : AbsAddress) : ∃ refs, wb.getRefTokens depth cell pos = .ok refs ∧
      ∀ t, t ∈ refs ↔ t ∈ cell.tokens ∧ IsRef t := by
  have hrefs : ∀ t, ∃ refs, wb.getRefs pos.sheet depth t = .ok refs ∧
      ∀ u, u ∈ refs ↔ u = t ∧ IsRef u := by
    intro t
    unfold getRefs
    split
    · exact ⟨_, rfl, fun u ↦ by simp +contextual [IsRef]⟩
    · exact ⟨_, rfl, fun u ↦ by simp +contextual [IsRef]⟩
    · rw [h.getNamedExpression]
      refine ⟨_, rfl, fun u ↦ ⟨fun hu ↦ absurd hu List.not_mem_nil, ?_⟩⟩
      rintro ⟨rfl, hu⟩
      exact hu.elim
    case h_4 h₁ h₂ h₃ =>
      refine ⟨_, rfl, fun u ↦ ⟨fun hu ↦ absurd hu List.not_mem_nil, ?_⟩⟩
      rintro ⟨rfl, hu⟩
      cases u with
      | singleRef a => exact absurd rfl (h₁ a)
      | rangeRef r => exact absurd rfl (h₂ r)
      | _ => exact hu.elim
  rw [Workbook.getRefTokens]
  induction cell.tokens with
  | nil => exact ⟨[], rfl, fun t ↦ by simp⟩
  | cons t l ih =>
    obtain ⟨bs, hbs, hb⟩ := hrefs t
    obtain ⟨cs, hcs, hc⟩ := ih
    refine ⟨bs ++ cs, collectM_cons_eq_ok_iff.mpr ⟨bs, cs, hbs, hcs, rfl⟩, fun u ↦ ?_⟩
    rw [List.mem_append, hb, hc, List.mem_cons]
    tauto

end Workbook

namespace ModelContext

open Workbook

variable {S T : Type} [UnorderedSet S AbsRange] [RTree T S]

/-! ## The context of a document -/

/-- A range that consists of a formula cell. -/
def IsFormulaRange (cxt : ModelContext S T) (r : AbsRange) : Prop :=
  ∃ pos cell, cxt.cells pos = .formula cell ∧ r = pos.toRange

/-- The contexts that documents have: there are no names and no groups, and everything
that is tracked is tracked for a reference of a formula cell. -/
structure Tidy (cxt : ModelContext S T) : Prop where
  wf : cxt.tracker.WF
  noNames : cxt.NoNames
  outside : ∀ a, cxt.inWorkbook a = false → cxt.cells a = .empty
  ungrouped : ∀ a cell, cxt.cells a = .formula cell → cell.isGrouped = false
  sources : ∀ sheet e s, cxt.tracker.Tracked sheet e s →
    ∃ pos cell, ∃ t ∈ cell.tokens, cxt.cells pos = .formula cell ∧ IsRef t ∧
      Pairs pos.toRange (cxt.destRange pos t) sheet e s
  volatiles : ∀ s ∈ toList cxt.tracker.volatileCells, cxt.IsFormulaRange s

theorem Tidy.getFormulaCell {cxt : ModelContext S T} (h : cxt.Tidy) {a : AbsAddress}
    {cell : FormulaCell} :
    cxt.getFormulaCell a = .ok (some cell) ↔ cxt.cells a = .formula cell := by
  refine getFormulaCell_eq_some_iff.trans ⟨And.right, fun hcell ↦ ⟨?_, hcell⟩⟩
  by_contra hin
  rw [Bool.not_eq_true] at hin
  exact absurd (hcell.symm.trans (h.outside a hin)) nofun

theorem Tidy.srcRange {cxt : ModelContext S T} (h : cxt.Tidy) {a : AbsAddress} {cell : FormulaCell}
    (hcell : cxt.cells a = .formula cell) : cxt.srcRange cell a = a.toRange :=
  srcRange_eq_toRange_iff.mpr (.inl (h.ungrouped a cell hcell))

/-- Where less is tracked, what is tracked is still tracked for formula cells. -/
theorem Tidy.forgets {cxt cxt' : ModelContext S T} (h : cxt.Tidy) (h' : Forgets cxt cxt') :
    cxt'.Tidy := by
  rw [h'.eq]
  exact ⟨h'.wf, h.noNames, h.outside, h.ungrouped,
    fun sheet e s hs ↦ h.sources sheet e s (h'.tracked sheet e s hs),
    fun s hs ↦ h.volatiles s (h'.volatile s hs)⟩

/-- After a cell has been unregistered nothing is tracked for it. -/
theorem Tidy.notRegistered {cxt cxt' : ModelContext S T} (h : cxt.Tidy) {depth : Nat}
    {pos : AbsAddress} (hrun : unregisterFormulaCell depth pos cxt = .ok () cxt') :
    NotRegistered cxt' pos.toRange pos := by
  have hforgets := (wp_unregisterFormulaCell h.wf depth pos).of_ok hrun
  cases hcell : cxt.cells pos with
  | formula cell =>
    obtain ⟨refs, hrefs, hall, rfl⟩ :=
      (unregisterFormulaCell_eq_ok_iff (h.getFormulaCell.mpr hcell)).mp hrun
    refine ⟨fun sheet e hs ↦ ?_, fun hs ↦ ?_⟩
    · obtain ⟨hn, hold⟩ := (tracked_unregisteredTracker h.wf hall).mp hs
      obtain ⟨pos', cell', t, ht, hcell', href, hp⟩ := h.sources sheet e _ hold
      obtain rfl := AbsAddress.toRange_injective hp.1
      cases hcell.symm.trans hcell'
      obtain ⟨_, hrefs', hmem⟩ := h.noNames.getRefTokens depth cell pos
      cases hrefs.symm.trans hrefs'
      have htr := (hmem t).mpr ⟨ht, href⟩
      rw [destRange_eq_absRef (hall t htr)] at hp
      exact hn ⟨t, htr, hp⟩
    · change pos.toRange ∈ toList (cxt.unregisteredTracker pos refs).volatileCells at hs
      rw [volatileCells_unregisteredTracker, mem_toList_erase] at hs
      exact hs.1 rfl
  | _ =>
    refine ⟨fun sheet e hs ↦ ?_, fun hs ↦ ?_⟩
    · obtain ⟨_, _, _, _, hcell', _, hp⟩ := h.sources sheet e _ (hforgets.tracked sheet e _ hs)
      obtain rfl := AbsAddress.toRange_injective hp.1
      exact absurd (hcell.symm.trans hcell') nofun
    · obtain ⟨_, _, hcell', hp⟩ := h.volatiles _ (hforgets.volatile _ hs)
      obtain rfl := AbsAddress.toRange_injective hp
      exact absurd (hcell.symm.trans hcell') nofun

/-- The content of a cell for which nothing is tracked may be changed. -/
theorem Tidy.update {cxt : ModelContext S T} (h : cxt.Tidy) {addr : AbsAddress}
    (hin : cxt.inWorkbook addr = true) (hreg : NotRegistered cxt addr.toRange addr) (cell : Cell)
    (hcell : ∀ c, cell = .formula c → c.isGrouped = false) (pool : StringPool)
    (statuses : Nat → CalcStatus) (statusCount : Nat) :
    Tidy { cxt with
      strPool := pool, statuses, statusCount
      cells := Function.update cxt.cells addr cell } := by
  have hother : ∀ pos c, pos ≠ addr → cxt.cells pos = .formula c →
      Function.update cxt.cells addr cell pos = .formula c := by
    intro pos c hne hc
    rwa [Function.update_of_ne hne]
  refine ⟨h.wf, ⟨h.noNames.global, h.noNames.sheets⟩, fun a ha ↦ ?_, fun a c hc ↦ ?_,
    fun sheet e s hs ↦ ?_, fun s hs ↦ ?_⟩
  · refine (Function.update_of_ne ?_ _ _).trans (h.outside a ha)
    rintro rfl
    exact absurd (hin.symm.trans ha) nofun
  · by_cases hne : a = addr
    · subst hne
      exact hcell c ((Function.update_self ..).symm.trans hc)
    · exact h.ungrouped a c ((Function.update_of_ne hne ..).symm.trans hc)
  · obtain ⟨pos, c, t, ht, hc, href, hp⟩ := h.sources sheet e s hs
    refine ⟨pos, c, t, ht, hother pos c ?_ hc, href, hp⟩
    rintro rfl
    exact hreg.tracked sheet e (hp.1 ▸ hs)
  · obtain ⟨pos, c, hc, rfl⟩ := h.volatiles s hs
    refine ⟨pos, c, hother pos c ?_ hc, rfl⟩
    rintro rfl
    exact hreg.notVolatile hs

/-- Strings may be added to the pool. -/
theorem Tidy.poolGrows {cxt cxt' : ModelContext S T} (h : cxt.Tidy) (hp : PoolGrows cxt cxt') :
    cxt'.Tidy := by
  rw [hp.eq]
  exact ⟨h.wf, ⟨h.noNames.global, h.noNames.sheets⟩, h.outside, h.ungrouped, h.sources, h.volatiles⟩

theorem Tidy.inWorkbook_of_parsed {cxt cxt₁ cxt₂ : ModelContext S T} (h : cxt.Tidy) {depth : Nat}
    {addr : AbsAddress} (hrun : unregisterFormulaCell depth addr cxt = .ok () cxt₁)
    (hp : PoolGrows cxt₁ cxt₂) : cxt₂.inWorkbook addr = true := by
  have hforgets := (wp_unregisterFormulaCell h.wf depth addr).of_ok hrun
  have hin : cxt.inWorkbook addr = true := inWorkbook_of_unregister hrun
  rw [hp.eq, hforgets.eq]
  exact hin

/-- A new formula cell may be stored where a cell has been unregistered, after the formula has been
parsed. -/
theorem Tidy.store {cxt cxt₁ cxt₂ : ModelContext S T} (h : cxt.Tidy) {depth : Nat}
    {addr : AbsAddress} (hrun : unregisterFormulaCell depth addr cxt = .ok () cxt₁)
    (hp : PoolGrows cxt₁ cxt₂) {cell : FormulaCell} (hungrouped : cell.isGrouped = false)
    (status : CalcStatus) :
    Tidy { cxt₂ with
      statuses := Function.update cxt₂.statuses cxt₂.statusCount status
      statusCount := cxt₂.statusCount + 1
      cells := Function.update cxt₂.cells addr (.formula cell) } := by
  have hforgets := (wp_unregisterFormulaCell h.wf depth addr).of_ok hrun
  have hreg := h.notRegistered hrun
  have hreg₂ : NotRegistered cxt₂ addr.toRange addr := by
    rw [hp.eq]
    exact ⟨hreg.tracked, hreg.notVolatile⟩
  exact ((h.forgets hforgets).poolGrows hp).update (h.inWorkbook_of_parsed hrun hp) hreg₂ (.formula cell)
    (fun c hc ↦ Cell.formula.inj hc ▸ hungrouped) cxt₂.strPool _ _

/-- A formula cell may be registered. -/
theorem Tidy.extends {cxt cxt' : ModelContext S T} (h : cxt.Tidy) {pos : AbsAddress}
    {cell : FormulaCell} (hcell : cxt.cells pos = .formula cell) {refs : List FormulaToken}
    (hrefs : ∀ t ∈ refs, t ∈ cell.tokens ∧ IsRef t)
    (h' : Extends pos.toRange pos refs cxt cxt') : cxt'.Tidy := by
  rw [h'.eq]
  refine ⟨h'.wf, h.noNames, h.outside, h.ungrouped, fun sheet e s hs ↦ ?_, fun s hs ↦ ?_⟩
  · rcases h'.tracked sheet e s hs with ⟨t, ht, hp⟩ | hs
    · exact ⟨pos, cell, t, (hrefs t ht).1, hcell, (hrefs t ht).2, hp⟩
    · exact h.sources sheet e s hs
  · rcases h'.volatile s hs with rfl | hs
    · exact ⟨pos, cell, hcell, rfl⟩
    · exact h.volatiles s hs

/-- A sheet may be appended. -/
theorem Tidy.appendSheet {cxt : ModelContext S T} (h : cxt.Tidy) (name : String) :
    Tidy { cxt with sheets := cxt.sheets ++ [⟨name, []⟩] } := by
  refine ⟨h.wf, ⟨h.noNames.global, fun ws hws ↦ ?_⟩, fun a ha ↦ h.outside a ?_, h.ungrouped,
    h.sources, h.volatiles⟩
  · rcases List.mem_append.mp hws with hws | hws
    · exact h.noNames.sheets ws hws
    · rw [List.mem_singleton.mp hws]
  · by_contra hin
    rw [Bool.not_eq_false, inWorkbook, decide_eq_true_eq] at hin
    rw [inWorkbook, decide_eq_false_iff_not, List.length_append] at ha
    exact ha ⟨hin.1, by simp only [List.length_singleton, Nat.cast_add]; omega, hin.2.2⟩

end ModelContext

namespace Document

open ModelContext

variable {S T : Type} [UnorderedSet S AbsRange] [RTree T S]

/-! ## Runs -/

/-- One operation: it returns or throws.  A calculation may also run on several threads;
then it leaves some statuses, and returns or throws. -/
inductive Step (depth : Nat) (ev : Evaluator) (d : Document S T) : Op → Document S T → Prop where
  | returns {op : Op} {d' : Document S T} : op.run depth ev d = .ok () d' → Step depth ev d op d'
  | throws {op : Op} {e : Exn} {d' : Document S T} :
    op.run depth ev d = .error (.exception e) d' → Step depth ev d op d'
  | threadsReturn (statuses : Nat → CalcStatus) :
    Step depth ev d .calculate (clearModified { d with cxt := d.cxt.withStatuses statuses })
  | threadsThrow (statuses : Nat → CalcStatus) :
    Step depth ev d .calculate { d with cxt := d.cxt.withStatuses statuses }

/-- The operations of a run, each with the state it starts from, and the state after the
last one. -/
inductive Run (depth : Nat) (ev : Evaluator) :
    List (Document S T × Op) → Document S T → Prop where
  | new : Run depth ev [] new
  | step {l : List (Document S T × Op)} {d d' : Document S T} {op : Op} :
    Run depth ev l d → Step depth ev d op d' → Run depth ev (l ++ [(d, op)]) d'

/-! ## The invariant -/

/-- The context is that of a document, and the cells that have been set since the last
calculation are formula cells. -/
structure Inv (d : Document S T) : Prop where
  tidy : d.cxt.Tidy
  modified : ∀ s ∈ toList d.modifiedFormulaCells, d.cxt.IsFormulaRange s

/-- Then only formula cells are queued. -/
theorem Inv.allFormulas {d : Document S T} (h : d.Inv) : d.cxt.AllFormulas d.sortedCells := by
  have hformula : ∀ r ∈ d.sortedCells, d.cxt.IsFormulaRange r := by
    intro r hr
    rcases mem_queryAndSort.mp hr with hr | hr | ⟨m, _, hstep⟩
    · exact h.tidy.volatiles r hr
    · exact h.modified r hr
    · obtain ⟨_, _, e, htracked, _⟩ := TransGen.tail'_iff.mp hstep
      obtain ⟨pos, cell, _, _, hcell, _, hp⟩ := h.tidy.sources _ _ _ htracked
      exact ⟨pos, cell, hcell, hp.1⟩
  intro r hr
  obtain ⟨pos, cell, hcell, rfl⟩ := hformula r hr
  exact ⟨cell, h.tidy.getFormulaCell.mpr hcell⟩

theorem inv_new : (new : Document S T).Inv := by
  refine ⟨⟨Reachable.new.wf, ⟨rfl, fun ws hws ↦ absurd hws List.not_mem_nil⟩, fun _ _ ↦ rfl,
    fun _ _ hc ↦ absurd hc nofun, fun sheet e s hs ↦ ?_, fun s hs ↦ ?_⟩, fun s hs ↦ ?_⟩
  · exact absurd (tracked_iff.mp hs).2 not_listens_empty
  · exact absurd hs (by simp [new, ModelContext.new, DirtyCellTracker.new])
  · exact absurd hs (by simp [new])

/-- A raw value is put into a formula cell that has not been calculated since it was
set. -/
def Overwrites (depth : Nat) (d : Document S T) : Op → Prop
  | .setCell pos _ => ∃ addr cell refs, pos.toAddress = .ok addr ∧
      addr.toRange ∈ toList d.modifiedFormulaCells ∧
      d.cxt.getFormulaCell addr = .ok (some cell) ∧
      d.cxt.getRefTokens depth cell addr = .ok refs ∧ ∀ t ∈ refs, Unregistrable addr t
  | _ => False

/-! ## What an operation preserves -/

/-- The context stays that of a document, and under a condition only formula cells are
remembered. -/
structure Keeps (P : Prop) (d d' : Document S T) : Prop where
  tidy : d'.cxt.Tidy
  modified : P → (∀ s ∈ toList d.modifiedFormulaCells, d.cxt.IsFormulaRange s) →
    ∀ s ∈ toList d'.modifiedFormulaCells, d'.cxt.IsFormulaRange s

theorem Keeps.refl {d : Document S T} (h : d.cxt.Tidy) (P : Prop) : Keeps P d d :=
  ⟨h, fun _ hd ↦ hd⟩

/-- A context with the same cells. -/
theorem Keeps.of_cells_eq {d : Document S T} {cxt : ModelContext S T} (h : cxt.Tidy)
    (hcells : cxt.cells = d.cxt.cells) (P : Prop) : Keeps P d { d with cxt } := by
  refine ⟨h, fun _ hd s hs ↦ ?_⟩
  obtain ⟨pos, cell, hcell, rfl⟩ := hd s hs
  exact ⟨pos, cell, (congrFun hcells pos).trans hcell, rfl⟩

theorem Forgets.cells_eq {cxt cxt' : ModelContext S T} (h : Forgets cxt cxt') :
    cxt'.cells = cxt.cells := by
  rw [h.eq]
  rfl

theorem wp_setCell {depth : Nat} {d : Document S T} (h : d.cxt.Tidy) (pos : CellPos)
    (value : RawValue) :
    wp (setCell depth pos value) (fun _ ↦ Keeps (¬ Overwrites depth d (.setCell pos value)) d)
      (fun _ ↦ Keeps (¬ Overwrites depth d (.setCell pos value)) d) d := by
  rw [setCell, wp_bind]
  cases haddr : pos.toAddress with
  | error e => exact .refl h _
  | ok addr =>
    rw [liftExcept, wp_pure, wp_bind, wp_onContext]
    refine ((wp_unregisterFormulaCell h.wf depth addr).and (wp_run _ _)).mono ?_ ?_
    · rintro _ cxt₁ ⟨hforgets, hrun⟩
      have hin : d.cxt.inWorkbook addr = true := inWorkbook_of_unregister hrun
      have hin₁ : cxt₁.inWorkbook addr = true := by
        rw [hforgets.eq]
        exact hin
      rw [wp_bind, wp_onContext]
      refine (wp_setRawCell hin₁ value).mono (fun _ cxt₂ hs ↦ ?_) fun _ _ h ↦ h.elim
      rw [wp_modify]
      refine ⟨?_, fun hno hd s hs' ↦ ?_⟩
      · have hupdate := (h.forgets hforgets).update hin₁ (h.notRegistered hrun)
          (cxt₂.cells addr) (fun c hc ↦ absurd hc (hs.not_formula c)) cxt₂.strPool cxt₁.statuses
          cxt₁.statusCount
        change Tidy cxt₂
        rw [hs.eq]
        exact hupdate
      · obtain ⟨a, cell, hcell, rfl⟩ := hd s hs'
        refine ⟨a, cell, ?_, rfl⟩
        have hne : a ≠ addr := by
          rintro rfl
          have hformula := h.getFormulaCell.mpr hcell
          obtain ⟨refs, hrefs, hall, _⟩ := (unregisterFormulaCell_eq_ok_iff hformula).mp hrun
          exact hno ⟨a, cell, refs, haddr, hs', hformula, hrefs, hall⟩
        change cxt₂.cells a = _
        rw [hs.eq, hforgets.eq]
        exact (Function.update_of_ne hne ..).trans hcell
    · rintro e cxt₁ ⟨hforgets, _⟩
      exact .of_cells_eq (h.forgets hforgets) (Forgets.cells_eq hforgets) _

theorem wp_setFormulaCell {depth : Nat} {d : Document S T} (h : d.cxt.Tidy) (pos : CellPos)
    (formula : ParsedFormula) :
    wp (setFormulaCell depth pos formula) (fun _ ↦ Keeps True d) (fun _ ↦ Keeps True d) d := by
  rw [setFormulaCell, wp_bind]
  cases haddr : pos.toAddress with
  | error e => exact .refl h _
  | ok addr =>
    rw [liftExcept, wp_pure, wp_bind, wp_onContext]
    refine ((wp_unregisterFormulaCell h.wf depth addr).and (wp_run _ _)).mono ?_ ?_
    · rintro _ cxt₁ ⟨hforgets, hrun⟩
      have h₁ := h.forgets hforgets
      have hcells₁ := Forgets.cells_eq hforgets
      have hcells {cxt₂ : ModelContext S T} (hp : PoolGrows cxt₁ cxt₂) :
          cxt₂.cells = d.cxt.cells := by
        rw [hp.eq]
        exact hcells₁
      rw [wp_bind, wp_onContext]
      refine (wp_parseFormulaString formula cxt₁).mono ?_ fun _ cxt₂ hp ↦
        .of_cells_eq (h₁.poolGrows hp.1) (hcells hp.1) _
      rintro tokens cxt₂ ⟨hp, _⟩
      have hcells₂ := hcells hp
      rw [wp_bind, wp_onContext]
      refine (ModelContext.wp_setFormulaCell (h.inWorkbook_of_parsed hrun hp) tokens).mono ?_ fun _ _ h ↦ h.elim
      rintro cell cxt₃ ⟨hcell, rfl⟩
      have hungrouped : cell.isGrouped = false := by
        rw [hcell]
        rfl
      -- the context with the new formula cell, which is not registered yet
      have h₃ := h.store hrun hp hungrouped (.new ⟨0, 0⟩)
      have hnew := Function.update_self addr (Cell.formula cell) cxt₂.cells
      obtain ⟨refs, hrefs, hmem⟩ := h₃.noNames.getRefTokens depth cell addr
      have hmodified : (∀ s ∈ toList d.modifiedFormulaCells, d.cxt.IsFormulaRange s) →
          ∀ s, (s = addr.toRange ∨ s ∈ toList d.modifiedFormulaCells) →
            ∃ a c, Function.update cxt₂.cells addr (Cell.formula cell) a = .formula c ∧
              s = a.toRange := by
        rintro hd s (rfl | hs)
        · exact ⟨addr, cell, hnew, rfl⟩
        · obtain ⟨a, c, hc, rfl⟩ := hd s hs
          by_cases hne : a = addr
          · subst hne
            exact ⟨a, cell, hnew, rfl⟩
          · refine ⟨a, c, (Function.update_of_ne hne ..).trans ?_, rfl⟩
            rw [hcells₂]
            exact hc
      rw [wp_bind, wp_onContext]
      have hregister := wp_registerFormulaCell h₃.wf hrefs
      rw [h₃.srcRange hnew] at hregister
      refine hregister.mono (fun _ cxt₄ he ↦ ?_) fun _ cxt₄ he ↦ ?_
      · rw [wp_modify]
        refine ⟨h₃.extends hnew (fun t ht ↦ (hmem t).mp ht) he, fun _ hd s hs ↦ ?_⟩
        obtain ⟨a, c, hc, rfl⟩ := hmodified hd s (mem_toList_insert.mp hs)
        refine ⟨a, c, ?_, rfl⟩
        change cxt₄.cells a = _
        rw [he.eq]
        exact hc
      · refine ⟨h₃.extends hnew (fun t ht ↦ (hmem t).mp ht) he, fun _ hd s hs ↦ ?_⟩
        obtain ⟨a, c, hc, rfl⟩ := hmodified hd s (.inr hs)
        refine ⟨a, c, ?_, rfl⟩
        change cxt₄.cells a = _
        rw [he.eq]
        exact hc
    · rintro e cxt₁ ⟨hforgets, _⟩
      exact .of_cells_eq (h.forgets hforgets) (Forgets.cells_eq hforgets) _

/-- A calculation changes only statuses, which do not matter here. -/
theorem keeps_withStatuses {d : Document S T} (h : d.cxt.Tidy) {cxt : ModelContext S T}
    (h' : OnlyStatuses d.cxt cxt) : Keeps True d { d with cxt } := by
  rw [show cxt = d.cxt.withStatuses cxt.statuses from h']
  exact ⟨⟨h.wf, h.noNames, h.outside, h.ungrouped, h.sources, h.volatiles⟩, fun _ hd ↦ hd⟩

theorem Keeps.clearModified {P : Prop} {d d' : Document S T} (h : Keeps P d d') :
    Keeps P d d'.clearModified :=
  ⟨h.tidy, fun _ _ _ hs ↦ absurd (toList_empty (S := S) ▸ hs) List.not_mem_nil⟩

theorem wp_calculate {d : Document S T} (h : d.cxt.Tidy) (ev : Evaluator) :
    wp (calculate ev) (fun _ ↦ Keeps True d) (fun _ ↦ Keeps True d) d := by
  rw [calculate, wp_bind, wp_get, wp_bind, wp_onContext]
  refine (respects_calculateSortedCells ev d.sortedCells d.cxt).mono (fun _ cxt h' ↦ ?_)
    fun _ cxt h' ↦ keeps_withStatuses h h'
  rw [wp_modify]
  exact (keeps_withStatuses h h').clearModified

theorem wp_appendSheet {d : Document S T} (h : d.cxt.Tidy) (name : String) :
    wp (appendSheet name) (fun _ ↦ Keeps True d) (fun _ ↦ Keeps True d) d := by
  rw [appendSheet, wp_onContext]
  refine (ModelContext.wp_appendSheet name d.cxt).mono ?_ ?_
  · rintro _ _ ⟨_, rfl⟩
    exact ⟨h.appendSheet name, fun _ hd ↦ hd⟩
  · rintro _ _ rfl
    exact .refl h _

theorem Step.keeps {depth : Nat} {ev : Evaluator} {d d' : Document S T} {op : Op}
    (hstep : Step depth ev d op d') (h : d.cxt.Tidy) : Keeps (¬ Overwrites depth d op) d d' := by
  have hwp : wp (op.run depth ev) (fun _ ↦ Keeps (¬ Overwrites depth d op) d)
      (fun _ ↦ Keeps (¬ Overwrites depth d op) d) d := by
    have htrue : ∀ d', Keeps True d d' → Keeps (¬ Overwrites depth d op) d d' :=
      fun d' hk ↦ ⟨hk.tidy, fun _ ↦ hk.modified trivial⟩
    cases op with
    | appendSheet name =>
      exact (wp_appendSheet h name).mono (fun _ ↦ htrue) (fun _ ↦ htrue)
    | setCell pos value => cases value <;> exact wp_setCell h pos _
    | setFormulaCell pos formula =>
      exact (wp_setFormulaCell h pos formula).mono (fun _ ↦ htrue) (fun _ ↦ htrue)
    | calculate => exact (wp_calculate h ev).mono (fun _ ↦ htrue) (fun _ ↦ htrue)
  cases hstep with
  | returns hrun => exact hwp.of_ok hrun
  | throws hrun => exact hwp.of_error hrun
  | threadsReturn statuses =>
    have hk : Keeps True d { d with cxt := d.cxt.withStatuses statuses } :=
      keeps_withStatuses h rfl
    exact ⟨hk.tidy, fun _ ↦ hk.clearModified.modified trivial⟩
  | threadsThrow statuses =>
    have hk : Keeps True d { d with cxt := d.cxt.withStatuses statuses } :=
      keeps_withStatuses h rfl
    exact ⟨hk.tidy, fun _ ↦ hk.modified trivial⟩

/-- In every state of a run the context is that of a document. -/
theorem Run.tidy {depth : Nat} {ev : Evaluator} {l : List (Document S T × Op)}
    {d : Document S T} (hrun : Run depth ev l d) : d.cxt.Tidy := by
  induction hrun with
  | new => exact inv_new.tidy
  | step _ hstep ih => exact (hstep.keeps ih).tidy

/-- An operation that does not overwrite a pending formula cell keeps the invariant,
whether it returns or throws. -/
theorem Inv.step {depth : Nat} {ev : Evaluator} {d d' : Document S T} {op : Op} (h : d.Inv)
    (hstep : Step depth ev d op d') (hno : ¬ Overwrites depth d op) : d'.Inv :=
  ⟨(hstep.keeps h.tidy).tidy, (hstep.keeps h.tidy).modified hno h.modified⟩

/-! ## Whole runs -/

/-- Overwriting a pending formula cell returns, and the cell is still queued. -/
theorem Overwrites.not_allFormulas {depth : Nat} {ev : Evaluator} {d d' : Document S T} {op : Op}
    (h : Overwrites depth d op) (hstep : Step depth ev d op d') :
    ¬ d'.cxt.AllFormulas d'.sortedCells := by
  cases op with
  | setCell pos value =>
    obtain ⟨addr, cell, refs, haddr, hmodified, hcell, hrefs, hall⟩ := h
    have hrun := (unregisterFormulaCell_eq_ok_iff hcell).mpr ⟨refs, hrefs, hall, rfl⟩
    have hin := (Workbook.getFormulaCell_eq_some_iff.mp hcell).1
    have hwp : wp (setCell depth pos value)
        (fun _ d' ↦ addr.toRange ∈ toList d'.modifiedFormulaCells ∧
          ∀ c, d'.cxt.cells addr ≠ .formula c) (fun _ _ ↦ False) d := by
      rw [setCell, haddr, liftExcept, wp_bind, wp_pure, wp_bind, wp_onContext]
      refine wp_of_eq_ok hrun ?_
      rw [wp_bind, wp_onContext]
      refine (wp_setRawCell (by exact hin) value).mono (fun _ cxt hs ↦ ?_) fun _ _ h ↦ h
      exact ⟨hmodified, hs.not_formula⟩
    have hd' : addr.toRange ∈ toList d'.modifiedFormulaCells ∧
        ∀ c, d'.cxt.cells addr ≠ .formula c := by
      cases hstep with
      | returns hrun => cases value <;> exact hwp.of_ok hrun
      | throws hrun => cases value <;> exact (hwp.of_error hrun).elim
    intro hformulas
    obtain ⟨c, hc⟩ := hformulas addr.toRange (mem_queryAndSort.mpr (.inr (.inl hd'.1)))
    exact hd'.2 c (Workbook.getFormulaCell_eq_some_iff.mp hc).2
  | _ => exact h.elim

/-- Only formula cells are queued in all states of a run exactly when the run never puts
a raw value into a formula cell that has not been calculated since it was set. -/
theorem allFormulas_iff {depth : Nat} {ev : Evaluator} {l : List (Document S T × Op)}
    {d : Document S T} (hrun : Run depth ev l d) :
    (d.cxt.AllFormulas d.sortedCells ∧ ∀ p ∈ l, p.1.cxt.AllFormulas p.1.sortedCells) ↔
      ∀ p ∈ l, ¬ Overwrites depth p.1 p.2 := by
  constructor
  · intro h p hp
    induction hrun with
    | new => exact absurd hp List.not_mem_nil
    | @step l d d' op _ hstep ih =>
      rw [List.forall_mem_append] at h
      rcases List.mem_append.mp hp with hp | hp
      · exact ih ⟨h.2.2 (d, op) (List.mem_singleton_self _), h.2.1⟩ hp
      · rw [List.mem_singleton.mp hp]
        exact fun hover ↦ hover.not_allFormulas hstep h.1
  · intro hno
    have hinv : d.Inv ∧ ∀ p ∈ l, p.1.Inv := by
      induction hrun with
      | new => exact ⟨inv_new, fun p hp ↦ absurd hp List.not_mem_nil⟩
      | @step l d d' op _ hstep ih =>
        rw [List.forall_mem_append] at hno
        obtain ⟨hd, hl⟩ := ih hno.1
        have hop := hno.2 (d, op) (List.mem_singleton_self _)
        refine ⟨hd.step hstep hop, fun p hp ↦ ?_⟩
        rcases List.mem_append.mp hp with hp | hp
        · exact hl p hp
        · rw [List.mem_singleton.mp hp]
          exact hd
    exact ⟨hinv.1.allFormulas, fun p hp ↦ (hinv.2 p hp).allFormulas⟩

/-! ### A formula that is replaced before it is calculated -/

/-- An evaluator for documents in which nothing is calculated. -/
def noEvaluator : Evaluator := fun _ _ _ ↦ .pure .new

/-- A sheet is appended and `=1` is set in `A1`; then the cell is overwritten with 1. -/
def overwriteOps : List Op :=
  [.appendSheet "Sheet1", .setFormulaCell (.address ⟨0, 0, 0⟩) ⟨[], .ok [.value 1]⟩,
    .setCell (.address ⟨0, 0, 0⟩) (.numeric 1)]

/-- The document after the first operations. -/
def overwriteDoc (n : Nat) : Document Ranges (ListTree Ranges) :=
  finalState ((overwriteOps.take n).forM fun op ↦ op.run 0 noEvaluator) new

theorem run_overwrite : Run 0 noEvaluator
    [(overwriteDoc 0, .appendSheet "Sheet1"),
      (overwriteDoc 1, .setFormulaCell (.address ⟨0, 0, 0⟩) ⟨[], .ok [.value 1]⟩),
      (overwriteDoc 2, .setCell (.address ⟨0, 0, 0⟩) (.numeric 1))] (overwriteDoc 3) :=
  ((Run.new.step (.returns rfl)).step (.returns rfl)).step (.returns rfl)

/-- A range may be queued that does not begin with a formula cell. -/
theorem not_allFormulas_overwrite :
    ¬ ∀ (depth : Nat) (ev : Evaluator) (l : List (Document Ranges (ListTree Ranges) × Op))
      (d : Document Ranges (ListTree Ranges)), Run depth ev l d →
      d.cxt.AllFormulas d.sortedCells := by
  intro h
  have hqueued : (⟨0, 0, 0⟩ : AbsAddress).toRange ∈ (overwriteDoc 3).sortedCells :=
    mem_queryAndSort.mpr (.inr (.inl List.mem_cons_self))
  obtain ⟨cell, hcell⟩ := h _ _ _ _ run_overwrite _ hqueued
  exact absurd hcell nofun

theorem allFormulas_iff_overwrite :
    ((overwriteDoc 3).cxt.AllFormulas (overwriteDoc 3).sortedCells ∧
      ∀ p ∈ [(overwriteDoc 0, .appendSheet "Sheet1"),
        (overwriteDoc 1, .setFormulaCell (.address ⟨0, 0, 0⟩) ⟨[], .ok [.value 1]⟩),
        (overwriteDoc 2, Op.setCell (.address ⟨0, 0, 0⟩) (.numeric 1))],
        p.1.cxt.AllFormulas p.1.sortedCells) ↔
    ∀ p ∈ [(overwriteDoc 0, .appendSheet "Sheet1"),
      (overwriteDoc 1, .setFormulaCell (.address ⟨0, 0, 0⟩) ⟨[], .ok [.value 1]⟩),
      (overwriteDoc 2, Op.setCell (.address ⟨0, 0, 0⟩) (.numeric 1))], ¬ Overwrites 0 p.1 p.2 :=
  allFormulas_iff run_overwrite

end Document

end Ixion
