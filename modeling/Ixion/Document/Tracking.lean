import Ixion.Interp.Spelling

/-!
# What the tracker of a document holds

An edit of a cell takes back what has been tracked for the old formula and tracks what the new one
refers to.  In a run whose edits all return, the tracker therefore depends on the cells alone, and
not on how they have come about: it holds one pair for each reference of each formula cell and each
sheet of the reference, and the volatile cells are the formulas that call a volatile function
(`Edits.tracksCells`).
-/

namespace Ixion

open Lib UnorderedSet DirtyCellTracker Relation

namespace Workbook

/-- What a reference is registered as depends on the size of sheets. -/
theorem destRange_congr {wb wb' : Workbook} (h : wb'.sheetSize = wb.sheetSize) (pos : AbsAddress)
    (t : FormulaToken) : wb'.destRange pos t = wb.destRange pos t := by
  cases t with
  | rangeRef r => simp only [Workbook.destRange, normalizeRange, clipRows, clipColumns, h]
  | _ => rfl

end Workbook

namespace ModelContext

open Workbook

variable {S T : Type} [UnorderedSet S AbsRange] [RTree T S]

/-! ## The pairs of one cell -/

/-- Two trackers hold the same for all sources but one cell. -/
structure SameElsewhere (addr : AbsAddress) (t t' : DirtyCellTracker S T) : Prop where
  tracked : ∀ sheet e s, s ≠ addr.toRange → (t'.Tracked sheet e s ↔ t.Tracked sheet e s)
  volatile : ∀ s, s ≠ addr.toRange →
    (s ∈ toList t'.volatileCells ↔ s ∈ toList t.volatileCells)

theorem SameElsewhere.trans {addr : AbsAddress} {t t' t'' : DirtyCellTracker S T}
    (h : SameElsewhere addr t t') (h' : SameElsewhere addr t' t'') : SameElsewhere addr t t'' where
  tracked sheet e s hs := (h'.tracked sheet e s hs).trans (h.tracked sheet e s hs)
  volatile s hs := (h'.volatile s hs).trans (h.volatile s hs)

/-- Unregistering a cell changes nothing for the others. -/
theorem Tidy.sameElsewhere_of_unregister {cxt cxt' : ModelContext S T} (h : cxt.Tidy) {depth : Nat}
    {addr : AbsAddress} (hrun : unregisterFormulaCell depth addr cxt = .ok () cxt') :
    SameElsewhere addr cxt.tracker cxt'.tracker := by
  cases hcell : cxt.cells addr with
  | formula cell =>
    obtain ⟨refs, _, hall, rfl⟩ :=
      (unregisterFormulaCell_eq_ok_iff (h.getFormulaCell.mpr hcell)).mp hrun
    refine ⟨fun sheet e s hs ↦ ?_, fun s hs ↦ ?_⟩
    · refine (tracked_unregisteredTracker h.wf hall).trans (and_iff_right ?_)
      rintro ⟨_, _, rfl, _⟩
      exact hs rfl
    · change s ∈ toList (cxt.unregisteredTracker addr refs).volatileCells ↔ _
      rw [volatileCells_unregisteredTracker, mem_toList_erase, and_iff_right hs]
  | _ =>
    obtain ⟨p, hp⟩ := exists_getFormulaCell (inWorkbook_of_unregister hrun)
    cases p with
    | some c => exact absurd (hcell.symm.trans (h.getFormulaCell.mp hp)) (by rintro ⟨⟩)
    | none =>
      change (liftExcept (cxt.getFormulaCell addr) >>= fun found ↦ _) cxt = _ at hrun
      rw [hp] at hrun
      cases hrun
      exact ⟨fun _ _ _ _ ↦ .rfl, fun _ _ ↦ .rfl⟩

/-- A formula cell that is registered right after it has been stored need not be looked up. -/
theorem registerFormulaCell_some {depth : Nat} {pos : AbsAddress} {cell : FormulaCell}
    {cxt : ModelContext S T} (hcell : cxt.getFormulaCell pos = .ok (some cell)) :
    registerFormulaCell depth pos (some cell) cxt = registerFormulaCell depth pos none cxt := by
  have hnone : registerFormulaCell depth pos none cxt =
      (liftExcept (cxt.getFormulaCell pos) >>= fun found ↦
        registerFormulaCell depth pos found) cxt := by
    show (liftExcept (cxt.getFormulaCell pos) >>= fun found ↦ _) cxt = _
    rw [hcell]
    rfl
  rw [hnone, hcell]
  rfl

/-! ## All pairs -/

/-- Whatever a formula cell refers to is tracked for it, and it is volatile if its formula is. -/
structure Complete (cxt : ModelContext S T) (a : AbsAddress) (cell : FormulaCell) : Prop where
  tracked : ∀ t ∈ cell.tokens, IsRef t → ∀ sheet e,
    Pairs a.toRange (cxt.destRange a t) sheet e a.toRange → cxt.tracker.Tracked sheet e a.toRange
  volatile : hasVolatile cell.tokens = true → a.toRange ∈ toList cxt.tracker.volatileCells

/-- The tracker holds exactly what the formula cells ask for. -/
structure TracksCells (cxt : ModelContext S T) : Prop where
  tracked : ∀ sheet e s, cxt.tracker.Tracked sheet e s ↔
    ∃ pos cell, ∃ t ∈ cell.tokens, cxt.cells pos = .formula cell ∧ IsRef t ∧
      Pairs pos.toRange (cxt.destRange pos t) sheet e s
  volatile : ∀ s, s ∈ toList cxt.tracker.volatileCells ↔
    ∃ pos cell, cxt.cells pos = .formula cell ∧ hasVolatile cell.tokens = true ∧ s = pos.toRange

end ModelContext

namespace Document

open ModelContext Workbook

variable {S T : Type} [UnorderedSet S AbsRange] [RTree T S]

/-! ## Edits -/

/-- What an edit of the cell at an address does.  A new formula cell has a status of its own, and is
registered. -/
structure EditAt (addr : AbsAddress) (d d' : Document S T) : Prop where
  inWorkbook : d.cxt.inWorkbook addr = true
  setting : d.cxt.SameSetting d'.cxt.toWorkbook
  cells : ∀ a, a ≠ addr → d'.cxt.cells a = d.cxt.cells a
  getString : ∀ sid s, d.cxt.strPool.getString sid = some s → d'.cxt.strPool.getString sid = some s
  statuses : ∀ k, k ≠ d.cxt.statusCount → d'.cxt.statuses k = d.cxt.statuses k
  statusCount : d.cxt.statusCount ≤ d'.cxt.statusCount
  elsewhere : SameElsewhere addr d.cxt.tracker d'.cxt.tracker
  string : ∀ sid, d'.cxt.cells addr = .string sid → (d'.cxt.strPool.getString sid).isSome = true
  status : ∀ cell, d'.cxt.cells addr = .formula cell →
    cell.status = d.cxt.statusCount ∧ cell.status < d'.cxt.statusCount
  ungrouped : ∀ cell, d'.cxt.cells addr = .formula cell →
    cell.groupRow = -1 ∧ cell.groupColumn = -1
  complete : ∀ cell, d'.cxt.cells addr = .formula cell → d'.cxt.Complete addr cell
  asked : ∀ sheet e, d'.cxt.tracker.Tracked sheet e addr.toRange →
    ∃ cell, ∃ t ∈ cell.tokens, d'.cxt.cells addr = .formula cell ∧ IsRef t ∧
      Pairs addr.toRange (d'.cxt.destRange addr t) sheet e addr.toRange
  askedVolatile : addr.toRange ∈ toList d'.cxt.tracker.volatileCells →
    ∃ cell, d'.cxt.cells addr = .formula cell ∧ hasVolatile cell.tokens = true
  modifiedCells : ∀ s ∈ toList d.modifiedCells, s ∈ toList d'.modifiedCells
  modifiedFormulaCells : ∀ s ∈ toList d.modifiedFormulaCells, s ∈ toList d'.modifiedFormulaCells
  mem_modifiedCells : ∀ s ∈ toList d'.modifiedCells, s = addr.toRange ∨ s ∈ toList d.modifiedCells
  mem_modifiedFormulaCells : ∀ s ∈ toList d'.modifiedFormulaCells,
    s = addr.toRange ∨ s ∈ toList d.modifiedFormulaCells
  seed : addr.toRange ∈ toList d'.modifiedCells ∨ addr.toRange ∈ toList d'.modifiedFormulaCells
  formula_seed : ∀ cell, d'.cxt.cells addr = .formula cell →
    addr.toRange ∈ toList d'.modifiedFormulaCells

theorem wp_setCell_editAt {depth : Nat} {d : Document S T} (h : d.cxt.Tidy) (pos : CellPos)
    (value : RawValue) :
    wp (setCell depth pos value) (fun _ d' ↦ ∃ addr, EditAt addr d d') (fun _ _ ↦ True) d := by
  rw [setCell, wp_bind]
  cases pos.toAddress with
  | error e => trivial
  | ok addr =>
    rw [liftExcept, wp_pure, wp_bind, wp_onContext]
    refine ((wp_unregisterFormulaCell h.wf depth addr).and (wp_run _ _)).mono ?_
      fun _ _ _ ↦ trivial
    rintro _ cxt₁ ⟨hforgets, hrun⟩
    have hin : d.cxt.inWorkbook addr = true := inWorkbook_of_unregister hrun
    have hin₁ : cxt₁.inWorkbook addr = true := by
      rw [hforgets.eq]
      exact hin
    have hnot := h.notRegistered hrun
    rw [wp_bind, wp_onContext]
    refine (wp_setRawCell hin₁ value).mono (fun _ cxt₂ hs ↦ ?_) fun _ _ h ↦ h.elim
    rw [wp_modify]
    have hstring : ∀ sid, cxt₂.cells addr = .string sid →
        (cxt₂.strPool.getString sid).isSome = true := by
      intro sid hsid
      have hvalue := hs.value fun _ ↦ .error .wait
      rw [hsid] at hvalue
      change (pure (CellValue.string (cxt₂.strPool.getString sid)) : Except Failure CellValue) = _
        at hvalue
      cases value with
      | string s =>
        rw [CellValue.string.inj (Except.ok.inj hvalue)]
        rfl
      | _ => exact absurd (Except.ok.inj hvalue) (by rintro ⟨⟩)
    have hcells : ∀ a, a ≠ addr → cxt₂.cells a = d.cxt.cells a := by
      intro a hne
      rw [hs.eq, hforgets.eq]
      exact Function.update_of_ne hne ..
    have hno {P : FormulaCell → Prop} : ∀ cell, cxt₂.cells addr = .formula cell → P cell :=
      fun cell hcell ↦ absurd hcell (hs.not_formula cell)
    have htracker : cxt₂.tracker = cxt₁.tracker := by rw [hs.eq]
    exact ⟨addr,
      { inWorkbook := hin
        setting := by
          rw [hs.eq, hforgets.eq]
          exact ⟨rfl, rfl, rfl, rfl⟩
        cells := hcells
        getString := fun sid s hsid ↦ hs.getString sid s (by
          rw [hforgets.eq]
          exact hsid)
        statuses := fun k _ ↦ by
          rw [hs.eq, hforgets.eq]
          rfl
        statusCount := by
          rw [hs.eq, hforgets.eq]
          exact le_rfl
        elsewhere := htracker ▸ h.sameElsewhere_of_unregister hrun
        string := hstring
        status := hno
        ungrouped := hno
        complete := hno
        asked := fun sheet e hs ↦ absurd (htracker ▸ hs) (hnot.tracked sheet e)
        askedVolatile := fun hs ↦ absurd (htracker ▸ hs) hnot.notVolatile
        modifiedCells := fun s hs ↦ mem_toList_insert.mpr (.inr hs)
        modifiedFormulaCells := fun s hs ↦ hs
        mem_modifiedCells := fun s hs ↦ mem_toList_insert.mp hs
        mem_modifiedFormulaCells := fun s hs ↦ .inr hs
        seed := .inl (mem_toList_insert.mpr (.inl rfl))
        formula_seed := hno }⟩

theorem wp_setFormulaCell_editAt {depth : Nat} {d : Document S T} (h : d.cxt.Tidy) (pos : CellPos)
    (formula : ParsedFormula) :
    wp (setFormulaCell depth pos formula) (fun _ d' ↦ ∃ addr, EditAt addr d d')
      (fun _ _ ↦ True) d := by
  rw [setFormulaCell, wp_bind]
  cases pos.toAddress with
  | error e => trivial
  | ok addr =>
    rw [liftExcept, wp_pure, wp_bind, wp_onContext]
    refine ((wp_unregisterFormulaCell h.wf depth addr).and (wp_run _ _)).mono ?_
      fun _ _ _ ↦ trivial
    rintro _ cxt₁ ⟨hforgets, hrun⟩
    have hnot := h.notRegistered hrun
    have hsame := h.sameElsewhere_of_unregister hrun
    rw [wp_bind, wp_onContext]
    refine (wp_parseFormulaString formula cxt₁).mono ?_ fun _ _ _ ↦ trivial
    rintro tokens cxt₂ ⟨hp, _⟩
    rw [wp_bind, wp_onContext]
    refine (ModelContext.wp_setFormulaCell (h.inWorkbook_of_parsed hrun hp) tokens).mono ?_
      fun _ _ h ↦ h.elim
    rintro cell cxt₃ ⟨hcell, hcxt₃⟩
    have hungrouped : cell.isGrouped = false := by
      rw [hcell]
      rfl
    have h₃ : cxt₃.Tidy := by
      rw [hcxt₃]
      exact h.store hrun hp hungrouped (.new ⟨0, 0⟩)
    have hnew : cxt₃.cells addr = .formula cell := by
      rw [hcxt₃]
      exact Function.update_self ..
    have hformula := h₃.getFormulaCell.mpr hnew
    obtain ⟨refs, hrefs, hmem⟩ := h₃.noNames.getRefTokens depth cell addr
    rw [wp_bind, wp_onContext]
    refine (wp_run _ _).mono (fun _ cxt₄ hregister ↦ ?_) fun _ _ _ ↦ trivial
    rw [registerFormulaCell_some hformula] at hregister
    have hspec := registerSpec h₃.wf hformula hrefs hregister
    have hsrc := h₃.srcRange hnew
    rw [wp_modify]
    have htracker : cxt₃.tracker = cxt₁.tracker := by rw [hcxt₃, hp.eq]
    have hcells₄ : cxt₄.cells = cxt₃.cells := by rw [hspec.eq]; rfl
    have hthe (c : FormulaCell) (hc : cxt₄.cells addr = .formula c) : c = cell :=
      Cell.formula.inj (hc.symm.trans ((congrFun hcells₄ addr).trans hnew))
    have hdest (t : FormulaToken) : cxt₄.destRange addr t = cxt₃.destRange addr t := by
      rw [hspec.eq]
      rfl
    have htracked (sheet : Int) (e : Extent) (s : AbsRange) :
        cxt₄.tracker.Tracked sheet e s ↔
          (∃ t ∈ refs, Pairs addr.toRange (cxt₃.destRange addr t) sheet e s) ∨
            cxt₁.tracker.Tracked sheet e s := by
      rw [hspec.tracked, hsrc, htracker]
    have hvolatile (s : AbsRange) : s ∈ toList cxt₄.tracker.volatileCells ↔
        (hasVolatile cell.tokens = true ∧ s = addr.toRange) ∨
          s ∈ toList cxt₁.tracker.volatileCells := by
      rw [hspec.volatile, htracker]
    refine ⟨addr,
      { inWorkbook := inWorkbook_of_unregister hrun
        setting := by
          rw [hspec.eq, hcxt₃, hp.eq, hforgets.eq]
          exact ⟨rfl, rfl, rfl, rfl⟩
        cells := fun a hne ↦ by
          rw [hcells₄, hcxt₃, hp.eq, hforgets.eq]
          exact Function.update_of_ne hne ..
        getString := fun sid s hsid ↦ by
          rw [hspec.eq, hcxt₃]
          exact hp.getString sid s (by rw [hforgets.eq]; exact hsid)
        statuses := fun k hk ↦ by
          rw [hspec.eq, hcxt₃, hp.eq, hforgets.eq]
          exact Function.update_of_ne hk ..
        statusCount := by
          rw [hspec.eq, hcxt₃, hp.eq, hforgets.eq]
          exact Nat.le_succ _
        elsewhere := hsame.trans ⟨fun sheet e s hs ↦ ?_, fun s hs ↦ ?_⟩
        string := fun sid hsid ↦
          absurd (hsid.symm.trans ((congrFun hcells₄ addr).trans hnew)) (by rintro ⟨⟩)
        status := fun c hc ↦ ?_
        ungrouped := fun c hc ↦ by
          rw [hthe c hc, hcell]
          exact ⟨rfl, rfl⟩
        complete := fun c hc ↦ ⟨fun t ht href sheet e hpair ↦ ?_, fun hv ↦ ?_⟩
        asked := fun sheet e hs ↦ ?_
        askedVolatile := fun hs ↦ ?_
        modifiedCells := fun s hs ↦ hs
        modifiedFormulaCells := fun s hs ↦ mem_toList_insert.mpr (.inr hs)
        mem_modifiedCells := fun s hs ↦ .inr hs
        mem_modifiedFormulaCells := fun s hs ↦ mem_toList_insert.mp hs
        seed := .inr (mem_toList_insert.mpr (.inl rfl))
        formula_seed := fun _ _ ↦ mem_toList_insert.mpr (.inl rfl) }⟩
    · refine (htracked sheet e s).trans (or_iff_right ?_)
      rintro ⟨_, _, rfl, _⟩
      exact hs rfl
    · refine (hvolatile s).trans (or_iff_right ?_)
      rintro ⟨_, rfl⟩
      exact hs rfl
    · rw [hthe c hc, hcell, hspec.eq, hcxt₃, hp.eq, hforgets.eq]
      exact ⟨rfl, Nat.lt_succ_self _⟩
    · rw [hthe c hc] at ht
      refine (htracked sheet e _).mpr (.inl ⟨t, (hmem t).mpr ⟨ht, href⟩, ?_⟩)
      exact hdest t ▸ hpair
    · rw [hthe c hc] at hv
      exact (hvolatile _).mpr (.inl ⟨hv, rfl⟩)
    · rcases (htracked sheet e _).mp hs with ⟨t, ht, hpair⟩ | hold
      · obtain ⟨ht, href⟩ := (hmem t).mp ht
        exact ⟨cell, t, ht, (congrFun hcells₄ addr).trans hnew, href, (hdest t).symm ▸ hpair⟩
      · exact absurd hold (hnot.tracked sheet e)
    · rcases (hvolatile _).mp hs with ⟨hv, _⟩ | hold
      · exact ⟨cell, (congrFun hcells₄ addr).trans hnew, hv⟩
      · exact absurd hold hnot.notVolatile

/-! ## Runs in which edits return -/

/-- The operations of a run, each with the state it starts from, and the state after the last one.
Every operation returns, except that a calculation may throw. -/
inductive Edits (depth : Nat) (evs : Set Evaluator) :
    List (Document S T × Op) → Document S T → Prop where
  | new : Edits depth evs [] new
  | returns {l : List (Document S T × Op)} {d d' : Document S T} {op : Op} {ev : Evaluator} :
    Edits depth evs l d → ev ∈ evs → op.run depth ev d = .ok () d' →
      Edits depth evs (l ++ [(d, op)]) d'
  | throws {l : List (Document S T × Op)} {d d' : Document S T} {ev : Evaluator} {e : Exn} :
    Edits depth evs l d → ev ∈ evs → calculate ev d = .error (.exception e) d' →
      Edits depth evs (l ++ [(d, .calculate)]) d'

theorem Edits.calculated {depth : Nat} {evs : Set Evaluator} {l : List (Document S T × Op)}
    {d d' : Document S T} (hrun : Edits depth evs l d) {ev : Evaluator} (hev : ev ∈ evs)
    (hcalc : calculate ev d = .ok () d') : Edits depth evs (l ++ [(d, .calculate)]) d' :=
  hrun.returns hev hcalc

theorem Edits.tidy {depth : Nat} {evs : Set Evaluator} {l : List (Document S T × Op)}
    {d : Document S T} (hrun : Edits depth evs l d) : d.cxt.Tidy := by
  induction hrun with
  | new => exact inv_new.tidy
  | returns _ _ hop ih => exact (Step.keeps (.returns hop) ih).tidy
  | throws _ _ hop ih => exact ((wp_calculate ih _).of_error hop).tidy

/-- What an operation that returns does: it appends a sheet, edits a cell, or calculates. -/
inductive Returned (ev : Evaluator) (d d' : Document S T) : Op → Prop where
  | appendSheet {name : String} :
    d' = { d with cxt := { d.cxt with sheets := d.cxt.sheets ++ [⟨name, []⟩] } } →
      Returned ev d d' (.appendSheet name)
  | setCell {pos : CellPos} {value : RawValue} {addr : AbsAddress} : EditAt addr d d' →
      Returned ev d d' (.setCell pos value)
  | setFormulaCell {pos : CellPos} {formula : ParsedFormula} {addr : AbsAddress} :
    EditAt addr d d' → Returned ev d d' (.setFormulaCell pos formula)
  | calculate : Document.calculate ev d = .ok () d' → Returned ev d d' .calculate

theorem returned_of_run {depth : Nat} {ev : Evaluator} {d d' : Document S T} {op : Op}
    (h : d.cxt.Tidy) (hop : op.run depth ev d = .ok () d') : Returned ev d d' op := by
  cases op with
  | appendSheet name =>
    have hwp : wp (appendSheet name) (fun _ d' ↦ d' =
        { d with cxt := { d.cxt with sheets := d.cxt.sheets ++ [⟨name, []⟩] } })
        (fun _ _ ↦ True) d := by
      rw [appendSheet, wp_onContext]
      refine (ModelContext.wp_appendSheet name d.cxt).mono ?_ fun _ _ _ ↦ trivial
      rintro _ _ ⟨_, rfl⟩
      rfl
    exact .appendSheet (hwp.of_ok hop)
  | setCell pos value =>
    have hrun : setCell depth pos value d = .ok () d' := by
      cases value <;> exact hop
    obtain ⟨addr, hedit⟩ := (wp_setCell_editAt h pos value).of_ok hrun
    exact .setCell hedit
  | setFormulaCell pos formula =>
    obtain ⟨addr, hedit⟩ := (wp_setFormulaCell_editAt h pos formula).of_ok hop
    exact .setFormulaCell hedit
  | calculate => exact .calculate hop

/-- A calculation changes nothing but statuses, and forgets what has been modified if it returns. -/
theorem wp_calculate_onlyStatuses (ev : Evaluator) (d : Document S T) :
    wp (calculate ev)
      (fun _ d' ↦ ∃ cxt, OnlyStatuses d.cxt cxt ∧ d' = clearModified { d with cxt } ∧
        calculateSortedCells ev d.sortedCells d.cxt = .ok () cxt)
      (fun e d' ↦ ∃ cxt, OnlyStatuses d.cxt cxt ∧ d' = { d with cxt } ∧
        calculateSortedCells ev d.sortedCells d.cxt = .error e cxt) d := by
  rw [calculate, wp_bind, wp_get, wp_bind, wp_onContext]
  refine ((respects_calculateSortedCells ev d.sortedCells d.cxt).and (wp_run _ _)).mono ?_ ?_
  · rintro _ cxt ⟨hstatuses, hrun⟩
    rw [wp_modify]
    exact ⟨cxt, hstatuses, rfl, hrun⟩
  · rintro e cxt ⟨hstatuses, hrun⟩
    exact ⟨cxt, hstatuses, rfl, hrun⟩

/-! ## The tracker in a run -/

theorem EditAt.destRange {addr : AbsAddress} {d d' : Document S T} (h : EditAt addr d d')
    (pos : AbsAddress) (t : FormulaToken) : d'.cxt.destRange pos t = d.cxt.destRange pos t :=
  destRange_congr h.setting.sheetSize pos t

/-- An edit takes back the pairs of the old formula and adds those of the new one. -/
theorem EditAt.tracksCells {addr : AbsAddress} {d d' : Document S T} (h : EditAt addr d d')
    (htracks : d.cxt.TracksCells) : d'.cxt.TracksCells where
  tracked sheet e s := by
    by_cases hs : s = addr.toRange
    · subst hs
      constructor
      · intro htr
        obtain ⟨cell, t, ht, hcell, href, hp⟩ := h.asked sheet e htr
        exact ⟨addr, cell, t, ht, hcell, href, hp⟩
      · rintro ⟨pos, cell, t, ht, hcell, href, hp⟩
        obtain rfl := AbsAddress.toRange_injective hp.1
        exact (h.complete cell hcell).tracked t ht href sheet e hp
    · rw [h.elsewhere.tracked sheet e s hs, htracks.tracked]
      constructor
      · rintro ⟨pos, cell, t, ht, hcell, href, hp⟩
        have hne : pos ≠ addr := fun heq ↦ hs (heq ▸ hp.1)
        exact ⟨pos, cell, t, ht, (h.cells pos hne).trans hcell, href, (h.destRange pos t).symm ▸ hp⟩
      · rintro ⟨pos, cell, t, ht, hcell, href, hp⟩
        have hne : pos ≠ addr := fun heq ↦ hs (heq ▸ hp.1)
        exact ⟨pos, cell, t, ht, (h.cells pos hne).symm.trans hcell, href, h.destRange pos t ▸ hp⟩
  volatile s := by
    by_cases hs : s = addr.toRange
    · subst hs
      constructor
      · intro hv
        obtain ⟨cell, hcell, hvolatile⟩ := h.askedVolatile hv
        exact ⟨addr, cell, hcell, hvolatile, rfl⟩
      · rintro ⟨pos, cell, hcell, hvolatile, heq⟩
        obtain rfl := AbsAddress.toRange_injective heq
        exact (h.complete cell hcell).volatile hvolatile
    · rw [h.elsewhere.volatile s hs, htracks.volatile]
      constructor
      · rintro ⟨pos, cell, hcell, hvolatile, heq⟩
        have hne : pos ≠ addr := fun h ↦ hs (h ▸ heq)
        exact ⟨pos, cell, (h.cells pos hne).trans hcell, hvolatile, heq⟩
      · rintro ⟨pos, cell, hcell, hvolatile, heq⟩
        have hne : pos ≠ addr := fun h ↦ hs (h ▸ heq)
        exact ⟨pos, cell, (h.cells pos hne).symm.trans hcell, hvolatile, heq⟩

/-- A calculation does not touch the tracker. -/
theorem tracksCells_of_onlyStatuses {cxt cxt' : ModelContext S T} (h : OnlyStatuses cxt cxt')
    (htracks : cxt.TracksCells) : cxt'.TracksCells := by
  rw [show cxt' = cxt.withStatuses cxt'.statuses from h]
  exact ⟨htracks.tracked, htracks.volatile⟩

/-- In every state of a run in which edits return, the tracker holds one pair for each reference of
each formula cell and each of its sheets, and the volatile cells are those whose formulas call a
volatile function: what is tracked depends on the cells alone. -/
theorem Edits.tracksCells {depth : Nat} {evs : Set Evaluator} {l : List (Document S T × Op)}
    {d : Document S T} (hrun : Edits depth evs l d) : d.cxt.TracksCells := by
  induction hrun with
  | new =>
    refine ⟨fun sheet e s ↦ iff_of_false (fun hs ↦ ?_) ?_, fun s ↦ iff_of_false (fun hs ↦ ?_) ?_⟩
    · exact not_listens_empty (tracked_iff.mp hs).2
    · rintro ⟨_, _, _, _, hcell, _⟩
      exact absurd hcell (by rintro ⟨⟩)
    · exact absurd (toList_empty (S := S) ▸ hs) List.not_mem_nil
    · rintro ⟨_, _, hcell, _⟩
      exact absurd hcell (by rintro ⟨⟩)
  | @returns l d d' op ev hrun _ hop ih =>
    cases returned_of_run hrun.tidy hop with
    | appendSheet heq =>
      rw [heq]
      exact ⟨ih.tracked, ih.volatile⟩
    | setCell hedit => exact hedit.tracksCells ih
    | setFormulaCell hedit => exact hedit.tracksCells ih
    | calculate hcalc =>
      obtain ⟨cxt, hstatuses, rfl, _⟩ := (wp_calculate_onlyStatuses ev d).of_ok hcalc
      exact tracksCells_of_onlyStatuses hstatuses ih
  | @throws l d d' ev e _ _ hop ih =>
    obtain ⟨cxt, hstatuses, rfl, _⟩ := (wp_calculate_onlyStatuses ev d).of_error hop
    exact tracksCells_of_onlyStatuses hstatuses ih

/-- The size of sheets is that of a new document. -/
theorem Edits.sheetSize {depth : Nat} {evs : Set Evaluator} {l : List (Document S T × Op)}
    {d : Document S T} (hrun : Edits depth evs l d) : d.cxt.sheetSize = ⟨1048576, 16384⟩ := by
  induction hrun with
  | new => rfl
  | @returns l d d' op ev hrun _ hop ih =>
    cases returned_of_run hrun.tidy hop with
    | appendSheet heq => rw [heq, ← ih]
    | setCell hedit => exact hedit.setting.sheetSize.trans ih
    | setFormulaCell hedit => exact hedit.setting.sheetSize.trans ih
    | calculate hcalc =>
      obtain ⟨cxt, hstatuses, rfl, _⟩ := (wp_calculate_onlyStatuses ev d).of_ok hcalc
      rw [← ih, show cxt = d.cxt.withStatuses cxt.statuses from hstatuses]
      rfl
  | @throws l d d' ev e _ _ hop ih =>
    obtain ⟨cxt, hstatuses, rfl, _⟩ := (wp_calculate_onlyStatuses ev d).of_error hop
    rw [← ih, show cxt = d.cxt.withStatuses cxt.statuses from hstatuses]
    rfl

/-- The formulas of a document, by position. -/
def HasFormula (d : Document S T) (a : AbsAddress) (tokens : List FormulaToken) : Prop :=
  ∃ cell, d.cxt.cells a = .formula cell ∧ cell.tokens = tokens

theorem tracked_iff_hasFormula {d : Document S T} (h : d.cxt.TracksCells) (sheet : Int) (e : Extent)
    (s : AbsRange) : d.cxt.tracker.Tracked sheet e s ↔ ∃ pos tokens, d.HasFormula pos tokens ∧
      ∃ t ∈ tokens, IsRef t ∧ Pairs pos.toRange (d.cxt.destRange pos t) sheet e s := by
  rw [h.tracked]
  constructor
  · rintro ⟨pos, cell, t, ht, hcell, href, hp⟩
    exact ⟨pos, _, ⟨cell, hcell, rfl⟩, t, ht, href, hp⟩
  · rintro ⟨pos, _, ⟨cell, hcell, rfl⟩, t, ht, href, hp⟩
    exact ⟨pos, cell, t, ht, hcell, href, hp⟩

theorem volatile_iff_hasFormula {d : Document S T} (h : d.cxt.TracksCells) (s : AbsRange) :
    s ∈ toList d.cxt.tracker.volatileCells ↔
      ∃ pos tokens, d.HasFormula pos tokens ∧ hasVolatile tokens = true ∧ s = pos.toRange := by
  rw [h.volatile]
  constructor
  · rintro ⟨pos, cell, hcell, hv, rfl⟩
    exact ⟨pos, _, ⟨cell, hcell, rfl⟩, hv, rfl⟩
  · rintro ⟨pos, _, ⟨cell, hcell, rfl⟩, hv, rfl⟩
    exact ⟨pos, cell, hcell, hv, rfl⟩

/-- Two documents that have the same formulas in the same cells track the same, whatever their
histories are, provided that all edits have returned. -/
theorem sameTracking_of_sameFormulas {depth depth' : Nat} {evs evs' : Set Evaluator}
    {l l' : List (Document S T × Op)} {d d' : Document S T} (hrun : Edits depth evs l d)
    (hrun' : Edits depth' evs' l' d')
    (hsame : ∀ a tokens, d'.HasFormula a tokens ↔ d.HasFormula a tokens) :
    SameTracking d.cxt.tracker d'.cxt.tracker := by
  have hdest := destRange_congr (hrun'.sheetSize.trans hrun.sheetSize.symm)
  refine ⟨fun sheet e s ↦ ?_, fun s ↦ ?_⟩
  · rw [tracked_iff_hasFormula hrun.tracksCells, tracked_iff_hasFormula hrun'.tracksCells]
    simp only [hsame, hdest]
  · rw [volatile_iff_hasFormula hrun.tracksCells, volatile_iff_hasFormula hrun'.tracksCells]
    simp only [hsame]

/-- The formula `=B1` as it is read in `A1`. -/
def parsedRight : ParsedFormula := ⟨[], .ok [.singleRef ⟨0, 0, 1, false, false, false⟩]⟩

/-- A document with one sheet. -/
def oneSheet : Document Ranges (ListTree Ranges) := finalState (appendSheet "Sheet1") new

/-- A formula set in `A1`. -/
def typed (formula : ParsedFormula) (d : Document Ranges (ListTree Ranges)) :
    Document Ranges (ListTree Ranges) :=
  finalState (setFormulaCell 0 (.address ⟨0, 0, 0⟩) formula) d

theorem edits_oneSheet :
    Edits 0 {noEvaluator} [(new, .appendSheet "Sheet1")] oneSheet :=
  .returns .new rfl rfl

theorem edits_typed : Edits 0 {noEvaluator} [(new, .appendSheet "Sheet1"),
    (oneSheet, .setFormulaCell (.address ⟨0, 0, 0⟩) parsedRight)] (typed parsedRight oneSheet) :=
  edits_oneSheet.returns rfl rfl

/-- The formula `=1` is there first. -/
theorem edits_retyped : Edits 0 {noEvaluator} [(new, .appendSheet "Sheet1"),
    (oneSheet, .setFormulaCell (.address ⟨0, 0, 0⟩) ⟨[], .ok [.value 1]⟩),
    (typed ⟨[], .ok [.value 1]⟩ oneSheet, .setFormulaCell (.address ⟨0, 0, 0⟩) parsedRight)]
    (typed parsedRight (typed ⟨[], .ok [.value 1]⟩ oneSheet)) :=
  (edits_oneSheet.returns rfl rfl).returns rfl rfl

theorem hasFormula_typed {d : Document Ranges (ListTree Ranges)} {status : Nat}
    (h : d.cxt.cells = Function.update (fun _ ↦ .empty) ⟨0, 0, 0⟩
      (.formula ⟨[.singleRef ⟨0, 0, 1, false, false, false⟩], -1, -1, status⟩))
    (a : AbsAddress) (tokens : List FormulaToken) : d.HasFormula a tokens ↔
      a = ⟨0, 0, 0⟩ ∧ tokens = [.singleRef ⟨0, 0, 1, false, false, false⟩] := by
  rw [HasFormula, h]
  by_cases ha : a = ⟨0, 0, 0⟩
  · rw [ha, Function.update_self]
    simp [eq_comm]
  · rw [Function.update_of_ne ha]
    simp [ha]

theorem sameTracking_retyped : SameTracking (typed parsedRight oneSheet).cxt.tracker
    (typed parsedRight (typed ⟨[], .ok [.value 1]⟩ oneSheet)).cxt.tracker :=
  sameTracking_of_sameFormulas edits_typed edits_retyped fun a tokens ↦
    (hasFormula_typed (Function.update_idem ..) a tokens).trans (hasFormula_typed rfl a tokens).symm

end Document

end Ixion
