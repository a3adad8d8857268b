import Ixion.Document.Queue

/-!
# What a call that throws leaves behind

`setFormulaCell` unregisters the cell before it parses the formula, and changes the cell
before it registers it.  When it throws, nothing has changed only if there was nothing to
unregister, and if it did not get as far as registering: `unchanged_iff`.
-/

namespace Ixion

open Lib UnorderedSet DirtyCellTracker

namespace ModelContext

open Workbook

variable {S T : Type} [UnorderedSet S AbsRange] [RTree T S]

/-! ## Unregistering some references -/

/-- The references are unregistered one by one, up to the first one that cannot be. -/
theorem forM_unregisterRef_eq_error {cxt cxt' : ModelContext S T} (hwf : cxt.tracker.WF)
    {pos : AbsAddress} {refs : List FormulaToken} (hrefs : ∀ t ∈ refs, IsRef t) {e : Failure}
    (hrun : refs.forM (unregisterRef pos) cxt = .error e cxt') :
    ∃ l₁ t, SplitAt refs l₁ t ∧ (∀ u ∈ l₁, Unregistrable pos u) ∧ ¬ Unregistrable pos t ∧
      cxt' = cxt.withTracker
        (l₁.foldl (fun tracker u ↦ tracker.withoutPairs pos.toRange (absRef pos u))
          cxt.tracker) := by
  induction refs generalizing cxt with
  | nil => exact absurd hrun nofun
  | cons t refs ih =>
    obtain ⟨ht, hrefs⟩ := List.forall_mem_cons.mp hrefs
    change (unregisterRef pos t >>= fun _ ↦ refs.forM (unregisterRef pos)) cxt = _ at hrun
    rw [bind_apply] at hrun
    cases hx : unregisterRef pos t cxt with
    | ok _ cxt₁ =>
      rw [hx] at hrun
      obtain ⟨hun, rfl⟩ := (unregisterRef_eq_ok_iff ht).mp hx
      obtain ⟨l₁, u, hsplit, hall, hnot, heq⟩ := ih (hwf.withoutPairs _ _) hrefs hrun
      refine ⟨t :: l₁, u, splitAt_cons.mpr (.inr ⟨l₁, rfl, hsplit⟩), ?_, hnot, heq⟩
      exact List.forall_mem_cons.mpr ⟨hun, hall⟩
    | error e' cxt₁ =>
      rw [hx] at hrun
      cases hrun
      refine ⟨[], t, splitAt_cons.mpr (.inl ⟨rfl, rfl⟩), ?_, ?_, ?_⟩
      · exact fun u hu ↦ absurd hu List.not_mem_nil
      · exact fun hun ↦ absurd (hx.symm.trans ((unregisterRef_eq_ok_iff ht).mpr ⟨hun, rfl⟩)) nofun
      · exact (wp_unregisterRef hwf pos t).of_error hx

/-! ## What unregistering takes away -/

/-- Unregistering takes nothing away: the position is not volatile, and nothing is
tracked for the references up to the first one that cannot be unregistered. -/
def NothingToForget (depth : Nat) (cxt : ModelContext S T) (pos : AbsAddress) : Prop :=
  ∀ cell refs, cxt.getFormulaCell pos = .ok (some cell) →
    cxt.getRefTokens depth cell pos = .ok refs →
    pos.toRange ∉ toList cxt.tracker.volatileCells ∧
      ∀ l₁ l₂, refs = l₁ ++ l₂ → (∀ u ∈ l₁, Unregistrable pos u) → ∀ t ∈ l₁, ∀ sheet e,
        Pairs pos.toRange (absRef pos t) sheet e pos.toRange →
        ¬ cxt.tracker.Tracked sheet e pos.toRange

/-- The cell at a position can be unregistered. -/
def Unregisters (depth : Nat) (cxt : ModelContext S T) (pos : AbsAddress) : Prop :=
  ∀ cell refs, cxt.getFormulaCell pos = .ok (some cell) →
    cxt.getRefTokens depth cell pos = .ok refs → ∀ t ∈ refs, Unregistrable pos t

/-- The tracker after some references have been unregistered tracks the same exactly
when none of them was tracked. -/
theorem sameTracking_iff {t : DirtyCellTracker S T} (hwf : t.WF) {pos : AbsAddress}
    {l : List FormulaToken} (hl : ∀ u ∈ l, Unregistrable pos u) :
    SameTracking t (l.foldl (fun tracker u ↦ tracker.withoutPairs pos.toRange (absRef pos u))
        (t.removeVolatile pos.toRange)) ↔
      pos.toRange ∉ toList t.volatileCells ∧ ∀ u ∈ l, ∀ sheet e,
        Pairs pos.toRange (absRef pos u) sheet e pos.toRange → ¬ t.Tracked sheet e pos.toRange := by
  have htracked : ∀ sheet e s, (l.foldl (fun tracker u ↦
      tracker.withoutPairs pos.toRange (absRef pos u)) (t.removeVolatile pos.toRange)).Tracked
        sheet e s ↔ (¬ ∃ u ∈ l, Pairs pos.toRange (absRef pos u) sheet e s) ∧ t.Tracked sheet e s :=
    fun sheet e s ↦ tracked_foldl_withoutPairs (t := t.removeVolatile pos.toRange)
      (fun u hu ↦ (hl u hu).2) hwf
  have hvolatile : ∀ s, s ∈ toList (l.foldl (fun tracker u ↦
      tracker.withoutPairs pos.toRange (absRef pos u))
      (t.removeVolatile pos.toRange)).volatileCells ↔
        s ≠ pos.toRange ∧ s ∈ toList t.volatileCells := by
    intro s
    rw [volatileCells_foldl_withoutPairs]
    exact mem_toList_erase
  constructor
  · intro h
    refine ⟨fun hmem ↦ ?_, fun u hu sheet e hp htr ↦ ?_⟩
    · exact ((hvolatile _).mp ((h.volatile _).mpr hmem)).1 rfl
    · exact ((htracked sheet e _).mp ((h.tracked sheet e _).mpr htr)).1 ⟨u, hu, hp⟩
  · rintro ⟨hnot, hnone⟩
    refine ⟨fun sheet e s ↦ ?_, fun s ↦ ?_⟩
    · rw [htracked]
      refine and_iff_right_of_imp ?_
      rintro htr ⟨u, hu, hp⟩
      obtain rfl := hp.1
      exact hnone u hu sheet e hp htr
    · rw [hvolatile]
      refine and_iff_right_of_imp ?_
      rintro hs rfl
      exact hnot hs

/-- What unregistering a cell leaves when it returns. -/
theorem unregister_eq_ok {cxt cxt' : ModelContext S T} (h : cxt.Tidy) {depth : Nat}
    {pos : AbsAddress} (hrun : unregisterFormulaCell depth pos cxt = .ok () cxt') :
    Unregisters depth cxt pos ∧
      (SameTracking cxt.tracker cxt'.tracker ↔ NothingToForget depth cxt pos) := by
  cases hcell : cxt.cells pos with
  | formula cell =>
    have hformula := h.getFormulaCell.mpr hcell
    obtain ⟨refs, hrefs, hall, rfl⟩ := (unregisterFormulaCell_eq_ok_iff hformula).mp hrun
    refine ⟨fun c r hc hr ↦ ?_, ?_⟩
    · cases hformula.symm.trans hc
      cases hrefs.symm.trans hr
      exact hall
    · refine (sameTracking_iff h.wf hall).trans ⟨fun hsame c r hc hr ↦ ?_, fun hno ↦ ?_⟩
      · cases hformula.symm.trans hc
        cases hrefs.symm.trans hr
        refine ⟨hsame.1, fun l₁ l₂ hl _ t ht ↦ hsame.2 t ?_⟩
        rw [hl]
        exact List.mem_append_left l₂ ht
      · obtain ⟨hvol, hpairs⟩ := hno cell refs hformula hrefs
        exact ⟨hvol, hpairs refs [] (List.append_nil refs).symm hall⟩
  | _ =>
    have hnone : ∀ c, cxt.getFormulaCell pos ≠ .ok (some c) := by
      intro c hc
      exact absurd (hcell.symm.trans (h.getFormulaCell.mp hc)) nofun
    have hsame : cxt' = cxt := by
      obtain ⟨p, hp⟩ := exists_getFormulaCell (inWorkbook_of_unregister hrun)
      cases p with
      | some c => exact absurd hp (hnone c)
      | none =>
        change (liftExcept (cxt.getFormulaCell pos) >>= fun found ↦ _) cxt = _ at hrun
        rw [hp] at hrun
        cases hrun
        rfl
    rw [hsame]
    exact ⟨fun c _ hc ↦ absurd hc (hnone c),
      ⟨fun _ c _ hc ↦ absurd hc (hnone c), fun _ ↦ ⟨fun _ _ _ ↦ .rfl, fun _ ↦ .rfl⟩⟩⟩

/-- What unregistering a cell leaves when it throws. -/
theorem unregister_eq_error {cxt cxt' : ModelContext S T} (h : cxt.Tidy) {depth : Nat}
    {pos : AbsAddress} (hin : cxt.inWorkbook pos = true) {e : Failure}
    (hrun : unregisterFormulaCell depth pos cxt = .error e cxt') :
    cxt'.cells = cxt.cells ∧ ¬ Unregisters depth cxt pos ∧
      (SameTracking cxt.tracker cxt'.tracker ↔ NothingToForget depth cxt pos) := by
  obtain ⟨p, hp⟩ := exists_getFormulaCell hin
  cases p with
  | none =>
    change (liftExcept (cxt.getFormulaCell pos) >>= fun found ↦ _) cxt = _ at hrun
    rw [hp] at hrun
    exact absurd hrun nofun
  | some cell =>
    obtain ⟨refs, hrefs, hmem⟩ := h.noNames.getRefTokens depth cell pos
    have key : unregisterFormulaCell depth pos cxt = refs.forM (unregisterRef pos)
        (cxt.withTracker (cxt.tracker.removeVolatile pos.toRange)) := by
      change (liftExcept (cxt.getFormulaCell pos) >>= fun found ↦ _) cxt = _
      rw [hp]
      change (liftFailure (cxt.getRefTokens depth cell pos) >>= fun refs ↦ _) _ = _
      rw [hrefs]
      rfl
    rw [key] at hrun
    have hwf : (cxt.withTracker (cxt.tracker.removeVolatile pos.toRange)).tracker.WF := h.wf
    obtain ⟨l₁, t, ⟨l₂, hsplit⟩, hall, hnot, rfl⟩ :=
      forM_unregisterRef_eq_error hwf (fun t ht ↦ ((hmem t).mp ht).2) hrun
    refine ⟨rfl, fun hun ↦ ?_, ?_⟩
    · refine hnot (hun cell refs hp hrefs t ?_)
      rw [hsplit]
      exact List.mem_append_right l₁ List.mem_cons_self
    · refine (sameTracking_iff h.wf hall).trans ⟨fun hsame c r hc hr ↦ ?_, fun hno ↦ ?_⟩
      · cases hp.symm.trans hc
        cases hrefs.symm.trans hr
        refine ⟨hsame.1, fun k₁ k₂ hk hkall u hu ↦ hsame.2 u ?_⟩
        -- the references that are unregistered end before `t`
        rw [hsplit] at hk
        rcases List.append_eq_append_iff.mp hk with ⟨m, hm, hm'⟩ | ⟨m, hm, _⟩
        · cases m with
          | nil => rw [hm, List.append_nil] at hu; exact hu
          | cons a m =>
            obtain ⟨rfl, _⟩ := List.cons.inj hm'
            refine absurd (hkall t ?_) hnot
            rw [hm]
            exact List.mem_append_right l₁ List.mem_cons_self
        · rw [hm]
          exact List.mem_append_left m hu
      · obtain ⟨hvol, hpairs⟩ := hno cell refs hp hrefs
        exact ⟨hvol, hpairs l₁ (t :: l₂) hsplit hall⟩

/-- A formula cell that has been unregistered can be registered again. -/
theorem registerFormulaCell_of_unregisters {cxt : ModelContext S T} (h : cxt.Tidy) {depth : Nat}
    {pos : AbsAddress} {cell : FormulaCell} (hcell : cxt.cells pos = .formula cell)
    (hun : Unregisters depth cxt pos) :
    ∃ cxt', registerFormulaCell depth pos (some cell) cxt = .ok () cxt' := by
  have hformula := h.getFormulaCell.mpr hcell
  obtain ⟨refs, hrefs, hmem⟩ := h.noNames.getRefTokens depth cell pos
  have hall : ∀ t ∈ refs, cxt.Registrable (cxt.srcRange cell pos) pos t := by
    intro t ht
    obtain ⟨hsheet, htr⟩ := hun cell refs hformula hrefs t ht
    refine ⟨hsheet, ?_⟩
    rw [h.srcRange hcell, destRange_eq_absRef ⟨hsheet, htr⟩]
    exact htr
  have key : registerFormulaCell depth pos (some cell) cxt =
      registerFormulaCell depth pos none cxt := by
    change _ = (liftExcept (cxt.getFormulaCell pos) >>= fun found ↦ _) cxt
    rw [hformula]
    rfl
  rw [key]
  exact ⟨_, (registerFormulaCell_eq_ok_iff hformula).mpr ⟨refs, hrefs, hall, rfl⟩⟩

/-- Whether a formula cell can be unregistered depends on nothing but its formula. -/
theorem Unregisters.of_cells_eq {cxt cxt' : ModelContext S T} (h : cxt.Tidy) (h' : cxt'.Tidy)
    {depth : Nat} {pos : AbsAddress} {cell : FormulaCell} (hcell : cxt.cells pos = .formula cell)
    (hcell' : cxt'.cells pos = .formula cell) (hun : Unregisters depth cxt pos) :
    Unregisters depth cxt' pos := by
  intro c r hc hr t ht
  cases hcell'.symm.trans (h'.getFormulaCell.mp hc)
  obtain ⟨refs, hrefs, hmem⟩ := h.noNames.getRefTokens depth cell pos
  obtain ⟨refs', hrefs', hmem'⟩ := h'.noNames.getRefTokens depth cell pos
  cases hr.symm.trans hrefs'
  exact hun cell refs (h.getFormulaCell.mpr hcell) hrefs t ((hmem t).mpr ((hmem' t).mp ht))

end ModelContext

namespace Document

open ModelContext

variable {S T : Type} [UnorderedSet S AbsRange] [RTree T S]

/-! ## When a failed call changes nothing -/

/-- The contents of the cells, what is tracked and what has been modified are the
same. -/
structure Unchanged (d d' : Document S T) : Prop where
  cells : d'.cxt.cells = d.cxt.cells
  tracking : SameTracking d.cxt.tracker d'.cxt.tracker
  modifiedCells : d'.modifiedCells = d.modifiedCells
  modifiedFormulaCells : d'.modifiedFormulaCells = d.modifiedFormulaCells

theorem Unchanged.refl (d : Document S T) : Unchanged d d :=
  ⟨rfl, ⟨fun _ _ _ ↦ .rfl, fun _ ↦ .rfl⟩, rfl, rfl⟩

/-- Where the position is in the workbook, unregistering the cell takes nothing away, and
if the cell can be unregistered then the formula cannot be parsed. -/
def KeepsOnThrow (depth : Nat) (d : Document S T) (pos : CellPos) (formula : ParsedFormula) :
    Prop :=
  ∀ addr, pos.toAddress = .ok addr → d.cxt.inWorkbook addr = true →
    NothingToForget depth d.cxt addr ∧
      (Unregisters depth d.cxt addr → ∃ e, formula.tokens = .error e)

section Stages

variable {depth : Nat} {d : Document S T} (h : d.cxt.Tidy) {pos : CellPos} {addr : AbsAddress}
  (haddr : pos.toAddress = .ok addr) (formula : ParsedFormula)

include h haddr

/-- The cell is not unregistered. -/
theorem unchanged_of_unregister_error {e : Failure} {cxt : ModelContext S T}
    (hrun : unregisterFormulaCell depth addr d.cxt = .error e cxt) :
    Unchanged d { d with cxt } ↔ KeepsOnThrow depth d pos formula := by
  cases hin : d.cxt.inWorkbook addr with
  | false =>
    have hsame : cxt = d.cxt := by
      change (liftExcept (d.cxt.getFormulaCell addr) >>= fun found ↦ _) d.cxt = _ at hrun
      rw [Workbook.getFormulaCell_of_not_inWorkbook hin] at hrun
      cases hrun
      rfl
    rw [hsame]
    refine ⟨fun _ a ha hin' ↦ ?_, fun _ ↦ .refl d⟩
    cases haddr.symm.trans ha
    exact absurd (hin.symm.trans hin') (by rintro ⟨⟩)
  | true =>
    obtain ⟨hcells, hun, hsame⟩ := unregister_eq_error h hin hrun
    refine ⟨fun hunchanged a ha _ ↦ ?_, fun hkeeps ↦ ?_⟩
    · cases haddr.symm.trans ha
      exact ⟨hsame.mp hunchanged.tracking, fun h' ↦ absurd h' hun⟩
    · exact ⟨hcells, hsame.mpr (hkeeps addr haddr hin).1, rfl, rfl⟩

/-- The cell is unregistered, and the formula cannot be parsed. -/
theorem unchanged_of_parse_error {cxt cxt' : ModelContext S T}
    (hrun : unregisterFormulaCell depth addr d.cxt = .ok () cxt) (hp : PoolGrows cxt cxt')
    {x : Exn} (hx : formula.tokens = .error x) :
    Unchanged d { d with cxt := cxt' } ↔ KeepsOnThrow depth d pos formula := by
  obtain ⟨-, hsame⟩ := unregister_eq_ok h hrun
  have hforgets := (wp_unregisterFormulaCell h.wf depth addr).of_ok hrun
  have htracker : cxt'.tracker = cxt.tracker := by rw [hp.eq]
  have hcells := Forgets.cells_eq hforgets
  have hcells' : cxt'.cells = d.cxt.cells := by
    rw [hp.eq]
    exact hcells
  refine ⟨fun hunchanged a ha _ ↦ ?_, fun hkeeps ↦ ?_⟩
  · cases haddr.symm.trans ha
    have htracking : SameTracking d.cxt.tracker cxt'.tracker := hunchanged.tracking
    rw [htracker] at htracking
    exact ⟨hsame.mp htracking, fun _ ↦ ⟨x, hx⟩⟩
  · refine ⟨hcells', ?_, rfl, rfl⟩
    change SameTracking d.cxt.tracker cxt'.tracker
    rw [htracker]
    exact hsame.mpr (hkeeps addr haddr (inWorkbook_of_unregister hrun)).1

end Stages

/-- The stages of `setFormulaCell` in which it may throw. -/
theorem wp_setFormulaCell_throws {depth : Nat} {d : Document S T} (h : d.cxt.Tidy) (pos : CellPos)
    (formula : ParsedFormula) :
    wp (setFormulaCell depth pos formula) (fun _ _ ↦ True)
      (fun _ d' ↦ Unchanged d d' ↔ KeepsOnThrow depth d pos formula) d := by
  rw [setFormulaCell, wp_bind]
  cases haddr : pos.toAddress with
  | error e =>
    exact ⟨fun _ a ha ↦ absurd (haddr.symm.trans ha) (by rintro ⟨⟩), fun _ ↦ .refl d⟩
  | ok addr =>
    rw [liftExcept, wp_pure, wp_bind, wp_onContext]
    refine (wp_run _ _).mono (fun _ cxt₁ hrun ↦ ?_) fun e cxt₁ hrun ↦ ?_
    · -- the cell is unregistered
      obtain ⟨hun, -⟩ := unregister_eq_ok h hrun
      rw [wp_bind, wp_onContext]
      refine (wp_parseFormulaString formula cxt₁).mono ?_ ?_
      · rintro tokens cxt₂ ⟨hp, htokens⟩
        rw [wp_bind, wp_onContext]
        refine (ModelContext.wp_setFormulaCell (h.inWorkbook_of_parsed hrun hp) tokens).mono ?_ fun _ _ h ↦ h.elim
        rintro cell cxt₃ ⟨hcell, rfl⟩
        have hungrouped : cell.isGrouped = false := by
          rw [hcell]
          rfl
        have h₃ := h.store hrun hp hungrouped (.new ⟨0, 0⟩)
        have hnew := Function.update_self addr (Cell.formula cell) cxt₂.cells
        obtain ⟨refs, hrefs, _⟩ := h₃.noNames.getRefTokens depth cell addr
        rw [wp_bind, wp_onContext]
        refine ((wp_registerFormulaCell h₃.wf hrefs).and (wp_run _ _)).mono
          (fun _ _ _ ↦ trivial) ?_
        -- the new formula cell is stored and cannot be registered
        rintro e cxt₄ ⟨hextends, hfail⟩
        refine ⟨fun hunchanged ↦ ?_, fun hkeeps ↦ ?_⟩
        · have hold : d.cxt.cells addr = .formula cell := by
            rw [← hunchanged.cells]
            change cxt₄.cells addr = _
            rw [hextends.eq]
            exact hnew
          have hun₃ := hun.of_cells_eq h h₃ hold hnew
          obtain ⟨_, hok⟩ := registerFormulaCell_of_unregisters h₃ hnew hun₃
          exact absurd (hfail.symm.trans hok) (by rintro ⟨⟩)
        · obtain ⟨x, hx⟩ := (hkeeps addr haddr (inWorkbook_of_unregister hrun)).2 hun
          exact absurd (htokens.symm.trans hx) (by rintro ⟨⟩)
      · rintro e cxt₂ ⟨hp, x, hx, _⟩
        exact unchanged_of_parse_error h haddr formula hrun hp hx
    · exact unchanged_of_unregister_error h haddr formula hrun

/-- In every document, setting a formula that throws changes nothing exactly when there
was nothing to unregister and the call did not get as far as changing the cell. -/
theorem unchanged_iff {depth : Nat} {ev : Evaluator} {l : List (Document S T × Op)}
    {d d' : Document S T} (hd : Run depth ev l d) {pos : CellPos} {formula : ParsedFormula}
    {e : Exn} (hrun : setFormulaCell depth pos formula d = .error (.exception e) d') :
    Unchanged d d' ↔ KeepsOnThrow depth d pos formula :=
  (wp_setFormulaCell_throws hd.tidy pos formula).of_error hrun

/-! ### A formula that cannot be parsed -/

/-- The formula `B1`. -/
def parsedRef : ParsedFormula := ⟨[], .ok [.singleRef ⟨0, 0, 1, false, false, false⟩]⟩

/-- The text `#X`, which is no error value. -/
def parsedBad : ParsedFormula where
  strings := []
  tokens := .error (.generalError "failed to parse an error token in lexer tokenizer: '#'")

/-- A sheet is appended and the formula `B1` is set in `A1`. -/
def throwDoc : Document Ranges (ListTree Ranges) :=
  finalState (do appendSheet "Sheet1"; setFormulaCell 0 (.address ⟨0, 0, 0⟩) parsedRef) new

/-- Then `#X` is set in `A1`. -/
def throwDoc' : Document Ranges (ListTree Ranges) :=
  finalState (setFormulaCell 0 (.address ⟨0, 0, 0⟩) parsedBad) throwDoc

theorem run_throw : Run 0 noEvaluator
    [(new, .appendSheet "Sheet1"),
      (finalState (appendSheet "Sheet1") new, .setFormulaCell (.address ⟨0, 0, 0⟩) parsedRef)]
    throwDoc :=
  (Run.new.step (.returns rfl)).step (.returns rfl)

theorem setFormulaCell_throw : setFormulaCell 0 (.address ⟨0, 0, 0⟩) parsedBad throwDoc =
    .error (.exception
      (.generalError "failed to parse an error token in lexer tokenizer: '#'")) throwDoc' :=
  rfl

/-- A call that throws may leave a formula cell unregistered. -/
theorem not_unchanged_throw :
    ¬ ∀ (depth : Nat) (ev : Evaluator) (l : List (Document Ranges (ListTree Ranges) × Op))
      (d d' : Document Ranges (ListTree Ranges)) (pos : CellPos) (formula : ParsedFormula)
      (e : Exn), Run depth ev l d →
      setFormulaCell depth pos formula d = .error (.exception e) d' → Unchanged d d' := by
  intro h
  have hsame := (h _ _ _ _ _ _ _ _ run_throw setFormulaCell_throw).tracking
  have htracked : throwDoc.cxt.tracker.Tracked 0 ⟨0, 1, 0, 1⟩ (⟨0, 0, 0⟩ : AbsAddress).toRange :=
    ⟨_, rfl, _, List.mem_cons_self, List.mem_cons_self⟩
  obtain ⟨_, hgrid, _, hl, _⟩ := (hsame.tracked _ _ _).mpr htracked
  cases hgrid
  exact absurd hl List.not_mem_nil

theorem unchanged_iff_throw : Unchanged throwDoc throwDoc' ↔
    KeepsOnThrow 0 throwDoc (.address ⟨0, 0, 0⟩) parsedBad :=
  unchanged_iff run_throw setFormulaCell_throw

end Document

end Ixion
