import Ixion.Calc.Waiting

/-!
# What a calculation on one thread comes to

Once a list of cells has been interpreted on one thread, every cell of the list that has not
been found circular has the result that its formula comes to with the results of all the
others.  This holds where nothing that a formula refers to is read before it has a result,
and where no interpretation raises an exception (`exists_settled`).
-/

namespace Ixion

open Lib UnorderedSet DirtyCellTracker

namespace Workbook

/-- The value of a formula cell is its result. -/
theorem answer_cellValue_formula {wb : Workbook} {a : AbsAddress} {c : FormulaCell}
    (hc : wb.getFormulaCell a = .ok (some c))
    (result : FormulaCell → Except Failure FormulaResult) :
    wb.answer result (.cellValue a) =
      (result c).map (.formula c.groupRow c.groupColumn) := by
  obtain ⟨hin, hformula⟩ := getFormulaCell_eq_some_iff.mp hc
  rw [answer, getCell_of_inWorkbook hin, hformula]
  show (do return CellValue.formula c.groupRow c.groupColumn (← result c)) = _
  cases result c <;> rfl

/-- Nothing but the value of a formula cell depends on results. -/
theorem answer_eq_or (wb : Workbook) (q : Question) :
    (∀ f g, wb.answer f q = wb.answer g q) ∨
      ∃ a c, q = .cellValue a ∧ wb.getFormulaCell a = .ok (some c) := by
  cases q with
  | cellType a => exact .inl fun _ _ ↦ rfl
  | cellValue a =>
    cases hcell : wb.getCell a with
    | error e =>
      refine .inl fun f g ↦ ?_
      rw [answer, answer, hcell]
    | ok cell =>
      cases cell with
      | formula c =>
        refine .inr ⟨a, c, rfl, ?_⟩
        rw [getFormulaCell, hcell]
        rfl
      | _ =>
        refine .inl fun f g ↦ ?_
        rw [answer, answer, hcell]
        rfl

/-- Answers stay the same where the results that they take do. -/
theorem answer_mono {wb : Workbook} {f g : FormulaCell → Except Failure FormulaResult}
    {q : Question} {v : q.Answer}
    (h : ∀ c r, wb.getFormulaCell q.addr = .ok (some c) → f c = .ok r → g c = .ok r)
    (hv : wb.answer f q = .ok v) : wb.answer g q = .ok v := by
  rcases wb.answer_eq_or q with heq | ⟨a, c, rfl, hc⟩
  · rw [heq g f]
    exact hv
  · rw [answer_cellValue_formula hc] at hv ⊢
    cases hf : f c with
    | error e =>
      rw [hf] at hv
      exact absurd hv nofun
    | ok r =>
      rw [hf] at hv
      rw [h c r hc hf]
      exact hv

/-- An answer that could be had is missing because a result is. -/
theorem exists_of_answer_eq_error {wb : Workbook}
    {f g : FormulaCell → Except Failure FormulaResult} {q : Question} {v : q.Answer} {e : Failure}
    (hv : wb.answer f q = .ok v) (he : wb.answer g q = .error e) :
    ∃ a c, q = .cellValue a ∧ wb.getFormulaCell a = .ok (some c) ∧ g c = .error e := by
  rcases wb.answer_eq_or q with heq | ⟨a, c, rfl, hc⟩
  · rw [heq g f, hv] at he
    exact absurd he nofun
  · refine ⟨a, c, rfl, hc, ?_⟩
    rw [answer_cellValue_formula hc] at he
    cases hg : g c with
    | error e' =>
      rw [hg] at he
      cases he
      rfl
    | ok r =>
      rw [hg] at he
      exact absurd he nofun

end Workbook

namespace ModelContext

open Workbook

variable {S T : Type}

/-! ## Contexts that differ in results -/

/-- A context without its results. -/
def withoutResults (cxt : ModelContext S T) : ModelContext S T :=
  cxt.withStatuses fun k ↦ { cxt.statuses k with result := none }

theorem withoutResults_withResult (cxt : ModelContext S T) (x : Visit) (r : FormulaResult) :
    (cxt.withResult x r).withoutResults = cxt.withoutResults := by
  refine congrArg cxt.withStatuses (funext fun k ↦ ?_)
  show ({ Function.update cxt.statuses x.key _ k with result := none } : CalcStatus) = _
  by_cases hk : k = x.key
  · rw [hk, Function.update_self]
    rfl
  · rw [Function.update_of_ne hk]

theorem toWorkbook_of_withoutResults {cxt cxt' : ModelContext S T}
    (h : cxt.withoutResults = cxt'.withoutResults) : cxt.toWorkbook = cxt'.toWorkbook := by
  rw [← withStatuses_toWorkbook cxt, ← withStatuses_toWorkbook cxt']
  exact congrArg ModelContext.toWorkbook h

/-- Contexts that differ in results only, and have the same ones, are equal. -/
theorem eq_of_withoutResults {cxt cxt' : ModelContext S T}
    (h : cxt.withoutResults = cxt'.withoutResults)
    (hresult : ∀ k, (cxt.statuses k).result = (cxt'.statuses k).result) : cxt = cxt' := by
  have hstatuses : cxt.statuses = cxt'.statuses := by
    funext k
    have hk := congrFun (congrArg ModelContext.statuses h) k
    have hr := hresult k
    simp only [withoutResults, withStatuses_statuses] at hk
    cases hs : cxt.statuses k
    cases hs' : cxt'.statuses k
    rw [hs, hs'] at hk hr
    cases hr
    cases hk
    rfl
  calc cxt
    _ = cxt.withoutResults.withStatuses cxt.statuses := rfl
    _ = cxt'.withoutResults.withStatuses cxt'.statuses := by rw [h, hstatuses]
    _ = cxt' := rfl

/-- What an evaluation comes to stays the same when more cells have results. -/
theorem evaluate_mono {ev : Evaluator} {x : Visit} {cxt cxt' : ModelContext S T}
    {r : FormulaResult} (hwb : cxt'.toWorkbook = cxt.toWorkbook)
    (hresult : ∀ k r, (cxt.statuses k).result = some r → (cxt'.statuses k).result = some r)
    (h : cxt.evaluate ev x = .ok r) : cxt'.evaluate ev x = .ok r := by
  rw [evaluate] at h ⊢
  rw [hwb]
  refine Query.run_mono (Query.asks_of_forall (P := fun _ ↦ True) (fun _ ↦ trivial) _)
    (fun q v _ ↦ answer_mono fun c r _ hc ↦ ?_) h
  rw [fetchResult] at hc ⊢
  split at hc
  case isTrue => exact absurd hc (by rintro ⟨⟩)
  case isFalse hne =>
    rw [if_neg hne]
    cases hs : (cxt.statusOf c).result with
    | none =>
      rw [hs] at hc
      exact absurd hc (by rintro ⟨⟩)
    | some r' =>
      rw [hs] at hc
      cases hc
      rw [show (cxt'.statusOf c).result = some r from hresult _ _ hs]

/-! ## Where nothing is read too early -/

/-- The evaluation of a visited cell comes to a result, whatever the results are of the cells
that have none. -/
def Evaluates (ev : Evaluator) (x : Visit) (cxt : ModelContext S T) : Prop :=
  ∀ results : FormulaCell → FormulaResult,
    (∀ c r, (cxt.statusOf c).result = some r → results c = r) →
      ∃ r, (ev cxt.toWorkbook x.cell x.pos).run (cxt.answer fun c ↦ .ok (results c)) = .ok r

/-- No interpretation raises an exception when a list of cells is calculated: where the
calculation gets to a cell that has no result, the evaluation comes to one. -/
def RaisesNothing (ev : Evaluator) (v : List AbsRange) (cxt : ModelContext S T) : Prop :=
  ∀ entries cxt₀, prepare v cxt = .ok entries cxt₀ → ∀ l₁ x cxt₁, SplitAt (cxt.visits v) l₁ x →
    (l₁.forM fun y ↦ interpret ev y.cell y.pos) cxt₀ = .ok ⟨⟩ cxt₁ →
      (cxt₁.statuses x.key).result = none → Evaluates ev x cxt₁

/-- Where a result is computed, all formula cells that the formula depends on have theirs
after the check, or come before. -/
def PrecedentsBefore (v : List AbsRange) (cxt cxt₀ : ModelContext S T) : Prop :=
  ∀ l₁ x, Computed (cxt.visits v) cxt₀ l₁ x → ∀ b k, cxt.DependsOn x.pos b →
    cxt.HasStatus b k → Ready cxt₀ l₁ k

/-- What a cell that is calculated depends on is found circular or listed before the cell
unless the check has looked at it, or it is not listed and has a result. -/
def PrecedentsListed (v : List AbsRange) (cxt : ModelContext S T) : Prop :=
  ∀ l₁ x, SplitAt (cxt.visits v) l₁ x → (∀ y ∈ l₁, y.key ≠ x.key) → ¬ FoundCircular v cxt x.key →
    ∀ b k, cxt.DependsOn x.pos b → cxt.HasStatus b k →
      ((∃ y ∈ cxt.visits v, y.key = k) → k ∉ x.seen cxt.toWorkbook →
        FoundCircular v cxt k ∨ ∃ y ∈ l₁, y.key = k) ∧
      ((∀ y ∈ cxt.visits v, y.key ≠ k) → (cxt.statuses k).result.isSome = true)

theorem Prepared.precedentsBefore_iff {v : List AbsRange} {cxt cxt₀ : ModelContext S T}
    (h : Prepared v cxt cxt₀) : PrecedentsBefore v cxt cxt₀ ↔ PrecedentsListed v cxt := by
  constructor
  · intro hbefore l₁ x hx hfirst hn b k hdep hb
    have hready := hbefore l₁ x ⟨hx, (h.eq_none_iff hx.mem).mpr hn, hfirst⟩ b k hdep hb
    constructor
    · rintro ⟨y, hy, hkey⟩ _
      refine hready.imp_left fun hsome ↦ ?_
      rw [← hkey] at hsome ⊢
      exact (h.isSome_iff hy).mp hsome
    · intro hnot
      rcases hready with hsome | ⟨y, hy, hkey⟩
      · rwa [h.unlisted k hnot] at hsome
      · exact absurd hkey (hnot y (hx.subset hy))
  · rintro hlisted l₁ x ⟨hx, hnone, hfirst⟩ b k hdep hb
    have hn := (h.eq_none_iff hx.mem).mp hnone
    obtain ⟨hunseen, hunlisted⟩ := hlisted l₁ x hx hfirst hn b k hdep hb
    by_cases hk : ∃ y ∈ cxt.visits v, y.key = k
    · by_cases hseen : k ∈ x.seen cxt.toWorkbook
      · exact .inr (exists_before_of_seen hx hn hseen hk)
      · refine (hunseen hk hseen).imp_left fun hfound ↦ ?_
        obtain ⟨y, hy, hkey⟩ := hk
        rw [← hkey] at hfound ⊢
        exact (h.isSome_iff hy).mpr hfound
    · have hnot : ∀ y ∈ cxt.visits v, y.key ≠ k := fun y hy hkey ↦ hk ⟨y, hy, hkey⟩
      refine .inl ?_
      rw [h.unlisted k hnot]
      exact hunlisted hnot

/-! ## The results that a calculation comes to -/

/-- What interpreting a list of visits comes to when no interpretation fails: each result that
has been computed is what the formula comes to with the results of all cells. -/
structure Settled (ev : Evaluator) (l : List Visit) (cxt₀ cxt : ModelContext S T) : Prop
    extends Progress cxt₀ l cxt where
  withoutResults : cxt₀.withoutResults = cxt.withoutResults
  evaluate : ∀ x ∈ l, (cxt₀.statuses x.key).result = none →
    ∃ r, (cxt.statuses x.key).result = some r ∧ cxt.evaluate ev x = .ok r

theorem Settled.refl (ev : Evaluator) (cxt : ModelContext S T) : Settled ev [] cxt cxt where
  toProgress := .refl cxt
  withoutResults := rfl
  evaluate _ hx := absurd hx List.not_mem_nil

/-- One more visit. -/
theorem Settled.step {ev : Evaluator} {l : List Visit} {x : Visit}
    {cxt₀ cxt cxt' : ModelContext S T}
    (h : Settled ev l cxt₀ cxt) (hapart : ∀ y ∈ l, y.key = x.key → y = x)
    (hx : Interpreted ev x cxt cxt') : Settled ev (l ++ [x]) cxt₀ cxt' := by
  have hprogress := h.toProgress.step hx
  cases hx with
  | cached hsome =>
    refine ⟨hprogress, h.withoutResults, fun y hy hnone ↦ ?_⟩
    rcases List.mem_append.mp hy with hy | hy
    · exact h.evaluate y hy hnone
    · obtain rfl := List.mem_singleton.mp hy
      -- the result has been computed at an earlier visit
      obtain ⟨z, hz, hkey⟩ : ∃ z ∈ l, z.key = y.key := by
        by_contra hnot
        rw [h.unchanged y.key (.inr fun z hz hkey ↦ hnot ⟨z, hz, hkey⟩), hnone] at hsome
        exact absurd hsome nofun
      obtain rfl := hapart z hz hkey
      exact h.evaluate z hz hnone
  | @evaluated r hnone heval =>
    have hkept : ∀ k r', (cxt.statuses k).result = some r' →
        ((cxt.withResult x r).statuses k).result = some r' := by
      intro k r' hk
      have hne : k ≠ x.key := by
        rintro rfl
        exact absurd (hnone.symm.trans hk) nofun
      rw [result_withResult, if_neg hne]
      exact hk
    refine ⟨hprogress, h.withoutResults.trans (withoutResults_withResult cxt x r).symm,
      fun y hy hy₀ ↦ ?_⟩
    rcases List.mem_append.mp hy with hy | hy
    · obtain ⟨r', hr', heval'⟩ := h.evaluate y hy hy₀
      exact ⟨r', hkept _ _ hr', evaluate_mono (withResult_toWorkbook cxt _ r) hkept heval'⟩
    · obtain rfl := List.mem_singleton.mp hy
      refine ⟨r, ?_, evaluate_mono (withResult_toWorkbook cxt _ r) hkept heval⟩
      rw [result_withResult, if_pos rfl]

/-- An evaluation that finds all results comes to one. -/
theorem Evaluates.exists_evaluate {ev : Evaluator} {x : Visit} {cxt : ModelContext S T}
    (h : Evaluates ev x cxt) (hev : ev.ReadsReferences cxt.toWorkbook)
    (hready : ∀ a c, cxt.References x.cell x.pos a → cxt.getFormulaCell a = .ok (some c) →
      c.status ≠ x.key ∧ (cxt.statuses c.status).result.isSome = true) :
    ∃ r, cxt.evaluate ev x = .ok r := by
  obtain ⟨r, hr⟩ := h (fun c ↦ ((cxt.statusOf c).result).getD .new) fun c r hc ↦ by rw [hc]; rfl
  refine ⟨r, Query.run_mono (hev.reads x.cell x.pos) (fun q v href ↦ ?_) hr⟩
  refine answer_mono fun c r' hc hr' ↦ ?_
  obtain ⟨hne, hsome⟩ := hready q.addr c href hc
  obtain ⟨r'', hr''⟩ := Option.isSome_iff_exists.mp hsome
  rw [fetchResult, if_neg hne]
  rw [show (cxt.statusOf c).result = some r'' from hr''] at hr' ⊢
  exact hr'

/-- A calculation on one thread returns where nothing is read too early and no interpretation
raises an exception. -/
theorem exists_settled {v : List AbsRange} {cxt cxt₀ : ModelContext S T}
    {entries : List QueueEntry} (hready : PrecedentsBefore v cxt cxt₀) (hwf : cxt.GroupsWF)
    (hheads : ∀ x ∈ cxt.visits v, cxt.Head x.pos x.cell)
    (hrun : prepare v cxt = .ok entries cxt₀) {ev : Evaluator}
    (hev : ev.ReadsReferences cxt.toWorkbook) (hraise : RaisesNothing ev v cxt) :
    ∃ cxt₁, interpretEntries ev entries cxt₀ = .ok ⟨⟩ cxt₁ ∧
      Settled ev (cxt.visits v) cxt₀ cxt₁ := by
  obtain ⟨rfl, hprepared⟩ := (wp_prepare v cxt).of_ok hrun
  have hwb : cxt₀.toWorkbook = cxt.toWorkbook := by
    rw [hprepared.eq]
    rfl
  rw [interpretEntries_map]
  have hall : ∀ l₁, l₁ <+: cxt.visits v →
      ∃ cxt₁, (l₁.forM fun x ↦ interpret ev x.cell x.pos) cxt₀ = .ok ⟨⟩ cxt₁ ∧
        Settled ev l₁ cxt₀ cxt₁ := by
    intro l₁
    induction l₁ using List.reverseRecOn with
    | nil => exact fun _ ↦ ⟨cxt₀, rfl, .refl ev cxt₀⟩
    | append_singleton l₁ x ih =>
      rintro ⟨l₂, hl⟩
      have hsplit : SplitAt (cxt.visits v) l₁ x := ⟨l₂, by rw [← hl]; simp⟩
      obtain ⟨cxt₁, hl₁, hsettled⟩ := ih ⟨x :: l₂, by rw [← hl]; simp⟩
      have hwb' : cxt₁.toWorkbook = cxt.toWorkbook := hsettled.toWorkbook.trans hwb
      have hhead := hheads x hsplit.mem
      have hapart : ∀ y ∈ l₁, y.key = x.key → y = x := fun y hy hkey ↦
        hwf.visit_eq (hheads y (hsplit.subset hy)) hhead hkey
      have hwp := wp_interpret ev x cxt₁
      cases hx : interpret ev x.cell x.pos cxt₁ with
      | ok u cxt₂ =>
        refine ⟨cxt₂, ?_, hsettled.step hapart (hwp.of_ok hx).2⟩
        rw [forM_append, bind_apply, hl₁]
        show (interpret ev x.cell x.pos >>= fun _ ↦ pure PUnit.unit) cxt₁ = _
        rw [bind_apply, hx]
        rfl
      | error e cxt₂ =>
        obtain ⟨hcomputed, heval⟩ := computed_of_interpretFails (calcAllowed_of_head hhead) hsplit
          hsettled.toProgress (hwp.of_error hx)
        have hnone : (cxt₁.statuses x.key).result = none := by
          rw [hsettled.unchanged x.key (.inr hcomputed.first)]
          exact hcomputed.unmarked
        have hevaluates := hraise _ _ hrun l₁ x cxt₁ hsplit hl₁ hnone
        obtain ⟨r, hr⟩ := hevaluates.exists_evaluate (hwb' ▸ hev) fun a c href hc ↦ by
          rw [hwb'] at hc href
          have hstatus : cxt.HasStatus a c.status := ⟨c, hc, rfl⟩
          have hc₀ := hready l₁ x hcomputed a c.status
            (dependsOn_of_references hhead href hstatus) hstatus
          refine ⟨?_, hsettled.ready _ hc₀⟩
          rintro heq
          have hsome := hsettled.ready _ hc₀
          rw [heq, hnone] at hsome
          exact absurd hsome nofun
        exact absurd (hr.symm.trans heval) nofun
  exact hall _ (List.prefix_refl _)

end ModelContext

end Ixion
