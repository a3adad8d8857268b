import Ixion.Calc.Circular
import Ixion.Interp.Reads

/-!
# Waiting for results

On one thread the cells of a list are interpreted one after the other, and a cell that is
read must have its result by then, for nobody else will produce it.  The check for circular
references makes sure of this only for what it looks at: references that the tokens of a
formula contain themselves, with their corners in order.  The interpretation of a cell also
reads what named expressions and tables refer to, and ranges with corners in any order.

No interpretation waits exactly when every listed formula cell that a formula refers to in
one of these ways comes before it in the list or is found circular (`neverWaits_iff`).
-/

namespace Ixion

open Lib UnorderedSet DirtyCellTracker

namespace ModelContext

open Workbook

variable {S T : Type}

/-- What heads refer to they depend on. -/
theorem dependsOn_of_references {wb : Workbook} {pos a : AbsAddress} {cell : FormulaCell}
    (hhead : wb.Head pos cell) (href : wb.References cell pos a) {k : Nat}
    (ha : wb.HasStatus a k) : wb.DependsOn pos a := by
  obtain ⟨t, ht, hrefers⟩ := href
  exact ⟨cell, hhead.formula, ⟨k, ha⟩, t, ht, hhead.origin.symm ▸ hrefers⟩

/-- Formula cells depend on what they refer to. -/
theorem references_of_dependsOn {wb : Workbook} {pos a : AbsAddress} {cell : FormulaCell}
    (hhead : wb.Head pos cell) (h : wb.DependsOn pos a) : wb.References cell pos a := by
  obtain ⟨cell', hcell, -, t, ht, hrefers⟩ := h
  cases hhead.formula.symm.trans hcell
  rw [hhead.origin] at hrefers
  exact ⟨t, ht, hrefers⟩

/-! ## What has a result -/

/-- There is a result after the check, or once a part of the list has been interpreted. -/
def Ready (cxt : ModelContext S T) (l : List Visit) (k : Nat) : Prop :=
  (cxt.statuses k).result.isSome = true ∨ ∃ y ∈ l, y.key = k

/-- A visit at which a result is computed: the first one to a status that has not been
marked. -/
structure Computed (l : List Visit) (cxt : ModelContext S T) (l₁ : List Visit) (x : Visit) :
    Prop where
  split : SplitAt l l₁ x
  unmarked : (cxt.statuses x.key).result = none
  first : ∀ y ∈ l₁, y.key ≠ x.key

/-- What interpreting a part of a list of visits comes to. -/
structure Progress (cxt₀ : ModelContext S T) (l : List Visit) (cxt : ModelContext S T) :
    Prop where
  onlyStatuses : OnlyStatuses cxt₀ cxt
  ready : ∀ k, Ready cxt₀ l k → (cxt.statuses k).result.isSome = true
  unchanged : ∀ k, (cxt₀.statuses k).result.isSome = true ∨ (∀ y ∈ l, y.key ≠ k) →
    (cxt.statuses k).result = (cxt₀.statuses k).result

theorem Progress.refl (cxt : ModelContext S T) : Progress cxt [] cxt where
  onlyStatuses := rfl
  ready _ h := h.elim id fun ⟨_, hy, _⟩ ↦ absurd hy List.not_mem_nil
  unchanged _ _ := rfl

theorem Progress.toWorkbook {cxt₀ cxt : ModelContext S T} {l : List Visit}
    (h : Progress cxt₀ l cxt) : cxt.toWorkbook = cxt₀.toWorkbook := by
  rw [h.onlyStatuses]
  rfl

/-- The result of a visited cell is the one that was set. -/
theorem result_withResult (cxt : ModelContext S T) (x : Visit) (r : FormulaResult) (k : Nat) :
    ((cxt.withResult x r).statuses k).result =
      if k = x.key then some r else (cxt.statuses k).result := by
  show (Function.update cxt.statuses x.key _ k).result = _
  by_cases hk : k = x.key
  · rw [hk, Function.update_self, if_pos rfl]
  · rw [Function.update_of_ne hk, if_neg hk]

/-- One more visit. -/
theorem Progress.step {ev : Evaluator} {cxt₀ cxt cxt' : ModelContext S T} {l : List Visit}
    {x : Visit} (h : Progress cxt₀ l cxt) (hx : Interpreted ev x cxt cxt') :
    Progress cxt₀ (l ++ [x]) cxt' := by
  have hready : ∀ k, Ready cxt₀ (l ++ [x]) k → Ready cxt₀ l k ∨ k = x.key := by
    rintro k (hk | ⟨y, hy, rfl⟩)
    · exact .inl (.inl hk)
    · rcases List.mem_append.mp hy with hy | hy
      · exact .inl (.inr ⟨y, hy, rfl⟩)
      · exact .inr (congrArg Visit.key (List.mem_singleton.mp hy))
  have hother : ∀ k, (∀ y ∈ l ++ [x], y.key ≠ k) → (∀ y ∈ l, y.key ≠ k) ∧ k ≠ x.key := by
    intro k hk
    exact ⟨fun y hy ↦ hk y (List.mem_append_left _ hy),
      (hk x (List.mem_append_right _ List.mem_cons_self)).symm⟩
  cases hx with
  | cached hsome =>
    refine ⟨h.onlyStatuses, fun k hk ↦ ?_, fun k hk ↦ ?_⟩
    · rcases hready k hk with hk | rfl
      · exact h.ready k hk
      · exact hsome
    · exact h.unchanged k (hk.imp_right fun hk ↦ (hother k hk).1)
  | @evaluated r hnone _ =>
    refine ⟨IsTrans.trans _ _ _ h.onlyStatuses rfl, fun k hk ↦ ?_, fun k hk ↦ ?_⟩
    · rw [result_withResult]
      split
      · rfl
      case isFalse hne => exact h.ready k ((hready k hk).resolve_right hne)
    · have hne : k ≠ x.key := by
        rcases hk with hk | hk
        · rintro rfl
          rw [← h.unchanged x.key (.inl hk), hnone] at hk
          exact absurd hk nofun
        · exact (hother k hk).2
      rw [result_withResult, if_neg hne]
      exact h.unchanged k (hk.imp_right fun hk ↦ (hother k hk).1)

/-! ## Interpreting a list of visits -/

theorem interpretEntries_map (ev : Evaluator) (l : List Visit) :
    (interpretEntries ev (l.map Visit.toEntry) : Exec (ModelContext S T) Unit) =
      l.forM fun x ↦ interpret ev x.cell x.pos := by
  induction l with
  | nil => rfl
  | cons x l ih => exact congrArg (interpret ev x.cell x.pos >>= ·) (funext fun _ ↦ ih)

/-- The rule for a list of visits: each visit that is reached either makes progress or fails
in a way that is accounted for. -/
theorem wp_interpretVisits (ev : Evaluator) (cxt₀ : ModelContext S T) (l : List Visit)
    {E : Failure → ModelContext S T → Prop}
    (hfails : ∀ l₁ x cxt, SplitAt l l₁ x → Progress cxt₀ l₁ cxt → ∀ e cxt',
      InterpretFails ev x cxt e cxt' → E e cxt') :
    wp (l.forM fun x ↦ interpret ev x.cell x.pos) (fun _ cxt ↦ Progress cxt₀ l cxt) E cxt₀ := by
  have hrun := wp_forM (l := l) (s := cxt₀) (E := E)
    (f := fun x ↦ (interpret ev x.cell x.pos : Exec (ModelContext S T) Unit))
    (I := fun rest cxt ↦ ∃ l₁, l = l₁ ++ rest ∧ Progress cxt₀ l₁ cxt)
    (fun x rest cxt ⟨l₁, hl, hprogress⟩ ↦ (wp_interpret ev x cxt).mono
      (fun _ cxt' hx ↦ ⟨l₁ ++ [x], by rw [hl]; simp, hprogress.step hx.2⟩)
      (fun e cxt' he ↦ hfails l₁ x cxt ⟨rest, hl⟩ hprogress e cxt' he))
    ⟨[], rfl, .refl cxt₀⟩
  refine hrun.mono (fun _ cxt ⟨l₁, hl, hprogress⟩ ↦ ?_) (fun _ _ he ↦ he)
  rw [List.append_nil] at hl
  rwa [hl]

/-! ## When nothing waits -/

/-- An answer is waited for exactly when it is the result of another formula cell, and
missing. -/
theorem answer_eq_wait {cxt : ModelContext S T} {status : Nat} {i : Question}
    (h : cxt.answer (cxt.fetchResult status) i = .error .wait) :
    ∃ c, cxt.getFormulaCell i.addr = .ok (some c) ∧ c.status ≠ status ∧
      (cxt.statuses c.status).result = none := by
  cases i with
  | cellType a =>
    rw [answer] at h
    cases hcell : cxt.getCell a <;> rw [hcell] at h <;> exact absurd h (by rintro ⟨⟩)
  | cellValue a =>
    rw [answer] at h
    cases hcell : cxt.getCell a with
    | error e =>
      rw [hcell] at h
      exact absurd h (by rintro ⟨⟩)
    | ok cell =>
      rw [hcell] at h
      cases cell with
      | formula c =>
        refine ⟨c, by rw [Question.addr, getFormulaCell, hcell]; rfl, ?_⟩
        by_cases hstatus : c.status = status
        · simp only [valueOf, fetchResult, if_pos hstatus] at h
          exact absurd h (by rintro ⟨⟩)
        · refine ⟨hstatus, ?_⟩
          simp only [valueOf, fetchResult, if_neg hstatus, statusOf] at h
          cases hresult : (cxt.statuses c.status).result with
          | none => rfl
          | some r =>
            rw [hresult] at h
            exact absurd h (by rintro ⟨⟩)
      | _ => exact absurd h (by rintro ⟨⟩)

/-- The result of a formula cell is waited for if it is missing, and a cell cannot read its
own. -/
theorem answer_cellValue_eq_error {cxt : ModelContext S T} {status : Nat} {a : AbsAddress}
    {c : FormulaCell} (hcell : cxt.getFormulaCell a = .ok (some c))
    (hresult : (cxt.statuses c.status).result = none) :
    cxt.answer (cxt.fetchResult status) (.cellValue a) =
      .error (if c.status = status then .deadlock else .wait) := by
  obtain ⟨hin, hformula⟩ := getFormulaCell_eq_some_iff.mp hcell
  rw [answer, getCell_of_inWorkbook hin, hformula]
  simp only [valueOf, fetchResult, statusOf, hresult]
  split <;> rfl

/-- A calculation of a list of cells does not end in waiting for a result. -/
def NeverWaits (ev : Evaluator) (v : List AbsRange) (cxt : ModelContext S T) : Prop :=
  ∀ cxt', calculateSortedCells ev v cxt ≠ .error .wait cxt'

/-- Where a result is computed, the other formula cells that the formula depends on have
theirs after the check, or come before. -/
def PrecedentsReady (v : List AbsRange) (cxt cxt₀ : ModelContext S T) : Prop :=
  ∀ l₁ x, Computed (cxt.visits v) cxt₀ l₁ x → ∀ b k, cxt.DependsOn x.pos b →
    cxt.HasStatus b k → k ≠ x.key → Ready cxt₀ l₁ k

/-- The check finds a status circular: some visit to it sees a status that has not been found
safe by then. -/
def FoundCircular (v : List AbsRange) (cxt : ModelContext S T) (k : Nat) : Prop :=
  k ∈ (sweep Visit.key (Visit.seen cxt.toWorkbook) (resetState (cxt.visits v) cxt.sweepState)
    (cxt.visits v)).marked

/-- What a cell that is calculated depends on, and the check has not looked at, is found
circular, or listed before the cell, or not listed. -/
def UnseenReady (v : List AbsRange) (cxt : ModelContext S T) : Prop :=
  ∀ l₁ x, SplitAt (cxt.visits v) l₁ x → (∀ y ∈ l₁, y.key ≠ x.key) → ¬ FoundCircular v cxt x.key →
    ∀ b k, cxt.DependsOn x.pos b → cxt.HasStatus b k → k ∉ x.seen cxt.toWorkbook → k ≠ x.key →
      (∃ y ∈ cxt.visits v, y.key = k) → FoundCircular v cxt k ∨ ∃ y ∈ l₁, y.key = k

/-- Listed cells that have a result after the check are those that were found circular. -/
theorem Prepared.isSome_iff {v : List AbsRange} {cxt cxt₀ : ModelContext S T}
    (h : Prepared v cxt cxt₀) {x : Visit} (hx : x ∈ cxt.visits v) :
    (cxt₀.statuses x.key).result.isSome = true ↔ FoundCircular v cxt x.key := by
  rw [FoundCircular, ← h.sweep]
  show _ ↔ (cxt₀.statuses x.key).result = some (.error .refResultNotAvailable)
  rcases h.listed x hx with hnone | hsome
  · simp [hnone]
  · simp [hsome]

/-- A listed cell is left without a result when it is not found circular. -/
theorem Prepared.eq_none_iff {v : List AbsRange} {cxt cxt₀ : ModelContext S T}
    (h : Prepared v cxt cxt₀) {x : Visit} (hx : x ∈ cxt.visits v) :
    (cxt₀.statuses x.key).result = none ↔ ¬ FoundCircular v cxt x.key := by
  rw [← Option.not_isSome_iff_eq_none, h.isSome_iff hx]

/-- What the check has found safe by then, and the list contains, has been visited. -/
theorem exists_before_of_seen {v : List AbsRange} {cxt : ModelContext S T} {l₁ : List Visit}
    {x : Visit} (hx : SplitAt (cxt.visits v) l₁ x) (hn : ¬ FoundCircular v cxt x.key) {k : Nat}
    (hseen : k ∈ x.seen cxt.toWorkbook) (hlisted : ∃ y ∈ cxt.visits v, y.key = k) :
    ∃ y ∈ l₁, y.key = k := by
  have hsafe : k ∈ (Lib.sweep Visit.key (Visit.seen cxt.toWorkbook)
      (resetState (cxt.visits v) cxt.sweepState) l₁).safe := by
    by_contra hns
    exact hn (mem_marked_sweep.mpr (.inr ⟨l₁, x, hx, rfl, fun hsub ↦ hns (hsub hseen)⟩))
  have hreset : ∀ y ∈ cxt.visits v,
      y.key ∉ (resetState (cxt.visits v) cxt.sweepState).safe := fun y hy hs ↦ hs.2 y hy rfl
  rcases exists_or_of_mem_safe hreset hsafe with hbefore | ⟨hnot, _⟩
  · exact hbefore
  · obtain ⟨y, hy, hkey⟩ := hlisted
    exact absurd hkey (hnot y hy)

/-- What is not listed keeps its result. -/
theorem Prepared.precedentsReady_iff {v : List AbsRange} {cxt cxt₀ : ModelContext S T}
    (h : Prepared v cxt cxt₀)
    (hunlisted : ∀ b k, cxt.HasStatus b k → (∀ y ∈ cxt.visits v, y.key ≠ k) →
      (cxt.statuses k).result.isSome = true) :
    PrecedentsReady v cxt cxt₀ ↔ UnseenReady v cxt := by
  constructor
  · intro hready l₁ x hx hfirst hn b k hdep hb _ hk ⟨y, hy, hkey⟩
    have hcomputed : Computed (cxt.visits v) cxt₀ l₁ x :=
      ⟨hx, (h.eq_none_iff hx.mem).mpr hn, hfirst⟩
    refine (hready l₁ x hcomputed b k hdep hb hk).imp_left fun hsome ↦ ?_
    rw [← hkey] at hsome ⊢
    exact (h.isSome_iff hy).mp hsome
  · rintro hready l₁ x ⟨hx, hnone, hfirst⟩ b k hdep hb hk
    have hn := (h.eq_none_iff hx.mem).mp hnone
    by_cases hlisted : ∃ y ∈ cxt.visits v, y.key = k
    · by_cases hseen : k ∈ x.seen cxt.toWorkbook
      · exact .inr (exists_before_of_seen hx hn hseen hlisted)
      · refine (hready l₁ x hx hfirst hn b k hdep hb hseen hk hlisted).imp_left fun hfound ↦ ?_
        obtain ⟨y, hy, hkey⟩ := hlisted
        rw [← hkey] at hfound ⊢
        exact (h.isSome_iff hy).mpr hfound
    · have hnot : ∀ y ∈ cxt.visits v, y.key ≠ k := fun y hy hkey ↦ hlisted ⟨y, hy, hkey⟩
      refine .inl ?_
      rw [h.unlisted k hnot]
      exact hunlisted b k hb hnot

/-- A visit that fails has not found a result. -/
theorem computed_of_interpretFails {ev : Evaluator} {x : Visit} {cxt₀ cxt cxt' : ModelContext S T}
    {l l₁ : List Visit} {e : Failure} (hallowed : x.cell.calcAllowed = true)
    (hsplit : SplitAt l l₁ x) (h : Progress cxt₀ l₁ cxt) (hx : InterpretFails ev x cxt e cxt') :
    Computed l cxt₀ l₁ x ∧ cxt.evaluate ev x = .error e := by
  cases hx with
  | notAllowed hno => exact absurd (hallowed.symm.trans hno) nofun
  | evaluation _ hnone heval =>
    have hready : ¬ Ready cxt₀ l₁ x.key := by
      intro hready
      have hsome := h.ready _ hready
      rw [hnone] at hsome
      exact absurd hsome nofun
    refine ⟨⟨hsplit, ?_, fun y hy hkey ↦ hready (.inr ⟨y, hy, hkey⟩)⟩, heval⟩
    rw [← Option.not_isSome_iff_eq_none]
    exact fun hsome ↦ hready (.inl hsome)

/-- Heads may be interpreted. -/
theorem calcAllowed_of_head {wb : Workbook} {pos : AbsAddress} {cell : FormulaCell}
    (h : wb.Head pos cell) : cell.calcAllowed = true := by
  have horigin := h.origin
  rw [FormulaCell.calcAllowed]
  cases hgroup : cell.isGrouped with
  | false => rfl
  | true =>
    obtain ⟨sheet, row, column⟩ := pos
    simp only [FormulaCell.origin, hgroup, if_true, AbsAddress.mk.injEq] at horigin
    simp only [Bool.not_true, Bool.false_eq_true, if_false, FormulaCell.isGroupParent,
      decide_eq_true_eq]
    omega

/-- Where precedents are ready, nothing waits. -/
theorem PrecedentsReady.neverWaits {v : List AbsRange} {cxt cxt₀ : ModelContext S T}
    {entries : List QueueEntry} (hready : PrecedentsReady v cxt cxt₀)
    (hheads : ∀ x ∈ cxt.visits v, cxt.Head x.pos x.cell)
    (hrun : prepare v cxt = .ok entries cxt₀) {ev : Evaluator}
    (hev : ev.ReadsReferences cxt.toWorkbook) : NeverWaits ev v cxt := by
  obtain ⟨rfl, hprepared⟩ := (wp_prepare v cxt).of_ok hrun
  have hwb : cxt₀.toWorkbook = cxt.toWorkbook := by
    rw [hprepared.eq]
    rfl
  intro cxt' hcalc
  rw [calculateSortedCells, bind_apply, hrun] at hcalc
  have hvisits := wp_interpretVisits ev cxt₀ (cxt.visits v)
    (E := fun e _ ↦ e ≠ .wait) ?_
  · rw [← interpretEntries_map] at hvisits
    exact hvisits.of_error hcalc rfl
  · rintro l₁ x cxt₁ hsplit hprogress e cxt₂ hfails rfl
    have hwb' : cxt₁.toWorkbook = cxt.toWorkbook := hprogress.toWorkbook.trans hwb
    rw [← hwb'] at hev
    have hhead := hheads x hsplit.mem
    obtain ⟨hcomputed, heval⟩ :=
      computed_of_interpretFails (calcAllowed_of_head hhead) hsplit hprogress hfails
    rcases Query.run_eq_error (hev.reads x.cell x.pos) (hev.throws x.cell x.pos) heval with
      hne | ⟨i, href, hans⟩
    · exact hne rfl
    · obtain ⟨c, hc, hstatus, hnone⟩ := answer_eq_wait hans
      rw [hwb'] at hc href
      have hb : cxt.HasStatus i.addr c.status := ⟨c, hc, rfl⟩
      have hsome := hprogress.ready _ (hready l₁ x hcomputed i.addr c.status
        (dependsOn_of_references hhead href hb) hb hstatus)
      rw [hnone] at hsome
      exact absurd hsome nofun

/-- An evaluator that reads one cell for one formula, and nothing else. -/
def readingOne (x : Visit) (b : AbsAddress) : Evaluator := fun _ cell pos ↦
  if cell = x.cell ∧ pos = x.pos then do
    let _ ← Query.query (Question.cellValue b)
    return .new
  else return .new

theorem readingOne_readsReferences {wb : Workbook} {x : Visit} {b : AbsAddress}
    (href : wb.References x.cell x.pos b) : (readingOne x b).ReadsReferences wb where
  reads cell pos := by
    rw [readingOne]
    split
    case isTrue h =>
      obtain ⟨rfl, rfl⟩ := h
      exact ⟨href, fun _ ↦ trivial⟩
    case isFalse => trivial
  throws cell pos := by
    rw [readingOne]
    split
    · exact fun _ ↦ trivial
    · trivial

/-- Visits to other statuses are interpreted without reading. -/
theorem exists_progress_readingOne (cxt₀ : ModelContext S T) {l : List Visit} {x : Visit}
    (b : AbsAddress) (hallowed : ∀ y ∈ l, y.cell.calcAllowed = true)
    (hfirst : ∀ y ∈ l, y.key ≠ x.key) :
    ∃ cxt, (l.forM fun y ↦ interpret (readingOne x b) y.cell y.pos) cxt₀ = .ok ⟨⟩ cxt ∧
      Progress cxt₀ l cxt := by
  have hrun := wp_interpretVisits (readingOne x b) cxt₀ l
    (E := fun _ _ ↦ False) ?_
  · obtain ⟨⟨⟩, cxt, hrun, hprogress⟩ := hrun.exists_ok
    exact ⟨cxt, hrun, hprogress⟩
  · rintro l₁ y cxt₁ hsplit - e cxt₂ (hno | ⟨-, -, heval⟩)
    · exact absurd ((hallowed y hsplit.mem).symm.trans hno) (by rintro ⟨⟩)
    · rw [evaluate, readingOne, if_neg] at heval
      · exact absurd heval (by rintro ⟨⟩)
      · exact fun h ↦ hfirst y hsplit.mem (congrArg FormulaCell.status h.1)

/-- A calculation fails when it reads a result that is not ready. -/
theorem calculateSortedCells_readingOne {v : List AbsRange} {cxt cxt₀ : ModelContext S T}
    {entries : List QueueEntry} (hheads : ∀ x ∈ cxt.visits v, cxt.Head x.pos x.cell)
    (hrun : prepare v cxt = .ok entries cxt₀) {l₁ : List Visit} {x : Visit}
    (hx : Computed (cxt.visits v) cxt₀ l₁ x) {b : AbsAddress} {c : FormulaCell}
    (hc : cxt.getFormulaCell b = .ok (some c)) (hnot : ¬ Ready cxt₀ l₁ c.status) :
    ∃ cxt', calculateSortedCells (readingOne x b) v cxt =
      .error (if c.status = x.key then .deadlock else .wait) cxt' := by
  obtain ⟨rfl, hprepared⟩ := (wp_prepare v cxt).of_ok hrun
  have hwb : cxt₀.toWorkbook = cxt.toWorkbook := by
    rw [hprepared.eq]
    rfl
  have hhead := hheads x hx.split.mem
  obtain ⟨cxt₁, hl₁, hprogress⟩ := exists_progress_readingOne cxt₀ b
    (fun y hy ↦ calcAllowed_of_head (hheads y (hx.split.subset hy))) hx.first
  have hwb' : cxt₁.toWorkbook = cxt.toWorkbook := hprogress.toWorkbook.trans hwb
  have hnone : (cxt₁.statuses c.status).result = none := by
    rw [hprogress.unchanged _ (.inr fun y hy hkey ↦ hnot (.inr ⟨y, hy, hkey⟩)),
      ← Option.not_isSome_iff_eq_none]
    exact fun hsome ↦ hnot (.inl hsome)
  have heval : cxt₁.evaluate (readingOne x b) x =
      .error (if c.status = x.key then .deadlock else .wait) := by
    have hans : cxt₁.answer (cxt₁.fetchResult x.key) (.cellValue b) =
        .error (if c.status = x.key then .deadlock else .wait) :=
      answer_cellValue_eq_error (by rw [hwb']; exact hc) hnone
    rw [evaluate, readingOne, if_pos ⟨rfl, rfl⟩]
    refine Query.run_ask.trans ?_
    rw [hans]
  have hfails : ∃ cxt₂, interpret (readingOne x b) x.cell x.pos cxt₁ =
      .error (if c.status = x.key then .deadlock else .wait) cxt₂ := by
    have hwp := wp_interpret (readingOne x b) x cxt₁
    cases hinterpret : interpret (readingOne x b) x.cell x.pos cxt₁ with
    | ok u cxt₂ =>
      cases (hwp.of_ok hinterpret).2 with
      | cached hsome =>
        rw [hprogress.unchanged _ (.inr hx.first), hx.unmarked] at hsome
        exact absurd hsome (by rintro ⟨⟩)
      | evaluated _ hok => exact absurd (heval.symm.trans hok) (by rintro ⟨⟩)
    | error e cxt₂ =>
      cases hwp.of_error hinterpret with
      | notAllowed hno => exact absurd ((calcAllowed_of_head hhead).symm.trans hno) (by rintro ⟨⟩)
      | evaluation _ _ herror =>
        cases heval.symm.trans herror
        exact ⟨_, rfl⟩
  obtain ⟨cxt₂, hfails⟩ := hfails
  obtain ⟨l₂, hl⟩ := hx.split
  refine ⟨cxt₂, ?_⟩
  rw [calculateSortedCells, bind_apply, hrun]
  show interpretEntries (readingOne x b) ((cxt.visits v).map Visit.toEntry) cxt₀ = _
  rw [interpretEntries_map, hl, forM_append, bind_apply, hl₁]
  show (interpret (readingOne x b) x.cell x.pos >>= fun _ ↦
    l₂.forM fun y ↦ interpret (readingOne x b) y.cell y.pos) cxt₁ = _
  rw [bind_apply, hfails]

/-- Where nothing waits, whatever the evaluation reads, precedents are ready. -/
theorem precedentsReady_of_neverWaits {v : List AbsRange} {cxt cxt₀ : ModelContext S T}
    {entries : List QueueEntry} (hheads : ∀ x ∈ cxt.visits v, cxt.Head x.pos x.cell)
    (hrun : prepare v cxt = .ok entries cxt₀)
    (h : ∀ ev : Evaluator, ev.ReadsReferences cxt.toWorkbook → NeverWaits ev v cxt) :
    PrecedentsReady v cxt cxt₀ := by
  intro l₁ x hx b k hdep hb hk
  by_contra hnot
  obtain ⟨c, hc, rfl⟩ := hb
  obtain ⟨cxt', hwaits⟩ := calculateSortedCells_readingOne hheads hrun hx hc hnot
  rw [if_neg hk] at hwaits
  have hhead := hheads x hx.split.mem
  exact h (readingOne x b) (readingOne_readsReferences (references_of_dependsOn hhead hdep))
    cxt' hwaits

variable [UnorderedSet S AbsRange] [RTree T S]

/-- When every formula cell that is not listed has a result, no calculation waits, whatever
the formulas do with what they refer to, exactly when everything that the check has not looked
at is ready, or the calculation fails before any cell is interpreted. -/
theorem neverWaits_iff {depth : Nat} {cxt : ModelContext S T} (hreg : cxt.Registered depth)
    {M : S} {D : Option S}
    (hD : ∀ d ∈ optionalCells D, ∃ pos cell, cxt.Head pos cell ∧ d = cxt.srcRange cell pos)
    (hunlisted : ∀ b k, cxt.HasStatus b k →
      (∀ y ∈ cxt.visits (cxt.tracker.queryAndSortDirtyCells M D).2, y.key ≠ k) →
        (cxt.statuses k).result.isSome = true) :
    (∀ ev : Evaluator, ev.ReadsReferences cxt.toWorkbook →
        NeverWaits ev (cxt.tracker.queryAndSortDirtyCells M D).2 cxt) ↔
      ∀ entries cxt₀, prepare (cxt.tracker.queryAndSortDirtyCells M D).2 cxt = .ok entries cxt₀ →
        UnseenReady (cxt.tracker.queryAndSortDirtyCells M D).2 cxt := by
  have hheads : ∀ x ∈ cxt.visits (cxt.tracker.queryAndSortDirtyCells M D).2,
      cxt.Head x.pos x.cell := fun _ hx ↦ head_of_mem_visits hreg hD hx
  constructor
  · intro hwaits entries cxt₀ hrun
    rw [← ((wp_prepare _ cxt).of_ok hrun).2.precedentsReady_iff hunlisted]
    exact precedentsReady_of_neverWaits hheads hrun hwaits
  · intro hready ev hev
    cases hrun : prepare (cxt.tracker.queryAndSortDirtyCells M D).2 cxt with
    | ok entries cxt₀ =>
      refine PrecedentsReady.neverWaits ?_ hheads hrun hev
      exact (((wp_prepare _ cxt).of_ok hrun).2.precedentsReady_iff hunlisted).mpr
        (hready entries cxt₀ hrun)
    | error e cxt₀ =>
      intro cxt' hcalc
      rw [calculateSortedCells, bind_apply, hrun] at hcalc
      cases hcalc
      cases (wp_prepare _ cxt).of_error hrun

/-! ### A cycle through a name -/

/-- A cell that consists of the name `x`. -/
def aliasCell : FormulaCell := ⟨[.namedExpression "x"], -1, -1, 0⟩

/-- The formula `A1` in the cell `B1`. -/
def backCell : FormulaCell := ⟨[relativeRef 0 (-1)], -1, -1, 1⟩

/-- The name in `A1`, which stands for `$B$1`, and the formula `A1` in `B1`. -/
def aliasCells : ModelContext Ranges (ListTree Ranges) :=
  { ofCells
      [(⟨0, 0, 0⟩, .formula aliasCell), (⟨0, 0, 1⟩, .formula backCell)]
      [.new ⟨1, 1⟩, .new ⟨1, 1⟩] with
    namedExpressions := [("x", ⟨⟨0, 0, 0⟩, [.singleRef ⟨0, 0, 1, false, true, true⟩]⟩)] }

/-- The same workbook after its formula cells have been registered. -/
def aliasContext : ModelContext Ranges (ListTree Ranges) :=
  registerAll 1 [⟨0, 0, 0⟩, ⟨0, 0, 1⟩] aliasCells

/-- The formula cell `B1` is dirty. -/
def aliasDirty : Option Ranges := some (insert empty (⟨0, 0, 1⟩ : AbsAddress).toRange)

theorem queryAndSort_alias : (aliasContext.tracker.queryAndSortDirtyCells empty aliasDirty).2 =
    [⟨⟨0, 0, 0⟩, ⟨0, 0, 0⟩⟩, ⟨⟨0, 0, 1⟩, ⟨0, 0, 1⟩⟩] := by
  decide +kernel

theorem getFormulaCell_alias {a : AbsAddress} {c : FormulaCell}
    (h : aliasContext.getFormulaCell a = .ok (some c)) :
    (a = ⟨0, 0, 0⟩ ∧ c = aliasCell) ∨ (a = ⟨0, 0, 1⟩ ∧ c = backCell) := by
  have hmem : (a, .formula c) ∈ [((⟨0, 0, 0⟩ : AbsAddress), Cell.formula aliasCell),
      (⟨0, 0, 1⟩, .formula backCell)] :=
    @mem_of_getFormulaCell _ [.new ⟨1, 1⟩, .new ⟨1, 1⟩] _ _ h
  simpa using hmem

theorem registered_alias : aliasContext.Registered 1 := by
  refine registered_of_forM (l := [⟨0, 0, 0⟩, ⟨0, 0, 1⟩])
    (show aliasCells.tracker = .new from rfl) ?_ rfl
  intro pos
  constructor
  · intro hpos
    rcases List.mem_cons.mp hpos with rfl | hpos
    · exact ⟨_, rfl, rfl⟩
    · rw [List.mem_singleton.mp hpos]
      exact ⟨_, rfl, rfl⟩
  · rintro ⟨cell, hcell, _⟩
    rcases getFormulaCell_alias hcell with ⟨rfl, _⟩ | ⟨rfl, _⟩ <;> simp

theorem dirty_alias (d : AbsRange) (hd : d ∈ optionalCells aliasDirty) :
    ∃ pos cell, aliasContext.Head pos cell ∧ d = aliasContext.srcRange cell pos := by
  rw [List.mem_singleton.mp (show d ∈ [(⟨0, 0, 1⟩ : AbsAddress).toRange] from hd)]
  exact ⟨⟨0, 0, 1⟩, backCell, ⟨rfl, rfl⟩, rfl⟩

theorem unlisted_alias (b : AbsAddress) (k : Nat) (hb : aliasContext.HasStatus b k)
    (hk : ∀ y ∈ aliasContext.visits
      (aliasContext.tracker.queryAndSortDirtyCells empty aliasDirty).2, y.key ≠ k) :
    (aliasContext.statuses k).result.isSome = true := by
  rw [queryAndSort_alias] at hk
  obtain ⟨c, hc, rfl⟩ := hb
  rcases getFormulaCell_alias hc with ⟨rfl, rfl⟩ | ⟨rfl, rfl⟩
  · refine absurd rfl (hk ⟨aliasCell, ⟨0, 0, 0⟩⟩
      (mem_visits.mpr ⟨⟨⟨0, 0, 0⟩, ⟨0, 0, 0⟩⟩, ?_, rfl, rfl⟩))
    exact List.mem_cons_self
  · refine absurd rfl (hk ⟨backCell, ⟨0, 0, 1⟩⟩
      (mem_visits.mpr ⟨⟨⟨0, 0, 1⟩, ⟨0, 0, 1⟩⟩, ?_, rfl, rfl⟩))
    exact List.mem_cons_of_mem _ List.mem_cons_self

/-- A calculation on one thread may wait for ever: the check does not look into names, and
so does not find that the two cells refer to each other. -/
theorem not_neverWaits_alias :
    ¬ ∀ (depth : Nat) (cxt : ModelContext Ranges (ListTree Ranges)) (M : Ranges)
      (D : Option Ranges) (lib : NumberLib)
      (call : Workbook → AbsAddress → FormulaFunction → StackM Unit), cxt.Registered depth →
      (∀ d ∈ optionalCells D, ∃ pos cell, cxt.Head pos cell ∧ d = cxt.srcRange cell pos) →
      (∀ b k, cxt.HasStatus b k →
        (∀ y ∈ cxt.visits (cxt.tracker.queryAndSortDirtyCells M D).2, y.key ≠ k) →
          (cxt.statuses k).result.isSome = true) →
      (∀ pos, ReadsArguments (call cxt.toWorkbook pos)) →
      NeverWaits (formulaInterpreter lib call) (cxt.tracker.queryAndSortDirtyCells M D).2 cxt := by
  intro h
  have hnever := h 1 aliasContext empty aliasDirty .natural (fun _ _ _ ↦ pure ⟨⟩)
    registered_alias dirty_alias unlisted_alias
    (fun _ _ _ ↦ ValueStack.sound_pure trivial)
  rw [queryAndSort_alias] at hnever
  exact hnever _ rfl

theorem neverWaits_iff_alias :
    (∀ ev : Evaluator, ev.ReadsReferences aliasContext.toWorkbook →
        NeverWaits ev (aliasContext.tracker.queryAndSortDirtyCells empty aliasDirty).2
          aliasContext) ↔
      ∀ entries cxt₀, prepare (aliasContext.tracker.queryAndSortDirtyCells empty aliasDirty).2
          aliasContext = .ok entries cxt₀ →
        UnseenReady (aliasContext.tracker.queryAndSortDirtyCells empty aliasDirty).2
          aliasContext :=
  neverWaits_iff registered_alias dirty_alias unlisted_alias

end ModelContext

end Ixion
