import Ixion.Expand
import Ixion.Tracker.Sort

/-!
# Contexts whose formula cells are all registered

The cells of a group share a status.  Only the top-left cell of a group, its
*head*, is registered and calculated; a cell that is not grouped is its own head.

A context is *registered* when the tracker holds what registering every head has
put into it, and nothing else.  Registering all heads of a context, in any order,
makes it so: `registered_of_forM`.
-/

namespace Ixion

open Lib UnorderedSet DirtyCellTracker Relation

/-- The top-left cell of the group of a formula cell at a position. -/
def FormulaCell.origin (cell : FormulaCell) (pos : AbsAddress) : AbsAddress :=
  if cell.isGrouped then
    { pos with row := pos.row - cell.groupRow, column := pos.column - cell.groupColumn }
  else pos

@[simp] theorem FormulaCell.origin_sheet (cell : FormulaCell) (pos : AbsAddress) :
    (cell.origin pos).sheet = pos.sheet := by
  rw [origin]
  split <;> rfl

namespace Workbook

/-- There is a formula cell with a status at an address. -/
def HasStatus (wb : Workbook) (a : AbsAddress) (k : Nat) : Prop :=
  ∃ cell, wb.getFormulaCell a = .ok (some cell) ∧ cell.status = k

/-- A formula cell that is not grouped, or the top-left cell of a group. -/
structure Head (wb : Workbook) (pos : AbsAddress) (cell : FormulaCell) : Prop where
  formula : wb.getFormulaCell pos = .ok (some cell)
  origin : cell.origin pos = pos

/-- Cells with the same status are the cells of one group: they have the same
tokens, and their top-left cell is one of them. -/
structure GroupsWF (wb : Workbook) : Prop where
  tokens : ∀ a b ca cb, wb.getFormulaCell a = .ok (some ca) → wb.getFormulaCell b = .ok (some cb) →
    ca.status = cb.status → ca.tokens = cb.tokens ∧ ca.origin a = cb.origin b
  head : ∀ a ca, wb.getFormulaCell a = .ok (some ca) →
    ∃ h, wb.Head (ca.origin a) h ∧ h.status = ca.status

theorem Head.hasStatus {wb : Workbook} {pos : AbsAddress} {cell : FormulaCell}
    (h : wb.Head pos cell) : wb.HasStatus pos cell.status :=
  ⟨cell, h.formula, rfl⟩

theorem Head.unique {wb : Workbook} {pos : AbsAddress} {cell cell' : FormulaCell}
    (h : wb.Head pos cell) (h' : wb.Head pos cell') : cell = cell' := by
  cases h.formula.symm.trans h'.formula
  rfl

/-- What is not in the workbook is no formula cell. -/
theorem HasStatus.inWorkbook {wb : Workbook} {a : AbsAddress} {k : Nat}
    (h : wb.HasStatus a k) : wb.inWorkbook a = true := by
  obtain ⟨cell, hcell, _⟩ := h
  exact (getFormulaCell_eq_some_iff.mp hcell).1

theorem HasStatus.unique {wb : Workbook} {a : AbsAddress} {k k' : Nat} (h : wb.HasStatus a k)
    (h' : wb.HasStatus a k') : k = k' := by
  obtain ⟨cell, hcell, rfl⟩ := h
  obtain ⟨cell', hcell', rfl⟩ := h'
  cases hcell.symm.trans hcell'
  rfl

/-! ## Dependencies -/

/-- A formula cell depends on another one. -/
def DependsOn (wb : Workbook) (a b : AbsAddress) : Prop :=
  ∃ cell, wb.getFormulaCell a = .ok (some cell) ∧ (∃ k, wb.HasStatus b k) ∧
    ∃ t, Occurs wb a.sheet cell.tokens t ∧ wb.RefersTo (cell.origin a) t b

/-- The cells of a group depend on the same cells. -/
theorem DependsOn.congr {wb : Workbook} (hwf : wb.GroupsWF) {a a' b : AbsAddress} {k : Nat}
    (ha : wb.HasStatus a k) (ha' : wb.HasStatus a' k) (h : wb.DependsOn a b) :
    wb.DependsOn a' b := by
  obtain ⟨cell, hcell, rfl⟩ := ha
  obtain ⟨cell', hcell', hstatus⟩ := ha'
  obtain ⟨_, hc, hb, t, ht, hrefers⟩ := h
  cases hcell.symm.trans hc
  obtain ⟨htokens, horigin⟩ := hwf.tokens a a' cell cell' hcell hcell' hstatus.symm
  have hsheet : a.sheet = a'.sheet := by
    rw [← cell.origin_sheet a, horigin, cell'.origin_sheet]
  refine ⟨cell', hcell', hb, t, ?_, ?_⟩
  · rw [← hsheet, ← htokens]
    exact ht
  · rw [← horigin]
    exact hrefers

end Workbook

namespace ModelContext

open Workbook

variable {S T : Type}

@[simp] theorem srcRange_withTracker (cxt : ModelContext S T) (tracker : DirtyCellTracker S T)
    (cell : FormulaCell) (pos : AbsAddress) :
    (cxt.withTracker tracker).srcRange cell pos = cxt.srcRange cell pos := rfl

@[simp] theorem withTracker_toWorkbook (cxt : ModelContext S T)
    (tracker : DirtyCellTracker S T) : (cxt.withTracker tracker).toWorkbook = cxt.toWorkbook := rfl

/-! ## The ranges of heads -/

/-- A range that begins with a head, and with no other cell of its group. -/
def HeadRange (cxt : ModelContext S T) (r : AbsRange) : Prop :=
  ∃ pos cell, cxt.Head pos cell ∧ (r = cxt.srcRange cell pos ∨
    (r = pos.toRange ∧ hasVolatile cell.tokens = true))

theorem HeadRange.head {cxt : ModelContext S T} {r : AbsRange} (h : cxt.HeadRange r) :
    ∃ cell, cxt.Head r.first cell := by
  obtain ⟨pos, cell, hhead, rfl | ⟨rfl, _⟩⟩ := h
  · exact ⟨cell, by rwa [srcRange_first]⟩
  · exact ⟨cell, hhead⟩

/-- The source range of a head covers the cells of its group. -/
def GroupsIntact (cxt : ModelContext S T) : Prop :=
  ∀ pos cell, cxt.Head pos cell → ∀ a,
    (cxt.srcRange cell pos).contains a = true ↔ cxt.HasStatus a cell.status

/-- The range that a group is registered as. -/
theorem GroupsIntact.contains {cxt : ModelContext S T} (hintact : cxt.GroupsIntact)
    {pos : AbsAddress} {cell : FormulaCell} (hhead : cxt.Head pos cell) {a : AbsAddress}
    (ha : cxt.HasStatus a cell.status) :
    a.sheet = pos.sheet ∧ (cxt.srcRange cell pos).first.row ≤ a.row ∧
      a.row ≤ (cxt.srcRange cell pos).last.row ∧ (cxt.srcRange cell pos).first.column ≤ a.column ∧
      a.column ≤ (cxt.srcRange cell pos).last.column := by
  have hsheets : (cxt.srcRange cell pos).first.sheet = pos.sheet ∧
      (cxt.srcRange cell pos).last.sheet = pos.sheet := by
    rw [srcRange]
    split <;> exact ⟨rfl, rfl⟩
  obtain ⟨h₁, h₂, h₃⟩ := AbsRange.contains_iff.mp ((hintact pos cell hhead a).mpr ha)
  exact ⟨by omega, h₃⟩

/-- A dirty range contains a formula cell of its group in every place. -/
theorem HeadRange.hasStatus {cxt : ModelContext S T} (hintact : cxt.GroupsIntact) {m : AbsRange}
    {cm : FormulaCell} (hm : cxt.HeadRange m) (hcm : cxt.Head m.first cm) {a : AbsAddress}
    (ha : m.contains a = true) : cxt.HasStatus a cm.status := by
  obtain ⟨pos, cell, hhead, rfl | ⟨rfl, _⟩⟩ := hm
  · rw [srcRange_first] at hcm
    cases hcm.unique hhead
    exact (hintact pos cm hhead a).mp ha
  · rw [AbsRange.contains_toRange.mp ha]
    exact hcm.hasStatus

/-- A range that lies on one sheet has corners in order. -/
structure OnSheet (r : AbsRange) : Prop where
  sheet : r.last.sheet = r.first.sheet
  row : r.first.row ≤ r.last.row
  column : r.first.column ≤ r.last.column

theorem HeadRange.onSheet {cxt : ModelContext S T} (hintact : cxt.GroupsIntact) {m : AbsRange}
    (hm : cxt.HeadRange m) : OnSheet m := by
  obtain ⟨pos, cell, hhead, rfl | ⟨rfl, _⟩⟩ := hm
  · obtain ⟨_, h₁, h₂, h₃, h₄⟩ := hintact.contains hhead hhead.hasStatus
    refine ⟨?_, h₁.trans h₂, h₃.trans h₄⟩
    rw [srcRange]
    split <;> rfl
  · exact ⟨rfl, le_rfl, le_rfl⟩

/-! ## Registering all heads -/

variable [UnorderedSet S AbsRange] [RTree T S]

/-- The tracker holds what registering some heads has put into it. -/
structure RegisteredAt (depth : Nat) (P : AbsAddress → Prop) (cxt : ModelContext S T) : Prop where
  wf : cxt.tracker.WF
  registered : ∀ pos cell, cxt.Head pos cell → P pos →
    ∃ refs, cxt.getRefTokens depth cell pos = .ok refs ∧ cxt.IsRegistered cell pos refs
  sources : ∀ sheet e s, cxt.tracker.Tracked sheet e s →
    ∃ pos cell refs t, P pos ∧ cxt.Head pos cell ∧ cxt.getRefTokens depth cell pos = .ok refs ∧
      t ∈ refs ∧ Pairs (cxt.srcRange cell pos) (cxt.destRange pos t) sheet e s
  volatiles : ∀ s ∈ toList cxt.tracker.volatileCells,
    ∃ pos cell, P pos ∧ cxt.Head pos cell ∧ hasVolatile cell.tokens = true ∧ s = pos.toRange

/-- The tracker holds what registering all heads has put into it. -/
abbrev Registered (depth : Nat) (cxt : ModelContext S T) : Prop :=
  cxt.RegisteredAt depth fun _ ↦ True

theorem registeredAt_new {depth : Nat} {cxt : ModelContext S T} (h : cxt.tracker = .new) :
    cxt.RegisteredAt depth fun _ ↦ False where
  wf := h ▸ Reachable.new.wf
  registered _ _ _ hP := hP.elim
  sources _ _ _ htracked := by
    rw [h] at htracked
    exact absurd (tracked_iff.mp htracked).2 not_listens_empty
  volatiles s hs := by
    rw [h] at hs
    exact absurd (toList_empty (S := S) ▸ hs) List.not_mem_nil

/-- Registering one more head. -/
theorem RegisteredAt.register {depth : Nat} {P : AbsAddress → Prop} {cxt cxt' : ModelContext S T}
    (h : cxt.RegisteredAt depth P) {pos : AbsAddress} {cell : FormulaCell}
    (hhead : cxt.Head pos cell) (hrun : registerFormulaCell depth pos none cxt = .ok () cxt') :
    cxt'.RegisteredAt depth (fun a ↦ P a ∨ a = pos) ∧
      cxt' = cxt.withTracker cxt'.tracker := by
  obtain ⟨refs, hrefs, _, _⟩ := (registerFormulaCell_eq_ok_iff hhead.formula).mp hrun
  have hspec := registerSpec h.wf hhead.formula hrefs hrun
  obtain ⟨heq, _, hwf, htracked, hvolatile⟩ := hspec
  refine ⟨⟨hwf, ?_, ?_, ?_⟩, heq⟩
  · rw [heq]
    rintro pos' cell' hhead' (hP | rfl)
    · obtain ⟨refs', hrefs', hreg⟩ := h.registered pos' cell' hhead' hP
      refine ⟨refs', hrefs', fun t ht sheet e s hp ↦ ?_, fun hv ↦ ?_⟩
      · exact (htracked sheet e s).mpr (.inr (hreg.tracked t ht sheet e s hp))
      · exact (hvolatile _).mpr (.inr (hreg.volatile hv))
    · cases hhead.unique hhead'
      refine ⟨refs, hrefs, fun t ht sheet e s hp ↦ ?_, fun hv ↦ ?_⟩
      · exact (htracked sheet e s).mpr (.inl ⟨t, ht, hp⟩)
      · exact (hvolatile _).mpr (.inl ⟨hv, rfl⟩)
  · intro sheet e s hs
    rw [heq]
    rcases (htracked sheet e s).mp hs with ⟨t, ht, hp⟩ | hold
    · exact ⟨pos, cell, refs, t, .inr rfl, hhead, hrefs, ht, hp⟩
    · obtain ⟨pos', cell', refs', t, hP, hrest⟩ := h.sources sheet e s hold
      exact ⟨pos', cell', refs', t, .inl hP, hrest⟩
  · intro s hs
    rw [heq]
    rcases (hvolatile s).mp hs with ⟨hv, rfl⟩ | hold
    · exact ⟨pos, cell, .inr rfl, hhead, hv, rfl⟩
    · obtain ⟨pos', cell', hP, hrest⟩ := h.volatiles s hold
      exact ⟨pos', cell', .inl hP, hrest⟩

theorem RegisteredAt.congr {depth : Nat} {P Q : AbsAddress → Prop} {cxt : ModelContext S T}
    (h : cxt.RegisteredAt depth P)
    (hPQ : ∀ pos cell, cxt.Head pos cell → (P pos ↔ Q pos)) : cxt.RegisteredAt depth Q where
  wf := h.wf
  registered pos cell hhead hQ := h.registered pos cell hhead ((hPQ pos cell hhead).mpr hQ)
  sources sheet e s hs := by
    obtain ⟨pos, cell, refs, t, hP, hhead, hrest⟩ := h.sources sheet e s hs
    exact ⟨pos, cell, refs, t, (hPQ pos cell hhead).mp hP, hhead, hrest⟩
  volatiles s hs := by
    obtain ⟨pos, cell, hP, hhead, hrest⟩ := h.volatiles s hs
    exact ⟨pos, cell, (hPQ pos cell hhead).mp hP, hhead, hrest⟩

/-- Registering a list of heads. -/
theorem RegisteredAt.forM {depth : Nat} {P : AbsAddress → Prop} {cxt cxt' : ModelContext S T}
    (h : cxt.RegisteredAt depth P) {l : List AbsAddress}
    (hl : ∀ pos ∈ l, ∃ cell, cxt.Head pos cell)
    (hrun : l.forM (fun pos ↦ registerFormulaCell depth pos none) cxt = .ok () cxt') :
    cxt'.RegisteredAt depth (fun a ↦ P a ∨ a ∈ l) ∧ cxt' = cxt.withTracker cxt'.tracker := by
  induction l generalizing cxt P with
  | nil =>
    cases hrun
    exact ⟨h.congr fun pos _ _ ↦ by simp, rfl⟩
  | cons pos l ih =>
    obtain ⟨cell, hhead⟩ := hl pos List.mem_cons_self
    change (registerFormulaCell depth pos none >>= fun _ ↦ l.forM _) cxt = _ at hrun
    rw [bind_apply] at hrun
    cases hx : registerFormulaCell depth pos none cxt with
    | error e s => rw [hx] at hrun; exact absurd hrun nofun
    | ok u cxt₁ =>
      rw [hx] at hrun
      obtain ⟨h₁, heq₁⟩ := h.register hhead hx
      have hl₁ : ∀ a ∈ l, ∃ c, cxt₁.Head a c := by
        rw [heq₁]
        exact fun a ha ↦ hl a (List.mem_cons_of_mem pos ha)
      obtain ⟨h₂, heq₂⟩ := ih h₁ hl₁ hrun
      refine ⟨h₂.congr fun a _ _ ↦ ?_, ?_⟩
      · rw [List.mem_cons, or_assoc]
      · rw [heq₂, heq₁]
        rfl

/-- Registering all heads of a context in which nothing is tracked. -/
theorem registered_of_forM {depth : Nat} {cxt cxt' : ModelContext S T} (hnew : cxt.tracker = .new)
    {l : List AbsAddress} (hl : ∀ pos, pos ∈ l ↔ ∃ cell, cxt.Head pos cell)
    (hrun : l.forM (fun pos ↦ registerFormulaCell depth pos none) cxt = .ok () cxt') :
    cxt'.Registered depth := by
  obtain ⟨h, heq⟩ := (registeredAt_new hnew).forM (fun pos ↦ (hl pos).mp) hrun
  refine h.congr fun pos cell hhead ↦ ?_
  rw [heq] at hhead
  exact ⟨fun _ ↦ trivial, fun _ ↦ .inr ((hl pos).mpr ⟨cell, hhead⟩)⟩

/-! ## The ranges that are dirty -/

/-- What another range affects is the source range of a head. -/
theorem RegisteredAt.srcRange_of_step {depth : Nat} {P : AbsAddress → Prop}
    {cxt : ModelContext S T} (h : cxt.RegisteredAt depth P) {m s : AbsRange}
    (hstep : cxt.tracker.Step m s) :
    ∃ pos cell refs t, cxt.Head pos cell ∧ s = cxt.srcRange cell pos ∧
      cxt.getRefTokens depth cell pos = .ok refs ∧ t ∈ refs ∧
      (cxt.destRange pos t).first.sheet ≤ m.first.sheet ∧
      m.first.sheet ≤ (cxt.destRange pos t).last.sheet ∧
      (cxt.destRange pos t).extent.Intersects m.extent := by
  obtain ⟨e, htracked, hoverlap⟩ := hstep
  obtain ⟨pos, cell, refs, t, _, hhead, hrefs, ht, rfl, rfl, hsheet⟩ := h.sources _ _ _ htracked
  exact ⟨pos, cell, refs, t, hhead, rfl, hrefs, ht, hsheet.1, hsheet.2, hoverlap⟩

/-- The dirty ranges begin with heads. -/
theorem RegisteredAt.headRange {depth : Nat} {P : AbsAddress → Prop} {cxt : ModelContext S T}
    (h : cxt.RegisteredAt depth P) {M : S} {D : Option S}
    (hD : ∀ d ∈ optionalCells D, ∃ pos cell, cxt.Head pos cell ∧ d = cxt.srcRange cell pos)
    {r : AbsRange} (hr : r ∈ (cxt.tracker.queryAndSortDirtyCells M D).2) : cxt.HeadRange r := by
  rcases mem_queryAndSort.mp hr with hr | hr | ⟨m, _, hstep⟩
  · obtain ⟨pos, cell, _, hhead, hv, rfl⟩ := h.volatiles r hr
    exact ⟨pos, cell, hhead, .inr ⟨rfl, hv⟩⟩
  · obtain ⟨pos, cell, hhead, rfl⟩ := hD r hr
    exact ⟨pos, cell, hhead, .inl rfl⟩
  · obtain ⟨_, _, hstep⟩ := TransGen.tail'_iff.mp hstep
    obtain ⟨pos, cell, _, _, hhead, rfl, _⟩ := h.srcRange_of_step hstep
    exact ⟨pos, cell, hhead, .inl rfl⟩

/-- A head depends on a cell of each dirty range that affects its group. -/
theorem dependsOn_of_step {depth : Nat} {cxt : ModelContext S T} (hreg : cxt.Registered depth)
    (hintact : cxt.GroupsIntact) {m s : AbsRange} (hm : cxt.HeadRange m) {cm : FormulaCell}
    (hcm : cxt.Head m.first cm) (hstep : cxt.tracker.Step m s) :
    ∃ pos cell a, cxt.Head pos cell ∧ s = cxt.srcRange cell pos ∧
      cxt.HasStatus a cm.status ∧ cxt.DependsOn pos a := by
  obtain ⟨pos, cell, refs, t, hhead, rfl, hrefs, ht, hsheet, hsheet', hoverlap⟩ :=
    hreg.srcRange_of_step hstep
  obtain ⟨h₁, h₂, h₃, h₄⟩ := hoverlap
  obtain ⟨hs, hr, hc⟩ := hm.onSheet hintact
  -- a cell in which the two ranges overlap
  let dest := cxt.destRange pos t
  let a : AbsAddress :=
    ⟨m.first.sheet, max dest.first.row m.first.row, max dest.first.column m.first.column⟩
  have hdest : dest.Ordered := ordered_destRange (isRef_of_mem_getRefTokens hrefs ht)
  have ha : m.contains a = true := by
    refine AbsRange.contains_iff.mpr ⟨le_rfl, hs.ge, le_max_right _ _, ?_, le_max_right _ _, ?_⟩
    · exact max_le h₁ hr
    · exact max_le h₃ hc
  have ha' : dest.contains a = true := by
    refine AbsRange.contains_iff.mpr ⟨hsheet, hsheet', le_max_left _ _, ?_, le_max_left _ _, ?_⟩
    · exact max_le hdest.2.1 h₂
    · exact max_le hdest.2.2 h₄
  have hstatus := hm.hasStatus hintact hcm ha
  refine ⟨pos, cell, a, hhead, rfl, hstatus, cell, hhead.formula, ⟨_, hstatus⟩, t, ?_, ?_⟩
  · exact occurs_of_mem hrefs ht
  · rw [hhead.origin]
    exact (contains_destRange_iff (isRef_of_mem_getRefTokens hrefs ht) hstatus.inWorkbook).mp ha'

/-- A dirty range affects the group of a head that depends on one of its cells through
a single-cell or range reference. -/
theorem step_of_refersTo {depth : Nat} {cxt : ModelContext S T} (hreg : cxt.Registered depth)
    {m : AbsRange} {a : AbsAddress} (hm : m.contains a = true) (hsheet : a.sheet = m.first.sheet)
    (hin : cxt.inWorkbook a = true) {pos : AbsAddress} {cell : FormulaCell}
    (hhead : cxt.Head pos cell) {t : FormulaToken}
    (ht : Occurs cxt.toWorkbook pos.sheet cell.tokens t) (href : IsRef t)
    (hrefers : cxt.RefersTo pos t a) : cxt.tracker.Step m (cxt.srcRange cell pos) := by
  obtain ⟨refs, hrefs, hregistered⟩ := hreg.registered pos cell hhead trivial
  have hmem : t ∈ refs := mem_of_occurs ht hrefs href
  obtain ⟨h₁, h₂, h₃, h₄, h₅, h₆⟩ :=
    AbsRange.contains_iff.mp ((contains_destRange_iff href hin).mpr hrefers)
  obtain ⟨_, _, h₃', h₄', h₅', h₆'⟩ := AbsRange.contains_iff.mp hm
  refine ⟨(cxt.destRange pos t).extent, hregistered.tracked t hmem _ _ _ ⟨rfl, rfl, ?_, ?_⟩, ?_⟩
  · exact hsheet ▸ h₁
  · exact hsheet ▸ h₂
  · exact ⟨h₃.trans h₄', h₃'.trans h₄, h₅.trans h₆', h₅'.trans h₆⟩

/-! ## Workbooks given by a list of cells -/

/-- A workbook of one sheet with the given cells, in which nothing is tracked. -/
def ofCells (cells : List (AbsAddress × Cell)) (statuses : List CalcStatus) :
    ModelContext Ranges (ListTree Ranges) :=
  { ModelContext.new ⟨1048576, 16384⟩ with
    sheets := [⟨"Sheet1", []⟩]
    cells := fun addr ↦ (cells.lookup addr).getD .empty
    statuses := fun k ↦ (statuses[k]?).getD (.new ⟨1, 1⟩)
    statusCount := statuses.length }

/-- Register the formula cells at some positions. -/
def registerAll (depth : Nat) (positions : List AbsAddress) (cxt : ModelContext S T) :
    ModelContext S T :=
  finalState (positions.forM fun pos ↦ registerFormulaCell depth pos none) cxt

theorem mem_of_getFormulaCell {cells : List (AbsAddress × Cell)} {statuses : List CalcStatus}
    {a : AbsAddress} {c : FormulaCell}
    (h : (ofCells cells statuses).getFormulaCell a = .ok (some c)) :
    (a, .formula c) ∈ cells := by
  have hcell : (cells.lookup a).getD .empty = .formula c := (getFormulaCell_eq_some_iff.mp h).2
  cases hlookup : cells.lookup a with
  | none => rw [hlookup] at hcell; exact absurd hcell nofun
  | some cell =>
    rw [hlookup] at hcell
    obtain ⟨l₁, l₂, rfl, _⟩ := List.lookup_eq_some_iff.mp hlookup
    rw [← show cell = .formula c from hcell]
    exact List.mem_append_right l₁ List.mem_cons_self

end ModelContext

end Ixion
