import Ixion.Calc.Check
import Ixion.Registered

/-!
# Which cells are found to be circular

A formula cell *depends on* another one when a reference that occurs in its formula,
directly or in a named expression, covers the other cell.  A cell is circular when
it is on a cycle of dependencies or depends on a cell that is.

A partial calculation takes the cells that are not calculated for safe only if a
calculation has found them safe before: `noFalseMark_iff`.  In a full calculation
whose formulas have direct references only, the cells marked by the check are
exactly the circular ones, up to the order in which the first cells of volatile
array formulas are listed: `exactMark_iff`.
-/

namespace Ixion

open Lib UnorderedSet DirtyCellTracker Relation

namespace Workbook

/-! ## Dependencies -/

/-- The cells of a group are circular together. -/
theorem circular_congr {wb : Workbook} (hwf : wb.GroupsWF) {a a' : AbsAddress} {k : Nat}
    (ha : wb.HasStatus a k) (ha' : wb.HasStatus a' k) (h : Circular wb.DependsOn a) :
    Circular wb.DependsOn a' := by
  obtain ⟨c, hac, hcc⟩ := h
  obtain ⟨d, had, hdc⟩ := TransGen.head'_iff.mp (.trans_right hac hcc)
  exact ⟨c, .head (had.congr hwf ha ha') hdc, hcc⟩

/-! ## The cells that are looked at -/

theorem mem_walkedCells_rangeRef {wb : Workbook} {pos a : AbsAddress} {r : Range} :
    a ∈ wb.walkedCells pos (.rangeRef r) ↔
      ((r.toAbs pos).first.sheet ≤ a.sheet ∧ a.sheet ≤ (r.toAbs pos).last.sheet) ∧
      (if (r.toAbs pos).allColumns then 0 ≤ a.column ∧ a.column ≤ wb.sheetSize.column - 1
        else (r.toAbs pos).first.column ≤ a.column ∧ a.column ≤ (r.toAbs pos).last.column) ∧
      (if (r.toAbs pos).allRows then 0 ≤ a.row ∧ a.row ≤ wb.sheetSize.row - 1
        else (r.toAbs pos).first.row ≤ a.row ∧ a.row ≤ (r.toAbs pos).last.row) := by
  simp only [walkedCells, List.mem_flatMap, List.mem_map, mem_countUp]
  obtain ⟨sheet, row, column⟩ := a
  constructor
  · rintro ⟨_, hs, _, hc, _, hr, heq⟩
    cases heq
    refine ⟨hs, ?_, ?_⟩
    · split at hc <;> simp_all
    · split at hr <;> simp_all
  · rintro ⟨hs, hc, hr⟩
    refine ⟨sheet, hs, column, ?_, row, ?_, rfl⟩
    · split at hc <;> simp_all
    · split at hr <;> simp_all

/-- A cell that is looked at is referred to. -/
theorem refersTo_of_mem_walkedCells {wb : Workbook} {pos a : AbsAddress} {t : FormulaToken}
    (h : a ∈ wb.walkedCells pos t) : wb.RefersTo pos t a := by
  cases t with
  | singleRef addr => exact List.mem_singleton.mp h
  | rangeRef r =>
    obtain ⟨hs, hc, hr⟩ := mem_walkedCells_rangeRef.mp h
    refine ⟨⟨min_le_of_left_le hs.1, le_max_of_le_right hs.2⟩, ?_, ?_⟩
    · split at hr
      case isTrue hall => exact .inl hall
      case isFalse => exact .inr ⟨min_le_of_left_le hr.1, le_max_of_le_right hr.2⟩
    · split at hc
      case isTrue hall => exact .inl hall
      case isFalse => exact .inr ⟨min_le_of_left_le hc.1, le_max_of_le_right hc.2⟩
  | _ => exact absurd h List.not_mem_nil

/-- References that the check looks into: ranges have their corners in order, and
there are no names and no tables. -/
def DirectToken (pos : AbsAddress) : FormulaToken → Prop
  | .rangeRef r => (r.toAbs pos).Ordered
  | .namedExpression _ | .tableRef _ => False
  | _ => True

/-- A cell of the workbook that such a reference refers to is looked at. -/
theorem mem_walkedCells_of_refersTo {wb : Workbook} {pos a : AbsAddress} {t : FormulaToken}
    (ht : DirectToken pos t) (hin : wb.inWorkbook a = true) (h : wb.RefersTo pos t a) :
    a ∈ wb.walkedCells pos t := by
  cases t with
  | singleRef addr => exact List.mem_singleton.mpr h
  | rangeRef r =>
    obtain ⟨hs, hr, hc⟩ := h
    obtain ⟨h₁, h₂, h₃⟩ : (r.toAbs pos).Ordered := ht
    rw [inWorkbook, decide_eq_true_eq] at hin
    refine mem_walkedCells_rangeRef.mpr ⟨by omega, ?_, ?_⟩
    · split
      case isTrue => omega
      case isFalse hall => exact (hc.resolve_left hall).imp (by omega) (by omega)
    · split
      case isTrue => omega
      case isFalse hall => exact (hr.resolve_left hall).imp (by omega) (by omega)
  | namedExpression name => exact ht.elim
  | tableRef table => exact ht.elim
  | _ => exact h.elim

/-- A formula cell that is looked at is depended on. -/
theorem dependsOn_of_mem_seen {wb : Workbook} {x : Visit} (hx : wb.Head x.pos x.cell) {k : Nat}
    (hk : k ∈ x.seen wb) : ∃ b, wb.HasStatus b k ∧ wb.DependsOn x.pos b := by
  obtain ⟨b, hb, ref, href, rfl⟩ := hk
  obtain ⟨t, ht, hb⟩ := List.mem_flatMap.mp hb
  refine ⟨b, ⟨ref, href, rfl⟩, x.cell, hx.formula, ⟨_, ref, href, rfl⟩, t, .here ht, ?_⟩
  rw [hx.origin]
  exact refersTo_of_mem_walkedCells hb

/-- Every formula uses references that the check looks into. -/
def AllDirect (wb : Workbook) : Prop :=
  ∀ pos cell, wb.Head pos cell → ∀ t ∈ cell.tokens, DirectToken pos t

/-- What occurs in a formula without names is one of its tokens. -/
theorem mem_of_occurs_of_direct {wb : Workbook} (pos : AbsAddress) {sheet : Int}
    {tokens : List FormulaToken} (hdirect : ∀ t ∈ tokens, DirectToken pos t) {t : FormulaToken}
    (h : Occurs wb sheet tokens t) : t ∈ tokens := by
  cases h with
  | here h => exact h
  | there hmem => exact (hdirect _ hmem).elim

/-- A formula cell that such a formula depends on is looked at. -/
theorem mem_seen_of_dependsOn {wb : Workbook} (hdirect : wb.AllDirect) {x : Visit}
    (hx : wb.Head x.pos x.cell) {b : AbsAddress} {k : Nat} (hb : wb.HasStatus b k)
    (h : wb.DependsOn x.pos b) : k ∈ x.seen wb := by
  obtain ⟨_, hcell, _, t, ht, hrefers⟩ := h
  cases hx.formula.symm.trans hcell
  have hin := hb.inWorkbook
  obtain ⟨ref, href, rfl⟩ := hb
  rw [hx.origin] at hrefers
  have hmem := mem_of_occurs_of_direct _ (hdirect x.pos x.cell hx) ht
  have hwalked := mem_walkedCells_of_refersTo (hdirect x.pos x.cell hx t hmem) hin hrefers
  exact ⟨b, List.mem_flatMap.mpr ⟨t, hmem, hwalked⟩, ref, href, rfl⟩

/-- The heads among the visits are told apart by their statuses. -/
theorem GroupsWF.visit_eq {wb : Workbook} (hwf : wb.GroupsWF) {x y : Visit}
    (hx : wb.Head x.pos x.cell) (hy : wb.Head y.pos y.cell) (hkey : x.key = y.key) : x = y := by
  obtain ⟨cx, px⟩ := x
  obtain ⟨cy, py⟩ := y
  have horigin := (hwf.tokens px py cx cy hx.formula hy.formula hkey).2
  obtain rfl : px = py := by
    rw [← show cx.origin px = px from hx.origin, horigin]
    exact hy.origin
  cases hx.unique hy
  rfl

end Workbook

namespace ModelContext

open Workbook

variable {S T : Type}

/-! ## When nothing is marked in error -/

/-- No listed cell is marked unless it is circular. -/
def NoFalseMark (v : List AbsRange) (cxt cxt' : ModelContext S T) : Prop :=
  ∀ x ∈ cxt.visits v, ¬ Circular cxt.DependsOn x.pos →
    (cxt'.statuses x.key).result ≠ some (.error .refResultNotAvailable)

/-- Every formula cell that the tokens of a listed cell refer to, unless that cell
is circular, is listed before it, or it is not listed and has been found safe in
an earlier calculation. -/
def PrecedentsSafe (v : List AbsRange) (cxt : ModelContext S T) : Prop :=
  ∀ l₁ x, SplitAt (cxt.visits v) l₁ x → ¬ Circular cxt.DependsOn x.pos →
    ∀ k ∈ x.seen cxt.toWorkbook, (∃ y ∈ l₁, y.key = k) ∨
      ((∀ y ∈ cxt.visits v, y.key ≠ k) ∧ (cxt.statuses k).circularSafe = true)

/-- The check marks nothing in error exactly when all precedents are safe. -/
theorem Prepared.noFalseMark_iff_precedentsSafe {v : List AbsRange} {cxt cxt' : ModelContext S T}
    (h : Prepared v cxt cxt') (hwf : cxt.GroupsWF)
    (hheads : ∀ x ∈ cxt.visits v, cxt.Head x.pos x.cell) :
    NoFalseMark v cxt cxt' ↔ cxt.PrecedentsSafe v := by
  let good (k : Nat) : Prop := ∀ a, cxt.HasStatus a k → ¬ Circular cxt.DependsOn a
  have hgood_iff : ∀ x ∈ cxt.visits v, good x.key ↔ ¬ Circular cxt.DependsOn x.pos := by
    intro x hx
    have hstatus := (hheads x hx).hasStatus
    exact ⟨fun hg ↦ hg x.pos hstatus, fun hn a ha hc ↦ hn (circular_congr hwf ha hstatus hc)⟩
  have hgood : ∀ x ∈ cxt.visits v, good x.key → ∀ k ∈ x.seen cxt.toWorkbook, good k := by
    intro x hx hg k hk a ha hc
    obtain ⟨b, hb, hdep⟩ := dependsOn_of_mem_seen (hheads x hx) hk
    exact (hgood_iff x hx).mp hg ((circular_congr hwf ha hb hc).head hdep)
  have key := forall_not_marked_iff good hgood (s := resetState (cxt.visits v) cxt.sweepState)
    (fun x hx hsafe ↦ hsafe.2 x hx rfl) (fun x hx hmark ↦ hmark.2 x hx rfl)
  rw [← h.sweep] at key
  constructor
  · intro hno l₁ x hx hn k hk
    have hall := key.mp (fun y hy hg hmark ↦ hno y hy ((hgood_iff y hy).mp hg) hmark)
    refine (hall l₁ x hx ((hgood_iff x hx.mem).mpr hn) k hk).imp_right fun hout ↦ ?_
    exact ⟨hout.1, hout.2.1⟩
  · intro hsafe x hx hn hmark
    refine key.mpr (fun l₁ y hy hg k hk ↦ ?_) x hx ((hgood_iff x hx).mpr hn) hmark
    refine (hsafe l₁ y hy ((hgood_iff y hy.mem).mp hg) k hk).imp_right fun hout ↦ ?_
    exact ⟨hout.1, hout.2, hout.1⟩

variable [UnorderedSet S AbsRange] [RTree T S]

/-- What is calculated are heads. -/
theorem head_of_mem_visits {depth : Nat} {cxt : ModelContext S T} (hreg : cxt.Registered depth)
    {M : S} {D : Option S}
    (hD : ∀ d ∈ optionalCells D, ∃ pos cell, cxt.Head pos cell ∧ d = cxt.srcRange cell pos)
    {x : Visit} (hx : x ∈ cxt.visits (cxt.tracker.queryAndSortDirtyCells M D).2) :
    cxt.Head x.pos x.cell := by
  obtain ⟨r, hr, hcell, hpos⟩ := mem_visits.mp hx
  obtain ⟨cell, hhead⟩ := (hreg.headRange hD hr).head
  obtain rfl : x.cell = cell := by
    cases hcell.symm.trans hhead.formula
    rfl
  rwa [hpos]

/-- After a partial calculation has been prepared, no cell is marked in error exactly
when every formula cell that a listed cell refers to is listed before it, or is not
listed and has been found safe in an earlier calculation. -/
theorem noFalseMark_iff {depth : Nat} {cxt cxt' : ModelContext S T} (hwf : cxt.GroupsWF)
    (hreg : cxt.Registered depth) {M : S} {D : Option S}
    (hD : ∀ d ∈ optionalCells D, ∃ pos cell, cxt.Head pos cell ∧ d = cxt.srcRange cell pos)
    {entries : List QueueEntry}
    (hrun : prepare (cxt.tracker.queryAndSortDirtyCells M D).2 cxt = .ok entries cxt') :
    NoFalseMark (cxt.tracker.queryAndSortDirtyCells M D).2 cxt cxt' ↔
      cxt.PrecedentsSafe (cxt.tracker.queryAndSortDirtyCells M D).2 :=
  ((wp_prepare _ cxt).of_ok hrun).2.noFalseMark_iff_precedentsSafe hwf
    fun _ hx ↦ head_of_mem_visits hreg hD hx

/-! ### A cached result -/

/-- A reference relative to the cell it is in. -/
def relativeRef (row column : Int) : FormulaToken :=
  .singleRef ⟨0, row, column, false, false, false⟩

/-- The formula `A1+C1` in the cell `B1`. -/
def cachedCell : FormulaCell := ⟨[relativeRef 0 (-1), .plus, relativeRef 0 1], -1, -1, 1⟩

/-- The formula `1` in the cell `A1`, the formula `A1+C1` in `B1`, both loaded with their
results, and the value 2 in `C1`. -/
def cachedCells : ModelContext Ranges (ListTree Ranges) :=
  ofCells
    [(⟨0, 0, 0⟩, .formula ⟨[.value 1], -1, -1, 0⟩), (⟨0, 0, 1⟩, .formula cachedCell),
      (⟨0, 0, 2⟩, .numeric 2)]
    [⟨some (.value 1), ⟨1, 1⟩, false⟩, ⟨some (.value 3), ⟨1, 1⟩, false⟩]

/-- The same workbook after its formula cells have been registered. -/
def cachedContext : ModelContext Ranges (ListTree Ranges) :=
  registerAll 0 [⟨0, 0, 0⟩, ⟨0, 0, 1⟩] cachedCells

/-- The cell `C1` is modified. -/
def cachedModified : Ranges := insert empty (⟨0, 0, 2⟩ : AbsAddress).toRange

/-- The workbook when a calculation has been prepared. -/
def cachedPrepared : ModelContext Ranges (ListTree Ranges) :=
  finalState (prepare [⟨⟨0, 0, 1⟩, ⟨0, 0, 1⟩⟩]) cachedContext

theorem queryAndSort_cached : (cachedContext.tracker.queryAndSortDirtyCells cachedModified none).2 =
    [⟨⟨0, 0, 1⟩, ⟨0, 0, 1⟩⟩] := by
  decide +kernel

theorem prepare_cached :
    prepare (cachedContext.tracker.queryAndSortDirtyCells cachedModified none).2
    cachedContext = .ok [⟨some cachedCell, ⟨0, 0, 1⟩⟩] cachedPrepared := by
  rw [queryAndSort_cached]
  rfl

theorem getFormulaCell_cached {a : AbsAddress} {c : FormulaCell}
    (h : cachedContext.getFormulaCell a = .ok (some c)) :
    (a = ⟨0, 0, 0⟩ ∧ c = ⟨[.value 1], -1, -1, 0⟩) ∨ (a = ⟨0, 0, 1⟩ ∧ c = cachedCell) := by
  have hmem := mem_of_getFormulaCell (show cachedCells.getFormulaCell a = .ok (some c) from h)
  simpa using hmem

theorem groupsWF_cached : cachedContext.GroupsWF where
  tokens a b ca cb ha hb hstatus := by
    rcases getFormulaCell_cached ha with ⟨rfl, rfl⟩ | ⟨rfl, rfl⟩ <;>
    rcases getFormulaCell_cached hb with ⟨rfl, rfl⟩ | ⟨rfl, rfl⟩
    · exact ⟨rfl, rfl⟩
    · exact absurd hstatus (by decide)
    · exact absurd hstatus (by decide)
    · exact ⟨rfl, rfl⟩
  head a ca ha := by
    rcases getFormulaCell_cached ha with ⟨rfl, rfl⟩ | ⟨rfl, rfl⟩
    · exact ⟨_, ⟨rfl, rfl⟩, rfl⟩
    · exact ⟨_, ⟨rfl, rfl⟩, rfl⟩

theorem registered_cached : cachedContext.Registered 0 := by
  refine registered_of_forM (l := [⟨0, 0, 0⟩, ⟨0, 0, 1⟩])
    (show cachedCells.tracker = .new from rfl) ?_ rfl
  intro pos
  constructor
  · intro hpos
    rcases List.mem_cons.mp hpos with rfl | hpos
    · exact ⟨_, rfl, rfl⟩
    · rw [List.mem_singleton.mp hpos]
      exact ⟨_, rfl, rfl⟩
  · rintro ⟨cell, hcell, _⟩
    rcases getFormulaCell_cached hcell with ⟨rfl, _⟩ | ⟨rfl, _⟩ <;> simp

/-- Here a cell depends only on cells to its left. -/
theorem column_lt_of_dependsOn_cached {a b : AbsAddress} (h : cachedContext.DependsOn a b) :
    b.column < a.column := by
  obtain ⟨cell, hcell, ⟨k, cb, hcb, _⟩, t, ht, hrefers⟩ := h
  rcases getFormulaCell_cached hcell with ⟨rfl, rfl⟩ | ⟨rfl, rfl⟩
  · have hmem := mem_of_occurs_of_direct ⟨0, 0, 0⟩ (by simp [DirectToken]) ht
    rw [List.mem_singleton.mp hmem] at hrefers
    exact hrefers.elim
  · have hmem := mem_of_occurs_of_direct ⟨0, 0, 1⟩
      (by simp [cachedCell, relativeRef, DirectToken]) ht
    rcases getFormulaCell_cached hcb with ⟨rfl, _⟩ | ⟨rfl, _⟩
    · exact Int.zero_lt_one
    · simp only [cachedCell, List.mem_cons, List.not_mem_nil, or_false] at hmem
      rcases hmem with rfl | rfl | rfl
      · exact absurd (show (⟨0, 0, 1⟩ : AbsAddress) = ⟨0, 0, 0⟩ from hrefers) (by decide)
      · exact hrefers.elim
      · exact absurd (show (⟨0, 0, 1⟩ : AbsAddress) = ⟨0, 0, 2⟩ from hrefers) (by decide)

/-- A partial calculation may mark a cell that is not circular: a cell whose result has
been loaded is never taken for safe. -/
theorem not_noFalseMark_cached :
    ¬ ∀ (depth : Nat) (cxt cxt' : ModelContext Ranges (ListTree Ranges)) (M : Ranges)
      (D : Option Ranges) (entries : List QueueEntry), cxt.GroupsWF → cxt.Registered depth →
      (∀ d ∈ optionalCells D, ∃ pos cell, cxt.Head pos cell ∧ d = cxt.srcRange cell pos) →
      (∀ a k, cxt.HasStatus a k → (cxt.statuses k).result.isSome = true) →
      prepare (cxt.tracker.queryAndSortDirtyCells M D).2 cxt = .ok entries cxt' →
      NoFalseMark (cxt.tracker.queryAndSortDirtyCells M D).2 cxt cxt' := by
  intro h
  have hresults : ∀ a k, cachedContext.HasStatus a k →
      (cachedContext.statuses k).result.isSome = true := by
    rintro a _ ⟨c, hc, rfl⟩
    rcases getFormulaCell_cached hc with ⟨rfl, rfl⟩ | ⟨rfl, rfl⟩ <;> rfl
  have hno := h 0 cachedContext cachedPrepared cachedModified none _ groupsWF_cached
    registered_cached (fun _ hd ↦ absurd hd List.not_mem_nil) hresults prepare_cached
  rw [queryAndSort_cached] at hno
  refine hno ⟨cachedCell, ⟨0, 0, 1⟩⟩ (mem_visits.mpr ⟨_, List.mem_cons_self, rfl, rfl⟩) ?_ rfl
  exact not_circular_of_decreasing (f := AbsAddress.column)
    (fun _ _ ↦ column_lt_of_dependsOn_cached) _

theorem noFalseMark_iff_cached :
    NoFalseMark (cachedContext.tracker.queryAndSortDirtyCells cachedModified none).2 cachedContext
        cachedPrepared ↔
      cachedContext.PrecedentsSafe
        (cachedContext.tracker.queryAndSortDirtyCells cachedModified none).2 :=
  noFalseMark_iff groupsWF_cached registered_cached (fun _ hd ↦ absurd hd List.not_mem_nil)
    prepare_cached

/-! ## When exactly the circular cells are marked -/

/-- The head of a group that a dirty range leads to depends, in one or more steps, on a
cell of the group with which the dirty range begins. -/
theorem transGen_dependsOn_of_step {depth : Nat} {cxt : ModelContext S T} (hwf : cxt.GroupsWF)
    (hreg : cxt.Registered depth) (hintact : cxt.GroupsIntact) {m s : AbsRange}
    (hm : cxt.HeadRange m) {cm : FormulaCell} (hcm : cxt.Head m.first cm)
    (h : TransGen cxt.tracker.Step m s) :
    ∃ pos cell a, cxt.Head pos cell ∧ s = cxt.srcRange cell pos ∧ cxt.HasStatus a cm.status ∧
      TransGen cxt.DependsOn pos a := by
  induction h with
  | single h =>
    obtain ⟨pos, cell, a, hhead, rfl, ha, hdep⟩ := dependsOn_of_step hreg hintact hm hcm h
    exact ⟨pos, cell, a, hhead, rfl, ha, .single hdep⟩
  | tail _ h ih =>
    obtain ⟨pos, cell, a, hhead, rfl, ha, hdep⟩ := ih
    have hhead' : cxt.Head (cxt.srcRange cell pos).first cell := by rwa [srcRange_first]
    obtain ⟨pos', cell', a', hhead'', rfl, ha', hdep'⟩ :=
      dependsOn_of_step hreg hintact ⟨pos, cell, hhead, .inl rfl⟩ hhead' h
    obtain ⟨c, hc, hca⟩ := TransGen.head'_iff.mp hdep
    refine ⟨pos', cell', a, hhead'', rfl, ha, .head hdep' ?_⟩
    exact .head' (hc.congr hwf hhead.hasStatus ha') hca

/-- If what a cell depends on is affected by the cell in turn, the cell is circular. -/
theorem circular_of_step_back {depth : Nat} {cxt : ModelContext S T} (hwf : cxt.GroupsWF)
    (hreg : cxt.Registered depth) (hintact : cxt.GroupsIntact) {m : AbsRange}
    (hm : cxt.HeadRange m) {cm : FormulaCell} (hcm : cxt.Head m.first cm) {pos b : AbsAddress}
    {cell : FormulaCell} (hhead : cxt.Head pos cell) (hb : cxt.HasStatus b cell.status)
    (hdep : cxt.DependsOn m.first b)
    (h : ReflTransGen cxt.tracker.Step m (cxt.srcRange cell pos)) :
    Circular cxt.DependsOn m.first := by
  rcases reflTransGen_iff_eq_or_transGen.mp h with heq | h
  · -- the cell depends on its own group
    have hfirst : pos = m.first := by rw [← heq, srcRange_first]
    subst hfirst
    exact ⟨b, .single hdep, .single (hdep.congr hwf hhead.hasStatus hb)⟩
  · obtain ⟨pos', cell', a, hhead', heq, ha, hback⟩ :=
      transGen_dependsOn_of_step hwf hreg hintact hm hcm h
    have hfirst : pos = pos' := by
      rw [← srcRange_first cxt cell pos, heq, srcRange_first]
    subst hfirst
    cases hhead.unique hhead'
    obtain ⟨c, hc, hca⟩ := TransGen.head'_iff.mp hback
    have hba : TransGen cxt.DependsOn b a := .head' (hc.congr hwf hhead.hasStatus hb) hca
    have hab : cxt.DependsOn a b := hdep.congr hwf hcm.hasStatus ha
    exact ⟨b, .single hdep, hba.tail hab⟩

/-- The ranges of a list before one that is visited. -/
theorem splitAt_visits_iff {wb : Workbook} {v : List AbsRange} {l₁ : List Visit} {x : Visit} :
    SplitAt (wb.visits v) l₁ x ↔
      ∃ v₁ r, SplitAt v v₁ r ∧ wb.visits v₁ = l₁ ∧ wb.visitAt r.first = some x := by
  constructor
  · rintro ⟨l₂, h⟩
    obtain ⟨v₁, v₂, rfl, rfl, h₂⟩ := List.filterMap_eq_append_iff.mp h
    obtain ⟨v₃, r, v₄, rfl, hnone, hr, _⟩ := List.filterMap_eq_cons_iff.mp h₂
    refine ⟨v₁ ++ v₃, r, ⟨v₄, by simp⟩, ?_, hr⟩
    have hempty : wb.visits v₃ = [] := List.filterMap_eq_nil_iff.mpr hnone
    change (v₁ ++ v₃).filterMap _ = _
    rw [List.filterMap_append]
    exact (congrArg _ hempty).trans (List.append_nil _)
  · rintro ⟨v₁, r, ⟨v₂, rfl⟩, rfl, hr⟩
    refine ⟨wb.visits v₂, ?_⟩
    change (v₁ ++ r :: v₂).filterMap _ = _
    rw [List.filterMap_append]
    exact congrArg _ (visits_cons_of_some hr v₂)

omit [UnorderedSet S AbsRange] [RTree T S] in
/-- When all heads are visited, a status leads to a cycle of the sweep exactly when the
cells that have it are circular. -/
theorem circular_iff_circular_sees {cxt : ModelContext S T} (hwf : cxt.GroupsWF)
    (hdirect : cxt.AllDirect) {l : List Visit} (hheads : ∀ x ∈ l, cxt.Head x.pos x.cell)
    (hall : ∀ pos cell, cxt.Head pos cell → ⟨cell, pos⟩ ∈ l) {a : AbsAddress} {k : Nat}
    (ha : cxt.HasStatus a k) :
    Circular cxt.DependsOn a ↔ Circular (Sees Visit.key (Visit.seen cxt.toWorkbook) l) k := by
  refine circular_iff_of_simulation (R := cxt.HasStatus) (fun _ _ _ ↦ HasStatus.unique) ?_ ?_
    (fun _ _ _ _ ha ha' hdep ↦ hdep.congr hwf ha ha') ha
  · rintro a b k ha hdep
    obtain ⟨k', hb⟩ : ∃ k', cxt.HasStatus b k' := by
      obtain ⟨_, _, hb, _⟩ := hdep
      exact hb
    obtain ⟨ca, hca, rfl⟩ := ha
    obtain ⟨h, hhead, hstatus⟩ := hwf.head a ca hca
    have hdep' : cxt.DependsOn (ca.origin a) b :=
      hdep.congr hwf ⟨ca, hca, rfl⟩ (hstatus ▸ hhead.hasStatus)
    exact ⟨k', hb, ⟨h, ca.origin a⟩, hall _ _ hhead, hstatus,
      mem_seen_of_dependsOn hdirect hhead hb hdep'⟩
  · rintro a k k' ha ⟨x, hx, rfl, hk'⟩
    obtain ⟨b, hb, hdep⟩ := dependsOn_of_mem_seen (hheads x hx) hk'
    exact ⟨b, hb, hdep.congr hwf (hheads x hx).hasStatus ha⟩

/-- Every cell carries the error for a reference without a result exactly when it is
circular. -/
def ExactMark (cxt cxt' : ModelContext S T) : Prop :=
  ∀ a k, cxt.HasStatus a k →
    ((cxt'.statuses k).result = some (.error .refResultNotAvailable) ↔
      Circular cxt.DependsOn a)

/-- Where the first cell of a volatile group of several cells is listed by itself, and
the group is not circular, what the group depends on is listed before. -/
def VolatileHeadsLate (v : List AbsRange) (cxt : ModelContext S T) : Prop :=
  ∀ pos cell, cxt.Head pos cell → hasVolatile cell.tokens = true →
    cxt.srcRange cell pos ≠ pos.toRange → ¬ Circular cxt.DependsOn pos →
    ∀ v₁, SplitAt v v₁ pos.toRange → ∀ b k, cxt.DependsOn pos b → cxt.HasStatus b k →
      ∃ r ∈ v₁, cxt.HasStatus r.first k

/-- What a listed group depends on is listed before the group unless the group is
circular. -/
theorem exists_mem_before {depth : Nat} {cxt : ModelContext S T} (hwf : cxt.GroupsWF)
    (hreg : cxt.Registered depth) (hintact : cxt.GroupsIntact) (hdirect : cxt.AllDirect)
    {M : S} {D : Option S}
    (hall : ∀ pos cell, cxt.Head pos cell →
      cxt.srcRange cell pos ∈ (cxt.tracker.queryAndSortDirtyCells M D).2)
    {pos b : AbsAddress} {cell : FormulaCell} {k : Nat} (hhead : cxt.Head pos cell)
    (hcirc : ¬ Circular cxt.DependsOn pos) (hdep : cxt.DependsOn pos b) (hb : cxt.HasStatus b k)
    {v₁ : List AbsRange}
    (hsplit : SplitAt (cxt.tracker.queryAndSortDirtyCells M D).2 v₁ (cxt.srcRange cell pos)) :
    ∃ r ∈ v₁, cxt.HasStatus r.first k := by
  obtain ⟨cb, hcb, rfl⟩ := hb
  obtain ⟨hb, hbhead, hstatus⟩ := hwf.head b cb hcb
  have hbstatus : cxt.HasStatus b hb.status := ⟨cb, hcb, hstatus.symm⟩
  have hm : cxt.HeadRange (cxt.srcRange cell pos) := ⟨pos, cell, hhead, .inl rfl⟩
  have hstep : cxt.tracker.Step (cxt.srcRange hb (cb.origin b)) (cxt.srcRange cell pos) := by
    obtain ⟨_, hcell, _, t, ht, hrefers⟩ := hdep
    cases hhead.formula.symm.trans hcell
    rw [hhead.origin] at hrefers
    have hmem := mem_of_occurs_of_direct _ (hdirect pos cell hhead) ht
    have href : IsRef t := by
      have hdirect' := hdirect pos cell hhead t hmem
      cases t with
      | singleRef addr => trivial
      | rangeRef r => trivial
      | tableRef table => exact hdirect'.elim
      | _ => exact hrefers.elim
    refine step_of_refersTo hreg ((hintact _ _ hbhead b).mpr hbstatus) ?_ hbstatus.inWorkbook
      hhead ht href hrefers
    rw [srcRange_first, FormulaCell.origin_sheet]
  have hdirty := mem_queryAndSort.mp (hall _ _ hbhead)
  rcases before_queryAndSort hstep hdirty with hbefore | hback
  · refine ⟨cxt.srcRange hb (cb.origin b), ?_, ?_⟩
    · exact hsplit.mem_of_before (nodup_queryAndSort ..) hbefore
    · rw [srcRange_first, ← hstatus]
      exact hbhead.hasStatus
  · have hfirst : (cxt.srcRange cell pos).first = pos := srcRange_first ..
    have hcm : cxt.Head (cxt.srcRange cell pos).first cell := by rwa [hfirst]
    have hdep' : cxt.DependsOn (cxt.srcRange cell pos).first b := by rwa [hfirst]
    have hc := circular_of_step_back hwf hreg hintact hm hcm hbhead hbstatus hdep' hback
    rw [hfirst] at hc
    exact absurd hc hcirc

/-- After a calculation of all cells has been prepared, exactly the circular cells are
marked if and only if no volatile group of several cells that is not circular is
listed by its first cell before something that it depends on. -/
theorem exactMark_iff {depth : Nat} {cxt cxt' : ModelContext S T} (hwf : cxt.GroupsWF)
    (hintact : cxt.GroupsIntact) (hreg : cxt.Registered depth) (hdirect : cxt.AllDirect)
    {M : S} {D : Option S}
    (hD : ∀ d ∈ optionalCells D, ∃ pos cell, cxt.Head pos cell ∧ d = cxt.srcRange cell pos)
    (hall : ∀ pos cell, cxt.Head pos cell →
      cxt.srcRange cell pos ∈ (cxt.tracker.queryAndSortDirtyCells M D).2)
    {entries : List QueueEntry}
    (hrun : prepare (cxt.tracker.queryAndSortDirtyCells M D).2 cxt = .ok entries cxt') :
    ExactMark cxt cxt' ↔ cxt.VolatileHeadsLate (cxt.tracker.queryAndSortDirtyCells M D).2 := by
  have h := ((wp_prepare _ cxt).of_ok hrun).2
  have hheads : ∀ x ∈ cxt.visits (cxt.tracker.queryAndSortDirtyCells M D).2,
      cxt.Head x.pos x.cell := fun _ hx ↦ head_of_mem_visits hreg hD hx
  have hrange : ∀ r ∈ (cxt.tracker.queryAndSortDirtyCells M D).2, cxt.HeadRange r :=
    fun r hr ↦ hreg.headRange hD hr
  have hbefore : ∀ pos b cell k v₁, cxt.Head pos cell → ¬ Circular cxt.DependsOn pos →
      cxt.DependsOn pos b → cxt.HasStatus b k →
      SplitAt (cxt.tracker.queryAndSortDirtyCells M D).2 v₁ (cxt.srcRange cell pos) →
      ∃ r ∈ v₁, cxt.HasStatus r.first k :=
    fun _ _ _ _ _ h₁ h₂ h₃ h₄ h₅ ↦
      exists_mem_before hwf hreg hintact hdirect hall h₁ h₂ h₃ h₄ h₅
  generalize (cxt.tracker.queryAndSortDirtyCells M D).2 = v at *
  have hvisit : ∀ pos cell, cxt.Head pos cell → ⟨cell, pos⟩ ∈ cxt.visits v := by
    intro pos cell hhead
    refine mem_visits.mpr ⟨_, hall pos cell hhead, ?_, (srcRange_first ..).symm⟩
    rw [srcRange_first]
    exact hhead.formula
  have hcirc : ∀ a k, cxt.HasStatus a k → (Circular cxt.DependsOn a ↔
      Circular (Sees Visit.key (Visit.seen cxt.toWorkbook) (cxt.visits v)) k) :=
    fun a k ha ↦ circular_iff_circular_sees hwf hdirect hheads hvisit ha
  have hseen : ∀ x ∈ cxt.visits v, ∀ y ∈ cxt.visits v, x.key = y.key →
      x.seen cxt.toWorkbook = y.seen cxt.toWorkbook := by
    intro x hx y hy hkey
    rw [hwf.visit_eq (hheads x hx) (hheads y hy) hkey]
  have hclosed : ∀ x ∈ cxt.visits v, ∀ k ∈ x.seen cxt.toWorkbook,
      ∃ y ∈ cxt.visits v, y.key = k := by
    intro x hx k hk
    obtain ⟨b, ⟨cb, hcb, rfl⟩, _⟩ := dependsOn_of_mem_seen (hheads x hx) hk
    obtain ⟨hb, hbhead, hstatus⟩ := hwf.head b cb hcb
    exact ⟨_, hvisit _ _ hbhead, hstatus⟩
  have key := forall_marked_iff_circular_iff hseen
    (s := resetState (cxt.visits v) cxt.sweepState) (fun x hx hsafe ↦ hsafe.2 x hx rfl)
    (fun x hx hmark ↦ hmark.2 x hx rfl) hclosed
  rw [← h.sweep] at key
  have hexact : ExactMark cxt cxt' ↔ ∀ x ∈ cxt.visits v, x.key ∈ cxt'.sweepState.marked ↔
      Circular (Sees Visit.key (Visit.seen cxt.toWorkbook) (cxt.visits v)) x.key := by
    constructor
    · intro hex x hx
      have hstatus := (hheads x hx).hasStatus
      exact (hex x.pos x.key hstatus).trans (hcirc _ _ hstatus)
    · rintro hex a k ⟨ca, hca, rfl⟩
      obtain ⟨c, hchead, hstatus⟩ := hwf.head a ca hca
      rw [hcirc a _ ⟨ca, hca, rfl⟩, ← hstatus]
      exact hex _ (hvisit _ _ hchead)
  rw [hexact, key]
  constructor
  · intro horder pos cell hhead _ _ hn v₁ hsplit b k hdep hb
    have hx : SplitAt (cxt.visits v) (cxt.visits v₁) ⟨cell, pos⟩ :=
      splitAt_visits_iff.mpr ⟨v₁, _, hsplit, rfl, visitAt_eq_some_iff.mpr ⟨hhead.formula, rfl⟩⟩
    have hn' := mt (hcirc pos _ hhead.hasStatus).mpr hn
    obtain ⟨y, hy, rfl⟩ := horder _ _ hx hn' k (mem_seen_of_dependsOn hdirect hhead hb hdep)
    obtain ⟨r, hr, hcell, _⟩ := mem_visits.mp hy
    exact ⟨r, hr, y.cell, hcell, rfl⟩
  · intro hlate l₁ x hx hn k hk
    obtain ⟨v₁, r, hsplit, rfl, hvis⟩ := splitAt_visits_iff.mp hx
    obtain ⟨hcell, hpos⟩ := visitAt_eq_some_iff.mp hvis
    have hhead := hheads x hx.mem
    have hn' : ¬ Circular cxt.DependsOn x.pos := mt (hcirc x.pos _ hhead.hasStatus).mp hn
    obtain ⟨b, hb, hdep⟩ := dependsOn_of_mem_seen hhead hk
    obtain ⟨r', hr', c, hc, rfl⟩ : ∃ r' ∈ v₁, cxt.HasStatus r'.first k := by
      obtain ⟨pos, cell, hcell', rfl | ⟨rfl, hv⟩⟩ := hrange r hsplit.mem
      · rw [srcRange_first] at hpos
        rw [hpos] at hn' hdep
        exact hbefore _ _ _ _ _ hcell' hn' hdep hb hsplit
      · rw [AbsAddress.toRange_first] at hpos
        rw [hpos] at hn' hdep
        by_cases hone : cxt.srcRange cell pos = pos.toRange
        · exact hbefore _ _ _ _ _ hcell' hn' hdep hb (hone ▸ hsplit)
        · exact hlate pos cell hcell' hv hone hn' v₁ hsplit b k hdep hb
    exact ⟨⟨c, r'.first⟩, mem_visits.mpr ⟨r', hr', hc, rfl⟩, rfl⟩

/-! ### A volatile array formula -/

/-- A cell of the group `A1:A2`, which holds `NOW()+B1`. -/
def arrayCell (row : Int) : FormulaCell where
  tokens := [.function .funcNow, .parenOpen, .parenClose, .plus, relativeRef 0 1]
  groupRow := row
  groupColumn := 0
  status := 0

/-- The formula `C1` in the cell `B1`. -/
def plainCell : FormulaCell := ⟨[relativeRef 0 1], -1, -1, 1⟩

/-- The array formula in `A1:A2`, the formula `C1` in `B1` and the value 1 in `C1`. -/
def arrayCells : ModelContext Ranges (ListTree Ranges) :=
  ofCells
    [(⟨0, 0, 0⟩, .formula (arrayCell 0)), (⟨0, 1, 0⟩, .formula (arrayCell 1)),
      (⟨0, 0, 1⟩, .formula plainCell), (⟨0, 0, 2⟩, .numeric 1)]
    [.new ⟨2, 1⟩, .new ⟨1, 1⟩]

/-- The same workbook after its formula cells have been registered. -/
def arrayContext : ModelContext Ranges (ListTree Ranges) :=
  registerAll 0 [⟨0, 0, 0⟩, ⟨0, 0, 1⟩] arrayCells

/-- The cell `C1` is modified. -/
def arrayModified : Ranges := insert empty (⟨0, 0, 2⟩ : AbsAddress).toRange

/-- The ranges that are calculated: the first cell of the group, the cell that the group
depends on, and the group. -/
def arraySorted : List AbsRange :=
  [⟨⟨0, 0, 0⟩, ⟨0, 0, 0⟩⟩, ⟨⟨0, 0, 1⟩, ⟨0, 0, 1⟩⟩, ⟨⟨0, 0, 0⟩, ⟨0, 1, 0⟩⟩]

/-- The workbook when the calculation has been prepared. -/
def arrayPrepared : ModelContext Ranges (ListTree Ranges) :=
  finalState (prepare arraySorted) arrayContext

theorem queryAndSort_array :
    (arrayContext.tracker.queryAndSortDirtyCells arrayModified none).2 = arraySorted := by
  decide +kernel

theorem prepare_array :
    prepare (arrayContext.tracker.queryAndSortDirtyCells arrayModified none).2 arrayContext =
      .ok [⟨some (arrayCell 0), ⟨0, 0, 0⟩⟩, ⟨some plainCell, ⟨0, 0, 1⟩⟩,
        ⟨some (arrayCell 0), ⟨0, 0, 0⟩⟩] arrayPrepared := by
  rw [queryAndSort_array]
  rfl

theorem getFormulaCell_array {a : AbsAddress} {c : FormulaCell}
    (h : arrayContext.getFormulaCell a = .ok (some c)) :
    (a = ⟨0, 0, 0⟩ ∧ c = arrayCell 0) ∨ (a = ⟨0, 1, 0⟩ ∧ c = arrayCell 1) ∨
      (a = ⟨0, 0, 1⟩ ∧ c = plainCell) := by
  have hmem := mem_of_getFormulaCell (show arrayCells.getFormulaCell a = .ok (some c) from h)
  simpa using hmem

theorem head_array {pos : AbsAddress} {cell : FormulaCell} (h : arrayContext.Head pos cell) :
    (pos = ⟨0, 0, 0⟩ ∧ cell = arrayCell 0) ∨ (pos = ⟨0, 0, 1⟩ ∧ cell = plainCell) := by
  rcases getFormulaCell_array h.formula with h' | ⟨rfl, rfl⟩ | h'
  · exact .inl h'
  · exact absurd h.origin (by decide)
  · exact .inr h'

theorem groupsWF_array : arrayContext.GroupsWF where
  tokens a b ca cb ha hb hstatus := by
    rcases getFormulaCell_array ha with ⟨rfl, rfl⟩ | ⟨rfl, rfl⟩ | ⟨rfl, rfl⟩ <;>
    rcases getFormulaCell_array hb with ⟨rfl, rfl⟩ | ⟨rfl, rfl⟩ | ⟨rfl, rfl⟩ <;>
    first
    | exact ⟨rfl, rfl⟩
    | exact absurd hstatus (by decide)
  head a ca ha := by
    rcases getFormulaCell_array ha with ⟨rfl, rfl⟩ | ⟨rfl, rfl⟩ | ⟨rfl, rfl⟩
    · exact ⟨arrayCell 0, ⟨rfl, rfl⟩, rfl⟩
    · exact ⟨arrayCell 0, ⟨rfl, rfl⟩, rfl⟩
    · exact ⟨plainCell, ⟨rfl, rfl⟩, rfl⟩

theorem registered_array : arrayContext.Registered 0 := by
  refine registered_of_forM (l := [⟨0, 0, 0⟩, ⟨0, 0, 1⟩])
    (show arrayCells.tracker = .new from rfl) ?_ rfl
  intro pos
  constructor
  · intro hpos
    rcases List.mem_cons.mp hpos with rfl | hpos
    · exact ⟨_, rfl, rfl⟩
    · rw [List.mem_singleton.mp hpos]
      exact ⟨_, rfl, rfl⟩
  · rintro ⟨cell, hcell⟩
    rcases head_array hcell with ⟨rfl, _⟩ | ⟨rfl, _⟩ <;> simp

theorem groupsIntact_array : arrayContext.GroupsIntact := by
  rintro pos cell hhead ⟨sheet, row, column⟩
  rw [AbsRange.contains_iff]
  constructor
  · rcases head_array hhead with ⟨rfl, rfl⟩ | ⟨rfl, rfl⟩
    · change 0 ≤ sheet ∧ sheet ≤ 0 ∧ 0 ≤ row ∧ row ≤ 1 ∧ 0 ≤ column ∧ column ≤ 0 → _
      intro h
      obtain ⟨rfl, rfl, rfl | rfl⟩ : sheet = 0 ∧ column = 0 ∧ (row = 0 ∨ row = 1) := by omega
      · exact ⟨arrayCell 0, rfl, rfl⟩
      · exact ⟨arrayCell 1, rfl, rfl⟩
    · change 0 ≤ sheet ∧ sheet ≤ 0 ∧ 0 ≤ row ∧ row ≤ 0 ∧ 1 ≤ column ∧ column ≤ 1 → _
      intro h
      obtain ⟨rfl, rfl, rfl⟩ : sheet = 0 ∧ row = 0 ∧ column = 1 := by omega
      exact ⟨plainCell, rfl, rfl⟩
  · rintro ⟨c, hc, hstatus⟩
    rcases head_array hhead with ⟨rfl, rfl⟩ | ⟨rfl, rfl⟩ <;>
    rcases getFormulaCell_array hc with ⟨ha, rfl⟩ | ⟨ha, rfl⟩ | ⟨ha, rfl⟩ <;>
    cases ha <;>
    first
    | exact absurd hstatus (by decide)
    | decide

theorem allDirect_array : arrayContext.AllDirect := by
  intro pos cell hhead
  rcases head_array hhead with ⟨rfl, rfl⟩ | ⟨rfl, rfl⟩
  · simp [arrayCell, relativeRef, DirectToken]
  · simp [plainCell, relativeRef, DirectToken]

theorem srcRange_mem_array (pos : AbsAddress) (cell : FormulaCell)
    (hhead : arrayContext.Head pos cell) : arrayContext.srcRange cell pos ∈
      (arrayContext.tracker.queryAndSortDirtyCells arrayModified none).2 := by
  rw [queryAndSort_array]
  rcases head_array hhead with ⟨rfl, rfl⟩ | ⟨rfl, rfl⟩
  · exact List.mem_cons_of_mem _ (List.mem_cons_of_mem _ List.mem_cons_self)
  · exact List.mem_cons_of_mem _ List.mem_cons_self

/-- Here a cell depends only on cells to its right. -/
theorem column_lt_of_dependsOn_array {a b : AbsAddress} (h : arrayContext.DependsOn a b) :
    -b.column < -a.column := by
  obtain ⟨cell, hcell, ⟨k, cb, hcb, _⟩, t, ht, hrefers⟩ := h
  have hgroup : ∀ row, t ∈ (arrayCell row).tokens →
      arrayContext.RefersTo ⟨0, 0, 0⟩ t b → b = ⟨0, 0, 1⟩ := by
    intro row hmem hrefers
    simp only [arrayCell, List.mem_cons, List.not_mem_nil, or_false] at hmem
    rcases hmem with rfl | rfl | rfl | rfl | rfl
    · exact hrefers.elim
    · exact hrefers.elim
    · exact hrefers.elim
    · exact hrefers.elim
    · exact hrefers
  have hdirect : ∀ row, ∀ t ∈ (arrayCell row).tokens, DirectToken ⟨0, 0, 0⟩ t := by
    simp [arrayCell, relativeRef, DirectToken]
  rcases getFormulaCell_array hcell with ⟨rfl, rfl⟩ | ⟨rfl, rfl⟩ | ⟨rfl, rfl⟩
  · rw [hgroup 0 (mem_of_occurs_of_direct _ (hdirect 0) ht) hrefers]
    decide
  · rw [hgroup 1 (mem_of_occurs_of_direct _ (hdirect 1) ht) hrefers]
    decide
  · have hmem := mem_of_occurs_of_direct ⟨0, 0, 1⟩
      (by simp [plainCell, relativeRef, DirectToken]) ht
    rw [List.mem_singleton.mp hmem] at hrefers
    obtain rfl : b = ⟨0, 0, 2⟩ := hrefers
    rcases getFormulaCell_array hcb with ⟨hb, _⟩ | ⟨hb, _⟩ | ⟨hb, _⟩ <;>
    exact absurd hb (by decide)

/-- A cell that is not circular may be marked in a calculation of all cells: the first
cell of a volatile group is listed by itself as well, and not after the cells that the
group depends on. -/
theorem not_exactMark_array :
    ¬ ∀ (depth : Nat) (cxt cxt' : ModelContext Ranges (ListTree Ranges)) (M : Ranges)
      (D : Option Ranges) (entries : List QueueEntry), cxt.GroupsWF → cxt.GroupsIntact →
      cxt.Registered depth → cxt.AllDirect →
      (∀ d ∈ optionalCells D, ∃ pos cell, cxt.Head pos cell ∧ d = cxt.srcRange cell pos) →
      (∀ pos cell, cxt.Head pos cell →
        cxt.srcRange cell pos ∈ (cxt.tracker.queryAndSortDirtyCells M D).2) →
      prepare (cxt.tracker.queryAndSortDirtyCells M D).2 cxt = .ok entries cxt' →
      ExactMark cxt cxt' := by
  intro h
  have hexact := h 0 arrayContext arrayPrepared arrayModified none _ groupsWF_array
    groupsIntact_array registered_array allDirect_array (fun _ hd ↦ absurd hd List.not_mem_nil)
    srcRange_mem_array prepare_array
  refine not_circular_of_decreasing (f := fun a : AbsAddress ↦ -a.column)
    (fun _ _ ↦ column_lt_of_dependsOn_array) ⟨0, 0, 0⟩ ?_
  exact (hexact ⟨0, 0, 0⟩ 0 ⟨arrayCell 0, rfl, rfl⟩).mp rfl

theorem exactMark_iff_array : ExactMark arrayContext arrayPrepared ↔
    arrayContext.VolatileHeadsLate
      (arrayContext.tracker.queryAndSortDirtyCells arrayModified none).2 :=
  exactMark_iff groupsWF_array groupsIntact_array registered_array allDirect_array
    (fun _ hd ↦ absurd hd List.not_mem_nil) srcRange_mem_array prepare_array

end ModelContext

end Ixion
