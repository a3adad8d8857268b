import Ixion.Document.Tracking
import Ixion.Calc.Settled
import Ixion.Lib.Recalc

/-!
# What a document holds after a recalculation

A calculation interprets the formula cells that are dirty, and leaves the others alone.  It is right
to do so: in a run whose edits all return, a formula cell that is not dirty has the result that its
formula comes to with the cells as they are now, or is circular and carries the error for that.
Hence all formula cells do when a calculation returns (`Edits.fresh_of_calculate`).

A cell is dirty when something modified leads to it by way of the tracker.  What a cell refers to is
tracked for it, so that the cells which are not dirty refer to such cells only; and an edit makes
dirty whatever refers to the cell that is edited.
-/

namespace Ixion

open Lib UnorderedSet DirtyCellTracker Relation

namespace Workbook

/-! ## References in documents -/

/-- Without names and tables a formula refers to a cell through one of its own references. -/
theorem NoNames.exists_ref_of_references {wb : Workbook} (h : wb.NoNames)
    (htables : wb.tableHandler = none) {cell : FormulaCell} {pos a : AbsAddress}
    (href : wb.References cell pos a) :
    ∃ t ∈ cell.tokens, IsRef t ∧ wb.RefersTo pos t a := by
  obtain ⟨t, ht, hrefers⟩ := href
  have hmem : t ∈ cell.tokens := by
    cases ht with
    | here hmem => exact hmem
    | there _ hname _ =>
      rw [h.getNamedExpression] at hname
      exact absurd hname (by rintro ⟨⟩)
  refine ⟨t, hmem, ?_, hrefers⟩
  cases t with
  | singleRef addr => trivial
  | rangeRef range => trivial
  | tableRef table =>
    obtain ⟨range, hrange, _⟩ := hrefers
    rw [tableRange, htables] at hrange
    exact absurd hrange (by rintro ⟨⟩)
  | _ => exact hrefers.elim

theorem references_of_mem {wb : Workbook} {cell : FormulaCell} {pos a : AbsAddress}
    {t : FormulaToken} (ht : t ∈ cell.tokens) (h : wb.RefersTo pos t a) :
    wb.References cell pos a :=
  ⟨t, .here ht, h⟩

/-- Formulas that are spelled alike refer to the same cells of documents. -/
theorem SameSetting.references {wb wb' : Workbook} (h : wb.SameSetting wb') (hno : wb.NoNames)
    (htables : wb.tableHandler = none) {cell cell' : FormulaCell}
    (htokens : cell'.tokens.map wb'.spell = cell.tokens.map wb.spell) {pos a : AbsAddress} :
    wb'.References cell' pos a ↔ wb.References cell pos a := by
  have hne {t : FormulaToken} (ht : IsRef t) : ∀ sid, t ≠ .string sid := by
    rintro sid rfl
    exact ht.elim
  constructor
  · intro href
    obtain ⟨t, ht, hisref, hrefers⟩ := (h.noNames hno).exists_ref_of_references
      (h.tableHandler.trans htables) href
    exact references_of_mem (mem_of_spell htokens ht (hne hisref)) (h.refersTo.mp hrefers)
  · intro href
    obtain ⟨t, ht, hisref, hrefers⟩ := hno.exists_ref_of_references htables href
    exact references_of_mem (mem_of_spell htokens.symm ht (hne hisref)) (h.refersTo.mpr hrefers)

/-! ## Cells that read the same -/

/-- Two cells read the same but for the results of formulas. -/
inductive SameContent (wb wb' : Workbook) : Cell → Cell → Prop where
  | string {sid sid' : StringId} : wb'.strPool.getString sid' = wb.strPool.getString sid →
    SameContent wb wb' (.string sid) (.string sid')
  | formula {c c' : FormulaCell} : c'.tokens.map wb'.spell = c.tokens.map wb.spell →
    c'.groupRow = c.groupRow → c'.groupColumn = c.groupColumn →
      SameContent wb wb' (.formula c) (.formula c')
  | other {c : Cell} : (∀ sid, c ≠ .string sid) → (∀ f, c ≠ .formula f) → SameContent wb wb' c c

namespace SameContent

variable {wb wb' : Workbook} {c c' : Cell}

theorem type_eq (h : SameContent wb wb' c c') : c'.type = c.type := by
  cases h <;> rfl

/-- A formula cell reads the same as another formula cell only. -/
theorem exists_formula (h : SameContent wb wb' c c') {f : FormulaCell} (hf : c = .formula f) :
    ∃ f', c' = .formula f' ∧ f'.tokens.map wb'.spell = f.tokens.map wb.spell := by
  cases h with
  | string => exact absurd hf (by rintro ⟨⟩)
  | @formula c c' htokens =>
    cases hf
    exact ⟨c', rfl, htokens⟩
  | other _ hformula => exact absurd hf (hformula f)

theorem exists_formula' (h : SameContent wb wb' c c') {f' : FormulaCell} (hf : c' = .formula f') :
    ∃ f, c = .formula f ∧ f'.tokens.map wb'.spell = f.tokens.map wb.spell := by
  cases h with
  | string => exact absurd hf (by rintro ⟨⟩)
  | @formula c c' htokens =>
    cases hf
    exact ⟨c, rfl, htokens⟩
  | other _ hformula => exact absurd hf (hformula f')

/-- The same cell reads the same where its strings do. -/
theorem of_eq (hstring : ∀ sid, c = .string sid →
      wb'.strPool.getString sid = wb.strPool.getString sid)
    (htokens : ∀ f, c = .formula f → f.tokens.map wb'.spell = f.tokens.map wb.spell) :
    SameContent wb wb' c c := by
  cases c with
  | string sid => exact .string (hstring sid rfl)
  | formula f => exact .formula (htokens f rfl) rfl rfl
  | _ => exact .other (by rintro _ ⟨⟩) (by rintro _ ⟨⟩)

end SameContent

end Workbook

namespace ModelContext

open Workbook

variable {S T : Type}

/-! ## Evaluating in another context -/

/-- A cell reads the same in two contexts to the formulas of two cells. -/
structure SameCell (cxt cxt' : ModelContext S T) (x x' : Visit) (a : AbsAddress) : Prop where
  content : SameContent cxt.toWorkbook cxt'.toWorkbook (cxt.cells a) (cxt'.cells a)
  own : ∀ c c', cxt.cells a = .formula c → cxt'.cells a = .formula c' → c'.status = x'.key →
    c.status = x.key
  result : ∀ c c', cxt.cells a = .formula c → cxt'.cells a = .formula c' →
    (cxt'.statuses c'.status).result = (cxt.statuses c.status).result

theorem SameCell.valueOf {cxt cxt' : ModelContext S T} {x x' : Visit} {a : AbsAddress}
    (h : SameCell cxt cxt' x x' a) {v : CellValue}
    (hv : cxt.valueOf (cxt.fetchResult x.key) (cxt.cells a) = .ok v) :
    cxt'.valueOf (cxt'.fetchResult x'.key) (cxt'.cells a) = .ok v := by
  obtain ⟨hcontent, hown, hresult⟩ := h
  generalize cxt.cells a = cell at hv hown hresult hcontent
  generalize cxt'.cells a = cell' at hown hresult hcontent
  cases hcontent with
  | string hsid => rw [← hv, Workbook.valueOf, Workbook.valueOf, hsid]
  | @formula c c' _ hrow hcolumn =>
    rw [Workbook.valueOf] at hv ⊢
    have hfetch : ∀ r, cxt.fetchResult x.key c = .ok r → cxt'.fetchResult x'.key c' = .ok r := by
      intro r hr
      rw [fetchResult] at hr ⊢
      split at hr
      case isTrue => exact absurd hr (by rintro ⟨⟩)
      case isFalse hne =>
        rw [if_neg fun heq ↦ hne (hown c c' rfl rfl heq), statusOf, hresult c c' rfl rfl]
        exact hr
    cases hr : cxt.fetchResult x.key c with
    | error e =>
      rw [hr] at hv
      exact absurd hv (by rintro ⟨⟩)
    | ok r =>
      rw [hr] at hv
      rw [hfetch r hr, hrow, hcolumn]
      exact hv
  | other hstring hformula =>
    rw [← hv]
    cases cell with
    | string sid => exact absurd rfl (hstring sid)
    | formula f => exact absurd rfl (hformula f)
    | _ => rfl

theorem SameCell.answer {cxt cxt' : ModelContext S T} {x x' : Visit} {q : Question}
    (h : SameCell cxt cxt' x x' q.addr) (hin : cxt.inWorkbook q.addr = true)
    (hin' : cxt'.inWorkbook q.addr = true) {v : q.Answer}
    (hv : cxt.answer (cxt.fetchResult x.key) q = .ok v) :
    cxt'.answer (cxt'.fetchResult x'.key) q = .ok v := by
  cases q with
  | cellType a =>
    have hcell : cxt.getCell a = .ok (cxt.cells a) := getCell_of_inWorkbook hin
    have hcell' : cxt'.getCell a = .ok (cxt'.cells a) := getCell_of_inWorkbook hin'
    rw [Workbook.answer, hcell] at hv
    rw [Workbook.answer, hcell', ← hv]
    exact congrArg Except.ok h.content.type_eq
  | cellValue a =>
    have hcell : cxt.getCell a = .ok (cxt.cells a) := getCell_of_inWorkbook hin
    have hcell' : cxt'.getCell a = .ok (cxt'.cells a) := getCell_of_inWorkbook hin'
    rw [Workbook.answer, hcell] at hv
    rw [Workbook.answer, hcell']
    exact h.valueOf hv

/-- Formulas that are spelled alike come to the same where all that they refer to reads the same. -/
theorem evaluate_congr {ev : Evaluator} (hlocal : ev.Local)
    {cxt cxt' : ModelContext S T} (hreads : ev.ReadsReferences cxt.toWorkbook)
    (hset : cxt.SameSetting cxt'.toWorkbook) (hno : cxt.NoNames) (x x' : Visit)
    (hpos : x'.pos = x.pos) (htokens : x'.cell.tokens.map cxt'.spell = x.cell.tokens.map cxt.spell)
    (h : ∀ a, cxt.References x.cell x.pos a → cxt.inWorkbook a = true → SameCell cxt cxt' x x' a)
    {r : FormulaResult} (hr : cxt.evaluate ev x = .ok r) : cxt'.evaluate ev x' = .ok r := by
  rw [evaluate] at hr ⊢
  rw [hpos, hlocal _ _ x.cell x'.cell x.pos hset hno htokens]
  refine Query.run_mono (hreads.reads x.cell x.pos) (fun q v href hv ↦ ?_) hr
  cases hin : cxt.inWorkbook q.addr with
  | true => exact (h q.addr href hin).answer hin ((hset.inWorkbook _).trans hin) hv
  | false =>
    have hget := getCell_of_not_inWorkbook hin
    cases q with
    | cellType a =>
      change cxt.getCell a = _ at hget
      rw [Workbook.answer, hget] at hv
      exact absurd hv (by rintro ⟨⟩)
    | cellValue a =>
      change cxt.getCell a = _ at hget
      rw [Workbook.answer, hget] at hv
      exact absurd hv (by rintro ⟨⟩)

end ModelContext

namespace ModelContext

open Workbook

variable {S T : Type} [UnorderedSet S AbsRange] [RTree T S]

/-! ## The contexts of documents -/

/-- The contexts that documents have when all edits have returned: the tracker holds what the
formulas ask for, there are no tables, and each formula cell has a status of its own. -/
structure Sound (cxt : ModelContext S T) : Prop where
  tidy : cxt.Tidy
  tracks : cxt.TracksCells
  noTables : cxt.tableHandler = none
  ownStatus : ∀ a b ca cb, cxt.cells a = .formula ca → cxt.cells b = .formula cb →
    ca.status = cb.status → a = b
  status_lt : ∀ a cell, cxt.cells a = .formula cell → cell.status < cxt.statusCount
  ungrouped : ∀ a cell, cxt.cells a = .formula cell →
    cell.groupRow = -1 ∧ cell.groupColumn = -1
  strings : ∀ a sid, cxt.cells a = .string sid → (cxt.strPool.getString sid).isSome = true

namespace Sound

variable {cxt : ModelContext S T}

theorem complete (h : cxt.Sound) {a : AbsAddress} {cell : FormulaCell}
    (hcell : cxt.cells a = .formula cell) : cxt.Complete a cell where
  tracked t ht href sheet e hp := (h.tracks.tracked sheet e _).mpr ⟨a, cell, t, ht, hcell, href, hp⟩
  volatile hv := (h.tracks.volatile _).mpr ⟨a, cell, hcell, hv, rfl⟩

theorem origin (h : cxt.Sound) {a : AbsAddress} {cell : FormulaCell}
    (hcell : cxt.cells a = .formula cell) : cell.origin a = a := by
  rw [FormulaCell.origin, h.tidy.ungrouped a cell hcell]
  rfl

theorem head_iff (h : cxt.Sound) {a : AbsAddress} {cell : FormulaCell} :
    cxt.Head a cell ↔ cxt.cells a = .formula cell :=
  ⟨fun hhead ↦ h.tidy.getFormulaCell.mp hhead.formula,
    fun hcell ↦ ⟨h.tidy.getFormulaCell.mpr hcell, h.origin hcell⟩⟩

theorem hasStatus_iff (h : cxt.Sound) {a : AbsAddress} {k : Nat} :
    cxt.HasStatus a k ↔ ∃ cell, cxt.cells a = .formula cell ∧ cell.status = k :=
  exists_congr fun _ ↦ and_congr_left' h.tidy.getFormulaCell

theorem inWorkbook (h : cxt.Sound) {a : AbsAddress} {cell : FormulaCell}
    (hcell : cxt.cells a = .formula cell) : cxt.inWorkbook a = true :=
  (getFormulaCell_eq_some_iff.mp (h.tidy.getFormulaCell.mpr hcell)).1

theorem groupsWF (h : cxt.Sound) : cxt.GroupsWF where
  tokens a b ca cb ha hb hstatus := by
    have ha' := h.tidy.getFormulaCell.mp ha
    have hb' := h.tidy.getFormulaCell.mp hb
    obtain rfl := h.ownStatus a b ca cb ha' hb' hstatus
    cases ha.symm.trans hb
    exact ⟨rfl, rfl⟩
  head a ca ha := by
    have ha' := h.tidy.getFormulaCell.mp ha
    exact ⟨ca, by rw [h.origin ha']; exact h.head_iff.mpr ha', rfl⟩

theorem srcRange (h : cxt.Sound) {a : AbsAddress} {cell : FormulaCell}
    (hhead : cxt.Head a cell) : cxt.srcRange cell a = a.toRange :=
  h.tidy.srcRange (h.head_iff.mp hhead)

theorem groupsIntact (h : cxt.Sound) : cxt.GroupsIntact := by
  intro pos cell hhead a
  rw [h.srcRange hhead, AbsRange.contains_toRange]
  constructor
  · rintro rfl
    exact hhead.hasStatus
  · intro ha
    obtain ⟨ca, hca, hstatus⟩ := h.hasStatus_iff.mp ha
    exact h.ownStatus a pos ca cell hca (h.head_iff.mp hhead) hstatus

/-- All formula cells are registered. -/
theorem registered (h : cxt.Sound) (depth : Nat) : cxt.Registered depth where
  wf := h.tidy.wf
  registered pos cell hhead _ := by
    obtain ⟨refs, hrefs, hmem⟩ := h.tidy.noNames.getRefTokens depth cell pos
    have hcomplete := h.complete (h.head_iff.mp hhead)
    refine ⟨refs, hrefs, fun t ht sheet e s hp ↦ ?_, hcomplete.volatile⟩
    obtain ⟨ht, href⟩ := (hmem t).mp ht
    rw [h.srcRange hhead] at hp
    obtain rfl := hp.1
    exact hcomplete.tracked t ht href sheet e hp
  sources sheet e s hs := by
    obtain ⟨pos, cell, t, ht, hcell, href, hp⟩ := (h.tracks.tracked sheet e s).mp hs
    obtain ⟨refs, hrefs, hmem⟩ := h.tidy.noNames.getRefTokens depth cell pos
    have hhead := h.head_iff.mpr hcell
    refine ⟨pos, cell, refs, t, trivial, hhead, hrefs, (hmem t).mpr ⟨ht, href⟩, ?_⟩
    rwa [h.srcRange hhead]
  volatiles s hs := by
    obtain ⟨pos, cell, hcell, hv, heq⟩ := (h.tracks.volatile s).mp hs
    exact ⟨pos, cell, trivial, h.head_iff.mpr hcell, hv, heq⟩

/-- Formula cells depend on what their formulas refer to. -/
theorem dependsOn_iff (h : cxt.Sound) {a b : AbsAddress} : cxt.DependsOn a b ↔
    ∃ ca cb, cxt.cells a = .formula ca ∧ cxt.cells b = .formula cb ∧ cxt.References ca a b := by
  constructor
  · intro hdep
    have hdep' := hdep
    obtain ⟨ca, hca, ⟨k, hb⟩, _⟩ := hdep'
    obtain ⟨cb, hcb, _⟩ := h.hasStatus_iff.mp hb
    have hca' := h.tidy.getFormulaCell.mp hca
    exact ⟨ca, cb, hca', hcb, references_of_dependsOn (h.head_iff.mpr hca') hdep⟩
  · rintro ⟨ca, cb, hca, hcb, href⟩
    exact dependsOn_of_references (h.head_iff.mpr hca) href (h.hasStatus_iff.mpr ⟨cb, hcb, rfl⟩)

end Sound

end ModelContext

namespace Workbook

/-- The check looks at one formula cell for the formula of another. -/
def Looks (wb : Workbook) (a b : AbsAddress) : Prop :=
  ∃ cell, wb.getFormulaCell a = .ok (some cell) ∧ b ∈ wb.walkedByCell cell a ∧
    ∃ k, wb.HasStatus b k

/-- The check looks at the same cells for formulas that are spelled alike. -/
theorem SameSetting.mem_walkedByCell {wb wb' : Workbook} (h : wb.SameSetting wb')
    {cell cell' : FormulaCell}
    (htokens : cell'.tokens.map wb'.spell = cell.tokens.map wb.spell) {pos a : AbsAddress}
    (ha : a ∈ wb'.walkedByCell cell' pos) : a ∈ wb.walkedByCell cell pos := by
  obtain ⟨t, ht, hwalked⟩ := List.mem_flatMap.mp ha
  have hne : ∀ sid, t ≠ .string sid := by
    rintro sid rfl
    exact absurd hwalked List.not_mem_nil
  have hsame : wb'.walkedCells pos t = wb.walkedCells pos t := by
    cases t with
    | rangeRef r => simp only [walkedCells, h.sheetSize]
    | _ => rfl
  exact List.mem_flatMap.mpr ⟨t, mem_of_spell htokens ht hne, hsame ▸ hwalked⟩

end Workbook

namespace ModelContext

open Workbook

variable {S T : Type} [UnorderedSet S AbsRange] [RTree T S]

/-! ## Results that are up to date -/

/-- What the check looks at is depended on. -/
theorem Sound.dependsOn_of_looks {cxt : ModelContext S T} (h : cxt.Sound) {a b : AbsAddress}
    (hlooks : cxt.Looks a b) : cxt.DependsOn a b := by
  obtain ⟨cell, hcell, hb, k, hk⟩ := hlooks
  obtain ⟨cb, hcb, _⟩ := h.hasStatus_iff.mp hk
  obtain ⟨t, ht, hwalked⟩ := List.mem_flatMap.mp hb
  exact h.dependsOn_iff.mpr ⟨cell, cb, h.tidy.getFormulaCell.mp hcell, hcb,
    references_of_mem ht (refersTo_of_mem_walkedCells hwalked)⟩

omit [UnorderedSet S AbsRange] [RTree T S] in
/-- A formula cell has the result that its formula comes to with the results of the others, or is
circular and has the error for a reference without a result. -/
def Current (ev : Evaluator) (cxt : ModelContext S T) (x : Visit) : Prop :=
  ∃ r, (cxt.statuses x.key).result = some r ∧ (cxt.evaluate ev x = .ok r ∨
    (r = .error .refResultNotAvailable ∧ Circular cxt.DependsOn x.pos))

/-- A formula cell is current, and the marks that the check has left say whether it is circular. -/
structure Fresh (ev : Evaluator) (cxt : ModelContext S T) (x : Visit) : Prop where
  current : cxt.Current ev x
  safe : ¬ Circular cxt.DependsOn x.pos → (cxt.statuses x.key).circularSafe = true
  marked : Circular cxt.Looks x.pos → (cxt.statuses x.key).circularSafe = false ∧
    (cxt.statuses x.key).result = some (.error .refResultNotAvailable)

/-- Two contexts have the same contents in a set of cells that refer to such cells only. -/
structure AlikeOn (N : AbsAddress → Prop) (cxt cxt' : ModelContext S T) : Prop where
  setting : cxt.SameSetting cxt'.toWorkbook
  contents : ∀ a, N a → SameContent cxt.toWorkbook cxt'.toWorkbook (cxt.cells a) (cxt'.cells a)
  closed : ∀ a b c, N a → cxt.cells a = .formula c → cxt.References c a b →
    cxt.inWorkbook b = true → N b

namespace AlikeOn

variable {N : AbsAddress → Prop} {cxt cxt' : ModelContext S T}

theorem closed_dependsOn (h : AlikeOn N cxt cxt') (hs : cxt.Sound) {a b : AbsAddress} (ha : N a)
    (hdep : cxt.DependsOn a b) : N b := by
  obtain ⟨ca, cb, hca, hcb, href⟩ := hs.dependsOn_iff.mp hdep
  exact h.closed a b ca ha hca href (hs.inWorkbook hcb)

theorem dependsOn_iff (h : AlikeOn N cxt cxt') (hs : cxt.Sound) (hs' : cxt'.Sound)
    {a b : AbsAddress} (ha : N a) : cxt.DependsOn a b ↔ cxt'.DependsOn a b := by
  rw [hs.dependsOn_iff, hs'.dependsOn_iff]
  constructor
  · rintro ⟨ca, cb, hca, hcb, href⟩
    have hb := h.closed a b ca ha hca href (hs.inWorkbook hcb)
    obtain ⟨ca', hca', htokens⟩ := (h.contents a ha).exists_formula hca
    obtain ⟨cb', hcb', _⟩ := (h.contents b hb).exists_formula hcb
    exact ⟨ca', cb', hca', hcb',
      (h.setting.references hs.tidy.noNames hs.noTables htokens).mpr href⟩
  · rintro ⟨ca', cb', hca', hcb', href⟩
    obtain ⟨ca, hca, htokens⟩ := (h.contents a ha).exists_formula' hca'
    have href' := (h.setting.references hs.tidy.noNames hs.noTables htokens).mp href
    have hin : cxt.inWorkbook b = true := h.setting.inWorkbook b ▸ hs'.inWorkbook hcb'
    obtain ⟨cb, hcb, _⟩ := (h.contents b (h.closed a b ca ha hca href' hin)).exists_formula' hcb'
    exact ⟨ca, cb, hca, hcb, href'⟩

theorem circular_iff (h : AlikeOn N cxt cxt') (hs : cxt.Sound) (hs' : cxt'.Sound) {a : AbsAddress}
    (ha : N a) : Circular cxt.DependsOn a ↔ Circular cxt'.DependsOn a :=
  circular_congr (fun _ _ hn hdep ↦ h.closed_dependsOn hs hn hdep)
    (fun _ _ hn ↦ h.dependsOn_iff hs hs' hn) ha

/-- The check looks at the same formula cells. -/
theorem looks_of_looks (h : AlikeOn N cxt cxt') (hs : cxt.Sound) (hs' : cxt'.Sound)
    {a b : AbsAddress} (ha : N a) (hlooks : cxt'.Looks a b) : cxt.Looks a b := by
  have hdep := (h.dependsOn_iff hs hs' ha).mpr (hs'.dependsOn_of_looks hlooks)
  obtain ⟨_, cb, _, hcb, _⟩ := hs.dependsOn_iff.mp hdep
  obtain ⟨cell', hcell', hb, _⟩ := hlooks
  obtain ⟨cell, hcell, htokens⟩ :=
    (h.contents a ha).exists_formula' (hs'.tidy.getFormulaCell.mp hcell')
  exact ⟨cell, hs.tidy.getFormulaCell.mpr hcell, h.setting.mem_walkedByCell htokens hb,
    cb.status, hs.hasStatus_iff.mpr ⟨cb, hcb, rfl⟩⟩

theorem circular_looks (h : AlikeOn N cxt cxt') (hs : cxt.Sound) (hs' : cxt'.Sound)
    {a : AbsAddress} (ha : N a) (hc : Circular cxt'.Looks a) : Circular cxt.Looks a := by
  refine circular_of_closed (N := N) (fun a b ha hab ↦ ?_)
    (fun a b ha hab ↦ h.looks_of_looks hs hs' ha hab) ha hc
  exact h.closed_dependsOn hs ha ((h.dependsOn_iff hs hs' ha).mpr (hs'.dependsOn_of_looks hab))

/-- A cell is its own precedent in both contexts or in neither. -/
theorem own (hs' : cxt'.Sound) (x x' : Visit) (hpos : x'.pos = x.pos)
    (hx : cxt.cells x.pos = .formula x.cell) (hx' : cxt'.cells x'.pos = .formula x'.cell)
    {a : AbsAddress} {c c' : FormulaCell} (hc : cxt.cells a = .formula c) (hc' : cxt'.cells a = .formula c')
    (hkey : c'.status = x'.key) : c.status = x.key := by
  obtain rfl : a = x.pos := (hs'.ownStatus a x'.pos c' x'.cell hc' hx' hkey).trans hpos
  rw [Cell.formula.inj (hc.symm.trans hx)]
  rfl

end AlikeOn

/-- Two contexts agree on a set of cells that refer to such cells only: they have the same contents
and statuses there. -/
structure KeptOn (N : AbsAddress → Prop) (cxt cxt' : ModelContext S T) : Prop
    extends AlikeOn N cxt cxt' where
  cells : ∀ a, N a → cxt'.cells a = cxt.cells a
  statuses : ∀ a c, N a → cxt.cells a = .formula c →
    cxt'.statuses c.status = cxt.statuses c.status

/-- Where two contexts agree, what is fresh in one is so in the other. -/
theorem KeptOn.fresh {N : AbsAddress → Prop} {cxt cxt' : ModelContext S T} (h : KeptOn N cxt cxt')
    (hs : cxt.Sound) (hs' : cxt'.Sound) {ev : Evaluator}
    (hlocal : ev.Local) (hreads : ev.ReadsReferences cxt.toWorkbook) {x : Visit} (hx : N x.pos)
    (hcell : cxt.cells x.pos = .formula x.cell) (hfresh : cxt.Fresh ev x) : cxt'.Fresh ev x := by
  have hcell' : cxt'.cells x.pos = .formula x.cell := (h.cells _ hx).trans hcell
  have hstatus : cxt'.statuses x.key = cxt.statuses x.key := h.statuses x.pos x.cell hx hcell
  have hcirc := h.circular_iff hs hs' hx
  refine ⟨?_, fun hn ↦ ?_, fun hc ↦ ?_⟩
  · obtain ⟨r, hr, heval | ⟨rfl, hc⟩⟩ := hfresh.current
    · refine ⟨r, hstatus ▸ hr, .inl ?_⟩
      obtain ⟨c, hc, htokens⟩ := (h.contents _ hx).exists_formula hcell
      obtain rfl := Cell.formula.inj (hcell'.symm.trans hc)
      refine evaluate_congr hlocal hreads h.setting hs.tidy.noNames x x rfl htokens
        (fun a href hin ↦ ?_) heval
      have ha := h.closed x.pos a x.cell hx hcell href hin
      refine ⟨h.contents a ha, fun _ _ ↦ AlikeOn.own hs' x x rfl hcell hcell', fun c c' hc hc' ↦ ?_⟩
      obtain rfl := Cell.formula.inj (hc'.symm.trans ((h.cells a ha).trans hc))
      rw [h.statuses a c' ha hc]
    · exact ⟨_, hstatus ▸ hr, .inr ⟨rfl, hcirc.mp hc⟩⟩
  · rw [hstatus]
    exact hfresh.safe fun hc ↦ hn (hcirc.mp hc)
  · rw [hstatus]
    exact hfresh.marked (h.circular_looks hs hs' hx hc)

end ModelContext

namespace Document

open ModelContext Workbook

variable {S T : Type} [UnorderedSet S AbsRange] [RTree T S]

/-! ## Dirty cells -/

/-- A cell is dirty: the next calculation interprets it if it is a formula cell. -/
def Stale (d : Document S T) (a : AbsAddress) : Prop :=
  d.cxt.tracker.IsDirty d.modifiedCells (some d.modifiedFormulaCells) a.toRange

theorem mem_sortedCells {d : Document S T} {a : AbsAddress} :
    a.toRange ∈ d.sortedCells ↔ d.Stale a := mem_queryAndSort

/-- A range from which the search for dirty cells starts. -/
def IsSeed (d : Document S T) (m : AbsRange) : Prop :=
  m ∈ toList d.modifiedCells ∨ m ∈ toList d.cxt.tracker.volatileCells ∨
    m ∈ toList d.modifiedFormulaCells

theorem stale_of_step {d : Document S T} {m b : AbsRange} {a : AbsAddress}
    (hm : d.IsSeed m) (h : ReflTransGen d.cxt.tracker.Step m b)
    (hstep : d.cxt.tracker.Step b a.toRange) : d.Stale a :=
  .inr (.inr ⟨m, hm, .tail' h hstep⟩)

theorem Stale.step {d : Document S T} {a b : AbsAddress} (ha : d.Stale a)
    (h : d.cxt.tracker.Step a.toRange b.toRange) : d.Stale b :=
  IsDirty.step ha h

/-- What a formula refers to leads to the formula. -/
theorem step_of_references {cxt : ModelContext S T} (hno : cxt.NoNames)
    (htables : cxt.tableHandler = none) {a b : AbsAddress} {cell : FormulaCell}
    (hcomplete : cxt.Complete a cell) (href : cxt.References cell a b)
    (hin : cxt.inWorkbook b = true) : cxt.tracker.Step b.toRange a.toRange := by
  obtain ⟨t, ht, hisref, hrefers⟩ := hno.exists_ref_of_references htables href
  obtain ⟨h₁, h₂, h₃, h₄, h₅, h₆⟩ :=
    AbsRange.contains_iff.mp ((contains_destRange_iff hisref hin).mpr hrefers)
  exact ⟨(cxt.destRange a t).extent, hcomplete.tracked t ht hisref b.sheet _ ⟨rfl, rfl, h₁, h₂⟩,
    h₃, h₄, h₅, h₆⟩

/-! ## Documents stay sound -/

theorem EditAt.sound {addr : AbsAddress} {d d' : Document S T} (h : EditAt addr d d')
    (hsound : d.cxt.Sound) (htidy : d'.cxt.Tidy) : d'.cxt.Sound where
  tidy := htidy
  tracks := h.tracksCells hsound.tracks
  noTables := h.setting.tableHandler.trans hsound.noTables
  ownStatus a b ca cb ha hb hstatus := by
    -- the new formula cell has a status that no other cell has
    have hnew : ∀ a c c', a ≠ addr → d'.cxt.cells a = .formula c →
        d'.cxt.cells addr = .formula c' → c.status ≠ c'.status := by
      intro a c c' hne hc hc'
      rw [(h.status c' hc').1]
      exact (hsound.status_lt a c ((h.cells a hne).symm.trans hc)).ne
    by_cases ha' : a = addr
    · subst ha'
      by_contra hne
      exact hnew b cb ca (Ne.symm hne) hb ha hstatus.symm
    · by_cases hb' : b = addr
      · subst hb'
        exact absurd hstatus (hnew a ca cb ha' ha hb)
      · exact hsound.ownStatus a b ca cb ((h.cells a ha').symm.trans ha)
          ((h.cells b hb').symm.trans hb) hstatus
  status_lt a c hc := by
    by_cases ha : a = addr
    · subst ha
      exact (h.status c hc).2
    · exact (hsound.status_lt a c ((h.cells a ha).symm.trans hc)).trans_le h.statusCount
  ungrouped a c hc := by
    by_cases ha : a = addr
    · subst ha
      exact h.ungrouped c hc
    · exact hsound.ungrouped a c ((h.cells a ha).symm.trans hc)
  strings a sid hsid := by
    by_cases ha : a = addr
    · subst ha
      exact h.string sid hsid
    · obtain ⟨s, hs⟩ := Option.isSome_iff_exists.mp
        (hsound.strings a sid ((h.cells a ha).symm.trans hsid))
      rw [h.getString sid s hs]
      rfl

theorem sound_appendSheet {cxt : ModelContext S T} (h : cxt.Sound) (name : String) :
    ModelContext.Sound { cxt with sheets := cxt.sheets ++ [⟨name, []⟩] } where
  tidy := h.tidy.appendSheet name
  tracks := ⟨h.tracks.tracked, h.tracks.volatile⟩
  noTables := h.noTables
  ownStatus := h.ownStatus
  status_lt := h.status_lt
  ungrouped := h.ungrouped
  strings := h.strings

theorem sound_of_onlyStatuses {cxt cxt' : ModelContext S T} (h : cxt.Sound)
    (hstatuses : OnlyStatuses cxt cxt') : cxt'.Sound := by
  rw [show cxt' = cxt.withStatuses cxt'.statuses from hstatuses]
  exact
    { tidy := ⟨h.tidy.wf, h.tidy.noNames, h.tidy.outside, h.tidy.ungrouped, h.tidy.sources,
        h.tidy.volatiles⟩
      tracks := ⟨h.tracks.tracked, h.tracks.volatile⟩
      noTables := h.noTables
      ownStatus := h.ownStatus
      status_lt := h.status_lt
      ungrouped := h.ungrouped
      strings := h.strings }

/-- In every state of a run in which edits return, the document is sound. -/
theorem Edits.sound {depth : Nat} {evs : Set Evaluator} {l : List (Document S T × Op)}
    {d : Document S T} (hrun : Edits depth evs l d) : d.cxt.Sound := by
  induction hrun with
  | new =>
    have hnew : Edits (S := S) (T := T) depth evs [] Document.new := .new
    exact ⟨inv_new.tidy, hnew.tracksCells, rfl,
      fun _ _ _ _ h ↦ absurd h (by rintro ⟨⟩), fun _ _ h ↦ absurd h (by rintro ⟨⟩),
      fun _ _ h ↦ absurd h (by rintro ⟨⟩), fun _ _ h ↦ absurd h (by rintro ⟨⟩)⟩
  | @returns l d d' op ev hrun hev hop ih =>
    have htidy := (hrun.returns hev hop).tidy
    cases returned_of_run hrun.tidy hop with
    | appendSheet heq =>
      rw [heq]
      exact sound_appendSheet ih _
    | setCell hedit => exact hedit.sound ih htidy
    | setFormulaCell hedit => exact hedit.sound ih htidy
    | calculate hcalc =>
      obtain ⟨cxt, hstatuses, rfl, _⟩ := (wp_calculate_onlyStatuses ev d).of_ok hcalc
      exact sound_of_onlyStatuses ih hstatuses
  | @throws l d d' ev e _ _ hop ih =>
    obtain ⟨cxt, hstatuses, rfl, _⟩ := (wp_calculate_onlyStatuses ev d).of_error hop
    exact sound_of_onlyStatuses ih hstatuses

/-! ## What an edit makes dirty -/

/-- What can be reached from a seed before an edit can be reached from one after it: ways through
the cell that is edited begin anew there. -/
theorem EditAt.exists_seed {addr : AbsAddress} {d d' : Document S T} (h : EditAt addr d d')
    {m s : AbsRange} (hm : d.IsSeed m) (hms : ReflTransGen d.cxt.tracker.Step m s) :
    ∃ m', d'.IsSeed m' ∧ ReflTransGen d'.cxt.tracker.Step m' s := by
  have hseed : d'.IsSeed addr.toRange := h.seed.imp_right .inr
  induction hms with
  | refl =>
    by_cases heq : m = addr.toRange
    · exact ⟨_, hseed, heq ▸ .refl⟩
    · refine ⟨m, ?_, .refl⟩
      rcases hm with hm | hm | hm
      · exact .inl (h.modifiedCells m hm)
      · exact .inr (.inl ((h.elsewhere.volatile m heq).mpr hm))
      · exact .inr (.inr (h.modifiedFormulaCells m hm))
  | @tail b s _ hstep ih =>
    obtain ⟨m', hm', hreach⟩ := ih
    by_cases heq : s = addr.toRange
    · exact ⟨_, hseed, heq ▸ .refl⟩
    · obtain ⟨e, htracked, hoverlap⟩ := hstep
      exact ⟨m', hm', hreach.tail ⟨e, (h.elsewhere.tracked _ e s heq).mpr htracked, hoverlap⟩⟩

/-- Other cells that are dirty stay so. -/
theorem EditAt.stale {addr : AbsAddress} {d d' : Document S T} (h : EditAt addr d d')
    {a : AbsAddress} (hne : a ≠ addr) (ha : d.Stale a) : d'.Stale a := by
  have hrange : a.toRange ≠ addr.toRange := fun heq ↦ hne (AbsAddress.toRange_injective heq)
  rcases ha with ha | ha | ⟨m, hm, hma⟩
  · exact .inl ((h.elsewhere.volatile _ hrange).mpr ha)
  · exact .inr (.inl (h.modifiedFormulaCells _ ha))
  · obtain ⟨b, hmb, e, htracked, hoverlap⟩ := TransGen.tail'_iff.mp hma
    obtain ⟨m', hm', hreach⟩ := h.exists_seed hm hmb
    exact stale_of_step hm' hreach ⟨e, (h.elsewhere.tracked _ e _ hrange).mpr htracked, hoverlap⟩

/-- The cells that an edit leaves as they are. -/
def Untouched (addr : AbsAddress) (d d' : Document S T) (a : AbsAddress) : Prop :=
  a ≠ addr ∧ ∀ cell, d.cxt.cells a = .formula cell → ¬ d'.Stale a

/-- The tokens of formulas name strings of the pool. -/
def FormulaStrings (d : Document S T) : Prop :=
  ∀ a cell, d.cxt.cells a = .formula cell → ∀ sid, .string sid ∈ cell.tokens →
    (d.cxt.strPool.getString sid).isSome = true

/-- Strings of the pool stay as they are. -/
theorem EditAt.getString_eq {addr : AbsAddress} {d d' : Document S T} (h : EditAt addr d d')
    {sid : StringId} (hsome : (d.cxt.strPool.getString sid).isSome = true) :
    d'.cxt.strPool.getString sid = d.cxt.strPool.getString sid := by
  obtain ⟨s, hs⟩ := Option.isSome_iff_exists.mp hsome
  rw [hs, h.getString sid s hs]

/-- The formulas whose strings are in the pool are spelled as before. -/
theorem EditAt.spell_eq {addr : AbsAddress} {d d' : Document S T} (h : EditAt addr d d')
    {tokens : List FormulaToken} (hstrings : ∀ sid, .string sid ∈ tokens →
      (d.cxt.strPool.getString sid).isSome = true) :
    tokens.map d'.cxt.spell = tokens.map d.cxt.spell := by
  refine List.map_congr_left fun t ht ↦ ?_
  cases t with
  | string sid => rw [spell, spell, h.getString_eq (hstrings sid ht)]
  | _ => rfl

/-- What refers to the cell that is edited, or to a dirty cell, is dirty. -/
theorem EditAt.keptOn {addr : AbsAddress} {d d' : Document S T} (h : EditAt addr d d')
    (hs : d.cxt.Sound) (hs' : d'.cxt.Sound) (hstrings : d.FormulaStrings) :
    KeptOn (Untouched addr d d') d.cxt d'.cxt where
  setting := h.setting
  contents a ha := by
    rw [h.cells a ha.1]
    exact .of_eq (fun sid hsid ↦ h.getString_eq (hs.strings a sid hsid)) fun c hc ↦
      h.spell_eq (hstrings a c hc)
  cells a ha := h.cells a ha.1
  statuses a c _ hc := h.statuses _ (hs.status_lt a c hc).ne
  closed a b c ha hc href hin := by
    have hc' : d'.cxt.cells a = .formula c := (h.cells a ha.1).trans hc
    have href' : d'.cxt.References c a b := 
      (h.setting.references hs.tidy.noNames hs.noTables (h.spell_eq (hstrings a c hc))).mpr href
    have hin' : d'.cxt.inWorkbook b = true := (h.setting.inWorkbook b).trans hin
    have hstep : d'.cxt.tracker.Step b.toRange a.toRange :=
      step_of_references hs'.tidy.noNames hs'.noTables (hs'.complete hc') href' hin'
    refine ⟨?_, fun _ _ hb ↦ ha.2 c hc (hb.step hstep)⟩
    rintro rfl
    exact ha.2 c hc (stale_of_step (h.seed.imp_right .inr) .refl hstep)

/-! ## The invariant -/

/-- Every formula cell that is not dirty is fresh. -/
def Consistent (evs : Set Evaluator) (d : Document S T) : Prop :=
  ∀ ev ∈ evs, ∀ a cell, d.cxt.cells a = .formula cell → ¬ d.Stale a → d.cxt.Fresh ev ⟨cell, a⟩

/-- An edit keeps the invariant. -/
theorem EditAt.consistent {evs : Set Evaluator} (hevs : Evaluators evs) {addr : AbsAddress}
    {d d' : Document S T} (h : EditAt addr d d') (hs : d.cxt.Sound) (hs' : d'.cxt.Sound)
    (hstrings : d.FormulaStrings) (hd : d.Consistent evs) : d'.Consistent evs := by
  intro ev hev a cell hcell hstale
  have hne : a ≠ addr := by
    rintro rfl
    exact hstale (.inr (.inl (h.formula_seed cell hcell)))
  have hcell' : d.cxt.cells a = .formula cell := (h.cells a hne).symm.trans hcell
  have hfresh := hd ev hev a cell hcell' fun ha ↦ hstale (h.stale hne ha)
  exact (h.keptOn hs hs' hstrings).fresh hs hs' (hevs.isLocal ev hev) (hevs.reads ev hev _)
    (x := ⟨cell, a⟩) ⟨hne, fun _ _ ↦ hstale⟩ hcell' hfresh

end Document

end Ixion
