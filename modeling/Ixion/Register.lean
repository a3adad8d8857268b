import Ixion.Context
import Ixion.Lib.Exec

/-!
# Registering formula cells

`registerFormulaCell` tells the tracker what a formula cell refers to, and
`unregisterFormulaCell` takes it back before the cell goes away.

Registering normalises both ends of a reference: the source is the whole extent
of a group, and a range is put into order after a whole column or row has been
replaced by the cells of the sheet.  Unregistering uses the position of the cell
and the ranges as they are written.  The two are inverse exactly where this makes
no difference: `unregister_register_iff`.

References through named expressions are followed recursively, without a check
for names that refer to themselves; `depth` is how deep the recursion may go.
-/

namespace Ixion

open Lib

namespace Workbook

/-! ## References of a formula -/

/-- The references that a token stands for, seen from a sheet.  A name that does
not exist is ignored. -/
def getRefs (wb : Workbook) (sheet : Int) :
    Nat → FormulaToken → Except Failure (List FormulaToken)
  | depth, t =>
    match t with
    | .singleRef _ => .ok [t]
    | .rangeRef _ => .ok [t]
    | .namedExpression name =>
      match wb.getNamedExpression sheet name with
      | none => .ok []
      | some namedExp =>
        match depth with
        | 0 => .error .stackOverflow
        | depth + 1 => collectM (getRefs wb sheet depth) namedExp.tokens
    | _ => .ok []

/-- The references of a formula cell at a position. -/
def getRefTokens (wb : Workbook) (depth : Nat) (cell : FormulaCell) (pos : AbsAddress) :
    Except Failure (List FormulaToken) :=
  collectM (wb.getRefs pos.sheet depth) cell.tokens

/-- Whether a function gives another value each time it is called. -/
def isVolatile : FormulaFunction → Bool
  | .funcNow => true
  | _ => false

/-- Whether a volatile function occurs in a list of tokens. -/
def hasVolatile (tokens : List FormulaToken) : Bool :=
  tokens.any fun
    | .function func => isVolatile func
    | _ => false

/-! ## The two ends of a reference -/

/-- A whole row replaced by the cells of the sheet. -/
def clipColumns (wb : Workbook) (range : AbsRange) : AbsRange :=
  if range.allColumns then
    ⟨{ range.first with column := 0 }, { range.last with column := wb.sheetSize.column - 1 }⟩
  else range

/-- A whole column replaced by the cells of the sheet. -/
def clipRows (wb : Workbook) (range : AbsRange) : AbsRange :=
  if range.allRows then
    ⟨{ range.first with row := 0 }, { range.last with row := wb.sheetSize.row - 1 }⟩
  else range

/-- A range with whole columns and rows replaced by the cells of the sheet, and
with its corners in order. -/
def normalizeRange (wb : Workbook) (range : AbsRange) : AbsRange :=
  (wb.clipRows (wb.clipColumns range)).reorder

/-- A reference in absolute terms, as it is written. -/
def absRef (pos : AbsAddress) : FormulaToken → AbsRange
  | .singleRef addr => (addr.toAbs pos).toRange
  | .rangeRef range => range.toAbs pos
  | _ => pos.toRange

/-- A reference in absolute terms, as it is registered. -/
def destRange (wb : Workbook) (pos : AbsAddress) : FormulaToken → AbsRange
  | .rangeRef range => wb.normalizeRange (range.toAbs pos)
  | t => absRef pos t

/-- A range in order that is no whole column or row is registered as it is
written. -/
theorem normalizeRange_eq_self {wb : Workbook} {range : AbsRange} (h : range.Ordered)
    (hc : range.allColumns = false) (hr : range.allRows = false) :
    wb.normalizeRange range = range := by
  simp only [normalizeRange, clipColumns, clipRows, hc, hr, Bool.false_eq_true, if_false]
  exact AbsRange.reorder_eq_self h

/-! ## The references of a formula are references -/

/-- Single-cell references and range references. -/
def IsRef : FormulaToken → Prop
  | .singleRef _ | .rangeRef _ => True
  | _ => False

theorem ordered_destRange {wb : Workbook} {pos : AbsAddress} {t : FormulaToken} (ht : IsRef t) :
    (wb.destRange pos t).Ordered := by
  cases t with
  | singleRef addr => exact ⟨le_rfl, le_rfl, le_rfl⟩
  | rangeRef r => exact AbsRange.ordered_reorder _
  | _ => exact ht.elim

theorem isRef_of_mem_getRefs {wb : Workbook} {sheet : Int} {depth : Nat}
    {t r : FormulaToken} {refs : List FormulaToken} (h : wb.getRefs sheet depth t = .ok refs)
    (hr : r ∈ refs) : IsRef r := by
  induction depth generalizing t refs with
  | zero =>
    unfold getRefs at h
    split at h
    · cases h; rw [List.mem_singleton.mp hr]; trivial
    · cases h; rw [List.mem_singleton.mp hr]; trivial
    · split at h
      · cases h; exact absurd hr List.not_mem_nil
      · exact absurd h nofun
    · cases h; exact absurd hr List.not_mem_nil
  | succ depth ih =>
    unfold getRefs at h
    split at h
    · cases h; rw [List.mem_singleton.mp hr]; trivial
    · cases h; rw [List.mem_singleton.mp hr]; trivial
    · split at h
      · cases h; exact absurd hr List.not_mem_nil
      · obtain ⟨t', _, refs', h', hr'⟩ := (mem_collectM h).mp hr
        exact ih h' hr'
    · cases h; exact absurd hr List.not_mem_nil

theorem isRef_of_mem_getRefTokens {wb : Workbook} {depth : Nat} {cell : FormulaCell}
    {pos : AbsAddress} {refs : List FormulaToken} (h : wb.getRefTokens depth cell pos = .ok refs)
    {r : FormulaToken} (hr : r ∈ refs) : IsRef r := by
  obtain ⟨t, _, refs', h', hr'⟩ := (mem_collectM h).mp hr
  exact isRef_of_mem_getRefs h' hr'

end Workbook

namespace ModelContext

open Workbook

variable {S T : Type} [UnorderedSet S AbsRange] [RTree T S]

/-! ## Registering and unregistering -/

/-- The range that a formula cell at `pos` is registered as: its position, or the
extent of its group. -/
def srcRange (cxt : ModelContext S T) (cell : FormulaCell) (pos : AbsAddress) : AbsRange :=
  if cell.isGrouped then
    { first := pos
      last := { pos with
        row := pos.row + ((cxt.statusOf cell).groupSize.row - 1)
        column := pos.column + ((cxt.statusOf cell).groupSize.column - 1) } }
  else pos.toRange

/-- Throw unless a sheet index is valid. -/
def checkSheetOrThrow (func : String) (sheet : Int) (pos : AbsAddress) :
    Exec (ModelContext S T) Unit :=
  if isValidSheet sheet then return () else throwExn (.formulaRegistrationError func pos)

/-- Track one reference. -/
def registerRef (src : AbsRange) (pos : AbsAddress) (t : FormulaToken) :
    Exec (ModelContext S T) Unit := do
  match t with
  | .singleRef _ | .rangeRef _ =>
    checkSheetOrThrow "register_formula_cell" (absRef pos t).first.sheet pos
    let cxt ← get
    modifyTracker fun tracker ↦ tracker.add src (cxt.destRange pos t)
  | _ => return ()

/-- Do not track one reference any more. -/
def unregisterRef (pos : AbsAddress) (t : FormulaToken) : Exec (ModelContext S T) Unit := do
  match t with
  | .singleRef _ | .rangeRef _ =>
    checkSheetOrThrow "unregister_formula_cell" (absRef pos t).first.sheet pos
    modifyTracker fun tracker ↦ tracker.remove pos.toRange (absRef pos t)
  | _ => return ()

/-- Register the formula cell at a position.  The cell is looked up if it is not
given. -/
def registerFormulaCell (depth : Nat) (pos : AbsAddress) (cell : Option FormulaCell) :
    Exec (ModelContext S T) Unit := do
  let cxt ← get
  let found ← match cell with
    | some c => pure (some c)
    | none => liftExcept (cxt.getFormulaCell pos)
  match found with
  | none => return ()
  | some cell =>
    let src := cxt.srcRange cell pos
    let refTokens ← liftFailure (cxt.getRefTokens depth cell pos)
    refTokens.forM (registerRef src pos)
    if hasVolatile cell.tokens then
      modify fun cxt ↦ { cxt with tracker := cxt.tracker.addVolatile pos.toRange }

/-- Unregister the formula cell at a position, if there is one. -/
def unregisterFormulaCell (depth : Nat) (pos : AbsAddress) : Exec (ModelContext S T) Unit := do
  let cxt ← get
  match ← liftExcept (cxt.getFormulaCell pos) with
  | none => return ()
  | some cell =>
    modify fun cxt ↦ { cxt with tracker := cxt.tracker.removeVolatile pos.toRange }
    let refTokens ← liftFailure (cxt.getRefTokens depth cell pos)
    refTokens.forM (unregisterRef pos)

/-! ## What registering does to the tracker -/

/-- The same context with another tracker. -/
def withTracker (cxt : ModelContext S T) (tracker : DirtyCellTracker S T) : ModelContext S T :=
  { cxt with tracker }

open DirtyCellTracker

/-- A reference can be registered. -/
def Registrable (cxt : ModelContext S T) (src : AbsRange) (pos : AbsAddress) (t : FormulaToken) :
    Prop :=
  isValidSheet (absRef pos t).first.sheet = true ∧ Trackable src (cxt.destRange pos t)

/-- A reference can be unregistered. -/
def Unregistrable (pos : AbsAddress) (t : FormulaToken) : Prop :=
  isValidSheet (absRef pos t).first.sheet = true ∧ Trackable pos.toRange (absRef pos t)

omit [UnorderedSet S AbsRange] [RTree T S] in
/-- What can be unregistered is registered as it is written. -/
theorem destRange_eq_absRef {cxt : ModelContext S T} {pos : AbsAddress} {t : FormulaToken}
    (h : Unregistrable pos t) : cxt.destRange pos t = absRef pos t := by
  obtain ⟨_, _, _, hvalid, hc, hr⟩ := h
  cases t with
  | rangeRef r => exact normalizeRange_eq_self (AbsRange.valid_iff.mp hvalid).2.2 hc hr
  | _ => rfl

omit [UnorderedSet S AbsRange] [RTree T S] in
theorem modifyTracker_eq_ok_iff {cxt cxt' : ModelContext S T}
    {f : DirtyCellTracker S T → Except Exn (DirtyCellTracker S T)} :
    modifyTracker f cxt = .ok () cxt' ↔
      ∃ tracker, f cxt.tracker = .ok tracker ∧ cxt' = cxt.withTracker tracker := by
  change (liftExcept (f cxt.tracker) >>= fun tracker ↦
    (set (cxt.withTracker tracker) : Exec (ModelContext S T) Unit)) cxt = _ ↔ _
  rw [bind_apply]
  cases f cxt.tracker with
  | error e => exact ⟨nofun, fun ⟨_, h, _⟩ ↦ nomatch h⟩
  | ok tracker =>
    constructor
    · intro h
      cases h
      exact ⟨tracker, rfl, rfl⟩
    · rintro ⟨_, h, rfl⟩
      cases h
      rfl

omit [UnorderedSet S AbsRange] [RTree T S] in
theorem checkSheetOrThrow_bind_eq_ok_iff {func : String} {sheet : Int} {pos : AbsAddress}
    {x : Exec (ModelContext S T) Unit} {cxt cxt' : ModelContext S T} :
    (checkSheetOrThrow func sheet pos >>= fun _ ↦ x) cxt = .ok () cxt' ↔
      isValidSheet sheet = true ∧ x cxt = .ok () cxt' := by
  rw [checkSheetOrThrow]
  split
  case isTrue h => exact ⟨fun hx ↦ ⟨h, hx⟩, And.right⟩
  case isFalse h => exact ⟨nofun, fun hc ↦ absurd hc.1 h⟩

theorem registerRef_eq_ok_iff {cxt cxt' : ModelContext S T} {src : AbsRange} {pos : AbsAddress}
    {t : FormulaToken} (ht : IsRef t) :
    registerRef src pos t cxt = .ok () cxt' ↔ cxt.Registrable src pos t ∧
      cxt' = cxt.withTracker (cxt.tracker.withPairs src (cxt.destRange pos t)) := by
  have key : registerRef src pos t cxt = (checkSheetOrThrow "register_formula_cell"
      (absRef pos t).first.sheet pos >>= fun _ ↦
        modifyTracker fun tracker ↦ tracker.add src (cxt.destRange pos t)) cxt := by
    cases t with
    | singleRef addr => unfold registerRef checkSheetOrThrow; split <;> rfl
    | rangeRef range => unfold registerRef checkSheetOrThrow; split <;> rfl
    | _ => exact ht.elim
  rw [key, checkSheetOrThrow_bind_eq_ok_iff, modifyTracker_eq_ok_iff, Registrable, and_assoc]
  refine and_congr_right fun _ ↦ ?_
  simp only [add_eq_ok_iff]
  constructor
  · rintro ⟨_, ⟨h, rfl⟩, rfl⟩
    exact ⟨h, rfl⟩
  · rintro ⟨h, rfl⟩
    exact ⟨_, ⟨h, rfl⟩, rfl⟩

theorem unregisterRef_eq_ok_iff {cxt cxt' : ModelContext S T} {pos : AbsAddress}
    {t : FormulaToken} (ht : IsRef t) :
    unregisterRef pos t cxt = .ok () cxt' ↔ Unregistrable pos t ∧
      cxt' = cxt.withTracker (cxt.tracker.withoutPairs pos.toRange (absRef pos t)) := by
  have key : unregisterRef pos t cxt = (checkSheetOrThrow "unregister_formula_cell"
      (absRef pos t).first.sheet pos >>= fun _ ↦
        modifyTracker fun tracker ↦ tracker.remove pos.toRange (absRef pos t)) cxt := by
    cases t with
    | singleRef addr => rfl
    | rangeRef range => rfl
    | _ => exact ht.elim
  rw [key, checkSheetOrThrow_bind_eq_ok_iff, modifyTracker_eq_ok_iff, Unregistrable, and_assoc]
  refine and_congr_right fun _ ↦ ?_
  simp only [remove_eq_ok_iff]
  constructor
  · rintro ⟨_, ⟨h, rfl⟩, rfl⟩
    exact ⟨h, rfl⟩
  · rintro ⟨h, rfl⟩
    exact ⟨_, ⟨h, rfl⟩, rfl⟩

/-- The tracker after the references of a cell have been registered. -/
def registeredTracker (cxt : ModelContext S T) (src : AbsRange) (pos : AbsAddress)
    (refs : List FormulaToken) : DirtyCellTracker S T :=
  refs.foldl (fun tracker t ↦ tracker.withPairs src (cxt.destRange pos t)) cxt.tracker

/-- The tracker after the references of a cell have been unregistered. -/
def unregisteredTracker (cxt : ModelContext S T) (pos : AbsAddress) (refs : List FormulaToken) :
    DirtyCellTracker S T :=
  refs.foldl (fun tracker t ↦ tracker.withoutPairs pos.toRange (absRef pos t))
    (cxt.tracker.removeVolatile pos.toRange)

theorem forM_registerRef_eq_ok_iff {cxt cxt' : ModelContext S T} {src : AbsRange}
    {pos : AbsAddress} {refs : List FormulaToken} (hrefs : ∀ t ∈ refs, IsRef t) :
    refs.forM (registerRef src pos) cxt = .ok () cxt' ↔
      (∀ t ∈ refs, cxt.Registrable src pos t) ∧
        cxt' = cxt.withTracker (cxt.registeredTracker src pos refs) :=
  forM_eq_ok_iff (P := fun t ↦ cxt.Registrable src pos t)
    (e := fun tracker ↦ cxt.withTracker tracker)
    (g := fun tracker t ↦ tracker.withPairs src (cxt.destRange pos t)) (t := cxt.tracker)
    fun t ht _ _ ↦ registerRef_eq_ok_iff (hrefs t ht)

theorem forM_unregisterRef_eq_ok_iff {cxt cxt' : ModelContext S T} {pos : AbsAddress}
    {refs : List FormulaToken} (hrefs : ∀ t ∈ refs, IsRef t)
    {tracker : DirtyCellTracker S T} :
    refs.forM (unregisterRef pos) (cxt.withTracker tracker) = .ok () cxt' ↔
      (∀ t ∈ refs, Unregistrable pos t) ∧ cxt' = cxt.withTracker
        (refs.foldl (fun tracker t ↦ tracker.withoutPairs pos.toRange (absRef pos t)) tracker) :=
  forM_eq_ok_iff (P := Unregistrable pos) (e := fun tracker ↦ cxt.withTracker tracker)
    fun t ht _ _ ↦ unregisterRef_eq_ok_iff (hrefs t ht)

/-- Registering succeeds exactly when all references can be collected and
registered. -/
theorem registerFormulaCell_eq_ok_iff {cxt cxt' : ModelContext S T} {depth : Nat}
    {pos : AbsAddress} {cell : FormulaCell}
    (hcell : cxt.getFormulaCell pos = .ok (some cell)) :
    registerFormulaCell depth pos none cxt = .ok () cxt' ↔
      ∃ refs, cxt.getRefTokens depth cell pos = .ok refs ∧
        (∀ t ∈ refs, cxt.Registrable (cxt.srcRange cell pos) pos t) ∧
        cxt' = cxt.withTracker
          (if hasVolatile cell.tokens then
            (cxt.registeredTracker (cxt.srcRange cell pos) pos refs).addVolatile pos.toRange
          else cxt.registeredTracker (cxt.srcRange cell pos) pos refs) := by
  have key : registerFormulaCell depth pos none cxt =
      (liftFailure (cxt.getRefTokens depth cell pos) >>= fun refTokens ↦
        refTokens.forM (registerRef (cxt.srcRange cell pos) pos) >>= fun _ ↦
          if hasVolatile cell.tokens then
            modify fun cxt ↦ { cxt with tracker := cxt.tracker.addVolatile pos.toRange }
          else pure ()) cxt := by
    change (liftExcept (cxt.getFormulaCell pos) >>= fun found ↦ _) cxt = _
    rw [hcell]
    rfl
  rw [key, bind_apply]
  cases hrefs : cxt.getRefTokens depth cell pos with
  | error e => exact ⟨nofun, fun ⟨_, h, _⟩ ↦ nomatch h⟩
  | ok refs =>
    change (refs.forM (registerRef (cxt.srcRange cell pos) pos) >>= fun _ ↦ _) cxt = _ ↔ _
    have hloop : ∀ cxt₁, refs.forM (registerRef (cxt.srcRange cell pos) pos) cxt = .ok () cxt₁ ↔
        (∀ t ∈ refs, cxt.Registrable (cxt.srcRange cell pos) pos t) ∧
          cxt₁ = cxt.withTracker (cxt.registeredTracker (cxt.srcRange cell pos) pos refs) :=
      fun _ ↦ forM_registerRef_eq_ok_iff fun t ht ↦ isRef_of_mem_getRefTokens hrefs ht
    rw [bind_apply]
    cases hx : refs.forM (registerRef (cxt.srcRange cell pos) pos) cxt with
    | error e cxt₁ =>
      refine ⟨nofun, ?_⟩
      rintro ⟨_, h, hall, _⟩
      cases h
      exact absurd (hx.symm.trans ((hloop _).mpr ⟨hall, rfl⟩)) nofun
    | ok _ cxt₁ =>
      obtain ⟨hall, rfl⟩ := (hloop _).mp hx
      change (if hasVolatile cell.tokens then
          (modify fun cxt : ModelContext S T ↦
            { cxt with tracker := cxt.tracker.addVolatile pos.toRange } : Exec _ Unit)
        else pure ()) (cxt.withTracker (cxt.registeredTracker _ pos refs)) = _ ↔ _
      cases hasVolatile cell.tokens with
      | false =>
        constructor
        · intro h
          cases h
          exact ⟨refs, rfl, hall, rfl⟩
        · rintro ⟨_, h, _, rfl⟩
          cases h
          rfl
      | true =>
        constructor
        · intro h
          cases h
          exact ⟨refs, rfl, hall, rfl⟩
        · rintro ⟨_, h, _, rfl⟩
          cases h
          rfl

/-- Unregistering succeeds exactly when all references can be collected and
unregistered. -/
theorem unregisterFormulaCell_eq_ok_iff {cxt cxt' : ModelContext S T} {depth : Nat}
    {pos : AbsAddress} {cell : FormulaCell}
    (hcell : cxt.getFormulaCell pos = .ok (some cell)) :
    unregisterFormulaCell depth pos cxt = .ok () cxt' ↔
      ∃ refs, cxt.getRefTokens depth cell pos = .ok refs ∧ (∀ t ∈ refs, Unregistrable pos t) ∧
        cxt' = cxt.withTracker (cxt.unregisteredTracker pos refs) := by
  have key : unregisterFormulaCell depth pos cxt =
      (liftFailure (cxt.getRefTokens depth cell pos) >>= fun refTokens ↦
        refTokens.forM (unregisterRef pos))
        (cxt.withTracker (cxt.tracker.removeVolatile pos.toRange)) := by
    change (liftExcept (cxt.getFormulaCell pos) >>= fun found ↦ _) cxt = _
    rw [hcell]
    rfl
  rw [key, bind_apply]
  cases hrefs : cxt.getRefTokens depth cell pos with
  | error e => exact ⟨nofun, fun ⟨_, h, _⟩ ↦ nomatch h⟩
  | ok refs =>
    change refs.forM (unregisterRef pos) _ = _ ↔ _
    rw [forM_unregisterRef_eq_ok_iff fun t ht ↦ isRef_of_mem_getRefTokens hrefs ht]
    constructor
    · exact fun h ↦ ⟨refs, rfl, h⟩
    · rintro ⟨_, h, hall⟩
      cases h
      exact hall

/-! ## When unregistering undoes registering -/

/-- Nothing is tracked by the source range of a cell, and its position is not
volatile. -/
structure NotRegistered (cxt : ModelContext S T) (src : AbsRange) (pos : AbsAddress) : Prop where
  tracked : ∀ sheet e, ¬ cxt.tracker.Tracked sheet e src
  notVolatile : pos.toRange ∉ UnorderedSet.toList cxt.tracker.volatileCells

/-- Two trackers track the same pairs and have the same volatile ranges. -/
structure SameTracking (t t' : DirtyCellTracker S T) : Prop where
  tracked : ∀ sheet e s, t'.Tracked sheet e s ↔ t.Tracked sheet e s
  volatile : ∀ s, s ∈ UnorderedSet.toList t'.volatileCells ↔
    s ∈ UnorderedSet.toList t.volatileCells

/-- After registering took `cxt` to `cxt'`, unregistering returns normally and
leaves what is tracked as it was in `cxt`. -/
def Undone (depth : Nat) (pos : AbsAddress) (cxt cxt' : ModelContext S T) : Prop :=
  ∃ cxt'', unregisterFormulaCell depth pos cxt' = .ok () cxt'' ∧
    SameTracking cxt.tracker cxt''.tracker

/-- The references for which both ends are the same when registering and when
unregistering: ranges have their corners in order and are no whole columns or
rows, and where there is any reference the cell is its own source range. -/
structure Symmetric (cxt : ModelContext S T) (cell : FormulaCell) (pos : AbsAddress)
    (refs : List FormulaToken) : Prop where
  range : ∀ r, .rangeRef r ∈ refs → (r.toAbs pos).Ordered ∧ (r.toAbs pos).allColumns = false ∧
    (r.toAbs pos).allRows = false
  src : refs = [] ∨ cell.isGrouped = false ∨ (cxt.statusOf cell).groupSize = ⟨1, 1⟩

omit [UnorderedSet S AbsRange] [RTree T S] in
theorem srcRange_eq_toRange_iff {cxt : ModelContext S T} {cell : FormulaCell} {pos : AbsAddress} :
    cxt.srcRange cell pos = pos.toRange ↔
      cell.isGrouped = false ∨ (cxt.statusOf cell).groupSize = ⟨1, 1⟩ := by
  rw [srcRange]
  obtain ⟨_, _, _⟩ := pos
  obtain ⟨row, column⟩ := (cxt.statusOf cell).groupSize
  cases cell.isGrouped with
  | false => simp
  | true =>
    simp only [if_true, AbsAddress.toRange, AbsRange.mk.injEq, AbsAddress.mk.injEq, RcSize.mk.injEq,
      true_and, Bool.true_eq_false, false_or]
    omega

omit [UnorderedSet S AbsRange] [RTree T S] in
theorem Symmetric.destRange_eq {cxt : ModelContext S T} {cell : FormulaCell} {pos : AbsAddress}
    {refs : List FormulaToken} (h : cxt.Symmetric cell pos refs) {t : FormulaToken}
    (ht : t ∈ refs) : cxt.destRange pos t = absRef pos t := by
  cases t with
  | rangeRef r =>
    obtain ⟨ho, hc, hr⟩ := h.range r ht
    exact normalizeRange_eq_self ho hc hr
  | _ => rfl

omit [UnorderedSet S AbsRange] [RTree T S] in
theorem Symmetric.srcRange_eq {cxt : ModelContext S T} {cell : FormulaCell} {pos : AbsAddress}
    {refs : List FormulaToken} (h : cxt.Symmetric cell pos refs) {t : FormulaToken}
    (ht : t ∈ refs) : cxt.srcRange cell pos = pos.toRange := by
  refine srcRange_eq_toRange_iff.mpr (h.src.resolve_left ?_)
  rintro rfl
  exact List.not_mem_nil ht

theorem wf_registeredTracker {cxt : ModelContext S T} (h : cxt.tracker.WF) (src : AbsRange)
    (pos : AbsAddress) (refs : List FormulaToken) : (cxt.registeredTracker src pos refs).WF :=
  DirtyCellTracker.WF.foldl_withPairs refs h

theorem tracked_registeredTracker {cxt : ModelContext S T} (h : cxt.tracker.WF) {src : AbsRange}
    {pos : AbsAddress} {refs : List FormulaToken}
    (hall : ∀ t ∈ refs, cxt.Registrable src pos t) {sheet : Int} {e : Extent} {s : AbsRange} :
    (cxt.registeredTracker src pos refs).Tracked sheet e s ↔
      (∃ t ∈ refs, Pairs src (cxt.destRange pos t) sheet e s) ∨ cxt.tracker.Tracked sheet e s :=
  tracked_foldl_withPairs (fun t ht ↦ (hall t ht).2) h

theorem tracked_unregisteredTracker {cxt : ModelContext S T} (h : cxt.tracker.WF)
    {pos : AbsAddress} {refs : List FormulaToken} (hall : ∀ t ∈ refs, Unregistrable pos t)
    {sheet : Int} {e : Extent} {s : AbsRange} :
    (cxt.unregisteredTracker pos refs).Tracked sheet e s ↔
      (¬ ∃ t ∈ refs, Pairs pos.toRange (absRef pos t) sheet e s) ∧
        cxt.tracker.Tracked sheet e s :=
  tracked_foldl_withoutPairs (t := cxt.tracker.removeVolatile pos.toRange)
    (fun t ht ↦ (hall t ht).2) h

theorem volatileCells_unregisteredTracker (cxt : ModelContext S T) (pos : AbsAddress)
    (refs : List FormulaToken) : (cxt.unregisteredTracker pos refs).volatileCells =
      UnorderedSet.erase cxt.tracker.volatileCells pos.toRange :=
  volatileCells_foldl_withoutPairs refs _

/-- What registering a formula cell does to the context. -/
structure RegisterSpec (cell : FormulaCell) (pos : AbsAddress) (refs : List FormulaToken)
    (cxt cxt' : ModelContext S T) : Prop where
  eq : cxt' = cxt.withTracker cxt'.tracker
  registrable : ∀ t ∈ refs, cxt.Registrable (cxt.srcRange cell pos) pos t
  wf : cxt'.tracker.WF
  tracked : ∀ sheet e s, cxt'.tracker.Tracked sheet e s ↔
    (∃ t ∈ refs, Pairs (cxt.srcRange cell pos) (cxt.destRange pos t) sheet e s) ∨
      cxt.tracker.Tracked sheet e s
  volatile : ∀ s, s ∈ UnorderedSet.toList cxt'.tracker.volatileCells ↔
    (hasVolatile cell.tokens = true ∧ s = pos.toRange) ∨
      s ∈ UnorderedSet.toList cxt.tracker.volatileCells

theorem registerSpec {cxt cxt' : ModelContext S T} {depth : Nat} {pos : AbsAddress}
    {cell : FormulaCell} {refs : List FormulaToken} (h : cxt.tracker.WF)
    (hcell : cxt.getFormulaCell pos = .ok (some cell))
    (hrefs : cxt.getRefTokens depth cell pos = .ok refs)
    (hregister : registerFormulaCell depth pos none cxt = .ok () cxt') :
    RegisterSpec cell pos refs cxt cxt' := by
  obtain ⟨_, hrefs', hall, rfl⟩ := (registerFormulaCell_eq_ok_iff hcell).mp hregister
  cases hrefs.symm.trans hrefs'
  have hwf := wf_registeredTracker h (cxt.srcRange cell pos) pos refs
  have hvol : (cxt.registeredTracker (cxt.srcRange cell pos) pos refs).volatileCells =
      cxt.tracker.volatileCells := volatileCells_foldl_withPairs refs _
  cases hv : hasVolatile cell.tokens with
  | false =>
    refine ⟨rfl, hall, hwf, fun _ _ _ ↦ tracked_registeredTracker h hall, fun s ↦ ?_⟩
    change s ∈ UnorderedSet.toList
      (cxt.registeredTracker (cxt.srcRange cell pos) pos refs).volatileCells ↔ _
    simp [hvol, hv]
  | true =>
    refine ⟨rfl, hall, hwf, fun _ _ _ ↦ tracked_registeredTracker h hall, fun s ↦ ?_⟩
    change s ∈ UnorderedSet.toList (UnorderedSet.insert
      (cxt.registeredTracker (cxt.srcRange cell pos) pos refs).volatileCells pos.toRange) ↔ _
    simp [hvol, hv]

/-- Unregistering a formula cell undoes its registration exactly when its
references are symmetric. -/
theorem unregister_register_iff {cxt cxt' : ModelContext S T} {depth : Nat} {pos : AbsAddress}
    {cell : FormulaCell} {refs : List FormulaToken} (ht : cxt.tracker.Reachable)
    (hcell : cxt.getFormulaCell pos = .ok (some cell))
    (hrefs : cxt.getRefTokens depth cell pos = .ok refs)
    (hregister : registerFormulaCell depth pos none cxt = .ok () cxt')
    (hnew : cxt.NotRegistered (cxt.srcRange cell pos) pos) :
    Undone depth pos cxt cxt' ↔ cxt.Symmetric cell pos refs := by
  have hspec := registerSpec ht.wf hcell hrefs hregister
  have hcell' : cxt'.getFormulaCell pos = .ok (some cell) := by
    rw [hspec.eq]
    exact hcell
  have hrefs' : cxt'.getRefTokens depth cell pos = .ok refs := by
    rw [hspec.eq]
    exact hrefs
  constructor
  · rintro ⟨cxt'', hcxt'', hsame⟩
    obtain ⟨_, h, hall, rfl⟩ := (unregisterFormulaCell_eq_ok_iff hcell').mp hcxt''
    cases hrefs'.symm.trans h
    refine ⟨fun r hr ↦ ?_, ?_⟩
    · obtain ⟨_, _, _, hvalid, hc, hr⟩ := hall _ hr
      exact ⟨(AbsRange.valid_iff.mp hvalid).2.2, hc, hr⟩
    · cases refs with
      | nil => exact .inl rfl
      | cons t refs =>
        -- what the extent of the group tracks would not be taken back
        have heq : cxt.srcRange cell pos = pos.toRange := by
          by_contra hne
          have hdest := (hspec.registrable t List.mem_cons_self).2.dest_valid
          have hpair : Pairs (cxt.srcRange cell pos) (cxt.destRange pos t)
              (cxt.destRange pos t).first.sheet (cxt.destRange pos t).extent
              (cxt.srcRange cell pos) :=
            ⟨rfl, rfl, le_rfl, (AbsRange.valid_iff.mp hdest).2.2.1⟩
          have hleft : (cxt'.unregisteredTracker pos (t :: refs)).Tracked
              (cxt.destRange pos t).first.sheet (cxt.destRange pos t).extent
              (cxt.srcRange cell pos) := by
            refine (tracked_unregisteredTracker hspec.wf hall).mpr ⟨?_, ?_⟩
            · rintro ⟨_, _, hsrc, _⟩
              exact hne hsrc
            · exact (hspec.tracked _ _ _).mpr (.inl ⟨t, List.mem_cons_self, hpair⟩)
          exact hnew.tracked _ _ ((hsame.tracked _ _ _).mp hleft)
        exact .inr (srcRange_eq_toRange_iff.mp heq)
  · intro hsym
    have hall : ∀ t ∈ refs, Unregistrable pos t := by
      intro t ht
      obtain ⟨hsheet, htrack⟩ := hspec.registrable t ht
      rw [hsym.srcRange_eq ht, hsym.destRange_eq ht] at htrack
      exact ⟨hsheet, htrack⟩
    refine ⟨_, (unregisterFormulaCell_eq_ok_iff hcell').mpr ⟨refs, hrefs', hall, rfl⟩,
      fun sheet e s ↦ ?_, fun s ↦ ?_⟩
    · change (cxt'.unregisteredTracker pos refs).Tracked sheet e s ↔ _
      rw [tracked_unregisteredTracker hspec.wf hall, hspec.tracked]
      constructor
      · rintro ⟨hn, ⟨t, ht, hp⟩ | hold⟩
        · rw [hsym.srcRange_eq ht, hsym.destRange_eq ht] at hp
          exact absurd ⟨t, ht, hp⟩ hn
        · exact hold
      · refine fun hold ↦ ⟨?_, .inr hold⟩
        rintro ⟨t, ht, hs, _⟩
        rw [← hsym.srcRange_eq ht] at hs
        exact hnew.tracked sheet e (hs ▸ hold)
    · change s ∈ UnorderedSet.toList (cxt'.unregisteredTracker pos refs).volatileCells ↔ _
      rw [volatileCells_unregisteredTracker, UnorderedSet.mem_toList_erase, hspec.volatile]
      constructor
      · rintro ⟨hne, h | h⟩
        · exact absurd h.2 hne
        · exact h
      · exact fun h ↦ ⟨fun hs ↦ hnew.notVolatile (hs ▸ h), .inr h⟩

/-! ## What is left when registering fails

A reference that cannot be registered or unregistered leaves the tracker as it is, but
the references before it have been registered or unregistered. -/

/-- Nothing but the tracker has changed, and it tracks less than before. -/
structure Forgets (cxt cxt' : ModelContext S T) : Prop where
  eq : cxt' = cxt.withTracker cxt'.tracker
  wf : cxt'.tracker.WF
  tracked : ∀ sheet e s, cxt'.tracker.Tracked sheet e s → cxt.tracker.Tracked sheet e s
  volatile : ∀ s, s ∈ UnorderedSet.toList cxt'.tracker.volatileCells →
    s ∈ UnorderedSet.toList cxt.tracker.volatileCells

theorem Forgets.refl {cxt : ModelContext S T} (h : cxt.tracker.WF) : Forgets cxt cxt :=
  ⟨rfl, h, fun _ _ _ ht ↦ ht, fun _ hs ↦ hs⟩

theorem Forgets.trans {cxt cxt' cxt'' : ModelContext S T} (h : Forgets cxt cxt')
    (h' : Forgets cxt' cxt'') : Forgets cxt cxt'' where
  eq := by
    rw [h'.eq, h.eq]
    rfl
  wf := h'.wf
  tracked sheet e s ht := h.tracked sheet e s (h'.tracked sheet e s ht)
  volatile s hs := h.volatile s (h'.volatile s hs)

/-- Nothing but the tracker has changed, and beyond what it tracked before it tracks
only references of one cell. -/
structure Extends (src : AbsRange) (pos : AbsAddress) (refs : List FormulaToken)
    (cxt cxt' : ModelContext S T) : Prop where
  eq : cxt' = cxt.withTracker cxt'.tracker
  wf : cxt'.tracker.WF
  tracked : ∀ sheet e s, cxt'.tracker.Tracked sheet e s →
    (∃ t ∈ refs, Pairs src (cxt.destRange pos t) sheet e s) ∨ cxt.tracker.Tracked sheet e s
  volatile : ∀ s, s ∈ UnorderedSet.toList cxt'.tracker.volatileCells →
    s = pos.toRange ∨ s ∈ UnorderedSet.toList cxt.tracker.volatileCells

theorem Extends.refl {cxt : ModelContext S T} (h : cxt.tracker.WF) (src : AbsRange)
    (pos : AbsAddress) (refs : List FormulaToken) : Extends src pos refs cxt cxt :=
  ⟨rfl, h, fun _ _ _ ht ↦ .inr ht, fun _ hs ↦ .inr hs⟩

theorem Extends.trans {src : AbsRange} {pos : AbsAddress} {refs : List FormulaToken}
    {cxt cxt' cxt'' : ModelContext S T} (h : Extends src pos refs cxt cxt')
    (h' : Extends src pos refs cxt' cxt'') : Extends src pos refs cxt cxt'' where
  eq := by
    rw [h'.eq, h.eq]
    rfl
  wf := h'.wf
  tracked sheet e s ht := by
    rcases h'.tracked sheet e s ht with hp | ht
    · rw [h.eq] at hp
      exact .inl hp
    · exact h.tracked sheet e s ht
  volatile s hs := (h'.volatile s hs).elim .inl (h.volatile s)

section

variable {E : Failure → ModelContext S T → Prop} {Q : Unit → ModelContext S T → Prop}

omit [UnorderedSet S AbsRange] [RTree T S] in
theorem wp_checkSheetOrThrow {func : String} {sheet : Int} {pos : AbsAddress}
    {cxt : ModelContext S T} (hQ : Q () cxt) (hE : ∀ e, E e cxt) :
    wp (checkSheetOrThrow func sheet pos) Q E cxt := by
  rw [checkSheetOrThrow]
  split
  · exact hQ
  · exact hE _

omit [UnorderedSet S AbsRange] [RTree T S] in
theorem wp_modifyTracker {f : DirtyCellTracker S T → Except Exn (DirtyCellTracker S T)}
    {cxt : ModelContext S T}
    (hQ : ∀ tracker, f cxt.tracker = .ok tracker → Q () (cxt.withTracker tracker))
    (hE : ∀ e, E e cxt) : wp (modifyTracker f) Q E cxt := by
  change wp (liftExcept (f cxt.tracker) >>= fun tracker ↦
    (set (cxt.withTracker tracker) : Exec (ModelContext S T) Unit)) Q E cxt
  rw [wp_bind]
  cases hf : f cxt.tracker with
  | ok tracker => exact hQ tracker hf
  | error e => exact hE _

end

/-- A reference is unregistered, or nothing happens. -/
theorem wp_unregisterRef {cxt : ModelContext S T} (h : cxt.tracker.WF) (pos : AbsAddress)
    (t : FormulaToken) :
    wp (unregisterRef pos t) (fun _ ↦ Forgets cxt) (fun _ cxt' ↦ cxt' = cxt) cxt := by
  have href : wp (do
      checkSheetOrThrow "unregister_formula_cell" (absRef pos t).first.sheet pos
      modifyTracker fun tracker ↦ tracker.remove pos.toRange (absRef pos t))
      (fun _ ↦ Forgets cxt) (fun _ cxt' ↦ cxt' = cxt) cxt := by
    rw [wp_bind]
    refine wp_checkSheetOrThrow (wp_modifyTracker ?_ fun _ ↦ rfl) fun _ ↦ rfl
    intro tracker htracker
    obtain ⟨htr, rfl⟩ := remove_eq_ok_iff.mp htracker
    refine ⟨rfl, h.withoutPairs _ _, fun sheet e s hs ↦ ((tracked_withoutPairs h htr).mp hs).2, ?_⟩
    intro s hs
    rwa [withTracker, volatileCells_withoutPairs] at hs
  cases t with
  | singleRef addr => exact href
  | rangeRef range => exact href
  | _ => exact Forgets.refl h

/-- A reference is registered, or nothing happens. -/
theorem wp_registerRef {cxt : ModelContext S T} (h : cxt.tracker.WF) {src : AbsRange}
    {pos : AbsAddress} {refs : List FormulaToken} {t : FormulaToken} (ht : t ∈ refs) :
    wp (registerRef src pos t) (fun _ ↦ Extends src pos refs cxt)
      (fun _ ↦ Extends src pos refs cxt) cxt := by
  have hrefl := Extends.refl h src pos refs
  have href : wp (do
      checkSheetOrThrow "register_formula_cell" (absRef pos t).first.sheet pos
      let cxt ← get
      modifyTracker fun tracker ↦ tracker.add src (cxt.destRange pos t))
      (fun _ ↦ Extends src pos refs cxt) (fun _ ↦ Extends src pos refs cxt) cxt := by
    rw [wp_bind]
    refine wp_checkSheetOrThrow ?_ fun _ ↦ hrefl
    rw [wp_bind, wp_get]
    refine wp_modifyTracker ?_ fun _ ↦ hrefl
    intro tracker htracker
    obtain ⟨htr, rfl⟩ := add_eq_ok_iff.mp htracker
    refine ⟨rfl, h.withPairs _ _, fun sheet e s hs ↦ ?_, fun s hs ↦ .inr ?_⟩
    · exact ((tracked_withPairs h htr).mp hs).imp_left fun hp ↦ ⟨t, ht, hp⟩
    · rwa [withTracker, volatileCells_withPairs] at hs
  cases t with
  | singleRef addr => exact href
  | rangeRef range => exact href
  | _ => exact hrefl

/-- Unregistering never makes the tracker track more, even when it fails. -/
theorem wp_unregisterFormulaCell {cxt : ModelContext S T} (h : cxt.tracker.WF) (depth : Nat)
    (pos : AbsAddress) :
    wp (unregisterFormulaCell depth pos) (fun _ ↦ Forgets cxt) (fun _ ↦ Forgets cxt) cxt := by
  rw [unregisterFormulaCell, wp_bind, wp_get, wp_bind]
  cases hcell : cxt.getFormulaCell pos with
  | error e => exact Forgets.refl h
  | ok p =>
    cases p with
    | none => exact Forgets.refl h
    | some cell =>
      simp only [liftExcept, wp_pure, wp_bind, wp_modify]
      have herase : Forgets cxt (cxt.withTracker (cxt.tracker.removeVolatile pos.toRange)) := by
        refine ⟨rfl, h, fun _ _ _ ht ↦ ht, fun s hs ↦ ?_⟩
        exact (UnorderedSet.mem_toList_erase.mp hs).2
      cases hrefs : cxt.getRefTokens depth cell pos with
      | error e => exact herase
      | ok refs =>
        refine wp_forM (I := fun _ cxt' ↦ Forgets cxt cxt') (fun t rest cxt' hI ↦ ?_) herase
        exact (wp_unregisterRef hI.wf pos t).mono (fun _ _ h' ↦ hI.trans h')
          (fun _ _ h' ↦ h' ▸ hI)

/-- Nothing is unregistered outside the workbook. -/
theorem inWorkbook_of_unregister {cxt cxt' : ModelContext S T} {depth : Nat} {addr : AbsAddress}
    (hrun : unregisterFormulaCell depth addr cxt = .ok () cxt') :
    cxt.inWorkbook addr = true := by
  by_contra hin
  rw [Bool.not_eq_true] at hin
  have hfail : unregisterFormulaCell depth addr cxt = .error (.exception .outOfRange) cxt := by
    change (liftExcept (cxt.getFormulaCell addr) >>= fun found ↦ _) cxt = _
    rw [Workbook.getFormulaCell_of_not_inWorkbook hin]
    rfl
  exact absurd (hrun.symm.trans hfail) nofun

/-- Registering a formula cell makes the tracker track at most its references, even when
it fails. -/
theorem wp_registerFormulaCell {cxt : ModelContext S T} (h : cxt.tracker.WF) {depth : Nat}
    {pos : AbsAddress} {cell : FormulaCell} {refs : List FormulaToken}
    (hrefs : cxt.getRefTokens depth cell pos = .ok refs) :
    wp (registerFormulaCell depth pos (some cell))
      (fun _ ↦ Extends (cxt.srcRange cell pos) pos refs cxt)
      (fun _ ↦ Extends (cxt.srcRange cell pos) pos refs cxt) cxt := by
  let src := cxt.srcRange cell pos
  rw [registerFormulaCell, wp_bind, wp_get, wp_bind, wp_pure]
  simp only [hrefs, liftFailure, wp_pure, wp_bind]
  have hloop : wp (refs.forM (registerRef src pos)) (fun _ ↦ Extends src pos refs cxt)
      (fun _ ↦ Extends src pos refs cxt) cxt := by
    refine wp_forM (I := fun rest cxt' ↦ rest ⊆ refs ∧ Extends src pos refs cxt cxt')
      (fun t rest cxt' hI ↦ ?_) ⟨List.Subset.refl _, .refl h src pos refs⟩ |>.mono
      (fun _ _ hI ↦ hI.2) fun _ _ hI ↦ hI
    obtain ⟨ht, hrest⟩ := List.cons_subset.mp hI.1
    exact (wp_registerRef hI.2.wf ht).mono (fun _ _ h' ↦ ⟨hrest, hI.2.trans h'⟩)
      (fun _ _ h' ↦ hI.2.trans h')
  refine hloop.mono (fun _ cxt' hI ↦ ?_) fun _ _ hI ↦ hI
  split
  · refine ⟨?_, hI.wf, hI.tracked, fun s hs ↦ ?_⟩
    · rw [hI.eq]
      rfl
    · exact (UnorderedSet.mem_toList_insert.mp hs).elim .inl (hI.volatile s)
  · exact hI

/-! ### A whole column -/

/-- The containers on which concrete inputs are run. -/
abbrev Ranges : Type := ListSet AbsRange

/-- `SUM(A:A)` in the cell `C1`. -/
def wholeColumnCell : FormulaCell where
  tokens := [.function .funcSum, .parenOpen,
    .rangeRef ⟨⟨0, rowUnset, -2, false, false, false⟩, ⟨0, rowUnset, -2, false, false, false⟩⟩,
    .parenClose]
  groupRow := -1
  groupColumn := -1
  status := 0

/-- The position of the cell. -/
def wholeColumnPos : AbsAddress := ⟨0, 0, 2⟩

/-- A workbook that holds nothing else. -/
def wholeColumnContext : ModelContext Ranges (ListTree Ranges) :=
  { ModelContext.new ⟨1048576, 16384⟩ with
    sheets := [⟨"Sheet1", []⟩]
    cells := fun addr ↦ if addr = wholeColumnPos then .formula wholeColumnCell else .empty
    statusCount := 1 }

/-- The references of the cell. -/
def wholeColumnRefs : List FormulaToken :=
  [.rangeRef ⟨⟨0, rowUnset, -2, false, false, false⟩, ⟨0, rowUnset, -2, false, false, false⟩⟩]

/-- The workbook after the cell has been registered. -/
def wholeColumnRegistered : ModelContext Ranges (ListTree Ranges) :=
  wholeColumnContext.withTracker
    (wholeColumnContext.registeredTracker wholeColumnPos.toRange wholeColumnPos wholeColumnRefs)

theorem getFormulaCell_wholeColumn :
    wholeColumnContext.getFormulaCell wholeColumnPos = .ok (some wholeColumnCell) :=
  rfl

theorem getRefTokens_wholeColumn :
    wholeColumnContext.getRefTokens 0 wholeColumnCell wholeColumnPos = .ok wholeColumnRefs :=
  rfl

theorem register_wholeColumn :
    registerFormulaCell 0 wholeColumnPos none wholeColumnContext =
      .ok () wholeColumnRegistered := by
  refine (registerFormulaCell_eq_ok_iff getFormulaCell_wholeColumn).mpr
    ⟨wholeColumnRefs, getRefTokens_wholeColumn, fun t ht ↦ ?_, rfl⟩
  rw [List.mem_singleton.mp ht]
  exact ⟨rfl, by decide, rfl, by decide, by decide, by decide⟩

theorem notRegistered_wholeColumn : wholeColumnContext.NotRegistered
    (wholeColumnContext.srcRange wholeColumnCell wholeColumnPos) wholeColumnPos where
  tracked _ _ h := not_listens_empty (tracked_iff.mp h).2
  notVolatile := List.not_mem_nil

/-- Unregistering does not undo registering in general: what was registered for a
whole column cannot be unregistered. -/
theorem not_undone_wholeColumn :
    ¬ ∀ (cxt cxt' : ModelContext Ranges (ListTree Ranges)) (depth : Nat) (pos : AbsAddress)
      (cell : FormulaCell), cxt.tracker.Reachable → cxt.getFormulaCell pos = .ok (some cell) →
      cell.calcAllowed = true → registerFormulaCell depth pos none cxt = .ok () cxt' →
      cxt.NotRegistered (cxt.srcRange cell pos) pos → Undone depth pos cxt cxt' := by
  intro h
  obtain ⟨_, hun, _⟩ := h wholeColumnContext wholeColumnRegistered 0 wholeColumnPos
    wholeColumnCell .new rfl rfl register_wholeColumn notRegistered_wholeColumn
  have hcell : wholeColumnRegistered.getFormulaCell wholeColumnPos = .ok (some wholeColumnCell) :=
    rfl
  obtain ⟨_, hrefs, hall, _⟩ := (unregisterFormulaCell_eq_ok_iff hcell).mp hun
  cases hrefs
  exact absurd (hall _ List.mem_cons_self).2.not_allRows (by decide)

theorem unregister_register_iff_wholeColumn :
    Undone 0 wholeColumnPos wholeColumnContext wholeColumnRegistered ↔
      wholeColumnContext.Symmetric wholeColumnCell wholeColumnPos wholeColumnRefs :=
  unregister_register_iff .new getFormulaCell_wholeColumn getRefTokens_wholeColumn
    register_wholeColumn notRegistered_wholeColumn

end ModelContext

end Ixion
