import Ixion.Register
import Ixion.Lib.Loop
import Ixion.Lib.Sweep

/-!
# Checking for circular references

Before a list of formula cells is interpreted their statuses are reset and each
cell is checked once, in the order of the list.  A cell is found safe when all
formula cells that its own tokens refer to have been found safe before; otherwise
its result is an error from then on.

`checkCircular` looks at a range cell by cell, with the corners as they are
written: a range whose corners are out of order has no cells.  Named expressions
and tables are not looked into.

The two passes are a sweep in the sense of `Lib.Sweep` over the statuses:
`wp_prepare`.
-/

namespace Ixion

open Lib

namespace Workbook

/-! ## The cells a check looks at -/

/-- The cells that are looked at for a token of a formula at `pos`. -/
def walkedCells (wb : Workbook) (pos : AbsAddress) : FormulaToken → List AbsAddress
  | .singleRef addr => [addr.toAbs pos]
  | .rangeRef r =>
    let range := r.toAbs pos
    let colFirst := if range.allColumns then 0 else range.first.column
    let colLast := if range.allColumns then wb.sheetSize.column - 1 else range.last.column
    let rowFirst := if range.allRows then 0 else range.first.row
    let rowLast := if range.allRows then wb.sheetSize.row - 1 else range.last.row
    (countUp range.first.sheet range.last.sheet).flatMap fun sheet ↦
      (countUp colFirst colLast).flatMap fun col ↦
        (countUp rowFirst rowLast).map fun row ↦ ⟨sheet, row, col⟩
  | _ => []

/-- The cells that are looked at for a formula at `pos`. -/
def walkedByCell (wb : Workbook) (cell : FormulaCell) (pos : AbsAddress) : List AbsAddress :=
  cell.tokens.flatMap (wb.walkedCells pos)

/-- The statuses of the formula cells among some cells. -/
def statusesAt (wb : Workbook) (l : List AbsAddress) : Set Nat :=
  {k | ∃ a ∈ l, ∃ ref, wb.getFormulaCell a = .ok (some ref) ∧ ref.status = k}

theorem statusesAt_cons_of_some {wb : Workbook} {a : AbsAddress} {l : List AbsAddress}
    {ref : FormulaCell} (h : wb.getFormulaCell a = .ok (some ref)) {s : Set Nat} :
    wb.statusesAt (a :: l) ⊆ s ↔ ref.status ∈ s ∧ wb.statusesAt l ⊆ s := by
  constructor
  · intro hs
    refine ⟨hs ⟨a, List.mem_cons_self, ref, h, rfl⟩, ?_⟩
    rintro k ⟨b, hb, hk⟩
    exact hs ⟨b, List.mem_cons_of_mem a hb, hk⟩
  · rintro ⟨hr, hs⟩ k ⟨b, hb, ref', h', rfl⟩
    rcases List.mem_cons.mp hb with rfl | hb
    · cases h.symm.trans h'
      exact hr
    · exact hs ⟨b, hb, ref', h', rfl⟩

theorem statusesAt_cons_of_none {wb : Workbook} {a : AbsAddress} {l : List AbsAddress}
    (h : wb.getFormulaCell a = .ok none) {s : Set Nat} :
    wb.statusesAt (a :: l) ⊆ s ↔ wb.statusesAt l ⊆ s := by
  constructor
  · rintro hs k ⟨b, hb, hk⟩
    exact hs ⟨b, List.mem_cons_of_mem a hb, hk⟩
  · rintro hs k ⟨b, hb, ref', h', rfl⟩
    rcases List.mem_cons.mp hb with rfl | hb
    · exact absurd (h.symm.trans h') nofun
    · exact hs ⟨b, hb, ref', h', rfl⟩

/-! ## The cells of a list of ranges -/

/-- What is done at one range of the list that is calculated: the formula cell at
its first address, which may be missing. -/
structure QueueEntry where
  p : Option FormulaCell
  pos : AbsAddress

/-- The formula cells of a list of ranges. -/
def queueEntries (wb : Workbook) (formulaCells : List AbsRange) : Except Exn (List QueueEntry) :=
  collectM (fun r ↦ (wb.getFormulaCell r.first).map fun p ↦ [⟨p, r.first⟩]) formulaCells

/-- A formula cell and its position. -/
structure Visit where
  cell : FormulaCell
  pos : AbsAddress

namespace Visit

/-- The number of the status. -/
def key (x : Visit) : Nat := x.cell.status

/-- The statuses that the check looks at. -/
def seen (wb : Workbook) (x : Visit) : Set Nat := wb.statusesAt (wb.walkedByCell x.cell x.pos)

/-- A visit as an entry of the queue. -/
def toEntry (x : Visit) : QueueEntry := ⟨some x.cell, x.pos⟩

theorem toEntry_injective : Function.Injective toEntry := by
  rintro ⟨_, _⟩ ⟨_, _⟩ h
  cases h
  rfl

end Visit

/-- The formula cell at an address together with the address. -/
def visitAt (wb : Workbook) (addr : AbsAddress) : Option Visit :=
  match wb.getFormulaCell addr with
  | .ok (some cell) => some ⟨cell, addr⟩
  | _ => none

/-- The formula cells of a list of ranges, in this order. -/
def visits (wb : Workbook) (formulaCells : List AbsRange) : List Visit :=
  formulaCells.filterMap fun r ↦ wb.visitAt r.first

theorem visitAt_eq_some_iff {wb : Workbook} {addr : AbsAddress} {x : Visit} :
    wb.visitAt addr = some x ↔ wb.getFormulaCell addr = .ok (some x.cell) ∧ x.pos = addr := by
  rw [visitAt]
  cases h : wb.getFormulaCell addr with
  | error e => exact ⟨nofun, fun hx ↦ nomatch hx.1⟩
  | ok p =>
    cases p with
    | none => exact ⟨nofun, fun hx ↦ nomatch hx.1⟩
    | some cell =>
      constructor
      · rintro ⟨⟩
        exact ⟨rfl, rfl⟩
      · obtain ⟨c, a⟩ := x
        rintro ⟨hc, rfl⟩
        cases hc
        rfl

theorem mem_visits {wb : Workbook} {v : List AbsRange} {x : Visit} :
    x ∈ wb.visits v ↔ ∃ r ∈ v, wb.getFormulaCell r.first = .ok (some x.cell) ∧ x.pos = r.first := by
  rw [visits, List.mem_filterMap]
  simp only [visitAt_eq_some_iff]

theorem visits_cons_of_some {wb : Workbook} {r : AbsRange} {x : Visit}
    (h : wb.visitAt r.first = some x) (v : List AbsRange) :
    wb.visits (r :: v) = x :: wb.visits v := by
  rw [visits, List.filterMap_cons, h]
  rfl

/-- Every range of a list begins with a formula cell. -/
def AllFormulas (wb : Workbook) (formulaCells : List AbsRange) : Prop :=
  ∀ r ∈ formulaCells, ∃ cell, wb.getFormulaCell r.first = .ok (some cell)

/-- The entries exist when no range lies outside the workbook; then either an entry
is missing its formula cell or all of them are visits. -/
theorem queueEntries_eq_ok {wb : Workbook} {v : List AbsRange} {entries : List QueueEntry}
    (h : wb.queueEntries v = .ok entries) :
    (wb.AllFormulas v ∧ entries = (wb.visits v).map Visit.toEntry) ∨
      (∃ r ∈ v, wb.getFormulaCell r.first = .ok none) ∧ ∃ e ∈ entries, e.p = none := by
  induction v generalizing entries with
  | nil =>
    cases h
    exact .inl ⟨fun r hr ↦ absurd hr List.not_mem_nil, rfl⟩
  | cons r v ih =>
    obtain ⟨bs, cs, hr, hv, rfl⟩ := collectM_cons_eq_ok_iff.mp h
    cases hcell : wb.getFormulaCell r.first with
    | error e => rw [hcell] at hr; exact absurd hr nofun
    | ok p =>
      rw [hcell] at hr
      cases hr
      cases p with
      | none =>
        exact .inr ⟨⟨r, List.mem_cons_self, hcell⟩, ⟨none, r.first⟩, List.mem_cons_self, rfl⟩
      | some cell =>
        rcases ih hv with ⟨hall, rfl⟩ | ⟨⟨r', hr', hnone⟩, e, he, hp⟩
        · refine .inl ⟨?_, ?_⟩
          · rintro r' hr'
            rcases List.mem_cons.mp hr' with rfl | hr'
            · exact ⟨cell, hcell⟩
            · exact hall r' hr'
          · have hvisit : wb.visitAt r.first = some ⟨cell, r.first⟩ :=
              visitAt_eq_some_iff.mpr ⟨hcell, rfl⟩
            rw [visits_cons_of_some hvisit]
            rfl
        · exact .inr ⟨⟨r', List.mem_cons_of_mem r hr', hnone⟩, e, List.mem_cons_of_mem _ he, hp⟩

/-- No entries exist when a range lies outside the workbook. -/
theorem queueEntries_eq_error {wb : Workbook} {v : List AbsRange} {e : Exn}
    (h : wb.queueEntries v = .error e) :
    e = .outOfRange ∧ ∃ r ∈ v, wb.inWorkbook r.first = false := by
  obtain ⟨r, hr, he⟩ := exists_error_of_collectM h
  cases hin : wb.inWorkbook r.first with
  | true =>
    obtain ⟨p, hp⟩ := exists_getFormulaCell hin
    rw [hp] at he
    exact absurd he nofun
  | false =>
    rw [getFormulaCell_of_not_inWorkbook hin] at he
    cases he
    exact ⟨rfl, r, hr, hin⟩

end Workbook

namespace ModelContext

open Workbook

variable {S T : Type}

/-! ## The two passes -/

/-- Check a formula cell that is referred to.  Unless it is safe the result of the
referring cell becomes an error. -/
def checkRefForCircularSafety (cell ref : FormulaCell) : Exec (ModelContext S T) Bool := do
  let cxt ← get
  if !(cxt.statusOf ref).circularSafe then
    set (cxt.setStatus cell
      { cxt.statusOf cell with result := some (.error .refResultNotAvailable) })
    return false
  return true

/-- Check the formula cells among some cells, up to the first one that is not
safe. -/
def checkCells (cell : FormulaCell) : List AbsAddress → Exec (ModelContext S T) Unit
  | [] => modify fun cxt ↦ cxt.setStatus cell { cxt.statusOf cell with circularSafe := true }
  | addr :: rest => do
    let cxt ← get
    match ← liftExcept (cxt.getFormulaCell addr) with
    | none => checkCells cell rest
    | some ref => if ← checkRefForCircularSafety cell ref then checkCells cell rest

/-- Check a formula cell at a position. -/
def checkCircular (cell : FormulaCell) (pos : AbsAddress) : Exec (ModelContext S T) Unit := do
  let cxt ← get
  checkCells cell (cxt.walkedByCell cell pos)

/-- Forget the result of a formula cell. -/
def reset (cell : FormulaCell) : Exec (ModelContext S T) Unit :=
  modify fun cxt ↦
    cxt.setStatus cell { cxt.statusOf cell with result := none, circularSafe := false }

/-- The formula cell of an entry. -/
def deref (p : Option FormulaCell) : Exec (ModelContext S T) FormulaCell :=
  match p with
  | some cell => return cell
  | none => throw .nullPointer

/-- Reset the cells of a list of entries. -/
def resetEntries (entries : List QueueEntry) : Exec (ModelContext S T) Unit :=
  entries.forM fun e ↦ do reset (← deref e.p)

/-- Check the cells of a list of entries. -/
def checkEntries (entries : List QueueEntry) : Exec (ModelContext S T) Unit :=
  entries.forM fun e ↦ do checkCircular (← deref e.p) e.pos

/-- Collect the formula cells of a list of ranges, reset them and check them. -/
def prepare (formulaCells : List AbsRange) : Exec (ModelContext S T) (List QueueEntry) := do
  let cxt ← get
  let entries ← liftExcept (cxt.queueEntries formulaCells)
  resetEntries entries
  checkEntries entries
  return entries

/-! ## The statuses as the state of a sweep -/

/-- The same context with other statuses. -/
def withStatuses (cxt : ModelContext S T) (statuses : Nat → CalcStatus) : ModelContext S T :=
  { cxt with statuses }

@[simp] theorem withStatuses_statuses (cxt : ModelContext S T) (st : Nat → CalcStatus) :
    (cxt.withStatuses st).statuses = st := rfl

@[simp] theorem withStatuses_toWorkbook (cxt : ModelContext S T) (st : Nat → CalcStatus) :
    (cxt.withStatuses st).toWorkbook = cxt.toWorkbook := rfl

/-- The statuses that are safe, and those whose result is the error for a reference
without a result. -/
def sweepState (cxt : ModelContext S T) : SweepState Nat where
  safe := {k | (cxt.statuses k).circularSafe = true}
  marked := {k | (cxt.statuses k).result = some (.error .refResultNotAvailable)}

/-- What checking a cell that sees some statuses does: its own status becomes safe,
or its result becomes an error. -/
inductive Checked (cell : FormulaCell) (seen : Set Nat) (cxt : ModelContext S T) :
    ModelContext S T → Prop where
  | safe : seen ⊆ cxt.sweepState.safe →
    Checked cell seen cxt (cxt.setStatus cell { cxt.statusOf cell with circularSafe := true })
  | marked : ¬ seen ⊆ cxt.sweepState.safe →
    Checked cell seen cxt (cxt.setStatus cell
      { cxt.statusOf cell with result := some (.error .refResultNotAvailable) })

theorem Checked.congr {cell : FormulaCell} {seen seen' : Set Nat} {cxt cxt' : ModelContext S T}
    (h : Checked cell seen cxt cxt')
    (hiff : seen' ⊆ cxt.sweepState.safe ↔ seen ⊆ cxt.sweepState.safe) :
    Checked cell seen' cxt cxt' := by
  cases h with
  | safe h => exact .safe (hiff.mpr h)
  | marked h => exact .marked fun h' ↦ h (hiff.mp h')

/-- A check returns unless it comes to a cell outside the workbook. -/
theorem wp_checkCells (cell : FormulaCell) (l : List AbsAddress) (cxt : ModelContext S T) :
    wp (checkCells cell l) (fun _ ↦ Checked cell (cxt.statusesAt l) cxt)
      (fun e _ ↦ e = .exception .outOfRange ∧ ∃ a ∈ l, cxt.inWorkbook a = false) cxt := by
  induction l with
  | nil =>
    rw [checkCells, wp_modify]
    exact .safe fun k ⟨a, ha, _⟩ ↦ absurd ha List.not_mem_nil
  | cons a l ih =>
    rw [checkCells, wp_bind, wp_get, wp_bind]
    cases hin : cxt.inWorkbook a with
    | false =>
      rw [getFormulaCell_of_not_inWorkbook hin]
      exact ⟨rfl, a, List.mem_cons_self, hin⟩
    | true =>
      have hout : ∀ (e : Failure) (_ : ModelContext S T),
          (e = .exception .outOfRange ∧ ∃ a ∈ l, cxt.inWorkbook a = false) →
          e = .exception .outOfRange ∧ ∃ b ∈ a :: l, cxt.inWorkbook b = false :=
        fun e _ ⟨he, b, hb, hb'⟩ ↦ ⟨he, b, List.mem_cons_of_mem a hb, hb'⟩
      obtain ⟨p, hp⟩ := exists_getFormulaCell hin
      rw [hp, liftExcept, wp_pure]
      cases p with
      | none => exact ih.mono (fun _ _ h ↦ h.congr (statusesAt_cons_of_none hp)) hout
      | some ref =>
        simp only [checkRefForCircularSafety, wp_bind, wp_get]
        cases hsafe : (cxt.statusOf ref).circularSafe with
        | false =>
          refine Checked.marked fun h ↦ ?_
          have hmem : (cxt.statusOf ref).circularSafe = true :=
            ((statusesAt_cons_of_some hp).mp h).1
          exact absurd (hsafe.symm.trans hmem) (by rintro ⟨⟩)
        | true =>
          refine ih.mono (fun _ _ h ↦ h.congr ?_) hout
          rw [statusesAt_cons_of_some hp]
          exact and_iff_right hsafe

theorem wp_checkCircular (x : Visit) (cxt : ModelContext S T) :
    wp (checkCircular x.cell x.pos) (fun _ ↦ Checked x.cell (x.seen cxt.toWorkbook) cxt)
      (fun e _ ↦ e = .exception .outOfRange ∧
        ∃ a ∈ cxt.walkedByCell x.cell x.pos, cxt.inWorkbook a = false) cxt := by
  rw [checkCircular, wp_bind, wp_get]
  exact wp_checkCells x.cell _ cxt

/-! ## What the passes do -/

/-- What checking a list of cells does. -/
structure Swept (l : List Visit) (cxt cxt' : ModelContext S T) : Prop where
  eq : cxt' = cxt.withStatuses cxt'.statuses
  sweep : cxt'.sweepState = sweep Visit.key (Visit.seen cxt.toWorkbook) cxt.sweepState l
  other : ∀ k, (∀ x ∈ l, x.key ≠ k) → cxt'.statuses k = cxt.statuses k
  result : ∀ k, (cxt'.statuses k).result = (cxt.statuses k).result ∨
    (cxt'.statuses k).result = some (.error .refResultNotAvailable)
  groupSize : ∀ k, (cxt'.statuses k).groupSize = (cxt.statuses k).groupSize

theorem Swept.refl (cxt : ModelContext S T) : Swept [] cxt cxt where
  eq := rfl
  sweep := rfl
  other _ _ := rfl
  result _ := .inl rfl
  groupSize _ := rfl

theorem Swept.trans {l l' : List Visit} {cxt cxt' cxt'' : ModelContext S T}
    (h : Swept l cxt cxt') (h' : Swept l' cxt' cxt'') : Swept (l ++ l') cxt cxt'' where
  eq := by
    rw [h'.eq, h.eq]
    rfl
  sweep := by
    rw [sweep_append, ← h.sweep, h'.sweep, h.eq]
    rfl
  other k hk := by
    rw [h'.other k fun x hx ↦ hk x (List.mem_append_right l hx),
      h.other k fun x hx ↦ hk x (List.mem_append_left l' hx)]
  result k := by
    rcases h'.result k with h₂ | h₂
    · rw [h₂]
      exact h.result k
    · exact .inr h₂
  groupSize k := (h'.groupSize k).trans (h.groupSize k)

theorem mem_safe_setStatus {cxt : ModelContext S T} {cell : FormulaCell} {status : CalcStatus}
    {k : Nat} : k ∈ (cxt.setStatus cell status).sweepState.safe ↔
      (k = cell.status ∧ status.circularSafe = true) ∨
        (k ≠ cell.status ∧ k ∈ cxt.sweepState.safe) := by
  change (Function.update cxt.statuses cell.status status k).circularSafe = true ↔ _
  by_cases hk : k = cell.status
  · subst hk
    simp
  · rw [Function.update_of_ne hk]
    simp [hk, sweepState]

theorem mem_marked_setStatus {cxt : ModelContext S T} {cell : FormulaCell} {status : CalcStatus}
    {k : Nat} : k ∈ (cxt.setStatus cell status).sweepState.marked ↔
      (k = cell.status ∧ status.result = some (.error .refResultNotAvailable)) ∨
        (k ≠ cell.status ∧ k ∈ cxt.sweepState.marked) := by
  change (Function.update cxt.statuses cell.status status k).result = _ ↔ _
  by_cases hk : k = cell.status
  · subst hk
    simp
  · rw [Function.update_of_ne hk]
    simp [hk, sweepState]

theorem Checked.sweepState {x : Visit} {cxt cxt' : ModelContext S T}
    (h : Checked x.cell (x.seen cxt.toWorkbook) cxt cxt') :
    cxt'.sweepState = cxt.sweepState.step Visit.key (Visit.seen cxt.toWorkbook) x := by
  have hmem : x.cell.status ∈ cxt.sweepState.safe ↔ (cxt.statusOf x.cell).circularSafe = true :=
    .rfl
  have hmem' : x.cell.status ∈ cxt.sweepState.marked ↔
      (cxt.statusOf x.cell).result = some (.error .refResultNotAvailable) := .rfl
  cases h with
  | safe h =>
    ext k
    · rw [mem_safe_setStatus, mem_safe_step]
      simp only [Visit.key, h, and_true]
      tauto
    · rw [mem_marked_setStatus, ← hmem', mem_marked_step]
      simp only [h, not_true, and_false, or_false]
      by_cases hk : k = x.cell.status
      · simp [hk]
      · simp [hk]
  | marked h =>
    ext k
    · rw [mem_safe_setStatus, ← hmem, mem_safe_step]
      simp only [h, and_false, or_false]
      by_cases hk : k = x.cell.status
      · simp [hk]
      · simp [hk]
    · rw [mem_marked_setStatus, mem_marked_step]
      simp only [Visit.key, h, not_false_eq_true, and_true]
      tauto

/-- What a check leaves of a status. -/
theorem Checked.statuses {cell : FormulaCell} {seen : Set Nat} {cxt cxt' : ModelContext S T}
    (h : Checked cell seen cxt cxt') (k : Nat) :
    (k ≠ cell.status → cxt'.statuses k = cxt.statuses k) ∧
      ((cxt'.statuses k).result = (cxt.statuses k).result ∨
        (cxt'.statuses k).result = some (.error .refResultNotAvailable)) ∧
      (cxt'.statuses k).groupSize = (cxt.statuses k).groupSize := by
  by_cases hk : k = cell.status
  · subst hk
    refine ⟨fun hne ↦ absurd rfl hne, ?_⟩
    cases h <;> simp [setStatus, statusOf]
  · have heq : cxt'.statuses k = cxt.statuses k := by
      cases h <;> exact Function.update_of_ne hk ..
    rw [heq]
    exact ⟨fun _ ↦ rfl, .inl rfl, rfl⟩

theorem Checked.swept {x : Visit} {cxt cxt' : ModelContext S T}
    (h : Checked x.cell (x.seen cxt.toWorkbook) cxt cxt') : Swept [x] cxt cxt' where
  eq := by cases h <;> rfl
  sweep := h.sweepState
  other k hk := (h.statuses k).1 fun heq ↦ hk x (List.mem_singleton_self x) heq.symm
  result k := (h.statuses k).2.1
  groupSize k := (h.statuses k).2.2

/-- The cells that are looked at when the formula cells of some ranges are checked. -/
def Walked (wb : Workbook) (l : List Visit) (a : AbsAddress) : Prop :=
  ∃ x ∈ l, a ∈ wb.walkedByCell x.cell x.pos

/-- The check pass returns unless it comes to a cell outside the workbook. -/
theorem wp_checkEntries (l : List Visit) (cxt : ModelContext S T) :
    wp (checkEntries (l.map Visit.toEntry)) (fun _ ↦ Swept l cxt)
      (fun e _ ↦ e = .exception .outOfRange ∧
        ∃ a, Walked cxt.toWorkbook l a ∧ cxt.inWorkbook a = false) cxt := by
  induction l generalizing cxt with
  | nil => exact Swept.refl cxt
  | cons x l ih =>
    change wp ((deref (some x.cell) >>= fun p ↦ checkCircular p x.pos) >>=
      fun _ ↦ checkEntries (l.map Visit.toEntry)) _ _ _
    rw [wp_bind, wp_bind, deref, wp_pure]
    refine (wp_checkCircular x cxt).mono (fun _ cxt' h ↦ ?_) ?_
    · have hsw := h.swept
      refine (ih cxt').mono (fun _ cxt'' h' ↦ hsw.trans h') ?_
      rw [hsw.eq]
      rintro e _ ⟨he, a, ⟨y, hy, ha⟩, hin⟩
      exact ⟨he, a, ⟨y, List.mem_cons_of_mem x hy, ha⟩, hin⟩
    · rintro e _ ⟨he, a, ha, hin⟩
      exact ⟨he, a, ⟨x, List.mem_cons_self, ha⟩, hin⟩

/-- The statuses after a reset. -/
def resetStatuses (l : List Visit) (statuses : Nat → CalcStatus) (k : Nat) : CalcStatus :=
  if ∃ x ∈ l, x.key = k then { statuses k with result := none, circularSafe := false }
  else statuses k

theorem resetStatuses_nil (statuses : Nat → CalcStatus) :
    resetStatuses [] statuses = statuses := by
  funext k
  exact if_neg fun ⟨x, hx, _⟩ ↦ List.not_mem_nil hx

theorem resetStatuses_cons (x : Visit) (l : List Visit) (statuses : Nat → CalcStatus) :
    resetStatuses (x :: l) statuses =
      resetStatuses l (Function.update statuses x.key
        { statuses x.key with result := none, circularSafe := false }) := by
  funext k
  rw [resetStatuses, resetStatuses]
  simp only [List.exists_mem_cons_iff]
  by_cases hk : k = x.key
  · subst hk
    simp
  · rw [Function.update_of_ne hk]
    simp [Ne.symm hk]

/-- The reset pass returns unless a formula cell is missing. -/
theorem wp_resetEntries (entries : List QueueEntry) (cxt : ModelContext S T) :
    wp (resetEntries entries)
      (fun _ cxt' ↦ ∃ l, entries = l.map Visit.toEntry ∧
        cxt' = cxt.withStatuses (resetStatuses l cxt.statuses))
      (fun e _ ↦ e = .nullPointer ∧ ∃ q ∈ entries, q.p = none) cxt := by
  induction entries generalizing cxt with
  | nil =>
    refine ⟨[], rfl, ?_⟩
    rw [resetStatuses_nil]
    rfl
  | cons q entries ih =>
    obtain ⟨p, pos⟩ := q
    change wp ((deref p >>= reset) >>= fun _ ↦ resetEntries entries) _ _ _
    rw [wp_bind, wp_bind]
    cases p with
    | none => exact ⟨rfl, _, List.mem_cons_self, rfl⟩
    | some cell =>
      rw [deref, wp_pure, reset, wp_modify]
      refine (ih _).mono ?_ ?_
      · rintro _ cxt' ⟨l, rfl, rfl⟩
        refine ⟨⟨cell, pos⟩ :: l, rfl, ?_⟩
        rw [resetStatuses_cons]
        rfl
      · rintro e _ ⟨he, q, hq, hp⟩
        exact ⟨he, q, List.mem_cons_of_mem _ hq, hp⟩

/-- The state of a sweep in which the statuses of some cells have been reset. -/
def resetState (l : List Visit) (s : SweepState Nat) : SweepState Nat where
  safe := {k | k ∈ s.safe ∧ ∀ x ∈ l, x.key ≠ k}
  marked := {k | k ∈ s.marked ∧ ∀ x ∈ l, x.key ≠ k}

theorem sweepState_withStatuses_reset (l : List Visit) (cxt : ModelContext S T) :
    (cxt.withStatuses (resetStatuses l cxt.statuses)).sweepState =
      resetState l cxt.sweepState := by
  ext k
  · change (resetStatuses l cxt.statuses k).circularSafe = true ↔
      (cxt.statuses k).circularSafe = true ∧ ∀ x ∈ l, x.key ≠ k
    rw [resetStatuses]
    split
    case isTrue h =>
      obtain ⟨x, hx, hkey⟩ := h
      exact ⟨nofun, fun hk ↦ absurd hkey (hk.2 x hx)⟩
    case isFalse h => exact (and_iff_left fun x hx hkey ↦ h ⟨x, hx, hkey⟩).symm
  · change (resetStatuses l cxt.statuses k).result = some _ ↔
      (cxt.statuses k).result = some _ ∧ ∀ x ∈ l, x.key ≠ k
    rw [resetStatuses]
    split
    case isTrue h =>
      obtain ⟨x, hx, hkey⟩ := h
      exact ⟨nofun, fun hk ↦ absurd hkey (hk.2 x hx)⟩
    case isFalse h => exact (and_iff_left fun x hx hkey ↦ h ⟨x, hx, hkey⟩).symm

/-- What the two passes leave when they return. -/
structure Prepared (v : List AbsRange) (cxt cxt' : ModelContext S T) : Prop where
  allFormulas : cxt.AllFormulas v
  eq : cxt' = cxt.withStatuses cxt'.statuses
  sweep : cxt'.sweepState = sweep Visit.key (Visit.seen cxt.toWorkbook)
    (resetState (cxt.visits v) cxt.sweepState) (cxt.visits v)
  unlisted : ∀ k, (∀ x ∈ cxt.visits v, x.key ≠ k) → cxt'.statuses k = cxt.statuses k
  listed : ∀ x ∈ cxt.visits v, (cxt'.statuses x.key).result = none ∨
    (cxt'.statuses x.key).result = some (.error .refResultNotAvailable)
  groupSize : ∀ k, (cxt'.statuses k).groupSize = (cxt.statuses k).groupSize

/-- Why the two passes may fail: a range of the list or a cell that is looked at
lies outside the workbook, or a range does not begin with a formula cell. -/
inductive PrepareFails (wb : Workbook) (v : List AbsRange) : Failure → Prop where
  | range {r : AbsRange} : r ∈ v → wb.inWorkbook r.first = false →
    PrepareFails wb v (.exception .outOfRange)
  | walked {a : AbsAddress} : wb.AllFormulas v → Walked wb (wb.visits v) a →
    wb.inWorkbook a = false → PrepareFails wb v (.exception .outOfRange)
  | missing {r : AbsRange} : r ∈ v → wb.getFormulaCell r.first = .ok none →
    PrepareFails wb v .nullPointer

/-- The two passes are a sweep over the statuses of the listed cells, unless they
fail for one of three reasons. -/
theorem wp_prepare (v : List AbsRange) (cxt : ModelContext S T) :
    wp (prepare v)
      (fun entries cxt' ↦ entries = (cxt.visits v).map Visit.toEntry ∧ Prepared v cxt cxt')
      (fun e _ ↦ PrepareFails cxt.toWorkbook v e) cxt := by
  rw [prepare, wp_bind, wp_get, wp_bind]
  cases hentries : cxt.queueEntries v with
  | error e =>
    obtain ⟨rfl, r, hr, hin⟩ := queueEntries_eq_error hentries
    exact .range hr hin
  | ok entries =>
    rw [liftExcept, wp_pure, wp_bind]
    refine (wp_resetEntries entries cxt).mono ?_ ?_
    · rintro _ cxt₁ ⟨l, rfl, rfl⟩
      rcases queueEntries_eq_ok hentries with ⟨hall, hl⟩ | ⟨_, e, he, hnone⟩
      · obtain rfl : l = cxt.visits v := List.map_injective_iff.mpr Visit.toEntry_injective hl
        rw [wp_bind]
        refine (wp_checkEntries (cxt.visits v) _).mono (fun _ cxt₂ h ↦ ?_) ?_
        · refine ⟨rfl, hall, h.eq, ?_, fun k hk ↦ ?_, fun x hx ↦ ?_, fun k ↦ ?_⟩
          · rw [h.sweep, sweepState_withStatuses_reset]
            rfl
          · rw [h.other k hk]
            refine if_neg ?_
            rintro ⟨x, hx, hkey⟩
            exact hk x hx hkey
          · have hreset : (resetStatuses (cxt.visits v) cxt.statuses x.key).result = none := by
              rw [resetStatuses, if_pos ⟨x, hx, rfl⟩]
            exact hreset ▸ h.result x.key
          · refine (h.groupSize k).trans ?_
            rw [withStatuses_statuses, resetStatuses]
            split <;> rfl
        · rintro e _ ⟨rfl, a, ha, hin⟩
          exact .walked hall ha hin
      · obtain ⟨x, _, rfl⟩ := List.mem_map.mp he
        exact absurd hnone (by rintro ⟨⟩)
    · rintro e _ ⟨rfl, q, hq, hnone⟩
      rcases queueEntries_eq_ok hentries with ⟨hall, rfl⟩ | ⟨⟨r, hr, hcell⟩, _⟩
      · obtain ⟨x, _, rfl⟩ := List.mem_map.mp hq
        exact absurd hnone (by rintro ⟨⟩)
      · exact .missing hr hcell

end ModelContext

end Ixion
