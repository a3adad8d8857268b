import Ixion.Interp.Interpreter
import Ixion.Result.Read

/-!
# The stored results of formula cells

A formula cell keeps its result in its status, which the cells of a group share.  The
result of a single cell of a group is stored as an element of the group's matrix, which is
made when the first of them is stored.

Here is when a cell is read inside its matrix (`readsInside_iff`), when its readers agree
(`agree_iff`), and when a result that is stored is the one that is read
(`storesAndReads_iff`).
-/

namespace Ixion

open Lib

/-! ## Operations on formula cells -/

/-- The size of the group that fills a range. -/
def toGroupSize (groupRange : AbsRange) : RcSize :=
  ⟨groupRange.last.row - groupRange.first.row + 1,
    groupRange.last.column - groupRange.first.column + 1⟩

namespace ModelContext

variable {S T : Type}

/-- Fill a range with the cells of a group, column by column. -/
def setGroupedFormulaCellsToWorkbook (topLeft : AbsAddress) (groupSize : RcSize) (status : Nat)
    (tokens : List FormulaToken) : Exec (ModelContext S T) Unit :=
  (List.range groupSize.column.toNat).forM fun j ↦ do
    let cxt ← get
    let column := topLeft.column + (j : Int)
    if ¬ (0 ≤ topLeft.sheet ∧ topLeft.sheet < cxt.sheets.length ∧
        0 ≤ column ∧ column < cxt.sheetSize.column) then
      throwExn .outOfRange
    (List.range groupSize.row.toNat).forM fun i ↦
      storeCell ⟨topLeft.sheet, topLeft.row + (i : Int), column⟩ (.formula ⟨tokens, i, j, status⟩)

/-- Put a group of formula cells into a range.  They share a status, with a result if one
is given. -/
def setGroupedFormulaCells (groupRange : AbsRange) (tokens : List FormulaToken)
    (result : Option FormulaResult) : Exec (ModelContext S T) Unit := do
  let groupSize := toGroupSize groupRange
  match result with
  | none => pure ()
  | some (.matrix m) =>
    if (m.rowSize : Int) ≠ groupSize.row ∨ (m.colSize : Int) ≠ groupSize.column then
      throwExn (.invalidArgument
        "dimension of the cached result differs from the size of the group.")
  | some _ =>
    throwExn (.invalidArgument "cached result for grouped formula cells must be of matrix type.")
  let cxt ← get
  let status := cxt.statusCount
  set { cxt with
    statuses := Function.update cxt.statuses status ⟨result, groupSize, false⟩
    statusCount := status + 1 }
  setGroupedFormulaCellsToWorkbook groupRange.first groupSize status tokens

/-- The element of a matrix that a result is stored as. -/
def toElement : FormulaResult → Except Exn MatrixElement
  | .boolean b => .ok (.boolean b)
  | .value v => .ok (.numeric v)
  | .string s => .ok (.string s)
  | .error e => .ok (.error e)
  | .matrix _ =>
    .error (.logicError "setting a cached result of matrix value directly is not yet supported.")

/-- Store a result as that of a single cell.  In a group it becomes an element of the matrix
that the group shares; where there is another result than a matrix, or the cell has no
element in it, an assertion fails. -/
def setSingleFormulaResult (cell : FormulaCell) (result : FormulaResult) :
    Exec (ModelContext S T) Unit := do
  let cxt ← get
  let status := cxt.statusOf cell
  if cell.isGrouped then
    let current := status.result.getD
      (.matrix (.new status.groupSize.row.toNat status.groupSize.column.toNat))
    set (cxt.setStatus cell { status with result := some current })
    match current with
    | .matrix m =>
      if ¬ (cell.groupRow < m.rowSize ∧ cell.groupColumn < m.colSize) then throw .undefined
      let e ← liftExcept (toElement result)
      let m ← liftExcept (m.set? cell.groupRow.toNat cell.groupColumn.toNat e)
      set (cxt.setStatus cell { status with result := some (.matrix m) })
    | _ => throw .undefined
  else
    set (cxt.setStatus cell { status with result := some result })

/-- Set the result of a cell from outside. -/
def setResultCache (cell : FormulaCell) (result : FormulaResult) : Exec (ModelContext S T) Unit :=
  setSingleFormulaResult cell result

/-- The result that a cell shares with its group.  Nobody waits for it. -/
def getRawResultCache (cxt : ModelContext S T) (cell : FormulaCell) : Except Exn FormulaResult :=
  match (cxt.statusOf cell).result with
  | some r => .ok r
  | none => .error (.formulaError .refResultNotAvailable)

/-- The number that is the result of a cell. -/
def getValue (cxt : ModelContext S T) (cell : FormulaCell) : Except Exn ℚ := do
  fetchValueFromResult cell.groupRow cell.groupColumn (← cxt.getRawResultCache cell)

/-- The string that is the result of a cell. -/
def getString (cxt : ModelContext S T) (cell : FormulaCell) : Except Exn Text := do
  fetchStringFromResult cell.groupRow cell.groupColumn (← cxt.getRawResultCache cell)

/-- The result of a cell. -/
def getResultCache (cxt : ModelContext S T) (cell : FormulaCell) : Except Exn FormulaResult := do
  getSingleFormulaResult cell.groupRow cell.groupColumn (← cxt.getRawResultCache cell)

/-! ## Which group positions there are -/

/-- What is done with formula cells. -/
inductive CellOp where
  | appendSheet (name : String)
  | setFormulaCell (addr : AbsAddress) (tokens : List FormulaToken)
  | setGroupedFormulaCells (groupRange : AbsRange) (tokens : List FormulaToken)
    (result : Option FormulaResult)
  | interpret (pos : AbsAddress) (cell : FormulaCell)
  | setResultCache (cell : FormulaCell) (result : FormulaResult)

/-- Do something with formula cells. -/
def CellOp.run (ev : Evaluator) : CellOp → Exec (ModelContext S T) Unit
  | .appendSheet name => ModelContext.appendSheet name
  | .setFormulaCell addr tokens => discard (ModelContext.setFormulaCell addr tokens)
  | .setGroupedFormulaCells groupRange tokens result =>
    ModelContext.setGroupedFormulaCells groupRange tokens result
  | .interpret pos cell => ModelContext.interpret ev cell pos
  | .setResultCache cell result => ModelContext.setResultCache cell result

/-- The contexts that come of a list of operations, failed ones included. -/
def runCellOps (ev : Evaluator) (cxt : ModelContext S T) (ops : List CellOp) : ModelContext S T :=
  ops.foldl (fun cxt op ↦ finalState (op.run ev) cxt) cxt

/-- A formula cell has a position in a group, or that of a cell without a group. -/
def HasGroupPos (c : FormulaCell) : Prop :=
  isGroupPos c.groupRow c.groupColumn = true ∨ (c.groupRow = -1 ∧ c.groupColumn = -1)

/-- If all formula cells have had such a position, they still have. -/
def KeepsGroupPos (cxt cxt' : ModelContext S T) : Prop :=
  (∀ a c, cxt.cells a = .formula c → HasGroupPos c) →
    ∀ a c, cxt'.cells a = .formula c → HasGroupPos c

instance : Std.Refl (KeepsGroupPos (S := S) (T := T)) := ⟨fun _ h ↦ h⟩

instance : IsTrans (ModelContext S T) KeepsGroupPos where
  trans _ _ _ h h' := fun hc ↦ h' (h hc)

theorem keepsGroupPos_of_cells_eq {cxt cxt' : ModelContext S T} (h : cxt'.cells = cxt.cells) :
    KeepsGroupPos cxt cxt' := by
  intro hpos a c hc
  exact hpos a c (h ▸ hc)

theorem respects_storeCell {a : AbsAddress} {c : FormulaCell} (hc : HasGroupPos c) :
    Respects KeepsGroupPos (storeCell a (.formula c) : Exec (ModelContext S T) Unit) := by
  intro cxt
  rw [storeCell, wp_bind, wp_get]
  split
  · rw [wp_set]
    intro hpos b c' hc'
    change Function.update cxt.cells a (.formula c) b = .formula c' at hc'
    rcases eq_or_ne b a with rfl | hne
    · rw [Function.update_self] at hc'
      cases hc'
      exact hc
    · rw [Function.update_of_ne hne] at hc'
      exact hpos b c' hc'
  · exact Std.Refl.refl (r := KeepsGroupPos) cxt

theorem respects_setFormulaCell (addr : AbsAddress) (tokens : List FormulaToken) :
    Respects KeepsGroupPos (setFormulaCell addr tokens : Exec (ModelContext S T) FormulaCell) := by
  intro cxt
  rw [setFormulaCell, wp_bind, wp_get, wp_bind, wp_set]
  refine (((respects_storeCell (.inr ⟨rfl, rfl⟩)).bind fun _ ↦ respects_pure _) _).mono
    (fun _ _ h ↦ ?_) fun _ _ h ↦ ?_
  · exact trans_of KeepsGroupPos (keepsGroupPos_of_cells_eq rfl) h
  · exact trans_of KeepsGroupPos (keepsGroupPos_of_cells_eq rfl) h

theorem respects_setGroupedFormulaCellsToWorkbook (topLeft : AbsAddress) (groupSize : RcSize)
    (status : Nat) (tokens : List FormulaToken) : Respects KeepsGroupPos
      (setGroupedFormulaCellsToWorkbook topLeft groupSize status tokens :
        Exec (ModelContext S T) Unit) := by
  refine respects_forM fun j _ ↦ respects_get.bind fun cxt ↦ ?_
  have hcell (i : Nat) : HasGroupPos ⟨tokens, i, j, status⟩ :=
    .inl (decide_eq_true ⟨Int.natCast_nonneg j, Int.natCast_nonneg i⟩)
  have hloop := respects_forM (R := KeepsGroupPos (S := S) (T := T))
    (l := List.range groupSize.row.toNat) fun i _ ↦ respects_storeCell (hcell i) (a :=
      ⟨topLeft.sheet, topLeft.row + (i : Int), topLeft.column + (j : Int)⟩)
  dsimp only
  split
  · exact (respects_throw _).bind fun _ ↦ hloop
  · exact hloop

theorem respects_setGroupedFormulaCells (groupRange : AbsRange) (tokens : List FormulaToken)
    (result : Option FormulaResult) : Respects KeepsGroupPos
      (setGroupedFormulaCells groupRange tokens result : Exec (ModelContext S T) Unit) := by
  have hcheck : Respects KeepsGroupPos (do
      let cxt ← get
      let status := cxt.statusCount
      set { cxt with
        statuses := Function.update cxt.statuses status ⟨result, toGroupSize groupRange, false⟩
        statusCount := status + 1 }
      setGroupedFormulaCellsToWorkbook groupRange.first (toGroupSize groupRange) status tokens :
        Exec (ModelContext S T) Unit) := by
    intro cxt
    rw [wp_bind, wp_get, wp_bind, wp_set]
    refine (respects_setGroupedFormulaCellsToWorkbook _ _ _ _ _).mono (fun _ _ h ↦ ?_) fun _ _ h ↦
      ?_
    · exact trans_of KeepsGroupPos (keepsGroupPos_of_cells_eq rfl) h
    · exact trans_of KeepsGroupPos (keepsGroupPos_of_cells_eq rfl) h
  unfold setGroupedFormulaCells
  rcases result with - | r
  · exact hcheck
  · cases r with
    | matrix m =>
      dsimp only
      split
      · exact (respects_throw _).bind fun _ ↦ hcheck
      · exact hcheck
    | _ => exact (respects_throw _).bind fun _ ↦ hcheck

theorem respects_setResultCache (cell : FormulaCell) (result : FormulaResult) :
    Respects KeepsGroupPos (setResultCache cell result : Exec (ModelContext S T) Unit) := by
  have hset (cxt : ModelContext S T) (status : CalcStatus) :
      KeepsGroupPos cxt (cxt.setStatus cell status) := keepsGroupPos_of_cells_eq rfl
  intro cxt
  rw [setResultCache, setSingleFormulaResult, wp_bind, wp_get]
  split
  case isFalse => exact hset cxt _
  case isTrue =>
    rw [wp_bind, wp_set]
    split
    case h_2 => exact hset cxt _
    case h_1 m _ =>
      split
      · exact hset cxt _
      · rw [wp_bind]
        cases toElement result with
        | error e => exact hset cxt _
        | ok e =>
          show wp (liftExcept (m.set? _ _ e) >>= fun _ ↦ _) _ _ _
          rw [wp_bind]
          cases m.set? cell.groupRow.toNat cell.groupColumn.toNat e with
          | error e => exact hset cxt _
          | ok m => exact hset cxt _

theorem respects_cellOp (ev : Evaluator) (op : CellOp) :
    Respects KeepsGroupPos (op.run ev : Exec (ModelContext S T) Unit) := by
  cases op with
  | appendSheet name =>
    intro cxt
    show wp (ModelContext.appendSheet name) _ _ cxt
    rw [ModelContext.appendSheet, wp_bind, wp_get]
    split <;> exact keepsGroupPos_of_cells_eq rfl
  | setFormulaCell addr tokens =>
    exact (respects_setFormulaCell addr tokens).bind fun _ ↦ respects_pure _
  | setGroupedFormulaCells groupRange tokens result =>
    exact respects_setGroupedFormulaCells groupRange tokens result
  | interpret pos cell =>
    intro cxt
    refine (respects_interpret ev cell pos cxt).mono (fun _ _ h ↦ ?_) fun _ _ h ↦ ?_
    · exact keepsGroupPos_of_cells_eq (congrArg (fun cxt ↦ cxt.cells) h)
    · exact keepsGroupPos_of_cells_eq (congrArg (fun cxt ↦ cxt.cells) h)
  | setResultCache cell result => exact respects_setResultCache cell result

theorem finalState_of_respects {σ α : Type} {R : σ → σ → Prop} {x : Exec σ α} (h : Respects R x)
    (s : σ) : R s (finalState x s) := by
  have hs := h s
  rw [wp] at hs
  rw [finalState]
  cases hx : x s with
  | ok a s' => rw [hx] at hs; exact hs
  | error e s' => rw [hx] at hs; exact hs

/-- Whatever is done with formula cells, they have a position in a group or that of a cell
without a group. -/
theorem hasGroupPos_of_runCellOps [UnorderedSet S AbsRange] [RTree T S] (ev : Evaluator)
    (sheetSize : RcSize) (ops : List CellOp) {a : AbsAddress} {c : FormulaCell}
    (hc : (runCellOps ev (.new sheetSize : ModelContext S T) ops).cells a = .formula c) :
    HasGroupPos c := by
  have hrun (ops : List CellOp) (cxt : ModelContext S T) :
      KeepsGroupPos cxt (runCellOps ev cxt ops) := by
    induction ops generalizing cxt with
    | nil => exact Std.Refl.refl (r := KeepsGroupPos) cxt
    | cons op ops ih =>
      exact trans_of KeepsGroupPos (finalState_of_respects (respects_cellOp ev op) cxt) (ih _)
  exact hrun ops _ (fun _ c' (hempty : Cell.empty = .formula c') ↦ absurd hempty nofun) a c hc

/-! ## Reading inside the matrix -/

/-- Whatever has been done with formula cells and whatever the result of a cell is: it is
read inside the result's matrix exactly when the cell belongs to a group or the result is no
matrix. -/
theorem readsInside_iff [UnorderedSet S AbsRange] [RTree T S] {ev : Evaluator}
    {sheetSize : RcSize} {ops : List CellOp} {a : AbsAddress} {c : FormulaCell}
    (hc : (runCellOps ev (.new sheetSize : ModelContext S T) ops).cells a = .formula c)
    (r : FormulaResult) :
    ReadsInside c.groupRow c.groupColumn r ↔ c.isGrouped = true ∨ ∀ m, r ≠ .matrix m := by
  constructor
  · intro h
    rcases hasGroupPos_of_runCellOps ev sheetSize ops hc with hgroup | ⟨hrow, hcol⟩
    · exact .inl hgroup
    · refine .inr ?_
      rintro m rfl
      rw [hrow, hcol] at h
      exact not_readsInside_of_matrix m h
  · exact readsInside_of_isGroupPos

/-! ### An array in a cell without a group -/

/-- The tokens of `{1,2}`. -/
def inlineArrayTokens : List FormulaToken := [.arrayOpen, .value 1, .sep, .value 2, .arrayClose]

/-- A cell with this formula. -/
def inlineArrayCell : FormulaCell := ⟨inlineArrayTokens, -1, -1, 0⟩

/-- Put the cell into a sheet and interpret it. -/
def inlineArrayOps : List CellOp :=
  [.appendSheet "Sheet1", .setFormulaCell ⟨0, 0, 0⟩ inlineArrayTokens,
  .interpret ⟨0, 0, 0⟩ inlineArrayCell]

/-- The evaluator of formulas in which no function is called. -/
def arrayInterpreter : Evaluator :=
  formulaInterpreter .natural fun _ _ _ _ ↦ .throw (.exception (.notImplementedError ""))

/-- The context in which the cell has been interpreted. -/
def inlineArrayContext : ModelContext Ranges (ListTree Ranges) :=
  runCellOps arrayInterpreter (.new ⟨1048576, 16384⟩) inlineArrayOps

theorem cells_inlineArrayContext :
    inlineArrayContext.cells ⟨0, 0, 0⟩ = .formula inlineArrayCell := rfl

/-- Its result is a matrix, and the number of the cell is looked up outside it. -/
theorem not_readsInside_array : ∃ m,
    (inlineArrayContext.statusOf inlineArrayCell).result = some (.matrix m) ∧
    ¬ ReadsInside inlineArrayCell.groupRow inlineArrayCell.groupColumn (.matrix m) :=
  ⟨⟨1, 2, [.numeric 1, .numeric 2], rfl⟩, rfl, not_readsInside_of_matrix _⟩

theorem readsInside_iff_array :
    ReadsInside inlineArrayCell.groupRow inlineArrayCell.groupColumn (.value 0) ↔
      inlineArrayCell.isGrouped = true ∨ ∀ m, FormulaResult.value 0 ≠ .matrix m :=
  @readsInside_iff Ranges (ListTree Ranges) _ _ arrayInterpreter ⟨1048576, 16384⟩ inlineArrayOps
  ⟨0, 0, 0⟩
    inlineArrayCell cells_inlineArrayContext (.value 0)

/-! ## Agreeing on the result of a cell -/

/-- The three readers of a cell's result agree: where the result is an error, the others throw
it, and where it is a number, a truth value or a string, the reader of this type returns it.
A formula that refers to the cell then sees the same error with an additive and with a
multiplicative operator. -/
structure Agree (cxt : ModelContext S T) (c : FormulaCell) : Prop where
  error : ∀ e, cxt.getResultCache c = .ok (.error e) →
    cxt.getValue c = .error (.formulaError e) ∧ cxt.getString c = .error (.formulaError e)
  value : ∀ v, cxt.getResultCache c = .ok (.value v) → cxt.getValue c = .ok v
  boolean : ∀ b, cxt.getResultCache c = .ok (.boolean b) → cxt.getValue c = .ok (boolToNumber b)
  string : ∀ s, cxt.getResultCache c = .ok (.string s) → cxt.getString c = .ok s
  dependents : ∀ (ans : ∀ i : Question, Except Failure i.Answer) sheetSize addr stack r e,
    cxt.getRawResultCache c = .ok r →
    ans (.cellValue addr) = .ok (.formula c.groupRow c.groupColumn r) →
    cxt.getResultCache c = .ok (.error e) →
    (ValueStack.popStackValue sheetSize (.singleRef addr :: stack)).run ans =
        .ok (some (.error e), stack) ∧
      (ValueStack.popValue (.singleRef addr :: stack)).run ans =
        .error (.exception (.formulaError e))

theorem agree_of_none {cxt : ModelContext S T} {c : FormulaCell}
    (h : (cxt.statusOf c).result = none) : cxt.Agree c := by
  have hraw : cxt.getRawResultCache c = .error (.formulaError .refResultNotAvailable) := by
    rw [getRawResultCache, h]
  have hno (x : FormulaResult) : cxt.getResultCache c ≠ .ok x := by
    rw [getResultCache, hraw]
    exact nofun
  exact ⟨fun _ h ↦ absurd h (hno _), fun _ h ↦ absurd h (hno _), fun _ h ↦ absurd h (hno _),
    fun _ h ↦ absurd h (hno _), fun _ _ _ _ _ _ _ _ h ↦ absurd h (hno _)⟩

theorem agree_iff_of_some {cxt : ModelContext S T} {c : FormulaCell} {r : FormulaResult}
    (h : (cxt.statusOf c).result = some r) :
    cxt.Agree c ↔ ReadersAgree c.groupRow c.groupColumn r := by
  have hraw : cxt.getRawResultCache c = .ok r := by rw [getRawResultCache, h]
  have hcache : cxt.getResultCache c = getSingleFormulaResult c.groupRow c.groupColumn r := by
    rw [getResultCache, hraw]
    rfl
  have hvalue : cxt.getValue c = fetchValueFromResult c.groupRow c.groupColumn r := by
    rw [getValue, hraw]
    rfl
  have hstring : cxt.getString c = fetchStringFromResult c.groupRow c.groupColumn r := by
    rw [getString, hraw]
    rfl
  constructor
  · rintro ⟨h₁, h₂, h₃, h₄, h₅⟩
    simp only [hcache, hvalue, hstring] at h₁ h₂ h₃ h₄ h₅
    exact ⟨h₁, h₂, h₃, h₄, fun ans size addr stack e ↦ h₅ ans size addr stack r e hraw⟩
  · rintro ⟨h₁, h₂, h₃, h₄, h₅⟩
    simp only [← hcache, ← hvalue, ← hstring] at h₁ h₂ h₃ h₄ h₅
    refine ⟨h₁, h₂, h₃, h₄, fun ans size addr stack r' e hraw' ↦ ?_⟩
    obtain rfl := Except.ok.inj (hraw'.symm.trans hraw)
    exact h₅ ans size addr stack e

/-- The readers of a cell's result agree exactly when the element that a cell of a group has
in a matrix is no error other than `invalid_value_type`. -/
theorem agree_iff (cxt : ModelContext S T) (c : FormulaCell) : cxt.Agree c ↔
    ∀ m e, (cxt.statusOf c).result = some (.matrix m) → c.isGrouped = true →
      m.Inside c.groupRow c.groupColumn →
      m.get c.groupRow.toNat c.groupColumn.toNat = .error e → e = .invalidValueType := by
  cases hr : (cxt.statusOf c).result with
  | none => exact iff_of_true (agree_of_none hr) nofun
  | some r =>
    rw [agree_iff_of_some hr, readersAgree_iff]
    exact ⟨fun h m e hm ↦ h m e (Option.some.inj hm), fun h m e hm ↦ h m e (congrArg some hm)⟩

/-! ### A group whose matrix has an error -/

/-- The tokens of `{1}/0`. -/
def divisionTokens : List FormulaToken := [.arrayOpen, .value 1, .arrayClose, .divide, .value 0]

/-- The only cell of a group with this formula. -/
def divisionCell : FormulaCell := ⟨divisionTokens, 0, 0, 0⟩

/-- Put the group into a sheet. -/
def divisionOps : List CellOp :=
  [.appendSheet "Sheet1", .setGroupedFormulaCells ⟨⟨0, 0, 0⟩, ⟨0, 0, 0⟩⟩ divisionTokens none]

/-- The context with the group, before and after its calculation. -/
def divisionContext (calculated : Bool) : ModelContext Ranges (ListTree Ranges) :=
  runCellOps arrayInterpreter (.new ⟨1048576, 16384⟩)
    (divisionOps ++ if calculated then [.interpret ⟨0, 0, 0⟩ divisionCell] else [])

/-- The result of the cell is a division by zero, but its number is not available for another
reason. -/
theorem not_agree_division :
    (divisionContext true).cells ⟨0, 0, 0⟩ = .formula divisionCell ∧
      (divisionContext true).getResultCache divisionCell = .ok (.error .divisionByZero) ∧
      ¬ (divisionContext true).Agree divisionCell := by
  have hcache : (divisionContext true).getResultCache divisionCell = .ok (.error .divisionByZero) :=
    rfl
  refine ⟨rfl, hcache, fun h ↦ ?_⟩
  have hvalue : (divisionContext true).getValue divisionCell =
      .error (.formulaError .invalidValueType) := rfl
  exact absurd (hvalue.symm.trans (h.error _ hcache).1) nofun

/-! ## Storing the result of a cell of a group -/

/-- A cell has a position in its group. -/
def IsMember (cxt : ModelContext S T) (c : FormulaCell) : Prop :=
  (0 ≤ c.groupRow ∧ c.groupRow < (cxt.statusOf c).groupSize.row) ∧
    0 ≤ c.groupColumn ∧ c.groupColumn < (cxt.statusOf c).groupSize.column

/-- Another member of the group that a cell belongs to. -/
structure OtherMember (cxt : ModelContext S T) (c other : FormulaCell) : Prop where
  status : other.status = c.status
  member : cxt.IsMember other
  ne : ¬ (other.groupRow = c.groupRow ∧ other.groupColumn = c.groupColumn)

/-- A result can be stored for a cell and is the one that is read afterwards, while what is
read of the other members of the group stays. -/
def StoresAndReads (cxt : ModelContext S T) (c : FormulaCell) (v : FormulaResult) : Prop :=
  ∃ cxt', setResultCache c v cxt = .ok () cxt' ∧ cxt'.getResultCache c = .ok v ∧
    ∀ other, cxt.OtherMember c other → cxt'.getResultCache other = cxt.getResultCache other

/-- The matrix that the group shares, as a store finds or makes it. -/
def sharedResult (cxt : ModelContext S T) (c : FormulaCell) : FormulaResult :=
  (cxt.statusOf c).result.getD (.matrix
    (.new (cxt.statusOf c).groupSize.row.toNat (cxt.statusOf c).groupSize.column.toNat))

/-- Storing succeeds exactly when the shared result is a matrix with an element for the cell,
and then replaces this element. -/
theorem setResultCache_eq_ok_iff {cxt cxt' : ModelContext S T} {c : FormulaCell}
    {v : FormulaResult} {i j : Nat} (hrow : c.groupRow = i) (hcol : c.groupColumn = j) :
    setResultCache c v cxt = .ok () cxt' ↔
      ∃ m e, cxt.sharedResult c = .matrix m ∧ i < m.rowSize ∧ j < m.colSize ∧
        toElement v = .ok e ∧
        cxt' = cxt.setStatus c { cxt.statusOf c with result := some (.matrix (m.set i j e)) } := by
  have hgroup : c.isGrouped = true :=
    decide_eq_true ⟨hcol ▸ Int.natCast_nonneg j, hrow ▸ Int.natCast_nonneg i⟩
  have key : setResultCache c v cxt = (match cxt.sharedResult c with
      | .matrix m => do
        if ¬ (c.groupRow < m.rowSize ∧ c.groupColumn < m.colSize) then throw .undefined
        let e ← liftExcept (toElement v)
        let m ← liftExcept (m.set? c.groupRow.toNat c.groupColumn.toNat e)
        set (cxt.setStatus c { cxt.statusOf c with result := some (.matrix m) })
      | _ => throw .undefined : Exec (ModelContext S T) Unit)
      (cxt.setStatus c { cxt.statusOf c with result := some (cxt.sharedResult c) }) := by
    rw [setResultCache, setSingleFormulaResult, bind_apply]
    show (if c.isGrouped then _ else _ : Exec (ModelContext S T) Unit) cxt = _
    rw [if_pos hgroup]
    rfl
  rw [key]
  cases hshared : cxt.sharedResult c with
  | matrix m =>
    simp only [hrow, hcol, Int.ofNat_lt, Int.toNat_natCast]
    by_cases hin : i < m.rowSize ∧ j < m.colSize
    · rw [if_neg (not_not.mpr hin)]
      cases hv : toElement v with
      | error e =>
        refine ⟨nofun, ?_⟩
        rintro ⟨_, _, _, _, _, he, _⟩
        exact absurd he nofun
      | ok e =>
        show (liftExcept (m.set? i j e) >>= fun m ↦ _) _ = _ ↔ _
        rw [Matrix.set?_of_lt hin.1 hin.2]
        constructor
        · intro h
          cases h
          exact ⟨m, e, rfl, hin.1, hin.2, rfl, rfl⟩
        · rintro ⟨_, _, hm, _, _, he, rfl⟩
          cases hm
          cases he
          rfl
    · rw [if_pos hin]
      refine ⟨nofun, ?_⟩
      rintro ⟨_, _, hm, hi, hj, _⟩
      cases hm
      exact absurd ⟨hi, hj⟩ hin
  | _ =>
    refine ⟨nofun, ?_⟩
    rintro ⟨_, _, hm, _⟩
    exact absurd hm nofun

theorem getResultCache_of_some {cxt : ModelContext S T} {c : FormulaCell} {r : FormulaResult}
    (h : (cxt.statusOf c).result = some r) :
    cxt.getResultCache c = getSingleFormulaResult c.groupRow c.groupColumn r := by
  rw [getResultCache, getRawResultCache, h]
  rfl

theorem getResultCache_of_none {cxt : ModelContext S T} {c : FormulaCell}
    (h : (cxt.statusOf c).result = none) :
    cxt.getResultCache c = .error (.formulaError .refResultNotAvailable) := by
  rw [getResultCache, getRawResultCache, h]
  rfl

@[simp] theorem statusOf_setStatus {cxt : ModelContext S T} {c c' : FormulaCell}
    (h : c'.status = c.status) (status : CalcStatus) :
    (cxt.setStatus c status).statusOf c' = status := by
  rw [statusOf, setStatus, h]
  exact Function.update_self ..

/-- What is read of an element that a result is stored as is the result, but for truth
values, which become numbers, and for `no_error`. -/
theorem elementResult_of_toElement {v : FormulaResult} {e : MatrixElement}
    (h : toElement v = .ok e) : elementResult (Matrix.readElement e) = v ↔
      (∀ b, v ≠ .boolean b) ∧ v ≠ .error .noError := by
  cases v with
  | boolean b =>
    cases h
    exact ⟨nofun, fun h ↦ absurd rfl (h.1 b)⟩
  | error err =>
    cases h
    cases err with
    | noError => exact ⟨nofun, fun h ↦ absurd rfl h.2⟩
    | _ => exact iff_of_true rfl ⟨fun _ ↦ nofun, nofun⟩
  | matrix m => exact absurd h nofun
  | _ =>
    cases h
    exact iff_of_true rfl ⟨fun _ ↦ nofun, nofun⟩

/-- In a group with more than one member every member has another. -/
theorem exists_otherMember {cxt : ModelContext S T} {c : FormulaCell} (hc : cxt.IsMember c)
    (h : (cxt.statusOf c).groupSize ≠ ⟨1, 1⟩) : ∃ other, cxt.OtherMember c other := by
  obtain ⟨⟨hrow, hrow'⟩, hcol, hcol'⟩ := hc
  have hsize : 1 < (cxt.statusOf c).groupSize.row ∨ 1 < (cxt.statusOf c).groupSize.column := by
    by_contra hno
    refine h ?_
    obtain ⟨hr, hco⟩ := not_or.mp hno
    have hr' : (cxt.statusOf c).groupSize.row = 1 := by omega
    have hco' : (cxt.statusOf c).groupSize.column = 1 := by omega
    calc (cxt.statusOf c).groupSize
        = ⟨(cxt.statusOf c).groupSize.row, (cxt.statusOf c).groupSize.column⟩ := rfl
      _ = ⟨1, 1⟩ := by rw [hr', hco']
  rcases hsize with hsize | hsize
  · -- another row: the first, or the second for a cell in the first
    refine ⟨{ c with groupRow := if c.groupRow = 0 then 1 else 0 }, rfl,
      ⟨⟨?_, ?_⟩, hcol, hcol'⟩, ?_⟩
    · dsimp only; split <;> omega
    · dsimp only [statusOf]; split <;> [exact hsize; exact zero_lt_one.trans hsize]
    · dsimp only; split <;> omega
  · refine ⟨{ c with groupColumn := if c.groupColumn = 0 then 1 else 0 }, rfl,
      ⟨⟨hrow, hrow'⟩, ?_, ?_⟩, ?_⟩
    · dsimp only; split <;> omega
    · dsimp only [statusOf]; split <;> [exact hsize; exact zero_lt_one.trans hsize]
    · dsimp only; split <;> omega

/-- What is read of a cell after a matrix has been stored for its group. -/
theorem getResultCache_setStatus {cxt : ModelContext S T} {c c' : FormulaCell} {m : Matrix}
    (h : c'.status = c.status) :
    (cxt.setStatus c { cxt.statusOf c with result := some (.matrix m) }).getResultCache c' =
      getSingleFormulaResult c'.groupRow c'.groupColumn (.matrix m) :=
  getResultCache_of_some (congrArg CalcStatus.result (statusOf_setStatus h _))

/-- An element that is stored is not seen at another position. -/
theorem getSingleFormulaResult_set_of_ne {m : Matrix} {e : MatrixElement} {i j i' j' : Nat}
    (hj : j < m.colSize) (hne : ¬ (i = i' ∧ j = j')) :
    getSingleFormulaResult i' j' (.matrix (m.set i j e)) =
      getSingleFormulaResult i' j' (.matrix m) := by
  by_cases hin : i' < m.rowSize ∧ j' < m.colSize
  · rw [getSingleFormulaResult_natCast hin.1 hin.2,
      @getSingleFormulaResult_natCast (m.set i j e) i' j' hin.1 hin.2,
      Matrix.get_set_of_ne hj hin.2 hne]
  · have hgroup : isGroupPos i' j' = true :=
      decide_eq_true ⟨Int.natCast_nonneg j', Int.natCast_nonneg i'⟩
    have hout : ¬ ((i' : Int) < m.rowSize ∧ (j' : Int) < m.colSize) := by
      rw [Int.ofNat_lt, Int.ofNat_lt]
      exact hin
    rw [getSingleFormulaResult_of_not_lt hgroup hout]
    exact getSingleFormulaResult_of_not_lt (m := m.set i j e) hgroup hout

/-- The only member of a group of one cell. -/
theorem IsMember.eq_zero {cxt : ModelContext S T} {c : FormulaCell} (h : cxt.IsMember c)
    (hsize : (cxt.statusOf c).groupSize = ⟨1, 1⟩) : c.groupRow = 0 ∧ c.groupColumn = 0 := by
  obtain ⟨⟨hrow, hrow'⟩, hcol, hcol'⟩ := h
  rw [hsize] at hrow' hcol'
  exact ⟨Int.le_antisymm (Int.lt_add_one_iff.mp hrow') hrow,
    Int.le_antisymm (Int.lt_add_one_iff.mp hcol') hcol⟩

/-- Where a group has no result, the other members have one after a store. -/
theorem getResultCache_ne_of_none {cxt : ModelContext S T} {c other : FormulaCell}
    (h : cxt.OtherMember c other) (hnone : (cxt.statusOf c).result = none) {m : Matrix}
    (hm : cxt.sharedResult c = .matrix m) (i j : Nat) (e : MatrixElement) :
    (cxt.setStatus c { cxt.statusOf c with
      result := some (.matrix (m.set i j e)) }).getResultCache other ≠
        cxt.getResultCache other := by
  obtain ⟨⟨hrow, hrow'⟩, hcol, hcol'⟩ := h.member
  obtain ⟨i', hi'⟩ := Int.eq_ofNat_of_zero_le hrow
  obtain ⟨j', hj'⟩ := Int.eq_ofNat_of_zero_le hcol
  have hstatus : cxt.statusOf other = cxt.statusOf c := congrArg cxt.statuses h.status
  rw [sharedResult, hnone] at hm
  cases hm
  rw [hstatus, hi'] at hrow'
  rw [hstatus, hj'] at hcol'
  intro hread
  rw [getResultCache_setStatus h.status, getResultCache_of_none (hstatus ▸ hnone), hi', hj',
    @getSingleFormulaResult_natCast _ i' j'
      (Int.ofNat_lt.mp (hrow'.trans_le (Int.self_le_toNat _)))
      (Int.ofNat_lt.mp (hcol'.trans_le (Int.self_le_toNat _)))] at hread
  cases hread

/-- The matrix that a store finds or makes is the one that the other members are read from. -/
theorem exists_sharedResult {cxt : ModelContext S T} {c : FormulaCell} (hc : cxt.IsMember c)
    (hshared : (∃ m, (cxt.statusOf c).result = some (.matrix m) ∧
        m.Inside c.groupRow c.groupColumn) ∨
      ((cxt.statusOf c).result = none ∧ (cxt.statusOf c).groupSize = ⟨1, 1⟩)) {i j : Nat}
    (hi : c.groupRow = i) (hj : c.groupColumn = j) :
    ∃ m : Matrix, cxt.sharedResult c = .matrix m ∧ i < m.rowSize ∧ j < m.colSize ∧
      ∀ other, cxt.OtherMember c other →
        cxt.getResultCache other =
          getSingleFormulaResult other.groupRow other.groupColumn (.matrix m) := by
  rcases hshared with ⟨m, hr, hin⟩ | ⟨hr, hsize⟩
  · refine ⟨m, by rw [sharedResult, hr]; rfl, Int.ofNat_lt.mp (hi ▸ hin.1.2),
      Int.ofNat_lt.mp (hj ▸ hin.2.2), fun other hmember ↦ getResultCache_of_some ?_⟩
    rw [← hr]
    exact congrArg (CalcStatus.result ∘ cxt.statuses) hmember.status
  · -- there is no other member
    obtain ⟨hrow, hcol⟩ := hc.eq_zero hsize
    obtain rfl : i = 0 := Int.ofNat_inj.mp (hi.symm.trans hrow)
    obtain rfl : j = 0 := Int.ofNat_inj.mp (hj.symm.trans hcol)
    refine ⟨.new 1 1, by rw [sharedResult, hr, hsize]; rfl, Nat.one_pos, Nat.one_pos,
      fun other hmember ↦ ?_⟩
    have hstatus : cxt.statusOf other = cxt.statusOf c := congrArg cxt.statuses hmember.status
    have hsame := hmember.member.eq_zero (by rw [hstatus, hsize])
    exact absurd ⟨hsame.1.trans hrow.symm, hsame.2.trans hcol.symm⟩ hmember.ne

/-- A result that is no matrix can be stored for a member of a group and read back, without a
change for the other members, exactly when it is no truth value and not `no_error`, and the
group has a matrix with an element for the cell, or has no result and no other member. -/
theorem storesAndReads_iff {cxt : ModelContext S T} {c : FormulaCell} {v : FormulaResult}
    (hc : cxt.IsMember c) (hv : ∀ m, v ≠ .matrix m) : cxt.StoresAndReads c v ↔
      (∀ b, v ≠ .boolean b) ∧ v ≠ .error .noError ∧
        ((∃ m, (cxt.statusOf c).result = some (.matrix m) ∧
            m.Inside c.groupRow c.groupColumn) ∨
          ((cxt.statusOf c).result = none ∧ (cxt.statusOf c).groupSize = ⟨1, 1⟩)) := by
  obtain ⟨e, he⟩ : ∃ e, toElement v = .ok e := by
    cases v with
    | matrix m => exact absurd rfl (hv m)
    | _ => exact ⟨_, rfl⟩
  obtain ⟨i, hi⟩ := Int.eq_ofNat_of_zero_le hc.1.1
  obtain ⟨j, hj⟩ := Int.eq_ofNat_of_zero_le hc.2.1
  constructor
  · rintro ⟨cxt', hset, hget, hother⟩
    obtain ⟨m, e', hm, hlt, hlt', he', rfl⟩ := (setResultCache_eq_ok_iff hi hj).mp hset
    obtain rfl := Except.ok.inj (he.symm.trans he')
    have hsingle := @getSingleFormulaResult_natCast (m.set i j e) i j hlt hlt'
    rw [Matrix.get_set_self hlt hlt'] at hsingle
    rw [getResultCache_setStatus rfl, hi, hj, hsingle] at hget
    obtain ⟨hb, hno⟩ := (elementResult_of_toElement he).mp (Except.ok.inj hget)
    refine ⟨hb, hno, ?_⟩
    cases hr : (cxt.statusOf c).result with
    | some r =>
      rw [sharedResult, hr] at hm
      exact .inl ⟨m, congrArg some hm, Matrix.inside_iff.mpr ⟨i, j, hi, hj, hlt, hlt'⟩⟩
    | none =>
      refine .inr ⟨rfl, ?_⟩
      by_contra hsize
      obtain ⟨other, hmember⟩ := exists_otherMember hc hsize
      exact getResultCache_ne_of_none hmember hr hm i j e (hother other hmember)
  · rintro ⟨hb, hno, hshared⟩
    obtain ⟨m, hm, hlt, hlt', hother⟩ := exists_sharedResult hc hshared hi hj
    refine ⟨_, (setResultCache_eq_ok_iff hi hj).mpr ⟨m, e, hm, hlt, hlt', he, rfl⟩, ?_,
      fun other hmember ↦ ?_⟩
    · rw [getResultCache_setStatus rfl, hi, hj,
        @getSingleFormulaResult_natCast (m.set i j e) i j hlt hlt',
        Matrix.get_set_self hlt hlt', (elementResult_of_toElement he).mpr ⟨hb, hno⟩]
    · rw [getResultCache_setStatus hmember.status, hother other hmember]
      obtain ⟨⟨hrow, _⟩, hcol, _⟩ := hmember.member
      obtain ⟨i', hi'⟩ := Int.eq_ofNat_of_zero_le hrow
      obtain ⟨j', hj'⟩ := Int.eq_ofNat_of_zero_le hcol
      rw [hi', hj']
      refine getSingleFormulaResult_set_of_ne hlt' ?_
      rintro ⟨rfl, rfl⟩
      exact hmember.ne ⟨hi'.trans hi.symm, hj'.trans hj.symm⟩

/-! ### A truth value in a group -/

theorem isMember_division : (divisionContext false).IsMember divisionCell :=
  ⟨⟨Int.le_refl 0, Int.one_pos⟩, Int.le_refl 0, Int.one_pos⟩

/-- A truth value comes back as a number. -/
theorem not_storesAndReads_division :
    (divisionContext false).IsMember divisionCell ∧
      ¬ (divisionContext false).StoresAndReads divisionCell (.boolean true) := by
  refine ⟨isMember_division, ?_⟩
  rintro ⟨cxt', hset, hget, _⟩
  cases hset
  have hread : Except.ok (FormulaResult.value 1) = .ok (FormulaResult.boolean true) := hget
  exact absurd hread nofun

theorem storesAndReads_iff_division :
    (divisionContext false).StoresAndReads divisionCell (.value 1) ↔
      (∀ b, FormulaResult.value 1 ≠ .boolean b) ∧ FormulaResult.value 1 ≠ .error .noError ∧
        ((∃ m, ((divisionContext false).statusOf divisionCell).result = some (.matrix m) ∧
            m.Inside divisionCell.groupRow divisionCell.groupColumn) ∨
          (((divisionContext false).statusOf divisionCell).result = none ∧
            ((divisionContext false).statusOf divisionCell).groupSize = ⟨1, 1⟩)) :=
  storesAndReads_iff isMember_division fun _ ↦ nofun

end ModelContext

end Ixion
