import Ixion.Document

/-!
# What operations do to the context

One lemma for each operation on the context that a document uses: what it changes, and
that it returns where nothing is wrong.  Strings are only ever added to the pool.
-/

namespace Ixion

open Lib

namespace ModelContext

variable {S T : Type}

/-! ## Strings -/

/-- Strings have been added to the pool, and nothing else has changed. -/
structure PoolGrows (cxt cxt' : ModelContext S T) : Prop where
  eq : cxt' = { cxt with strPool := cxt'.strPool }
  getString : ∀ sid s, cxt.strPool.getString sid = some s → cxt'.strPool.getString sid = some s

instance : Std.Refl (PoolGrows (S := S) (T := T)) := ⟨fun _ ↦ ⟨rfl, fun _ _ h ↦ h⟩⟩

instance : IsTrans (ModelContext S T) PoolGrows where
  trans cxt cxt' cxt'' h h' := by
    refine ⟨?_, fun sid s hs ↦ h'.getString sid s (h.getString sid s hs)⟩
    rw [h'.eq, h.eq]

theorem wp_addString (s : Text) (cxt : ModelContext S T) :
    wp (addString s)
      (fun sid cxt' ↦ PoolGrows cxt cxt' ∧ cxt'.strPool.getString sid = some s)
      (fun _ _ ↦ False) cxt := by
  rw [addString, wp_bind, wp_get, wp_bind, wp_set, wp_pure]
  exact ⟨⟨rfl, fun _ _ h ↦ StringPool.getString_addString_of_some h⟩,
    StringPool.getString_addString _ s⟩

/-- Parsing a formula adds strings to the pool, whether or not it returns. -/
theorem wp_parseFormulaString (formula : ParsedFormula) (cxt : ModelContext S T) :
    wp (parseFormulaString formula)
      (fun tokens cxt' ↦ PoolGrows cxt cxt' ∧ formula.tokens = .ok tokens)
      (fun e cxt' ↦ PoolGrows cxt cxt' ∧ ∃ x, formula.tokens = .error x ∧ e = .exception x)
      cxt := by
  have hstrings : wp (formula.strings.forM fun s ↦ discard (addString s))
      (fun _ ↦ PoolGrows cxt) (fun _ _ ↦ False) cxt := by
    refine wp_forM (I := fun _ ↦ PoolGrows cxt) (fun s _ cxt' hI ↦ ?_) (Std.Refl.refl cxt)
    change wp (Function.const _ () <$> addString s) _ _ _
    rw [wp_map]
    exact (wp_addString s cxt').mono (fun _ _ h ↦ trans_of PoolGrows hI h.1) fun _ _ h ↦ h
  rw [parseFormulaString, wp_bind]
  refine hstrings.mono (fun _ cxt' h ↦ ?_) fun _ _ h ↦ h.elim
  cases htokens : formula.tokens with
  | ok tokens => exact ⟨h, rfl⟩
  | error x => exact ⟨h, x, rfl, rfl⟩

/-! ## Cells -/

/-- A cell outside the workbook cannot be changed. -/
theorem wp_storeCell {addr : AbsAddress} {cxt : ModelContext S T}
    (hin : cxt.inWorkbook addr = true) (cell : Cell) :
    wp (storeCell addr cell) (fun _ cxt' ↦ cxt' = cxt.setCell addr cell) (fun _ _ ↦ False) cxt := by
  rw [storeCell, wp_bind, wp_get, if_pos hin, wp_set]

/-- What giving a raw cell its content does: the pool may grow, and the cell has the
value afterwards. -/
structure StoresRaw (addr : AbsAddress) (value : RawValue) (cxt cxt' : ModelContext S T) :
    Prop where
  eq : cxt' = { cxt with
    strPool := cxt'.strPool
    cells := Function.update cxt.cells addr (cxt'.cells addr) }
  getString : ∀ sid s, cxt.strPool.getString sid = some s → cxt'.strPool.getString sid = some s
  value : ∀ result, cxt'.valueOf result (cxt'.cells addr) = .ok value.toCellValue

theorem StoresRaw.not_formula {addr : AbsAddress} {value : RawValue} {cxt cxt' : ModelContext S T}
    (h : StoresRaw addr value cxt cxt') (cell : FormulaCell) :
    cxt'.cells addr ≠ .formula cell := by
  intro hcell
  have hvalue := h.value fun _ ↦ .error .wait
  rw [hcell] at hvalue
  exact absurd hvalue nofun

theorem wp_setRawCell {addr : AbsAddress} {cxt : ModelContext S T}
    (hin : cxt.inWorkbook addr = true) (value : RawValue) :
    wp (setRawCell addr value) (fun _ ↦ StoresRaw addr value cxt) (fun _ _ ↦ False) cxt := by
  have hstore : ∀ (cell : Cell) (cxt' : ModelContext S T), PoolGrows cxt cxt' →
      (∀ result, cxt'.valueOf result cell = .ok value.toCellValue) →
      wp (storeCell addr cell) (fun _ ↦ StoresRaw addr value cxt) (fun _ _ ↦ False) cxt' := by
    intro cell cxt' hpool hvalue
    have hin' : cxt'.inWorkbook addr = true := by
      rw [hpool.eq]
      exact hin
    refine (wp_storeCell hin' cell).mono ?_ fun _ _ h ↦ h
    rintro _ _ rfl
    refine ⟨?_, hpool.getString, fun result ↦ ?_⟩
    · rw [hpool.eq]
      simp [setCell]
    · rw [show (cxt'.setCell addr cell).cells addr = cell from Function.update_self ..]
      exact hvalue result
  have hrefl : PoolGrows cxt cxt := Std.Refl.refl cxt
  cases value with
  | numeric v => exact hstore _ _ hrefl fun _ ↦ rfl
  | boolean b => exact hstore _ _ hrefl fun _ ↦ rfl
  | empty => exact hstore _ _ hrefl fun _ ↦ rfl
  | string s =>
    have hsheet : 0 ≤ addr.sheet ∧ addr.sheet < cxt.sheets.length := by
      rw [Workbook.inWorkbook, decide_eq_true_eq] at hin
      exact ⟨hin.1, hin.2.1⟩
    rw [setRawCell, setStringCell, wp_bind, wp_get, if_pos hsheet, wp_bind]
    refine (wp_addString s cxt).mono (fun sid cxt' h ↦ ?_) fun _ _ h ↦ h
    refine hstore _ _ h.1 fun result ↦ ?_
    rw [Workbook.valueOf, h.2]
    rfl

/-- What putting a formula into a cell does: the cell has a new status. -/
theorem wp_setFormulaCell {addr : AbsAddress} {cxt : ModelContext S T}
    (hin : cxt.inWorkbook addr = true) (tokens : List FormulaToken) :
    wp (setFormulaCell addr tokens)
      (fun cell cxt' ↦ cell = ⟨tokens, -1, -1, cxt.statusCount⟩ ∧ cxt' = { cxt with
        statuses := Function.update cxt.statuses cxt.statusCount (.new ⟨0, 0⟩)
        statusCount := cxt.statusCount + 1
        cells := Function.update cxt.cells addr (.formula cell) })
      (fun _ _ ↦ False) cxt := by
  rw [setFormulaCell, wp_bind, wp_get, wp_bind, wp_set, wp_bind]
  let cxt₁ : ModelContext S T := { cxt with
    statuses := Function.update cxt.statuses cxt.statusCount (.new ⟨0, 0⟩)
    statusCount := cxt.statusCount + 1 }
  have hin₁ : cxt₁.inWorkbook addr = true := hin
  refine (wp_storeCell hin₁ _).mono ?_ fun _ _ h ↦ h
  rintro _ _ rfl
  exact ⟨rfl, rfl⟩

/-! ## Sheets -/

/-- A sheet is appended unless there is one of that name. -/
theorem wp_appendSheet (name : String) (cxt : ModelContext S T) :
    wp (appendSheet name)
      (fun _ cxt' ↦ (∀ ws ∈ cxt.sheets, ws.name ≠ name) ∧
        cxt' = { cxt with sheets := cxt.sheets ++ [⟨name, []⟩] })
      (fun _ cxt' ↦ cxt' = cxt) cxt := by
  rw [appendSheet, wp_bind, wp_get]
  split
  case isTrue => rfl
  case isFalse h =>
    refine ⟨fun ws hws hname ↦ h ?_, rfl⟩
    exact List.any_eq_true.mpr ⟨ws, hws, decide_eq_true hname⟩

end ModelContext

namespace Document

variable {S T : Type}

/-- Running something on the context leaves the rest of the document alone. -/
theorem wp_onContext {α : Type} {x : Exec (ModelContext S T) α} {Q : α → Document S T → Prop}
    {E : Failure → Document S T → Prop} {d : Document S T} :
    wp (onContext x) Q E d ↔
      wp x (fun a cxt ↦ Q a { d with cxt }) (fun e cxt ↦ E e { d with cxt }) d.cxt := by
  rw [wp, wp, onContext]
  cases x d.cxt <;> exact .rfl

end Document

end Ixion
