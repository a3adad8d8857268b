import Ixion.Interp.Invariant

/-!
# What an interpretation reads

An interpretation reads the cells that the tokens of the formula refer to, those of named
expressions included, and no others.  It gets hold of addresses only by way of the
references on its stack, and every reference on the stack comes from a token.

What a function does is a parameter here, of which it is assumed that it reads the
arguments of the function only (`ReadsArguments`).
-/

namespace Ixion

open Lib Query Workbook InterpM

/-! ## What a formula may read -/

/-- A token of a formula, or of a named expression in it, refers to a cell. -/
def Workbook.References (wb : Workbook) (cell : FormulaCell) (pos a : AbsAddress) : Prop :=
  ∃ t, wb.Occurs pos.sheet cell.tokens t ∧ wb.RefersTo pos t a

/-- The formulas of a workbook are evaluated by reading cells that their tokens refer to,
and waiting happens only where a result is read. -/
structure Evaluator.ReadsReferences (ev : Evaluator) (wb : Workbook) : Prop where
  reads : ∀ cell pos, (ev wb cell pos).Reads (wb.References cell pos)
  throws : ∀ cell pos, (ev wb cell pos).Throws (· ≠ .wait)

/-! ## Reading cells -/

/-- Reads cells with a property only, and fails only in some ways. -/
abbrev Reader.Within {α : Type} (P : AbsAddress → Prop) (E : Failure → Prop) (r : Reader α) :
    Prop :=
  r.Ensures (fun i ↦ P i.addr) E fun _ ↦ True

/-- Reads cells with a property only, and waits only where it reads. -/
abbrev Reader.Sound {α : Type} (P : AbsAddress → Prop) (r : Reader α) : Prop :=
  r.Within P (· ≠ .wait)

namespace Reader

variable {P : AbsAddress → Prop} {E : Failure → Prop} {α β : Type}

theorem within_pure (a : α) : Within P E (Pure.pure a : Reader α) := trivial

theorem within_bind {r : Reader α} {k : α → Reader β} (hr : r.Within P E)
    (hk : ∀ a, (k a).Within P E) : (r >>= k).Within P E :=
  ensures_bind hr fun a _ ↦ hk a

theorem within_foldlM {f : β → α → Reader β} {l : List α}
    (h : ∀ b, ∀ a ∈ l, (f b a).Within P E) (b : β) : (l.foldlM f b).Within P E := by
  induction l generalizing b with
  | nil => trivial
  | cons a l ih =>
    rw [List.foldlM_cons]
    refine within_bind (h b a List.mem_cons_self) fun b' ↦ ?_
    exact ih (fun b'' a' ha' ↦ h b'' a' (List.mem_cons_of_mem a ha')) b'

variable {a : AbsAddress}

theorem within_getCellType (h : P a) : (getCellType a).Within P E :=
  ensures_query (i := Question.cellType a) h

theorem within_getCellValue (h : P a) : (getCellValue a).Within P E :=
  ensures_query (i := Question.cellValue a) h

section Exceptions

variable (hE : ∀ e, E (.exception e))

include hE

theorem within_ofExcept (x : Except Exn α) : (ofExcept x).Within P E := by
  cases x with
  | ok a => trivial
  | error e => exact hE e

theorem within_getNumericValue (h : P a) : (getNumericValue a).Within P E := by
  refine within_bind (within_getCellValue h) fun v ↦ ?_
  cases v with
  | formula row column res => exact within_ofExcept hE _
  | _ => trivial

theorem within_getBooleanValue (h : P a) : (getBooleanValue a).Within P E := by
  refine within_bind (within_getCellValue h) fun v ↦ ?_
  cases v with
  | formula row column res => exact within_bind (within_ofExcept hE _) fun _ ↦ trivial
  | _ => trivial

theorem within_getStringValue (h : P a) : (getStringValue a).Within P E := by
  refine within_bind (within_getCellValue h) fun v ↦ ?_
  cases v with
  | formula row column res => exact within_ofExcept hE _
  | _ => trivial

theorem within_getFormulaResult (h : P a) : (getFormulaResult a).Within P E := by
  refine within_bind (within_getCellValue h) fun v ↦ ?_
  cases v with
  | formula row column res => exact within_ofExcept hE _
  | _ => exact hE _

theorem within_getCellValueType (h : P a) : (getCellValueType a).Within P E := by
  refine within_bind (within_getCellValue h) fun v ↦ ?_
  cases v with
  | formula row column res =>
    refine within_bind (within_ofExcept hE _) fun r ↦ ?_
    cases r with
    | matrix m => exact hE _
    | _ => trivial
  | _ => trivial

/-- The cells of a range are read, with all rows or columns of a sheet where the range has
all of them. -/
theorem within_getRangeValue {range : AbsRange} (h : ∀ a, Covers range a → P a)
    (sheetSize : RcSize) : (getRangeValue sheetSize range).Within P E := by
  rw [getRangeValue]
  dsimp only
  split
  · exact hE _
  split
  · exact hE _
  case isFalse hvalid =>
    obtain ⟨-, -, -, hrow, hcol⟩ := AbsRange.valid_iff.mp (by simpa using hvalid)
    refine within_foldlM (fun m i hi ↦ within_foldlM (fun m j hj ↦ ?_) m) _
    refine within_bind (within_getNumericValue hE (h _ ?_)) fun _ ↦ trivial
    rw [List.mem_range] at hi hj
    refine ⟨⟨by simp, by simp⟩, ?_, ?_⟩
    · cases hall : range.allRows with
      | true => exact .inl rfl
      | false =>
        simp only [hall, Bool.false_eq_true, if_false] at hi ⊢
        omega
    · cases hall : range.allColumns with
      | true => exact .inl rfl
      | false =>
        simp only [hall, Bool.false_eq_true, if_false] at hj ⊢
        omega

end Exceptions

end Reader

/-! ## Stacks -/

/-- A value refers to cells with a property only. -/
def StackValue.RefersOnly (P : AbsAddress → Prop) : StackValue → Prop
  | .singleRef a => P a
  | .rangeRef range => ∀ a, Covers range a → P a
  | _ => True

/-- The corner of a range that comes first is covered. -/
theorem Workbook.covers_first (range : AbsRange) : Covers range range.first :=
  ⟨⟨min_le_left .., le_max_left ..⟩, .inr ⟨min_le_left .., le_max_left ..⟩,
    .inr ⟨min_le_left .., le_max_left ..⟩⟩

/-- Reordering the corners of a range does not change what it covers. -/
theorem Workbook.covers_reorder_iff {range : AbsRange} {a : AbsAddress} :
    Covers range.reorder a ↔ Covers range a := by
  simp only [Covers, AbsRange.allRows, AbsRange.allColumns, decide_eq_true_eq]
  simp only [AbsRange.reorder]
  omega

namespace ValueStack

/-- All values on a stack refer to cells with a property only. -/
def RefersOnly (P : AbsAddress → Prop) (stack : ValueStack) : Prop :=
  ∀ v ∈ stack, v.RefersOnly P

/-- Reads cells with a property only, provided that the stack refers to such cells only, and
keeps it that way. -/
abbrev Sound {α : Type} (P : AbsAddress → Prop) (Q : α → Prop) (x : StackM α) : Prop :=
  Keeps (fun i ↦ P i.addr) (· ≠ .wait) (RefersOnly P) Q x

variable {P : AbsAddress → Prop} {α β : Type} {Q : α → Prop} {R : β → Prop}

theorem sound_pure {a : α} (h : Q a) : Sound P Q (Pure.pure a : StackM α) := keeps_pure h

theorem sound_bind {x : StackM α} {f : α → StackM β} (hx : Sound P Q x)
    (hf : ∀ a, Q a → Sound P R (f a)) : Sound P R (x >>= f) :=
  keeps_bind hx hf

theorem sound_lift {r : Reader α} (h : r.Sound P) :
    Sound P (fun _ ↦ True) (liftM r : StackM α) := keeps_lift h

theorem sound_raise (e : FormulaError) : Sound P Q (raise e : StackM α) := fun _ _ ↦ nofun

theorem sound_push {v : StackValue} (h : v.RefersOnly P) :
    Sound P (fun _ ↦ True) (push v) := by
  refine keeps_modify fun s hs w hw ↦ ?_
  rcases List.mem_cons.mp hw with rfl | hw
  · exact h
  · exact hs w hw

theorem sound_back : Sound P (StackValue.RefersOnly P) back := by
  refine keeps_bind keeps_get fun s hs ↦ ?_
  cases s with
  | nil => exact sound_raise _
  | cons v s => exact sound_pure (hs v List.mem_cons_self)

theorem sound_popBack : Sound P (fun _ ↦ True) popBack :=
  keeps_modify fun _ hs v hv ↦ hs v (List.mem_of_mem_tail hv)

/-- Go on after the value on top has been removed. -/
theorem sound_popBack_bind {f : StackM β} (hf : Sound P R f) :
    Sound P R (do popBack; f) :=
  sound_bind sound_popBack fun _ _ ↦ hf

section Exceptions

variable {E : Failure → Prop} (hE : ∀ e, E (.exception e))

include hE

theorem within_booleanOf {v : StackValue} (h : v.RefersOnly P) : (booleanOf v).Within P E := by
  cases v with
  | singleRef a =>
    refine Reader.within_bind (Reader.within_getCellValueType hE h) fun type ↦ ?_
    cases type with
    | numeric => exact Reader.within_getBooleanValue hE h
    | boolean => exact Reader.within_getBooleanValue hE h
    | empty => trivial
    | _ => exact hE _
  | matrix m => exact Reader.within_bind (Reader.within_ofExcept hE _) fun _ ↦ trivial
  | boolean b => trivial
  | value v => trivial
  | _ => exact hE _

theorem within_numericOf {v : StackValue} (h : v.RefersOnly P) : (numericOf v).Within P E := by
  cases v with
  | singleRef a => exact Reader.within_getNumericValue hE h
  | matrix m => exact Reader.within_ofExcept hE _
  | boolean b => trivial
  | value v => trivial
  | string s => trivial
  | _ => exact hE _

theorem within_resultText (lib : NumberLib) (r : FormulaResult) :
    (resultText lib r).Within P E := by
  cases r with
  | error e => exact hE _
  | matrix m => exact hE _
  | _ => trivial

end Exceptions

/-! ### Popping

An operation that pops a value fails on an empty stack and otherwise takes the value on top;
what it reads is a matter of that value. -/

/-- Takes the value on top of a stack, reads cells only that it refers to, and leaves the values
below it. -/
structure Pops {α : Type} (P : AbsAddress → Prop) (E : Failure → Prop) (Q : α → Prop)
    (x : StackM α) : Prop where
  nil : x [] = throwFormulaError .stackError
  cons : ∀ v s, v.RefersOnly P →
    Meets (fun i ↦ P i.addr) E (· = v :: s) (fun a s' ↦ Q a ∧ s' = s) x

section Pops

variable {E : Failure → Prop} {v : StackValue} {s : ValueStack} {T : β → ValueStack → Prop}

/-- Go on with the value on top. -/
theorem meets_back_bind {f : StackValue → StackM β}
    (hf : Meets (fun i ↦ P i.addr) E (· = v :: s) T (f v)) :
    Meets (fun i ↦ P i.addr) E (· = v :: s) T (back >>= f) := by
  rintro _ rfl
  exact hf _ rfl

/-- Go on after the value on top has been removed. -/
theorem meets_popBack_bind {f : StackM β} (hf : Meets (fun i ↦ P i.addr) E (· = s) T f) :
    Meets (fun i ↦ P i.addr) E (· = v :: s) T (do popBack; f) := by
  rintro _ rfl
  exact hf _ rfl

/-- End with a value and what is left of the stack. -/
theorem meets_return {a : α} (h : Q a) :
    Meets (fun i ↦ P i.addr) E (· = s) (fun a t ↦ Q a ∧ t = s) (Pure.pure a : StackM α) :=
  meets_pure fun _ ht ↦ ⟨h, ht⟩

/-- Remove the value on top and end. -/
theorem meets_popBack_return {a : α} (h : Q a) :
    Meets (fun i ↦ P i.addr) E (· = v :: s) (fun a t ↦ Q a ∧ t = s)
      (do popBack; return a : StackM α) :=
  meets_popBack_bind (meets_return h)

/-- End with what is read. -/
theorem meets_read {r : Reader α} (h : r.Within P E) :
    Meets (fun i ↦ P i.addr) E (· = s) (fun _ t ↦ True ∧ t = s) (liftM r : StackM α) :=
  meets_lift h

/-- Read what the value on top stands for and remove it. -/
theorem pops_read {r : StackValue → Reader α}
    (h : ∀ v : StackValue, v.RefersOnly P → (r v).Within P E) :
    Pops P E (fun _ ↦ True) (do let a ← r (← back); popBack; return a) where
  nil := rfl
  cons v _ hv := meets_back_bind (meets_lift_bind (h v hv) fun _ _ ↦ meets_popBack_return trivial)

variable (hE : ∀ e, E (.exception e))

include hE

theorem meets_raise {I : ValueStack → Prop} {R : α → ValueStack → Prop} (e : FormulaError) :
    Meets (fun i ↦ P i.addr) E I R (raise e : StackM α) :=
  meets_throw (hE _)

theorem pops_popBoolean : Pops P E (fun _ ↦ True) popBoolean :=
  pops_read fun _ ↦ within_booleanOf hE

theorem pops_popValue : Pops P E (fun _ ↦ True) popValue :=
  pops_read fun _ ↦ within_numericOf hE

theorem pops_popString (lib : NumberLib) : Pops P E (fun _ ↦ True) (popString lib) where
  nil := rfl
  cons v s hv := by
    refine meets_back_bind ?_
    cases v with
    | string text => exact meets_popBack_return trivial
    | boolean b => exact meets_popBack_return trivial
    | value q => exact meets_popBack_return trivial
    | singleRef a =>
      refine meets_popBack_bind (meets_lift_bind (Reader.within_getCellType hv) fun type _ ↦ ?_)
      cases type with
      | empty => exact meets_return trivial
      | formula =>
        refine meets_lift_bind (Reader.within_getFormulaResult hE hv) fun r _ ↦ ?_
        exact meets_read (within_resultText hE lib r)
      | numeric =>
        refine meets_lift_bind (Reader.within_getNumericValue hE hv) fun q _ ↦ ?_
        exact meets_return trivial
      | string =>
        refine meets_lift_bind (Reader.within_getCellValue hv) fun w _ ↦ ?_
        cases w with
        | string text =>
          cases text with
          | none => exact meets_raise hE _
          | some text => exact meets_return trivial
        | _ => exact meets_raise hE _
      | boolean => exact meets_raise hE _
    | _ => exact meets_raise hE _

theorem pops_popSingleRef : Pops P E P popSingleRef where
  nil := rfl
  cons v s hv := by
    refine meets_back_bind ?_
    cases v with
    | singleRef a => exact meets_popBack_return hv
    | rangeRef range => exact meets_popBack_return (hv _ (covers_first range))
    | _ => exact meets_raise hE _

theorem pops_popRangeRef : Pops P E (fun _ ↦ True) popRangeRef where
  nil := rfl
  cons v s hv := by
    refine meets_back_bind ?_
    cases v with
    | singleRef a => exact meets_popBack_return trivial
    | rangeRef range => exact meets_popBack_return trivial
    | _ => exact meets_raise hE _

theorem pops_popRangeValue (sheetSize : RcSize) :
    Pops P E (fun _ ↦ True) (popRangeValue sheetSize) where
  nil := rfl
  cons v s hv := by
    refine meets_back_bind ?_
    cases v with
    | rangeRef range =>
      refine meets_lift_bind (Reader.within_getRangeValue hE hv sheetSize) fun m _ ↦ ?_
      exact meets_popBack_return trivial
    | _ => exact meets_raise hE _

theorem pops_popError : Pops P E (fun _ ↦ True) popError where
  nil := rfl
  cons v s hv := by
    refine meets_back_bind ?_
    cases v with
    | error e => exact meets_popBack_return trivial
    | _ => exact meets_raise hE _

omit hE

/-- What pops a value keeps it so that the stack refers to cells with a property only. -/
theorem Pops.sound {x : StackM α} (h : Pops P (· ≠ .wait) Q x) : Sound P Q x := by
  intro stack hstack
  cases stack with
  | nil =>
    rw [h.nil]
    exact nofun
  | cons v s =>
    refine (h.cons v s (hstack v List.mem_cons_self) _ rfl).mono ?_
    rintro ⟨a, t⟩ ⟨ha, rfl⟩
    exact ⟨ha, fun w hw ↦ hstack w (List.mem_cons_of_mem v hw)⟩

theorem sound_popBoolean : Sound P (fun _ ↦ True) popBoolean :=
  (pops_popBoolean fun _ ↦ nofun).sound

theorem sound_popValue : Sound P (fun _ ↦ True) popValue := (pops_popValue fun _ ↦ nofun).sound

theorem sound_popString (lib : NumberLib) : Sound P (fun _ ↦ True) (popString lib) :=
  (pops_popString (fun _ ↦ nofun) lib).sound

theorem sound_popSingleRef : Sound P P popSingleRef := (pops_popSingleRef fun _ ↦ nofun).sound

theorem sound_popRangeValue (sheetSize : RcSize) :
    Sound P (fun _ ↦ True) (popRangeValue sheetSize) :=
  (pops_popRangeValue (fun _ ↦ nofun) sheetSize).sound

theorem sound_popError : Sound P (fun _ ↦ True) popError := (pops_popError fun _ ↦ nofun).sound

end Pops

theorem sound_maybePopMatrix (sheetSize : RcSize) :
    Sound P (fun _ ↦ True) (maybePopMatrix sheetSize) := by
  refine sound_bind sound_back fun v hv ↦ ?_
  cases v with
  | matrix m => exact sound_popBack_bind (sound_pure trivial)
  | rangeRef range =>
    exact sound_bind (sound_popRangeValue sheetSize) fun _ _ ↦ sound_pure trivial
  | _ => exact sound_pure trivial

theorem sound_popMatrix (sheetSize : RcSize) : Sound P (fun _ ↦ True) (popMatrix sheetSize) := by
  refine sound_bind (sound_maybePopMatrix sheetSize) fun m _ ↦ ?_
  cases m with
  | some m => exact sound_pure trivial
  | none => exact sound_raise _

theorem sound_popMatrixOrNumeric (sheetSize : RcSize) :
    Sound P (fun _ ↦ True) (popMatrixOrNumeric sheetSize) := by
  refine sound_bind (sound_maybePopMatrix sheetSize) fun m _ ↦ ?_
  cases m with
  | some m => exact sound_pure trivial
  | none => exact sound_bind sound_popValue fun _ _ ↦ sound_pure trivial

theorem sound_popMatrixOrString (lib : NumberLib) (sheetSize : RcSize) :
    Sound P (fun _ ↦ True) (popMatrixOrString lib sheetSize) := by
  refine sound_bind (sound_maybePopMatrix sheetSize) fun m _ ↦ ?_
  cases m with
  | some m => exact sound_pure trivial
  | none => exact sound_bind (sound_popString lib) fun _ _ ↦ sound_pure trivial

theorem sound_popStackValue (sheetSize : RcSize) :
    Sound P (fun _ ↦ True) (popStackValue sheetSize) := by
  refine sound_bind sound_back fun v hv ↦ ?_
  cases v with
  | boolean b => exact sound_bind sound_popBoolean fun _ _ ↦ sound_pure trivial
  | value v => exact sound_bind sound_popValue fun _ _ ↦ sound_pure trivial
  | string s => exact sound_popBack_bind (sound_pure trivial)
  | matrix m => exact sound_bind (sound_popMatrix sheetSize) fun _ _ ↦ sound_pure trivial
  | error e => exact sound_bind sound_popError fun _ _ ↦ sound_pure trivial
  | singleRef a =>
    refine sound_bind sound_popSingleRef fun b hb ↦ ?_
    refine sound_bind (sound_lift (Reader.within_getCellValue hb)) fun v _ ↦ ?_
    cases v with
    | formula row column res =>
      refine sound_bind (sound_lift (Reader.within_ofExcept (fun _ ↦ nofun) _)) fun r _ ↦ ?_
      cases r with
      | _ => exact sound_pure trivial
    | _ => exact sound_pure trivial
  | rangeRef range => exact sound_pure trivial

end ValueStack

/-! ## The interpreter -/

/-- What a function does reads the cells only that its arguments refer to. -/
def ReadsArguments (call : FormulaFunction → StackM Unit) : Prop :=
  ∀ P func, ValueStack.Sound P (fun _ ↦ True) (call func)

/-- Reading cells with a property only, and waiting only where a cell is read. -/
def readsPolicy (P : AbsAddress → Prop) : Policy :=
  ⟨fun i ↦ P i.addr, (· ≠ .wait), (·.RefersOnly P)⟩

namespace Interpreter

section Sound

variable {env : Interpreter} {tokens : List FormulaToken} {P : AbsAddress → Prop}

theorem sound_singleRef {addr : Address} (h : P (addr.toAbs env.pos)) :
    (readsPolicy P).Sound tokens (fun _ ↦ True) (env.singleRef addr) := by
  rw [singleRef]
  dsimp only
  split
  · exact Policy.sound_raise nofun
  · exact Policy.sound_bind (Policy.sound_push h) fun _ _ ↦ Policy.sound_next

theorem sound_pushRangeRef {range : AbsRange} (h : ∀ a, Covers range a → P a) :
    (readsPolicy P).Sound tokens (fun _ ↦ True) (env.pushRangeRef range) :=
  Policy.sound_bind (Policy.sound_assert nofun) fun _ _ ↦ Policy.sound_push h

theorem sound_rangeRef {range : Range} (h : ∀ a, Covers (range.toAbs env.pos) a → P a) :
    (readsPolicy P).Sound tokens (fun _ ↦ True) (env.rangeRef range) := by
  rw [rangeRef]
  dsimp only
  split
  · exact Policy.sound_raise nofun
  · exact Policy.sound_bind (sound_pushRangeRef fun a ha ↦ h a (covers_reorder_iff.mp ha)) fun _ _ ↦
      Policy.sound_next

theorem sound_tableRef {table : Table}
    (h : ∀ range, env.workbook.tableRange env.pos table = some range → ∀ a, Covers range a → P a) :
    (readsPolicy P).Sound tokens (fun _ ↦ True) (env.tableRef table) := by
  rw [tableRef]
  split
  · exact Policy.sound_raise nofun
  case h_2 range hrange =>
    exact Policy.sound_bind (sound_pushRangeRef (h range hrange)) fun _ _ ↦ Policy.sound_next

/-- A formula may read the cells that its tokens refer to. -/
theorem allows_readsPolicy (hcall : ReadsArguments env.call)
    (hrefs : ∀ t ∈ tokens, ∀ a, env.workbook.RefersTo env.pos t a → P a) :
    (readsPolicy P).Allows env tokens where
  invalid _ := nofun
  noString := nofun
  generalError := nofun
  stackOverflow := nofun
  undefined := nofun
  assertion _ _ _ := nofun
  plain v hv := by
    cases v with
    | singleRef _ => exact hv.elim
    | rangeRef _ => exact hv.elim
    | _ => trivial
  popStackValue := ValueStack.sound_popStackValue _
  popMatrixOrNumeric := ValueStack.sound_popMatrixOrNumeric _
  popMatrixOrString := ValueStack.sound_popMatrixOrString _ _
  popValue := ValueStack.sound_popValue
  compare _ _ _ _ _ := nofun
  termOp _ _ _ _ _ := nofun
  concat _ _ _ _ := nofun
  call func := hcall P func
  singleRef addr haddr := sound_singleRef (hrefs _ haddr _ rfl)
  rangeRef range hrange := sound_rangeRef (hrefs _ hrange)
  tableRef table htable := sound_tableRef fun range hrange a ha ↦
    hrefs _ htable a ⟨range, hrange, ha⟩

end Sound

variable {P : AbsAddress → Prop}

section Result

variable {E : Failure → Prop} (hE : ∀ e, E (.exception e))

include hE

theorem within_getResultFromCell {a : AbsAddress} (h : P a) :
    (getResultFromCell a).Within P E := by
  refine Reader.within_bind (Reader.within_getCellType h) fun type ↦ ?_
  cases type with
  | formula => exact Reader.within_getFormulaResult hE h
  | boolean => exact Reader.within_bind (Reader.within_getBooleanValue hE h) fun _ ↦ trivial
  | numeric => exact Reader.within_bind (Reader.within_getNumericValue hE h) fun _ ↦ trivial
  | string => exact Reader.within_bind (Reader.within_getStringValue hE h) fun _ ↦ trivial
  | empty => trivial

theorem within_topResult (hU : E .undefined) {stack : ValueStack} (h : stack.RefersOnly P) :
    (topResult stack).Within P E := by
  cases stack with
  | nil => exact hU
  | cons v stack =>
    have hv := h v List.mem_cons_self
    cases v with
    | rangeRef range => exact within_getResultFromCell hE (hv _ (covers_first range))
    | singleRef a => exact within_getResultFromCell hE hv
    | _ => trivial

end Result

theorem results_readsPolicy (env : Interpreter) : (readsPolicy P).Results env := by
  intro stack h
  rw [popResult]
  split
  · exact nofun
  · exact within_topResult (fun _ ↦ nofun) nofun h

end Interpreter

/-- The interpreter reads what formulas refer to. -/
theorem formulaInterpreter_readsReferences (lib : NumberLib)
    {call : Workbook → AbsAddress → FormulaFunction → StackM Unit} (wb : Workbook)
    (hcall : ∀ pos, ReadsArguments (call wb pos)) :
    (formulaInterpreter lib call).ReadsReferences wb := by
  have hsound (cell : FormulaCell) (pos : AbsAddress) :
      (formulaInterpreter lib call wb cell pos).Sound (wb.References cell pos) := by
    refine Policy.ensures_interpret (p := readsPolicy (wb.References cell pos))
      (Interpreter.results_readsPolicy ⟨lib, wb, pos, call wb pos, false⟩)
      (fun tokens hexp ↦ ?_) fun e hexp ↦ ne_wait_of_expandedTokens hexp
    refine Interpreter.allows_readsPolicy (hcall pos) fun t ht a ha ↦ ?_
    rcases occurs_of_mem_expandedTokens hexp ht with rfl | rfl | hoccurs
    · exact ha.elim
    · exact ha.elim
    · exact ⟨t, hoccurs, ha⟩
  exact ⟨fun cell pos ↦ (hsound cell pos).asks, fun cell pos ↦ (hsound cell pos).throws⟩

end Ixion
