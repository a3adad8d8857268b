import Ixion.Interp.Operator

/-!
# Numbers as operands of matrices

An operator of a term that is applied to a matrix and a number goes by other rules than one that is
applied to two matrices.  An element that is no number stays what it is beside a number, and beside
an element of another matrix it makes an error, or counts as zero where it is empty.  A number is
therefore not the same as a matrix of this number, unless there are no such elements
(`actsAsConstant_iff`).
-/

namespace Ixion

namespace Matrix

variable {m m' : Matrix} {row col : Nat}

/-- The matrix of a size that has one number everywhere. -/
def filled (rows cols : Nat) (s : ℚ) : Matrix :=
  ⟨rows, cols, List.replicate (rows * cols) (.numeric s), List.length_replicate⟩

/-- Two matrices have the same size and the same elements. -/
def Same (m m' : Matrix) : Prop :=
  m.rowSize = m'.rowSize ∧ m.colSize = m'.colSize ∧
    ∀ row < m.rowSize, ∀ col < m.colSize, m.get row col = m'.get row col

theorem readElement_readElement (e : MatrixElement) :
    readElement (readElement e) = readElement e := by
  cases e with
  | error e => cases e <;> rfl
  | _ => rfl

theorem readElement_get : readElement (m.get row col) = m.get row col := readElement_readElement _

/-- What an element is replaced by is a matter of what is read of it. -/
theorem get_map {f : MatrixElement → MatrixElement}
    (hf : ∀ e, readElement (f e) = readElement (f (readElement e))) (hrow : row < m.rowSize)
    (hcol : col < m.colSize) : (m.map f).get row col = readElement (f (m.get row col)) := by
  have hlt := index_lt hrow hcol
  show readElement (((m.elements.map f)[row * m.colSize + col]?).getD .empty) = _
  rw [List.getElem?_map, List.getElem?_eq_getElem hlt, Matrix.get, List.getElem?_eq_getElem hlt]
  exact hf _

/-- The elements at one position are combined. -/
theorem get_zipWith {f : MatrixElement → MatrixElement → MatrixElement}
    (hf : ∀ e e', readElement (f e e') = readElement (f (readElement e) (readElement e')))
    (hcols : m'.colSize = m.colSize) (hrow : row < m.rowSize) (hcol : col < m.colSize) :
    (m.zipWith f m').get row col = readElement (f (m.get row col) (m'.get row col)) := by
  have hlt := m.length_elements ▸ index_lt hrow hcol
  show readElement ((((List.range (m.rowSize * m.colSize)).map _)[row * m.colSize + col]?).getD
    .empty) = _
  rw [List.getElem?_map, List.getElem?_range hlt, Matrix.get, Matrix.get, hcols]
  exact hf _ _

theorem get_filled {rows cols : Nat} {s : ℚ} (hrow : row < rows) (hcol : col < cols) :
    (filled rows cols s).get row col = .numeric s := by
  have hlt : row * cols + col < rows * cols :=
    (filled rows cols s).length_elements ▸ index_lt (m := filled rows cols s) hrow hcol
  show readElement (((List.replicate (rows * cols) (.numeric s))[row * cols + col]?).getD .empty) =
    _
  rw [List.getElem?_replicate, if_pos hlt]
  rfl

end Matrix

open Ixion.Matrix

/-- An element to which an operator is applied alike beside a number and beside an element of a
matrix. -/
def MatrixElement.IsOperand : MatrixElement → Prop
  | .numeric _ | .boolean _ => True
  | .error e => e = .invalidValueType
  | .string _ | .empty => False

/-- A number on either side of an operator makes the same matrix as the matrix that has this number
everywhere. -/
def ActsAsConstant (lib : NumberLib) (op : TermOp) (m : Matrix) (s : ℚ) : Prop :=
  (∃ r r', opMatrixOrNumeric lib op (.matrix m) (.numeric s) = .ok (.matrix r) ∧
      opMatrixOrNumeric lib op (.matrix m) (.matrix (filled m.rowSize m.colSize s)) =
        .ok (.matrix r') ∧ r.Same r') ∧
    ∃ r r', opMatrixOrNumeric lib op (.numeric s) (.matrix m) = .ok (.matrix r) ∧
      opMatrixOrNumeric lib op (.matrix (filled m.rowSize m.colSize s)) (.matrix m) =
        .ok (.matrix r') ∧ r.Same r'

/-! ## One element -/

/-- An operator beside a number. -/
def besideNumber (op : ℚ → Except FormulaError MatrixElement) : MatrixElement → MatrixElement
  | .numeric v => elementOf (op v)
  | .boolean b => elementOf (op (boolToNumber b))
  | .string s => .string s
  | .error e => .error e
  | .empty => .empty

/-- An operator beside an element of a matrix. -/
def besideElement (op : ElementOp) (e e' : MatrixElement) : MatrixElement :=
  match elemToNumeric (readElement e), elemToNumeric (readElement e') with
  | some v, some w => elementOf (op v w)
  | _, _ => .error .invalidValueType

theorem besideNumber_readElement (op : ℚ → Except FormulaError MatrixElement) (e : MatrixElement) :
    readElement (besideNumber op e) = readElement (besideNumber op (readElement e)) := by
  cases e with
  | error e => cases e <;> rfl
  | _ => rfl

theorem besideElement_readElement (op : ElementOp) (e e' : MatrixElement) :
    besideElement op e e' = besideElement op (readElement e) (readElement e') := by
  rw [besideElement, besideElement, readElement_readElement, readElement_readElement]

variable {lib : NumberLib} {op : TermOp} {v w s : ℚ} {e : MatrixElement}

/-- What an operator makes of two numbers is a number, or it is the error that it fails with. -/
theorem elementOf_elementOp (lib : NumberLib) (op : TermOp) (v w : ℚ) :
    (∃ r, elementOf (op.elementOp lib v w) = .numeric r) ∨
      elementOf (op.elementOp lib v w) = .error .divisionByZero := by
  cases op with
  | multiply => exact .inl ⟨_, rfl⟩
  | exponent => exact .inl ⟨_, rfl⟩
  | divide =>
    by_cases hw : w = 0
    · refine .inr ?_
      rw [TermOp.elementOp, TermOp.apply, if_pos hw]
      rfl
    · refine .inl ⟨v / w, ?_⟩
      rw [TermOp.elementOp, TermOp.apply, if_neg hw]
      rfl

theorem readElement_elementOf (lib : NumberLib) (op : TermOp) (v w : ℚ) :
    readElement (elementOf (op.elementOp lib v w)) = elementOf (op.elementOp lib v w) := by
  obtain ⟨r, hr⟩ | hr := elementOf_elementOp lib op v w
  · rw [hr]
    rfl
  · rw [hr]
    rfl

/-- What an operator makes of two numbers is not empty. -/
theorem elementOf_elementOp_ne_empty (lib : NumberLib) (op : TermOp) (v w : ℚ) :
    elementOf (op.elementOp lib v w) ≠ .empty := by
  obtain ⟨r, hr⟩ | hr := elementOf_elementOp lib op v w
  · rw [hr]
    exact nofun
  · rw [hr]
    exact nofun

/-- A number is on either side of an operator. -/
def sided (left : Bool) (lib : NumberLib) (op : TermOp) (s : ℚ) :
    ℚ → Except FormulaError MatrixElement :=
  if left then op.elementOp lib s else (op.elementOp lib · s)

/-- An element is treated alike beside a number and beside an element with this number exactly if it
is an operand. -/
theorem besideNumber_eq_iff (left : Bool) (h : readElement e = e) :
    readElement (besideNumber (sided left lib op s) e) =
        readElement (match elemToNumeric e with
          | some v => elementOf (sided left lib op s v)
          | none => .error .invalidValueType) ↔ e.IsOperand := by
  cases e with
  | numeric v => exact iff_of_true rfl trivial
  | boolean b => exact iff_of_true rfl trivial
  | string t => exact iff_of_false nofun id
  | empty =>
    refine iff_of_false (fun heq ↦ ?_) id
    cases left with
    | false =>
      refine elementOf_elementOp_ne_empty lib op 0 s ?_
      rw [← readElement_elementOf]
      exact heq.symm
    | true =>
      refine elementOf_elementOp_ne_empty lib op s 0 ?_
      rw [← readElement_elementOf]
      exact heq.symm
  | error e =>
    show readElement (.error e) = .error .invalidValueType ↔ e = .invalidValueType
    rw [h, MatrixElement.error.injEq]

/-! ## Matrices -/

/-- What is made of the elements of a matrix is the same beside a number and beside the matrix that
has this number everywhere exactly if all of them are operands. -/
theorem same_iff (left : Bool) {r : Matrix} (hrows : r.rowSize = m.rowSize)
    (hcols : r.colSize = m.colSize)
    (hget : ∀ row < m.rowSize, ∀ col < m.colSize, r.get row col =
      readElement (match elemToNumeric (m.get row col) with
        | some v => elementOf (sided left lib op s v)
        | none => .error .invalidValueType)) :
    (operateAllElements (sided left lib op s) m).Same r ↔
      ∀ row < m.rowSize, ∀ col < m.colSize, (m.get row col).IsOperand := by
  have helement {row col : Nat} (hrow : row < m.rowSize) (hcol : col < m.colSize) :
      (operateAllElements (sided left lib op s) m).get row col = r.get row col ↔
        (m.get row col).IsOperand := by
    have hmap : (operateAllElements (sided left lib op s) m).get row col = _ :=
      get_map (f := besideNumber (sided left lib op s)) (besideNumber_readElement _) hrow hcol
    rw [hget row hrow col hcol, hmap]
    exact besideNumber_eq_iff left (readElement_readElement _)
  constructor
  · rintro ⟨-, -, h⟩ row hrow col hcol
    exact (helement hrow hcol).mp (h row hrow col hcol)
  · intro h
    exact ⟨hrows.symm, hcols.symm, fun row hrow col hcol ↦
      (helement hrow hcol).mpr (h row hrow col hcol)⟩

/-- A number acts as a matrix of this number exactly if every element of the other matrix is a
number, a Boolean value or the error that an operator makes of what is no number. -/
theorem actsAsConstant_iff (lib : NumberLib) (op : TermOp) (m : Matrix) (s : ℚ) :
    ActsAsConstant lib op m s ↔
      ∀ row < m.rowSize, ∀ col < m.colSize, (m.get row col).IsOperand := by
  have hright : opMatrixOrNumeric lib op (.matrix m) (.matrix (filled m.rowSize m.colSize s)) =
      .ok (.matrix (m.zipWith (besideElement (op.elementOp lib)) (filled m.rowSize m.colSize s))) :=
    if_neg (not_or.mpr ⟨not_not.mpr rfl, not_not.mpr rfl⟩)
  have hleft : opMatrixOrNumeric lib op (.matrix (filled m.rowSize m.colSize s)) (.matrix m) =
      .ok (.matrix ((filled m.rowSize m.colSize s).zipWith (besideElement (op.elementOp lib)) m)) :=
    if_neg (not_or.mpr ⟨not_not.mpr rfl, not_not.mpr rfl⟩)
  have hget (m₁ m₂ : Matrix) (hcols : m₂.colSize = m₁.colSize) {row col : Nat}
      (hrow : row < m₁.rowSize) (hcol : col < m₁.colSize) :
      (m₁.zipWith (besideElement (op.elementOp lib)) m₂).get row col =
        readElement (besideElement (op.elementOp lib) (m₁.get row col) (m₂.get row col)) :=
    get_zipWith (fun e e' ↦ congrArg readElement (besideElement_readElement _ e e')) hcols hrow hcol
  have hnumber : (operateAllElements (sided false lib op s) m).Same
      (m.zipWith (besideElement (op.elementOp lib)) (filled m.rowSize m.colSize s)) ↔
        ∀ row < m.rowSize, ∀ col < m.colSize, (m.get row col).IsOperand := by
    refine same_iff false rfl rfl fun row hrow col hcol ↦ ?_
    rw [hget m (filled m.rowSize m.colSize s) rfl hrow hcol, get_filled hrow hcol, besideElement,
      readElement_get]
    cases elemToNumeric (m.get row col) <;> rfl
  have hnumber' : (operateAllElements (sided true lib op s) m).Same
      ((filled m.rowSize m.colSize s).zipWith (besideElement (op.elementOp lib)) m) ↔
        ∀ row < m.rowSize, ∀ col < m.colSize, (m.get row col).IsOperand := by
    refine same_iff true rfl rfl fun row hrow col hcol ↦ ?_
    have hrow' : row < (filled m.rowSize m.colSize s).rowSize := hrow
    rw [hget (filled m.rowSize m.colSize s) m rfl hrow' hcol, get_filled hrow hcol, besideElement,
      readElement_get]
    cases elemToNumeric (m.get row col) <;> rfl
  constructor
  · rintro ⟨⟨r, r', hr, hr', h⟩, -⟩
    cases hr
    cases hright.symm.trans hr'
    exact hnumber.mp h
  · intro h
    exact ⟨⟨_, _, rfl, hright, hnumber.mpr h⟩, _, _, rfl, hleft, hnumber'.mpr h⟩

/-- A string stays a string beside a number, and beside a matrix it makes an error. -/
theorem not_actsAsConstant_string :
    ¬ActsAsConstant .natural .multiply ((Matrix.new 1 1).set 0 0 (.string [])) 2 := by
  rintro ⟨⟨r, r', hr, hr', -, -, h⟩, -⟩
  cases hr
  cases hr'
  exact nomatch h 0 (Nat.lt_succ_self 0) 0 (Nat.lt_succ_self 0)

end Ixion
