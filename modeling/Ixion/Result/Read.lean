import Ixion.Interp.Operator

/-!
# Reading the results of formula cells

The cells of a group share one result, which as a rule is a matrix with an element for
each of them.  A cell that belongs to no group has the group position `(-1, -1)`.

Three functions read a result: as a number, as a string, and as the result of the single
cell.  Each of them looks up the element of a matrix on its own account.  Here is where
they look inside the matrix (`ReadsInside`), and when they agree on what the result is
(`readersAgree_iff`).
-/

namespace Ixion

open Lib

/-! ## Elements of a matrix -/

namespace Matrix

/-- Replace the element at a position, counted down the columns. -/
def set? (m : Matrix) (row col : Nat) (e : MatrixElement) : Except Exn Matrix :=
  if m.rowSize * col + row < m.rowSize * m.colSize then
    .ok (m.set ((m.rowSize * col + row) % m.rowSize) ((m.rowSize * col + row) / m.rowSize) e)
  else .error .outOfRange

/-- A position lies inside the matrix. -/
def Inside (m : Matrix) (row col : Int) : Prop :=
  (0 ≤ row ∧ row < m.rowSize) ∧ 0 ≤ col ∧ col < m.colSize

theorem inside_iff {m : Matrix} {row col : Int} : m.Inside row col ↔
    ∃ i j : Nat, row = i ∧ col = j ∧ i < m.rowSize ∧ j < m.colSize := by
  constructor
  · rintro ⟨⟨hrow, hrow'⟩, hcol, hcol'⟩
    obtain ⟨i, rfl⟩ := Int.eq_ofNat_of_zero_le hrow
    obtain ⟨j, rfl⟩ := Int.eq_ofNat_of_zero_le hcol
    exact ⟨i, j, rfl, rfl, Int.ofNat_lt.mp hrow', Int.ofNat_lt.mp hcol'⟩
  · rintro ⟨i, j, rfl, rfl, hi, hj⟩
    exact ⟨⟨Int.natCast_nonneg i, Int.ofNat_lt.mpr hi⟩, Int.natCast_nonneg j, Int.ofNat_lt.mpr hj⟩

theorem linear_lt {m : Matrix} {i j : Nat} (hi : i < m.rowSize) (hj : j < m.colSize) :
    m.rowSize * j + i < m.rowSize * m.colSize :=
  calc m.rowSize * j + i < m.rowSize * j + m.rowSize := Nat.add_lt_add_left hi _
    _ = m.rowSize * (j + 1) := (Nat.mul_succ _ _).symm
    _ ≤ m.rowSize * m.colSize := Nat.mul_le_mul_left _ hj

theorem get?_of_lt {m : Matrix} {i j : Nat} (hi : i < m.rowSize) (hj : j < m.colSize) :
    m.get? i j = .ok (m.get i j) := by
  rw [get?, if_pos (linear_lt hi hj), Nat.mul_add_mod, Nat.mod_eq_of_lt hi,
    Nat.mul_add_div (Nat.zero_lt_of_lt hi), Nat.div_eq_of_lt hi, Nat.add_zero]

theorem set?_of_lt {m : Matrix} {i j : Nat} (hi : i < m.rowSize) (hj : j < m.colSize)
    (e : MatrixElement) : m.set? i j e = .ok (m.set i j e) := by
  rw [set?, if_pos (linear_lt hi hj), Nat.mul_add_mod, Nat.mod_eq_of_lt hi,
    Nat.mul_add_div (Nat.zero_lt_of_lt hi), Nat.div_eq_of_lt hi, Nat.add_zero]

theorem get_set_self {m : Matrix} {i j : Nat} (hi : i < m.rowSize) (hj : j < m.colSize)
    (e : MatrixElement) : (m.set i j e).get i j = readElement e := by
  show readElement (((m.elements.set (i * m.colSize + j) e)[i * m.colSize + j]?).getD .empty) = _
  rw [List.getElem?_set_self (index_lt hi hj), Option.getD_some]

theorem get_set_of_ne {m : Matrix} {i j i' j' : Nat} (hj : j < m.colSize) (hj' : j' < m.colSize)
    (hne : ¬ (i = i' ∧ j = j')) (e : MatrixElement) :
    (m.set i j e).get i' j' = m.get i' j' := by
  have hindex : i * m.colSize + j ≠ i' * m.colSize + j' := by
    intro heq
    have hpos : 0 < m.colSize := Nat.zero_lt_of_lt hj
    have hdiv := congrArg (· / m.colSize) heq
    have hmod := congrArg (· % m.colSize) heq
    simp only [Nat.mul_comm _ m.colSize, Nat.mul_add_div hpos, Nat.mul_add_mod,
      Nat.div_eq_of_lt hj, Nat.div_eq_of_lt hj', Nat.mod_eq_of_lt hj, Nat.mod_eq_of_lt hj',
      Nat.add_zero] at hdiv hmod
    exact hne ⟨hdiv, hmod⟩
  show readElement (((m.elements.set (i * m.colSize + j) e)[i' * m.colSize + j']?).getD .empty) = _
  rw [List.getElem?_set_ne hindex]
  rfl

theorem get_new (rows cols i j : Nat) : (new rows cols).get i j = .empty := by
  show readElement (((List.replicate (rows * cols) MatrixElement.empty)[_]?).getD .empty) = _
  rw [List.getElem?_replicate]
  split <;> rfl

end Matrix

/-! ## Where the readers look -/

/-- A computation that looks up elements of a matrix by row and column. -/
abbrev ElementReader (α : Type) : Type := Query (fun _ : Int × Int ↦ MatrixElement) Exn α

/-- Look up the element at a group position, unless it is too large. -/
def lookUpElement (m : Matrix) (row column : Int) : ElementReader MatrixElement :=
  if row ≥ m.rowSize ∨ column ≥ m.colSize then .throw (.formulaError .invalidValueType)
  else Query.query (row, column)

/-- How a result is read as a number. -/
def readValue (row column : Int) : FormulaResult → ElementReader ℚ
  | .error e => .throw (.formulaError e)
  | .boolean b => return boolToNumber b
  | .value v => return v
  | .matrix m => do
    match ← lookUpElement m row column with
    | .numeric v => return v
    | .empty => return 0
    | .boolean b => return boolToNumber b
    | .string _ | .error _ => .throw (.formulaError .invalidValueType)
  | .string _ => .throw (.formulaError .invalidValueType)

/-- How a result is read as a string. -/
def readString (row column : Int) : FormulaResult → ElementReader Text
  | .error e => .throw (.formulaError e)
  | .string s => return s
  | .matrix m => do
    match ← lookUpElement m row column with
    | .string s => return s
    | _ => .throw (.formulaError .invalidValueType)
  | .boolean _ | .value _ => .throw (.formulaError .invalidValueType)

/-- How a result is read as the result of a single cell. -/
def readSingleResult (row column : Int) (src : FormulaResult) : ElementReader FormulaResult :=
  if isGroupPos row column then
    match src with
    | .matrix m =>
      if row ≥ m.rowSize ∨ column ≥ m.colSize then return .error .invalidValueType
      else do
        match ← (Query.query (row, column) : ElementReader MatrixElement) with
        | .numeric v => return .value v
        | .string s => return .string s
        | .error e => return .error e
        | .empty => return .new
        | .boolean b => return .value (boolToNumber b)
    | _ => return src
  else return src

/-- The answer to a look-up: negative positions are past the end. -/
def Matrix.lookUp (m : Matrix) (p : Int × Int) : Except Exn MatrixElement :=
  if p.1 < 0 ∨ p.2 < 0 then .error .outOfRange else m.get? p.1.toNat p.2.toNat

theorem run_lookUpElement (m : Matrix) (row column : Int) :
    (lookUpElement m row column).run m.lookUp = groupElement m row column := by
  rw [lookUpElement, groupElement]
  split
  · rfl
  · rw [Query.run_query]
    rfl

/-- The look-ups in a result that is a matrix. -/
def FormulaResult.lookUp : FormulaResult → Int × Int → Except Exn MatrixElement
  | .matrix m => m.lookUp
  | _ => fun _ ↦ .error .outOfRange

theorem run_readValue (row column : Int) (r : FormulaResult) :
    (readValue row column r).run r.lookUp = fetchValueFromResult row column r := by
  cases r with
  | matrix m =>
    rw [readValue, fetchValueFromResult, ← run_lookUpElement, Query.run_bind]
    refine bind_congr fun e ↦ ?_
    cases e <;> rfl
  | _ => rfl

theorem run_readString (row column : Int) (r : FormulaResult) :
    (readString row column r).run r.lookUp = fetchStringFromResult row column r := by
  cases r with
  | matrix m =>
    rw [readString, fetchStringFromResult, ← run_lookUpElement, Query.run_bind]
    refine bind_congr fun e ↦ ?_
    cases e <;> rfl
  | _ => rfl

theorem run_readSingleResult (row column : Int) (r : FormulaResult) :
    (readSingleResult row column r).run r.lookUp = getSingleFormulaResult row column r := by
  unfold readSingleResult getSingleFormulaResult
  split
  case isFalse => rfl
  case isTrue hgroup =>
    cases r with
    | matrix m =>
      simp only
      split
      · rfl
      · have hpos : 0 ≤ column ∧ 0 ≤ row := of_decide_eq_true hgroup
        have hlook : m.lookUp (row, column) = m.get? row.toNat column.toNat :=
          if_neg (not_or.mpr ⟨not_lt.mpr hpos.2, not_lt.mpr hpos.1⟩)
        rw [← hlook, Query.run_bind, Query.run_query]
        refine bind_congr fun e ↦ ?_
        cases e <;> rfl
    | _ => rfl

/-- A result is read inside its matrix, and a position outside the matrix makes the error
`invalid_value_type`. -/
structure ReadsInside (row column : Int) (r : FormulaResult) : Prop where
  value : ∀ m, r = .matrix m → (readValue row column r).Asks fun p ↦ m.Inside p.1 p.2
  string : ∀ m, r = .matrix m → (readString row column r).Asks fun p ↦ m.Inside p.1 p.2
  single : ∀ m, r = .matrix m → (readSingleResult row column r).Asks fun p ↦ m.Inside p.1 p.2
  outside : ∀ m, r = .matrix m → ¬ m.Inside row column →
    fetchValueFromResult row column r = .error (.formulaError .invalidValueType) ∧
      fetchStringFromResult row column r = .error (.formulaError .invalidValueType) ∧
      (isGroupPos row column = true →
        getSingleFormulaResult row column r = .ok (.error .invalidValueType))

/-- A look-up asks for the group position, unless it is too large. -/
theorem asks_lookUpElement_iff {α : Type} {P : Int × Int → Prop} {m : Matrix} {row column : Int}
    {k : MatrixElement → ElementReader α} (hk : ∀ e, (k e).Asks P) :
    (lookUpElement m row column >>= k).Asks P ↔
      (row < m.rowSize → column < m.colSize → P (row, column)) := by
  rw [lookUpElement]
  split
  case isTrue hout =>
    refine iff_of_true trivial fun hrow hcol ↦ ?_
    exact absurd hout (not_or.mpr ⟨not_le.mpr hrow, not_le.mpr hcol⟩)
  case isFalse hin =>
    obtain ⟨hrow, hcol⟩ := not_or.mp hin
    exact ⟨fun h _ _ ↦ h.1, fun h ↦ ⟨h (not_le.mp hrow) (not_le.mp hcol), hk⟩⟩

theorem asks_readValue_iff {P : Int × Int → Prop} {m : Matrix} {row column : Int} :
    (readValue row column (.matrix m)).Asks P ↔
      (row < m.rowSize → column < m.colSize → P (row, column)) :=
  asks_lookUpElement_iff fun e ↦ by cases e <;> trivial

theorem asks_readString_iff {P : Int × Int → Prop} {m : Matrix} {row column : Int} :
    (readString row column (.matrix m)).Asks P ↔
      (row < m.rowSize → column < m.colSize → P (row, column)) :=
  asks_lookUpElement_iff fun e ↦ by cases e <;> trivial

theorem asks_readSingleResult {m : Matrix} {row column : Int} :
    (readSingleResult row column (.matrix m)).Asks fun p ↦ m.Inside p.1 p.2 := by
  unfold readSingleResult
  split
  case isFalse => trivial
  case isTrue hgroup =>
    obtain ⟨hcol, hrow⟩ : 0 ≤ column ∧ 0 ≤ row := of_decide_eq_true hgroup
    simp only
    split
    · trivial
    · rename_i hin
      obtain ⟨hrow', hcol'⟩ := not_or.mp hin
      exact ⟨⟨⟨hrow, not_le.mp hrow'⟩, hcol, not_le.mp hcol'⟩, fun e ↦ by cases e <;> trivial⟩

theorem groupElement_of_not_lt {m : Matrix} {row column : Int}
    (h : ¬ (row < m.rowSize ∧ column < m.colSize)) :
    groupElement m row column = .error (.formulaError .invalidValueType) :=
  if_pos ((not_and_or.mp h).imp not_lt.mp not_lt.mp)

theorem getSingleFormulaResult_of_not_lt {m : Matrix} {row column : Int}
    (hgroup : isGroupPos row column = true) (h : ¬ (row < m.rowSize ∧ column < m.colSize)) :
    getSingleFormulaResult row column (.matrix m) = .ok (.error .invalidValueType) := by
  rw [getSingleFormulaResult, if_pos hgroup]
  exact if_pos ((not_and_or.mp h).imp not_lt.mp not_lt.mp)

/-- For a cell of a group, and for a result that is no matrix, the readers stay inside. -/
theorem readsInside_of_isGroupPos {row column : Int} {r : FormulaResult}
    (h : isGroupPos row column = true ∨ ∀ m, r ≠ .matrix m) : ReadsInside row column r := by
  rcases h with hgroup | hno
  · have hpos : 0 ≤ column ∧ 0 ≤ row := of_decide_eq_true hgroup
    have hinside {m : Matrix} (hrow : row < m.rowSize) (hcol : column < m.colSize) :
        m.Inside row column := ⟨⟨hpos.2, hrow⟩, hpos.1, hcol⟩
    constructor
    · rintro m rfl
      exact asks_readValue_iff.mpr hinside
    · rintro m rfl
      exact asks_readString_iff.mpr hinside
    · rintro m rfl
      exact asks_readSingleResult
    · rintro m rfl hout
      have hnot : ¬ (row < m.rowSize ∧ column < m.colSize) := fun h ↦ hout (hinside h.1 h.2)
      have helem := groupElement_of_not_lt hnot
      refine ⟨?_, ?_, fun _ ↦ ?_⟩
      · rw [fetchValueFromResult, helem]
        rfl
      · rw [fetchStringFromResult, helem]
        rfl
      · exact getSingleFormulaResult_of_not_lt hgroup hnot
  · exact ⟨fun m hm ↦ absurd hm (hno m), fun m hm ↦ absurd hm (hno m),
      fun m hm ↦ absurd hm (hno m), fun m hm ↦ absurd hm (hno m)⟩

/-- The position of a cell that belongs to no group is looked up outside every matrix. -/
theorem not_readsInside_of_matrix (m : Matrix) : ¬ ReadsInside (-1) (-1) (.matrix m) := by
  intro h
  have hrow : (-1 : Int) < m.rowSize := neg_one_lt_zero.trans_le (Int.natCast_nonneg _)
  have hcol : (-1 : Int) < m.colSize := neg_one_lt_zero.trans_le (Int.natCast_nonneg _)
  have hin := asks_readValue_iff.mp (h.value m rfl) hrow hcol
  exact absurd hin.1.1 (not_le.mpr neg_one_lt_zero)

/-! ## When the readers agree -/

/-- What an element of a matrix is as the result of a cell. -/
def elementResult : MatrixElement → FormulaResult
  | .numeric v => .value v
  | .string s => .string s
  | .error e => .error e
  | .empty => .new
  | .boolean b => .value (boolToNumber b)

theorem groupElement_natCast {m : Matrix} {i j : Nat} (hi : i < m.rowSize) (hj : j < m.colSize) :
    groupElement m i j = .ok (m.get i j) := by
  have hin : ¬ ((i : Int) ≥ m.rowSize ∨ (j : Int) ≥ m.colSize) :=
    not_or.mpr ⟨not_le.mpr (Int.ofNat_lt.mpr hi), not_le.mpr (Int.ofNat_lt.mpr hj)⟩
  have hnonneg : ¬ ((i : Int) < 0 ∨ (j : Int) < 0) :=
    not_or.mpr ⟨not_lt.mpr (Int.natCast_nonneg i), not_lt.mpr (Int.natCast_nonneg j)⟩
  rw [groupElement, if_neg hin, if_neg hnonneg, Int.toNat_natCast, Int.toNat_natCast,
    Matrix.get?_of_lt hi hj]

theorem getSingleFormulaResult_natCast {m : Matrix} {i j : Nat} (hi : i < m.rowSize)
    (hj : j < m.colSize) :
    getSingleFormulaResult i j (.matrix m) = .ok (elementResult (m.get i j)) := by
  have hgroup : isGroupPos i j = true :=
    decide_eq_true ⟨Int.natCast_nonneg j, Int.natCast_nonneg i⟩
  have hin : ¬ ((i : Int) ≥ m.rowSize ∨ (j : Int) ≥ m.colSize) :=
    not_or.mpr ⟨not_le.mpr (Int.ofNat_lt.mpr hi), not_le.mpr (Int.ofNat_lt.mpr hj)⟩
  rw [getSingleFormulaResult, if_pos hgroup]
  simp only [if_neg hin, Int.toNat_natCast, Matrix.get?_of_lt hi hj]
  cases m.get i j <;> rfl

/-- What the readers of a result make of it agrees. -/
structure ReadersAgree (row column : Int) (r : FormulaResult) : Prop where
  error : ∀ e, getSingleFormulaResult row column r = .ok (.error e) →
    fetchValueFromResult row column r = .error (.formulaError e) ∧
      fetchStringFromResult row column r = .error (.formulaError e)
  value : ∀ v, getSingleFormulaResult row column r = .ok (.value v) →
    fetchValueFromResult row column r = .ok v
  boolean : ∀ b, getSingleFormulaResult row column r = .ok (.boolean b) →
    fetchValueFromResult row column r = .ok (boolToNumber b)
  string : ∀ s, getSingleFormulaResult row column r = .ok (.string s) →
    fetchStringFromResult row column r = .ok s
  dependents : ∀ (ans : ∀ i : Question, Except Failure i.Answer) sheetSize addr stack e,
    ans (.cellValue addr) = .ok (.formula row column r) →
    getSingleFormulaResult row column r = .ok (.error e) →
    (ValueStack.popStackValue sheetSize (.singleRef addr :: stack)).run ans =
        .ok (some (.error e), stack) ∧
      (ValueStack.popValue (.singleRef addr :: stack)).run ans =
        .error (.exception (.formulaError e))

/-- An additive operator reads the result of the single cell. -/
theorem run_popStackValue_singleRef {ans : ∀ i : Question, Except Failure i.Answer}
    {sheetSize : RcSize} {addr : AbsAddress} {stack : ValueStack} {row column : Int}
    {r : FormulaResult} {e : FormulaError}
    (hans : ans (.cellValue addr) = .ok (.formula row column r))
    (he : getSingleFormulaResult row column r = .ok (.error e)) :
    (ValueStack.popStackValue sheetSize (.singleRef addr :: stack)).run ans =
      .ok (some (.error e), stack) := by
  show (Query.ask (Question.cellValue addr) _ : Reader (Option StackValue × ValueStack)).run ans = _
  rw [Query.run_ask, hans]
  show Query.run ans ((StateT.lift (Reader.ofExcept (getSingleFormulaResult row column r)) >>= _ :
    StackM (Option StackValue)) stack) = _
  rw [he]
  rfl

/-- A multiplicative operator reads the number of the cell. -/
theorem run_popValue_singleRef {ans : ∀ i : Question, Except Failure i.Answer}
    {addr : AbsAddress} {stack : ValueStack} {row column : Int} {r : FormulaResult}
    {e : FormulaError} (hans : ans (.cellValue addr) = .ok (.formula row column r))
    (he : fetchValueFromResult row column r = .error (.formulaError e)) :
    (ValueStack.popValue (.singleRef addr :: stack)).run ans =
      .error (.exception (.formulaError e)) := by
  show (Query.ask (Question.cellValue addr) _ : Reader (ℚ × ValueStack)).run ans = _
  rw [Query.run_ask, hans]
  show (((Reader.ofExcept (fetchValueFromResult row column r)).bind _).bind _).run ans = _
  rw [he]
  rfl

/-- The kinds of results that a cell can have: no matrix, a matrix and no group, or an
element of the matrix or none. -/
theorem reading_cases (row column : Int) (r : FormulaResult) :
    (getSingleFormulaResult row column r = .ok r ∧
      ((∀ m, r ≠ .matrix m) ∨ ∃ m, r = .matrix m)) ∨
    (∃ m, r = .matrix m ∧ getSingleFormulaResult row column r = .ok (.error .invalidValueType) ∧
      groupElement m row column = .error (.formulaError .invalidValueType)) ∨
    ∃ (m : Matrix) (i j : Nat), r = .matrix m ∧ row = i ∧ column = j ∧ i < m.rowSize ∧
      j < m.colSize := by
  cases hgroup : isGroupPos row column with
  | false =>
    have hsingle : getSingleFormulaResult row column r = .ok r := by
      unfold getSingleFormulaResult
      rw [hgroup]
      rfl
    cases r with
    | matrix m => exact .inl ⟨hsingle, .inr ⟨m, rfl⟩⟩
    | _ => exact .inl ⟨hsingle, .inl fun _ ↦ nofun⟩
  | true =>
    cases r with
    | matrix m =>
      refine .inr ?_
      by_cases hin : row < m.rowSize ∧ column < m.colSize
      · obtain ⟨hcol, hrow⟩ : 0 ≤ column ∧ 0 ≤ row := of_decide_eq_true hgroup
        obtain ⟨i, j, rfl, rfl, hi, hj⟩ := Matrix.inside_iff.mp ⟨⟨hrow, hin.1⟩, hcol, hin.2⟩
        exact .inr ⟨m, i, j, rfl, rfl, rfl, hi, hj⟩
      · exact .inl ⟨m, rfl, getSingleFormulaResult_of_not_lt hgroup hin, groupElement_of_not_lt hin⟩
    | _ =>
      refine .inl ⟨?_, .inl fun _ ↦ nofun⟩
      unfold getSingleFormulaResult
      rw [if_pos hgroup]

/-- The readers of a result agree exactly when the element that a cell of a group has in a
matrix is no error other than `invalid_value_type`. -/
theorem readersAgree_iff (row column : Int) (r : FormulaResult) : ReadersAgree row column r ↔
    ∀ m e, r = .matrix m → isGroupPos row column = true → m.Inside row column →
      m.get row.toNat column.toNat = .error e → e = .invalidValueType := by
  constructor
  · rintro h m e rfl _ hin hget
    obtain ⟨i, j, rfl, rfl, hi, hj⟩ := Matrix.inside_iff.mp hin
    rw [Int.toNat_natCast, Int.toNat_natCast] at hget
    have hsingle := getSingleFormulaResult_natCast hi hj
    rw [hget] at hsingle
    have hvalue := (h.error e hsingle).1
    rw [fetchValueFromResult, groupElement_natCast hi hj, hget] at hvalue
    cases hvalue
    rfl
  · intro h
    have herror : ∀ e, getSingleFormulaResult row column r = .ok (.error e) →
        fetchValueFromResult row column r = .error (.formulaError e) ∧
          fetchStringFromResult row column r = .error (.formulaError e) := by
      intro e he
      rcases reading_cases row column r with ⟨hr, _⟩ | ⟨m, rfl, hr, helem⟩ |
        ⟨m, i, j, rfl, rfl, rfl, hi, hj⟩
      · cases hr.symm.trans he
        exact ⟨rfl, rfl⟩
      · cases hr.symm.trans he
        rw [fetchValueFromResult, fetchStringFromResult, helem]
        exact ⟨rfl, rfl⟩
      · have hget := (getSingleFormulaResult_natCast hi hj).symm.trans he
        rw [fetchValueFromResult, fetchStringFromResult, groupElement_natCast hi hj]
        cases hm : m.get i j with
        | error e' =>
          rw [hm] at hget
          cases hget
          have hgroup : isGroupPos i j = true :=
            decide_eq_true ⟨Int.natCast_nonneg j, Int.natCast_nonneg i⟩
          obtain rfl := h m e rfl hgroup (Matrix.inside_iff.mpr ⟨i, j, rfl, rfl, hi, hj⟩) hm
          exact ⟨rfl, rfl⟩
        | _ => rw [hm] at hget; exact absurd hget nofun
    -- where the element is no error there is no difference to begin with
    have hcell {x : FormulaResult} (hx : getSingleFormulaResult row column r = .ok x) :
        r = x ∨ (∃ e, x = .error e) ∨ ∃ (m : Matrix) (i j : Nat), r = .matrix m ∧ row = i ∧
          column = j ∧ groupElement m i j = .ok (m.get i j) ∧ elementResult (m.get i j) = x := by
      rcases reading_cases row column r with ⟨hr, _⟩ | ⟨m, rfl, hr, _⟩ |
        ⟨m, i, j, rfl, rfl, rfl, hi, hj⟩
      · exact .inl (Except.ok.inj (hr.symm.trans hx))
      · exact .inr (.inl ⟨_, (Except.ok.inj (hr.symm.trans hx)).symm⟩)
      · exact .inr (.inr ⟨m, i, j, rfl, rfl, rfl, groupElement_natCast hi hj,
          Except.ok.inj ((getSingleFormulaResult_natCast hi hj).symm.trans hx)⟩)
    refine ⟨herror, fun v hv ↦ ?_, fun b hb ↦ ?_, fun s hs ↦ ?_,
      fun ans sheetSize addr stack e hans he ↦ ?_⟩
    · rcases hcell hv with rfl | ⟨e, he⟩ | ⟨m, i, j, rfl, rfl, rfl, helem, hget⟩
      · rfl
      · exact absurd he nofun
      · rw [fetchValueFromResult, helem]
        cases hm : m.get i j with
        | numeric w => rw [hm] at hget; cases hget; rfl
        | empty => rw [hm] at hget; cases hget; rfl
        | boolean b => rw [hm] at hget; cases hget; rfl
        | string s => rw [hm] at hget; exact absurd hget nofun
        | error e => rw [hm] at hget; exact absurd hget nofun
    · rcases hcell hb with rfl | ⟨e, he⟩ | ⟨m, i, j, rfl, rfl, rfl, _, hget⟩
      · rfl
      · exact absurd he nofun
      · cases hm : m.get i j <;> rw [hm] at hget <;> exact absurd hget nofun
    · rcases hcell hs with rfl | ⟨e, he⟩ | ⟨m, i, j, rfl, rfl, rfl, helem, hget⟩
      · rfl
      · exact absurd he nofun
      · rw [fetchStringFromResult, helem]
        cases hm : m.get i j with
        | string t => rw [hm] at hget; cases hget; rfl
        | _ => rw [hm] at hget; exact absurd hget nofun
    · exact ⟨run_popStackValue_singleRef hans he, run_popValue_singleRef hans (herror e he).1⟩

end Ixion
