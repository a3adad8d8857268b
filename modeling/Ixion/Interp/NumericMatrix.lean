import Ixion.Interp.Functions

/-!
# Matrices as numbers

The elements of a matrix are stored column by column in blocks of one type.  For a matrix of
numbers, the blocks are walked through with a pointer to where the next number goes.  Blocks of
empty elements do not advance it, so that what follows them is moved to the front.
-/

namespace Ixion

/-! ## Blocks of elements -/

/-- A block of elements of one type; errors are kept as integers. -/
inductive ElementBlock where
  | empty (size : Nat)
  | numeric (values : List ℚ)
  | boolean (values : List Bool)
  | string (values : List Text)
  | integer (values : List FormulaError)

namespace ElementBlock

/-- The block of one element. -/
def single : MatrixElement → ElementBlock
  | .empty => .empty 1
  | .numeric v => .numeric [v]
  | .boolean b => .boolean [b]
  | .string s => .string [s]
  | .error e => .integer [e]

/-- The elements of a block. -/
def elements : ElementBlock → List MatrixElement
  | .empty size => List.replicate size .empty
  | .numeric values => values.map .numeric
  | .boolean values => values.map .boolean
  | .string values => values.map .string
  | .integer values => values.map .error

/-- Put an element in front of blocks: into the first one if that has its type. -/
def cons : MatrixElement → List ElementBlock → List ElementBlock
  | .empty, .empty size :: blocks => .empty (size + 1) :: blocks
  | .numeric v, .numeric values :: blocks => .numeric (v :: values) :: blocks
  | .boolean b, .boolean values :: blocks => .boolean (b :: values) :: blocks
  | .string s, .string values :: blocks => .string (s :: values) :: blocks
  | .error e, .integer values :: blocks => .integer (e :: values) :: blocks
  | e, blocks => single e :: blocks

/-- The blocks that elements are stored in. -/
def ofElements (es : List MatrixElement) : List ElementBlock := es.foldr cons []

theorem elements_single (e : MatrixElement) : (single e).elements = [e] := by
  cases e <;> rfl

theorem flatMap_cons (e : MatrixElement) (blocks : List ElementBlock) :
    (cons e blocks).flatMap elements = e :: blocks.flatMap elements := by
  unfold cons
  split
  · simp only [List.flatMap_cons, elements, List.replicate_succ, List.cons_append]
  · simp only [List.flatMap_cons, elements, List.map_cons, List.cons_append]
  · simp only [List.flatMap_cons, elements, List.map_cons, List.cons_append]
  · simp only [List.flatMap_cons, elements, List.map_cons, List.cons_append]
  · simp only [List.flatMap_cons, elements, List.map_cons, List.cons_append]
  · rw [List.flatMap_cons, elements_single, List.singleton_append]

/-- Blocks have the elements that are stored in them. -/
theorem flatMap_ofElements (es : List MatrixElement) :
    (ofElements es).flatMap elements = es := by
  induction es with
  | nil => rfl
  | cons e es ih => rw [ofElements, List.foldr_cons, flatMap_cons, ← ofElements, ih]

end ElementBlock

/-- The elements of a matrix column by column. -/
def Matrix.array (m : Matrix) : List MatrixElement :=
  (List.range (m.rowSize * m.colSize)).map fun pos ↦
    (m.elements[pos % m.rowSize * m.colSize + pos / m.rowSize]?).getD .empty

/-! ## Numbers -/

/-- A matrix of numbers, where what is not a number is `none`. -/
structure NanMatrix where
  array : List (Option ℚ)
  rows : Nat
  cols : Nat

/-- The number at a position. -/
def NanMatrix.get (m : NanMatrix) (row col : Nat) : Option ℚ :=
  (m.array[m.rows * col + row]?).join

/-- The numbers so far, and where the next one goes. -/
structure NumericWriter where
  array : List (Option ℚ)
  dest : Nat

namespace NumericWriter

/-- Write numbers and go past them. -/
def write (w : NumericWriter) (numbers : List (Option ℚ)) : NumericWriter where
  array := w.array.take w.dest ++ (numbers ++ w.array.drop (w.dest + numbers.length))
  dest := w.dest + numbers.length

/-- Go past numbers. -/
def advance (w : NumericWriter) (size : Nat) : NumericWriter := { w with dest := w.dest + size }

/-- What `as_numeric` does with a block. -/
def block (w : NumericWriter) : ElementBlock → NumericWriter
  -- string and error values are handled as 0, or so the comment says
  | .integer values => w.write (List.replicate values.length (some 0))
  | .boolean values => w.write (values.map fun b ↦ some (boolToNumber b))
  | .numeric values => w.write (values.map some)
  | .string values => w.advance values.length
  | .empty _ => w

end NumericWriter

/-- The numbers of a matrix. -/
def Matrix.asNumeric (m : Matrix) : NanMatrix where
  array :=
    ((ElementBlock.ofElements m.array).foldl NumericWriter.block
      ⟨List.replicate (m.rowSize * m.colSize) none, 0⟩).array
  rows := m.rowSize
  cols := m.colSize

/-- The number that an element is converted to. -/
def MatrixElement.number : MatrixElement → Option ℚ
  | .numeric v => some v
  | .boolean b => some (boolToNumber b)
  | .error _ => some 0
  | .string _ | .empty => none

/-- The elements that are not empty. -/
def nonEmpty (es : List MatrixElement) : List MatrixElement := es.filter (· ≠ .empty)

/-! ## Walking through the blocks -/

namespace NumericWriter

/-- Elements have been converted to the first ones of a number of elements: those that are not
empty, one after the other. -/
structure Converted (w : NumericWriter) (es : List MatrixElement) (size : Nat) : Prop where
  dest : w.dest = (nonEmpty es).length
  array : w.array = (nonEmpty es).map MatrixElement.number ++
    List.replicate (size - (nonEmpty es).length) none

variable {w : NumericWriter} {es : List MatrixElement} {size : Nat}

theorem nonEmpty_append (es es' : List MatrixElement) :
    nonEmpty (es ++ es') = nonEmpty es ++ nonEmpty es' := List.filter_append ..

theorem length_nonEmpty_le (es : List MatrixElement) : (nonEmpty es).length ≤ es.length :=
  List.length_filter_le ..

theorem nonEmpty_eq_self (h : ∀ e ∈ es, e ≠ .empty) : nonEmpty es = es :=
  List.filter_eq_self.mpr fun e he ↦ decide_eq_true (h e he)

/-- Writing the numbers of a block of elements none of which is empty converts them. -/
theorem Converted.write (h : w.Converted es size) (es' : List MatrixElement)
    (hblock : ∀ e ∈ es', e ≠ .empty) :
    (w.write (es'.map MatrixElement.number)).Converted (es ++ es') size := by
  obtain ⟨hdest, harray⟩ := h
  have hlength : ((nonEmpty es).map MatrixElement.number).length = w.dest := by
    rw [List.length_map, hdest]
  refine ⟨?_, ?_⟩
  · rw [nonEmpty_append, nonEmpty_eq_self hblock, List.length_append, ← hdest, NumericWriter.write,
      List.length_map]
  · rw [nonEmpty_append, nonEmpty_eq_self hblock, List.map_append, List.length_append, ← hdest,
      NumericWriter.write, harray, ← hdest]
    dsimp only
    rw [List.take_left' hlength, List.drop_append, hlength,
      List.drop_eq_nil_of_le (by rw [hlength]; exact Nat.le_add_right ..), List.nil_append,
      Nat.add_sub_cancel_left, List.drop_replicate, List.length_map, List.append_assoc,
      Nat.sub_sub]

/-- Going past as many numbers as a block has strings converts them. -/
theorem Converted.advance (h : w.Converted es size) {strings : List Text}
    (hsize : (es ++ strings.map MatrixElement.string).length ≤ size) :
    (w.advance strings.length).Converted (es ++ strings.map .string) size := by
  obtain ⟨hdest, harray⟩ := h
  have hblock : ∀ e ∈ strings.map MatrixElement.string, e ≠ .empty := by
    intro e he
    obtain ⟨s, -, rfl⟩ := List.mem_map.mp he
    exact nofun
  have hnumber : (strings.map MatrixElement.string).map MatrixElement.number =
      List.replicate strings.length none := by
    rw [List.map_map, List.eq_replicate_iff]
    refine ⟨List.length_map .., fun x hx ↦ ?_⟩
    obtain ⟨s, -, rfl⟩ := List.mem_map.mp hx
    rfl
  rw [List.length_append, List.length_map] at hsize
  have hle := length_nonEmpty_le es
  refine ⟨?_, ?_⟩
  · rw [nonEmpty_append, nonEmpty_eq_self hblock, List.length_append, List.length_map, ← hdest]
    rfl
  · rw [nonEmpty_append, nonEmpty_eq_self hblock, List.map_append, hnumber, List.length_append,
      List.length_map, List.append_assoc, ← List.replicate_add,
      show strings.length + (size - ((nonEmpty es).length + strings.length)) =
        size - (nonEmpty es).length by omega]
    exact harray

/-- A block is converted after those before it. -/
theorem Converted.block (h : w.Converted es size) (b : ElementBlock)
    (hsize : (es ++ b.elements).length ≤ size) : (w.block b).Converted (es ++ b.elements) size := by
  cases b with
  | empty n =>
    have hempty : nonEmpty (List.replicate n .empty) = [] :=
      List.filter_eq_nil_iff.mpr fun e he ↦ by simp [List.eq_of_mem_replicate he]
    obtain ⟨hdest, harray⟩ := h
    refine ⟨?_, ?_⟩ <;>
      rw [ElementBlock.elements, nonEmpty_append, hempty, List.append_nil]
    · exact hdest
    · exact harray
  | string values => exact h.advance hsize
  | numeric values =>
    have hwrite := h.write (values.map .numeric) fun e he ↦ by
      obtain ⟨v, -, rfl⟩ := List.mem_map.mp he
      exact nofun
    rwa [List.map_map] at hwrite
  | boolean values =>
    have hwrite := h.write (values.map .boolean) fun e he ↦ by
      obtain ⟨b, -, rfl⟩ := List.mem_map.mp he
      exact nofun
    rwa [List.map_map] at hwrite
  | integer values =>
    have hwrite := h.write (values.map .error) fun e he ↦ by
      obtain ⟨b, -, rfl⟩ := List.mem_map.mp he
      exact nofun
    have hzero : (values.map MatrixElement.error).map MatrixElement.number =
        List.replicate values.length (some 0) := by
      rw [List.map_map]
      exact List.map_const' ..
    rwa [hzero] at hwrite

/-- All blocks are converted, one after the other. -/
theorem Converted.foldl (h : w.Converted es size) (blocks : List ElementBlock)
    (hsize : (es ++ blocks.flatMap ElementBlock.elements).length ≤ size) :
    (blocks.foldl NumericWriter.block w).Converted
      (es ++ blocks.flatMap ElementBlock.elements) size := by
  induction blocks generalizing w es with
  | nil =>
    rw [List.flatMap_nil, List.append_nil]
    exact h
  | cons b bs ih =>
    rw [List.flatMap_cons, ← List.append_assoc] at hsize ⊢
    refine ih (h.block b ?_) hsize
    rw [List.length_append] at hsize
    omega

end NumericWriter

/-! ## Positions -/

/-- The number that is held as a number or a boolean. -/
def MatrixElement.held : MatrixElement → Option ℚ
  | .numeric v => some v
  | .boolean b => some (boolToNumber b)
  | .error _ | .string _ | .empty => none

/-- The numbers of a matrix have its size, and its numbers and booleans where these are. -/
structure Matrix.KeepsPositions (m : Matrix) : Prop where
  rows : m.asNumeric.rows = m.rowSize
  cols : m.asNumeric.cols = m.colSize
  length_array : m.asNumeric.array.length = m.rowSize * m.colSize
  get : ∀ row < m.rowSize, ∀ col < m.colSize, ∀ v, (m.get row col).held = some v →
    m.asNumeric.get row col = some v

/-- Without the empty elements, there is still the same number where a number or boolean is. -/
def InPlace (es : List MatrixElement) : Prop :=
  ∀ (pos : ℕ) (v : ℚ), es[pos]?.bind MatrixElement.held = some v →
    (nonEmpty es)[pos]?.bind MatrixElement.number = some v

namespace Matrix

variable (m : Matrix)

theorem length_array : m.array.length = m.rowSize * m.colSize := by
  rw [array, List.length_map, List.length_range]

/-- The numbers are those of the elements that are not empty, one after the other. -/
theorem array_asNumeric :
    m.asNumeric.array = (nonEmpty m.array).map MatrixElement.number ++
      List.replicate (m.rowSize * m.colSize - (nonEmpty m.array).length) none := by
  have hstart : (⟨List.replicate (m.rowSize * m.colSize) none, 0⟩ : NumericWriter).Converted []
      (m.rowSize * m.colSize) := ⟨rfl, rfl⟩
  have hend := hstart.foldl (ElementBlock.ofElements m.array) (by
    rw [List.nil_append, ElementBlock.flatMap_ofElements, length_array])
  rw [List.nil_append, ElementBlock.flatMap_ofElements] at hend
  exact hend.array

theorem getElem?_asNumeric (pos : Nat) :
    (m.asNumeric.array[pos]?).join = (nonEmpty m.array)[pos]?.bind MatrixElement.number := by
  rw [array_asNumeric, List.getElem?_append, List.length_map]
  split
  case isTrue h =>
    rw [List.getElem?_map, List.getElem?_eq_getElem h]
    rfl
  case isFalse h =>
    rw [List.getElem?_eq_none (not_lt.mp h), List.getElem?_replicate]
    split <;> rfl

/-- The array has the element of a row and a column. -/
theorem getElem?_array {row col : Nat} (hrow : row < m.rowSize) (hcol : col < m.colSize) :
    m.array[m.rowSize * col + row]? =
      some ((m.elements[row * m.colSize + col]?).getD .empty) := by
  have hpos : m.rowSize * col + row < m.rowSize * m.colSize := by
    calc m.rowSize * col + row < m.rowSize * col + m.rowSize := Nat.add_lt_add_left hrow _
      _ = m.rowSize * (col + 1) := (Nat.mul_succ ..).symm
      _ ≤ m.rowSize * m.colSize := Nat.mul_le_mul_left _ hcol
  have hmod : (m.rowSize * col + row) % m.rowSize = row := by
    rw [Nat.mul_add_mod, Nat.mod_eq_of_lt hrow]
  have hdiv : (m.rowSize * col + row) / m.rowSize = col := by
    rw [Nat.mul_add_div (Nat.zero_lt_of_lt hrow), Nat.div_eq_of_lt hrow, Nat.add_zero]
  rw [array, List.getElem?_map, List.getElem?_range hpos, Option.map_some, hmod, hdiv]

/-- What is held at a position is held in its place in the array. -/
theorem held_get {row col : Nat} (hrow : row < m.rowSize) (hcol : col < m.colSize) :
    (m.get row col).held = m.array[m.rowSize * col + row]?.bind MatrixElement.held := by
  have hread : ∀ e, (readElement e).held = e.held := by
    intro e
    unfold readElement
    split <;> rfl
  rw [get, hread, getElem?_array m hrow hcol]
  rfl

/-- The array has elements of the matrix. -/
theorem mem_elements_of_mem_array {e : MatrixElement} (h : e ∈ m.array) : e ∈ m.elements := by
  obtain ⟨pos, hpos, rfl⟩ := List.mem_map.mp h
  have hlt : pos < m.rowSize * m.colSize := List.mem_range.mp hpos
  have hrow : pos % m.rowSize < m.rowSize :=
    Nat.mod_lt _ (Nat.pos_of_mul_pos_right (Nat.zero_lt_of_lt hlt))
  have hcol : pos / m.rowSize < m.colSize := Nat.div_lt_of_lt_mul hlt
  have hindex : pos % m.rowSize * m.colSize + pos / m.rowSize < m.elements.length := by
    rw [m.length_elements]
    calc pos % m.rowSize * m.colSize + pos / m.rowSize
        < pos % m.rowSize * m.colSize + m.colSize := Nat.add_lt_add_left hcol _
      _ = (pos % m.rowSize + 1) * m.colSize := (Nat.succ_mul ..).symm
      _ ≤ m.rowSize * m.colSize := Nat.mul_le_mul_right _ hrow
  rw [List.getElem?_eq_getElem hindex]
  exact List.getElem_mem hindex

/-- Numbers keep their positions exactly when they are in place without the empty elements. -/
theorem keepsPositions_iff : m.KeepsPositions ↔ InPlace m.array := by
  constructor
  · intro h pos v hv
    obtain ⟨e, he, hheld⟩ := Option.bind_eq_some_iff.mp hv
    have hpos : pos < m.rowSize * m.colSize := by
      rw [← length_array]
      exact (List.getElem?_eq_some_iff.mp he).1
    have hrows : 0 < m.rowSize := Nat.pos_of_mul_pos_right (Nat.zero_lt_of_lt hpos)
    have hrow : pos % m.rowSize < m.rowSize := Nat.mod_lt _ hrows
    have hcol : pos / m.rowSize < m.colSize := Nat.div_lt_of_lt_mul hpos
    have hget := h.get _ hrow _ hcol v (by rw [held_get m hrow hcol, Nat.div_add_mod, hv])
    rwa [NanMatrix.get, h.rows, Nat.div_add_mod, getElem?_asNumeric] at hget
  · intro h
    refine ⟨rfl, rfl, ?_, ?_⟩
    · have hle := NumericWriter.length_nonEmpty_le m.array
      rw [length_array] at hle
      rw [array_asNumeric, List.length_append, List.length_map, List.length_replicate]
      omega
    · intro row hrow col hcol v hv
      rw [held_get m hrow hcol] at hv
      exact (m.getElem?_asNumeric _).trans (h _ v hv)

/-- A matrix of one column with an empty element above the number 1. -/
def emptyAbove : Matrix := ⟨2, 1, [.empty, .numeric 1], rfl⟩

/-- The number is moved up. -/
theorem not_keepsPositions : ¬ ∀ m : Matrix, m.KeepsPositions := by
  intro h
  have hget := (h emptyAbove).get 1 (by decide) 0 (by decide) 1 rfl
  exact absurd hget (by decide)

/-- In a matrix of numbers only, every element is converted in its place. -/
theorem get_asNumeric_of_isNumericMatrix (h : FormulaFunctions.isNumericMatrix m = true)
    {row col : Nat} (hrow : row < m.rowSize) (hcol : col < m.colSize) :
    m.asNumeric.get row col = some (FormulaFunctions.asNumeric (m.get row col)) := by
  have hall := List.all_eq_true.mp h
  have hempty : nonEmpty m.array = m.array := by
    refine NumericWriter.nonEmpty_eq_self fun e he hnil ↦ ?_
    exact absurd (hall e (m.mem_elements_of_mem_array he)) (by rw [hnil]; exact nofun)
  have hget := m.getElem?_array hrow hcol
  have hmem := m.mem_elements_of_mem_array (List.mem_of_getElem? hget)
  have hnumeric := hall _ hmem
  rw [NanMatrix.get, show m.asNumeric.rows = m.rowSize from rfl, getElem?_asNumeric, hempty, hget,
    get]
  generalize (m.elements[row * m.colSize + col]?).getD .empty = e at hnumeric
  cases e with
  | numeric v => rfl
  | boolean b => rfl
  | error e => cases e <;> rfl
  | string s => exact absurd hnumeric nofun
  | empty => exact absurd hnumeric nofun

end Matrix

end Ixion
