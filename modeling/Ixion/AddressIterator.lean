import Ixion.Column.Store
import Ixion.Lib.Carry

/-!
# Iterating over the addresses of a range

An iterator over a range holds an address of the range and a flag, which is set when it is
past the last address.  It goes up or down a column first (`vertical`) or along a row
(`horizontal`), with carries into the other direction and into the sheets; each step
forwards is undone by a step backwards (`iterates`).
-/

namespace Ixion

open Lib

/-- The direction in which the cells of a range are gone through. -/
inductive RcDirection where
  | horizontal
  | vertical
deriving DecidableEq, Repr

namespace AbsAddressIterator

/-- The state of an iterator. -/
structure ImplNode where
  pos : AbsAddress
  /-- The iterator is past the last valid address. -/
  endPos : Bool
deriving DecidableEq, Repr

/-- The ways in which a step does not return normally. -/
inductive StepFailure where
  /-- `std::out_of_range` -/
  | outOfRange (msg : String)
  /-- An assertion fails. -/
  | assertionFailed (expr : String)
deriving DecidableEq, Repr

/-- A step of an iterator. -/
abbrev Step : Type := EStateM StepFailure ImplNode Unit

/-- Check an assertion. -/
def assert (b : Bool) (expr : String) : Step :=
  if b then return () else throw (.assertionFailed expr)

/-! ## Steps -/

/-- The first address of the next sheet. -/
def incSheet (range : AbsRange) (pos : AbsAddress) : Option AbsAddress :=
  if pos.sheet < range.last.sheet then
    some ⟨pos.sheet + 1, range.first.row, range.first.column⟩
  else none

/-- The last address of the sheet before. -/
def decSheet (range : AbsRange) (pos : AbsAddress) : Option AbsAddress :=
  if range.first.sheet < pos.sheet then
    some ⟨pos.sheet - 1, range.last.row, range.last.column⟩
  else none

/-- Step forwards, down the columns. -/
def incVertical (range : AbsRange) : Step := do
  let ⟨pos, endPos⟩ ← get
  if endPos then throw (.outOfRange "attempting to increment past the end position.")
  else if pos.row < range.last.row then set (ImplNode.mk { pos with row := pos.row + 1 } false)
  else if pos.column < range.last.column then
    set (ImplNode.mk { pos with column := pos.column + 1, row := range.first.row } false)
  else
    match incSheet range pos with
    | some pos => set (ImplNode.mk pos false)
    | none => do
      assert (pos = range.last) "pos == range.last"
      set (ImplNode.mk pos true)

/-- Step backwards, up the columns. -/
def decVertical (range : AbsRange) : Step := do
  let ⟨pos, endPos⟩ ← get
  if endPos then do
    set (ImplNode.mk pos false)
    assert (pos = range.last) "pos == range.last"
  else if range.first.row < pos.row then set (ImplNode.mk { pos with row := pos.row - 1 } false)
  else do
    assert (pos.row = range.first.row) "pos.row == range.first.row"
    if range.first.column < pos.column then
      set (ImplNode.mk { pos with column := pos.column - 1, row := range.last.row } false)
    else do
      assert (pos.column = range.first.column) "pos.column == range.first.column"
      match decSheet range pos with
      | some pos => set (ImplNode.mk pos false)
      | none => do
        assert (pos = range.first) "pos == range.first"
        throw (.outOfRange "Attempting to decrement beyond the first position.")

/-- Step forwards, along the rows. -/
def incHorizontal (range : AbsRange) : Step := do
  let ⟨pos, endPos⟩ ← get
  if endPos then throw (.outOfRange "attempting to increment past the end position.")
  else if pos.column < range.last.column then
    set (ImplNode.mk { pos with column := pos.column + 1 } false)
  else if pos.row < range.last.row then
    set (ImplNode.mk { pos with row := pos.row + 1, column := range.first.column } false)
  else
    match incSheet range pos with
    | some pos => set (ImplNode.mk pos false)
    | none => do
      assert (pos = range.last) "pos == range.last"
      set (ImplNode.mk pos true)

/-- Step backwards, along the rows. -/
def decHorizontal (range : AbsRange) : Step := do
  let ⟨pos, endPos⟩ ← get
  if endPos then do
    set (ImplNode.mk pos false)
    assert (pos = range.last) "pos == range.last"
  else if range.first.column < pos.column then
    set (ImplNode.mk { pos with column := pos.column - 1 } false)
  else do
    assert (pos.column = range.first.column) "pos.column == range.first.column"
    if range.first.row < pos.row then
      set (ImplNode.mk { pos with row := pos.row - 1, column := range.last.column } false)
    else do
      assert (pos.row = range.first.row) "pos.row == range.first.row"
      match decSheet range pos with
      | some pos => set (ImplNode.mk pos false)
      | none => do
        assert (pos = range.first) "pos == range.first"
        throw (.outOfRange "Attempting to decrement beyond the first position.")

/-- The step of `++`. -/
def inc (range : AbsRange) : RcDirection → Step
  | .horizontal => incHorizontal range
  | .vertical => incVertical range

/-- The step of `--`. -/
def dec (range : AbsRange) : RcDirection → Step
  | .horizontal => decHorizontal range
  | .vertical => decVertical range

/-- The iterator at the first address. -/
def cbegin (range : AbsRange) : ImplNode := ⟨range.first, false⟩

/-- The iterator past the last address. -/
def cend (range : AbsRange) : ImplNode := ⟨range.last, true⟩

/-- A number of steps forwards. -/
def incs (range : AbsRange) (dir : RcDirection) : Nat → Step
  | 0 => return ()
  | n + 1 => do
    incs range dir n
    inc range dir

/-- The positions that steps lead to from the two ends. -/
inductive Reaches (range : AbsRange) (dir : RcDirection) : ImplNode → Prop
  | cbegin : Reaches range dir (cbegin range)
  | cend : Reaches range dir (cend range)
  | inc {node node' : ImplNode} (h : Reaches range dir node)
      (hstep : inc range dir node = .ok () node') : Reaches range dir node'
  | dec {node node' : ImplNode} (h : Reaches range dir node)
      (hstep : dec range dir node = .ok () node') : Reaches range dir node'

/-! ## The order of the addresses -/

/-- Whether an address comes before another one. -/
def Before (dir : RcDirection) (a b : AbsAddress) : Prop :=
  a.sheet < b.sheet ∨ a.sheet = b.sheet ∧
    match dir with
    | .horizontal => a.row < b.row ∨ a.row = b.row ∧ a.column < b.column
    | .vertical => a.column < b.column ∨ a.column = b.column ∧ a.row < b.row

/-- The addresses of a range, in the order in which they are visited. -/
def addressesBy (range : AbsRange) : RcDirection → List AbsAddress
  | .horizontal =>
    (countUp range.first.sheet range.last.sheet).flatMap fun sheet ↦
      (countUp range.first.row range.last.row).flatMap fun row ↦
        (countUp range.first.column range.last.column).map fun col ↦ ⟨sheet, row, col⟩
  | .vertical => range.addresses

theorem mem_addressesBy {range : AbsRange} {dir : RcDirection} {a : AbsAddress} :
    a ∈ addressesBy range dir ↔ range.contains a = true := by
  cases dir with
  | vertical => exact AbsRange.mem_addresses
  | horizontal =>
    rw [AbsRange.contains_iff, addressesBy, List.mem_flatMap]
    constructor
    · rintro ⟨sheet, hsheet, hmem⟩
      obtain ⟨row, hrow, hmem⟩ := List.mem_flatMap.mp hmem
      obtain ⟨col, hcol, rfl⟩ := List.mem_map.mp hmem
      rw [mem_countUp] at hsheet hrow hcol
      exact ⟨hsheet.1, hsheet.2, hrow.1, hrow.2, hcol.1, hcol.2⟩
    · rintro ⟨h₁, h₂, h₃, h₄, h₅, h₆⟩
      refine ⟨a.sheet, mem_countUp.mpr ⟨h₁, h₂⟩, List.mem_flatMap.mpr ⟨a.row, ?_, ?_⟩⟩
      · exact mem_countUp.mpr ⟨h₃, h₄⟩
      · exact List.mem_map.mpr ⟨a.column, mem_countUp.mpr ⟨h₅, h₆⟩, rfl⟩

/-- Each address comes before those that are visited after it. -/
theorem pairwise_addressesBy (range : AbsRange) (dir : RcDirection) :
    (addressesBy range dir).Pairwise (Before dir) := by
  cases dir with
  | horizontal =>
    rw [addressesBy, List.pairwise_flatMap]
    constructor
    · intro sheet _
      rw [List.pairwise_flatMap]
      constructor
      · intro row _
        rw [List.pairwise_map]
        exact (pairwise_countUp _ _).imp fun hlt ↦ .inr ⟨rfl, .inr ⟨rfl, hlt⟩⟩
      · refine (pairwise_countUp _ _).imp fun hlt a ha b hb ↦ ?_
        obtain ⟨_, -, rfl⟩ := List.mem_map.mp ha
        obtain ⟨_, -, rfl⟩ := List.mem_map.mp hb
        exact .inr ⟨rfl, .inl hlt⟩
    · refine (pairwise_countUp _ _).imp fun hlt a ha b hb ↦ ?_
      obtain ⟨_, -, ha⟩ := List.mem_flatMap.mp ha
      obtain ⟨_, -, rfl⟩ := List.mem_map.mp ha
      obtain ⟨_, -, hb⟩ := List.mem_flatMap.mp hb
      obtain ⟨_, -, rfl⟩ := List.mem_map.mp hb
      exact .inl hlt
  | vertical =>
    rw [addressesBy, AbsRange.addresses, List.pairwise_flatMap]
    constructor
    · intro sheet _
      rw [List.pairwise_flatMap]
      constructor
      · intro col _
        rw [List.pairwise_map]
        exact (pairwise_countUp _ _).imp fun hlt ↦ .inr ⟨rfl, .inr ⟨rfl, hlt⟩⟩
      · refine (pairwise_countUp _ _).imp fun hlt a ha b hb ↦ ?_
        obtain ⟨_, -, rfl⟩ := List.mem_map.mp ha
        obtain ⟨_, -, rfl⟩ := List.mem_map.mp hb
        exact .inr ⟨rfl, .inl hlt⟩
    · refine (pairwise_countUp _ _).imp fun hlt a ha b hb ↦ ?_
      obtain ⟨_, -, ha⟩ := List.mem_flatMap.mp ha
      obtain ⟨_, -, rfl⟩ := List.mem_map.mp ha
      obtain ⟨_, -, hb⟩ := List.mem_flatMap.mp hb
      obtain ⟨_, -, rfl⟩ := List.mem_map.mp hb
      exact .inl hlt

theorem Before.ne {dir : RcDirection} {a b : AbsAddress} (h : Before dir a b) : a ≠ b := by
  rintro rfl
  rcases h with hlt | ⟨-, h⟩
  · exact Int.lt_irrefl _ hlt
  · cases dir with
    | horizontal => exact h.elim (Int.lt_irrefl _) fun h ↦ Int.lt_irrefl _ h.2
    | vertical => exact h.elim (Int.lt_irrefl _) fun h ↦ Int.lt_irrefl _ h.2

/-! ## Steps as steps of counters -/

/-- A position of an iterator; past the end it still has the last address. -/
def IsPosition (range : AbsRange) (node : ImplNode) : Prop :=
  range.contains node.pos = true ∧ (node.endPos = true → node.pos = range.last)

/-- A step that leads to another position, or throws and stays. -/
def stepTo (msg : String) (node : ImplNode) : Option ImplNode →
    EStateM.Result StepFailure ImplNode Unit
  | some node' => .ok () node'
  | none => .error (.outOfRange msg) node

/-- The position with a sheet and a column outside and a row inside. -/
def verticalNode (x : ((Int × Int) × Int) × Bool) : ImplNode := ⟨⟨x.1.1.1, x.1.2, x.1.1.2⟩, x.2⟩

/-- The position with a sheet and a row outside and a column inside. -/
def horizontalNode (x : ((Int × Int) × Int) × Bool) : ImplNode := ⟨⟨x.1.1.1, x.1.1.2, x.1.2⟩, x.2⟩

@[simp] theorem get_bind_apply (f : ImplNode → Step) (node : ImplNode) :
    (get >>= f) node = f node node := rfl

@[simp] theorem set_apply (node node' : ImplNode) : (set node' : Step) node = .ok () node' := rfl

@[simp] theorem set_bind_apply (node node' : ImplNode) (f : PUnit → Step) :
    (set node' >>= f) node = f ⟨⟩ node' := rfl

@[simp] theorem throw_apply (e : StepFailure) (node : ImplNode) :
    (throw e : Step) node = .error e node := rfl

@[simp] theorem assert_true_bind (expr : String) (f : PUnit → Step) :
    (assert true expr >>= f) = f ⟨⟩ := rfl

@[simp] theorem assert_true_apply (expr : String) (node : ImplNode) :
    assert true expr node = .ok () node := rfl

section Counters

variable {range : AbsRange} {x : ((Int × Int) × Int) × Bool}

/-- Going down the columns is counting rows, with carries into the columns and the sheets. -/
theorem incVertical_apply (h : IsPosition range (verticalNode x)) :
    incVertical range (verticalNode x) =
      stepTo "attempting to increment past the end position." (verticalNode x)
        ((incToEnd (carry (carry (countInc range.last.sheet) (countInc range.last.column)
          range.first.column) (countInc range.last.row) range.first.row) x).map verticalNode) := by
  obtain ⟨⟨⟨sheet, col⟩, row⟩, endPos⟩ := x
  obtain ⟨⟨fs, fr, fc⟩, ⟨ls, lr, lc⟩⟩ := range
  obtain ⟨hin, hend⟩ := h
  rw [AbsRange.contains_iff] at hin
  dsimp only [verticalNode] at hin hend
  cases endPos with
  | true => rfl
  | false =>
    by_cases hrow : row < lr
    · simp [incVertical, verticalNode, incToEnd, carry, countInc, stepTo, hrow]
    · by_cases hcol : col < lc
      · simp [incVertical, verticalNode, incToEnd, carry, countInc, stepTo, hrow, hcol]
      · by_cases hsheet : sheet < ls
        · simp [incVertical, verticalNode, incToEnd, carry, countInc, stepTo, hrow, hcol, incSheet,
            hsheet]
        · obtain ⟨rfl, rfl, rfl⟩ : sheet = ls ∧ row = lr ∧ col = lc := by omega
          simp [incVertical, verticalNode, incToEnd, carry, countInc, stepTo, incSheet]

/-- Going up the columns is counting rows down. -/
theorem decVertical_apply (h : IsPosition range (verticalNode x)) :
    decVertical range (verticalNode x) =
      stepTo "Attempting to decrement beyond the first position." (verticalNode x)
        ((decFromEnd (carry (carry (countDec range.first.sheet) (countDec range.first.column)
          range.last.column) (countDec range.first.row) range.last.row) x).map verticalNode) := by
  obtain ⟨⟨⟨sheet, col⟩, row⟩, endPos⟩ := x
  obtain ⟨⟨fs, fr, fc⟩, ⟨ls, lr, lc⟩⟩ := range
  obtain ⟨hin, hend⟩ := h
  rw [AbsRange.contains_iff] at hin
  dsimp only [verticalNode] at hin hend
  cases endPos with
  | true =>
    simp [decVertical, verticalNode, decFromEnd, stepTo, hend rfl]
  | false =>
    by_cases hrow : fr < row
    · simp [decVertical, verticalNode, decFromEnd, carry, countDec, stepTo, hrow]
    · obtain rfl : row = fr := by omega
      by_cases hcol : fc < col
      · simp [decVertical, verticalNode, decFromEnd, carry, countDec, stepTo, hcol]
      · obtain rfl : col = fc := by omega
        by_cases hsheet : fs < sheet
        · simp [decVertical, verticalNode, decFromEnd, carry, countDec, stepTo, decSheet, hsheet]
        · obtain rfl : sheet = fs := by omega
          simp [decVertical, verticalNode, decFromEnd, carry, countDec, stepTo, decSheet]

/-- Going along the rows is counting columns, with carries into the rows and the sheets. -/
theorem incHorizontal_apply (h : IsPosition range (horizontalNode x)) :
    incHorizontal range (horizontalNode x) =
      stepTo "attempting to increment past the end position." (horizontalNode x)
        ((incToEnd (carry (carry (countInc range.last.sheet) (countInc range.last.row)
          range.first.row) (countInc range.last.column) range.first.column) x).map
          horizontalNode) := by
  obtain ⟨⟨⟨sheet, row⟩, col⟩, endPos⟩ := x
  obtain ⟨⟨fs, fr, fc⟩, ⟨ls, lr, lc⟩⟩ := range
  obtain ⟨hin, hend⟩ := h
  rw [AbsRange.contains_iff] at hin
  dsimp only [horizontalNode] at hin hend
  cases endPos with
  | true => rfl
  | false =>
    by_cases hcol : col < lc
    · simp [incHorizontal, horizontalNode, incToEnd, carry, countInc, stepTo, hcol]
    · by_cases hrow : row < lr
      · simp [incHorizontal, horizontalNode, incToEnd, carry, countInc, stepTo, hcol, hrow]
      · by_cases hsheet : sheet < ls
        · simp [incHorizontal, horizontalNode, incToEnd, carry, countInc, stepTo, hcol, hrow,
            incSheet, hsheet]
        · obtain ⟨rfl, rfl, rfl⟩ : sheet = ls ∧ row = lr ∧ col = lc := by omega
          simp [incHorizontal, horizontalNode, incToEnd, carry, countInc, stepTo, incSheet]

/-- Going back along the rows is counting columns down. -/
theorem decHorizontal_apply (h : IsPosition range (horizontalNode x)) :
    decHorizontal range (horizontalNode x) =
      stepTo "Attempting to decrement beyond the first position." (horizontalNode x)
        ((decFromEnd (carry (carry (countDec range.first.sheet) (countDec range.first.row)
          range.last.row) (countDec range.first.column) range.last.column) x).map
          horizontalNode) := by
  obtain ⟨⟨⟨sheet, row⟩, col⟩, endPos⟩ := x
  obtain ⟨⟨fs, fr, fc⟩, ⟨ls, lr, lc⟩⟩ := range
  obtain ⟨hin, hend⟩ := h
  rw [AbsRange.contains_iff] at hin
  dsimp only [horizontalNode] at hin hend
  cases endPos with
  | true =>
    simp [decHorizontal, horizontalNode, decFromEnd, stepTo, hend rfl]
  | false =>
    by_cases hcol : fc < col
    · simp [decHorizontal, horizontalNode, decFromEnd, carry, countDec, stepTo, hcol]
    · obtain rfl : col = fc := by omega
      by_cases hrow : fr < row
      · simp [decHorizontal, horizontalNode, decFromEnd, carry, countDec, stepTo, hrow]
      · obtain rfl : row = fr := by omega
        by_cases hsheet : fs < sheet
        · simp [decHorizontal, horizontalNode, decFromEnd, carry, countDec, stepTo, decSheet,
            hsheet]
        · obtain rfl : sheet = fs := by omega
          simp [decHorizontal, horizontalNode, decFromEnd, carry, countDec, stepTo, decSheet]

end Counters

/-! ## From one end to the other -/

/-- Where a step leads to, unless it throws. -/
def next (step : Step) (node : ImplNode) : Option ImplNode :=
  match step node with
  | .ok () node' => some node'
  | .error _ _ => none

theorem next_of_stepTo {step : Step} {msg : String} {node : ImplNode} {node' : Option ImplNode}
    (h : step node = stepTo msg node node') : next step node = node' := by
  rw [next, h]
  cases node' <;> rfl

/-- The positions of an iterator over a range. -/
def nodes (range : AbsRange) (dir : RcDirection) : List ImplNode :=
  (addressesBy range dir).map (fun a ↦ ImplNode.mk a false) ++ [cend range]

theorem isPosition_of_mem {range : AbsRange} {dir : RcDirection} (h : range.Ordered)
    {node : ImplNode} (hnode : node ∈ nodes range dir) : IsPosition range node := by
  rcases List.mem_append.mp hnode with hnode | hnode
  · obtain ⟨a, ha, rfl⟩ := List.mem_map.mp hnode
    exact ⟨mem_addressesBy.mp ha, fun h ↦ nomatch h⟩
  · obtain rfl := List.mem_singleton.mp hnode
    obtain ⟨h₁, h₂, h₃⟩ := h
    exact ⟨AbsRange.contains_iff.mpr ⟨h₁, Int.le_refl _, h₂, Int.le_refl _, h₃, Int.le_refl _⟩,
      fun _ ↦ rfl⟩

/-- The two steps go through the positions of a range, and throw at its ends. -/
structure Iterates (range : AbsRange) (dir : RcDirection) : Prop where
  enumerates : Enumerates (next (inc range dir)) (next (dec range dir)) (cbegin range)
    (cend range) (nodes range dir)
  inc_eq : ∀ node ∈ nodes range dir, inc range dir node =
    stepTo "attempting to increment past the end position." node (next (inc range dir) node)
  dec_eq : ∀ node ∈ nodes range dir, dec range dir node =
    stepTo "Attempting to decrement beyond the first position." node (next (dec range dir) node)

/-- Steps that are those of counters go through the positions. -/
theorem Iterates.of_counters {γ : Type} {range : AbsRange} {dir : RcDirection} (node : γ → ImplNode)
    {i d : γ → Option γ} {first last : γ} {l : List γ} (h : Enumerates i d first last l)
    (hfirst : node first = cbegin range) (hlast : node last = cend range)
    (hl : l.map node = nodes range dir) (hord : range.Ordered)
    (hinc : ∀ x, IsPosition range (node x) → inc range dir (node x) =
      stepTo "attempting to increment past the end position." (node x) ((i x).map node))
    (hdec : ∀ x, IsPosition range (node x) → dec range dir (node x) =
      stepTo "Attempting to decrement beyond the first position." (node x) ((d x).map node)) :
    Iterates range dir := by
  have hposition : ∀ x ∈ l, IsPosition range (node x) :=
    fun x hx ↦ isPosition_of_mem hord (hl ▸ List.mem_map_of_mem hx)
  refine ⟨?_, ?_, ?_⟩
  · rw [← hfirst, ← hlast, ← hl]
    apply h.map
    · exact fun x hx ↦ next_of_stepTo (hinc x (hposition x hx))
    · exact fun x hx ↦ next_of_stepTo (hdec x (hposition x hx))
  · intro n hn
    obtain ⟨x, hx, rfl⟩ := List.mem_map.mp (hl ▸ hn)
    rw [next_of_stepTo (hinc x (hposition x hx)), hinc x (hposition x hx)]
  · intro n hn
    obtain ⟨x, hx, rfl⟩ := List.mem_map.mp (hl ▸ hn)
    rw [next_of_stepTo (hdec x (hposition x hx)), hdec x (hposition x hx)]

/-- An iterator goes through the positions of a range whose corners are in order. -/
theorem iterates_of_ordered {range : AbsRange} (h : range.Ordered) (dir : RcDirection) :
    Iterates range dir := by
  obtain ⟨hsheet, hrow, hcol⟩ := h
  have hsheets := enumerates_countUp hsheet
  have hrows := enumerates_countUp hrow
  have hcols := enumerates_countUp hcol
  cases dir with
  | vertical =>
    refine .of_counters verticalNode ((hsheets.carry hcols).carry hrows).toEnd rfl rfl ?_
      ⟨hsheet, hrow, hcol⟩ (fun _ ↦ incVertical_apply) (fun _ ↦ decVertical_apply)
    simp only [nodes, addressesBy, AbsRange.addresses, List.map_append, List.map_map,
      List.map_flatMap, List.flatMap_assoc, List.flatMap_map]
    rfl
  | horizontal =>
    refine .of_counters horizontalNode ((hsheets.carry hrows).carry hcols).toEnd rfl rfl
      ?_ ⟨hsheet, hrow, hcol⟩ (fun _ ↦ incHorizontal_apply) (fun _ ↦ decHorizontal_apply)
    simp only [nodes, addressesBy, List.map_append, List.map_map, List.map_flatMap,
      List.flatMap_assoc, List.flatMap_map]
    rfl

namespace Iterates

variable {range : AbsRange} {dir : RcDirection} {node : ImplNode}

theorem length_nodes (range : AbsRange) (dir : RcDirection) :
    (nodes range dir).length = (addressesBy range dir).length + 1 := by
  rw [nodes, List.length_append, List.length_map, List.length_singleton]

/-- A number of steps forwards leads to the position of that number. -/
theorem incs_eq (h : Iterates range dir) {i : Nat} (hi : i < (nodes range dir).length) :
    incs range dir i (cbegin range) = .ok () (nodes range dir)[i] := by
  induction i with
  | zero =>
    rw [h.enumerates.getElem_zero hi]
    rfl
  | succ i ih =>
    show (incs range dir i >>= fun _ ↦ inc range dir) (cbegin range) = _
    rw [bind_apply, ih (Nat.lt_of_succ_lt hi)]
    show inc range dir (nodes range dir)[i] = _
    rw [h.inc_eq _ (List.getElem_mem _), h.enumerates.inc_getElem hi]
    rfl

/-- The steps do not leave the positions. -/
theorem mem_of_reaches (h : Iterates range dir) (hnode : Reaches range dir node) :
    node ∈ nodes range dir := by
  induction hnode with
  | cbegin => exact h.enumerates.first_mem
  | cend => exact h.enumerates.last_mem
  | @inc node node' _ hstep ih =>
    by_cases hne : node = cend range
    · subst hne
      rw [h.inc_eq _ ih, h.enumerates.inc_last] at hstep
      exact nomatch hstep
    · obtain ⟨b, hb, hnext, -⟩ := h.enumerates.exists_inc ih hne
      rw [h.inc_eq _ ih, hnext] at hstep
      cases hstep
      exact hb
  | @dec node node' _ hstep ih =>
    by_cases hne : node = AbsAddressIterator.cbegin range
    · subst hne
      rw [h.dec_eq _ ih, h.enumerates.dec_first] at hstep
      exact nomatch hstep
    · obtain ⟨b, hb, hnext, -⟩ := h.enumerates.exists_dec ih hne
      rw [h.dec_eq _ ih, hnext] at hstep
      cases hstep
      exact hb

/-- A step forwards is undone by one backwards. -/
theorem inc_dec (h : Iterates range dir) (hnode : node ∈ nodes range dir)
    (hne : node ≠ cend range) :
    (do inc range dir; dec range dir : Step) node = .ok () node := by
  obtain ⟨b, hb, hinc, hdec⟩ := h.enumerates.exists_inc hnode hne
  show (inc range dir >>= fun _ ↦ dec range dir) node = _
  rw [bind_apply, h.inc_eq _ hnode, hinc]
  show dec range dir b = _
  rw [h.dec_eq _ hb, hdec]
  rfl

/-- A step backwards is undone by one forwards. -/
theorem dec_inc (h : Iterates range dir) (hnode : node ∈ nodes range dir)
    (hne : node ≠ cbegin range) : (do dec range dir; inc range dir : Step) node = .ok () node := by
  obtain ⟨b, hb, hdec, hinc⟩ := h.enumerates.exists_dec hnode hne
  show (dec range dir >>= fun _ ↦ inc range dir) node = _
  rw [bind_apply, h.dec_eq _ hnode, hdec]
  show inc range dir b = _
  rw [h.inc_eq _ hb, hinc]
  rfl

end Iterates

/-- From the beginning, `++` visits each address of a range once and in order, and then is at
the end; wherever an iterator has got to, `++` and `--` undo each other, but at the ends, where
they throw and leave it as it is. -/
theorem iterates (range : AbsRange) (dir : RcDirection) (h : range.valid = true) :
    ((addressesBy range dir).Nodup ∧ (addressesBy range dir).Pairwise (Before dir) ∧
      ∀ a, a ∈ addressesBy range dir ↔ range.contains a = true) ∧
    (∀ i (hi : i < (addressesBy range dir).length),
      incs range dir i (cbegin range) = .ok () ⟨(addressesBy range dir)[i], false⟩) ∧
    incs range dir (addressesBy range dir).length (cbegin range) = .ok () (cend range) ∧
    (∀ node, Reaches range dir node →
      (node ≠ cend range → (do inc range dir; dec range dir : Step) node = .ok () node) ∧
      (node ≠ cbegin range → (do dec range dir; inc range dir : Step) node = .ok () node)) ∧
    inc range dir (cend range) =
      .error (.outOfRange "attempting to increment past the end position.") (cend range) ∧
    dec range dir (cbegin range) =
      .error (.outOfRange "Attempting to decrement beyond the first position.") (cbegin range) := by
  have hit := iterates_of_ordered (AbsRange.valid_iff.mp h).2.2 dir
  have hlength := Iterates.length_nodes range dir
  refine ⟨⟨?_, pairwise_addressesBy range dir, fun a ↦ mem_addressesBy⟩, ?_, ?_, ?_, ?_, ?_⟩
  · exact (pairwise_addressesBy range dir).imp Before.ne
  · intro i hi
    rw [hit.incs_eq (Nat.lt_succ_of_lt hi |>.trans_eq hlength.symm)]
    congr 1
    simp only [nodes]
    rw [List.getElem_append_left (by rwa [List.length_map]), List.getElem_map]
  · rw [hit.incs_eq (hlength ▸ Nat.lt_succ_self _), hit.enumerates.getElem_last hlength.symm]
  · intro node hnode
    have hmem := hit.mem_of_reaches hnode
    exact ⟨hit.inc_dec hmem, hit.dec_inc hmem⟩
  · rw [hit.inc_eq _ hit.enumerates.last_mem, hit.enumerates.inc_last]
    rfl
  · rw [hit.dec_eq _ hit.enumerates.first_mem, hit.enumerates.dec_first]
    rfl

/-- A range of two sheets of two rows. -/
def twoSheets : AbsRange := ⟨⟨0, 1, 1⟩, ⟨1, 2, 1⟩⟩

theorem iterates_twoSheets :
    incs twoSheets .vertical (addressesBy twoSheets .vertical).length (cbegin twoSheets) =
      .ok () (cend twoSheets) :=
  (iterates twoSheets .vertical (by decide)).2.2.1

example : addressesBy twoSheets .vertical = [⟨0, 1, 1⟩, ⟨0, 2, 1⟩, ⟨1, 1, 1⟩, ⟨1, 2, 1⟩] := by
  decide

end AbsAddressIterator

end Ixion
