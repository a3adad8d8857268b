import Ixion.Register
import Ixion.Tracker.Query

/-!
# Expanding named expressions

Before a formula is interpreted its named expressions are replaced by their
tokens, in parentheses.  A name that occurs inside a named expression must not
have been used before.

Registration collects references by a traversal of its own (`getRefTokens`).  Both
traversals see the same single-cell and range references, which is shown by way of
`Occurs`.  They differ on table references, which are never registered, and on
volatile functions, for which registration looks at the formula's own tokens only.
Hence the exact condition under which every cell that a formula reads is tracked:
`everyReadTracked_iff`.
-/

namespace Ixion

open Lib UnorderedSet DirtyCellTracker Relation

namespace Workbook

/-! ## Expansion -/

/-- The tokens so far, and the names used so far. -/
structure ExpandState where
  tokens : List FormulaToken
  usedNames : List String

/-- Put a token at the end. -/
def pushToken (t : FormulaToken) : Exec ExpandState Unit :=
  modify fun s ↦ { s with tokens := s.tokens ++ [t] }

/-- Note that a name is used. -/
def useName (name : String) : Exec ExpandState Unit :=
  modify fun s ↦ { s with usedNames := name :: s.usedNames }

/-- Append the tokens of a named expression. -/
def expandNamedExpression (wb : Workbook) (sheet : Int) :
    Nat → Option NamedExpression → Exec ExpandState Unit
  | _, none => throwExn (.formulaError .nameNotFound)
  | 0, some _ => throw .stackOverflow
  | depth + 1, some expr => do
    pushToken .parenOpen
    expr.tokens.forM fun t ↦
      match t with
      | .namedExpression exprName => do
        let s ← get
        if exprName ∈ s.usedNames then
          throwExn (.invalidExpression "circular referencing of named expressions")
        else
          useName exprName
          expandNamedExpression wb sheet depth (wb.getNamedExpression sheet exprName)
      | t => pushToken t
    pushToken .parenClose

/-- Append the expansion of the tokens of a formula. -/
def initTokens (wb : Workbook) (depth : Nat) (cell : FormulaCell) (pos : AbsAddress) :
    Exec ExpandState Unit :=
  cell.tokens.forM fun t ↦
    match t with
    | .namedExpression name => do
      useName name
      expandNamedExpression wb pos.sheet depth (wb.getNamedExpression pos.sheet name)
    | t => pushToken t

/-- The tokens that are interpreted. -/
def expandedTokens (wb : Workbook) (depth : Nat) (cell : FormulaCell) (pos : AbsAddress) :
    Except Failure (List FormulaToken) :=
  match wb.initTokens depth cell pos ⟨[], []⟩ with
  | .ok _ s => .ok s.tokens
  | .error e _ => .error e

/-- Where there are no names the tokens are those of the formula. -/
theorem expandedTokens_of_noNames (wb : Workbook) (depth : Nat) {cell : FormulaCell}
    (pos : AbsAddress) (h : ∀ name, .namedExpression name ∉ cell.tokens) :
    wb.expandedTokens depth cell pos = .ok cell.tokens := by
  have hrun (tokens : List FormulaToken) (hnames : ∀ name, .namedExpression name ∉ tokens)
      (s : ExpandState) : (tokens.forM fun t ↦
        match t with
        | .namedExpression name => do
          useName name
          wb.expandNamedExpression pos.sheet depth (wb.getNamedExpression pos.sheet name)
        | t => pushToken t : Exec ExpandState Unit) s =
      .ok () { s with tokens := s.tokens ++ tokens } := by
    induction tokens generalizing s with
    | nil => simp [pure, EStateM.pure]
    | cons t tokens ih =>
      have htokens := fun name hmem ↦ hnames name (List.mem_cons_of_mem t hmem)
      cases t with
      | namedExpression name => exact absurd List.mem_cons_self (hnames name)
      | _ => exact (ih htokens _).trans (by rw [List.append_assoc, List.singleton_append])
  rw [expandedTokens, initTokens, hrun cell.tokens h]
  rfl

/-! ## What the two traversals see -/

/-- A token occurs in a list of tokens, or in a named expression that is
reachable from it. -/
inductive Occurs (wb : Workbook) (sheet : Int) :
    List FormulaToken → FormulaToken → Prop where
  | here {tokens : List FormulaToken} {t : FormulaToken} : t ∈ tokens → Occurs wb sheet tokens t
  | there {tokens : List FormulaToken} {name : String} {expr : NamedExpression}
    {t : FormulaToken} : .namedExpression name ∈ tokens →
    wb.getNamedExpression sheet name = some expr → Occurs wb sheet expr.tokens t →
    Occurs wb sheet tokens t

/-- Every reference that occurs in a formula is collected for registration. -/
theorem mem_of_occurs {wb : Workbook} {sheet : Int} {depth : Nat}
    {tokens refs : List FormulaToken} {t : FormulaToken} (ht : Occurs wb sheet tokens t)
    (hrefs : collectM (wb.getRefs sheet depth) tokens = .ok refs) (href : IsRef t) : t ∈ refs := by
  induction ht generalizing depth refs with
  | @here tokens t hmem =>
    refine (mem_collectM hrefs).mpr ⟨t, hmem, [t], ?_, List.mem_singleton_self t⟩
    unfold getRefs
    cases t with
    | singleRef => rfl
    | rangeRef => rfl
    | _ => exact href.elim
  | @there tokens name expr t hmem hname _ ih =>
    obtain ⟨bs, hbs⟩ := exists_ok_of_collectM hrefs hmem
    refine (mem_collectM hrefs).mpr ⟨_, hmem, bs, hbs, ?_⟩
    unfold getRefs at hbs
    simp only [hname] at hbs
    cases depth with
    | zero => exact absurd hbs nofun
    | succ depth => exact ih hbs href

/-- Only references that occur in a formula are collected for registration. -/
theorem occurs_of_mem {wb : Workbook} {sheet : Int} {depth : Nat} {tokens refs : List FormulaToken}
    {t : FormulaToken} (hrefs : collectM (wb.getRefs sheet depth) tokens = .ok refs)
    (ht : t ∈ refs) : Occurs wb sheet tokens t := by
  induction depth generalizing tokens refs with
  | zero =>
    obtain ⟨t', ht', refs', href, hmem⟩ := (mem_collectM hrefs).mp ht
    unfold getRefs at href
    split at href
    · cases href; exact .here (List.mem_singleton.mp hmem ▸ ht')
    · cases href; exact .here (List.mem_singleton.mp hmem ▸ ht')
    · split at href
      · cases href; exact absurd hmem List.not_mem_nil
      · exact absurd href (by rintro ⟨⟩)
    · cases href; exact absurd hmem List.not_mem_nil
  | succ depth ih =>
    obtain ⟨t', ht', refs', href, hmem⟩ := (mem_collectM hrefs).mp ht
    unfold getRefs at href
    split at href
    · cases href; exact .here (List.mem_singleton.mp hmem ▸ ht')
    · cases href; exact .here (List.mem_singleton.mp hmem ▸ ht')
    · split at href
      · cases href; exact absurd hmem List.not_mem_nil
      case h_2 expr hname => exact .there ht' hname (ih href hmem)
    · cases href; exact absurd hmem List.not_mem_nil

/-- The tokens that an expansion has appended come from the formula, or they are
parentheses. -/
def Appended (wb : Workbook) (sheet : Int) (tokens : List FormulaToken)
    (s s' : ExpandState) : Prop :=
  ∀ t ∈ s'.tokens, t ∈ s.tokens ∨ t = .parenOpen ∨ t = .parenClose ∨ Occurs wb sheet tokens t

theorem Appended.push {wb : Workbook} {sheet : Int} {tokens : List FormulaToken}
    {s s' : ExpandState} (h : Appended wb sheet tokens s s') {t : FormulaToken}
    (ht : t = .parenOpen ∨ t = .parenClose ∨ Occurs wb sheet tokens t) :
    Appended wb sheet tokens s { s' with tokens := s'.tokens ++ [t] } := by
  intro t' ht'
  rcases List.mem_append.mp ht' with ht' | ht'
  · exact h t' ht'
  · exact .inr (List.mem_singleton.mp ht' ▸ ht)

theorem Appended.trans_there {wb : Workbook} {sheet : Int} {tokens : List FormulaToken}
    {s s' s'' : ExpandState} (h : Appended wb sheet tokens s s') {name : String}
    {expr : NamedExpression} (hmem : .namedExpression name ∈ tokens)
    (hname : wb.getNamedExpression sheet name = some expr)
    (h' : Appended wb sheet expr.tokens s' s'') : Appended wb sheet tokens s s'' := by
  intro t ht
  rcases h' t ht with ht | ht | ht | ht
  · exact h t ht
  · exact .inr (.inl ht)
  · exact .inr (.inr (.inl ht))
  · exact .inr (.inr (.inr (.there hmem hname ht)))

theorem wp_expandNamedExpression (wb : Workbook) (sheet : Int) (depth : Nat)
    (expr : Option NamedExpression) (s : ExpandState) :
    wp (wb.expandNamedExpression sheet depth expr)
      (fun _ s' ↦ ∃ e, expr = some e ∧ Appended wb sheet e.tokens s s')
      (fun e _ ↦ e ≠ .wait) s := by
  induction depth generalizing expr s with
  | zero => cases expr <;> rintro ⟨⟩
  | succ depth ih =>
    cases expr with
    | none => rintro ⟨⟩
    | some expr =>
      rw [expandNamedExpression, wp_bind, pushToken, wp_modify, wp_bind]
      -- the tokens of the expression that are still to come are its own
      let I (rest : List FormulaToken) (s' : ExpandState) : Prop :=
        rest ⊆ expr.tokens ∧ Appended wb sheet expr.tokens s s'
      have hstart : I expr.tokens { s with tokens := s.tokens ++ [.parenOpen] } := by
        refine ⟨List.Subset.refl _, ?_⟩
        exact Appended.push (fun t ht ↦ .inl ht) (.inl rfl)
      refine (wp_forM (E := fun e _ ↦ e ≠ .wait) (I := I) (fun t rest s' ⟨hsub, happ⟩ ↦ ?_)
        hstart).mono (fun _ s' h ↦ ?_) (fun _ _ he ↦ he)
      · obtain ⟨hmem, hrest⟩ := List.cons_subset.mp hsub
        split
        case h_1 name =>
          simp only [wp_bind, wp_get]
          split
          · rintro ⟨⟩
          · rw [wp_bind, useName, wp_modify]
            refine (ih _ _).mono (fun _ s'' h ↦ ?_) (fun _ _ he ↦ he)
            obtain ⟨e, he, happ'⟩ := h
            exact ⟨hrest, happ.trans_there hmem he happ'⟩
        case h_2 => exact ⟨hrest, happ.push (.inr (.inr (.here hmem)))⟩
      · exact ⟨expr, rfl, h.2.push (.inr (.inl rfl))⟩

theorem wp_initTokens (wb : Workbook) (depth : Nat) (cell : FormulaCell) (pos : AbsAddress) :
    wp (wb.initTokens depth cell pos)
      (fun _ ↦ Appended wb pos.sheet cell.tokens ⟨[], []⟩) (fun e _ ↦ e ≠ .wait) ⟨[], []⟩ := by
  let I (rest : List FormulaToken) (s : ExpandState) : Prop :=
    rest ⊆ cell.tokens ∧ Appended wb pos.sheet cell.tokens ⟨[], []⟩ s
  refine (wp_forM (E := fun e _ ↦ e ≠ .wait) (I := I) (fun t rest s ⟨hsub, happ⟩ ↦ ?_)
    ⟨List.Subset.refl _, fun t ht ↦ .inl ht⟩).mono (fun _ _ h ↦ h.2) (fun _ _ he ↦ he)
  obtain ⟨hmem, hrest⟩ := List.cons_subset.mp hsub
  split
  case h_1 name =>
    rw [wp_bind, useName, wp_modify]
    refine (wp_expandNamedExpression wb pos.sheet depth _ _).mono (fun _ s' h ↦ ?_)
      (fun _ _ he ↦ he)
    obtain ⟨e, he, happ'⟩ := h
    exact ⟨hrest, happ.trans_there hmem he happ'⟩
  case h_2 => exact ⟨hrest, happ.push (.inr (.inr (.here hmem)))⟩

/-- What has been expanded occurs in the formula, or it is a parenthesis. -/
theorem occurs_of_mem_expandedTokens {wb : Workbook} {depth : Nat} {cell : FormulaCell}
    {pos : AbsAddress} {exp : List FormulaToken}
    (hexp : wb.expandedTokens depth cell pos = .ok exp) {t : FormulaToken} (ht : t ∈ exp) :
    t = .parenOpen ∨ t = .parenClose ∨ Occurs wb pos.sheet cell.tokens t := by
  rw [expandedTokens] at hexp
  cases hx : wb.initTokens depth cell pos ⟨[], []⟩ with
  | error e s => rw [hx] at hexp; exact absurd hexp nofun
  | ok u s =>
    rw [hx] at hexp
    cases hexp
    exact ((wp_initTokens wb depth cell pos).of_ok hx t ht).resolve_left List.not_mem_nil

/-- No expansion waits for a result. -/
theorem ne_wait_of_expandedTokens {wb : Workbook} {depth : Nat} {cell : FormulaCell}
    {pos : AbsAddress} {e : Failure} (hexp : wb.expandedTokens depth cell pos = .error e) :
    e ≠ .wait := by
  rw [expandedTokens] at hexp
  cases hx : wb.initTokens depth cell pos ⟨[], []⟩ with
  | error e' s =>
    rw [hx] at hexp
    cases hexp
    exact (wp_initTokens wb depth cell pos).of_error hx
  | ok u s => rw [hx] at hexp; exact absurd hexp nofun

/-! ## The cells that a formula reads -/

/-- The range that a table reference stands for, if there is a table handler. -/
def tableRange (wb : Workbook) (pos : AbsAddress) (table : Table) : Option AbsRange :=
  wb.tableHandler.map fun tableHdl ↦
    if table.name ≠ .empty then
      tableHdl.getRange table.name table.columnFirst table.columnLast table.areas
    else tableHdl.getRangeAt pos table.columnFirst table.columnLast table.areas

/-- A cell lies inside a range whose corners may be in any order and which may be a
whole column or row. -/
def Covers (range : AbsRange) (a : AbsAddress) : Prop :=
  (min range.first.sheet range.last.sheet ≤ a.sheet ∧
      a.sheet ≤ max range.first.sheet range.last.sheet) ∧
    (range.allRows = true ∨ (min range.first.row range.last.row ≤ a.row ∧
      a.row ≤ max range.first.row range.last.row)) ∧
    (range.allColumns = true ∨ (min range.first.column range.last.column ≤ a.column ∧
      a.column ≤ max range.first.column range.last.column))

/-- A token of a formula at `pos` refers to a cell. -/
def RefersTo (wb : Workbook) (pos : AbsAddress) : FormulaToken → AbsAddress → Prop
  | .singleRef addr, a => a = addr.toAbs pos
  | .rangeRef range, a => Covers (range.toAbs pos) a
  | .tableRef table, a => ∃ range, wb.tableRange pos table = some range ∧ Covers range a
  | _, _ => False

/-- The range that a range is registered as contains the cells of the workbook that
the range covers. -/
theorem contains_normalizeRange_iff {wb : Workbook} {range : AbsRange} {a : AbsAddress}
    (hin : wb.inWorkbook a = true) :
    (wb.normalizeRange range).contains a = true ↔ Covers range a := by
  rw [inWorkbook, decide_eq_true_eq] at hin
  have hrows : (wb.clipColumns range).allRows = range.allRows := by
    rw [clipColumns]
    split <;> rfl
  rw [normalizeRange, AbsRange.contains_iff, clipRows, hrows, clipColumns, Covers]
  cases range.allColumns with
  | true =>
    cases range.allRows with
    | true => simp only [if_true, AbsRange.reorder, eq_self, true_or, and_true]; omega
    | false => simp only [if_true, if_false, Bool.false_eq_true, AbsRange.reorder, eq_self, true_or,
        and_true, false_or]; omega
  | false =>
    cases range.allRows with
    | true => simp only [if_true, if_false, Bool.false_eq_true, AbsRange.reorder, eq_self, true_or,
        true_and, false_or]; omega
    | false => simp only [if_false, Bool.false_eq_true, AbsRange.reorder, false_or]; omega

/-- The range that a reference is registered as contains the cells of the workbook that
it refers to. -/
theorem contains_destRange_iff {wb : Workbook} {pos : AbsAddress} {t : FormulaToken}
    (ht : IsRef t) {a : AbsAddress} (hin : wb.inWorkbook a = true) :
    (wb.destRange pos t).contains a = true ↔ wb.RefersTo pos t a := by
  cases t with
  | singleRef addr => exact AbsRange.contains_toRange
  | rangeRef r => exact contains_normalizeRange_iff hin
  | _ => exact ht.elim

/-! ## When every cell that is read is tracked -/

end Workbook

namespace ModelContext

open Workbook

variable {S T : Type} [UnorderedSet S AbsRange] [RTree T S]

/-- The formula cells that are dirty once some cells are modified. -/
def queryDirtyCells (cxt : ModelContext S T) (modifiedCells : List AbsAddress) :
    List AbsAddress :=
  let modifiedRanges := insertAll (empty : S) (modifiedCells.map AbsAddress.toRange)
  (toList (cxt.tracker.queryDirtyCells modifiedRanges)).map AbsRange.first

theorem mem_queryDirtyCells_iff {cxt : ModelContext S T} {M : List AbsAddress}
    {pos : AbsAddress} : pos ∈ cxt.queryDirtyCells M ↔
      ∃ r : AbsRange, r.first = pos ∧ (r ∈ toList cxt.tracker.volatileCells ∨
        ∃ m, ((∃ a ∈ M, a.toRange = m) ∨ m ∈ toList cxt.tracker.volatileCells) ∧
          TransGen cxt.tracker.Step m r) := by
  rw [queryDirtyCells, List.mem_map]
  refine exists_congr fun r ↦ ?_
  rw [mem_queryDirtyCells, and_comm]
  simp only [mem_toList_insertAll, List.mem_map, toList_empty, List.not_mem_nil, or_false]

/-- A formula cell is registered: everything that its registration tracks is
tracked. -/
structure IsRegistered (cxt : ModelContext S T) (cell : FormulaCell) (pos : AbsAddress)
    (refs : List FormulaToken) : Prop where
  tracked : ∀ t ∈ refs, ∀ sheet e s, Pairs (cxt.srcRange cell pos) (cxt.destRange pos t) sheet e s →
    cxt.tracker.Tracked sheet e s
  volatile : hasVolatile cell.tokens = true → pos.toRange ∈ toList cxt.tracker.volatileCells

/-- A formula at `pos` is dirty whenever a cell it refers to is modified, and always
if it calls a volatile function. -/
structure EveryReadTracked (cxt : ModelContext S T) (pos : AbsAddress)
    (exp : List FormulaToken) : Prop where
  reads : ∀ t ∈ exp, ∀ a, cxt.inWorkbook a = true → cxt.RefersTo pos t a →
    pos ∈ cxt.queryDirtyCells [a]
  volatile : hasVolatile exp = true → ∀ M, pos ∈ cxt.queryDirtyCells M

omit [UnorderedSet S AbsRange] [RTree T S] in
@[simp] theorem srcRange_first (cxt : ModelContext S T) (cell : FormulaCell) (pos : AbsAddress) :
    (cxt.srcRange cell pos).first = pos := by
  rw [srcRange]
  split <;> rfl

/-- A modified cell inside a registered range makes the formula dirty. -/
theorem mem_queryDirtyCells_of_contains {cxt : ModelContext S T} {cell : FormulaCell}
    {pos : AbsAddress} {refs : List FormulaToken} (h : cxt.IsRegistered cell pos refs)
    {t : FormulaToken} (ht : t ∈ refs) {a : AbsAddress}
    (ha : (cxt.destRange pos t).contains a = true) : pos ∈ cxt.queryDirtyCells [a] := by
  obtain ⟨h₁, h₂, h₃, h₄, h₅, h₆⟩ := AbsRange.contains_iff.mp ha
  have htracked := h.tracked t ht a.sheet _ _ ⟨rfl, rfl, h₁, h₂⟩
  refine mem_queryDirtyCells_iff.mpr ⟨cxt.srcRange cell pos, srcRange_first .., .inr ?_⟩
  refine ⟨a.toRange, .inl ⟨a, List.mem_singleton_self a, rfl⟩, .single ⟨_, htracked, ?_⟩⟩
  exact ⟨h₃, h₄, h₅, h₆⟩

/-- A tracker in which nothing but the references of one cell is tracked. -/
theorem tracked_registeredTracker_new {cxt : ModelContext S T} {src : AbsRange}
    {pos : AbsAddress} {refs : List FormulaToken}
    (hall : ∀ t ∈ refs, cxt.Registrable src pos t) {sheet : Int} {e : Extent} {s : AbsRange} :
    ((cxt.withTracker .new).registeredTracker src pos refs).Tracked sheet e s ↔
      ∃ t ∈ refs, Pairs src (cxt.destRange pos t) sheet e s := by
  have hnew : ¬ (DirtyCellTracker.new : DirtyCellTracker S T).Tracked sheet e s := fun h ↦
    not_listens_empty (tracked_iff.mp h).2
  have hwf : (cxt.withTracker .new).tracker.WF := Reachable.new.wf
  exact (tracked_registeredTracker hwf hall).trans (or_iff_left hnew)

/-- In that tracker a modified cell makes a formula dirty only if it lies in one of
the registered ranges. -/
theorem exists_contains_of_transGen {cxt : ModelContext S T} {src : AbsRange}
    {pos : AbsAddress} {refs : List FormulaToken}
    (hall : ∀ t ∈ refs, cxt.Registrable src pos t) {a : AbsAddress} {r : AbsRange}
    (h : TransGen ((cxt.withTracker .new).registeredTracker src pos refs).Step a.toRange r) :
    ∃ t ∈ refs, (cxt.destRange pos t).contains a = true := by
  obtain ⟨s, ⟨e, htracked, hoverlap⟩, _⟩ := TransGen.head'_iff.mp h
  obtain ⟨t, ht, _, rfl, hsheet⟩ := (tracked_registeredTracker_new hall).mp htracked
  obtain ⟨h₁, h₂, h₃, h₄⟩ := hoverlap
  exact ⟨t, ht, AbsRange.contains_iff.mpr ⟨hsheet.1, hsheet.2, h₁, h₂, h₃, h₄⟩⟩

/-- Every cell that a formula reads is tracked, in every state of the tracker in
which the formula is registered, exactly when its own tokens call a volatile
function, or no volatile function is called at all and every cell of a table
reference lies in a range that is registered for another reference. -/
theorem everyReadTracked_iff {cxt : ModelContext S T} {depth depth' : Nat} {cell : FormulaCell}
    {pos : AbsAddress} {refs exp : List FormulaToken}
    (hrefs : cxt.getRefTokens depth cell pos = .ok refs)
    (hregistrable : ∀ t ∈ refs, cxt.Registrable (cxt.srcRange cell pos) pos t)
    (hexp : cxt.expandedTokens depth' cell pos = .ok exp) :
    (∀ tracker : DirtyCellTracker S T, tracker.Reachable →
      (cxt.withTracker tracker).IsRegistered cell pos refs →
      (cxt.withTracker tracker).EveryReadTracked pos exp) ↔
    hasVolatile cell.tokens = true ∨ (hasVolatile exp = false ∧
      ∀ table, .tableRef table ∈ exp → ∀ a, cxt.inWorkbook a = true →
        cxt.RefersTo pos (.tableRef table) a →
        ∃ t ∈ refs, (cxt.destRange pos t).contains a = true) := by
  constructor
  · intro h
    cases hown : hasVolatile cell.tokens with
    | true => exact .inl rfl
    | false =>
      -- the state in which nothing else is registered
      let tracker := (cxt.withTracker .new).registeredTracker (cxt.srcRange cell pos) pos refs
      have hreach : tracker.Reachable :=
        Reachable.new.foldl_withPairs refs fun t ht ↦ (hregistrable t ht).2
      have hvol : toList tracker.volatileCells = [] :=
        (congrArg toList (volatileCells_foldl_withPairs refs _)).trans toList_empty
      have hreg : (cxt.withTracker tracker).IsRegistered cell pos refs :=
        ⟨fun t ht _ _ _ hp ↦ (tracked_registeredTracker_new hregistrable).mpr ⟨t, ht, hp⟩,
          fun hv ↦ absurd hv (by simp [hown])⟩
      have hread := h tracker hreach hreg
      refine .inr ⟨?_, fun table htable a hin hrefers ↦ ?_⟩
      · by_contra hv
        rw [Bool.not_eq_false] at hv
        obtain ⟨r, _, hr | ⟨m, ⟨a, ha, _⟩ | hm, _⟩⟩ :=
          mem_queryDirtyCells_iff.mp (hread.volatile hv [])
        · exact List.not_mem_nil (hvol ▸ hr)
        · exact List.not_mem_nil ha
        · exact List.not_mem_nil (hvol ▸ hm)
      · obtain ⟨r, _, hr | ⟨m, ⟨a', ha', rfl⟩ | hm, hstep⟩⟩ :=
          mem_queryDirtyCells_iff.mp (hread.reads _ htable a hin hrefers)
        · exact absurd (hvol ▸ hr) List.not_mem_nil
        · rw [List.mem_singleton.mp ha'] at hstep
          exact exists_contains_of_transGen hregistrable hstep
        · exact absurd (hvol ▸ hm) List.not_mem_nil
  · rintro (hown | ⟨hno, htable⟩) tracker htracker hreg
    · -- a volatile formula is dirty in every query
      have hmem : ∀ M, pos ∈ (cxt.withTracker tracker).queryDirtyCells M := fun M ↦
        mem_queryDirtyCells_iff.mpr ⟨pos.toRange, rfl, .inl (hreg.volatile hown)⟩
      exact ⟨fun _ _ a _ _ ↦ hmem [a], fun _ ↦ hmem⟩
    · refine ⟨fun t ht a hin hrefers ↦ ?_, fun hv ↦ absurd hv (by simp [hno])⟩
      have hoccurs : t = .parenOpen ∨ t = .parenClose ∨
          Occurs cxt.toWorkbook pos.sheet cell.tokens t :=
        occurs_of_mem_expandedTokens hexp ht
      have hmem : IsRef t → t ∈ refs := fun href ↦ by
        rcases hoccurs with rfl | rfl | hoccurs
        · exact href.elim
        · exact href.elim
        · exact mem_of_occurs hoccurs hrefs href
      have hcover : ∃ t' ∈ refs, (cxt.destRange pos t').contains a = true := by
        cases t with
        | singleRef =>
          have href := hmem trivial
          exact ⟨_, href,
            (contains_destRange_iff (isRef_of_mem_getRefTokens hrefs href) hin).mpr hrefers⟩
        | rangeRef =>
          have href := hmem trivial
          exact ⟨_, href,
            (contains_destRange_iff (isRef_of_mem_getRefTokens hrefs href) hin).mpr hrefers⟩
        | tableRef table => exact htable table ht a hin hrefers
        | _ => exact hrefers.elim
      obtain ⟨t', ht', hcontains⟩ := hcover
      exact mem_queryDirtyCells_of_contains hreg ht' hcontains

/-! ### A volatile function behind a name -/

/-- A cell that consists of the name `clock`. -/
def clockCell : FormulaCell := ⟨[.namedExpression "clock"], -1, -1, 0⟩

/-- The position of the cell. -/
def clockPos : AbsAddress := ⟨0, 0, 0⟩

/-- A workbook with this cell, in which `clock` stands for `NOW()`. -/
def clockContext : ModelContext Ranges (ListTree Ranges) :=
  { ModelContext.new ⟨1048576, 16384⟩ with
    sheets := [⟨"Sheet1", []⟩]
    namedExpressions :=
      [("clock", ⟨clockPos, [.function .funcNow, .parenOpen, .parenClose]⟩)]
    cells := fun addr ↦ if addr = clockPos then .formula clockCell else .empty
    statusCount := 1 }

/-- The tokens that are interpreted. -/
def clockTokens : List FormulaToken :=
  [.parenOpen, .function .funcNow, .parenOpen, .parenClose, .parenClose]

theorem getRefTokens_clock : clockContext.getRefTokens 1 clockCell clockPos = .ok [] :=
  rfl

theorem expandedTokens_clock : clockContext.expandedTokens 1 clockCell clockPos = .ok clockTokens :=
  rfl

/-- A registered formula may read something that is not tracked: a volatile function
that is called through a name is not seen by the registration. -/
theorem not_everyReadTracked_clock :
    ¬ ∀ (cxt cxt' : ModelContext Ranges (ListTree Ranges)) (depth : Nat) (pos : AbsAddress)
      (cell : FormulaCell) (exp : List FormulaToken), cxt.tracker.Reachable →
      cxt.getFormulaCell pos = .ok (some cell) →
      registerFormulaCell depth pos none cxt = .ok () cxt' →
      cxt'.expandedTokens depth cell pos = .ok exp → cxt'.EveryReadTracked pos exp := by
  intro h
  have hregister : registerFormulaCell 1 clockPos none clockContext = .ok () clockContext :=
    (registerFormulaCell_eq_ok_iff (show clockContext.getFormulaCell clockPos = _ from rfl)).mpr
      ⟨[], getRefTokens_clock, fun t ht ↦ absurd ht List.not_mem_nil, rfl⟩
  have hread := h clockContext clockContext 1 clockPos clockCell clockTokens .new rfl hregister
    expandedTokens_clock
  obtain ⟨r, _, hr | ⟨m, ⟨a, ha, _⟩ | hm, _⟩⟩ :=
    mem_queryDirtyCells_iff.mp (hread.volatile rfl [])
  · exact List.not_mem_nil hr
  · exact List.not_mem_nil ha
  · exact List.not_mem_nil hm

theorem everyReadTracked_iff_clock :
    (∀ tracker : DirtyCellTracker Ranges (ListTree Ranges), tracker.Reachable →
      (clockContext.withTracker tracker).IsRegistered clockCell clockPos [] →
      (clockContext.withTracker tracker).EveryReadTracked clockPos clockTokens) ↔
    hasVolatile clockCell.tokens = true ∨ (hasVolatile clockTokens = false ∧
      ∀ table, .tableRef table ∈ clockTokens → ∀ a, clockContext.inWorkbook a = true →
        clockContext.RefersTo clockPos (.tableRef table) a →
        ∃ t ∈ ([] : List FormulaToken), (clockContext.destRange clockPos t).contains a = true) :=
  everyReadTracked_iff getRefTokens_clock (fun _ ht ↦ absurd ht List.not_mem_nil)
    expandedTokens_clock

end ModelContext

end Ixion
