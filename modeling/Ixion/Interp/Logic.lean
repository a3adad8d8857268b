import Ixion.Interp.Aggregates

/-!
# Conjunctions and disjunctions

AND and OR go over their arguments from the last one on and stop at the first one that settles the
outcome.  A range is gone through block by block, and a block of formula cells cell by cell.  OR
stops at the first true value on each of these levels.  AND stops at false blocks only, and of the
formula cells in a block it is the last one that counts (`conjoins_iff`).  On both sides an argument
of some kinds is an error, unless the outcome is settled before it is looked at (`disjoins_iff`).
-/

namespace Ixion

open Lib ValueStack

namespace FormulaFunctions

variable {f : FormulaFunctions} {result : FormulaCell → Except Exn FormulaResult}
  {args : List StackValue} {a : AbsAddress} {r : AbsRange} {c : CellValue}

/-! ## Reading cells -/

/-- The number in a cell that can be read. -/
def cellNumber (f : FormulaFunctions) (result : FormulaCell → Except Exn FormulaResult)
    (a : AbsAddress) : Option ℚ :=
  match f.workbook.readCell result a with
  | .ok c => c.number?
  | .error _ => none

theorem numbers_eq (l : List AbsAddress) : f.numbers result l = l.filterMap (f.cellNumber result) :=
  rfl

theorem cellNumber_eq (h : f.workbook.readCell result a = .ok c) :
    f.cellNumber result a = c.number? := by
  rw [cellNumber, h]

theorem numbers_singleton (h : f.workbook.readCell result a = .ok c) :
    f.numbers result [a] = c.number?.toList := by
  rw [numbers_eq, ← cellNumber_eq h]
  cases hn : f.cellNumber result a with
  | none => rw [List.filterMap_cons_none hn]; rfl
  | some v => rw [List.filterMap_cons_some hn]; rfl

/-- A cell with a number is true if it is not 0. -/
theorem run_getBooleanValue {v : ℚ} (h : f.workbook.readCell result a = .ok c)
    (hv : c.number? = some v) :
    (Reader.getBooleanValue a).run (f.workbook.answers result) = .ok (decide (v ≠ 0)) := by
  rw [Reader.getBooleanValue, Query.run_bind, Workbook.run_getCellValue_answers, h]
  cases c with
  | empty => cases hv
  | string s => cases hv
  | numeric w => rw [← Option.some.inj hv]; rfl
  | boolean b =>
    rw [← Option.some.inj hv]
    cases b <;> rfl
  | formula row column res =>
    show (Reader.ofExcept (fetchValueFromResult row column res) >>= fun v ↦ _ : Reader Bool).run _
      = _
    rw [CellValue.fetchValueFromResult_eq_ok_iff.mpr hv]
    rfl

/-- The Boolean value of a cell that is referred to alone. -/
def singleBoolean (a : AbsAddress) : Reader (Option Bool) := do
  match ← Reader.getCellValueType a with
  | .boolean | .numeric => return some (← Reader.getBooleanValue a)
  | _ => return none

/-- A cell that is referred to alone has the Boolean value of its number. -/
theorem run_singleBoolean (h : f.workbook.readCell result a = .ok c) :
    (singleBoolean a).run (f.workbook.answers result) =
      ofExn (c.single?.map fun v ↦ v.map fun v ↦ decide (v ≠ 0)) := by
  have hboolean {v : ℚ} (hv : c.number? = some v) :
      (Reader.getBooleanValue a >>= fun b ↦ Pure.pure (some b) : Reader (Option Bool)).run
        (f.workbook.answers result) = .ok (some (decide (v ≠ 0))) := by
    rw [Query.run_bind, run_getBooleanValue h hv]
    rfl
  rw [singleBoolean, Query.run_bind, Reader.getCellValueType, Query.run_bind,
    Workbook.run_getCellValue_answers, h]
  cases c with
  | empty => rfl
  | string s => rfl
  | boolean b => exact hboolean rfl
  | numeric v => exact hboolean rfl
  | formula row column res =>
    show ((Reader.ofExcept (getSingleFormulaResult row column res) >>= fun r ↦ _).run _ >>=
      fun t ↦ _) = ofExn ((CellValue.single? _).map _)
    rw [getSingleFormulaResult_eq, CellValue.single?, CellValue.isMatrix, CellValue.number?]
    rw [CellValue.number?] at hboolean
    cases hsingle : singleResult row column res with
    | string s => rfl
    | error e => rfl
    | matrix m => rfl
    | boolean b => exact hboolean (by rw [hsingle]; rfl)
    | value v => exact hboolean (by rw [hsingle]; rfl)

/-- The result of a formula cell has the number of the cell. -/
theorem exists_run_getFormulaResult (hin : f.workbook.inWorkbook a = true)
    (htype : (f.workbook.cells a).type = .formula) (h : f.workbook.readCell result a = .ok c) :
    ∃ res, (Reader.getFormulaResult a).run (f.workbook.answers result) = .ok res ∧
      res.number? = c.number? := by
  cases hcell : f.workbook.cells a with
  | formula fc =>
    rw [Workbook.readCell_of_inWorkbook hin, hcell] at h
    rw [Workbook.run_getFormulaResult hin hcell]
    dsimp only at h
    cases hres : result fc with
    | error e => exact nomatch hres ▸ h
    | ok res =>
      rw [hres] at h
      obtain rfl := Except.ok.inj h
      exact ⟨_, rfl, rfl⟩
  | _ => exact nomatch hcell ▸ htype

/-- A cell with a Boolean value or a number is read as it. -/
theorem run_getBooleanValue_of_type (hin : f.workbook.inWorkbook a = true)
    (htype : (f.workbook.cells a).type = .boolean ∨ (f.workbook.cells a).type = .numeric) :
    ∃ v, f.cellNumber result a = some v ∧
      (Reader.getBooleanValue a).run (f.workbook.answers result) = .ok (decide (v ≠ 0)) := by
  have hread := @Workbook.readCell_of_inWorkbook _ result _ hin
  cases hcell : f.workbook.cells a with
  | boolean b =>
    rw [hcell] at hread
    exact ⟨_, cellNumber_eq hread, run_getBooleanValue hread rfl⟩
  | numeric v =>
    rw [hcell] at hread
    exact ⟨_, cellNumber_eq hread, run_getBooleanValue hread rfl⟩
  | _ => rcases htype with h | h <;> exact nomatch hcell ▸ h

/-- A cell with a string or nothing has no number. -/
theorem cellNumber_of_type (hin : f.workbook.inWorkbook a = true)
    (htype : (f.workbook.cells a).type = .empty ∨ (f.workbook.cells a).type = .string) :
    f.cellNumber result a = none := by
  have hread := @Workbook.readCell_of_inWorkbook _ result _ hin
  cases hcell : f.workbook.cells a with
  | empty =>
    rw [hcell] at hread
    exact cellNumber_eq hread
  | string sid =>
    rw [hcell] at hread
    exact cellNumber_eq hread
  | _ => rcases htype with h | h <;> exact nomatch hcell ▸ h

/-! ## Blocks -/

/-- Of formula cells the last one with a Boolean value or a number counts. -/
theorem run_foldlM_formula {l : List AbsAddress}
    (h : ∀ a ∈ l, f.workbook.inWorkbook a = true ∧ (f.workbook.cells a).type = .formula ∧
      f.Readable result a) (b : Bool) :
    (l.foldlM (fun b addr ↦ do
      match ← Reader.getFormulaResult addr with
      | .boolean b => return b
      | .value v => return v ≠ 0
      | _ => return b) b : Reader Bool).run (f.workbook.answers result) =
      .ok (((f.numbers result l).getLast?.map fun v ↦ decide (v ≠ 0)).getD b) := by
  induction l generalizing b with
  | nil => rfl
  | cons a l ih =>
    obtain ⟨hin, htype, c, hc⟩ := h a List.mem_cons_self
    obtain ⟨res, hrun, hnumber⟩ := exists_run_getFormulaResult hin htype hc
    have hstep : ((do
        match ← Reader.getFormulaResult a with
        | .boolean b => return b
        | .value v => return v ≠ 0
        | _ => return b : Reader Bool)).run (f.workbook.answers result) =
          .ok (((f.cellNumber result a).map fun v ↦ decide (v ≠ 0)).getD b) := by
      rw [Query.run_bind, hrun, cellNumber_eq hc, ← hnumber]
      cases res with
      | boolean b => cases b <;> rfl
      | _ => rfl
    rw [List.foldlM_cons, Query.run_bind, hstep]
    refine (ih (fun a' ha' ↦ h a' (List.mem_cons_of_mem a ha')) _).trans ?_
    rw [numbers_eq, numbers_eq]
    cases hnone : f.cellNumber result a with
    | none => rw [List.filterMap_cons_none hnone]; rfl
    | some v =>
      rw [List.filterMap_cons_some hnone, List.getLast?_cons]
      cases (l.filterMap (f.cellNumber result)).getLast? <;> rfl

/-- Of formula cells the first true one counts. -/
theorem run_orFormulas {l : List AbsAddress}
    (h : ∀ a ∈ l, f.workbook.inWorkbook a = true ∧ (f.workbook.cells a).type = .formula ∧
      f.Readable result a) :
    (orFormulas l false).run (f.workbook.answers result) =
      .ok ((f.numbers result l).any fun v ↦ decide (v ≠ 0)) := by
  induction l with
  | nil => rfl
  | cons a l ih =>
    obtain ⟨hin, htype, c, hc⟩ := h a List.mem_cons_self
    obtain ⟨res, hrun, hnumber⟩ := exists_run_getFormulaResult hin htype hc
    have ih := ih fun a' ha' ↦ h a' (List.mem_cons_of_mem a ha')
    rw [← cellNumber_eq hc] at hnumber
    rw [orFormulas, Query.run_bind, hrun, numbers_eq]
    cases hnone : f.cellNumber result a with
    | none =>
      rw [List.filterMap_cons_none hnone]
      rw [hnone] at hnumber
      cases res with
      | boolean b => exact nomatch hnumber
      | value v => exact nomatch hnumber
      | _ => exact ih
    | some v =>
      rw [List.filterMap_cons_some hnone, List.any_cons]
      rw [hnone] at hnumber
      have hrest (b : Bool) : (if b = true then Pure.pure true else orFormulas l b).run
          (f.workbook.answers result) =
            .ok (b || (f.numbers result l).any fun v ↦ decide (v ≠ 0)) := by
        cases b with
        | true => rfl
        | false => exact ih
      cases res with
      | boolean b =>
        rw [← Option.some.inj hnumber]
        refine (hrest b).trans ?_
        cases b <;> rfl
      | value w =>
        rw [← Option.some.inj hnumber]
        exact hrest (decide (w ≠ 0))
      | _ => exact nomatch hnumber

/-- The cells of a block have its type. -/
def IsBlock (f : FormulaFunctions) (sheet : Int) (seg : Workbook.Segment) : Prop :=
  ∀ a ∈ seg.addresses sheet, f.workbook.inWorkbook a = true ∧ (f.workbook.cells a).type = seg.type

section Blocks

variable {sheet : Int} {seg : Workbook.Segment} (hblock : f.IsBlock sheet seg)
  (hread : ∀ a ∈ seg.addresses sheet, f.Readable result a)

include hblock

/-- The values of a block of Boolean values or numbers. -/
theorem run_mapM_getBooleanValue (htype : seg.type = .boolean ∨ seg.type = .numeric) :
    ∃ bs : List Bool,
      ((seg.addresses sheet).mapM Reader.getBooleanValue).run (f.workbook.answers result) = .ok bs ∧
        bs = (f.numbers result (seg.addresses sheet)).map fun v ↦ decide (v ≠ 0) := by
  have hcells (a : AbsAddress) (ha : a ∈ seg.addresses sheet) :=
    @run_getBooleanValue_of_type _ result _ (hblock a ha).1 ((hblock a ha).2 ▸ htype)
  refine ⟨_, ?_, rfl⟩
  rw [Query.run_mapM, numbers_eq]
  generalize seg.addresses sheet = l at hcells
  induction l with
  | nil => rfl
  | cons a l ih =>
    obtain ⟨v, hv, hrun⟩ := hcells a List.mem_cons_self
    rw [List.mapM_cons, hrun, ih fun a' ha' ↦ hcells a' (List.mem_cons_of_mem a ha'),
      List.filterMap_cons_some hv]
    rfl

theorem numbers_of_type (htype : seg.type = .empty ∨ seg.type = .string) :
    f.numbers result (seg.addresses sheet) = [] :=
  List.filterMap_eq_nil_iff.mpr fun a ha ↦
    cellNumber_of_type (hblock a ha).1 ((hblock a ha).2 ▸ htype)

/-- Whether AND takes a block for true.  Of formula cells the last one counts that has a Boolean
value or a number. -/
def blockHolds (f : FormulaFunctions) (result : FormulaCell → Except Exn FormulaResult)
    (sheet : Int) (seg : Workbook.Segment) : Bool :=
  if seg.type = .formula then
    (f.numbers result (seg.addresses sheet)).getLast?.all fun v ↦ decide (v ≠ 0)
  else (f.numbers result (seg.addresses sheet)).all fun v ↦ decide (v ≠ 0)

include hread

/-- AND goes on after a block that it takes for true. -/
theorem run_andSegment :
    (andSegment sheet seg true).run (f.workbook.answers result) =
      .ok (f.blockHolds result sheet seg, f.blockHolds result sheet seg) := by
  rw [andSegment, blockHolds]
  cases htype : seg.type with
  | formula =>
    have hfold := @run_foldlM_formula _ result _ (fun a ha ↦
      ⟨(hblock a ha).1, (hblock a ha).2.trans htype, hread a ha⟩) true
    dsimp only
    rw [if_pos rfl, Query.run_bind]
    refine (congrArg (· >>= fun b ↦ Except.ok (b, b)) hfold).trans ?_
    cases (f.numbers result (seg.addresses sheet)).getLast? <;> rfl
  | empty | string =>
    rw [if_neg nofun, numbers_of_type hblock (by rw [htype]; decide)]
    rfl
  | boolean | numeric =>
    obtain ⟨bs, hrun, rfl⟩ := @run_mapM_getBooleanValue _ result _ _ hblock
      (by rw [htype]; decide)
    dsimp only
    rw [if_neg nofun, Query.run_bind, hrun]
    show Except.ok (List.all _ id, List.all _ id) = _
    rw [List.all_map]
    rfl

/-- OR goes on after a block without a true value. -/
theorem run_orSegment :
    (orSegment sheet seg false).run (f.workbook.answers result) =
      .ok ((f.numbers result (seg.addresses sheet)).any fun v ↦ decide (v ≠ 0),
        !(f.numbers result (seg.addresses sheet)).any fun v ↦ decide (v ≠ 0)) := by
  rw [orSegment]
  cases htype : seg.type with
  | formula =>
    dsimp only
    rw [Query.run_bind, run_orFormulas fun a ha ↦
      ⟨(hblock a ha).1, (hblock a ha).2.trans htype, hread a ha⟩]
    rfl
  | empty | string =>
    rw [numbers_of_type hblock (by rw [htype]; decide)]
    rfl
  | boolean | numeric =>
    obtain ⟨bs, hrun, rfl⟩ := @run_mapM_getBooleanValue _ result _ _ hblock
      (by rw [htype]; decide)
    dsimp only
    rw [Query.run_bind, hrun]
    show Except.ok (List.any _ id, !List.any _ id) = _
    rw [List.any_map]
    rfl

end Blocks

/-! ## Ranges -/

section Ranges

/-- Blocks are gone through as long as their values are a given one. -/
theorem run_walkSegments_eq_scan {cb : Workbook.ColumnBlockCallback Bool}
    {segs : List Workbook.Segment} {d : Bool} {read : Workbook.Segment → Except Failure Bool}
    (h : ∀ seg ∈ segs, (cb seg d).run (f.workbook.answers result) =
      (read seg).map fun b ↦ (b, b == d)) :
    (Workbook.walkSegments cb segs d).run (f.workbook.answers result) =
      (scan d read segs).map fun b ↦ (b, b == d) := by
  induction segs with
  | nil => exact congrArg (fun b ↦ Except.ok (d, b)) (beq_self_eq_true d).symm
  | cons seg segs ih =>
    have ih := ih fun seg' hseg' ↦ h seg' (List.mem_cons_of_mem seg hseg')
    rw [Workbook.walkSegments, Query.run_bind, h seg List.mem_cons_self]
    cases hread : read seg with
    | error e =>
      rw [scan_cons_of_error hread]
      rfl
    | ok b =>
      by_cases hb : b = d
      · subst hb
        rw [scan_cons_of_ok hread, ← ih]
        show (if (b == b) = true then Workbook.walkSegments cb segs b else Pure.pure (b, false)).run
          _ = _
        rw [if_pos (beq_self_eq_true b)]
      · rw [scan_cons_of_ne hread hb]
        show (if (b == d) = true then Workbook.walkSegments cb segs b else Pure.pure (b, false)).run
          _ = Except.ok (b, b == d)
        rw [beq_false_of_ne hb]
        rfl

/-- The blocks of a range. -/
theorem isBlock_of_mem_rangeSegments (h : r.InSheet f.workbook) {seg : Workbook.Segment}
    (hseg : seg ∈ f.workbook.rangeSegments r) : f.IsBlock r.first.sheet seg :=
  (Workbook.rangeSegments_addresses h).2 seg hseg

theorem numbers_rangeSegments (h : r.InSheet f.workbook) :
    (f.workbook.rangeSegments r).flatMap
        (fun seg ↦ f.numbers result (seg.addresses r.first.sheet)) =
      f.numbers result r.addresses := by
  rw [← (Workbook.rangeSegments_addresses h).1, numbers_eq, List.filterMap_flatMap]
  rfl

theorem readable_of_mem_rangeSegments (h : r.InSheet f.workbook)
    (hread : ∀ a ∈ r.addresses, f.Readable result a) {seg : Workbook.Segment}
    (hseg : seg ∈ f.workbook.rangeSegments r) :
    ∀ a ∈ seg.addresses r.first.sheet, f.Readable result a := by
  intro a ha
  refine hread a ?_
  rw [← (Workbook.rangeSegments_addresses h).1]
  exact List.mem_flatMap.mpr ⟨seg, hseg, ha⟩

variable (h : r.InSheet f.workbook) (hread : ∀ a ∈ r.addresses, f.Readable result a)

include h hread

/-- AND takes a range for true if it does so for each of its blocks. -/
theorem run_walk_andSegment :
    (f.workbook.walk r.first.sheet r (andSegment r.first.sheet) true).run
        (f.workbook.answers result) =
      .ok (decide (∀ seg ∈ f.workbook.rangeSegments r,
        f.blockHolds result r.first.sheet seg = true)) := by
  have hsegs : ∀ seg ∈ f.workbook.rangeSegments r,
      (andSegment r.first.sheet seg true).run (f.workbook.answers result) =
        (Except.ok (f.blockHolds result r.first.sheet seg)).map fun b ↦ (b, b == true) := by
    intro seg hseg
    rw [run_andSegment (isBlock_of_mem_rangeSegments h hseg)
      (readable_of_mem_rangeSegments h hread hseg)]
    cases f.blockHolds result r.first.sheet seg <;> rfl
  rw [Workbook.run_walk h, run_walkSegments_eq_scan hsegs, scan_eq_ok fun seg _ ↦ rfl]
  refine congrArg Except.ok ?_
  split
  case isTrue hall => exact (decide_eq_true hall).symm
  case isFalse hno => exact (decide_eq_false hno).symm

/-- OR takes a range for true if one of its numbers is. -/
theorem run_walk_orSegment :
    (f.workbook.walk r.first.sheet r (orSegment r.first.sheet) false).run
        (f.workbook.answers result) =
      .ok (decide (∃ v ∈ f.numbers result r.addresses, v ≠ 0)) := by
  have hsegs : ∀ seg ∈ f.workbook.rangeSegments r,
      (orSegment r.first.sheet seg false).run (f.workbook.answers result) =
        (Except.ok ((f.numbers result (seg.addresses r.first.sheet)).any fun v ↦
          decide (v ≠ 0))).map fun b ↦ (b, b == false) := by
    intro seg hseg
    rw [run_orSegment (isBlock_of_mem_rangeSegments h hseg)
      (readable_of_mem_rangeSegments h hread hseg)]
    cases (f.numbers result (seg.addresses r.first.sheet)).any fun v ↦ decide (v ≠ 0) <;> rfl
  rw [Workbook.run_walk h, run_walkSegments_eq_scan hsegs, scan_eq_ok fun seg _ ↦ rfl,
    ← numbers_rangeSegments h]
  refine congrArg Except.ok ?_
  split
  case isTrue hall =>
    refine (decide_eq_false ?_).symm
    rintro ⟨v, hv, hne⟩
    obtain ⟨seg, hseg, hmem⟩ := List.mem_flatMap.mp hv
    have hany := List.any_eq_false.mp (hall seg hseg) v hmem
    exact hany (decide_eq_true hne)
  case isFalse hno =>
    refine (decide_eq_true ?_).symm
    by_contra hnone
    refine hno fun seg hseg ↦ List.any_eq_false.mpr fun v hv hne ↦ hnone ?_
    exact ⟨v, List.mem_flatMap.mpr ⟨seg, hseg, hv⟩, of_decide_eq_true hne⟩

end Ranges

/-! ## Arguments -/

section Loops

variable {ans : ∀ i : Question, Except Failure i.Answer} {more : Bool → Bool}
  {step : Bool → StackM Bool} {d : Bool}

/-- A loop over the arguments ends where going on is not wanted. -/
theorem run_loop_of_not_more {b : Bool} (hb : more b = false) (n : Nat) (stack : ValueStack) :
    (forArgs.loop more step n b stack).run ans = .ok (b, stack) := by
  cases n with
  | zero => rfl
  | succ n =>
    show ((if (stack.isEmpty || !more b) = true then Pure.pure b else _ : StackM Bool) stack).run
      _ = _
    rw [hb, Bool.not_false, Bool.or_true]
    rfl

/-- A loop over the arguments that goes on as long as their values are a given one. -/
theorem run_forArgs_scan (hmore : ∀ b, more b = (b == d))
    {read : StackValue → Except Failure Bool} {stack : ValueStack}
    (h : ∀ v ∈ stack, ∀ rest, (step d (v :: rest)).run ans = (read v).map (·, rest)) :
    ∃ rest, (forArgs more step d stack).run ans = (scan d read stack).map (·, rest) := by
  show ∃ rest, (forArgs.loop more step stack.length d stack).run ans = _
  induction stack with
  | nil => exact ⟨[], rfl⟩
  | cons v stack ih =>
    have hgo : more d = true := (hmore d).trans (beq_self_eq_true d)
    have hstep : (forArgs.loop more step (v :: stack).length d (v :: stack)).run ans =
        (step d (v :: stack)).run ans >>= fun p ↦
          (forArgs.loop more step stack.length p.1 p.2).run ans := by
      show ((if (false || !more d) = true then Pure.pure d else
        (step d >>= forArgs.loop more step stack.length) : StackM Bool) (v :: stack)).run _ = _
      rw [hgo]
      exact run_bind_apply _ _ _
    rw [hstep, h v List.mem_cons_self]
    cases hread : read v with
    | error e =>
      rw [scan_cons_of_error hread]
      exact ⟨[], rfl⟩
    | ok b =>
      by_cases hb : b = d
      · subst hb
        rw [scan_cons_of_ok hread]
        exact ih fun v' hv' ↦ h v' (List.mem_cons_of_mem v hv')
      · rw [scan_cons_of_ne hread hb]
        exact ⟨stack, run_loop_of_not_more ((hmore b).trans (beq_false_of_ne hb)) _ _⟩

/-- The value of the loop takes the place of the arguments. -/
theorem run_forArgs_clearAndPush (hmore : ∀ b, more b = (b == d))
    {read : StackValue → Except Failure Bool} {stack : ValueStack}
    (h : ∀ v ∈ stack, ∀ rest, (step d (v :: rest)).run ans = (read v).map (·, rest)) :
    ((forArgs more step d >>= fun b ↦ clearAndPush (.boolean b)) stack).run ans =
      (scan d read stack).map fun b ↦ ((), [.boolean b]) := by
  obtain ⟨rest, hrun⟩ := run_forArgs_scan hmore h
  rw [run_bind_apply, hrun]
  cases scan d read stack <;> rfl

end Loops

/-- What an argument is taken for, where the outcome is a given value so far. -/
def logicalArg (f : FormulaFunctions) (result : FormulaCell → Except Exn FormulaResult) (d : Bool)
    (segment : Int → Workbook.ColumnBlockCallback Bool) : StackValue → Except Failure Bool
  | .value v => .ok (decide (v ≠ 0))
  | .string _ => .ok d
  | .singleRef a => ((singleBoolean a).run (f.workbook.answers result)).map (·.getD d)
  | .rangeRef r =>
    (f.workbook.walk r.first.sheet r (segment r.first.sheet) d).run (f.workbook.answers result)
  | .boolean _ | .error _ | .matrix _ => .error (.exception (.formulaError .generalError))

/-- A single value is popped as a Boolean value. -/
theorem run_popOneValueAsBoolean_singleRef (a : AbsAddress) (d : Bool) (rest : ValueStack) :
    ((popOneValueAsBoolean >>= fun v ↦ Pure.pure (v.getD d) : StackM Bool)
        (.singleRef a :: rest)).run (f.workbook.answers result) =
      (((singleBoolean a).run (f.workbook.answers result)).map (·.getD d)).map (·, rest) := by
  have hpop : (popOneValueAsBoolean (.singleRef a :: rest)).run (f.workbook.answers result) =
      ((singleBoolean a).run (f.workbook.answers result)).map (·, rest) := by
    show ((liftM (Reader.getCellValueType a) >>= fun t ↦ match t with
      | .boolean | .numeric => (do return some (← liftM (Reader.getBooleanValue a)))
      | _ => return none : StackM (Option Bool)) rest).run _ = _
    rw [run_bind_apply, run_lift_apply, singleBoolean, Query.run_bind]
    cases (Reader.getCellValueType a).run (f.workbook.answers result) with
    | error e => rfl
    | ok t =>
      have hread : ((do return some (← liftM (Reader.getBooleanValue a)) :
          StackM (Option Bool)) rest).run (f.workbook.answers result) =
          ((Reader.getBooleanValue a >>= fun b ↦ Pure.pure (some b) : Reader (Option Bool)).run
            (f.workbook.answers result)).map (·, rest) := by
        rw [run_bind_apply, run_lift_apply, Query.run_bind]
        cases (Reader.getBooleanValue a).run (f.workbook.answers result) <;> rfl
      cases t with
      | boolean => exact hread
      | numeric => exact hread
      | _ => rfl
  rw [run_bind_apply, hpop]
  cases (singleBoolean a).run (f.workbook.answers result) <;> rfl

/-- AND goes over its arguments from the last one on. -/
theorem handle_funcAnd :
    f.handle result .funcAnd args =
      (scan true (f.logicalArg result true andSegment) args.reverse).map fun b ↦
        ((), [.boolean b]) := by
  refine run_forArgs_clearAndPush (fun b ↦ by cases b <;> rfl) fun v _ rest ↦ ?_
  rw [back_bind]
  cases v with
  | singleRef a => exact run_popOneValueAsBoolean_singleRef a true rest
  | rangeRef r => exact run_lift_apply _ _
  | _ => rfl

/-- OR goes over its arguments from the last one on. -/
theorem handle_funcOr :
    f.handle result .funcOr args =
      (scan false (f.logicalArg result false orSegment) args.reverse).map fun b ↦
        ((), [.boolean b]) := by
  refine run_forArgs_clearAndPush (fun b ↦ by cases b <;> rfl) fun v _ rest ↦ ?_
  rw [back_bind]
  cases v with
  | singleRef a => exact run_popOneValueAsBoolean_singleRef a false rest
  | rangeRef r => exact run_lift_apply _ _
  | _ => rfl

/-! ## What the arguments are taken for -/

/-- An argument of AND or OR, whose cells can be read. -/
def LogicalArgument (f : FormulaFunctions) (result : FormulaCell → Except Exn FormulaResult) :
    StackValue → Prop
  | .value _ | .boolean _ | .string _ => True
  | .singleRef a => f.Readable result a
  | .rangeRef r => r.InSheet f.workbook ∧ ∀ a ∈ r.addresses, f.Readable result a
  | .error _ | .matrix _ => False

/-- An argument that is not accepted: a Boolean value, or a cell alone with a matrix of which no
part is its own. -/
def Breaks (f : FormulaFunctions) (result : FormulaCell → Except Exn FormulaResult) :
    StackValue → Prop
  | .boolean _ => True
  | .singleRef a => ∃ c, f.workbook.readCell result a = .ok c ∧ c.isMatrix = true
  | _ => False

/-- An argument that is false where AND looks. -/
def FoundFalse (f : FormulaFunctions) (result : FormulaCell → Except Exn FormulaResult) :
    StackValue → Prop
  | .value v => v = 0
  | .singleRef a => 0 ∈ f.numbers result [a]
  | .rangeRef r =>
    ∃ seg ∈ f.workbook.rangeSegments r, f.blockHolds result r.first.sheet seg = false
  | _ => False

/-- An argument with a true value. -/
def HasTrue (f : FormulaFunctions) (result : FormulaCell → Except Exn FormulaResult)
    (v : StackValue) : Prop := ∃ x ∈ f.argNumbers result v, x ≠ 0

/-- A cell with a matrix has no number. -/
theorem number?_of_isMatrix (h : c.isMatrix = true) : c.number? = none := by
  cases c with
  | formula row column res =>
    rw [CellValue.isMatrix] at h
    rw [CellValue.number?]
    cases hsingle : singleResult row column res with
    | matrix m => rfl
    | _ => rw [hsingle] at h; cases h
  | _ => cases h

/-- What a cell alone is taken for. -/
theorem logicalArg_singleRef {d : Bool} {segment : Int → Workbook.ColumnBlockCallback Bool}
    (h : f.workbook.readCell result a = .ok c) (hmatrix : c.isMatrix = false) :
    f.logicalArg result d segment (.singleRef a) =
      .ok ((c.number?.map fun v ↦ decide (v ≠ 0)).getD d) := by
  rw [logicalArg, run_singleBoolean h, CellValue.single?, if_neg (by rw [hmatrix]; decide)]
  rfl

/-- AND and OR fail at an argument that is not accepted. -/
theorem logicalArg_of_breaks {v : StackValue} (d : Bool)
    (segment : Int → Workbook.ColumnBlockCallback Bool) (h : f.Breaks result v) :
    ∃ e, f.logicalArg result d segment v = .error (.exception e) := by
  cases v with
  | boolean b => exact ⟨_, rfl⟩
  | singleRef a =>
    obtain ⟨c, hc, hmatrix⟩ := h
    rw [logicalArg, run_singleBoolean hc, CellValue.single?, if_pos hmatrix]
    exact ⟨_, rfl⟩
  | _ => exact h.elim

/-- A cell alone that is accepted. -/
theorem exists_readCell_of_not_breaks (h : f.Readable result a)
    (hbreaks : ¬f.Breaks result (.singleRef a)) :
    ∃ c, f.workbook.readCell result a = .ok c ∧ c.isMatrix = false := by
  obtain ⟨c, hc⟩ := h
  refine ⟨c, hc, Bool.eq_false_iff.mpr fun hmatrix ↦ hbreaks ⟨c, hc, hmatrix⟩⟩

section Outcomes

variable {v : StackValue} (hv : f.LogicalArgument result v) (hbreaks : ¬f.Breaks result v)

include hv hbreaks

/-- AND takes an argument for false if it finds something false in it. -/
theorem logicalArg_and :
    ∃ b, f.logicalArg result true andSegment v = .ok b ∧ (b = false ↔ f.FoundFalse result v) := by
  cases v with
  | value x => exact ⟨_, rfl, decide_eq_false_iff_not.trans not_not⟩
  | string s => exact ⟨true, rfl, nofun, False.elim⟩
  | boolean b => exact absurd trivial hbreaks
  | error e => exact hv.elim
  | matrix m => exact hv.elim
  | rangeRef r =>
    refine ⟨_, run_walk_andSegment hv.1 hv.2, decide_eq_false_iff_not.trans ?_⟩
    rw [not_forall]
    simp only [FoundFalse, Classical.not_imp, Bool.not_eq_true]
  | singleRef a =>
    obtain ⟨c, hc, hmatrix⟩ := exists_readCell_of_not_breaks hv hbreaks
    refine ⟨_, logicalArg_singleRef hc hmatrix, ?_⟩
    rw [FoundFalse, numbers_singleton hc]
    cases c.number? with
    | none => exact ⟨nofun, nofun⟩
    | some x =>
      rw [Option.toList_some, List.mem_singleton]
      exact decide_eq_false_iff_not.trans (not_not.trans eq_comm)

/-- OR takes an argument for true if it has a true value. -/
theorem logicalArg_or :
    ∃ b, f.logicalArg result false orSegment v = .ok b ∧ (b = true ↔ f.HasTrue result v) := by
  cases v with
  | value x => exact ⟨_, rfl, decide_eq_true_iff.trans (by simp [HasTrue, argNumbers])⟩
  | string s => exact ⟨false, rfl, nofun, fun ⟨x, hx, _⟩ ↦ (nomatch hx)⟩
  | boolean b => exact absurd trivial hbreaks
  | error e => exact hv.elim
  | matrix m => exact hv.elim
  | rangeRef r => exact ⟨_, run_walk_orSegment hv.1 hv.2, decide_eq_true_iff⟩
  | singleRef a =>
    obtain ⟨c, hc, hmatrix⟩ := exists_readCell_of_not_breaks hv hbreaks
    refine ⟨_, logicalArg_singleRef hc hmatrix, ?_⟩
    rw [HasTrue, argNumbers, numbers_singleton hc]
    cases c.number? with
    | none => exact ⟨nofun, fun ⟨x, hx, _⟩ ↦ (nomatch hx)⟩
    | some x =>
      rw [Option.toList_some]
      exact decide_eq_true_iff.trans (by simp)

end Outcomes

/-- A call leaves a Boolean value if it is that of the loop. -/
theorem call_eq_ok_boolean_iff {func : FormulaFunction} {x : Except Failure Bool}
    (h : f.handle result func args = x.map fun b ↦ ((), [.boolean b])) {b : Bool} :
    f.call result func args = .ok [.boolean b] ↔ x = .ok b := by
  cases x with
  | ok b' =>
    rw [call_of_ok h]
    constructor
    · intro heq
      obtain ⟨⟩ := Except.ok.inj heq
      rfl
    · intro heq
      rw [Except.ok.inj heq]
  | error e =>
    refine iff_of_false (fun heq ↦ ?_) nofun
    by_cases he : IsException e
    · have herror := isError_call h he
      rw [heq] at herror
      rcases herror with ⟨e', h'⟩ | ⟨e', h'⟩
      · exact nomatch h'
      · exact nomatch h'
    · exact nomatch (call_of_failure h he).symm.trans heq

/-! ## Disjunctions -/

/-- OR is true if and only if one of the values among its arguments is. -/
def Disjoins (f : FormulaFunctions) (result : FormulaCell → Except Exn FormulaResult)
    (args : List StackValue) : Prop :=
  f.call result .funcOr args =
    .ok [.boolean (decide (∃ x ∈ args.flatMap (f.argNumbers result), x ≠ 0))]

theorem exists_mem_flatMap_iff :
    (∃ x ∈ args.flatMap (f.argNumbers result), x ≠ 0) ↔ ∃ v ∈ args, f.HasTrue result v := by
  constructor
  · rintro ⟨x, hx, hne⟩
    obtain ⟨v, hv, hmem⟩ := List.mem_flatMap.mp hx
    exact ⟨v, hv, x, hmem, hne⟩
  · rintro ⟨v, hv, x, hmem, hne⟩
    exact ⟨x, List.mem_flatMap.mpr ⟨v, hv, hmem⟩, hne⟩

/-- OR is the disjunction of its arguments if and only if each argument that is not accepted has an
argument with a true value after it. -/
theorem disjoins_iff (hargs : ∀ v ∈ args, f.LogicalArgument result v) :
    f.Disjoins result args ↔ ∀ l₁ v l₂, args = l₁ ++ v :: l₂ → f.Breaks result v →
      ∃ w ∈ l₂, f.HasTrue result w := by
  have hstack (v : StackValue) (hv : v ∈ args.reverse) : f.LogicalArgument result v :=
    hargs v (List.mem_reverse.mp hv)
  have hfalse (v : StackValue) (hv : v ∈ args.reverse) :
      f.logicalArg result false orSegment v = .ok false ↔
        ¬f.HasTrue result v ∧ ¬f.Breaks result v := by
    by_cases hbreaks : f.Breaks result v
    · obtain ⟨e, he⟩ := logicalArg_of_breaks false orSegment hbreaks
      rw [he]
      exact iff_of_false nofun fun h ↦ h.2 hbreaks
    · obtain ⟨b, hb, htrue⟩ := logicalArg_or (hstack v hv) hbreaks
      rw [hb, ← htrue, and_iff_left hbreaks, Bool.not_eq_true]
      exact ⟨Except.ok.inj, congrArg Except.ok⟩
  have herror (v : StackValue) (hv : v ∈ args.reverse) :
      (∃ e, f.logicalArg result false orSegment v = .error e) ↔ f.Breaks result v := by
    by_cases hbreaks : f.Breaks result v
    · obtain ⟨e, he⟩ := logicalArg_of_breaks false orSegment hbreaks
      exact iff_of_true ⟨_, he⟩ hbreaks
    · obtain ⟨b, hb, -⟩ := logicalArg_or (hstack v hv) hbreaks
      rw [hb]
      exact iff_of_false (fun ⟨e, h⟩ ↦ (nomatch h)) hbreaks
  -- the loop fails at the first argument that is not accepted, if nothing true comes before
  have hfails : (∃ e, scan false (f.logicalArg result false orSegment) args.reverse = .error e) ↔
      ∃ l₁ v l₂, args = l₁ ++ v :: l₂ ∧ f.Breaks result v ∧ ∀ w ∈ l₂, ¬f.HasTrue result w :=
    scan_eq_error_iff.trans ((firstBad_iff_of_good hfalse herror).trans firstBad_reverse_iff)
  rw [Disjoins, call_eq_ok_boolean_iff handle_funcOr]
  constructor
  · intro hscan l₁ v l₂ heq hbreaks
    by_contra hno
    obtain ⟨e, he⟩ := hfails.mpr ⟨l₁, v, l₂, heq, hbreaks, fun w hw htrue ↦ hno ⟨w, hw, htrue⟩⟩
    exact nomatch hscan.symm.trans he
  · intro hall
    cases hscan : scan false (f.logicalArg result false orSegment) args.reverse with
    | error e =>
      obtain ⟨l₁, v, l₂, heq, hbreaks, hnone⟩ := hfails.mp ⟨e, hscan⟩
      obtain ⟨w, hw, htrue⟩ := hall l₁ v l₂ heq hbreaks
      exact absurd htrue (hnone w hw)
    | ok b =>
      refine congrArg Except.ok ?_
      cases b with
      | false =>
        refine (decide_eq_false fun hex ↦ ?_).symm
        obtain ⟨v, hv, htrue⟩ := exists_mem_flatMap_iff.mp hex
        have hv := List.mem_reverse.mpr hv
        exact ((hfalse v hv).mp (scan_eq_ok_self_iff.mp hscan v hv)).1 htrue
      | true =>
        refine (decide_eq_true (exists_mem_flatMap_iff.mpr ?_)).symm
        obtain ⟨l₁, v, l₂, heq, -, hv⟩ := scan_eq_ok_not_iff.mp hscan
        have hmem : v ∈ args.reverse := heq ▸ List.mem_append_right _ List.mem_cons_self
        have hbreaks : ¬f.Breaks result v := fun hbreaks ↦ by
          obtain ⟨e, he⟩ := (herror v hmem).mpr hbreaks
          exact nomatch hv.symm.trans he
        obtain ⟨b, hb, htrue⟩ := logicalArg_or (hstack v hmem) hbreaks
        exact ⟨v, List.mem_reverse.mp hmem, htrue.mp (Except.ok.inj (hb.symm.trans hv))⟩

theorem disjoins_number :
    emptyFunctions.Disjoins (fun _ ↦ .ok (.value 0)) [.boolean true, .string [97], .value 3] := by
  refine (disjoins_iff fun v hv ↦ ?_).mpr fun l₁ v l₂ heq hbreaks ↦ ?_
  · rcases hv with _ | ⟨_, _ | ⟨_, _ | ⟨_, ⟨⟩⟩⟩⟩ <;> trivial
  · rcases l₁ with _ | ⟨_, l₁⟩
    · obtain ⟨rfl, rfl⟩ := List.cons.inj heq
      exact ⟨.value 3, List.mem_cons_of_mem _ (List.mem_singleton_self _), 3,
        List.mem_singleton_self _, by decide⟩
    · have hmem : v ∈ [StackValue.string [97], .value 3] := by
        rw [(List.cons.inj heq).2]
        exact List.mem_append_right _ List.mem_cons_self
      rcases hmem with _ | ⟨_, _ | ⟨_, ⟨⟩⟩⟩ <;> exact hbreaks.elim

/-- The functions for a workbook of one column of formula cells. -/
def formulaColumn (rows : Nat) : FormulaFunctions :=
  plain ⟨⟨rows, 1⟩, [⟨"Sheet", []⟩], [],
    fun a ↦ .formula ⟨[], -1, -1, a.row.toNat⟩, .new, none⟩ ⟨0, 0, 1⟩

/-- OR of 1 and a cell with a matrix is no Boolean value. -/
theorem not_disjoins_matrix :
    ¬(formulaColumn 1).Disjoins
      (fun _ ↦ .ok (.matrix (.new 2 2))) [.value 1, .singleRef ⟨0, 0, 0⟩] := by
  intro h
  exact nomatch h

/-! ## Conjunctions -/

/-- AND is true if and only if none of the values among its arguments is false. -/
def Conjoins (f : FormulaFunctions) (result : FormulaCell → Except Exn FormulaResult)
    (args : List StackValue) : Prop :=
  f.call result .funcAnd args =
    .ok [.boolean (decide (∀ x ∈ args.flatMap (f.argNumbers result), x ≠ 0))]

/-- A block that AND takes for false has a false value. -/
theorem exists_mem_of_blockHolds {sheet : Int} {seg : Workbook.Segment}
    (h : f.blockHolds result sheet seg = false) : 0 ∈ f.numbers result (seg.addresses sheet) := by
  rw [blockHolds] at h
  split at h
  case isTrue =>
    cases hlast : (f.numbers result (seg.addresses sheet)).getLast? with
    | none => exact nomatch hlast ▸ h
    | some x =>
      rw [hlast] at h
      obtain rfl : x = 0 := not_not.mp (of_decide_eq_false h)
      exact List.mem_of_getLast? hlast
  case isFalse =>
    obtain ⟨x, hx, hzero⟩ := List.all_eq_false.mp h
    obtain rfl : x = 0 := by simpa using hzero
    exact hx

/-- What AND finds false is. -/
theorem FoundFalse.zero_mem {v : StackValue} (hv : f.LogicalArgument result v)
    (h : f.FoundFalse result v) : 0 ∈ f.argNumbers result v := by
  cases v with
  | value x =>
    rw [argNumbers, h]
    exact List.mem_singleton_self 0
  | singleRef a => exact h
  | rangeRef r =>
    obtain ⟨seg, hseg, hholds⟩ := h
    rw [argNumbers, ← numbers_rangeSegments hv.1]
    exact List.mem_flatMap.mpr ⟨seg, hseg, exists_mem_of_blockHolds hholds⟩
  | _ => exact h.elim

/-- What AND finds false is accepted. -/
theorem FoundFalse.not_breaks {v : StackValue} (h : f.FoundFalse result v) :
    ¬f.Breaks result v := by
  cases v with
  | singleRef a =>
    rintro ⟨c, hc, hmatrix⟩
    rw [FoundFalse, numbers_singleton hc, number?_of_isMatrix hmatrix] at h
    exact nomatch h
  | boolean b => exact h.elim
  | _ => exact id

/-- AND is the conjunction of its arguments if and only if it finds an argument false after which
all are accepted, or all arguments are accepted and none of their values is false. -/
theorem conjoins_iff (hargs : ∀ v ∈ args, f.LogicalArgument result v) :
    f.Conjoins result args ↔
      (∃ l₁ v l₂, args = l₁ ++ v :: l₂ ∧ f.FoundFalse result v ∧ ∀ w ∈ l₂, ¬f.Breaks result w) ∨
        (∀ v ∈ args, ¬f.Breaks result v) ∧
          ∀ x ∈ args.flatMap (f.argNumbers result), x ≠ 0 := by
  have hstack (v : StackValue) (hv : v ∈ args.reverse) : f.LogicalArgument result v :=
    hargs v (List.mem_reverse.mp hv)
  have htrue (v : StackValue) (hv : v ∈ args.reverse) :
      f.logicalArg result true andSegment v = .ok true ↔
        ¬f.Breaks result v ∧ ¬f.FoundFalse result v := by
    by_cases hbreaks : f.Breaks result v
    · obtain ⟨e, he⟩ := logicalArg_of_breaks true andSegment hbreaks
      rw [he]
      exact iff_of_false nofun fun h ↦ h.1 hbreaks
    · obtain ⟨b, hb, hfound⟩ := logicalArg_and (hstack v hv) hbreaks
      rw [hb, ← hfound, and_iff_right hbreaks, Bool.not_eq_false]
      exact ⟨Except.ok.inj, congrArg Except.ok⟩
  have hfalse (v : StackValue) (hv : v ∈ args.reverse) :
      f.logicalArg result true andSegment v = .ok (!true) ↔ f.FoundFalse result v := by
    by_cases hbreaks : f.Breaks result v
    · obtain ⟨e, he⟩ := logicalArg_of_breaks true andSegment hbreaks
      rw [he]
      exact iff_of_false nofun fun h ↦ h.not_breaks hbreaks
    · obtain ⟨b, hb, hfound⟩ := logicalArg_and (hstack v hv) hbreaks
      rw [hb, ← hfound]
      exact ⟨Except.ok.inj, congrArg Except.ok⟩
  -- the loop ends at the first argument that is found false, if all before it are accepted
  have hends : scan true (f.logicalArg result true andSegment) args.reverse = .ok (!true) ↔
      ∃ l₁ v l₂, args = l₁ ++ v :: l₂ ∧ f.FoundFalse result v ∧ ∀ w ∈ l₂, ¬f.Breaks result w :=
    scan_eq_ok_not_iff.trans ((firstBad_iff_of_good htrue hfalse).trans firstBad_reverse_iff)
  have hgoes : scan true (f.logicalArg result true andSegment) args.reverse = .ok true ↔
      ∀ v ∈ args, ¬f.Breaks result v ∧ ¬f.FoundFalse result v := by
    rw [scan_eq_ok_self_iff]
    exact ⟨fun h v hv ↦ (htrue v (List.mem_reverse.mpr hv)).mp (h v (List.mem_reverse.mpr hv)),
      fun h v hv ↦ (htrue v hv).mpr (h v (List.mem_reverse.mp hv))⟩
  have hzero {v : StackValue} (hv : v ∈ args) (hfound : f.FoundFalse result v) :
      ¬∀ x ∈ args.flatMap (f.argNumbers result), x ≠ 0 := fun hall ↦
    hall 0 (List.mem_flatMap.mpr ⟨v, hv, hfound.zero_mem (hargs v hv)⟩) rfl
  rw [Conjoins, call_eq_ok_boolean_iff handle_funcAnd]
  by_cases hall : ∀ x ∈ args.flatMap (f.argNumbers result), x ≠ 0
  · rw [decide_eq_true hall, hgoes, and_iff_left hall]
    constructor
    · exact fun h ↦ .inr fun v hv ↦ (h v hv).1
    · rintro (⟨l₁, v, l₂, rfl, hfound, -⟩ | h)
      · exact absurd hall (hzero (List.mem_append_right _ List.mem_cons_self) hfound)
      · exact fun v hv ↦ ⟨h v hv, fun hfound ↦ hzero hv hfound hall⟩
  · rw [decide_eq_false hall, ← hends]
    exact (or_iff_left fun h ↦ hall h.2).symm

theorem conjoins_number :
    emptyFunctions.Conjoins (fun _ ↦ .ok (.value 0)) [.boolean true, .value 0, .string [97]] := by
  refine (conjoins_iff fun v hv ↦ ?_).mpr
    (.inl ⟨[.boolean true], .value 0, [.string [97]], rfl, rfl,
    fun w hw ↦ ?_⟩)
  · rcases hv with _ | ⟨_, _ | ⟨_, _ | ⟨_, ⟨⟩⟩⟩⟩ <;> trivial
  · rw [List.mem_singleton.mp hw]
    exact id

/-- AND of a formula cell that is false and one below it that is true is true. -/
theorem not_conjoins_column :
    ¬(formulaColumn 2).Conjoins (fun c ↦ .ok (.boolean (c.status = 1)))
      [.rangeRef ⟨⟨0, 0, 0⟩, ⟨0, 1, 0⟩⟩] := by
  intro h
  exact nomatch h

end FormulaFunctions

end Ixion
