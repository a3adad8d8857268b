import Ixion.Interp.Aggregates

/-!
# Extremes

MAX and MIN take their arguments as numbers one by one.  A range is none, and a cell that a
reference leads to is one even if there is no number in it.
-/

namespace Ixion

open Lib ValueStack

/-- The number in a cell, where a Boolean value may be one. -/
def CellValue.numericValue? (booleans : Bool) : CellValue → Option ℚ
  | .numeric v => some v
  | .boolean b => if booleans then some (boolToNumber b) else none
  | .formula row column res =>
    match singleResult row column res with
    | .value v => some v
    | .boolean b => if booleans then some (boolToNumber b) else none
    | .string _ | .error _ | .matrix _ => none
  | .string _ | .empty => none

/-- A numeric value is a number. -/
theorem CellValue.number?_of_numericValue? {booleans : Bool} {c : CellValue} {v : ℚ}
    (h : c.numericValue? booleans = some v) : c.number? = some v := by
  cases c with
  | numeric w => exact h
  | boolean b =>
    rw [numericValue?] at h
    split at h
    case isTrue => exact h
    case isFalse => cases h
  | formula row column res =>
    rw [numericValue?] at h
    rw [number?]
    cases hres : singleResult row column res with
    | value w =>
      rw [hres] at h
      exact h
    | boolean b =>
      rw [hres] at h
      dsimp only at h
      split at h
      case isTrue => exact h
      case isFalse => cases h
    | _ =>
      rw [hres] at h
      cases h
  | _ => cases h

namespace FormulaFunctions

variable {f : FormulaFunctions} {result : FormulaCell → Except Exn FormulaResult}
  {func : FormulaFunction} {args : List StackValue}

/-- What an argument is taken for. -/
def readArg (f : FormulaFunctions) (result : FormulaCell → Except Exn FormulaResult)
    (arg : StackValue) : Except Failure ℚ :=
  (numericOf arg).run (f.workbook.answers result)

/-- MAX and MIN keep one of two arguments. -/
theorem run_popExtreme (name : String) (takes : ℚ → ℚ → Bool) (v : StackValue)
    (rest : ValueStack) :
    (popExtreme name takes (v :: rest)).run (f.workbook.answers result) =
      (f.readArg result v).bind fun x ↦
        (gather (f.readArg result) (fun ret _ x ↦ if takes x ret then x else ret) rest x).map
          fun x ↦ ((), [.value x]) := by
  rw [popExtreme, requireArgs_bind, run_bind_apply, run_popValue, ← readArg]
  cases f.readArg result v with
  | error e => rfl
  | ok x =>
    refine run_forArgs_push (fun ret v _ rest ↦ ?_) x .value
    rw [run_bind_apply, run_popValue, ← readArg]
    cases f.readArg result v <;> rfl

/-- MAX prefers the greater of two numbers and MIN the smaller. -/
def Prefers (func : FormulaFunction) (v w : ℚ) : Prop :=
  match func with
  | .funcMin => w ≤ v
  | _ => v ≤ w

/-- The numeric values in cells. -/
def cellValues (f : FormulaFunctions) (result : FormulaCell → Except Exn FormulaResult)
    (booleans : Bool) (l : List AbsAddress) : List ℚ :=
  l.filterMap fun a ↦ match f.workbook.readCell result a with
    | .ok c => c.numericValue? booleans
    | .error _ => none

/-- The numeric values that an argument stands for. -/
def argValues (f : FormulaFunctions) (result : FormulaCell → Except Exn FormulaResult)
    (booleans : Bool) : StackValue → List ℚ
  | .value v => [v]
  | .singleRef a => f.cellValues result booleans [a]
  | .rangeRef r => f.cellValues result booleans r.addresses
  | _ => []

/-- An argument is a number or a reference. -/
def IsNumberOrRef : StackValue → Prop
  | .value _ | .singleRef _ | .rangeRef _ => True
  | _ => False

/-- The value of a call is one of the numeric values of its arguments, and none is preferred to
it. -/
def IsExtreme (f : FormulaFunctions) (result : FormulaCell → Except Exn FormulaResult)
    (booleans : Bool) (func : FormulaFunction) (args : List StackValue) : Prop :=
  ∃ v, f.call result func args = .ok [.value v] ∧
    v ∈ args.flatMap (f.argValues result booleans) ∧
    ∀ w ∈ args.flatMap (f.argValues result booleans), Prefers func w v

/-- A cell with a numeric value is taken for it. -/
theorem readNumber_of_mem_cellValues {booleans : Bool} {a : AbsAddress} {v : ℚ}
    (h : v ∈ f.cellValues result booleans [a]) : f.workbook.readNumber result a = .ok v := by
  obtain ⟨a', ha', hv⟩ := List.mem_filterMap.mp h
  obtain rfl := List.mem_singleton.mp ha'
  rw [Workbook.readNumber]
  cases hc : f.workbook.readCell result a' with
  | error e =>
    rw [hc] at hv
    exact nomatch hv
  | ok c =>
    rw [hc] at hv
    exact CellValue.readNumber_of_number? (CellValue.number?_of_numericValue? hv)

/-- An argument is read as a number, or it is a range or a cell that is not. -/
theorem readArg_eq_ok_iff {arg : StackValue} (harg : IsNumberOrRef arg) {x : ℚ} :
    f.readArg result arg = .ok x ↔
      arg = .value x ∨ ∃ a, arg = .singleRef a ∧ f.workbook.readNumber result a = .ok x := by
  cases arg with
  | value v =>
    refine ⟨fun h ↦ .inl (congrArg StackValue.value (Except.ok.inj h)), ?_⟩
    rintro (h | ⟨a, ha, -⟩)
    · exact congrArg Except.ok (StackValue.value.inj h)
    · exact nomatch ha
  | singleRef a =>
    have hread : f.readArg result (.singleRef a) = ofExn (f.workbook.readNumber result a) :=
      Workbook.run_getNumericValue
    rw [hread]
    cases hnumber : f.workbook.readNumber result a with
    | ok v =>
      refine ⟨fun h ↦ .inr ⟨a, rfl, hnumber.trans (congrArg Except.ok (Except.ok.inj h))⟩, ?_⟩
      rintro (h | ⟨a', ha', h⟩)
      · exact nomatch h
      · obtain rfl := StackValue.singleRef.inj ha'
        exact congrArg Except.ok (Except.ok.inj (hnumber.symm.trans h))
    | error e =>
      refine ⟨fun h ↦ (nomatch h), ?_⟩
      rintro (h | ⟨a', ha', h⟩)
      · exact nomatch h
      · obtain rfl := StackValue.singleRef.inj ha'
        exact nomatch hnumber.symm.trans h
  | rangeRef r =>
    refine ⟨fun h ↦ (nomatch h), ?_⟩
    rintro (h | ⟨a, ha, -⟩)
    · exact nomatch h
    · exact nomatch ha
  | _ => exact harg.elim

/-- Reading an argument throws nothing but exceptions. -/
theorem isException_of_readArg {arg : StackValue} (harg : IsNumberOrRef arg) {e : Failure}
    (h : f.readArg result arg = .error e) : IsException e := by
  cases arg with
  | value v => exact nomatch h
  | singleRef a =>
    have hread : f.readArg result (.singleRef a) = ofExn (f.workbook.readNumber result a) :=
      Workbook.run_getNumericValue
    exact isException_of_ofExn (hread.symm.trans h)
  | rangeRef r => exact ⟨_, (Except.error.inj h).symm⟩
  | _ => exact harg.elim

/-- Every argument is read as a number if none is a range and every cell is read as one. -/
theorem forall_readArg_iff (hargs : ∀ arg ∈ args, IsNumberOrRef arg) :
    (∀ arg ∈ args, ∃ x, f.readArg result arg = .ok x) ↔
      (∀ r, StackValue.rangeRef r ∉ args) ∧
        ∀ a, StackValue.singleRef a ∈ args → ∃ x, f.workbook.readNumber result a = .ok x := by
  constructor
  · intro h
    refine ⟨fun r hr ↦ ?_, fun a ha ↦ ?_⟩
    · obtain ⟨x, hx⟩ := h _ hr
      exact nomatch hx
    · obtain ⟨x, hx⟩ := h _ ha
      rcases (readArg_eq_ok_iff (hargs _ ha)).mp hx with h | ⟨a', ha', h⟩
      · exact nomatch h
      · exact ⟨x, StackValue.singleRef.inj ha' ▸ h⟩
  · rintro ⟨hrange, hcell⟩ arg harg
    cases arg with
    | value v => exact ⟨v, rfl⟩
    | singleRef a =>
      obtain ⟨x, hx⟩ := hcell a harg
      exact ⟨x, (readArg_eq_ok_iff (hargs _ harg)).mpr (.inr ⟨a, rfl, hx⟩)⟩
    | rangeRef r => exact absurd harg (hrange r)
    | _ => exact (hargs _ harg).elim

/-- Numeric values are among what the arguments are read as. -/
theorem exists_readArg_of_mem {booleans : Bool} (hrange : ∀ r, StackValue.rangeRef r ∉ args) {v : ℚ}
    (hv : v ∈ args.flatMap (f.argValues result booleans)) :
    ∃ arg ∈ args, f.readArg result arg = .ok v := by
  obtain ⟨arg, harg, hv⟩ := List.mem_flatMap.mp hv
  refine ⟨arg, harg, ?_⟩
  cases arg with
  | value w =>
    obtain rfl := List.mem_singleton.mp hv
    rfl
  | singleRef a =>
    have hread : IsNumberOrRef (.singleRef a) := trivial
    exact (readArg_eq_ok_iff hread).mpr
      (.inr ⟨a, rfl, readNumber_of_mem_cellValues hv⟩)
  | rangeRef r => exact absurd harg (hrange r)
  | _ => exact nomatch hv

/-- When the numeric values of arguments have an extreme that is found: no argument is a range,
every cell can be read as a number, and some numeric value is as great or as small as what the
cells without one are read as. -/
def FindsExtreme (f : FormulaFunctions) (result : FormulaCell → Except Exn FormulaResult)
    (booleans : Bool) (func : FormulaFunction) (args : List StackValue) : Prop :=
  (∀ r, StackValue.rangeRef r ∉ args) ∧
    (∀ a, StackValue.singleRef a ∈ args → ∃ x, f.workbook.readNumber result a = .ok x) ∧
    ∃ v ∈ args.flatMap (f.argValues result booleans), ∀ a, StackValue.singleRef a ∈ args →
      f.cellValues result booleans [a] = [] →
      ∀ x, f.workbook.readNumber result a = .ok x → Prefers func x v

section Choice

variable {takes : ℚ → ℚ → Bool} {name : String}

/-- What is left of the arguments is what one of them is read as, and none is read as something
preferred to it. -/
theorem exists_handle_of_read (hfunc : f.handler func = popExtreme name takes)
    (hrefl : ∀ a, Prefers func a a)
    (htrans : ∀ {a b c}, Prefers func a b → Prefers func b c → Prefers func a c)
    (hle : ∀ a b, Prefers func a (if takes b a then b else a) ∧
      Prefers func b (if takes b a then b else a)) (hne : args ≠ [])
    (hread : ∀ arg ∈ args, ∃ x, f.readArg result arg = .ok x) :
    ∃ m, f.handle result func args = .ok ((), [.value m]) ∧
      (∃ arg ∈ args, f.readArg result arg = .ok m) ∧
      ∀ arg ∈ args, ∀ x, f.readArg result arg = .ok x → Prefers func x m := by
  choose! number hnumber using hread
  obtain ⟨v, rest, hstack⟩ := exists_reverse_eq_cons hne
  have hmem {arg : StackValue} : arg ∈ args ↔ arg ∈ v :: rest := by
    rw [← hstack, List.mem_reverse]
  have hrest (arg : StackValue) (harg : arg ∈ rest) : f.readArg result arg = .ok (number arg) :=
    hnumber arg (hmem.mpr (List.mem_cons_of_mem v harg))
  obtain ⟨hin, hmax⟩ := foldl_choose (Prefers func)
    (fun a b ↦ if takes b a then b else a) hrefl htrans
    (fun a b ↦ by
      split
      case isTrue => exact .inr rfl
      case isFalse => exact .inl rfl) hle (rest.map number) (number v)
  refine ⟨(rest.map number).foldl (fun a b ↦ if takes b a then b else a) (number v), ?_, ?_, ?_⟩
  · rw [handle, hfunc, hstack, run_popExtreme, hnumber v (hmem.mpr List.mem_cons_self)]
    show (gather _ _ rest (number v)).map _ = _
    rw [gather_eq_ok hrest, List.foldl_map]
    rfl
  · obtain ⟨arg, harg, heq⟩ := List.mem_map.mp
      (List.map_cons (f := number) ▸ hin : _ ∈ (v :: rest).map number)
    exact ⟨arg, hmem.mpr harg, heq ▸ hnumber arg (hmem.mpr harg)⟩
  · intro arg harg x hx
    obtain rfl := Except.ok.inj ((hnumber arg harg).symm.trans hx)
    refine hmax _ ?_
    rw [← List.map_cons]
    exact List.mem_map_of_mem (hmem.mp harg)

/-- An argument that is not read makes for an error. -/
theorem isError_of_not_read (hfunc : f.handler func = popExtreme name takes)
    (hargs : ∀ arg ∈ args, IsNumberOrRef arg)
    (hread : ¬∀ arg ∈ args, ∃ x, f.readArg result arg = .ok x) :
    IsError (f.call result func args) := by
  have hne : args ≠ [] := by
    rintro rfl
    exact hread fun arg harg ↦ nomatch harg
  obtain ⟨v, rest, hstack⟩ := exists_reverse_eq_cons hne
  have hmem {arg : StackValue} : arg ∈ args ↔ arg ∈ v :: rest := by
    rw [← hstack, List.mem_reverse]
  have hfails : ∃ e, f.handle result func args = .error e ∧ IsException e := by
    rw [handle, hfunc, hstack, run_popExtreme]
    cases hv : f.readArg result v with
    | error e => exact ⟨e, rfl, isException_of_readArg (hargs v (hmem.mpr List.mem_cons_self)) hv⟩
    | ok x =>
      have hrest : ∃ arg ∈ rest, ∃ e, f.readArg result arg = .error e := by
        by_contra hno
        refine hread fun arg harg ↦ ?_
        rcases List.mem_cons.mp (hmem.mp harg) with rfl | harg
        · exact ⟨x, hv⟩
        · cases harg' : f.readArg result arg with
          | ok y => exact ⟨y, rfl⟩
          | error e => exact absurd ⟨arg, harg, e, harg'⟩ hno
      obtain ⟨arg, harg, e, he, hgather⟩ := gather_eq_error
        (fun (ret : ℚ) (_ : StackValue) x ↦ if takes x ret then x else ret) hrest x
      refine ⟨e, ?_, isException_of_readArg (hargs arg (hmem.mpr (List.mem_cons_of_mem v harg))) he⟩
      show (gather _ _ rest x).map _ = _
      rw [hgather]
      rfl
  obtain ⟨e, hhandle, he⟩ := hfails
  exact isError_call hhandle he

/-- When a function that keeps one of two arguments finds an extreme value. -/
theorem isExtreme_iff_of_popExtreme (booleans : Bool)
    (hfunc : f.handler func = popExtreme name takes)
    (hrefl : ∀ a, Prefers func a a)
    (htrans : ∀ {a b c}, Prefers func a b → Prefers func b c → Prefers func a c)
    (hantisymm : ∀ {a b}, Prefers func a b → Prefers func b a → a = b)
    (hle : ∀ a b, Prefers func a (if takes b a then b else a) ∧
      Prefers func b (if takes b a then b else a))
    (hargs : ∀ arg ∈ args, IsNumberOrRef arg) :
    f.IsExtreme result booleans func args ↔ f.FindsExtreme result booleans func args := by
  rw [FindsExtreme, ← and_assoc, ← forall_readArg_iff hargs]
  by_cases hread : ∀ arg ∈ args, ∃ x, f.readArg result arg = .ok x
  case neg =>
    refine iff_of_false ?_ fun h ↦ hread h.1
    rintro ⟨v, hcall, -⟩
    have herror := isError_of_not_read hfunc hargs hread
    rw [hcall] at herror
    rcases herror with ⟨e, he⟩ | ⟨e, he⟩
    · exact nomatch he
    · exact nomatch he
  rw [and_iff_right hread]
  have hrange := ((forall_readArg_iff hargs).mp hread).1
  constructor
  · rintro ⟨v, hcall, hv, -⟩
    have hne : args ≠ [] := by
      rintro rfl
      exact nomatch hv
    obtain ⟨m, hhandle, -, hmax⟩ := exists_handle_of_read hfunc hrefl htrans hle hne hread
    have hm : [StackValue.value m] = [StackValue.value v] :=
      (Prod.mk.inj (Except.ok.inj (hhandle.symm.trans (handle_of_call hcall)))).2
    obtain rfl := StackValue.value.inj (List.cons.inj hm).1
    refine ⟨m, hv, fun a ha _ x hx ↦ hmax _ ha x ?_⟩
    exact (readArg_eq_ok_iff (hargs _ ha)).mpr (.inr ⟨a, rfl, hx⟩)
  · rintro ⟨v, hv, hother⟩
    have hne : args ≠ [] := by
      rintro rfl
      exact nomatch hv
    obtain ⟨m, hhandle, ⟨arg, harg, hm⟩, hmax⟩ :=
      exists_handle_of_read hfunc hrefl htrans hle hne hread
    have hle' {w : ℚ} (hw : w ∈ args.flatMap (f.argValues result booleans)) : Prefers func w m := by
      obtain ⟨arg, harg, hread⟩ := exists_readArg_of_mem hrange hw
      exact hmax arg harg w hread
    refine ⟨m, call_of_ok hhandle, ?_, fun w hw ↦ hle' hw⟩
    rcases (readArg_eq_ok_iff (hargs arg harg)).mp hm with rfl | ⟨a, rfl, ha⟩
    · exact List.mem_flatMap.mpr ⟨.value m, harg, List.mem_singleton_self m⟩
    · -- The cell has a numeric value, which it is read as, or it is read as no more than another.
      cases hcell : f.cellValues result booleans [a] with
      | nil =>
        rw [← hantisymm (hle' hv) (hother a harg hcell m ha)]
        exact hv
      | cons w ws =>
        have hw : w ∈ f.cellValues result booleans [a] := hcell ▸ List.mem_cons_self
        obtain rfl := Except.ok.inj (ha.symm.trans (readNumber_of_mem_cellValues hw))
        exact List.mem_flatMap.mpr ⟨.singleRef a, harg, hw⟩

end Choice

/-- MAX finds the greatest numeric value exactly if it is as great as what other cells are read
as. -/
theorem isExtreme_funcMax_iff (booleans : Bool) (hargs : ∀ arg ∈ args, IsNumberOrRef arg) :
    f.IsExtreme result booleans .funcMax args ↔ f.FindsExtreme result booleans .funcMax args := by
  refine isExtreme_iff_of_popExtreme booleans (rfl : f.handler .funcMax = fncMax)
    (fun a ↦ le_refl a)
    (fun hab hbc ↦ le_trans hab hbc) (fun hab hba ↦ le_antisymm hab hba) (fun a b ↦ ?_) hargs
  simp only [decide_eq_true_eq]
  split
  case isTrue hlt => exact ⟨le_of_lt hlt, le_refl b⟩
  case isFalse hle => exact ⟨le_refl a, not_lt.mp hle⟩

/-- MIN finds the least numeric value exactly if it is as small as what other cells are read as. -/
theorem isExtreme_funcMin_iff (booleans : Bool) (hargs : ∀ arg ∈ args, IsNumberOrRef arg) :
    f.IsExtreme result booleans .funcMin args ↔ f.FindsExtreme result booleans .funcMin args := by
  refine isExtreme_iff_of_popExtreme booleans (rfl : f.handler .funcMin = fncMin)
    (fun a ↦ le_refl a)
    (fun hab hbc ↦ le_trans hbc hab) (fun hab hba ↦ le_antisymm hba hab) (fun a b ↦ ?_) hargs
  simp only [decide_eq_true_eq]
  split
  case isTrue hlt => exact ⟨le_of_lt hlt, le_refl b⟩
  case isFalse hle => exact ⟨le_refl a, not_lt.mp hle⟩

/-- MAX and MIN of numbers and references find an extreme value exactly if no argument is a range,
every cell can be read as a number, and some numeric value is as great or as small as what the
cells without one are read as. -/
theorem isExtreme_iff (booleans : Bool) (hfunc : func = .funcMax ∨ func = .funcMin)
    (hargs : ∀ arg ∈ args, IsNumberOrRef arg) :
    f.IsExtreme result booleans func args ↔ f.FindsExtreme result booleans func args := by
  rcases hfunc with rfl | rfl
  · exact isExtreme_funcMax_iff booleans hargs
  · exact isExtreme_funcMin_iff booleans hargs

/-- The least of the number above and a literal. -/
theorem isExtreme_iff_number :
    productFunctions.IsExtreme productResult true .funcMin [.value 2, .singleRef ⟨0, 1, 0⟩] ↔
      productFunctions.FindsExtreme productResult true .funcMin
        [.value 2, .singleRef ⟨0, 1, 0⟩] := by
  refine isExtreme_iff true (.inr rfl) fun arg harg ↦ ?_
  rcases List.mem_cons.mp harg with rfl | harg
  · trivial
  · obtain rfl := List.mem_singleton.mp harg
    trivial

/-- The number in the workbook, as a range. -/
def oneRange : AbsRange := ⟨⟨0, 1, 0⟩, ⟨0, 1, 0⟩⟩

/-- MAX finds no greatest value in a range, nor where all numbers are less than the zero that an
empty cell is read as. -/
theorem not_isExtreme_oneRange :
    oneRange.Inside productFunctions.workbook ∧
      (∀ booleans, productFunctions.argValues productResult booleans (.rangeRef oneRange) = [1]) ∧
      (∀ booleans, ¬productFunctions.IsExtreme productResult booleans .funcMax
        [.rangeRef oneRange]) ∧
      ∀ booleans, ¬productFunctions.IsExtreme productResult booleans .funcMax
        [.value (-1), .singleRef ⟨0, 2, 0⟩] := by
  have hinside : oneRange.Inside productFunctions.workbook := by
    refine ⟨⟨rfl, ?_, ?_, ?_, ?_, ?_, ?_, ?_⟩, ?_, ?_⟩
    all_goals decide
  refine ⟨hinside, fun booleans ↦ rfl, fun booleans h ↦ ?_, fun booleans h ↦ ?_⟩
  · have hargs : ∀ arg ∈ [StackValue.rangeRef oneRange], IsNumberOrRef arg := by
      intro arg harg
      obtain rfl := List.mem_singleton.mp harg
      trivial
    exact ((isExtreme_funcMax_iff booleans hargs).mp h).1 oneRange List.mem_cons_self
  · have hargs : ∀ arg ∈ [StackValue.value (-1), .singleRef ⟨0, 2, 0⟩], IsNumberOrRef arg := by
      intro arg harg
      rcases List.mem_cons.mp harg with rfl | harg
      · trivial
      · obtain rfl := List.mem_singleton.mp harg
        trivial
    obtain ⟨-, -, v, hv, hother⟩ := (isExtreme_funcMax_iff booleans hargs).mp h
    obtain rfl : v = -1 := List.mem_singleton.mp hv
    have hle : (0 : ℚ) ≤ -1 :=
      hother ⟨0, 2, 0⟩ (List.mem_cons_of_mem _ List.mem_cons_self) rfl 0 rfl
    exact absurd hle (by norm_num)

end FormulaFunctions

end Ixion
