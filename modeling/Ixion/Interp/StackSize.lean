import Ixion.Interp.Functions
import Ixion.Interp.Reads

/-!
# Stack sizes of functions

A function takes all its arguments off the stack and leaves one value there, however many
arguments there are and whatever they are.  It is enough to count values: every operation on
the stack has a rule for how many it leaves, and the function is taken apart by these rules.
-/

namespace Ixion

open Lib Query Workbook

/-- Fails only in some ways. -/
abbrev Reader.Fails {α : Type} (E : Failure → Prop) (r : Reader α) : Prop :=
  r.Within (fun _ ↦ True) E

namespace ValueStack

/-- A computation on a stack of some size ends with a value and a size that belong together. -/
abbrev Sized {α : Type} (E : Failure → Prop) (m : Nat) (R : α → Nat → Prop) (x : StackM α) : Prop :=
  Meets (fun _ ↦ True) E (fun stack : ValueStack ↦ stack.length = m)
    (fun a stack ↦ R a stack.length) x

/-- A computation leaves one value on the stack, whatever was there before. -/
abbrev LeavesOne (E : Failure → Prop) (x : StackM Unit) : Prop :=
  ∀ m, Sized E m (fun _ n ↦ n = 1) x

/-- A computation takes one value off the stack. -/
abbrev TakesOne {α : Type} (E : Failure → Prop) (x : StackM α) : Prop :=
  ∀ m, Sized E (m + 1) (fun _ n ↦ n = m) x

variable {E : Failure → Prop} {α β : Type} {m : Nat} {R : α → Nat → Prop} {S : β → Nat → Prop}

/-! ## Rules -/

theorem sized_pure {a : α} (h : R a m) : Sized E m R (Pure.pure a : StackM α) :=
  meets_pure fun _ hs ↦ hs ▸ h

theorem sized_bind {x : StackM α} {f : α → StackM β} (hx : Sized E m R x)
    (hf : ∀ a n, R a n → Sized E n S (f a)) : Sized E m S (x >>= f) :=
  meets_bind hx fun a s hs ↦ hf a s.length hs s rfl

theorem sized_lift_bind {r : Reader α} {f : α → StackM β} (h : r.Fails E)
    (hf : ∀ a, Sized E m S (f a)) : Sized E m S ((liftM r : StackM α) >>= f) :=
  meets_lift_bind h fun a _ ↦ hf a

theorem sized_get_bind {f : ValueStack → StackM β}
    (hf : ∀ s : ValueStack, s.length = m → Sized E m S (f s)) :
    Sized E m S (MonadState.get >>= f) :=
  fun s hs ↦ hf s hs s hs

theorem sized_set (s : ValueStack) :
    Sized E m (fun _ n ↦ n = s.length) (MonadStateOf.set s : StackM Unit) :=
  meets_set (J := fun t : ValueStack ↦ t.length = s.length) rfl

theorem sized_push {v : StackValue} (h : m = 0) : Sized E m (fun _ n ↦ n = 1) (push v) :=
  meets_modify fun s hs ↦ by rw [List.length_cons, hs, h]

theorem sized_popBack : TakesOne E popBack :=
  fun _ ↦ meets_modify fun s hs ↦ by rw [List.length_tail, hs, Nat.add_sub_cancel]

theorem takesOne_bind {x : StackM α} {f : α → StackM β} (hx : TakesOne E x)
    (hf : ∀ a, Sized E m S (f a)) : Sized E (m + 1) S (x >>= f) :=
  sized_bind (hx m) fun a _ hn ↦ hn ▸ hf a

theorem takesOne_return {x : StackM α} {f : α → β} (hx : TakesOne E x) :
    TakesOne E (do return f (← x)) :=
  fun _ ↦ takesOne_bind hx fun _ ↦ sized_pure rfl

theorem sized_clear : Sized E m (fun _ n ↦ n = 0) FormulaFunctions.clear := sized_set []

theorem leavesOne_clearAndPush (v : StackValue) : LeavesOne E (FormulaFunctions.clearAndPush v) :=
  fun _ ↦ sized_bind sized_clear fun _ _ h ↦ sized_push h

theorem RefersOnly.all (v : StackValue) : v.RefersOnly fun _ ↦ True := by
  cases v <;> first | trivial | exact fun _ _ ↦ trivial

/-- What pops a value takes it off the stack. -/
theorem Pops.takesOne {Q : α → Prop} {x : StackM α} (h : Pops (fun _ ↦ True) E Q x) :
    TakesOne E x := by
  intro m s hs
  cases s with
  | nil => exact absurd hs nofun
  | cons v s =>
    refine (h.cons v s (RefersOnly.all v) _ rfl).mono ?_
    rintro ⟨a, t⟩ ⟨-, rfl⟩
    exact Nat.succ.inj hs

/-- Reading goes on with the same stack. -/
theorem sized_foldlM {γ : Type} {f : β → γ → Reader β} (h : ∀ b c, (f b c).Fails E) (l : List γ)
    (b : β) : Sized E m (fun _ n ↦ n = m) (l.foldlM (fun b c ↦ liftM (f b c)) b : StackM β) := by
  induction l generalizing b with
  | nil => exact sized_pure rfl
  | cons c l ih =>
    rw [List.foldlM_cons]
    exact sized_lift_bind (h b c) ih

theorem sized_read {r : Reader α} (h : r.Fails E) :
    Sized E m (fun _ n ↦ n = m) (liftM r : StackM α) :=
  (meets_lift h).post fun _ _ hs ↦ hs.2

/-- After the arguments of a loop have been taken off one by one, there are none left unless the
loop ended before. -/
theorem sized_forArgs {more : β → Bool} {step : β → StackM β} (hstep : ∀ b, TakesOne E (step b))
    (b : β) : Sized E m (fun b n ↦ n = 0 ∨ more b = false)
      (FormulaFunctions.forArgs more step b) := by
  have hloop (k : Nat) (b : β) : Sized E k (fun b n ↦ n = 0 ∨ more b = false)
      (FormulaFunctions.forArgs.loop more step k b) := by
    induction k generalizing b with
    | zero => exact sized_pure (.inl rfl)
    | succ k ih =>
      refine sized_get_bind fun s hs ↦ ?_
      split
      case isTrue h =>
        refine sized_pure (.inr ?_)
        cases s with
        | nil => exact absurd hs nofun
        | cons v s => simpa using h
      case isFalse h => exact takesOne_bind (hstep b) ih
  refine sized_get_bind fun s hs ↦ ?_
  exact hs ▸ hloop s.length b

section Exceptions

variable (hE : ∀ e, E (.exception e))

include hE

theorem sized_raise (e : FormulaError) : Sized E m R (raise e : StackM α) := meets_throw (hE _)

theorem sized_raiseExn (e : Exn) : Sized E m R (raiseExn e : StackM α) := meets_throw (hE _)

theorem sized_back_bind {f : StackValue → StackM β}
    (hf : ∀ v n, m = n + 1 → Sized E (n + 1) S (f v)) : Sized E m S (back >>= f) := by
  rintro s rfl
  cases s with
  | nil => exact hE _
  | cons v s => exact hf v s.length rfl (v :: s) rfl

/-- What pops a value leaves one value less, or there was none. -/
theorem Pops.sized {Q : α → Prop} {x : StackM α} (h : Pops (fun _ ↦ True) E Q x) :
    Sized E m (fun _ n ↦ m = n + 1) x := by
  cases m with
  | zero =>
    intro s hs
    obtain rfl := List.eq_nil_of_length_eq_zero hs
    rw [h.nil]
    exact hE _
  | succ m => exact (h.takesOne m).post fun _ _ hn ↦ congrArg Nat.succ hn.symm

theorem pops_bind {Q : α → Prop} {x : StackM α} {f : α → StackM β}
    (hx : Pops (fun _ ↦ True) E Q x) (hf : ∀ a n, m = n + 1 → Sized E n S (f a)) :
    Sized E m S (x >>= f) :=
  sized_bind (hx.sized hE) hf

theorem sized_requireArgs_bind {p : Nat → Bool} {msg : String} {f : Unit → StackM β}
    (hf : p m = true → Sized E m S (f ())) :
    Sized E m S (FormulaFunctions.requireArgs p msg >>= f) := by
  refine sized_bind (R := fun _ n ↦ n = m ∧ p m = true) ?_ fun _ n hn ↦ ?_
  · refine sized_get_bind fun s hs ↦ ?_
    split
    case isTrue h => exact sized_raiseExn hE _
    case isFalse h => exact sized_pure ⟨rfl, by simpa [hs] using h⟩
  · obtain ⟨rfl, h⟩ := hn
    exact hf h

end Exceptions

end ValueStack

/-! ## Reading ranges -/

namespace Reader

variable {E : Failure → Prop} {α β : Type}

theorem fails_guard {c : Prop} [Decidable c] {r : Reader Unit} {f : Unit → Reader β}
    (hr : r.Fails E) (hf : (f ()).Fails E) : (if c then r >>= f else f ()).Fails E := by
  split
  · exact within_bind hr fun _ ↦ hf
  · exact hf

theorem fails_ite {c : Prop} [Decidable c] {r r' : Reader β} (h : r.Fails E) (h' : r'.Fails E) :
    (if c then r else r').Fails E := by
  split
  · exact h
  · exact h'

theorem fails_mapM {f : α → Reader β} (h : ∀ a, (f a).Fails E) (l : List α) :
    (l.mapM f).Fails E := by
  induction l with
  | nil => trivial
  | cons a l ih =>
    rw [List.mapM_cons]
    exact within_bind (h a) fun _ ↦ within_bind ih fun _ ↦ trivial

theorem fails_foldlM {γ : Type} {f : β → γ → Reader β} (h : ∀ b c, (f b c).Fails E) (l : List γ)
    (b : β) : (l.foldlM f b).Fails E :=
  within_foldlM (fun b c _ ↦ h b c) b

end Reader

namespace Workbook

open Reader

variable {E : Failure → Prop} (hE : ∀ e, E (.exception e)) (wb : Workbook) {β : Type}

include hE

theorem fails_countCell (values : Values) (ret : ℚ) (a : AbsAddress) :
    (countCell values ret a).Fails E := by
  refine within_bind (within_bind (within_getCellType trivial) fun type ↦ ?_) fun _ ↦ trivial
  cases type with
  | formula => exact within_bind (within_getFormulaResult hE trivial) fun _ ↦ trivial
  | _ => trivial

omit hE in
theorem fails_isEmptyColumn (sheet col : Int) (rows : List Int) :
    (isEmptyColumn sheet col rows).Fails E := by
  induction rows with
  | nil => trivial
  | cons row rows ih =>
    refine within_bind (within_getCellType trivial) fun type ↦ ?_
    exact fails_ite trivial ih

variable (hU : E .undefined)

include hU

theorem fails_countColumn (values : Values) (sheet col first last : Int) (ret : ℚ) :
    (wb.countColumn values sheet col first last ret).Fails E := by
  rw [countColumn]
  refine fails_guard (within_ofExcept hE _) (fails_ite (within_pure _) (fails_ite ?_ ?_))
  · refine within_bind (within_getCellType trivial) fun type ↦ ?_
    cases type with
    | formula => exact fails_ite trivial hU
    | _ => trivial
  · exact fails_foldlM (fun ret row ↦ fails_countCell hE values ret _) _ ret

theorem fails_countRange (range : AbsRange) (values : Values) :
    (wb.countRange range values).Fails E := by
  rw [countRange]
  refine fails_ite (within_pure _) (fails_foldlM (fun ret sheet ↦ ?_) _ _)
  refine fails_guard (within_ofExcept hE _) (fails_foldlM (fun ret col ↦ ?_) _ ret)
  exact fails_guard (within_ofExcept hE _) (fails_countColumn hE wb hU values _ _ _ _ ret)

omit hE hU in
theorem fails_walkSegments {cb : ColumnBlockCallback β} (hcb : ∀ seg b, (cb seg b).Fails E)
    (segs : List Segment) (b : β) : (walkSegments cb segs b).Fails E := by
  induction segs generalizing b with
  | nil => trivial
  | cons seg segs ih =>
    refine within_bind (hcb seg b) fun p ↦ ?_
    exact fails_ite (ih p.1) trivial

theorem fails_walk {cb : ColumnBlockCallback β} (hcb : ∀ seg b, (cb seg b).Fails E) (sheet : Int)
    (range : AbsRange) (b : β) : (wb.walk sheet range cb b).Fails E := by
  have hcolumn (col first last : Int) (b : β) :
      (wb.walkColumn cb sheet col first last b).Fails E := by
    refine fails_ite trivial (fails_guard (within_ofExcept hE _) ?_)
    refine within_bind (fails_mapM (fun row ↦ within_getCellType trivial) _) fun types ↦ ?_
    exact within_bind (fails_walkSegments hcb _ b) fun p ↦ fails_ite hU trivial
  have hcolumns (first last : Int) (cols : List Int) (b : β) :
      (wb.walkColumns cb sheet first last cols b).Fails E := by
    induction cols generalizing b with
    | nil => trivial
    | cons col cols ih =>
      exact within_bind (hcolumn col first last b) fun p ↦ fails_ite (ih p.1) trivial
  rw [walk]
  exact fails_guard (within_ofExcept hE _) (hcolumns _ _ _ b)

theorem fails_isEmpty (range : AbsRange) : (wb.isEmpty range).Fails E := by
  refine within_bind (within_ofExcept hE _) fun range ↦ ?_
  generalize (List.flatMap _ _ : List (Int × Int)) = cols
  induction cols with
  | nil => trivial
  | cons p cols ih =>
    rw [isEmptyColumns]
    refine fails_guard hU (fails_guard (within_ofExcept hE _) ?_)
    refine within_bind (fails_isEmptyColumn _ _ _) fun empty ↦ ?_
    exact fails_ite ih trivial

end Workbook

/-! ## Parts of functions -/

namespace FormulaFunctions

open ValueStack Reader

section Parts

variable {E : Failure → Prop} {α β : Type} {m : Nat}

theorem sized_undefined (hU : E .undefined) {R : α → Nat → Prop} :
    Sized E m R (undefined : StackM α) :=
  meets_throw hU

theorem sized_toInt (hU : E .undefined) (k : Int) : Sized E m (fun _ n ↦ n = m) (toInt k) := by
  rw [toInt]
  split
  · exact sized_pure rfl
  · exact meets_throw hU

theorem sized_elementAt (hU : E .undefined) (l : List α) (i : Nat) :
    Sized E m (fun _ n ↦ n = m) (elementAt l i) := by
  rw [elementAt]
  split
  · exact sized_pure rfl
  · exact sized_undefined hU

theorem sized_stdSort (hU : E .undefined) (lt : α → α → Bool) (l : List α) :
    Sized E m (fun _ n ↦ n = m) (stdSort lt l) := by
  rw [stdSort]
  split
  · exact sized_pure rfl
  · exact sized_undefined hU

theorem sized_substituteFrom (hU : E .undefined) (content old new : Text) (which : Option Int)
    (fuel pos : Nat) (found : Int) (done : Text) :
    Sized E m (fun _ n ↦ n = m) (substituteFrom content old new which fuel pos found done) := by
  induction fuel generalizing pos found done with
  | zero => exact sized_undefined hU
  | succ fuel ih =>
    rw [substituteFrom]
    split
    · exact sized_pure rfl
    · exact ih _ _ _

/-- All arguments are taken off the stack. -/
theorem sized_forAllArgs {step : β → StackM β} (hstep : ∀ b, TakesOne E (step b)) (b : β) :
    Sized E m (fun _ n ↦ n = 0) (forArgs (fun _ ↦ true) step b) :=
  (sized_forArgs hstep b).post fun _ _ h ↦ h.resolve_right nofun

variable (hE : ∀ e, E (.exception e))

include hE

theorem takesOne_back_bind {f : StackValue → StackM β} (hf : ∀ v, TakesOne E (f v)) :
    TakesOne E (back >>= f) := by
  refine fun m ↦ sized_back_bind hE fun v n hn ↦ ?_
  exact Nat.succ.inj hn ▸ hf v n

theorem takesOne_popValue : TakesOne E popValue := (pops_popValue hE).takesOne

theorem takesOne_popString (lib : NumberLib) : TakesOne E (popString lib) :=
  (pops_popString hE lib).takesOne

theorem takesOne_popBoolean : TakesOne E popBoolean := (pops_popBoolean hE).takesOne

theorem takesOne_popSingleRef : TakesOne E popSingleRef := (pops_popSingleRef hE).takesOne

theorem takesOne_popRangeRef : TakesOne E popRangeRef := (pops_popRangeRef hE).takesOne

theorem takesOne_popRangeValue (sheetSize : RcSize) : TakesOne E (popRangeValue sheetSize) :=
  (pops_popRangeValue hE sheetSize).takesOne

theorem sized_bytePositions (s : Text) : Sized E m (fun _ n ↦ n = m) (bytePositions s) :=
  sized_read (within_ofExcept hE _)

theorem takesOne_popOneValueAsBoolean : TakesOne E popOneValueAsBoolean := by
  refine takesOne_back_bind hE fun v m ↦ ?_
  cases v with
  | singleRef a =>
    refine takesOne_bind (takesOne_popSingleRef hE) fun addr ↦ ?_
    refine sized_lift_bind (within_getCellValueType hE trivial) fun type ↦ ?_
    cases type with
    | boolean =>
      exact sized_lift_bind (within_getBooleanValue hE trivial) fun _ ↦ sized_pure rfl
    | numeric =>
      exact sized_lift_bind (within_getBooleanValue hE trivial) fun _ ↦ sized_pure rfl
    | _ => exact sized_pure rfl
  | value q => exact takesOne_bind (takesOne_popBoolean hE) fun _ ↦ sized_pure rfl
  | boolean b => exact takesOne_bind (takesOne_popBoolean hE) fun _ ↦ sized_pure rfl
  | string text => exact takesOne_bind sized_popBack fun _ ↦ sized_pure rfl
  | error e => exact takesOne_bind sized_popBack fun _ ↦ sized_pure rfl
  | _ => exact sized_raise hE _

variable (hU : E .undefined)

include hU

theorem takesOne_popFloor : TakesOne E popFloor :=
  fun _ ↦ takesOne_bind (takesOne_popValue hE) fun _ ↦ sized_toInt hU _

theorem takesOne_popAndCheckForOddValue : TakesOne E popAndCheckForOddValue := by
  refine fun m ↦ takesOne_bind (takesOne_popValue hE) fun q ↦ ?_
  dsimp only
  split
  · exact sized_pure rfl
  · exact sized_undefined hU

omit hU in
theorem fails_blockNumber (type : CellType) (addr : AbsAddress) :
    (blockNumber type addr).Fails E := by
  cases type with
  | boolean => exact within_bind (within_getBooleanValue hE trivial) fun _ ↦ trivial
  | numeric => exact within_bind (within_getNumericValue hE trivial) fun _ ↦ trivial
  | formula =>
    refine within_bind (within_getFormulaResult hE trivial) fun r ↦ ?_
    cases r <;> trivial
  | _ => trivial

theorem takesOne_appendValuesFromStack (f : FormulaFunctions) (seq : List ℚ) :
    TakesOne E (f.appendValuesFromStack seq) := by
  refine takesOne_back_bind hE fun v m ↦ ?_
  cases v with
  | boolean b => exact takesOne_bind (takesOne_popValue hE) fun _ ↦ sized_pure rfl
  | value q => exact takesOne_bind (takesOne_popValue hE) fun _ ↦ sized_pure rfl
  | singleRef a =>
    refine takesOne_bind (takesOne_popSingleRef hE) fun addr ↦ ?_
    refine sized_lift_bind (within_getCellValueType hE trivial) fun type ↦ ?_
    cases type with
    | boolean =>
      exact sized_lift_bind (within_getBooleanValue hE trivial) fun _ ↦ sized_pure rfl
    | numeric =>
      exact sized_lift_bind (within_getNumericValue hE trivial) fun _ ↦ sized_pure rfl
    | _ => exact sized_pure rfl
  | rangeRef range =>
    refine takesOne_bind (takesOne_popRangeRef hE) fun range ↦ ?_
    refine sized_foldlM (fun seq sheet ↦ Workbook.fails_walk hE _ hU (fun seg seq ↦ ?_) _ _ _) _ _
    exact within_bind (fails_mapM (fails_blockNumber hE _) _) fun _ ↦ trivial
  | error e => exact takesOne_bind sized_popBack fun _ ↦ sized_pure rfl
  | string text => exact takesOne_bind sized_popBack fun _ ↦ sized_pure rfl
  | matrix mat => exact takesOne_bind sized_popBack fun _ ↦ sized_pure rfl

theorem sized_popSequence (f : FormulaFunctions) : Sized E m (fun _ n ↦ n = 0) f.popSequence :=
  sized_forAllArgs (takesOne_appendValuesFromStack hE hU f) []

end Parts

/-! ## Functions -/

section Functions

variable {E : Failure → Prop} (hE : ∀ e, E (.exception e)) (f : FormulaFunctions)

include hE

/-- A function with a number of arguments that is checked first. -/
theorem leavesOne_requireArgs {k : Nat} {msg : String} {x : Unit → StackM Unit}
    (h : Sized E k (fun _ n ↦ n = 1) (x ())) :
    LeavesOne E (requireArgs (· = k) msg >>= x) := by
  refine fun m ↦ sized_requireArgs_bind hE fun hm ↦ ?_
  obtain rfl := of_decide_eq_true hm
  exact h

theorem leavesOne_popExtreme (name : String) (takes : ℚ → ℚ → Bool) :
    LeavesOne E (popExtreme name takes) := by
  refine fun m ↦ sized_requireArgs_bind hE fun _ ↦ ?_
  refine pops_bind hE (pops_popValue hE) fun ret n _ ↦ ?_
  refine sized_bind (sized_forAllArgs (fun ret ↦ ?_) ret) fun _ _ hn ↦ sized_push hn
  exact fun _ ↦ takesOne_bind (takesOne_popValue hE) fun _ ↦ sized_pure rfl

theorem leavesOne_fncSum : LeavesOne E f.fncSum := by
  refine fun m ↦ sized_requireArgs_bind hE fun _ ↦ ?_
  refine sized_bind (sized_forAllArgs (fun ret ↦ ?_) 0) fun _ _ hn ↦ sized_push hn
  refine takesOne_back_bind hE fun v m ↦ ?_
  cases v with
  | rangeRef range =>
    refine takesOne_bind (takesOne_popRangeValue hE _) fun mat ↦ ?_
    exact sized_lift_bind (within_ofExcept hE _) fun _ ↦ sized_pure rfl
  | _ => exact takesOne_bind (takesOne_popValue hE) fun _ ↦ sized_pure rfl

theorem leavesOne_fncAbs : LeavesOne E fncAbs :=
  leavesOne_requireArgs hE <| takesOne_bind (takesOne_popValue hE) fun _ ↦ sized_push rfl

theorem leavesOne_fncAverage : LeavesOne E f.fncAverage := by
  refine fun m ↦ sized_requireArgs_bind hE fun _ ↦ ?_
  refine sized_bind (sized_forAllArgs (fun p ↦ ?_) (0, 0)) fun _ _ hn ↦ sized_push hn
  refine takesOne_back_bind hE fun v m ↦ ?_
  cases v with
  | rangeRef range =>
    refine takesOne_bind (takesOne_popRangeValue hE _) fun mat ↦ ?_
    exact sized_read (within_ofExcept hE _)
  | _ => exact takesOne_bind (takesOne_popValue hE) fun _ ↦ sized_pure rfl

theorem leavesOne_fncPi : LeavesOne E fncPi := leavesOne_requireArgs hE (sized_push rfl)

theorem leavesOne_fncInt : LeavesOne E fncInt :=
  leavesOne_requireArgs hE <| takesOne_bind (takesOne_popValue hE) fun _ ↦ sized_push rfl

/-- Matrices are taken off the stack until it is empty. -/
theorem sized_popMatrices (k : Nat) (ms : List Matrix) {m : Nat} :
    Sized E m (fun ms n ↦ ms ≠ none → n = 0) (f.popMatrices k ms) := by
  induction k generalizing ms m with
  | zero =>
    refine sized_get_bind fun s hs ↦ ?_
    split
    case isTrue h =>
      obtain rfl := List.isEmpty_iff.mp h
      exact sized_pure fun _ ↦ hs.symm
    case isFalse => exact sized_pure fun h ↦ absurd rfl h
  | succ k ih =>
    refine sized_get_bind fun s hs ↦ ?_
    split
    case isTrue h =>
      obtain rfl := List.isEmpty_iff.mp h
      exact sized_pure fun _ ↦ hs.symm
    case isFalse =>
      refine sized_bind (R := fun _ _ ↦ True) ?_ fun mat n _ ↦ ?_
      · refine sized_back_bind hE fun v n _ ↦ ?_
        cases v with
        | matrix mat => exact takesOne_bind sized_popBack fun _ ↦ sized_pure trivial
        | rangeRef range =>
          exact takesOne_bind (takesOne_popRangeValue hE _) fun _ ↦ sized_pure trivial
        | _ => exact sized_pure trivial
      · cases mat with
        | none => exact sized_pure fun h ↦ absurd rfl h
        | some mat => exact ih _

theorem leavesOne_fncMmult : LeavesOne E f.fncMmult := by
  refine fun m ↦ sized_bind (sized_popMatrices hE f 2 []) fun ms n hn ↦ ?_
  split
  case h_1 left right =>
    obtain rfl := hn nofun
    split
    · exact sized_bind (R := fun _ _ ↦ False) (sized_raiseExn hE _) fun _ _ h ↦ h.elim
    · refine sized_bind (R := fun _ n ↦ n = 0) ?_ fun _ _ hn ↦ sized_push hn
      rw [multiplyMatrices]
      split
      · exact sized_raise hE _
      · exact sized_pure rfl
  case h_2 => exact sized_raiseExn hE _

theorem leavesOne_fncIf : LeavesOne E fncIf := by
  refine fun m ↦ sized_get_bind fun s hs ↦ ?_
  split
  · exact sized_lift_bind (within_numericOf hE (RefersOnly.all _)) fun _ ↦ sized_set _
  · exact sized_raiseExn hE _

theorem leavesOne_fncTrue : LeavesOne E fncTrue := leavesOne_requireArgs hE (sized_push rfl)

theorem leavesOne_fncFalse : LeavesOne E fncFalse := leavesOne_requireArgs hE (sized_push rfl)

theorem leavesOne_fncNot : LeavesOne E fncNot :=
  leavesOne_requireArgs hE <| takesOne_bind (takesOne_popBoolean hE) fun _ ↦ sized_push rfl

theorem leavesOne_fncIs {msg : String} {cell : AbsAddress → Reader Bool}
    (hcell : ∀ addr, (cell addr).Fails E) (value : StackValue → Bool) :
    LeavesOne E (fncIs msg cell value) := by
  refine leavesOne_requireArgs hE (sized_back_bind hE fun v n hn ↦ ?_)
  cases v with
  | singleRef a =>
    refine takesOne_bind (takesOne_popSingleRef hE) fun addr ↦ ?_
    exact sized_lift_bind (hcell addr) fun _ ↦ sized_push (Nat.succ.inj hn).symm
  | _ => exact leavesOne_clearAndPush _ _

theorem fails_cellValueIs (p : ValueType → Bool) (addr : AbsAddress) :
    (cellValueIs p addr).Fails E :=
  within_bind (within_getCellValueType hE trivial) fun _ ↦ trivial

theorem fails_getErrorValue (addr : AbsAddress) : (getErrorValue addr).Fails E := by
  refine within_bind (within_getCellType trivial) fun type ↦ ?_
  cases type with
  | formula =>
    refine within_bind (within_getFormulaResult hE trivial) fun r ↦ ?_
    cases r <;> trivial
  | _ => trivial

theorem leavesOne_fncIserr : LeavesOne E fncIserr := by
  refine leavesOne_fncIs hE (fun addr ↦ ?_) _
  refine within_bind (within_getCellValueType hE trivial) fun type ↦ ?_
  exact fails_ite (within_pure _) (within_bind (fails_getErrorValue hE addr) fun _ ↦ trivial)

theorem leavesOne_fncIserror : LeavesOne E fncIserror :=
  leavesOne_fncIs hE (fails_cellValueIs hE _) _

theorem leavesOne_fncIsformula : LeavesOne E fncIsformula :=
  leavesOne_fncIs hE (fun _ ↦ within_bind (within_getCellType trivial) fun _ ↦ within_pure _) _

theorem leavesOne_fncIslogical : LeavesOne E fncIslogical :=
  leavesOne_fncIs hE (fails_cellValueIs hE _) _

theorem leavesOne_fncIsna : LeavesOne E fncIsna :=
  leavesOne_fncIs hE (fun addr ↦ within_bind (fails_getErrorValue hE addr) fun _ ↦ within_pure _) _

theorem leavesOne_fncIsnontext : LeavesOne E fncIsnontext :=
  leavesOne_fncIs hE (fails_cellValueIs hE _) _

theorem leavesOne_fncIsnumber : LeavesOne E fncIsnumber :=
  leavesOne_fncIs hE (fails_cellValueIs hE _) _

theorem leavesOne_fncIstext : LeavesOne E fncIstext :=
  leavesOne_fncIs hE (fails_cellValueIs hE _) _

theorem leavesOne_fncIsref : LeavesOne E fncIsref := by
  refine leavesOne_requireArgs hE (sized_back_bind hE fun v n hn ↦ ?_)
  cases v with
  | _ => exact leavesOne_clearAndPush _ _

theorem leavesOne_fncN : LeavesOne E fncN :=
  leavesOne_requireArgs hE <| takesOne_bind (takesOne_popValue hE) fun _ ↦ sized_push rfl

theorem leavesOne_fncNa : LeavesOne E fncNa := leavesOne_requireArgs hE (sized_push rfl)

theorem leavesOne_fncType : LeavesOne E fncType := by
  refine leavesOne_requireArgs hE (sized_back_bind hE fun v n hn ↦ ?_)
  obtain rfl := Nat.succ.inj hn
  cases v with
  | singleRef a =>
    refine takesOne_bind (takesOne_popSingleRef hE) fun addr ↦ ?_
    exact sized_lift_bind (within_getCellValueType hE trivial) fun _ ↦ sized_push rfl
  | _ => exact takesOne_bind sized_popBack fun _ ↦ sized_push rfl

theorem leavesOne_fncLen : LeavesOne E f.fncLen :=
  leavesOne_requireArgs hE <| takesOne_bind (takesOne_popString hE _) fun _ ↦
    sized_bind (sized_bytePositions hE _) fun _ _ hn ↦ sized_push hn

theorem leavesOne_fncConcatenate : LeavesOne E f.fncConcatenate := by
  refine fun m ↦ sized_bind (sized_forAllArgs (fun s ↦ ?_) []) fun _ _ hn ↦ sized_push hn
  exact fun _ ↦ takesOne_bind (takesOne_popString hE _) fun _ ↦ sized_pure rfl

theorem leavesOne_fncExact : LeavesOne E f.fncExact :=
  leavesOne_requireArgs hE <| takesOne_bind (takesOne_popString hE _) fun _ ↦
    takesOne_bind (takesOne_popString hE _) fun _ ↦ sized_push rfl

theorem leavesOne_fncT : LeavesOne E fncT := by
  refine leavesOne_requireArgs hE (sized_back_bind hE fun v n hn ↦ ?_)
  obtain rfl := Nat.succ.inj hn
  have hcell : Sized E 1 (fun _ n ↦ n = 1) (do
      let addr ← popSingleRef
      if (← Reader.getCellValueType addr) = .string then
        push (.string (← Reader.getStringValue addr))
      else push (.string []) : StackM Unit) := by
    refine takesOne_bind (takesOne_popSingleRef hE) fun addr ↦ ?_
    refine sized_lift_bind (within_getCellValueType hE trivial) fun type ↦ ?_
    split
    · exact sized_lift_bind (within_getStringValue hE trivial) fun _ ↦ sized_push rfl
    · exact sized_push rfl
  cases v with
  | string text => exact sized_pure rfl
  | singleRef a => exact hcell
  | rangeRef range => exact hcell
  | _ => exact takesOne_bind sized_popBack fun _ ↦ sized_push rfl

theorem leavesOne_fncTrim : LeavesOne E f.fncTrim :=
  leavesOne_requireArgs hE <| takesOne_bind (takesOne_popString hE _) fun _ ↦ sized_push rfl

theorem leavesOne_fncNow : LeavesOne E f.fncNow := leavesOne_requireArgs hE (sized_push rfl)

omit hE in
theorem leavesOne_fncWait : LeavesOne E fncWait := leavesOne_clearAndPush _

theorem leavesOne_fncPosition (msg : String) (number : AbsAddress → Int) :
    LeavesOne E (f.fncPosition msg number) := by
  refine fun m ↦ sized_get_bind fun s hs ↦ ?_
  split
  case isTrue h =>
    obtain rfl := List.isEmpty_iff.mp h
    exact sized_push hs.symm
  case isFalse =>
    refine sized_requireArgs_bind hE fun hm ↦ sized_back_bind hE fun v n hn ↦ ?_
    obtain rfl : n = 0 := by
      have := of_decide_eq_true hm
      omega
    cases v with
    | singleRef a => exact takesOne_bind (takesOne_popSingleRef hE) fun _ ↦ sized_push rfl
    | rangeRef range => exact takesOne_bind (takesOne_popSingleRef hE) fun _ ↦ sized_push rfl
    | _ => exact sized_raise hE _

theorem leavesOne_fncExtent (extent : AbsRange → Int) : LeavesOne E (fncExtent extent) := by
  refine fun m ↦ sized_bind (sized_forAllArgs (fun res ↦ ?_) 0) fun _ _ hn ↦ sized_push hn
  refine takesOne_back_bind hE fun v m ↦ ?_
  cases v with
  | singleRef a => exact takesOne_bind (takesOne_popRangeRef hE) fun _ ↦ sized_pure rfl
  | rangeRef range => exact takesOne_bind (takesOne_popRangeRef hE) fun _ ↦ sized_pure rfl
  | _ => exact sized_raise hE _

theorem leavesOne_fncSheet : LeavesOne E f.fncSheet := by
  refine fun m ↦ sized_get_bind fun s hs ↦ ?_
  split
  case isTrue h =>
    obtain rfl := List.isEmpty_iff.mp h
    exact sized_push hs.symm
  case isFalse =>
    refine sized_requireArgs_bind hE fun hm ↦ sized_back_bind hE fun v n hn ↦ ?_
    obtain rfl : n = 0 := by
      have := of_decide_eq_true hm
      omega
    cases v with
    | singleRef a => exact takesOne_bind (takesOne_popRangeRef hE) fun _ ↦ sized_push rfl
    | rangeRef range => exact takesOne_bind (takesOne_popRangeRef hE) fun _ ↦ sized_push rfl
    | string text =>
      refine takesOne_bind (takesOne_popString hE _) fun name ↦ ?_
      split
      · exact sized_raise hE _
      · exact sized_push rfl
    | _ => exact sized_raise hE _

theorem leavesOne_fncSheets : LeavesOne E f.fncSheets := by
  refine fun m ↦ sized_get_bind fun s hs ↦ ?_
  split
  case isTrue h =>
    obtain rfl := List.isEmpty_iff.mp h
    exact sized_push hs.symm
  case isFalse =>
    refine sized_requireArgs_bind hE fun hm ↦ sized_back_bind hE fun v n hn ↦ ?_
    obtain rfl : n = 0 := by
      have := of_decide_eq_true hm
      omega
    cases v with
    | singleRef a => exact takesOne_bind (takesOne_popRangeRef hE) fun _ ↦ sized_push rfl
    | rangeRef range => exact takesOne_bind (takesOne_popRangeRef hE) fun _ ↦ sized_push rfl
    | _ => exact sized_raise hE _

/-! ### Functions whose behaviour may be undefined -/

variable (hU : E .undefined)

include hU

theorem leavesOne_fncMedian : LeavesOne E f.fncMedian := by
  refine fun m ↦ sized_requireArgs_bind hE fun _ ↦ ?_
  refine sized_bind (sized_popSequence hE hU f) fun seq n hn ↦ ?_
  dsimp only
  split
  · exact sized_bind (sized_elementAt hU _ _) fun _ _ hk ↦ sized_push (hk.trans hn)
  · split
    · exact sized_undefined hU
    · refine sized_bind (sized_elementAt hU _ _) fun _ k hk ↦ ?_
      exact sized_bind (sized_elementAt hU _ _) fun _ _ hk' ↦ sized_push (hk'.trans (hk.trans hn))

theorem leavesOne_fncMode : LeavesOne E f.fncMode := by
  refine fun m ↦ sized_requireArgs_bind hE fun _ ↦ ?_
  refine sized_bind (sized_popSequence hE hU f) fun seq n hn ↦ ?_
  refine sized_bind (sized_stdSort hU _ _) fun counts n' hn' ↦ ?_
  obtain rfl := hn'.trans hn
  split
  · exact sized_push rfl
  · split
    · exact sized_push rfl
    · exact sized_push rfl

theorem leavesOne_countArgs (counted : StackValue → Bool) (values : Values) :
    LeavesOne E (f.countArgs counted values) := by
  refine fun m ↦ sized_bind (sized_forAllArgs (fun ret ↦ ?_) 0) fun _ _ hn ↦ sized_push hn
  refine takesOne_back_bind hE fun v m ↦ ?_
  cases v with
  | rangeRef range =>
    refine takesOne_bind (takesOne_popRangeRef hE) fun range ↦ ?_
    exact sized_lift_bind (fails_countRange hE _ hU _ _) fun _ ↦ sized_pure rfl
  | singleRef a =>
    refine takesOne_bind (takesOne_popSingleRef hE) fun addr ↦ ?_
    exact sized_lift_bind (fails_countRange hE _ hU _ _) fun _ ↦ sized_pure rfl
  | _ => exact takesOne_bind sized_popBack fun _ ↦ sized_pure rfl

theorem leavesOne_fncCountblank : LeavesOne E f.fncCountblank := by
  refine leavesOne_requireArgs hE (sized_back_bind hE fun v n hn ↦ ?_)
  obtain rfl := Nat.succ.inj hn
  have hrange : Sized E 1 (fun _ n ↦ n = 1) (do
      let range ← popRangeRef
      push (.value (← f.workbook.countRange range ValueT.empty.bits)) : StackM Unit) := by
    refine takesOne_bind (takesOne_popRangeRef hE) fun range ↦ ?_
    exact sized_lift_bind (fails_countRange hE _ hU _ _) fun _ ↦ sized_push rfl
  cases v with
  | singleRef a => exact hrange
  | rangeRef range => exact hrange
  | _ => exact sized_raiseExn hE _

omit hU in
theorem fails_andSegment (sheet : Int) (seg : Segment) (b : Bool) :
    (andSegment sheet seg b).Fails E := by
  have hcells {p : List Bool → Bool × Bool} :
      (do return p (← (seg.addresses sheet).mapM getBooleanValue) : Reader (Bool × Bool)).Fails E :=
    within_bind (fails_mapM (fun a ↦ within_getBooleanValue hE trivial) _) fun _ ↦ within_pure _
  rw [andSegment]
  dsimp only
  split
  · exact within_pure _
  · exact within_pure _
  · exact hcells
  · exact hcells
  · refine within_bind (fails_foldlM (fun b a ↦ ?_) _ _) fun _ ↦ within_pure _
    refine within_bind (within_getFormulaResult hE trivial) fun r ↦ ?_
    cases r <;> exact within_pure _

theorem leavesOne_fncAnd : LeavesOne E f.fncAnd := by
  refine fun m ↦ sized_bind (sized_forArgs (fun b ↦ ?_) true) fun b n _ ↦ leavesOne_clearAndPush _ n
  have hsingle : TakesOne E (do return (← popOneValueAsBoolean).getD b : StackM Bool) :=
    takesOne_return (takesOne_popOneValueAsBoolean hE)
  refine takesOne_back_bind hE fun v m ↦ ?_
  cases v with
  | singleRef a => exact hsingle m
  | value q => exact hsingle m
  | string text => exact hsingle m
  | rangeRef range =>
    refine takesOne_bind (takesOne_popRangeRef hE) fun range ↦ ?_
    exact sized_read (fails_walk hE _ hU (fails_andSegment hE _) _ _ _)
  | _ => exact sized_raise hE _

omit hU in
theorem fails_orFormulas (addrs : List AbsAddress) (b : Bool) : (orFormulas addrs b).Fails E := by
  induction addrs generalizing b with
  | nil => trivial
  | cons a addrs ih =>
    refine within_bind (within_getFormulaResult hE trivial) fun r ↦ ?_
    cases r <;> exact fails_ite (within_pure _) (ih _)

omit hU in
theorem fails_orSegment (sheet : Int) (seg : Segment) (b : Bool) :
    (orSegment sheet seg b).Fails E := by
  have hcells {p : List Bool → Bool × Bool} :
      (do return p (← (seg.addresses sheet).mapM getBooleanValue) : Reader (Bool × Bool)).Fails E :=
    within_bind (fails_mapM (fun a ↦ within_getBooleanValue hE trivial) _) fun _ ↦ within_pure _
  rw [orSegment]
  dsimp only
  split
  · exact within_pure _
  · exact within_pure _
  · exact hcells
  · exact hcells
  · exact within_bind (fails_orFormulas hE _ _) fun _ ↦ within_pure _

theorem leavesOne_fncOr : LeavesOne E f.fncOr := by
  refine fun m ↦ sized_bind (sized_forArgs (fun b ↦ ?_) false) fun b n _ ↦
    leavesOne_clearAndPush _ n
  have hsingle : TakesOne E (do return (← popOneValueAsBoolean).getD false : StackM Bool) :=
    takesOne_return (takesOne_popOneValueAsBoolean hE)
  refine takesOne_back_bind hE fun v m ↦ ?_
  cases v with
  | singleRef a => exact hsingle m
  | value q => exact hsingle m
  | string text => exact hsingle m
  | rangeRef range =>
    refine takesOne_bind (takesOne_popRangeRef hE) fun range ↦ ?_
    exact sized_read (fails_walk hE _ hU (fails_orSegment hE _) _ _ _)
  | _ => exact sized_raise hE _

theorem leavesOne_fncIsblank : LeavesOne E f.fncIsblank := by
  refine leavesOne_requireArgs hE (sized_back_bind hE fun v n hn ↦ ?_)
  obtain rfl := Nat.succ.inj hn
  cases v with
  | singleRef a =>
    refine takesOne_bind (takesOne_popSingleRef hE) fun addr ↦ ?_
    exact sized_lift_bind (within_getCellType trivial) fun _ ↦ sized_push rfl
  | rangeRef range =>
    refine takesOne_bind (takesOne_popRangeRef hE) fun range ↦ ?_
    exact sized_lift_bind (fails_isEmpty hE _ hU _) fun _ ↦ sized_push rfl
  | _ => exact leavesOne_clearAndPush _ _

theorem leavesOne_fncIseven : LeavesOne E fncIseven :=
  leavesOne_requireArgs hE <| takesOne_bind (takesOne_popAndCheckForOddValue hE hU) fun _ ↦
    sized_push rfl

theorem leavesOne_fncIsodd : LeavesOne E fncIsodd :=
  leavesOne_requireArgs hE <| takesOne_bind (takesOne_popAndCheckForOddValue hE hU) fun _ ↦
    sized_push rfl

theorem leavesOne_fncMid : LeavesOne E f.fncMid := by
  refine leavesOne_requireArgs hE ?_
  refine takesOne_bind (takesOne_popFloor hE hU) fun len ↦ ?_
  refine takesOne_bind (takesOne_popFloor hE hU) fun start ↦ ?_
  split
  · exact leavesOne_clearAndPush _ _
  · refine takesOne_bind (takesOne_popString hE _) fun s ↦ ?_
    refine sized_bind (sized_bytePositions hE _) fun positions n hn ↦ ?_
    dsimp only
    split
    · exact sized_push hn
    refine sized_bind (sized_elementAt hU _ _) fun skipFront k hk ↦ ?_
    obtain rfl := hk.trans hn
    split
    · refine sized_bind (sized_toInt hU _) fun last k hk ↦ ?_
      exact sized_bind (sized_elementAt hU _ _) fun _ _ hk' ↦ sized_push (hk'.trans hk)
    · exact sized_push rfl

omit hU in
/-- The search from a position on, which takes the two texts. -/
theorem sized_find (start : Int) : Sized E 2 (fun _ n ↦ n = 1) (do
    if start < 0 then clearAndPush (.error .invalidValueType)
    else
      let content ← popString f.lib
      let part ← popString f.lib
      let positions ← bytePositions content
      match positions[start.toNat]? with
      | none => push (.error .invalidValueType)
      | some start =>
        match (findFrom content part (toSize (asInt start))).bind (characterAt positions) with
        | none => push (.error .invalidValueType)
        | some i => push (.value (i + 1)) : StackM Unit) := by
  split
  · exact leavesOne_clearAndPush _ _
  · refine takesOne_bind (takesOne_popString hE _) fun content ↦ ?_
    refine takesOne_bind (takesOne_popString hE _) fun part ↦ ?_
    refine sized_bind (sized_bytePositions hE _) fun positions n hn ↦ ?_
    split
    · exact sized_push hn
    · split
      · exact sized_push hn
      · exact sized_push hn

theorem leavesOne_fncFind : LeavesOne E f.fncFind := by
  refine fun m ↦ sized_requireArgs_bind hE fun hm ↦ ?_
  have hm : 2 ≤ m ∧ m ≤ 3 := by simpa using hm
  refine sized_get_bind fun s hs ↦ ?_
  split
  case isTrue h =>
    obtain rfl := hs.symm.trans h
    exact takesOne_bind (takesOne_popValue hE) fun _ ↦ sized_bind (sized_toInt hU _) fun _ _ hn ↦
      hn ▸ sized_find hE f _
  case isFalse h =>
    obtain rfl : m = 2 := by omega
    exact sized_find hE f 0

theorem sized_popCount {m : Nat} (hm : 1 ≤ m ∧ m ≤ 2) :
    Sized E m (fun _ n ↦ n = 1) popCount := by
  refine sized_get_bind fun s hs ↦ ?_
  split
  case isTrue h =>
    obtain rfl := hs.symm.trans h
    exact takesOne_popFloor hE hU 1
  case isFalse h => exact sized_pure (by omega)

theorem leavesOne_fncLeft : LeavesOne E f.fncLeft := by
  refine fun m ↦ sized_requireArgs_bind hE fun hm ↦ ?_
  refine sized_bind (sized_popCount hE hU (by simpa using hm)) fun k n hn ↦ ?_
  obtain rfl := hn
  split
  · exact leavesOne_clearAndPush _ _
  · refine takesOne_bind (takesOne_popString hE _) fun s ↦ ?_
    refine sized_bind (sized_bytePositions hE _) fun positions n hn ↦ ?_
    split
    · exact sized_push hn
    · exact sized_push hn

theorem leavesOne_fncRight : LeavesOne E f.fncRight := by
  refine fun m ↦ sized_requireArgs_bind hE fun hm ↦ ?_
  refine sized_bind (sized_popCount hE hU (by simpa using hm)) fun k n hn ↦ ?_
  obtain rfl := hn
  split
  · exact leavesOne_clearAndPush _ _
  split
  · exact leavesOne_clearAndPush _ _
  · refine takesOne_bind (takesOne_popString hE _) fun s ↦ ?_
    refine sized_bind (sized_bytePositions hE _) fun positions n hn ↦ ?_
    generalize asInt positions.length - k = skip
    refine sized_bind (sized_toInt hU _) fun skip i hi ↦ ?_
    split
    · exact sized_bind (sized_elementAt hU _ _) fun _ _ hk ↦ sized_push (hk.trans (hi.trans hn))
    · exact sized_push (hi.trans hn)

theorem leavesOne_fncReplace : LeavesOne E f.fncReplace := by
  refine leavesOne_requireArgs hE ?_
  refine takesOne_bind (takesOne_popString hE _) fun newText ↦ ?_
  refine takesOne_bind (takesOne_popFloor hE hU) fun count ↦ ?_
  refine takesOne_bind (takesOne_popValue hE) fun pos ↦ ?_
  refine sized_bind (sized_toInt hU _) fun pos n hn ↦ ?_
  obtain rfl := hn
  split
  · exact leavesOne_clearAndPush _ _
  · refine takesOne_bind (takesOne_popString hE _) fun content ↦ ?_
    refine sized_bind (sized_bytePositions hE _) fun positions n hn ↦ ?_
    dsimp only
    generalize min pos (asInt positions.length) = segment
    generalize segment + _ = logical
    exact sized_bind (sized_toInt hU _) fun _ _ hk ↦ sized_push (hk.trans hn)

theorem leavesOne_fncRept : LeavesOne E f.fncRept := by
  refine leavesOne_requireArgs hE ?_
  refine takesOne_bind (takesOne_popValue hE) fun count ↦ ?_
  refine sized_bind (sized_toInt hU _) fun count n hn ↦ ?_
  obtain rfl := hn
  split
  · exact leavesOne_clearAndPush _ _
  · exact takesOne_bind (takesOne_popString hE _) fun _ ↦ sized_push rfl

theorem leavesOne_fncSubstitute : LeavesOne E f.fncSubstitute := by
  refine fun m ↦ sized_requireArgs_bind hE fun hm ↦ ?_
  have hm : 3 ≤ m ∧ m ≤ 4 := by simpa using hm
  have hreplace (which : Option Int) : Sized E 3 (fun _ n ↦ n = 1) (do
      if which.any (· < 1) then clearAndPush (.error .invalidValueType)
      else
        let textNew ← popString f.lib
        let textOld ← popString f.lib
        let content ← popString f.lib
        let contentNew ← substituteFrom content textOld textNew which (2 ^ 31) 0 0 []
        clearAndPush (.string contentNew) : StackM Unit) := by
    split
    · exact leavesOne_clearAndPush _ _
    · refine takesOne_bind (takesOne_popString hE _) fun textNew ↦ ?_
      refine takesOne_bind (takesOne_popString hE _) fun textOld ↦ ?_
      refine takesOne_bind (takesOne_popString hE _) fun content ↦ ?_
      exact sized_bind (sized_substituteFrom hU _ _ _ _ _ _ _ _) fun _ _ _ ↦
        leavesOne_clearAndPush _ _
  refine sized_get_bind fun s hs ↦ ?_
  split
  case isTrue h =>
    obtain rfl := hs.symm.trans h
    exact takesOne_bind (takesOne_popFloor hE hU) fun _ ↦ hreplace _
  case isFalse h =>
    obtain rfl : m = 3 := by omega
    exact hreplace none

omit hU in
/-- References to ranges are taken off the stack one by one. -/
theorem sized_popRanges (k : Nat) (ranges : List AbsRange) {m : Nat} :
    Sized E (m + k) (fun _ n ↦ n = m) (popRanges k ranges) := by
  induction k generalizing ranges with
  | zero => exact sized_pure rfl
  | succ k ih => exact takesOne_bind (takesOne_popRangeRef hE) fun _ ↦ ih _

theorem fails_cellText (skipEmpty : Bool) (a : AbsAddress) : (f.cellText skipEmpty a).Fails E := by
  refine within_bind (within_getCellType trivial) fun type ↦ ?_
  cases type with
  | string =>
    refine within_bind (within_getCellValue trivial) fun v ↦ ?_
    split
    · exact within_pure _
    · exact hU
  | numeric => exact within_bind (within_getNumericValue hE trivial) fun _ ↦ within_pure _
  | boolean => exact within_bind (within_getBooleanValue hE trivial) fun _ ↦ within_pure _
  | formula => exact within_bind (within_getFormulaResult hE trivial) fun _ ↦ within_pure _
  | empty => exact within_pure _

theorem leavesOne_fncTextjoin : LeavesOne E f.fncTextjoin := by
  refine fun m ↦ sized_requireArgs_bind hE fun hm ↦ sized_get_bind fun s hs ↦ ?_
  obtain ⟨k, rfl⟩ := Nat.exists_eq_add_of_le' (Nat.le_of_succ_le (of_decide_eq_true hm))
  rw [hs, Nat.add_sub_cancel, Nat.add_comm]
  refine sized_bind (sized_popRanges hE k []) fun ranges n hn ↦ ?_
  obtain rfl := hn
  refine takesOne_bind (takesOne_popBoolean hE) fun skipEmpty ↦ ?_
  refine takesOne_bind (takesOne_popString hE _) fun delim ↦ ?_
  refine sized_bind (sized_foldlM (fun tokens range ↦ ?_) _ _) fun _ _ hn ↦ sized_push hn
  refine fails_foldlM (fun tokens sheet ↦ ?_) _ _
  refine within_bind (within_ofExcept hE _) fun addrs ↦ ?_
  refine fails_foldlM (fun tokens a ↦ ?_) _ _
  exact within_bind (fails_cellText hE f hU _ a) fun _ ↦ within_pure _

theorem leavesOne_fncSubtotal : LeavesOne E f.fncSubtotal := by
  refine leavesOne_requireArgs hE ?_
  refine takesOne_bind (takesOne_popRangeRef hE) fun range ↦ ?_
  refine takesOne_bind (takesOne_popValue hE) fun subtype ↦ ?_
  refine sized_bind (sized_toInt hU _) fun subtype n hn ↦ ?_
  obtain rfl := hn
  split
  · refine sized_lift_bind (within_getRangeValue hE (fun _ _ ↦ trivial) _) fun mat ↦ ?_
    exact sized_lift_bind (within_ofExcept hE _) fun _ ↦ sized_push rfl
  · exact sized_raiseExn hE _

/-- Every function leaves one value in place of its arguments, or it throws an exception, or its
behaviour is undefined. -/
theorem leavesOne_handler (func : FormulaFunction) : LeavesOne E (f.handler func) := by
  cases func with
  | funcAbs => exact leavesOne_fncAbs hE
  | funcAnd => exact leavesOne_fncAnd hE f hU
  | funcAverage => exact leavesOne_fncAverage hE f
  | funcColumn => exact leavesOne_fncPosition hE f _ _
  | funcColumns => exact leavesOne_fncExtent hE _
  | funcConcatenate => exact leavesOne_fncConcatenate hE f
  | funcCount => exact leavesOne_countArgs hE f hU _ _
  | funcCounta => exact leavesOne_countArgs hE f hU _ _
  | funcCountblank => exact leavesOne_fncCountblank hE f hU
  | funcExact => exact leavesOne_fncExact hE f
  | funcFalse => exact leavesOne_fncFalse hE
  | funcFind => exact leavesOne_fncFind hE f hU
  | funcIf => exact leavesOne_fncIf hE
  | funcIsblank => exact leavesOne_fncIsblank hE f hU
  | funcIserr => exact leavesOne_fncIserr hE
  | funcIserror => exact leavesOne_fncIserror hE
  | funcIseven => exact leavesOne_fncIseven hE hU
  | funcIsformula => exact leavesOne_fncIsformula hE
  | funcIslogical => exact leavesOne_fncIslogical hE
  | funcIsna => exact leavesOne_fncIsna hE
  | funcIsnontext => exact leavesOne_fncIsnontext hE
  | funcIsnumber => exact leavesOne_fncIsnumber hE
  | funcIsodd => exact leavesOne_fncIsodd hE hU
  | funcIsref => exact leavesOne_fncIsref hE
  | funcIstext => exact leavesOne_fncIstext hE
  | funcInt => exact leavesOne_fncInt hE
  | funcLeft => exact leavesOne_fncLeft hE f hU
  | funcLen => exact leavesOne_fncLen hE f
  | funcMax => exact leavesOne_popExtreme hE _ _
  | funcMedian => exact leavesOne_fncMedian hE f hU
  | funcMid => exact leavesOne_fncMid hE f hU
  | funcMin => exact leavesOne_popExtreme hE _ _
  | funcMmult => exact leavesOne_fncMmult hE f
  | funcMode => exact leavesOne_fncMode hE f hU
  | funcN => exact leavesOne_fncN hE
  | funcNa => exact leavesOne_fncNa hE
  | funcNot => exact leavesOne_fncNot hE
  | funcNow => exact leavesOne_fncNow hE f
  | funcOr => exact leavesOne_fncOr hE f hU
  | funcPi => exact leavesOne_fncPi hE
  | funcReplace => exact leavesOne_fncReplace hE f hU
  | funcRept => exact leavesOne_fncRept hE f hU
  | funcRight => exact leavesOne_fncRight hE f hU
  | funcRow => exact leavesOne_fncPosition hE f _ _
  | funcRows => exact leavesOne_fncExtent hE _
  | funcSheet => exact leavesOne_fncSheet hE f
  | funcSheets => exact leavesOne_fncSheets hE f
  | funcSubstitute => exact leavesOne_fncSubstitute hE f hU
  | funcSubtotal => exact leavesOne_fncSubtotal hE f hU
  | funcSum => exact leavesOne_fncSum hE f
  | funcT => exact leavesOne_fncT hE
  | funcTextjoin => exact leavesOne_fncTextjoin hE f hU
  | funcTrim => exact leavesOne_fncTrim hE f
  | funcTrue => exact leavesOne_fncTrue hE
  | funcType => exact leavesOne_fncType hE
  | funcWait => exact leavesOne_fncWait
  | unimplemented name => exact fun _ ↦ sized_raiseExn hE _

/-- A formula error that is caught leaves one value, too. -/
theorem leavesOne_interpret (func : FormulaFunction) : LeavesOne E (f.interpret func) := by
  intro m s hs
  refine ensures_tryCatch (leavesOne_handler hE f hU func m s hs) fun e he ↦ ?_
  split
  · split
    · exact he
    · exact rfl
  · exact he

end Functions

end FormulaFunctions

end Ixion
