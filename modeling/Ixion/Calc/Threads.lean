import Ixion.Calc.Settled
import Ixion.Calc.Stuck
import Ixion.Lib.Ends

/-!
# Interpreting cells on threads

Each task of the queue interprets one cell.  It locks the status of the cell for as long as
this takes.  To read the result of a formula cell it locks that status too, but only for a
moment, and while there is no result it sleeps until the condition of the status is notified.
That happens once the result has been set and the status has been unlocked.

The results come in any order that the tasks happen to run in.
-/

namespace Ixion.FormulaCellQueue

open Lib ModelContext Workbook

/-! ## Tasks that interpret cells -/

/-- What the task for a cell does. -/
inductive Task where
  /-- It has not been launched. -/
  | pending
  /-- About to lock the status of the cell. -/
  | launched
  /-- Evaluating the formula, with the status locked. -/
  | evaluating (r : Reader FormulaResult)
  /-- Waiting for the condition of the status that is read, with its own status locked. -/
  | sleeping (r : Reader FormulaResult)
  /-- The result is set and the status is unlocked, and the task is about to notify. -/
  | notifying
  | ended (o : Outcome)

namespace Task

/-- The status of the cell is locked. -/
def holdsLock : Task → Bool
  | .evaluating _ | .sleeping _ => true
  | _ => false

/-- The result of the cell is being calculated, or those who wait for it are to be
notified. -/
def busy : Task → Bool
  | .evaluating _ | .sleeping _ | .notifying => true
  | _ => false

/-- How the task has ended. -/
def outcome : Task → Option Outcome
  | .ended o => some o
  | _ => none

end Task

/-- The status whose result is read next. -/
def awaited (wb : Workbook) {α : Type} : Reader α → Option Nat
  | .ask (.cellValue a) _ =>
    match wb.getCell a with
    | .ok (.formula c) => some c.status
    | _ => none
  | _ => none

/-- Wake a task that waits for the condition of a status. -/
def Task.wake (wb : Workbook) (k : Nat) : Task → Task
  | .sleeping r => if awaited wb r = some k then .evaluating r else .sleeping r
  | t => t

/-- The context, and the tasks for the cells of a list. -/
structure Threads (S T : Type) where
  cxt : ModelContext S T
  tasks : ℕ → Task

namespace Threads

variable {S T : Type}

/-- Let one task go on. -/
def set (t : Threads S T) (i : ℕ) (a : Task) : Threads S T :=
  { t with tasks := Function.update t.tasks i a }

/-- Let one task go on after it has set the result of its cell. -/
def setResult (t : Threads S T) (i : ℕ) (x : Visit) (r : FormulaResult) (a : Task) :
    Threads S T :=
  { cxt := t.cxt.withResult x r, tasks := Function.update t.tasks i a }

/-- Let one task end after it has notified those that wait for a status. -/
def notifyAll (t : Threads S T) (i k : ℕ) : Threads S T :=
  { t with
    tasks := Function.update (fun j ↦ (t.tasks j).wake t.cxt.toWorkbook k) i (.ended .returned) }

/-- Some task has locked a status. -/
def locked (visits : List Visit) (t : Threads S T) (k : Nat) : Bool :=
  visits.zipIdx.any fun p ↦ p.1.key == k && (t.tasks p.2).holdsLock

/-- The result of a formula cell, as a task finds it that asks for it now.  It cannot lock
the status while another task holds it, or it does itself. -/
def getRawResultCache (visits : List Visit) (t : Threads S T) (c : FormulaCell) :
    Except Failure FormulaResult :=
  if t.locked visits c.status then .error .deadlock
  else
    match (t.cxt.statusOf c).result with
    | some r => .ok r
    | none => .error .wait

/-- One task takes a step.  Nothing happens while it cannot lock a status. -/
inductive Step (ev : Evaluator) (visits : List Visit) (t : Threads S T) :
    Threads S T → Prop where
  | notAllowed {i : ℕ} {x : Visit} : visits[i]? = some x → t.tasks i = .launched →
    x.cell.calcAllowed = false → Step ev visits t (t.set i (.ended .thrown))
  /-- The cell has a result already. -/
  | cached {i : ℕ} {x : Visit} : visits[i]? = some x → t.tasks i = .launched →
    x.cell.calcAllowed = true → t.locked visits x.key = false →
    (t.cxt.statuses x.key).result.isSome = true →
    Step ev visits t (t.set i (.ended .returned))
  /-- The task locks the status and begins to evaluate the formula. -/
  | begins {i : ℕ} {x : Visit} : visits[i]? = some x → t.tasks i = .launched →
    x.cell.calcAllowed = true → t.locked visits x.key = false →
    (t.cxt.statuses x.key).result = none →
    Step ev visits t
      (t.setResult i x .new (.evaluating (ev t.cxt.toWorkbook x.cell x.pos)))
  /-- A question has an answer. -/
  | answered {i : ℕ} {x : Visit} {q : Question} {k : q.Answer → Reader FormulaResult}
    {v : q.Answer} : visits[i]? = some x → t.tasks i = .evaluating (.ask q k) →
    t.cxt.answer (t.getRawResultCache visits) q = .ok v →
    Step ev visits t (t.set i (.evaluating (k v)))
  /-- The result that is asked for is missing. -/
  | waits {i : ℕ} {x : Visit} {q : Question} {k : q.Answer → Reader FormulaResult} :
    visits[i]? = some x → t.tasks i = .evaluating (.ask q k) →
    t.cxt.answer (t.getRawResultCache visits) q = .error .wait →
    Step ev visits t (t.set i (.sleeping (.ask q k)))
  /-- What is asked for lies outside the workbook.  Nobody is notified. -/
  | raises {i : ℕ} {x : Visit} {q : Question} {k : q.Answer → Reader FormulaResult} {e : Exn} :
    visits[i]? = some x → t.tasks i = .evaluating (.ask q k) →
    t.cxt.answer (t.getRawResultCache visits) q = .error (.exception e) →
    Step ev visits t (t.set i (.ended .thrown))
  /-- The evaluation throws.  Nobody is notified. -/
  | throws {i : ℕ} {x : Visit} {e : Exn} : visits[i]? = some x →
    t.tasks i = .evaluating (.throw (.exception e)) →
    Step ev visits t (t.set i (.ended .thrown))
  /-- The task sets the result and unlocks the status. -/
  | returns {i : ℕ} {x : Visit} {r : FormulaResult} : visits[i]? = some x →
    t.tasks i = .evaluating (.pure r) → Step ev visits t (t.setResult i x r .notifying)
  | notifies {i : ℕ} {x : Visit} : visits[i]? = some x → t.tasks i = .notifying →
    Step ev visits t (t.notifyAll i x.key)

/-- A task that waits wakes up for no reason. -/
inductive SpuriousWake (t : Threads S T) : Threads S T → Prop where
  | wake {i : ℕ} {r : Reader FormulaResult} : t.tasks i = .sleeping r →
    SpuriousWake t (t.set i (.evaluating r))

theorem outcome_wake (wb : Workbook) (k : Nat) (a : Task) : (a.wake wb k).outcome = a.outcome := by
  cases a with
  | sleeping r =>
    rw [Task.wake]
    split <;> rfl
  | _ => rfl

/-- A task that has not ended goes on, and the others stay as they are. -/
theorem outcome_update {tasks : ℕ → Task} {i j : ℕ} {o : Outcome} (a : Task)
    (hi : (tasks i).outcome = none) (ho : (tasks j).outcome = some o) :
    (Function.update tasks i a j).outcome = some o := by
  have hne : j ≠ i := by
    rintro rfl
    exact absurd (hi.symm.trans ho) nofun
  rw [Function.update_of_ne hne]
  exact ho

/-- The tasks that interpret the cells of a list. -/
def interpreting (ev : Evaluator) (visits : List Visit) : Pool (Threads S T) where
  launch i t := t.set i .launched
  Step := Step ev visits
  outcome t j := (t.tasks j).outcome
  outcome_launch {i j t} hij := by
    show (Function.update t.tasks i .launched j).outcome = _
    rw [Function.update_of_ne hij.symm]
  outcome_step {t t' j o} hstep ho := by
    cases hstep with
    | notAllowed _ hi _ => exact outcome_update _ (by rw [hi]; rfl) ho
    | cached _ hi _ _ _ => exact outcome_update _ (by rw [hi]; rfl) ho
    | begins _ hi _ _ _ => exact outcome_update _ (by rw [hi]; rfl) ho
    | answered _ hi _ => exact outcome_update _ (by rw [hi]; rfl) ho
    | waits _ hi _ => exact outcome_update _ (by rw [hi]; rfl) ho
    | raises _ hi _ => exact outcome_update _ (by rw [hi]; rfl) ho
    | throws _ hi => exact outcome_update _ (by rw [hi]; rfl) ho
    | returns _ hi => exact outcome_update _ (by rw [hi]; rfl) ho
    | @notifies i x _ hi =>
      show (Function.update (fun j ↦ (t.tasks j).wake t.cxt.toWorkbook x.key) i _ j).outcome = _
      refine outcome_update _ ?_ ?_
      · rw [outcome_wake, hi]
        rfl
      · rw [outcome_wake]
        exact ho

/-! ## Locks -/

variable {visits : List Visit} {t t' : Threads S T} {k : Nat}

theorem locked_iff : t.locked visits k = true ↔
    ∃ i x, visits[i]? = some x ∧ x.key = k ∧ (t.tasks i).holdsLock = true := by
  rw [locked, List.any_eq_true]
  constructor
  · rintro ⟨⟨x, i⟩, hmem, h⟩
    rw [List.mem_zipIdx_iff_getElem?] at hmem
    rw [Bool.and_eq_true, beq_iff_eq] at h
    exact ⟨i, x, hmem, h.1, h.2⟩
  · rintro ⟨i, x, hx, hkey, hholds⟩
    refine ⟨⟨x, i⟩, List.mem_zipIdx_iff_getElem?.mpr hx, ?_⟩
    rw [Bool.and_eq_true, beq_iff_eq]
    exact ⟨hkey, hholds⟩

/-- What no task has locked stays so when no more tasks hold locks. -/
theorem locked_eq_false_mono
    (h : ∀ i, (t'.tasks i).holdsLock = true → (t.tasks i).holdsLock = true)
    (hk : t.locked visits k = false) : t'.locked visits k = false := by
  rw [← Bool.not_eq_true, locked_iff] at hk ⊢
  rintro ⟨i, x, hx, hkey, hholds⟩
  exact hk ⟨i, x, hx, hkey, h i hholds⟩

/-- Some task is about to set the result of a status, or to notify those that wait for it. -/
def Busy (visits : List Visit) (t : Threads S T) (k : Nat) : Prop :=
  ∃ i x, visits[i]? = some x ∧ x.key = k ∧ (t.tasks i).busy = true

theorem Busy.mono (h : ∀ i, (t.tasks i).busy = true → (t'.tasks i).busy = true)
    (hk : Busy visits t k) : Busy visits t' k := by
  obtain ⟨i, x, hx, hkey, hbusy⟩ := hk
  exact ⟨i, x, hx, hkey, h i hbusy⟩

/-- A property of a task that the step of one of them does not take away. -/
theorem update_of_imp {p : Task → Bool} {tasks : ℕ → Task} {i : ℕ} {a : Task}
    (h : p (tasks i) = true → p a = true) (j : ℕ) (hj : p (tasks j) = true) :
    p (Function.update tasks i a j) = true := by
  obtain rfl | hne := eq_or_ne j i
  · rw [Function.update_self]
    exact h hj
  · rw [Function.update_of_ne hne]
    exact hj

theorem holdsLock_wake (wb : Workbook) (k : Nat) (a : Task) :
    (a.wake wb k).holdsLock = a.holdsLock := by
  cases a with
  | sleeping r =>
    rw [Task.wake]
    split <;> rfl
  | _ => rfl

theorem busy_wake (wb : Workbook) (k : Nat) (a : Task) : (a.wake wb k).busy = a.busy := by
  cases a with
  | sleeping r =>
    rw [Task.wake]
    split <;> rfl
  | _ => rfl

section SetResult

variable {i : ℕ} {x : Visit} {r : FormulaResult} {a : Task}

theorem result_setResult (k : Nat) : ((t.setResult i x r a).cxt.statuses k).result =
    if k = x.key then some r else (t.cxt.statuses k).result :=
  result_withResult t.cxt x r k

@[simp] theorem tasks_setResult_self : (t.setResult i x r a).tasks i = a :=
  Function.update_self ..

theorem tasks_setResult_of_ne {j : ℕ} (h : j ≠ i) : (t.setResult i x r a).tasks j = t.tasks j :=
  Function.update_of_ne h ..

/-- A task locks and unlocks only the status of its cell. -/
theorem locked_setResult_of_ne (hx : visits[i]? = some x) (hk : k ≠ x.key) :
    (t.setResult i x r a).locked visits k = t.locked visits k := by
  rw [Bool.eq_iff_iff, locked_iff, locked_iff]
  refine exists_congr fun j ↦ exists_congr fun y ↦ and_congr_right fun hy ↦
    and_congr_right fun hkey ↦ ?_
  rw [tasks_setResult_of_ne]
  rintro rfl
  cases hx.symm.trans hy
  exact hk hkey.symm

/-- What waits for a status goes on waiting while the task for its cell is busy. -/
theorem waits_setResult (hx : visits[i]? = some x) (ha : a.busy = true)
    (h : (t.cxt.statuses k).result = none ∨ Busy visits t k) :
    ((t.setResult i x r a).cxt.statuses k).result = none ∨
      Busy visits (t.setResult i x r a) k := by
  by_cases hk : k = x.key
  · exact .inr ⟨i, x, hx, hk.symm, by rwa [tasks_setResult_self]⟩
  · rw [result_setResult, if_neg hk]
    exact h.imp_right (Busy.mono (update_of_imp fun _ ↦ ha))

end SetResult

/-! ## What holds while the tasks run -/

/-- A computation reads what the formula of a cell refers to, and comes to the result that the
cell has in the end. -/
def ComesTo (cxt₁ : ModelContext S T) (x : Visit) (r : Reader FormulaResult) : Prop :=
  r.Reads (cxt₁.References x.cell x.pos) ∧
    ∃ v, r.run (cxt₁.answer (cxt₁.fetchResult x.key)) = .ok v ∧
      (cxt₁.statuses x.key).result = some v

/-- What is known of the task for a visited cell.  One that sleeps is to be notified. -/
def TaskInv (visits : List Visit) (cxt₁ : ModelContext S T) (t : Threads S T) (x : Visit) :
    Task → Prop
  | .pending | .launched => True
  | .evaluating r => ComesTo cxt₁ x r
  | .sleeping r => ComesTo cxt₁ x r ∧ ∃ k, awaited cxt₁.toWorkbook r = some k ∧
      ((t.cxt.statuses k).result = none ∨ Busy visits t k)
  | .notifying | .ended .returned =>
    t.locked visits x.key = false ∧ (t.cxt.statuses x.key).result.isSome = true
  | .ended .thrown => False

/-- What holds of the context and the tasks, given the context before the first task is
launched and the one that a calculation on one thread has come to. -/
structure Consistent (visits : List Visit) (cxt₀ cxt₁ : ModelContext S T) (t : Threads S T) :
    Prop where
  withoutResults : t.cxt.withoutResults = cxt₁.withoutResults
  /-- Where no task has locked a status its result is the one that it has in the end. -/
  result : ∀ k r, t.locked visits k = false → (t.cxt.statuses k).result = some r →
    (cxt₁.statuses k).result = some r
  unchanged : ∀ k, (cxt₀.statuses k).result.isSome = true ∨ (∀ y ∈ visits, y.key ≠ k) →
    t.locked visits k = false ∧ (t.cxt.statuses k).result = (cxt₀.statuses k).result
  unique : ∀ i j x y, visits[i]? = some x → visits[j]? = some y → x.key = y.key →
    (t.tasks i).holdsLock = true → (t.tasks j).holdsLock = true → i = j
  task : ∀ i x, visits[i]? = some x → TaskInv visits cxt₁ t x (t.tasks i)

variable {ev : Evaluator} {cxt₀ cxt₁ : ModelContext S T}

/-- A task that has not moved. -/
theorem TaskInv.of_frame {x : Visit} {a : Task} (h : TaskInv visits cxt₁ t x a)
    (hlocked : t.locked visits x.key = false → (t.cxt.statuses x.key).result.isSome = true →
      t'.locked visits x.key = false ∧ (t'.cxt.statuses x.key).result.isSome = true)
    (hwait : ∀ r k, a = .sleeping r → awaited cxt₁.toWorkbook r = some k →
      (t.cxt.statuses k).result = none ∨ Busy visits t k →
        (t'.cxt.statuses k).result = none ∨ Busy visits t' k) :
    TaskInv visits cxt₁ t' x a := by
  cases a with
  | pending => trivial
  | launched => trivial
  | evaluating r => exact h
  | sleeping r =>
    obtain ⟨hcomes, k, hk, hwaits⟩ := h
    exact ⟨hcomes, k, hk, hwait r k rfl hk hwaits⟩
  | notifying => exact hlocked h.1 h.2
  | ended o =>
    cases o with
    | returned => exact hlocked h.1 h.2
    | thrown => exact h

/-- One task goes on that neither locks nor unlocks its status, and keeps those that wait for
it waiting if they do. -/
theorem Consistent.set (h : Consistent visits cxt₀ cxt₁ t) {i : ℕ} {a : Task}
    (hlock : a.holdsLock = (t.tasks i).holdsLock) (hbusy : (t.tasks i).busy = true → a.busy = true)
    (ha : ∀ x, visits[i]? = some x → TaskInv visits cxt₁ t x a) :
    Consistent visits cxt₀ cxt₁ (t.set i a) := by
  have hholds : ∀ j, ((t.set i a).tasks j).holdsLock = (t.tasks j).holdsLock := by
    intro j
    show (Function.update t.tasks i a j).holdsLock = _
    obtain rfl | hne := eq_or_ne j i
    · rw [Function.update_self, hlock]
    · rw [Function.update_of_ne hne]
  have hlocked : ∀ k, t.locked visits k = false → (t.set i a).locked visits k = false :=
    fun k ↦ locked_eq_false_mono fun j hj ↦ (hholds j).symm.trans hj
  have hlocked' : ∀ k, (t.set i a).locked visits k = false → t.locked visits k = false :=
    fun k ↦ locked_eq_false_mono fun j hj ↦ (hholds j).trans hj
  refine ⟨h.withoutResults, fun k r hk ↦ h.result k r (hlocked' k hk),
    fun k hk ↦ ⟨hlocked k (h.unchanged k hk).1, (h.unchanged k hk).2⟩,
    fun j j' y y' hy hy' hkey hj hj' ↦ h.unique j j' y y' hy hy' hkey
      ((hholds j).symm.trans hj) ((hholds j').symm.trans hj'), fun j y hy ↦ ?_⟩
  have hj : TaskInv visits cxt₁ t y (Function.update t.tasks i a j) := by
    obtain rfl | hne := eq_or_ne j i
    · rw [Function.update_self]
      exact ha y hy
    · rw [Function.update_of_ne hne]
      exact h.task j y hy
  exact hj.of_frame (fun hl hs ↦ ⟨hlocked _ hl, hs⟩) fun r k _ _ hw ↦
    hw.imp_right (Busy.mono (update_of_imp hbusy))

/-- A task that interprets a cell with some status comes to its final result, so no result was
there before. -/
theorem Consistent.unmarked (h : Consistent visits cxt₀ cxt₁ t) {x : Visit} (hx : x ∈ visits)
    (hnone : (t.cxt.statuses x.key).result = none ∨ t.locked visits x.key = true) :
    ∀ k, (cxt₀.statuses k).result.isSome = true ∨ (∀ y ∈ visits, y.key ≠ k) → k ≠ x.key := by
  rintro k hk rfl
  rcases hk with hsome | hnot
  · obtain ⟨hunlocked, heq⟩ := h.unchanged x.key (.inl hsome)
    rcases hnone with hnone | hlocked
    · rw [← heq, hnone] at hsome
      exact absurd hsome nofun
    · exact absurd (hunlocked.symm.trans hlocked) nofun
  · exact hnot x hx rfl

/-- A task locks the status of its cell. -/
theorem Consistent.begins (h : Consistent visits cxt₀ cxt₁ t) {i : ℕ} {x : Visit}
    {r : Reader FormulaResult} (hx : visits[i]? = some x) (hi : t.tasks i = .launched)
    (hunlocked : t.locked visits x.key = false) (hnone : (t.cxt.statuses x.key).result = none)
    (hr : ComesTo cxt₁ x r) :
    Consistent visits cxt₀ cxt₁ (t.setResult i x .new (.evaluating r)) := by
  have hfree : ∀ j y, visits[j]? = some y → y.key = x.key → (t.tasks j).holdsLock ≠ true := by
    intro j y hy hkey hholds
    have hlocked : t.locked visits x.key = true := locked_iff.mpr ⟨j, y, hy, hkey, hholds⟩
    exact absurd (hunlocked.symm.trans hlocked) nofun
  have hlocked : (t.setResult i x .new (.evaluating r)).locked visits x.key = true :=
    locked_iff.mpr ⟨i, x, hx, rfl, by rw [tasks_setResult_self]; rfl⟩
  refine ⟨(withoutResults_withResult t.cxt x .new).trans h.withoutResults, fun k r' hk hr' ↦ ?_,
    fun k hk ↦ ?_, fun j j' y y' hy hy' hkey hj hj' ↦ ?_, fun j y hy ↦ ?_⟩
  · have hne : k ≠ x.key := by
      rintro rfl
      exact absurd (hk.symm.trans hlocked) nofun
    rw [locked_setResult_of_ne hx hne] at hk
    rw [result_setResult, if_neg hne] at hr'
    exact h.result k r' hk hr'
  · have hne := h.unmarked (List.mem_of_getElem? hx) (.inl hnone) k hk
    rw [result_setResult, if_neg hne, locked_setResult_of_ne hx hne]
    exact h.unchanged k hk
  · obtain rfl | hne := eq_or_ne j i
    · cases hx.symm.trans hy
      by_contra hne'
      rw [tasks_setResult_of_ne (Ne.symm hne')] at hj'
      exact hfree j' y' hy' hkey.symm hj'
    · rw [tasks_setResult_of_ne hne] at hj
      obtain rfl | hne' := eq_or_ne j' i
      · cases hx.symm.trans hy'
        exact absurd hj (hfree j y hy hkey)
      · rw [tasks_setResult_of_ne hne'] at hj'
        exact h.unique j j' y y' hy hy' hkey hj hj'
  · obtain rfl | hne := eq_or_ne j i
    · cases hx.symm.trans hy
      rw [tasks_setResult_self]
      exact hr
    · rw [tasks_setResult_of_ne hne]
      refine (h.task j y hy).of_frame (fun hl hs ↦ ?_) fun _ k _ _ ↦ waits_setResult hx rfl
      have hne : y.key ≠ x.key := by
        intro heq
        rw [heq, hnone] at hs
        exact absurd hs nofun
      rw [result_setResult, if_neg hne, locked_setResult_of_ne hx hne]
      exact ⟨hl, hs⟩

/-- A task sets the result and unlocks the status of its cell. -/
theorem Consistent.returns (h : Consistent visits cxt₀ cxt₁ t) {i : ℕ} {x : Visit}
    {r : FormulaResult} (hx : visits[i]? = some x) (hi : (t.tasks i).holdsLock = true)
    (hr : (cxt₁.statuses x.key).result = some r) :
    Consistent visits cxt₀ cxt₁ (t.setResult i x r .notifying) := by
  have hholds : ∀ j, ((t.setResult i x r .notifying).tasks j).holdsLock = true →
      j ≠ i ∧ (t.tasks j).holdsLock = true := by
    intro j hj
    have hne : j ≠ i := by
      rintro rfl
      rw [tasks_setResult_self] at hj
      exact absurd hj nofun
    rw [tasks_setResult_of_ne hne] at hj
    exact ⟨hne, hj⟩
  have hlocked : t.locked visits x.key = true := locked_iff.mpr ⟨i, x, hx, rfl, hi⟩
  have hunlocked : (t.setResult i x r .notifying).locked visits x.key = false := by
    rw [← Bool.not_eq_true, locked_iff]
    rintro ⟨j, y, hy, hkey, hj⟩
    obtain ⟨hne, hj⟩ := hholds j hj
    exact hne (h.unique j i y x hy hx hkey hj hi)
  refine ⟨(withoutResults_withResult t.cxt x r).trans h.withoutResults, fun k r' hk hr' ↦ ?_,
    fun k hk ↦ ?_, fun j j' y y' hy hy' hkey hj hj' ↦ h.unique j j' y y' hy hy' hkey
      (hholds j hj).2 (hholds j' hj').2, fun j y hy ↦ ?_⟩
  · rw [result_setResult] at hr'
    by_cases hkey : k = x.key
    · rw [if_pos hkey] at hr'
      cases hr'
      rw [hkey]
      exact hr
    · rw [if_neg hkey] at hr'
      rw [locked_setResult_of_ne hx hkey] at hk
      exact h.result k r' hk hr'
  · have hne := h.unmarked (List.mem_of_getElem? hx) (.inr hlocked) k hk
    rw [result_setResult, if_neg hne, locked_setResult_of_ne hx hne]
    exact h.unchanged k hk
  · obtain rfl | hne := eq_or_ne j i
    · cases hx.symm.trans hy
      rw [tasks_setResult_self]
      refine ⟨hunlocked, ?_⟩
      rw [result_setResult, if_pos rfl]
      rfl
    · rw [tasks_setResult_of_ne hne]
      refine (h.task j y hy).of_frame (fun hl hs ↦ ⟨?_, ?_⟩) fun _ k _ _ ↦ waits_setResult hx rfl
      · exact locked_eq_false_mono (fun j hj ↦ (hholds j hj).2) hl
      · rw [result_setResult]
        split
        · rfl
        · exact hs

/-- A task notifies those that wait for the status of its cell. -/
theorem Consistent.notifies (h : Consistent visits cxt₀ cxt₁ t) {i : ℕ} {x : Visit}
    (hx : visits[i]? = some x) (hi : t.tasks i = .notifying) :
    Consistent visits cxt₀ cxt₁ (t.notifyAll i x.key) := by
  have hwb : t.cxt.toWorkbook = cxt₁.toWorkbook := toWorkbook_of_withoutResults h.withoutResults
  have htasks : (t.notifyAll i x.key).tasks =
      Function.update (fun j ↦ (t.tasks j).wake t.cxt.toWorkbook x.key) i (.ended .returned) := rfl
  have htask : ∀ j, j ≠ i → (t.notifyAll i x.key).tasks j =
      (t.tasks j).wake cxt₁.toWorkbook x.key := by
    intro j hj
    rw [htasks, Function.update_of_ne hj, hwb]
  have hself : (t.notifyAll i x.key).tasks i = .ended .returned := by
    rw [htasks, Function.update_self]
  have hholds : ∀ j, ((t.notifyAll i x.key).tasks j).holdsLock = (t.tasks j).holdsLock := by
    intro j
    obtain rfl | hne := eq_or_ne j i
    · rw [hself, hi]
      rfl
    · rw [htask j hne, holdsLock_wake]
  have hlocked : ∀ k, t.locked visits k = false → (t.notifyAll i x.key).locked visits k = false :=
    fun k ↦ locked_eq_false_mono fun j hj ↦ (hholds j).symm.trans hj
  have hlocked' : ∀ k, (t.notifyAll i x.key).locked visits k = false → t.locked visits k = false :=
    fun k ↦ locked_eq_false_mono fun j hj ↦ (hholds j).trans hj
  refine ⟨h.withoutResults, fun k r hk ↦ h.result k r (hlocked' k hk),
    fun k hk ↦ ⟨hlocked k (h.unchanged k hk).1, (h.unchanged k hk).2⟩,
    fun j j' y y' hy hy' hkey hj hj' ↦ h.unique j j' y y' hy hy' hkey
      ((hholds j).symm.trans hj) ((hholds j').symm.trans hj'), fun j y hy ↦ ?_⟩
  obtain rfl | hne := eq_or_ne j i
  · have hnotifying := h.task j y hy
    rw [hi] at hnotifying
    rw [hself]
    exact ⟨hlocked _ hnotifying.1, hnotifying.2⟩
  · rw [htask j hne]
    have hj := h.task j y hy
    by_cases hwoken : ∃ r, t.tasks j = .sleeping r ∧ awaited cxt₁.toWorkbook r = some x.key
    · obtain ⟨r, hr, hk⟩ := hwoken
      rw [hr] at hj
      rw [hr, Task.wake, if_pos hk]
      exact hj.1
    · have hwake : (t.tasks j).wake cxt₁.toWorkbook x.key = t.tasks j := by
        cases hr : t.tasks j with
        | sleeping r => exact if_neg fun hk ↦ hwoken ⟨r, hr, hk⟩
        | _ => rfl
      rw [hwake]
      refine hj.of_frame (fun hl hs ↦ ⟨hlocked _ hl, hs⟩) fun r k hr hk hw ↦ hw.imp_right ?_
      -- the status that it waits for is another one
      rintro ⟨i', z, hz, rfl, hbusy⟩
      refine ⟨i', z, hz, rfl, ?_⟩
      rw [htask, busy_wake]
      · exact hbusy
      · rintro rfl
        cases hx.symm.trans hz
        exact hwoken ⟨r, hr, hk⟩

end Threads

end Ixion.FormulaCellQueue
