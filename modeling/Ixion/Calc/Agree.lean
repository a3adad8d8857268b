import Ixion.Calc.Threads
import Mathlib.Algebra.BigOperators.Group.Finset.Piecewise
import Mathlib.Algebra.Order.BigOperators.Group.Finset

/-!
# Threads agree with a calculation on one thread

Every run of the queue over a list of cells comes to an end and leaves the same results as
interpreting the cells one after the other, whatever the formulas do with what they refer to,
exactly when nothing that a formula refers to has to be waited for on one thread
(`threadsAgree_iff`).

The cells come in an order in which what a formula refers to is listed before, so that the
first task that has not ended can always go on, or the one can that has locked its status.
-/

namespace Ixion

namespace FormulaCellQueue

open Lib ModelContext Workbook

namespace Threads

variable {S T : Type} {ev : Evaluator} {visits : List Visit} {cxt₀ cxt₁ : ModelContext S T}
  {t t' : Threads S T} {x : Visit}

/-! ## What a step of a task preserves -/

theorem ComesTo.pure {r : FormulaResult} (h : ComesTo cxt₁ x (.pure r)) :
    (cxt₁.statuses x.key).result = some r := by
  obtain ⟨-, v, hv, hresult⟩ := h
  cases hv
  exact hresult

theorem ComesTo.not_throw {e : Failure} : ¬ ComesTo cxt₁ x (.throw e) :=
  fun ⟨_, _, hv, _⟩ ↦ absurd hv nofun

/-- What is asked for is there in the end. -/
theorem ComesTo.ask {q : Question} {k : q.Answer → Reader FormulaResult}
    (h : ComesTo cxt₁ x (.ask q k)) : cxt₁.References x.cell x.pos q.addr ∧
      ∃ v, cxt₁.answer (cxt₁.fetchResult x.key) q = .ok v ∧ ComesTo cxt₁ x (k v) := by
  obtain ⟨⟨href, hreads⟩, r, hr, hresult⟩ := h
  rw [Query.run_ask] at hr
  cases hans : cxt₁.answer (cxt₁.fetchResult x.key) q with
  | error e =>
    rw [hans] at hr
    exact absurd hr nofun
  | ok v =>
    rw [hans] at hr
    exact ⟨href, v, rfl, hreads v, r, hr, hresult⟩

/-- An answer that a task is given is the one that it gets in the end. -/
theorem Consistent.answer_eq (h : Consistent visits cxt₀ cxt₁ t)
    (hlocked : t.locked visits x.key = true) {q : Question} {v : q.Answer}
    (hv : t.cxt.answer (t.getRawResultCache visits) q = .ok v) :
    cxt₁.answer (cxt₁.fetchResult x.key) q = .ok v := by
  rw [← toWorkbook_of_withoutResults h.withoutResults]
  refine answer_mono (fun c r _ hc ↦ ?_) hv
  rw [getRawResultCache] at hc
  split at hc
  case isTrue => exact absurd hc (by rintro ⟨⟩)
  case isFalse hfree =>
    rw [Bool.not_eq_true] at hfree
    have hne : c.status ≠ x.key := by
      intro heq
      rw [heq, hlocked] at hfree
      exact absurd hfree (by rintro ⟨⟩)
    rw [fetchResult, if_neg hne]
    cases hs : (t.cxt.statusOf c).result with
    | none =>
      rw [hs] at hc
      exact absurd hc (by rintro ⟨⟩)
    | some r' =>
      rw [hs] at hc
      cases hc
      rw [show (cxt₁.statusOf c).result = some r from h.result c.status r hfree hs]

theorem awaited_formula {wb : Workbook} {a : AbsAddress} {c : FormulaCell}
    (hc : wb.getFormulaCell a = .ok (some c)) {α : Type}
    (k : (Question.cellValue a).Answer → Reader α) :
    awaited wb (.ask (.cellValue a) k) = some c.status := by
  obtain ⟨hin, hformula⟩ := getFormulaCell_eq_some_iff.mp hc
  rw [awaited, getCell_of_inWorkbook hin, hformula]

/-- Only the result of a formula cell is waited for. -/
theorem exists_of_awaited {wb : Workbook} {α : Type} {r : Reader α} {k : Nat}
    (h : awaited wb r = some k) : ∃ a c, ∃ f : (Question.cellValue a).Answer → Reader α,
      r = .ask (.cellValue a) f ∧ wb.getFormulaCell a = .ok (some c) ∧ c.status = k := by
  cases r with
  | ask q f =>
    cases q with
    | cellType a => exact absurd h (by rintro ⟨⟩)
    | cellValue a =>
      rw [awaited] at h
      split at h
      case h_1 c hc =>
        cases h
        refine ⟨a, c, f, rfl, ?_, rfl⟩
        rw [getFormulaCell, hc]
        rfl
      case h_2 => exact absurd h (by rintro ⟨⟩)
  | _ => exact absurd h (by rintro ⟨⟩)

/-- The task for a visited cell when it goes on. -/
theorem Consistent.task_eq (h : Consistent visits cxt₀ cxt₁ t) {i : ℕ} {a : Task}
    (hx : visits[i]? = some x) (hi : t.tasks i = a) : TaskInv visits cxt₁ t x a :=
  hi ▸ h.task i x hx

theorem Consistent.locked_of_evaluating (h : visits[i]? = some x) {r : Reader FormulaResult}
    (hi : t.tasks i = .evaluating r) : t.locked visits x.key = true :=
  locked_iff.mpr ⟨i, x, h, rfl, by rw [hi]; rfl⟩

/-- Every step of a task preserves what is known. -/
theorem Consistent.step (h : Consistent visits cxt₀ cxt₁ t)
    (hsettled : Settled ev visits cxt₀ cxt₁) (hev : ev.ReadsReferences cxt₁.toWorkbook)
    (hallowed : ∀ x ∈ visits, x.cell.calcAllowed = true) (hstep : Step ev visits t t') :
    Consistent visits cxt₀ cxt₁ t' := by
  have hwb : t.cxt.toWorkbook = cxt₁.toWorkbook := toWorkbook_of_withoutResults h.withoutResults
  cases hstep with
  | @notAllowed i x hx hi hno =>
    exact absurd ((hallowed x (List.mem_of_getElem? hx)).symm.trans hno) nofun
  | @cached i x hx hi _ hunlocked hsome =>
    refine h.set (by rw [hi]; rfl) (fun hbusy ↦ ?_) fun y hy ↦ ?_
    · rw [hi] at hbusy
      exact absurd hbusy nofun
    · cases hx.symm.trans hy
      exact ⟨hunlocked, hsome⟩
  | @begins i x hx hi _ hunlocked hnone =>
    refine h.begins hx hi hunlocked hnone ⟨?_, ?_⟩
    · rw [hwb]
      exact hev.reads x.cell x.pos
    · have hnone₀ : (cxt₀.statuses x.key).result = none := by
        rw [← Option.not_isSome_iff_eq_none]
        exact fun hsome ↦ h.unmarked (List.mem_of_getElem? hx) (.inl hnone) x.key (.inl hsome) rfl
      obtain ⟨v, hv, heval⟩ := hsettled.evaluate x (List.mem_of_getElem? hx) hnone₀
      refine ⟨v, ?_, hv⟩
      rw [hwb]
      exact heval
  | @answered i x q k v hx hi hv =>
    have hcomes : ComesTo cxt₁ x (.ask q k) := h.task_eq hx hi
    obtain ⟨-, v', hv', hcomes'⟩ := hcomes.ask
    have hlocked := locked_of_evaluating hx hi
    cases hv'.symm.trans (h.answer_eq hlocked hv)
    refine h.set (by rw [hi]; rfl) (fun _ ↦ rfl) fun y hy ↦ ?_
    cases hx.symm.trans hy
    exact hcomes'
  | @waits i x q k hx hi hwait =>
    have hcomes : ComesTo cxt₁ x (.ask q k) := h.task_eq hx hi
    obtain ⟨-, v, hv, -⟩ := hcomes.ask
    rw [hwb] at hwait
    obtain ⟨a, c, rfl, hc, hmissing⟩ := exists_of_answer_eq_error hv hwait
    refine h.set (by rw [hi]; rfl) (fun _ ↦ rfl) fun y hy ↦ ?_
    cases hx.symm.trans hy
    refine ⟨hcomes, c.status, awaited_formula hc k, .inl ?_⟩
    rw [getRawResultCache] at hmissing
    split at hmissing
    case isTrue => exact absurd hmissing nofun
    case isFalse =>
      cases hs : (t.cxt.statusOf c).result with
      | none => exact hs
      | some r =>
        rw [hs] at hmissing
        exact absurd hmissing nofun
  | @raises i x q k e hx hi he =>
    have hcomes : ComesTo cxt₁ x (.ask q k) := h.task_eq hx hi
    obtain ⟨-, v, hv, -⟩ := hcomes.ask
    rw [hwb] at he
    obtain ⟨a, c, rfl, hc, hmissing⟩ := exists_of_answer_eq_error hv he
    rw [getRawResultCache] at hmissing
    split at hmissing
    case isTrue => exact absurd hmissing nofun
    case isFalse => split at hmissing <;> exact absurd hmissing nofun
  | @throws i x e hx hi => exact absurd (h.task_eq hx hi) ComesTo.not_throw
  | @returns i x r hx hi =>
    have hcomes : ComesTo cxt₁ x (.pure r) := h.task_eq hx hi
    exact h.returns hx (by rw [hi]; rfl) hcomes.pure
  | @notifies i x hx hi => exact h.notifies hx hi

/-- A task that wakes up for no reason. -/
theorem Consistent.spuriousWake (h : Consistent visits cxt₀ cxt₁ t) (hwake : SpuriousWake t t') :
    Consistent visits cxt₀ cxt₁ t' := by
  cases hwake with
  | @wake i r hi =>
    refine h.set (by rw [hi]; rfl) (fun _ ↦ rfl) fun x hx ↦ ?_
    have hsleeps : TaskInv visits cxt₁ t x (.sleeping r) := h.task_eq hx hi
    exact hsleeps.1

/-- A task that is launched. -/
theorem Consistent.launch (h : Consistent visits cxt₀ cxt₁ t) {i : ℕ}
    (hi : t.tasks i = .pending) : Consistent visits cxt₀ cxt₁ (t.set i .launched) := by
  refine h.set (by rw [hi]; rfl) (fun hbusy ↦ ?_) fun x _ ↦ trivial
  rw [hi] at hbusy
  exact absurd hbusy nofun

/-- Before the first task is launched. -/
theorem consistent_init (hsettled : Settled ev visits cxt₀ cxt₁) :
    Consistent visits cxt₀ cxt₁ ⟨cxt₀, fun _ ↦ .pending⟩ := by
  have hfree : ∀ k, (⟨cxt₀, fun _ ↦ .pending⟩ : Threads S T).locked visits k = false := by
    intro k
    rw [← Bool.not_eq_true, locked_iff]
    rintro ⟨i, x, -, -, hholds⟩
    exact absurd hholds nofun
  refine ⟨hsettled.withoutResults, fun k r _ hr ↦ ?_, fun k _ ↦ ⟨hfree k, rfl⟩,
    fun i j x y _ _ _ hi ↦ absurd hi nofun, fun i x _ ↦ trivial⟩
  have hr : (cxt₀.statuses k).result = some r := hr
  rw [hsettled.unchanged k (.inl (by rw [hr]; rfl)), hr]

/-! ## The first task that has not ended goes on -/

/-- Formula cells that a formula refers to have results after the check, or come before the
cell at its first visit. -/
def ReferencesReady (visits : List Visit) (cxt₀ cxt₁ : ModelContext S T) : Prop :=
  ∀ l₁ x, Computed visits cxt₀ l₁ x → ∀ a c, cxt₁.References x.cell x.pos a →
    cxt₁.getFormulaCell a = .ok (some c) → Ready cxt₀ l₁ c.status

/-- Once the tasks before it have ended, what is read for a cell is there to be read. -/
theorem Consistent.ready (h : Consistent visits cxt₀ cxt₁ t)
    (hready : ReferencesReady visits cxt₀ cxt₁)
    (hapart : ∀ x ∈ visits, ∀ y ∈ visits, x.key = y.key → x = y) {j : ℕ}
    (hx : visits[j]? = some x) (hbefore : ∀ i < j, (t.tasks i).outcome.isSome = true)
    (hlocked : t.locked visits x.key = true) {a : AbsAddress} {c : FormulaCell}
    (href : cxt₁.References x.cell x.pos a) (hc : cxt₁.getFormulaCell a = .ok (some c)) :
    t.locked visits c.status = false ∧ (t.cxt.statuses c.status).result.isSome = true := by
  have hmem := List.mem_of_getElem? hx
  obtain ⟨l₁, y, hsplit, hkey, hfirst, hle⟩ := exists_splitAt_first Visit.key hx
  obtain rfl := hapart y hsplit.mem x hmem hkey
  have hnone : (cxt₀.statuses y.key).result = none := by
    rw [← Option.not_isSome_iff_eq_none]
    exact fun hsome ↦ h.unmarked hmem (.inr hlocked) y.key (.inl hsome) rfl
  rcases hready l₁ y ⟨hsplit, hnone, hfirst⟩ a c href hc with hsome | ⟨z, hz, hstatus⟩
  · obtain ⟨hunlocked, heq⟩ := h.unchanged c.status (.inl hsome)
    rw [heq]
    exact ⟨hunlocked, hsome⟩
  · -- the cell that is read comes before, so its task has ended
    obtain ⟨i, hi, hzi⟩ := hsplit.exists_getElem? hz
    obtain ⟨o, ho⟩ := Option.isSome_iff_exists.mp (hbefore i (hi.trans_le hle))
    have hended := h.task i z hzi
    cases htask : t.tasks i with
    | ended o' =>
      rw [htask] at hended
      rw [← hstatus]
      cases o' with
      | returned => exact hended
      | thrown => exact hended.elim
    | _ =>
      rw [htask] at ho
      exact absurd ho nofun

/-- A task that has locked a status goes on when what it reads is there, or somebody is about to
notify it. -/
theorem Consistent.exists_step_of_holdsLock (h : Consistent visits cxt₀ cxt₁ t) {i : ℕ}
    (hx : visits[i]? = some x) (hi : (t.tasks i).holdsLock = true)
    (hthere : ∀ a c, cxt₁.References x.cell x.pos a → cxt₁.getFormulaCell a = .ok (some c) →
      t.locked visits c.status = false ∧ (t.cxt.statuses c.status).result.isSome = true) :
    ∃ t', Step ev visits t t' := by
  have hwb : t.cxt.toWorkbook = cxt₁.toWorkbook := toWorkbook_of_withoutResults h.withoutResults
  cases htask : t.tasks i with
  | evaluating r =>
    have hcomes : ComesTo cxt₁ x r := h.task_eq hx htask
    cases r with
    | pure r => exact ⟨_, .returns hx htask⟩
    | throw e => exact absurd hcomes ComesTo.not_throw
    | ask q k =>
      obtain ⟨href, v, hv, -⟩ := hcomes.ask
      cases hans : t.cxt.answer (t.getRawResultCache visits) q with
      | ok v => exact ⟨_, .answered hx htask hans⟩
      | error e =>
        rw [hwb] at hans
        obtain ⟨a, c, rfl, hc, hmissing⟩ := exists_of_answer_eq_error hv hans
        obtain ⟨hunlocked, hsome⟩ := hthere a c href hc
        obtain ⟨r, hr⟩ := Option.isSome_iff_exists.mp hsome
        rw [getRawResultCache, hunlocked, if_neg nofun,
          show (t.cxt.statusOf c).result = some r from hr] at hmissing
        exact absurd hmissing nofun
  | sleeping r =>
    obtain ⟨hcomes, k, hk, hwaits⟩ := h.task_eq hx htask
    obtain ⟨a, c, f, rfl, hc, rfl⟩ := exists_of_awaited hk
    obtain ⟨hunlocked, hsome⟩ := hthere a c hcomes.ask.1 hc
    rcases hwaits with hnone | ⟨j, y, hy, hkey, hbusy⟩
    · rw [hnone] at hsome
      exact absurd hsome nofun
    · -- the status is not locked, so the result has been set
      have hfree : (t.tasks j).holdsLock ≠ true := by
        intro hholds
        have hlocked := locked_iff.mpr ⟨j, y, hy, hkey, hholds⟩
        exact absurd (hunlocked.symm.trans hlocked) nofun
      cases hj : t.tasks j with
      | notifying => exact ⟨_, .notifies hy hj⟩
      | evaluating r => exact absurd (by rw [hj]; rfl) hfree
      | sleeping r => exact absurd (by rw [hj]; rfl) hfree
      | _ =>
        rw [hj] at hbusy
        exact absurd hbusy nofun
  | _ =>
    rw [htask] at hi
    exact absurd hi nofun

/-- The first task that has not ended can take a step, or another one can that has locked its
status. -/
theorem Consistent.exists_step (h : Consistent visits cxt₀ cxt₁ t)
    (hready : ReferencesReady visits cxt₀ cxt₁)
    (hapart : ∀ x ∈ visits, ∀ y ∈ visits, x.key = y.key → x = y) {j : ℕ}
    (hx : visits[j]? = some x) (hbefore : ∀ i < j, (t.tasks i).outcome.isSome = true)
    (hj : (t.tasks j).outcome = none) (hpending : t.tasks j ≠ .pending) :
    ∃ t', Step ev visits t t' := by
  by_cases hlocked : t.locked visits x.key = true
  · obtain ⟨i, y, hy, hkey, hi⟩ := locked_iff.mp hlocked
    obtain rfl := hapart y (List.mem_of_getElem? hy) x (List.mem_of_getElem? hx) hkey
    exact h.exists_step_of_holdsLock hy hi fun a c href hc ↦
      h.ready hready hapart hx hbefore hlocked href hc
  · have hfree := hlocked
    rw [Bool.not_eq_true] at hlocked
    cases htask : t.tasks j with
    | pending => exact absurd htask hpending
    | launched =>
      cases hallowed : x.cell.calcAllowed with
      | false => exact ⟨_, .notAllowed hx htask hallowed⟩
      | true =>
        cases hs : (t.cxt.statuses x.key).result with
        | none => exact ⟨_, .begins hx htask hallowed hlocked hs⟩
        | some r => exact ⟨_, .cached hx htask hallowed hlocked (by rw [hs]; rfl)⟩
    | evaluating r => exact absurd (locked_of_evaluating hx htask) hfree
    | sleeping r => exact absurd (locked_iff.mpr ⟨j, x, hx, rfl, by rw [htask]; rfl⟩) hfree
    | notifying => exact ⟨_, .notifies hx htask⟩
    | ended o =>
      rw [htask] at hj
      exact absurd hj nofun

/-! ## How much is left to do -/

/-- A bound for the steps that are left to the task for a visited cell.  A task that notifies
pays for waking the others. -/
def workOf (ev : Evaluator) (visits : List Visit) (cxt₁ : ModelContext S T) (x : Visit) :
    Task → ℕ
  | .pending | .launched =>
    2 * (ev cxt₁.toWorkbook x.cell x.pos).questions (cxt₁.answer (cxt₁.fetchResult x.key)) +
      visits.length + 4
  | .evaluating r =>
    2 * r.questions (cxt₁.answer (cxt₁.fetchResult x.key)) + visits.length + 3
  | .sleeping r =>
    2 * r.questions (cxt₁.answer (cxt₁.fetchResult x.key)) + visits.length + 2
  | .notifying => visits.length + 1
  | .ended _ => 0

/-- A bound for the steps that are left to all tasks. -/
def work (ev : Evaluator) (visits : List Visit) (cxt₁ : ModelContext S T) (t : Threads S T) : ℕ :=
  ∑ i : Fin visits.length, workOf ev visits cxt₁ visits[i] (t.tasks i)

/-- One task goes on. -/
theorem work_lt_of_update {i : ℕ} {a : Task} (hx : visits[i]? = some x)
    (htasks : t'.tasks = Function.update t.tasks i a)
    (h : workOf ev visits cxt₁ x a < workOf ev visits cxt₁ x (t.tasks i)) :
    work ev visits cxt₁ t' < work ev visits cxt₁ t := by
  obtain ⟨hi, rfl⟩ := List.getElem?_eq_some_iff.mp hx
  have hself : t'.tasks i = a := by rw [htasks, Function.update_self]
  refine Finset.sum_lt_sum (fun j _ ↦ ?_) ⟨⟨i, hi⟩, Finset.mem_univ _, ?_⟩
  · obtain hij | hne := eq_or_ne (j : ℕ) i
    · obtain rfl : j = ⟨i, hi⟩ := Fin.ext hij
      show workOf ev visits cxt₁ visits[i] (t'.tasks i) ≤ workOf ev visits cxt₁ visits[i]
        (t.tasks i)
      rw [hself]
      exact h.le
    · rw [htasks, Function.update_of_ne hne]
  · show workOf ev visits cxt₁ visits[i] (t'.tasks i) < workOf ev visits cxt₁ visits[i] (t.tasks i)
    rw [hself]
    exact h

theorem workOf_wake_le (k : Nat) (a : Task) :
    workOf ev visits cxt₁ x (a.wake cxt₁.toWorkbook k) ≤ workOf ev visits cxt₁ x a + 1 := by
  cases a with
  | sleeping r =>
    rw [Task.wake]
    split
    · exact le_rfl
    · exact Nat.le_succ _
  | _ => exact Nat.le_succ _

/-- A task ends after it has notified the others. -/
theorem work_notifyAll_lt {i : ℕ} (hwb : t.cxt.toWorkbook = cxt₁.toWorkbook)
    (hx : visits[i]? = some x) (hi : t.tasks i = .notifying) :
    work ev visits cxt₁ (t.notifyAll i x.key) < work ev visits cxt₁ t := by
  obtain ⟨hlt, rfl⟩ := List.getElem?_eq_some_iff.mp hx
  have htasks : (t.notifyAll i visits[i].key).tasks = Function.update
      (fun j ↦ (t.tasks j).wake cxt₁.toWorkbook visits[i].key) i (.ended .returned) := by
    rw [← hwb]
    rfl
  have hle : ∑ j : Fin visits.length,
      (workOf ev visits cxt₁ visits[j] ((t.notifyAll i visits[i].key).tasks j) +
        if j = ⟨i, hlt⟩ then visits.length + 1 else 0) ≤
      ∑ j : Fin visits.length, (workOf ev visits cxt₁ visits[j] (t.tasks j) + 1) := by
    refine Finset.sum_le_sum fun j _ ↦ ?_
    split
    case isTrue hj =>
      subst hj
      show workOf ev visits cxt₁ visits[i] ((t.notifyAll i visits[i].key).tasks i) +
        (visits.length + 1) ≤ workOf ev visits cxt₁ visits[i] (t.tasks i) + 1
      rw [htasks, Function.update_self, hi]
      show 0 + (visits.length + 1) ≤ visits.length + 1 + 1
      omega
    case isFalse hj =>
      rw [htasks, Function.update_of_ne (fun hij ↦ hj (Fin.ext hij))]
      exact workOf_wake_le _ _
  rw [Finset.sum_add_distrib, Finset.sum_add_distrib, Finset.sum_ite_eq' Finset.univ,
    if_pos (Finset.mem_univ _), ← Finset.card_eq_sum_ones, Finset.card_univ,
    Fintype.card_fin] at hle
  change work ev visits cxt₁ _ + (visits.length + 1) ≤ work ev visits cxt₁ t + visits.length at hle
  omega

/-- Every step of a task leaves less to do. -/
theorem Consistent.work_lt (h : Consistent visits cxt₀ cxt₁ t) (hstep : Step ev visits t t') :
    work ev visits cxt₁ t' < work ev visits cxt₁ t := by
  have hwb : t.cxt.toWorkbook = cxt₁.toWorkbook := toWorkbook_of_withoutResults h.withoutResults
  cases hstep with
  | notAllowed hx hi _ =>
    refine work_lt_of_update hx rfl ?_
    rw [hi]
    exact Nat.succ_pos _
  | cached hx hi _ _ _ =>
    refine work_lt_of_update hx rfl ?_
    rw [hi]
    exact Nat.succ_pos _
  | begins hx hi _ _ _ =>
    refine work_lt_of_update hx rfl ?_
    rw [hi, hwb]
    exact Nat.lt_succ_self _
  | @answered i x q k v hx hi hv =>
    refine work_lt_of_update hx rfl ?_
    rw [hi, workOf, workOf,
      Query.questions_ask (h.answer_eq (locked_of_evaluating hx hi) hv)]
    omega
  | waits hx hi _ =>
    refine work_lt_of_update hx rfl ?_
    rw [hi]
    exact Nat.lt_succ_self _
  | raises hx hi _ =>
    refine work_lt_of_update hx rfl ?_
    rw [hi]
    exact Nat.succ_pos _
  | throws hx hi =>
    refine work_lt_of_update hx rfl ?_
    rw [hi]
    exact Nat.succ_pos _
  | returns hx hi =>
    refine work_lt_of_update hx rfl ?_
    rw [hi, workOf, workOf]
    omega
  | notifies hx hi => exact work_notifyAll_lt hwb hx hi

/-- A task that is launched has as much to do as before. -/
theorem work_launch {i : ℕ} (hi : t.tasks i = .pending) :
    work ev visits cxt₁ (t.set i .launched) = work ev visits cxt₁ t := by
  refine Finset.sum_congr rfl fun j _ ↦ ?_
  show workOf ev visits cxt₁ visits[j] (Function.update t.tasks i .launched j) = _
  obtain rfl | hne := eq_or_ne (j : ℕ) i
  · rw [Function.update_self, hi]
    rfl
  · rw [Function.update_of_ne hne]

/-! ## Runs of the queue -/

/-- The states that can be reached when threads may also wake up for no reason. -/
def Reaches (ev : Evaluator) (visits : List Visit) (threadCount : ℕ) :
    State (Threads S T) → State (Threads S T) → Prop :=
  Relation.ReflTransGen fun s s' ↦
    FormulaCellQueue.Step (interpreting ev visits) visits.length threadCount s s' ∨
      FormulaCellQueue.SpuriousWake s s' ∨
      ∃ t, SpuriousWake s.tasks t ∧ s' = { s with tasks := t }

/-- What holds in every state of a run. -/
structure RunInv (ev : Evaluator) (visits : List Visit) (threadCount : ℕ)
    (cxt₀ cxt₁ : ModelContext S T) (s : State (Threads S T)) : Prop where
  queue : Inv (interpreting ev visits) visits.length threadCount s
  tasks : Consistent visits cxt₀ cxt₁ s.tasks
  pending : ∀ j, s.tasks.tasks j = .pending ↔ s.launched ≤ j

variable {threadCount : ℕ} {s s' : State (Threads S T)}

theorem runInv_init (hsettled : Settled ev visits cxt₀ cxt₁) :
    RunInv ev visits threadCount cxt₀ cxt₁ (.init ⟨cxt₀, fun _ ↦ .pending⟩) :=
  ⟨.init _, consistent_init hsettled, fun j ↦ iff_of_true rfl (Nat.zero_le j)⟩

/-- The step of one task that has been launched. -/
theorem pending_update {f : ℕ → Task} {i j : ℕ} {a : Task} (hi : f i ≠ .pending)
    (ha : a ≠ .pending) : Function.update f i a j = .pending ↔ f j = .pending := by
  obtain rfl | hne := eq_or_ne j i
  · rw [Function.update_self]
    exact iff_of_false ha hi
  · rw [Function.update_of_ne hne]

theorem wake_eq_pending_iff {wb : Workbook} {k : Nat} {a : Task} :
    a.wake wb k = .pending ↔ a = .pending := by
  cases a with
  | sleeping r =>
    rw [Task.wake]
    split <;> exact iff_of_false (by rintro ⟨⟩) (by rintro ⟨⟩)
  | _ => exact .rfl

/-- No step of a task launches one. -/
theorem pending_step (hstep : Step ev visits t t') (j : ℕ) :
    t'.tasks j = .pending ↔ t.tasks j = .pending := by
  cases hstep with
  | notAllowed _ hi _ => exact pending_update (by rw [hi]; nofun) nofun
  | cached _ hi _ _ _ => exact pending_update (by rw [hi]; nofun) nofun
  | begins _ hi _ _ _ => exact pending_update (by rw [hi]; nofun) nofun
  | answered _ hi _ => exact pending_update (by rw [hi]; nofun) nofun
  | waits _ hi _ => exact pending_update (by rw [hi]; nofun) nofun
  | raises _ hi _ => exact pending_update (by rw [hi]; nofun) nofun
  | throws _ hi => exact pending_update (by rw [hi]; nofun) nofun
  | returns _ hi => exact pending_update (by rw [hi]; nofun) nofun
  | @notifies i x _ hi =>
    have hwake : (t.tasks i).wake t.cxt.toWorkbook x.key ≠ .pending := by
      rw [hi]
      nofun
    have hupdate := pending_update (f := fun j ↦ (t.tasks j).wake t.cxt.toWorkbook x.key)
      (j := j) (a := .ended .returned) hwake nofun
    exact hupdate.trans wake_eq_pending_iff

theorem pending_spuriousWake (hwake : SpuriousWake t t') (j : ℕ) :
    t'.tasks j = .pending ↔ t.tasks j = .pending := by
  cases hwake with
  | wake hi => exact pending_update (by rw [hi]; nofun) nofun

/-- What is known stays known while only the two threads of the queue take steps. -/
theorem RunInv.of_tasks (h : RunInv ev visits threadCount cxt₀ cxt₁ s)
    (hqueue : Inv (interpreting ev visits) visits.length threadCount s')
    (htasks : s'.tasks = s.tasks) (hlaunched : s'.launched = s.launched) :
    RunInv ev visits threadCount cxt₀ cxt₁ s' := by
  refine ⟨hqueue, htasks ▸ h.tasks, fun j ↦ ?_⟩
  rw [htasks, hlaunched]
  exact h.pending j

theorem RunInv.step (h : RunInv ev visits threadCount cxt₀ cxt₁ s)
    (hsettled : Settled ev visits cxt₀ cxt₁) (hev : ev.ReadsReferences cxt₁.toWorkbook)
    (hallowed : ∀ x ∈ visits, x.cell.calcAllowed = true)
    (hstep : FormulaCellQueue.Step (interpreting ev visits) visits.length threadCount s s') :
    RunInv ev visits threadCount cxt₀ cxt₁ s' := by
  have hqueue := h.queue.step hstep
  cases hstep with
  | pushWaits hp hlt hfull => exact h.of_tasks hqueue rfl (by simp [State.launched, hp])
  | push hp hlt hroom =>
    have hlaunched : s.launched = s.pushed := launched_of_ne (by rw [hp]; rintro ⟨⟩)
    have hpending : s.tasks.tasks s.pushed = .pending := (h.pending s.pushed).mpr hlaunched.le
    refine ⟨hqueue, h.tasks.launch hpending, fun j ↦ ?_⟩
    show Function.update s.tasks.tasks s.pushed .launched j = .pending ↔ s.pushed + 1 ≤ j
    obtain rfl | hne := eq_or_ne j s.pushed
    · rw [Function.update_self]
      exact iff_of_false (by rintro ⟨⟩) (Nat.not_succ_le_self _)
    · rw [Function.update_of_ne hne, h.pending, hlaunched]
      exact ⟨fun hle ↦ Nat.lt_of_le_of_ne hle hne.symm, Nat.le_of_succ_le⟩
  | pushNotifies hp =>
    exact h.of_tasks hqueue rfl (by simp [State.launched, State.wakeConsumer, hp])
  | takeWaits hc hlt hempty => exact h.of_tasks hqueue rfl rfl
  | take hc hlt hf => exact h.of_tasks hqueue rfl rfl
  | getReturns hc ho => exact h.of_tasks hqueue rfl rfl
  | getThrows hc ho => exact h.of_tasks hqueue rfl rfl
  | takeNotifies hc => exact h.of_tasks hqueue rfl (State.wakeProducer_launched _)
  | endLoop hc hn => exact h.of_tasks hqueue rfl rfl
  | join hc hp hn => exact h.of_tasks hqueue rfl rfl
  | leave hc ho => exact h.of_tasks hqueue rfl rfl
  | task ht =>
    exact ⟨hqueue, h.tasks.step hsettled hev hallowed ht, fun j ↦
      (pending_step ht j).trans (h.pending j)⟩

theorem Reaches.runInv (h : Reaches ev visits threadCount s s')
    (hs : RunInv ev visits threadCount cxt₀ cxt₁ s)
    (hsettled : Settled ev visits cxt₀ cxt₁) (hev : ev.ReadsReferences cxt₁.toWorkbook)
    (hallowed : ∀ x ∈ visits, x.cell.calcAllowed = true) :
    RunInv ev visits threadCount cxt₀ cxt₁ s' := by
  induction h with
  | refl => exact hs
  | tail _ hstep ih =>
    rcases hstep with hstep | hwake | ⟨t, hwake, rfl⟩
    · exact ih.step hsettled hev hallowed hstep
    · have hqueue := ih.queue.spuriousWake hwake
      cases hwake with
      | producer => exact ih.of_tasks hqueue rfl (State.wakeProducer_launched _)
      | consumer => exact ih.of_tasks hqueue rfl rfl
    · refine ⟨ih.queue.tasks fun j o ho ↦ ?_, ih.tasks.spuriousWake hwake, fun j ↦ ?_⟩
      · cases hwake with
        | wake hi => exact outcome_update _ (by rw [hi]; rfl) ho
      · exact (pending_spuriousWake hwake j).trans (ih.pending j)

/-! ## Where no step is left -/

/-- The queue has been left normally, and all cells have the results that they have in the
end. -/
def Done (cxt₁ : ModelContext S T) (s : State (Threads S T)) : Prop :=
  s.consumer = .left .returned ∧ s.tasks.cxt = cxt₁

theorem RunInv.outcome_ne_thrown (h : RunInv ev visits threadCount cxt₀ cxt₁ s) {j : ℕ}
    (hj : j < visits.length) : (s.tasks.tasks j).outcome ≠ some .thrown := by
  intro ho
  have htask := h.tasks.task j visits[j] (List.getElem?_eq_getElem hj)
  cases hs : s.tasks.tasks j with
  | ended o =>
    rw [hs] at htask ho
    cases ho
    exact htask
  | _ =>
    rw [hs] at ho
    exact absurd ho nofun

/-- When all tasks have returned the results are those of a calculation on one thread. -/
theorem Consistent.cxt_eq (h : Consistent visits cxt₀ cxt₁ t)
    (hsettled : Settled ev visits cxt₀ cxt₁)
    (hreturned : ∀ j < visits.length, (t.tasks j).outcome = some .returned) : t.cxt = cxt₁ := by
  refine eq_of_withoutResults h.withoutResults fun k ↦ ?_
  by_cases hlisted : ∃ y ∈ visits, y.key = k
  · obtain ⟨y, hy, rfl⟩ := hlisted
    obtain ⟨j, hj, rfl⟩ := List.mem_iff_getElem.mp hy
    have htask := h.task j visits[j] (List.getElem?_eq_getElem hj)
    have ho := hreturned j hj
    cases hs : t.tasks j with
    | ended o =>
      rw [hs] at htask ho
      cases ho
      obtain ⟨r, hr⟩ := Option.isSome_iff_exists.mp htask.2
      rw [hr, h.result _ r htask.1 hr]
    | _ =>
      rw [hs] at ho
      exact absurd ho nofun
  · have hnot : ∀ y ∈ visits, y.key ≠ k := fun y hy hkey ↦ hlisted ⟨y, hy, hkey⟩
    rw [(h.unchanged k (.inr hnot)).2, hsettled.unchanged k (.inr hnot)]

/-- A run gets stuck only when it is done. -/
theorem RunInv.done_of_stuck (h : RunInv ev visits threadCount cxt₀ cxt₁ s)
    (hsettled : Settled ev visits cxt₀ cxt₁) (hready : ReferencesReady visits cxt₀ cxt₁)
    (hapart : ∀ x ∈ visits, ∀ y ∈ visits, x.key = y.key → x = y) (hcount : 1 ≤ threadCount)
    (hstuck : Stuck (interpreting ev visits) visits.length threadCount s) : Done cxt₁ s := by
  have hlaunched := h.queue.launched_le
  rcases h.queue.of_stuck hcount hstuck with ⟨o, ho⟩ | ⟨j, -, hj, hnone⟩ | ⟨hp, hc⟩
  · cases o with
    | returned =>
      have hall := h.queue.taken_all (.inr (.inr ho))
      exact ⟨ho, h.tasks.cxt_eq hsettled fun j hj ↦ h.queue.returned (hall ▸ hj)⟩
    | thrown =>
      have hthrown := h.queue.thrown_taken (.inr (.inr ho))
      have hle := h.queue.popped_le
      rw [popped_of_inHand_one (by rw [ho]; rfl)] at hle
      exact absurd hthrown (h.outcome_ne_thrown (hle.trans hlaunched))
  · -- the first task that has not ended can go on
    exfalso
    classical
    have hex : ∃ j, (s.tasks.tasks j).outcome = none := ⟨j, hnone⟩
    have hfirst : Nat.find hex < s.launched := (Nat.find_min' hex hnone).trans_lt hj
    obtain ⟨t', hstep⟩ : ∃ t', Step ev visits s.tasks t' := by
      refine h.tasks.exists_step hready hapart
        (List.getElem?_eq_getElem (hfirst.trans_le hlaunched)) (fun i hi ↦ ?_)
        (Nat.find_spec hex) fun hpending ↦ ?_
      · rw [Option.isSome_iff_ne_none]
        exact Nat.find_min hex hi
      · exact absurd ((h.pending _).mp hpending) (not_le.mpr hfirst)
    exact hstuck _ (.task hstep)
  · have hthrown := h.queue.thrown_taken (.inl hc)
    have hle := h.queue.popped_le
    rw [popped_of_inHand_one (by rw [hc]; rfl)] at hle
    exact absurd hthrown (h.outcome_ne_thrown (hle.trans hlaunched))

/-- Every run comes to an end, and then it is done. -/
theorem RunInv.endsIn (h : RunInv ev visits threadCount cxt₀ cxt₁ s)
    (hsettled : Settled ev visits cxt₀ cxt₁) (hev : ev.ReadsReferences cxt₁.toWorkbook)
    (hallowed : ∀ x ∈ visits, x.cell.calcAllowed = true)
    (hready : ReferencesReady visits cxt₀ cxt₁)
    (hapart : ∀ x ∈ visits, ∀ y ∈ visits, x.key = y.key → x = y) (hcount : 1 ≤ threadCount) :
    EndsIn (FormulaCellQueue.Step (interpreting ev visits) visits.length threadCount)
      (Done cxt₁) s := by
  refine endsIn_of_measure (I := RunInv ev visits threadCount cxt₀ cxt₁)
    (fun s ↦ s.work visits.length + work ev visits cxt₁ s.tasks) (fun s s' hs hstep ↦ ?_)
    (fun s hs hstuck ↦ hs.done_of_stuck hsettled hready hapart hcount hstuck) h
  refine ⟨hs.step hsettled hev hallowed hstep, hs.queue.work_lt (μ := work ev visits cxt₁) hstep
    (fun hp ↦ (work_launch ((hs.pending _).mpr ?_)).le) fun t ht ↦ hs.tasks.work_lt ht⟩
  exact (launched_of_ne (by rw [hp]; nofun)).le

/-- Where every task asks for a result whose status is locked, none of them takes a step. -/
theorem not_step_of_blocked (h : ∀ i x, visits[i]? = some x → ∃ q k,
    t.tasks i = .evaluating (.ask q k) ∧
      t.cxt.answer (t.getRawResultCache visits) q = .error .deadlock) :
    ¬ Step ev visits t t' := by
  intro hstep
  have hblocked : ∀ {i x a}, visits[i]? = some x → t.tasks i = a → ∃ q k,
      a = .evaluating (.ask q k) ∧
        t.cxt.answer (t.getRawResultCache visits) q = .error .deadlock :=
    fun hx hi ↦ hi ▸ h _ _ hx
  cases hstep with
  | notAllowed hx hi _ =>
    obtain ⟨q, k, heq, -⟩ := hblocked hx hi
    exact absurd heq nofun
  | cached hx hi _ _ _ =>
    obtain ⟨q, k, heq, -⟩ := hblocked hx hi
    exact absurd heq nofun
  | begins hx hi _ _ _ =>
    obtain ⟨q, k, heq, -⟩ := hblocked hx hi
    exact absurd heq nofun
  | answered hx hi hv =>
    obtain ⟨q, k, heq, hans⟩ := hblocked hx hi
    cases heq
    exact absurd (hans.symm.trans hv) nofun
  | waits hx hi hv =>
    obtain ⟨q, k, heq, hans⟩ := hblocked hx hi
    cases heq
    exact absurd (hans.symm.trans hv) nofun
  | raises hx hi hv =>
    obtain ⟨q, k, heq, hans⟩ := hblocked hx hi
    cases heq
    exact absurd (hans.symm.trans hv) nofun
  | throws hx hi =>
    obtain ⟨q, k, heq, -⟩ := hblocked hx hi
    exact absurd heq nofun
  | returns hx hi =>
    obtain ⟨q, k, heq, -⟩ := hblocked hx hi
    exact absurd heq nofun
  | notifies hx hi =>
    obtain ⟨q, k, heq, -⟩ := hblocked hx hi
    exact absurd heq nofun

end Threads

end FormulaCellQueue

/-! ## When the calculations agree -/

namespace ModelContext

open Lib UnorderedSet DirtyCellTracker Workbook FormulaCellQueue

variable {S T : Type}

/-- A calculation of a list of cells returns on one thread, and every run with threads comes
to an end, returns, and leaves the same context. -/
def ThreadsAgree (ev : Evaluator) (v : List AbsRange) (threadCount : ℕ)
    (cxt : ModelContext S T) : Prop :=
  ∀ entries cxt₀, prepare v cxt = .ok entries cxt₀ →
    ∃ cxt₁, interpretEntries ev entries cxt₀ = .ok ⟨⟩ cxt₁ ∧
      ∀ s, Threads.Reaches ev (cxt.visits v) threadCount (.init ⟨cxt₀, fun _ ↦ .pending⟩) s →
        EndsIn (Step (Threads.interpreting ev (cxt.visits v)) (cxt.visits v).length threadCount)
          (Threads.Done cxt₁) s

/-- Where nothing is read too early, all runs agree. -/
theorem PrecedentsBefore.threadsAgree {v : List AbsRange} {cxt : ModelContext S T}
    (hready : ∀ entries cxt₀, prepare v cxt = .ok entries cxt₀ → PrecedentsBefore v cxt cxt₀)
    (hwf : cxt.GroupsWF) (hheads : ∀ x ∈ cxt.visits v, cxt.Head x.pos x.cell) {ev : Evaluator}
    (hev : ev.ReadsReferences cxt.toWorkbook) (hraise : RaisesNothing ev v cxt)
    {threadCount : ℕ} (hcount : 1 ≤ threadCount) : ThreadsAgree ev v threadCount cxt := by
  intro entries cxt₀ hrun
  obtain ⟨cxt₁, hok, hsettled⟩ := exists_settled (hready _ _ hrun) hwf hheads hrun hev hraise
  have hwb : cxt₁.toWorkbook = cxt.toWorkbook := by
    rw [hsettled.toWorkbook, ((wp_prepare v cxt).of_ok hrun).2.eq]
    rfl
  have hev' : ev.ReadsReferences cxt₁.toWorkbook := hwb ▸ hev
  have hallowed : ∀ x ∈ cxt.visits v, x.cell.calcAllowed = true :=
    fun x hx ↦ calcAllowed_of_head (hheads x hx)
  refine ⟨cxt₁, hok, fun s hs ↦ ?_⟩
  have hinv := hs.runInv (Threads.runInv_init hsettled) hsettled hev' hallowed
  refine hinv.endsIn hsettled hev' hallowed (fun l₁ x hx a c href hc ↦ ?_)
    (fun x hx y hy ↦ hwf.visit_eq (hheads x hx) (hheads y hy)) hcount
  rw [hwb] at href hc
  have hstatus : cxt.HasStatus a c.status := ⟨c, hc, rfl⟩
  exact hready _ _ hrun l₁ x hx a c.status
    (dependsOn_of_references (hheads x hx.split.mem) href hstatus) hstatus

/-- Reading one formula cell raises nothing. -/
theorem readingOne_raisesNothing {v : List AbsRange} {cxt : ModelContext S T} (x : Visit)
    {b : AbsAddress} {c : FormulaCell} (hc : cxt.getFormulaCell b = .ok (some c)) :
    RaisesNothing (readingOne x b) v cxt := by
  intro entries cxt₀ hrun l₁ y cxt₁ _ hl₁ _ results _
  have hwb : cxt₁.toWorkbook = cxt.toWorkbook := by
    have hinterpret := (respects_forM (R := OnlyStatuses) fun y (_ : y ∈ l₁) ↦
      respects_interpret (readingOne x b) y.cell y.pos).of_ok hl₁
    rw [hinterpret, ((wp_prepare v cxt).of_ok hrun).2.eq]
    rfl
  rw [readingOne]
  split
  case isTrue =>
    refine ⟨.new, Query.run_ask.trans ?_⟩
    rw [answer_cellValue_formula (hwb ▸ hc)]
    rfl
  case isFalse => exact ⟨.new, rfl⟩

/-- Where all runs agree, whatever the evaluation reads, nothing is read too early. -/
theorem precedentsBefore_of_threadsAgree {v : List AbsRange} {cxt cxt₀ : ModelContext S T}
    {entries : List QueueEntry} {threadCount : ℕ}
    (hheads : ∀ x ∈ cxt.visits v, cxt.Head x.pos x.cell)
    (hrun : prepare v cxt = .ok entries cxt₀)
    (h : ∀ ev : Evaluator, ev.ReadsReferences cxt.toWorkbook → RaisesNothing ev v cxt →
      ThreadsAgree ev v threadCount cxt) : PrecedentsBefore v cxt cxt₀ := by
  intro l₁ x hx b k hdep hb
  by_contra hnot
  obtain ⟨c, hc, rfl⟩ := hb
  have href := references_of_dependsOn (hheads x hx.split.mem) hdep
  obtain ⟨cxt', hfails⟩ := calculateSortedCells_readingOne hheads hrun hx hc hnot
  obtain ⟨cxt₁, hok, -⟩ := h (readingOne x b) (readingOne_readsReferences href)
    (readingOne_raisesNothing x hc) entries cxt₀ hrun
  rw [calculateSortedCells, bind_apply, hrun] at hfails
  exact absurd (hok.symm.trans hfails) (by rintro ⟨⟩)

variable [UnorderedSet S AbsRange] [RTree T S]

/-- A calculation with threads comes to an end in every run, with the same results as on one
thread, whatever the formulas do with what they refer to, exactly when everything that a
formula refers to is ready where it is first visited, or the calculation fails before any cell
is interpreted. -/
theorem threadsAgree_iff {depth : Nat} {cxt : ModelContext S T} (hwf : cxt.GroupsWF)
    (hreg : cxt.Registered depth) {M : S} {D : Option S}
    (hD : ∀ d ∈ optionalCells D, ∃ pos cell, cxt.Head pos cell ∧ d = cxt.srcRange cell pos)
    {threadCount : ℕ} (hcount : 1 ≤ threadCount) :
    (∀ ev : Evaluator, ev.ReadsReferences cxt.toWorkbook →
        RaisesNothing ev (cxt.tracker.queryAndSortDirtyCells M D).2 cxt →
        ThreadsAgree ev (cxt.tracker.queryAndSortDirtyCells M D).2 threadCount cxt) ↔
      ∀ entries cxt₀, prepare (cxt.tracker.queryAndSortDirtyCells M D).2 cxt = .ok entries cxt₀ →
        PrecedentsListed (cxt.tracker.queryAndSortDirtyCells M D).2 cxt := by
  have hheads : ∀ x ∈ cxt.visits (cxt.tracker.queryAndSortDirtyCells M D).2,
      cxt.Head x.pos x.cell := fun _ hx ↦ head_of_mem_visits hreg hD hx
  constructor
  · intro hagree entries cxt₀ hrun
    rw [← ((wp_prepare _ cxt).of_ok hrun).2.precedentsBefore_iff]
    exact precedentsBefore_of_threadsAgree hheads hrun hagree
  · intro hlisted ev hev hraise
    refine PrecedentsBefore.threadsAgree (fun entries cxt₀ hrun ↦ ?_) hwf hheads hev hraise hcount
    exact ((wp_prepare _ cxt).of_ok hrun).2.precedentsBefore_iff.mpr (hlisted entries cxt₀ hrun)

/-! ### A cycle through a name -/

theorem groupsWF_alias : aliasContext.GroupsWF where
  tokens a b ca cb ha hb hstatus := by
    rcases getFormulaCell_alias ha with ⟨rfl, rfl⟩ | ⟨rfl, rfl⟩ <;>
    rcases getFormulaCell_alias hb with ⟨rfl, rfl⟩ | ⟨rfl, rfl⟩
    · exact ⟨rfl, rfl⟩
    · exact absurd hstatus (by decide)
    · exact absurd hstatus (by decide)
    · exact ⟨rfl, rfl⟩
  head a ca ha := by
    rcases getFormulaCell_alias ha with ⟨rfl, rfl⟩ | ⟨rfl, rfl⟩
    · exact ⟨_, ⟨rfl, rfl⟩, rfl⟩
    · exact ⟨_, ⟨rfl, rfl⟩, rfl⟩

/-- The interpreter, where no function is ever called. -/
def plainInterpreter : Evaluator := formulaInterpreter .natural fun _ _ _ ↦ pure ⟨⟩

/-- The two cells in the order in which they are interpreted. -/
def aliasVisits : List Visit := [⟨aliasCell, ⟨0, 0, 0⟩⟩, ⟨backCell, ⟨0, 0, 1⟩⟩]

/-- The workbook when the calculation has been prepared. -/
def aliasPrepared : ModelContext Ranges (ListTree Ranges) :=
  finalState (prepare [⟨⟨0, 0, 0⟩, ⟨0, 0, 0⟩⟩, ⟨⟨0, 0, 1⟩, ⟨0, 0, 1⟩⟩]) aliasContext

theorem visits_alias :
    aliasContext.visits (aliasContext.tracker.queryAndSortDirtyCells empty aliasDirty).2 =
      aliasVisits := by
  rw [queryAndSort_alias]
  rfl

theorem prepare_alias :
    prepare (aliasContext.tracker.queryAndSortDirtyCells empty aliasDirty).2 aliasContext =
      .ok (aliasVisits.map Visit.toEntry) aliasPrepared := by
  rw [queryAndSort_alias]
  rfl

/-- A computation that asks for the result of a cell that is not grouped, and returns it. -/
def PassesOn (b : AbsAddress) (r : Reader FormulaResult) : Prop :=
  ∃ f g, r = .ask (.cellType b) f ∧ f CellType.formula = .ask (.cellValue b) g ∧
    ∀ res, g (CellValue.formula (-1) (-1) res) = .pure res

theorem passesOn_aliasCell :
    PassesOn ⟨0, 0, 1⟩ (plainInterpreter aliasContext.toWorkbook aliasCell ⟨0, 0, 0⟩) :=
  ⟨_, _, rfl, rfl, fun _ ↦ rfl⟩

theorem passesOn_backCell :
    PassesOn ⟨0, 0, 0⟩ (plainInterpreter aliasContext.toWorkbook backCell ⟨0, 0, 1⟩) :=
  ⟨_, _, rfl, rfl, fun _ ↦ rfl⟩

/-- The interpretation of `A1` comes to a result, whatever that of `B1` is, and `B1` is not
reached. -/
theorem raisesNothing_alias : RaisesNothing plainInterpreter
    (aliasContext.tracker.queryAndSortDirtyCells empty aliasDirty).2 aliasContext := by
  intro entries cxt₀ hrun l₁ x cxt₁ hsplit hl₁ _
  rw [visits_alias] at hsplit
  cases prepare_alias.symm.trans hrun
  rcases splitAt_cons.mp hsplit with ⟨rfl, rfl⟩ | ⟨l₁', rfl, hsplit'⟩
  · cases hl₁
    intro results _
    obtain ⟨f, g, hf, hg, hpure⟩ := passesOn_aliasCell
    refine ⟨results backCell, ?_⟩
    show (plainInterpreter aliasContext.toWorkbook aliasCell ⟨0, 0, 0⟩).run _ = _
    rw [hf, Query.run_ask]
    show (f CellType.formula).run _ = _
    rw [hg, Query.run_ask]
    show (g (CellValue.formula (-1) (-1) (results backCell))).run _ = _
    rw [hpure]
    rfl
  · -- the interpretation of `A1` waits
    have hwaits : ∃ cxt', (((⟨aliasCell, ⟨0, 0, 0⟩⟩ : Visit) :: l₁').forM fun y ↦
        interpret plainInterpreter y.cell y.pos) aliasPrepared = .error .wait cxt' := ⟨_, rfl⟩
    obtain ⟨cxt', hwaits⟩ := hwaits
    exact absurd (hl₁.symm.trans hwaits) nofun

/-- The interpretations of the two cells may wait for each other for ever. -/
theorem exists_stuck_alias : ∃ s, Threads.Reaches plainInterpreter aliasVisits 2
    (.init ⟨aliasPrepared, fun _ ↦ .pending⟩) s ∧
      Stuck (Threads.interpreting plainInterpreter aliasVisits) 2 2 s ∧ ¬ s.Final := by
  obtain ⟨f, g, hf, hg, -⟩ := passesOn_aliasCell
  obtain ⟨f', g', hf', hg', -⟩ := passesOn_backCell
  have hstart : Reachable (Threads.interpreting plainInterpreter aliasVisits) 2 2
      (.init ⟨aliasPrepared, fun _ ↦ .pending⟩) (.init ⟨aliasPrepared, fun _ ↦ .pending⟩) := .refl
  -- the first task locks the status of `A1`
  have hpush := hstart.step (.push rfl Nat.zero_lt_two Nat.zero_lt_two)
  have hbegins := hpush.step (.task (.begins (i := 0) rfl rfl rfl rfl rfl))
  have hasks := hbegins.step (.task (.answered (i := 0) rfl (congrArg Task.evaluating hf) rfl))
  have hnotifies := hasks.step (.pushNotifies rfl)
  -- the second one locks the status of `B1`
  have hpush' := hnotifies.step (.push rfl Nat.one_lt_two Nat.one_lt_two)
  have hbegins' := hpush'.step (.task (.begins (i := 1) rfl rfl rfl rfl rfl))
  have hasks' := hbegins'.step
    (.task (.answered (i := 1) rfl (congrArg Task.evaluating hf') rfl))
  have hnotifies' := hasks'.step (.pushNotifies rfl)
  have htake := hnotifies'.step (.take rfl Nat.zero_lt_two rfl)
  refine ⟨_, Relation.ReflTransGen.mono (fun _ _ h ↦ h.imp_right .inl) _ _ htake, ?_, ?_⟩
  · refine stuck_of_getting rfl (le_refl 2) rfl rfl fun t ↦ ?_
    refine Threads.not_step_of_blocked fun i x hx ↦ ?_
    match i with
    | 0 => exact ⟨.cellValue ⟨0, 0, 1⟩, g, congrArg Task.evaluating hg, rfl⟩
    | 1 => exact ⟨.cellValue ⟨0, 0, 0⟩, g', congrArg Task.evaluating hg', rfl⟩
    | i + 2 => exact absurd hx nofun
  · rintro ⟨o, ho⟩
    exact Consumer.noConfusion ho

/-- References to cells and to ranges with their corners in order. -/
def PlainToken (pos : AbsAddress) : FormulaToken → Prop
  | .rangeRef r => (r.toAbs pos).Ordered
  | .tableRef _ => False
  | _ => True

/-- The only name stands for a cell. -/
theorem plainToken_named_alias {name : String} {expr : NamedExpression}
    (h : aliasContext.getNamedExpression 0 name = some expr) (pos : AbsAddress) :
    ∀ t ∈ expr.tokens, PlainToken pos t := by
  have hlookup : List.lookup name aliasContext.namedExpressions = some expr := h
  obtain ⟨l₁, l₂, hl, -⟩ := List.lookup_eq_some_iff.mp hlookup
  have hmem : (name, expr) ∈ aliasContext.namedExpressions := by
    rw [hl]
    exact List.mem_append_right l₁ List.mem_cons_self
  cases List.mem_singleton.mp hmem
  intro t ht
  cases List.mem_singleton.mp ht
  trivial

theorem plainToken_alias {pos : AbsAddress} {cell : FormulaCell}
    (hhead : aliasContext.Head pos cell) {t : FormulaToken}
    (ht : Occurs aliasContext.toWorkbook pos.sheet cell.tokens t) : PlainToken pos t := by
  have hsheet : pos.sheet = 0 := by
    rcases getFormulaCell_alias hhead.formula with ⟨rfl, -⟩ | ⟨rfl, -⟩ <;> rfl
  have htokens : ∀ u ∈ cell.tokens, PlainToken pos u := by
    intro u hu
    rcases getFormulaCell_alias hhead.formula with ⟨-, rfl⟩ | ⟨-, rfl⟩ <;>
    cases List.mem_singleton.mp hu <;>
    trivial
  rw [hsheet] at ht
  generalize cell.tokens = tokens at ht htokens
  induction ht with
  | here hmem => exact htokens _ hmem
  | there _ hname _ ih => exact ih (plainToken_named_alias hname pos)

/-- With threads a calculation may wait for ever, as on one thread: the check does not look into
names, and so does not find that the two cells refer to each other. -/
theorem not_threadsAgree_alias :
    ¬ ∀ (depth : Nat) (cxt : ModelContext Ranges (ListTree Ranges)) (M : Ranges)
      (D : Option Ranges) (lib : NumberLib)
      (call : Workbook → AbsAddress → FormulaFunction → StackM Unit) (threadCount : ℕ),
      cxt.GroupsWF → cxt.Registered depth →
      (∀ pos cell, cxt.Head pos cell → ∀ t, Occurs cxt.toWorkbook pos.sheet cell.tokens t →
        PlainToken pos t) →
      (∀ d ∈ optionalCells D, ∃ pos cell, cxt.Head pos cell ∧ d = cxt.srcRange cell pos) →
      (∀ b k, cxt.HasStatus b k →
        (∀ y ∈ cxt.visits (cxt.tracker.queryAndSortDirtyCells M D).2, y.key ≠ k) →
          (cxt.statuses k).result.isSome = true) →
      RaisesNothing (formulaInterpreter lib call) (cxt.tracker.queryAndSortDirtyCells M D).2 cxt →
      1 ≤ threadCount →
      ThreadsAgree (formulaInterpreter lib call) (cxt.tracker.queryAndSortDirtyCells M D).2
        threadCount cxt := by
  intro h
  have hagree := h 1 aliasContext empty aliasDirty .natural (fun _ _ _ ↦ pure ⟨⟩) 2
    groupsWF_alias registered_alias (fun _ _ hhead _ ht ↦ plainToken_alias hhead ht) dirty_alias
    unlisted_alias raisesNothing_alias one_le_two
  obtain ⟨cxt₁, -, hends⟩ := hagree _ _ prepare_alias
  rw [visits_alias] at hends
  obtain ⟨s, hs, hstuck, hnot⟩ := exists_stuck_alias
  exact hnot ⟨_, ((hends s hs).of_reachable .refl hstuck).1⟩

theorem threadsAgree_iff_alias :
    (∀ ev : Evaluator, ev.ReadsReferences aliasContext.toWorkbook →
        RaisesNothing ev (aliasContext.tracker.queryAndSortDirtyCells empty aliasDirty).2
          aliasContext →
        ThreadsAgree ev (aliasContext.tracker.queryAndSortDirtyCells empty aliasDirty).2 2
          aliasContext) ↔
      ∀ entries cxt₀, prepare (aliasContext.tracker.queryAndSortDirtyCells empty aliasDirty).2
          aliasContext = .ok entries cxt₀ →
        PrecedentsListed (aliasContext.tracker.queryAndSortDirtyCells empty aliasDirty).2
          aliasContext :=
  threadsAgree_iff groupsWF_alias registered_alias dirty_alias one_le_two

end ModelContext

end Ixion
