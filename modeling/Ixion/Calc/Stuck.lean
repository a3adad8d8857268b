import Ixion.Calc.Queue
import Mathlib.Tactic.Push

/-!
# A queue that gets stuck

An interpretation that throws makes the consumer leave its loop.  It then joins the
producer, and nothing takes from the queue or notifies any more.  If the producer is
asleep because the queue is full then neither of them goes on.

Here the tasks are interpretations that end on their own, some by throwing.  Every state
that can be reached is final or has a step exactly when each cell whose interpretation
throws is among the last ones, no more of them than the queue has room for
(`neverStuck_iff`).
-/

namespace Ixion.FormulaCellQueue

variable {τ : Type} {P : Pool τ} {n maxQueue : ℕ} {s s' : State τ}

/-- No thread and no task can go on. -/
def Stuck (P : Pool τ) (n maxQueue : ℕ) (s : State τ) : Prop := ∀ s', ¬ Step P n maxQueue s s'

/-- All cells have been pushed, and the consumer waits for a task that does not end. -/
theorem stuck_of_getting {j : ℕ} (hp : s.producer = .ready) (hn : n ≤ s.pushed)
    (hc : s.consumer = .getting j) (ho : P.outcome s.tasks j = none)
    (htask : ∀ t, ¬ P.Step s.tasks t) : Stuck P n maxQueue s := by
  intro s' hstep
  cases hstep with
  | pushWaits _ hlt _ => exact absurd hn (not_le.mpr hlt)
  | push _ hlt _ => exact absurd hn (not_le.mpr hlt)
  | pushNotifies hp' => exact absurd (hp.symm.trans hp') nofun
  | getReturns hc' ho' =>
    cases hc.symm.trans hc'
    exact absurd (ho.symm.trans ho') nofun
  | getThrows hc' ho' =>
    cases hc.symm.trans hc'
    exact absurd (ho.symm.trans ho') nofun
  | takeWaits hc' _ _ => exact absurd (hc.symm.trans hc') nofun
  | take hc' _ _ => exact absurd (hc.symm.trans hc') nofun
  | takeNotifies hc' => exact absurd (hc.symm.trans hc') nofun
  | endLoop hc' _ => exact absurd (hc.symm.trans hc') nofun
  | join hc' _ _ => exact absurd (hc.symm.trans hc') nofun
  | leave hc' _ => exact absurd (hc.symm.trans hc') nofun
  | task ht => exact htask _ ht

/-- The producer sleeps, and the consumer waits for it after it has thrown. -/
def Abandoned (s : State τ) : Prop :=
  s.producer = .sleeping ∧ s.consumer = .joining .thrown

/-- A task has been launched and has not ended. -/
def Unfinished (P : Pool τ) (s : State τ) : Prop :=
  ∃ j, s.taken ≤ j ∧ j < s.launched ∧ P.outcome s.tasks j = none

/-- Where nothing goes on, `run` is over, or a task has not ended, or the producer waits
for a notification that does not come. -/
theorem Inv.of_stuck (h : Inv P n maxQueue s) (hmax : 1 ≤ maxQueue)
    (hstuck : Stuck P n maxQueue s) : s.Final ∨ Unfinished P s ∨ Abandoned s := by
  have hproducer : s.producer = .ready ∧ s.pushed = n ∨ s.producer = .sleeping := by
    cases hp : s.producer with
    | ready =>
      refine .inl ⟨rfl, ?_⟩
      by_contra hn
      have hlaunched := h.launched_le
      rw [launched_of_ne (by rw [hp]; exact Producer.noConfusion)] at hlaunched
      have hlt : s.pushed < n := lt_of_le_of_ne hlaunched hn
      by_cases hfull : maxQueue ≤ s.futures.length
      · exact hstuck _ (.pushWaits hp hlt hfull)
      · exact hstuck _ (.push hp hlt (not_le.mp hfull))
    | sleeping => exact .inr rfl
    | notifying => exact absurd (.pushNotifies hp) (hstuck _)
  have hlaunched : s.launched = s.pushed := by
    refine launched_of_ne fun hp ↦ ?_
    obtain ⟨hp', -⟩ | hp' := hproducer <;> exact Producer.noConfusion (hp.symm.trans hp')
  cases hc : s.consumer with
  | ready =>
    by_cases hlt : s.taken < n
    · cases hf : s.futures with
      | nil => exact absurd (.takeWaits hc hlt hf) (hstuck _)
      | cons j futures => exact absurd (.take hc hlt hf) (hstuck _)
    · exact absurd (.endLoop hc (le_antisymm h.taken_le (not_lt.mp hlt))) (hstuck _)
  | sleeping =>
    -- the queue is empty, so nobody is left to push
    obtain ⟨hlt, hempty⟩ := h.consumer_sleeping hc
    have hnil : s.futures = [] := by
      obtain hnil | hp := hempty
      · exact hnil
      · obtain ⟨hp', -⟩ | hp' := hproducer <;> exact Producer.noConfusion (hp.symm.trans hp')
    have hlength := h.length_futures
    rw [hnil, popped_of_inHand_zero (by rw [hc]; rfl), hlaunched, List.length_nil] at hlength
    obtain ⟨-, hn⟩ | hp := hproducer
    · omega
    · have := h.producer_sleeping hp
      omega
  | getting j =>
    cases ho : P.outcome s.tasks j with
    | none =>
      have hj := h.getting hc
      have hpopped := h.popped_le
      rw [popped_of_inHand_one (by rw [hc]; rfl)] at hpopped
      exact .inr (.inl ⟨j, hj.ge, by omega, ho⟩)
    | some o =>
      cases o with
      | returned => exact absurd (.getReturns hc ho) (hstuck _)
      | thrown => exact absurd (.getThrows hc ho) (hstuck _)
  | notifying => exact absurd (.takeNotifies hc) (hstuck _)
  | joining o =>
    obtain ⟨hp, hn⟩ | hp := hproducer
    · exact absurd (.join hc hp hn) (hstuck _)
    · cases o with
      | returned =>
        have hn := h.taken_all (.inl hc)
        have := h.producer_sleeping hp
        omega
      | thrown => exact .inr (.inr ⟨hp, hc⟩)
  | draining o =>
    refine .inr (.inl ?_)
    by_contra hall
    refine hstuck _ (.leave hc fun j hj ↦ ?_)
    rw [Option.isSome_iff_ne_none]
    intro hnone
    rw [h.futures, List.mem_range'_1] at hj
    have := taken_le_popped s
    exact hall ⟨j, by omega, by omega, hnone⟩
  | left o => exact .inl ⟨o, hc⟩

/-! ## Interpretations that end on their own -/

/-- What has become of a task. -/
inductive TaskStatus where
  | absent
  | running
  | ended (o : Outcome)
deriving DecidableEq, Repr

/-- How a task has ended. -/
def TaskStatus.outcome : TaskStatus → Option Outcome
  | .absent | .running => none
  | .ended o => some o

/-- A running task ends, by throwing if it is one of those that throw. -/
inductive TaskStep (throwing : Set ℕ) : (ℕ → TaskStatus) → (ℕ → TaskStatus) → Prop where
  | returns {t : ℕ → TaskStatus} {j : ℕ} : t j = .running → j ∉ throwing →
    TaskStep throwing t (Function.update t j (.ended .returned))
  | throws {t : ℕ → TaskStatus} {j : ℕ} : t j = .running → j ∈ throwing →
    TaskStep throwing t (Function.update t j (.ended .thrown))

/-- The interpretations of cells, those of some cells throwing. -/
def interpretations (throwing : Set ℕ) : Pool (ℕ → TaskStatus) where
  launch i t := Function.update t i .running
  Step := TaskStep throwing
  outcome t j := (t j).outcome
  outcome_launch hij := by rw [Function.update_of_ne hij.symm]
  outcome_step {t t' j o} hstep ho := by
    have hne {i : ℕ} (hi : t i = .running) : j ≠ i := by
      rintro rfl
      rw [hi] at ho
      cases ho
    cases hstep with
    | returns hi _ => rw [Function.update_of_ne (hne hi), ho]
    | throws hi _ => rw [Function.update_of_ne (hne hi), ho]

/-- The state in which `run` starts. -/
def start : State (ℕ → TaskStatus) := .init fun _ ↦ .absent

/-- Every state that can be reached is final or has a step. -/
def NeverStuck (n maxQueue : ℕ) (throwing : Set ℕ) : Prop :=
  ∀ s, Reachable (interpretations throwing) n maxQueue start s →
    s.Final ∨ ∃ s', Step (interpretations throwing) n maxQueue s s'

variable {throwing : Set ℕ}

/-- What the statuses of the tasks say. -/
structure TasksInv (throwing : Set ℕ) (s : State (ℕ → TaskStatus)) : Prop where
  launched {j : ℕ} : j < s.launched → s.tasks j ≠ .absent
  ended {j : ℕ} {o : Outcome} : s.tasks j = .ended o → (o = .thrown ↔ j ∈ throwing)

theorem TasksInv.of_tasks {s s' : State (ℕ → TaskStatus)} (h : TasksInv throwing s)
    (htasks : s'.tasks = s.tasks) (hlaunched : s'.launched = s.launched) :
    TasksInv throwing s' where
  launched hj := by
    rw [htasks]
    exact h.launched (hlaunched ▸ hj)
  ended hj := h.ended (htasks ▸ hj)

theorem TasksInv.push {s : State (ℕ → TaskStatus)} (h : TasksInv throwing s)
    (hp : s.producer = .ready) : TasksInv throwing
      { s with
        producer := .notifying, futures := s.futures ++ [s.pushed],
        tasks := (interpretations throwing).launch s.pushed s.tasks } where
  launched {j} hj := by
    show Function.update s.tasks s.pushed .running j ≠ .absent
    have hlaunched : s.launched = s.pushed :=
      launched_of_ne (by rw [hp]; exact Producer.noConfusion)
    obtain hlt | rfl := Nat.lt_succ_iff_lt_or_eq.mp hj
    · rw [Function.update_of_ne hlt.ne]
      exact h.launched (hlaunched ▸ hlt)
    · rw [Function.update_self]
      exact TaskStatus.noConfusion
  ended {j o} hj := by
    change Function.update s.tasks s.pushed .running j = .ended o at hj
    obtain rfl | hne := eq_or_ne j s.pushed
    · rw [Function.update_self] at hj
      cases hj
    · rw [Function.update_of_ne hne] at hj
      exact h.ended hj

/-- A task that ends. -/
theorem TasksInv.ends {s : State (ℕ → TaskStatus)} (h : TasksInv throwing s) {i : ℕ}
    {o : Outcome} (hi : o = .thrown ↔ i ∈ throwing) :
    TasksInv throwing { s with tasks := Function.update s.tasks i (.ended o) } where
  launched {j} hj := by
    show Function.update s.tasks i (.ended o) j ≠ .absent
    obtain rfl | hne := eq_or_ne j i
    · rw [Function.update_self]
      exact TaskStatus.noConfusion
    · rw [Function.update_of_ne hne]
      exact h.launched hj
  ended {j o'} hj := by
    change Function.update s.tasks i (.ended o) j = .ended o' at hj
    obtain rfl | hne := eq_or_ne j i
    · rw [Function.update_self] at hj
      cases hj
      exact hi
    · rw [Function.update_of_ne hne] at hj
      exact h.ended hj

theorem TasksInv.step {s s' : State (ℕ → TaskStatus)} (h : TasksInv throwing s)
    (hstep : Step (interpretations throwing) n maxQueue s s') : TasksInv throwing s' := by
  cases hstep with
  | pushWaits hp hlt hfull => exact h.of_tasks rfl (by simp [State.launched, hp])
  | push hp hlt _ => exact h.push hp
  | pushNotifies hp => exact h.of_tasks rfl (by simp [State.launched, State.wakeConsumer, hp])
  | takeWaits hc hlt hempty => exact h.of_tasks rfl rfl
  | take hc _ hf => exact h.of_tasks rfl rfl
  | getReturns hc ho => exact h.of_tasks rfl rfl
  | getThrows hc ho => exact h.of_tasks rfl rfl
  | takeNotifies hc => exact h.of_tasks rfl (State.wakeProducer_launched _)
  | endLoop hc hn => exact h.of_tasks rfl rfl
  | join hc hp hn => exact h.of_tasks rfl rfl
  | leave hc ho => exact h.of_tasks rfl rfl
  | task ht =>
    cases ht with
    | returns hj hnot => exact h.ends (iff_of_false Outcome.noConfusion hnot)
    | throws hj hin => exact h.ends (iff_of_true rfl hin)

/-- The statuses are right in every state that can be reached. -/
theorem Reachable.tasksInv {s : State (ℕ → TaskStatus)}
    (h : Reachable (interpretations throwing) n maxQueue start s) : TasksInv throwing s := by
  induction h with
  | refl => exact ⟨fun hj ↦ absurd hj (Nat.not_lt_zero _), fun hj ↦ by cases hj⟩
  | tail _ hstep ih =>
    obtain hstep | hwake := hstep
    · exact ih.step hstep
    · cases hwake with
      | producer => exact ih.of_tasks rfl (State.wakeProducer_launched _)
      | consumer => exact ih.of_tasks rfl rfl

/-! ## Enough room for the cells that are left -/

/-- A task that has been launched and has not ended takes a step. -/
theorem TasksInv.exists_step {s : State (ℕ → TaskStatus)} (h : TasksInv throwing s)
    (hs : Unfinished (interpretations throwing) s) :
    ∃ s', Step (interpretations throwing) n maxQueue s s' := by
  obtain ⟨j, -, hlt, ho⟩ := hs
  have hrunning : s.tasks j = .running := by
    cases hj : s.tasks j with
    | absent => exact absurd hj (h.launched hlt)
    | running => rfl
    | ended o => simp [interpretations, hj, TaskStatus.outcome] at ho
  by_cases hin : j ∈ throwing
  · exact ⟨_, .task (.throws hrunning hin)⟩
  · exact ⟨_, .task (.returns hrunning hin)⟩

/-- Nothing gets stuck if at most as many cells as the queue can hold are left after
each one that throws. -/
theorem neverStuck_of_room (hmax : 1 ≤ maxQueue) (hroom : ∀ k ∈ throwing, n ≤ k + maxQueue) :
    NeverStuck n maxQueue throwing := by
  intro s hs
  have hinv := hs.inv (.init _)
  have htasks := hs.tasksInv
  by_contra hnot
  push Not at hnot
  obtain ⟨hfinal, hstuck⟩ := hnot
  obtain hfinal' | hunfinished | ⟨hp, hc⟩ := hinv.of_stuck hmax hstuck
  · exact hfinal hfinal'
  · obtain ⟨s', hstep⟩ := htasks.exists_step hunfinished
    exact hstuck s' hstep
  · -- the cell whose task has thrown has more cells after it than there is room for
    have hthrown : s.tasks s.taken = .ended .thrown := by
      have ho := hinv.thrown_taken (.inl hc)
      cases hj : s.tasks s.taken with
      | ended o => simpa [interpretations, hj, TaskStatus.outcome] using ho
      | _ => simp [interpretations, hj, TaskStatus.outcome] at ho
    have hk := hroom _ ((htasks.ended hthrown).mp rfl)
    have hsleep := hinv.producer_sleeping hp
    omega

/-! ## A run that gets stuck -/

/-- No task is running. -/
def Quiet (t : ℕ → TaskStatus) : Prop := ∀ j, t j ≠ .running

theorem Reachable.step {s₀ : State τ} (h : Reachable P n maxQueue s₀ s)
    (hstep : Step P n maxQueue s s') : Reachable P n maxQueue s₀ s' :=
  Relation.ReflTransGen.tail h (.inl hstep)

/-- The producer pushes a cell, and its task ends. -/
theorem Reachable.push_ends {i : ℕ} {futures : List ℕ} {c : Consumer} {j : ℕ}
    {t : ℕ → TaskStatus}
    (h : Reachable (interpretations throwing) n maxQueue start ⟨.ready, i, futures, c, j, t⟩)
    (hlt : i < n) (hroom : futures.length < maxQueue) (hc : c ≠ .sleeping) (ht : Quiet t) :
    ∃ t', Quiet t' ∧ Reachable (interpretations throwing) n maxQueue start
      ⟨.ready, i + 1, futures ++ [i], c, j, t'⟩ := by
  have hpush := h.step (.push rfl hlt hroom)
  have hends : ∃ o, TaskStep throwing (Function.update t i .running)
      (Function.update (Function.update t i .running) i (.ended o)) := by
    by_cases hin : i ∈ throwing
    · exact ⟨.thrown, .throws (Function.update_self ..) hin⟩
    · exact ⟨.returned, .returns (Function.update_self ..) hin⟩
  obtain ⟨o, ho⟩ := hends
  refine ⟨Function.update (Function.update t i .running) i (.ended o), fun j ↦ ?_, ?_⟩
  · obtain rfl | hne := eq_or_ne j i
    · rw [Function.update_self]
      exact TaskStatus.noConfusion
    · rw [Function.update_of_ne hne, Function.update_of_ne hne]
      exact ht j
  · have hnotify := (hpush.step (.task ho)).step (.pushNotifies rfl)
    simpa [State.wakeConsumer, hc] using hnotify

/-- As long as no cell throws, they may be pushed and taken one by one. -/
theorem reachable_one_by_one (hmax : 1 ≤ maxQueue) {k : ℕ} (hk : k ≤ n)
    (hreturn : ∀ j < k, j ∉ throwing) :
    ∃ t, Quiet t ∧ Reachable (interpretations throwing) n maxQueue start
      ⟨.ready, k, [], .ready, k, t⟩ := by
  induction k with
  | zero => exact ⟨_, fun _ ↦ TaskStatus.noConfusion, .refl⟩
  | succ k ih =>
    obtain ⟨t, ht, hreach⟩ := ih (by omega) fun j hj ↦ hreturn j (by omega)
    obtain ⟨t', ht', hreach'⟩ := hreach.push_ends (by omega) hmax Consumer.noConfusion ht
    have hended : t' k = .ended .returned := by
      have htasks := hreach'.tasksInv
      cases hj : t' k with
      | absent => exact absurd hj (htasks.launched (Nat.lt_succ_self k))
      | running => exact absurd hj (ht' k)
      | ended o =>
        cases o with
        | returned => rfl
        | thrown => exact absurd ((htasks.ended hj).mp rfl) (hreturn k (Nat.lt_succ_self k))
    have hget := (hreach'.step (.take rfl (show k < n by omega) rfl)).step
      (.getReturns rfl (by simp [interpretations, hended, TaskStatus.outcome]))
    exact ⟨t', ht', hget.step (.takeNotifies rfl)⟩

/-- The producer may fill the queue before anything is taken. -/
theorem reachable_full {k m : ℕ} (hm : m ≤ maxQueue) (hlt : k + m ≤ n)
    (hk : ∃ t, Quiet t ∧ Reachable (interpretations throwing) n maxQueue start
      ⟨.ready, k, [], .ready, k, t⟩) :
    ∃ t, Quiet t ∧ Reachable (interpretations throwing) n maxQueue start
      ⟨.ready, k + m, List.range' k m, .ready, k, t⟩ := by
  induction m with
  | zero => exact hk
  | succ m ih =>
    obtain ⟨t, ht, hreach⟩ := ih (by omega) (by omega)
    have hpush := hreach.push_ends (by omega) (by rw [List.length_range']; omega)
      Consumer.noConfusion ht
    rw [List.range'_1_concat]
    exact hpush

/-- With too many cells after the first one that throws, a run can get stuck. -/
theorem not_neverStuck {k : ℕ} (hmax : 1 ≤ maxQueue) (hk : k ∈ throwing)
    (hreturn : ∀ j < k, j ∉ throwing) (hlt : k + maxQueue < n) :
    ¬ NeverStuck n maxQueue throwing := by
  obtain ⟨t, ht, hreach⟩ := reachable_full (le_refl maxQueue) hlt.le
    (reachable_one_by_one (n := n) hmax (by omega) hreturn)
  have hthrown : t k = .ended .thrown := by
    have htasks := hreach.tasksInv
    cases hj : t k with
    | absent => exact absurd hj (htasks.launched (show k < k + maxQueue + 0 by omega))
    | running => exact absurd hj (ht k)
    | ended o => rw [(htasks.ended hj).mpr hk]
  obtain ⟨m, rfl⟩ : ∃ m, maxQueue = m + 1 := ⟨maxQueue - 1, by omega⟩
  rw [List.range'_succ] at hreach
  -- the producer falls asleep, and then the consumer finds that the task has thrown
  have hwait := hreach.step (.pushWaits rfl hlt (by simp))
  have htake := hwait.step (.take rfl (show k < n by omega) rfl)
  have hthrow := htake.step
    (.getThrows rfl (by simp [interpretations, hthrown, TaskStatus.outcome]))
  intro hnever
  obtain ⟨o, ho⟩ | ⟨s', hstep⟩ := hnever _ hthrow
  · exact Consumer.noConfusion ho
  · cases hstep with
    | task hstep =>
      cases hstep with
      | returns hj _ => exact ht _ hj
      | throws hj _ => exact ht _ hj
    | _ => contradiction

/-- Every state that can be reached is final or has a step exactly when every cell whose
interpretation throws is among the last cells, no more of them than the queue has room
for. -/
theorem neverStuck_iff (n maxQueue : ℕ) (throwing : Set ℕ) (hmax : 1 ≤ maxQueue) :
    NeverStuck n maxQueue throwing ↔ ∀ k ∈ throwing, n ≤ k + maxQueue := by
  refine ⟨fun hnever k hk ↦ ?_, neverStuck_of_room hmax⟩
  by_contra hlt
  classical
  have hex : ∃ k, k ∈ throwing := ⟨k, hk⟩
  have hfirst : Nat.find hex ≤ k := Nat.find_min' hex hk
  exact not_neverStuck hmax (Nat.find_spec hex) (fun j hj ↦ Nat.find_min hex hj)
    (by omega) hnever

/-- With room for one future, two cells and the first one throwing, the producer may never
wake up. -/
theorem not_neverStuck_first :
    ¬ ∀ (n maxQueue : ℕ) (throwing : Set ℕ), 1 ≤ maxQueue → NeverStuck n maxQueue throwing :=
  fun h ↦ absurd (h 2 1 {0} le_rfl) <|
    not_neverStuck (k := 0) le_rfl rfl (fun _ hj ↦ absurd hj (Nat.not_lt_zero _)) (by decide)

theorem neverStuck_iff_first : NeverStuck 2 1 {0} ↔ ∀ k ∈ ({0} : Set ℕ), 2 ≤ k + 1 :=
  neverStuck_iff 2 1 {0} le_rfl

end Ixion.FormulaCellQueue
