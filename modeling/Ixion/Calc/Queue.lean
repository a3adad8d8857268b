import Mathlib.Logic.Relation
import Mathlib.Logic.Function.Basic
import Mathlib.Data.List.Basic
import Mathlib.Data.List.Range
import Mathlib.Data.Nat.Find
import Mathlib.Data.Set.Defs

/-!
# The queue of interpretations

With threads a list of cells is interpreted by way of a queue.  One thread, the
*producer*, starts the interpretation of one cell after the other, each as a task of its
own, and puts its future in the queue; it waits while the queue is full.  The thread that
calls `run`, the *consumer*, takes one future for each cell and waits for its task to
end, and throws what the task has thrown.  Both ways it joins the producer before it
leaves.

Sections under the lock of the queue are single steps.  A thread that waits for the
condition of the queue sleeps until it is notified.  It may also wake up for no reason,
but nothing can be relied on to wake it.
-/

namespace Ixion.FormulaCellQueue

/-! ## Tasks -/

/-- How a task ended. -/
inductive Outcome where
  | returned
  | thrown
deriving DecidableEq, Repr

/-- The tasks that have been launched, each for the cell at one index, and the steps they
take on their own.  How a task has ended stays as it is. -/
structure Pool (τ : Type) where
  /-- Launch the task for a cell. -/
  launch : ℕ → τ → τ
  /-- One task takes a step. -/
  Step : τ → τ → Prop
  /-- How a task has ended, if it has. -/
  outcome : τ → ℕ → Option Outcome
  outcome_launch {i j : ℕ} {t : τ} : i ≠ j → outcome (launch i t) j = outcome t j
  outcome_step {t t' : τ} {j : ℕ} {o : Outcome} : Step t t' → outcome t j = some o →
    outcome t' j = some o

/-! ## The two threads -/

/-- What the producer does. -/
inductive Producer where
  /-- About to push the next cell, or done if there is none. -/
  | ready
  /-- Waiting for the condition of the queue. -/
  | sleeping
  /-- Has pushed a cell and is about to notify. -/
  | notifying
deriving DecidableEq, Repr

/-- What the consumer does. -/
inductive Consumer where
  /-- About to take a future, or done if it has taken one for each cell. -/
  | ready
  /-- Waiting for the condition of the queue. -/
  | sleeping
  /-- Has taken the future of a cell and waits for the task. -/
  | getting (j : ℕ)
  /-- The task returned, and the consumer is about to notify. -/
  | notifying
  /-- Joining the producer. -/
  | joining (o : Outcome)
  /-- Destroying the queue, which waits for the tasks whose futures are left in it. -/
  | draining (o : Outcome)
  /-- `run` is over. -/
  | left (o : Outcome)
deriving DecidableEq, Repr

/-- The futures that the consumer has taken and has not yet finished with. -/
def Consumer.inHand : Consumer → ℕ
  | .getting _ | .notifying | .joining .thrown | .draining .thrown | .left .thrown => 1
  | _ => 0

variable {τ : Type}

/-- A state of `run`. -/
structure State (τ : Type) where
  producer : Producer
  /-- The cells that the producer is done with. -/
  pushed : ℕ
  /-- The pending futures. -/
  futures : List ℕ
  consumer : Consumer
  /-- The cells that the consumer is done with. -/
  taken : ℕ
  tasks : τ

namespace State

/-- The state in which `run` starts. -/
def init (t : τ) : State τ := ⟨.ready, 0, [], .ready, 0, t⟩

/-- Wake the producer if it is asleep. -/
def wakeProducer (s : State τ) : State τ :=
  { s with producer := if s.producer = .sleeping then .ready else s.producer }

/-- Wake the consumer if it is asleep. -/
def wakeConsumer (s : State τ) : State τ :=
  { s with consumer := if s.consumer = .sleeping then .ready else s.consumer }

/-- How many futures have been taken out of the queue. -/
def popped (s : State τ) : ℕ := s.taken + s.consumer.inHand

/-- How many tasks have been launched. -/
def launched (s : State τ) : ℕ := s.pushed + if s.producer = .notifying then 1 else 0

/-- `run` has returned or thrown. -/
def Final (s : State τ) : Prop := ∃ o, s.consumer = .left o

end State

/-- A step of `run` for `n` cells and a queue that holds at most `maxQueue` futures. -/
inductive Step (P : Pool τ) (n maxQueue : ℕ) : State τ → State τ → Prop where
  /-- The producer finds the queue full. -/
  | pushWaits {s : State τ} : s.producer = .ready → s.pushed < n →
    maxQueue ≤ s.futures.length → Step P n maxQueue s { s with producer := .sleeping }
  /-- The producer launches the next task and puts its future in the queue. -/
  | push {s : State τ} : s.producer = .ready → s.pushed < n →
    s.futures.length < maxQueue → Step P n maxQueue s
      { s with
        producer := .notifying, futures := s.futures ++ [s.pushed],
        tasks := P.launch s.pushed s.tasks }
  /-- The producer notifies that there is a future. -/
  | pushNotifies {s : State τ} : s.producer = .notifying → Step P n maxQueue s
      { s with producer := .ready, pushed := s.pushed + 1 }.wakeConsumer
  /-- The consumer finds the queue empty. -/
  | takeWaits {s : State τ} : s.consumer = .ready → s.taken < n → s.futures = [] →
    Step P n maxQueue s { s with consumer := .sleeping }
  /-- The consumer takes the first future. -/
  | take {s : State τ} {j : ℕ} {futures : List ℕ} : s.consumer = .ready → s.taken < n →
    s.futures = j :: futures →
    Step P n maxQueue s { s with consumer := .getting j, futures }
  /-- The task has returned. -/
  | getReturns {s : State τ} {j : ℕ} : s.consumer = .getting j →
    P.outcome s.tasks j = some .returned →
    Step P n maxQueue s { s with consumer := .notifying }
  /-- The task has thrown.  The consumer throws the exception without notifying. -/
  | getThrows {s : State τ} {j : ℕ} : s.consumer = .getting j →
    P.outcome s.tasks j = some .thrown →
    Step P n maxQueue s { s with consumer := .joining .thrown }
  /-- The consumer notifies that there is room. -/
  | takeNotifies {s : State τ} : s.consumer = .notifying → Step P n maxQueue s
      { s with consumer := .ready, taken := s.taken + 1 }.wakeProducer
  /-- There was a future for each cell. -/
  | endLoop {s : State τ} : s.consumer = .ready → s.taken = n →
    Step P n maxQueue s { s with consumer := .joining .returned }
  /-- The producer is done. -/
  | join {s : State τ} {o : Outcome} : s.consumer = .joining o → s.producer = .ready →
    s.pushed = n → Step P n maxQueue s { s with consumer := .draining o }
  /-- The tasks whose futures are left have ended. -/
  | leave {s : State τ} {o : Outcome} : s.consumer = .draining o →
    (∀ j ∈ s.futures, (P.outcome s.tasks j).isSome) →
    Step P n maxQueue s { s with consumer := .left o }
  /-- A task takes a step. -/
  | task {s : State τ} {t : τ} : P.Step s.tasks t → Step P n maxQueue s { s with tasks := t }

/-- A thread wakes up for no reason. -/
inductive SpuriousWake : State τ → State τ → Prop where
  | producer {s : State τ} : SpuriousWake s s.wakeProducer
  | consumer {s : State τ} : SpuriousWake s s.wakeConsumer

/-- The states that can be reached from a state, in any order of steps. -/
def Reachable (P : Pool τ) (n maxQueue : ℕ) : State τ → State τ → Prop :=
  Relation.ReflTransGen fun s s' ↦ Step P n maxQueue s s' ∨ SpuriousWake s s'

variable {P : Pool τ} {n maxQueue : ℕ} {s s' : State τ}

/-! ## What holds in every state -/

/-- What holds in every state of `run`, whatever the tasks do. -/
structure Inv (P : Pool τ) (n maxQueue : ℕ) (s : State τ) : Prop where
  /-- The futures in the queue are those that were pushed and not yet taken. -/
  futures : s.futures = List.range' s.popped (s.launched - s.popped)
  popped_le : s.popped ≤ s.launched
  launched_le : s.launched ≤ n
  taken_le : s.taken ≤ n
  /-- The producer sleeps only while a cell is left to push, and a full queue is left for
  the consumer to take from before it notifies. -/
  producer_sleeping : s.producer = .sleeping → s.pushed < n ∧ s.taken + maxQueue ≤ s.pushed
  /-- The consumer sleeps only while there is no future, or it is about to be notified. -/
  consumer_sleeping : s.consumer = .sleeping →
    s.taken < n ∧ (s.futures = [] ∨ s.producer = .notifying)
  getting {j : ℕ} : s.consumer = .getting j → j = s.taken
  /-- The tasks whose futures the consumer is done with have returned. -/
  returned {j : ℕ} : j < s.taken → P.outcome s.tasks j = some .returned
  returned_taken : s.consumer = .notifying → P.outcome s.tasks s.taken = some .returned
  thrown_taken : s.consumer = .joining .thrown ∨ s.consumer = .draining .thrown ∨
    s.consumer = .left .thrown → P.outcome s.tasks s.taken = some .thrown
  taken_all : s.consumer = .joining .returned ∨ s.consumer = .draining .returned ∨
    s.consumer = .left .returned → s.taken = n
  joined {o : Outcome} : s.consumer = .draining o ∨ s.consumer = .left o →
    s.producer = .ready ∧ s.pushed = n
  drained {o : Outcome} : s.consumer = .left o →
    ∀ j ∈ s.futures, (P.outcome s.tasks j).isSome

namespace State

@[simp] theorem wakeProducer_producer_ne (s : State τ) : s.wakeProducer.producer ≠ .sleeping := by
  simp only [wakeProducer]
  split_ifs with h
  · exact Producer.noConfusion
  · exact h

theorem wakeProducer_eq_notifying (s : State τ) :
    s.wakeProducer.producer = .notifying ↔ s.producer = .notifying := by
  cases h : s.producer <;> simp [wakeProducer, h]

theorem wakeProducer_of_ready {s : State τ} (h : s.producer = .ready) : s.wakeProducer = s := by
  cases s
  cases h
  rfl

@[simp] theorem wakeProducer_futures (s : State τ) : s.wakeProducer.futures = s.futures := rfl

@[simp] theorem wakeProducer_popped (s : State τ) : s.wakeProducer.popped = s.popped := rfl

@[simp] theorem wakeProducer_launched (s : State τ) : s.wakeProducer.launched = s.launched := by
  simp only [launched, wakeProducer_eq_notifying]
  rfl

@[simp] theorem wakeConsumer_consumer_ne (s : State τ) : s.wakeConsumer.consumer ≠ .sleeping := by
  simp only [wakeConsumer]
  split_ifs with h
  · exact Consumer.noConfusion
  · exact h

theorem wakeConsumer_consumer_eq {s : State τ} {c : Consumer} (h : c ≠ .ready)
    (hc : s.wakeConsumer.consumer = c) : s.consumer = c := by
  simp only [wakeConsumer] at hc
  split_ifs at hc
  · exact absurd hc.symm h
  · exact hc

@[simp] theorem wakeConsumer_inHand (s : State τ) :
    s.wakeConsumer.consumer.inHand = s.consumer.inHand := by
  simp only [wakeConsumer]
  split_ifs with h
  · rw [h]
    rfl
  · rfl

@[simp] theorem wakeConsumer_futures (s : State τ) : s.wakeConsumer.futures = s.futures := rfl

@[simp] theorem wakeConsumer_popped (s : State τ) : s.wakeConsumer.popped = s.popped := by
  rw [popped, wakeConsumer_inHand]
  rfl

@[simp] theorem wakeConsumer_launched (s : State τ) : s.wakeConsumer.launched = s.launched := rfl

end State

open State

theorem Inv.init (t : τ) : Inv P n maxQueue (State.init t) where
  futures := rfl
  popped_le := le_rfl
  launched_le := Nat.zero_le n
  taken_le := Nat.zero_le n
  producer_sleeping h := Producer.noConfusion h
  consumer_sleeping h := Consumer.noConfusion h
  getting h := Consumer.noConfusion h
  returned h := absurd h (Nat.not_lt_zero _)
  returned_taken h := Consumer.noConfusion h
  thrown_taken h := by simp [State.init] at h
  taken_all h := by simp [State.init] at h
  joined h := by simp [State.init] at h
  drained h := Consumer.noConfusion h

theorem Inv.wakeProducer (h : Inv P n maxQueue s) : Inv P n maxQueue s.wakeProducer :=
  { h with
    futures := by simpa using h.futures
    popped_le := by simpa using h.popped_le
    launched_le := by simpa using h.launched_le
    producer_sleeping := fun hs ↦ absurd hs s.wakeProducer_producer_ne
    consumer_sleeping := fun hs ↦ by
      rw [wakeProducer_eq_notifying]
      exact h.consumer_sleeping hs
    joined := fun ho ↦ by
      rw [wakeProducer_of_ready (h.joined ho).1]
      exact h.joined ho }

theorem Inv.wakeConsumer (h : Inv P n maxQueue s) : Inv P n maxQueue s.wakeConsumer where
  futures := by simpa using h.futures
  popped_le := by simpa using h.popped_le
  launched_le := h.launched_le
  taken_le := h.taken_le
  producer_sleeping := h.producer_sleeping
  consumer_sleeping hs := absurd hs s.wakeConsumer_consumer_ne
  getting hs := h.getting (wakeConsumer_consumer_eq Consumer.noConfusion hs)
  returned := h.returned
  returned_taken hs := h.returned_taken (wakeConsumer_consumer_eq Consumer.noConfusion hs)
  thrown_taken hs := h.thrown_taken <| hs.imp
    (wakeConsumer_consumer_eq Consumer.noConfusion) (Or.imp
      (wakeConsumer_consumer_eq Consumer.noConfusion)
      (wakeConsumer_consumer_eq Consumer.noConfusion))
  taken_all hs := h.taken_all <| hs.imp
    (wakeConsumer_consumer_eq Consumer.noConfusion) (Or.imp
      (wakeConsumer_consumer_eq Consumer.noConfusion)
      (wakeConsumer_consumer_eq Consumer.noConfusion))
  joined hs := h.joined <| hs.imp
    (wakeConsumer_consumer_eq Consumer.noConfusion)
    (wakeConsumer_consumer_eq Consumer.noConfusion)
  drained hs := h.drained (wakeConsumer_consumer_eq Consumer.noConfusion hs)

/-- The first future in the queue is that of the next cell to take. -/
theorem Inv.futures_cons {j : ℕ} {futures : List ℕ} (h : Inv P n maxQueue s)
    (hf : s.futures = j :: futures) : j = s.popped ∧ s.popped < s.launched ∧
      futures = List.range' (s.popped + 1) (s.launched - (s.popped + 1)) := by
  have hrange := h.futures
  rw [hf] at hrange
  obtain ⟨m, hm⟩ | hm : (∃ m, s.launched - s.popped = m + 1) ∨ s.launched - s.popped = 0 := by
    cases s.launched - s.popped with
    | zero => exact .inr rfl
    | succ m => exact .inl ⟨m, rfl⟩
  · rw [hm, List.range'_succ] at hrange
    obtain ⟨rfl, rfl⟩ := List.cons.inj hrange
    exact ⟨rfl, by omega, by rw [show s.launched - (s.popped + 1) = m by omega]⟩
  · rw [hm] at hrange
    exact absurd hrange (List.cons_ne_nil _ _)

/-- Every task that was launched but the last has been pushed. -/
theorem launched_of_ne (h : s.producer ≠ .notifying) : s.launched = s.pushed := by
  rw [launched, if_neg h]
  rfl

theorem Inv.length_futures (h : Inv P n maxQueue s) :
    s.futures.length = s.launched - s.popped := by
  rw [h.futures, List.length_range']

theorem taken_le_popped (s : State τ) : s.taken ≤ s.popped := Nat.le_add_right ..

theorem popped_of_inHand_zero (h : s.consumer.inHand = 0) : s.popped = s.taken := by
  rw [popped, h]
  rfl

theorem popped_of_inHand_one (h : s.consumer.inHand = 1) : s.popped = s.taken + 1 := by
  rw [popped, h]

/-! ## What a step of the producer preserves -/

theorem Inv.pushWaits (h : Inv P n maxQueue s) (hp : s.producer = .ready) (hlt : s.pushed < n)
    (hfull : maxQueue ≤ s.futures.length) :
    Inv P n maxQueue { s with producer := .sleeping } := by
  have hlaunched : s.launched = s.pushed := launched_of_ne (by rw [hp]; exact Producer.noConfusion)
  have hroom : s.taken + maxQueue ≤ s.pushed := by
    have := h.length_futures
    have := h.popped_le
    have := taken_le_popped s
    omega
  have hpopped : s.popped ≤ s.pushed := hlaunched ▸ h.popped_le
  have hfutures : s.futures = List.range' s.popped (s.pushed - s.popped) := hlaunched ▸ h.futures
  exact { h with
    futures := hfutures
    popped_le := hpopped
    launched_le := hlt.le
    producer_sleeping := fun _ ↦ ⟨hlt, hroom⟩
    consumer_sleeping := fun hs ↦ by simpa [hp] using h.consumer_sleeping hs
    joined := fun ho ↦ absurd (h.joined ho).2 hlt.ne }

theorem Inv.push (h : Inv P n maxQueue s) (hp : s.producer = .ready) (hlt : s.pushed < n) :
    Inv P n maxQueue { s with
      producer := .notifying, futures := s.futures ++ [s.pushed],
      tasks := P.launch s.pushed s.tasks } := by
  have hlaunched : s.launched = s.pushed := launched_of_ne (by rw [hp]; exact Producer.noConfusion)
  have hpopped : s.popped ≤ s.pushed := hlaunched ▸ h.popped_le
  have hfutures : s.futures ++ [s.pushed] =
      List.range' s.popped (s.pushed + 1 - s.popped) := by
    rw [show s.pushed + 1 - s.popped = s.pushed - s.popped + 1 by omega, List.range'_1_concat,
      h.futures, hlaunched, show s.popped + (s.pushed - s.popped) = s.pushed by omega]
  -- the task that is launched is none of those that have ended
  have hold {j : ℕ} {o : Outcome} (hj : j < s.popped) (ho : P.outcome s.tasks j = some o) :
      P.outcome (P.launch s.pushed s.tasks) j = some o := by
    rw [P.outcome_launch (by omega)]
    exact ho
  have htaken := taken_le_popped s
  exact {
    futures := hfutures
    popped_le := hpopped.trans (Nat.le_succ _)
    launched_le := hlt
    taken_le := h.taken_le
    producer_sleeping := fun hs ↦ Producer.noConfusion hs
    consumer_sleeping := fun hs ↦ ⟨(h.consumer_sleeping hs).1, .inr rfl⟩
    getting := h.getting
    returned := fun {j} (hj : j < s.taken) ↦ hold (by omega) (h.returned hj)
    returned_taken := fun hc ↦ by
      have hc : s.consumer = .notifying := hc
      have hpop : s.popped = s.taken + 1 := popped_of_inHand_one (by rw [hc]; rfl)
      exact hold (hpop ▸ Nat.lt_succ_self _) (h.returned_taken hc)
    thrown_taken := fun hc ↦ by
      have hone : s.consumer.inHand = 1 := by obtain hc | hc | hc := hc <;> rw [hc] <;> rfl
      have hpop := popped_of_inHand_one hone
      exact hold (hpop ▸ Nat.lt_succ_self _) (h.thrown_taken hc)
    taken_all := h.taken_all
    joined := fun ho ↦ absurd (h.joined ho).2 hlt.ne
    drained := fun ho ↦ absurd (h.joined (.inr ho)).2 hlt.ne }

theorem Inv.pushNotifies (h : Inv P n maxQueue s) (hp : s.producer = .notifying) :
    Inv P n maxQueue { s with producer := .ready, pushed := s.pushed + 1 }.wakeConsumer := by
  have hlaunched : s.launched = s.pushed + 1 := by simp [launched, hp]
  have hpopped : s.wakeConsumer.popped ≤ s.pushed + 1 :=
    hlaunched ▸ h.wakeConsumer.popped_le
  have hfutures : s.futures = List.range' s.wakeConsumer.popped
      (s.pushed + 1 - s.wakeConsumer.popped) := hlaunched ▸ h.wakeConsumer.futures
  have hle : s.pushed + 1 ≤ n := hlaunched ▸ h.launched_le
  exact { h.wakeConsumer with
    futures := hfutures
    popped_le := hpopped
    launched_le := hle
    producer_sleeping := fun hs ↦ Producer.noConfusion hs
    consumer_sleeping := fun hs ↦ absurd hs s.wakeConsumer_consumer_ne
    joined := fun ho ↦
      absurd (hp.symm.trans (h.wakeConsumer.joined ho).1) Producer.noConfusion }

/-! ## What a step of the consumer preserves -/

theorem Inv.takeWaits (h : Inv P n maxQueue s) (hc : s.consumer = .ready) (hlt : s.taken < n)
    (hempty : s.futures = []) : Inv P n maxQueue { s with consumer := .sleeping } := by
  have hpopped : s.popped = s.taken := popped_of_inHand_zero (by rw [hc]; rfl)
  have hle : s.taken ≤ s.launched := hpopped ▸ h.popped_le
  have hfutures : s.futures = List.range' s.taken (s.launched - s.taken) := hpopped ▸ h.futures
  exact {
    futures := hfutures
    popped_le := hle
    launched_le := h.launched_le
    taken_le := h.taken_le
    producer_sleeping := h.producer_sleeping
    consumer_sleeping := fun _ ↦ ⟨hlt, .inl hempty⟩
    getting := fun hs ↦ Consumer.noConfusion hs
    returned := h.returned
    returned_taken := fun hs ↦ Consumer.noConfusion hs
    thrown_taken := fun hs ↦ by simp at hs
    taken_all := fun hs ↦ by simp at hs
    joined := fun hs ↦ by simp at hs
    drained := fun hs ↦ Consumer.noConfusion hs }

theorem Inv.take {j : ℕ} {futures : List ℕ} (h : Inv P n maxQueue s) (hc : s.consumer = .ready)
    (hf : s.futures = j :: futures) :
    Inv P n maxQueue { s with consumer := .getting j, futures } := by
  have hpopped : s.popped = s.taken := popped_of_inHand_zero (by rw [hc]; rfl)
  obtain ⟨hj, hlt, hrest⟩ := h.futures_cons hf
  rw [hpopped] at hj hlt hrest
  exact {
    futures := hrest
    popped_le := hlt
    launched_le := h.launched_le
    taken_le := h.taken_le
    producer_sleeping := h.producer_sleeping
    consumer_sleeping := fun hs ↦ Consumer.noConfusion hs
    getting := fun hs ↦ (Consumer.getting.inj hs).symm.trans hj
    returned := h.returned
    returned_taken := fun hs ↦ Consumer.noConfusion hs
    thrown_taken := fun hs ↦ by simp at hs
    taken_all := fun hs ↦ by simp at hs
    joined := fun hs ↦ by simp at hs
    drained := fun hs ↦ Consumer.noConfusion hs }

theorem Inv.getReturns {j : ℕ} (h : Inv P n maxQueue s) (hc : s.consumer = .getting j)
    (ho : P.outcome s.tasks j = some .returned) :
    Inv P n maxQueue { s with consumer := .notifying } := by
  have hpopped : s.popped = s.taken + 1 := popped_of_inHand_one (by rw [hc]; rfl)
  have hle : s.taken + 1 ≤ s.launched := hpopped ▸ h.popped_le
  have hfutures : s.futures = List.range' (s.taken + 1) (s.launched - (s.taken + 1)) :=
    hpopped ▸ h.futures
  have hj := h.getting hc
  exact {
    futures := hfutures
    popped_le := hle
    launched_le := h.launched_le
    taken_le := h.taken_le
    producer_sleeping := h.producer_sleeping
    consumer_sleeping := fun hs ↦ Consumer.noConfusion hs
    getting := fun hs ↦ Consumer.noConfusion hs
    returned := h.returned
    returned_taken := fun _ ↦ hj ▸ ho
    thrown_taken := fun hs ↦ by simp at hs
    taken_all := fun hs ↦ by simp at hs
    joined := fun hs ↦ by simp at hs
    drained := fun hs ↦ Consumer.noConfusion hs }

theorem Inv.getThrows {j : ℕ} (h : Inv P n maxQueue s) (hc : s.consumer = .getting j)
    (ho : P.outcome s.tasks j = some .thrown) :
    Inv P n maxQueue { s with consumer := .joining .thrown } := by
  have hpopped : s.popped = s.taken + 1 := popped_of_inHand_one (by rw [hc]; rfl)
  have hle : s.taken + 1 ≤ s.launched := hpopped ▸ h.popped_le
  have hfutures : s.futures = List.range' (s.taken + 1) (s.launched - (s.taken + 1)) :=
    hpopped ▸ h.futures
  have hj := h.getting hc
  exact {
    futures := hfutures
    popped_le := hle
    launched_le := h.launched_le
    taken_le := h.taken_le
    producer_sleeping := h.producer_sleeping
    consumer_sleeping := fun hs ↦ Consumer.noConfusion hs
    getting := fun hs ↦ Consumer.noConfusion hs
    returned := h.returned
    returned_taken := fun hs ↦ Consumer.noConfusion hs
    thrown_taken := fun _ ↦ hj ▸ ho
    taken_all := fun hs ↦ by simp at hs
    joined := fun hs ↦ by simp at hs
    drained := fun hs ↦ Consumer.noConfusion hs }

theorem Inv.takeNotifies (h : Inv P n maxQueue s) (hc : s.consumer = .notifying) :
    Inv P n maxQueue { s with consumer := .ready, taken := s.taken + 1 }.wakeProducer := by
  have hpopped : s.popped = s.taken + 1 := popped_of_inHand_one (by rw [hc]; rfl)
  have hle : s.taken + 1 ≤ s.wakeProducer.launched := by
    rw [wakeProducer_launched, ← hpopped]
    exact h.popped_le
  have hfutures : s.futures =
      List.range' (s.taken + 1) (s.wakeProducer.launched - (s.taken + 1)) := by
    rw [wakeProducer_launched, ← hpopped]
    exact h.futures
  have hreturned {j : ℕ} (hj : j < s.taken + 1) : P.outcome s.tasks j = some .returned := by
    obtain hj | rfl := Nat.lt_succ_iff_lt_or_eq.mp hj
    · exact h.returned hj
    · exact h.returned_taken hc
  exact {
    futures := hfutures
    popped_le := hle
    launched_le := h.wakeProducer.launched_le
    taken_le := hle.trans h.wakeProducer.launched_le
    producer_sleeping := fun hs ↦ absurd hs s.wakeProducer_producer_ne
    consumer_sleeping := fun hs ↦ Consumer.noConfusion hs
    getting := fun hs ↦ Consumer.noConfusion hs
    returned := hreturned
    returned_taken := fun hs ↦ Consumer.noConfusion hs
    thrown_taken := fun hs ↦ by simp [State.wakeProducer] at hs
    taken_all := fun hs ↦ by simp [State.wakeProducer] at hs
    joined := fun hs ↦ by simp [State.wakeProducer] at hs
    drained := fun hs ↦ Consumer.noConfusion hs }

theorem Inv.endLoop (h : Inv P n maxQueue s) (hc : s.consumer = .ready) (hn : s.taken = n) :
    Inv P n maxQueue { s with consumer := .joining .returned } := by
  have hpopped : s.popped = s.taken := popped_of_inHand_zero (by rw [hc]; rfl)
  have hle : s.taken ≤ s.launched := hpopped ▸ h.popped_le
  have hfutures : s.futures = List.range' s.taken (s.launched - s.taken) := hpopped ▸ h.futures
  exact {
    futures := hfutures
    popped_le := hle
    launched_le := h.launched_le
    taken_le := h.taken_le
    producer_sleeping := h.producer_sleeping
    consumer_sleeping := fun hs ↦ Consumer.noConfusion hs
    getting := fun hs ↦ Consumer.noConfusion hs
    returned := h.returned
    returned_taken := fun hs ↦ Consumer.noConfusion hs
    thrown_taken := fun hs ↦ by simp at hs
    taken_all := fun _ ↦ hn
    joined := fun hs ↦ by simp at hs
    drained := fun hs ↦ Consumer.noConfusion hs }

theorem Inv.join {o : Outcome} (h : Inv P n maxQueue s) (hc : s.consumer = .joining o)
    (hp : s.producer = .ready) (hn : s.pushed = n) :
    Inv P n maxQueue { s with consumer := .draining o } := by
  have hinHand : s.consumer.inHand = (Consumer.draining o).inHand := by
    rw [hc]
    cases o <;> rfl
  have hpopped : s.popped = s.taken + (Consumer.draining o).inHand := by rw [popped, hinHand]
  have hle : s.taken + (Consumer.draining o).inHand ≤ s.launched := hpopped ▸ h.popped_le
  have hfutures : s.futures = List.range' (s.taken + (Consumer.draining o).inHand)
      (s.launched - (s.taken + (Consumer.draining o).inHand)) := hpopped ▸ h.futures
  exact {
    futures := hfutures
    popped_le := hle
    launched_le := h.launched_le
    taken_le := h.taken_le
    producer_sleeping := h.producer_sleeping
    consumer_sleeping := fun hs ↦ Consumer.noConfusion hs
    getting := fun hs ↦ Consumer.noConfusion hs
    returned := h.returned
    returned_taken := fun hs ↦ Consumer.noConfusion hs
    thrown_taken := fun hs ↦ h.thrown_taken (.inl (by simpa [hc] using hs))
    taken_all := fun hs ↦ h.taken_all (.inl (by simpa [hc] using hs))
    joined := fun _ ↦ ⟨hp, hn⟩
    drained := fun hs ↦ Consumer.noConfusion hs }

theorem Inv.leave {o : Outcome} (h : Inv P n maxQueue s) (hc : s.consumer = .draining o)
    (ho : ∀ j ∈ s.futures, (P.outcome s.tasks j).isSome) :
    Inv P n maxQueue { s with consumer := .left o } := by
  have hinHand : s.consumer.inHand = (Consumer.left o).inHand := by
    rw [hc]
    cases o <;> rfl
  have hpopped : s.popped = s.taken + (Consumer.left o).inHand := by rw [popped, hinHand]
  have hle : s.taken + (Consumer.left o).inHand ≤ s.launched := hpopped ▸ h.popped_le
  have hfutures : s.futures = List.range' (s.taken + (Consumer.left o).inHand)
      (s.launched - (s.taken + (Consumer.left o).inHand)) := hpopped ▸ h.futures
  exact {
    futures := hfutures
    popped_le := hle
    launched_le := h.launched_le
    taken_le := h.taken_le
    producer_sleeping := h.producer_sleeping
    consumer_sleeping := fun hs ↦ Consumer.noConfusion hs
    getting := fun hs ↦ Consumer.noConfusion hs
    returned := h.returned
    returned_taken := fun hs ↦ Consumer.noConfusion hs
    thrown_taken := fun hs ↦ h.thrown_taken (.inr (.inl (by simpa [hc] using hs)))
    taken_all := fun hs ↦ h.taken_all (.inr (.inl (by simpa [hc] using hs)))
    joined := fun _ ↦ h.joined (.inl hc)
    drained := fun _ ↦ ho }

/-! ## What every step preserves -/

/-- Other tasks that have ended in the same way where they had ended. -/
theorem Inv.tasks {t : τ} (h : Inv P n maxQueue s)
    (ht : ∀ j o, P.outcome s.tasks j = some o → P.outcome t j = some o) :
    Inv P n maxQueue { s with tasks := t } :=
  { h with
    returned := fun hj ↦ ht _ _ (h.returned hj)
    returned_taken := fun hc ↦ ht _ _ (h.returned_taken hc)
    thrown_taken := fun hc ↦ ht _ _ (h.thrown_taken hc)
    drained := fun hc j hj ↦ by
      obtain ⟨o, ho⟩ := Option.isSome_iff_exists.mp (h.drained hc j hj)
      exact Option.isSome_iff_exists.mpr ⟨o, ht _ _ ho⟩ }

theorem Inv.step (h : Inv P n maxQueue s) (hstep : Step P n maxQueue s s') :
    Inv P n maxQueue s' := by
  cases hstep with
  | pushWaits hp hlt hfull => exact h.pushWaits hp hlt hfull
  | push hp hlt _ => exact h.push hp hlt
  | pushNotifies hp => exact h.pushNotifies hp
  | takeWaits hc hlt hempty => exact h.takeWaits hc hlt hempty
  | take hc _ hf => exact h.take hc hf
  | getReturns hc ho => exact h.getReturns hc ho
  | getThrows hc ho => exact h.getThrows hc ho
  | takeNotifies hc => exact h.takeNotifies hc
  | endLoop hc hn => exact h.endLoop hc hn
  | join hc hp hn => exact h.join hc hp hn
  | leave hc ho => exact h.leave hc ho
  | task ht => exact h.tasks fun _ _ ho ↦ P.outcome_step ht ho

theorem Inv.spuriousWake (h : Inv P n maxQueue s) (hwake : SpuriousWake s s') :
    Inv P n maxQueue s' := by
  cases hwake with
  | producer => exact h.wakeProducer
  | consumer => exact h.wakeConsumer

/-- The invariant holds in every state that can be reached. -/
theorem Reachable.inv (h : Reachable P n maxQueue s s') (hs : Inv P n maxQueue s) :
    Inv P n maxQueue s' := by
  induction h with
  | refl => exact hs
  | tail _ hstep ih =>
    obtain hstep | hwake := hstep
    · exact ih.step hstep
    · exact ih.spuriousWake hwake

/-! ## What is left to do -/

/-- A bound for the steps of the producer before it is done with the next cell. -/
def Producer.steps : Producer → ℕ
  | .ready => 1
  | .sleeping | .notifying => 0

/-- A bound for the steps of the consumer before it is done with the next cell. -/
def Consumer.steps : Consumer → ℕ
  | .ready => 6
  | .sleeping => 5
  | .getting _ => 4
  | .notifying => 3
  | .joining _ => 2
  | .draining _ => 1
  | .left _ => 0

/-- A bound for the steps that the two threads can still take.  Each cell that is pushed or
taken pays for waking the other thread. -/
def State.work (n : ℕ) (s : State τ) : ℕ :=
  3 * (n - s.pushed) + s.producer.steps + (5 * (n - s.taken) + s.consumer.steps)

theorem State.work_wakeProducer_le (n : ℕ) (s : State τ) :
    s.wakeProducer.work n ≤ s.work n + 1 := by
  cases hp : s.producer <;> simp [work, wakeProducer, hp, Producer.steps]
  omega

theorem State.work_wakeConsumer_le (n : ℕ) (s : State τ) :
    s.wakeConsumer.work n ≤ s.work n + 1 := by
  cases hc : s.consumer <;> simp [work, wakeConsumer, hc, Consumer.steps]
  omega

/-- Every step leaves less to do, if those of the tasks do. -/
theorem Inv.work_lt {μ : τ → ℕ} (h : Inv P n maxQueue s) (hstep : Step P n maxQueue s s')
    (hlaunch : s.producer = .ready → μ (P.launch s.pushed s.tasks) ≤ μ s.tasks)
    (htask : ∀ t, P.Step s.tasks t → μ t < μ s.tasks) :
    s'.work n + μ s'.tasks < s.work n + μ s.tasks := by
  have htaken := taken_le_popped s
  have hpopped := h.popped_le
  have hlaunched := h.launched_le
  cases hstep with
  | pushWaits hp hlt hfull => simp [State.work, hp, Producer.steps]
  | push hp hlt hroom =>
    have hle := hlaunch hp
    simp only [State.work, hp, Producer.steps]
    omega
  | pushNotifies hp =>
    have hwork := State.work_wakeConsumer_le n
      { s with producer := .ready, pushed := s.pushed + 1 }
    have hlt : s.pushed + 1 ≤ n := by simpa [launched, hp] using hlaunched
    simp only [State.work, hp, Producer.steps] at hwork ⊢
    exact Nat.add_lt_add_right (by omega) _
  | takeWaits hc hlt hempty => simp [State.work, hc, Consumer.steps]
  | take hc hlt hf => simp [State.work, hc, Consumer.steps]
  | getReturns hc ho => simp [State.work, hc, Consumer.steps]
  | getThrows hc ho => simp [State.work, hc, Consumer.steps]
  | takeNotifies hc =>
    have hwork := State.work_wakeProducer_le n
      { s with consumer := .ready, taken := s.taken + 1 }
    have hpop : s.popped = s.taken + 1 := popped_of_inHand_one (by rw [hc]; rfl)
    simp only [State.work, hc, Consumer.steps] at hwork ⊢
    exact Nat.add_lt_add_right (by omega) _
  | endLoop hc hn => simp [State.work, hc, Consumer.steps]
  | join hc hp hn => simp [State.work, hc, Consumer.steps]
  | leave hc ho => simp [State.work, hc, Consumer.steps]
  | task ht => exact Nat.add_lt_add_left (htask _ ht) _

end Ixion.FormulaCellQueue
