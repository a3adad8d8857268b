import Mathlib.Data.List.Sort
import Mathlib.Tactic.Basic

/-!
# Loops with a decreasing measure

A `while` loop whose body makes a natural number smaller is a total function.
`loopUntil` is that function: the measure and the proof that the body decreases
it are arguments, so a loop that is written down with it terminates by
construction.  Everything else about the loop follows from the two unfolding
equations and from the invariant rule `loopUntil_induct`.

A counting loop is a loop over the list `countUp first last` of the values its
counter takes.
-/

namespace Ixion.Lib

universe u

variable {σ : Type u} {done : σ → Bool} {body : σ → σ} {μ : σ → Nat}

/-- Run `body` until `done` holds.  The measure `μ` is only there to justify the
recursion; it does not influence the result. -/
def loopUntil (done : σ → Bool) (body : σ → σ) (μ : σ → Nat)
    (h : ∀ s, done s = false → μ (body s) < μ s) (s : σ) : σ :=
  if done s = true then s else loopUntil done body μ h (body s)
termination_by μ s
decreasing_by exact h s (by simpa using ‹¬ done s = true›)

/-- A loop whose exit condition already holds does nothing. -/
theorem loopUntil_of_done (h : ∀ s, done s = false → μ (body s) < μ s) {s : σ}
    (hs : done s = true) : loopUntil done body μ h s = s := by
  rw [loopUntil, if_pos hs]

/-- A loop whose exit condition does not hold runs its body once and goes on. -/
theorem loopUntil_of_not_done (h : ∀ s, done s = false → μ (body s) < μ s) {s : σ}
    (hs : done s = false) :
    loopUntil done body μ h s = loopUntil done body μ h (body s) := by
  rw [loopUntil, if_neg (by simp [hs])]

/-- The invariant rule: what holds initially and is preserved by the body of an
unfinished loop holds at the exit, together with the exit condition. -/
theorem loopUntil_induct (h : ∀ s, done s = false → μ (body s) < μ s) {I : σ → Prop}
    (hstep : ∀ s, I s → done s = false → I (body s)) {s : σ} (hs : I s) :
    I (loopUntil done body μ h s) ∧ done (loopUntil done body μ h s) = true := by
  induction hn : μ s using Nat.strongRecOn generalizing s with
  | ind n ih =>
    cases hd : done s with
    | true => rw [loopUntil_of_done h hd]; exact ⟨hs, hd⟩
    | false =>
      rw [loopUntil_of_not_done h hd]
      exact ih _ (hn ▸ h s hd) (hstep s hs hd) rfl

/-! ## Counting loops -/

/-- The values of a counter that runs from `first` up to and including `last`. -/
def countUp (first last : Int) : List Int :=
  (List.range (last + 1 - first).toNat).map fun k : Nat ↦ first + k

@[simp] theorem mem_countUp {first last i : Int} :
    i ∈ countUp first last ↔ first ≤ i ∧ i ≤ last := by
  rw [countUp, List.mem_map]
  constructor
  · rintro ⟨k, hk, rfl⟩
    rw [List.mem_range] at hk
    omega
  · rintro ⟨h₁, h₂⟩
    refine ⟨(i - first).toNat, List.mem_range.mpr (by omega), ?_⟩
    omega

/-- A counter takes no value twice. -/
theorem nodup_countUp (first last : Int) : (countUp first last).Nodup :=
  List.Pairwise.map _ (fun _ _ hne h ↦ hne (Int.ofNat.inj (Int.add_left_cancel h)))
    List.nodup_range

@[simp] theorem length_countUp (first last : Int) :
    (countUp first last).length = (last + 1 - first).toNat := by
  rw [countUp, List.length_map, List.length_range]

theorem countUp_eq_nil {first last : Int} (h : last < first) : countUp first last = [] := by
  rw [countUp, Int.toNat_of_nonpos (by omega), List.range_zero, List.map_nil]

/-- A counter can be stopped and go on. -/
theorem countUp_append {first mid last : Int} (h : first ≤ mid + 1) (h' : mid ≤ last) :
    countUp first last = countUp first mid ++ countUp (mid + 1) last := by
  have hn : (last + 1 - first).toNat = (mid + 1 - first).toNat + (last + 1 - (mid + 1)).toNat := by
    omega
  rw [countUp, countUp, countUp, hn, List.range_add, List.map_append, List.map_map]
  congr 1
  apply List.map_congr_left
  intro k _
  show first + ((mid + 1 - first).toNat + k : Nat) = mid + 1 + k
  omega

theorem countUp_cons {first last : Int} (h : first ≤ last) :
    countUp first last = first :: countUp (first + 1) last := by
  have hone : (first + 1 - first).toNat = 1 := by omega
  have happend : countUp first last = countUp first first ++ countUp (first + 1) last :=
    countUp_append (by omega) h
  rw [happend, countUp, hone, List.range_one, List.map_singleton]
  exact congrArg (· :: _) (Int.add_zero first)

/-- The first value of a counter, if it takes any. -/
theorem exists_mem_head_countUp {first last : Int} {p : Int → Prop} :
    (∃ i ∈ (countUp first last).head?, p i) ↔ first ≤ last ∧ p first := by
  by_cases h : first ≤ last
  · rw [countUp_cons h, and_iff_right h]
    exact ⟨fun ⟨i, hi, hp⟩ ↦ Option.some.inj hi ▸ hp, fun hp ↦ ⟨first, rfl, hp⟩⟩
  · rw [countUp_eq_nil (Int.not_le.mp h)]
    exact ⟨fun ⟨_, hi, _⟩ ↦ (nomatch hi), fun hp ↦ absurd hp.1 h⟩

/-- A counter takes its values in their order. -/
theorem pairwise_countUp (first last : Int) : (countUp first last).Pairwise (· < ·) :=
  List.Pairwise.map _ (fun _ _ hlt ↦ Int.add_lt_add_left (Int.ofNat_lt.mpr hlt) first)
    List.pairwise_lt_range

/-- The values of a counter that are between two bounds. -/
theorem filter_countUp {first last first' last' : Int} {p : Int → Bool} (hfirst : first ≤ first')
    (hlast : last' ≤ last)
    (hp : ∀ i, first ≤ i → i ≤ last → (p i = true ↔ first' ≤ i ∧ i ≤ last')) :
    (countUp first last).filter p = countUp first' last' := by
  refine ((pairwise_countUp first last).filter p).eq_of_mem_iff (pairwise_countUp first' last') ?_
  intro i
  rw [List.mem_filter, mem_countUp, mem_countUp]
  constructor
  · rintro ⟨⟨h₁, h₂⟩, hi⟩
    exact (hp i h₁ h₂).mp hi
  · rintro ⟨h₁, h₂⟩
    have h₁' := hfirst.trans h₁
    have h₂' := h₂.trans hlast
    exact ⟨⟨h₁', h₂'⟩, (hp i h₁' h₂').mpr ⟨h₁, h₂⟩⟩

end Ixion.Lib
