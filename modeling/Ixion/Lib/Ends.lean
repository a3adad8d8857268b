import Mathlib.Logic.Relation
import Mathlib.Tactic.Basic

/-!
# Runs that come to an end

A state *ends in* a property when every run from it is finite, whichever steps are taken,
and the property holds wherever no step is left.  An invariant and a number that every step
makes smaller show it (`endsIn_of_measure`).
-/

namespace Ixion.Lib

universe u

variable {σ : Type u} {R : σ → σ → Prop} {Q : σ → Prop}

/-- Every run from a state comes to an end, and there the property holds. -/
inductive EndsIn (R : σ → σ → Prop) (Q : σ → Prop) : σ → Prop where
  | of_steps {s : σ} : ((∀ s', ¬ R s s') → Q s) → (∀ s', R s s' → EndsIn R Q s') → EndsIn R Q s

/-- An invariant under which every step makes a number smaller. -/
theorem endsIn_of_measure {I : σ → Prop} (μ : σ → Nat)
    (hstep : ∀ s s', I s → R s s' → I s' ∧ μ s' < μ s)
    (hend : ∀ s, I s → (∀ s', ¬ R s s') → Q s) {s : σ} (hs : I s) : EndsIn R Q s := by
  induction hn : μ s using Nat.strongRecOn generalizing s with
  | ind n ih =>
    refine .of_steps (hend s hs) fun s' hR ↦ ?_
    obtain ⟨hs', hlt⟩ := hstep s s' hs hR
    exact ih _ (hn ▸ hlt) hs' rfl

/-- A run that ends has the property at its end. -/
theorem EndsIn.of_reachable {s s' : σ} (h : EndsIn R Q s) (hs : Relation.ReflTransGen R s s')
    (hend : ∀ s'', ¬ R s' s'') : Q s' := by
  induction hs using Relation.ReflTransGen.head_induction_on with
  | refl =>
    cases h with
    | of_steps hQ _ => exact hQ hend
  | head hR _ ih =>
    cases h with
    | of_steps _ hsteps => exact ih (hsteps _ hR)

end Ixion.Lib
