import Ixion.Lib.Sweep
import Mathlib.Data.Set.Finite.Basic
import Mathlib.Data.Fintype.EquivFin
import Mathlib.Order.WellFounded

/-!
# Values that depend on each other

The value of an element may depend on the values of others, which may be on cycles.  What an
element leads to by dependencies decides whether it is circular (`circular_congr`), and where the
dependencies are finitely many, the elements that are not circular can be taken in an order in
which each comes after those it depends on (`acc_of_not_circular`).  Two solutions of the same
equations then have the same values there (`eq_of_not_circular`).
-/

namespace Ixion.Lib

open Relation

universe u v

variable {α : Type u} {β : Type v} {dep dep' : α → α → Prop}

/-- An element is circular when it depends on a circular one. -/
theorem circular_iff_exists {a : α} : Circular dep a ↔ ∃ b, dep a b ∧ Circular dep b := by
  constructor
  · rintro ⟨c, hac, hcc⟩
    obtain ⟨b, hab, hbc⟩ := TransGen.head'_iff.mp (.trans_right hac hcc)
    exact ⟨b, hab, c, hbc, hcc⟩
  · rintro ⟨b, hab, hb⟩
    exact hb.head hab

section Closed

variable {N : α → Prop} (hclosed : ∀ a b, N a → dep a b → N b)

include hclosed

/-- What an element of a closed set leads to is in the set. -/
theorem mem_of_reflTransGen {a b : α} (ha : N a) (h : ReflTransGen dep a b) : N b := by
  induction h with
  | refl => exact ha
  | tail _ h ih => exact hclosed _ _ ih h

variable (hsub : ∀ a b, N a → dep a b → dep' a b)

include hsub

theorem reflTransGen_of_closed {a b : α} (ha : N a) (h : ReflTransGen dep a b) :
    ReflTransGen dep' a b := by
  induction h with
  | refl => exact .refl
  | tail hab h ih => exact ih.tail (hsub _ _ (mem_of_reflTransGen hclosed ha hab) h)

/-- On a closed set a part of a relation has no other circular elements than the relation. -/
theorem circular_of_closed {a : α} (ha : N a) (h : Circular dep a) : Circular dep' a := by
  obtain ⟨c, hac, hcc⟩ := h
  have hc := mem_of_reflTransGen hclosed ha hac
  obtain ⟨b, hcb, hbc⟩ := TransGen.head'_iff.mp hcc
  exact ⟨c, reflTransGen_of_closed hclosed hsub ha hac,
    .head' (hsub _ _ hc hcb) (reflTransGen_of_closed hclosed hsub (hclosed _ _ hc hcb) hbc)⟩

end Closed

/-- On a closed set the circular elements depend on what the relation is there. -/
theorem circular_congr {N : α → Prop} (hclosed : ∀ a b, N a → dep a b → N b)
    (h : ∀ a b, N a → (dep a b ↔ dep' a b)) {a : α} (ha : N a) :
    Circular dep a ↔ Circular dep' a :=
  ⟨circular_of_closed hclosed (fun a b ha ↦ (h a b ha).mp) ha,
    circular_of_closed (fun a b ha hab ↦ hclosed a b ha ((h a b ha).mpr hab))
      (fun a b ha ↦ (h a b ha).mpr) ha⟩

/-- Where finitely many elements are depended on, what is not circular comes after all that it
leads to. -/
theorem acc_of_not_circular {s : Set α} (hs : s.Finite) (hmem : ∀ a b, dep a b → b ∈ s) {a : α}
    (h : ¬ Circular dep a) : Acc (fun x y ↦ dep y x) a := by
  let reached : Set α := {b | ReflTransGen dep a b}
  have hfinite : reached.Finite := by
    refine (hs.insert a).subset fun b hab ↦ ?_
    rcases ReflTransGen.cases_tail hab with rfl | ⟨c, _, hcb⟩
    · exact Set.mem_insert _ _
    · exact Set.mem_insert_of_mem _ (hmem c b hcb)
  have : Finite reached := hfinite
  let below : reached → reached → Prop := fun x y ↦ TransGen dep y.1 x.1
  have : IsTrans reached below := ⟨fun _ _ _ hxy hyz ↦ hyz.trans hxy⟩
  have : Std.Irrefl below := ⟨fun x hx ↦ h ⟨x.1, x.2, hx⟩⟩
  have hwf : WellFounded below := Finite.wellFounded_of_trans_of_irrefl below
  have hacc (x : reached) : Acc (fun x y ↦ dep y x) x.1 := by
    induction x using hwf.induction with
    | _ x ih =>
      exact .intro _ fun y hxy ↦ ih ⟨y, x.2.tail hxy⟩ (.single hxy)
  exact hacc ⟨a, .refl⟩

/-- Two assignments of values have the same value wherever nothing is circular, if the value of an
element is the same in both as soon as those of all elements that it depends on are. -/
theorem eq_of_not_circular {s : Set α} (hs : s.Finite) (hmem : ∀ a b, dep a b → b ∈ s)
    {f g : α → β} (h : ∀ a, ¬ Circular dep a → (∀ b, dep a b → f b = g b) → f a = g a) {a : α}
    (ha : ¬ Circular dep a) : f a = g a := by
  have hacc := acc_of_not_circular hs hmem ha
  induction hacc with
  | intro a _ ih => exact h a ha fun b hab ↦ ih b hab fun hb ↦ ha (hb.head hab)

end Ixion.Lib
