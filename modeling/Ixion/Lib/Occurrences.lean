import Mathlib.Data.List.Infix
import Mathlib.Order.Bounds.Defs
import Mathlib.Order.Bounds.Basic
import Mathlib.Order.Nat
import Mathlib.Tactic.Basic

/-!
# Occurrences of a list in a list

A list occurs in another one at the positions from which on that one begins with it.  A list is cut
at the occurrences of another one that is not empty, each time at the first one that is left
(`CutAt`), into pieces that are one more than the occurrences; put together with that other list
between them, they are the list again (`CutAt.joinWith`).
-/

namespace Ixion.Lib

universe u

variable {α : Type u} {part whole : List α} {i pos : Nat}

/-- A list occurs in another one at a position. -/
structure OccursAt (part whole : List α) (i : Nat) : Prop where
  le : i ≤ whole.length
  isPrefix : part <+: whole.drop i

theorem OccursAt.add_length_le (h : OccursAt part whole i) : i + part.length ≤ whole.length := by
  have hlength := h.isPrefix.length_le
  rw [List.length_drop] at hlength
  have hle := h.le
  omega

/-- The empty list occurs everywhere. -/
theorem occursAt_nil (h : i ≤ whole.length) : OccursAt [] whole i := ⟨h, List.nil_prefix⟩

theorem occursAt_drop (h : pos ≤ whole.length) :
    OccursAt part (whole.drop pos) i ↔ OccursAt part whole (pos + i) := by
  constructor
  · rintro ⟨hle, hprefix⟩
    rw [List.length_drop] at hle
    rw [List.drop_drop] at hprefix
    exact ⟨by omega, hprefix⟩
  · rintro ⟨hle, hprefix⟩
    refine ⟨?_, ?_⟩
    · rw [List.length_drop]
      omega
    · rwa [List.drop_drop]

/-- The first occurrence in what is left of a list. -/
theorem isLeast_occursAt_drop (h : pos ≤ whole.length) :
    IsLeast {i | OccursAt part (whole.drop pos) i} i ↔
      IsLeast {i | pos ≤ i ∧ OccursAt part whole i} (pos + i) := by
  constructor
  · rintro ⟨hi, hleast⟩
    refine ⟨⟨Nat.le_add_right _ _, (occursAt_drop h).mp hi⟩, fun j hj ↦ ?_⟩
    obtain ⟨j, rfl⟩ := Nat.exists_eq_add_of_le hj.1
    exact Nat.add_le_add_left (hleast ((occursAt_drop h).mpr hj.2)) pos
  · rintro ⟨hi, hleast⟩
    refine ⟨(occursAt_drop h).mpr hi.2, fun j hj ↦ ?_⟩
    exact Nat.le_of_add_le_add_left (hleast ⟨Nat.le_add_right _ _, (occursAt_drop h).mp hj⟩)

/-! ## Pieces -/

/-- A list is cut at the occurrences of another one, each time at the first one that is left. -/
inductive CutAt (part : List α) : List α → List (List α) → Prop where
  | whole {whole : List α} (h : ∀ i, ¬OccursAt part whole i) : CutAt part whole [whole]
  | cut {whole : List α} {i : Nat} {pieces : List (List α)}
      (h : IsLeast {i | OccursAt part whole i} i)
      (rest : CutAt part (whole.drop (i + part.length)) pieces) :
      CutAt part whole (whole.take i :: pieces)

theorem CutAt.ne_nil {pieces : List (List α)} (h : CutAt part whole pieces) : pieces ≠ [] := by
  cases h with
  | whole => exact List.cons_ne_nil _ _
  | cut => exact List.cons_ne_nil _ _

/-- There is one way to cut a list. -/
theorem CutAt.unique {pieces pieces' : List (List α)} (h : CutAt part whole pieces)
    (h' : CutAt part whole pieces') : pieces = pieces' := by
  induction h generalizing pieces' with
  | whole hnone =>
    cases h' with
    | whole => rfl
    | cut hleast => exact absurd hleast.1 (hnone _)
  | cut hleast _ ih =>
    cases h' with
    | whole hnone => exact absurd hleast.1 (hnone _)
    | cut hleast' hrest =>
      obtain rfl := hleast.unique hleast'
      rw [ih hrest]

/-- A list is cut at the occurrences of one that is not empty. -/
theorem exists_cutAt (hpart : part ≠ []) (whole : List α) : ∃ pieces, CutAt part whole pieces := by
  classical
  induction hn : whole.length using Nat.strong_induction_on generalizing whole with
  | h n ih =>
    by_cases h : ∃ i, OccursAt part whole i
    · have hleast := Nat.isLeast_find h
      have hpos := List.length_pos_iff.mpr hpart
      have hle := hleast.1.add_length_le
      obtain ⟨pieces, hpieces⟩ := ih (whole.drop (Nat.find h + part.length)).length
        (by rw [List.length_drop]; omega) _ rfl
      exact ⟨_, .cut hleast hpieces⟩
    · exact ⟨_, .whole (not_exists.mp h)⟩

/-- There are no more occurrences than elements. -/
theorem CutAt.length_le {pieces : List (List α)} (h : CutAt part whole pieces) (hpart : part ≠ []) :
    pieces.length ≤ whole.length + 1 := by
  induction h with
  | whole => exact Nat.le_add_left 1 _
  | cut hleast _ ih =>
    have hpos := List.length_pos_iff.mpr hpart
    have hle := hleast.1.add_length_le
    rw [List.length_drop] at ih
    rw [List.length_cons]
    omega

/-- There is no way to cut a list at the occurrences of the empty list. -/
theorem not_cutAt_nil {pieces : List (List α)} : ¬CutAt [] whole pieces := by
  intro h
  generalize hpart : ([] : List α) = part at h
  induction h with
  | whole hnone =>
    subst hpart
    exact hnone 0 (occursAt_nil (Nat.zero_le _))
  | cut _ _ ih => exact ih

/-- Put lists together with something between each two of them, by number. -/
def joinWith (sep : Nat → List α) : Nat → List (List α) → List α
  | _, [] => []
  | _, [piece] => piece
  | k, piece :: next :: pieces => piece ++ sep k ++ joinWith sep (k + 1) (next :: pieces)

theorem joinWith_cons (sep : Nat → List α) (k : Nat) (piece : List α) {pieces : List (List α)}
    (h : pieces ≠ []) :
    joinWith sep k (piece :: pieces) = piece ++ sep k ++ joinWith sep (k + 1) pieces := by
  obtain ⟨next, pieces, rfl⟩ := List.exists_cons_of_ne_nil h
  rfl

/-- Only what is put between two lists matters. -/
theorem joinWith_congr {sep sep' : Nat → List α} {k : Nat} {pieces : List (List α)}
    (h : ∀ i, k ≤ i → i + 1 < k + pieces.length → sep i = sep' i) :
    joinWith sep k pieces = joinWith sep' k pieces := by
  induction pieces generalizing k with
  | nil => rfl
  | cons piece pieces ih =>
    by_cases hnil : pieces = []
    · rw [hnil]
      rfl
    · have hpos := List.length_pos_iff.mpr hnil
      have hnext := ih (k := k + 1) fun i hi hlt ↦
        h i (Nat.le_of_succ_le hi) (by rw [List.length_cons]; omega)
      rw [joinWith_cons _ _ _ hnil, joinWith_cons _ _ _ hnil, hnext,
        h k le_rfl (by rw [List.length_cons]; omega)]

/-- The pieces of a list make up the list. -/
theorem CutAt.joinWith {pieces : List (List α)} (h : CutAt part whole pieces) (k : Nat) :
    joinWith (fun _ ↦ part) k pieces = whole := by
  induction h generalizing k with
  | whole => rfl
  | @cut whole i pieces hleast hrest ih =>
    rw [joinWith_cons _ _ _ hrest.ne_nil, ih]
    obtain ⟨tail, htail⟩ := hleast.1.isPrefix
    have hdrop : whole.drop (i + part.length) = tail := by
      rw [← List.drop_drop, ← htail, List.drop_left]
    rw [hdrop, List.append_assoc, htail, List.take_append_drop]

end Ixion.Lib
