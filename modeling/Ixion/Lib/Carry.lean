import Ixion.Lib.Loop
import Mathlib.Data.List.Chain
import Mathlib.Data.List.ProdSigma

/-!
# Going through a list step by step

A pair of partial steps, one forwards and one backwards, enumerates a list if they lead from
each of its elements to the next and back, and nowhere from its ends.  A counter does so; two
pairs of steps can be joined into one with a carry, and a position past the end can be added.
-/

namespace Ixion.Lib

universe u v

variable {α : Type u} {β : Type v}

/-- The steps lead through the list, from its first element to its last and back. -/
structure Enumerates (inc dec : α → Option α) (first last : α) (l : List α) : Prop where
  head : l.head? = some first
  getLast : l.getLast? = some last
  chain : l.IsChain fun a b ↦ inc a = some b ∧ dec b = some a
  inc_last : inc last = none
  dec_first : dec first = none

namespace Enumerates

variable {inc dec : α → Option α} {first last : α} {l : List α}

theorem ne_nil (h : Enumerates inc dec first last l) : l ≠ [] := by
  rintro rfl
  exact nomatch h.head

theorem first_mem (h : Enumerates inc dec first last l) : first ∈ l := List.mem_of_head? h.head

theorem last_mem (h : Enumerates inc dec first last l) : last ∈ l := List.mem_of_getLast? h.getLast

theorem getElem_zero (h : Enumerates inc dec first last l) (h' : 0 < l.length) : l[0] = first := by
  have hhead := h.head
  rw [List.head?_eq_getElem?, List.getElem?_eq_getElem h'] at hhead
  exact Option.some.inj hhead

theorem getElem_last (h : Enumerates inc dec first last l) {i : Nat} (hi : i + 1 = l.length) :
    l[i] = last := by
  have hlast := h.getLast
  rw [List.getLast?_eq_getElem?, ← hi, Nat.add_sub_cancel,
    List.getElem?_eq_getElem (by omega)] at hlast
  exact Option.some.inj hlast

/-- A step forwards leads to the next element. -/
theorem inc_getElem (h : Enumerates inc dec first last l) {i : Nat} (hi : i + 1 < l.length) :
    inc l[i] = some l[i + 1] :=
  (List.isChain_iff_getElem.mp h.chain i hi).1

/-- A step backwards leads to the element before. -/
theorem dec_getElem (h : Enumerates inc dec first last l) {i : Nat} (hi : i + 1 < l.length) :
    dec l[i + 1] = some l[i] :=
  (List.isChain_iff_getElem.mp h.chain i hi).2

/-- There is a step forwards from every element but the last; it stays in the list and can be
taken back. -/
theorem exists_inc (h : Enumerates inc dec first last l) {a : α} (ha : a ∈ l) (hne : a ≠ last) :
    ∃ b ∈ l, inc a = some b ∧ dec b = some a := by
  obtain ⟨i, hi, rfl⟩ := List.getElem_of_mem ha
  have hi' : i + 1 < l.length :=
    Nat.lt_of_le_of_ne hi fun hlast ↦ hne (h.getElem_last hlast)
  exact ⟨l[i + 1], List.getElem_mem hi', h.inc_getElem hi', h.dec_getElem hi'⟩

/-- There is a step backwards from every element but the first; it stays in the list and can be
taken back. -/
theorem exists_dec (h : Enumerates inc dec first last l) {a : α} (ha : a ∈ l) (hne : a ≠ first) :
    ∃ b ∈ l, dec a = some b ∧ inc b = some a := by
  obtain ⟨i, hi, rfl⟩ := List.getElem_of_mem ha
  rcases i with - | i
  · exact absurd (h.getElem_zero hi) hne
  · exact ⟨l[i], List.getElem_mem _, h.dec_getElem hi, h.inc_getElem hi⟩

/-! ## Other elements for the same -/

/-- Steps that do the same on other elements go through the list of those. -/
theorem map (h : Enumerates inc dec first last l) (f : α → β) {inc' dec' : β → Option β}
    (hinc : ∀ a ∈ l, inc' (f a) = (inc a).map f) (hdec : ∀ a ∈ l, dec' (f a) = (dec a).map f) :
    Enumerates inc' dec' (f first) (f last) (l.map f) where
  head := by rw [List.head?_map, h.head, Option.map_some]
  getLast := by rw [List.getLast?_map, h.getLast, Option.map_some]
  chain := by
    rw [List.isChain_map, List.isChain_iff_getElem]
    intro i hi
    rw [hinc _ (List.getElem_mem _), hdec _ (List.getElem_mem _), h.inc_getElem hi,
      h.dec_getElem hi]
    exact ⟨rfl, rfl⟩
  inc_last := by rw [hinc _ h.last_mem, h.inc_last, Option.map_none]
  dec_first := by rw [hdec _ h.first_mem, h.dec_first, Option.map_none]

end Enumerates

/-! ## Counters -/

/-- One more, up to the last. -/
def countInc (last i : Int) : Option Int := if i < last then some (i + 1) else none

/-- One less, down to the first. -/
def countDec (first i : Int) : Option Int := if first < i then some (i - 1) else none

/-- A counter goes through its values. -/
theorem enumerates_countUp {first last : Int} (h : first ≤ last) :
    Enumerates (countInc last) (countDec first) first last (countUp first last) where
  head := by
    rw [countUp, List.head?_map, List.head?_range, if_neg (by omega), Option.map_some]
    exact congrArg some (Int.add_zero first)
  getLast := by
    rw [countUp, List.getLast?_map, List.getLast?_range, if_neg (by omega), Option.map_some]
    congr 1
    omega
  chain := by
    rw [countUp, List.isChain_map, List.isChain_iff_getElem]
    intro i hi
    rw [List.length_range] at hi
    rw [List.getElem_range, List.getElem_range, countInc, countDec, if_pos (by omega),
      if_pos (by omega)]
    constructor
    · congr 1
      omega
    · congr 1
      omega
  inc_last := if_neg (Int.lt_irrefl last)
  dec_first := if_neg (Int.lt_irrefl first)

/-! ## Carries -/

/-- Step inside; where there is no step inside, step outside and start again inside. -/
def carry (outer : β → Option β) (inner : α → Option α) (start : α) : β × α → Option (β × α)
  | (b, a) =>
    match inner a with
    | some a => some (b, a)
    | none => (outer b).map fun b ↦ (b, start)

theorem carry_of_some {outer : β → Option β} {inner : α → Option α} {start a a' : α} (b : β)
    (h : inner a = some a') : carry outer inner start (b, a) = some (b, a') := by
  rw [carry, h]

theorem carry_of_none {outer : β → Option β} {inner : α → Option α} {start a : α} (b : β)
    (h : inner a = none) :
    carry outer inner start (b, a) = (outer b).map fun b ↦ (b, start) := by
  rw [carry, h]

section Carry

variable {outerInc outerDec : β → Option β} {innerInc innerDec : α → Option α}
  {firstOuter lastOuter : β} {firstInner lastInner : α} {bs : List β} {as : List α}

/-- With carries the pairs are gone through, row by row. -/
theorem Enumerates.carry (houter : Enumerates outerInc outerDec firstOuter lastOuter bs)
    (hinner : Enumerates innerInc innerDec firstInner lastInner as) :
    Enumerates (carry outerInc innerInc firstInner) (carry outerDec innerDec lastInner)
      (firstOuter, firstInner) (lastOuter, lastInner)
      (bs.flatMap fun b ↦ as.map fun a ↦ (b, a)) where
  head := by
    obtain ⟨bs, rfl⟩ := List.head?_eq_some_iff.mp houter.head
    rw [List.flatMap_cons, List.head?_append, List.head?_map, hinner.head]
    rfl
  getLast := by
    obtain ⟨bs, rfl⟩ := List.getLast?_eq_some_iff.mp houter.getLast
    rw [List.flatMap_append, List.flatMap_singleton, List.getLast?_append, List.getLast?_map,
      hinner.getLast]
    rfl
  chain := by
    rw [List.flatMap_def, List.isChain_flatten]
    · constructor
      · -- inside, for one outer element
        intro l hl
        obtain ⟨b, -, rfl⟩ := List.mem_map.mp hl
        rw [List.isChain_map]
        refine hinner.chain.imp ?_
        rintro a a' ⟨hinc, hdec⟩
        exact ⟨carry_of_some b hinc, carry_of_some b hdec⟩
      · -- from one outer element to the next, where the carry is
        rw [List.isChain_map]
        refine houter.chain.imp ?_
        rintro b b' ⟨hinc, hdec⟩ x hx y hy
        rw [List.getLast?_map, hinner.getLast] at hx
        rw [List.head?_map, hinner.head] at hy
        cases hx
        cases hy
        rw [carry_of_none _ hinner.inc_last, carry_of_none _ hinner.dec_first, hinc, hdec]
        exact ⟨rfl, rfl⟩
    · intro hnil
      obtain ⟨b, -, hb⟩ := List.mem_map.mp hnil
      exact hinner.ne_nil (List.map_eq_nil_iff.mp hb)
  inc_last := by
    rw [carry_of_none _ hinner.inc_last, houter.inc_last, Option.map_none]
  dec_first := by
    rw [carry_of_none _ hinner.dec_first, houter.dec_first, Option.map_none]

end Carry

/-! ## Past the end -/

/-- Step forwards; from the last element, past the end. -/
def incToEnd (inc : α → Option α) : α × Bool → Option (α × Bool)
  | (_, true) => none
  | (a, false) =>
    match inc a with
    | some a => some (a, false)
    | none => some (a, true)

/-- Step backwards; from past the end, to the last element. -/
def decFromEnd (dec : α → Option α) : α × Bool → Option (α × Bool)
  | (a, true) => some (a, false)
  | (a, false) => (dec a).map fun a ↦ (a, false)

/-- The position past the end, which keeps the last element, comes after the others. -/
theorem Enumerates.toEnd {inc dec : α → Option α} {first last : α} {l : List α}
    (h : Enumerates inc dec first last l) :
    Enumerates (incToEnd inc) (decFromEnd dec) (first, false) (last, true)
      (l.map (fun a ↦ (a, false)) ++ [(last, true)]) where
  head := by
    rw [List.head?_append, List.head?_map, h.head]
    rfl
  getLast := List.getLast?_concat
  chain := by
    rw [List.isChain_append]
    refine ⟨?_, List.isChain_singleton _, ?_⟩
    · rw [List.isChain_map]
      refine h.chain.imp ?_
      rintro a b ⟨hinc, hdec⟩
      rw [incToEnd, hinc, decFromEnd, hdec]
      exact ⟨rfl, rfl⟩
    · intro x hx y hy
      rw [List.getLast?_map, h.getLast] at hx
      cases hx
      cases hy
      rw [incToEnd, h.inc_last]
      exact ⟨rfl, rfl⟩
  inc_last := rfl
  dec_first := by rw [decFromEnd, h.dec_first, Option.map_none]

end Ixion.Lib
