import Mathlib.Data.List.Basic
import Mathlib.Data.List.Infix
import Mathlib.Tactic.Basic

/-!
# Codes that synchronise themselves

A code writes each letter as a word of symbols.  It synchronises itself where the first symbol of a
word says how long the word is and no other symbol of a word can be a first one.  The places where
words begin are then a matter of the symbols, a text is read back in one way, and where one text is
found in another it begins with a word (`exists_offset_of_isPrefix_drop`).
-/

namespace Ixion.Lib

universe u v

variable {α : Type u} {β : Type v} {code : α → List β} {size : β → Option Nat} {as ps : List α}
  {k : Nat}

/-- The first symbol of a word says how long the word is, and no other symbol does. -/
structure IsSelfSynchronizing (code : α → List β) (size : β → Option Nat) : Prop where
  head : ∀ a, ∃ b bs, code a = b :: bs ∧ size b = some (bs.length + 1) ∧ ∀ x ∈ bs, size x = none
  injective : Function.Injective code

/-- Where the word of a letter begins. -/
def offset (code : α → List β) (as : List α) (k : Nat) : Nat := ((as.take k).flatMap code).length

/-- Where the words of a text begin. -/
def offsets (code : α → List β) (as : List α) : List Nat :=
  (List.range as.length).map (offset code as)

/-! ## Offsets -/

theorem length_offsets : (offsets code as).length = as.length := by
  rw [offsets, List.length_map, List.length_range]

theorem getElem?_offsets :
    (offsets code as)[k]? = if k < as.length then some (offset code as k) else none := by
  rw [offsets, List.getElem?_map]
  split
  case isTrue h =>
    rw [List.getElem?_range h]
    rfl
  case isFalse h =>
    rw [List.getElem?_eq_none (List.length_range.trans_le (Nat.not_lt.mp h))]
    rfl

/-- Past the end there is the end. -/
theorem offset_of_length_le (h : as.length ≤ k) : offset code as k = (as.flatMap code).length := by
  rw [offset, List.take_of_length_le h]

theorem offset_cons_succ (a : α) :
    offset code (a :: as) (k + 1) = (code a).length + offset code as k := by
  rw [offset, List.take_succ_cons, List.flatMap_cons, List.length_append]
  rfl

/-- The offsets of a text are those of its rest, after the first word. -/
theorem offsets_cons (a : α) :
    offsets code (a :: as) = 0 :: (offsets code as).map ((code a).length + ·) := by
  rw [offsets, offsets, List.length_cons, List.range_succ_eq_map, List.map_cons, List.map_map,
    List.map_map]
  refine congrArg (0 :: ·) (List.map_congr_left fun k _ ↦ ?_)
  exact offset_cons_succ a

theorem flatMap_eq_append (k : Nat) :
    as.flatMap code = (as.take k).flatMap code ++ (as.drop k).flatMap code := by
  rw [← List.flatMap_append, List.take_append_drop]

/-- Up to an offset there are the words before it. -/
theorem take_offset (k : Nat) :
    (as.flatMap code).take (offset code as k) = (as.take k).flatMap code := by
  rw [flatMap_eq_append k]
  exact List.take_left

/-- From an offset on there are the words after it. -/
theorem drop_offset (k : Nat) :
    (as.flatMap code).drop (offset code as k) = (as.drop k).flatMap code := by
  rw [flatMap_eq_append k]
  exact List.drop_left

theorem length_flatMap_replicate (n : Nat) (a : α) :
    ((List.replicate n a).flatMap code).length = n * (code a).length := by
  rw [List.flatMap_replicate, List.length_flatten, List.map_replicate, List.sum_replicate_nat]

/-- Where the words of a text begin that is one letter again and again. -/
theorem offset_replicate {n : Nat} (h : k ≤ n) (a : α) :
    offset code (List.replicate n a) k = k * (code a).length := by
  rw [offset, List.take_replicate, Nat.min_eq_left h, length_flatMap_replicate]

/-- Between two offsets there are the words between them. -/
theorem drop_take_offset (i k : Nat) :
    ((as.flatMap code).take (offset code as (i + k))).drop (offset code as i) =
      ((as.drop i).take k).flatMap code := by
  have hoffset : offset code as i = offset code (as.take (i + k)) i := by
    rw [offset, offset, List.take_take, Nat.min_eq_left (Nat.le_add_right i k)]
  rw [take_offset, hoffset, drop_offset, List.drop_take, Nat.add_sub_cancel_left]

/-- An offset, or the end where there is no more word. -/
theorem getD_offsets : (offsets code as).getD k (as.flatMap code).length = offset code as k := by
  rw [List.getD_eq_getElem?_getD, getElem?_offsets]
  split
  case isTrue => rfl
  case isFalse h => exact (offset_of_length_le (Nat.not_lt.mp h)).symm

theorem offset_le_length (k : Nat) : offset code as k ≤ (as.flatMap code).length := by
  rw [flatMap_eq_append k, List.length_append]
  exact Nat.le_add_right _ _

theorem offset_mono {k k' : Nat} (h : k ≤ k') : offset code as k ≤ offset code as k' := by
  have htake : as.take k' = as.take k ++ (as.drop k).take (k' - k) := by
    conv_lhs => rw [← Nat.add_sub_cancel' h, List.take_add]
  rw [offset, offset, htake, List.flatMap_append, List.length_append]
  exact Nat.le_add_right _ _

namespace IsSelfSynchronizing

variable (h : IsSelfSynchronizing code size)

include h

theorem length_pos (a : α) : 0 < (code a).length := by
  obtain ⟨b, bs, hcode, -, -⟩ := h.head a
  rw [hcode]
  exact Nat.succ_pos _

/-- Each word takes the offset further. -/
theorem offset_lt_succ (hk : k < as.length) : offset code as k < offset code as (k + 1) := by
  rw [offset, offset, List.take_succ_eq_append_getElem hk, List.flatMap_append, List.length_append,
    List.flatMap_singleton]
  exact Nat.lt_add_of_pos_right (h.length_pos _)

theorem offset_lt {k k' : Nat} (hlt : k < k') (hk' : k' ≤ as.length) :
    offset code as k < offset code as k' :=
  (h.offset_lt_succ (hlt.trans_le hk')).trans_le (offset_mono hlt)

/-! ## Texts in texts -/

/-- Words that begin alike are the same. -/
theorem eq_of_append_eq {a a' : α} {bs bs' : List β} (heq : code a ++ bs = code a' ++ bs') :
    a = a' ∧ bs = bs' := by
  obtain ⟨b, cs, hcode, hsize, -⟩ := h.head a
  obtain ⟨b', cs', hcode', hsize', -⟩ := h.head a'
  have hlength : (code a).length = (code a').length := by
    have hhead : b = b' := by
      rw [hcode, hcode'] at heq
      exact (List.cons.inj heq).1
    rw [hcode, hcode', List.length_cons, List.length_cons]
    exact Option.some.inj (hsize.symm.trans (hhead ▸ hsize'))
  obtain ⟨hword, hrest⟩ := List.append_inj heq hlength
  exact ⟨h.injective hword, hrest⟩

/-- A text begins with another one exactly if its letters do. -/
theorem flatMap_isPrefix_iff : ps.flatMap code <+: as.flatMap code ↔ ps <+: as := by
  constructor
  · intro hprefix
    induction ps generalizing as with
    | nil => exact List.nil_prefix
    | cons p ps ih =>
      obtain ⟨rest, heq⟩ := hprefix
      cases as with
      | nil =>
        have hnil := (List.append_eq_nil_iff.mp heq).1
        have hpos := h.length_pos p
        rw [List.flatMap_cons, List.append_eq_nil_iff] at hnil
        rw [hnil.1] at hpos
        exact absurd hpos (Nat.lt_irrefl 0)
      | cons a as =>
        rw [List.flatMap_cons, List.flatMap_cons, List.append_assoc] at heq
        obtain ⟨rfl, hrest⟩ := h.eq_of_append_eq heq
        exact List.cons_prefix_cons.mpr ⟨rfl, ih ⟨rest, hrest⟩⟩
  · rintro ⟨rest, rfl⟩
    rw [List.flatMap_append]
    exact List.prefix_append _ _

/-- A symbol of a text that says how long a word is begins that word. -/
theorem exists_offset_of_size {i : Nat} {b : β} (hb : (as.flatMap code)[i]? = some b)
    (hsize : size b ≠ none) : ∃ k < as.length, i = offset code as k := by
  induction as generalizing i with
  | nil => exact absurd hb nofun
  | cons a as ih =>
    obtain ⟨c, cs, hcode, -, hrest⟩ := h.head a
    rcases Nat.lt_or_ge i (code a).length with hlt | hge
    · rw [List.flatMap_cons, List.getElem?_append_left hlt, hcode] at hb
      cases i with
      | zero => exact ⟨0, Nat.succ_pos _, rfl⟩
      | succ i => exact absurd (hrest b (List.mem_of_getElem? hb)) hsize
    · rw [List.flatMap_cons, List.getElem?_append_right hge] at hb
      obtain ⟨k, hk, heq⟩ := ih hb
      refine ⟨k + 1, Nat.succ_lt_succ hk, ?_⟩
      rw [offset_cons_succ, ← heq, Nat.add_sub_cancel' hge]

/-- Where a text that is not empty is found, a word begins. -/
theorem exists_offset_of_isPrefix_drop {i : Nat} (hne : ps ≠ [])
    ( hprefix : ps.flatMap code <+: (as.flatMap code).drop i) :
    ∃ k < as.length, i = offset code as k := by
  obtain ⟨p, ps, rfl⟩ := List.exists_cons_of_ne_nil hne
  obtain ⟨b, bs, hcode, hsize, -⟩ := h.head p
  obtain ⟨rest, hrest⟩ := hprefix
  refine h.exists_offset_of_size (i := i) (b := b) ?_ (hsize ▸ nofun)
  have hdrop : ((as.flatMap code).drop i)[0]? = some b := by
    rw [← hrest, List.flatMap_cons, hcode]
    rfl
  rwa [List.getElem?_drop, Nat.add_zero] at hdrop

end IsSelfSynchronizing

end Ixion.Lib
