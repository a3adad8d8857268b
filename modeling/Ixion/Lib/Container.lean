import Mathlib.Data.List.Nodup
import Mathlib.Data.List.Perm.Basic

/-!
# The containers the tracker is built on

Two containers are used through their interface only.

* `UnorderedSet` is a hash set.  The order in which its elements are visited is
  an arbitrary function of the *container*, not of the set it holds: two
  containers with the same elements may be visited in different orders, and an
  insertion may reorder everything.  A result stated over this interface holds
  whatever order a hash table produces.
* `RTree` is a spatial index.  Its entries carry rectangles; a search returns
  the positions of the entries found, in an order left open, and an insertion or
  an erasure may rearrange the other entries.

`ListSet` and `ListTree` are the obvious models on which concrete inputs can be
run.  In `ListSet` the most recently inserted element is visited first.
-/

namespace Ixion.Lib

universe u v

/-! ## Hash sets -/

/-- The interface of a hash set `S` with elements in `α`. -/
class UnorderedSet (S : Type u) (α : outParam (Type v)) where
  /-- The empty set. -/
  empty : S
  /-- The elements, in the order in which the container is visited. -/
  toList : S → List α
  /-- Insert an element; nothing changes when it is already there. -/
  insert : S → α → S
  /-- Erase an element; nothing changes when it is not there. -/
  erase : S → α → S
  nodup_toList (s : S) : (toList s).Nodup
  toList_empty : toList empty = []
  mem_toList_insert {s : S} {a b : α} : b ∈ toList (insert s a) ↔ b = a ∨ b ∈ toList s
  mem_toList_erase {s : S} {a b : α} : b ∈ toList (erase s a) ↔ b ≠ a ∧ b ∈ toList s

namespace UnorderedSet

attribute [simp] toList_empty mem_toList_insert mem_toList_erase

variable {S : Type u} {α : Type v} [UnorderedSet S α]

/-- Insert every element of a list, in order. -/
def insertAll (s : S) (l : List α) : S := l.foldl insert s

@[simp] theorem mem_toList_insertAll {s : S} {l : List α} {b : α} :
    b ∈ toList (insertAll s l) ↔ b ∈ l ∨ b ∈ toList s := by
  induction l generalizing s with
  | nil => simp [insertAll]
  | cons a l ih =>
    change b ∈ toList (insertAll (insert s a) l) ↔ _
    rw [ih, mem_toList_insert, List.mem_cons]
    constructor
    · rintro (h | rfl | h)
      · exact .inl (.inr h)
      · exact .inl (.inl rfl)
      · exact .inr h
    · rintro ((rfl | h) | h)
      · exact .inr (.inl rfl)
      · exact .inl h
      · exact .inr (.inr h)

/-- Whether the container has no element. -/
def isEmpty (s : S) : Bool := (toList s).isEmpty

theorem isEmpty_iff {s : S} : isEmpty s = true ↔ ∀ a, a ∉ toList s := by
  rw [isEmpty, List.isEmpty_iff, List.eq_nil_iff_forall_not_mem]

theorem isEmpty_eq_false_iff {s : S} : isEmpty s = false ↔ ∃ a, a ∈ toList s := by
  rw [← Bool.not_eq_true, isEmpty_iff]
  simp

end UnorderedSet

/-- Lists without duplicates, the newest element first. -/
abbrev ListSet (α : Type v) := { l : List α // l.Nodup }

instance ListSet.instUnorderedSet {α : Type v} [DecidableEq α] :
    UnorderedSet (ListSet α) α where
  empty := ⟨[], List.nodup_nil⟩
  toList s := s.1
  insert s a := if h : a ∈ s.1 then s else ⟨a :: s.1, List.nodup_cons.mpr ⟨h, s.2⟩⟩
  erase s a := ⟨s.1.erase a, s.2.erase a⟩
  nodup_toList s := s.2
  toList_empty := rfl
  mem_toList_insert {s a b} := by
    by_cases h : a ∈ s.1
    · rw [dif_pos h]
      exact ⟨.inr, fun hb ↦ hb.elim (fun e ↦ e ▸ h) id⟩
    · rw [dif_neg h]
      exact List.mem_cons
  mem_toList_erase {s a b} := List.Nodup.mem_erase_iff s.2

/-! ## Spatial indexes -/

/-- A rectangle given by its two corners. -/
structure Extent where
  rowStart : Int
  columnStart : Int
  rowEnd : Int
  columnEnd : Int
deriving DecidableEq, Repr

/-- Two rectangles intersect when their row intervals and their column intervals
do. -/
def Extent.Intersects (e q : Extent) : Prop :=
  e.rowStart ≤ q.rowEnd ∧ q.rowStart ≤ e.rowEnd ∧
    e.columnStart ≤ q.columnEnd ∧ q.columnStart ≤ e.columnEnd

instance (e q : Extent) : Decidable (e.Intersects q) := by
  unfold Extent.Intersects; infer_instance

/-- The interface of a spatial index `T` that stores values in `V`.  A search
returns positions into `entries`; `assign` writes through such a position. -/
class RTree (T : Type u) (V : outParam (Type v)) where
  empty : T
  /-- All entries, in the order in which the index happens to store them. -/
  entries : T → List (Extent × V)
  insert : T → Extent → V → T
  assign : T → Nat → V → T
  erase : T → Nat → T
  /-- The entries whose rectangle intersects the given one. -/
  overlapSearch : T → Extent → List Nat
  /-- The entries whose rectangle is the given one. -/
  matchSearch : T → Extent → List Nat
  entries_empty : entries empty = []
  entries_insert (t : T) (e : Extent) (v : V) :
    (entries (insert t e v)).Perm ((e, v) :: entries t)
  entries_assign (t : T) (i : Nat) (v : V) :
    entries (assign t i v) = (entries t).modify i (fun p ↦ (p.1, v))
  entries_erase (t : T) (i : Nat) : (entries (erase t i)).Perm ((entries t).eraseIdx i)
  mem_overlapSearch {t : T} {q : Extent} {i : Nat} :
    i ∈ overlapSearch t q ↔ ∃ p, (entries t)[i]? = some p ∧ p.1.Intersects q
  mem_matchSearch {t : T} {q : Extent} {i : Nat} :
    i ∈ matchSearch t q ↔ ∃ p, (entries t)[i]? = some p ∧ p.1 = q

/-! ### Indexes with one entry per rectangle -/

namespace RTree

variable {T : Type u} {V : Type v} [RTree T V]

/-- No two entries have the same rectangle. -/
def Keyed (t : T) : Prop := ((entries t).map Prod.fst).Nodup

/-- The entry for a rectangle is unique. -/
theorem Keyed.eq_of_mem {t : T} (h : Keyed t) {e : Extent} {v w : V}
    (hv : (e, v) ∈ entries t) (hw : (e, w) ∈ entries t) : v = w :=
  congrArg Prod.snd (List.inj_on_of_nodup_map h hv hw rfl)

/-- The position of a rectangle is unique. -/
theorem Keyed.index_eq {t : T} (h : Keyed t) {i j : Nat} {p q : Extent × V}
    (hi : (entries t)[i]? = some p) (hj : (entries t)[j]? = some q) (hpq : p.1 = q.1) : i = j := by
  have hkey : ((entries t).map Prod.fst)[i]? = ((entries t).map Prod.fst)[j]? := by
    rw [List.getElem?_map, List.getElem?_map, hi, hj, Option.map_some, Option.map_some, hpq]
  have hlt : i < ((entries t).map Prod.fst).length := by
    rw [List.length_map]
    exact (List.getElem?_eq_some_iff.mp hi).1
  exact (List.getElem?_inj hlt h).mp hkey

theorem keyed_empty : Keyed (empty : T) := by
  rw [Keyed, entries_empty]
  exact List.nodup_nil

theorem mem_entries_insert {t : T} {e : Extent} {v : V} {p : Extent × V} :
    p ∈ entries (insert t e v) ↔ p = (e, v) ∨ p ∈ entries t := by
  rw [(entries_insert t e v).mem_iff, List.mem_cons]

/-- Inserting keeps the index keyed when the rectangle is new. -/
theorem Keyed.insert {t : T} (h : Keyed t) {e : Extent} (he : ∀ v, (e, v) ∉ entries t) (v : V) :
    Keyed (insert t e v) := by
  rw [Keyed, ((entries_insert t e v).map _).nodup_iff, List.map_cons, List.nodup_cons]
  refine ⟨?_, h⟩
  rw [List.mem_map]
  rintro ⟨⟨e', w⟩, hw, rfl⟩
  exact he w hw

theorem Keyed.assign {t : T} (h : Keyed t) (i : Nat) (v : V) : Keyed (assign t i v) := by
  have heq : (entries (RTree.assign t i v)).map Prod.fst = (entries t).map Prod.fst := by
    rw [entries_assign]
    refine List.ext_getElem? fun j ↦ ?_
    simp only [List.getElem?_map, List.getElem?_modify]
    split <;> cases (entries t)[j]? <;> rfl
  rwa [Keyed, heq]

/-- Writing through a position changes the entry there and no other. -/
theorem Keyed.mem_entries_assign {t : T} (h : Keyed t) {i : Nat} {e : Extent} {w : V}
    (hi : (entries t)[i]? = some (e, w)) {v : V} {p : Extent × V} :
    p ∈ entries (RTree.assign t i v) ↔ p = (e, v) ∨ (p.1 ≠ e ∧ p ∈ entries t) := by
  rw [entries_assign, List.mem_iff_getElem?]
  simp only [List.getElem?_modify]
  constructor
  · rintro ⟨j, hj⟩
    split at hj
    case isTrue hij =>
      subst hij
      rw [hi] at hj
      exact .inl (Option.some.inj hj).symm
    case isFalse hij =>
      have hj' : (entries t)[j]? = some p := by simpa using hj
      exact .inr ⟨fun hp ↦ hij (h.index_eq hi hj' hp.symm), List.mem_of_getElem? hj'⟩
  · rintro (rfl | ⟨hp, hmem⟩)
    · exact ⟨i, by simp [hi]⟩
    · obtain ⟨j, hj⟩ := List.mem_iff_getElem?.mp hmem
      refine ⟨j, ?_⟩
      have hij : i ≠ j := by
        rintro rfl
        rw [hi, Option.some.injEq] at hj
        exact hp (hj ▸ rfl)
      simpa [hij] using hj

theorem Keyed.erase {t : T} (h : Keyed t) (i : Nat) : Keyed (erase t i) := by
  rw [Keyed, ((entries_erase t i).map _).nodup_iff]
  exact List.Nodup.sublist ((List.eraseIdx_sublist _ _).map _) h

/-- Erasing a position removes the entry there and no other. -/
theorem Keyed.mem_entries_erase {t : T} (h : Keyed t) {i : Nat} {e : Extent} {w : V}
    (hi : (entries t)[i]? = some (e, w)) {p : Extent × V} :
    p ∈ entries (RTree.erase t i) ↔ p.1 ≠ e ∧ p ∈ entries t := by
  rw [(entries_erase t i).mem_iff, List.mem_eraseIdx_iff_getElem?]
  constructor
  · rintro ⟨j, hji, hj⟩
    exact ⟨fun hp ↦ hji (h.index_eq hj hi hp), List.mem_of_getElem? hj⟩
  · rintro ⟨hne, hp⟩
    obtain ⟨j, hj⟩ := List.mem_iff_getElem?.mp hp
    refine ⟨j, ?_, hj⟩
    rintro rfl
    rw [hi, Option.some.injEq] at hj
    exact hne (hj ▸ rfl)

/-- The first position a match search finds, with the entry there. -/
theorem matchSearch_cons {t : T} {q : Extent} {i : Nat} {l : List Nat}
    (h : matchSearch t q = i :: l) : ∃ v, (entries t)[i]? = some (q, v) := by
  obtain ⟨⟨e, v⟩, hi, rfl⟩ := mem_matchSearch.mp (h ▸ List.mem_cons_self)
  exact ⟨v, hi⟩

/-- A match search that finds nothing proves that there is nothing. -/
theorem matchSearch_nil {t : T} {q : Extent} (h : matchSearch t q = []) (v : V) :
    (q, v) ∉ entries t := by
  intro hv
  obtain ⟨i, hi⟩ := List.mem_iff_getElem?.mp hv
  have hmem : i ∈ matchSearch t q := mem_matchSearch.mpr ⟨(q, v), hi, rfl⟩
  rw [h] at hmem
  exact List.not_mem_nil hmem

end RTree

/-- The index that stores its entries in a list, the newest one first. -/
abbrev ListTree (V : Type v) := List (Extent × V)

namespace ListTree

variable {V : Type v}

/-- The positions of the entries whose rectangle satisfies `p`. -/
def search (p : Extent → Bool) (t : ListTree V) : List Nat :=
  (List.range t.length).filter fun i ↦ (t[i]?).any fun e ↦ p e.1

theorem mem_search {p : Extent → Bool} {t : ListTree V} {i : Nat} :
    i ∈ search p t ↔ ∃ e, t[i]? = some e ∧ p e.1 = true := by
  rw [search, List.mem_filter, List.mem_range, Option.any_eq_true]
  constructor
  · exact fun h ↦ h.2
  · rintro ⟨e, he, hp⟩
    exact ⟨(List.getElem?_eq_some_iff.mp he).1, e, he, hp⟩

instance instRTree : RTree (ListTree V) V where
  empty := []
  entries t := t
  insert t e v := (e, v) :: t
  assign t i v := t.modify i fun p ↦ (p.1, v)
  erase t i := t.eraseIdx i
  overlapSearch t q := search (fun e ↦ decide (e.Intersects q)) t
  matchSearch t q := search (fun e ↦ decide (e = q)) t
  entries_empty := rfl
  entries_insert _ _ _ := List.Perm.refl _
  entries_assign _ _ _ := rfl
  entries_erase _ _ := List.Perm.refl _
  mem_overlapSearch := by intros; simp [mem_search]
  mem_matchSearch := by intros; simp [mem_search]

end ListTree

end Ixion.Lib
