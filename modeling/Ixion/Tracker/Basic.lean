import Ixion.Error
import Ixion.Lib.Loop

/-!
# The dirty cell tracker

A formula cell *tracks* the cells it refers to: the tracker keeps, for each sheet
and each rectangle on it, the set of the ranges that listen to that rectangle.
Besides there is a set of volatile ranges, which are dirty whenever anything is.

The grids are spatial indexes and the sets of listeners hash sets; both are used
through their interfaces (`RTree`, `UnorderedSet`).  What the tracker stands for
is a relation, `Tracked`, and `add` and `remove` add one pair for each sheet of
the destination to it, or remove it: `tracked_add`, `tracked_remove`.
-/

namespace Ixion

open Lib UnorderedSet

/-- The tracker: one spatial index of listeners for each sheet, and the volatile
ranges. -/
structure DirtyCellTracker (S T : Type) where
  grids : List T
  volatileCells : S

namespace DirtyCellTracker

variable {S T : Type} [UnorderedSet S AbsRange] [RTree T S]

/-- A tracker that tracks nothing. -/
def new : DirtyCellTracker S T := ⟨[], empty⟩

/-- The index of a sheet, if there is one.  A negative sheet number is a huge one
when it is converted to an index. -/
def fetchGrid (t : DirtyCellTracker S T) (sheet : Int) : Option T :=
  if 0 ≤ sheet then t.grids[sheet.toNat]? else none

/-- The grids, extended so that there is one for the sheet. -/
def fetchGridOrResize (t : DirtyCellTracker S T) (sheet : Int) : List T :=
  t.grids ++ List.replicate (sheet.toNat + 1 - t.grids.length) RTree.empty

/-! ## Adding and removing -/

/-- The checks that adding and removing have in common, with the messages of the
exceptions. -/
def checkRanges (src dest : AbsRange) (sourceMsg destMsg unsetMsg : String) : Except Exn Unit :=
  if ¬ src.valid ∨ src.first.sheet ≠ src.last.sheet then throw (.invalidArgument sourceMsg)
  else if ¬ dest.valid then throw (.invalidArgument destMsg)
  else if dest.allColumns ∨ dest.allRows then throw (.invalidArgument unsetMsg)
  else return ()

/-- Make `src` a listener of a rectangle. -/
def listen (src : AbsRange) (searchBox : Extent) (tree : T) : T :=
  match RTree.matchSearch tree searchBox with
  | [] => RTree.insert tree searchBox (insert empty src)
  | i :: _ =>
    match (RTree.entries tree)[i]? with
    | some (_, listener) => RTree.assign tree i (insert listener src)
    | none => tree

/-- `src` is no listener of a rectangle any more; the last listener takes the
rectangle with it. -/
def unlisten (src : AbsRange) (searchBox : Extent) (tree : T) : T :=
  match RTree.matchSearch tree searchBox with
  | [] => tree
  | i :: _ =>
    match (RTree.entries tree)[i]? with
    | some (_, listener) =>
      let listener := erase listener src
      let tree := RTree.assign tree i listener
      if isEmpty listener then RTree.erase tree i else tree
    | none => tree

/-- Add a tracking relationship on one sheet. -/
def addOnSheet (src dest : AbsRange) (t : DirtyCellTracker S T) (sheet : Int) :
    DirtyCellTracker S T :=
  { t with grids := (t.fetchGridOrResize sheet).modify sheet.toNat (listen src dest.extent) }

/-- Remove a tracking relationship on one sheet. -/
def removeOnSheet (src dest : AbsRange) (t : DirtyCellTracker S T) (sheet : Int) :
    DirtyCellTracker S T :=
  { t with grids := t.grids.modify sheet.toNat (unlisten src dest.extent) }

/-- Add a tracking relationship on all sheets of the destination. -/
def withPairs (t : DirtyCellTracker S T) (src dest : AbsRange) : DirtyCellTracker S T :=
  (countUp dest.first.sheet dest.last.sheet).foldl (addOnSheet src dest) t

/-- Remove a tracking relationship on all sheets of the destination. -/
def withoutPairs (t : DirtyCellTracker S T) (src dest : AbsRange) : DirtyCellTracker S T :=
  (countUp dest.first.sheet dest.last.sheet).foldl (removeOnSheet src dest) t

/-- Add a tracking relationship from a source range to a destination range. -/
def add (t : DirtyCellTracker S T) (src dest : AbsRange) :
    Except Exn (DirtyCellTracker S T) := do
  checkRanges src dest
    s!"dirty_cell_tracker::add: invalid source range: src={src.print}"
    s!"dirty_cell_tracker::add: invalid destination range: src={src.print}; dest={dest.print}"
    s!"dirty_cell_tracker::add: unset column or row range is not allowed {dest.print}"
  return t.withPairs src dest

/-- Remove a tracking relationship.  Nothing happens where there is none. -/
def remove (t : DirtyCellTracker S T) (src dest : AbsRange) :
    Except Exn (DirtyCellTracker S T) := do
  -- the message for a bad source range names the other operation
  checkRanges src dest
    s!"dirty_cell_tracker::add: invalid source range: src={src.print}"
    s!"dirty_cell_tracker::remove: invalid destination range: src={src.print}; dest={dest.print}"
    s!"dirty_cell_tracker::remove: unset column or row range is not allowed {dest.print}"
  return t.withoutPairs src dest

/-- Register a range as volatile. -/
def addVolatile (t : DirtyCellTracker S T) (pos : AbsRange) : DirtyCellTracker S T :=
  { t with volatileCells := insert t.volatileCells pos }

/-- Remove a range from the volatile ones. -/
def removeVolatile (t : DirtyCellTracker S T) (pos : AbsRange) : DirtyCellTracker S T :=
  { t with volatileCells := erase t.volatileCells pos }

/-! ## What is tracked -/

/-- In an index, `src` listens to a rectangle. -/
def Listens (tree : T) (e : Extent) (src : AbsRange) : Prop :=
  ∃ listener, (e, listener) ∈ RTree.entries tree ∧ src ∈ toList listener

/-- On a sheet, `src` tracks a rectangle. -/
def Tracked (t : DirtyCellTracker S T) (sheet : Int) (e : Extent) (src : AbsRange) : Prop :=
  ∃ tree, t.fetchGrid sheet = some tree ∧ Listens tree e src

/-- The ranges that may be tracked: a source on one sheet, and a destination with
its corners in order which is not a whole row or column. -/
structure Trackable (src dest : AbsRange) : Prop where
  src_valid : src.valid = true
  src_sheet : src.first.sheet = src.last.sheet
  dest_valid : dest.valid = true
  not_allColumns : dest.allColumns = false
  not_allRows : dest.allRows = false

/-- An index in order: one entry for each rectangle, each with a listener. -/
structure TreeWF (tree : T) : Prop where
  keyed : RTree.Keyed tree
  listener : ∀ p ∈ RTree.entries tree, isEmpty p.2 = false

/-- A tracker whose indexes are in order. -/
def WF (t : DirtyCellTracker S T) : Prop := ∀ tree ∈ t.grids, TreeWF tree

/-! ## One index -/

theorem treeWF_empty : TreeWF (RTree.empty : T) where
  keyed := RTree.keyed_empty
  listener p hp := by
    rw [RTree.entries_empty] at hp
    exact absurd hp List.not_mem_nil

theorem not_listens_empty {e : Extent} {src : AbsRange} : ¬ Listens (RTree.empty : T) e src := by
  rintro ⟨l, hl, _⟩
  rw [RTree.entries_empty] at hl
  exact List.not_mem_nil hl

theorem treeWF_listen {tree : T} (h : TreeWF tree) (src : AbsRange) (box : Extent) :
    TreeWF (listen src box tree) := by
  rw [listen]
  split
  case h_1 hs =>
    refine ⟨h.keyed.insert (RTree.matchSearch_nil hs) _, fun p hp ↦ ?_⟩
    rcases RTree.mem_entries_insert.mp hp with rfl | hp
    · exact isEmpty_eq_false_iff.mpr ⟨src, mem_toList_insert.mpr (.inl rfl)⟩
    · exact h.listener p hp
  case h_2 i _ hs =>
    obtain ⟨l, hl⟩ := RTree.matchSearch_cons hs
    simp only [hl]
    refine ⟨h.keyed.assign i _, fun p hp ↦ ?_⟩
    rcases (h.keyed.mem_entries_assign hl).mp hp with rfl | ⟨_, hp⟩
    · exact isEmpty_eq_false_iff.mpr ⟨src, mem_toList_insert.mpr (.inl rfl)⟩
    · exact h.listener p hp

theorem listens_listen {tree : T} (h : TreeWF tree) {src s : AbsRange} {box e : Extent} :
    Listens (listen src box tree) e s ↔ (s = src ∧ e = box) ∨ Listens tree e s := by
  rw [listen]
  split
  case h_1 hs =>
    simp only [Listens, RTree.mem_entries_insert, Prod.mk.injEq]
    constructor
    · rintro ⟨l, ⟨rfl, rfl⟩ | hl, hm⟩
      · rw [mem_toList_insert, toList_empty] at hm
        exact .inl ⟨hm.resolve_right List.not_mem_nil, rfl⟩
      · exact .inr ⟨l, hl, hm⟩
    · rintro (⟨rfl, rfl⟩ | ⟨l, hl, hm⟩)
      · exact ⟨_, .inl ⟨rfl, rfl⟩, mem_toList_insert.mpr (.inl rfl)⟩
      · exact ⟨l, .inr hl, hm⟩
  case h_2 i _ hs =>
    obtain ⟨l, hl⟩ := RTree.matchSearch_cons hs
    simp only [hl, Listens, h.keyed.mem_entries_assign hl, Prod.mk.injEq]
    constructor
    · rintro ⟨l', ⟨rfl, rfl⟩ | ⟨_, hl'⟩, hm⟩
      · rcases mem_toList_insert.mp hm with rfl | hm
        · exact .inl ⟨rfl, rfl⟩
        · exact .inr ⟨l, List.mem_of_getElem? hl, hm⟩
      · exact .inr ⟨l', hl', hm⟩
    · rintro (⟨rfl, rfl⟩ | ⟨l', hl', hm⟩)
      · exact ⟨_, .inl ⟨rfl, rfl⟩, mem_toList_insert.mpr (.inl rfl)⟩
      · by_cases he : e = box
        · subst he
          have hll : l' = l := h.keyed.eq_of_mem hl' (List.mem_of_getElem? hl)
          exact ⟨_, .inl ⟨rfl, rfl⟩, mem_toList_insert.mpr (.inr (hll ▸ hm))⟩
        · exact ⟨l', .inr ⟨he, hl'⟩, hm⟩

theorem treeWF_unlisten {tree : T} (h : TreeWF tree) (src : AbsRange) (box : Extent) :
    TreeWF (unlisten src box tree) := by
  rw [unlisten]
  split
  case h_1 => exact h
  case h_2 i _ hs =>
    obtain ⟨l, hl⟩ := RTree.matchSearch_cons hs
    simp only [hl]
    have hassign := h.keyed.assign i (erase l src)
    have hget : (RTree.entries (RTree.assign tree i (erase l src)))[i]? =
        some (box, erase l src) := by
      simp [RTree.entries_assign, hl]
    split
    case isTrue =>
      refine ⟨hassign.erase i, fun p hp ↦ ?_⟩
      obtain ⟨hne, hp⟩ := (hassign.mem_entries_erase hget).mp hp
      rcases (h.keyed.mem_entries_assign hl).mp hp with rfl | ⟨_, hp⟩
      · exact absurd rfl hne
      · exact h.listener p hp
    case isFalse hne =>
      refine ⟨hassign, fun p hp ↦ ?_⟩
      rcases (h.keyed.mem_entries_assign hl).mp hp with rfl | ⟨_, hp⟩
      · simpa using hne
      · exact h.listener p hp

theorem listens_unlisten {tree : T} (h : TreeWF tree) {src s : AbsRange} {box e : Extent} :
    Listens (unlisten src box tree) e s ↔ ¬ (s = src ∧ e = box) ∧ Listens tree e s := by
  rw [unlisten]
  split
  case h_1 hs =>
    refine ⟨fun hl ↦ ⟨?_, hl⟩, And.right⟩
    rintro ⟨_, rfl⟩
    obtain ⟨l, hl, _⟩ := hl
    exact RTree.matchSearch_nil hs l hl
  case h_2 i _ hs =>
    obtain ⟨l, hl⟩ := RTree.matchSearch_cons hs
    simp only [hl]
    have hassign := h.keyed.assign i (erase l src)
    have hget : (RTree.entries (RTree.assign tree i (erase l src)))[i]? =
        some (box, erase l src) := by
      simp [RTree.entries_assign, hl]
    -- the entry for the box, after the assignment, has every listener but `src`
    have key : Listens (RTree.assign tree i (erase l src)) e s ↔
        ¬ (s = src ∧ e = box) ∧ Listens tree e s := by
      simp only [Listens, h.keyed.mem_entries_assign hl, Prod.mk.injEq]
      constructor
      · rintro ⟨l', ⟨rfl, rfl⟩ | ⟨hne, hl'⟩, hm⟩
        · obtain ⟨hs', hm⟩ := mem_toList_erase.mp hm
          exact ⟨fun hc ↦ hs' hc.1, l, List.mem_of_getElem? hl, hm⟩
        · exact ⟨fun hc ↦ hne hc.2, l', hl', hm⟩
      · rintro ⟨hn, l', hl', hm⟩
        by_cases he : e = box
        · subst he
          have hll : l' = l := h.keyed.eq_of_mem hl' (List.mem_of_getElem? hl)
          exact ⟨_, .inl ⟨rfl, rfl⟩, mem_toList_erase.mpr ⟨fun hc ↦ hn ⟨hc, rfl⟩, hll ▸ hm⟩⟩
        · exact ⟨l', .inr ⟨he, hl'⟩, hm⟩
    split
    case isTrue hempty =>
      rw [← key]
      constructor
      · rintro ⟨l', hl', hm⟩
        exact ⟨l', ((hassign.mem_entries_erase hget).mp hl').2, hm⟩
      · rintro ⟨l', hl', hm⟩
        refine ⟨l', (hassign.mem_entries_erase hget).mpr ⟨?_, hl'⟩, hm⟩
        rintro rfl
        have hll : l' = erase l src := hassign.eq_of_mem hl' (List.mem_of_getElem? hget)
        exact isEmpty_iff.mp hempty s (hll ▸ hm)
    case isFalse => exact key

/-! ## One sheet -/

/-- The index of a sheet, an empty one where there is none yet. -/
def grid (t : DirtyCellTracker S T) (n : Nat) : T := (t.grids[n]?).getD RTree.empty

theorem tracked_iff {t : DirtyCellTracker S T} {sheet : Int} {e : Extent} {src : AbsRange} :
    t.Tracked sheet e src ↔ 0 ≤ sheet ∧ Listens (t.grid sheet.toNat) e src := by
  rw [Tracked, fetchGrid, grid]
  by_cases hs : 0 ≤ sheet
  · rw [if_pos hs]
    cases t.grids[sheet.toNat]? with
    | none => simpa [hs] using not_listens_empty
    | some tree => simp [hs]
  · simp [hs]

theorem WF.grid {t : DirtyCellTracker S T} (h : t.WF) (n : Nat) : TreeWF (t.grid n) := by
  rw [DirtyCellTracker.grid]
  cases hn : t.grids[n]? with
  | none => exact treeWF_empty
  | some tree => exact h tree (List.mem_of_getElem? hn)

theorem WF.addOnSheet {t : DirtyCellTracker S T} (h : t.WF) (src dest : AbsRange) (sheet : Int) :
    (t.addOnSheet src dest sheet).WF := by
  intro tree htree
  obtain ⟨n, hn⟩ := List.mem_iff_getElem?.mp htree
  rw [DirtyCellTracker.addOnSheet, List.getElem?_modify, Option.map_eq_map, Option.map_eq_some_iff]
    at hn
  obtain ⟨tree', hn', rfl⟩ := hn
  have h' : TreeWF tree' := by
    rcases List.mem_append.mp (List.mem_of_getElem? hn') with hm | hm
    · exact h tree' hm
    · rw [List.eq_of_mem_replicate hm]
      exact treeWF_empty
  split
  · exact treeWF_listen h' src _
  · exact h'

theorem WF.removeOnSheet {t : DirtyCellTracker S T} (h : t.WF) (src dest : AbsRange)
    (sheet : Int) : (t.removeOnSheet src dest sheet).WF := by
  intro tree htree
  obtain ⟨n, hn⟩ := List.mem_iff_getElem?.mp htree
  rw [DirtyCellTracker.removeOnSheet, List.getElem?_modify, Option.map_eq_map,
    Option.map_eq_some_iff] at hn
  obtain ⟨tree', hn', rfl⟩ := hn
  have h' : TreeWF tree' := h tree' (List.mem_of_getElem? hn')
  split
  · exact treeWF_unlisten h' src _
  · exact h'

theorem grid_addOnSheet (t : DirtyCellTracker S T) (src dest : AbsRange) (sheet : Int) (n : Nat) :
    (t.addOnSheet src dest sheet).grid n =
      if sheet.toNat = n then listen src dest.extent (t.grid n) else t.grid n := by
  have hpad : ((t.fetchGridOrResize sheet)[n]?).getD RTree.empty = t.grid n := by
    rw [fetchGridOrResize, List.getElem?_append, grid]
    split
    case isTrue => rfl
    case isFalse hn =>
      rw [List.getElem?_replicate, List.getElem?_eq_none (by omega)]
      split <;> rfl
  rw [grid, addOnSheet, List.getElem?_modify]
  split
  case isTrue hn =>
    subst hn
    have hlt : sheet.toNat < (t.fetchGridOrResize sheet).length := by
      rw [fetchGridOrResize, List.length_append, List.length_replicate]
      omega
    rw [← hpad, List.getElem?_eq_getElem hlt, Option.map_eq_map, Option.map_some,
      Option.getD_some, Option.getD_some]
  case isFalse =>
    rw [← hpad, Option.map_eq_map, Option.map_id']

theorem grid_removeOnSheet (t : DirtyCellTracker S T) (src dest : AbsRange) (sheet : Int)
    (n : Nat) : (t.removeOnSheet src dest sheet).grid n =
      if sheet.toNat = n ∧ n < t.grids.length then unlisten src dest.extent (t.grid n)
      else t.grid n := by
  rw [grid, removeOnSheet, List.getElem?_modify, grid]
  by_cases hlt : n < t.grids.length
  · rw [List.getElem?_eq_getElem hlt, Option.map_eq_map, Option.map_some]
    split <;> simp [*]
  · rw [List.getElem?_eq_none (by omega), Option.map_eq_map, Option.map_none, if_neg (by omega)]

theorem tracked_addOnSheet {t : DirtyCellTracker S T} (h : t.WF) {src dest s : AbsRange}
    {sheet sheet' : Int} (hs : 0 ≤ sheet) {e : Extent} :
    (t.addOnSheet src dest sheet).Tracked sheet' e s ↔
      (s = src ∧ e = dest.extent ∧ sheet' = sheet) ∨ t.Tracked sheet' e s := by
  rw [tracked_iff, tracked_iff, grid_addOnSheet]
  split
  case isTrue heq =>
    rw [listens_listen (h.grid _)]
    have hiff : 0 ≤ sheet' ↔ sheet' = sheet := by omega
    rw [hiff]
    tauto
  case isFalse hne =>
    have hne' : sheet' ≠ sheet := by rintro rfl; exact hne rfl
    tauto

theorem tracked_removeOnSheet {t : DirtyCellTracker S T} (h : t.WF) {src dest s : AbsRange}
    {sheet sheet' : Int} (hs : 0 ≤ sheet) {e : Extent} :
    (t.removeOnSheet src dest sheet).Tracked sheet' e s ↔
      ¬ (s = src ∧ e = dest.extent ∧ sheet' = sheet) ∧ t.Tracked sheet' e s := by
  rw [tracked_iff, tracked_iff, grid_removeOnSheet]
  split
  case isTrue heq =>
    rw [listens_unlisten (h.grid _)]
    have hiff : 0 ≤ sheet' ↔ sheet' = sheet := by omega
    rw [hiff]
    tauto
  case isFalse hne =>
    refine ⟨fun hl ↦ ⟨?_, hl⟩, And.right⟩
    rintro ⟨_, _, rfl⟩
    -- beyond the grids there is no listener
    rw [grid, List.getElem?_eq_none (by omega)] at hl
    exact not_listens_empty hl.2

/-! ## All sheets of the destination -/

theorem wf_foldl_addOnSheet (src dest : AbsRange) (sheets : List Int) {t : DirtyCellTracker S T}
    (h : t.WF) : (sheets.foldl (addOnSheet src dest) t).WF := by
  induction sheets generalizing t with
  | nil => exact h
  | cons sheet sheets ih => exact ih (h.addOnSheet src dest sheet)

theorem wf_foldl_removeOnSheet (src dest : AbsRange) (sheets : List Int)
    {t : DirtyCellTracker S T} (h : t.WF) : (sheets.foldl (removeOnSheet src dest) t).WF := by
  induction sheets generalizing t with
  | nil => exact h
  | cons sheet sheets ih => exact ih (h.removeOnSheet src dest sheet)

theorem tracked_foldl_addOnSheet {src dest s : AbsRange} {sheet : Int} {e : Extent}
    (sheets : List Int) (hs : ∀ i ∈ sheets, 0 ≤ i) {t : DirtyCellTracker S T} (h : t.WF) :
    (sheets.foldl (addOnSheet src dest) t).Tracked sheet e s ↔
      (s = src ∧ e = dest.extent ∧ sheet ∈ sheets) ∨ t.Tracked sheet e s := by
  induction sheets generalizing t with
  | nil => simp
  | cons i sheets ih =>
    rw [List.foldl_cons, ih (fun j hj ↦ hs j (List.mem_cons_of_mem _ hj)) (h.addOnSheet src dest i),
      tracked_addOnSheet h (hs i List.mem_cons_self), List.mem_cons]
    tauto

theorem tracked_foldl_removeOnSheet {src dest s : AbsRange} {sheet : Int} {e : Extent}
    (sheets : List Int) (hs : ∀ i ∈ sheets, 0 ≤ i) {t : DirtyCellTracker S T} (h : t.WF) :
    (sheets.foldl (removeOnSheet src dest) t).Tracked sheet e s ↔
      ¬ (s = src ∧ e = dest.extent ∧ sheet ∈ sheets) ∧ t.Tracked sheet e s := by
  induction sheets generalizing t with
  | nil => simp
  | cons i sheets ih =>
    rw [List.foldl_cons, ih (fun j hj ↦ hs j (List.mem_cons_of_mem _ hj))
        (h.removeOnSheet src dest i),
      tracked_removeOnSheet h (hs i List.mem_cons_self), List.mem_cons]
    tauto

theorem volatileCells_foldl_addOnSheet (src dest : AbsRange) (sheets : List Int)
    (t : DirtyCellTracker S T) :
    (sheets.foldl (addOnSheet src dest) t).volatileCells = t.volatileCells := by
  induction sheets generalizing t with
  | nil => rfl
  | cons i sheets ih => exact ih _

theorem volatileCells_foldl_removeOnSheet (src dest : AbsRange) (sheets : List Int)
    (t : DirtyCellTracker S T) :
    (sheets.foldl (removeOnSheet src dest) t).volatileCells = t.volatileCells := by
  induction sheets generalizing t with
  | nil => rfl
  | cons i sheets ih => exact ih _

/-! ## The operations -/

theorem checkRanges_eq_ok_iff {src dest : AbsRange} {m₁ m₂ m₃ : String} :
    checkRanges src dest m₁ m₂ m₃ = .ok () ↔ Trackable src dest := by
  rw [checkRanges]
  split
  case isTrue h =>
    refine ⟨fun hc ↦ (nomatch hc), fun ⟨h₁, h₂, _, _, _⟩ ↦ ?_⟩
    exact absurd h (by simp [h₁, h₂])
  case isFalse h =>
    split
    case isTrue hd =>
      exact ⟨fun hc ↦ (nomatch hc), fun ht ↦ absurd ht.dest_valid hd⟩
    case isFalse hd =>
      split
      case isTrue hu =>
        refine ⟨fun hc ↦ (nomatch hc), fun ht ↦ ?_⟩
        exact absurd hu (by simp [ht.not_allColumns, ht.not_allRows])
      case isFalse hu =>
        rw [not_or, not_not, not_not] at h
        rw [not_or, Bool.not_eq_true, Bool.not_eq_true] at hu
        exact ⟨fun _ ↦ ⟨h.1, h.2, not_not.mp hd, hu.1, hu.2⟩, fun _ ↦ rfl⟩

omit [UnorderedSet S AbsRange] [RTree T S] in
theorem Trackable.sheets_nonneg {src dest : AbsRange} (h : Trackable src dest) :
    ∀ i ∈ countUp dest.first.sheet dest.last.sheet, 0 ≤ i := by
  intro i hi
  have hfirst := (AbsRange.valid_iff.mp h.dest_valid).1
  rw [AbsAddress.valid, decide_eq_true_eq] at hfirst
  have := (mem_countUp.mp hi).1
  omega

/-- Adding succeeds exactly on what may be tracked. -/
theorem add_eq_ok_iff {t t' : DirtyCellTracker S T} {src dest : AbsRange} :
    t.add src dest = .ok t' ↔ Trackable src dest ∧ t' = t.withPairs src dest := by
  rw [add, ← checkRanges_eq_ok_iff]
  cases checkRanges src dest _ _ _ with
  | error e => exact ⟨fun h ↦ (nomatch h), fun h ↦ (nomatch h.1)⟩
  | ok _ => exact ⟨fun h ↦ ⟨rfl, (Except.ok.inj h).symm⟩, fun h ↦ h.2 ▸ rfl⟩

/-- Removing succeeds exactly on what may be tracked, whether or not it is. -/
theorem remove_eq_ok_iff {t t' : DirtyCellTracker S T} {src dest : AbsRange} :
    t.remove src dest = .ok t' ↔ Trackable src dest ∧ t' = t.withoutPairs src dest := by
  rw [remove, ← checkRanges_eq_ok_iff]
  cases checkRanges src dest _ _ _ with
  | error e => exact ⟨fun h ↦ (nomatch h), fun h ↦ (nomatch h.1)⟩
  | ok _ => exact ⟨fun h ↦ ⟨rfl, (Except.ok.inj h).symm⟩, fun h ↦ h.2 ▸ rfl⟩

/-- The pairs that a tracking relationship consists of. -/
def Pairs (src dest : AbsRange) (sheet : Int) (e : Extent) (s : AbsRange) : Prop :=
  s = src ∧ e = dest.extent ∧ dest.first.sheet ≤ sheet ∧ sheet ≤ dest.last.sheet

theorem tracked_withPairs {t : DirtyCellTracker S T} (h : t.WF) {src dest : AbsRange}
    (ht : Trackable src dest) {sheet : Int} {e : Extent} {s : AbsRange} :
    (t.withPairs src dest).Tracked sheet e s ↔ Pairs src dest sheet e s ∨ t.Tracked sheet e s := by
  rw [withPairs, tracked_foldl_addOnSheet _ ht.sheets_nonneg h, mem_countUp, Pairs]

theorem tracked_withoutPairs {t : DirtyCellTracker S T} (h : t.WF) {src dest : AbsRange}
    (ht : Trackable src dest) {sheet : Int} {e : Extent} {s : AbsRange} :
    (t.withoutPairs src dest).Tracked sheet e s ↔
      ¬ Pairs src dest sheet e s ∧ t.Tracked sheet e s := by
  rw [withoutPairs, tracked_foldl_removeOnSheet _ ht.sheets_nonneg h, mem_countUp, Pairs]

theorem WF.withPairs {t : DirtyCellTracker S T} (h : t.WF) (src dest : AbsRange) :
    (t.withPairs src dest).WF :=
  wf_foldl_addOnSheet src dest _ h

theorem WF.withoutPairs {t : DirtyCellTracker S T} (h : t.WF) (src dest : AbsRange) :
    (t.withoutPairs src dest).WF :=
  wf_foldl_removeOnSheet src dest _ h

@[simp] theorem volatileCells_withPairs (t : DirtyCellTracker S T) (src dest : AbsRange) :
    (t.withPairs src dest).volatileCells = t.volatileCells :=
  volatileCells_foldl_addOnSheet src dest _ t

@[simp] theorem volatileCells_withoutPairs (t : DirtyCellTracker S T) (src dest : AbsRange) :
    (t.withoutPairs src dest).volatileCells = t.volatileCells :=
  volatileCells_foldl_removeOnSheet src dest _ t

/-- After adding, the new pairs are tracked as well as the old ones. -/
theorem tracked_add {t t' : DirtyCellTracker S T} (h : t.WF) {src dest : AbsRange}
    (hadd : t.add src dest = .ok t') {sheet : Int} {e : Extent} {s : AbsRange} :
    t'.Tracked sheet e s ↔ Pairs src dest sheet e s ∨ t.Tracked sheet e s := by
  obtain ⟨ht, rfl⟩ := add_eq_ok_iff.mp hadd
  exact tracked_withPairs h ht

/-- After removing, the pairs are not tracked any more, and all others still
are. -/
theorem tracked_remove {t t' : DirtyCellTracker S T} (h : t.WF) {src dest : AbsRange}
    (hremove : t.remove src dest = .ok t') {sheet : Int} {e : Extent} {s : AbsRange} :
    t'.Tracked sheet e s ↔ ¬ Pairs src dest sheet e s ∧ t.Tracked sheet e s := by
  obtain ⟨ht, rfl⟩ := remove_eq_ok_iff.mp hremove
  exact tracked_withoutPairs h ht

/-! ## Several destinations -/

section

variable {β : Type} {src : AbsRange} {dest : β → AbsRange}

theorem WF.foldl_withPairs (l : List β) {t : DirtyCellTracker S T} (h : t.WF) :
    (l.foldl (fun t b ↦ t.withPairs src (dest b)) t).WF := by
  induction l generalizing t with
  | nil => exact h
  | cons b l ih => exact ih (h.withPairs src (dest b))

theorem tracked_foldl_withPairs {l : List β} (hl : ∀ b ∈ l, Trackable src (dest b))
    {t : DirtyCellTracker S T} (h : t.WF) {sheet : Int} {e : Extent} {s : AbsRange} :
    (l.foldl (fun t b ↦ t.withPairs src (dest b)) t).Tracked sheet e s ↔
      (∃ b ∈ l, Pairs src (dest b) sheet e s) ∨ t.Tracked sheet e s := by
  induction l generalizing t with
  | nil => simp
  | cons b l ih =>
    obtain ⟨hb, hl⟩ := List.forall_mem_cons.mp hl
    rw [List.foldl_cons, ih hl (h.withPairs src (dest b)), tracked_withPairs h hb,
      List.exists_mem_cons_iff, or_left_comm, or_assoc]

theorem tracked_foldl_withoutPairs {l : List β} (hl : ∀ b ∈ l, Trackable src (dest b))
    {t : DirtyCellTracker S T} (h : t.WF) {sheet : Int} {e : Extent} {s : AbsRange} :
    (l.foldl (fun t b ↦ t.withoutPairs src (dest b)) t).Tracked sheet e s ↔
      (¬ ∃ b ∈ l, Pairs src (dest b) sheet e s) ∧ t.Tracked sheet e s := by
  induction l generalizing t with
  | nil => simp
  | cons b l ih =>
    obtain ⟨hb, hl⟩ := List.forall_mem_cons.mp hl
    rw [List.foldl_cons, ih hl (h.withoutPairs src (dest b)), tracked_withoutPairs h hb,
      List.exists_mem_cons_iff, not_or, and_assoc, and_left_comm]

theorem volatileCells_foldl_withPairs (l : List β) (t : DirtyCellTracker S T) :
    (l.foldl (fun t b ↦ t.withPairs src (dest b)) t).volatileCells = t.volatileCells := by
  induction l generalizing t with
  | nil => rfl
  | cons b l ih => rw [List.foldl_cons, ih, volatileCells_withPairs]

theorem volatileCells_foldl_withoutPairs (l : List β) (t : DirtyCellTracker S T) :
    (l.foldl (fun t b ↦ t.withoutPairs src (dest b)) t).volatileCells = t.volatileCells := by
  induction l generalizing t with
  | nil => rfl
  | cons b l ih => rw [List.foldl_cons, ih, volatileCells_withoutPairs]

end

/-! ## Reachable trackers -/

/-- The trackers that a sequence of calls arrives at.  A call that throws leaves
the tracker as it was. -/
inductive Reachable : DirtyCellTracker S T → Prop where
  | new : Reachable new
  | add {t t' : DirtyCellTracker S T} {src dest : AbsRange} :
    Reachable t → t.add src dest = .ok t' → Reachable t'
  | remove {t t' : DirtyCellTracker S T} {src dest : AbsRange} :
    Reachable t → t.remove src dest = .ok t' → Reachable t'
  | addVolatile {t : DirtyCellTracker S T} (pos : AbsRange) :
    Reachable t → Reachable (t.addVolatile pos)
  | removeVolatile {t : DirtyCellTracker S T} (pos : AbsRange) :
    Reachable t → Reachable (t.removeVolatile pos)

/-- Every reachable tracker is in order. -/
theorem Reachable.wf {t : DirtyCellTracker S T} (h : t.Reachable) : t.WF := by
  induction h with
  | new => exact fun tree htree ↦ absurd htree List.not_mem_nil
  | add _ hadd ih => exact (add_eq_ok_iff.mp hadd).2 ▸ ih.withPairs _ _
  | remove _ hremove ih => exact (remove_eq_ok_iff.mp hremove).2 ▸ ih.withoutPairs _ _
  | addVolatile _ _ ih => exact ih
  | removeVolatile _ _ ih => exact ih

theorem Reachable.foldl_withPairs {β : Type} {src : AbsRange} {dest : β → AbsRange} (l : List β)
    (hl : ∀ b ∈ l, Trackable src (dest b)) {t : DirtyCellTracker S T} (h : t.Reachable) :
    (l.foldl (fun t b ↦ t.withPairs src (dest b)) t).Reachable := by
  induction l generalizing t with
  | nil => exact h
  | cons b l ih =>
    obtain ⟨hb, hl⟩ := List.forall_mem_cons.mp hl
    exact ih hl (.add h (add_eq_ok_iff.mpr ⟨hb, rfl⟩))

/-- In a reachable tracker every listener is a valid range on one sheet. -/
theorem Reachable.src_valid {t : DirtyCellTracker S T} (h : t.Reachable) {sheet : Int}
    {e : Extent} {s : AbsRange} (hs : t.Tracked sheet e s) :
    s.valid = true ∧ s.first.sheet = s.last.sheet := by
  induction h with
  | new =>
    rw [tracked_iff] at hs
    exact absurd hs.2 not_listens_empty
  | add ht hadd ih =>
    rcases (tracked_add ht.wf hadd).mp hs with hp | hs
    · obtain ⟨htr, _⟩ := add_eq_ok_iff.mp hadd
      exact hp.1 ▸ ⟨htr.src_valid, htr.src_sheet⟩
    · exact ih hs
  | remove ht hremove ih => exact ih ((tracked_remove ht.wf hremove).mp hs).2
  | addVolatile _ _ ih => exact ih hs
  | removeVolatile _ _ ih => exact ih hs

end DirtyCellTracker

end Ixion
