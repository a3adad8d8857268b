import Mathlib.Data.Finset.Card
import Mathlib.Data.Fintype.Card
import Mathlib.Data.List.Sort
import Mathlib.Logic.Relation
import Ixion.Lib.Exec

/-!
# Topological sort by depth-first search

`depth_first_search.hpp` sorts a set of values so that every value comes after
the ones it depends on.  The values are numbered; `visit` is the recursive search
that colors a value gray when it is entered and black when it is left, and hands
it to the output when it turns black.

On a graph with cycles no such order exists.  What the search still guarantees is
`Before`: where `i` depends on `j`, either `j` comes before `i`, or `j` in turn
depends on `i` (`run_spec`).
-/

namespace Ixion

open Lib Relation

variable {α : Type}

/-! ## Precedents -/

/-- Insert into a sorted set. -/
def setInsert [LinearOrder α] (a : α) (s : List α) : List α :=
  if a ∈ s then s else s.orderedInsert (· ≤ ·) a

@[simp] theorem mem_setInsert [LinearOrder α] {a b : α} {s : List α} :
    b ∈ setInsert a s ↔ b = a ∨ b ∈ s := by
  rw [setInsert]
  split
  case isTrue h => exact ⟨.inr, fun hb ↦ hb.elim (fun e ↦ e ▸ h) id⟩
  case isFalse => exact List.mem_orderedInsert (· ≤ ·)

/-- For each value the sorted set of the values it depends on. -/
structure Relations (α : Type) where
  map : α → Option (List α)

namespace Relations

/-- No relation. -/
def new : Relations α := ⟨fun _ ↦ none⟩

/-- Record that the first value depends on the second. -/
def insert [LinearOrder α] (rels : Relations α) (pre dep : α) : Relations α where
  map a := if a = pre then some (setInsert dep ((rels.map pre).getD [])) else rels.map a

/-- The first value is recorded to depend on the second. -/
def Depends (rels : Relations α) (a b : α) : Prop :=
  ∃ depends, rels.map a = some depends ∧ b ∈ depends

theorem not_depends_new {a b : α} : ¬ (new : Relations α).Depends a b := by
  rintro ⟨_, h, _⟩
  exact absurd h (by simp [new])

theorem depends_insert [LinearOrder α] (rels : Relations α) (pre dep a b : α) :
    (rels.insert pre dep).Depends a b ↔ (a = pre ∧ b = dep) ∨ rels.Depends a b := by
  rw [Depends, insert]
  by_cases ha : a = pre
  · subst ha
    simp only [if_true, Option.some.injEq, exists_eq_left', mem_setInsert, true_and, Depends]
    cases rels.map a <;> simp
  · simp [ha, Depends]

end Relations

/-! ## The search -/

/-- White values have not been visited, gray ones are being visited, black ones
are finished. -/
inductive CellColor where
  | white
  | gray
  | black
deriving DecidableEq, Repr

/-- How a search fails. -/
inductive DfsError where
  /-- `dfs_error` -/
  | message (msg : String)
  /-- The recursion is deeper than there are values. -/
  | tooDeep
deriving DecidableEq, Repr

/-- What is searched: the values, numbered by their positions, and which values
each of them depends on. -/
structure DepthFirstSearch (α : Type) where
  values : List α
  nodup : values.Nodup
  precedentMap : Relations α

namespace DepthFirstSearch

/-- The number of a value. -/
abbrev Index (d : DepthFirstSearch α) : Type := Fin d.values.length

/-- The colors of the values, and the values finished so far. -/
structure State (d : DepthFirstSearch α) where
  color : d.Index → CellColor
  sorted : List α

variable (d : DepthFirstSearch α)

/-- The value with a given number. -/
def node (i : d.Index) : α := d.values.get i

/-- The number of a value. -/
def getCellIndex [DecidableEq α] (p : α) : EStateM DfsError d.State d.Index :=
  match d.values.finIdxOf? p with
  | some i => return i
  | none => throw (.message "cell ptr to index mapping failed.")

variable {d}

/-- Color a value. -/
def State.setColor (s : d.State) (i : d.Index) (c : CellColor) : d.State :=
  { s with color := Function.update s.color i c }

/-- Color a value black and put it into the output. -/
def State.finish (s : d.State) (i : d.Index) : d.State :=
  { s.setColor i .black with sorted := s.sorted ++ [d.node i] }

variable (d)

/-- Visit a value that another one depends on, unless it has been visited. -/
def visitDepend [DecidableEq α] (visit : d.Index → EStateM DfsError d.State Unit) (dcell : α) :
    EStateM DfsError d.State Unit := do
  let dcellId ← d.getCellIndex dcell
  let s ← get
  if s.color dcellId = .white then visit dcellId

/-- Visit a value: first everything it depends on, then the value itself. -/
def visit [DecidableEq α] : Nat → d.Index → EStateM DfsError d.State Unit
  | 0, _ => throw .tooDeep
  | depth + 1, cellIndex => do
    modify fun s ↦ s.setColor cellIndex .gray
    match d.precedentMap.map (d.node cellIndex) with
    | none => pure ()
    | some depends => depends.forM (d.visitDepend (visit depth))
    modify fun s ↦ s.finish cellIndex

/-- Visit every value that has not been visited yet. -/
def visitAll [DecidableEq α] : EStateM DfsError d.State Unit :=
  (List.finRange d.values.length).forM fun i ↦ do
    let s ← get
    if s.color i = .white then d.visit d.values.length i

/-- Before the search every value is white. -/
def init : d.State := ⟨fun _ ↦ .white, []⟩

/-- Run the search.  A failure is caught here; what has been put into the output
until then stays. -/
def run [DecidableEq α] : Option DfsError × List α :=
  match d.visitAll d.init with
  | .ok _ s => (none, s.sorted)
  | .error e s => (some e, s.sorted)

/-! ## The graph that is searched -/

/-- One value depends on another, by their numbers. -/
def Edge (i j : d.Index) : Prop := d.precedentMap.Depends (d.node i) (d.node j)

/-- Everything that a value depends on is a value. -/
def Closed : Prop := ∀ i b, d.precedentMap.Depends (d.node i) b → b ∈ d.values

variable {d}

theorem node_injective : Function.Injective d.node := d.nodup.injective_get

theorem exists_node {a : α} (h : a ∈ d.values) : ∃ i, d.node i = a :=
  List.mem_iff_get.mp h

theorem node_mem (i : d.Index) : d.node i ∈ d.values := List.get_mem d.values i

/-- The search finds the number of every value. -/
theorem getCellIndex_node [DecidableEq α] (i : d.Index) (s : d.State) :
    d.getCellIndex (d.node i) s = .ok i s := by
  have h : d.values.finIdxOf? (d.node i) = some i := by
    refine List.finIdxOf?_eq_some_iff.mpr ⟨rfl, fun j hj hij ↦ ?_⟩
    exact hj.ne (node_injective hij)
  rw [getCellIndex, h]
  rfl

/-! ## What the search keeps true -/

/-- The values that are still white. -/
def State.whites (s : d.State) : Finset d.Index :=
  Finset.univ.filter fun i ↦ s.color i = .white

/-- The output holds the black values, each once; and whatever an element of the
output depends on comes before it or depends on it in turn. -/
structure State.Inv (s : d.State) : Prop where
  black : ∀ i, s.color i = .black ↔ d.node i ∈ s.sorted
  nodup : s.sorted.Nodup
  mem : ∀ a ∈ s.sorted, a ∈ d.values
  order : ∀ i l r, s.sorted = l ++ d.node i :: r →
    ∀ j, d.Edge i j → d.node j ∈ l ∨ ReflTransGen d.Edge j i

/-- What a part of the search does: it keeps the invariant, it leaves as many
values gray as there were, and the output only grows. -/
structure State.Grows (s s' : d.State) : Prop where
  inv : s'.Inv
  gray : ∀ i, s'.color i = .gray ↔ s.color i = .gray
  sorted : ∃ l, s'.sorted = s.sorted ++ l

theorem State.Grows.refl {s : d.State} (h : s.Inv) : s.Grows s :=
  ⟨h, fun _ ↦ .rfl, [], by rw [List.append_nil]⟩

theorem State.Grows.trans {s s' s'' : d.State} (h : s.Grows s') (h' : s'.Grows s'') :
    s.Grows s'' where
  inv := h'.inv
  gray i := (h'.gray i).trans (h.gray i)
  sorted := by
    obtain ⟨l, hl⟩ := h.sorted
    obtain ⟨l', hl'⟩ := h'.sorted
    exact ⟨l ++ l', by rw [hl', hl, List.append_assoc]⟩

/-- A black value stays black. -/
theorem State.Grows.black {s s' : d.State} (h : s.Grows s') (hs : s.Inv) {i : d.Index}
    (hi : s.color i = .black) : s'.color i = .black := by
  obtain ⟨l, hl⟩ := h.sorted
  rw [h.inv.black, hl, List.mem_append]
  exact .inl ((hs.black i).mp hi)

/-- A value that is not white never becomes white again. -/
theorem State.Grows.ne_white {s s' : d.State} (h : s.Grows s') (hs : s.Inv) {i : d.Index}
    (hi : s.color i ≠ .white) : s'.color i ≠ .white := by
  cases hc : s.color i with
  | white => exact absurd hc hi
  | gray => rw [(h.gray i).mpr hc]; exact nofun
  | black => rw [h.black hs hc]; exact nofun

theorem State.Grows.whites_card_le {s s' : d.State} (h : s.Grows s') (hs : s.Inv) :
    s'.whites.card ≤ s.whites.card := by
  refine Finset.card_le_card fun i hi ↦ ?_
  rw [whites, Finset.mem_filter] at hi ⊢
  refine ⟨hi.1, ?_⟩
  by_contra hne
  exact h.ne_white hs hne hi.2

/-! ### Entering and leaving a value -/

@[simp] theorem State.color_setColor_self (s : d.State) (i : d.Index) (c : CellColor) :
    (s.setColor i c).color i = c := Function.update_self ..

theorem State.color_setColor_of_ne (s : d.State) {i j : d.Index} (h : j ≠ i) (c : CellColor) :
    (s.setColor i c).color j = s.color j := Function.update_of_ne h ..

/-- Entering a white value keeps the invariant. -/
theorem State.Inv.enter {s : d.State} (h : s.Inv) {i : d.Index} (hi : s.color i = .white) :
    (s.setColor i .gray).Inv where
  black j := by
    by_cases hj : j = i
    · subst hj
      rw [color_setColor_self]
      refine ⟨nofun, fun hm ↦ ?_⟩
      rw [(h.black j).mpr hm] at hi
      exact absurd hi nofun
    · rw [color_setColor_of_ne s hj]
      exact h.black j
  nodup := h.nodup
  mem := h.mem
  order := h.order

/-- Entering a white value makes one white value less. -/
theorem State.whites_enter_card {s : d.State} {i : d.Index} (hi : s.color i = .white) :
    (s.setColor i .gray).whites.card < s.whites.card := by
  have hsub : (s.setColor i .gray).whites ⊆ s.whites := by
    intro j hj
    rw [whites, Finset.mem_filter] at hj ⊢
    by_cases hji : j = i
    · exact hji ▸ ⟨Finset.mem_univ _, hi⟩
    · rwa [color_setColor_of_ne s hji] at hj
  refine Finset.card_lt_card ((Finset.ssubset_iff_of_subset hsub).mpr ⟨i, ?_, ?_⟩)
  · exact Finset.mem_filter.mpr ⟨Finset.mem_univ _, hi⟩
  · rw [whites, Finset.mem_filter, color_setColor_self]
    exact fun h ↦ absurd h.2 nofun

/-- Leaving a value keeps the invariant: everything it depends on has been
visited, and what is still gray leads back to it. -/
theorem State.Inv.finish {s : d.State} (h : s.Inv) {i : d.Index} (hi : s.color i = .gray)
    (hpath : ∀ j, s.color j = .gray → ReflTransGen d.Edge j i)
    (hdone : ∀ j, d.Edge i j → s.color j ≠ .white) : (s.finish i).Inv where
  black j := by
    by_cases hj : j = i
    · subst hj
      simp [State.finish]
    · have hne : d.node j ≠ d.node i := fun hc ↦ hj (node_injective hc)
      simp only [State.finish, color_setColor_of_ne s hj, List.mem_append, List.mem_singleton, hne,
        or_false]
      exact h.black j
  nodup := by
    refine List.nodup_append.mpr ⟨h.nodup, List.nodup_singleton _, fun a ha b hb ↦ ?_⟩
    rw [List.mem_singleton] at hb
    rintro rfl
    rw [hb, ← h.black i, hi] at ha
    exact absurd ha nofun
  mem a ha := by
    rcases List.mem_append.mp ha with ha | ha
    · exact h.mem a ha
    · rw [List.mem_singleton.mp ha]
      exact node_mem i
  order k l r hlr j hkj := by
    rcases List.eq_nil_or_concat r with rfl | ⟨r', a, rfl⟩
    · -- the value that has just been put into the output
      obtain ⟨hl, hk⟩ := List.append_inj' hlr rfl
      have hki : k = i := (node_injective (List.singleton_inj.mp hk)).symm
      subst hki
      rw [← hl]
      cases hc : s.color j with
      | white => exact absurd hc (hdone j hkj)
      | gray => exact .inr (hpath j hc)
      | black => exact .inl ((h.black j).mp hc)
    · have hlr' : s.sorted ++ [d.node i] = (l ++ d.node k :: r') ++ [a] := by
        rw [List.concat_eq_append] at hlr
        rw [List.append_assoc, List.cons_append]
        exact hlr
      exact h.order k l r' (List.append_inj' hlr' rfl).1 j hkj

/-- Entering a value and leaving it later is one step that grows the output. -/
theorem State.Grows.finish {s s' : d.State} {i : d.Index} (hi : s.color i = .white)
    (hgrows : (s.setColor i .gray).Grows s') (hinv : (s'.finish i).Inv) :
    s.Grows (s'.finish i) where
  inv := hinv
  gray j := by
    by_cases hj : j = i
    · subst hj
      rw [hi, State.finish]
      simp
    · rw [State.finish]
      change (s'.setColor i .black).color j = .gray ↔ _
      rw [color_setColor_of_ne s' hj, hgrows.gray, color_setColor_of_ne s hj]
  sorted := by
    obtain ⟨l, hl⟩ := hgrows.sorted
    refine ⟨l ++ [d.node i], ?_⟩
    change s'.sorted ++ [d.node i] = _
    rw [hl, List.append_assoc]
    rfl

/-! ## The search succeeds -/

section

variable [DecidableEq α]

/-- What a visit of a white value does, when everything gray leads to it and the
recursion may still go as deep as there are white values. -/
def VisitSpec (d : DepthFirstSearch α) (depth : Nat) : Prop :=
  ∀ (i : d.Index) (s : d.State), s.color i = .white → s.whites.card ≤ depth → s.Inv →
    (∀ j, s.color j = .gray → ReflTransGen d.Edge j i) →
    wp (d.visit depth i) (fun _ s' ↦ s.Grows s' ∧ s'.color i = .black) (fun _ _ ↦ False) s

/-- Visiting in turn what a gray value `i` depends on. -/
theorem wp_visit_depends {depth : Nat} (hvisit : VisitSpec d depth) (hd : d.Closed) {i : d.Index}
    {depends : List α} (hdep : d.precedentMap.map (d.node i) = some depends) {s₀ : d.State}
    (hinv : s₀.Inv) (hcard : s₀.whites.card ≤ depth)
    (hpath : ∀ j, s₀.color j = .gray → ReflTransGen d.Edge j i) :
    wp (depends.forM (d.visitDepend (d.visit depth)))
      (fun _ s ↦ s₀.Grows s ∧ ∀ j, d.Edge i j → s.color j ≠ .white) (fun _ _ ↦ False) s₀ := by
  -- still to come are the dependencies that may be white
  let I (rest : List α) (s : d.State) : Prop :=
    s₀.Grows s ∧ rest ⊆ depends ∧ ∀ j, d.node j ∈ depends → d.node j ∉ rest → s.color j ≠ .white
  refine (wp_forM (I := I) ?_ ⟨.refl hinv, List.Subset.refl _, fun j hj hn ↦ absurd hj hn⟩).mono
    (fun _ s h ↦ ⟨h.1, fun j hj ↦ h.2.2 j ?_ List.not_mem_nil⟩) (fun _ _ h ↦ h)
  case refine_2 =>
    obtain ⟨depends', hdep', hm⟩ := hj
    rw [hdep, Option.some.injEq] at hdep'
    exact hdep' ▸ hm
  case refine_1 =>
    intro b rest s ⟨hgrows, hsub, hvisited⟩
    obtain ⟨hb, hrest⟩ := List.cons_subset.mp hsub
    have hedge : d.precedentMap.Depends (d.node i) b := ⟨depends, hdep, hb⟩
    obtain ⟨k, rfl⟩ := exists_node (hd i b hedge)
    rw [visitDepend, wp_bind, wp, getCellIndex_node]
    simp only [wp_bind, wp_get]
    split
    case isTrue hwhite =>
      have hgray : ∀ j, s.color j = .gray → ReflTransGen d.Edge j k := by
        intro j hj
        exact (hpath j ((hgrows.gray j).mp hj)).tail hedge
      have hle := (hgrows.whites_card_le hinv).trans hcard
      refine (hvisit k s hwhite hle hgrows.inv hgray).mono (fun _ s' h ↦ ?_) (fun _ _ h ↦ h)
      refine ⟨hgrows.trans h.1, hrest, fun j hj hn ↦ ?_⟩
      by_cases hjk : j = k
      · rw [hjk, h.2]; rintro ⟨⟩
      · refine h.1.ne_white hgrows.inv (hvisited j hj ?_)
        rw [List.mem_cons, not_or]
        exact ⟨fun hc ↦ hjk (node_injective hc), hn⟩
    case isFalse hne =>
      refine wp_pure.mpr ⟨hgrows, hrest, fun j hj hn ↦ ?_⟩
      by_cases hjk : j = k
      · exact hjk ▸ hne
      · refine hvisited j hj ?_
        rw [List.mem_cons, not_or]
        exact ⟨fun hc ↦ hjk (node_injective hc), hn⟩

theorem visitSpec (hd : d.Closed) (depth : Nat) : VisitSpec d depth := by
  induction depth with
  | zero =>
    intro i s hwhite hcard
    have hmem : i ∈ s.whites := Finset.mem_filter.mpr ⟨Finset.mem_univ _, hwhite⟩
    exact absurd (Finset.card_pos.mpr ⟨i, hmem⟩) (by omega)
  | succ depth ih =>
    intro i s hwhite hcard hinv hpath
    have henter := hinv.enter hwhite
    have hcard' : (s.setColor i .gray).whites.card ≤ depth :=
      Nat.le_of_lt_succ ((State.whites_enter_card hwhite).trans_le hcard)
    have hpath' : ∀ j, (s.setColor i .gray).color j = .gray → ReflTransGen d.Edge j i := by
      intro j hj
      by_cases hji : j = i
      · exact hji ▸ .refl
      · rw [State.color_setColor_of_ne s hji] at hj
        exact hpath j hj
    -- after the dependencies, the value itself is still gray and may be left
    have hleave : ∀ s' : d.State, (s.setColor i .gray).Grows s' →
        (∀ j, d.Edge i j → s'.color j ≠ .white) →
        s.Grows (s'.finish i) ∧ (s'.finish i).color i = .black := by
      intro s' hgrows hdone
      have hgray : s'.color i = .gray := (hgrows.gray i).mpr (State.color_setColor_self ..)
      have hinv' : (s'.finish i).Inv :=
        hgrows.inv.finish hgray (fun j hj ↦ hpath' j ((hgrows.gray j).mp hj)) hdone
      exact ⟨.finish hwhite hgrows hinv', State.color_setColor_self ..⟩
    rw [visit, wp_bind, wp_modify]
    cases hdep : d.precedentMap.map (d.node i) with
    | none =>
      refine wp_modify.mpr (hleave _ (.refl henter) fun j ⟨_, hj, _⟩ ↦ ?_)
      exact absurd (hdep.symm.trans hj) nofun
    | some depends =>
      rw [wp_bind]
      refine (wp_visit_depends ih hd hdep henter hcard' hpath').mono
        (fun _ s' h ↦ ?_) (fun _ _ h ↦ h)
      exact wp_modify.mpr (hleave s' h.1 h.2)

/-- Where the search runs on every number, it succeeds, and in the end every
value is black. -/
theorem wp_visitAll (hd : d.Closed) :
    wp d.visitAll (fun _ s ↦ s.Inv ∧ ∀ i, s.color i = .black) (fun _ _ ↦ False) d.init := by
  have hinit : d.init.Inv := by
    refine ⟨fun i ↦ ⟨nofun, fun h ↦ absurd h List.not_mem_nil⟩, List.nodup_nil,
      fun a h ↦ absurd h List.not_mem_nil, fun i l r h ↦ ?_⟩
    exact absurd h (by simp [init])
  let I (rest : List d.Index) (s : d.State) : Prop :=
    s.Inv ∧ (∀ i, s.color i ≠ .gray) ∧ ∀ i, i ∉ rest → s.color i = .black
  refine (wp_forM (I := I) ?_ ⟨hinit, fun _ ↦ nofun, fun i hi ↦ ?_⟩).mono
    (fun _ s h ↦ ⟨h.1, fun i ↦ h.2.2 i List.not_mem_nil⟩) (fun _ _ h ↦ h)
  · intro i rest s ⟨hinv, hgray, hblack⟩
    simp only [wp_bind, wp_get]
    split
    case isTrue hwhite =>
      have hcard : s.whites.card ≤ d.values.length := by
        have h := Finset.card_le_univ s.whites
        rwa [Fintype.card_fin] at h
      refine (visitSpec hd _ i s hwhite hcard hinv fun j hj ↦ absurd hj (hgray j)).mono
        (fun _ s' h ↦ ?_) (fun _ _ h ↦ h)
      refine ⟨h.1.inv, fun j hj ↦ hgray j ((h.1.gray j).mp hj), fun j hj ↦ ?_⟩
      by_cases hji : j = i
      · exact hji ▸ h.2
      · exact h.1.black hinv (hblack j (by simp [hji, hj]))
    case isFalse hne =>
      refine wp_pure.mpr ⟨hinv, hgray, fun j hj ↦ ?_⟩
      by_cases hji : j = i
      · subst hji
        cases hc : s.color j with
        | white => exact absurd hc hne
        | gray => exact absurd hc (hgray j)
        | black => rfl
      · exact hblack j (by simp [hji, hj])
  · exact absurd (List.mem_finRange i) hi

/-- `a` comes before `b` in a list. -/
def Before (l : List α) (a b : α) : Prop := List.Sublist [a, b] l

omit [DecidableEq α] in
/-- In a list without duplicates no value comes both before and after another. -/
theorem Before.asymm {l : List α} (hl : l.Nodup) {a b : α} (hab : Before l a b)
    (hba : Before l b a) : False := by
  induction l with
  | nil => exact absurd (List.eq_nil_of_sublist_nil hab) (by simp)
  | cons x l ih =>
    obtain ⟨hx, hl⟩ := List.nodup_cons.mp hl
    cases hab with
    | cons _ hab =>
      cases hba with
      | cons _ hba => exact ih hl hab hba
      | cons_cons => exact hx (hab.subset (by simp))
    | cons_cons _ hab =>
      cases hba with
      | cons _ hba => exact hx (hba.subset (by simp))
      | cons_cons => exact hx (hab.subset (by simp))

/-- The search never fails.  Its output holds every value once, and whatever a
value depends on comes before it or depends on it in turn. -/
theorem run_spec (d : DepthFirstSearch α) (hd : d.Closed) :
    d.run.1 = none ∧ d.run.2.Nodup ∧ (∀ a, a ∈ d.run.2 ↔ a ∈ d.values) ∧
      ∀ a ∈ d.values, ∀ b, d.precedentMap.Depends a b →
        Before d.run.2 b a ∨ ReflTransGen d.precedentMap.Depends b a := by
  obtain ⟨_, s, hrun, hinv, hblack⟩ := (wp_visitAll hd).exists_ok
  have hrun' : d.run = (none, s.sorted) := by rw [run, hrun]
  have hmem : ∀ a, a ∈ s.sorted ↔ a ∈ d.values := by
    refine fun a ↦ ⟨hinv.mem a, fun ha ↦ ?_⟩
    obtain ⟨i, rfl⟩ := exists_node ha
    exact (hinv.black i).mp (hblack i)
  rw [hrun']
  refine ⟨rfl, hinv.nodup, hmem, fun a ha b hab ↦ ?_⟩
  obtain ⟨i, rfl⟩ := exists_node ha
  obtain ⟨j, rfl⟩ := exists_node (hd i b hab)
  obtain ⟨l, r, hlr⟩ := List.append_of_mem ((hmem _).mpr (node_mem i))
  rcases hinv.order i l r hlr j hab with hl | hpath
  · refine .inl ?_
    rw [Before, hlr]
    exact (List.singleton_sublist.mpr hl).append (List.singleton_sublist.mpr List.mem_cons_self)
  · exact .inr (hpath.lift d.node fun _ _ h ↦ h)

end

end DepthFirstSearch

end Ixion
