import Mathlib.Data.List.Nodup
import Mathlib.Data.Set.Basic
import Mathlib.Logic.Relation

/-!
# Finding cycles in one sweep

A list of elements is visited once, in order.  Each element has a key and sees a
set of keys; it is found *safe* when every key it sees has been found safe before,
and it is *marked* otherwise.  Nothing is looked at twice.

Whatever is on a cycle or leads to one is marked, in any order.  Whether anything
else is marked is a matter of the order, and of the safety that is there before the
sweep: `forall_not_marked_iff` says exactly when nothing is marked in error, and
`forall_marked_iff_circular_iff` exactly when the marked elements are those on a
cycle and those that lead to one.
-/

namespace Ixion.Lib

open Relation

universe u v

variable {ι : Type u} {κ : Type v}

/-- The keys that have been found safe, and those that have been marked. -/
@[ext]
structure SweepState (κ : Type v) where
  safe : Set κ
  marked : Set κ

/-- Visit one element. -/
def SweepState.step (key : ι → κ) (seen : ι → Set κ) (s : SweepState κ) (x : ι) :
    SweepState κ where
  safe := {k | k ∈ s.safe ∨ (k = key x ∧ seen x ⊆ s.safe)}
  marked := {k | k ∈ s.marked ∨ (k = key x ∧ ¬ seen x ⊆ s.safe)}

/-- Visit the elements of a list. -/
def sweep (key : ι → κ) (seen : ι → Set κ) (s : SweepState κ) (l : List ι) : SweepState κ :=
  l.foldl (SweepState.step key seen) s

section Sweep

variable {key : ι → κ} {seen : ι → Set κ} {s : SweepState κ}

theorem mem_safe_step {x : ι} {k : κ} :
    k ∈ (s.step key seen x).safe ↔ k ∈ s.safe ∨ (k = key x ∧ seen x ⊆ s.safe) := .rfl

theorem mem_marked_step {x : ι} {k : κ} :
    k ∈ (s.step key seen x).marked ↔ k ∈ s.marked ∨ (k = key x ∧ ¬ seen x ⊆ s.safe) := .rfl

@[simp] theorem sweep_nil : sweep key seen s [] = s := rfl

theorem sweep_cons (x : ι) (l : List ι) :
    sweep key seen s (x :: l) = sweep key seen (s.step key seen x) l := rfl

theorem sweep_append (l l' : List ι) :
    sweep key seen s (l ++ l') = sweep key seen (sweep key seen s l) l' :=
  List.foldl_append

/-- Splitting a list at an element, inside a longer list. -/
def SplitAt (l l₁ : List ι) (x : ι) : Prop := ∃ l₂, l = l₁ ++ x :: l₂

theorem SplitAt.mem {l l₁ : List ι} {x : ι} (h : SplitAt l l₁ x) : x ∈ l := by
  obtain ⟨l₂, rfl⟩ := h
  simp

theorem SplitAt.subset {l l₁ : List ι} {x : ι} (h : SplitAt l l₁ x) : l₁ ⊆ l := by
  obtain ⟨l₂, rfl⟩ := h
  exact List.subset_append_left _ _

theorem SplitAt.length_lt {l l₁ : List ι} {x : ι} (h : SplitAt l l₁ x) :
    l₁.length < l.length := by
  obtain ⟨l₂, rfl⟩ := h
  rw [List.length_append, List.length_cons]
  omega

theorem SplitAt.trans {l l₁ l₂ : List ι} {x y : ι} (h : SplitAt l l₁ x) (h' : SplitAt l₁ l₂ y) :
    SplitAt l l₂ y := by
  obtain ⟨l₃, rfl⟩ := h
  obtain ⟨l₄, rfl⟩ := h'
  exact ⟨l₄ ++ x :: l₃, by simp⟩

/-- What comes before has a position before. -/
theorem SplitAt.exists_getElem? {l l₁ : List ι} {x y : ι} (h : SplitAt l l₁ x) (hy : y ∈ l₁) :
    ∃ i, i < l₁.length ∧ l[i]? = some y := by
  obtain ⟨l₂, rfl⟩ := h
  obtain ⟨i, hi, rfl⟩ := List.mem_iff_getElem.mp hy
  exact ⟨i, hi, by rw [List.getElem?_append_left hi, List.getElem?_eq_getElem hi]⟩

/-- The first element with the key of a given one does not come after it. -/
theorem exists_splitAt_first (key : ι → κ) {l : List ι} {i : Nat} {x : ι} (hx : l[i]? = some x) :
    ∃ l₁ y, SplitAt l l₁ y ∧ key y = key x ∧ (∀ z ∈ l₁, key z ≠ key x) ∧ l₁.length ≤ i := by
  induction l generalizing i with
  | nil => exact absurd hx nofun
  | cons a l ih =>
    by_cases ha : key a = key x
    · exact ⟨[], a, ⟨l, rfl⟩, ha, fun z hz ↦ absurd hz List.not_mem_nil, Nat.zero_le i⟩
    · cases i with
      | zero =>
        cases hx
        exact absurd rfl ha
      | succ i =>
        obtain ⟨l₁, y, ⟨l₂, hl⟩, hkey, hfirst, hle⟩ := ih hx
        refine ⟨a :: l₁, y, ⟨l₂, by rw [hl]; rfl⟩, hkey, fun z hz ↦ ?_, Nat.succ_le_succ hle⟩
        rcases List.mem_cons.mp hz with rfl | hz
        · exact ha
        · exact hfirst z hz

/-- What comes before an element of a list without duplicates is in the part before
it. -/
theorem SplitAt.mem_of_before {l l₁ : List ι} {x y : ι} (h : SplitAt l l₁ x) (hl : l.Nodup)
    (hyx : List.Sublist [y, x] l) : y ∈ l₁ := by
  obtain ⟨l₂, rfl⟩ := h
  have hx : x ∉ l₂ := (List.nodup_cons.mp hl.of_append_right).1
  obtain ⟨a, b, hab, ha, hb⟩ := List.sublist_append_iff.mp hyx
  cases a with
  | nil =>
    rw [List.nil_append] at hab
    subst hab
    cases hb with
    | cons _ hb => exact absurd (hb.subset (by simp)) hx
    | cons_cons _ hb => exact absurd (hb.subset (by simp)) hx
  | cons z a =>
    obtain ⟨rfl, _⟩ := List.cons.inj hab
    exact ha.subset List.mem_cons_self

theorem splitAt_cons {a x : ι} {l l₁ : List ι} :
    SplitAt (a :: l) l₁ x ↔ (l₁ = [] ∧ a = x) ∨ ∃ l₁', l₁ = a :: l₁' ∧ SplitAt l l₁' x := by
  constructor
  · rintro ⟨l₂, h⟩
    cases l₁ with
    | nil => exact .inl ⟨rfl, (List.cons.inj h).1⟩
    | cons b l₁ =>
      obtain ⟨rfl, htail⟩ := List.cons.inj h
      exact .inr ⟨l₁, rfl, l₂, htail⟩
  · rintro (⟨rfl, rfl⟩ | ⟨l₁', rfl, l₂, rfl⟩)
    · exact ⟨l, rfl⟩
    · exact ⟨l₂, rfl⟩

/-- What is safe after a sweep was safe before, or is the key of an element all of
whose seen keys were safe when it was visited. -/
theorem mem_safe_sweep {l : List ι} {k : κ} :
    k ∈ (sweep key seen s l).safe ↔ k ∈ s.safe ∨
      ∃ l₁ x, SplitAt l l₁ x ∧ k = key x ∧ seen x ⊆ (sweep key seen s l₁).safe := by
  induction l generalizing s with
  | nil => simp [SplitAt]
  | cons a l ih =>
    rw [sweep_cons, ih]
    constructor
    · rintro ((h | ⟨rfl, h⟩) | ⟨l₁, x, hx, rfl, h⟩)
      · exact .inl h
      · exact .inr ⟨[], a, splitAt_cons.mpr (.inl ⟨rfl, rfl⟩), rfl, h⟩
      · exact .inr ⟨a :: l₁, x, splitAt_cons.mpr (.inr ⟨l₁, rfl, hx⟩), rfl, h⟩
    · rintro (h | ⟨l₁, x, hx, rfl, h⟩)
      · exact .inl (.inl h)
      · rcases splitAt_cons.mp hx with ⟨rfl, rfl⟩ | ⟨l₁', rfl, hx'⟩
        · exact .inl (.inr ⟨rfl, h⟩)
        · exact .inr ⟨l₁', x, hx', rfl, h⟩

/-- What is marked after a sweep was marked before, or is the key of an element
that saw something unsafe when it was visited. -/
theorem mem_marked_sweep {l : List ι} {k : κ} :
    k ∈ (sweep key seen s l).marked ↔ k ∈ s.marked ∨
      ∃ l₁ x, SplitAt l l₁ x ∧ k = key x ∧ ¬ seen x ⊆ (sweep key seen s l₁).safe := by
  induction l generalizing s with
  | nil => simp [SplitAt]
  | cons a l ih =>
    rw [sweep_cons, ih]
    constructor
    · rintro ((h | ⟨rfl, h⟩) | ⟨l₁, x, hx, rfl, h⟩)
      · exact .inl h
      · exact .inr ⟨[], a, splitAt_cons.mpr (.inl ⟨rfl, rfl⟩), rfl, h⟩
      · exact .inr ⟨a :: l₁, x, splitAt_cons.mpr (.inr ⟨l₁, rfl, hx⟩), rfl, h⟩
    · rintro (h | ⟨l₁, x, hx, rfl, h⟩)
      · exact .inl (.inl h)
      · rcases splitAt_cons.mp hx with ⟨rfl, rfl⟩ | ⟨l₁', rfl, hx'⟩
        · exact .inl (.inr ⟨rfl, h⟩)
        · exact .inr ⟨l₁', x, hx', rfl, h⟩

/-- The keys that are safe when an element is visited, if no key of the list was
safe before the sweep. -/
theorem exists_or_of_mem_safe {l l₁ : List ι}
    (hreset : ∀ y ∈ l, key y ∉ s.safe) {k : κ} (hk : k ∈ (sweep key seen s l₁).safe) :
    (∃ y ∈ l₁, key y = k) ∨ ((∀ y ∈ l, key y ≠ k) ∧ k ∈ s.safe) := by
  rcases mem_safe_sweep.mp hk with hk | ⟨l₂, y, hy, rfl, _⟩
  · refine .inr ⟨?_, hk⟩
    rintro y hy rfl
    exact hreset y hy hk
  · exact .inl ⟨y, hy.mem, rfl⟩

/-- An element is on a cycle of a relation, or leads to one. -/
def Circular (dep : κ → κ → Prop) (k : κ) : Prop :=
  ∃ k', ReflTransGen dep k k' ∧ TransGen dep k' k'

theorem Circular.head {dep : κ → κ → Prop} {k k' : κ} (h : dep k k') (hk' : Circular dep k') :
    Circular dep k := by
  obtain ⟨c, hc, hcc⟩ := hk'
  exact ⟨c, .head h hc, hcc⟩

/-- Nothing is circular where every step makes a number smaller. -/
theorem not_circular_of_decreasing {dep : κ → κ → Prop} {f : κ → Int}
    (h : ∀ k k', dep k k' → f k' < f k) (k : κ) : ¬ Circular dep k := by
  have hlt : ∀ a b, TransGen dep a b → f b < f a := by
    intro a b hab
    induction hab with
    | single hab => exact h _ _ hab
    | tail _ hbc ih => exact (h _ _ hbc).trans ih
  rintro ⟨c, _, hcc⟩
  exact lt_irrefl _ (hlt c c hcc)

/-- Two relations have the same circular elements if they simulate each other in
such a way that the elements standing for the same thing lead to the same
elements. -/
theorem circular_iff_of_simulation {α : Type u} {dep : α → α → Prop} {dep' : κ → κ → Prop}
    {R : α → κ → Prop} (hunique : ∀ a k k', R a k → R a k' → k = k')
    (hforth : ∀ a b k, R a k → dep a b → ∃ k', R b k' ∧ dep' k k')
    (hback : ∀ a k k', R a k → dep' k k' → ∃ b, R b k' ∧ dep a b)
    (hcongr : ∀ a a' b k, R a k → R a' k → dep a b → dep a' b) {a : α} {k : κ} (hR : R a k) :
    Circular dep a ↔ Circular dep' k := by
  constructor
  · have hsteps : ∀ a b k, R a k → TransGen dep a b → ∃ k', R b k' ∧ TransGen dep' k k' := by
      intro a b k hR h
      induction h with
      | single h =>
        obtain ⟨k', hk', hd⟩ := hforth _ _ _ hR h
        exact ⟨k', hk', .single hd⟩
      | tail _ h ih =>
        obtain ⟨c, hc, hkc⟩ := ih
        obtain ⟨k', hk', hd⟩ := hforth _ _ _ hc h
        exact ⟨k', hk', hkc.tail hd⟩
    rintro ⟨b, hab, hbb⟩
    obtain ⟨c, hc, hkc⟩ : ∃ c, R b c ∧ ReflTransGen dep' k c := by
      rcases reflTransGen_iff_eq_or_transGen.mp hab with rfl | hab
      · exact ⟨k, hR, .refl⟩
      · obtain ⟨c, hc, hkc⟩ := hsteps _ _ _ hR hab
        exact ⟨c, hc, hkc.to_reflTransGen⟩
    obtain ⟨c', hc', hcc⟩ := hsteps _ _ _ hc hbb
    rw [hunique _ _ _ hc' hc] at hcc
    exact ⟨c, hkc, hcc⟩
  · have hsteps : ∀ k k' a, R a k → TransGen dep' k k' → ∃ b, R b k' ∧ TransGen dep a b := by
      intro k k' a hR h
      induction h with
      | single h =>
        obtain ⟨b, hb, hd⟩ := hback _ _ _ hR h
        exact ⟨b, hb, .single hd⟩
      | tail _ h ih =>
        obtain ⟨c, hc, hac⟩ := ih
        obtain ⟨b, hb, hd⟩ := hback _ _ _ hc h
        exact ⟨b, hb, hac.tail hd⟩
    rintro ⟨c, hkc, hcc⟩
    obtain ⟨b, hb, hab⟩ : ∃ b, R b c ∧ ReflTransGen dep a b := by
      rcases reflTransGen_iff_eq_or_transGen.mp hkc with rfl | hkc
      · exact ⟨a, hR, .refl⟩
      · obtain ⟨b, hb, hab⟩ := hsteps _ _ _ hR hkc
        exact ⟨b, hb, hab.to_reflTransGen⟩
    obtain ⟨b', hb', hbb⟩ := hsteps _ _ _ hb hcc
    -- what the cycle comes back to leads to the same elements as what it started from
    obtain ⟨d, hbd, hdb⟩ := TransGen.head'_iff.mp hbb
    exact ⟨b', hab.trans hbb.to_reflTransGen,
      TransGen.head' (hcongr _ _ _ _ hb hb' hbd) hdb⟩

/-! ## When nothing good is marked -/

/-- Suppose that good elements see good keys only.  Then no good element is marked
exactly when each of them sees only keys that are visited before it, or that are
not visited at all and were safe before the sweep. -/
theorem forall_not_marked_iff {l : List ι} (good : κ → Prop)
    (hgood : ∀ x ∈ l, good (key x) → ∀ k ∈ seen x, good k)
    (hreset : ∀ x ∈ l, key x ∉ s.safe) (hmarked : ∀ x ∈ l, key x ∉ s.marked) :
    (∀ x ∈ l, good (key x) → key x ∉ (sweep key seen s l).marked) ↔
      ∀ l₁ x, SplitAt l l₁ x → good (key x) → ∀ k ∈ seen x,
        (∃ y ∈ l₁, key y = k) ∨ ((∀ y ∈ l, key y ≠ k) ∧ k ∈ s.safe) := by
  constructor
  · intro h l₁ x hx hg k hk
    by_contra hn
    refine h x hx.mem hg (mem_marked_sweep.mpr (.inr ⟨l₁, x, hx, rfl, fun hsub ↦ hn ?_⟩))
    exact exists_or_of_mem_safe hreset (hsub hk)
  · intro h
    -- when a good element is visited, all it sees is safe
    have hsafe : ∀ n l₁ x, l₁.length = n → SplitAt l l₁ x → good (key x) →
        seen x ⊆ (sweep key seen s l₁).safe := by
      intro n
      induction n using Nat.strongRecOn with
      | ind n ih =>
        intro l₁ x hn hx hg k hk
        rcases h l₁ x hx hg k hk with ⟨y, hy, rfl⟩ | ⟨_, hk⟩
        · obtain ⟨l₂, l₃, rfl⟩ := List.append_of_mem hy
          obtain ⟨l₄, rfl⟩ := hx
          have hy' : SplitAt ((l₂ ++ y :: l₃) ++ x :: l₄) l₂ y := ⟨l₃ ++ x :: l₄, by simp⟩
          have hg' : good (key y) := hgood x (by simp) hg _ hk
          have hlt : l₂.length < n := by
            rw [← hn, List.length_append, List.length_cons]
            omega
          exact mem_safe_sweep.mpr (.inr ⟨l₂, y, ⟨l₃, rfl⟩, rfl, ih _ hlt l₂ y rfl hy' hg'⟩)
        · exact mem_safe_sweep.mpr (.inl hk)
    intro x hx hg hmark
    rcases mem_marked_sweep.mp hmark with hmark | ⟨l₁, y, hy, hkey, hn⟩
    · exact hmarked x hx hmark
    · exact hn (hsafe _ l₁ y rfl hy (hkey ▸ hg))

/-! ## Cycles -/

/-- An element with one key sees another key. -/
def Sees (key : ι → κ) (seen : ι → Set κ) (l : List ι) (k k' : κ) : Prop :=
  ∃ x ∈ l, key x = k ∧ k' ∈ seen x

/-- A key that is safe when it is visited, after `n` others. -/
def SafeAt (key : ι → κ) (seen : ι → Set κ) (s : SweepState κ) (l : List ι) (n : Nat)
    (k : κ) : Prop :=
  ∃ l₁ x, l₁.length = n ∧ SplitAt l l₁ x ∧ key x = k ∧ seen x ⊆ (sweep key seen s l₁).safe

section Cycles

variable {l : List ι} (hseen : ∀ x ∈ l, ∀ y ∈ l, key x = key y → seen x = seen y)
  (hreset : ∀ x ∈ l, key x ∉ s.safe)

include hseen hreset

/-- What a safe key sees has been visited earlier, and was safe as well. -/
theorem SafeAt.sees {n : Nat} {k k' : κ} (hk : SafeAt key seen s l n k)
    (h : Sees key seen l k k') (hk' : ∃ y ∈ l, key y = k') :
    ∃ m < n, SafeAt key seen s l m k' := by
  obtain ⟨l₁, x, rfl, hsplit, rfl, hsafe⟩ := hk
  obtain ⟨x', hx', hkey, hsees⟩ := h
  rw [hseen x' hx' x hsplit.mem hkey] at hsees
  rcases mem_safe_sweep.mp (hsafe hsees) with hs | ⟨l₂, z, hz, rfl, hsub⟩
  · obtain ⟨y, hy, rfl⟩ := hk'
    exact absurd hs (hreset y hy)
  · exact ⟨l₂.length, hz.length_lt, l₂, z, rfl, hsplit.trans hz, rfl, hsub⟩

/-- So is everything that it leads to. -/
theorem SafeAt.transGen {n : Nat} {k k' : κ} (hk : SafeAt key seen s l n k)
    (h : TransGen (Sees key seen l) k k') (hk' : ∃ y ∈ l, key y = k') :
    ∃ m < n, SafeAt key seen s l m k' := by
  induction h using TransGen.head_induction_on generalizing n with
  | single h => exact hk.sees hseen hreset h hk'
  | head h hrest ih =>
    obtain ⟨c, ⟨y, hy, hkey, _⟩, _⟩ := TransGen.head'_iff.mp hrest
    obtain ⟨m, hm, hc⟩ := hk.sees hseen hreset h ⟨y, hy, hkey⟩
    obtain ⟨i, hi, hk'⟩ := ih hc
    exact ⟨i, hi.trans hm, hk'⟩

/-- A safe key is not on a cycle, as it would have been visited before itself. -/
theorem SafeAt.not_transGen_self {n : Nat} {k : κ} (hk : SafeAt key seen s l n k) :
    ¬ TransGen (Sees key seen l) k k := by
  intro h
  induction n using Nat.strongRecOn with
  | ind n ih =>
    obtain ⟨_, ⟨y, hy, hkey, _⟩, _⟩ := TransGen.head'_iff.mp h
    obtain ⟨m, hm, hk'⟩ := hk.transGen hseen hreset h ⟨y, hy, hkey⟩
    exact ih m hm hk'

/-- Whatever is on a cycle or leads to one is marked, in any order. -/
theorem mem_marked_of_circular {x : ι} (hx : x ∈ l)
    (h : Circular (Sees key seen l) (key x)) : key x ∈ (sweep key seen s l).marked := by
  obtain ⟨k, hxk, hkk⟩ := h
  by_contra hn
  obtain ⟨l₁, l₂, hl⟩ := List.append_of_mem hx
  have hsafe : SafeAt key seen s l l₁.length (key x) := by
    refine ⟨l₁, x, rfl, ⟨l₂, hl⟩, rfl, ?_⟩
    by_contra hns
    exact hn (mem_marked_sweep.mpr (.inr ⟨l₁, x, ⟨l₂, hl⟩, rfl, hns⟩))
  obtain ⟨_, ⟨y, hy, hkey, _⟩, _⟩ := TransGen.head'_iff.mp hkk
  obtain ⟨m, _, hk⟩ := hsafe.transGen hseen hreset (.trans_right hxk hkk) ⟨y, hy, hkey⟩
  exact hk.not_transGen_self hseen hreset hkk

/-- A sweep that visits everything that is seen marks exactly what is on a cycle or
leads to one, provided that everything else sees only what comes before it. -/
theorem forall_marked_iff_circular_iff (hmarked : ∀ x ∈ l, key x ∉ s.marked)
    (hclosed : ∀ x ∈ l, ∀ k ∈ seen x, ∃ y ∈ l, key y = k) :
    (∀ x ∈ l, key x ∈ (sweep key seen s l).marked ↔ Circular (Sees key seen l) (key x)) ↔
      ∀ l₁ x, SplitAt l l₁ x → ¬ Circular (Sees key seen l) (key x) → ∀ k ∈ seen x,
        ∃ y ∈ l₁, key y = k := by
  have hgood : ∀ x ∈ l, ¬ Circular (Sees key seen l) (key x) → ∀ k ∈ seen x,
      ¬ Circular (Sees key seen l) k :=
    fun x hx hn k hk hc ↦ hn (hc.head ⟨x, hx, rfl, hk⟩)
  have key := forall_not_marked_iff (fun k ↦ ¬ Circular (Sees key seen l) k) hgood hreset hmarked
  constructor
  · intro h l₁ x hx hn k hk
    have hnot := key.mp (fun y hy hny hmark ↦ hny ((h y hy).mp hmark)) l₁ x hx hn k hk
    refine hnot.resolve_right fun hout ↦ ?_
    obtain ⟨y, hy, hkey⟩ := hclosed x hx.mem k hk
    exact hout.1 y hy hkey
  · intro h x hx
    refine ⟨fun hmark ↦ ?_, mem_marked_of_circular hseen hreset hx⟩
    by_contra hn
    exact key.mpr (fun l₁ y hy hny k hk ↦ .inl (h l₁ y hy hny k hk)) x hx hn hmark

end Cycles

end Sweep

end Ixion.Lib
