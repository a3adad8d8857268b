import Mathlib.Data.Finite.Defs
import Mathlib.Data.List.Lex
import Mathlib.Data.Set.Finite.Basic
import Mathlib.Order.WellFounded

/-!
# Names that stand for lists of tokens

A name is defined by a list of tokens, some of which are names again.  A list is
*circular* when one of the names that it uses, directly or through other names, uses
itself.  Where it is not, and only finitely many names are defined, one may argue from
what the definitions have to what the list has (`induction_of_not_circular`).

A *place* is the way to a token: an index into the list and then, if the token there is a
name, a place in its definition.  Places are in the order in which a reader who looks up
each name where it stands meets them, which is the lexicographic order on lists of indices.
-/

namespace Ixion.Lib

/-- Definitions of names: which tokens are names, and what a name stands for. -/
structure Definitions (ν τ : Type) where
  name? : τ → Option ν
  body : ν → Option (List τ)

namespace Definitions

variable {ν τ : Type} (D : Definitions ν τ)

/-! ## Which names a list uses -/

/-- A token stands in a list, or in the definition of a name within the list. -/
inductive Within : List τ → τ → Prop where
  | here {l : List τ} {t : τ} : t ∈ l → Within l t
  | there {l b : List τ} {t t' : τ} {n : ν} : t ∈ l → D.name? t = some n → D.body n = some b →
    Within b t' → Within l t'

/-- A list uses a name, directly or through other names. -/
def Uses (l : List τ) (n : ν) : Prop := ∃ t, D.Within l t ∧ D.name? t = some n

/-- A list uses a name that uses itself. -/
def Circular (l : List τ) : Prop := ∃ n b, D.Uses l n ∧ D.body n = some b ∧ D.Uses b n

variable {D}

theorem Uses.here {l : List τ} {t : τ} {n : ν} (ht : t ∈ l) (hn : D.name? t = some n) :
    D.Uses l n := ⟨t, .here ht, hn⟩

theorem Uses.trans {l b : List τ} {n m : ν} (h : D.Uses l n) (hb : D.body n = some b)
    (hm : D.Uses b m) : D.Uses l m := by
  obtain ⟨t, ht, hn⟩ := h
  obtain ⟨t', ht', hm⟩ := hm
  refine ⟨t', ?_, hm⟩
  induction ht with
  | here ht => exact .there ht hn hb ht'
  | there ht hn' hb' _ ih => exact .there ht hn' hb' (ih hn)

/-- What is used behind a name of the list is used. -/
theorem Uses.there {l b : List τ} {t : τ} {n m : ν} (ht : t ∈ l) (hn : D.name? t = some n)
    (hb : D.body n = some b) (hm : D.Uses b m) : D.Uses l m :=
  (Uses.here ht hn).trans hb hm

theorem not_uses_nil (n : ν) : ¬ D.Uses [] n := by
  rintro ⟨t, ht, _⟩
  cases ht with
  | here ht => exact List.not_mem_nil ht
  | there ht => exact List.not_mem_nil ht

theorem uses_cons_of_none {t : τ} {l : List τ} (ht : D.name? t = none) {m : ν} :
    D.Uses (t :: l) m ↔ D.Uses l m := by
  constructor
  · rintro ⟨t', h, hm⟩
    cases h with
    | here h =>
      rcases List.mem_cons.mp h with rfl | h
      · exact absurd (ht.symm.trans hm) nofun
      · exact .here h hm
    | there h hn hb h' =>
      rcases List.mem_cons.mp h with rfl | h
      · exact absurd (ht.symm.trans hn) nofun
      · exact .there h hn hb ⟨t', h', hm⟩
  · rintro ⟨t', h, hm⟩
    cases h with
    | here h => exact .here (List.mem_cons_of_mem t h) hm
    | there h hn hb h' => exact .there (List.mem_cons_of_mem t h) hn hb ⟨t', h', hm⟩

theorem uses_cons_of_some {t : τ} {l b : List τ} {n : ν} (ht : D.name? t = some n)
    (hb : D.body n = some b) {m : ν} :
    D.Uses (t :: l) m ↔ m = n ∨ D.Uses b m ∨ D.Uses l m := by
  constructor
  · rintro ⟨t', h, hm⟩
    cases h with
    | here h =>
      rcases List.mem_cons.mp h with rfl | h
      · exact .inl (Option.some.inj (hm.symm.trans ht))
      · exact .inr (.inr (.here h hm))
    | there h hn hb' h' =>
      rcases List.mem_cons.mp h with rfl | h
      · obtain rfl := Option.some.inj (hn.symm.trans ht)
        obtain rfl := Option.some.inj (hb'.symm.trans hb)
        exact .inr (.inl ⟨t', h', hm⟩)
      · exact .inr (.inr (.there h hn hb' ⟨t', h', hm⟩))
  · rintro (rfl | h | ⟨t', h, hm⟩)
    · exact .here List.mem_cons_self ht
    · exact .there List.mem_cons_self ht hb h
    · cases h with
      | here h => exact .here (List.mem_cons_of_mem t h) hm
      | there h hn hb' h' => exact .there (List.mem_cons_of_mem t h) hn hb' ⟨t', h', hm⟩

/-- What holds of a list whenever it holds of the definitions of the names in it holds of
every list that is not circular. -/
theorem induction_of_not_circular {S : Set ν} (hfin : S.Finite)
    (hS : ∀ n b, D.body n = some b → n ∈ S) {P : List τ → Prop}
    (step : ∀ l, (∀ t ∈ l, ∀ n b, D.name? t = some n → D.body n = some b → P b) → P l)
    {l : List τ} (h : ¬ D.Circular l) : P l := by
  let T := {n // n ∈ S ∧ D.Uses l n}
  have : Finite T := (hfin.subset fun n (hn : n ∈ S ∧ D.Uses l n) ↦ hn.1).to_subtype
  let r (m n : T) : Prop := ∃ b, D.body n.1 = some b ∧ D.Uses b m.1
  have htrans : IsTrans T r := ⟨fun a b c ⟨l₁, h₁, hu₁⟩ ⟨l₂, h₂, hu₂⟩ ↦ ⟨l₂, h₂, hu₂.trans h₁ hu₁⟩⟩
  have hirrefl : Std.Irrefl r := ⟨fun n ⟨b, hb, hu⟩ ↦ h ⟨n.1, b, n.2.2, hb, hu⟩⟩
  have hwf : WellFounded r := Finite.wellFounded_of_trans_of_irrefl r
  have hall (n : T) : ∀ b, D.body n.1 = some b → P b := by
    induction n using hwf.induction with
    | _ n ih =>
      intro b hb
      refine step b fun t ht m b' hm hb' ↦ ?_
      have hu : D.Uses b m := .here ht hm
      exact ih ⟨m, hS m b' hb', n.2.2.trans hb hu⟩ ⟨b, hb, hu⟩ b' hb'
  exact step l fun t ht n b hn hb ↦ hall ⟨n, hS n b hb, .here ht hn⟩ b hb

/-! ## Replacing names by their definitions -/

/-- A list in which every name is replaced by its definition, between an opening and a
closing token, and so on in the definition. -/
inductive Expands (D : Definitions ν τ) (opening closing : τ) : List τ → List τ → Prop where
  | nil : Expands D opening closing [] []
  | token {t : τ} {l out : List τ} : D.name? t = none → Expands D opening closing l out →
    Expands D opening closing (t :: l) (t :: out)
  | name {t : τ} {n : ν} {b mid l out : List τ} : D.name? t = some n → D.body n = some b →
    Expands D opening closing b mid → Expands D opening closing l out →
    Expands D opening closing (t :: l) (opening :: (mid ++ closing :: out))

/-- What is expanded is not circular. -/
theorem Expands.not_circular {opening closing : τ} {l out : List τ}
    (h : D.Expands opening closing l out) : ¬ D.Circular l := by
  induction h with
  | nil => exact fun ⟨n, b, hn, _⟩ ↦ not_uses_nil n hn
  | token ht _ ih => exact fun ⟨n, b, hn, hb, hu⟩ ↦ ih ⟨n, b, (uses_cons_of_none ht).mp hn, hb, hu⟩
  | name ht hb _ _ ih₁ ih₂ =>
    rintro ⟨m, b', hm, hb', hu⟩
    rcases (uses_cons_of_some ht hb).mp hm with rfl | hm | hm
    · obtain rfl := Option.some.inj (hb'.symm.trans hb)
      exact ih₁ ⟨m, b', hu, hb', hu⟩
    · exact ih₁ ⟨m, b', hm, hb', hu⟩
    · exact ih₂ ⟨m, b', hm, hb', hu⟩

/-- Every name that is used by what is expanded is defined. -/
theorem Expands.exists_body {opening closing : τ} {l out : List τ}
    (h : D.Expands opening closing l out) {n : ν} (hn : D.Uses l n) : ∃ b, D.body n = some b := by
  induction h with
  | nil => exact absurd hn (not_uses_nil n)
  | token ht _ ih => exact ih ((uses_cons_of_none ht).mp hn)
  | name ht hb _ _ ih₁ ih₂ =>
    rcases (uses_cons_of_some ht hb).mp hn with rfl | hn | hn
    · exact ⟨_, hb⟩
    · exact ih₁ hn
    · exact ih₂ hn

/-! ## Places -/

variable (D) in
/-- The name at a place. -/
def nameAt : List τ → List Nat → Option ν
  | _, [] => none
  | l, [i] => l[i]?.bind D.name?
  | l, i :: j :: p => ((l[i]?.bind D.name?).bind D.body).bind fun b ↦ nameAt b (j :: p)

@[simp] theorem nameAt_nil (p : List Nat) : D.nameAt [] p = none := by
  rcases p with - | ⟨i, - | ⟨j, p⟩⟩ <;> rfl

@[simp] theorem nameAt_succ (t : τ) (l : List τ) (i : Nat) (p : List Nat) :
    D.nameAt (t :: l) ((i + 1) :: p) = D.nameAt l (i :: p) := by
  cases p <;> rfl

theorem ne_nil_of_nameAt {l : List τ} {p : List Nat} {n : ν} (h : D.nameAt l p = some n) :
    p ≠ [] := by
  rintro rfl
  exact absurd h nofun

theorem nameAt_zero {t : τ} {l b : List τ} {n : ν} (ht : D.name? t = some n)
    (hb : D.body n = some b) {p : List Nat} (hp : p ≠ []) :
    D.nameAt (t :: l) (0 :: p) = D.nameAt b p := by
  obtain ⟨j, p, rfl⟩ := List.exists_cons_of_ne_nil hp
  show ((D.name? t).bind D.body).bind _ = _
  rw [ht, Option.bind_some, hb, Option.bind_some]

theorem nameAt_zero_of_none {t : τ} {l : List τ} (ht : D.name? t = none) (p : List Nat) :
    D.nameAt (t :: l) (0 :: p) = none := by
  cases p with
  | nil => exact ht
  | cons j p =>
    show ((D.name? t).bind D.body).bind _ = _
    rw [ht, Option.bind_none, Option.bind_none]

/-- The names at the places of a list are those that it uses. -/
theorem uses_iff_exists_nameAt {l : List τ} {n : ν} : D.Uses l n ↔ ∃ p, D.nameAt l p = some n := by
  constructor
  · rintro ⟨t, ht, hn⟩
    induction ht with
    | here ht =>
      obtain ⟨i, hi⟩ := List.mem_iff_getElem?.mp ht
      exact ⟨[i], by rw [nameAt, hi]; exact hn⟩
    | there ht hn' hb _ ih =>
      obtain ⟨i, hi⟩ := List.mem_iff_getElem?.mp ht
      obtain ⟨p, hp⟩ := ih hn
      cases p with
      | nil => exact absurd hp nofun
      | cons j p =>
        refine ⟨i :: j :: p, ?_⟩
        rw [nameAt, hi, Option.bind_some, hn', Option.bind_some, hb]
        exact hp
  · rintro ⟨p, hp⟩
    induction p generalizing l with
    | nil => exact absurd hp nofun
    | cons i p ih =>
      cases p with
      | nil =>
        obtain ⟨t, ht, hn⟩ := Option.bind_eq_some_iff.mp hp
        exact .here (List.mem_of_getElem? ht) hn
      | cons j p =>
        obtain ⟨b, hb, hp⟩ := Option.bind_eq_some_iff.mp hp
        obtain ⟨m, hm, hb⟩ := Option.bind_eq_some_iff.mp hb
        obtain ⟨t, ht, hm⟩ := Option.bind_eq_some_iff.mp hm
        exact .there (List.mem_of_getElem? ht) hm hb (ih hp)

/-! ## Names that come twice -/

theorem succ_cons_lt_iff {i j : Nat} {p q : List Nat} :
    (i + 1) :: p < (j + 1) :: q ↔ i :: p < j :: q := by
  simp only [List.cons_lt_cons_iff, Nat.add_lt_add_iff_right, Nat.add_right_cancel_iff]

theorem zero_cons_lt_iff {p q : List Nat} : 0 :: p < 0 :: q ↔ p < q := by
  simp only [List.cons_lt_cons_iff, Nat.lt_irrefl, false_or, true_and]

theorem zero_cons_lt_succ_cons {j : Nat} {p q : List Nat} : 0 :: p < (j + 1) :: q :=
  List.cons_lt_cons_iff.mpr (.inl (Nat.succ_pos j))

theorem not_succ_cons_lt_zero_cons {i : Nat} {p q : List Nat} : ¬ (i + 1) :: p < 0 :: q := by
  simp only [List.cons_lt_cons_iff, Nat.not_lt_zero, Nat.succ_ne_zero, false_and, or_self,
    not_false_eq_true]

variable (D) in
/-- At a place of at least `k` indices stands a name that is one of `used`, or that stands
at an earlier place too. -/
def Repeats (k : Nat) (used : Set ν) (l : List τ) : Prop :=
  ∃ q n, k ≤ q.length ∧ D.nameAt l q = some n ∧ (n ∈ used ∨ ∃ p < q, D.nameAt l p = some n)

theorem not_repeats_nil (k : Nat) (used : Set ν) : ¬ D.Repeats k used [] := by
  rintro ⟨q, n, _, hq, _⟩
  rw [nameAt_nil] at hq
  exact absurd hq nofun

/-- The first index of a place is that of the head or of a token behind it. -/
theorem nameAt_cons_eq_some_iff {t : τ} {l b : List τ} {n m : ν} (ht : D.name? t = some n)
    (hb : D.body n = some b) {p : List Nat} :
    D.nameAt (t :: l) p = some m ↔ (p = [0] ∧ m = n) ∨
      (∃ q, p = 0 :: q ∧ D.nameAt b q = some m) ∨
      ∃ i q, p = (i + 1) :: q ∧ D.nameAt l (i :: q) = some m := by
  constructor
  · intro h
    rcases p with - | ⟨- | i, q⟩
    · exact absurd h nofun
    · rcases eq_or_ne q [] with rfl | hq
      · exact .inl ⟨rfl, Option.some.inj (h.symm.trans ht)⟩
      · exact .inr (.inl ⟨q, rfl, (nameAt_zero ht hb hq).symm.trans h⟩)
    · exact .inr (.inr ⟨i, q, rfl, (nameAt_succ t l i q).symm.trans h⟩)
  · rintro (⟨rfl, rfl⟩ | ⟨q, rfl, h⟩ | ⟨i, q, rfl, h⟩)
    · exact ht
    · exact (nameAt_zero ht hb (ne_nil_of_nameAt h)).trans h
    · exact (nameAt_succ t l i q).trans h

theorem repeats_cons_of_none {k : Nat} {used : Set ν} {t : τ} {l : List τ}
    (ht : D.name? t = none) : D.Repeats k used (t :: l) ↔ D.Repeats k used l := by
  constructor
  · rintro ⟨q, n, hk, hq, h⟩
    rcases q with - | ⟨- | i, q⟩
    · exact absurd hq nofun
    · rw [nameAt_zero_of_none ht] at hq
      exact absurd hq nofun
    · rw [nameAt_succ] at hq
      refine ⟨i :: q, n, hk, hq, h.imp_right ?_⟩
      rintro ⟨p, hlt, hp⟩
      rcases p with - | ⟨- | j, p⟩
      · exact absurd hp nofun
      · rw [nameAt_zero_of_none ht] at hp
        exact absurd hp nofun
      · rw [nameAt_succ] at hp
        exact ⟨j :: p, succ_cons_lt_iff.mp hlt, hp⟩
  · rintro ⟨q, n, hk, hq, h⟩
    cases q with
    | nil => exact absurd hq nofun
    | cons i q =>
      refine ⟨(i + 1) :: q, n, hk, (nameAt_succ t l i q).trans hq, h.imp_right ?_⟩
      rintro ⟨p, hlt, hp⟩
      cases p with
      | nil => exact absurd hp nofun
      | cons j p => exact ⟨(j + 1) :: p, succ_cons_lt_iff.mpr hlt, (nameAt_succ t l j p).trans hp⟩

/-- Nothing stands in front of the head. -/
theorem not_earlier_head {t : τ} {l : List τ} {m : ν} :
    ¬ ∃ p < [0], D.nameAt (t :: l) p = some m := by
  rintro ⟨p, hlt, hp⟩
  rcases p with - | ⟨- | i, p⟩
  · exact absurd hp (Option.some_ne_none m).symm
  · exact List.not_lt_nil p (zero_cons_lt_iff.mp hlt)
  · exact not_succ_cons_lt_zero_cons hlt

section Earlier

variable {t : τ} {l b : List τ} {n m : ν} (ht : D.name? t = some n) (hb : D.body n = some b)

include ht hb

/-- In front of a place in the definition of the head stand the head, and what stands in front of
the place in that definition. -/
theorem used_or_earlier_body_iff {s : Set ν} {q : List Nat} (hq : q ≠ []) :
    (m ∈ s ∨ ∃ p < 0 :: q, D.nameAt (t :: l) p = some m) ↔
      m ∈ insert n s ∨ ∃ p < q, D.nameAt b p = some m := by
  have hearlier : (∃ p < 0 :: q, D.nameAt (t :: l) p = some m) ↔
      m = n ∨ ∃ p < q, D.nameAt b p = some m := by
    constructor
    · rintro ⟨p, hlt, hp⟩
      rcases (nameAt_cons_eq_some_iff ht hb).mp hp with ⟨-, hm⟩ | ⟨p, rfl, hp'⟩ | ⟨i, p, rfl, -⟩
      · exact .inl hm
      · exact .inr ⟨p, zero_cons_lt_iff.mp hlt, hp'⟩
      · exact (not_succ_cons_lt_zero_cons hlt).elim
    · rintro (rfl | ⟨p, hlt, hp⟩)
      · obtain ⟨j, q, rfl⟩ := List.exists_cons_of_ne_nil hq
        exact ⟨[0], zero_cons_lt_iff.mpr (List.nil_lt_cons j q), ht⟩
      · exact ⟨0 :: p, zero_cons_lt_iff.mpr hlt,
          (nameAt_cons_eq_some_iff ht hb).mpr (.inr (.inl ⟨p, rfl, hp⟩))⟩
  rw [hearlier, Set.mem_insert_iff, or_assoc, or_left_comm]

/-- In front of a place behind the head stand the head, the names of its definition, and what
stands in front of the place behind the head. -/
theorem used_or_earlier_rest_iff {s : Set ν} {i : Nat} {q : List Nat} :
    (m ∈ s ∨ ∃ p < (i + 1) :: q, D.nameAt (t :: l) p = some m) ↔
      m ∈ insert n (s ∪ {m | D.Uses b m}) ∨ ∃ p < i :: q, D.nameAt l p = some m := by
  have hearlier : (∃ p < (i + 1) :: q, D.nameAt (t :: l) p = some m) ↔
      m = n ∨ D.Uses b m ∨ ∃ p < i :: q, D.nameAt l p = some m := by
    constructor
    · rintro ⟨p, hlt, hp⟩
      rcases (nameAt_cons_eq_some_iff ht hb).mp hp with ⟨-, hm⟩ | ⟨p, -, hp'⟩ | ⟨j, p, rfl, hp'⟩
      · exact .inl hm
      · exact .inr (.inl (uses_iff_exists_nameAt.mpr ⟨p, hp'⟩))
      · exact .inr (.inr ⟨j :: p, succ_cons_lt_iff.mp hlt, hp'⟩)
    · rintro (rfl | h | ⟨p, hlt, hp⟩)
      · exact ⟨[0], zero_cons_lt_succ_cons, ht⟩
      · obtain ⟨p, hp⟩ := uses_iff_exists_nameAt.mp h
        exact ⟨0 :: p, zero_cons_lt_succ_cons,
          (nameAt_cons_eq_some_iff ht hb).mpr (.inr (.inl ⟨p, rfl, hp⟩))⟩
      · obtain ⟨j, p, rfl⟩ := List.exists_cons_of_ne_nil (ne_nil_of_nameAt hp)
        exact ⟨(j + 1) :: p, succ_cons_lt_iff.mpr hlt, (nameAt_succ t l j p).trans hp⟩
  rw [hearlier, Set.mem_insert_iff, Set.mem_union, Set.mem_ofPred_eq, or_assoc, or_assoc,
    or_left_comm]

theorem repeats_cons_of_some {k : Nat} (hk : k ≤ 2) {s : Set ν} :
    D.Repeats k s (t :: l) ↔ (k ≤ 1 ∧ n ∈ s) ∨ D.Repeats 1 (insert n s) b ∨
      D.Repeats k (insert n (s ∪ {m | D.Uses b m})) l := by
  constructor
  · rintro ⟨q, m, hkq, hq, h⟩
    rcases (nameAt_cons_eq_some_iff ht hb).mp hq with ⟨rfl, rfl⟩ | ⟨q, rfl, hq'⟩ | ⟨i, q, rfl, hq'⟩
    · -- the name at the head
      exact .inl ⟨hkq, h.resolve_right not_earlier_head⟩
    · -- a name in the definition of the head
      have hne := ne_nil_of_nameAt hq'
      exact .inr (.inl ⟨q, m, List.length_pos_of_ne_nil hne, hq',
        (used_or_earlier_body_iff ht hb hne).mp h⟩)
    · -- a name behind the head
      exact .inr (.inr ⟨i :: q, m, hkq, hq', (used_or_earlier_rest_iff ht hb).mp h⟩)
  · rintro (⟨hk', hn⟩ | ⟨q, m, hlen, hq, h⟩ | ⟨q, m, hkq, hq, h⟩)
    · exact ⟨[0], n, hk', ht, .inl hn⟩
    · have hne := ne_nil_of_nameAt hq
      exact ⟨0 :: q, m, hk.trans (Nat.succ_le_succ hlen), (nameAt_zero ht hb hne).trans hq,
        (used_or_earlier_body_iff ht hb hne).mpr h⟩
    · obtain ⟨i, q, rfl⟩ := List.exists_cons_of_ne_nil (ne_nil_of_nameAt hq)
      exact ⟨(i + 1) :: q, m, hkq, (nameAt_succ t l i q).trans hq,
        (used_or_earlier_rest_iff ht hb).mpr h⟩

end Earlier

end Definitions

end Ixion.Lib
