import Mathlib.Data.List.Basic
import Mathlib.Data.Set.Card

/-!
# Sequences that are stored in blocks

A sequence is divided into blocks, each of which holds some of its elements, and it is
walked through block by block, from a position inside one of them.  Counting elements this
way finds what counting them one by one does.

The test that decides whether an element counts may fail.
-/

namespace Ixion.Lib

universe u v w

variable {α : Type u} {β : Type v} {ε : Type w}

/-! ## Positions -/

section Position

variable {g : β → List α}

/-- The blocks from a position on, and where the position is in the first of them.  Past the
end there is no position. -/
def position (g : β → List α) : List β → Nat → Option (List β × Nat)
  | [], 0 => some ([], 0)
  | [], _ + 1 => none
  | b :: bs, n =>
    if n < (g b).length then some (b :: bs, n) else position g bs (n - (g b).length)

/-- Up to the end there is a position. -/
theorem exists_position {bs : List β} {n : Nat} (h : n ≤ (bs.flatMap g).length) :
    ∃ rest offset, position g bs n = some (rest, offset) := by
  induction bs generalizing n with
  | nil =>
    obtain rfl : n = 0 := Nat.le_zero.mp h
    exact ⟨[], 0, rfl⟩
  | cons b bs ih =>
    rw [position]
    split
    · exact ⟨b :: bs, n, rfl⟩
    · apply ih
      rw [List.flatMap_cons, List.length_append] at h
      exact Nat.sub_le_iff_le_add'.mpr h

/-- From a position on there are the elements that are left there. -/
theorem drop_of_position {bs rest : List β} {n offset : Nat}
    (h : position g bs n = some (rest, offset)) :
    (rest.flatMap g).drop offset = (bs.flatMap g).drop n := by
  induction bs generalizing n with
  | nil =>
    rcases n with - | n
    · cases h
      rfl
    · exact nomatch h
  | cons b bs ih =>
    rw [position] at h
    split at h
    case isTrue =>
      cases h
      rfl
    case isFalse hn =>
      rw [ih h, List.flatMap_cons, List.drop_append,
        List.drop_eq_nil_of_le (Nat.le_of_not_lt hn), List.nil_append]

/-- A position is inside the first of its blocks. -/
theorem offset_lt_of_position {b : β} {bs rest : List β} {n offset : Nat}
    (h : position g bs n = some (b :: rest, offset)) : offset < (g b).length := by
  induction bs generalizing n with
  | nil => rcases n with - | n <;> exact nomatch h
  | cons b' bs ih =>
    rw [position] at h
    split at h
    case isTrue hn =>
      cases h
      exact hn
    case isFalse => exact ih h

/-- Before a position there are whole blocks, and a part of one. -/
theorem exists_append_of_position {bs rest : List β} {n offset : Nat}
    (h : position g bs n = some (rest, offset)) :
    ∃ pre, bs = pre ++ rest ∧ n = (pre.flatMap g).length + offset := by
  induction bs generalizing n with
  | nil =>
    rcases n with - | n
    · cases h
      exact ⟨[], rfl, rfl⟩
    · exact nomatch h
  | cons b bs ih =>
    rw [position] at h
    split at h
    case isTrue =>
      cases h
      exact ⟨[], rfl, (Nat.zero_add _).symm⟩
    case isFalse hn =>
      obtain ⟨pre, hpre, hoffset⟩ := ih h
      refine ⟨b :: pre, congrArg (List.cons b) hpre, ?_⟩
      rw [List.flatMap_cons, List.length_append, Nat.add_assoc, ← hoffset,
        Nat.add_sub_cancel' (Nat.le_of_not_lt hn)]

/-- The position past the last block is at its start. -/
theorem offset_eq_zero_of_position {bs : List β} {n offset : Nat}
    (h : position g bs n = some ([], offset)) : offset = 0 := by
  induction bs generalizing n with
  | nil =>
    rcases n with - | n
    · cases h
      rfl
    · exact nomatch h
  | cons b bs ih =>
    rw [position] at h
    split at h
    case isTrue => exact nomatch h
    case isFalse => exact ih h

end Position

/-! ## Counting -/

section Count

variable {p : α → Except ε Bool}

/-- Count the elements that pass a test, from the first to the last. -/
def countM (p : α → Except ε Bool) : List α → Except ε Nat
  | [] => .ok 0
  | a :: l => do
    let b ← p a
    let n ← countM p l
    return b.toNat + n

@[simp] theorem countM_nil : countM p [] = .ok 0 := rfl

theorem countM_cons (a : α) (l : List α) :
    countM p (a :: l) = do
      let b ← p a
      let n ← countM p l
      return b.toNat + n := rfl

theorem countM_append (l l' : List α) :
    countM p (l ++ l') = do
      let n ← countM p l
      let n' ← countM p l'
      return n + n' := by
  induction l with
  | nil =>
    show _ = (countM p l' >>= fun n' ↦ pure (0 + n'))
    simp only [Nat.zero_add, List.nil_append, bind_pure]
  | cons a l ih =>
    rw [List.cons_append, countM_cons, ih, countM_cons]
    simp only [bind_assoc, pure_bind, Nat.add_assoc]

theorem countM_map {γ : Type*} (f : γ → α) (l : List γ) :
    countM p (l.map f) = countM (fun c ↦ p (f c)) l := by
  induction l with
  | nil => rfl
  | cons c l ih => rw [List.map_cons, countM_cons, countM_cons, ih]

/-- Where the test says the same of every element, all of them count or none. -/
theorem countM_of_forall {l : List α} {b : Bool} (h : ∀ a ∈ l, p a = .ok b) :
    countM p l = .ok (if b = true then l.length else 0) := by
  induction l with
  | nil => cases b <;> rfl
  | cons a l ih =>
    rw [countM_cons, h a List.mem_cons_self, ih fun a' ha' ↦ h a' (List.mem_cons_of_mem a ha')]
    cases b with
    | false => rfl
    | true =>
      show Except.ok (1 + l.length) = _
      rw [Nat.add_comm]
      rfl

/-- What is counted are the elements that pass the test. -/
theorem eq_ncard_of_countM {l : List α} (hl : l.Nodup) {n : Nat} (h : countM p l = .ok n) :
    n = Set.ncard {a | a ∈ l ∧ p a = .ok true} := by
  induction l generalizing n with
  | nil =>
    cases h
    simp
  | cons a l ih =>
    obtain ⟨ha, hl⟩ := List.nodup_cons.mp hl
    rw [countM_cons] at h
    cases hp : p a with
    | error e => rw [hp] at h; exact nomatch h
    | ok b =>
      cases hn : countM p l with
      | error e => rw [hp, hn] at h; exact nomatch h
      | ok m =>
        rw [hp, hn] at h
        obtain rfl : b.toNat + m = n := Except.ok.inj h
        have hfin : Set.Finite {a' | a' ∈ l ∧ p a' = .ok true} :=
          l.finite_toSet.subset fun a' h ↦ h.1
        cases b with
        | false =>
          rw [Bool.toNat_false, Nat.zero_add, ih hl hn]
          congr 1
          ext a'
          constructor
          · rintro ⟨hmem, ha'⟩
            exact ⟨List.mem_cons_of_mem a hmem, ha'⟩
          · rintro ⟨hmem, ha'⟩
            rcases List.mem_cons.mp hmem with rfl | hmem
            · rw [hp] at ha'
              exact nomatch ha'
            · exact ⟨hmem, ha'⟩
        | true =>
          have hins : {a' | a' ∈ a :: l ∧ p a' = .ok true} =
              insert a {a' | a' ∈ l ∧ p a' = .ok true} := by
            ext a'
            constructor
            · rintro ⟨hmem, ha'⟩
              rcases List.mem_cons.mp hmem with rfl | hmem
              · exact .inl rfl
              · exact .inr ⟨hmem, ha'⟩
            · rintro (rfl | ⟨hmem, ha'⟩)
              · exact ⟨List.mem_cons_self, hp⟩
              · exact ⟨List.mem_cons_of_mem a hmem, ha'⟩
          rw [hins, Set.ncard_insert_of_notMem (fun h ↦ ha h.1) hfin, ← ih hl hn, Bool.toNat_true,
            Nat.add_comm]

/-- Where counting fails, the test has failed at one of the elements. -/
theorem exists_error_of_countM {l : List α} {e : ε} (h : countM p l = .error e) :
    ∃ a ∈ l, p a = .error e := by
  induction l with
  | nil => exact nomatch h
  | cons a l ih =>
    rw [countM_cons] at h
    cases hp : p a with
    | error e' =>
      rw [hp] at h
      cases h
      exact ⟨a, List.mem_cons_self, hp⟩
    | ok b =>
      cases hn : countM p l with
      | ok m => rw [hp, hn] at h; exact nomatch h
      | error e' =>
        rw [hp, hn] at h
        cases h
        obtain ⟨a', ha', he⟩ := ih hn
        exact ⟨a', List.mem_cons_of_mem a ha', he⟩

end Count

/-! ## Adding up -/

section Sum

variable {γ : Type v} {M : Type} [AddMonoidWithOne M] {p : α → Except ε Bool}

/-- Add the number of elements that pass a test to a sum. -/
def addCountM (p : α → Except ε Bool) (l : List α) (sum : M) : Except ε M := do
  let n ← countM p l
  return sum + n

theorem addCountM_nil (sum : M) : addCountM p [] sum = .ok sum := by
  show Except.ok (sum + ((0 : Nat) : M)) = _
  rw [Nat.cast_zero, add_zero]

theorem addCountM_append (l l' : List α) (sum : M) :
    addCountM p (l ++ l') sum = addCountM p l sum >>= addCountM p l' := by
  simp only [addCountM, countM_append, bind_assoc, pure_bind, Nat.cast_add, add_assoc]

theorem addCountM_map {γ : Type*} (f : γ → α) (l : List γ) (sum : M) :
    addCountM p (l.map f) sum = addCountM (fun c ↦ p (f c)) l sum := by
  rw [addCountM, countM_map, addCountM]

/-- What is added to a sum can be found first. -/
theorem addCountM_zero_bind (l : List α) (sum : M) :
    (do let n ← addCountM p l (0 : M); return sum + n) = addCountM p l sum := by
  simp only [addCountM, bind_assoc, pure_bind, zero_add]

theorem addCountM_of_forall {l : List α} {b : Bool} (h : ∀ a ∈ l, p a = .ok b) (sum : M) :
    addCountM p l sum = .ok (if b = true then sum + l.length else sum) := by
  rw [addCountM, countM_of_forall h]
  show Except.ok _ = _
  cases b with
  | false => exact addCountM_nil (p := p) sum
  | true => rfl

/-- Adding up list by list is adding up the joined list. -/
theorem foldlM_addCountM {f : M → γ → Except ε M} {g : γ → List α} {l : List γ}
    (hf : ∀ c ∈ l, ∀ sum, f sum c = addCountM p (g c) sum) (sum : M) :
    l.foldlM f sum = addCountM p (l.flatMap g) sum := by
  induction l generalizing sum with
  | nil => exact (addCountM_nil sum).symm
  | cons c l ih =>
    rw [List.foldlM_cons, hf c List.mem_cons_self, List.flatMap_cons, addCountM_append]
    congr 1
    funext sum
    exact ih (fun c' hc' ↦ hf c' (List.mem_cons_of_mem c hc')) sum

end Sum

end Ixion.Lib
