import Mathlib.Algebra.BigOperators.Group.List.Basic
import Mathlib.Data.Nat.Cast.Basic
import Mathlib.Tactic.Basic

/-!
# Loops over readings

In each step of a loop something is read, which may fail; what has been read is then worked into
the state.  Either all readings succeed, and the loop is one over their values, or one of them
fails, and the loop fails with its error (`gather_eq_ok`, `gather_eq_error`).  Which of the two it
is does not depend on the order of the loop.

A loop that goes on as long as it reads one of two values (`scan`) tells whether all of them are
that one, unless something fails before the first other one.
-/

namespace Ixion.Lib

universe u v

variable {α : Type u} {β γ ε : Type v} {read : α → Except ε γ} {put : β → α → γ → β} {l : List α}

/-- Read something in each step, and work it into the state. -/
def gather (read : α → Except ε γ) (put : β → α → γ → β) (l : List α) (b : β) : Except ε β :=
  l.foldlM (fun b a ↦ (read a).map (put b a)) b

theorem gather_cons (a : α) (l : List α) (b : β) :
    gather read put (a :: l) b = (read a).bind fun c ↦ gather read put l (put b a c) := by
  rw [gather, List.foldlM_cons]
  cases read a with
  | error e => rfl
  | ok c => rfl

/-- A loop can be stopped and go on. -/
theorem gather_append (l l' : List α) (b : β) :
    gather read put (l ++ l') b = (gather read put l b).bind (gather read put l') := by
  rw [gather, List.foldlM_append]
  rfl

/-- A loop that collects readings is one that reads them all and then collects them. -/
theorem map_mapM_eq_gather {δ : Type v} {read' : α → Except ε γ} (values : γ → List δ)
    (h : ∀ a ∈ l, read' a = read a) (b : List δ) :
    (l.mapM read').map (fun cs ↦ b ++ cs.flatMap values) =
      gather read (fun b _ c ↦ b ++ values c) l b := by
  induction l generalizing b with
  | nil => exact congrArg Except.ok (List.append_nil b)
  | cons a l ih =>
    have ih := ih fun a' ha' ↦ h a' (List.mem_cons_of_mem a ha')
    rw [List.mapM_cons, gather_cons, h a List.mem_cons_self]
    cases read a with
    | error e => rfl
    | ok c =>
      show _ = gather read (fun b _ c ↦ b ++ values c) l (b ++ values c)
      rw [← ih]
      show ((l.mapM read').bind _).map _ = _
      cases l.mapM read' with
      | error e => rfl
      | ok cs =>
        show Except.ok (b ++ (c :: cs).flatMap values) =
          Except.ok (b ++ values c ++ cs.flatMap values)
        rw [List.flatMap_cons, List.append_assoc]

/-- A loop whose steps succeed. -/
theorem foldlM_eq_ok {step : β → α → Except ε β} {step' : β → α → β}
    (h : ∀ b, ∀ a ∈ l, step b a = .ok (step' b a)) (b : β) :
    l.foldlM step b = .ok (l.foldl step' b) := by
  induction l generalizing b with
  | nil => rfl
  | cons a l ih =>
    rw [List.foldlM_cons, h b a List.mem_cons_self]
    exact ih (fun b a' ha' ↦ h b a' (List.mem_cons_of_mem a ha')) _

/-- A loop whose readings succeed is one over their values. -/
theorem gather_eq_ok {value : α → γ} (h : ∀ a ∈ l, read a = .ok (value a)) (b : β) :
    gather read put l b = .ok (l.foldl (fun b a ↦ put b a (value a)) b) := by
  refine foldlM_eq_ok (fun b a ha ↦ ?_) b
  rw [h a ha]
  rfl

/-- A loop with a reading that fails does. -/
theorem gather_eq_error (put : β → α → γ → β) (h : ∃ a ∈ l, ∃ e, read a = .error e) (b : β) :
    ∃ a ∈ l, ∃ e, read a = .error e ∧ gather read put l b = .error e := by
  induction l generalizing b with
  | nil =>
    obtain ⟨a, ha, -⟩ := h
    exact nomatch ha
  | cons a l ih =>
    rw [gather_cons]
    cases ha : read a with
    | error e => exact ⟨a, List.mem_cons_self, e, ha, rfl⟩
    | ok c =>
      obtain ⟨a', ha', e, he⟩ := h
      rcases List.mem_cons.mp ha' with rfl | hmem
      · exact nomatch ha.symm.trans he
      · obtain ⟨a'', hmem'', e', he', hgather⟩ := ih ⟨a', hmem, e, he⟩ (put b a c)
        exact ⟨a'', List.mem_cons_of_mem a hmem'', e', he', hgather⟩

/-- All readings succeed, or one of them fails. -/
theorem values_or_error [Inhabited γ] (read : α → Except ε γ) (l : List α) :
    (∃ value : α → γ, ∀ a ∈ l, read a = .ok (value a)) ∨ ∃ a ∈ l, ∃ e, read a = .error e := by
  by_cases h : ∃ a ∈ l, ∃ e, read a = .error e
  · exact .inr h
  · refine .inl ⟨fun a ↦ match read a with | .ok c => c | .error _ => default, fun a ha ↦ ?_⟩
    cases hread : read a with
    | ok c =>
      dsimp only
      rw [hread]
    | error e => exact absurd ⟨a, ha, e, hread⟩ h

/-- Loops with the same steps. -/
theorem foldlM_congr {m : Type v → Type v} [Monad m] {step step' : β → α → m β}
    (h : ∀ b, ∀ a ∈ l, step b a = step' b a) (b : β) : l.foldlM step b = l.foldlM step' b := by
  induction l generalizing b with
  | nil => rfl
  | cons a l ih =>
    rw [List.foldlM_cons, List.foldlM_cons, h b a List.mem_cons_self]
    exact congrArg (step' b a >>= ·) (funext
      (ih fun b a' ha' ↦ h b a' (List.mem_cons_of_mem a ha')))

/-- A loop in a loop. -/
theorem foldlM_flatMap {m : Type v → Type v} [Monad m] [LawfulMonad m] {δ : Type u}
    (f : δ → List α) (g : β → α → m β) (l : List δ) (b : β) :
    (l.flatMap f).foldlM g b = l.foldlM (fun b d ↦ (f d).foldlM g b) b := by
  induction l generalizing b with
  | nil => rfl
  | cons d l ih =>
    rw [List.flatMap_cons, List.foldlM_append, List.foldlM_cons]
    exact congrArg ((f d).foldlM g b >>= ·) (funext ih)

/-- A loop that adds up. -/
theorem foldl_add_eq {M : Type v} [AddCommMonoid M] (value : α → M) (l : List α) (b : M) :
    l.foldl (fun b a ↦ b + value a) b = b + (l.map value).sum := by
  induction l generalizing b with
  | nil => exact (add_zero b).symm
  | cons a l ih => rw [List.foldl_cons, ih, List.map_cons, List.sum_cons, add_assoc]

/-- A loop that adds up and counts. -/
theorem foldl_add_count_eq {M : Type v} [AddCommMonoidWithOne M] (value : α → M) (l : List α)
    (b : M × M) :
    l.foldl (fun b a ↦ (b.1 + value a, b.2 + 1)) b = (b.1 + (l.map value).sum, b.2 + l.length) := by
  induction l generalizing b with
  | nil =>
    exact Prod.ext (add_zero b.1).symm ((congrArg (b.2 + ·) Nat.cast_zero).trans (add_zero _)).symm
  | cons a l ih =>
    rw [List.foldl_cons, ih, List.map_cons, List.sum_cons, List.length_cons, Nat.cast_succ,
      add_assoc, add_assoc, add_comm (1 : M)]

/-- A loop that keeps the greater of two keeps the greatest. -/
theorem foldl_choose (le : β → β → Prop) (choose : β → β → β) (hrefl : ∀ b, le b b)
    (htrans : ∀ {a b c}, le a b → le b c → le a c)
    (hchoose : ∀ a b, choose a b = a ∨ choose a b = b)
    (hle : ∀ a b, le a (choose a b) ∧ le b (choose a b)) (l : List β) (b : β) :
    l.foldl choose b ∈ b :: l ∧ ∀ a ∈ b :: l, le a (l.foldl choose b) := by
  induction l generalizing b with
  | nil =>
    refine ⟨List.mem_cons_self, fun a ha ↦ ?_⟩
    rw [List.mem_singleton.mp ha]
    exact hrefl b
  | cons c l ih =>
    obtain ⟨hmem, hmax⟩ := ih (choose b c)
    rw [List.foldl_cons]
    have hchosen := hmax (choose b c) List.mem_cons_self
    constructor
    · rcases List.mem_cons.mp hmem with heq | hmem
      · rw [heq]
        rcases hchoose b c with h | h
        · rw [h]
          exact List.mem_cons_self
        · rw [h]
          exact List.mem_cons_of_mem b List.mem_cons_self
      · exact List.mem_cons_of_mem b (List.mem_cons_of_mem c hmem)
    · intro a ha
      rcases List.mem_cons.mp ha with rfl | ha
      · exact htrans (hle a c).1 hchosen
      · rcases List.mem_cons.mp ha with rfl | ha
        · exact htrans (hle b a).2 hchosen
        · exact hmax a (List.mem_cons_of_mem _ ha)

/-! ## Orders of a loop -/

section Alike

variable {E : ε → Prop} {x y z : Except ε β}

/-- Both fail, with errors of a kind, or the outcome is the same. -/
def Alike (E : ε → Prop) (x y : Except ε β) : Prop :=
  x = y ∨ (∃ e, E e ∧ x = .error e) ∧ ∃ e, E e ∧ y = .error e

theorem Alike.symm (h : Alike E x y) : Alike E y x := by
  rcases h with h | ⟨hx, hy⟩
  · exact .inl h.symm
  · exact .inr ⟨hy, hx⟩

/-- What is done with outcomes that are alike has outcomes that are. -/
theorem Alike.bind {δ : Type v} (h : Alike E x y) (k : β → Except ε δ) :
    Alike E (x.bind k) (y.bind k) := by
  rcases h with rfl | ⟨⟨e, he, rfl⟩, e', he', rfl⟩
  · exact .inl rfl
  · exact .inr ⟨⟨e, he, rfl⟩, e', he', rfl⟩

theorem Alike.map {δ : Type v} (h : Alike E x y) (g : β → δ) : Alike E (x.map g) (y.map g) := by
  rcases h with rfl | ⟨⟨e, he, rfl⟩, e', he', rfl⟩
  · exact .inl rfl
  · exact .inr ⟨⟨e, he, rfl⟩, e', he', rfl⟩

/-- Loops over the same readings are alike if the order does not matter to what is made of their
values. -/
theorem alike_gather [Inhabited γ] {l' : List α} (put : β → α → γ → β) (b : β)
    (hE : ∀ a e, read a = .error e → E e) (hmem : ∀ a, a ∈ l ↔ a ∈ l') {δ : Type v} (g : β → δ)
    (h : ∀ value : α → γ, g (l.foldl (fun b a ↦ put b a (value a)) b) =
      g (l'.foldl (fun b a ↦ put b a (value a)) b)) :
    Alike E ((gather read put l b).map g) ((gather read put l' b).map g) := by
  rcases values_or_error read l with ⟨value, hvalue⟩ | ⟨a, ha, hfails⟩
  · have hvalue' : ∀ a ∈ l', read a = .ok (value a) := fun a ha ↦ hvalue a ((hmem a).mpr ha)
    rw [gather_eq_ok hvalue, gather_eq_ok hvalue']
    exact .inl (congrArg Except.ok (h value))
  · obtain ⟨a₁, -, e₁, he₁, hgather₁⟩ := gather_eq_error put ⟨a, ha, hfails⟩ b
    obtain ⟨a₂, -, e₂, he₂, hgather₂⟩ :=
      gather_eq_error put ⟨a, (hmem a).mp ha, hfails⟩ b
    rw [hgather₁, hgather₂]
    exact .inr ⟨⟨e₁, hE a₁ e₁ he₁, rfl⟩, e₂, hE a₂ e₂ he₂, rfl⟩

/-- What is added up does not depend on the order. -/
theorem alike_gather_add {M : Type v} [AddCommMonoid M] [Inhabited M] {read : α → Except ε M}
    {l' : List α} (hE : ∀ a e, read a = .error e → E e) (hperm : l.Perm l') (b : M) :
    Alike E (gather read (fun b _ v ↦ b + v) l b) (gather read (fun b _ v ↦ b + v) l' b) := by
  have h := alike_gather (fun (b : M) (_ : α) v ↦ b + v) b hE
    (fun a ↦ hperm.mem_iff) id fun value ↦ by
      rw [foldl_add_eq, foldl_add_eq, (hperm.map value).sum_eq]
  rw [Except.map_id] at h
  exact h

end Alike

/-! ## Errors of two kinds -/

section StepOutcome

variable {E : ε → Prop} {fatal : ε}

/-- A computation has a value if it is good, a fatal error if it is bad, and otherwise an error of
some kind. -/
structure StepOutcome (E : ε → Prop) (fatal : ε) (good bad : Prop) (x : Except ε β) (b : β) :
    Prop where
  ok : good → x = .ok b
  fatal : bad → x = .error fatal
  error : ¬good → ¬bad → ∃ e, E e ∧ x = .error e

/-- Before anything that is not good there is something bad. -/
def FirstBad (good bad : α → Prop) (l : List α) : Prop :=
  ∃ l₁ a l₂, l = l₁ ++ a :: l₂ ∧ (∀ a' ∈ l₁, good a') ∧ bad a

theorem firstBad_cons_iff {good bad : α → Prop} {a : α} :
    FirstBad good bad (a :: l) ↔ bad a ∨ good a ∧ FirstBad good bad l := by
  constructor
  · rintro ⟨l₁, a', l₂, heq, hgood, hbad⟩
    cases l₁ with
    | nil =>
      obtain ⟨rfl, -⟩ := List.cons.inj heq
      exact .inl hbad
    | cons c l₁ =>
      obtain ⟨rfl, hrest⟩ := List.cons.inj heq
      exact .inr ⟨hgood _ List.mem_cons_self, l₁, a', l₂, hrest,
        fun a'' ha'' ↦ hgood a'' (List.mem_cons_of_mem _ ha''), hbad⟩
  · rintro (hbad | ⟨hgood, l₁, a', l₂, rfl, hgood', hbad⟩)
    · exact ⟨[], a, l, rfl, nofun, hbad⟩
    · exact ⟨a :: l₁, a', l₂, rfl, List.forall_mem_cons.mpr ⟨hgood, hgood'⟩, hbad⟩

/-- Where nothing is good once something is bad, only the first one can be. -/
theorem firstBad_iff_head {good bad : α → Prop}
    (h : ∀ a ∈ l, ∀ a' ∈ l, bad a → ¬good a') : FirstBad good bad l ↔ ∃ a ∈ l.head?, bad a := by
  cases l with
  | nil =>
    refine ⟨?_, fun ⟨a, ha, _⟩ ↦ nomatch ha⟩
    rintro ⟨l₁, a, l₂, heq, -⟩
    exact absurd heq.symm (List.append_ne_nil_of_right_ne_nil _ (List.cons_ne_nil _ _))
  | cons a l =>
    rw [firstBad_cons_iff]
    constructor
    · rintro (hbad | ⟨hgood, l₁, a', l₂, rfl, -, hbad⟩)
      · exact ⟨a, rfl, hbad⟩
      · refine absurd hgood (h a' ?_ a List.mem_cons_self hbad)
        exact List.mem_cons_of_mem a (List.mem_append_right _ List.mem_cons_self)
    · rintro ⟨a', ha', hbad⟩
      obtain rfl := Option.some.inj ha'
      exact .inl hbad

theorem StepOutcome.congr {good bad good' bad' : Prop} {x : Except ε β} {b : β}
    (h : StepOutcome E fatal good bad x b) (hgood : good' ↔ good) (hbad : bad' ↔ bad) :
    StepOutcome E fatal good' bad' x b :=
  ⟨fun h' ↦ h.ok (hgood.mp h'), fun h' ↦ h.fatal (hbad.mp h'),
    fun h' h'' ↦ h.error (mt hgood.mpr h') (mt hbad.mpr h'')⟩

theorem StepOutcome.map {good bad : Prop} {x : Except ε β} {b : β} {δ : Type v}
    (h : StepOutcome E fatal good bad x b) (g : β → δ) :
    StepOutcome E fatal good bad (x.map g) (g b) := by
  refine ⟨fun hgood ↦ ?_, fun hbad ↦ ?_, fun hgood hbad ↦ ?_⟩
  · rw [h.ok hgood]
    rfl
  · rw [h.fatal hbad]
    rfl
  · obtain ⟨e, he, herror⟩ := h.error hgood hbad
    rw [herror]
    exact ⟨e, he, rfl⟩

/-- A value is the one that there should be. -/
theorem StepOutcome.eq_of_ok {good bad : Prop} {x : Except ε β} {b b' : β}
    (h : StepOutcome E fatal good bad x b) (hx : x = .ok b') : b' = b := by
  by_cases hgood : good
  · exact Except.ok.inj (hx.symm.trans (h.ok hgood))
  · by_cases hbad : bad
    · exact nomatch hx.symm.trans (h.fatal hbad)
    · obtain ⟨e, -, herror⟩ := h.error hgood hbad
      exact nomatch hx.symm.trans herror

/-- A loop has the outcome of the first step that is not good. -/
theorem outcome_foldlM {good bad : α → Prop} {step : β → α → Except ε β} {put : β → α → β}
    (h : ∀ a ∈ l, ∀ b, StepOutcome E fatal (good a) (bad a) (step b a) (put b a)) (b : β) :
    StepOutcome E fatal (∀ a ∈ l, good a) (FirstBad good bad l) (l.foldlM step b)
    (l.foldl put b) := by
  induction l generalizing b with
  | nil =>
    refine ⟨fun _ ↦ rfl, ?_, fun hno ↦ absurd (fun a ha ↦ absurd ha List.not_mem_nil) hno⟩
    rintro ⟨l₁, a, l₂, heq, -⟩
    exact absurd heq.symm (List.append_ne_nil_of_right_ne_nil _ (List.cons_ne_nil _ _))
  | cons a l ih =>
    have hstep := h a List.mem_cons_self b
    rw [List.foldlM_cons, List.foldl_cons]
    have ih := ih (fun a' ha' ↦ h a' (List.mem_cons_of_mem a ha')) (put b a)
    by_cases hgood : good a
    · have hnot : ¬bad a := fun hbad ↦ nomatch (hstep.ok hgood).symm.trans (hstep.fatal hbad)
      rw [hstep.ok hgood]
      refine ih.congr ?_ ?_
      · rw [List.forall_mem_cons]
        exact and_iff_right hgood
      · rw [firstBad_cons_iff]
        exact (or_iff_right hnot).trans (and_iff_right hgood)
    · by_cases hbad : bad a
      · rw [hstep.fatal hbad]
        exact ⟨fun hall ↦ absurd (hall a List.mem_cons_self) hgood, fun _ ↦ rfl,
          fun _ hno ↦ absurd (firstBad_cons_iff.mpr (.inl hbad)) hno⟩
      · obtain ⟨e, he, herror⟩ := hstep.error hgood hbad
        rw [herror]
        refine ⟨fun hall ↦ absurd (hall a List.mem_cons_self) hgood, fun hfirst ↦ ?_,
          fun _ _ ↦ ⟨e, he, rfl⟩⟩
        rcases firstBad_cons_iff.mp hfirst with hbad' | ⟨hgood', -⟩
        · exact absurd hbad' hbad
        · exact absurd hgood' hgood

/-- What is done with the value of a computation may fail as well. -/
theorem StepOutcome.bind {good bad good' bad' : Prop} {x : Except ε β} {b : β} {δ : Type v}
    {k : β → Except ε δ} {d : δ} (h : StepOutcome E fatal good bad x b)
    (hk : good → StepOutcome E fatal good' bad' (k b) d) :
    StepOutcome E fatal (good ∧ good') (bad ∨ good ∧ bad') (x >>= k) d := by
  by_cases hgood : good
  · have hnot : ¬bad := fun hbad ↦ nomatch (h.ok hgood).symm.trans (h.fatal hbad)
    rw [h.ok hgood]
    exact (hk hgood).congr (and_iff_right hgood)
      ((or_iff_right hnot).trans (and_iff_right hgood))
  · by_cases hbad : bad
    · rw [h.fatal hbad]
      exact ⟨fun hboth ↦ absurd hboth.1 hgood, fun _ ↦ rfl, fun _ hno ↦ absurd (.inl hbad) hno⟩
    · obtain ⟨e, he, herror⟩ := h.error hgood hbad
      rw [herror]
      refine ⟨fun hboth ↦ absurd hboth.1 hgood, fun hor ↦ ?_, fun _ _ ↦ ⟨e, he, rfl⟩⟩
      rcases hor with hbad' | ⟨hgood', -⟩
      · exact absurd hbad' hbad
      · exact absurd hgood' hgood

end StepOutcome

/-! ## Loops that stop early -/

section Scan

variable {ε : Type} {read : α → Except ε Bool} {good bad good' bad' : α → Prop} {d b : Bool}

/-- Go on as long as what is read is a given value. -/
def scan (d : Bool) (read : α → Except ε Bool) : List α → Except ε Bool
  | [] => .ok d
  | a :: l => do
    let b ← read a
    if b = d then scan d read l else return b

theorem scan_cons_of_ok {a : α} (h : read a = .ok d) : scan d read (a :: l) = scan d read l := by
  rw [scan, h]
  exact if_pos rfl

theorem scan_cons_of_ne {a : α} (h : read a = .ok b) (hb : b ≠ d) :
    scan d read (a :: l) = .ok b := by
  rw [scan, h]
  exact if_neg hb

theorem scan_cons_of_error {a : α} {e : ε} (h : read a = .error e) :
    scan d read (a :: l) = .error e := by
  rw [scan, h]
  rfl

/-- The loop goes on to the end. -/
theorem scan_eq_ok_self_iff : scan d read l = .ok d ↔ ∀ a ∈ l, read a = .ok d := by
  induction l with
  | nil => exact ⟨fun _ ↦ nofun, fun _ ↦ rfl⟩
  | cons a l ih =>
    rw [List.forall_mem_cons, ← ih]
    cases h : read a with
    | error e =>
      rw [scan_cons_of_error h]
      exact ⟨fun h ↦ (nomatch h), fun h ↦ (nomatch h.1)⟩
    | ok b =>
      by_cases hb : b = d
      · subst hb
        rw [scan_cons_of_ok h]
        exact (and_iff_right rfl).symm
      · rw [scan_cons_of_ne h hb]
        exact ⟨fun h ↦ absurd (Except.ok.inj h) hb, fun h ↦ absurd (Except.ok.inj h.1) hb⟩

/-- The loop ends with the first other value, before which nothing fails. -/
theorem scan_eq_ok_not_iff :
    scan d read l = .ok (!d) ↔
      FirstBad (fun a ↦ read a = .ok d) (fun a ↦ read a = .ok (!d)) l := by
  have hne : (!d) ≠ d := by cases d <;> decide
  induction l with
  | nil =>
    refine ⟨fun h ↦ absurd (Except.ok.inj h).symm hne, ?_⟩
    rintro ⟨l₁, a, l₂, heq, -⟩
    exact absurd heq.symm (List.append_ne_nil_of_right_ne_nil _ (List.cons_ne_nil _ _))
  | cons a l ih =>
    rw [firstBad_cons_iff, ih.symm]
    cases h : read a with
    | error e =>
      rw [scan_cons_of_error h]
      exact ⟨fun h ↦ (nomatch h), fun h ↦ h.elim (fun h ↦ (nomatch h)) fun h ↦ (nomatch h.1)⟩
    | ok b =>
      by_cases hb : b = d
      · subst hb
        rw [scan_cons_of_ok h, and_iff_right rfl]
        exact (or_iff_right fun h ↦ hne (Except.ok.inj h).symm).symm
      · obtain rfl : b = !d := Bool.eq_not_of_ne hb
        rw [scan_cons_of_ne h hb]
        exact ⟨fun _ ↦ .inl rfl, fun _ ↦ rfl⟩

/-- The loop fails where something fails before there is another value. -/
theorem scan_eq_error_iff : (∃ e, scan d read l = .error e) ↔
    FirstBad (fun a ↦ read a = .ok d) (fun a ↦ ∃ e, read a = .error e) l := by
  induction l with
  | nil =>
    refine ⟨fun ⟨e, h⟩ ↦ (nomatch h), ?_⟩
    rintro ⟨l₁, a, l₂, heq, -⟩
    exact absurd heq.symm (List.append_ne_nil_of_right_ne_nil _ (List.cons_ne_nil _ _))
  | cons a l ih =>
    rw [firstBad_cons_iff, ← ih]
    cases h : read a with
    | error e =>
      rw [scan_cons_of_error h]
      exact ⟨fun _ ↦ .inl ⟨e, rfl⟩, fun _ ↦ ⟨e, rfl⟩⟩
    | ok b =>
      have hno : ¬∃ e, (Except.ok b : Except ε Bool) = .error e := fun ⟨e, h⟩ ↦ (nomatch h)
      rw [or_iff_right hno]
      by_cases hb : b = d
      · subst hb
        rw [scan_cons_of_ok h, and_iff_right rfl]
      · rw [scan_cons_of_ne h hb]
        exact ⟨fun h ↦ absurd h hno, fun h ↦ absurd (Except.ok.inj h.1) hb⟩

/-- A loop in which nothing fails finds out whether all values are the given one. -/
theorem scan_eq_ok {value : α → Bool} (h : ∀ a ∈ l, read a = .ok (value a)) :
    scan d read l = .ok (if ∀ a ∈ l, value a = d then d else !d) := by
  split
  case isTrue hall =>
    refine scan_eq_ok_self_iff.mpr fun a ha ↦ ?_
    rw [h a ha, hall a ha]
  case isFalse hex =>
    cases hscan : scan d read l with
    | error e =>
      obtain ⟨l₁, a, l₂, rfl, -, e, he⟩ := scan_eq_error_iff.mp ⟨e, hscan⟩
      rw [h a (List.mem_append_right _ List.mem_cons_self)] at he
      exact nomatch he
    | ok b =>
      refine congrArg Except.ok (Bool.eq_not_of_ne fun hb ↦ hex fun a ha ↦ ?_)
      have hread := scan_eq_ok_self_iff.mp (hb ▸ hscan) a ha
      rw [h a ha] at hread
      exact Except.ok.inj hread

/-- Of what is bad there is a first one. -/
theorem firstBad_iff_of_good (hgood : ∀ a ∈ l, good' a ↔ good a ∧ ¬bad a)
    (hbad : ∀ a ∈ l, bad' a ↔ bad a) : FirstBad good' bad' l ↔ FirstBad good bad l := by
  induction l with
  | nil =>
    have hnil (good bad : α → Prop) : ¬FirstBad good bad [] := by
      rintro ⟨l₁, a, l₂, heq, -⟩
      exact absurd heq.symm (List.append_ne_nil_of_right_ne_nil _ (List.cons_ne_nil _ _))
    exact iff_of_false (hnil _ _) (hnil _ _)
  | cons a l ih =>
    rw [firstBad_cons_iff, firstBad_cons_iff, hgood a List.mem_cons_self,
      hbad a List.mem_cons_self, ih (fun a' ha' ↦ hgood a' (List.mem_cons_of_mem a ha'))
        fun a' ha' ↦ hbad a' (List.mem_cons_of_mem a ha')]
    by_cases hbad : bad a
    · exact iff_of_true (.inl hbad) (.inl hbad)
    · rw [and_iff_left hbad]

/-- The first in a list is the last in its reverse. -/
theorem firstBad_reverse_iff :
    FirstBad good bad l.reverse ↔
      ∃ l₁ a l₂, l = l₁ ++ a :: l₂ ∧ bad a ∧ ∀ a' ∈ l₂, good a' := by
  constructor
  · rintro ⟨l₁, a, l₂, heq, hgood, hbad⟩
    refine ⟨l₂.reverse, a, l₁.reverse, ?_, hbad, fun a' ha' ↦ hgood a' (List.mem_reverse.mp ha')⟩
    rw [← List.reverse_reverse l, heq]
    simp only [List.reverse_append, List.reverse_cons, List.append_assoc, List.singleton_append]
  · rintro ⟨l₁, a, l₂, rfl, hbad, hgood⟩
    refine ⟨l₂.reverse, a, l₁.reverse, ?_, fun a' ha' ↦ hgood a' (List.mem_reverse.mp ha'), hbad⟩
    simp only [List.reverse_append, List.reverse_cons, List.append_assoc, List.singleton_append]

end Scan

end Ixion.Lib
