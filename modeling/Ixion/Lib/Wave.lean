import Ixion.Lib.Loop
import Ixion.Lib.Container
import Mathlib.Logic.Relation

/-!
# Spreading a set along a relation in waves

From a set of *current* elements one *wave* collects everything that is affected
by one of them; what the wave reaches for the first time is current in the next
one.  `wave` is one round, `spread` repeats it until nothing new is reached.

The result is the transitive closure: `mem_spread_iff`.  A wave may also keep a
record of the pairs it has seen, and `recorded_spread_iff` says that after the
last wave no pair is missing: every element that was ever current has all its
pairs recorded.
-/

namespace Ixion.Lib

open UnorderedSet Relation

universe u v w

variable {S : Type u} {α : Type v} {ρ : Type w} [UnorderedSet S α] [DecidableEq α]

/-- The state of a wave: the record, the elements reached so far, and those
reached for the first time in this wave. -/
structure WaveState (S : Type u) (ρ : Type w) where
  record : ρ
  reached : S
  next : S

/-- Visit one element `r` affected by `m`. -/
def WaveState.visit (note : ρ → α → α → ρ) (m : α) (st : WaveState S ρ) (r : α) :
    WaveState S ρ where
  record := note st.record r m
  reached := insert st.reached r
  next := if r ∈ toList st.reached then st.next else insert st.next r

/-- Visit everything affected by `m`. -/
def WaveState.visitAll (affected : α → S) (note : ρ → α → α → ρ) (st : WaveState S ρ) (m : α) :
    WaveState S ρ :=
  (toList (affected m)).foldl (WaveState.visit note m) st

/-- One wave from the elements of `current`. -/
def wave (affected : α → S) (note : ρ → α → α → ρ) (record : ρ) (reached current : S) :
    WaveState S ρ :=
  (toList current).foldl (WaveState.visitAll affected note) ⟨record, reached, empty⟩

/-! ## What one wave does -/

section Wave

variable {affected : α → S} {note : ρ → α → α → ρ}

/-- The elements a list of elements affects. -/
def AffectedBy (affected : α → S) (l : List α) (a : α) : Prop :=
  ∃ m ∈ l, a ∈ toList (affected m)

omit [DecidableEq α] in
theorem affectedBy_cons {m : α} {l : List α} {a : α} :
    AffectedBy affected (m :: l) a ↔ a ∈ toList (affected m) ∨ AffectedBy affected l a := by
  simp only [AffectedBy, List.exists_mem_cons_iff]

theorem mem_reached_foldl_visit {m : α} (l : List α) (st : WaveState S ρ) {a : α} :
    a ∈ toList (l.foldl (WaveState.visit note m) st).reached ↔ a ∈ l ∨ a ∈ toList st.reached := by
  induction l generalizing st with
  | nil => simp
  | cons r l ih =>
    rw [List.foldl_cons, ih, WaveState.visit, mem_toList_insert, List.mem_cons]
    tauto

theorem mem_next_foldl_visit {m : α} (l : List α) (st : WaveState S ρ) {a : α} :
    a ∈ toList (l.foldl (WaveState.visit note m) st).next ↔
      (a ∈ l ∧ a ∉ toList st.reached) ∨ a ∈ toList st.next := by
  induction l generalizing st with
  | nil => simp
  | cons r l ih =>
    rw [List.foldl_cons, ih]
    by_cases hr : r ∈ toList st.reached
    · simp only [WaveState.visit, if_pos hr, mem_toList_insert, List.mem_cons]
      constructor
      · rintro (⟨h, hn⟩ | h)
        · exact .inl ⟨.inr h, fun hc ↦ hn (.inr hc)⟩
        · exact .inr h
      · rintro (⟨rfl | h, hn⟩ | h)
        · exact absurd hr hn
        · exact .inl ⟨h, fun hc ↦ hc.elim (fun e ↦ hn (e ▸ hr)) hn⟩
        · exact .inr h
    · simp only [WaveState.visit, if_neg hr, mem_toList_insert, List.mem_cons]
      constructor
      · rintro (⟨h, hn⟩ | rfl | h)
        · exact .inl ⟨.inr h, fun hc ↦ hn (.inr hc)⟩
        · exact .inl ⟨.inl rfl, hr⟩
        · exact .inr h
      · rintro (⟨rfl | h, hn⟩ | h)
        · exact .inr (.inl rfl)
        · by_cases e : a = r
          · exact .inr (.inl e)
          · exact .inl ⟨h, fun hc ↦ hc.elim e hn⟩
        · exact .inr (.inr h)

theorem mem_reached_foldl_visitAll (l : List α) (st : WaveState S ρ) {a : α} :
    a ∈ toList (l.foldl (WaveState.visitAll affected note) st).reached ↔
      AffectedBy affected l a ∨ a ∈ toList st.reached := by
  induction l generalizing st with
  | nil => simp [AffectedBy]
  | cons m l ih =>
    rw [List.foldl_cons, ih, WaveState.visitAll, mem_reached_foldl_visit, affectedBy_cons]
    tauto

theorem mem_next_foldl_visitAll (l : List α) (st : WaveState S ρ) {a : α} :
    a ∈ toList (l.foldl (WaveState.visitAll affected note) st).next ↔
      (AffectedBy affected l a ∧ a ∉ toList st.reached) ∨ a ∈ toList st.next := by
  induction l generalizing st with
  | nil => simp [AffectedBy]
  | cons m l ih =>
    rw [List.foldl_cons, ih, WaveState.visitAll, mem_next_foldl_visit, mem_reached_foldl_visit,
      affectedBy_cons]
    tauto

/-- A wave reaches what was reached before and what the current elements
affect. -/
theorem mem_reached_wave {record : ρ} {reached current : S} {a : α} :
    a ∈ toList (wave affected note record reached current).reached ↔
      AffectedBy affected (toList current) a ∨ a ∈ toList reached :=
  mem_reached_foldl_visitAll _ _

/-- The next wave starts from what this one reached for the first time. -/
theorem mem_next_wave {record : ρ} {reached current : S} {a : α} :
    a ∈ toList (wave affected note record reached current).next ↔
      AffectedBy affected (toList current) a ∧ a ∉ toList reached := by
  rw [wave, mem_next_foldl_visitAll, toList_empty]
  simp

variable {recorded : ρ → α → α → Prop}

theorem recorded_foldl_visit
    (hnote : ∀ s r m a b, recorded (note s r m) a b ↔ (a = r ∧ b = m) ∨ recorded s a b)
    {m : α} (l : List α) (st : WaveState S ρ) {a b : α} :
    recorded (l.foldl (WaveState.visit note m) st).record a b ↔
      (a ∈ l ∧ b = m) ∨ recorded st.record a b := by
  induction l generalizing st with
  | nil => simp
  | cons r l ih =>
    rw [List.foldl_cons, ih, WaveState.visit, hnote, List.mem_cons]
    tauto

/-- A wave records the pairs of its current elements. -/
theorem recorded_wave
    (hnote : ∀ s r m a b, recorded (note s r m) a b ↔ (a = r ∧ b = m) ∨ recorded s a b)
    {record : ρ} {reached current : S} {a b : α} :
    recorded (wave affected note record reached current).record a b ↔
      (b ∈ toList current ∧ a ∈ toList (affected b)) ∨ recorded record a b := by
  have key : ∀ (l : List α) (st : WaveState S ρ),
      recorded (l.foldl (WaveState.visitAll affected note) st).record a b ↔
        (b ∈ l ∧ a ∈ toList (affected b)) ∨ recorded st.record a b := by
    intro l
    induction l with
    | nil => simp
    | cons m l ih =>
      intro st
      rw [List.foldl_cons, ih, WaveState.visitAll, recorded_foldl_visit hnote, List.mem_cons]
      constructor
      · rintro (⟨h, ha⟩ | ⟨ha, rfl⟩ | h)
        · exact .inl ⟨.inr h, ha⟩
        · exact .inl ⟨.inl rfl, ha⟩
        · exact .inr h
      · rintro (⟨rfl | h, ha⟩ | h)
        · exact .inr (.inl ⟨ha, rfl⟩)
        · exact .inl ⟨h, ha⟩
        · exact .inr (.inr h)
  exact key _ _

end Wave

/-! ## Waves until nothing new is reached -/

/-- The state between two waves. -/
structure SpreadState (S : Type u) (ρ : Type w) where
  record : ρ
  reached : S
  current : S

/-- One more wave. -/
def SpreadState.step (affected : α → S) (note : ρ → α → α → ρ) (s : SpreadState S ρ) :
    SpreadState S ρ :=
  let st := wave affected note s.record s.reached s.current
  ⟨st.record, st.reached, st.next⟩

/-- How far a spread inside a finite universe `univ` still is from its end: the
elements not reached yet, and one more wave if there are current elements. -/
def SpreadState.left (univ : List α) (s : SpreadState S ρ) : Nat :=
  2 * (univ.filter fun a ↦ decide (a ∉ toList s.reached)).length +
    if isEmpty s.current then 0 else 1

section Spread

variable {affected : α → S} {note : ρ → α → α → ρ} {univ : List α}

/-- A wave from at least one current element makes the distance smaller: either
it reaches something new, or there is no further wave. -/
theorem SpreadState.left_step_lt (hU : ∀ m, ∀ a ∈ toList (affected m), a ∈ univ)
    (s : SpreadState S ρ) (hs : isEmpty s.current = false) :
    (s.step affected note).left univ < s.left univ := by
  have hsub : (univ.filter fun a ↦ decide (a ∉ toList (s.step affected note).reached)).Sublist
      (univ.filter fun a ↦ decide (a ∉ toList s.reached)) := by
    refine List.monotone_filter_right univ fun a ha ↦ ?_
    rw [decide_eq_true_eq] at ha ⊢
    exact fun hc ↦ ha (mem_reached_wave.mpr (.inr hc))
  have hle := hsub.length_le
  rw [left, left, hs]
  cases hn : isEmpty (s.step affected note).current with
  | true => simp only [if_true, if_false, Bool.false_eq_true]; omega
  | false =>
    -- something was reached for the first time, so fewer elements are left
    obtain ⟨a, ha⟩ := isEmpty_eq_false_iff.mp hn
    obtain ⟨⟨m, hm, ham⟩, hnew⟩ := mem_next_wave.mp ha
    have hlt : (univ.filter fun a ↦ decide (a ∉ toList (s.step affected note).reached)).length <
        (univ.filter fun a ↦ decide (a ∉ toList s.reached)).length := by
      refine Nat.lt_of_le_of_ne hle fun heq ↦ ?_
      have hmem : a ∈ univ.filter fun a ↦ decide (a ∉ toList s.reached) :=
        List.mem_filter.mpr ⟨hU m a ham, by simpa using hnew⟩
      rw [← hsub.eq_of_length heq, List.mem_filter, decide_eq_true_eq] at hmem
      exact hmem.2 (mem_reached_wave.mpr (.inl ⟨m, hm, ham⟩))
    simp only [if_false, Bool.false_eq_true]
    omega

/-- Waves until no element is current. -/
def spread (affected : α → S) (note : ρ → α → α → ρ) (univ : List α)
    (hU : ∀ m, ∀ a ∈ toList (affected m), a ∈ univ) (s : SpreadState S ρ) : SpreadState S ρ :=
  loopUntil (fun s ↦ isEmpty s.current) (SpreadState.step affected note)
    (SpreadState.left univ) (SpreadState.left_step_lt hU) s

/-- Nothing is current after the last wave. -/
theorem isEmpty_spread (hU : ∀ m, ∀ a ∈ toList (affected m), a ∈ univ) (s : SpreadState S ρ) :
    isEmpty (spread affected note univ hU s).current = true :=
  (loopUntil_induct (SpreadState.left_step_lt hU) (I := fun _ ↦ True)
    (fun _ _ _ ↦ trivial) trivial).2

/-- One element affects another. -/
def Affects (affected : α → S) (m a : α) : Prop := a ∈ toList (affected m)

/-- What the waves keep true, `s₀` being the state before the first one: only
elements below `s₀.current` are reached, nothing that was reached is lost, and
an element that is not current any more affects only reached elements. -/
structure SpreadInv (affected : α → S) (s₀ s : SpreadState S ρ) : Prop where
  sound : ∀ a ∈ toList s.reached, a ∈ toList s₀.reached ∨
    ∃ c ∈ toList s₀.current, TransGen (Affects affected) c a
  current_mem : ∀ a ∈ toList s.current, a ∈ toList s₀.current ∨ a ∈ toList s.reached
  mono : ∀ a ∈ toList s₀.reached, a ∈ toList s.reached
  closed : ∀ a, a ∈ toList s₀.current ∨ a ∈ toList s.reached → a ∉ toList s.current →
    ∀ b, Affects affected a b → b ∈ toList s.reached

omit [DecidableEq α] in
theorem SpreadInv.init {s₀ : SpreadState S ρ}
    (h₀ : ∀ a ∈ toList s₀.reached, a ∈ toList s₀.current) : SpreadInv affected s₀ s₀ where
  sound _ h := .inl h
  current_mem _ h := .inl h
  mono _ h := h
  closed a h hn := absurd (h.elim id (h₀ a)) hn

theorem SpreadInv.step {s₀ s : SpreadState S ρ}
    (h₀ : ∀ a ∈ toList s₀.reached, a ∈ toList s₀.current) (h : SpreadInv affected s₀ s) :
    SpreadInv affected s₀ (s.step affected note) where
  sound a ha := by
    rcases mem_reached_wave.mp ha with ⟨m, hm, ham⟩ | ha
    · rcases h.current_mem m hm with hc | hr
      · exact .inr ⟨m, hc, .single ham⟩
      · rcases h.sound m hr with h₁ | ⟨c, hc, hcm⟩
        · exact .inr ⟨m, h₀ m h₁, .single ham⟩
        · exact .inr ⟨c, hc, hcm.tail ham⟩
    · exact h.sound a ha
  current_mem a ha := .inr (mem_reached_wave.mpr (.inl (mem_next_wave.mp ha).1))
  mono a ha := mem_reached_wave.mpr (.inr (h.mono a ha))
  closed a ha hn b hab := by
    by_cases hcur : a ∈ toList s.current
    · exact mem_reached_wave.mpr (.inl ⟨a, hcur, hab⟩)
    · have hold : a ∈ toList s₀.current ∨ a ∈ toList s.reached := by
        refine ha.imp_right fun hr ↦ ?_
        by_contra hnr
        -- reached in this wave for the first time, hence current in the next
        exact hn (mem_next_wave.mpr
          ⟨(mem_reached_wave.mp hr).resolve_right hnr, hnr⟩)
      exact mem_reached_wave.mpr (.inr (h.closed a hold hcur b hab))

theorem spreadInv_spread (hU : ∀ m, ∀ a ∈ toList (affected m), a ∈ univ) {s₀ : SpreadState S ρ}
    (h₀ : ∀ a ∈ toList s₀.reached, a ∈ toList s₀.current) :
    SpreadInv affected s₀ (spread affected note univ hU s₀) :=
  (loopUntil_induct (SpreadState.left_step_lt hU)
    (fun _ h _ ↦ h.step h₀) (SpreadInv.init h₀)).1

omit [DecidableEq α] in
/-- An element that was current once affects only reached elements. -/
theorem SpreadInv.closed_of_isEmpty {s₀ s : SpreadState S ρ} (h : SpreadInv affected s₀ s)
    (hs : isEmpty s.current = true) {a b : α}
    (ha : a ∈ toList s₀.current ∨ a ∈ toList s.reached) (hab : Affects affected a b) :
    b ∈ toList s.reached :=
  h.closed a ha (isEmpty_iff.mp hs a) b hab

/-- The spread reaches exactly what was reached before and the transitive
closure of the elements it started from. -/
theorem mem_spread_iff (hU : ∀ m, ∀ a ∈ toList (affected m), a ∈ univ) {s₀ : SpreadState S ρ}
    (h₀ : ∀ a ∈ toList s₀.reached, a ∈ toList s₀.current) {a : α} :
    a ∈ toList (spread affected note univ hU s₀).reached ↔
      a ∈ toList s₀.reached ∨ ∃ c ∈ toList s₀.current, TransGen (Affects affected) c a := by
  have hinv : SpreadInv affected s₀ (spread affected note univ hU s₀) := spreadInv_spread hU h₀
  have hdone : isEmpty (spread affected note univ hU s₀).current = true := isEmpty_spread hU s₀
  constructor
  · exact hinv.sound a
  · rintro (h | ⟨c, hc, hca⟩)
    · exact hinv.mono a h
    · induction hca with
      | single hcb => exact hinv.closed_of_isEmpty hdone (.inl hc) hcb
      | tail _ hbd ih => exact hinv.closed_of_isEmpty hdone (.inr ih) hbd

variable {recorded : ρ → α → α → Prop}

/-- What the waves keep true of the record: exactly the pairs of the elements
that were current before. -/
structure RecordInv (affected : α → S) (recorded : ρ → α → α → Prop)
    (s₀ s : SpreadState S ρ) : Prop where
  sound : ∀ a b, recorded s.record a b →
    Affects affected b a ∧ (b ∈ toList s₀.current ∨ b ∈ toList s.reached)
  complete : ∀ b, b ∈ toList s₀.current ∨ b ∈ toList s.reached → b ∉ toList s.current →
    ∀ a, Affects affected b a → recorded s.record a b

theorem RecordInv.step {s₀ s : SpreadState S ρ}
    (hnote : ∀ s r m a b, recorded (note s r m) a b ↔ (a = r ∧ b = m) ∨ recorded s a b)
    (hinv : SpreadInv affected s₀ s) (h : RecordInv affected recorded s₀ s) :
    RecordInv affected recorded s₀ (s.step affected note) where
  sound a b hab := by
    rcases (recorded_wave hnote).mp hab with ⟨hb, hba⟩ | hab
    · exact ⟨hba, (hinv.current_mem b hb).imp_right fun hr ↦ mem_reached_wave.mpr (.inr hr)⟩
    · exact ⟨(h.sound a b hab).1,
        (h.sound a b hab).2.imp_right fun hr ↦ mem_reached_wave.mpr (.inr hr)⟩
  complete b hb hn a hba := by
    refine (recorded_wave hnote).mpr ?_
    by_cases hcur : b ∈ toList s.current
    · exact .inl ⟨hcur, hba⟩
    · have hold : b ∈ toList s₀.current ∨ b ∈ toList s.reached := by
        refine hb.imp_right fun hr ↦ ?_
        by_contra hnr
        exact hn (mem_next_wave.mpr
          ⟨(mem_reached_wave.mp hr).resolve_right hnr, hnr⟩)
      exact .inr (h.complete b hold hcur a hba)

/-- After the last wave the record holds exactly the pairs `(a, b)` in which `b`
affects `a` and `b` is one of the elements the spread started from or reached. -/
theorem recorded_spread_iff (hU : ∀ m, ∀ a ∈ toList (affected m), a ∈ univ)
    (hnote : ∀ s r m a b, recorded (note s r m) a b ↔ (a = r ∧ b = m) ∨ recorded s a b)
    {s₀ : SpreadState S ρ} (h₀ : ∀ a ∈ toList s₀.reached, a ∈ toList s₀.current)
    (hrec : ∀ a b, ¬ recorded s₀.record a b) {a b : α} :
    recorded (spread affected note univ hU s₀).record a b ↔
      Affects affected b a ∧
        (b ∈ toList s₀.current ∨ b ∈ toList (spread affected note univ hU s₀).reached) := by
  have hinit : SpreadInv affected s₀ s₀ ∧ RecordInv affected recorded s₀ s₀ :=
    ⟨SpreadInv.init h₀, fun a b hab ↦ absurd hab (hrec a b),
      fun b hb hn ↦ absurd (hb.elim id (h₀ b)) hn⟩
  have hinv := (loopUntil_induct (SpreadState.left_step_lt hU)
    (I := fun s ↦ SpreadInv affected s₀ s ∧ RecordInv affected recorded s₀ s)
    (fun s h _ ↦ ⟨h.1.step h₀, h.2.step hnote h.1⟩) hinit).1
  have hdone : isEmpty (spread affected note univ hU s₀).current = true := isEmpty_spread hU s₀
  exact ⟨hinv.2.sound a b, fun h ↦ hinv.2.complete b h.2 (isEmpty_iff.mp hdone b) a h.1⟩

end Spread

end Ixion.Lib
