import Mathlib.Data.List.Basic
import Mathlib.Tactic.Basic

/-!
# Computations that work on a state and may fail

`EStateM ε σ α` is a computation on a state `σ` that returns a value in `α` or
fails with an `ε`; what it did to the state before it failed stays.

`wp x Q E s` says that running `x` from `s` ends in `Q` when it returns and in
`E` when it fails.  The equations below compute it for each way of building a
computation, and `wp_forM` is the rule for loops over a list: an invariant is
indexed by the elements that are still to come.
-/

namespace Ixion.Lib

universe u

variable {ε σ α β : Type u}

/-- From `s`, the computation returns with `Q` or fails with `E`. -/
def wp (x : EStateM ε σ α) (Q : α → σ → Prop) (E : ε → σ → Prop) (s : σ) : Prop :=
  match x s with
  | .ok a s' => Q a s'
  | .error e s' => E e s'

variable {Q : α → σ → Prop} {R : β → σ → Prop} {E : ε → σ → Prop} {s : σ}

/-! ## One equation for each construct -/

theorem bind_apply {x : EStateM ε σ α} {f : α → EStateM ε σ β} : (x >>= f) s =
    match x s with
    | .ok a s' => f a s'
    | .error e s' => .error e s' := rfl

theorem map_apply {x : EStateM ε σ α} {f : α → β} : (f <$> x) s =
    match x s with
    | .ok a s' => .ok (f a) s'
    | .error e s' => .error e s' := rfl

@[simp] theorem wp_pure {a : α} : wp (pure a) Q E s ↔ Q a s := .rfl

@[simp] theorem wp_throw {e : ε} : wp (throw e : EStateM ε σ α) Q E s ↔ E e s := .rfl

@[simp] theorem wp_bind {x : EStateM ε σ α} {f : α → EStateM ε σ β} :
    wp (x >>= f) R E s ↔ wp x (fun a ↦ wp (f a) R E) E s := by
  rw [wp, wp, bind_apply]
  cases x s <;> exact .rfl

@[simp] theorem wp_map {x : EStateM ε σ α} {f : α → β} :
    wp (f <$> x) R E s ↔ wp x (fun a ↦ R (f a)) E s := by
  rw [wp, wp, map_apply]
  cases x s <;> exact .rfl

@[simp] theorem wp_get {Q : σ → σ → Prop} :
    wp (get : EStateM ε σ σ) Q E s ↔ Q s s := .rfl

@[simp] theorem wp_set {Q : PUnit → σ → Prop} {s' : σ} :
    wp (set s' : EStateM ε σ PUnit) Q E s ↔ Q ⟨⟩ s' := .rfl

@[simp] theorem wp_modify {Q : PUnit → σ → Prop} {f : σ → σ} :
    wp (modify f : EStateM ε σ PUnit) Q E s ↔ Q ⟨⟩ (f s) := .rfl

/-! ## Rules -/

/-- A run ends where it ends. -/
theorem wp_run (x : EStateM ε σ α) (s : σ) :
    wp x (fun a s' ↦ x s = .ok a s') (fun e s' ↦ x s = .error e s') s := by
  rw [wp]
  cases x s <;> rfl

/-- The rule of consequence. -/
theorem wp.mono {Q' : α → σ → Prop} {E' : ε → σ → Prop} {x : EStateM ε σ α}
    (h : wp x Q E s) (hQ : ∀ a s', Q a s' → Q' a s') (hE : ∀ e s', E e s' → E' e s') :
    wp x Q' E' s := by
  rw [wp] at h ⊢
  cases hx : x s with
  | ok a s' => rw [hx] at h; exact hQ a s' h
  | error e s' => rw [hx] at h; exact hE e s' h

/-- Two facts about the same run hold together. -/
theorem wp.and {Q' : α → σ → Prop} {E' : ε → σ → Prop} {x : EStateM ε σ α}
    (h : wp x Q E s) (h' : wp x Q' E' s) :
    wp x (fun a s' ↦ Q a s' ∧ Q' a s') (fun e s' ↦ E e s' ∧ E' e s') s := by
  rw [wp] at h h' ⊢
  cases hx : x s with
  | ok a s' => rw [hx] at h h'; exact ⟨h, h'⟩
  | error e s' => rw [hx] at h h'; exact ⟨h, h'⟩

/-- A computation that cannot fail returns. -/
theorem wp.exists_ok {x : EStateM ε σ α} (h : wp x Q (fun _ _ ↦ False) s) :
    ∃ a s', x s = .ok a s' ∧ Q a s' := by
  rw [wp] at h
  cases hx : x s with
  | ok a s' => rw [hx] at h; exact ⟨a, s', rfl, h⟩
  | error e s' => rw [hx] at h; exact h.elim

theorem wp.of_ok {x : EStateM ε σ α} (h : wp x Q E s) {a : α} {s' : σ} (hx : x s = .ok a s') :
    Q a s' := by
  rw [wp, hx] at h
  exact h

theorem wp.of_error {x : EStateM ε σ α} (h : wp x Q E s) {e : ε} {s' : σ}
    (hx : x s = .error e s') : E e s' := by
  rw [wp, hx] at h
  exact h

/-- A run whose end is known. -/
theorem wp_of_eq_ok {x : EStateM ε σ α} {a : α} {s' : σ} (hx : x s = .ok a s') (h : Q a s') :
    wp x Q E s := by
  rw [wp, hx]
  exact h

/-- The loop rule: an invariant over the elements still to come that every
iteration preserves holds at the end, with no element left. -/
theorem wp_forM {l : List β} {f : β → EStateM ε σ PUnit} {I : List β → σ → Prop}
    (hstep : ∀ b rest s, I (b :: rest) s → wp (f b) (fun _ ↦ I rest) E s) (h : I l s) :
    wp (l.forM f) (fun _ ↦ I []) E s := by
  induction l generalizing s with
  | nil => exact h
  | cons b rest ih =>
    change wp (f b >>= fun _ ↦ rest.forM f) _ E s
    rw [wp_bind]
    exact (hstep b rest s h).mono (fun _ _ h' ↦ ih h') (fun _ _ he ↦ he)

/-- A loop over two lists is a loop over one and then over the other. -/
theorem forM_append (l l' : List β) (f : β → EStateM ε σ PUnit) :
    (l ++ l').forM f = (do l.forM f; l'.forM f) := by
  induction l with
  | nil => rfl
  | cons b l ih =>
    show (f b >>= fun _ ↦ (l ++ l').forM f) = _
    rw [ih]
    funext s
    show EStateM.bind _ _ s = EStateM.bind (EStateM.bind _ _) _ s
    unfold EStateM.bind
    cases f b s <;> rfl

/-- A loop each of whose iterations returns under a condition and then changes
the state in one way.  The states that occur are those in the range of `e`. -/
theorem forM_eq_ok_iff {τ : Type u} {e : τ → σ} {f : β → EStateM ε σ PUnit} {g : τ → β → τ}
    {P : β → Prop} {l : List β} {t : τ} {s' : σ}
    (h : ∀ b ∈ l, ∀ t s', f b (e t) = .ok ⟨⟩ s' ↔ P b ∧ s' = e (g t b)) :
    l.forM f (e t) = .ok ⟨⟩ s' ↔ (∀ b ∈ l, P b) ∧ s' = e (l.foldl g t) := by
  induction l generalizing t with
  | nil =>
    refine ⟨fun h ↦ ⟨fun b hb ↦ absurd hb List.not_mem_nil, ?_⟩, fun h ↦ h.2 ▸ rfl⟩
    cases h
    rfl
  | cons b l ih =>
    change (f b >>= fun _ ↦ l.forM f) (e t) = EStateM.Result.ok PUnit.unit s' ↔ _
    rw [bind_apply, List.foldl_cons, List.forall_mem_cons]
    have hb := h b List.mem_cons_self t
    have hl := ih (t := g t b) fun b' hb' ↦ h b' (List.mem_cons_of_mem b hb')
    cases hf : f b (e t) with
    | error _ _ =>
      refine ⟨nofun, fun hc ↦ ?_⟩
      have hok := (hb (e (g t b))).mpr ⟨hc.1.1, rfl⟩
      rw [hf] at hok
      exact absurd hok nofun
    | ok a s'' =>
      obtain ⟨hP, rfl⟩ := (hb s'').mp hf
      rw [hl]
      exact ⟨fun ⟨hall, hs⟩ ↦ ⟨⟨hP, hall⟩, hs⟩, fun ⟨⟨_, hall⟩, hs⟩ ↦ ⟨hall, hs⟩⟩

/-! ## What a computation does in any case -/

section

variable {R : σ → σ → Prop}

/-- Whether the computation returns or fails, the states before and after it are
related. -/
def Respects (R : σ → σ → Prop) (x : EStateM ε σ α) : Prop :=
  ∀ s, wp x (fun _ ↦ R s) (fun _ ↦ R s) s

/-- The relation between a state and the one in which a run ends. -/
theorem Respects.of_ok {x : EStateM ε σ α} (h : Respects R x) {s s' : σ} {a : α}
    (hx : x s = .ok a s') : R s s' :=
  (h s).of_ok hx

theorem Respects.of_error {x : EStateM ε σ α} (h : Respects R x) {s s' : σ} {e : ε}
    (hx : x s = .error e s') : R s s' :=
  (h s).of_error hx

variable [Std.Refl R]

theorem respects_pure (a : α) : Respects R (pure a : EStateM ε σ α) := fun s ↦ Std.Refl.refl s

theorem respects_throw (e : ε) : Respects R (throw e : EStateM ε σ α) := fun s ↦ Std.Refl.refl s

theorem respects_get : Respects R (get : EStateM ε σ σ) := fun s ↦ Std.Refl.refl s

variable [IsTrans σ R]

omit [Std.Refl R] in
theorem Respects.bind {x : EStateM ε σ α} {f : α → EStateM ε σ β} (hx : Respects R x)
    (hf : ∀ a, Respects R (f a)) : Respects R (x >>= f) := by
  intro s
  rw [wp_bind]
  refine (hx s).mono (fun a s' hR ↦ ?_) fun _ _ hR ↦ hR
  exact (hf a s').mono (fun _ _ h ↦ trans_of R hR h) fun _ _ h ↦ trans_of R hR h

theorem respects_forM {l : List β} {f : β → EStateM ε σ PUnit} (hf : ∀ b ∈ l, Respects R (f b)) :
    Respects R (l.forM f) := by
  induction l with
  | nil => exact respects_pure _
  | cons b l ih =>
    exact (hf b List.mem_cons_self).bind fun _ ↦ ih fun b' hb' ↦ hf b' (List.mem_cons_of_mem b hb')

end

/-! ## Collecting lists -/

section

variable {f : α → Except ε (List β)}

/-- Apply a function that may fail to every element and join the lists it
returns. -/
def collectM (f : α → Except ε (List β)) : List α → Except ε (List β)
  | [] => .ok []
  | a :: l =>
    match f a with
    | .error e => .error e
    | .ok bs =>
      match collectM f l with
      | .error e => .error e
      | .ok cs => .ok (bs ++ cs)

theorem collectM_cons_eq_ok_iff {a : α} {l : List α} {r : List β} :
    collectM f (a :: l) = .ok r ↔ ∃ bs cs, f a = .ok bs ∧ collectM f l = .ok cs ∧ r = bs ++ cs := by
  rw [collectM]
  cases f a with
  | error e => exact ⟨nofun, fun ⟨_, _, h, _⟩ ↦ nomatch h⟩
  | ok bs =>
    cases collectM f l with
    | error e => exact ⟨nofun, fun ⟨_, _, _, h, _⟩ ↦ nomatch h⟩
    | ok cs =>
      constructor
      · intro h
        exact ⟨bs, cs, rfl, rfl, (Except.ok.inj h).symm⟩
      · rintro ⟨_, _, h₁, h₂, rfl⟩
        cases h₁
        cases h₂
        rfl

/-- What has been collected comes from one of the elements. -/
theorem mem_collectM {l : List α} {r : List β} (h : collectM f l = .ok r) {b : β} :
    b ∈ r ↔ ∃ a ∈ l, ∃ bs, f a = .ok bs ∧ b ∈ bs := by
  induction l generalizing r with
  | nil =>
    cases h
    simp
  | cons a l ih =>
    obtain ⟨bs, cs, ha, hl, rfl⟩ := collectM_cons_eq_ok_iff.mp h
    rw [List.mem_append, ih hl, List.exists_mem_cons_iff]
    simp [ha]

/-- Where everything has been collected, nothing has failed. -/
theorem exists_ok_of_collectM {l : List α} {r : List β} (h : collectM f l = .ok r) {a : α}
    (ha : a ∈ l) : ∃ bs, f a = .ok bs := by
  induction l generalizing r with
  | nil => exact absurd ha List.not_mem_nil
  | cons a' l ih =>
    obtain ⟨bs, cs, ha', hl, rfl⟩ := collectM_cons_eq_ok_iff.mp h
    rcases List.mem_cons.mp ha with rfl | ha
    · exact ⟨bs, ha'⟩
    · exact ih hl ha

/-- Where every element is collected from some depth on, the list is. -/
theorem exists_collectM_of_forall {F : Nat → α → Except ε (List β)} {l : List α}
    (h : ∀ a ∈ l, ∃ d bs, ∀ depth ≥ d, F depth a = .ok bs) :
    ∃ d r, ∀ depth ≥ d, collectM (F depth) l = .ok r := by
  induction l with
  | nil => exact ⟨0, [], fun _ _ ↦ rfl⟩
  | cons a l ih =>
    obtain ⟨d, bs, ha⟩ := h a List.mem_cons_self
    obtain ⟨d', cs, hl⟩ := ih fun a' ha' ↦ h a' (List.mem_cons_of_mem a ha')
    refine ⟨max d d', bs ++ cs, fun depth hdepth ↦ ?_⟩
    exact collectM_cons_eq_ok_iff.mpr ⟨bs, cs, ha depth (Nat.le_trans (Nat.le_max_left ..) hdepth),
      hl depth (Nat.le_trans (Nat.le_max_right ..) hdepth), rfl⟩

/-- Where collecting has failed, it has failed at one of the elements. -/
theorem exists_error_of_collectM {l : List α} {e : ε} (h : collectM f l = .error e) :
    ∃ a ∈ l, f a = .error e := by
  induction l with
  | nil => exact absurd h nofun
  | cons a l ih =>
    rw [collectM] at h
    cases ha : f a with
    | error e' =>
      rw [ha] at h
      cases h
      exact ⟨a, List.mem_cons_self, ha⟩
    | ok bs =>
      rw [ha] at h
      cases hl : collectM f l with
      | ok cs => rw [hl] at h; exact absurd h nofun
      | error e' =>
        rw [hl] at h
        cases h
        obtain ⟨a', ha', he⟩ := ih hl
        exact ⟨a', List.mem_cons_of_mem a ha', he⟩

end

end Ixion.Lib
