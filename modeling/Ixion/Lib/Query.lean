import Mathlib.Tactic.Basic

/-!
# Computations that ask questions

A `Query V ε α` is a computation that may ask questions and go on with the
answers, that may give up with an `ε`, and that otherwise returns a value in `α`.
What it asks next may depend on the answers it was given, and nothing else does:
`run` takes the answers from a table, in which some may be missing.

A table that has more answers leads to the same value as one that has enough of
them (`run_mono`).
-/

namespace Ixion.Lib

/-- A computation that asks questions.  The answers to `i` are the elements of
`V i`. -/
inductive Query {ι : Type} (V : ι → Type) (ε α : Type) where
  | pure (a : α)
  | throw (e : ε)
  | ask (i : ι) (k : V i → Query V ε α)

namespace Query

variable {ι : Type} {V : ι → Type} {ε α β : Type}

/-- Continue with the value of a computation. -/
def bind : Query V ε α → (α → Query V ε β) → Query V ε β
  | .pure a, f => f a
  | .throw e, _ => .throw e
  | .ask i k, f => .ask i fun v ↦ (k v).bind f

/-- Take over where a computation gives up. -/
def tryCatch : Query V ε α → (ε → Query V ε α) → Query V ε α
  | .pure a, _ => .pure a
  | .throw e, h => h e
  | .ask i k, h => .ask i fun v ↦ (k v).tryCatch h

instance instMonad : Monad (Query V ε) where
  pure := .pure
  bind := .bind

theorem bind_assoc {γ : Type} (q : Query V ε α) (k : α → Query V ε β) (l : β → Query V ε γ) :
    (q.bind k).bind l = q.bind fun a ↦ (k a).bind l := by
  induction q with
  | pure a => rfl
  | throw e => rfl
  | ask i q ih => exact congrArg (Query.ask i) (funext ih)

instance instLawfulMonad : LawfulMonad (Query V ε) :=
  LawfulMonad.mk' (Query V ε)
    (fun {_} q ↦ by
      show q.bind .pure = q
      induction q with
      | pure a => rfl
      | throw e => rfl
      | ask i q ih => exact congrArg (Query.ask i) (funext ih))
    (fun _ _ ↦ rfl) (fun q k l ↦ bind_assoc q k l)

instance instMonadExcept : MonadExcept ε (Query V ε) where
  throw := .throw
  tryCatch := .tryCatch

/-- What is done with a value may be done before the computation is taken over. -/
theorem map_tryCatch (g : α → β) (q : Query V ε α) (h : ε → Query V ε α) :
    g <$> q.tryCatch h = (g <$> q).tryCatch fun e ↦ g <$> h e := by
  induction q with
  | pure a => rfl
  | throw e => rfl
  | ask i k ih => exact congrArg (Query.ask i) (funext ih)

/-- Ask one question. -/
def query (i : ι) : Query V ε (V i) := .ask i .pure

/-- Run a computation with the given answers.  It fails where an answer is
missing. -/
def run (ans : ∀ i, Except ε (V i)) : Query V ε α → Except ε α
  | .pure a => .ok a
  | .throw e => .error e
  | .ask i k =>
    match ans i with
    | .ok v => (k v).run ans
    | .error e => .error e

/-- How many questions a computation asks that is given these answers. -/
def questions (ans : ∀ i, Except ε (V i)) : Query V ε α → Nat
  | .pure _ => 0
  | .throw _ => 0
  | .ask i k =>
    match ans i with
    | .ok v => (k v).questions ans + 1
    | .error _ => 0

/-- Every question that may be asked has a property. -/
def Asks (P : ι → Prop) : Query V ε α → Prop
  | .pure _ => True
  | .throw _ => True
  | .ask i k => P i ∧ ∀ v, (k v).Asks P

/-- The computation may give up only in ways that have a property. -/
def Throws (E : ε → Prop) : Query V ε α → Prop
  | .pure _ => True
  | .throw e => E e
  | .ask _ k => ∀ v, (k v).Throws E

theorem asks_bind {P : ι → Prop} {q : Query V ε α} {k : α → Query V ε β} (hq : q.Asks P)
    (hk : ∀ a, (k a).Asks P) : (q >>= k).Asks P := by
  induction q with
  | pure a => exact hk a
  | throw e => trivial
  | ask i q ih => exact ⟨hq.1, fun v ↦ ih v (hq.2 v)⟩

theorem asks_of_forall {P : ι → Prop} (h : ∀ i, P i) (q : Query V ε α) : q.Asks P := by
  induction q with
  | pure a => trivial
  | throw e => trivial
  | ask i k ih => exact ⟨h i, ih⟩

/-- Every value that the computation may return has a property. -/
def Returns (P : α → Prop) : Query V ε α → Prop
  | .pure a => P a
  | .throw _ => True
  | .ask _ k => ∀ v, (k v).Returns P

theorem returns_bind {P : β → Prop} {q : Query V ε α} {k : α → Query V ε β}
    (h : q.Returns fun a ↦ (k a).Returns P) : (q >>= k).Returns P := by
  induction q with
  | pure a => exact h
  | throw e => trivial
  | ask i q ih => exact fun v ↦ ih v (h v)

theorem returns_mono {P Q : α → Prop} (hPQ : ∀ a, P a → Q a) {q : Query V ε α}
    (h : q.Returns P) : q.Returns Q := by
  induction q with
  | pure a => exact hPQ a h
  | throw e => trivial
  | ask i q ih => exact fun v ↦ ih v (h v)

theorem returns_of_forall {P : α → Prop} (h : ∀ a, P a) (q : Query V ε α) : q.Returns P := by
  induction q with
  | pure a => exact h a
  | throw e => trivial
  | ask i q ih => exact ih

/-- Every question that may be asked, every way of giving up and every value that may be
returned have their property. -/
def Ensures (P : ι → Prop) (E : ε → Prop) (Q : α → Prop) : Query V ε α → Prop
  | .pure a => Q a
  | .throw e => E e
  | .ask i k => P i ∧ ∀ v, (k v).Ensures P E Q

section Ensures

variable {P : ι → Prop} {E : ε → Prop} {Q R : α → Prop}

theorem Ensures.asks {q : Query V ε α} (h : q.Ensures P E Q) : q.Asks P := by
  induction q with
  | pure a => trivial
  | throw e => trivial
  | ask i k ih => exact ⟨h.1, fun v ↦ ih v (h.2 v)⟩

theorem Ensures.throws {q : Query V ε α} (h : q.Ensures P E Q) : q.Throws E := by
  induction q with
  | pure a => trivial
  | throw e => exact h
  | ask i k ih => exact fun v ↦ ih v (h.2 v)

theorem Ensures.mono {q : Query V ε α} (h : q.Ensures P E Q) (hQR : ∀ a, Q a → R a) :
    q.Ensures P E R := by
  induction q with
  | pure a => exact hQR a h
  | throw e => exact h
  | ask i k ih => exact ⟨h.1, fun v ↦ ih v (h.2 v)⟩

theorem ensures_query {i : ι} (h : P i) : (query i : Query V ε (V i)).Ensures P E fun _ ↦ True :=
  ⟨h, fun _ ↦ trivial⟩

theorem ensures_bind {Q' : β → Prop} {q : Query V ε α} {k : α → Query V ε β}
    (h : q.Ensures P E Q) (hk : ∀ a, Q a → (k a).Ensures P E Q') : (q >>= k).Ensures P E Q' := by
  induction q with
  | pure a => exact hk a h
  | throw e => exact h
  | ask i q ih => exact ⟨h.1, fun v ↦ ih v (h.2 v)⟩

/-- What is thrown again was thrown before, or it comes from the handler. -/
theorem ensures_tryCatch {F : ε → Prop} {q : Query V ε α} {f : ε → Query V ε α}
    (h : q.Ensures P F Q) (hf : ∀ e, F e → (f e).Ensures P E Q) :
    (q.tryCatch f).Ensures P E Q := by
  induction q with
  | pure a => exact h
  | throw e => exact hf e h
  | ask i q ih => exact ⟨h.1, fun v ↦ ih v (h.2 v)⟩

/-! ### Computations with a state -/

variable {σ : Type} {I : σ → Prop}

/-- A computation with a state keeps an invariant of the state. -/
def Keeps (P : ι → Prop) (E : ε → Prop) (I : σ → Prop) (Q : α → Prop)
    (x : StateT σ (Query V ε) α) : Prop :=
  ∀ s, I s → (x s).Ensures P E fun p ↦ Q p.1 ∧ I p.2

theorem keeps_pure {a : α} (h : Q a) :
    Keeps P E I Q (Pure.pure a : StateT σ (Query V ε) α) :=
  fun _ hs ↦ ⟨h, hs⟩

theorem keeps_bind {Q' : β → Prop} {x : StateT σ (Query V ε) α}
    {f : α → StateT σ (Query V ε) β} (hx : Keeps P E I Q x)
    (hf : ∀ a, Q a → Keeps P E I Q' (f a)) : Keeps P E I Q' (x >>= f) := by
  intro s hs
  exact ensures_bind (hx s hs) fun p hp ↦ hf p.1 hp.1 p.2 hp.2

theorem Keeps.mono {x : StateT σ (Query V ε) α} (hx : Keeps P E I Q x)
    (hQR : ∀ a, Q a → R a) : Keeps P E I R x :=
  fun s hs ↦ (hx s hs).mono fun _ hp ↦ ⟨hQR _ hp.1, hp.2⟩

theorem keeps_lift {q : Query V ε α} (h : q.Ensures P E Q) :
    Keeps P E I Q (liftM q : StateT σ (Query V ε) α) :=
  fun _ hs ↦ ensures_bind h fun _ ha ↦ ⟨ha, hs⟩

theorem keeps_get : Keeps P E I I (MonadState.get : StateT σ (Query V ε) σ) :=
  fun _ hs ↦ ⟨hs, hs⟩

theorem keeps_modify {f : σ → σ} (h : ∀ s, I s → I (f s)) :
    Keeps P E I (fun _ ↦ True) (modify f : StateT σ (Query V ε) PUnit) :=
  fun s hs ↦ ⟨trivial, h s hs⟩

/-- A computation with a state that starts in a state with a property ends with a value and a
state that belong together. -/
def Meets (P : ι → Prop) (E : ε → Prop) (I : σ → Prop) (R : α → σ → Prop)
    (x : StateT σ (Query V ε) α) : Prop :=
  ∀ s, I s → (x s).Ensures P E fun p ↦ R p.1 p.2

section Meets

variable {J : σ → Prop} {R S : α → σ → Prop}

theorem meets_pure {a : α} (h : ∀ s, I s → R a s) :
    Meets P E I R (Pure.pure a : StateT σ (Query V ε) α) :=
  fun s hs ↦ h s hs

theorem meets_bind {S : β → σ → Prop} {x : StateT σ (Query V ε) α}
    {f : α → StateT σ (Query V ε) β} (hx : Meets P E I R x)
    (hf : ∀ a, Meets P E (R a) S (f a)) : Meets P E I S (x >>= f) := by
  intro s hs
  exact ensures_bind (hx s hs) fun p hp ↦ hf p.1 p.2 hp

theorem meets_throw {e : ε} (h : E e) :
    Meets P E I R (fun _ ↦ .throw e : StateT σ (Query V ε) α) :=
  fun _ _ ↦ h

theorem Meets.post {x : StateT σ (Query V ε) α} (hx : Meets P E I R x)
    (h : ∀ a s, R a s → S a s) : Meets P E I S x :=
  fun s hs ↦ (hx s hs).mono fun p hp ↦ h p.1 p.2 hp

theorem Meets.pre {x : StateT σ (Query V ε) α} (hx : Meets P E I R x) (h : ∀ s, J s → I s) :
    Meets P E J R x :=
  fun s hs ↦ hx s (h s hs)

theorem meets_lift {q : Query V ε α} (h : q.Ensures P E Q) :
    Meets P E I (fun a s ↦ Q a ∧ I s) (liftM q : StateT σ (Query V ε) α) :=
  keeps_lift h

theorem meets_lift_bind {q : Query V ε α} {f : α → StateT σ (Query V ε) β} {S : β → σ → Prop}
    (h : q.Ensures P E Q) (hf : ∀ a, Q a → Meets P E I S (f a)) :
    Meets P E I S ((liftM q : StateT σ (Query V ε) α) >>= f) := by
  refine meets_bind (meets_lift h) fun a s hs ↦ ?_
  exact hf a hs.1 s hs.2

theorem meets_modify {f : σ → σ} (h : ∀ s, I s → J (f s)) :
    Meets P E I (fun _ ↦ J) (modify f : StateT σ (Query V ε) PUnit) :=
  fun s hs ↦ h s hs

theorem meets_set {s : σ} (h : J s) :
    Meets P E I (fun _ ↦ J) (MonadStateOf.set s : StateT σ (Query V ε) PUnit) :=
  fun _ _ ↦ h

end Meets

end Ensures

variable {ans ans' : ∀ i, Except ε (V i)}

@[simp] theorem run_pure (a : α) : (pure a : Query V ε α).run ans = .ok a := rfl

@[simp] theorem run_throw (e : ε) : (throw e : Query V ε α).run ans = .error e := rfl

theorem run_ask {i : ι} {k : V i → Query V ε α} :
    (Query.ask i k).run ans =
      match ans i with
      | .ok v => (k v).run ans
      | .error e => .error e := by
  rw [run]

theorem questions_ask {i : ι} {k : V i → Query V ε α} {v : V i} (h : ans i = .ok v) :
    (Query.ask i k).questions ans = (k v).questions ans + 1 := by
  rw [questions, h]

theorem run_query (i : ι) : (query i : Query V ε (V i)).run ans = ans i := by
  rw [query, run_ask]
  cases ans i <;> rfl

theorem run_bind (q : Query V ε α) (k : α → Query V ε β) :
    (q >>= k).run ans = q.run ans >>= fun a ↦ (k a).run ans := by
  induction q with
  | pure a => rfl
  | throw e => rfl
  | ask i q ih =>
    show (Query.ask i fun v ↦ q v >>= k).run ans = _
    rw [run_ask, run_ask]
    cases ans i with
    | ok v => exact ih v
    | error e => rfl

/-- Nothing is taken over from a computation that succeeds. -/
theorem run_tryCatch_of_ok {q : Query V ε α} {h : ε → Query V ε α} {a : α}
    (hq : q.run ans = .ok a) : (q.tryCatch h).run ans = .ok a := by
  induction q with
  | pure b => exact hq
  | throw e => exact nomatch hq
  | ask i k ih =>
    rw [run_ask] at hq
    show (Query.ask i fun v ↦ (k v).tryCatch h).run ans = _
    rw [run_ask]
    cases hi : ans i with
    | error e =>
      rw [hi] at hq
      exact nomatch hq
    | ok v =>
      rw [hi] at hq
      exact ih v hq

/-- A computation that gives up is taken over, unless an answer is missing. -/
theorem run_tryCatch_of_error {q : Query V ε α} {h : ε → Query V ε α} {e : ε}
    (hq : q.run ans = .error e) :
    (q.tryCatch h).run ans = .error e ∨ (q.tryCatch h).run ans = (h e).run ans := by
  induction q with
  | pure b => exact nomatch hq
  | throw e' =>
    obtain rfl := Except.error.inj hq
    exact .inr rfl
  | ask i k ih =>
    rw [run_ask] at hq
    show (Query.ask i fun v ↦ (k v).tryCatch h).run ans = _ ∨
      (Query.ask i fun v ↦ (k v).tryCatch h).run ans = _
    rw [run_ask]
    cases hi : ans i with
    | error e' =>
      rw [hi] at hq
      exact .inl hq
    | ok v =>
      rw [hi] at hq
      exact ih v hq

theorem run_foldlM {γ : Type} (g : β → γ → Query V ε β) (l : List γ) (b : β) :
    (l.foldlM g b).run ans = l.foldlM (fun b c ↦ (g b c).run ans) b := by
  induction l generalizing b with
  | nil => rfl
  | cons c l ih =>
    rw [List.foldlM_cons, List.foldlM_cons, run_bind]
    cases (g b c).run ans with
    | error e => rfl
    | ok b => exact ih b

theorem run_mapM {γ : Type} (g : γ → Query V ε α) (l : List γ) :
    (l.mapM g).run ans = l.mapM fun c ↦ (g c).run ans := by
  induction l with
  | nil => rfl
  | cons c l ih =>
    simp only [List.mapM_cons, run_bind, ih]
    rfl

/-- A table leads to the value that another one leads to if it has the same answers
to the questions that are asked. -/
theorem run_mono {P : ι → Prop} {q : Query V ε α} (hq : q.Asks P)
    (h : ∀ i v, P i → ans i = .ok v → ans' i = .ok v) {a : α} (ha : q.run ans = .ok a) :
    q.run ans' = .ok a := by
  induction q with
  | pure b => exact ha
  | throw e => exact absurd ha nofun
  | ask i k ih =>
    obtain ⟨hi, hk⟩ := hq
    rw [run_ask] at ha ⊢
    cases hv : ans i with
    | error e => rw [hv] at ha; exact absurd ha nofun
    | ok v =>
      rw [hv] at ha
      rw [h i v hi hv]
      exact ih v (hk v) ha

/-- A computation that fails gives up itself or asks a question that has no
answer. -/
theorem run_eq_error {P : ι → Prop} {E : ε → Prop} {q : Query V ε α} (hq : q.Asks P)
    (hE : q.Throws E) {e : ε} (h : q.run ans = .error e) : E e ∨ ∃ i, P i ∧ ans i = .error e := by
  induction q with
  | pure b => exact absurd h nofun
  | throw e' =>
    cases h
    exact .inl hE
  | ask i k ih =>
    obtain ⟨hi, hk⟩ := hq
    rw [run_ask] at h
    cases hv : ans i with
    | error e' =>
      rw [hv] at h
      cases h
      exact .inr ⟨i, hi, hv⟩
    | ok v =>
      rw [hv] at h
      exact ih v (hk v) (hE v) h

/-! ## All answers given -/

/-- What a computation comes to that is given all answers. -/
def result (f : ∀ i, V i) : Query V ε α → Except ε α
  | .pure a => .ok a
  | .throw e => .error e
  | .ask i k => (k (f i)).result f

section Result

variable (f : ∀ i, V i)

@[simp] theorem result_pure (a : α) : (Pure.pure a : Query V ε α).result f = .ok a := rfl

@[simp] theorem result_throw (e : ε) : (.throw e : Query V ε α).result f = .error e := rfl

@[simp] theorem result_bind (q : Query V ε α) (k : α → Query V ε β) :
    (q >>= k).result f = q.result f >>= fun a ↦ (k a).result f := by
  induction q with
  | pure a => rfl
  | throw e => rfl
  | ask i q ih => exact ih (f i)

@[simp] theorem result_tryCatch (q : Query V ε α) (h : ε → Query V ε α) :
    (q.tryCatch h).result f = tryCatchThe ε (q.result f) fun e ↦ (h e).result f := by
  induction q with
  | pure a => rfl
  | throw e => rfl
  | ask i q ih => exact ih (f i)

/-- What a computation comes to is among the values and the ways of giving up that there may
be. -/
theorem Ensures.result {P : ι → Prop} {E : ε → Prop} {Q : α → Prop} {q : Query V ε α}
    (h : q.Ensures P E Q) :
    (∃ a, q.result f = .ok a ∧ Q a) ∨ ∃ e, q.result f = .error e ∧ E e := by
  induction q with
  | pure a => exact .inl ⟨a, rfl, h⟩
  | throw e => exact .inr ⟨e, rfl, h⟩
  | ask i k ih => exact ih (f i) (h.2 (f i))

end Result

/-! ## Computations that do not give up -/

/-- The value of a computation that does not give up. -/
def eval (ans : ∀ i, V i) : Query V Empty α → α
  | .pure a => a
  | .ask i k => (k (ans i)).eval ans

/-- The questions that a computation asks, in order. -/
def asked (ans : ∀ i, V i) : Query V Empty α → List ι
  | .pure _ => []
  | .ask i k => i :: (k (ans i)).asked ans

theorem eval_of_returns {P : α → Prop} {q : Query V Empty α} (h : q.Returns P)
    (f : ∀ i, V i) : P (q.eval f) := by
  induction q with
  | pure a => exact h
  | throw e => exact e.elim
  | ask i k ih => exact ih (f i) (h (f i))

section Eval

variable (f : ∀ i, V i)

@[simp] theorem eval_pure (a : α) : (Pure.pure a : Query V Empty α).eval f = a := rfl

@[simp] theorem asked_pure (a : α) : (Pure.pure a : Query V Empty α).asked f = [] := rfl

@[simp] theorem eval_query (i : ι) : (query i : Query V Empty (V i)).eval f = f i := rfl

@[simp] theorem asked_query (i : ι) : (query i : Query V Empty (V i)).asked f = [i] := rfl

@[simp] theorem eval_bind (q : Query V Empty α) (k : α → Query V Empty β) :
    (q >>= k).eval f = (k (q.eval f)).eval f := by
  induction q with
  | pure a => rfl
  | throw e => exact e.elim
  | ask i q ih => exact ih (f i)

@[simp] theorem asked_bind (q : Query V Empty α) (k : α → Query V Empty β) :
    (q >>= k).asked f = q.asked f ++ (k (q.eval f)).asked f := by
  induction q with
  | pure a => rfl
  | throw e => exact e.elim
  | ask i q ih => exact congrArg (i :: ·) (ih (f i))

@[simp] theorem eval_ite (p : Prop) [Decidable p] (q r : Query V Empty α) :
    (if p then q else r).eval f = if p then q.eval f else r.eval f :=
  apply_ite (eval f) p q r

@[simp] theorem asked_ite (p : Prop) [Decidable p] (q r : Query V Empty α) :
    (if p then q else r).asked f = if p then q.asked f else r.asked f :=
  apply_ite (asked f) p q r

end Eval

/-- A computation that asks nothing and does not give up. -/
def Silent (q : Query V ε α) : Prop := ∃ a, q = Pure.pure a

theorem silent_pure (a : α) : (Pure.pure a : Query V ε α).Silent := ⟨a, rfl⟩

theorem not_silent_query (i : ι) : ¬ (query i : Query V ε (V i)).Silent := nofun

theorem silent_bind {q : Query V ε α} {k : α → Query V ε β} :
    (q >>= k).Silent ↔ ∃ a, q = Pure.pure a ∧ (k a).Silent := by
  constructor
  · rintro ⟨b, hb⟩
    cases q with
    | pure a => exact ⟨a, rfl, b, hb⟩
    | throw e => exact absurd hb nofun
    | ask i k => exact absurd hb nofun
  · rintro ⟨a, rfl, h⟩
    exact h

theorem asked_eq_nil_iff {f : ∀ i, V i} {q : Query V Empty α} : q.asked f = [] ↔ q.Silent := by
  constructor
  · intro h
    cases q with
    | pure a => exact ⟨a, rfl⟩
    | throw e => exact e.elim
    | ask i k => exact absurd h nofun
  · rintro ⟨a, rfl⟩
    rfl

/-! ## Asking other questions -/

/-- Ask other questions instead: each question is answered by a computation of its
own. -/
def handle {κ : Type} {W : κ → Type} (h : ∀ i, Query W ε (V i)) : Query V ε α → Query W ε α
  | .pure a => .pure a
  | .throw e => .throw e
  | .ask i k => (h i).bind fun v ↦ (k v).handle h

section Handle

variable {κ : Type} {W : κ → Type} (h : ∀ i, Query W ε (V i))

@[simp] theorem handle_pure (a : α) : (Pure.pure a : Query V ε α).handle h = Pure.pure a := rfl

@[simp] theorem handle_bind (q : Query V ε α) (k : α → Query V ε β) :
    (q >>= k).handle h = q.handle h >>= fun a ↦ (k a).handle h := by
  induction q with
  | pure a => rfl
  | throw e => rfl
  | ask i q ih =>
    show (h i).bind (fun v ↦ ((q v).bind k).handle h) = ((h i).bind _).bind _
    rw [bind_assoc]
    exact congrArg (h i).bind (funext ih)

/-- The answers to the questions are the values of the computations that answer them. -/
theorem eval_handle (h : ∀ i, Query W Empty (V i)) (f : ∀ j, W j) (q : Query V Empty α) :
    (q.handle h).eval f = q.eval fun i ↦ (h i).eval f := by
  induction q with
  | pure a => rfl
  | throw e => exact e.elim
  | ask i k ih => exact (eval_bind f (h i) _).trans (ih _)

/-- A computation asks nothing once all its questions are answered. -/
theorem handle_eq_pure {h : ∀ i, Query W Empty (V i)} {P : ι → Prop} {f : ∀ i, V i}
    (hf : ∀ i, P i → h i = Pure.pure (f i)) {q : Query V Empty α} (hq : q.Asks P) :
    q.handle h = Pure.pure (q.eval f) := by
  induction q with
  | pure a => rfl
  | throw e => exact e.elim
  | ask i k ih =>
    show (h i).bind _ = _
    rw [hf i hq.1]
    exact ih (f i) (hq.2 (f i))

end Handle

end Query

end Ixion.Lib
