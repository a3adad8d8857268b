import Ixion.Lib.Query

/-!
# Computations that ask the same questions

Two computations are alike when they ask the same questions in the same order, whatever the answers
are, and give up in the same ways; what they return belongs together by a relation.  Computations
with a state are so from states that belong together.  With equality for the relation, computations
that are alike are equal (`Alike.eq`).
-/

namespace Ixion.Lib.Query

variable {ι : Type} {V : ι → Type} {ε α α' β β' : Type}

/-- Two computations ask the same and give up alike, and what they return is related. -/
inductive Alike (R : α → α' → Prop) : Query V ε α → Query V ε α' → Prop where
  | pure {a : α} {a' : α'} : R a a' → Alike R (.pure a) (.pure a')
  | throw (e : ε) : Alike R (.throw e) (.throw e)
  | ask {i : ι} {k : V i → Query V ε α} {k' : V i → Query V ε α'} :
    (∀ v, Alike R (k v) (k' v)) → Alike R (.ask i k) (.ask i k')

section Alike

variable {R : α → α' → Prop} {T : β → β' → Prop}

theorem Alike.refl {R : α → α → Prop} (h : ∀ a, R a a) (q : Query V ε α) : Alike R q q := by
  induction q with
  | pure a => exact .pure (h a)
  | throw e => exact .throw e
  | ask i k ih => exact .ask ih

theorem Alike.mono {R' : α → α' → Prop} {q : Query V ε α} {q' : Query V ε α'} (h : Alike R q q')
    (hR : ∀ a a', R a a' → R' a a') : Alike R' q q' := by
  induction h with
  | pure h => exact .pure (hR _ _ h)
  | throw e => exact .throw e
  | ask _ ih => exact .ask ih

theorem Alike.eq {q q' : Query V ε α} (h : Alike (· = ·) q q') : q = q' := by
  induction h with
  | pure h => rw [h]
  | throw e => rfl
  | ask _ ih => exact congrArg (Query.ask _) (funext ih)

theorem Alike.bind {q : Query V ε α} {q' : Query V ε α'} {f : α → Query V ε β}
    {f' : α' → Query V ε β'} (h : Alike R q q') (hf : ∀ a a', R a a' → Alike T (f a) (f' a')) :
    Alike T (q >>= f) (q' >>= f') := by
  induction h with
  | pure h => exact hf _ _ h
  | throw e => exact .throw e
  | ask _ ih => exact .ask ih

end Alike

/-! ## Computations with a state -/

variable {σ σ' : Type} {I : σ → σ' → Prop} {R : α → α' → Prop} {T : β → β' → Prop}

/-- From states that belong together, two computations are alike and end in such states. -/
def AlikeFrom (I : σ → σ' → Prop) (R : α → α' → Prop) (x : StateT σ (Query V ε) α)
    (x' : StateT σ' (Query V ε) α') : Prop :=
  ∀ s s', I s s' → Alike (fun p p' ↦ R p.1 p'.1 ∧ I p.2 p'.2) (x s) (x' s')

theorem alikeFrom_pure {a : α} {a' : α'} (h : R a a') :
    AlikeFrom I R (Pure.pure a : StateT σ (Query V ε) α)
      (Pure.pure a' : StateT σ' (Query V ε) α') :=
  fun _ _ hs ↦ .pure ⟨h, hs⟩

theorem alikeFrom_bind {x : StateT σ (Query V ε) α} {x' : StateT σ' (Query V ε) α'}
    {f : α → StateT σ (Query V ε) β} {f' : α' → StateT σ' (Query V ε) β'}
    (h : AlikeFrom I R x x') (hf : ∀ a a', R a a' → AlikeFrom I T (f a) (f' a')) :
    AlikeFrom I T (x >>= f) (x' >>= f') :=
  fun s s' hs ↦ (h s s' hs).bind fun p p' hp ↦ hf p.1 p'.1 hp.1 p.2 p'.2 hp.2

theorem alikeFrom_throw (e : ε) :
    AlikeFrom I R (fun _ ↦ .throw e : StateT σ (Query V ε) α)
      (fun _ ↦ .throw e : StateT σ' (Query V ε) α') :=
  fun _ _ _ ↦ .throw e

theorem alikeFrom_get : AlikeFrom I I (MonadState.get : StateT σ (Query V ε) σ)
    (MonadState.get : StateT σ' (Query V ε) σ') :=
  fun _ _ hs ↦ .pure ⟨hs, hs⟩

theorem alikeFrom_modify {f : σ → σ} {f' : σ' → σ'} (h : ∀ s s', I s s' → I (f s) (f' s')) :
    AlikeFrom I (fun _ _ ↦ True) (modify f : StateT σ (Query V ε) PUnit)
      (modify f' : StateT σ' (Query V ε) PUnit) :=
  fun s s' hs ↦ .pure ⟨trivial, h s s' hs⟩

end Ixion.Lib.Query
