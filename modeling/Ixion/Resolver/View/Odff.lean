import Ixion.Resolver.View.DotA1

/-!
# Where the ODFF scanner stops

An ODFF reference is enclosed in brackets, so that the scanners of sheet names never
leave it.  But when there is no reference between the brackets, the whole length of the
name is read from behind the open bracket.
-/

namespace Ixion

open Lib

theorem asks_deref (p : List Char) : (deref p).Asks (· = 0) := by
  cases p with
  | nil => exact ⟨rfl, fun _ ↦ trivial⟩
  | cons c cs => trivial

theorem asks_parseSheetNameOdff (wb : Workbook) (p : List Char) :
    (parseSheetNameOdff wb p).Asks (· = 0) := by
  rw [parseSheetNameOdff]
  split
  · trivial
  · exact asks_parseSheetName p

theorem returns_parseSheetNameOdff (wb : Workbook) (p : List Char) :
    (parseSheetNameOdff wb p).Returns fun o ↦ ∀ r ∈ o, r.2.length ≤ p.length := by
  rw [parseSheetNameOdff]
  split
  · exact nofun
  · exact returns_parseSheetName p

/-- The scanner looks at most at the closing bracket. -/
theorem asks_parseAddressOdff (cxt : Option Workbook) (p : List Char) (addr : Address) :
    (parseAddressOdff cxt p addr).Asks (· = 0) := by
  refine Query.asks_bind (asks_deref p) fun c ↦ ?_
  split
  · trivial
  · cases cxt with
    | none => trivial
    | some wb =>
      refine Query.asks_bind (asks_parseSheetNameOdff wb _) fun o ↦ ?_
      cases o <;> trivial

/-- An address is read without going back. -/
theorem returns_parseAddressOdff (cxt : Option Workbook) (p : List Char) (addr : Address) :
    (parseAddressOdff cxt p addr).Returns fun r ↦ r.p.length ≤ p.length := by
  have htail : ∀ q : List Char, q.tail.length ≤ q.length := fun q ↦ by
    rw [List.length_tail]
    omega
  apply Query.returns_bind
  refine Query.returns_of_forall (fun c ↦ ?_) _
  split
  · exact (length_parseAddressA1Loop_le _ _ _).trans (htail p)
  · cases cxt with
    | none => exact length_parseAddressA1Loop_le _ _ _
    | some wb =>
      have hp : (if c = '$' then p.tail else p).length ≤ p.length := by
        split
        · exact htail p
        · exact le_rfl
      apply Query.returns_bind
      refine Query.returns_mono (fun o ho ↦ ?_) (returns_parseSheetNameOdff wb _)
      cases o with
      | none => exact (length_parseAddressA1Loop_le _ _ _).trans hp
      | some r =>
        refine (length_parseAddressA1Loop_le _ _ _).trans ?_
        exact (htail _).trans ((ho r rfl).trans hp)

/-- The closing bracket is inside the name, but nothing behind it. -/
theorem not_silent_readString_behindBracket {n : ℕ} {p : List Char}
    (h : p.length + 2 ≤ n) :
    ¬ ((Pointer.readString n (.ofList p)).handle behindBracket).Silent := by
  induction p generalizing n with
  | nil =>
    obtain ⟨m, rfl⟩ : ∃ m, n = m + 2 := ⟨n - 2, by simp at h; omega⟩
    exact nofun
  | cons c cs ih =>
    rw [List.length_cons] at h
    obtain ⟨m, rfl⟩ : ∃ m, n = m + 1 := ⟨n - 1, by omega⟩
    intro hs
    rw [Pointer.readString, Pointer.deref_ofList_cons, pure_bind, Pointer.next_ofList_cons,
      Query.handle_bind, Query.silent_bind] at hs
    obtain ⟨s, hs, -⟩ := hs
    exact ih (by omega) ⟨s, hs⟩

theorem not_silent_resolveFunctionOrName_behindBracket {n : ℕ} {p : List Char}
    (h : p.length + 2 ≤ n) :
    ¬ ((resolveFunctionOrName (.ofList p) n).handle behindBracket).Silent := by
  rw [resolveFunctionOrName, Query.handle_bind, Query.silent_bind]
  rintro ⟨s, hs, -⟩
  exact not_silent_readString_behindBracket h ⟨s, hs⟩

/-- What the scanner finds between the brackets. -/
def scanOdff (cxt : Option Workbook) (pos : AbsAddress) (p : List Char) :
    ParsedAddress (List Char) :=
  (parseAddressOdff cxt p (startA1 pos true)).eval fun _ ↦ ']'

/-- What the scanner finds is the address of a cell or the beginning of a range. -/
def ReferenceOdff (parsed : ParsedAddress (List Char)) : Prop :=
  parsed.result = .validAddress ∧ parsed.addr.row ≠ rowUnset ∨ parsed.result = .rangeExpected

/-- When resolving in ODFF syntax stays inside a name. -/
def StaysInsideOdff (cxt : Option Workbook) (pos : AbsAddress) (s : List Char) : Prop :=
  resolveFunction s ≠ none ∨ s.head? ≠ some '[' ∨ s.getLast? ≠ some ']' ∨
    ReferenceOdff (scanOdff cxt pos s.tail.dropLast)

theorem silent_resolveAddressOdff {cxt : Option Workbook} {pos : AbsAddress} {n : ℕ}
    {p : List Char} (hn : p.length + 2 ≤ n) :
    ((resolveAddressOdff cxt pos n p).handle behindBracket).Silent ↔
      ReferenceOdff (scanOdff cxt pos p) := by
  have hclose : ∀ i, i = 0 → behindBracket i = pure ']' := by
    rintro _ rfl
    rfl
  have hlen : (scanOdff cxt pos p).p.length ≤ p.length :=
    Query.eval_of_returns (returns_parseAddressOdff cxt p _) _
  rw [resolveAddressOdff, Query.handle_bind,
    Query.handle_eq_pure hclose (asks_parseAddressOdff cxt p _), pure_bind]
  have hscan : (parseAddressOdff cxt p ⟨pos.sheet, 0, 0, true, false, false⟩).eval
      (fun _ ↦ ']') = scanOdff cxt pos p := rfl
  rw [hscan]
  generalize scanOdff cxt pos p = r at hlen ⊢
  rw [ReferenceOdff]
  split
  case isTrue h => exact iff_of_true (Query.silent_pure _) (.inl h)
  case isFalse h =>
    split
    case isTrue hr =>
      refine iff_of_true ?_ (.inr hr)
      dsimp only
      split
      · exact Query.silent_pure _
      · rw [Query.handle_bind, Query.handle_eq_pure hclose (asks_parseAddressOdff cxt _ _),
          pure_bind]
        split <;> exact Query.silent_pure _
    case isFalse hr =>
      refine iff_of_false ?_ (not_or.mpr ⟨h, hr⟩)
      exact not_silent_resolveFunctionOrName_behindBracket (le_trans (by omega) hn)

theorem silent_resolveOdff {cxt : Option Workbook} {pos : AbsAddress} {s : List Char} :
    (resolveOdff cxt pos s).Silent ↔ StaysInsideOdff cxt pos s := by
  unfold resolveOdff StaysInsideOdff
  cases hf : resolveFunction s with
  | some name => exact iff_of_true (Query.silent_pure _) (.inl nofun)
  | none =>
    cases s with
    | nil => exact iff_of_true (Query.silent_pure _) (.inr (.inl nofun))
    | cons c cs =>
      by_cases hc : c = '['
      · subst hc
        simp only [ne_eq, not_true_eq_false, if_false, List.head?_cons, false_or, List.tail_cons]
        by_cases hlast : ('[' :: cs).getLast? = some ']'
        · obtain ⟨d, ds, rfl⟩ : ∃ d ds, cs = d :: ds :=
            List.exists_cons_of_ne_nil fun h ↦ by subst h; exact absurd hlast (by decide)
          simp only [hlast, not_true_eq_false, if_false, false_or]
          exact silent_resolveAddressOdff (by simp)
        · simp only [hlast, not_false_eq_true, if_true, true_or, iff_true]
          exact Query.silent_pure _
      · refine iff_of_true ?_ (.inr (.inl (by simpa using hc)))
        simp only [ne_eq, hc, not_false_eq_true, if_true]
        exact Query.silent_pure _

end Ixion
