import Ixion.Interp.Find

/-!
# Substituting strings

SUBSTITUTE goes from one occurrence of the old text to the next and puts the new text in place of
all of them or of one.  It counts them with an `int`, and where the old text is empty, it finds it
in the same place until that is too small (`substitutes_iff`).
-/

namespace Ixion.FormulaFunctions

open Lib ValueStack

variable {f : FormulaFunctions} {result : FormulaCell → Except Exn FormulaResult}
  {content old new : Text} {which : Option Int}

/-! ## Occurrences -/

/-- What takes the place of an occurrence, by its number. -/
def replacement (old new : Text) (which : Option Int) (n : Nat) : Text :=
  if which = none ∨ which = some (n : Int) then new else old

section Run

variable {ans : ∀ i : Question, Except Failure i.Answer} {stack : ValueStack}

/-- The pieces between the occurrences that are left are put together with what takes the place of
each; their number has to be less than that of the steps. -/
theorem run_substituteFrom {pieces : List Text} {pos : Nat} (hpos : pos ≤ content.length)
    (h : CutAt old (content.drop pos) pieces) (n found : Nat) (done : Text) :
    (substituteFrom content old new which n pos found done stack).run ans =
      if pieces.length ≤ n then
        .ok (done ++ joinWith (replacement old new which) (found + 1) pieces, stack)
      else .error .undefined := by
  induction n generalizing pieces pos found done with
  | zero =>
    rw [if_neg (Nat.not_le.mpr (List.length_pos_iff.mpr h.ne_nil))]
    rfl
  | succ n ih =>
    rw [substituteFrom]
    cases h with
    | whole hnone =>
      have hfind : findFrom content old pos = none := findFrom_eq_none_iff.mpr fun i hi hoccurs ↦ by
        obtain ⟨i, rfl⟩ := Nat.exists_eq_add_of_le hi
        exact hnone i ((occursAt_drop hpos).mpr hoccurs)
      rw [hfind, if_pos (show [_].length ≤ n + 1 from Nat.le_add_left 1 n)]
      rfl
    | @cut _ i pieces hleast hrest =>
      have hleast' := (isLeast_occursAt_drop hpos).mp hleast
      have hend := hleast'.1.2.add_length_le
      rw [findFrom_eq_some_iff.mpr hleast']
      rw [List.drop_drop, ← Nat.add_assoc] at hrest
      have htext : (content.take (pos + i)).drop pos = (content.drop pos).take i := by
        rw [List.drop_take, Nat.add_sub_cancel_left]
      have hnew : (if decide (which = none ∨ which = some ((found : Int) + 1)) = true then new else
          old) = replacement old new which (found + 1) := by
        rw [replacement, Nat.cast_succ]
        exact if_congr decide_eq_true_iff rfl rfl
      dsimp only
      rw [htext, hnew, ← Nat.cast_succ, ih hend hrest, List.length_cons,
        joinWith_cons _ _ _ hrest.ne_nil]
      refine if_congr (Nat.succ_le_succ_iff).symm ?_ rfl
      rw [List.append_assoc, List.append_assoc, List.append_assoc]

/-- The empty text is found in the same place again and again. -/
theorem run_substituteFrom_nil {pos : Nat} (hpos : pos ≤ content.length) (n found : Nat)
    (done : Text) :
    (substituteFrom content [] new which n pos found done stack).run ans = .error .undefined := by
  induction n generalizing found done with
  | zero => rfl
  | succ n ih =>
    have hfind : findFrom content [] pos = some pos :=
      findFrom_eq_some_iff.mpr ⟨⟨le_rfl, occursAt_nil hpos⟩, fun _ hi ↦ hi.1⟩
    rw [substituteFrom, hfind]
    exact ih (found + 1) _

end Run

/-! ## Calls -/

/-- The arguments of SUBSTITUTE. -/
def substituteArgs (content old new : Text) (which : Option Int) : List StackValue :=
  [.string content, .string old, .string new] ++ which.toList.map fun k ↦ .value k

/-- SUBSTITUTE does nothing but replace occurrences. -/
theorem run_fncSubstitute {ans : ∀ i : Question, Except Failure i.Answer}
    (hwhich : ∀ k ∈ which, 1 ≤ k ∧ FitsInt k) :
    (f.fncSubstitute (substituteArgs content old new which).reverse).run ans =
      ((substituteFrom content old new which (2 ^ 31) 0 0 [] >>= fun t ↦
        clearAndPush (.string t) : StackM Unit) []).run ans := by
  cases which with
  | none =>
    show (f.fncSubstitute [.string new, .string old, .string content]).run ans = _
    rw [fncSubstitute]
    refine (run_bind_of_ok rfl).trans ((run_bind_of_ok rfl).trans ?_)
    rw [if_neg (show ¬[_, _, _].length = 4 from nofun)]
    refine (run_bind_of_ok (a := none) rfl).trans ?_
    dsimp only
    rw [if_neg (show ¬none.any _ = true from nofun)]
    exact (run_bind_of_ok rfl).trans ((run_bind_of_ok rfl).trans (run_bind_of_ok rfl))
  | some k =>
    obtain ⟨hpos, hfits⟩ := hwhich k rfl
    show (f.fncSubstitute [.value k, .string new, .string old, .string content]).run ans = _
    rw [fncSubstitute]
    refine (run_bind_of_ok rfl).trans ((run_bind_of_ok rfl).trans ?_)
    rw [if_pos (show [_, _, _, _].length = 4 from rfl)]
    refine (run_bind_of_ok ((run_popFloor k).trans (run_toInt hfits))).trans ?_
    refine (run_bind_of_ok (a := some k) rfl).trans ?_
    dsimp only
    have hnot : ¬(some k).any (· < 1) = true := by
      rw [Option.any_some, decide_eq_true_iff]
      omega
    rw [if_neg hnot]
    exact (run_bind_of_ok rfl).trans ((run_bind_of_ok rfl).trans (run_bind_of_ok rfl))

theorem call_funcSubstitute_undefined {k : Int} (hk : ¬FitsInt k) :
    f.call result .funcSubstitute (substituteArgs content old new (some k)) =
      .error .undefined := by
  refine call_of_failure ?_ (by rintro ⟨x, hx⟩; exact nomatch hx)
  show (f.fncSubstitute [.value k, .string new, .string old, .string content]).run _ = _
  rw [fncSubstitute]
  refine (run_bind_of_ok rfl).trans ((run_bind_of_ok rfl).trans ?_)
  rw [if_pos (show [_, _, _, _].length = 4 from rfl)]
  exact run_bind_of_error ((run_popFloor k).trans (run_toInt_undefined hk))

/-- SUBSTITUTE puts the pieces between the occurrences together again. -/
theorem call_funcSubstitute {pieces : List Text} (hwhich : ∀ k ∈ which, 1 ≤ k ∧ FitsInt k)
    (h : CutAt old content pieces) :
    f.call result .funcSubstitute (substituteArgs content old new which) =
      if pieces.length ≤ 2 ^ 31 then
        .ok [.string (joinWith (replacement old new which) 1 pieces)]
      else .error .undefined := by
  have hrun :=
    @run_substituteFrom _ _ new which (f.workbook.answers result) [] _ _ (Nat.zero_le _) h
    (2 ^ 31) 0 []
  split
  case isTrue hle =>
    rw [if_pos hle] at hrun
    exact call_of_ok ((run_fncSubstitute hwhich).trans (run_bind_of_ok hrun))
  case isFalse hlt =>
    rw [if_neg hlt] at hrun
    refine call_of_failure ((run_fncSubstitute hwhich).trans (run_bind_of_error hrun)) ?_
    rintro ⟨x, hx⟩
    exact nomatch hx

/-! ## Substituting -/

/-- SUBSTITUTE leaves the pieces between the occurrences of the old text, with the new one between
them or in place of one occurrence only; if there is nothing to replace it leaves the text as it
is. -/
structure Substitutes (f : FormulaFunctions) (result : FormulaCell → Except Exn FormulaResult)
    (content old new : Text) (which : Option Int) : Prop where
  replaced : ∃ pieces, CutAt old content pieces ∧
    f.call result .funcSubstitute (substituteArgs content old new which) =
      .ok [.string (joinWith (replacement old new which) 1 pieces)]
  unchanged : ∀ pieces, CutAt old content pieces →
    (∀ i, ¬OccursAt old content i) ∨ (∃ k ∈ which, (pieces.length : Int) ≤ k) →
    f.call result .funcSubstitute (substituteArgs content old new which) =
      .ok [.string content]

/-- Where there is nothing to replace, the text is put together again. -/
theorem joinWith_replacement {pieces : List Text} (h : CutAt old content pieces)
    (hnone : (∀ i, ¬OccursAt old content i) ∨ ∃ k ∈ which, (pieces.length : Int) ≤ k) :
    joinWith (replacement old new which) 1 pieces = content := by
  rcases hnone with hnone | ⟨k, hk, hle⟩
  · obtain rfl := h.unique (.whole hnone)
    rfl
  · rw [@joinWith_congr _ _ (fun _ ↦ old) _ _ fun i hi hlt ↦ ?_, h.joinWith]
    rw [replacement, Option.mem_def.mp hk]
    refine if_neg ?_
    rintro (hnone | hsome)
    · exact nomatch hnone
    · have hki := Option.some.inj hsome
      omega

/-- SUBSTITUTE replaces what it should exactly if the old text is not empty, its occurrences are
not more than an `int` counts, and the number of the one to replace is an `int`. -/
theorem substitutes_iff (f : FormulaFunctions) (result : FormulaCell → Except Exn FormulaResult)
    (content old new : Text) (which : Option Int) (hwhich : ∀ k ∈ which, 1 ≤ k) :
    f.Substitutes result content old new which ↔
      old ≠ [] ∧ (∀ pieces, CutAt old content pieces → pieces.length ≤ 2 ^ 31) ∧
        ∀ k ∈ which, FitsInt k := by
  constructor
  · rintro ⟨⟨pieces, hpieces, hcall⟩, -⟩
    have hfits : ∀ k ∈ which, FitsInt k := by
      intro k hk
      by_contra hnot
      rw [Option.mem_def.mp hk] at hcall
      exact nomatch hcall.symm.trans (call_funcSubstitute_undefined hnot)
    refine ⟨?_, fun pieces' hpieces' ↦ ?_, hfits⟩
    · rintro rfl
      exact not_cutAt_nil hpieces
    · obtain rfl := hpieces'.unique hpieces
      by_contra hlong
      have hundefined := @call_funcSubstitute f result _ _ new _ _
        (fun k hk ↦ ⟨hwhich k hk, hfits k hk⟩) hpieces
      rw [if_neg hlong] at hundefined
      exact nomatch hcall.symm.trans hundefined
  · rintro ⟨hne, hshort, hfits⟩
    have hcall {pieces : List Text} (h : CutAt old content pieces) :=
      (@call_funcSubstitute f result _ _ new _ _
        (fun k hk ↦ ⟨hwhich k hk, hfits k hk⟩) h).trans (if_pos (hshort pieces h))
    obtain ⟨pieces, hpieces⟩ := exists_cutAt hne content
    refine ⟨⟨pieces, hpieces, hcall hpieces⟩, fun pieces hpieces hnone ↦ ?_⟩
    rw [hcall hpieces, joinWith_replacement hpieces hnone]

/-- The second of two occurrences. -/
theorem substitutes_example :
    (∀ k ∈ some (2 : Int), 1 ≤ k) ∧
      emptyFunctions.Substitutes (fun _ ↦ .ok (.value 0)) [98, 98] [98] [99] (some 2) :=
  ⟨by decide, (substitutes_iff emptyFunctions (fun _ ↦ .ok (.value 0)) [98, 98] [98] [99] (some 2)
    (by decide)).mpr ⟨nofun, fun _ hpieces ↦ (hpieces.length_le nofun).trans (by decide),
      by decide⟩⟩

/-- SUBSTITUTE does not come to an end where the old text is empty. -/
theorem call_funcSubstitute_nil (content new : Text) (hwhich : ∀ k ∈ which, 1 ≤ k ∧ FitsInt k) :
    f.call result .funcSubstitute (substituteArgs content [] new which) = .error .undefined := by
  refine call_of_failure ((run_fncSubstitute hwhich).trans (run_bind_of_error
    (run_substituteFrom_nil (Nat.zero_le _) (2 ^ 31) 0 []))) ?_
  rintro ⟨x, hx⟩
  exact nomatch hx

/-- The occurrences of the empty text. -/
theorem not_substitutes_empty :
    ¬emptyFunctions.Substitutes (fun _ ↦ .ok (.value 0)) [97] [] [98] none := by
  rintro ⟨⟨pieces, -, hcall⟩, -⟩
  exact nomatch hcall.symm.trans (call_funcSubstitute_nil [97] [98] nofun)

end Ixion.FormulaFunctions
