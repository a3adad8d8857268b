import Ixion.Resolver.NameR1C1

/-!
# What the scanners find

Rows and columns that are set are never negative in A1 syntax, and columns are below their
upper bound; in R1C1 syntax, absolute rows and columns are not negative.
-/

namespace Ixion

open Lib

/-! ## A1 syntax -/

/-- Row and column that the scanner of A1-style addresses may find. -/
structure Address.InScanA1 (a : Address) : Prop where
  row : 0 ≤ a.row
  column : a.column = columnUnset ∨ 0 ≤ a.column ∧ a.column < columnUpperBound

theorem digitValue_nonneg {c : Char} (h : c.isDigit = true) : 0 ≤ digitValue c := by
  obtain ⟨hle, -⟩ := toNat_of_isDigit h
  simp only [digitValue, Char.reduceToNat]
  omega

theorem inScanA1_finishAddressA1 {mode : ResolverParseMode} {addr addr' : Address}
    (hrow : 0 ≤ addr.row) (hcolumn : 0 ≤ addr.column) (hbound : addr.column ≤ columnUpperBound)
    (h : finishAddressA1 mode addr = some addr') : addr'.InScanA1 := by
  unfold finishAddressA1 at h
  cases mode with
  | row =>
    dsimp only at h
    split at h
    · exact absurd h nofun
    · cases h
      refine ⟨Int.sub_nonneg_of_le (by omega), ?_⟩
      by_cases hzero : addr.column = 0
      · exact .inl (if_neg (not_not.mpr hzero))
      · right
        dsimp only
        rw [if_pos hzero]
        omega
  | column =>
    dsimp only at h
    split at h
    · exact absurd h nofun
    · cases h
      refine ⟨show 0 ≤ rowUnset by decide, .inr ?_⟩
      dsimp only
      omega

/-- What is accepted has been found by the scanner. -/
theorem inScanA1_parseAddressA1Loop {mode : ResolverParseMode} {addr : Address} {p : List Char}
    (hrow : 0 ≤ addr.row) (hcolumn : 0 ≤ addr.column) (hbound : addr.column ≤ columnUpperBound)
    (h : (parseAddressA1Loop mode addr p).result ≠ .invalid) :
    (parseAddressA1Loop mode addr p).addr.InScanA1 := by
  fun_induction parseAddressA1Loop mode addr p with
  | case1 _ _ _ hsome => exact inScanA1_finishAddressA1 hrow hcolumn hbound hsome
  | case5 _ addr c cs hupper _ _ hle ih =>
    refine ih hrow ?_ (not_lt.mp hle) h
    obtain ⟨hdigit, -⟩ := columnDigit_bounds hupper
    show 0 ≤ addr.column * 26 + columnDigit c.toUpper
    omega
  | case7 _ addr c cs _ hdigit _ ih =>
    refine ih ?_ hcolumn hbound h
    have hdigit := digitValue_nonneg hdigit
    show 0 ≤ addr.row * 10 + digitValue c
    omega
  | case8 => exact inScanA1_finishAddressA1 hrow hcolumn hbound ‹_›
  | case10 | case11 =>
    rename_i ih
    exact ih hrow hcolumn hbound h
  | case2 | case3 | case4 | case6 | case9 | case12 => exact absurd rfl h

theorem inScanA1_parseAddressA1 {addr : Address} (hclear : addr.cleared = addr) {p : List Char}
    (h : (parseAddressA1 p addr).result ≠ .invalid) : (parseAddressA1 p addr).addr.InScanA1 := by
  have hrow : addr.row = 0 := (congrArg Address.row hclear).symm
  have hcolumn : addr.column = 0 := (congrArg Address.column hclear).symm
  refine inScanA1_parseAddressA1Loop hrow.ge hcolumn.ge ?_ h
  rw [hcolumn]
  decide

/-! ## R1C1 syntax -/

/-- What is accepted has no negative absolute row or column. -/
def NonnegR1C1 (r : ParsedAddress Pointer) : Prop :=
  r.result ≠ .invalid → r.addr.AbsoluteNonneg

section R1C1

variable {f : ℕ → Char} {p : Pointer} {addr : Address}

theorem nonneg_parseSeparatorR1C1 (h : addr.AbsoluteNonneg) :
    NonnegR1C1 ((parseSeparatorR1C1 p addr).eval f) := by
  rw [parseSeparatorR1C1, Query.eval_bind, Query.eval_ite]
  split
  · exact fun _ ↦ h
  · exact fun _ ↦ h

theorem nonneg_parseBracketR1C1 {k : Pointer → Address → Scan (ParsedAddress Pointer)}
    (h : addr.AbsoluteNonneg) (hk : NonnegR1C1 ((k p.next addr).eval f)) :
    NonnegR1C1 ((parseBracketR1C1 p addr k).eval f) := by
  rw [parseBracketR1C1, Query.eval_ite]
  split
  · rw [Query.eval_bind]
    exact fun _ ↦ h
  · exact hk

theorem nonneg_parseAfterColumnR1C1 (h : addr.AbsoluteNonneg) (hrelative : addr.absColumn = false) :
    NonnegR1C1 ((parseAfterColumnR1C1 p addr).eval f) := by
  have hset : ∀ column : Int, ({ addr with column } : Address).AbsoluteNonneg :=
    fun column ↦ ⟨h.row, fun habs ↦ absurd (hrelative.symm.trans habs) nofun⟩
  rw [parseAfterColumnR1C1, Query.eval_ite]
  split
  · rw [Query.eval_ite]
    split
    · exact fun hne ↦ absurd rfl hne
    · exact fun _ ↦ h
  · rw [Query.eval_bind, Query.eval_ite]
    split
    · dsimp only
      rw [Query.eval_ite]
      split
      · exact fun hne ↦ absurd rfl hne
      rw [Query.eval_bind, Query.eval_ite]
      split
      · exact fun hne ↦ absurd rfl hne
      rw [Query.eval_bind]
      exact nonneg_parseBracketR1C1 (hset _) (nonneg_parseSeparatorR1C1 (hset _))
    · rw [Query.eval_ite]
      split
      · rw [Query.eval_bind]
        dsimp only
        rw [Query.eval_ite]
        split
        · exact fun hne ↦ absurd rfl hne
        case isFalse hpos =>
          have hnonneg : ({ addr with
              column := ((parseNumber p).eval f).1 - 1, absColumn := true } :
                Address).AbsoluteNonneg :=
            ⟨h.row, fun _ ↦ Int.sub_nonneg_of_le (by omega)⟩
          rw [Query.eval_ite]
          split
          · exact fun _ ↦ hnonneg
          · exact nonneg_parseSeparatorR1C1 hnonneg
      · exact nonneg_parseSeparatorR1C1 h

theorem nonneg_parseColumnR1C1 (h : addr.AbsoluteNonneg) :
    NonnegR1C1 ((parseColumnR1C1 p addr).eval f) := by
  rw [parseColumnR1C1, Query.eval_bind, Query.eval_ite]
  split
  · exact nonneg_parseAfterColumnR1C1 ⟨h.row, (by rintro ⟨⟩)⟩ rfl
  · exact nonneg_parseSeparatorR1C1 h

theorem nonneg_parseAfterRowR1C1 (h : addr.AbsoluteNonneg) (hrow : 0 ≤ addr.row)
    (hrelative : addr.absRow = false) : NonnegR1C1 ((parseAfterRowR1C1 p addr).eval f) := by
  have hset : ∀ row : Int, ({ addr with row } : Address).AbsoluteNonneg :=
    fun row ↦ ⟨fun habs ↦ absurd (hrelative.symm.trans habs) nofun, h.column⟩
  rw [parseAfterRowR1C1, Query.eval_ite]
  split
  · exact fun hne ↦ absurd rfl hne
  rw [Query.eval_bind, Query.eval_ite]
  split
  · exact nonneg_parseColumnR1C1 h
  rw [Query.eval_ite]
  split
  · dsimp only
    rw [Query.eval_bind, Query.eval_ite]
    split
    · exact fun hne ↦ absurd rfl hne
    rw [Query.eval_bind]
    exact nonneg_parseBracketR1C1 (hset _) (nonneg_parseColumnR1C1 (hset _))
  · rw [Query.eval_ite]
    split
    · rw [Query.eval_bind]
      dsimp only
      rw [Query.eval_ite]
      split
      · exact fun hne ↦ absurd rfl hne
      case isFalse hpos =>
        have hnonneg : ({ addr with row := ((parseNumber p).eval f).1 - 1, absRow := true } :
            Address).AbsoluteNonneg :=
          ⟨fun _ ↦ Int.sub_nonneg_of_le (by omega), h.column⟩
        rw [Query.eval_ite]
        split
        · exact fun _ ↦ hnonneg
        · exact nonneg_parseColumnR1C1 hnonneg
    · exact nonneg_parseColumnR1C1 ⟨fun _ ↦ hrow, h.column⟩

/-- What is accepted in R1C1 syntax has no negative absolute row or column. -/
theorem nonneg_parseAddressR1C1 : NonnegR1C1 ((parseAddressR1C1 p addr).eval f) := by
  have hcolumn : addr.absColumn = true → 0 ≤ columnUnset := fun _ ↦ by decide
  rw [parseAddressR1C1, Query.eval_bind, Query.eval_ite]
  split
  · exact nonneg_parseAfterRowR1C1 ⟨fun _ ↦ le_rfl, hcolumn⟩ le_rfl rfl
  · exact nonneg_parseColumnR1C1 ⟨fun _ ↦ show 0 ≤ rowUnset by decide, hcolumn⟩

end R1C1

end Ixion
