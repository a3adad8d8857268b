import Ixion.Resolver.Resolve

/-!
# References denote the same cells from every origin

A reference in A1 syntax is scanned as an absolute address, made relative to the origin,
and turned back into an absolute address where it is used.  Rows and columns above the
upper bounds, which the special values for unset ones are among, are left alone both
times, so that nothing is lost as long as the origin is a valid address.

The sheet of the second corner of a range is either given or that of the first corner,
which is relative already.
-/

namespace Ixion

open Lib

/-! ## References seen from two origins -/

/-- What is unset in an address is unset in its absolute position, and nothing else. -/
def Address.KeepsUnset (a : Address) (origin : AbsAddress) : Prop :=
  ((a.toAbs origin).row = rowUnset ↔ a.row = rowUnset) ∧
    ((a.toAbs origin).column = columnUnset ↔ a.column = columnUnset)

/-- Two addresses denote the same absolute address, each from its own origin. -/
def SameAddress (p q : AbsAddress) (a b : Address) : Prop :=
  a.toAbs p = b.toAbs q ∧ a.KeepsUnset p ∧ b.KeepsUnset q

/-- Two names are of the same type, and references denote the same absolute address or
range, each from its own origin. -/
def SameName (p q : AbsAddress) (n m : FormulaName) : Prop :=
  n.type = m.type ∧
    match n, m with
    | .cellReference a, .cellReference b => SameAddress p q a b
    | .rangeReference r, .rangeReference t =>
      r.toAbs p = t.toAbs q ∧ SameAddress p q r.first t.first ∧ SameAddress p q r.last t.last
    | n, m => n = m

section Origins

variable {p q : AbsAddress}

theorem SameName.refl {n : FormulaName} (hcell : ∀ a, n ≠ .cellReference a)
    (hrange : ∀ r, n ≠ .rangeReference r) : SameName p q n n := by
  cases n with
  | cellReference a => exact absurd rfl (hcell a)
  | rangeReference r => exact absurd rfl (hrange r)
  | _ => exact ⟨rfl, rfl⟩

theorem SameAddress.cell {a b : Address} (h : SameAddress p q a b) :
    SameName p q (.cellReference a) (.cellReference b) :=
  ⟨rfl, h⟩

theorem SameAddress.range {a b c d : Address} (h : SameAddress p q a b)
    (h' : SameAddress p q c d) :
    SameName p q (.rangeReference ⟨a, c⟩) (.rangeReference ⟨b, d⟩) := by
  refine ⟨rfl, ?_, h, h'⟩
  rw [Range.toAbs, Range.toAbs, h.1, h'.1]

/-! ## Making an address relative -/

/-- A coordinate up to a bound is moved down and up again, and one above it is not moved
at all. -/
theorem shift_back {b : Bool} {x o bound : Int} (ho : 0 ≤ o) :
    (if !b ∧ (if !b ∧ x ≤ bound then x - o else x) ≤ bound then
        (if !b ∧ x ≤ bound then x - o else x) + o
      else if !b ∧ x ≤ bound then x - o else x) = x := by
  split_ifs <;> simp_all
  omega

theorem shift_eq_iff {b : Bool} {x o bound unset : Int} (ho : 0 ≤ o) (hunset : bound < unset) :
    (if !b ∧ x ≤ bound then x - o else x) = unset ↔ x = unset := by
  split_ifs with h
  · constructor
    · intro h'
      omega
    · intro h'
      omega
  · exact Iff.rfl

/-- Row and column of an address are the same again when it is seen from the origin. -/
theorem toAbs_toRelativeAddress (a : Address) (hp : p.valid = true) (sheet : Bool) :
    ((toRelativeAddress a p sheet).toAbs p).row = a.row ∧
      ((toRelativeAddress a p sheet).toAbs p).column = a.column := by
  simp only [AbsAddress.valid, decide_eq_true_eq] at hp
  obtain ⟨-, hrow, hcolumn, -⟩ := hp
  exact ⟨shift_back hrow, shift_back hcolumn⟩

theorem keepsUnset_toRelativeAddress (a : Address) (hp : p.valid = true) (sheet : Bool) :
    (toRelativeAddress a p sheet).KeepsUnset p := by
  obtain ⟨hrow, hcolumn⟩ := toAbs_toRelativeAddress a hp sheet
  simp only [AbsAddress.valid, decide_eq_true_eq] at hp
  obtain ⟨-, hr, hc, -⟩ := hp
  rw [Address.KeepsUnset, hrow, hcolumn]
  exact ⟨(shift_eq_iff hr (by decide)).symm, (shift_eq_iff hc (by decide)).symm⟩

/-- What is scanned is the same absolute address from both origins. -/
theorem sameAddress_toRelativeAddress (hp : p.valid = true) (hq : q.valid = true)
    (hsheet : p.sheet = q.sheet) (a : Address) (sheet : Bool) :
    SameAddress p q (toRelativeAddress a p sheet) (toRelativeAddress a q sheet) := by
  refine ⟨?_, keepsUnset_toRelativeAddress a hp sheet, keepsUnset_toRelativeAddress a hq sheet⟩
  obtain ⟨hrow, hcolumn⟩ := toAbs_toRelativeAddress a hp sheet
  obtain ⟨hrow', hcolumn'⟩ := toAbs_toRelativeAddress a hq sheet
  have hs : ((toRelativeAddress a p sheet).toAbs p).sheet =
      ((toRelativeAddress a q sheet).toAbs q).sheet :=
    congrArg (fun o ↦ if !isValidSheet o then o
      else if !a.absSheet then (if !a.absSheet ∧ sheet then a.sheet - o else a.sheet) + o
      else if !a.absSheet ∧ sheet then a.sheet - o else a.sheet) hsheet
  calc (toRelativeAddress a p sheet).toAbs p
      = ⟨((toRelativeAddress a p sheet).toAbs p).sheet,
          ((toRelativeAddress a p sheet).toAbs p).row,
          ((toRelativeAddress a p sheet).toAbs p).column⟩ := rfl
    _ = (toRelativeAddress a q sheet).toAbs q := by
        rw [hs, hrow, hcolumn, ← hrow', ← hcolumn']

/-- The same sheet may be given to both. -/
theorem SameAddress.setSheet {a b : Address} (h : SameAddress p q a b)
    (hsheet : p.sheet = q.sheet) (habs : a.absSheet = b.absSheet) (sheet : Int) :
    SameAddress p q { a with sheet } { b with sheet } := by
  obtain ⟨heq, ha, hb⟩ := h
  refine ⟨?_, ha, hb⟩
  have hrow : (a.toAbs p).row = (b.toAbs q).row := congrArg AbsAddress.row heq
  have hcolumn : (a.toAbs p).column = (b.toAbs q).column := congrArg AbsAddress.column heq
  simp only [Address.toAbs, AbsAddress.mk.injEq] at hrow hcolumn ⊢
  exact ⟨by rw [hsheet, habs], hrow, hcolumn⟩

/-- The next address is scanned in the same way from both origins. -/
theorem cleared_toRelativeAddress (hsheet : p.sheet = q.sheet) (a : Address) (sheet : Bool) :
    (toRelativeAddress a p sheet).cleared = (toRelativeAddress a q sheet).cleared := by
  simp only [Address.cleared, toRelativeAddress]
  rw [hsheet]

theorem sheet_toRelativeAddress (a : Address) (p : AbsAddress) :
    (toRelativeAddress a p false).sheet = a.sheet := by
  simp [toRelativeAddress]

/-! ## The resolvers -/

theorem sameName_cell (hsheet : p.sheet = q.sheet) (sheets : SheetRange) {a b : Address}
    (h : SameAddress p q a b) (habs : a.absSheet = b.absSheet) :
    SameName p q (sheets.cell a) (sheets.cell b) := by
  have hset := h.setSheet hsheet habs
  rw [SheetRange.cell, SheetRange.cell]
  split
  · split
    · exact (hset _).range (hset _)
    · exact (hset _).cell
  · exact h.cell

theorem sameName_range (hsheet : p.sheet = q.sheet) (sheets : SheetRange) {a b c d : Address}
    (h : SameAddress p q a b) (habs : a.absSheet = b.absSheet) (h' : SameAddress p q c d)
    (habs' : c.absSheet = d.absSheet) : SameName p q (sheets.range a c) (sheets.range b d) := by
  have hset := h.setSheet hsheet habs
  have hset' := h'.setSheet hsheet habs'
  rw [SheetRange.range, SheetRange.range]
  split
  · split <;> exact (hset _).range (hset' _)
  · exact h.range h'

/-- Functions and named expressions have no origin. -/
theorem sameName_resolveFunctionOrName (f : ℕ → Char) (t : Pointer) (n : ℕ) :
    SameName p q ((resolveFunctionOrName t n).eval f) ((resolveFunctionOrName t n).eval f) := by
  rw [resolveFunctionOrName, Query.eval_bind, Query.eval_pure, resolveFunction]
  cases FormulaFunctions.getFunctionOpcode _ with
  | none => exact ⟨rfl, rfl⟩
  | some func => exact ⟨rfl, rfl⟩

/-- Both origins take the same branch. -/
theorem sameName_ite (f : ℕ → Char) (c : Prop) [Decidable c] {x y x' y' : Scan FormulaName}
    (h : c → SameName p q (x.eval f) (x'.eval f)) (h' : ¬ c → SameName p q (y.eval f) (y'.eval f)) :
    SameName p q ((if c then x else y).eval f) ((if c then x' else y').eval f) := by
  by_cases hc : c
  · rw [if_pos hc, if_pos hc]
    exact h hc
  · rw [if_neg hc, if_neg hc]
    exact h' hc

theorem sameName_invalid (f : ℕ → Char) :
    SameName p q ((pure .invalid : Scan FormulaName).eval f)
      ((pure .invalid : Scan FormulaName).eval f) :=
  ⟨rfl, rfl⟩

/-- What is found before an address is scanned has no origin. -/
theorem sameName_resolveFunction {s : List Char} {name : FormulaName}
    (h : resolveFunction s = some name) : SameName p q name name := by
  obtain ⟨func, -, rfl⟩ := Option.map_eq_some_iff.mp h
  exact ⟨rfl, rfl⟩

theorem sameName_resolveTable {cxt : Option Workbook} {s : List Char} {name : FormulaName}
    (h : resolveTable cxt s = some name) : SameName p q name name := by
  simp only [resolveTable, Option.bind_eq_bind, Option.bind_eq_some_iff] at h
  obtain ⟨_, -, st, -, h⟩ := h
  split at h
  · exact absurd h nofun
  · simp only [Option.bind_eq_some_iff] at h
    obtain ⟨table, -, h⟩ := h
    cases h
    exact ⟨rfl, rfl⟩

theorem sameName_resolveAddressExcelA1 (hp : p.valid = true) (hq : q.valid = true)
    (hsheet : p.sheet = q.sheet) (cxt : Option Workbook) (f : ℕ → Char) (n : ℕ)
    (sheets : SheetRange) (t : List Char) :
    SameName p q ((resolveAddressExcelA1 cxt p n sheets t).eval f)
      ((resolveAddressExcelA1 cxt q n sheets t).eval f) := by
  have hsame := sameAddress_toRelativeAddress hp hq hsheet
  simp only [resolveAddressExcelA1, hsheet, parseAddressExcelA1, cleared_toRelativeAddress hsheet]
  refine sameName_ite f _ (fun _ ↦ sameName_cell hsheet sheets (hsame _ _) rfl) fun _ ↦ ?_
  refine sameName_ite f _ (fun _ ↦ ?_) fun _ ↦ sameName_resolveFunctionOrName f _ n
  refine sameName_ite f _ (fun _ ↦ sameName_invalid f) fun _ ↦ ?_
  refine sameName_ite f _ (fun _ ↦ sameName_invalid f) fun _ ↦ ?_
  refine sameName_range hsheet sheets (hsame _ _) rfl ?_ rfl
  rw [sheet_toRelativeAddress, sheet_toRelativeAddress]
  exact (hsame _ _).setSheet hsheet rfl _

theorem sameName_resolveExcelA1 (hp : p.valid = true) (hq : q.valid = true)
    (hsheet : p.sheet = q.sheet) (cxt : Option Workbook) (f : ℕ → Char) (s : List Char) :
    SameName p q ((resolveExcelA1 cxt p s).eval f) ((resolveExcelA1 cxt q s).eval f) := by
  rw [resolveExcelA1, resolveExcelA1]
  split
  · exact sameName_invalid f
  cases hf : resolveFunction s with
  | some name => exact sameName_resolveFunction hf
  | none =>
    cases ht : resolveTable cxt s with
    | some name => exact sameName_resolveTable ht
    | none =>
      dsimp only
      split
      · exact sameName_invalid f
      · exact sameName_resolveAddressExcelA1 hp hq hsheet cxt f _ _ _

theorem sameName_resolveDotA1 (hp : p.valid = true) (hq : q.valid = true)
    (hsheet : p.sheet = q.sheet) (cxt : Option Workbook) (f : ℕ → Char) (s : List Char)
    {parseAddress : Option Workbook → List Char → Address → Scan (ParsedAddress (List Char))}
    (hclear : ∀ t a b, a.cleared = b.cleared → parseAddress cxt t a = parseAddress cxt t b) :
    SameName p q ((resolveDotA1 cxt p parseAddress s).eval f)
      ((resolveDotA1 cxt q parseAddress s).eval f) := by
  have hsame := sameAddress_toRelativeAddress hp hq hsheet
  rw [resolveDotA1, resolveDotA1]
  split
  · exact sameName_invalid f
  cases hf : resolveFunction s with
  | some name => exact sameName_resolveFunction hf
  | none =>
    simp only [hsheet, Query.eval_bind]
    refine sameName_ite f _ (fun _ ↦ sameName_invalid f) fun _ ↦ ?_
    refine sameName_ite f _ (fun _ ↦ (hsame _ _).cell) fun _ ↦ ?_
    refine sameName_ite f _ (fun _ ↦ ?_) fun _ ↦ sameName_resolveFunctionOrName f _ _
    refine sameName_ite f _ (fun _ ↦ sameName_invalid f) fun _ ↦ ?_
    rw [hclear _ _ _ (cleared_toRelativeAddress hsheet _ true), Query.eval_bind, Query.eval_bind]
    refine sameName_ite f _ (fun _ ↦ sameName_invalid f) fun _ ↦ ?_
    exact (hsame _ _).range (hsame _ _)

theorem parseAddressOdff_congr {cxt : Option Workbook} (t : List Char) (a b : Address)
    (h : a.cleared = b.cleared) : parseAddressOdff cxt t a = parseAddressOdff cxt t b := by
  rw [parseAddressOdff, parseAddressOdff, h]

theorem sameName_resolveAddressOdff (hp : p.valid = true) (hq : q.valid = true)
    (hsheet : p.sheet = q.sheet) (cxt : Option Workbook) (f : ℕ → Char) (n : ℕ)
    (t : List Char) :
    SameName p q ((resolveAddressOdff cxt p n t).eval f)
      ((resolveAddressOdff cxt q n t).eval f) := by
  have hsame := sameAddress_toRelativeAddress hp hq hsheet
  simp only [resolveAddressOdff, hsheet, Query.eval_bind]
  refine sameName_ite f _ (fun _ ↦ (hsame _ _).cell) fun _ ↦ ?_
  refine sameName_ite f _ (fun _ ↦ ?_) fun _ ↦ sameName_resolveFunctionOrName f _ n
  refine sameName_ite f _ (fun _ ↦ sameName_invalid f) fun _ ↦ ?_
  rw [parseAddressOdff_congr _ _ _ (cleared_toRelativeAddress hsheet _ true), Query.eval_bind,
    Query.eval_bind]
  refine sameName_ite f _ (fun _ ↦ sameName_invalid f) fun _ ↦ ?_
  exact (hsame _ _).range (hsame _ _)

theorem sameName_resolveOdff (hp : p.valid = true) (hq : q.valid = true)
    (hsheet : p.sheet = q.sheet) (cxt : Option Workbook) (f : ℕ → Char) (s : List Char) :
    SameName p q ((resolveOdff cxt p s).eval f) ((resolveOdff cxt q s).eval f) := by
  unfold resolveOdff
  cases hf : resolveFunction s with
  | some name => exact sameName_resolveFunction hf
  | none =>
    cases s with
    | nil => exact sameName_invalid f
    | cons c cs =>
      refine sameName_ite f _ (fun _ ↦ ⟨rfl, rfl⟩) fun _ ↦ ?_
      refine sameName_ite f _ (fun _ ↦ sameName_invalid f) fun _ ↦ ?_
      rw [Query.eval_handle, Query.eval_handle]
      exact sameName_resolveAddressOdff hp hq hsheet cxt _ _ _

end Origins

theorem parseAddressCalcA1_congr {cxt : Option Workbook} (t : List Char) (a b : Address)
    (h : a.cleared = b.cleared) : parseAddressCalcA1 cxt t a = parseAddressCalcA1 cxt t b := by
  rw [parseAddressCalcA1, parseAddressCalcA1, h]

theorem parseAddressOdfCra_congr {cxt : Option Workbook} (t : List Char) (a b : Address)
    (h : a.cleared = b.cleared) : parseAddressOdfCra cxt t a = parseAddressOdfCra cxt t b := by
  rw [parseAddressOdfCra, parseAddressOdfCra]
  congr 1
  funext c
  rw [parseAddressCalcA1_congr _ a b h, parseAddressCalcA1_congr _ a b h]

end Ixion
