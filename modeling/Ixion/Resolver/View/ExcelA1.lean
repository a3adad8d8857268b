import Ixion.Resolver.RoundTrip
import Ixion.Resolver.View.Basic

/-!
# Where Excel's A1 scanner stops

Resolving in Excel's A1 syntax stays inside a name if the name is a function, a table, a
reference to a cell or a range, or names a sheet that does not exist.  Everything else
is looked for among the functions once more, from where the scanner has stopped: this is
inside the name only if the scanner has not moved at all.
-/

namespace Ixion

open Lib

/-! ## Scanners in A1 syntax -/

/-- The characters that an A1-style address may begin with. -/
def beginsAddressA1 (c : Char) : Bool := c.toUpper.isUpper || (c.isDigit && c ≠ '0') || c = '$'

theorem length_parseAddressA1Loop_le (mode : ResolverParseMode) (addr : Address)
    (p : List Char) : (parseAddressA1Loop mode addr p).p.length ≤ p.length := by
  fun_induction parseAddressA1Loop mode addr p <;> simp_all <;> omega

/-- Where a range is expected, the scanner is at the `':'`. -/
theorem p_parseAddressA1Loop_of_range {mode : ResolverParseMode} {addr : Address}
    {p : List Char} (h : (parseAddressA1Loop mode addr p).result = .rangeExpected) :
    ∃ rest, (parseAddressA1Loop mode addr p).p = ':' :: rest := by
  fun_induction parseAddressA1Loop mode addr p <;> simp_all

theorem columnDigit_bounds {c : Char} (h : c.isUpper = true) :
    0 < columnDigit c ∧ columnDigit c ≤ 26 := by
  obtain ⟨h₁, h₂⟩ := toNat_of_isUpper h
  simp only [columnDigit, Char.reduceToNat]
  omega

/-- A character that an address may begin with is taken. -/
theorem length_parseAddressA1_lt {addr : Address} (haddr : addr.column = 0) {c : Char}
    {cs : List Char} (hc : beginsAddressA1 c = true) :
    (parseAddressA1 (c :: cs) addr).p.length ≤ cs.length := by
  rw [parseAddressA1, parseAddressA1Loop]
  simp only [beginsAddressA1, Bool.or_eq_true, Bool.and_eq_true, decide_eq_true_eq] at hc
  split
  case isTrue hu =>
    rw [if_neg (by rintro ⟨⟩)]
    have hle : ¬ addr.column * 26 + columnDigit c.toUpper > columnUpperBound := by
      have h := (columnDigit_bounds hu).2
      rw [haddr]
      simp only [columnUpperBound, rcMax]
      omega
    simp only [if_neg hle]
    exact length_parseAddressA1Loop_le _ _ _
  case isFalse hu =>
    split
    case isTrue hd =>
      rw [if_neg]
      · exact length_parseAddressA1Loop_le _ _ _
      · rintro ⟨-, rfl⟩
        rcases hc with (hc | hc) | hc
        · exact hu hc
        · exact hc.2 rfl
        · exact absurd hc (by decide)
    case isFalse hd =>
      obtain rfl : c = '$' := by
        rcases hc with (hc | hc) | hc
        · exact absurd hc hu
        · exact absurd hc.1 hd
        · exact hc
      rw [if_neg (by decide), if_pos ⟨rfl, rfl⟩, haddr]
      exact length_parseAddressA1Loop_le _ _ _

/-- Any other character is left. -/
theorem parseAddressA1_of_not_begins {addr : Address} (haddr : addr.column = 0) {c : Char}
    {cs : List Char} (hc : beginsAddressA1 c = false) :
    parseAddressA1 (c :: cs) addr = ⟨.invalid, false, c :: cs, addr⟩ := by
  rw [parseAddressA1, parseAddressA1Loop]
  simp only [beginsAddressA1, Bool.or_eq_false_iff, Bool.and_eq_false_iff,
    decide_eq_false_iff_not] at hc
  obtain ⟨⟨hu, hd⟩, hdollar⟩ := hc
  rw [if_neg (by rw [hu]; exact Bool.false_ne_true)]
  split
  case isTrue h =>
    have hzero : c = '0' := by simpa [h] using hd
    rw [if_pos ⟨rfl, hzero⟩]
  case isFalse =>
    have hnone : finishAddressA1 .column addr = none := if_pos haddr
    rw [hnone, if_neg (show ¬ (c = '$' ∧ _) from fun h ↦ hdollar h.1)]
    exact ite_self _

/-- What a scanner of A1-style addresses finds is a reference: the address of a cell
inside the sheets, or the beginning of such a range. -/
def ReferenceA1 (cxt : Option Workbook) (parsed : ParsedAddress (List Char)) : Prop :=
  checkAddressBySheetBounds cxt parsed.addr = true ∧
    (parsed.result = .validAddress ∧ parsed.addr.row ≠ rowUnset ∨
      parsed.result = .rangeExpected)

/-! ## Excel's sheets -/

section Sheets

variable {wb : Workbook}

theorem present_parseExcelSheetNameQuotedLoop {sheet1 : Int} {wasQuote : Bool}
    {name p : List Char} {r : SheetRange × List Char}
    (h : parseExcelSheetNameQuotedLoop wb sheet1 wasQuote name p = some r) :
    r.1.present = true ∧ r.2.length ≤ p.length := by
  fun_induction parseExcelSheetNameQuotedLoop wb sheet1 wasQuote name p with
  | case2 => cases h; exact ⟨rfl, le_rfl⟩
  | case1 | case3 | case4 => exact absurd h nofun
  | case5 _ _ _ _ _ _ ih | case6 _ _ _ _ _ _ ih | case7 _ _ _ _ _ _ _ _ ih =>
    exact ⟨(ih h).1, Nat.le_succ_of_le (ih h).2⟩

theorem present_parseExcelSheetNameLoop {sheet1 : Int} {name p : List Char}
    {r : SheetRange × List Char} (h : parseExcelSheetNameLoop wb sheet1 name p = .ok r) :
    r.1.present = true ∧ r.2.length ≤ p.length := by
  fun_induction parseExcelSheetNameLoop wb sheet1 name p with
  | case2 => cases h; exact ⟨rfl, le_rfl⟩
  | case1 | case3 | case5 => exact absurd h nofun
  | case4 _ _ _ _ _ ih | case6 _ _ _ _ _ _ _ ih =>
    exact ⟨(ih h).1, Nat.le_succ_of_le (ih h).2⟩

theorem parseExcelSheetName_cases (p : List Char) :
    (parseExcelSheetName wb p).1.present = true ∧
        (parseExcelSheetName wb p).2.length ≤ p.length ∨
      (parseExcelSheetName wb p).1.present = false ∧ (parseExcelSheetName wb p).2 = p := by
  rw [parseExcelSheetName]
  split
  · split
    case h_1 r h =>
      obtain ⟨h₁, h₂⟩ := present_parseExcelSheetNameQuotedLoop h
      exact .inl ⟨h₁, h₂.trans (by simp)⟩
    case h_2 => exact .inr ⟨rfl, rfl⟩
  · split
    case h_1 r h => exact .inl (present_parseExcelSheetNameLoop h)
    case h_2 present _ =>
      cases present with
      | false => exact .inr ⟨rfl, rfl⟩
      | true => exact .inl ⟨rfl, le_rfl⟩

/-- Either the sheets are skipped or there are none. -/
theorem resolveSheets_cases (cxt : Option Workbook) {s : List Char} (hs : s ≠ []) :
    (resolveSheets cxt s).1.present = true ∧ (resolveSheets cxt s).2.length < s.length ∨
      (resolveSheets cxt s).1.present = false ∧ (resolveSheets cxt s).2 = s := by
  have hpos : 0 < s.length := List.length_pos_iff.mpr hs
  cases cxt with
  | none => exact .inr ⟨rfl, rfl⟩
  | some wb =>
    simp only [resolveSheets]
    rcases @parseExcelSheetName_cases wb s with ⟨h, hle⟩ | ⟨h, heq⟩
    · rw [h, if_pos rfl, List.length_tail]
      exact .inl ⟨rfl, by omega⟩
    · rw [h, if_neg nofun]
      exact .inr ⟨rfl, heq⟩

end Sheets

/-! ## Excel's A1 syntax -/

/-- The address that an A1-style scanner starts from. -/
def startA1 (pos : AbsAddress) (absSheet : Bool) : Address :=
  ⟨pos.sheet, 0, 0, absSheet, false, false⟩

/-- When resolving in Excel's A1 syntax stays inside a name. -/
def StaysInsideExcelA1 (cxt : Option Workbook) (pos : AbsAddress) (s : List Char) : Prop :=
  let sheets := resolveSheets cxt s
  s = [] ∨ resolveFunction s ≠ none ∨ resolveTable cxt s ≠ none ∨
    sheets.1.present = true ∧ sheets.1.sheet2 = invalidSheet ∨
    ReferenceA1 cxt (parseAddressExcelA1 sheets.2 (startA1 pos false)) ∨
    sheets.1.present = false ∧ ∀ c ∈ s.head?, beginsAddressA1 c = false

theorem silent_resolveAddressExcelA1 {cxt : Option Workbook} {pos : AbsAddress} {n : ℕ}
    {sheets : SheetRange} {p : List Char} :
    (resolveAddressExcelA1 cxt pos n sheets p).Silent ↔
      ReferenceA1 cxt (parseAddressExcelA1 p (startA1 pos false)) ∨
        n ≤ (parseAddressExcelA1 p (startA1 pos false)).p.length := by
  have hlast : ∀ parsed : ParsedAddress (List Char), ¬ ReferenceA1 cxt parsed →
      ((resolveFunctionOrName (.ofList parsed.p) n).Silent ↔
        ReferenceA1 cxt parsed ∨ n ≤ parsed.p.length) := by
    intro parsed h
    rw [silent_resolveFunctionOrName, Pointer.rest_ofList]
    exact ⟨.inr, fun h' ↦ h'.resolve_left h⟩
  simp only [resolveAddressExcelA1, startA1]
  generalize parseAddressExcelA1 p ⟨pos.sheet, 0, 0, false, false, false⟩ = parsed
  cases hb : checkAddressBySheetBounds cxt parsed.addr with
  | false =>
    have href : ¬ ReferenceA1 cxt parsed := fun h ↦ by rw [ReferenceA1, hb] at h; exact nomatch h.1
    cases hr : parsed.result <;> simpa using hlast parsed href
  | true =>
    cases hr : parsed.result with
    | invalid =>
      have href : ¬ ReferenceA1 cxt parsed := fun h ↦ by
        rw [ReferenceA1, hr] at h
        exact h.2.elim (fun h ↦ nomatch h.1) nofun
      simpa using hlast parsed href
    | validAddress =>
      by_cases hrow : parsed.addr.row = rowUnset
      · have href : ¬ ReferenceA1 cxt parsed := fun h ↦ by
          rw [ReferenceA1, hr] at h
          exact h.2.elim (fun h ↦ h.2 hrow) nofun
        simpa [hrow] using hlast parsed href
      · have href : ReferenceA1 cxt parsed := ⟨hb, .inl ⟨hr, hrow⟩⟩
        simpa [hrow, href] using Query.silent_pure _
    | rangeExpected =>
      have href : ReferenceA1 cxt parsed := ⟨hb, .inr hr⟩
      simp only [href, true_or, iff_true, Bool.not_true, Bool.false_eq_true, and_false,
        if_false, reduceCtorEq, false_and, if_true]
      split
      · exact Query.silent_pure _
      · split <;> exact Query.silent_pure _

/-- What is left when an A1-style scanner fails is the whole string exactly when there are
no sheets and the first character is not one of an address. -/
theorem length_le_parseAddressExcelA1 {cxt : Option Workbook} {s : List Char} (hs : s ≠ [])
    {addr : Address} :
    s.length ≤ (parseAddressExcelA1 (resolveSheets cxt s).2 addr).p.length ↔
      (resolveSheets cxt s).1.present = false ∧ ∀ c ∈ s.head?, beginsAddressA1 c = false := by
  have hle : ∀ p, (parseAddressExcelA1 p addr).p.length ≤ p.length :=
    fun p ↦ length_parseAddressA1Loop_le _ _ p
  rcases resolveSheets_cases cxt hs with ⟨hpresent, hlt⟩ | ⟨hpresent, heq⟩
  · rw [hpresent]
    exact iff_of_false (not_le_of_gt ((hle _).trans_lt hlt)) fun h ↦ nomatch h.1
  · rw [hpresent, heq]
    obtain ⟨c, cs, rfl⟩ := List.exists_cons_of_ne_nil hs
    cases hc : beginsAddressA1 c with
    | true =>
      apply iff_of_false
      · exact not_le_of_gt (Nat.lt_succ_of_le (length_parseAddressA1_lt rfl hc))
      · exact fun h ↦ absurd (h.2 c rfl) (by simp [hc])
    | false =>
      apply iff_of_true
      · rw [parseAddressExcelA1, parseAddressA1_of_not_begins rfl hc]
      · exact ⟨rfl, fun d hd ↦ by cases hd; exact hc⟩

theorem silent_resolveExcelA1 {cxt : Option Workbook} {pos : AbsAddress} {s : List Char} :
    (resolveExcelA1 cxt pos s).Silent ↔ StaysInsideExcelA1 cxt pos s := by
  rw [resolveExcelA1, StaysInsideExcelA1]
  by_cases hs : s = []
  · rw [if_pos (List.isEmpty_iff.mpr hs)]
    exact iff_of_true (Query.silent_pure _) (.inl hs)
  rw [if_neg fun h ↦ hs (List.isEmpty_iff.mp h)]
  cases hf : resolveFunction s with
  | some name => exact iff_of_true (Query.silent_pure _) (.inr (.inl nofun))
  | none =>
    cases ht : resolveTable cxt s with
    | some name => exact iff_of_true (Query.silent_pure _) (.inr (.inr (.inl nofun)))
    | none =>
      by_cases hu : (resolveSheets cxt s).1.present = true ∧
          (resolveSheets cxt s).1.sheet2 = invalidSheet
      · refine iff_of_true ?_ (.inr (.inr (.inr (.inl hu))))
        simp only [hu, and_self, if_true]
        exact Query.silent_pure _
      · simp only [if_neg hu, silent_resolveAddressExcelA1, length_le_parseAddressExcelA1 hs]
        simp only [hs, hu, ne_eq, not_true_eq_false, false_or]

end Ixion
