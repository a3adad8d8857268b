import Ixion.Resolver.Origin
import Ixion.Resolver.SheetReference
import Ixion.Resolver.View.DotA1

/-!
# Names in the syntaxes with a dot

In Calc's A1 syntax and in that of ODF cell-range-addresses, each corner of a range has a sheet
of its own, which is absolute or relative like rows and columns.  The sheet of the last corner is
shown only when it differs from that of the first one, and is taken over from the first one
otherwise.
-/

namespace Ixion

open Lib

/-! ## Corners -/

/-- An address is that of a cell of the workbook, seen from a position. -/
structure Address.PlacedIn (a : Address) (pos : AbsAddress) (wb : Workbook) : Prop where
  row : a.row ≠ rowUnset
  column : a.column ≠ columnUnset
  inBounds : a.InBounds pos wb.sheetSize
  sheet : 0 ≤ a.sheetFrom pos ∧ a.sheetFrom pos < wb.sheets.length

/-- The column and the row of an address are not too large for the scanner. -/
structure Address.BelowBounds (a : Address) (pos : AbsAddress) : Prop where
  column : a.columnFrom pos < columnUpperBound
  row : a.RowReturns pos

/-- The name of a cell with its sheet is resolved to that cell again. -/
def CellReprints (type : FormulaNameResolverType) (wb : Workbook) (behind : ℕ → Char)
    (pos : AbsAddress) (a : Address) : Prop :=
  ∃ s, type.getName (some wb) a pos true = .ok s ∧
    (type.resolve (some wb) pos s).eval behind = .cellReference a

/-- Where the scan of an address starts after its sheet. -/
def Address.startDot (a : Address) (pos : AbsAddress) : Address :=
  ⟨a.sheetFrom pos, 0, 0, a.absSheet, false, false⟩

section Corners

variable {a : Address} {pos : AbsAddress} {wb : Workbook} {start : Address}

theorem Address.PlacedIn.appendCornerA1_eq (h : a.PlacedIn pos wb) :
    appendCornerA1 a pos =
      appendRowColumnA1 (a.rowFrom pos) (a.columnFrom pos) a.absRow a.absColumn :=
  appendCornerA1_of_set h.row h.column

/-- The corner is scanned if its column is below the upper bound. -/
theorem Address.PlacedIn.scansA1_iff (h : a.PlacedIn pos wb) :
    a.ScansA1 pos ↔ a.columnFrom pos < columnUpperBound :=
  ⟨fun hscans ↦ hscans.column h.column, fun hbound ↦
    ⟨.inl h.row, fun _ ↦ (h.inBounds.row h.row).1, fun _ ↦ hbound⟩⟩

theorem Address.PlacedIn.isPrintedA1 (h : a.PlacedIn pos wb) {c : Char}
    (hc : c ∈ appendCornerA1 a pos) : isPrintedA1 c = true :=
  isPrintedA1_of_mem_corner h.inBounds.nonneg hc

/-- The corner passes the check of its size. -/
theorem Address.PlacedIn.checkAddressBySheetBounds (h : a.PlacedIn pos wb) :
    checkAddressBySheetBounds (some wb) (a.scannedA1 pos (a.startDot pos)) = true := by
  obtain ⟨hrow, hrow'⟩ := h.inBounds.row h.row
  obtain ⟨hcolumn, hcolumn'⟩ := h.inBounds.column h.column
  rw [Ixion.checkAddressBySheetBounds, decide_eq_true_eq]
  simp only [Address.scannedA1, Address.startDot, h.row, h.column, h.sheet, if_false, and_self,
    if_true, abs_of_nonneg hrow, abs_of_nonneg hcolumn, hrow', hcolumn', or_true]

/-- The sheet of the corner is relative again. -/
theorem sheet_toRelativeAddress_startDot :
    (toRelativeAddress (a.scannedA1 pos (a.startDot pos)) pos true).sheet = a.sheet := by
  show (if !a.absSheet ∧ true then a.sheetFrom pos - pos.sheet else a.sheetFrom pos) = a.sheet
  rw [Address.sheetFrom]
  cases a.absSheet with
  | true => rfl
  | false => exact add_sub_cancel_right _ _

/-- A corner that has been scanned is the same corner exactly when its row comes back. -/
theorem Address.PlacedIn.toRelativeAddress_eq (h : a.PlacedIn pos wb)
    (habs : start.absSheet = a.absSheet) (hbound : a.columnFrom pos < columnUpperBound)
    (shift : Bool)
    (hsheet : (toRelativeAddress (a.scannedA1 pos start) pos shift).sheet = a.sheet) :
    toRelativeAddress (a.scannedA1 pos start) pos shift = a ↔ a.RowReturns pos := by
  have heq := @eq_toRelativeAddress_scannedA1 pos a start habs (fun _ ↦ hbound) shift a.sheet
  have heta : { toRelativeAddress (a.scannedA1 pos start) pos shift with sheet := a.sheet } =
      toRelativeAddress (a.scannedA1 pos start) pos shift := by
    rw [← hsheet]
  rw [heta] at heq
  rw [heq]
  constructor
  · rintro ⟨-, -, -, hrow⟩
    exact hrow h.row
  · intro hrow
    exact ⟨rfl, ⟨fun hunset ↦ absurd hunset h.row, fun hunset ↦ absurd hunset h.column⟩,
      fun hunset ↦ absurd hunset h.column, fun _ ↦ hrow⟩

end Corners

/-! ## Sheets -/

/-- The scanner of addresses in a syntax with a dot. -/
def FormulaNameResolverType.parseAddressDot (type : FormulaNameResolverType) :
    Option Workbook → List Char → Address → Scan (ParsedAddress (List Char)) :=
  match type with
  | .odfCra => parseAddressOdfCra
  | _ => parseAddressCalcA1

/-- What is printed in front of a corner without its sheet. -/
def FormulaNameResolverType.noSheet (type : FormulaNameResolverType) : List Char :=
  match type with
  | .odfCra => ['.']
  | _ => []

/-- What is printed in front of a corner on a sheet. -/
def sheetBeforeDot (absSheet : Bool) (name : List Char) : List Char :=
  dollar absSheet ++ (quoteSheetName name ++ ['.'])

section Sheets

variable {type : FormulaNameResolverType} {wb : Workbook} {pos : AbsAddress} {f : ℕ → Char}
  {name name' : List Char} {a : Address} {r : Range}

theorem needsQuote_eq_false_of_plain (hplain : ∀ c ∈ name, isPlainSheetChar c = true) :
    name.any needsQuote = false := by
  rw [List.any_eq_false]
  intro c hc hneeds
  have h := hplain c hc
  rw [isPlainSheetChar, hneeds] at h
  exact absurd h (by rintro ⟨⟩)

/-- A plain name survives. -/
theorem survivesDot_of_plain (hplain : ∀ c ∈ name, isPlainSheetChar c = true)
    (absSheet : Bool) : SurvivesDot name absSheet := by
  refine .inr ⟨fun hmem ↦ ?_, .inr fun hhead ↦ ?_⟩
  · exact absurd (hplain '.' hmem) (by decide)
  · exact absurd (hplain '$' (List.mem_of_mem_head? hhead)) (by decide)

/-- The first character tells whether the sheet is absolute. -/
theorem head_sheetBeforeDot (hne : name ≠ []) (hplain : ∀ c ∈ name, isPlainSheetChar c = true)
    (absSheet : Bool) (t : List Char) :
    decide ((sheetBeforeDot absSheet name ++ t).head? = some '$') = absSheet := by
  obtain ⟨c, cs, rfl⟩ := List.exists_cons_of_ne_nil hne
  rw [sheetBeforeDot, quoteSheetName, needsQuote_eq_false_of_plain hplain]
  cases absSheet with
  | true => rfl
  | false =>
    refine decide_eq_false fun h ↦ ?_
    obtain rfl : c = '$' := Option.some_inj.mp h
    exact absurd (hplain '$' List.mem_cons_self) (by decide)

/-- Without a dot and a quote, there is no sheet. -/
theorem parseSheetName_eq_none {p : List Char} (hdot : '.' ∉ p) (hquote : '\'' ∉ p) :
    (parseSheetName wb '.' p).eval f = none := by
  have hfrom : ∀ (c : Char) (q : List Char), '.' ∉ q → (q = [] ∨ c ≠ '\'') →
      parseSheetNameFrom wb '.' c q = none := by
    intro c q hq hc
    have hdrop : q.dropWhile (· ≠ '.') = [] := by
      rw [List.dropWhile_eq_nil_iff]
      intro d hd
      rw [decide_eq_true_eq]
      rintro rfl
      exact hq hd
    rw [parseSheetNameFrom, hdrop]
    split
    case isTrue heq =>
      rw [hc.resolve_right (not_not.mpr heq)]
      rfl
    case isFalse => rfl
  cases p with
  | nil =>
    rw [parseSheetName, Query.eval_bind, Query.eval_bind, Query.eval_pure]
    split <;> exact hfrom _ _ List.not_mem_nil (.inl rfl)
  | cons c cs =>
    rw [parseSheetName_cons, Query.eval_bind, Query.eval_pure]
    have hdot' : '.' ∉ (if c = '$' then cs else c :: cs) := by
      split
      · exact fun h ↦ hdot (List.mem_cons_of_mem c h)
      · exact hdot
    have hquote' : '\'' ∉ (if c = '$' then cs else c :: cs) := by
      split
      · exact fun h ↦ hquote (List.mem_cons_of_mem c h)
      · exact hquote
    revert hdot' hquote'
    generalize (if c = '$' then cs else c :: cs) = q
    intro hdot' hquote'
    cases q with
    | nil => exact hfrom _ _ hdot' (.inl rfl)
    | cons d ds =>
      refine hfrom d _ hdot' (.inr ?_)
      rintro rfl
      exact hquote' List.mem_cons_self

theorem resolve_eq_resolveDotA1 (htype : type = .calcA1 ∨ type = .odfCra)
    (cxt : Option Workbook) (s : List Char) :
    type.resolve cxt pos s = resolveDotA1 cxt pos type.parseAddressDot s := by
  rcases htype with rfl | rfl <;> rfl

/-- A corner is scanned after its sheet. -/
theorem parseAddressDot_sheet (htype : type = .calcA1 ∨ type = .odfCra) (hwb : wb.WellNamed)
    (hname : wb.getSheetName (a.sheetFrom pos) = .ok name)
    (hplain : ∀ c ∈ name, isPlainSheetChar c = true) (t : List Char) (addr : Address) :
    (type.parseAddressDot (some wb) (sheetBeforeDot a.absSheet name ++ t) addr).eval f =
      { parseAddressA1 t (a.startDot pos) with sheetName := true } := by
  have hne := ne_nil_of_getSheetName hwb hname
  have hhead := head_sheetBeforeDot hne hplain a.absSheet t
  have hwrite : sheetBeforeDot a.absSheet name ++ t =
      dollar a.absSheet ++ (quoteSheetName name ++ '.' :: t) := by
    simp only [sheetBeforeDot, List.append_assoc, List.singleton_append]
  have hcalc : (parseAddressCalcA1 (some wb) (sheetBeforeDot a.absSheet name ++ t) addr).eval f =
      { parseAddressA1 t (a.startDot pos) with sheetName := true } := by
    obtain ⟨x, rest, hparse, hx, -⟩ := parseSheetName_quoteSheetName wb hne a.absSheet t
    obtain ⟨rfl, rfl⟩ := hx (survivesDot_of_plain hplain _)
    rw [← hwrite] at hparse
    rw [parseAddressCalcA1, parseSheetNameOf, hparse, pure_bind, Query.eval_pure,
      getSheetIndex_of_getSheetName hwb hname, parseAddressAfterSheet, List.tail_cons, hhead]
    rfl
  rcases htype with rfl | rfl
  · exact hcalc
  · obtain ⟨c, cs, hcons⟩ : ∃ c cs, sheetBeforeDot a.absSheet name ++ t = c :: cs :=
      List.exists_cons_of_ne_nil (by simp [sheetBeforeDot])
    have hc : c ≠ '.' := by
      rintro rfl
      obtain ⟨d, ds, rfl⟩ := List.exists_cons_of_ne_nil hne
      rw [sheetBeforeDot, quoteSheetName, needsQuote_eq_false_of_plain hplain] at hcons
      cases habs : a.absSheet with
      | true =>
        rw [habs] at hcons
        exact absurd (List.cons.inj hcons).1 (by decide)
      | false =>
        rw [habs] at hcons
        have hd : d = '.' := (List.cons.inj hcons).1
        exact absurd (hd ▸ hplain d List.mem_cons_self) (by decide)
    rw [← hcalc, hcons]
    show (parseAddressOdfCra (some wb) (c :: cs) addr).eval f = _
    rw [parseAddressOdfCra, deref_cons, pure_bind, if_neg hc]

/-- A corner without a sheet is scanned on the sheet of the address before it. -/
theorem parseAddressDot_noSheet (htype : type = .calcA1 ∨ type = .odfCra) {t : List Char}
    (hdot : '.' ∉ t) (hquote : '\'' ∉ t) (addr : Address) :
    (type.parseAddressDot (some wb) (type.noSheet ++ t) addr).eval f =
      parseAddressA1 t addr.cleared := by
  rcases htype with rfl | rfl
  · show (parseAddressCalcA1 (some wb) t addr).eval f = _
    rw [parseAddressCalcA1, Query.eval_bind, parseSheetNameOf,
      parseSheetName_eq_none hdot hquote, Query.eval_pure]
    rfl
  · show (parseAddressOdfCra (some wb) ('.' :: t) addr).eval f = _
    rw [parseAddressOdfCra, deref_cons, pure_bind, if_pos rfl, parseAddressCalcA1,
      parseSheetNameOf, pure_bind]
    rfl

/-- The name of a cell is its corner after its sheet. -/
theorem getName_dot (htype : type = .calcA1 ∨ type = .odfCra)
    (hname : wb.getSheetName (a.sheetFrom pos) = .ok name) (hplaced : a.PlacedIn pos wb) :
    type.getName (some wb) a pos true =
      .ok (sheetBeforeDot a.absSheet name ++ appendCornerA1 a pos) := by
  have hsheet : appendSheet (some wb) (a.sheetFrom pos) '.' =
      .ok (quoteSheetName name ++ ['.']) := by
    rw [appendSheet, appendSheetName, isValidSheet, decide_eq_true hplaced.sheet.1, hname]
    rfl
  have happend : appendAddressA1 (some wb) a pos '.' =
      .ok (quoteSheetName name ++ ['.'] ++ appendCornerA1 a pos) := by
    rw [appendAddressA1, hsheet, hplaced.appendCornerA1_eq]
    rfl
  rw [sheetBeforeDot, List.append_assoc]
  rcases htype with rfl | rfl
  · show getNameDotA1 (some wb) pos true appendAddressA1 a = _
    rw [getNameDotA1, shownContext, if_pos rfl, happend]
    rfl
  · show getNameDotA1 (some wb) pos true appendAddressA1WithSheetNameSep a = _
    rw [getNameDotA1, shownContext, if_pos rfl, appendAddressA1WithSheetNameSep, happend]
    rfl

/-- The sheet that is printed for a corner of a range. -/
theorem appendSheetNameCalcA1_eq (hname : wb.getSheetName (a.sheetFrom pos) = .ok name)
    (hsheet : 0 ≤ a.sheetFrom pos) :
    appendSheetNameCalcA1 (some wb) a pos = .ok (sheetBeforeDot a.absSheet name) := by
  have happend : appendSheet (some wb) (a.sheetFrom pos) '.' =
      .ok (quoteSheetName name ++ ['.']) := by
    rw [appendSheet, appendSheetName, isValidSheet, decide_eq_true hsheet, hname]
    rfl
  rw [appendSheetNameCalcA1, happend]
  rfl

theorem getRangeNameDotA1_eq {first last : List Char}
    {appendSheetName : Option Workbook → Address → AbsAddress → Except Exn (List Char)}
    (hfirst : appendSheetName (some wb) r.first pos = .ok first)
    (hlast : appendSheetName (shownContext (some wb) (displayLastSheet r pos)) r.last pos =
      .ok last) :
    getRangeNameDotA1 (some wb) pos true appendSheetName r =
      .ok (first ++
        (appendCornerA1 r.first pos ++ ':' :: (last ++ appendCornerA1 r.last pos))) := by
  rw [getRangeNameDotA1, shownContext, if_pos rfl, hfirst, Bool.true_and, hlast]
  show Except.ok _ = Except.ok _
  simp only [List.append_assoc, List.cons_append, List.nil_append]

/-- The name of a range is its corners after their sheets, of which the last one may be left
out. -/
theorem getRangeName_dot (htype : type = .calcA1 ∨ type = .odfCra)
    (hname : wb.getSheetName (r.first.sheetFrom pos) = .ok name)
    (hname' : wb.getSheetName (r.last.sheetFrom pos) = .ok name')
    (hsheet : 0 ≤ r.first.sheetFrom pos) (hsheet' : 0 ≤ r.last.sheetFrom pos) :
    type.getRangeName (some wb) r pos true =
      .ok (sheetBeforeDot r.first.absSheet name ++ (appendCornerA1 r.first pos ++
        ':' :: ((if displayLastSheet r pos then sheetBeforeDot r.last.absSheet name'
          else type.noSheet) ++ appendCornerA1 r.last pos))) := by
  have hfirst := appendSheetNameCalcA1_eq hname hsheet
  have hlast := appendSheetNameCalcA1_eq hname' hsheet'
  rcases htype with rfl | rfl
  · refine getRangeNameDotA1_eq hfirst ?_
    cases displayLastSheet r pos with
    | true => exact hlast
    | false => rfl
  · refine getRangeNameDotA1_eq ?_ ?_
    · rw [appendSheetNameOdfCra, hfirst]
      rfl
    · cases displayLastSheet r pos with
      | true =>
        show appendSheetNameOdfCra (some wb) r.last pos = _
        rw [appendSheetNameOdfCra, hlast]
        rfl
      | false => rfl

end Sheets

/-! ## Results -/

section Results

variable {type : FormulaNameResolverType} {wb : Workbook} {pos : AbsAddress} {a : Address}
  {r : Range} (htype : type = .calcA1 ∨ type = .odfCra) (hwb : wb.WellNamed)
  (hplain : wb.PlainNames)

include htype hwb hplain

omit htype hwb in
theorem Address.PlacedIn.exists_name (h : a.PlacedIn pos wb) :
    ∃ name, wb.getSheetName (a.sheetFrom pos) = .ok name ∧
      ∀ c ∈ name, isPlainSheetChar c = true := by
  obtain ⟨hnonneg, hlt⟩ := h.sheet
  have hindex : (a.sheetFrom pos).toNat < wb.sheets.length := by omega
  refine ⟨wb.sheets[(a.sheetFrom pos).toNat].name.toList, ?_,
    hplain _ (List.getElem_mem hindex)⟩
  rw [Workbook.getSheetName, if_pos hnonneg, List.getElem?_eq_getElem hindex]
  rfl

/-- A cell is resolved to itself exactly when its column and row are not too large. -/
theorem cellReprints_dot (hplaced : a.PlacedIn pos wb) (behind : ℕ → Char) :
    CellReprints type wb behind pos a ↔ a.BelowBounds pos := by
  obtain ⟨name, hname, hplain'⟩ := hplaced.exists_name hplain
  set s := sheetBeforeDot a.absSheet name ++ appendCornerA1 a pos with hs
  have hdot : '.' ∈ s := by simp [hs, sheetBeforeDot]
  have hsheet : a.sheetFrom pos ≠ invalidSheet := by
    intro heq
    have hnonneg := hplaced.sheet.1
    rw [heq] at hnonneg
    exact absurd hnonneg (by decide)
  have hparsed := @parseAddressDot_sheet type wb pos behind name a htype hwb hname hplain'
    (appendCornerA1 a pos) ⟨pos.sheet, 0, 0, false, false, false⟩
  have hresolve : CellReprints type wb behind pos a ↔
      (resolveDotA1 (some wb) pos type.parseAddressDot s).eval behind = .cellReference a := by
    rw [CellReprints, getName_dot htype hname hplaced, ← hs]
    simp only [resolve_eq_resolveDotA1 htype, Except.ok.injEq, exists_eq_left']
  rw [hresolve, eval_resolveDotA1_eq_cell (resolveFunction_eq_none hdot rfl) hparsed]
  by_cases hscans : a.ScansA1 pos
  · have hbound := hplaced.scansA1_iff.mp hscans
    have hcorner : parseAddressA1 (appendCornerA1 a pos) (a.startDot pos) =
        ⟨.validAddress, false, [], a.scannedA1 pos (a.startDot pos)⟩ := by
      have h := @parseAddressA1_corner a (a.startDot pos) pos [] hscans
        (fun hset ↦ (hplaced.inBounds.column hset).1) rfl nofun
      rwa [List.append_nil] at h
    have hback := hplaced.toRelativeAddress_eq
      (rfl : (a.startDot pos).absSheet = a.absSheet) hbound true sheet_toRelativeAddress_startDot
    rw [hcorner]
    dsimp only
    rw [hback]
    constructor
    · rintro ⟨-, -, -, hrow⟩
      exact ⟨hbound, hrow⟩
    · rintro ⟨-, hrow⟩
      refine ⟨List.ne_nil_of_mem hdot, hsheet, ⟨rfl, hplaced.checkAddressBySheetBounds, ?_⟩, hrow⟩
      show (if a.row = rowUnset then rowUnset else a.rowFrom pos) ≠ rowUnset
      rw [if_neg hplaced.row]
      exact hrow.rowFrom_ne_unset hplaced.row
  · have hinvalid : (parseAddressA1 (appendCornerA1 a pos) (a.startDot pos)).result =
        .invalid := by
      have h := @result_parseAddressA1_corner a (a.startDot pos) pos [] hscans
        (fun hset ↦ (hplaced.inBounds.column hset).1) rfl nofun
      rwa [List.append_nil] at h
    refine iff_of_false ?_ fun h ↦ hscans (hplaced.scansA1_iff.mpr h.column)
    rintro ⟨-, -, ⟨hvalid, -⟩, -⟩
    exact absurd (hinvalid.symm.trans hvalid) nofun

omit htype hwb hplain in
/-- Seen from a sheet that exists, the last sheet is left out only if it is the first one. -/
theorem sheet_of_not_displayLastSheet (hpos : 0 ≤ pos.sheet)
    (h : displayLastSheet r pos = false) :
    r.first.absSheet = r.last.absSheet ∧ r.first.sheet = r.last.sheet := by
  rw [displayLastSheet, decide_eq_false_iff_not, not_or, not_not, not_not] at h
  obtain ⟨habs, hsheet⟩ := h
  have hvalid : isValidSheet pos.sheet = true := decide_eq_true hpos
  refine ⟨habs, ?_⟩
  simp only [Range.toAbs, Address.toAbs, hvalid, habs, Bool.not_true, Bool.false_eq_true,
    if_false] at hsheet
  cases hlast : r.last.absSheet with
  | true => simpa only [hlast, Bool.not_true, Bool.false_eq_true, if_false] using hsheet
  | false =>
    simp only [hlast, Bool.not_false, if_true] at hsheet
    exact add_right_cancel hsheet

omit hplain in
/-- The last corner is scanned as itself, with its sheet or on the sheet of the first one. -/
theorem parseAddressDot_last (hpos : 0 ≤ pos.sheet) {name' : List Char}
    (hplaced : r.last.PlacedIn pos wb)
    (hname' : wb.getSheetName (r.last.sheetFrom pos) = .ok name')
    (hplain' : ∀ c ∈ name', isPlainSheetChar c = true) {addr : Address}
    (hsheet : addr.sheet = r.first.sheet) (habs : addr.absSheet = r.first.absSheet)
    (behind : ℕ → Char) :
    ∃ start : Address, start.cleared = start ∧ start.absSheet = r.last.absSheet ∧
      (type.parseAddressDot (some wb)
        ((if displayLastSheet r pos then sheetBeforeDot r.last.absSheet name' else type.noSheet) ++
          appendCornerA1 r.last pos) addr).eval behind =
        { parseAddressA1 (appendCornerA1 r.last pos) start with
          sheetName := displayLastSheet r pos } ∧
      (toRelativeAddress (r.last.scannedA1 pos start) pos (displayLastSheet r pos)).sheet =
        r.last.sheet := by
  cases hdisplay : displayLastSheet r pos with
  | true =>
    refine ⟨r.last.startDot pos, rfl, rfl, ?_, sheet_toRelativeAddress_startDot⟩
    exact parseAddressDot_sheet htype hwb hname' hplain' _ addr
  | false =>
    obtain ⟨habs', hsheet'⟩ := sheet_of_not_displayLastSheet hpos hdisplay
    refine ⟨addr.cleared, rfl, habs.trans habs', ?_, ?_⟩
    · rw [if_neg nofun]
      refine (parseAddressDot_noSheet htype (fun hc ↦ ?_) (fun hc ↦ ?_) addr).trans ?_
      · exact absurd (hplaced.isPrintedA1 hc) (by decide)
      · exact absurd (hplaced.isPrintedA1 hc) (by decide)
      · have h : (parseAddressA1 (appendCornerA1 r.last pos) addr.cleared).sheetName = false :=
          sheetName_parseAddressA1Loop _ _ _
        rw [← h]
    · rw [sheet_toRelativeAddress]
      exact hsheet.trans hsheet'

/-- A range is resolved to itself exactly when the columns and rows of its corners are not too
large. -/
theorem rangeReprints_dot (hpos : 0 ≤ pos.sheet) (hplaced : r.first.PlacedIn pos wb)
    (hplaced' : r.last.PlacedIn pos wb) (behind : ℕ → Char) :
    RangeReprints type wb behind pos r ↔ r.first.BelowBounds pos ∧ r.last.BelowBounds pos := by
  obtain ⟨name, hname, hplainName⟩ := hplaced.exists_name hplain
  obtain ⟨name', hname', hplainName'⟩ := hplaced'.exists_name hplain
  set rest := (if displayLastSheet r pos then sheetBeforeDot r.last.absSheet name'
    else type.noSheet) ++ appendCornerA1 r.last pos with hrest
  set s := sheetBeforeDot r.first.absSheet name ++ (appendCornerA1 r.first pos ++ ':' :: rest)
    with hs
  have hdot : '.' ∈ s := by simp [hs, sheetBeforeDot]
  have hsheet : r.first.sheetFrom pos ≠ invalidSheet := by
    intro heq
    have hnonneg := hplaced.sheet.1
    rw [heq] at hnonneg
    exact absurd hnonneg (by decide)
  have hparsed := @parseAddressDot_sheet type wb pos behind name r.first htype hwb hname hplainName
    (appendCornerA1 r.first pos ++ ':' :: rest) ⟨pos.sheet, 0, 0, false, false, false⟩
  have hresolve : RangeReprints type wb behind pos r ↔
      (resolveDotA1 (some wb) pos type.parseAddressDot s).eval behind = .rangeReference r := by
    rw [RangeReprints, getRangeName_dot htype hname hname' hplaced.sheet.1 hplaced'.sheet.1,
      ← hrest, ← hs]
    simp only [resolve_eq_resolveDotA1 htype, Except.ok.injEq, exists_eq_left']
  have hcolon : ∀ c ∈ (':' :: rest).head?, c = ':' := fun c hc ↦ (Option.some_inj.mp hc).symm
  rw [hresolve, eval_resolveDotA1_eq_range (resolveFunction_eq_none hdot rfl) hparsed rfl]
  by_cases hscans : r.first.ScansA1 pos
  · have hbound := hplaced.scansA1_iff.mp hscans
    have hcorner : parseAddressA1 (appendCornerA1 r.first pos ++ ':' :: rest)
        (r.first.startDot pos) =
          ⟨.rangeExpected, false, ':' :: rest, r.first.scannedA1 pos (r.first.startDot pos)⟩ :=
      parseAddressA1_corner hscans (fun hset ↦ (hplaced.inBounds.column hset).1) rfl hcolon
    have hback := hplaced.toRelativeAddress_eq
      (rfl : (r.first.startDot pos).absSheet = r.first.absSheet) hbound true
      sheet_toRelativeAddress_startDot
    rw [hcorner]
    dsimp only [List.tail_cons]
    obtain ⟨start, hclear, habs, hlast, hsheet'⟩ := parseAddressDot_last htype hwb hpos hplaced'
      hname' hplainName' (@sheet_toRelativeAddress_startDot r.first pos) rfl behind
    rw [← hrest] at hlast
    rw [hlast]
    dsimp only
    by_cases hscans' : r.last.ScansA1 pos
    · have hbound' := hplaced'.scansA1_iff.mp hscans'
      have hcorner' : parseAddressA1 (appendCornerA1 r.last pos) start =
          ⟨.validAddress, false, [], r.last.scannedA1 pos start⟩ := by
        have h := @parseAddressA1_corner r.last start pos [] hscans'
          (fun hset ↦ (hplaced'.inBounds.column hset).1) hclear nofun
        rwa [List.append_nil] at h
      have hback' := hplaced'.toRelativeAddress_eq habs hbound' _ hsheet'
      rw [hcorner']
      dsimp only
      constructor
      · rintro ⟨-, -, -, -, -, heq⟩
        exact ⟨⟨hbound, hback.mp (congrArg Range.first heq)⟩,
          ⟨hbound', hback'.mp (congrArg Range.last heq)⟩⟩
      · rintro ⟨hfirst, hlast'⟩
        refine ⟨List.ne_nil_of_mem hdot, hsheet, ⟨rfl, hplaced.checkAddressBySheetBounds⟩, ?_, rfl,
          ?_⟩
        · intro hnil
          rw [hrest, hplaced'.appendCornerA1_eq, List.append_eq_nil_iff] at hnil
          obtain ⟨t, c, hdigit, -⟩ := exists_rowColumn_eq (hplaced'.inBounds.row hplaced'.row).1
            (r.last.columnFrom pos) r.last.absRow r.last.absColumn
          exact absurd (hdigit.symm.trans hnil.2) (by simp)
        · rw [hback.mpr hfirst.row, hback'.mpr hlast'.row]
    · have hinvalid : (parseAddressA1 (appendCornerA1 r.last pos) start).result = .invalid := by
        have h := @result_parseAddressA1_corner r.last start pos [] hscans'
          (fun hset ↦ (hplaced'.inBounds.column hset).1) hclear nofun
        rwa [List.append_nil] at h
      refine iff_of_false ?_ fun h ↦ hscans' (hplaced'.scansA1_iff.mpr h.2.column)
      rintro ⟨-, -, -, -, hvalid, -⟩
      exact absurd (hinvalid.symm.trans hvalid) nofun
  · have hinvalid : (parseAddressA1 (appendCornerA1 r.first pos ++ ':' :: rest)
        (r.first.startDot pos)).result = .invalid :=
      result_parseAddressA1_corner hscans (fun hset ↦ (hplaced.inBounds.column hset).1) rfl hcolon
    refine iff_of_false ?_ fun h ↦ hscans (hplaced.scansA1_iff.mpr h.1.column)
    rintro ⟨-, -, ⟨hvalid, -⟩, -⟩
    exact absurd (hinvalid.symm.trans hvalid) nofun

/-- Cells and ranges are resolved to themselves exactly when their columns and rows are not too
large. -/
theorem reprints_dot_iff (hpos : 0 ≤ pos.sheet) (behind : ℕ → Char) :
    (∀ a : Address, a.PlacedIn pos wb →
        (CellReprints type wb behind pos a ↔ a.BelowBounds pos)) ∧
      ∀ r : Range, r.first.PlacedIn pos wb → r.last.PlacedIn pos wb →
        (RangeReprints type wb behind pos r ↔
          r.first.BelowBounds pos ∧ r.last.BelowBounds pos) :=
  ⟨fun _ hplaced ↦ cellReprints_dot htype hwb hplain hplaced behind,
    fun _ hplaced hplaced' ↦ rangeReprints_dot htype hwb hplain hpos hplaced hplaced' behind⟩

end Results

/-- Seen from the second of two sheets. -/
theorem reprints_dot_iff_twoSheets :
    (FormulaNameResolverType.odfCra = .calcA1 ∨ FormulaNameResolverType.odfCra = .odfCra) ∧
      (twoSheets "A" "B").WellNamed ∧ (twoSheets "A" "B").PlainNames ∧
      (0 : Int) ≤ (⟨1, 3, 3⟩ : AbsAddress).sheet ∧
      (∀ a : Address, a.PlacedIn ⟨1, 3, 3⟩ (twoSheets "A" "B") →
        (CellReprints .odfCra (twoSheets "A" "B") (fun _ ↦ ' ') ⟨1, 3, 3⟩ a ↔
          a.BelowBounds ⟨1, 3, 3⟩)) ∧
      ∀ r : Range, r.first.PlacedIn ⟨1, 3, 3⟩ (twoSheets "A" "B") →
        r.last.PlacedIn ⟨1, 3, 3⟩ (twoSheets "A" "B") →
          (RangeReprints .odfCra (twoSheets "A" "B") (fun _ ↦ ' ') ⟨1, 3, 3⟩ r ↔
            r.first.BelowBounds ⟨1, 3, 3⟩ ∧ r.last.BelowBounds ⟨1, 3, 3⟩) := by
  have hwb : (twoSheets "A" "B").WellNamed := ⟨by decide, by decide⟩
  have hplain : (twoSheets "A" "B").PlainNames :=
    Workbook.plainNames_of_isAlphanum (Workbook.isAlphanum_of_all rfl)
  exact ⟨.inr rfl, hwb, hplain, by decide, reprints_dot_iff (.inr rfl) hwb hplain (by decide) _⟩

/-- On a very large sheet, the scanner rejects columns from the upper bound on. -/
theorem not_cellReprints_dot :
    ¬ ∀ (type : FormulaNameResolverType) (wb : Workbook) (pos : AbsAddress) (behind : ℕ → Char)
      (a : Address), (type = .calcA1 ∨ type = .odfCra) → wb.WellNamed →
        (∀ ws ∈ wb.sheets, ∀ c ∈ ws.name.toList, c.isAlphanum = true) →
        0 ≤ pos.sheet → pos.sheet < wb.sheets.length → a.PlacedIn pos wb →
          CellReprints type wb behind pos a := by
  intro h
  set wb : Workbook := { oneSheet "A" with sheetSize := ⟨1, columnUpperBound + 1⟩ } with hwb
  set a : Address := ⟨0, 0, columnUpperBound, true, true, true⟩ with ha
  have hnamed : wb.WellNamed := ⟨by decide, by decide⟩
  have halnum : ∀ ws ∈ wb.sheets, ∀ c ∈ ws.name.toList, c.isAlphanum = true :=
    Workbook.isAlphanum_of_all rfl
  have hplaced : a.PlacedIn ⟨0, 0, 0⟩ wb :=
    ⟨by decide, by decide, ⟨fun _ ↦ by decide, fun _ ↦ by decide⟩, by decide⟩
  have hreprints := h .calcA1 wb ⟨0, 0, 0⟩ (fun _ ↦ ' ') a (.inl rfl) hnamed halnum le_rfl
    (by decide) hplaced
  have hbelow := (cellReprints_dot (.inl rfl) hnamed
    (Workbook.plainNames_of_isAlphanum halnum) hplaced _).mp hreprints
  exact absurd hbelow.column (by decide)

end Ixion
