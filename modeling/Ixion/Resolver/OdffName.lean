import Ixion.Resolver.SheetBounds

/-!
# Names of ranges in ODFF syntax

The corners of a range in ODFF syntax are printed as cells, also when they are whole columns or
whole rows.  What is unset is printed like a row or column of its own: a row comes back as long as
nothing is added to it, and a column never does.

A sheet that is not found is not printed, so that nothing but its dollar sign tells a corner on it
from one without a sheet.
-/

namespace Ixion

open Lib

/-! ## Scanning a corner -/

/-- Row and column of an address as a cell. -/
def Address.rowColumn (a : Address) (pos : AbsAddress) : List Char :=
  appendRowColumnA1 (a.rowFrom pos) (a.columnFrom pos) a.absRow a.absColumn

/-- A corner of a range that has been resolved in ODFF syntax. -/
structure Address.FoundOdff (a : Address) (pos : AbsAddress) (wb : Workbook) : Prop where
  sheet : a.sheetFrom pos = invalidSheet ∨ wb.IsSheet (a.sheetFrom pos)
  row : 0 ≤ a.rowFrom pos
  column : 0 ≤ a.columnFrom pos
  bound : a.column ≠ columnUnset ↔ a.columnFrom pos < columnUpperBound

/-- A corner comes back: its column is set, its row is not too large, and its sheet is found or
absolute. -/
structure Address.CornerReturnsOdff (a : Address) (pos : AbsAddress) : Prop where
  column : a.column ≠ columnUnset
  row : a.RowReturns pos
  sheet : a.sheetFrom pos ≠ invalidSheet ∨ a.absSheet = true

section Corner

variable {a start : Address} {pos : AbsAddress} {wb : Workbook} {rest : List Char}

/-- A corner is scanned up to its end if its column is set. -/
theorem Address.FoundOdff.parseAddressA1_rowColumn (h : a.FoundOdff pos wb)
    (hset : a.column ≠ columnUnset) (hclear : start.cleared = start)
    (hrest : ∀ c ∈ rest.head?, c = ':') :
    parseAddressA1 (a.rowColumn pos ++ rest) start =
      ⟨endResult rest, false, rest, { start with
        row := a.rowFrom pos
        column := a.columnFrom pos
        absRow := a.absRow
        absColumn := a.absColumn }⟩ := by
  have hrow := h.row
  have hcolumn := h.column
  have hne : a.rowFrom pos + 1 ≠ 0 := by omega
  have hne' : ¬ a.columnFrom pos + 1 = 0 := by omega
  rw [parseAddressA1, Address.rowColumn,
    parseAddressA1Loop_rowColumn hcolumn _ _ hclear hrow (h.bound.mp hset)]
  refine (parseAddressA1Loop_end (finishAddressA1_row hne) hrest).trans ?_
  simp [hne']

/-- A corner is not scanned if its column is unset. -/
theorem Address.FoundOdff.result_parseAddressA1_rowColumn (h : a.FoundOdff pos wb)
    (hunset : a.column = columnUnset) (hclear : start.cleared = start) (rest : List Char) :
    (parseAddressA1 (a.rowColumn pos ++ rest) start).result = .invalid := by
  have hbound : columnUpperBound ≤ a.columnFrom pos := by
    by_contra hlt
    exact h.bound.mpr (not_le.mp hlt) hunset
  exact parseAddressA1Loop_rowColumn_of_le h.column _ _ hclear hbound rest

/-- A corner is scanned as an address that agrees with what it was printed from exactly when its
column is set and its row and its sheet come back. -/
theorem Address.FoundOdff.scans_iff (h : a.FoundOdff pos wb) (hclear : start.cleared = start)
    (hrest : ∀ c ∈ rest.head?, c = ':') (shift : Bool) {parsed : ParsedAddress (List Char)}
    (hparsed : parseAddressA1 (a.rowColumn pos ++ rest) start = parsed) :
    (parsed.result = endResult rest ∧ (toRelativeAddress parsed.addr pos shift).Agrees a ↔
      (a.column ≠ columnUnset ∧ a.RowReturns pos) ∧
        (toRelativeAddress start pos shift).sheet = a.sheet ∧ start.absSheet = a.absSheet) ∧
      (parsed.result ≠ .invalid → parsed.p = rest) := by
  subst hparsed
  by_cases hset : a.column = columnUnset
  · have hinvalid := h.result_parseAddressA1_rowColumn hset hclear rest
    refine ⟨iff_of_false ?_ fun hreturns ↦ hreturns.1.1 hset, fun hne ↦ absurd hinvalid hne⟩
    rintro ⟨hresult, -⟩
    rw [hinvalid] at hresult
    cases rest <;> exact absurd hresult nofun
  · rw [h.parseAddressA1_rowColumn hset hclear hrest]
    refine ⟨?_, fun _ ↦ rfl⟩
    constructor
    · rintro ⟨-, hagrees⟩
      exact ⟨⟨hset, unshift_rowFrom.mp hagrees.row⟩, hagrees.sheet, hagrees.absSheet⟩
    · rintro ⟨⟨-, hrow⟩, hsheet, habs⟩
      exact ⟨rfl, hsheet, unshift_rowFrom.mpr hrow, unshift_columnFrom (h.bound.mp hset).le, habs,
        fun _ ↦ rfl, fun _ ↦ rfl⟩

end Corner

/-! ## Sheets -/

section Sheets

variable {a : Address} {pos : AbsAddress} {wb : Workbook} {f : ℕ → Char} {name : List Char}

/-- The name of a sheet, which is empty if the sheet is not found. -/
structure NamesSheet (wb : Workbook) (sheet : Int) (name : List Char) : Prop where
  index : wb.getSheetIndex name = sheet
  plain : ∀ c ∈ name, isPlainSheetChar c = true
  nil : name = [] ↔ sheet = invalidSheet
  printed : appendSheet (some wb) sheet '.' = .ok (quoteSheetName name ++ ['.'])

theorem getSheetIndex_nil (wb : Workbook) : wb.getSheetIndex [] = invalidSheet := by
  by_contra hne
  exact (getSheetName_getSheetIndex hne).2 rfl

/-- A sheet that has been resolved is printed with its name. -/
theorem exists_namesSheet (hwb : wb.WellNamed) (hplain : wb.PlainNames) {sheet : Int}
    (h : sheet = invalidSheet ∨ wb.IsSheet sheet) : ∃ name, NamesSheet wb sheet name := by
  rcases h with rfl | hsheet
  · exact ⟨[], getSheetIndex_nil wb, nofun, iff_of_true rfl rfl, rfl⟩
  · have hne := hsheet.ne_invalid
    obtain ⟨hnonneg, hlt⟩ := hsheet
    have hindex : sheet.toNat < wb.sheets.length := by omega
    have hname : wb.getSheetName sheet = .ok wb.sheets[sheet.toNat].name.toList := by
      rw [Workbook.getSheetName, if_pos hnonneg, List.getElem?_eq_getElem hindex]
      rfl
    refine ⟨_, getSheetIndex_of_getSheetName hwb hname, hplain _ (List.getElem_mem hindex), ?_, ?_⟩
    · exact iff_of_false (ne_nil_of_getSheetName hwb hname) hne
    · rw [appendSheet, appendSheetName, isValidSheet, decide_eq_true hnonneg, hname]
      rfl

/-- A plain name, which may be empty, is scanned up to the dot. -/
theorem parseSheetName_plain (hplain : ∀ c ∈ name, isPlainSheetChar c = true) (t : List Char) :
    parseSheetNameOdff wb (name ++ '.' :: t) =
      pure (some (wb.getSheetIndex name, '.' :: t)) := by
  have hmem : ∀ d ∈ name, decide (d ≠ '.') = true := by
    intro d hd
    rw [decide_eq_true_eq]
    rintro rfl
    exact absurd (hplain '.' hd) (by decide)
  have htake : (name ++ '.' :: t).takeWhile (· ≠ '.') = name := by
    rw [List.takeWhile_append_of_pos hmem, List.takeWhile_cons_of_neg (by simp), List.append_nil]
  have hdrop : (name ++ '.' :: t).dropWhile (· ≠ '.') = '.' :: t := by
    rw [List.dropWhile_append_of_pos hmem, List.dropWhile_cons_of_neg (by simp)]
  have hfrom : ∀ c : Char, c ≠ '\'' →
      parseSheetNameFrom wb '.' c (name ++ '.' :: t) =
        some (wb.getSheetIndex name, '.' :: t) := by
    intro c hc
    rw [parseSheetNameFrom, if_neg hc, htake, hdrop]
  rw [parseSheetNameOdff, if_neg (by simp)]
  cases name with
  | nil =>
    rw [← hfrom '.' (by decide), List.nil_append, parseSheetName_cons, if_neg (by decide),
      deref_cons, pure_bind]
  | cons c cs =>
    have hc : c ≠ '$' := by
      rintro rfl
      exact absurd (hplain '$' List.mem_cons_self) (by decide)
    have hc' : c ≠ '\'' := by
      rintro rfl
      exact absurd (hplain '\'' List.mem_cons_self) (by decide)
    rw [← hfrom c hc', List.cons_append, parseSheetName_cons, if_neg hc, deref_cons, pure_bind]

/-- A corner is scanned after its sheet if the sheet is found or absolute. -/
theorem parseAddressOdff_sheet (hname : NamesSheet wb (a.sheetFrom pos) name)
    (hsheet : a.sheetFrom pos ≠ invalidSheet ∨ a.absSheet = true) (t : List Char)
    (addr : Address) :
    (parseAddressOdff (some wb) (sheetBeforeDot a.absSheet name ++ t) addr).eval f =
      { parseAddressA1 t (a.startDot pos) with sheetName := true } := by
  have hquote : quoteSheetName name = name := by
    rw [quoteSheetName, needsQuote_eq_false_of_plain hname.plain]
    rfl
  have hscan := @parseSheetName_plain wb name hname.plain t
  rw [hname.index] at hscan
  rw [sheetBeforeDot, hquote, List.append_assoc, List.append_assoc, List.singleton_append]
  cases habs : a.absSheet with
  | true =>
    show (parseAddressOdff (some wb) ('$' :: (name ++ '.' :: t)) addr).eval f = _
    rw [parseAddressOdff, deref_cons, pure_bind, if_neg (by decide)]
    dsimp only
    rw [if_pos rfl, List.tail_cons, hscan, Address.startDot, habs]
    rfl
  | false =>
    have hne : name ≠ [] := fun hnil ↦ hsheet.elim (· (hname.nil.mp hnil))
      fun h ↦ absurd (habs.symm.trans h) (by rintro ⟨⟩)
    obtain ⟨c, cs, rfl⟩ := List.exists_cons_of_ne_nil hne
    have hc : ∀ d, isPlainSheetChar d = false → c ≠ d := by
      rintro d hd rfl
      exact absurd (hd.symm.trans (hname.plain c List.mem_cons_self)) (by rintro ⟨⟩)
    show (parseAddressOdff (some wb) (c :: (cs ++ '.' :: t)) addr).eval f = _
    rw [parseAddressOdff, deref_cons, pure_bind, if_neg (hc '.' rfl)]
    dsimp only
    rw [if_neg (hc '$' rfl), ← List.cons_append, hscan, Address.startDot, habs]
    have hdollar : decide (c = '$') = false := decide_eq_false (hc '$' rfl)
    rw [hdollar]
    rfl

/-- A corner that begins with a dot is scanned on the sheet of the address before it. -/
theorem parseAddressOdff_dot (cxt : Option Workbook) (t : List Char) (addr : Address) :
    (parseAddressOdff cxt ('.' :: t) addr).eval f = parseAddressA1 t addr.cleared := by
  rw [parseAddressOdff, deref_cons, pure_bind, if_pos rfl]
  rfl

/-- A relative sheet that is not found is printed as a dot. -/
theorem sheetBeforeDot_of_not_found (hname : NamesSheet wb (a.sheetFrom pos) name)
    (hsheet : ¬ (a.sheetFrom pos ≠ invalidSheet ∨ a.absSheet = true)) :
    sheetBeforeDot a.absSheet name = ['.'] := by
  rw [not_or, not_not, Bool.not_eq_true] at hsheet
  rw [hname.nil.mpr hsheet.1, hsheet.2]
  rfl

end Sheets

/-! ## Resolved ranges -/

section Resolved

variable {cxt : Option Workbook} {wb : Workbook} {pos : AbsAddress} {f : ℕ → Char} {r : Range}
  {n : ℕ} {s p : List Char} {a b : Address}

/-- A range between the brackets is two corners, of which the last one is on the sheet of the
first one if it has none. -/
theorem eval_resolveAddressOdff_eq_range {parsed parsed₂ : ParsedAddress (List Char)}
    (hparsed : (parseAddressOdff cxt p ⟨pos.sheet, 0, 0, true, false, false⟩).eval f = parsed)
    (hparsed₂ : (parseAddressOdff cxt parsed.p.tail
      (toRelativeAddress parsed.addr pos true)).eval f = parsed₂) :
    (resolveAddressOdff cxt pos n p).eval f = .rangeReference r ↔
      parsed.result = .rangeExpected ∧ parsed.p.tail ≠ [] ∧ parsed₂.result = .validAddress ∧
        ⟨toRelativeAddress parsed.addr pos true,
          toRelativeAddress parsed₂.addr pos parsed₂.sheetName⟩ = r := by
  have hother : ¬ ((resolveFunctionOrName (.ofList parsed.p) n).eval f = .rangeReference r) :=
    fun h ↦ not_isReference_resolveFunctionOrName (h ▸ FormulaName.isReference_range r)
  rw [resolveAddressOdff, Query.eval_bind, hparsed]
  cases hresult : parsed.result with
  | invalid => simp [hother]
  | validAddress =>
    by_cases hrow : parsed.addr.row = rowUnset
    · simp [hrow, hother]
    · simp [hrow]
  | rangeExpected =>
    by_cases hnil : parsed.p.tail = []
    · simp [hnil]
    · by_cases hvalid : parsed₂.result = .validAddress
      · simp [hnil, hparsed₂, hvalid]
      · simp [hnil, hparsed₂, hvalid]

/-- What is between the brackets is resolved. -/
theorem eval_resolveOdff_bracket :
    (resolveOdff cxt pos ('[' :: (p ++ [']']))).eval f =
      (resolveAddressOdff cxt pos ('[' :: (p ++ [']'])).length p).eval
        fun i ↦ (behindBracket i).eval f := by
  have hfunction : resolveFunction ('[' :: (p ++ [']'])) = none :=
    resolveFunction_eq_none List.mem_cons_self rfl
  have hlast : ('[' :: (p ++ [']'])).getLast? = some ']' := by
    rw [← List.cons_append, List.getLast?_concat]
  rw [resolveOdff, hfunction]
  dsimp only
  rw [if_neg fun h ↦ h rfl, if_neg (not_not.mpr hlast), Query.eval_handle, List.dropLast_concat]

/-- A range is between brackets. -/
theorem exists_of_resolveOdff_eq_range (h : (resolveOdff cxt pos s).eval f = .rangeReference r) :
    ∃ p, s = '[' :: (p ++ [']']) := by
  unfold resolveOdff at h
  cases hfunction : resolveFunction s with
  | some name =>
    rw [hfunction] at h
    obtain rfl : name = .rangeReference r := h
    exact absurd (FormulaName.isReference_range r) (not_isReference_resolveFunction hfunction)
  | none =>
    rw [hfunction] at h
    cases s with
    | nil => exact absurd h nofun
    | cons c cs =>
      dsimp only at h
      split at h
      · exact absurd h nofun
      case isFalse hc =>
        obtain rfl : c = '[' := not_not.mp hc
        split at h
        · exact absurd h nofun
        case isFalse hlast =>
          rw [not_not] at hlast
          have hne : cs ≠ [] := by
            rintro rfl
            exact absurd hlast (by decide)
          refine ⟨cs.dropLast, ?_⟩
          rw [List.getLast?_cons_of_ne_nil hne] at hlast
          rw [List.dropLast_append_getLast? _ hlast]

/-- A scanned address has the sheet in front of it, or that of the address before it. -/
theorem parseAddressOdff_cases (addr : Address) :
    let parsed := (parseAddressOdff (some wb) p addr).eval f
    (parsed.result ≠ .invalid → parsed.addr.InScanA1) ∧
      (parsed.sheetName = true ∧ (parsed.addr.sheet = invalidSheet ∨ wb.IsSheet parsed.addr.sheet) ∨
        parsed.sheetName = false ∧ parsed.addr.sheet = addr.sheet ∧
          parsed.addr.absSheet = addr.absSheet) := by
  intro parsed
  have hscan : ∀ (start : Address) (q : List Char), start.cleared = start →
      (parseAddressA1 q start).result ≠ .invalid → (parseAddressA1 q start).addr.InScanA1 :=
    fun start q hclear hne ↦ inScanA1_parseAddressA1 hclear hne
  have hsheet : ∀ (start : Address) (q : List Char),
      (parseAddressA1 q start).addr.sheet = start.sheet ∧
        (parseAddressA1 q start).addr.absSheet = start.absSheet :=
    fun start q ↦ sheet_parseAddressA1Loop .column start q
  have hname : ∀ (start : Address) (q : List Char), (parseAddressA1 q start).sheetName = false :=
    fun start q ↦ sheetName_parseAddressA1Loop .column start q
  by_cases hdot : (deref p).eval f = '.'
  · have heq : parsed = parseAddressA1 p.tail addr.cleared := by
      show (parseAddressOdff (some wb) p addr).eval f = _
      rw [parseAddressOdff, Query.eval_bind, if_pos hdot, Query.eval_pure]
    rw [heq]
    exact ⟨hscan _ _ rfl, .inr ⟨hname _ _, hsheet _ _⟩⟩
  · obtain ⟨q, start, hclear, hstart, heq⟩ : ∃ q start, start.cleared = start ∧
        (start.sheet = invalidSheet ∨ wb.IsSheet start.sheet) ∧
          parsed = { parseAddressA1 q start with sheetName := true } := by
      set c := (deref p).eval f with hc
      set q := if c = '$' then p.tail else p with hq
      show ∃ q start, start.cleared = start ∧ _ ∧
        (parseAddressOdff (some wb) p addr).eval f =
          { parseAddressA1 q start with sheetName := true }
      rw [parseAddressOdff, Query.eval_bind, if_neg hdot]
      dsimp only
      rw [Query.eval_bind, ← hc, ← hq]
      cases hparse : (parseSheetNameOdff wb q).eval f with
      | none => exact ⟨_, _, rfl, .inl rfl, rfl⟩
      | some found =>
        refine ⟨_, _, rfl, ?_, rfl⟩
        rw [parseSheetNameOdff] at hparse
        split at hparse
        · exact absurd hparse (by rintro ⟨⟩)
        · rw [parseSheetName, Query.eval_bind, Query.eval_bind, Query.eval_pure] at hparse
          exact isSheet_parseSheetNameFrom hparse
    rw [heq]
    refine ⟨hscan _ _ hclear, .inl ⟨rfl, ?_⟩⟩
    rw [(hsheet start q).1]
    exact hstart

/-- A scanned address that has been made relative is the corner of a range. -/
theorem Address.IsRelativeOf.foundOdff (h : a.IsRelativeOf b pos) (hpos : pos.valid = true)
    (hb : b.InScanA1) (hsheet : a.sheetFrom pos = invalidSheet ∨ wb.IsSheet (a.sheetFrom pos)) :
    a.FoundOdff pos wb := by
  simp only [AbsAddress.valid, decide_eq_true_eq] at hpos
  obtain ⟨-, hrow, hcolumn, -⟩ := hpos
  refine ⟨hsheet, ?_, ?_, ?_⟩
  · have hb' := hb.row
    rw [Address.rowFrom, h.row, h.absRow, unshift]
    cases b.absRow with
    | true => exact hb'
    | false =>
      simp only [Bool.not_false, true_and, Bool.false_eq_true, if_false]
      split <;> omega
  · by_cases hset : a.column = columnUnset
    · have hunset : (0 : Int) ≤ columnUnset := by decide
      rw [Address.columnFrom, hset]
      split_ifs <;> omega
    · obtain ⟨heq, hnonneg, -⟩ := h.columnFrom_eq hb hset
      rwa [heq]
  · constructor
    · intro hset
      obtain ⟨heq, -, hlt⟩ := h.columnFrom_eq hb hset
      rwa [heq]
    · rintro hlt hset
      have hunset : columnUpperBound ≤ columnUnset := by decide
      rw [Address.columnFrom, hset] at hlt
      split_ifs at hlt <;> omega

/-- The corners of a range that has been resolved. -/
theorem foundOdff_resolveAddressOdff (hpos : pos.valid = true)
    (hsheet : pos.sheet < wb.sheets.length)
    (h : (resolveAddressOdff (some wb) pos n p).eval f = .rangeReference r) :
    r.first.FoundOdff pos wb ∧ r.last.FoundOdff pos wb := by
  obtain ⟨hexpected, -, hvalid, rfl⟩ := (eval_resolveAddressOdff_eq_range rfl rfl).mp h
  obtain ⟨hscan, hfirst⟩ := @parseAddressOdff_cases wb f p
    ⟨pos.sheet, 0, 0, true, false, false⟩
  set parsed := (parseAddressOdff (some wb) p ⟨pos.sheet, 0, 0, true, false, false⟩).eval f
  set addr := toRelativeAddress parsed.addr pos true with haddr
  obtain ⟨hscan', hlast⟩ := @parseAddressOdff_cases wb f parsed.p.tail addr
  set parsed₂ := (parseAddressOdff (some wb) parsed.p.tail addr).eval f
  have hfrom : ∀ b : Address, (toRelativeAddress b pos true).sheetFrom pos = b.sheet := by
    intro b
    rw [Address.sheetFrom]
    show (if b.absSheet then if !b.absSheet ∧ true then b.sheet - pos.sheet else b.sheet
      else (if !b.absSheet ∧ true then b.sheet - pos.sheet else b.sheet) + pos.sheet) = b.sheet
    cases b.absSheet with
    | true => rfl
    | false => exact sub_add_cancel _ _
  have hsheetFirst : addr.sheetFrom pos = invalidSheet ∨ wb.IsSheet (addr.sheetFrom pos) := by
    rw [haddr, hfrom]
    rcases hfirst with ⟨-, hknown⟩ | ⟨-, hpos', -⟩
    · exact hknown
    · right
      rw [hpos']
      exact isSheet_origin hpos hsheet
  refine ⟨Address.IsRelativeOf.foundOdff (b := parsed.addr) rfl hpos
    (hscan (by rw [hexpected]; rintro ⟨⟩)) hsheetFirst,
      Address.IsRelativeOf.foundOdff (b := parsed₂.addr) rfl hpos
        (hscan' (by rw [hvalid]; rintro ⟨⟩)) ?_⟩
  dsimp only
  rcases hlast with ⟨hname, hknown⟩ | ⟨hname, hsame, habs⟩
  · rw [hname, hfrom]
    exact hknown
  · have heq : (toRelativeAddress parsed₂.addr pos parsed₂.sheetName).sheetFrom pos =
        addr.sheetFrom pos := by
      have hrel : (toRelativeAddress parsed₂.addr pos false).sheet = addr.sheet :=
        (sheet_toRelativeAddress _ _).trans hsame
      have habs' : (toRelativeAddress parsed₂.addr pos false).absSheet = addr.absSheet := habs
      rw [hname, Address.sheetFrom, Address.sheetFrom, hrel, habs']
    rw [heq]
    exact hsheetFirst

end Resolved

/-! ## Result -/

/-- The sheets of the corners of a range are different. -/
def Range.sheetsDiffer (range : Range) : Bool :=
  range.last.sheet ≠ range.first.sheet ∨ range.last.absSheet ≠ range.first.absSheet

section Result

variable {wb : Workbook} {pos : AbsAddress} {f : ℕ → Char} {r : Range} {a : Address}
  {name name' rest : List Char}

/-- What the last corner of a range is printed as. -/
def writtenLast (pos : AbsAddress) (r : Range) (name : List Char) : List Char :=
  (if r.sheetsDiffer then sheetBeforeDot r.last.absSheet name else ['.']) ++ r.last.rowColumn pos

/-- The name of a range is its corners after their sheets, of which the last one may be left
out. -/
theorem getRangeName_odff (hname : NamesSheet wb (r.first.sheetFrom pos) name)
    (hname' : NamesSheet wb (r.last.sheetFrom pos) name') :
    FormulaNameResolverType.odff.getRangeName (some wb) r pos true =
      .ok ('[' :: ((sheetBeforeDot r.first.absSheet name ++
        (r.first.rowColumn pos ++ ':' :: writtenLast pos r name')) ++ [']'])) := by
  have hfirst : appendAddressA1 (some wb) r.first pos '.' =
      .ok (quoteSheetName name ++ ['.'] ++ r.first.rowColumn pos) := by
    rw [appendAddressA1, hname.printed]
    rfl
  have hlast : appendAddressA1 (some wb) r.last pos '.' =
      .ok (quoteSheetName name' ++ ['.'] ++ r.last.rowColumn pos) := by
    rw [appendAddressA1, hname'.printed]
    rfl
  show getRangeNameOdff (some wb) pos true r = _
  rw [getRangeNameOdff, if_pos ⟨rfl, rfl⟩, hfirst]
  cases hdiffer : r.sheetsDiffer with
  | true =>
    have hdiffer' : decide (r.last.sheet ≠ r.first.sheet ∨ r.last.absSheet ≠ r.first.absSheet) =
        true := hdiffer
    rw [hdiffer']
    dsimp only
    rw [if_pos rfl, hlast, writtenLast, hdiffer]
    show Except.ok _ = Except.ok _
    simp [sheetBeforeDot]
  | false =>
    have hdiffer' : decide (r.last.sheet ≠ r.first.sheet ∨ r.last.absSheet ≠ r.first.absSheet) =
        false := hdiffer
    rw [hdiffer']
    dsimp only
    rw [if_neg Bool.false_ne_true, writtenLast, hdiffer]
    show Except.ok _ = Except.ok _
    simp [sheetBeforeDot, Address.rowColumn]

/-- A corner with its sheet comes back if its sheet is found or absolute. -/
theorem Address.FoundOdff.sheet_scans_iff (h : a.FoundOdff pos wb)
    (hname : NamesSheet wb (a.sheetFrom pos) name)
    (hsheet : a.sheetFrom pos ≠ invalidSheet ∨ a.absSheet = true)
    (hrest : ∀ c ∈ rest.head?, c = ':') (addr : Address) {parsed : ParsedAddress (List Char)}
    (hparsed : (parseAddressOdff (some wb) (sheetBeforeDot a.absSheet name ++
      (a.rowColumn pos ++ rest)) addr).eval f = parsed) :
    parsed.sheetName = true ∧
      (parsed.result = endResult rest ∧ (toRelativeAddress parsed.addr pos true).Agrees a ↔
        a.CornerReturnsOdff pos) ∧
      (parsed.result ≠ .invalid → parsed.p = rest) := by
  rw [parseAddressOdff_sheet hname hsheet] at hparsed
  subst hparsed
  obtain ⟨hscans, hp⟩ := @scans_iff a (a.startDot pos) pos wb rest h rfl hrest true _ rfl
  have hstart : (toRelativeAddress (a.startDot pos) pos true).sheet = a.sheet :=
    @sheet_toRelativeAddress_startDot a pos
  refine ⟨rfl, hscans.trans ?_, hp⟩
  constructor
  · rintro ⟨⟨hcolumn, hrow⟩, -⟩
    exact ⟨hcolumn, hrow, hsheet⟩
  · rintro ⟨hcolumn, hrow, -⟩
    exact ⟨⟨hcolumn, hrow⟩, hstart, rfl⟩

/-- The first corner comes back exactly when it is one that does. -/
theorem Address.FoundOdff.first_scans_iff (h : a.FoundOdff pos wb)
    (hname : NamesSheet wb (a.sheetFrom pos) name) (hrest : ∀ c ∈ rest.head?, c = ':')
    {parsed : ParsedAddress (List Char)}
    (hparsed : (parseAddressOdff (some wb) (sheetBeforeDot a.absSheet name ++
      (a.rowColumn pos ++ rest)) ⟨pos.sheet, 0, 0, true, false, false⟩).eval f = parsed) :
    (parsed.result = endResult rest ∧ (toRelativeAddress parsed.addr pos true).Agrees a ↔
      a.CornerReturnsOdff pos) ∧ (parsed.result ≠ .invalid → parsed.p = rest) := by
  by_cases hsheet : a.sheetFrom pos ≠ invalidSheet ∨ a.absSheet = true
  · exact (h.sheet_scans_iff hname hsheet hrest _ hparsed).2
  · rw [sheetBeforeDot_of_not_found hname hsheet, List.singleton_append,
      parseAddressOdff_dot] at hparsed
    obtain ⟨hscans, hp⟩ := h.scans_iff rfl hrest true hparsed
    refine ⟨hscans.trans (iff_of_false ?_ fun hreturns ↦ hsheet hreturns.sheet), hp⟩
    -- the sheet of the origin is absolute
    rintro ⟨-, -, habs⟩
    exact hsheet (.inr habs.symm)

/-- After a first corner that comes back, the last corner comes back exactly when it is one that
does. -/
theorem last_scans_iff (h : r.last.FoundOdff pos wb)
    (hname' : NamesSheet wb (r.last.sheetFrom pos) name')
    (hfirst : r.first.CornerReturnsOdff pos) {addr : Address} (hagrees : addr.Agrees r.first)
    {parsed : ParsedAddress (List Char)}
    (hparsed : (parseAddressOdff (some wb) (writtenLast pos r name') addr).eval f = parsed) :
    parsed.result = .validAddress ∧
        (toRelativeAddress parsed.addr pos parsed.sheetName).Agrees r.last ↔
      r.last.CornerReturnsOdff pos := by
  have hdot : ∀ {parsed : ParsedAddress (List Char)},
      parseAddressA1 (r.last.rowColumn pos) addr.cleared = parsed →
        (parsed.result = .validAddress ∧
            (toRelativeAddress parsed.addr pos parsed.sheetName).Agrees r.last ↔
          (r.last.column ≠ columnUnset ∧ r.last.RowReturns pos) ∧
            r.first.sheet = r.last.sheet ∧ r.first.absSheet = r.last.absSheet) := by
    rintro _ rfl
    have hscans := (@Address.FoundOdff.scans_iff r.last addr.cleared pos wb [] h rfl nofun false _
      rfl).1
    rw [List.append_nil, sheet_toRelativeAddress] at hscans
    have hsame : addr.cleared.sheet = r.first.sheet := hagrees.sheet
    have habs : addr.cleared.absSheet = r.first.absSheet := hagrees.absSheet
    rw [hsame, habs] at hscans
    have hname : (parseAddressA1 (r.last.rowColumn pos) addr.cleared).sheetName = false :=
      sheetName_parseAddressA1Loop _ _ _
    rw [hname]
    exact hscans
  rw [writtenLast] at hparsed
  cases hdiffer : r.sheetsDiffer with
  | false =>
    rw [hdiffer, if_neg nofun, List.singleton_append, parseAddressOdff_dot] at hparsed
    rw [Range.sheetsDiffer, decide_eq_false_iff_not, not_or, not_not, not_not] at hdiffer
    obtain ⟨hsame, habs⟩ := hdiffer
    rw [hdot hparsed]
    constructor
    · rintro ⟨⟨hcolumn, hrow⟩, -⟩
      refine ⟨hcolumn, hrow, ?_⟩
      rw [Address.sheetFrom, hsame, habs]
      exact hfirst.sheet
    · rintro ⟨hcolumn, hrow, -⟩
      exact ⟨⟨hcolumn, hrow⟩, hsame.symm, habs.symm⟩
  | true =>
    rw [hdiffer, if_pos rfl] at hparsed
    by_cases hsheet : r.last.sheetFrom pos ≠ invalidSheet ∨ r.last.absSheet = true
    · rw [← List.append_nil (r.last.rowColumn pos)] at hparsed
      obtain ⟨hname, hscans, -⟩ := @Address.FoundOdff.sheet_scans_iff wb pos f r.last name' [] h
        hname' hsheet nofun addr _ hparsed
      rw [hname]
      exact hscans
    · rw [sheetBeforeDot_of_not_found hname' hsheet, List.singleton_append,
        parseAddressOdff_dot] at hparsed
      rw [hdot hparsed]
      refine iff_of_false ?_ fun hreturns ↦ hsheet hreturns.sheet
      -- the sheet of the first corner is taken over
      rintro ⟨-, hsame, habs⟩
      rw [Range.sheetsDiffer, decide_eq_true_eq] at hdiffer
      exact hdiffer.elim (fun hne ↦ hne hsame.symm) fun hne ↦ hne habs.symm

end Result

end Ixion
