import Ixion.Resolver.NameR1C1

/-!
# Sheets in front of a reference

In Excel's syntaxes one or two names of sheets may be written in front of a reference, in
quotes or not.  A second name that is not that of a sheet makes the reference invalid.  A first
name that is not that of a sheet leaves the index that stands for no first sheet at all, so
that a reference to two sheets becomes one to the second sheet alone.
-/

namespace Ixion

open Lib

/-! ## Names -/

/-- A name is that of a sheet. -/
def Workbook.HasSheet (wb : Workbook) (name : List Char) : Prop :=
  ∃ ws ∈ wb.sheets, ws.name ≠ "" ∧ ws.name.toList = name

theorem getSheetIndex_ne_invalid {wb : Workbook} {name : List Char} :
    wb.getSheetIndex name ≠ invalidSheet ↔ wb.HasSheet name := by
  rw [Workbook.getSheetIndex, Workbook.HasSheet]
  split
  case h_1 i hi =>
    obtain ⟨hlt, hp, -⟩ := List.findIdx?_eq_some_iff_getElem.mp hi
    have hne : (i : Int) ≠ invalidSheet := by
      intro heq
      have hnonneg : (0 : Int) ≤ i := Int.natCast_nonneg i
      rw [heq] at hnonneg
      exact absurd hnonneg (by decide)
    exact iff_of_true hne ⟨_, List.getElem_mem hlt, of_decide_eq_true hp⟩
  case h_2 hnone =>
    refine iff_of_false (fun h ↦ h rfl) ?_
    rintro ⟨ws, hws, hname⟩
    have hnot := List.findIdx?_eq_none_iff.mp hnone ws hws
    rw [decide_eq_false_iff_not] at hnot
    exact hnot hname

/-- The sheets that are written in front of a reference: a name, or a pair of names, and
whether they are in quotes. -/
structure SheetPrefix where
  quoted : Bool
  name1 : Option (List Char)
  name2 : List Char

namespace SheetPrefix

/-- All names. -/
def names (P : SheetPrefix) : List (List Char) := P.name1.toList ++ [P.name2]

theorem mem_names (P : SheetPrefix) {name : List Char} :
    name ∈ P.names ↔ P.name1 = some name ∨ name = P.name2 := by
  rw [names, List.mem_append, Option.mem_toList, List.mem_singleton]

theorem mem_names_name1 (P : SheetPrefix) {name : List Char} (h : P.name1 = some name) :
    name ∈ P.names :=
  P.mem_names.mpr (.inl h)

theorem mem_names_name2 (P : SheetPrefix) : P.name2 ∈ P.names := P.mem_names.mpr (.inr rfl)

/-- How a name is written. -/
def writeName (P : SheetPrefix) (name : List Char) : List Char :=
  if P.quoted then doubleQuotes name else name

/-- The names with the separator between them. -/
def writeNames (P : SheetPrefix) : List Char :=
  match P.name1 with
  | some name1 => P.writeName name1 ++ ':' :: P.writeName P.name2
  | none => P.writeName P.name2

/-- How the sheets are written in front of a reference. -/
def write (P : SheetPrefix) (ref : List Char) : List Char :=
  if P.quoted then '\'' :: (P.writeNames ++ '\'' :: '!' :: ref) else P.writeNames ++ '!' :: ref

/-- The names can be told apart from the separators; and what is not in quotes does not
begin with one. -/
structure WellFormed (P : SheetPrefix) : Prop where
  colon : ∀ name ∈ P.names, ':' ∉ name
  separator : P.quoted = false → ∀ name ∈ P.names, '!' ∉ name
  quote : P.quoted = false → P.writeNames.head? ≠ some '\''

/-- Whether a character of a name ends the scan of the names. -/
def stops (P : SheetPrefix) (c : Char) : Bool := if P.quoted then c = '!' else needsQuote c

/-- The names are scanned up to their end. -/
def Scans (P : SheetPrefix) : Prop := ∀ name ∈ P.names, ∀ c ∈ name, P.stops c = false

/-- The sheets that are scanned. -/
def sheets (P : SheetPrefix) (wb : Workbook) : SheetRange where
  present := true
  sheet1 :=
    match P.name1 with
    | some name1 => wb.getSheetIndex name1
    | none => invalidSheet
  sheet2 := wb.getSheetIndex P.name2

end SheetPrefix

/-! ## Scanning the names -/

section Scan

variable {wb : Workbook} {P : SheetPrefix}

theorem endsExcelSheet_of_not_mem {name : List Char} (h₁ : '!' ∉ name) (h₂ : ':' ∉ name) :
    ∀ c ∈ name, endsExcelSheet c = false := by
  intro c hc
  rw [endsExcelSheet, Bool.or_eq_false_iff, decide_eq_false_iff_not, decide_eq_false_iff_not]
  exact ⟨fun h ↦ h₁ (h ▸ hc), fun h ↦ h₂ (h ▸ hc)⟩

theorem parseExcelSheetNameQuotedLoop_colon (name rest : List Char) :
    parseExcelSheetNameQuotedLoop wb invalidSheet false name (':' :: rest) =
      parseExcelSheetNameQuotedLoop wb (wb.getSheetIndex name) false [] rest := by
  simp only [parseExcelSheetNameQuotedLoop, Char.reduceEq, if_false, if_true, ne_eq,
    not_true_eq_false]

theorem parseExcelSheetNameLoop_colon (name rest : List Char) :
    parseExcelSheetNameLoop wb invalidSheet name (':' :: rest) =
      parseExcelSheetNameLoop wb (wb.getSheetIndex name) [] rest := by
  simp only [parseExcelSheetNameLoop, Char.reduceEq, if_false, if_true, ne_eq, not_true_eq_false]

/-- What is not in quotes does not begin with one. -/
theorem SheetPrefix.WellFormed.head_write (hwf : P.WellFormed) (hquoted : P.quoted = false)
    (ref : List Char) : (P.write ref).head? ≠ some '\'' := by
  have hquote := hwf.quote hquoted
  rw [write, if_neg (by rw [hquoted]; exact nofun)]
  cases hnames : P.writeNames with
  | nil => exact nofun
  | cons c cs =>
    rw [hnames] at hquote
    exact hquote

/-- Nothing in a name that is scanned up to its end is taken for a separator. -/
theorem SheetPrefix.WellFormed.endsExcelSheet (hwf : P.WellFormed) (hscans : P.Scans)
    {name : List Char} (hname : name ∈ P.names) : ∀ c ∈ name, endsExcelSheet c = false := by
  refine endsExcelSheet_of_not_mem (fun hc ↦ ?_) (hwf.colon name hname)
  cases hquoted : P.quoted with
  | true =>
    have h := hscans name hname '!' hc
    rw [stops, hquoted] at h
    exact absurd h nofun
  | false => exact hwf.separator hquoted name hname hc

/-- Names in quotes that are scanned up to their end are found. -/
theorem parseExcelSheetNameQuotedLoop_writeNames (hwf : P.WellFormed) (hscans : P.Scans)
    (hquoted : P.quoted = true) (ref : List Char) :
    parseExcelSheetNameQuotedLoop wb invalidSheet false [] (P.writeNames ++ '\'' :: '!' :: ref) =
      some (P.sheets wb, '!' :: ref) := by
  have hname : ∀ name ∈ P.names, ∀ (sheet1 : Int) (rest : List Char),
      parseExcelSheetNameQuotedLoop wb sheet1 false [] (doubleQuotes name ++ rest) =
        parseExcelSheetNameQuotedLoop wb sheet1 false name rest :=
    fun name hname sheet1 rest ↦
      parseExcelSheetNameQuotedLoop_doubleQuotes wb (hwf.endsExcelSheet hscans hname) sheet1 [] rest
  have hend := hname P.name2 P.mem_names_name2
  simp only [SheetPrefix.writeNames, SheetPrefix.writeName, hquoted, if_true]
  cases hname1 : P.name1 with
  | none =>
    show parseExcelSheetNameQuotedLoop wb invalidSheet false [] (doubleQuotes P.name2 ++ _) = _
    rw [hend, parseExcelSheetNameQuotedLoop_end, SheetPrefix.sheets, hname1]
  | some name1 =>
    show parseExcelSheetNameQuotedLoop wb invalidSheet false []
      ((doubleQuotes name1 ++ ':' :: doubleQuotes P.name2) ++ _) = _
    rw [List.append_assoc, hname name1 (P.mem_names_name1 hname1), List.cons_append,
      parseExcelSheetNameQuotedLoop_colon, hend, parseExcelSheetNameQuotedLoop_end,
      SheetPrefix.sheets, hname1]

/-- So are names without quotes. -/
theorem parseExcelSheetNameLoop_writeNames (hwf : P.WellFormed) (hscans : P.Scans)
    (hquoted : P.quoted = false) (ref : List Char) :
    parseExcelSheetNameLoop wb invalidSheet [] (P.writeNames ++ '!' :: ref) =
      .ok (P.sheets wb, '!' :: ref) := by
  have hname : ∀ name ∈ P.names, ∀ (sheet1 : Int) (rest : List Char),
      parseExcelSheetNameLoop wb sheet1 [] (name ++ rest) =
        parseExcelSheetNameLoop wb sheet1 name rest := by
    intro name hname sheet1 rest
    refine parseExcelSheetNameLoop_append wb (hwf.endsExcelSheet hscans hname) ?_ sheet1 [] rest
    rw [List.any_eq_false]
    intro c hc
    have h := hscans name hname c hc
    rw [SheetPrefix.stops, hquoted] at h
    exact Bool.eq_false_iff.mp h
  have hend := hname P.name2 P.mem_names_name2
  simp only [SheetPrefix.writeNames, SheetPrefix.writeName, hquoted, Bool.false_eq_true, if_false]
  cases hname1 : P.name1 with
  | none =>
    show parseExcelSheetNameLoop wb invalidSheet [] (P.name2 ++ _) = _
    rw [hend, parseExcelSheetNameLoop_end, SheetPrefix.sheets, hname1]
  | some name1 =>
    show parseExcelSheetNameLoop wb invalidSheet [] ((name1 ++ ':' :: P.name2) ++ _) = _
    rw [List.append_assoc, hname name1 (P.mem_names_name1 hname1), List.cons_append,
      parseExcelSheetNameLoop_colon, hend, parseExcelSheetNameLoop_end, SheetPrefix.sheets, hname1]

/-- Names that are scanned up to their end are found. -/
theorem resolveSheets_write (hwf : P.WellFormed) (hscans : P.Scans) (ref : List Char) :
    resolveSheets (some wb) (P.write ref) = (P.sheets wb, ref) := by
  have hparse : parseExcelSheetName wb (P.write ref) = (P.sheets wb, '!' :: ref) := by
    cases hquoted : P.quoted with
    | true =>
      rw [SheetPrefix.write, if_pos hquoted, parseExcelSheetName, if_pos (List.head?_cons ..),
        List.tail_cons, parseExcelSheetNameQuotedLoop_writeNames hwf hscans hquoted]
    | false =>
      rw [parseExcelSheetName, if_neg (hwf.head_write hquoted ref), SheetPrefix.write,
        if_neg (by rw [hquoted]; rintro ⟨⟩),
        parseExcelSheetNameLoop_writeNames hwf hscans hquoted]
  rw [resolveSheets, hparse]
  rfl

/-- A character that needs quotes ends the scan of a name without quotes. -/
theorem parseExcelSheetNameLoop_of_needsQuote {name : List Char}
    (hname : ∀ c ∈ name, endsExcelSheet c = false) (hquote : name.any needsQuote = true)
    (sheet1 : Int) (acc : List Char) {rest : List Char} (hrest : '!' ∈ rest) :
    parseExcelSheetNameLoop wb sheet1 acc (name ++ rest) = .error true := by
  induction name generalizing acc with
  | nil => exact absurd hquote nofun
  | cons c cs ih =>
    have hc : endsExcelSheet c = false := hname c List.mem_cons_self
    simp only [endsExcelSheet, Bool.or_eq_false_iff, decide_eq_false_iff_not] at hc
    rw [List.cons_append, parseExcelSheetNameLoop, if_neg hc.1, if_neg hc.2]
    by_cases hq : c = ' ' ∨ c = '\'' ∨ c = '"'
    · rw [if_pos hq, List.contains_iff_mem.mpr (List.mem_append_right cs hrest)]
      rfl
    · rw [if_neg hq]
      refine ih (fun d hd ↦ hname d (List.mem_cons_of_mem c hd)) ?_ _
      rw [List.any_cons, Bool.or_eq_true] at hquote
      refine hquote.resolve_left fun h ↦ hq ?_
      simp only [needsQuote, Bool.or_eq_true, decide_eq_true_eq] at h
      tauto

/-- The separator ends the scan of a name in quotes. -/
theorem parseExcelSheetNameQuotedLoop_of_mem {name : List Char} (hcolon : ':' ∉ name)
    (hname : '!' ∈ name) (sheet1 : Int) (acc rest : List Char) :
    parseExcelSheetNameQuotedLoop wb sheet1 false acc (doubleQuotes name ++ rest) = none := by
  induction name generalizing acc with
  | nil => exact absurd hname List.not_mem_nil
  | cons c cs ih =>
    rw [doubleQuotes, List.flatMap_cons, List.append_assoc]
    have hcs : ':' ∉ cs := fun h ↦ hcolon (List.mem_cons_of_mem c h)
    have hc : c ≠ ':' := fun h ↦ hcolon (h ▸ List.mem_cons_self)
    by_cases hq : c = '\''
    · subst hq
      show parseExcelSheetNameQuotedLoop wb sheet1 false acc
        ('\'' :: '\'' :: (doubleQuotes cs ++ rest)) = _
      simp only [parseExcelSheetNameQuotedLoop, Char.reduceEq, if_false, if_true, Bool.not_false,
        Bool.false_eq_true, Bool.not_true]
      exact ih hcs ((List.mem_cons.mp hname).resolve_left (by decide)) _
    · rw [if_neg hq]
      show parseExcelSheetNameQuotedLoop wb sheet1 false acc (c :: (doubleQuotes cs ++ rest)) = _
      rw [parseExcelSheetNameQuotedLoop]
      by_cases hbang : c = '!'
      · rw [if_pos hbang, if_neg (by rintro ⟨⟩)]
      · rw [if_neg hbang, if_neg hc, if_neg hq]
        exact ih hcs ((List.mem_cons.mp hname).resolve_left (Ne.symm hbang)) _

/-- A name that is not scanned up to its end has a character that stops the scan. -/
theorem SheetPrefix.exists_stops_of_not_scans (hscans : ¬ P.Scans) :
    ∃ name ∈ P.names, name.any P.stops = true := by
  by_contra hnone
  push Not at hnone
  refine hscans fun name hname c hc ↦ ?_
  exact Bool.eq_false_iff.mpr (List.any_eq_false.mp (Bool.eq_false_iff.mpr (hnone name hname)) c hc)

/-- Other names in quotes are not found. -/
theorem parseExcelSheetNameQuotedLoop_writeNames_of_not_scans (hwf : P.WellFormed)
    (hscans : ¬ P.Scans) (hquoted : P.quoted = true) (ref : List Char) :
    parseExcelSheetNameQuotedLoop wb invalidSheet false []
      (P.writeNames ++ '\'' :: '!' :: ref) = none := by
  have hbang : ∃ name ∈ P.names, '!' ∈ name := by
    obtain ⟨name, hname, hany⟩ := SheetPrefix.exists_stops_of_not_scans hscans
    obtain ⟨c, hc, hstops⟩ := List.any_eq_true.mp hany
    rw [SheetPrefix.stops, hquoted, if_pos rfl, decide_eq_true_eq] at hstops
    exact ⟨name, hname, hstops ▸ hc⟩
  have hnone : '!' ∈ P.name2 → ∀ (sheet1 : Int) (rest : List Char),
      parseExcelSheetNameQuotedLoop wb sheet1 false [] (doubleQuotes P.name2 ++ rest) = none :=
    fun h sheet1 rest ↦
      parseExcelSheetNameQuotedLoop_of_mem (hwf.colon _ P.mem_names_name2) h sheet1 [] rest
  obtain ⟨name, hname, hmem⟩ := hbang
  simp only [SheetPrefix.writeNames, SheetPrefix.writeName, hquoted, if_true]
  cases hname1 : P.name1 with
  | none =>
    rcases P.mem_names.mp hname with h | rfl
    · exact absurd (hname1.symm.trans h) nofun
    · exact hnone hmem _ _
  | some name1 =>
    have hcolon := hwf.colon name1 (P.mem_names_name1 hname1)
    show parseExcelSheetNameQuotedLoop wb invalidSheet false []
      ((doubleQuotes name1 ++ ':' :: doubleQuotes P.name2) ++ _) = none
    rw [List.append_assoc]
    by_cases hbang1 : '!' ∈ name1
    · exact parseExcelSheetNameQuotedLoop_of_mem hcolon hbang1 _ _ _
    · have hbang2 : '!' ∈ P.name2 := by
        rcases P.mem_names.mp hname with h | rfl
        · cases hname1.symm.trans h
          exact absurd hmem hbang1
        · exact hmem
      rw [parseExcelSheetNameQuotedLoop_doubleQuotes wb (endsExcelSheet_of_not_mem hbang1 hcolon)]
      exact (parseExcelSheetNameQuotedLoop_colon _ _).trans (hnone hbang2 _ _)

/-- Other names without quotes are sheets that are not found. -/
theorem parseExcelSheetNameLoop_writeNames_of_not_scans (hwf : P.WellFormed)
    (hscans : ¬ P.Scans) (hquoted : P.quoted = false) (ref : List Char) :
    parseExcelSheetNameLoop wb invalidSheet [] (P.writeNames ++ '!' :: ref) = .error true := by
  have hends : ∀ name ∈ P.names, ∀ c ∈ name, endsExcelSheet c = false :=
    fun name hname ↦ endsExcelSheet_of_not_mem (hwf.separator hquoted name hname)
      (hwf.colon name hname)
  have hneeds : ∃ name ∈ P.names, name.any needsQuote = true := by
    obtain ⟨name, hname, hany⟩ := SheetPrefix.exists_stops_of_not_scans hscans
    refine ⟨name, hname, ?_⟩
    have hstops : P.stops = needsQuote := by
      funext c
      rw [SheetPrefix.stops, hquoted]
      rfl
    rwa [hstops] at hany
  have herror : P.name2.any needsQuote = true → ∀ (sheet1 : Int),
      parseExcelSheetNameLoop wb sheet1 [] (P.name2 ++ '!' :: ref) = .error true :=
    fun h sheet1 ↦ parseExcelSheetNameLoop_of_needsQuote (hends _ P.mem_names_name2) h sheet1 []
      List.mem_cons_self
  obtain ⟨name, hname, hany⟩ := hneeds
  simp only [SheetPrefix.writeNames, SheetPrefix.writeName, hquoted, Bool.false_eq_true, if_false]
  cases hname1 : P.name1 with
  | none =>
    rcases P.mem_names.mp hname with h | rfl
    · exact absurd (hname1.symm.trans h) nofun
    · exact herror hany _
  | some name1 =>
    have hends1 := hends name1 (P.mem_names_name1 hname1)
    show parseExcelSheetNameLoop wb invalidSheet [] ((name1 ++ ':' :: P.name2) ++ _) = .error true
    rw [List.append_assoc]
    cases hquote1 : name1.any needsQuote with
    | true => exact parseExcelSheetNameLoop_of_needsQuote hends1 hquote1 _ _ (by simp)
    | false =>
      have hany2 : P.name2.any needsQuote = true := by
        rcases P.mem_names.mp hname with h | rfl
        · cases hname1.symm.trans h
          exact absurd (hquote1.symm.trans hany) nofun
        · exact hany
      rw [parseExcelSheetNameLoop_append wb hends1 hquote1]
      exact (parseExcelSheetNameLoop_colon _ _).trans (herror hany2 _)

/-- Other names are either not found, or not taken for names at all. -/
theorem resolveSheets_write_of_not_scans (hwf : P.WellFormed) (hscans : ¬ P.Scans)
    (ref : List Char) :
    ¬ (resolveSheets (some wb) (P.write ref)).1.Found ∨
      ∃ t, resolveSheets (some wb) (P.write ref) = (.none false, '\'' :: t) := by
  cases hquoted : P.quoted with
  | true =>
    right
    refine ⟨P.writeNames ++ '\'' :: '!' :: ref, ?_⟩
    rw [SheetPrefix.write, if_pos hquoted, resolveSheets, parseExcelSheetName,
      if_pos (List.head?_cons ..), List.tail_cons,
      parseExcelSheetNameQuotedLoop_writeNames_of_not_scans hwf hscans hquoted]
    rfl
  | false =>
    left
    rw [resolveSheets, parseExcelSheetName, if_neg (hwf.head_write hquoted ref), SheetPrefix.write,
      if_neg (by rw [hquoted]; rintro ⟨⟩),
      parseExcelSheetNameLoop_writeNames_of_not_scans hwf hscans hquoted]
    exact fun h ↦ h ⟨rfl, rfl⟩

end Scan

/-! ## What follows the sheets -/

section Refers

variable {cxt : Option Workbook} {pos : AbsAddress} {f : ℕ → Char} {p : List Char}

/-- The address of a cell or a range in Excel's A1 syntax. -/
def RefersA1 (cxt : Option Workbook) (pos : AbsAddress) (p : List Char) : Prop :=
  let parsed := parseAddressExcelA1 p ⟨pos.sheet, 0, 0, false, false, false⟩
  AcceptedA1 cxt parsed ∨
    AcceptedFirstA1 cxt parsed ∧
      (parseAddressExcelA1 parsed.p.tail (toRelativeAddress parsed.addr pos false)).result =
        .validAddress

/-- The address of a cell or a range in R1C1 syntax. -/
def RefersR1C1 (f : ℕ → Char) (pos : AbsAddress) (p : List Char) : Prop :=
  let parsed := (parseAddressExcelR1C1 (.ofList p) ⟨pos.sheet, 0, 0, true, true, true⟩).eval f
  parsed.result = .validAddress ∨
    parsed.result = .rangeExpected ∧ parsed.p.next.isEnd = false ∧
      ((parseAddressExcelR1C1 parsed.p.next parsed.addr).eval f).result = .validAddress

/-- The indices of the first and the last sheet of a reference. -/
def FormulaName.sheets : FormulaName → Option (Int × Int)
  | .cellReference a => some (a.sheet, a.sheet)
  | .rangeReference r => some (r.first.sheet, r.last.sheet)
  | _ => none

theorem SheetRange.isReference_cell (sheets : SheetRange) (a : Address) :
    (sheets.cell a).IsReference := by
  rw [cell]
  split
  · split
    · exact .inr rfl
    · exact .inl rfl
  · exact .inl rfl

theorem SheetRange.isReference_range (sheets : SheetRange) (a b : Address) :
    (sheets.range a b).IsReference := by
  rw [range]
  split
  · split <;> exact .inr rfl
  · exact .inr rfl

/-- The first of the sheets that are present is the second one if there is none. -/
theorem SheetRange.sheets_cell {sheets : SheetRange} (h : sheets.present = true) (a : Address) :
    (sheets.cell a).sheets =
      some (if sheets.sheet1 ≠ invalidSheet then sheets.sheet1 else sheets.sheet2,
        sheets.sheet2) := by
  rw [cell, if_pos h]
  split <;> rfl

theorem SheetRange.sheets_range {sheets : SheetRange} (h : sheets.present = true)
    (a b : Address) :
    (sheets.range a b).sheets =
      some (if sheets.sheet1 ≠ invalidSheet then sheets.sheet1 else sheets.sheet2,
        sheets.sheet2) := by
  rw [range, if_pos h]
  split <;> rfl

/-- What follows the sheets is a reference if it is the address of a cell or a range. -/
theorem isReference_resolveAddressExcelA1 {n : ℕ} {sheets : SheetRange} :
    ((resolveAddressExcelA1 cxt pos n sheets p).eval f).IsReference ↔ RefersA1 cxt pos p := by
  constructor
  · intro h
    rcases (eval_resolveAddressExcelA1_eq_reference h rfl rfl).mp rfl with ⟨h₁, -⟩ | ⟨h₁, h₂, -⟩
    · exact .inl h₁
    · exact .inr ⟨h₁, h₂⟩
  · rintro (h | ⟨h₁, h₂⟩)
    · rw [(eval_resolveAddressExcelA1_eq_reference (sheets.isReference_cell _) rfl rfl).mpr
        (.inl ⟨h, rfl⟩)]
      exact sheets.isReference_cell _
    · rw [(eval_resolveAddressExcelA1_eq_reference (sheets.isReference_range _ _) rfl rfl).mpr
        (.inr ⟨h₁, h₂, rfl⟩)]
      exact sheets.isReference_range _ _

theorem isReference_resolveAddressExcelR1C1 {n : ℕ} {sheets : SheetRange} :
    ((resolveAddressExcelR1C1 pos n sheets p).eval f).IsReference ↔ RefersR1C1 f pos p := by
  constructor
  · intro h
    rcases (eval_resolveAddressExcelR1C1_eq_reference h rfl rfl).mp rfl with
      ⟨h₁, -⟩ | ⟨h₁, h₂, h₃, -⟩
    · exact .inl h₁
    · exact .inr ⟨h₁, h₂, h₃⟩
  · rintro (h | ⟨h₁, h₂, h₃⟩)
    · rw [(eval_resolveAddressExcelR1C1_eq_reference (sheets.isReference_cell _) rfl rfl).mpr
        (.inl ⟨h, rfl⟩)]
      exact sheets.isReference_cell _
    · rw [(eval_resolveAddressExcelR1C1_eq_reference (sheets.isReference_range _ _) rfl rfl).mpr
        (.inr ⟨h₁, h₂, h₃, rfl⟩)]
      exact sheets.isReference_range _ _

/-- A reference on sheets that are present is on these sheets. -/
theorem sheets_resolveAddressExcelA1 {n : ℕ} {sheets : SheetRange} (h : sheets.present = true)
    (hrefers : RefersA1 cxt pos p) :
    ((resolveAddressExcelA1 cxt pos n sheets p).eval f).sheets =
      some (if sheets.sheet1 ≠ invalidSheet then sheets.sheet1 else sheets.sheet2,
        sheets.sheet2) := by
  rcases (eval_resolveAddressExcelA1_eq_reference
    (isReference_resolveAddressExcelA1.mpr hrefers) rfl rfl).mp rfl with ⟨-, heq⟩ | ⟨-, -, heq⟩
  · rw [← heq, SheetRange.sheets_cell h]
  · rw [← heq, SheetRange.sheets_range h]

theorem sheets_resolveAddressExcelR1C1 {n : ℕ} {sheets : SheetRange} (h : sheets.present = true)
    (hrefers : RefersR1C1 f pos p) :
    ((resolveAddressExcelR1C1 pos n sheets p).eval f).sheets =
      some (if sheets.sheet1 ≠ invalidSheet then sheets.sheet1 else sheets.sheet2,
        sheets.sheet2) := by
  rcases (eval_resolveAddressExcelR1C1_eq_reference
    (isReference_resolveAddressExcelR1C1.mpr hrefers) rfl rfl).mp rfl with
      ⟨-, heq⟩ | ⟨-, -, -, heq⟩
  · rw [← heq, SheetRange.sheets_cell h]
  · rw [← heq, SheetRange.sheets_range h]

/-- The scanner stops at a part of the string. -/
theorem exists_append_parseAddressA1Loop (mode : ResolverParseMode) (addr : Address)
    (p : List Char) : ∃ t, p = t ++ (parseAddressA1Loop mode addr p).p := by
  fun_induction parseAddressA1Loop mode addr p with
  | case5 _ _ c _ _ _ _ _ ih =>
    obtain ⟨t, ht⟩ := ih
    exact ⟨c :: t, congrArg (c :: ·) ht⟩
  | case7 _ _ c _ _ _ _ ih =>
    obtain ⟨t, ht⟩ := ih
    exact ⟨c :: t, congrArg (c :: ·) ht⟩
  | case10 | case11 =>
    rename_i ih
    obtain ⟨t, ht⟩ := ih
    exact ⟨_ :: t, congrArg (_ :: ·) ht⟩
  | case1 | case2 | case3 | case4 | case6 | case8 | case9 | case12 => exact ⟨[], rfl⟩

/-- The last character of an address in A1 syntax belongs to the address of a cell. -/
theorem RefersA1.exists_eq (h : RefersA1 cxt pos p) :
    ∃ t c, p = t ++ [c] ∧ isCharA1 c = true := by
  have hvalid : ∀ {q : List Char} {addr : Address},
      (parseAddressExcelA1 q addr).result = .validAddress →
        ∃ t c, q = t ++ [c] ∧ isCharA1 c = true := by
    intro q addr hq
    have hne : q ≠ [] := by
      rintro rfl
      exact absurd hq nofun
    exact ⟨q.dropLast, q.getLast hne, (List.dropLast_append_getLast hne).symm,
      isCharA1_of_valid hq _ (List.getLast_mem hne)⟩
  rcases h with h | ⟨h, h'⟩
  · exact hvalid h.1
  · obtain ⟨rest, hrest⟩ := p_parseAddressA1Loop_of_range h.1
    change (parseAddressExcelA1 p _).p = ':' :: rest at hrest
    rw [hrest, List.tail_cons] at h'
    obtain ⟨t, ht⟩ := exists_append_parseAddressA1Loop .column
      ⟨pos.sheet, 0, 0, true, false, false⟩ p
    change p = t ++ (parseAddressExcelA1 p ⟨pos.sheet, 0, 0, false, false, false⟩).p at ht
    obtain ⟨t', c, ht', hc⟩ := hvalid h'
    refine ⟨t ++ ':' :: t', c, ?_, hc⟩
    rw [ht, hrest, ht', List.append_assoc, List.cons_append]

end Refers

/-! ## Result -/

/-- The reference after the sheets is one that the scanners accept. -/
def Refers (type : FormulaNameResolverType) (wb : Workbook) (behind : ℕ → Char)
    (pos : AbsAddress) (ref : List Char) : Prop :=
  match type with
  | .excelR1C1 => RefersR1C1 behind pos ref
  | _ => RefersA1 (some wb) pos ref

/-- What is resolved to a reference has the names of sheets only, and is a reference to
these sheets. -/
def SheetsExist (type : FormulaNameResolverType) (wb : Workbook) (behind : ℕ → Char)
    (pos : AbsAddress) (P : SheetPrefix) (ref : List Char) : Prop :=
  ((type.resolve (some wb) pos (P.write ref)).eval behind).IsReference →
    (∀ name ∈ P.names, wb.HasSheet name) ∧
      ((type.resolve (some wb) pos (P.write ref)).eval behind).sheets =
        some (wb.getSheetIndex (P.name1.getD P.name2), wb.getSheetIndex P.name2)

/-- A reference whose first name is not that of a sheet is a reference all the same. -/
def SheetPrefix.LosesSheet (P : SheetPrefix) (type : FormulaNameResolverType) (wb : Workbook)
    (behind : ℕ → Char) (pos : AbsAddress) (ref : List Char) : Prop :=
  (∃ name1 ∈ P.name1, ¬ wb.HasSheet name1) ∧ wb.HasSheet P.name2 ∧ P.Scans ∧
    Refers type wb behind pos ref

section Result

variable {type : FormulaNameResolverType} {wb : Workbook} {behind : ℕ → Char} {pos : AbsAddress}
  {P : SheetPrefix} {ref : List Char}

theorem mem_write (P : SheetPrefix) (ref : List Char) : '!' ∈ P.write ref := by
  rw [SheetPrefix.write]
  split <;> simp

/-- A reference is not a table if it is the address of a cell or a range. -/
theorem resolveTable_write {cxt : Option Workbook} (hrefers : RefersA1 cxt pos ref) :
    resolveTable cxt (P.write ref) = none := by
  obtain ⟨t, c, rfl, hc⟩ := hrefers.exists_eq
  obtain ⟨t', ht'⟩ : ∃ t', P.write (t ++ [c]) = t' ++ [c] := by
    rw [SheetPrefix.write]
    split
    · exact ⟨'\'' :: (P.writeNames ++ '\'' :: '!' :: t), by simp⟩
    · exact ⟨P.writeNames ++ '!' :: t, by simp⟩
  rw [ht']
  refine resolveTable_eq_none_of_last cxt t' fun d hd ↦ ?_
  rintro rfl
  simp only [List.mem_cons, List.not_mem_nil, or_false] at hd
  rcases hd with rfl | rfl | rfl | rfl <;> exact absurd hc nofun

/-- The sheets are found if the second name is that of a sheet. -/
theorem found_sheets : (P.sheets wb).Found ↔ wb.HasSheet P.name2 := by
  rw [← getSheetIndex_ne_invalid]
  exact ⟨fun h heq ↦ h ⟨rfl, heq⟩, fun h heq ↦ h heq.2⟩

/-- With names that are scanned up to their end, a reference is what follows them, if the second
name is that of a sheet. -/
theorem eval_resolveExcelA1_write (hwf : P.WellFormed) (hscans : P.Scans) {name : FormulaName}
    (hname : name.IsReference) :
    (resolveExcelA1 (some wb) pos (P.write ref)).eval behind = name ↔
      wb.HasSheet P.name2 ∧
        (resolveAddressExcelA1 (some wb) pos (P.write ref).length (P.sheets wb) ref).eval behind =
          name := by
  have hfunction := resolveFunction_eq_none (mem_write P ref) rfl
  rw [eval_resolveExcelA1_eq_reference hname, resolveSheets_write hwf hscans, found_sheets]
  constructor
  · rintro ⟨-, -, -, h⟩
    exact h
  · rintro ⟨hsheet, heq⟩
    have hrefers : RefersA1 (some wb) pos ref := by
      rw [← heq] at hname
      exact isReference_resolveAddressExcelA1.mp hname
    exact ⟨List.ne_nil_of_mem (mem_write P ref), hfunction, resolveTable_write hrefers, hsheet, heq⟩

theorem eval_resolveExcelR1C1_write (hwf : P.WellFormed) (hscans : P.Scans) {name : FormulaName}
    (hname : name.IsReference) :
    (resolveExcelR1C1 (some wb) pos (P.write ref)).eval behind = name ↔
      wb.HasSheet P.name2 ∧
        (resolveAddressExcelR1C1 pos (P.write ref).length (P.sheets wb) ref).eval behind =
          name := by
  have hfunction := resolveFunction_eq_none (mem_write P ref) rfl
  rw [eval_resolveExcelR1C1_eq_reference hname, resolveSheets_write hwf hscans, found_sheets]
  constructor
  · rintro ⟨-, -, h⟩
    exact h
  · rintro h
    exact ⟨List.ne_nil_of_mem (mem_write P ref), hfunction, h⟩

/-- Names that are not scanned up to their end are followed by no reference. -/
theorem not_isReference_excelA1_write (hwf : P.WellFormed) (hscans : ¬ P.Scans) :
    ¬ ((resolveExcelA1 (some wb) pos (P.write ref)).eval behind).IsReference := by
  intro h
  obtain ⟨-, -, -, hfound, heq⟩ := (eval_resolveExcelA1_eq_reference h).mp rfl
  rcases @resolveSheets_write_of_not_scans wb P hwf hscans ref with hlost | ⟨t, ht⟩
  · exact hlost hfound
  · rw [ht] at heq
    rw [← heq, isReference_resolveAddressExcelA1] at h
    have hinvalid : parseAddressExcelA1 ('\'' :: t) ⟨pos.sheet, 0, 0, false, false, false⟩ = _ :=
      parseAddressA1_of_not_begins rfl rfl
    rcases h with h | h
    · rw [hinvalid] at h
      exact absurd h.1 nofun
    · rw [hinvalid] at h
      exact absurd h.1.1 nofun

theorem not_isReference_excelR1C1_write (hwf : P.WellFormed) (hscans : ¬ P.Scans) :
    ¬ ((resolveExcelR1C1 (some wb) pos (P.write ref)).eval behind).IsReference := by
  intro h
  obtain ⟨-, -, hfound, heq⟩ := (eval_resolveExcelR1C1_eq_reference h).mp rfl
  rcases @resolveSheets_write_of_not_scans wb P hwf hscans ref with hlost | ⟨t, ht⟩
  · exact hlost hfound
  · rw [ht] at heq
    rw [← heq, isReference_resolveAddressExcelR1C1] at h
    rcases h with h | h
    · exact absurd h nofun
    · exact absurd h.1 nofun

/-- Two results that are the same reference under a condition. -/
theorem isReference_of_iff {result after : FormulaName} {c : Prop}
    (h : ∀ {name : FormulaName}, name.IsReference → (result = name ↔ c ∧ after = name)) :
    (result.IsReference ↔ c ∧ after.IsReference) ∧ (result.IsReference → result = after) := by
  refine ⟨⟨fun hresult ↦ ?_, fun ⟨hc, hafter⟩ ↦ ?_⟩, fun hresult ↦ ((h hresult).mp rfl).2.symm⟩
  · obtain ⟨hc, heq⟩ := (h hresult).mp rfl
    exact ⟨hc, heq ▸ hresult⟩
  · rw [(h hafter).mpr ⟨hc, rfl⟩]
    exact hafter

/-- A reference with sheets in front of it is resolved if the second name is that of a sheet,
whatever the first one is. -/
theorem resolve_write (htype : type = .excelA1 ∨ type = .excelR1C1) (hwf : P.WellFormed) :
    (((type.resolve (some wb) pos (P.write ref)).eval behind).IsReference ↔
        wb.HasSheet P.name2 ∧ P.Scans ∧ Refers type wb behind pos ref) ∧
      (((type.resolve (some wb) pos (P.write ref)).eval behind).IsReference →
        ((type.resolve (some wb) pos (P.write ref)).eval behind).sheets =
          some (if (P.sheets wb).sheet1 ≠ invalidSheet then (P.sheets wb).sheet1
            else (P.sheets wb).sheet2, (P.sheets wb).sheet2)) := by
  by_cases hscans : P.Scans
  · rcases htype with rfl | rfl
    · obtain ⟨hiff, heq⟩ := isReference_of_iff fun {name} ↦
        @eval_resolveExcelA1_write wb behind pos P ref hwf hscans name
      rw [FormulaNameResolverType.resolve, hiff, isReference_resolveAddressExcelA1]
      refine ⟨⟨fun h ↦ ⟨h.1, hscans, h.2⟩, fun h ↦ ⟨h.1, h.2.2⟩⟩, fun h ↦ ?_⟩
      rw [heq (hiff.mpr ⟨h.1, isReference_resolveAddressExcelA1.mpr h.2⟩)]
      exact sheets_resolveAddressExcelA1 rfl h.2
    · obtain ⟨hiff, heq⟩ := isReference_of_iff fun {name} ↦
        @eval_resolveExcelR1C1_write wb behind pos P ref hwf hscans name
      rw [FormulaNameResolverType.resolve, hiff, isReference_resolveAddressExcelR1C1]
      refine ⟨⟨fun h ↦ ⟨h.1, hscans, h.2⟩, fun h ↦ ⟨h.1, h.2.2⟩⟩, fun h ↦ ?_⟩
      rw [heq (hiff.mpr ⟨h.1, isReference_resolveAddressExcelR1C1.mpr h.2⟩)]
      exact sheets_resolveAddressExcelR1C1 rfl h.2
  · have hnot : ¬ ((type.resolve (some wb) pos (P.write ref)).eval behind).IsReference := by
      rcases htype with rfl | rfl
      · exact not_isReference_excelA1_write hwf hscans
      · exact not_isReference_excelR1C1_write hwf hscans
    exact ⟨iff_of_false hnot fun h ↦ hscans h.2.1, fun h ↦ absurd h hnot⟩

end Result

end Ixion
