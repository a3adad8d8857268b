import Mathlib.Data.List.TakeWhile
import Ixion.Resolver.RoundTrip
import Ixion.Resolver.View.ExcelA1

/-!
# Scanning sheet names that have been printed

A printed sheet name is scanned as the name of the same sheet if no character of the name
ends it too early.  In quotes, Excel's scanner still stops at `'!'` and `':'`, which do
not make quotes necessary anyway; the scanners with a dot take everything in quotes, but
a dot or a leading dollar sign does not make them necessary either.
-/

namespace Ixion

/-! ## The names of a workbook -/

/-- All sheets have different names, and none is empty. -/
structure Workbook.WellNamed (wb : Workbook) : Prop where
  ne_empty : ∀ ws ∈ wb.sheets, ws.name ≠ ""
  nodup : (wb.sheets.map Sheet.name).Nodup

section Workbook

variable {wb : Workbook} {sheet : Int} {name : List Char}

theorem getSheetName_eq_ok (h : wb.getSheetName sheet = .ok name) :
    0 ≤ sheet ∧ ∃ ws, wb.sheets[sheet.toNat]? = some ws ∧ ws.name.toList = name := by
  rw [Workbook.getSheetName] at h
  split at h
  case h_1 ws hws =>
    split at hws
    case isTrue hnonneg =>
      cases h
      exact ⟨hnonneg, ws, hws, rfl⟩
    case isFalse => exact absurd hws nofun
  case h_2 => exact absurd h nofun

/-- A sheet is found by its name. -/
theorem getSheetIndex_of_getSheetName (hwb : wb.WellNamed)
    (h : wb.getSheetName sheet = .ok name) : wb.getSheetIndex name = sheet := by
  obtain ⟨hnonneg, ws, hws, rfl⟩ := getSheetName_eq_ok h
  obtain ⟨hlt, hget⟩ := List.getElem?_eq_some_iff.mp hws
  have hfind : (wb.sheets.findIdx? fun ws' ↦
      decide (ws'.name ≠ "" ∧ ws'.name.toList = ws.name.toList)) = some sheet.toNat := by
    rw [List.findIdx?_eq_some_iff_getElem]
    refine ⟨hlt, ?_, fun j hj ↦ ?_⟩
    · rw [hget]
      simpa using hwb.ne_empty ws (List.mem_of_getElem? hws)
    · intro hj'
      simp only [decide_eq_true_eq, ← hget] at hj'
      have hlen : sheet.toNat < (wb.sheets.map Sheet.name).length := by
        rwa [List.length_map]
      have hlen' : j < (wb.sheets.map Sheet.name).length := hj.trans hlen
      have hname : (wb.sheets.map Sheet.name)[j] =
          (wb.sheets.map Sheet.name)[sheet.toNat] := by
        rw [List.getElem_map, List.getElem_map]
        exact String.toList_injective hj'.2
      exact absurd ((hwb.nodup.getElem_inj_iff).mp hname) hj.ne
  rw [Workbook.getSheetIndex, hfind]
  exact Int.toNat_of_nonneg hnonneg

/-- A sheet is found by no other name. -/
theorem eq_of_getSheetIndex (h : wb.getSheetName sheet = .ok name) {x : List Char}
    (hx : wb.getSheetIndex x = sheet) : x = name := by
  obtain ⟨hnonneg, ws, hws, rfl⟩ := getSheetName_eq_ok h
  rw [Workbook.getSheetIndex] at hx
  split at hx
  case h_1 i hi =>
    rw [List.findIdx?_eq_some_iff_getElem] at hi
    obtain ⟨hlt, hp, -⟩ := hi
    rw [← hx, Int.toNat_natCast, List.getElem?_eq_getElem hlt] at hws
    cases hws
    simp only [decide_eq_true_eq] at hp
    exact hp.2.symm
  case h_2 =>
    rw [← hx] at hnonneg
    exact absurd hnonneg (by decide)

theorem ne_nil_of_getSheetName (hwb : wb.WellNamed) (h : wb.getSheetName sheet = .ok name) :
    name ≠ [] := by
  obtain ⟨-, ws, hws, rfl⟩ := getSheetName_eq_ok h
  intro hnil
  apply hwb.ne_empty ws (List.mem_of_getElem? hws)
  exact String.toList_eq_nil_iff.mp hnil

end Workbook

/-! ## Excel's sheet names -/

section Excel

variable (wb : Workbook)

/-- The characters that end a sheet name in Excel's syntaxes. -/
def endsExcelSheet (c : Char) : Bool := c = '!' || c = ':'

/-- A name in quotes is read as that name. -/
theorem parseExcelSheetNameQuotedLoop_doubleQuotes {name : List Char}
    (hname : ∀ c ∈ name, endsExcelSheet c = false) (sheet1 : Int) (acc rest : List Char) :
    parseExcelSheetNameQuotedLoop wb sheet1 false acc (doubleQuotes name ++ rest) =
      parseExcelSheetNameQuotedLoop wb sheet1 false (acc ++ name) rest := by
  induction name generalizing acc with
  | nil =>
    rw [List.append_nil]
    rfl
  | cons c cs ih =>
    have hc : endsExcelSheet c = false := hname c List.mem_cons_self
    simp only [endsExcelSheet, Bool.or_eq_false_iff, decide_eq_false_iff_not] at hc
    have ih := fun acc ↦ ih (fun d hd ↦ hname d (List.mem_cons_of_mem c hd)) acc
    rw [doubleQuotes, List.flatMap_cons, List.append_assoc]
    by_cases hq : c = '\''
    · subst hq
      show parseExcelSheetNameQuotedLoop wb sheet1 false acc
        ('\'' :: '\'' :: (doubleQuotes cs ++ rest)) = _
      simp only [parseExcelSheetNameQuotedLoop, Char.reduceEq, if_false, if_true, Bool.not_false,
        Bool.false_eq_true, Bool.not_true]
      rw [ih, List.append_assoc, List.singleton_append]
    · rw [if_neg hq]
      show parseExcelSheetNameQuotedLoop wb sheet1 false acc (c :: (doubleQuotes cs ++ rest)) = _
      rw [parseExcelSheetNameQuotedLoop, if_neg hc.1, if_neg hc.2, if_neg hq, ih,
        List.append_assoc, List.singleton_append]

/-- The closing quote and the separator end it. -/
theorem parseExcelSheetNameQuotedLoop_end (sheet1 : Int) (name rest : List Char) :
    parseExcelSheetNameQuotedLoop wb sheet1 false name ('\'' :: '!' :: rest) =
      some (⟨true, sheet1, wb.getSheetIndex name⟩, '!' :: rest) := by
  simp only [parseExcelSheetNameQuotedLoop, Char.reduceEq, if_false, if_true, Bool.not_false,
    Bool.false_eq_true, List.dropLast_concat]

/-- A name without quotes is read as that name. -/
theorem parseExcelSheetNameLoop_append {name : List Char}
    (hname : ∀ c ∈ name, endsExcelSheet c = false) (hquote : name.any needsQuote = false)
    (sheet1 : Int) (acc rest : List Char) :
    parseExcelSheetNameLoop wb sheet1 acc (name ++ rest) =
      parseExcelSheetNameLoop wb sheet1 (acc ++ name) rest := by
  induction name generalizing acc with
  | nil =>
    rw [List.append_nil]
    rfl
  | cons c cs ih =>
    have hc : endsExcelSheet c = false := hname c List.mem_cons_self
    simp only [endsExcelSheet, Bool.or_eq_false_iff, decide_eq_false_iff_not] at hc
    rw [List.any_cons, Bool.or_eq_false_iff] at hquote
    have hq : ¬ (c = ' ' ∨ c = '\'' ∨ c = '"') := by
      have h := hquote.1
      simp only [needsQuote, Bool.or_eq_false_iff, decide_eq_false_iff_not] at h
      tauto
    rw [List.cons_append, parseExcelSheetNameLoop, if_neg hc.1, if_neg hc.2, if_neg hq,
      ih (fun d hd ↦ hname d (List.mem_cons_of_mem c hd)) hquote.2, List.append_assoc,
      List.singleton_append]

/-- The separator ends it. -/
theorem parseExcelSheetNameLoop_end (sheet1 : Int) (name rest : List Char) :
    parseExcelSheetNameLoop wb sheet1 name ('!' :: rest) =
      .ok (⟨true, sheet1, wb.getSheetIndex name⟩, '!' :: rest) := by
  rw [parseExcelSheetNameLoop, if_pos rfl]
  rfl

/-- A printed name in which nothing ends it is scanned as that name. -/
theorem parseExcelSheetName_quoteSheetName {name : List Char} (hne : name ≠ [])
    (hname : ∀ c ∈ name, endsExcelSheet c = false) (rest : List Char) :
    parseExcelSheetName wb (quoteSheetName name ++ '!' :: rest) =
      (⟨true, invalidSheet, wb.getSheetIndex name⟩, '!' :: rest) := by
  rw [parseExcelSheetName, quoteSheetName]
  cases hquote : name.any needsQuote with
  | true =>
    have h := parseExcelSheetNameQuotedLoop_doubleQuotes wb hname invalidSheet []
      ('\'' :: '!' :: rest)
    rw [List.nil_append, parseExcelSheetNameQuotedLoop_end] at h
    simp only [if_true, List.append_assoc, List.cons_append,
      List.head?_cons, List.tail_cons, List.nil_append, h]
  | false =>
    obtain ⟨c, cs, rfl⟩ := List.exists_cons_of_ne_nil hne
    have hc : ¬ some c = some '\'' := by
      intro h
      cases h
      exact absurd hquote (by simp [needsQuote])
    have h := parseExcelSheetNameLoop_append wb hname hquote invalidSheet [] ('!' :: rest)
    rw [List.nil_append, parseExcelSheetNameLoop_end] at h
    simp only [Bool.false_eq_true, if_false, List.cons_append, List.head?_cons, if_neg hc]
    rw [← List.cons_append, h]

theorem endsExcelSheet_append {name : List Char} {c : Char}
    (hname : ∀ d ∈ name, endsExcelSheet d = false) (h₁ : c ≠ '!') (h₂ : c ≠ ':') :
    ∀ d ∈ name ++ [c], endsExcelSheet d = false := by
  intro d hd
  rw [List.mem_append, List.mem_singleton] at hd
  rcases hd with hd | rfl
  · exact hname d hd
  · simp [endsExcelSheet, h₁, h₂]

/-- The second sheet is found by a name in which nothing ends it. -/
theorem sheet2_parseExcelSheetNameQuotedLoop {sheet1 : Int} {wasQuote : Bool}
    {name p : List Char} (hname : ∀ c ∈ name, endsExcelSheet c = false)
    {r : SheetRange × List Char}
    (h : parseExcelSheetNameQuotedLoop wb sheet1 wasQuote name p = some r) :
    ∃ x, (∀ c ∈ x, endsExcelSheet c = false) ∧ r.1.sheet2 = wb.getSheetIndex x := by
  fun_induction parseExcelSheetNameQuotedLoop wb sheet1 wasQuote name p with
  | case2 _ name =>
    cases h
    exact ⟨name.dropLast, fun c hc ↦ hname c (List.dropLast_subset _ hc), rfl⟩
  | case1 | case3 | case4 => exact absurd h (by rintro ⟨⟩)
  | case5 _ _ _ _ _ _ ih => exact ih (by simp) h
  | case6 _ wasQuote _ _ _ _ ih =>
    refine ih ?_ h
    split
    · exact hname
    · exact endsExcelSheet_append hname (by decide) (by decide)
  | case7 _ _ _ _ _ h₁ h₂ _ ih => exact ih (endsExcelSheet_append hname h₁ h₂) h

theorem sheet2_parseExcelSheetNameLoop {sheet1 : Int} {name p : List Char}
    (hname : ∀ c ∈ name, endsExcelSheet c = false) {r : SheetRange × List Char}
    (h : parseExcelSheetNameLoop wb sheet1 name p = .ok r) :
    ∃ x, (∀ c ∈ x, endsExcelSheet c = false) ∧ r.1.sheet2 = wb.getSheetIndex x := by
  fun_induction parseExcelSheetNameLoop wb sheet1 name p with
  | case2 _ name =>
    cases h
    exact ⟨name, hname, rfl⟩
  | case1 | case3 | case5 => exact absurd h (by rintro ⟨⟩)
  | case4 _ _ _ _ _ ih => exact ih (by simp) h
  | case6 _ _ _ _ h₁ h₂ _ ih => exact ih (endsExcelSheet_append hname h₁ h₂) h

/-- If there is a second sheet, it is found by a name in which nothing ends it. -/
theorem sheet2_parseExcelSheetName {p : List Char}
    (h : (parseExcelSheetName wb p).1.sheet2 ≠ invalidSheet) :
    ∃ x, (∀ c ∈ x, endsExcelSheet c = false) ∧
      (parseExcelSheetName wb p).1.sheet2 = wb.getSheetIndex x := by
  rw [parseExcelSheetName] at h ⊢
  split at h
  case isTrue hc =>
    rw [if_pos hc]
    split at h
    case h_1 r hr => exact sheet2_parseExcelSheetNameQuotedLoop wb (by simp) hr
    case h_2 => exact absurd rfl h
  case isFalse hc =>
    rw [if_neg hc]
    split at h
    case h_1 r hr => exact sheet2_parseExcelSheetNameLoop wb (by simp) hr
    case h_2 => exact absurd rfl h

/-- If the scanner does not find the end of a sheet name although there is one, it has met
a separator of two sheets. -/
theorem colon_mem_of_parseExcelSheetNameLoop {sheet1 : Int} {name p : List Char}
    (hp : '!' ∈ p) (h : parseExcelSheetNameLoop wb sheet1 name p = .error false) : ':' ∈ p := by
  fun_induction parseExcelSheetNameLoop wb sheet1 name p with
  | case1 => exact absurd hp List.not_mem_nil
  | case2 => exact absurd h (by rintro ⟨⟩)
  | case3 => exact List.mem_cons_self
  | case4 => exact List.mem_cons_self
  | case5 _ _ c cs hc _ _ =>
    have hcs : '!' ∈ cs := (List.mem_cons.mp hp).resolve_left (Ne.symm hc)
    rw [List.contains_iff_mem.mpr hcs] at h
    exact absurd h (by rintro ⟨⟩)
  | case6 _ _ c cs hc _ _ ih =>
    exact List.mem_cons_of_mem c (ih ((List.mem_cons.mp hp).resolve_left (Ne.symm hc)) h)

/-- If no sheet name is found although there is the end of one, the string begins with a
quote, or has a separator of two sheets in it. -/
theorem of_not_present_parseExcelSheetName {p : List Char} (hp : '!' ∈ p)
    (h : (parseExcelSheetName wb p).1.present = false) : p.head? = some '\'' ∨ ':' ∈ p := by
  rw [parseExcelSheetName] at h
  split at h
  case isTrue hquote => exact .inl hquote
  case isFalse =>
    cases hloop : parseExcelSheetNameLoop wb invalidSheet [] p with
    | ok r =>
      rw [hloop] at h
      have hpresent := (present_parseExcelSheetNameLoop hloop).1
      exact absurd (h.symm.trans hpresent) (by rintro ⟨⟩)
    | error present =>
      rw [hloop] at h
      subst h
      exact .inr (colon_mem_of_parseExcelSheetNameLoop wb hp hloop)

end Excel

/-! ## Sheet names before a dot -/

section Dot

variable (wb : Workbook)

/-- A quoted name is read up to its closing quote. -/
theorem parseSheetNameQuotedLoop_doubleQuotes {sep : Char} (hsep : sep ≠ '\'')
    (name acc rest : List Char) :
    parseSheetNameQuotedLoop wb sep acc (doubleQuotes name ++ ('\'' :: sep :: rest)) =
      some (wb.getSheetIndex (acc ++ name), sep :: rest) := by
  induction name generalizing acc with
  | nil =>
    show parseSheetNameQuotedLoop wb sep acc ('\'' :: sep :: rest) = _
    rw [parseSheetNameQuotedLoop, if_pos rfl, if_neg hsep, if_neg fun h ↦ h rfl,
      List.append_nil]
  | cons c cs ih =>
    rw [doubleQuotes, List.flatMap_cons, List.append_assoc]
    by_cases hq : c = '\''
    · subst hq
      show parseSheetNameQuotedLoop wb sep acc
        ('\'' :: '\'' :: (doubleQuotes cs ++ ('\'' :: sep :: rest))) = _
      rw [parseSheetNameQuotedLoop, if_pos rfl, if_pos rfl, ih, List.append_assoc,
        List.singleton_append]
    · rw [if_neg hq]
      show parseSheetNameQuotedLoop wb sep acc
        (c :: (doubleQuotes cs ++ ('\'' :: sep :: rest))) = _
      obtain ⟨d, ds, hd⟩ : ∃ d ds, doubleQuotes cs ++ ('\'' :: sep :: rest) = d :: ds :=
        List.exists_cons_of_ne_nil (by simp)
      have ih := ih (acc ++ [c])
      rw [hd] at ih ⊢
      rw [parseSheetNameQuotedLoop, if_neg hq, ih, List.append_assoc, List.singleton_append]

/-- A name that is not quoted is read up to the first dot. -/
theorem parseSheetNameFrom_of_mem {c : Char} (hc : c ≠ '\'') {p : List Char}
    (hp : '.' ∈ p) :
    ∃ rest, parseSheetNameFrom wb '.' c p =
      some (wb.getSheetIndex (p.takeWhile (· ≠ '.')), rest) := by
  rw [parseSheetNameFrom, if_neg hc]
  cases hdrop : p.dropWhile (· ≠ '.') with
  | nil =>
    rw [List.dropWhile_eq_nil_iff] at hdrop
    exact absurd (hdrop '.' hp) (by simp)
  | cons d ds => exact ⟨d :: ds, rfl⟩

/-- A name is written in quotes, or has neither a dot in it nor a dollar sign that is taken
for that of an absolute sheet. -/
def SurvivesDot (name : List Char) (absSheet : Bool) : Prop :=
  name.any needsQuote = true ∨ '.' ∉ name ∧ (absSheet = true ∨ name.head? ≠ some '$')

theorem parseSheetName_cons (sep c : Char) (p : List Char) :
    parseSheetName wb sep (c :: p) =
      deref (if c = '$' then p else c :: p) >>= fun d ↦
        pure (parseSheetNameFrom wb sep d (if c = '$' then p else c :: p)) := rfl

/-- A name that is printed with its dollar sign is scanned without it. -/
theorem parseSheetName_dollar (sep : Char) {absSheet : Bool} {c : Char} {p : List Char}
    (h : absSheet = true ∨ c ≠ '$') :
    parseSheetName wb sep (dollar absSheet ++ c :: p) =
      pure (parseSheetNameFrom wb sep c (c :: p)) := by
  cases absSheet with
  | true =>
    show parseSheetName wb sep ('$' :: c :: p) = _
    rw [parseSheetName_cons, if_pos rfl, deref_cons, pure_bind]
  | false =>
    have hc : c ≠ '$' := h.resolve_left nofun
    show parseSheetName wb sep (c :: p) = _
    rw [parseSheetName_cons, if_neg hc, deref_cons, pure_bind]

/-- A printed name is scanned as that name if it survives, and else as another name. -/
theorem parseSheetName_quoteSheetName {name : List Char} (hne : name ≠ []) (absSheet : Bool)
    (t : List Char) :
    ∃ x rest, parseSheetName wb '.' (dollar absSheet ++ (quoteSheetName name ++ '.' :: t)) =
        pure (some (wb.getSheetIndex x, rest)) ∧
      (SurvivesDot name absSheet → x = name ∧ rest = '.' :: t) ∧
        (x = name → SurvivesDot name absSheet) := by
  rw [quoteSheetName, SurvivesDot]
  cases hquote : name.any needsQuote with
  | true =>
    refine ⟨name, '.' :: t, ?_, fun _ ↦ ⟨rfl, rfl⟩, fun _ ↦ .inl rfl⟩
    rw [if_pos rfl, List.append_assoc, List.append_assoc, List.singleton_append,
      parseSheetName_dollar wb '.' (.inr (by decide)), parseSheetNameFrom, if_pos rfl,
      List.tail_cons, List.singleton_append, parseSheetNameQuoted,
      parseSheetNameQuotedLoop_doubleQuotes wb (by decide), List.nil_append]
  | false =>
    obtain ⟨c, cs, rfl⟩ := List.exists_cons_of_ne_nil hne
    have hplain : ∀ d ∈ c :: cs, d ≠ '\'' := by
      rintro d hd rfl
      rw [List.any_eq_false] at hquote
      exact hquote _ hd (by decide)
    simp only [Bool.false_eq_true, if_false, false_or, List.cons_append, List.head?_cons]
    by_cases hc : absSheet = true ∨ c ≠ '$'
    · obtain ⟨rest, hrest⟩ := parseSheetNameFrom_of_mem wb (hplain c List.mem_cons_self)
        (p := c :: (cs ++ '.' :: t)) (by simp)
      refine ⟨_, rest, (parseSheetName_dollar wb '.' hc).trans (congrArg pure hrest), ?_, ?_⟩
      · rintro ⟨hdot, -⟩
        have hmem : ∀ d ∈ c :: cs, decide (d ≠ '.') = true := by
          intro d hd
          rw [decide_eq_true_eq]
          rintro rfl
          exact hdot hd
        have htake : (c :: (cs ++ '.' :: t)).takeWhile (· ≠ '.') = c :: cs := by
          rw [← List.cons_append, List.takeWhile_append_of_pos hmem, List.takeWhile_cons_of_neg
            (by simp), List.append_nil]
        have hdrop : (c :: (cs ++ '.' :: t)).dropWhile (· ≠ '.') = '.' :: t := by
          rw [← List.cons_append, List.dropWhile_append_of_pos hmem, List.dropWhile_cons_of_neg
            (by simp)]
        refine ⟨htake, ?_⟩
        rw [parseSheetNameFrom, if_neg (hplain c List.mem_cons_self), hdrop] at hrest
        cases hrest
        rfl
      · intro hx
        refine ⟨fun hdot ↦ ?_, hc.imp_right fun h ↦ by simpa using h⟩
        rw [← hx] at hdot
        have hne := List.mem_takeWhile_imp hdot
        exact absurd rfl (of_decide_eq_true hne)
    · -- the dollar sign of the name itself is skipped
      obtain ⟨habs, rfl⟩ : absSheet = false ∧ c = '$' := by
        rw [not_or, not_not, Bool.not_eq_true] at hc
        exact hc
      subst habs
      obtain ⟨d, ds, hd⟩ : ∃ d ds, cs ++ '.' :: t = d :: ds :=
        List.exists_cons_of_ne_nil (by simp)
      have hdq : d ≠ '\'' := by
        cases cs with
        | nil =>
          cases hd
          decide
        | cons e es =>
          cases hd
          exact hplain d (by simp)
      obtain ⟨rest, hrest⟩ := parseSheetNameFrom_of_mem wb hdq (p := cs ++ '.' :: t) (by simp)
      refine ⟨(cs ++ '.' :: t).takeWhile (· ≠ '.'), rest, ?_, ?_, ?_⟩
      · show parseSheetName wb '.' ('$' :: (cs ++ '.' :: t)) = _
        rw [parseSheetName_cons, if_pos rfl, hd, deref_cons, pure_bind, ← hd, hrest]
      · rintro ⟨-, h⟩
        simp at h
      · intro hx
        have hle : ((cs ++ '.' :: t).takeWhile (· ≠ '.')).length ≤ cs.length := by
          rw [List.takeWhile_append, List.takeWhile_cons_of_neg (by simp), List.append_nil]
          split
          · exact le_rfl
          · exact (List.takeWhile_prefix _).length_le
        rw [hx, List.length_cons] at hle
        exact absurd hle (Nat.not_succ_le_self _)

end Dot

end Ixion
