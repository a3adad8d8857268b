import Ixion.Resolver.View.ExcelA1

/-!
# Where Excel's R1C1 scanner stops

The scanner of R1C1-style addresses looks at the character after an open bracket, and
skips the one after a number in brackets, without checking that there is one.  It leaves
the string when an address ends there (`CutOff`), or when there is no address at all.
-/

namespace Ixion

open Lib

/-- The characters that an R1C1-style address may begin with. -/
def beginsAddressR1C1 (c : Char) : Bool := c = 'R' || c = 'r' || c = 'C' || c = 'c'

/-- A number without its sign, and what follows it. -/
def afterSign (t : List Char) : List Char :=
  if t.head? = some '+' ∨ t.head? = some '-' then t.tail else t

/-- What follows a number. -/
def afterNumber (t : List Char) : List Char := (afterSign t).dropWhile Char.isDigit

/-- The number that some characters begin with. -/
def numberValue (t : List Char) : Int :=
  let num : Int := (Nat.ofDigitChars 10 ((afterSign t).takeWhile Char.isDigit) 0 : ℕ)
  if t.head? = some '-' then num * -1 else num

/-- The characters that a number may begin with. -/
def beginsNumber (c : Char) : Bool := c.isDigit || c = '-' || c = '+'

/-- What follows the `'C'` of an address ends inside brackets. -/
def CutOffAfterColumn : List Char → Prop
  | d :: e :: es => d = '[' ∧ beginsNumber e = true ∧ afterNumber (e :: es) = []
  | _ => False

/-- A column ends inside its brackets, or is missing. -/
def CutOffColumn : List Char → Prop
  | [] => True
  | c :: cs => (c = 'C' ∨ c = 'c') ∧ CutOffAfterColumn cs

/-- What follows the `'R'` of an address ends inside brackets. -/
def CutOffAfterRow : List Char → Prop
  | [] => False
  | d :: ds =>
    if d = 'C' ∨ d = 'c' then CutOffColumn (d :: ds)
    else if d = '[' then
      match ds with
      | [] => True
      | e :: es =>
        beginsNumber e = true ∧
          (afterNumber (e :: es) = [] ∨
            (afterNumber (e :: es)).tail ≠ [] ∧ CutOffColumn (afterNumber (e :: es)).tail)
    else
      d.isDigit = true ∧ 0 < numberValue (d :: ds) ∧
        afterNumber (d :: ds) ≠ [] ∧ CutOffColumn (afterNumber (d :: ds))

/-- An address in R1C1 syntax ends inside its brackets, or is missing. -/
def CutOff : List Char → Prop
  | [] => True
  | c :: cs => if c = 'R' ∨ c = 'r' then CutOffAfterRow cs else CutOffColumn (c :: cs)

theorem not_silent_deref_past {k : ℕ} {α : Type} {f : Char → Scan α} :
    ¬ ((Pointer.past k).deref >>= f).Silent :=
  fun h ↦ nomatch h

/-- A number is read up to what follows it. -/
theorem parseNumber_ofList (c : Char) (cs : List Char) :
    parseNumber (.ofList (c :: cs)) =
      pure (numberValue (c :: cs), .ofList (afterNumber (c :: cs))) := by
  show (pure _ : Scan _) = _
  simp only [numberValue, afterNumber, afterSign, List.head?_cons, Option.some.injEq,
    List.tail_cons]
  by_cases hsign : c = '+' ∨ c = '-'
  · simp only [if_pos hsign]
    cases cs <;> rfl
  · simp only [if_neg hsign]
    rfl

theorem silent_parseSeparatorR1C1 {p : Pointer} {addr : Address} :
    (parseSeparatorR1C1 p addr).Silent ↔ p.rest ≠ [] := by
  rw [parseSeparatorR1C1, Query.silent_bind, ← silent_deref]
  constructor
  · rintro ⟨c, hc, -⟩
    exact ⟨c, hc⟩
  · rintro ⟨c, hc⟩
    refine ⟨c, hc, ?_⟩
    split <;> exact Query.silent_pure _

/-- Skipping a closing bracket stays inside if there is something to skip. -/
theorem silent_parseBracketR1C1 {t : List Char} {addr : Address}
    {k : Pointer → Address → Scan (ParsedAddress Pointer)}
    (hk : ∀ n, ¬ (k (.past n) addr).Silent) :
    (parseBracketR1C1 (.ofList t) addr k).Silent ↔
      t ≠ [] ∧ (t.tail ≠ [] → (k (.ofList t.tail) addr).Silent) := by
  match t with
  | [] => exact iff_of_false (hk 1) fun h ↦ h.1 rfl
  | [c] => exact iff_of_true (Query.silent_pure _) ⟨nofun, fun h ↦ absurd rfl h⟩
  | c :: d :: ds => exact ⟨fun h ↦ ⟨nofun, fun _ ↦ h⟩, fun h ↦ h.2 nofun⟩

theorem not_silent_parseColumnR1C1_past {n : ℕ} {addr : Address} :
    ¬ (parseColumnR1C1 (.past n) addr).Silent :=
  not_silent_deref_past

theorem not_silent_parseSeparatorR1C1_past {n : ℕ} {addr : Address} :
    ¬ (parseSeparatorR1C1 (.past n) addr).Silent :=
  not_silent_deref_past

theorem not_beginsNumber_iff {c : Char} :
    ((!c.isDigit) = true ∧ c ≠ '-' ∧ c ≠ '+') ↔ ¬ beginsNumber c = true := by
  simp only [beginsNumber, Bool.or_eq_true, decide_eq_true_eq, Bool.not_eq_true']
  cases c.isDigit <;> simp

theorem silent_parseAfterColumnR1C1 {t : List Char} {addr : Address} :
    (parseAfterColumnR1C1 (.ofList t) addr).Silent ↔ ¬ CutOffAfterColumn t := by
  rw [parseAfterColumnR1C1, Pointer.isEnd_ofList]
  match t with
  | [] =>
    refine iff_of_true ?_ id
    simp only [List.isEmpty_nil, if_true]
    split <;> exact Query.silent_pure _
  | d :: ds =>
    simp only [List.isEmpty_cons, Bool.false_eq_true, if_false, Pointer.deref_ofList_cons,
      pure_bind, Pointer.next_ofList_cons, Pointer.isEnd_ofList]
    by_cases hd : d = '['
    · rw [if_pos hd]
      match ds with
      | [] => exact iff_of_true (Query.silent_pure _) id
      | e :: es =>
        simp only [List.isEmpty_cons, Bool.false_eq_true, if_false, Pointer.deref_ofList_cons,
          pure_bind]
        by_cases he : beginsNumber e = true
        · rw [if_neg fun h ↦ not_beginsNumber_iff.mp h he]
          simp only [parseNumber_ofList, pure_bind,
            silent_parseBracketR1C1 fun _ ↦ not_silent_parseSeparatorR1C1_past,
            silent_parseSeparatorR1C1, Pointer.rest_ofList, CutOffAfterColumn, hd, he,
            true_and, imp_self, and_true, ne_eq]
        · rw [if_pos (not_beginsNumber_iff.mpr he)]
          exact iff_of_true (Query.silent_pure _) fun h ↦ he h.2.1
    · rw [if_neg hd]
      apply iff_of_true
      · split
        · simp only [parseNumber_ofList, pure_bind, Pointer.isEnd_ofList]
          split
          · exact Query.silent_pure _
          · split
            · exact Query.silent_pure _
            case isFalse h =>
              rw [silent_parseSeparatorR1C1, Pointer.rest_ofList]
              exact fun h' ↦ h (List.isEmpty_iff.mpr h')
        · exact silent_parseSeparatorR1C1.mpr nofun
      · match ds with
        | [] => exact id
        | e :: es => exact fun h ↦ hd h.1

/-- A column is read inside the string unless it ends inside its brackets. -/
theorem silent_parseColumnR1C1 {t : List Char} {addr : Address} :
    (parseColumnR1C1 (.ofList t) addr).Silent ↔ ¬ CutOffColumn t := by
  match t with
  | [] => exact iff_of_false not_silent_parseColumnR1C1_past fun h ↦ h trivial
  | c :: cs =>
    simp only [parseColumnR1C1, Pointer.deref_ofList_cons, pure_bind, Pointer.next_ofList_cons]
    by_cases hc : c = 'C' ∨ c = 'c'
    · simp only [hc, if_true, silent_parseAfterColumnR1C1, CutOffColumn, true_and]
    · rw [if_neg hc, silent_parseSeparatorR1C1]
      exact iff_of_true nofun fun h ↦ hc h.1

theorem silent_parseAfterRowR1C1 {t : List Char} {addr : Address} :
    (parseAfterRowR1C1 (.ofList t) addr).Silent ↔ ¬ CutOffAfterRow t := by
  rw [parseAfterRowR1C1, Pointer.isEnd_ofList]
  match t with
  | [] => exact iff_of_true (Query.silent_pure _) id
  | d :: ds =>
    simp only [List.isEmpty_cons, Bool.false_eq_true, if_false, Pointer.deref_ofList_cons,
      pure_bind, Pointer.next_ofList_cons, CutOffAfterRow]
    by_cases hd : d = 'C' ∨ d = 'c'
    · rw [if_pos hd, if_pos hd, silent_parseColumnR1C1]
    rw [if_neg hd, if_neg hd]
    by_cases hb : d = '['
    · rw [if_pos hb, if_pos hb]
      match ds with
      | [] => exact iff_of_false not_silent_deref_past fun h ↦ h trivial
      | e :: es =>
        simp only [Pointer.deref_ofList_cons, pure_bind]
        by_cases he : beginsNumber e = true
        · rw [if_neg fun h ↦ not_beginsNumber_iff.mp h he]
          simp only [parseNumber_ofList, pure_bind,
            silent_parseBracketR1C1 fun _ ↦ not_silent_parseColumnR1C1_past,
            silent_parseColumnR1C1, he, true_and, ne_eq]
          tauto
        · rw [if_pos (not_beginsNumber_iff.mpr he)]
          exact iff_of_true (Query.silent_pure _) fun h ↦ he h.1
    rw [if_neg hb, if_neg hb]
    by_cases hdigit : d.isDigit = true
    · simp only [hdigit, if_true, parseNumber_ofList, pure_bind, Pointer.isEnd_ofList, true_and]
      by_cases hpos : numberValue (d :: ds) ≤ 0
      · rw [if_pos hpos]
        exact iff_of_true (Query.silent_pure _) fun h ↦ absurd h.1 (not_lt_of_ge hpos)
      · rw [if_neg hpos]
        by_cases hend : afterNumber (d :: ds) = []
        · rw [if_pos (List.isEmpty_iff.mpr hend)]
          exact iff_of_true (Query.silent_pure _) fun h ↦ h.2.1 hend
        · rw [if_neg fun h ↦ hend (List.isEmpty_iff.mp h), silent_parseColumnR1C1]
          simp only [not_le.mp hpos, hend, ne_eq, not_false_eq_true, true_and]
    · rw [if_neg hdigit, silent_parseColumnR1C1]
      exact iff_of_true (fun h ↦ hd h.1) fun h ↦ hdigit h.1

/-- An address is read inside the string unless it ends inside its brackets. -/
theorem silent_parseAddressR1C1 {t : List Char} {addr : Address} :
    (parseAddressR1C1 (.ofList t) addr).Silent ↔ ¬ CutOff t := by
  match t with
  | [] => exact iff_of_false not_silent_deref_past fun h ↦ h trivial
  | c :: cs =>
    simp only [parseAddressR1C1, Pointer.deref_ofList_cons, pure_bind, Pointer.next_ofList_cons,
      CutOff]
    by_cases hc : c = 'R' ∨ c = 'r'
    · simp only [if_pos hc, silent_parseAfterRowR1C1]
    · simp only [if_neg hc, silent_parseColumnR1C1]

/-- At most a number of characters are left, and a range can go on. -/
def Left (n : ℕ) (r : ParsedAddress Pointer) : Prop :=
  r.p.rest.length ≤ n ∧ (r.result = .rangeExpected → r.p.isLast = false)

theorem length_rest_next_le (p : Pointer) : p.next.rest.length ≤ p.rest.length := by
  cases p with
  | inside c cs =>
    rw [Pointer.next, Pointer.rest_ofList]
    exact Nat.le_succ _
  | past k => exact le_rfl

section Left

variable {n : ℕ}

/-- A number is read without going back. -/
theorem returns_parseNumber {p : Pointer} (hp : p.rest.length ≤ n) :
    (parseNumber p).Returns fun r ↦ r.2.rest.length ≤ n := by
  cases p with
  | inside c cs =>
    show Query.Returns _ (parseNumber (.ofList (c :: cs)))
    rw [parseNumber_ofList]
    show (Pointer.ofList _).rest.length ≤ n
    rw [Pointer.rest_ofList]
    refine le_trans ((List.dropWhile_sublist _).length_le.trans ?_) hp
    show (if _ then _ else _ : List Char).length ≤ _
    split
    · exact Nat.le_succ _
    · exact le_rfl
  | past k =>
    intro c
    show (Pointer.rest _).length ≤ n
    dsimp only
    by_cases hsign : c = '+' ∨ c = '-'
    · rw [if_pos hsign]
      exact Nat.zero_le n
    · rw [if_neg hsign]
      exact Nat.zero_le n

theorem returns_parseSeparatorR1C1 {p : Pointer} (hp : p.rest.length ≤ n) {addr : Address} :
    (parseSeparatorR1C1 p addr).Returns (Left n) := by
  apply Query.returns_bind
  refine Query.returns_of_forall (fun c ↦ ?_) _
  split
  · refine ⟨hp, fun h ↦ ?_⟩
    cases hlast : p.isLast with
    | false => rfl
    | true => simp [hlast] at h
  · exact ⟨hp, nofun⟩

theorem returns_parseBracketR1C1 {p : Pointer} (hp : p.rest.length ≤ n) {addr : Address}
    {k : Pointer → Address → Scan (ParsedAddress Pointer)}
    (hk : ∀ p, p.rest.length ≤ n → ∀ addr, (k p addr).Returns (Left n)) :
    (parseBracketR1C1 p addr k).Returns (Left n) := by
  rw [parseBracketR1C1]
  split
  · apply Query.returns_bind
    refine Query.returns_of_forall (fun c ↦ ⟨hp, fun h ↦ ?_⟩) _
    by_cases hc : c = ']'
    · simp [hc] at h
    · simp [hc] at h
  · exact hk _ ((length_rest_next_le p).trans hp) _

theorem returns_parseAfterColumnR1C1 {p : Pointer} (hp : p.rest.length ≤ n)
    {addr : Address} : (parseAfterColumnR1C1 p addr).Returns (Left n) := by
  have hnext : p.next.rest.length ≤ n := (length_rest_next_le p).trans hp
  rw [parseAfterColumnR1C1]
  split
  · split <;> exact ⟨hp, nofun⟩
  apply Query.returns_bind
  refine Query.returns_of_forall (fun c ↦ ?_) _
  split
  · dsimp only
    split
    · exact ⟨hnext, nofun⟩
    apply Query.returns_bind
    refine Query.returns_of_forall (fun e ↦ ?_) _
    split
    · exact ⟨hnext, nofun⟩
    apply Query.returns_bind
    refine Query.returns_mono (fun r hr ↦ ?_) (returns_parseNumber hnext)
    exact returns_parseBracketR1C1 hr fun _ hp _ ↦ returns_parseSeparatorR1C1 hp
  split
  · apply Query.returns_bind
    refine Query.returns_mono (fun r hr ↦ ?_) (returns_parseNumber hp)
    dsimp only
    split
    · exact ⟨hr, nofun⟩
    split
    · exact ⟨hr, nofun⟩
    · exact returns_parseSeparatorR1C1 hr
  · exact returns_parseSeparatorR1C1 hp

/-- A column is read without going back. -/
theorem returns_parseColumnR1C1 {p : Pointer} (hp : p.rest.length ≤ n) {addr : Address} :
    (parseColumnR1C1 p addr).Returns (Left n) := by
  apply Query.returns_bind
  refine Query.returns_of_forall (fun c ↦ ?_) _
  split
  · exact returns_parseAfterColumnR1C1 ((length_rest_next_le p).trans hp)
  · exact returns_parseSeparatorR1C1 hp

theorem returns_parseAfterRowR1C1 {p : Pointer} (hp : p.rest.length ≤ n) {addr : Address} :
    (parseAfterRowR1C1 p addr).Returns (Left n) := by
  have hnext : p.next.rest.length ≤ n := (length_rest_next_le p).trans hp
  rw [parseAfterRowR1C1]
  split
  · exact ⟨hp, nofun⟩
  apply Query.returns_bind
  refine Query.returns_of_forall (fun c ↦ ?_) _
  split
  · exact returns_parseColumnR1C1 hp
  split
  · apply Query.returns_bind
    refine Query.returns_of_forall (fun e ↦ ?_) _
    dsimp only
    split
    · exact ⟨hnext, nofun⟩
    apply Query.returns_bind
    refine Query.returns_mono (fun r hr ↦ ?_) (returns_parseNumber hnext)
    exact returns_parseBracketR1C1 hr fun _ hp _ ↦ returns_parseColumnR1C1 hp
  split
  · apply Query.returns_bind
    refine Query.returns_mono (fun r hr ↦ ?_) (returns_parseNumber hp)
    dsimp only
    split
    · exact ⟨hr, nofun⟩
    split
    · exact ⟨hr, nofun⟩
    · exact returns_parseColumnR1C1 hr
  · exact returns_parseColumnR1C1 hp

/-- An address is read without going back, and past its first letter if it has one. -/
theorem returns_parseAddressR1C1 {c : Char} {cs : List Char} {addr : Address}
    (hn : cs.length ≤ n) (hc : beginsAddressR1C1 c = false → (c :: cs).length ≤ n) :
    (parseAddressR1C1 (.ofList (c :: cs)) addr).Returns (Left n) := by
  have hcs : (Pointer.ofList cs).rest.length ≤ n := by rwa [Pointer.rest_ofList]
  simp only [parseAddressR1C1, Pointer.deref_ofList_cons, pure_bind, Pointer.next_ofList_cons]
  split
  · exact returns_parseAfterRowR1C1 hcs
  case isFalse hr =>
    simp only [parseColumnR1C1, Pointer.deref_ofList_cons, pure_bind, Pointer.next_ofList_cons]
    split
    · exact returns_parseAfterColumnR1C1 hcs
    case isFalse hcol =>
      refine returns_parseSeparatorR1C1 ?_
      rw [Pointer.rest_ofList]
      apply hc
      rw [not_or] at hr hcol
      simp only [beginsAddressR1C1, hr, hcol, decide_false, Bool.or_self]

end Left

/-- A string that begins with another character is left. -/
theorem parseAddressR1C1_of_not_begins {c : Char} {cs : List Char} {addr : Address}
    (hc : beginsAddressR1C1 c = false) {r : ParsedAddress Pointer}
    (h : parseAddressR1C1 (.ofList (c :: cs)) addr = pure r) : r.p = .ofList (c :: cs) := by
  simp only [beginsAddressR1C1, Bool.or_eq_false_iff, decide_eq_false_iff_not] at hc
  obtain ⟨⟨⟨h₁, h₂⟩, h₃⟩, h₄⟩ := hc
  simp only [parseAddressR1C1, parseColumnR1C1, parseSeparatorR1C1, Pointer.deref_ofList_cons,
    pure_bind, h₁, h₂, h₃, h₄, or_self, if_false] at h
  split at h <;> (cases h; rfl)

/-- What an R1C1-style scanner finds at the beginning of a string. -/
def scanR1C1 (pos : AbsAddress) (t : List Char) : ParsedAddress Pointer :=
  (parseAddressExcelR1C1 (.ofList t) ⟨pos.sheet, 0, 0, true, true, true⟩).eval fun _ ↦ '\x00'

/-- What an R1C1-style scanner finds is a reference inside the string: the address of a
cell, or such a range whose second address is not cut off. -/
def ReferenceR1C1 (parsed : ParsedAddress Pointer) : Prop :=
  parsed.result = .validAddress ∨
    parsed.result = .rangeExpected ∧ ¬ CutOff parsed.p.next.rest

/-- When resolving in Excel's R1C1 syntax stays inside a name. -/
def StaysInsideExcelR1C1 (cxt : Option Workbook) (pos : AbsAddress) (s : List Char) : Prop :=
  let sheets := resolveSheets cxt s
  s = [] ∨ resolveFunction s ≠ none ∨
    sheets.1.present = true ∧ sheets.1.sheet2 = invalidSheet ∨
    ¬ CutOff sheets.2 ∧
      (ReferenceR1C1 (scanR1C1 pos sheets.2) ∨
        (scanR1C1 pos sheets.2).result = .invalid ∧
          sheets.1.present = false ∧ ∀ c ∈ s.head?, beginsAddressR1C1 c = false)

theorem silent_parseAddressExcelR1C1 {t : List Char} {addr : Address} :
    (parseAddressExcelR1C1 (.ofList t) addr).Silent ↔ ¬ CutOff t := by
  rw [parseAddressExcelR1C1, silent_parseAddressR1C1]

/-- The second address of a range is read inside the string unless it is cut off. -/
theorem silent_secondR1C1 {p : Pointer} (hp : p.isLast = false) {addr : Address}
    {k : ParsedAddress Pointer → Scan FormulaName} (hk : ∀ r, (k r).Silent) :
    (if p.next.isEnd then (pure .invalid : Scan FormulaName)
      else parseAddressExcelR1C1 p.next addr >>= k).Silent ↔ ¬ CutOff p.next.rest := by
  cases p with
  | past m => exact iff_of_false not_silent_deref_past fun h ↦ h trivial
  | inside c cs =>
    have hcs : ¬ cs.isEmpty = true := by
      show ¬ (Pointer.inside c cs).isLast = true
      rw [hp]
      rintro ⟨⟩
    rw [Pointer.next, Pointer.isEnd_ofList, Pointer.rest_ofList, if_neg hcs,
      Query.silent_bind, ← silent_parseAddressExcelR1C1]
    constructor
    · rintro ⟨r, hr, -⟩
      exact ⟨r, hr⟩
    · rintro ⟨r, hr⟩
      exact ⟨r, hr, hk r⟩

theorem silent_resolveAddressExcelR1C1 {pos : AbsAddress} {n : ℕ} {sheets : SheetRange}
    {p : List Char} :
    (resolveAddressExcelR1C1 pos n sheets p).Silent ↔
      ¬ CutOff p ∧
        (ReferenceR1C1 (scanR1C1 pos p) ∨
          (scanR1C1 pos p).result = .invalid ∧ n ≤ (scanR1C1 pos p).p.rest.length) := by
  rw [resolveAddressExcelR1C1, scanR1C1]
  by_cases hp : CutOff p
  · refine iff_of_false (fun h ↦ ?_) fun h ↦ h.1 hp
    rw [Query.silent_bind] at h
    obtain ⟨r, hr, -⟩ := h
    exact silent_parseAddressExcelR1C1.mp ⟨r, hr⟩ hp
  obtain ⟨c, cs, rfl⟩ : ∃ c cs, p = c :: cs :=
    List.exists_cons_of_ne_nil fun h ↦ hp (h ▸ trivial)
  obtain ⟨r, hr⟩ := (@silent_parseAddressExcelR1C1 _ ⟨pos.sheet, 0, 0, true, true, true⟩).mpr hp
  have hleft : (parseAddressExcelR1C1 (.ofList (c :: cs))
      ⟨pos.sheet, 0, 0, true, true, true⟩).Returns (Left (cs.length + 1)) :=
    returns_parseAddressR1C1 (Nat.le_succ _) fun _ ↦ le_rfl
  rw [hr] at hleft
  simp only [hr, pure_bind, Query.eval_pure, hp, not_false_eq_true, true_and]
  cases hresult : r.result with
  | validAddress => exact iff_of_true (Query.silent_pure _) (.inl (.inl hresult))
  | invalid =>
    have href : ¬ ReferenceR1C1 r := fun h ↦ by simp [ReferenceR1C1, hresult] at h
    simp only [silent_resolveFunctionOrName, href, false_or, true_and]
  | rangeExpected =>
    have href : ReferenceR1C1 r ↔ ¬ CutOff r.p.next.rest := by simp [ReferenceR1C1, hresult]
    simp only [href, reduceCtorEq, false_and, or_false]
    refine silent_secondR1C1 (hleft.2 hresult) fun r₂ ↦ ?_
    split <;> exact Query.silent_pure _

theorem left_scanR1C1 {pos : AbsAddress} {n : ℕ} {c : Char} {cs : List Char}
    (hcut : ¬ CutOff (c :: cs)) (hn : cs.length ≤ n)
    (hc : beginsAddressR1C1 c = false → (c :: cs).length ≤ n) :
    Left n (scanR1C1 pos (c :: cs)) := by
  obtain ⟨r, hr⟩ := (@silent_parseAddressExcelR1C1 _ ⟨pos.sheet, 0, 0, true, true, true⟩).mpr hcut
  have h : (parseAddressExcelR1C1 (.ofList (c :: cs))
      ⟨pos.sheet, 0, 0, true, true, true⟩).Returns (Left n) := returns_parseAddressR1C1 hn hc
  rw [scanR1C1, hr]
  rwa [hr] at h

/-- What is left when an R1C1-style scanner fails is the whole string exactly when there are
no sheets and the first character is not one of an address. -/
theorem length_le_scanR1C1 {cxt : Option Workbook} {pos : AbsAddress} {s : List Char}
    (hs : s ≠ []) (hcut : ¬ CutOff (resolveSheets cxt s).2) :
    s.length ≤ (scanR1C1 pos (resolveSheets cxt s).2).p.rest.length ↔
      (resolveSheets cxt s).1.present = false ∧ ∀ c ∈ s.head?, beginsAddressR1C1 c = false := by
  obtain ⟨c, cs, hp⟩ : ∃ c cs, (resolveSheets cxt s).2 = c :: cs :=
    List.exists_cons_of_ne_nil fun h ↦ hcut (h ▸ trivial)
  rw [hp] at hcut
  rcases resolveSheets_cases cxt hs with ⟨hpresent, hlt⟩ | ⟨hpresent, heq⟩
  · rw [hpresent, hp]
    refine iff_of_false (not_le_of_gt ?_) fun h ↦ nomatch h.1
    rw [hp] at hlt
    exact (left_scanR1C1 hcut (Nat.le_succ _) fun _ ↦ le_rfl).1.trans_lt hlt
  · rw [hpresent, hp, ← heq, hp]
    cases hc : beginsAddressR1C1 c with
    | true =>
      apply iff_of_false
      · refine not_le_of_gt (Nat.lt_succ_of_le ?_)
        exact (left_scanR1C1 hcut le_rfl fun h ↦ absurd h (by simp [hc])).1
      · exact fun h ↦ absurd (h.2 c rfl) (by simp [hc])
    | false =>
      refine iff_of_true ?_ ⟨rfl, fun d hd ↦ by cases hd; exact hc⟩
      obtain ⟨r, hr⟩ :=
        (@silent_parseAddressExcelR1C1 _ ⟨pos.sheet, 0, 0, true, true, true⟩).mpr hcut
      rw [scanR1C1, hr, Query.eval_pure, parseAddressR1C1_of_not_begins hc hr,
        Pointer.rest_ofList]

theorem silent_resolveExcelR1C1 {cxt : Option Workbook} {pos : AbsAddress} {s : List Char} :
    (resolveExcelR1C1 cxt pos s).Silent ↔ StaysInsideExcelR1C1 cxt pos s := by
  rw [resolveExcelR1C1, StaysInsideExcelR1C1]
  by_cases hs : s = []
  · rw [if_pos (List.isEmpty_iff.mpr hs)]
    exact iff_of_true (Query.silent_pure _) (.inl hs)
  rw [if_neg fun h ↦ hs (List.isEmpty_iff.mp h)]
  cases hf : resolveFunction s with
  | some name => exact iff_of_true (Query.silent_pure _) (.inr (.inl nofun))
  | none =>
    by_cases hu : (resolveSheets cxt s).1.present = true ∧
        (resolveSheets cxt s).1.sheet2 = invalidSheet
    · refine iff_of_true ?_ (.inr (.inr (.inl hu)))
      simp only [hu, and_self, if_true]
      exact Query.silent_pure _
    · simp only [if_neg hu, silent_resolveAddressExcelR1C1]
      simp only [hs, hu, ne_eq, not_true_eq_false, false_or]
      refine and_congr_right fun hcut ↦ or_congr_right (and_congr_right fun _ ↦ ?_)
      exact length_le_scanR1C1 hs hcut

end Ixion
