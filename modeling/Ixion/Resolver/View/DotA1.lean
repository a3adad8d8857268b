import Ixion.Resolver.View.ExcelA1

/-!
# Where the scanners with a dot stop

The syntaxes of Calc and of ODF separate a sheet from a cell by a dot.  A sheet name may
begin with a dollar sign, and its scanner looks at the character after it without
checking that there is one.  In ODFF the closing bracket is always there to be looked at.
-/

namespace Ixion

open Lib

/-! ## Sheet names -/

section SheetNames

variable {wb : Workbook} {sep : Char}

theorem length_parseSheetNameQuotedLoop {name p : List Char} {r : Int × List Char}
    (h : parseSheetNameQuotedLoop wb sep name p = some r) : r.2.length ≤ p.length := by
  fun_induction parseSheetNameQuotedLoop wb sep name p with
  | case1 | case2 | case5 => exact absurd h nofun
  | case6 => cases h; exact Nat.le_succ _
  | case3 _ _ _ ih => exact (ih h).trans (Nat.zero_le _)
  | case4 _ _ ih => exact (ih h).trans (by simp; omega)
  | case7 _ _ _ _ _ ih => exact (ih h).trans (Nat.le_succ _)

theorem length_parseSheetNameFrom {c : Char} {p : List Char} {r : Int × List Char}
    (h : parseSheetNameFrom wb sep c p = some r) : r.2.length ≤ p.length := by
  rw [parseSheetNameFrom] at h
  split at h
  · exact (length_parseSheetNameQuotedLoop h).trans (by simp)
  · split at h
    case h_1 => exact absurd h nofun
    case h_2 rest _ =>
      cases h
      exact (List.dropWhile_sublist _).length_le

/-- A sheet name is read inside the string unless there is only a dollar sign. -/
theorem silent_parseSheetName {c : Char} {cs : List Char} :
    (parseSheetName wb sep (c :: cs)).Silent ↔ c :: cs ≠ ['$'] := by
  rw [parseSheetName, deref_cons, pure_bind]
  by_cases hc : c = '$'
  · subst hc
    cases cs with
    | nil => exact iff_of_false (fun h ↦ nomatch h) fun h ↦ h rfl
    | cons d ds => exact iff_of_true (Query.silent_pure _) nofun
  · rw [if_neg hc]
    exact iff_of_true (Query.silent_pure _) fun h ↦ hc (List.cons.inj h).1

/-- A sheet name is read without going back. -/
theorem returns_parseSheetName (p : List Char) :
    (parseSheetName wb sep p).Returns fun o ↦ ∀ r ∈ o, r.2.length ≤ p.length := by
  apply Query.returns_bind
  refine Query.returns_of_forall (fun c ↦ ?_) _
  apply Query.returns_bind
  refine Query.returns_of_forall (fun d r hr ↦ ?_) _
  refine (length_parseSheetNameFrom hr).trans ?_
  split
  · simp
  · exact le_rfl

/-- Only the character behind the string is asked for. -/
theorem asks_parseSheetName (p : List Char) : (parseSheetName wb sep p).Asks (· = 0) := by
  have hderef : ∀ p, (deref p).Asks (· = 0) := by
    intro p
    cases p with
    | nil => exact ⟨rfl, fun _ ↦ trivial⟩
    | cons c cs => trivial
  exact Query.asks_bind (hderef p) fun _ ↦ Query.asks_bind (hderef _) fun _ ↦ trivial

end SheetNames

/-! ## Calc and ODF cell range addresses -/

/-- A dollar sign with nothing behind it, where a sheet name may be. -/
def LoneDollar (cxt : Option Workbook) (p : List Char) : Prop := cxt ≠ none ∧ p = ['$']

/-- What is known about a scanner of addresses: when it stays inside the string, and that
it leaves the whole string only if there is nothing that it recognizes. -/
structure DotScanner
    (parseAddress : Option Workbook → List Char → Address → Scan (ParsedAddress (List Char)))
    (begins : Char → Bool) : Prop where
  silent : ∀ cxt c cs addr,
    (parseAddress cxt (c :: cs) addr).Silent ↔ ¬ LoneDollar cxt (c :: cs)
  left : ∀ cxt c cs addr, (parseAddress cxt (c :: cs) addr).Returns fun r ↦
    (cs.length + 1 ≤ r.p.length ↔ r.sheetName = false ∧ begins c = false) ∧
      (r.sheetName = false → begins c = false → r.result = .invalid)

theorem length_le_parseAddressA1 {addr : Address} (haddr : addr.column = 0) {c : Char}
    {cs : List Char} :
    cs.length + 1 ≤ (parseAddressA1 (c :: cs) addr).p.length ↔ beginsAddressA1 c = false := by
  cases hc : beginsAddressA1 c with
  | true =>
    exact iff_of_false (not_le_of_gt (Nat.lt_succ_of_le (length_parseAddressA1_lt haddr hc))) nofun
  | false =>
    rw [parseAddressA1_of_not_begins haddr hc]
    exact iff_of_true le_rfl rfl

theorem sheetName_parseAddressA1Loop (mode : ResolverParseMode) (addr : Address)
    (p : List Char) : (parseAddressA1Loop mode addr p).sheetName = false := by
  fun_induction parseAddressA1Loop mode addr p <;> simp_all

theorem silent_parseSheetNameOf {cxt : Option Workbook} {c : Char} {cs : List Char} :
    (parseSheetNameOf cxt (c :: cs)).Silent ↔ ¬ LoneDollar cxt (c :: cs) := by
  cases cxt with
  | none => exact iff_of_true (Query.silent_pure _) fun h ↦ h.1 rfl
  | some wb =>
    rw [parseSheetNameOf, silent_parseSheetName]
    exact ⟨fun h h' ↦ h h'.2, fun h h' ↦ h ⟨nofun, h'⟩⟩

theorem returns_parseSheetNameOf (cxt : Option Workbook) (p : List Char) :
    (parseSheetNameOf cxt p).Returns fun o ↦ ∀ r ∈ o, r.2.length ≤ p.length := by
  cases cxt with
  | none => exact nofun
  | some wb => exact returns_parseSheetName p

/-- The address after a sheet name is shorter than the string. -/
theorem length_parseAddressAfterSheet {c : Char} {cs : List Char} {addr : Address}
    (haddr : addr.column = 0) {o : Option (Int × List Char)}
    (ho : ∀ r ∈ o, r.2.length ≤ cs.length + 1) :
    (cs.length + 1 ≤ (parseAddressAfterSheet (c :: cs) addr o).p.length ↔
      (parseAddressAfterSheet (c :: cs) addr o).sheetName = false ∧ beginsAddressA1 c = false) ∧
    ((parseAddressAfterSheet (c :: cs) addr o).sheetName = false → beginsAddressA1 c = false →
      (parseAddressAfterSheet (c :: cs) addr o).result = .invalid) := by
  cases o with
  | none =>
    rw [parseAddressAfterSheet, length_le_parseAddressA1 haddr]
    refine ⟨?_, fun _ hc ↦ ?_⟩
    · rw [parseAddressA1, sheetName_parseAddressA1Loop]
      simp only [true_and]
    · rw [parseAddressA1_of_not_begins haddr hc]
  | some r =>
    refine ⟨iff_of_false (not_le_of_gt ?_) fun h ↦ (by cases h.1), (by rintro ⟨⟩)⟩
    have hr := ho r rfl
    have hle : (parseAddressAfterSheet (c :: cs) addr (some r)).p.length ≤ r.2.tail.length :=
      length_parseAddressA1Loop_le _ _ _
    rw [List.length_tail] at hle
    omega

theorem dotScanner_calcA1 : DotScanner parseAddressCalcA1 beginsAddressA1 where
  silent cxt c cs addr := by
    rw [← silent_parseSheetNameOf, parseAddressCalcA1, Query.silent_bind]
    exact ⟨fun ⟨o, ho, _⟩ ↦ ⟨o, ho⟩, fun ⟨o, ho⟩ ↦ ⟨o, ho, Query.silent_pure _⟩⟩
  left cxt c cs addr := by
    apply Query.returns_bind
    refine Query.returns_mono (fun o ho ↦ ?_) (returns_parseSheetNameOf cxt (c :: cs))
    exact length_parseAddressAfterSheet rfl ho

/-- In ODF cell range addresses a dot may come first, and then there is no sheet. -/
theorem dotScanner_odfCra :
    DotScanner parseAddressOdfCra (fun c ↦ beginsAddressA1 c || c = '.') where
  silent cxt c cs addr := by
    rw [parseAddressOdfCra, deref_cons, pure_bind]
    by_cases hc : c = '.'
    · rw [if_pos hc]
      refine iff_of_true ⟨_, rfl⟩ fun h ↦ ?_
      rw [hc] at h
      exact absurd h.2 (by simp)
    · rw [if_neg hc]
      exact dotScanner_calcA1.silent cxt c cs addr
  left cxt c cs addr := by
    rw [parseAddressOdfCra, deref_cons, pure_bind]
    by_cases hc : c = '.'
    · rw [if_pos hc]
      refine ⟨iff_of_false (not_le_of_gt (Nat.lt_succ_of_le ?_)) fun h ↦ ?_, fun _ h ↦ ?_⟩
      · exact length_parseAddressA1Loop_le _ _ _
      · simp [hc] at h
      · simp [hc] at h
    · rw [if_neg hc]
      simpa only [hc, decide_false, Bool.or_false] using dotScanner_calcA1.left cxt c cs addr

/-- When resolving in a syntax with a dot stays inside a name. -/
def StaysInsideDotA1
    (parseAddress : Option Workbook → List Char → Address → Scan (ParsedAddress (List Char)))
    (begins : Char → Bool) (cxt : Option Workbook) (pos : AbsAddress) (s : List Char) : Prop :=
  let parsed := (parseAddress cxt s (startA1 pos false)).eval fun _ ↦ '\x00'
  s = [] ∨ resolveFunction s ≠ none ∨
    ¬ LoneDollar cxt s ∧
      (parsed.result ≠ .invalid ∧ parsed.addr.sheet = invalidSheet ∨
        ReferenceA1 cxt parsed ∧
          (parsed.result = .rangeExpected → ¬ LoneDollar cxt parsed.p.tail) ∨
        parsed.sheetName = false ∧ ∀ c ∈ s.head?, begins c = false)

/-- The second address of a range is read inside the string unless it is a lone dollar
sign. -/
theorem DotScanner.silent_second
    {parseAddress : Option Workbook → List Char → Address → Scan (ParsedAddress (List Char))}
    {begins : Char → Bool} (hscan : DotScanner parseAddress begins) {cxt : Option Workbook}
    {p : List Char} {addr : Address} {k : ParsedAddress (List Char) → Scan FormulaName}
    (hk : ∀ r, (k r).Silent) :
    (if p.isEmpty then (pure .invalid : Scan FormulaName)
      else parseAddress cxt p addr >>= k).Silent ↔ ¬ LoneDollar cxt p := by
  match p with
  | [] => exact iff_of_true (Query.silent_pure _) fun h ↦ nomatch h.2
  | c :: cs =>
    rw [if_neg (by simp), ← hscan.silent cxt c cs addr, Query.silent_bind]
    exact ⟨fun ⟨r, hr, _⟩ ↦ ⟨r, hr⟩, fun ⟨r, hr⟩ ↦ ⟨r, hr, hk r⟩⟩

theorem silent_resolveDotA1
    {parseAddress : Option Workbook → List Char → Address → Scan (ParsedAddress (List Char))}
    {begins : Char → Bool} (hscan : DotScanner parseAddress begins) {cxt : Option Workbook}
    {pos : AbsAddress} {s : List Char} :
    (resolveDotA1 cxt pos parseAddress s).Silent ↔
      StaysInsideDotA1 parseAddress begins cxt pos s := by
  rw [resolveDotA1, StaysInsideDotA1]
  by_cases hs : s = []
  · rw [if_pos (List.isEmpty_iff.mpr hs)]
    exact iff_of_true (Query.silent_pure _) (.inl hs)
  rw [if_neg fun h ↦ hs (List.isEmpty_iff.mp h)]
  cases hf : resolveFunction s with
  | some name => exact iff_of_true (Query.silent_pure _) (.inr (.inl (by rintro ⟨⟩)))
  | none =>
    obtain ⟨c, cs, rfl⟩ := List.exists_cons_of_ne_nil hs
    by_cases hlone : LoneDollar cxt (c :: cs)
    · refine iff_of_false (fun h ↦ ?_) fun h ↦ ?_
      · simp only [Query.silent_bind] at h
        obtain ⟨r, hr, -⟩ := h
        exact (hscan.silent cxt c cs _).mp ⟨r, hr⟩ hlone
      · rcases h with h | h | h
        · exact hs h
        · exact h rfl
        · exact h.1 hlone
    obtain ⟨r, hr⟩ := (hscan.silent cxt c cs (startA1 pos false)).mpr hlone
    have hleft := hscan.left cxt c cs (startA1 pos false)
    rw [hr] at hleft
    rw [startA1] at hr
    simp only [startA1, hr, pure_bind, Query.eval_pure, hs, hlone, ne_eq, not_true_eq_false,
      not_false_eq_true, true_and, false_or]
    obtain ⟨hlen, hinvalid⟩ := hleft
    have hlast : ¬ ReferenceA1 cxt r →
        ((resolveFunctionOrName (.ofList r.p) (c :: cs).length).Silent ↔
          (ReferenceA1 cxt r ∧ (r.result = .rangeExpected → ¬ LoneDollar cxt r.p.tail)) ∨
            r.sheetName = false ∧ ∀ c' ∈ (c :: cs).head?, begins c' = false) := by
      intro href
      rw [silent_resolveFunctionOrName, Pointer.rest_ofList]
      simp only [href, false_and, false_or]
      refine hlen.trans (and_congr_right fun _ ↦ ⟨fun h c' hc' ↦ ?_, fun h ↦ h c rfl⟩)
      cases hc'
      exact h
    by_cases hu : ¬ r.result = .invalid ∧ r.addr.sheet = invalidSheet
    · simp only [hu, and_self, if_true, true_or, iff_true, not_false_eq_true]
      exact Query.silent_pure _
    simp only [hu, if_false, false_or]
    cases hb : checkAddressBySheetBounds cxt r.addr with
    | false =>
      have href : ¬ ReferenceA1 cxt r := fun h ↦ by rw [ReferenceA1, hb] at h; cases h.1
      cases hresult : r.result <;> simpa [hresult] using hlast href
    | true =>
      cases hresult : r.result with
      | invalid =>
        have href : ¬ ReferenceA1 cxt r := fun h ↦ by
          rw [ReferenceA1, hresult] at h
          exact h.2.elim (fun h ↦ (by cases h.1)) (by rintro ⟨⟩)
        simpa [hresult] using hlast href
      | validAddress =>
        by_cases hrow : r.addr.row = rowUnset
        · have href : ¬ ReferenceA1 cxt r := fun h ↦ by
            rw [ReferenceA1, hresult] at h
            exact h.2.elim (fun h ↦ h.2 hrow) (by rintro ⟨⟩)
          simpa [hrow, hresult] using hlast href
        · have href : ReferenceA1 cxt r := ⟨hb, .inl ⟨hresult, hrow⟩⟩
          refine iff_of_true ?_ (.inl ⟨href, (by rintro ⟨⟩)⟩)
          simp only [hrow, not_false_eq_true, Bool.not_true, Bool.false_eq_true, and_false,
            if_false,
            and_self, if_true]
          exact Query.silent_pure _
      | rangeExpected =>
        have href : ReferenceA1 cxt r := ⟨hb, .inr hresult⟩
        have hbegins : ¬ (r.sheetName = false ∧ ∀ c' ∈ (c :: cs).head?, begins c' = false) :=
          fun h ↦ absurd (hinvalid h.1 (h.2 c rfl)) (by simp [hresult])
        simp only [href, hbegins, true_and, or_false, Bool.not_true, Bool.false_eq_true, and_false,
          if_false, reduceCtorEq, false_and, if_true, forall_const]
        refine hscan.silent_second fun r₂ ↦ ?_
        split <;> exact Query.silent_pure _

end Ixion
