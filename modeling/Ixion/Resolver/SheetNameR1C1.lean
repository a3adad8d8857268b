import Ixion.Resolver.RoundTripR1C1
import Ixion.Resolver.SheetName

/-!
# Sheet names in R1C1 syntax

The scanner of addresses in R1C1 syntax leaves the sheet alone, and skips at most one
character that it does not look at: the one behind a relative row.  A printed reference
in which the end of the sheet name is not found has at least two characters that end a
sheet name, and is therefore not an address.
-/

namespace Ixion

open Lib

/-! ## What the scanner accepts -/

/-- The sheet is left alone; and what is accepted begins neither behind the string nor
with more than a number of characters that end a sheet name. -/
structure KeepsR1C1 (p : Pointer) (addr : Address) (n : ℕ) (r : ParsedAddress Pointer) :
    Prop where
  sheet : r.addr.sheet = addr.sheet
  absSheet : r.addr.absSheet = addr.absSheet
  count : r.result = .validAddress → p.rest.countP endsExcelSheet ≤ n
  inside : r.result = .validAddress → ∀ k, p ≠ .past (k + 1)

section Keeps

variable {p q : Pointer} {addr addr' : Address} {m n d : ℕ}

theorem KeepsR1C1.of_ne {r : ParsedAddress Pointer} (hr : r.result ≠ .validAddress)
    (h₁ : r.addr.sheet = addr.sheet) (h₂ : r.addr.absSheet = addr.absSheet) :
    KeepsR1C1 p addr n r :=
  ⟨h₁, h₂, fun h ↦ absurd h hr, fun h ↦ absurd h hr⟩

/-- The end of the string may be accepted. -/
theorem KeepsR1C1.of_isEnd {r : ParsedAddress Pointer} (hp : p.isEnd = true)
    (h₁ : r.addr.sheet = addr.sheet) (h₂ : r.addr.absSheet = addr.absSheet) :
    KeepsR1C1 p addr n r := by
  cases p with
  | inside c cs => exact absurd hp nofun
  | past k =>
    refine ⟨h₁, h₂, fun _ ↦ Nat.zero_le n, fun _ k' hk' ↦ ?_⟩
    cases hk'
    exact absurd hp nofun

/-- A pointer has been moved on, past a number of characters that end a sheet name. -/
structure Pointer.MovesTo (p q : Pointer) (d : ℕ) : Prop where
  count : p.rest.countP endsExcelSheet ≤ q.rest.countP endsExcelSheet + d
  past : ∀ k, p = .past (k + 1) → ∃ k, q = .past (k + 1)

theorem Pointer.movesTo_self (p : Pointer) : p.MovesTo p 0 :=
  ⟨le_rfl, fun k hk ↦ ⟨k, hk⟩⟩

theorem Pointer.MovesTo.trans {r : Pointer} {e : ℕ} (h : p.MovesTo q d) (h' : q.MovesTo r e) :
    p.MovesTo r (d + e) where
  count := by
    have h₁ := h.count
    have h₂ := h'.count
    omega
  past k hk := by
    obtain ⟨k', hk'⟩ := h.past k hk
    exact h'.past k' hk'

/-- What is accepted after a pointer has been moved on is accepted from there. -/
theorem KeepsR1C1.of_movesTo {r : ParsedAddress Pointer} (hr : KeepsR1C1 q addr' m r)
    (hmove : p.MovesTo q d) (hn : m + d ≤ n) (h₁ : addr'.sheet = addr.sheet)
    (h₂ : addr'.absSheet = addr.absSheet) : KeepsR1C1 p addr n r where
  sheet := hr.sheet.trans h₁
  absSheet := hr.absSheet.trans h₂
  count h := by
    have h₃ := hr.count h
    have h₄ := hmove.count
    omega
  inside h k hk := by
    obtain ⟨k', hk'⟩ := hmove.past k hk
    exact hr.inside h k' hk'

/-- One character is skipped. -/
theorem Pointer.movesTo_next (p : Pointer) : p.MovesTo p.next 1 where
  count := by
    cases p with
    | inside c cs =>
      rw [Pointer.next, Pointer.rest_ofList, Pointer.rest, List.countP_cons]
      split <;> omega
    | past k => exact Nat.zero_le _
  past k hk := by
    cases hk
    exact ⟨k + 1, rfl⟩

/-- A character that has been looked at is skipped. -/
theorem Pointer.movesTo_next_of_deref {f : ℕ → Char} (h : endsExcelSheet (p.deref.eval f) = false) :
    p.MovesTo p.next 0 where
  count := by
    cases p with
    | inside c cs =>
      rw [Pointer.next, Pointer.rest_ofList, Pointer.rest, List.countP_cons_of_neg]
      · exact le_rfl
      · exact Bool.eq_false_iff.mp h
    | past k => exact Nat.zero_le _
  past k hk := by
    cases hk
    exact ⟨k + 1, rfl⟩

theorem not_endsExcelSheet_of_isDigit {c : Char} (h : c.isDigit = true) :
    endsExcelSheet c = false := by
  rw [endsExcelSheet, Bool.or_eq_false_iff, decide_eq_false_iff_not, decide_eq_false_iff_not]
  constructor
  · rintro rfl
    exact absurd h (by decide)
  · rintro rfl
    exact absurd h (by decide)

theorem countP_dropWhile_isDigit (cs : List Char) :
    (cs.dropWhile Char.isDigit).countP endsExcelSheet = cs.countP endsExcelSheet := by
  induction cs with
  | nil => rfl
  | cons c cs ih =>
    rw [List.dropWhile_cons]
    split
    case isTrue hc =>
      rw [ih, List.countP_cons_of_neg]
      rw [not_endsExcelSheet_of_isDigit hc]
      exact nofun
    case isFalse => rfl

/-- No character that ends a sheet name is skipped with a number. -/
theorem movesTo_parseNumber (p : Pointer) (f : ℕ → Char) :
    p.MovesTo ((parseNumber p).eval f).2 0 := by
  cases p with
  | inside c cs =>
    show (Pointer.ofList (c :: cs)).MovesTo ((parseNumber (.ofList (c :: cs))).eval f).2 0
    rw [parseNumber_ofList, Query.eval_pure]
    refine ⟨?_, fun k hk ↦ absurd hk (by rintro ⟨⟩)⟩
    rw [Pointer.rest_ofList, Pointer.rest_ofList, afterNumber, countP_dropWhile_isDigit, afterSign,
      Nat.add_zero]
    split
    case isTrue hsign =>
      have hc : endsExcelSheet c = false := by
        rcases hsign with h | h <;> cases h <;> rfl
      rw [List.countP_cons_of_neg (by rw [hc]; rintro ⟨⟩)]
      exact le_rfl
    case isFalse => exact le_rfl
  | past k =>
    refine ⟨Nat.zero_le _, fun k' hk' ↦ ?_⟩
    cases hk'
    rw [parseNumber, Query.eval_bind, Query.eval_pure]
    dsimp only
    by_cases hsign : Query.eval f (Pointer.past (k' + 1)).deref = '+' ∨
        Query.eval f (Pointer.past (k' + 1)).deref = '-'
    · rw [if_pos hsign]
      exact ⟨k' + 1, rfl⟩
    · rw [if_neg hsign]
      exact ⟨k', rfl⟩

end Keeps

section Scanners

variable {f : ℕ → Char}

/-- Nothing is accepted at the end of an address. -/
theorem keeps_parseSeparatorR1C1 (p q : Pointer) (addr : Address) (n : ℕ) :
    KeepsR1C1 q addr n ((parseSeparatorR1C1 p addr).eval f) := by
  rw [parseSeparatorR1C1, Query.eval_bind, Query.eval_ite]
  split
  · refine .of_ne ?_ rfl rfl
    show (if p.isLast = true then _ else _ : ParseAddressResultType) ≠ _
    split <;> rintro ⟨⟩
  · exact .of_ne (by rintro ⟨⟩) rfl rfl

/-- A bracket is the last character that is accepted, or is skipped. -/
theorem keeps_parseBracketR1C1 {p : Pointer} {addr : Address} {n : ℕ}
    {k : Pointer → Address → Scan (ParsedAddress Pointer)}
    (hk : KeepsR1C1 p addr n ((k p.next addr).eval f)) :
    KeepsR1C1 p addr n ((parseBracketR1C1 p addr k).eval f) := by
  rw [parseBracketR1C1, Query.eval_ite]
  split
  case isTrue hlast =>
    rw [Query.eval_bind, Query.eval_pure]
    cases p with
    | past k => exact absurd hlast (by rintro ⟨⟩)
    | inside c cs =>
      refine ⟨rfl, rfl, fun h ↦ ?_, fun _ k hp ↦ absurd hp (by rintro ⟨⟩)⟩
      have hcs : cs = [] := List.isEmpty_iff.mp hlast
      have hc : c = ']' := by
        by_contra hne
        have hresult : (if c = ']' then ParseAddressResultType.validAddress else .invalid) =
          .validAddress := h
        rw [if_neg hne] at hresult
        exact absurd hresult (by rintro ⟨⟩)
      rw [hc, hcs]
      exact Nat.zero_le n
  case isFalse => exact hk

theorem keeps_parseAfterColumnR1C1 (p : Pointer) (addr : Address) :
    KeepsR1C1 p addr 0 ((parseAfterColumnR1C1 p addr).eval f) := by
  rw [parseAfterColumnR1C1, Query.eval_ite]
  split
  case isTrue hend =>
    rw [Query.eval_ite]
    split <;> exact .of_isEnd hend rfl rfl
  case isFalse =>
    rw [Query.eval_bind, Query.eval_ite]
    split
    case isTrue hb =>
      have hmove : p.MovesTo p.next 0 := p.movesTo_next_of_deref (f := f) (by rw [hb]; rfl)
      dsimp only
      rw [Query.eval_ite]
      split
      · exact .of_ne (by rintro ⟨⟩) rfl rfl
      rw [Query.eval_bind, Query.eval_ite]
      split
      · exact .of_ne (by rintro ⟨⟩) rfl rfl
      rw [Query.eval_bind]
      exact (keeps_parseBracketR1C1 (keeps_parseSeparatorR1C1 _ _ _ 0)).of_movesTo
        (hmove.trans (movesTo_parseNumber p.next f)) le_rfl rfl rfl
    case isFalse =>
      rw [Query.eval_ite]
      split
      · rw [Query.eval_bind]
        dsimp only
        rw [Query.eval_ite]
        split
        · exact .of_ne (by rintro ⟨⟩) rfl rfl
        rw [Query.eval_ite]
        split
        case isTrue hend =>
          exact (KeepsR1C1.of_isEnd hend rfl rfl : KeepsR1C1 _ addr 0 _).of_movesTo
            (movesTo_parseNumber p f) le_rfl rfl rfl
        case isFalse =>
          exact (keeps_parseSeparatorR1C1 _ _ _ 0).of_movesTo (movesTo_parseNumber p f) le_rfl
            rfl rfl
      · exact keeps_parseSeparatorR1C1 _ _ _ _

theorem endsExcelSheet_letter {c d e : Char} (hd : endsExcelSheet d = false)
    (he : endsExcelSheet e = false) (h : c = d ∨ c = e) : endsExcelSheet c = false := by
  rcases h with rfl | rfl
  · exact hd
  · exact he

theorem keeps_parseColumnR1C1 (p : Pointer) (addr : Address) :
    KeepsR1C1 p addr 0 ((parseColumnR1C1 p addr).eval f) := by
  rw [parseColumnR1C1, Query.eval_bind, Query.eval_ite]
  split
  case isTrue hc =>
    exact (keeps_parseAfterColumnR1C1 _ _).of_movesTo
      (p.movesTo_next_of_deref (endsExcelSheet_letter rfl rfl hc)) le_rfl rfl rfl
  case isFalse => exact keeps_parseSeparatorR1C1 _ _ _ _

theorem keeps_parseAfterRowR1C1 (p : Pointer) (addr : Address) :
    KeepsR1C1 p addr 1 ((parseAfterRowR1C1 p addr).eval f) := by
  have hcolumn : ∀ {q : Pointer} {addr' : Address}, p.MovesTo q 0 → addr'.sheet = addr.sheet →
      addr'.absSheet = addr.absSheet →
      KeepsR1C1 p addr 1 ((parseColumnR1C1 q addr').eval f) := by
    intro q addr' hmove h₁ h₂
    exact (keeps_parseColumnR1C1 q addr').of_movesTo hmove (Nat.zero_le 1) h₁ h₂
  rw [parseAfterRowR1C1, Query.eval_ite]
  split
  · exact .of_ne (by rintro ⟨⟩) rfl rfl
  rw [Query.eval_bind, Query.eval_ite]
  split
  · exact hcolumn p.movesTo_self rfl rfl
  rw [Query.eval_ite]
  split
  case isTrue hb =>
    have hmove : p.MovesTo p.next 0 := p.movesTo_next_of_deref (f := f) (by rw [hb]; rfl)
    dsimp only
    rw [Query.eval_bind, Query.eval_ite]
    split
    · exact .of_ne (by rintro ⟨⟩) rfl rfl
    rw [Query.eval_bind]
    refine KeepsR1C1.of_movesTo (keeps_parseBracketR1C1 (n := 1) ?_)
      (hmove.trans (movesTo_parseNumber p.next f)) le_rfl rfl rfl
    -- the character that is skipped need not be a bracket
    exact (keeps_parseColumnR1C1 _ _).of_movesTo (Pointer.movesTo_next _) le_rfl rfl rfl
  case isFalse =>
    rw [Query.eval_ite]
    split
    · rw [Query.eval_bind]
      dsimp only
      rw [Query.eval_ite]
      split
      · exact .of_ne (by rintro ⟨⟩) rfl rfl
      rw [Query.eval_ite]
      split
      case isTrue hend =>
        exact (KeepsR1C1.of_isEnd hend rfl rfl : KeepsR1C1 _ addr 0 _).of_movesTo
          (movesTo_parseNumber p f) (Nat.zero_le 1) rfl rfl
      case isFalse => exact hcolumn (movesTo_parseNumber p f) rfl rfl
    · exact hcolumn p.movesTo_self rfl rfl

theorem keeps_parseAddressR1C1 (p : Pointer) (addr : Address) :
    KeepsR1C1 p addr 1 ((parseAddressR1C1 p addr).eval f) := by
  rw [parseAddressR1C1, Query.eval_bind, Query.eval_ite]
  split
  case isTrue hc =>
    exact (keeps_parseAfterRowR1C1 _ _).of_movesTo
      (p.movesTo_next_of_deref (endsExcelSheet_letter rfl rfl hc)) le_rfl rfl rfl
  case isFalse =>
    exact (keeps_parseColumnR1C1 p _).of_movesTo p.movesTo_self (Nat.zero_le 1) rfl rfl

/-- Nothing is accepted behind the string. -/
theorem parseAddressR1C1_nil (addr : Address) :
    ((parseAddressR1C1 (.ofList []) addr).eval f).result ≠ .validAddress := by
  show ((parseAddressR1C1 (.past 0) addr).eval f).result ≠ .validAddress
  intro h
  rw [parseAddressR1C1, Query.eval_bind, Query.eval_ite] at h
  split at h
  · exact (keeps_parseAfterRowR1C1 _ _).inside h 0 rfl
  · rw [parseColumnR1C1, Query.eval_bind, Query.eval_ite] at h
    split at h
    · exact (keeps_parseAfterColumnR1C1 _ _).inside h 0 rfl
    · exact (keeps_parseSeparatorR1C1 _ (.past 1) _ 0).inside h 0 rfl

end Scanners

/-- A string in which no sheet name is found although there is the end of one is not
accepted. -/
theorem parseAddressR1C1_of_not_present {wb : Workbook} {f : ℕ → Char} {p : List Char}
    (hp : '!' ∈ p) (h : (parseExcelSheetName wb p).1.present = false) (addr : Address) :
    ((parseAddressR1C1 (.ofList p) addr).eval f).result ≠ .validAddress := by
  intro hvalid
  rcases of_not_present_parseExcelSheetName wb hp h with hquote | hcolon
  · obtain ⟨c, cs, rfl⟩ := List.exists_cons_of_ne_nil (List.ne_nil_of_mem hp)
    cases hquote
    exact (keeps_parseSeparatorR1C1 (f := f) (.ofList _) (.past 1) _ 0).inside hvalid 0 rfl
  · have hcount := (keeps_parseAddressR1C1 (.ofList p) addr).count hvalid
    rw [Pointer.rest_ofList, List.countP_eq_length_filter] at hcount
    have hmem : ∀ c, c ∈ p → endsExcelSheet c = true → c ∈ p.filter endsExcelSheet :=
      fun c hc h ↦ List.mem_filter.mpr ⟨hc, h⟩
    have h₁ := hmem '!' hp rfl
    have h₂ := hmem ':' hcolon rfl
    match hfilter : p.filter endsExcelSheet, hcount with
    | [], _ =>
      rw [hfilter] at h₁
      exact absurd h₁ List.not_mem_nil
    | [c], _ =>
      rw [hfilter, List.mem_singleton] at h₁ h₂
      exact absurd (h₁.trans h₂.symm) (by decide)

/-! ## What is printed -/

/-- Row or column are printed with a number. -/
def Address.ShowsNumber (a : Address) : Prop :=
  a.row ≠ rowUnset ∧ (a.absRow = true ∨ a.row ≠ 0) ∨
    a.column ≠ columnUnset ∧ (a.absColumn = true ∨ a.column ≠ 0)

section Printed

variable {f : ℕ → Char} (n : Int) (absolute : Bool) (hn : absolute = true → 0 ≤ n)
  (addr : Address)

include hn

/-- A column alone is accepted if it has a number. -/
theorem result_parseAfterColumnR1C1 (haddr : addr.row = rowUnset) :
    ((parseAfterColumnR1C1 (.ofList (appendNumberR1C1 n absolute)) addr).eval f).result =
      .validAddress ↔ absolute = true ∨ n ≠ 0 := by
  cases absolute with
  | true =>
    rw [parseAfterColumnR1C1_absolute _ _ (hn rfl)]
    exact iff_of_true rfl (.inl rfl)
  | false =>
    by_cases hzero : n = 0
    · subst hzero
      show (Query.eval f (if addr.row = rowUnset ∨ _ then _ else _ :
        Scan (ParsedAddress Pointer))).result = _ ↔ _
      rw [if_pos (.inl haddr)]
      exact iff_of_false nofun (by simp)
    · rw [parseAfterColumnR1C1_relative _ _ hzero]
      exact iff_of_true rfl (.inr hzero)

/-- A row alone is accepted if it has a number. -/
theorem result_parseAfterRowR1C1 :
    ((parseAfterRowR1C1 (.ofList (appendNumberR1C1 n absolute)) addr).eval f).result =
      .validAddress ↔ absolute = true ∨ n ≠ 0 := by
  cases absolute with
  | true =>
    rw [parseAfterRowR1C1_absolute_nil _ _ (hn rfl)]
    exact iff_of_true rfl (.inl rfl)
  | false =>
    by_cases hzero : n = 0
    · subst hzero
      exact iff_of_false nofun (by simp)
    · rw [parseAfterRowR1C1_relative_nil _ _ hzero]
      exact iff_of_true rfl (.inr hzero)

end Printed

/-- A printed address is accepted if one of its parts is printed with a number. -/
theorem result_parseAddressR1C1 {f : ℕ → Char} {a : Address}
    (hrow : a.absRow = true → 0 ≤ a.row) (hcolumn : a.absColumn = true → 0 ≤ a.column)
    (addr : Address) :
    ((parseAddressR1C1 (.ofList (appendAddressR1C1 a)) addr).eval f).result = .validAddress ↔
      a.ShowsNumber := by
  rw [Address.ShowsNumber]
  by_cases hr : a.row = rowUnset
  · simp only [hr, ne_eq, not_true_eq_false, false_and, false_or]
    by_cases hc : a.column = columnUnset
    · rw [appendAddressR1C1, if_neg (not_not.mpr hr), if_neg (not_not.mpr hc)]
      exact iff_of_false (parseAddressR1C1_nil addr) fun h ↦ h.1 hc
    · rw [appendAddressR1C1, if_neg (not_not.mpr hr), if_pos hc, List.nil_append,
        parseAddressR1C1, Pointer.deref_ofList_cons, pure_bind, if_neg (by decide),
        parseColumnR1C1, Pointer.deref_ofList_cons, pure_bind, if_pos (.inl rfl),
        Pointer.next_ofList_cons, result_parseAfterColumnR1C1 _ _ hcolumn _ rfl]
      simp only [hc, not_false_eq_true, true_and, ne_eq]
  · by_cases hc : a.column = columnUnset
    · rw [appendAddressR1C1, if_pos hr, if_neg (not_not.mpr hc), List.append_nil,
        parseAddressR1C1, Pointer.deref_ofList_cons, pure_bind, if_pos (.inl rfl),
        Pointer.next_ofList_cons, result_parseAfterRowR1C1 _ _ hrow]
      simp only [hr, hc, not_false_eq_true, true_and, ne_eq, not_true_eq_false, false_and,
        or_false]
    · obtain ⟨p, hp⟩ := parseAddressR1C1_appendAddressR1C1 a hr hc hrow hcolumn addr
      rw [hp, Query.eval_pure]
      simp only [hr, hc, not_false_eq_true, true_and, ne_eq]
      cases a.absRow <;> cases a.absColumn <;> simp
      tauto

end Ixion
