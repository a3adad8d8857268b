import Ixion.Lexer.Literal

/-!
# Texts that are put together

The texts of tokens are put one after the other, and the tokenizer cuts them apart again.  For
operators, strings and errors it does so whatever comes next.  A name or a numeral has to be
followed by a character that ends names, and all scopes of the name have to be closed there.
-/

namespace Ixion

open Lib.Strtod

namespace Tokenizer

/-! ## One round -/

/-- In front of a rest, a round cuts a text off and makes a token of it. -/
structure CutsOff (s : List Char) (token : LexerToken) (rest : List Char) : Prop where
  ne_nil : s ≠ []
  step : step (s ++ (rest ++ ['\x00'])) (s.length + rest.length) =
    .ok ⟨some token, rest ++ ['\x00'], rest.length⟩

/-- The texts of tokens, one after the other. -/
def written (l : List (List Char × LexerToken)) : List Char := l.flatMap (·.1)

/-- Each text is cut off in front of those that follow it, and a rest. -/
def CutApart : List (List Char × LexerToken) → List Char → Prop
  | [], _ => True
  | p :: l, rest => CutsOff p.1 p.2 (written l ++ rest) ∧ CutApart l rest

theorem CutApart.append {l l' : List (List Char × LexerToken)} {rest : List Char}
    (h : CutApart l (written l' ++ rest)) (h' : CutApart l' rest) : CutApart (l ++ l') rest := by
  induction l with
  | nil => exact h'
  | cons p l ih =>
    have hwritten : written (l ++ l') = written l ++ written l' := List.flatMap_append
    refine ⟨?_, ih h.2⟩
    show CutsOff p.1 p.2 (written (l ++ l') ++ rest)
    rw [hwritten, List.append_assoc]
    exact h.1

theorem run_written {l : List (List Char × LexerToken)} (h : CutApart l []) {rounds : ℕ}
    (hrounds : (written l).length ≤ rounds) :
    run rounds (written l ++ ['\x00']) (written l).length = .ok (l.map (·.2)) := by
  induction l generalizing rounds with
  | nil => exact run_zero rounds _
  | cons p l ih =>
    obtain ⟨hcuts, hl⟩ := h
    rw [List.append_nil] at hcuts
    have htext : written (p :: l) = p.1 ++ written l := List.flatMap_cons
    have hpos : 0 < p.1.length := List.length_pos_iff.mpr hcuts.ne_nil
    rw [htext, List.length_append] at hrounds
    obtain ⟨rounds, rfl⟩ : ∃ n, rounds = n + 1 := ⟨rounds - 1, by omega⟩
    obtain ⟨left, hleft⟩ : ∃ n, p.1.length + (written l).length = n + 1 :=
      ⟨p.1.length + (written l).length - 1, by omega⟩
    rw [htext, List.length_append, List.append_assoc, hleft, run_succ, ← hleft, hcuts.step]
    show ((run rounds (written l ++ ['\x00']) (written l).length).bind _) = _
    rw [ih hl (by omega)]
    rfl

/-- Texts that are cut apart are the texts of their tokens. -/
theorem tokens_written {l : List (List Char × LexerToken)} (h : CutApart l []) :
    tokens (written l) = .ok (l.map (·.2)) :=
  run_written h (le_refl _)

/-! ## Operators, strings and errors -/

theorem cutsOff_op {c : Char} {oc : LexerOpcode} (h : opcodeOf c = some oc) (rest : List Char) :
    CutsOff [c] (.op oc) rest where
  ne_nil := List.cons_ne_nil c []
  step := by
    have hleft : [c].length + rest.length - 1 = rest.length := by
      rw [List.length_singleton]
      omega
    rw [List.singleton_append, step_cons, hleft]
    rw [opcodeOf] at h
    split_ifs at h with hsep hrow
    · subst hsep
      cases h
      rfl
    · subst hrow
      cases h
      rfl
    · have hdigit : c.isDigit = false := by
        by_contra hc
        rw [Bool.not_eq_false] at hc
        have hop := isOp_of_isDigit hc
        rw [isOp, h] at hop
        simp at hop
      rw [if_neg (by simp [hdigit]), h]

theorem stringLoop_quote {s : List Char} (h : '"' ∉ s) (len : ℕ) (mem : List Char) (left : ℕ) :
    stringLoop len (s ++ '"' :: mem) (s.length + (left + 1)) =
      .ok ⟨len + s.length, '"' :: mem, left + 1⟩ := by
  induction s generalizing len with
  | nil =>
    rw [List.length_nil, Nat.zero_add, List.nil_append, stringLoop_cons, if_pos rfl]
    rfl
  | cons c s ih =>
    rw [List.mem_cons, not_or] at h
    rw [List.length_cons, Nat.succ_add, List.cons_append, stringLoop_cons, if_neg (Ne.symm h.1),
      ih h.2]
    congr 2
    omega

theorem cutsOff_string {s : List Char} (h : '"' ∉ s) (rest : List Char) :
    CutsOff ('"' :: (s ++ ['"'])) (.string s) rest where
  ne_nil := List.cons_ne_nil _ _
  step := by
    have hlength : ('"' :: (s ++ ['"'])).length + rest.length =
        s.length + (rest.length + 1) + 1 := by
      rw [List.length_cons, List.length_append, List.length_singleton]
      omega
    have hmem : '"' :: (s ++ ['"']) ++ (rest ++ ['\x00']) =
        '"' :: (s ++ '"' :: (rest ++ ['\x00'])) := by
      rw [List.cons_append, List.append_assoc, List.singleton_append]
    rw [hlength, hmem]
    show string _ (s.length + (rest.length + 1) + 1) = _
    rw [string]
    show (stringLoop 0 (s ++ '"' :: (rest ++ ['\x00'])) (s.length + (rest.length + 1)) >>= _) = _
    rw [stringLoop_quote h, Nat.zero_add]
    show Except.ok (Emitted.mk (some (.string ((s ++ '"' :: (rest ++ ['\x00'])).take s.length)))
      (rest ++ ['\x00']) rest.length) = _
    rw [List.take_left]

/-- No name of an error begins with another one. -/
theorem eq_of_errorEntries_isPrefix :
    ∀ e ∈ errorEntries, ∀ e' ∈ errorEntries, e.1 <+: e'.1 → e = e' := by
  decide

/-- The memory behind a text does not matter to the scanner of errors before it is reached. -/
theorem errorLoop_append {node : ErrorNode} {len : ℕ} {text : List Char} {e : FormulaError}
    {r : Scanned} (h : errorLoop node len text text.length = .ok (some e, r)) (mem : List Char) :
    errorLoop node len (text ++ mem) text.length =
      .ok (some e, ⟨r.len, r.mem ++ mem, r.left⟩) := by
  induction text generalizing node len with
  | nil => cases h
  | cons c text ih =>
    rw [List.length_cons, errorLoop_cons] at h
    rw [List.length_cons, List.cons_append, errorLoop_cons]
    split_ifs at h ⊢ with hempty
    · cases h
    cases hvalue : (node.child c).value with
    | some e' =>
      rw [hvalue] at h
      cases h
      rfl
    | none =>
      rw [hvalue] at h
      exact ih h

theorem cutsOff_error {key : List Char} {e : FormulaError} (h : (key, e) ∈ errorEntries)
    (rest : List Char) : CutsOff ('#' :: key) (.error e) rest where
  ne_nil := List.cons_ne_nil _ _
  step := by
    have hlength : ('#' :: key).length + rest.length = (key ++ rest).length + 1 := by
      rw [List.length_cons, List.length_append]
      omega
    rw [hlength, List.cons_append, ← List.append_assoc]
    show error ('#' :: (key ++ rest ++ ['\x00'])) ((key ++ rest).length + 1) = _
    have herror : errorLoop errorEntries 1 (key ++ rest) (key ++ rest).length =
        .ok (some e, ⟨1 + key.length, rest, rest.length⟩) := by
      rcases @errorLoop_spec errorEntries (by decide) 1 (key ++ rest) with
        ⟨key', e', r, hmem, heq, htext, hlen, hleft⟩ | ⟨r, -, hnone⟩
      · -- the name that is found and the one that is there begin the same text
        obtain ⟨rfl, rfl⟩ : key = key' ∧ e = e' := by
          rcases List.prefix_or_prefix_of_prefix (List.prefix_append key rest)
            (htext ▸ List.prefix_append key' r.mem) with hle | hle
          · exact Prod.mk.inj (eq_of_errorEntries_isPrefix _ h _ hmem hle)
          · exact Prod.mk.inj (eq_of_errorEntries_isPrefix _ hmem _ h hle).symm
        obtain ⟨len, mem, left⟩ := r
        dsimp only at htext hlen hleft
        obtain rfl := List.append_cancel_left htext
        rw [heq, hlen, hleft]
      · exact absurd (List.prefix_append key rest) (hnone _ h)
    show (errorLoop errorEntries 1 (key ++ rest ++ ['\x00']) (key ++ rest).length >>= _) = _
    rw [errorLoop_append herror]
    rfl

/-! ## Names -/

/-- Where names and numerals end: at the end of a text, or in front of an operator. -/
def Ends (rest : List Char) : Prop := ∀ c ∈ rest.head?, isOp c = true

/-- The scopes that are open behind characters of a name; there are none if it ends before. -/
def scopesAfter : List Char → List Char → Option (List Char)
  | scopes, [] => some scopes
  | scopes, c :: cs =>
    if scopes.head? = some c then scopesAfter scopes.tail cs
    else if c = '[' then scopesAfter (']' :: scopes) cs
    else if c = '\'' then scopesAfter ('\'' :: scopes) cs
    else if scopes ≠ [] then scopesAfter scopes cs
    else if isOp c then none
    else scopesAfter scopes cs

/-- A text at whose beginning the tokenizer looks for a name. -/
def BeginsName : List Char → Prop
  | [] => False
  | c :: cs =>
    if c.isDigit then numeralEnd (c :: cs) (cs.length + 1) = .ok none
    else opsMap c = none ∧ c ∉ [' ', '"', '#', sepArg, sepArrayRow]

instance : DecidablePred BeginsName
  | [] => inferInstanceAs (Decidable False)
  | c :: cs => inferInstanceAs (Decidable (if c.isDigit then
      numeralEnd (c :: cs) (cs.length + 1) = .ok none
    else opsMap c = none ∧ c ∉ [' ', '"', '#', sepArg, sepArrayRow]))

/-- The characters of a name, behind which all scopes are closed. -/
structure IsWord (s : List Char) : Prop where
  begins : BeginsName s
  closed : scopesAfter [] s = some []

theorem nameLoop_append {scopes scopes' s : List Char} (h : scopesAfter scopes s = some scopes')
    (len : ℕ) (mem : List Char) (left : ℕ) :
    nameLoop scopes len (s ++ mem) (s.length + left) =
      nameLoop scopes' (len + s.length) mem left := by
  induction s generalizing scopes len with
  | nil =>
    cases h
    rw [List.nil_append, List.length_nil, Nat.zero_add, Nat.add_zero]
  | cons c s ih =>
    rw [List.length_cons, Nat.succ_add, List.cons_append, nameLoop_cons]
    rw [show len + (s.length + 1) = len + 1 + s.length by omega]
    rw [scopesAfter] at h
    split_ifs at h ⊢
    · exact ih h (len + 1)
    · exact ih h (len + 1)
    · exact ih h (len + 1)
    · exact ih h (len + 1)
    · exact ih h (len + 1)

/-- A name ends where no scope is open. -/
theorem nameLoop_of_ends {rest : List Char} (h : Ends rest) (len : ℕ) (mem : List Char) :
    nameLoop [] len (rest ++ mem) rest.length = .ok ⟨len, rest ++ mem, rest.length⟩ := by
  cases rest with
  | nil => rfl
  | cons c rest =>
    have hc : isOp c = true := h c rfl
    have hbracket : c ≠ '[' := by
      rintro rfl
      exact absurd hc (by decide)
    have hquote : c ≠ '\'' := by
      rintro rfl
      exact absurd hc (by decide)
    rw [List.length_cons, List.cons_append, nameLoop_cons, if_neg (by rintro ⟨⟩), if_neg hbracket,
      if_neg hquote, if_neg (not_not.mpr rfl), if_pos hc]

/-- Whether something is a numeral has been decided where it is known not to be one. -/
theorem numeralLoop_append {sepCount len : ℕ} {cs : List Char} (hsep : sepCount ≤ 1)
    {x : Option (ℕ × Scanned)} (h : numeralLoop sepCount len cs cs.length = .ok x)
    (hx : ∀ n r, x = some (n, r) → 1 < n) (mem : List Char) (left : ℕ) :
    ∃ x', numeralLoop sepCount len (cs ++ mem) (cs.length + left) = .ok x' ∧
      ∀ n r, x' = some (n, r) → 1 < n := by
  induction cs generalizing sepCount len with
  | nil =>
    cases h
    exact absurd (hx _ _ rfl) (not_lt.mpr hsep)
  | cons c cs ih =>
    rw [List.length_cons, numeralLoop_cons] at h
    rw [List.length_cons, Nat.succ_add, List.cons_append, numeralLoop_cons]
    split_ifs at h ⊢ with h₁ h₂ h₃ h₄
    · exact ⟨none, rfl, by rintro n r ⟨⟩⟩
    · exact ih hsep h
    · exact ih h₄ h
    · refine ⟨_, rfl, ?_⟩
      rintro n r ⟨⟩
      omega
    · cases h
      exact absurd (hx _ _ rfl) (not_lt.mpr hsep)

theorem numeralEnd_append {c : Char} {cs : List Char}
    (h : numeralEnd (c :: cs) (cs.length + 1) = .ok none) (mem : List Char) (left : ℕ) :
    numeralEnd (c :: (cs ++ mem)) (cs.length + left + 1) = .ok none := by
  have hnone {mem : List Char} {left : ℕ} (hloop : numeralLoop 0 1 mem left = .ok none) :
      numeralEnd (c :: mem) (left + 1) = .ok none := by
    show (numeralLoop 0 1 mem left >>= _) = _
    rw [hloop]
    rfl
  have hsome {mem : List Char} {left n : ℕ} {r : Scanned}
      (hloop : numeralLoop 0 1 mem left = .ok (some (n, r))) :
      numeralEnd (c :: mem) (left + 1) = .ok (if n > 1 then none else some r) := by
    show (numeralLoop 0 1 mem left >>= _) = _
    rw [hloop]
    rfl
  obtain ⟨x, hloop, hx⟩ : ∃ x, numeralLoop 0 1 cs cs.length = .ok x ∧
      ∀ n r, x = some (n, r) → 1 < n := by
    rcases reads_numeralLoop 0 1 cs with hloop | ⟨n, s, r, hloop, -, -⟩
    · exact ⟨none, hloop, by rintro n r ⟨⟩⟩
    · refine ⟨_, hloop, ?_⟩
      rintro n' r' ⟨⟩
      by_contra hn
      rw [hsome hloop, if_neg hn] at h
      cases h
  obtain ⟨x', hloop', hx'⟩ := numeralLoop_append (Nat.zero_le 1) hloop hx mem left
  cases x' with
  | none => exact hnone hloop'
  | some x' => rw [hsome hloop', if_pos (hx' x'.1 x'.2 rfl)]

/-- What begins like a name is scanned as one. -/
theorem step_eq_name {s : List Char} (h : BeginsName s) (mem : List Char) (left : ℕ) :
    step (s ++ mem) (s.length + left) = name (s ++ mem) (s.length + left) := by
  cases s with
  | nil => exact h.elim
  | cons c cs =>
    rw [List.length_cons, Nat.succ_add, List.cons_append, step_cons]
    rw [BeginsName] at h
    split_ifs at h with hdigit
    · rw [if_pos hdigit, numeral, numeralEnd_append h]
      rfl
    · rw [if_neg hdigit, h.1]
      have hc := h.2
      simp only [List.mem_cons, List.not_mem_nil, or_false, not_or] at hc
      dsimp only
      rw [if_neg hc.1, if_neg hc.2.1, if_neg hc.2.2.1, if_neg hc.2.2.2.1, if_neg hc.2.2.2.2]

theorem cutsOff_name {s scopes rest : List Char} (h : BeginsName s)
    (hscopes : scopesAfter [] s = some scopes) (hrest : rest = [] ∨ scopes = [] ∧ Ends rest) :
    CutsOff s (.name s) rest where
  ne_nil := by
    rintro rfl
    exact h
  step := by
    have hloop : nameLoop scopes (0 + s.length) (rest ++ ['\x00']) rest.length =
        .ok ⟨s.length, rest ++ ['\x00'], rest.length⟩ := by
      rw [Nat.zero_add]
      rcases hrest with rfl | ⟨rfl, hends⟩
      · cases scopes <;> rfl
      · exact nameLoop_of_ends hends _ _
    rw [step_eq_name h, name, nameLoop_append hscopes, hloop]
    show Except.ok (Emitted.mk (some (.name ((s ++ (rest ++ ['\x00'])).take s.length)))
      (rest ++ ['\x00']) rest.length) = _
    rw [List.take_left]

/-- A word is cut off where names end. -/
theorem IsWord.cutsOff {s : List Char} (h : IsWord s) {rest : List Char} (hrest : Ends rest) :
    CutsOff s (.name s) rest :=
  cutsOff_name h.begins h.closed (.inr ⟨rfl, hrest⟩)

/-! ## Numerals -/

/-- A number without a sign that begins with a digit. -/
structure IsNumeral (num : DecimalText) : Prop where
  sign : num.sign = none
  int_ne_nil : num.int ≠ []

/-- A number is read if what follows does not go on with it. -/
theorem numericPrefix_numeral {num : DecimalText} (h : IsNumeral num) {c : Char}
    (hdigit : c.isDigit = false) (hpoint : c ≠ '.') (he : c.toLower ≠ 'e') (hx : c.toLower ≠ 'x')
    (cs : List Char) : numericPrefix (num.text ++ c :: cs) =
      some ⟨some (mantissa 10 num.int (num.frac.getD [])), 10, 0, c :: cs⟩ := by
  obtain ⟨sign, int, frac, hint, hfrac, hne⟩ := num
  obtain ⟨rfl, hint'⟩ := h
  dsimp only at hint' hint hfrac ⊢
  rw [DecimalText.text]
  show numericPrefix (pointed int frac ++ c :: cs) = _
  cases frac with
  | none =>
    rw [pointed, Option.elim_none, List.append_nil]
    exact numericPrefix_digits hint hint' hdigit hpoint he hx cs
  | some fr =>
    rw [Option.getD_some] at hfrac ⊢
    rw [pointed, Option.elim_some, List.append_assoc, List.cons_append]
    have hspan : span Char.isDigit (int ++ '.' :: (fr ++ c :: cs)) =
        some (int, '.' :: (fr ++ c :: cs)) := by
      rw [span_append hint, span_cons_of_not rfl, Option.map_some, List.append_nil]
    have hspan' : span Char.isDigit (fr ++ c :: cs) = some (fr, c :: cs) := by
      rw [span_append hfrac, span_cons_of_not hdigit, Option.map_some, List.append_nil]
    have hdigits : readDigits Char.isDigit (int ++ '.' :: (fr ++ c :: cs)) =
        some (some (int, fr, c :: cs)) := by
      rw [readDigits_of_span hspan, if_pos rfl, hspan', Option.map_some,
        if_neg fun hnil ↦ hint' hnil.1]
    have hdecimal : readDecimal (int ++ '.' :: (fr ++ c :: cs)) =
        some (some ⟨some (mantissa 10 int fr), 10, 0, c :: cs⟩) := by
      show ((readDigits Char.isDigit (int ++ '.' :: (fr ++ c :: cs))).bind _) = _
      rw [hdigits]
      show ((readExponent 'e' (c :: cs)).bind _) = _
      rw [readExponent_of_ne he]
      rfl
    obtain ⟨d, ds, rfl⟩ := List.exists_cons_of_ne_nil hint'
    have hd := hint d List.mem_cons_self
    have hsubject : readSubject (d :: ds ++ '.' :: (fr ++ c :: cs)) =
        readDecimal (d :: ds ++ '.' :: (fr ++ c :: cs)) := by
      show (if d = '0' then ((ds ++ '.' :: (fr ++ c :: cs)).head?.bind _)
        else if d.isDigit ∨ d = '.' then _ else _) = _
      split
      · -- what comes after a zero is a digit or the point
        obtain ⟨d', hhead, hlower⟩ : ∃ d', (ds ++ '.' :: (fr ++ c :: cs)).head? = some d' ∧
            d'.toLower ≠ 'x' := by
          cases ds with
          | nil => exact ⟨'.', rfl, by decide⟩
          | cons d' ds =>
            have hd' := hint d' (by simp)
            refine ⟨d', rfl, ?_⟩
            rw [toLower_of_isDigit hd']
            rintro rfl
            cases hd'
        rw [hhead]
        exact if_neg hlower
      · exact if_pos (.inl hd)
    have hnumeric := numericPrefix_signed none (.inl hd) (ds ++ '.' :: (fr ++ c :: cs))
    rw [← List.cons_append, hsubject, hdecimal] at hnumeric
    exact hnumeric

/-- A number is converted if what follows does not go on with it. -/
theorem toDouble_numeral {num : DecimalText} (h : IsNumeral num) {c : Char}
    (hdigit : c.isDigit = false) (hpoint : c ≠ '.') (he : c.toLower ≠ 'e') (hx : c.toLower ≠ 'x')
    (cs : List Char) : toDouble num.text (c :: cs) = some (some num.value) := by
  have hprefix := numericPrefix_numeral h hdigit hpoint he hx cs
  have habs : num.abs = 0 ↔ num.value = 0 := num.value_eq_zero_iff.symm
  have hconvert := @toDouble_eq_iff num [] (by simp) (c :: cs)
  rw [List.append_nil] at hconvert
  refine hconvert.mpr ⟨_, hprefix, ?_⟩
  split
  case isTrue hzero => exact congrArg some (habs.mpr hzero)
  case isFalse => exact ⟨rfl, rfl⟩

theorem not_goesOn_of_isOp {c : Char} (h : isOp c = true) :
    c.isDigit = false ∧ c ≠ '.' ∧ c.toLower ≠ 'e' ∧ c.toLower ≠ 'x' ∧ c ≠ ':' := by
  rw [isOp, Bool.or_eq_true, Bool.or_eq_true, Bool.or_eq_true] at h
  simp only [decide_eq_true_eq] at h
  rcases h with ((rfl | hop) | rfl) | rfl
  · decide
  · unfold opsMap at hop
    split at hop
    all_goals first | decide | cases hop
  · decide
  · decide

/-- The digits and the point of a numeral are read as such. -/
theorem numeralLoop_pointed {num : DecimalText} {c : Char} {cs : List Char}
    (hint : num.int = c :: cs) {rest : List Char} (hrest : Ends rest) (mem : List Char) :
    ∃ sepCount ≤ 1, numeralLoop 0 1 (cs ++ (num.frac.elim [] ('.' :: ·) ++ (rest ++ mem)))
        ((cs ++ num.frac.elim [] ('.' :: ·)).length + rest.length) =
      .ok (some (sepCount, ⟨1 + (cs ++ num.frac.elim [] ('.' :: ·)).length, rest ++ mem,
        rest.length⟩)) := by
  have hcs : ∀ d ∈ cs, d.isDigit = true := fun d hd ↦
    num.int_digits d (by rw [hint]; exact List.mem_cons_of_mem c hd)
  have hends (sepCount len : ℕ) : numeralLoop sepCount len (rest ++ mem) rest.length =
      .ok (some (sepCount, ⟨len, rest ++ mem, rest.length⟩)) := by
    cases rest with
    | nil => rfl
    | cons d rest =>
      obtain ⟨hdigit, hpoint, -, -, hcolon⟩ := not_goesOn_of_isOp (hrest d rfl)
      rw [List.length_cons, List.cons_append, numeralLoop_cons, if_neg hcolon,
        if_neg (by simp [hdigit]), if_neg (show d ≠ sepDecimal from hpoint)]
  cases hfrac : num.frac with
  | none =>
    refine ⟨0, Nat.zero_le 1, ?_⟩
    rw [Option.elim_none, List.append_nil, List.nil_append, numeralLoop_digits hcs, hends]
  | some fr =>
    have hfr : ∀ d ∈ fr, d.isDigit = true := by
      have hdigits := num.frac_digits
      rwa [hfrac] at hdigits
    refine ⟨1, le_rfl, ?_⟩
    rw [Option.elim_some, List.length_append, List.length_cons, Nat.add_assoc,
      numeralLoop_digits hcs, List.cons_append,
      show fr.length + 1 + rest.length = fr.length + rest.length + 1 by omega, numeralLoop_cons]
    show numeralLoop 1 _ (fr ++ (rest ++ mem)) (fr.length + rest.length) = _
    rw [numeralLoop_digits hfr, hends]
    congr 4
    omega

/-- A numeral is cut off where numerals end. -/
theorem IsNumeral.cutsOff {num : DecimalText} (h : IsNumeral num) {rest : List Char}
    (hrest : Ends rest) : CutsOff num.text (.value (some num.value)) rest where
  ne_nil := num.text_ne_nil
  step := by
    obtain ⟨c, cs, hint⟩ := List.exists_cons_of_ne_nil h.int_ne_nil
    have hc : c.isDigit = true := num.int_digits c (by rw [hint]; exact List.mem_cons_self)
    have htext : num.text = c :: (cs ++ num.frac.elim [] ('.' :: ·)) := by
      rw [DecimalText.text, h.sign, pointed, hint]
      rfl
    obtain ⟨sepCount, hsep, hloop⟩ := numeralLoop_pointed hint hrest ['\x00']
    rw [← List.append_assoc] at hloop
    have hvalue : toDouble num.text (rest ++ ['\x00']) = some (some num.value) := by
      cases rest with
      | nil => exact toDouble_numeral h (by decide) (by decide) (by decide) (by decide) []
      | cons d rest =>
        obtain ⟨hdigit, hpoint, he, hx, -⟩ := not_goesOn_of_isOp (hrest d rfl)
        exact toDouble_numeral h hdigit hpoint he hx _
    have hstep := step_digit hc hsep hloop
    rw [← htext, hvalue] at hstep
    rw [htext, List.length_cons, Nat.succ_add, List.cons_append]
    exact hstep

/-! ## What tokens are made of -/

/-- What scanners leave is a part of what they begin with. -/
theorem suffix_of_nameLoop {scopes mem : List Char} {len left : ℕ} {r : Scanned}
    (h : nameLoop scopes len mem left = .ok r) : r.mem <:+ mem := by
  induction left generalizing scopes len mem with
  | zero =>
    rw [nameLoop] at h
    cases h
    exact List.suffix_refl mem
  | succ left ih =>
    cases mem with
    | nil => cases h
    | cons c cs =>
      rw [nameLoop_cons] at h
      split_ifs at h
      · exact (ih h).trans (List.suffix_cons c cs)
      · exact (ih h).trans (List.suffix_cons c cs)
      · exact (ih h).trans (List.suffix_cons c cs)
      · exact (ih h).trans (List.suffix_cons c cs)
      · cases h
        exact List.suffix_refl _
      · exact (ih h).trans (List.suffix_cons c cs)

theorem suffix_of_numeralLoop {sepCount len : ℕ} {mem : List Char} {left n : ℕ} {r : Scanned}
    (h : numeralLoop sepCount len mem left = .ok (some (n, r))) : r.mem <:+ mem ∧ len ≤ r.len := by
  induction left generalizing sepCount len mem with
  | zero =>
    rw [numeralLoop] at h
    cases h
    exact ⟨List.suffix_refl mem, le_rfl⟩
  | succ left ih =>
    cases mem with
    | nil => cases h
    | cons c cs =>
      have hnext {sepCount : ℕ}
          (h : numeralLoop sepCount (len + 1) cs left = .ok (some (n, r))) :
          r.mem <:+ c :: cs ∧ len ≤ r.len :=
        ⟨(ih h).1.trans (List.suffix_cons c cs), (Nat.le_succ len).trans (ih h).2⟩
      rw [numeralLoop_cons] at h
      split_ifs at h
      · cases h
      · exact hnext h
      · exact hnext h
      · cases h
        exact ⟨List.suffix_refl _, le_rfl⟩
      · cases h
        exact ⟨List.suffix_refl _, le_rfl⟩

theorem suffix_of_stringLoop {len : ℕ} {mem : List Char} {left : ℕ} {r : Scanned}
    (h : stringLoop len mem left = .ok r) :
    ∃ s, mem = s ++ r.mem ∧ r.len = len + s.length ∧ '"' ∉ s := by
  induction left generalizing len mem with
  | zero =>
    cases mem with
    | nil => cases h
    | cons c cs =>
      change Except.ok (Scanned.mk len (c :: cs) 0) = _ at h
      cases h
      exact ⟨[], rfl, rfl, List.not_mem_nil⟩
  | succ left ih =>
    cases mem with
    | nil => cases h
    | cons c cs =>
      rw [stringLoop_cons] at h
      split_ifs at h with hc
      · cases h
        exact ⟨[], rfl, rfl, List.not_mem_nil⟩
      · obtain ⟨s, hmem, hlen, hs⟩ := ih h
        refine ⟨c :: s, by rw [hmem]; rfl, by rw [hlen, List.length_cons]; omega, ?_⟩
        rw [List.mem_cons, not_or]
        exact ⟨Ne.symm hc, hs⟩

theorem suffix_of_errorLoop {node : ErrorNode} {len : ℕ} {mem : List Char} {left : ℕ}
    {e : FormulaError} {r : Scanned} (h : errorLoop node len mem left = .ok (some e, r)) :
    r.mem <:+ mem ∧ ∃ key, (key, e) ∈ node := by
  induction left generalizing node len mem with
  | zero =>
    rw [errorLoop] at h
    cases h
  | succ left ih =>
    cases mem with
    | nil => cases h
    | cons c cs =>
      rw [errorLoop_cons] at h
      by_cases hempty : (node.child c).isEmpty = true
      · rw [if_pos hempty] at h
        cases h
      rw [if_neg hempty] at h
      cases hvalue : (node.child c).value with
      | some e' =>
        rw [hvalue] at h
        cases h
        exact ⟨List.suffix_cons c cs, [c], mem_child.mp (mem_of_value_eq_some hvalue)⟩
      | none =>
        rw [hvalue] at h
        obtain ⟨hsuffix, key, hkey⟩ := ih h
        exact ⟨hsuffix.trans (List.suffix_cons c cs), c :: key, mem_child.mp hkey⟩

theorem mantissa_of_readNumber {kind : Char → Bool} {base : ℕ} {letter : Char} {expBase : ℕ+}
    {p : List Char} {r : Numeric} (h : readNumber kind base letter expBase p = some (some r)) :
    r.mantissa ≠ none := by
  obtain ⟨digits, -, hdigits⟩ := Option.bind_eq_some_iff.mp h
  cases digits with
  | none => cases hdigits
  | some digits =>
    obtain ⟨⟨e, rest⟩, -, hsome⟩ := Option.bind_eq_some_iff.mp hdigits
    cases hsome
    rintro ⟨⟩

/-- What begins with a digit is a number. -/
theorem mantissa_of_isDigit {c : Char} {cs : List Char} (hc : c.isDigit = true) {r : Numeric}
    (h : numericPrefix (c :: cs) = some r) : r.mantissa ≠ none := by
  have hsigned := numericPrefix_signed none (.inl hc) cs
  change numericPrefix (c :: cs) = (readSubject (c :: cs)).map _ at hsigned
  rw [hsigned] at h
  obtain ⟨subject, hsubject, rfl⟩ := Option.map_eq_some_iff.mp h
  cases subject with
  | none => rintro ⟨⟩
  | some r =>
    have hr : r.mantissa ≠ none := by
      change (if c = '0' then (cs.head?.bind _) else if c.isDigit ∨ c = '.' then _ else _) = _
        at hsubject
      split at hsubject
      · obtain ⟨d, -, hd⟩ := Option.bind_eq_some_iff.mp hsubject
        split at hd
        · obtain ⟨number, hnumber, hsome⟩ := Option.bind_eq_some_iff.mp hd
          cases number with
          | none =>
            cases hsome
            rintro ⟨⟩
          | some r' =>
            cases hsome
            exact mantissa_of_readNumber hnumber
        · exact mantissa_of_readNumber hd
      · rw [if_pos (.inl hc)] at hsubject
        exact mantissa_of_readNumber hsubject
    exact hr

/-- The conversion of what begins with a digit has a finite value. -/
theorem toDouble_ne_none {c : Char} {s beyond : List Char} (hc : c.isDigit = true)
    (hs : s.head? = some c) : toDouble s beyond ≠ some none := by
  obtain ⟨cs, rfl⟩ := List.head?_eq_some_iff.mp hs
  rw [toDouble, if_neg (by simp), strtod]
  cases hprefix : numericPrefix (c :: cs ++ beyond) with
  | none => rintro ⟨⟩
  | some r =>
    obtain ⟨m, hm⟩ := Option.ne_none_iff_exists'.mp (mantissa_of_isDigit hc hprefix)
    show (if _ then _ else _ : Option (Option ℚ)) ≠ _
    rw [Numeric.value, hm]
    split <;> rintro ⟨⟩

/-- A number is finite; the characters of a string come from a text, and there is no quote among
them; an error has a name. -/
def MadeOf (text : List Char) : LexerToken → Prop
  | .value v => v ≠ none
  | .string s => s ⊆ text ∧ '"' ∉ s
  | .error e => ∃ key, (key, e) ∈ errorEntries
  | _ => True

theorem MadeOf.mono {text text' : List Char} {t : LexerToken} (h : MadeOf text t)
    (hsub : text ⊆ text') : MadeOf text' t := by
  cases t with
  | string s => exact ⟨fun c hc ↦ hsub (h.1 hc), h.2⟩
  | error e => exact h
  | _ => trivial

/-- What a round leaves, and what it makes a token of, is in memory. -/
structure Leaves (mem : List Char) (r : Emitted) : Prop where
  suffix : r.mem <:+ mem
  madeOf : ∀ t ∈ r.token, MadeOf mem t

theorem leaves_name {mem : List Char} {left : ℕ} {r : Emitted} (h : name mem left = .ok r) :
    Leaves mem r := by
  rw [name] at h
  cases hloop : nameLoop [] 0 mem left with
  | error e =>
    rw [hloop] at h
    cases h
  | ok s =>
    rw [hloop] at h
    cases h
    refine ⟨suffix_of_nameLoop hloop, ?_⟩
    rintro t ⟨⟩
    trivial

theorem leaves_numeral {c : Char} (hc : c.isDigit = true) {cs : List Char} {left : ℕ}
    {r : Emitted} (h : numeral (c :: cs) (left + 1) = .ok r) : Leaves (c :: cs) r := by
  cases hend : numeralEnd (c :: cs) (left + 1) with
  | error e =>
    rw [numeral, hend] at h
    cases h
  | ok x =>
    cases x with
    | none =>
      rw [numeral, hend] at h
      exact leaves_name h
    | some s =>
      rw [numeral_of_numeralEnd hend] at h
      cases hvalue : toDouble ((c :: cs).take s.len) ((c :: cs).drop s.len) with
      | none =>
        rw [hvalue] at h
        cases h
      | some val =>
        rw [hvalue] at h
        cases h
        obtain ⟨hsuffix, hlen⟩ : s.mem <:+ cs ∧ 1 ≤ s.len := by
          change (numeralLoop 0 1 cs left >>= _) = _ at hend
          cases hloop : numeralLoop 0 1 cs left with
          | error e =>
            rw [hloop] at hend
            cases hend
          | ok y =>
            rw [hloop] at hend
            rcases y with - | ⟨n, s'⟩
            · cases hend
            · change Except.ok (if n > 1 then none else some s') = _ at hend
              split_ifs at hend
              · cases hend
              · cases hend
                exact suffix_of_numeralLoop hloop
        refine ⟨hsuffix.trans (List.suffix_cons c cs), ?_⟩
        rintro t ⟨⟩
        change val ≠ none
        rintro rfl
        refine toDouble_ne_none hc ?_ hvalue
        obtain ⟨len, hlen'⟩ := Nat.exists_eq_add_of_le' hlen
        rw [hlen', List.take_succ_cons]
        rfl

theorem leaves_string {c : Char} {cs : List Char} {left : ℕ} {r : Emitted}
    (h : string (c :: cs) left = .ok r) : Leaves (c :: cs) r := by
  change (stringLoop 0 cs (left - 1) >>= _) = _ at h
  cases hloop : stringLoop 0 cs (left - 1) with
  | error e =>
    rw [hloop] at h
    cases h
  | ok s =>
    rw [hloop] at h
    obtain ⟨str, hmem, hlen, hquote⟩ := suffix_of_stringLoop hloop
    change (readChar s.mem >>= fun c ↦ _) = _ at h
    have htake : cs.take s.len = str := by
      rw [hmem, hlen, Nat.zero_add, List.take_left]
    have hmade : MadeOf (c :: cs) (.string (cs.take s.len)) := by
      rw [htake]
      refine ⟨fun d hd ↦ List.mem_cons_of_mem c ?_, hquote⟩
      rw [hmem]
      exact List.mem_append_left _ hd
    have hsuffix : s.mem <:+ c :: cs :=
      (hmem ▸ List.suffix_append str s.mem).trans (List.suffix_cons c cs)
    cases hrest : s.mem with
    | nil =>
      rw [hrest] at h
      cases h
    | cons d ds =>
      rw [hrest] at h hsuffix
      change (if d = '"' then
          Except.ok (Emitted.mk (some (.string (cs.take s.len))) ds (s.left - 1))
        else .ok ⟨some (.string (cs.take s.len)), d :: ds, s.left⟩) = _ at h
      split_ifs at h
      · cases h
        refine ⟨(List.suffix_cons d ds).trans hsuffix, ?_⟩
        rintro t ⟨⟩
        exact hmade
      · cases h
        refine ⟨hsuffix, ?_⟩
        rintro t ⟨⟩
        exact hmade

theorem leaves_error {c : Char} {cs : List Char} {left : ℕ} {r : Emitted}
    (h : error (c :: cs) left = .ok r) : Leaves (c :: cs) r := by
  change (errorLoop errorEntries 1 cs (left - 1) >>= _) = _ at h
  cases hloop : errorLoop errorEntries 1 cs (left - 1) with
  | error e =>
    rw [hloop] at h
    cases h
  | ok x =>
    obtain ⟨e, s⟩ := x
    rw [hloop] at h
    cases e with
    | none => cases h
    | some e =>
      cases h
      obtain ⟨hsuffix, hkey⟩ := suffix_of_errorLoop hloop
      refine ⟨hsuffix.trans (List.suffix_cons c cs), ?_⟩
      rintro t ⟨⟩
      exact hkey

theorem leaves_step {mem : List Char} {left : ℕ} {r : Emitted}
    (h : step mem (left + 1) = .ok r) : Leaves mem r := by
  cases mem with
  | nil => cases h
  | cons c cs =>
    have hop {t : Option LexerToken} (ht : ∀ t' ∈ t, MadeOf (c :: cs) t') :
        Leaves (c :: cs) ⟨t, cs, left⟩ := ⟨List.suffix_cons c cs, ht⟩
    rw [step_cons] at h
    by_cases hdigit : c.isDigit = true
    · rw [if_pos hdigit] at h
      exact leaves_numeral hdigit h
    rw [if_neg hdigit] at h
    cases hoc : opsMap c with
    | some oc =>
      rw [hoc] at h
      cases h
      exact hop (by rintro t ⟨⟩; trivial)
    | none =>
      rw [hoc] at h
      dsimp only at h
      split_ifs at h
      · cases h
        exact hop (by rintro t ⟨⟩)
      · exact leaves_string h
      · exact leaves_error h
      · cases h
        exact hop (by rintro t ⟨⟩; trivial)
      · cases h
        exact hop (by rintro t ⟨⟩; trivial)
      · exact leaves_name h

theorem madeOf_of_run {rounds : ℕ} {mem : List Char} {left : ℕ} {ts : List LexerToken}
    (h : run rounds mem left = .ok ts) : ∀ t ∈ ts, MadeOf mem t := by
  induction rounds generalizing mem left ts with
  | zero =>
    cases left with
    | zero =>
      cases h
      exact fun t ht ↦ absurd ht List.not_mem_nil
    | succ left => cases h
  | succ rounds ih =>
    cases left with
    | zero =>
      rw [run_zero] at h
      cases h
      exact fun t ht ↦ absurd ht List.not_mem_nil
    | succ left =>
      rw [run_succ] at h
      cases hstep : step mem (left + 1) with
      | error e =>
        rw [hstep] at h
        cases h
      | ok r =>
        rw [hstep] at h
        have hleaves := leaves_step hstep
        change (run rounds r.mem r.left).bind _ = _ at h
        cases hrun : run rounds r.mem r.left with
        | error e =>
          rw [hrun] at h
          cases h
        | ok ts' =>
          rw [hrun] at h
          cases h
          intro t ht
          rcases List.mem_append.mp ht with ht | ht
          · exact hleaves.madeOf t (Option.mem_toList.mp ht)
          · exact (ih hrun t ht).mono hleaves.suffix.subset

/-- The tokens of a text are made of its characters. -/
theorem madeOf_of_tokens {text : List Char} {ts : List LexerToken} (h : tokens text = .ok ts) :
    ∀ t ∈ ts, MadeOf (text ++ ['\x00']) t :=
  madeOf_of_run h

end Tokenizer

end Ixion
