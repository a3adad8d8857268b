import Ixion.Lexer.Pieces
import Ixion.Lib.Format

/-!
# Integers in formulas

An integer that is written in a formula becomes the value of a token, which is printed with six
significant digits.  A number with more digits is printed with an exponent, which the tokenizer
does not know: it takes the letter for the beginning of a name.
-/

namespace Ixion

open Lib.Strtod Lib.Format

/-- Print the value of a token. -/
def printValue (v : ℚ) : List Char := format 6 v

/-- An integer as it is written in a formula, which a floating-point number represents. -/
structure IntegerLiteral where
  digits : List Char
  ne_nil : digits ≠ []
  isDigit : ∀ c ∈ digits, c.isDigit = true
  le : ofDigitList 10 digits ≤ 2 ^ 53

/-- The number that an integer literal stands for. -/
def IntegerLiteral.value (l : IntegerLiteral) : ℕ := ofDigitList 10 l.digits

/-- The tokens of a text that ends with a null character. -/
def tokens (text : List Char) : Except LexFailure (List LexerToken) := tokenize text ['\x00']

/-- A literal is one value token, and so is what that is printed as, with the same number. -/
def IntegerLiteral.Survives (l : IntegerLiteral) : Prop :=
  tokens l.digits = .ok [.value (some l.value)] ∧
    tokens (printValue l.value) = .ok [.value (some l.value)]

namespace Tokenizer

/-! ## Rounds -/

theorem run_zero (rounds : ℕ) (mem : List Char) : run rounds mem 0 = .ok [] := by
  cases rounds <;> rfl

theorem run_succ (rounds : ℕ) (mem : List Char) (left : ℕ) :
    run (rounds + 1) mem (left + 1) =
      (step mem (left + 1)).bind fun r ↦
        (run rounds r.mem r.left).bind fun tokens ↦ .ok (r.token.toList ++ tokens) := rfl

/-- Digits belong to a numeral. -/
theorem numeralLoop_digits {ds : List Char} (h : ∀ c ∈ ds, c.isDigit = true) (sepCount len : ℕ)
    (mem : List Char) (left : ℕ) :
    numeralLoop sepCount len (ds ++ mem) (ds.length + left) =
      numeralLoop sepCount (len + ds.length) mem left := by
  induction ds generalizing len with
  | nil => simp
  | cons c ds ih =>
    have hc := h c List.mem_cons_self
    have hcolon : c ≠ ':' := by
      rintro rfl
      exact nomatch hc
    rw [List.length_cons, Nat.succ_add, List.cons_append, numeralLoop_cons, if_neg hcolon,
      if_pos hc, ih fun d hd ↦ h d (List.mem_cons_of_mem c hd)]
    congr 1
    omega

/-- A numeral is the first token of a text that begins with a digit. -/
theorem step_digit {c : Char} (hc : c.isDigit = true) {cs mem : List Char} {left : ℕ}
    {sepCount : ℕ} (hsep : sepCount ≤ 1) {left' : ℕ}
    (h : numeralLoop 0 1 (cs ++ mem) left = .ok (some (sepCount, ⟨1 + cs.length, mem, left'⟩))) :
    step (c :: (cs ++ mem)) (left + 1) =
      match toDouble (c :: cs) mem with
      | none => .error .undefined
      | some val => .ok ⟨some (.value val), mem, left'⟩ := by
  have hend : numeralEnd (c :: (cs ++ mem)) (left + 1) =
      .ok (some ⟨1 + cs.length, mem, left'⟩) := by
    show (numeralLoop 0 1 (cs ++ mem) left >>= _) = _
    rw [h]
    show Except.ok (if sepCount > 1 then none else _) = _
    rw [if_neg (not_lt.mpr hsep)]
  have htake : (c :: (cs ++ mem)).take (1 + cs.length) = c :: cs := by
    rw [Nat.add_comm, List.take_succ_cons, List.take_left]
  have hdrop : (c :: (cs ++ mem)).drop (1 + cs.length) = mem := by
    rw [Nat.add_comm, List.drop_succ_cons, List.drop_left]
  have hnumeral := numeral_of_numeralEnd hend
  rw [htake, hdrop] at hnumeral
  rw [step_cons, if_pos hc]
  exact hnumeral

/-- A numeral ends in front of a letter, with at most one point. -/
theorem numeralLoop_fraction {frac : List Char}
    (h : frac = [] ∨ ∃ ds, frac = '.' :: ds ∧ ∀ c ∈ ds, c.isDigit = true) (mem : List Char)
    (left : ℕ) :
    ∃ sepCount ≤ 1, numeralLoop 0 1 (frac ++ 'e' :: mem) (frac.length + (left + 1)) =
      .ok (some (sepCount, ⟨1 + frac.length, 'e' :: mem, left + 1⟩)) := by
  rcases h with rfl | ⟨ds, rfl, hds⟩
  · refine ⟨0, Nat.zero_le 1, ?_⟩
    rw [List.length_nil, Nat.zero_add, List.nil_append]
    rfl
  · refine ⟨1, le_rfl, ?_⟩
    rw [List.length_cons, Nat.succ_add, List.cons_append, numeralLoop_cons]
    show numeralLoop 1 2 (ds ++ 'e' :: mem) (ds.length + (left + 1)) = _
    rw [numeralLoop_digits hds]
    show Except.ok (some (1, Scanned.mk (2 + ds.length) ('e' :: mem) (left + 1))) = _
    rw [show 2 + ds.length = 1 + (ds.length + 1) by omega]

/-- A letter is the beginning of a name, which is a token. -/
theorem run_letter_ne (rounds : ℕ) (mem : List Char) (left : ℕ) :
    run rounds ('e' :: mem) (left + 1) ≠ .ok [] := by
  cases rounds with
  | zero => exact nofun
  | succ rounds =>
    have hstep : step ('e' :: mem) (left + 1) =
        (nameLoop [] 0 ('e' :: mem) (left + 1)).bind fun r ↦
          .ok ⟨some (.name (('e' :: mem).take r.len)), r.mem, r.left⟩ := rfl
    rw [run_succ, hstep]
    cases nameLoop [] 0 ('e' :: mem) (left + 1) with
    | error e => exact nofun
    | ok r =>
      show (run rounds r.mem r.left).bind _ ≠ _
      cases run rounds r.mem r.left with
      | error e => exact nofun
      | ok rest => exact nofun

end Tokenizer

open Tokenizer

/-! ## Digits -/

/-- Digits in front of the end of a text are converted to the number they stand for. -/
theorem toDouble_digits {ds : List Char} (h : ∀ c ∈ ds, c.isDigit = true) (hne : ds ≠ []) :
    toDouble ds ['\x00'] = some (some ((ofDigitList 10 ds : ℕ) : ℚ)) := by
  let num : DecimalText := ⟨none, ds, none, h, by simp, by simpa using hne⟩
  have htext : num.text = ds := by
    simp [num, DecimalText.text, signed, pointed]
  have hvalue : num.value = ((ofDigitList 10 ds : ℕ) : ℚ) := by
    simp [num, DecimalText.value, DecimalText.abs, mantissa]
  have hnumeric : numericPrefix (num.text ++ [] ++ ['\x00']) =
      some ⟨some (mantissa 10 ds []), 10, 0, ['\x00']⟩ := by
    rw [List.append_nil, htext]
    exact numericPrefix_digits h hne (by decide) (by decide) (by decide) (by decide) []
  have hconvert : toDouble (num.text ++ []) ['\x00'] = some (some num.value) := by
    refine (@toDouble_eq_iff num [] (by simp) ['\x00']).mpr ⟨_, hnumeric, ?_⟩
    split
    case isTrue hzero =>
      rw [hvalue] at hzero
      simpa [mantissa] using hzero
    case isFalse => exact ⟨rfl, rfl⟩
  rwa [List.append_nil, htext, hvalue] at hconvert

/-- Digits are one value token. -/
theorem tokens_digits {ds : List Char} (h : ∀ c ∈ ds, c.isDigit = true) (hne : ds ≠ []) :
    tokens ds = .ok [.value (some ((ofDigitList 10 ds : ℕ) : ℚ))] := by
  obtain ⟨c, cs, rfl⟩ := List.exists_cons_of_ne_nil hne
  have hcs : ∀ d ∈ cs, d.isDigit = true := fun d hd ↦ h d (List.mem_cons_of_mem c hd)
  have hloop : numeralLoop 0 1 (cs ++ ['\x00']) cs.length =
      .ok (some (0, ⟨1 + cs.length, ['\x00'], 0⟩)) := by
    have hdigits := numeralLoop_digits hcs 0 1 ['\x00'] 0
    rw [Nat.add_zero] at hdigits
    rw [hdigits]
    rfl
  rw [tokens, tokenize, List.length_cons, List.cons_append, run_succ,
    step_digit (h c List.mem_cons_self) (by decide) hloop, toDouble_digits h hne]
  show ((run cs.length ['\x00'] 0).bind _) = _
  rw [run_zero]
  rfl

/-- The digits of a number stand for it. -/
theorem ofDigitList_toDigits (n : ℕ) : ofDigitList 10 (Nat.toDigits 10 n) = n := by
  have hdigits : ∀ ds : List Char, (∀ c ∈ ds, c.isDigit = true) → ∀ m,
      ds.foldl (fun n c ↦ 10 * n + hexDigit c) m = Nat.ofDigitChars 10 ds m := by
    intro ds h m
    induction ds generalizing m with
    | nil => rw [List.foldl_nil, Nat.ofDigitChars_nil]
    | cons c ds ih =>
      rw [List.foldl_cons, Nat.ofDigitChars_cons, ih fun d hd ↦ h d (List.mem_cons_of_mem c hd),
        hexDigit, if_pos (h c List.mem_cons_self)]
  rw [ofDigitList, hdigits _ fun c hc ↦ Nat.isDigit_of_mem_toDigits (by decide) (by decide) hc]
  exact Nat.ofDigitChars_ten_toDigits

/-- The digits of a number are one value token. -/
theorem tokens_toDigits (n : ℕ) : tokens (Nat.toDigits 10 n) = .ok [.value (some (n : ℚ))] := by
  rw [tokens_digits (fun c hc ↦ Nat.isDigit_of_mem_toDigits (by decide) (by decide) hc)
    Nat.toDigits_ne_nil, ofDigitList_toDigits]

/-- A number with an exponent is more than one value token, if it can be read at all. -/
theorem tokens_exponent_ne {d : Char} (hd : d.isDigit = true) {frac : List Char}
    (hfrac : frac = [] ∨ ∃ ds, frac = '.' :: ds ∧ ∀ c ∈ ds, c.isDigit = true) (exp : List Char)
    (v : Option ℚ) : tokens (d :: (frac ++ 'e' :: exp)) ≠ .ok [.value v] := by
  obtain ⟨sepCount, hsep, hloop⟩ := numeralLoop_fraction hfrac (exp ++ ['\x00']) exp.length
  have hlength : (d :: (frac ++ 'e' :: exp)).length = frac.length + (exp.length + 1) + 1 := by
    rw [List.length_cons, List.length_append, List.length_cons]
  rw [tokens, tokenize, hlength, List.cons_append, List.append_assoc, List.cons_append, run_succ,
    step_digit hd hsep hloop]
  cases toDouble (d :: frac) ('e' :: (exp ++ ['\x00'])) with
  | none => rintro ⟨⟩
  | some val =>
    show (run _ ('e' :: (exp ++ ['\x00'])) (exp.length + 1)).bind _ ≠ _
    have hne := run_letter_ne (frac.length + (exp.length + 1)) (exp ++ ['\x00']) exp.length
    cases hrun : run (frac.length + (exp.length + 1)) ('e' :: (exp ++ ['\x00']))
        (exp.length + 1) with
    | error e => rintro ⟨⟩
    | ok rest =>
      intro h
      have hrest := (List.cons.inj (Except.ok.inj h)).2
      exact hne (hrun.trans (congrArg _ hrest))

/-! ## Result -/

namespace IntegerLiteral

/-- A literal survives printing exactly when it is below the first number that has more than six
digits. -/
theorem survives_iff (l : IntegerLiteral) : l.Survives ↔ l.value < 10 ^ 6 := by
  have hliteral : tokens l.digits = .ok [.value (some l.value)] :=
    tokens_digits l.isDigit l.ne_nil
  rw [Survives, and_iff_right hliteral, printValue]
  rcases Nat.lt_or_ge l.value (10 ^ 6) with hlt | hge
  · refine iff_of_true ?_ hlt
    rw [format_natCast 6 hlt]
    exact tokens_toDigits l.value
  · refine iff_of_false ?_ (not_lt.mpr hge)
    obtain ⟨d, frac, e, hformat, hd, hfrac⟩ := format_natCast_of_le 6 hge
    rw [hformat, exponentText]
    exact tokens_exponent_ne hd hfrac _ _

/-- The number 1000000. -/
def million : IntegerLiteral :=
  ⟨['1', '0', '0', '0', '0', '0', '0'], by simp, by simp, by decide⟩

/-- The number 1000000 is printed as `1e+06`. -/
theorem not_survives : ¬ ∀ l : IntegerLiteral, l.Survives := by
  intro h
  have hprint : printValue million.value = ['1', 'e', '+', '0', '6'] := by
    decide +kernel
  have htokens := (h million).2
  rw [hprint] at htokens
  exact absurd htokens (by decide +kernel)

end IntegerLiteral

end Ixion
