import Mathlib.Algebra.Order.GroupWithZero.Basic
import Mathlib.Tactic.FieldSimp
import Ixion.Lib.Strtod

/-!
# Numbers in texts

A view of a text is converted to a number by `strtod`, which does not know where the view ends.
Where it does not stop just there, the digits of the view are added up by hand; but what `strtod`
has read is not dropped before.
-/

namespace Ixion

open Lib.Strtod

/-! ## The conversion -/

/-- The loop of `to_double` after the first character: the digits in front of and after a point are
added to a number. -/
def convertDigits (dot : Bool) (frac val : ℚ) : List Char → ℚ
  | [] => val
  | c :: cs =>
    if c = '.' then
      -- a second dot is not allowed
      if dot then val else convertDigits true frac val cs
    else if !c.isDigit then val
    else
      let digit : ℚ := hexDigit c
      if dot then
        let frac := frac * (1 / 10)
        convertDigits dot frac (val + digit * frac) cs
      else convertDigits dot frac (val * 10 + digit) cs

/-- The conversion by hand, which starts from a number. -/
def convert (val : ℚ) (s : List Char) : ℚ :=
  let (negative, cs) := sign s
  (if negative then -1 else 1) * convertDigits false 1 val cs

/-- Convert a view of a text, given what is in memory behind it.  Without a value, memory behind
that is read, too; without a number, the value is infinite or not a number, and stays so. -/
def toDouble (s beyond : List Char) : Option (Option ℚ) :=
  if s.isEmpty then some (some 0)
  else do
    let (val, len) ← strtod (s ++ beyond)
    if len = s.length then return val
    return val.map fun val ↦ convert val s

/-! ## Numbers at the beginning of a text -/

/-- A number as it is written: a sign, and digits with a point. -/
structure DecimalText where
  sign : Option Bool
  int : List Char
  frac : Option (List Char)
  int_digits : ∀ c ∈ int, c.isDigit = true
  frac_digits : ∀ c ∈ frac.getD [], c.isDigit = true
  ne_nil : int ++ frac.getD [] ≠ []

namespace DecimalText

variable (num : DecimalText)

/-- The characters of a number. -/
def text : List Char := signed num.sign ++ pointed num.int num.frac

/-- Its value without the sign. -/
def abs : ℚ := mantissa 10 num.int (num.frac.getD [])

/-- Its value. -/
def value : ℚ := if num.sign.getD false then -num.abs else num.abs

theorem text_ne_nil : num.text ≠ [] := by
  obtain ⟨c, cs, htext, -⟩ := exists_cons_pointed num.int_digits num.frac_digits num.ne_nil []
  rw [List.append_nil] at htext
  rw [text, htext]
  simp

theorem value_eq_zero_iff : num.value = 0 ↔ num.abs = 0 := by
  unfold value
  split
  · exact neg_eq_zero
  · exact Iff.rfl

end DecimalText

/-! ## The conversion by hand -/

/-- The digits after a point are added as fractions. -/
theorem convertDigits_frac {ds : List Char} (h : ∀ c ∈ ds, c.isDigit = true) (frac val : ℚ)
    {rest : List Char} (hrest : ∀ c ∈ rest.head?, c.isDigit = false ∧ c ≠ '.') :
    convertDigits true frac val (ds ++ rest) =
      val + frac * ((ofDigitList 10 ds : ℚ) / 10 ^ ds.length) := by
  induction ds generalizing frac val with
  | nil =>
    cases rest with
    | nil => simp [convertDigits, ofDigitList]
    | cons c cs =>
      obtain ⟨hdigit, hpoint⟩ := hrest c rfl
      simp [convertDigits, ofDigitList, hdigit, hpoint]
  | cons c ds ih =>
    have hc := h c List.mem_cons_self
    have hpoint : c ≠ '.' := by
      rintro rfl
      cases hc
    rw [List.cons_append, convertDigits, if_neg hpoint, if_neg (by simp [hc]), if_pos rfl,
      ih fun d hd ↦ h d (List.mem_cons_of_mem c hd), ofDigitList_cons, List.length_cons]
    have hpow : (10 : ℚ) ^ ds.length ≠ 0 := pow_ne_zero _ (by decide)
    push_cast
    field_simp
    ring

/-- The digits in front of a point are added with what follows. -/
theorem convertDigits_int {ds : List Char} (h : ∀ c ∈ ds, c.isDigit = true) (val : ℚ)
    (rest : List Char) :
    convertDigits false 1 val (ds ++ rest) =
      convertDigits false 1 (val * 10 ^ ds.length + ofDigitList 10 ds) rest := by
  induction ds generalizing val with
  | nil => simp [ofDigitList]
  | cons c ds ih =>
    have hc := h c List.mem_cons_self
    have hpoint : c ≠ '.' := by
      rintro rfl
      cases hc
    rw [List.cons_append, convertDigits, if_neg hpoint, if_neg (by simp [hc]), if_neg (by simp),
      ih fun d hd ↦ h d (List.mem_cons_of_mem c hd), ofDigitList_cons, List.length_cons]
    push_cast
    ring_nf

/-- By hand, the number at the beginning of a text is converted, and what is started from is
shifted by the digits in front of the point. -/
theorem convert_text (num : DecimalText) (val : ℚ) {rest : List Char}
    (hrest : ∀ c ∈ rest.head?, c.isDigit = false ∧ c ≠ '.') :
    convert val (num.text ++ rest) =
      (if num.sign.getD false then -1 else 1) * (val * 10 ^ num.int.length + num.abs) := by
  obtain ⟨c, cs, htext, hc⟩ :=
    exists_cons_pointed num.int_digits num.frac_digits num.ne_nil rest
  rw [convert, DecimalText.text, List.append_assoc, htext, sign_signed _ hc, ← htext]
  dsimp only
  congr 1
  rw [pointed, List.append_assoc, convertDigits_int num.int_digits, DecimalText.abs, mantissa,
    ofDigitList_append]
  have hdigits := num.frac_digits
  cases hfrac : num.frac with
  | none =>
    rw [Option.elim_none, List.nil_append, Option.getD_none, List.length_nil, pow_zero, pow_zero,
      div_one, mul_one, show ofDigitList 10 [] = 0 from rfl, add_zero]
    cases rest with
    | nil => rfl
    | cons c cs =>
      obtain ⟨hdigit, hpoint⟩ := hrest c rfl
      rw [convertDigits, if_neg hpoint, if_pos (by simp [hdigit])]
  | some fr =>
    rw [hfrac, Option.getD_some] at hdigits
    rw [Option.elim_some, List.cons_append, convertDigits, if_pos rfl, if_neg (by simp),
      convertDigits_frac hdigits _ _ hrest, Option.getD_some]
    have hpow : (10 : ℚ) ^ fr.length ≠ 0 := pow_ne_zero _ (by decide)
    push_cast
    field_simp
    ring

/-! ## Result -/

section Result

variable (num : DecimalText) {rest : List Char}
  (hrest : ∀ c ∈ rest.head?, c.isDigit = false ∧ c ≠ '.') (beyond : List Char)

/-- What is converted: what `strtod` reads if it stops where the view ends, and otherwise what is
converted by hand from there. -/
theorem toDouble_text (rest beyond : List Char) :
    toDouble (num.text ++ rest) beyond =
      (numericPrefix (num.text ++ rest ++ beyond)).map fun r ↦
        if r.rest.length = beyond.length then r.value
        else r.value.map fun val ↦ convert val (num.text ++ rest) := by
  have hne : num.text ++ rest ≠ [] := by
    simp [num.text_ne_nil]
  have hpos := List.length_pos_iff.mpr hne
  rw [toDouble, if_neg (by simpa using hne), strtod]
  cases numericPrefix (num.text ++ rest ++ beyond) with
  | none => rfl
  | some r =>
    have hlen : (num.text ++ rest ++ beyond).length - r.rest.length =
        (num.text ++ rest).length ↔ r.rest.length = beyond.length := by
      rw [List.length_append]
      omega
    show (if _ = (num.text ++ rest).length then _ else _) = some (if _ then _ else _)
    by_cases h : r.rest.length = beyond.length
    · rw [if_pos h, if_pos (hlen.mpr h)]
      rfl
    · rw [if_neg h, if_neg fun heq ↦ h (hlen.mp heq)]
      rfl

/-- A number is zero if its mantissa is. -/
theorem value_eq_some_zero_iff (r : Numeric) : r.value = some 0 ↔ r.mantissa = some 0 := by
  have hpow : ((r.base : ℕ) : ℚ) ^ r.exponent ≠ 0 :=
    zpow_ne_zero _ (Nat.cast_ne_zero.mpr r.base.ne_zero)
  rw [Numeric.value]
  cases r.mantissa with
  | none => simp
  | some m => simp [hpow]

include hrest

/-- The conversion by hand yields the number only when it starts from zero. -/
theorem convert_text_eq_iff {val : ℚ} : convert val (num.text ++ rest) = num.value ↔ val = 0 := by
  have hpow : (10 : ℚ) ^ num.int.length ≠ 0 := pow_ne_zero _ (by decide)
  rw [convert_text num val hrest, DecimalText.value]
  split
  · rw [neg_one_mul, neg_inj, add_eq_right, mul_eq_zero, or_iff_left hpow]
  · rw [one_mul, add_eq_right, mul_eq_zero, or_iff_left hpow]

/-- Zero is converted to zero exactly when `strtod` reads a zero. -/
theorem converted_zero_iff (hzero : num.value = 0) {r : Numeric} :
    (if r.rest.length = beyond.length then r.value
      else r.value.map fun val ↦ convert val (num.text ++ rest)) = some 0 ↔
      r.mantissa = some 0 := by
  rw [← value_eq_some_zero_iff]
  split
  · exact Iff.rfl
  · rw [Option.map_eq_some_iff]
    constructor
    · rintro ⟨val, hval, hconvert⟩
      rw [← hzero, convert_text_eq_iff num hrest] at hconvert
      rw [hval, hconvert]
    · intro hval
      exact ⟨0, hval, ((convert_text_eq_iff num hrest).mpr rfl).trans hzero⟩

/-- Where `strtod` stops at the end of the view, it has read the digits of the number and no
others. -/
theorem digits_eq_of_length_eq {r : Numeric} {i f p : List Char}
    (hread : (p = rest ++ beyond ∧ i = num.int ∧ f = num.frac.getD []) ∨
      (p.length < (rest ++ beyond).length ∧
        ∃ c ∈ (rest ++ beyond).head?, c.isDigit = true ∨ c = '.'))
    (hexponent : readExponent 'e' p = some (r.exponent, r.rest))
    (hlen : r.rest.length = beyond.length) : i = num.int ∧ f = num.frac.getD [] := by
  rcases hread with ⟨-, hi, hf⟩ | ⟨hshort, c, hc, hcontinues⟩
  · exact ⟨hi, hf⟩
  cases rest with
  | nil =>
    rw [List.nil_append] at hshort
    rcases readExponent_eq_some hexponent with ⟨-, heq⟩ | hlt
    · rw [heq] at hlen
      omega
    · omega
  | cons d ds =>
    obtain rfl : d = c := Option.some_inj.mp hc
    obtain ⟨hdigit, hpoint⟩ := hrest d rfl
    rw [hdigit] at hcontinues
    exact absurd hcontinues (by simp [hpoint])

/-- A view of a text is converted to the number at its beginning exactly when, for a zero, what
`strtod` reads has a mantissa that is zero, and otherwise, when `strtod` stops just where the view
ends, without an exponent other than zero. -/
theorem toDouble_eq_iff :
    toDouble (num.text ++ rest) beyond = some (some num.value) ↔
      ∃ r, numericPrefix (num.text ++ rest ++ beyond) = some r ∧
        if num.value = 0 then r.mantissa = some 0
        else r.rest.length = beyond.length ∧ r.exponent = 0 := by
  rw [toDouble_text, Option.map_eq_some_iff]
  refine exists_congr fun r ↦ and_congr_right fun hr ↦ ?_
  rw [DecimalText.text, List.append_assoc, List.append_assoc] at hr
  by_cases hzero : num.value = 0
  · rw [if_pos hzero, hzero]
    exact converted_zero_iff num hrest beyond hzero
  rw [if_neg hzero]
  have habs : ofDigitList 10 (num.int ++ num.frac.getD []) ≠ 0 :=
    fun h ↦ hzero (num.value_eq_zero_iff.mpr (mantissa_eq_zero_iff.mpr h))
  rcases numericPrefix_pointed num.int_digits num.frac_digits num.ne_nil hr with
    ⟨hint, hfrac, -⟩ | ⟨i, f, p, hdigits, hexponent, hbase, hmantissa⟩
  · -- a zero
    refine absurd ?_ habs
    rw [hint, hfrac]
    decide
  obtain ⟨i', f', p', ext, hsome, hext, hread⟩ :=
    readDigits_pointed num.int_digits num.frac_digits num.ne_nil hdigits
  obtain ⟨rfl, rfl, rfl⟩ : i = i' ∧ f = f' ∧ p = p' := by
    simpa only [Option.some_inj, Prod.mk.injEq] using hsome
  have hne : ofDigitList 10 (i ++ f) ≠ 0 := by
    rw [hext]
    exact fun h ↦ habs (ofDigitList_append_eq_zero (by decide) h)
  by_cases hlen : r.rest.length = beyond.length
  · -- where strtod stops at the end of the view, it has read the number
    rw [if_pos hlen, and_iff_right hlen]
    obtain ⟨rfl, rfl⟩ := digits_eq_of_length_eq num hrest beyond hread hexponent hlen
    have hvalue : r.value = some (num.value * (10 : ℚ) ^ r.exponent) := by
      rw [Numeric.value, hmantissa, hbase]
      rfl
    rw [hvalue, Option.some_inj, mul_eq_left₀ hzero]
    exact zpow_eq_one_iff_right₀ (by decide) (by decide)
  · -- otherwise the number is added to what strtod has read
    rw [if_neg hlen]
    refine iff_of_false (fun h ↦ ?_) fun h ↦ hlen h.1
    obtain ⟨val, hval, hconvert⟩ := Option.map_eq_some_iff.mp h
    obtain rfl := (convert_text_eq_iff num hrest).mp hconvert
    rw [value_eq_some_zero_iff, hmantissa, Option.some_inj] at hval
    refine hne (mantissa_eq_zero_iff.mp ?_)
    split at hval
    · exact neg_eq_zero.mp hval
    · exact hval

end Result

/-- The number 12. -/
def twelve : DecimalText := ⟨none, ['1', '2'], none, by simp, by simp, by simp⟩

/-- The number 12 in front of a semicolon. -/
theorem toDouble_twelve :
    toDouble (twelve.text ++ []) [';', '\x00'] = some (some twelve.value) ↔
      ∃ r, numericPrefix (twelve.text ++ [] ++ [';', '\x00']) = some r ∧
        if twelve.value = 0 then r.mantissa = some 0
        else r.rest.length = [';', '\x00'].length ∧ r.exponent = 0 :=
  toDouble_eq_iff twelve (by simp) _

/-- The view `12abc` is converted to 1212. -/
theorem not_toDouble_text :
    ¬ ∀ (num : DecimalText) (rest beyond : List Char),
      (∀ c ∈ rest.head?, c.isDigit = false ∧ c ≠ '.') → '\x00' ∈ beyond →
        toDouble (num.text ++ rest) beyond = some (some num.value) := by
  intro h
  have htwelve := h twelve ['a', 'b', 'c'] ['\x00'] (by simp) (by simp)
  have hval : toDouble (twelve.text ++ ['a', 'b', 'c']) ['\x00'] = some (some 1212) := by
    decide +kernel
  have hvalue : twelve.value = 12 := by
    decide +kernel
  rw [hval, hvalue] at htwelve
  exact absurd htwelve (by decide)

end Ixion
