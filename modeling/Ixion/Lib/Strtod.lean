import Mathlib.Algebra.Order.Field.Rat
import Mathlib.Data.List.Basic
import Mathlib.Data.PNat.Notation
import Mathlib.Tactic.Ring

/-!
# The numeric prefix of a text

`strtod` reads the longest prefix of a text that has the form of a number: blanks, a sign, and
either decimal digits with a point and an exponent, or hexadecimal ones after `0x`, or a name of an
infinity or of what is not a number.  It is given the characters in memory from a pointer on; it
looks at one after another until it can tell that the prefix ends, and has no result when the last
one is not enough.
-/

namespace Ixion.Lib.Strtod

/-! ## Scanning -/

/-- The longest prefix of characters of a kind, and what follows it. -/
def span (kind : Char → Bool) : List Char → Option (List Char × List Char)
  | [] => none
  | c :: cs => if kind c then (span kind cs).map fun r ↦ (c :: r.1, r.2) else some ([], c :: cs)

/-- Characters that are read as blanks. -/
def isSpace (c : Char) : Bool := c ∈ [' ', '\t', '\n', '\x0b', '\x0c', '\r']

/-- Whether a character is a hexadecimal digit. -/
def isHexDigit (c : Char) : Bool := c.isDigit || ('a' ≤ c.toLower && c.toLower ≤ 'f')

/-- The number that a hexadecimal digit stands for. -/
def hexDigit (c : Char) : ℕ :=
  if c.isDigit then c.toNat - '0'.toNat else c.toLower.toNat - 'a'.toNat + 10

/-- The number that digits stand for. -/
def ofDigitList (base : ℕ) (ds : List Char) : ℕ := ds.foldl (fun n c ↦ base * n + hexDigit c) 0

/-- A sign, and what follows it. -/
def sign : List Char → Bool × List Char
  | '-' :: cs => (true, cs)
  | '+' :: cs => (false, cs)
  | cs => (false, cs)

/-- A word in either case, and what follows it; up to where the text differs. -/
def word : List Char → List Char → Option (Option (List Char))
  | [], p => some (some p)
  | _ :: _, [] => none
  | w :: ws, c :: cs => if c.toLower = w then word ws cs else some none

/-! ## Numbers -/

/-- A number that has been read: its mantissa, which is missing if it is not a number, the base and
the value of its exponent, and what follows it. -/
structure Numeric where
  mantissa : Option ℚ
  base : ℕ+
  exponent : ℤ
  rest : List Char

/-- The value of a number. -/
def Numeric.value (r : Numeric) : Option ℚ :=
  r.mantissa.map fun m ↦ m * ((r.base : ℕ) : ℚ) ^ r.exponent

/-- The digits before and after a point, and what follows them, if there are digits. -/
def readDigits (kind : Char → Bool) (p : List Char) :
    Option (Option (List Char × List Char × List Char)) := do
  let (int, p) ← span kind p
  let c ← p.head?
  if c = '.' then
    let (frac, p) ← span kind p.tail
    if int = [] ∧ frac = [] then return none
    return some (int, frac, p)
  else if int = [] then return none
  else return some (int, [], p)

/-- The value of digits before and after a point. -/
def mantissa (base : ℕ) (int frac : List Char) : ℚ :=
  (ofDigitList base (int ++ frac) : ℚ) / (base : ℚ) ^ frac.length

/-- An exponent after a letter, and what follows it; without digits it is not read. -/
def readExponent (letter : Char) (p : List Char) : Option (ℤ × List Char) := do
  let c ← p.head?
  if c.toLower = letter then
    let _ ← p.tail.head?
    let (negative, q) := sign p.tail
    let (ds, rest) ← span Char.isDigit q
    if ds = [] then return (0, p)
    return (if negative then -(ofDigitList 10 ds : ℤ) else ofDigitList 10 ds, rest)
  else return (0, p)

/-- A number with a mantissa in one base and an exponent of another one. -/
def readNumber (kind : Char → Bool) (base : ℕ) (letter : Char) (expBase : ℕ+) (p : List Char) :
    Option (Option Numeric) := do
  match ← readDigits kind p with
  | none => return none
  | some (int, frac, p) =>
    let (exponent, rest) ← readExponent letter p
    return some ⟨some (mantissa base int frac), expBase, exponent, rest⟩

/-- A decimal number. -/
def readDecimal (p : List Char) : Option (Option Numeric) := readNumber Char.isDigit 10 'e' 10 p

/-- An infinity. -/
def readInfinity (p : List Char) : Option (Option Numeric) := do
  match ← word ['i', 'n', 'f'] p with
  | none => return none
  | some p =>
    match ← word ['i', 'n', 'i', 't', 'y'] p with
    | none => return some ⟨none, 10, 0, p⟩
    | some p => return some ⟨none, 10, 0, p⟩

/-- What is not a number, with characters in parentheses. -/
def readNan (p : List Char) : Option (Option Numeric) := do
  match ← word ['n', 'a', 'n'] p with
  | none => return none
  | some p =>
    let c ← p.head?
    if c = '(' then
      let (_, q) ← span (fun c ↦ c.isAlphanum || c = '_') p.tail
      let c ← q.head?
      if c = ')' then return some ⟨none, 10, 0, q.tail⟩
      return some ⟨none, 10, 0, p⟩
    else return some ⟨none, 10, 0, p⟩

/-- What is read after blanks and a sign. -/
def readSubject (p : List Char) : Option (Option Numeric) := do
  let c ← p.head?
  if c = '0' then
    let c ← p.tail.head?
    if c.toLower = 'x' then
      match ← readNumber isHexDigit 16 'p' 2 p.tail.tail with
      | some r => return some r
      | none => return some ⟨some 0, 10, 0, p.tail⟩
    else readDecimal p
  else if c.isDigit ∨ c = '.' then readDecimal p
  else if c.toLower = 'i' then readInfinity p
  else if c.toLower = 'n' then readNan p
  else return none

/-- The number at the beginning of a text; zero and nothing of the text if there is none. -/
def numericPrefix (p : List Char) : Option Numeric := do
  let (_, q) ← span isSpace p
  let _ ← q.head?
  let (negative, q) := sign q
  match ← readSubject q with
  | some r => return if negative then { r with mantissa := r.mantissa.map (-·) } else r
  | none => return ⟨some 0, 10, 0, p⟩

/-- The value of the number at the beginning of a text, and how long that number is. -/
def strtod (p : List Char) : Option (Option ℚ × ℕ) := do
  let r ← numericPrefix p
  return (r.value, p.length - r.rest.length)

/-- The decimal integer at the beginning of a text, which is as near to its value as 64 bits are, if
there is one.  It is read as `strtod` reads, with blanks and a sign in front. -/
def strtol (p : List Char) : Option (Option ℤ) := do
  let (_, q) ← span isSpace p
  let (negative, q) := sign q
  let (ds, _) ← span Char.isDigit q
  if ds = [] then return none
  let n : ℤ := if negative then -(ofDigitList 10 ds : ℤ) else ofDigitList 10 ds
  return some (max (-2 ^ 63) (min (2 ^ 63 - 1) n))

example : strtod "-12.5e1;".toList = some (some (-125), 7) := by decide +kernel

/-! ## Spans -/

section Span

variable {kind : Char → Bool} {ds p r : List Char}

/-- Characters of a kind belong to the longest prefix. -/
theorem span_append (h : ∀ c ∈ ds, kind c = true) (p : List Char) :
    span kind (ds ++ p) = (span kind p).map fun r ↦ (ds ++ r.1, r.2) := by
  induction ds with
  | nil => simp
  | cons c ds ih =>
    rw [List.cons_append, span, if_pos (h c List.mem_cons_self),
      ih fun d hd ↦ h d (List.mem_cons_of_mem c hd), Option.map_map]
    rfl

/-- The longest prefix ends before a character of another kind. -/
theorem span_cons_of_not {c : Char} (h : kind c = false) (cs : List Char) :
    span kind (c :: cs) = some ([], c :: cs) := by
  rw [span, if_neg (by rw [h]; exact nofun)]

theorem span_eq_some (h : span kind p = some (ds, r)) :
    p = ds ++ r ∧ (∀ c ∈ ds, kind c = true) ∧ ∃ c cs, r = c :: cs ∧ kind c = false := by
  induction p generalizing ds with
  | nil => exact nomatch h
  | cons c p ih =>
    rw [span] at h
    split at h
    case isTrue hc =>
      obtain ⟨⟨ds', r'⟩, hspan, heq⟩ := Option.map_eq_some_iff.mp h
      cases heq
      obtain ⟨rfl, hds, hr⟩ := ih hspan
      refine ⟨rfl, fun d hd ↦ ?_, hr⟩
      rcases List.mem_cons.mp hd with rfl | hd
      · exact hc
      · exact hds d hd
    case isFalse hc =>
      cases h
      exact ⟨rfl, fun d hd ↦ absurd hd List.not_mem_nil, c, p, rfl, by simpa using hc⟩

/-- The longest prefix is empty, or characters of the kind come first. -/
theorem span_empty_or_less (h : span kind p = some (ds, r)) :
    (ds = [] ∧ r = p) ∨ (r.length < p.length ∧ ∃ c ∈ p.head?, kind c = true) := by
  obtain ⟨rfl, hds, -⟩ := span_eq_some h
  cases ds with
  | nil => exact .inl ⟨rfl, rfl⟩
  | cons c ds =>
    refine .inr ⟨?_, c, rfl, hds c List.mem_cons_self⟩
    rw [List.length_append, List.length_cons]
    omega

end Span

/-! ## Digits -/

theorem toLower_ofNat : ∀ n < 58, 48 ≤ n → (Char.ofNat n).toLower = Char.ofNat n := by
  decide

/-- A digit is in neither case. -/
theorem toLower_of_isDigit {c : Char} (h : c.isDigit = true) : c.toLower = c := by
  simp only [Char.isDigit, Bool.and_eq_true, decide_eq_true_eq, UInt32.le_iff_toNat_le] at h
  have hlower := toLower_ofNat c.toNat (Nat.lt_succ_of_le h.2) h.1
  rwa [Char.ofNat_toNat] at hlower

theorem foldl_ofDigitList (base : ℕ) (ds : List Char) (n : ℕ) :
    ds.foldl (fun n c ↦ base * n + hexDigit c) n =
      n * base ^ ds.length + ofDigitList base ds := by
  rw [ofDigitList]
  induction ds generalizing n with
  | nil => simp
  | cons c ds ih =>
    rw [List.foldl_cons, List.foldl_cons, ih, ih (base * 0 + hexDigit c), List.length_cons]
    ring

theorem ofDigitList_append (base : ℕ) (ds ds' : List Char) :
    ofDigitList base (ds ++ ds') =
      ofDigitList base ds * base ^ ds'.length + ofDigitList base ds' := by
  rw [ofDigitList, List.foldl_append, foldl_ofDigitList, ← ofDigitList]

theorem ofDigitList_cons (base : ℕ) (c : Char) (ds : List Char) :
    ofDigitList base (c :: ds) = hexDigit c * base ^ ds.length + ofDigitList base ds := by
  rw [← List.singleton_append, ofDigitList_append]
  simp [ofDigitList]

/-- Digits that follow do not make a number zero. -/
theorem ofDigitList_append_eq_zero {base : ℕ} (hbase : 0 < base) {ds ds' : List Char}
    (h : ofDigitList base (ds ++ ds') = 0) : ofDigitList base ds = 0 := by
  rw [ofDigitList_append] at h
  have hpow : 0 < base ^ ds'.length := Nat.pow_pos hbase
  exact (Nat.mul_eq_zero.mp (Nat.eq_zero_of_add_eq_zero_right h)).resolve_right hpow.ne'

theorem mantissa_eq_zero_iff {int frac : List Char} :
    mantissa 10 int frac = 0 ↔ ofDigitList 10 (int ++ frac) = 0 := by
  have hpow : ((10 : ℕ) : ℚ) ^ frac.length ≠ 0 := pow_ne_zero _ (by decide)
  rw [mantissa, div_eq_zero_iff, or_iff_left hpow, Nat.cast_eq_zero]

/-! ## Digits with a point -/

/-- Digits, and a point with digits if there is one. -/
def pointed (int : List Char) (frac : Option (List Char)) : List Char :=
  int ++ frac.elim [] ('.' :: ·)

/-- What is read after digits depends on whether a point comes next. -/
theorem readDigits_of_span {kind : Char → Bool} {p int cs : List Char} {c : Char}
    (h : span kind p = some (int, c :: cs)) :
    readDigits kind p =
      if c = '.' then
        (span kind cs).map fun r ↦ if int = [] ∧ r.1 = [] then none else some (int, r.1, r.2)
      else if int = [] then some none else some (some (int, [], c :: cs)) := by
  rw [readDigits, h]
  show (if c = '.' then (span kind cs).bind _ else if int = [] then _ else _) = _
  by_cases hpoint : c = '.'
  · rw [if_pos hpoint, if_pos hpoint]
    cases span kind cs with
    | none => rfl
    | some r =>
      show (if int = [] ∧ r.1 = [] then _ else _) = some (if int = [] ∧ r.1 = [] then _ else _)
      split <;> rfl
  · rw [if_neg hpoint, if_neg hpoint]
    split <;> rfl

section Pointed

variable {int : List Char} {frac : Option (List Char)}
  (hint : ∀ c ∈ int, c.isDigit = true) (hfrac : ∀ c ∈ frac.getD [], c.isDigit = true)
  (hne : int ++ frac.getD [] ≠ [])

include hint hfrac hne

/-- Digits with a point are read, and more if they go on. -/
theorem readDigits_pointed {more : List Char} {r : Option (List Char × List Char × List Char)}
    (h : readDigits Char.isDigit (pointed int frac ++ more) = some r) :
    ∃ i f rest ext, r = some (i, f, rest) ∧ i ++ f = int ++ frac.getD [] ++ ext ∧
      ((rest = more ∧ i = int ∧ f = frac.getD []) ∨
        (rest.length < more.length ∧ ∃ c ∈ more.head?, c.isDigit = true ∨ c = '.')) := by
  rw [pointed, List.append_assoc] at h
  cases frac with
  | none =>
    rw [Option.elim_none, List.nil_append] at h
    rw [Option.getD_none, List.append_nil] at hne ⊢
    cases hspan : span Char.isDigit more with
    | none =>
      rw [readDigits, span_append hint, hspan] at h
      exact nomatch h
    | some s =>
      obtain ⟨i₂, p⟩ := s
      have hless := span_empty_or_less hspan
      obtain ⟨rfl, -, c, cs, rfl, -⟩ := span_eq_some hspan
      have hspan' : span Char.isDigit (int ++ (i₂ ++ c :: cs)) = some (int ++ i₂, c :: cs) := by
        rw [span_append hint, hspan]
        rfl
      have hnil : int ++ i₂ ≠ [] := fun hnil ↦ hne (List.append_eq_nil_iff.mp hnil).1
      rw [readDigits_of_span hspan'] at h
      by_cases hpoint : c = '.'
      · -- a point that follows is read, too
        rw [if_pos hpoint] at h
        obtain ⟨⟨f, q⟩, hspanf, heq⟩ := Option.map_eq_some_iff.mp h
        obtain ⟨rfl, -, -⟩ := span_eq_some hspanf
        rw [if_neg fun hboth ↦ hnil hboth.1] at heq
        refine ⟨int ++ i₂, f, q, i₂ ++ f, heq.symm, List.append_assoc .., .inr ⟨?_, ?_⟩⟩
        · simp only [List.length_append, List.length_cons]
          omega
        · rcases hless with ⟨rfl, -⟩ | ⟨-, d, hd, hdigit⟩
          · exact ⟨c, rfl, .inr hpoint⟩
          · exact ⟨d, hd, .inl hdigit⟩
      · rw [if_neg hpoint, if_neg hnil] at h
        refine ⟨int ++ i₂, [], c :: cs, i₂, (Option.some_inj.mp h).symm, List.append_nil _, ?_⟩
        rcases hless with ⟨rfl, -⟩ | ⟨hlt, d, hd, hdigit⟩
        · exact .inl ⟨rfl, List.append_nil _, rfl⟩
        · exact .inr ⟨hlt, d, hd, .inl hdigit⟩
  | some fr =>
    rw [Option.getD_some] at hne hfrac ⊢
    have hspan' : span Char.isDigit (int ++ ('.' :: fr ++ more)) =
        some (int, '.' :: (fr ++ more)) := by
      rw [span_append hint, List.cons_append, span_cons_of_not (by decide), Option.map_some,
        List.append_nil]
    rw [Option.elim_some, readDigits_of_span hspan', if_pos rfl, span_append hfrac,
      Option.map_map] at h
    obtain ⟨⟨f₂, q⟩, hspan, heq⟩ := Option.map_eq_some_iff.mp h
    rw [Function.comp_apply, if_neg fun hboth ↦ hne (by
      rw [hboth.1, (List.append_eq_nil_iff.mp hboth.2).1, List.append_nil])] at heq
    refine ⟨int, fr ++ f₂, q, f₂, heq.symm, (List.append_assoc ..).symm, ?_⟩
    rcases span_empty_or_less hspan with ⟨rfl, rfl⟩ | ⟨hlt, d, hd, hdigit⟩
    · exact .inl ⟨rfl, rfl, List.append_nil _⟩
    · exact .inr ⟨hlt, d, hd, .inl hdigit⟩

/-- Digits with a point begin with a digit or with a point. -/
theorem exists_cons_pointed (more : List Char) :
    ∃ c cs, pointed int frac ++ more = c :: cs ∧ (c.isDigit = true ∨ c = '.') := by
  cases int with
  | cons c cs => exact ⟨c, _, rfl, .inl (hint c List.mem_cons_self)⟩
  | nil =>
    cases frac with
    | none => exact absurd rfl hne
    | some fr => exact ⟨'.', _, rfl, .inr rfl⟩

/-- Only a zero may be read as the beginning of a hexadecimal number. -/
theorem eq_zero_of_hex {more cs : List Char} {c : Char} (hc : c.toLower = 'x')
    (h : pointed int frac ++ more = '0' :: c :: cs) :
    int = ['0'] ∧ frac = none ∧ c ∈ more.head? := by
  have hdigit : c.isDigit ≠ true := by
    intro hdigit
    rw [toLower_of_isDigit hdigit] at hc
    subst hc
    exact nomatch hdigit
  have hpoint : c ≠ '.' := by
    rintro rfl
    exact absurd hc (by decide)
  cases int with
  | nil =>
    -- a text that begins with a point does not begin with a zero
    cases frac with
    | none => exact absurd rfl hne
    | some fr => exact absurd (List.cons.inj h).1 (by decide)
  | cons d int =>
    obtain ⟨rfl, htail⟩ := List.cons.inj h
    cases int with
    | cons d' int =>
      obtain rfl : d' = c := (List.cons.inj htail).1
      exact absurd (hint d' (by simp)) hdigit
    | nil =>
      cases frac with
      | some fr => exact absurd (List.cons.inj htail).1.symm hpoint
      | none =>
        refine ⟨rfl, rfl, ?_⟩
        change more = c :: cs at htail
        rw [htail]
        rfl

end Pointed

/-! ## Exponents -/

/-- Without its letter, there is no exponent. -/
theorem readExponent_of_ne {letter c : Char} (h : c.toLower ≠ letter) (cs : List Char) :
    readExponent letter (c :: cs) = some (0, c :: cs) := by
  show (if c.toLower = letter then _ else _) = _
  rw [if_neg h]
  rfl

theorem length_sign_le (p : List Char) : (sign p).2.length ≤ p.length := by
  unfold sign
  split
  · exact Nat.le_succ _
  · exact Nat.le_succ _
  · exact le_rfl

/-- An exponent is read, or the text is as it was. -/
theorem readExponent_eq_some {letter : Char} {p rest : List Char} {e : ℤ}
    (h : readExponent letter p = some (e, rest)) :
    (e = 0 ∧ rest = p) ∨ rest.length < p.length := by
  rw [readExponent] at h
  obtain ⟨c, hc, hletter⟩ := Option.bind_eq_some_iff.mp h
  obtain ⟨cs, rfl⟩ := List.head?_eq_some_iff.mp hc
  by_cases hlower : c.toLower = letter
  · rw [if_pos hlower] at hletter
    obtain ⟨d, -, hsign⟩ := Option.bind_eq_some_iff.mp hletter
    have hle := length_sign_le cs
    rw [List.tail_cons] at hsign
    generalize sign cs = s at hsign hle
    obtain ⟨negative, q⟩ := s
    obtain ⟨⟨ds, rest'⟩, hspan, hdigits⟩ := Option.bind_eq_some_iff.mp hsign
    obtain ⟨rfl, -, -⟩ := span_eq_some hspan
    dsimp only at hdigits hle
    by_cases hds : ds = []
    · rw [if_pos hds] at hdigits
      cases hdigits
      exact .inl ⟨rfl, rfl⟩
    · rw [if_neg hds] at hdigits
      cases hdigits
      rw [List.length_append] at hle
      refine .inr ?_
      rw [List.length_cons]
      omega
  · rw [if_neg hlower] at hletter
    cases hletter
    exact .inl ⟨rfl, rfl⟩

/-! ## The numeric prefix -/

/-- The text of a sign. -/
def signed : Option Bool → List Char
  | none => []
  | some true => ['-']
  | some false => ['+']

theorem sign_signed (s : Option Bool) {c : Char} (hc : c.isDigit = true ∨ c = '.')
    (cs : List Char) : sign (signed s ++ c :: cs) = (s.getD false, c :: cs) := by
  have hminus : c ≠ '-' := by
    rintro rfl
    exact absurd hc (by decide)
  have hplus : c ≠ '+' := by
    rintro rfl
    exact absurd hc (by decide)
  cases s with
  | some negative => cases negative <;> rfl
  | none =>
    show sign (c :: cs) = _
    unfold sign
    split
    case h_1 h => exact absurd (List.cons.inj h).1 hminus
    case h_2 h => exact absurd (List.cons.inj h).1 hplus
    case h_3 => rfl

/-- After a sign, the prefix is what is read of digits with a point. -/
theorem numericPrefix_signed (s : Option Bool) {c : Char} (hc : c.isDigit = true ∨ c = '.')
    (cs : List Char) :
    numericPrefix (signed s ++ c :: cs) = (readSubject (c :: cs)).map fun
      | some r => if s.getD false then { r with mantissa := r.mantissa.map (-·) } else r
      | none => ⟨some 0, 10, 0, signed s ++ c :: cs⟩ := by
  -- there are no blanks in front of the sign
  have hspan : span isSpace (signed s ++ c :: cs) = some ([], signed s ++ c :: cs) := by
    have hspace : isSpace c = false := by
      rw [isSpace, decide_eq_false_iff_not]
      intro hmem
      simp only [List.mem_cons, List.not_mem_nil, or_false] at hmem
      rcases hmem with rfl | rfl | rfl | rfl | rfl | rfl <;> exact absurd hc (by decide)
    cases s with
    | none => exact span_cons_of_not hspace cs
    | some negative =>
      cases negative
      · exact span_cons_of_not (by decide) _
      · exact span_cons_of_not (by decide) _
  have hhead : ∃ d, (signed s ++ c :: cs).head? = some d := by
    cases s with
    | none => exact ⟨c, rfl⟩
    | some negative => cases negative <;> exact ⟨_, rfl⟩
  obtain ⟨d, hd⟩ := hhead
  rw [numericPrefix, hspan]
  show ((signed s ++ c :: cs).head?.bind fun _ ↦
    (readSubject (sign (signed s ++ c :: cs)).2).bind fun
      | some r => some (if (sign (signed s ++ c :: cs)).1 then
          { r with mantissa := r.mantissa.map (-·) } else r)
      | none => some ⟨some 0, 10, 0, signed s ++ c :: cs⟩) = _
  rw [hd, sign_signed s hc]
  cases readSubject (c :: cs) with
  | none => rfl
  | some subject => cases subject <;> rfl

/-- The numeric prefix of a signed number with digits and a point: only a zero is read as the
beginning of a hexadecimal number; otherwise its digits and those that follow are read, and then an
exponent. -/
theorem numericPrefix_pointed {s : Option Bool} {int : List Char} {frac : Option (List Char)}
    (hint : ∀ c ∈ int, c.isDigit = true) (hfrac : ∀ c ∈ frac.getD [], c.isDigit = true)
    (hne : int ++ frac.getD [] ≠ []) {more : List Char} {r : Numeric}
    (h : numericPrefix (signed s ++ (pointed int frac ++ more)) = some r) :
    (int = ['0'] ∧ frac = none ∧ ∃ c ∈ more.head?, c.toLower = 'x') ∨
      ∃ i f rest, readDigits Char.isDigit (pointed int frac ++ more) = some (some (i, f, rest)) ∧
        readExponent 'e' rest = some (r.exponent, r.rest) ∧ r.base = 10 ∧
        r.mantissa = some (if s.getD false then -mantissa 10 i f else mantissa 10 i f) := by
  obtain ⟨c, cs, htext, hc⟩ := exists_cons_pointed hint hfrac hne more
  rw [htext] at h ⊢
  rw [numericPrefix_signed s hc] at h
  obtain ⟨subject, hsubject, hr⟩ := Option.map_eq_some_iff.mp h
  -- what is read of a decimal number
  have hdecimal : readDecimal (c :: cs) = some subject →
      ∃ i f rest, readDigits Char.isDigit (c :: cs) = some (some (i, f, rest)) ∧
        readExponent 'e' rest = some (r.exponent, r.rest) ∧ r.base = 10 ∧
        r.mantissa = some (if s.getD false then -mantissa 10 i f else mantissa 10 i f) := by
    intro hread
    obtain ⟨digits, hdigits, hnumber⟩ := Option.bind_eq_some_iff.mp hread
    rw [← htext] at hdigits
    obtain ⟨i, f, rest, ext, rfl, -, -⟩ := readDigits_pointed hint hfrac hne hdigits
    rw [htext] at hdigits
    obtain ⟨⟨e, rest'⟩, hexponent, hsome⟩ := Option.bind_eq_some_iff.mp hnumber
    cases hsome
    refine ⟨i, f, rest, hdigits, ?_⟩
    by_cases hneg : s.getD false = true
    · rw [if_pos hneg]
      simp only [hneg, if_true] at hr
      cases hr
      exact ⟨hexponent, rfl, rfl⟩
    · rw [if_neg hneg]
      simp only [hneg, Bool.false_eq_true, if_false] at hr
      cases hr
      exact ⟨hexponent, rfl, rfl⟩
  rw [readSubject] at hsubject
  obtain ⟨c', hc', hfirst⟩ := Option.bind_eq_some_iff.mp hsubject
  obtain rfl : c = c' := Option.some_inj.mp hc'
  by_cases hzero : c = '0'
  · rw [if_pos hzero] at hfirst
    obtain ⟨d, hd, hsecond⟩ := Option.bind_eq_some_iff.mp hfirst
    obtain ⟨ds, rfl⟩ := List.head?_eq_some_iff.mp (show cs.head? = some d from hd)
    by_cases hhex : d.toLower = 'x'
    · subst hzero
      obtain ⟨hint', hfrac', hmem⟩ := eq_zero_of_hex hint hfrac hne hhex htext
      exact .inl ⟨hint', hfrac', d, hmem, hhex⟩
    · rw [if_neg hhex] at hsecond
      exact .inr (hdecimal hsecond)
  · rw [if_neg hzero, if_pos hc] at hfirst
    exact .inr (hdecimal hfirst)

/-- Digits are a number if what follows them does not go on with it. -/
theorem numericPrefix_digits {ds : List Char} (h : ∀ c ∈ ds, c.isDigit = true) (hne : ds ≠ [])
    {c : Char} (hdigit : c.isDigit = false) (hpoint : c ≠ '.') (he : c.toLower ≠ 'e')
    (hx : c.toLower ≠ 'x') (cs : List Char) :
    numericPrefix (ds ++ c :: cs) = some ⟨some (mantissa 10 ds []), 10, 0, c :: cs⟩ := by
  have hspan : span Char.isDigit (ds ++ c :: cs) = some (ds, c :: cs) := by
    rw [span_append h, span_cons_of_not hdigit, Option.map_some, List.append_nil]
  have hdigits : readDigits Char.isDigit (ds ++ c :: cs) = some (some (ds, [], c :: cs)) := by
    rw [readDigits_of_span hspan, if_neg hpoint, if_neg hne]
  have hdecimal : readDecimal (ds ++ c :: cs) =
      some (some ⟨some (mantissa 10 ds []), 10, 0, c :: cs⟩) := by
    show ((readDigits Char.isDigit (ds ++ c :: cs)).bind _) = _
    rw [hdigits]
    show ((readExponent 'e' (c :: cs)).bind _) = _
    rw [readExponent_of_ne he]
    rfl
  obtain ⟨d, ds, rfl⟩ := List.exists_cons_of_ne_nil hne
  have hd := h d List.mem_cons_self
  have hsubject : readSubject (d :: ds ++ c :: cs) = readDecimal (d :: ds ++ c :: cs) := by
    show (if d = '0' then ((ds ++ c :: cs).head?.bind _) else if d.isDigit ∨ d = '.' then _
      else _) = _
    split
    · -- after a zero, there is no letter for a hexadecimal number
      have hsecond : ∃ d', (ds ++ c :: cs).head? = some d' ∧ d'.toLower ≠ 'x' := by
        cases ds with
        | nil => exact ⟨c, rfl, hx⟩
        | cons d' ds =>
          have hd' := h d' (by simp)
          refine ⟨d', rfl, ?_⟩
          rw [toLower_of_isDigit hd']
          rintro rfl
          exact nomatch hd'
      obtain ⟨d', hhead, hlower⟩ := hsecond
      rw [hhead]
      exact if_neg hlower
    · exact if_pos (.inl hd)
  have hnumeric := numericPrefix_signed none (.inl hd) (ds ++ c :: cs)
  change numericPrefix (d :: ds ++ c :: cs) = (readSubject (d :: ds ++ c :: cs)).map _ at hnumeric
  rw [hnumeric, hsubject, hdecimal]
  rfl

end Ixion.Lib.Strtod
