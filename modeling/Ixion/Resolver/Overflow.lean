import Mathlib.Data.List.TakeWhile
import Ixion.Resolver.RoundTripR1C1

/-!
# Numbers in references

The scanners accumulate rows, columns and the numbers of R1C1 syntax in 32-bit integers, where an
overflow is undefined.  Only columns are compared with an upper bound, which leaves room for one
more letter; rows and the numbers of R1C1 syntax are not.  The scanners that are defined here stop
at an overflow; up to there they do what those on unbounded integers do.
-/

namespace Ixion

open Lib

/-! ## Scanning with 32-bit integers -/

/-- A value that is computed in 32 bits; without one, it has overflowed. -/
def int32 (x : Int) : Option Int := if -rcMax - 1 ≤ x ∧ x ≤ rcMax then some x else none

/-- The loop of `parse_address_a1` on 32-bit integers. -/
def parseAddressA1LoopInt32 (mode : ResolverParseMode) (addr : Address) :
    List Char → Option (ParsedAddress (List Char))
  | [] =>
    match finishAddressA1 mode addr with
    | some addr => some ⟨.validAddress, false, [], addr⟩
    | none => some ⟨.invalid, false, [], addr⟩
  | c :: cs =>
    if c.toUpper.isUpper then
      if mode = .row then some ⟨.invalid, false, c :: cs, addr⟩
      else do
        let column ← int32 (addr.column * 26)
        let column ← int32 (column + columnDigit c.toUpper)
        let addr := { addr with column }
        if addr.column > columnUpperBound then some ⟨.invalid, false, c :: cs, addr⟩
        else parseAddressA1LoopInt32 mode addr cs
    else if c.isDigit then
      if mode = .column ∧ c = '0' then
        -- leading zeros not allowed
        some ⟨.invalid, false, c :: cs, addr⟩
      else do
        let row ← int32 (addr.row * 10)
        let row ← int32 (row + digitValue c)
        parseAddressA1LoopInt32 .row { addr with row } cs
    else if c = ':' then
      match finishAddressA1 mode addr with
      | some addr => some ⟨.rangeExpected, false, c :: cs, addr⟩
      | none => some ⟨.invalid, false, c :: cs, addr⟩
    else if c = '$' ∧ mode = .column then
      if addr.column ≠ 0 then
        -- column position has been already parsed
        parseAddressA1LoopInt32 .row { addr with absRow := true } cs
      else parseAddressA1LoopInt32 .column { addr with absColumn := true } cs
    else some ⟨.invalid, false, c :: cs, addr⟩

/-- Parse an A1-style single cell address on 32-bit integers. -/
def parseAddressA1Int32 (p : List Char) (addr : Address) : Option (ParsedAddress (List Char)) :=
  parseAddressA1LoopInt32 .column addr p

/-- The digits that `parse_number` accumulates. -/
def accumulateInt32 (num : Int) : List Char → Option Int
  | [] => some num
  | c :: cs =>
    if c.isDigit then do
      let num ← int32 (num * 10)
      let num ← int32 (num + digitValue c)
      accumulateInt32 num cs
    else some num

/-- Parse a number on 32-bit integers. -/
def parseNumberInt32 (p : Pointer) : Scan (Option Int) := do
  let c ← p.deref
  let p := if c = '+' ∨ c = '-' then p.next else p
  return do
    let num ← accumulateInt32 0 p.rest
    if c = '-' then int32 (num * -1) else some num

/-- A value that is between two that fit does so too. -/
theorem int32_of_nonneg {x : Int} (h : 0 ≤ x) :
    int32 x = if x ≤ rcMax then some x else none := by
  have hlow : -rcMax - 1 ≤ x := le_trans (by decide) h
  rw [int32]
  simp only [hlow, true_and]

/-! ## What is written -/

/-- The number that digits stand for. -/
def digitsNumber (ds : List Char) : ℕ := Nat.ofDigitChars 10 ds 0

/-- The number that letters stand for, after those that stand for a given one. -/
def lettersNumber (n : Int) (letters : List Char) : Int :=
  letters.foldl (fun n c ↦ n * 26 + columnDigit c.toUpper) n

/-- What is written after dollar signs. -/
def afterDollars (p : List Char) : List Char := p.dropWhile (· = '$')

/-- A letter of a column. -/
def isLetter (c : Char) : Bool := c.toUpper.isUpper

/-- The letters of an address. -/
def writtenLetters (p : List Char) : List Char := (afterDollars p).takeWhile isLetter

/-- What is written after the letters of an address. -/
def afterLetters (p : List Char) : List Char := (afterDollars p).dropWhile isLetter

/-- The digits of an address, which may follow a dollar sign. -/
def writtenDigits (p : List Char) : List Char :=
  (if (afterLetters p).head? = some '$' then (afterLetters p).tail
    else afterLetters p).takeWhile Char.isDigit

/-- Row and column of an address are the numbers that are written, starting from zero, and these
fit into 32 bits. -/
structure WrittenA1 (p : List Char) (addr : Address) : Prop where
  rowFits : (digitsNumber (writtenDigits p) : Int) ≤ rcMax
  columnFits : lettersNumber 0 (writtenLetters p) ≤ rcMax
  row : addr.row =
    if writtenDigits p = [] then rowUnset else (digitsNumber (writtenDigits p) : Int) - 1
  column : addr.column =
    if writtenLetters p = [] then columnUnset else lettersNumber 0 (writtenLetters p) - 1

/-- An address is scanned without overflow, and what is accepted is what is written. -/
def ReadsA1 (p : List Char) (start : Address) : Prop :=
  ∃ r, parseAddressA1Int32 p start = some r ∧ (r.result ≠ .invalid → WrittenA1 p r.addr)

/-! ## Rows -/

section Digits

variable {c : Char} {num : Int}

/-- Accumulating one digit. -/
theorem accumulate_digit (hc : c.isDigit = true) (hnum : 0 ≤ num) :
    (int32 (num * 10)).bind (fun n ↦ int32 (n + digitValue c)) =
      if num * 10 + digitValue c ≤ rcMax then some (num * 10 + digitValue c) else none := by
  have hdigit : 0 ≤ digitValue c := by
    obtain ⟨h, -⟩ := toNat_of_isDigit hc
    simp only [digitValue, Char.reduceToNat]
    omega
  rw [int32_of_nonneg (by omega)]
  by_cases hfits : num * 10 ≤ rcMax
  · rw [if_pos hfits]
    exact int32_of_nonneg (by omega)
  · rw [if_neg hfits, if_neg (by omega)]
    rfl

/-- Digits make a number larger. -/
theorem le_ofDigitChars (ds : List Char) (n : ℕ) : n ≤ Nat.ofDigitChars 10 ds n := by
  induction ds generalizing n with
  | nil => exact le_rfl
  | cons c cs ih =>
    rw [Nat.ofDigitChars_cons]
    refine le_trans ?_ (ih _)
    omega

theorem natCast_mul_ten_add (hc : c.isDigit = true) (n : ℕ) :
    (n : Int) * 10 + digitValue c = (10 * n + (c.toNat - '0'.toNat) : ℕ) := by
  obtain ⟨h, -⟩ := toNat_of_isDigit hc
  simp only [digitValue, Char.reduceToNat]
  omega

/-- A number is accumulated without overflow exactly when it fits. -/
theorem accumulateInt32_eq (p : List Char) (n : ℕ) (hn : (n : Int) ≤ rcMax) :
    accumulateInt32 n p =
      if (Nat.ofDigitChars 10 (p.takeWhile Char.isDigit) n : Int) ≤ rcMax then
        some (Nat.ofDigitChars 10 (p.takeWhile Char.isDigit) n : Int) else none := by
  induction p generalizing n with
  | nil =>
    rw [List.takeWhile_nil, Nat.ofDigitChars_nil, if_pos hn]
    rfl
  | cons c cs ih =>
    rw [accumulateInt32]
    by_cases hc : c.isDigit = true
    · rw [if_pos hc, List.takeWhile_cons_of_pos hc, Nat.ofDigitChars_cons]
      show ((int32 ((n : Int) * 10)).bind fun m ↦ (int32 (m + digitValue c)).bind fun m ↦
        accumulateInt32 m cs) = _
      rw [← Option.bind_assoc, accumulate_digit hc (Int.natCast_nonneg n), natCast_mul_ten_add hc]
      by_cases hfits : ((10 * n + (c.toNat - '0'.toNat) : ℕ) : Int) ≤ rcMax
      · rw [if_pos hfits]
        exact ih _ hfits
      · have hle := le_ofDigitChars (cs.takeWhile Char.isDigit) (10 * n + (c.toNat - '0'.toNat))
        rw [if_neg hfits, if_neg (by omega)]
        rfl
    · rw [if_neg hc, List.takeWhile_cons_of_neg hc, Nat.ofDigitChars_nil, if_pos hn]

end Digits

section Row

variable {addr : Address}

/-- The address that has been scanned when the row is complete: the numbers before, less one. -/
structure EndsRow (r : ParsedAddress (List Char)) (row column : Int) : Prop where
  row_ne_zero : row ≠ 0
  row : r.addr.row = row - 1
  column : r.addr.column = if column ≠ 0 then column - 1 else columnUnset

theorem endsRow_finishAddressA1 {addr' : Address} (h : finishAddressA1 .row addr = some addr')
    (result : ParseAddressResultType) (p : List Char) :
    EndsRow ⟨result, false, p, addr'⟩ addr.row addr.column := by
  unfold finishAddressA1 at h
  dsimp only at h
  split at h
  · exact absurd h nofun
  case isFalse hne =>
    cases h
    exact ⟨hne, rfl, rfl⟩

/-- The digits of a row are scanned without overflow exactly when their number fits, and what is
accepted is that number. -/
theorem parseAddressA1LoopInt32_row (p : List Char) {n : ℕ} (haddr : addr.row = n)
    (hn : (n : Int) ≤ rcMax) :
    ((Nat.ofDigitChars 10 (p.takeWhile Char.isDigit) n : Int) ≤ rcMax ∧
      ∃ r, parseAddressA1LoopInt32 .row addr p = some r ∧ (r.result ≠ .invalid →
        EndsRow r (Nat.ofDigitChars 10 (p.takeWhile Char.isDigit) n : Int) addr.column)) ∨
    (rcMax < (Nat.ofDigitChars 10 (p.takeWhile Char.isDigit) n : Int) ∧
      parseAddressA1LoopInt32 .row addr p = none) := by
  induction p generalizing n addr with
  | nil =>
    left
    rw [List.takeWhile_nil, Nat.ofDigitChars_nil, parseAddressA1LoopInt32, ← haddr]
    cases hfinish : finishAddressA1 .row addr with
    | none => exact ⟨haddr ▸ hn, _, rfl, fun h ↦ absurd rfl h⟩
    | some addr' => exact ⟨haddr ▸ hn, _, rfl, fun _ ↦ endsRow_finishAddressA1 hfinish _ _⟩
  | cons c cs ih =>
    by_cases hc : c.isDigit = true
    · have hloop : parseAddressA1LoopInt32 .row addr (c :: cs) =
          if ((10 * n + (c.toNat - '0'.toNat) : ℕ) : Int) ≤ rcMax then
            parseAddressA1LoopInt32 .row
              { addr with row := ((10 * n + (c.toNat - '0'.toNat) : ℕ) : Int) } cs
          else none := by
        rw [parseAddressA1LoopInt32, if_neg (by simp [not_isUpper_of_isDigit hc]), if_pos hc,
          if_neg (by simp)]
        show ((int32 (addr.row * 10)).bind fun m ↦ (int32 (m + digitValue c)).bind fun row ↦
          parseAddressA1LoopInt32 .row { addr with row } cs) = _
        rw [← Option.bind_assoc, haddr, accumulate_digit hc (Int.natCast_nonneg n),
          natCast_mul_ten_add hc]
        split <;> rfl
      rw [List.takeWhile_cons_of_pos hc, Nat.ofDigitChars_cons, hloop]
      by_cases hfits : ((10 * n + (c.toNat - '0'.toNat) : ℕ) : Int) ≤ rcMax
      · rw [if_pos hfits]
        exact ih rfl hfits
      · right
        rw [if_neg hfits]
        have hle := le_ofDigitChars (cs.takeWhile Char.isDigit) (10 * n + (c.toNat - '0'.toNat))
        exact ⟨by omega, rfl⟩
    · left
      rw [List.takeWhile_cons_of_neg hc, Nat.ofDigitChars_nil, parseAddressA1LoopInt32, ← haddr]
      refine ⟨haddr ▸ hn, ?_⟩
      by_cases hupper : c.toUpper.isUpper = true
      · rw [if_pos hupper, if_pos rfl]
        exact ⟨_, rfl, fun h ↦ absurd rfl h⟩
      · rw [if_neg hupper, if_neg hc]
        by_cases hcolon : c = ':'
        · rw [if_pos hcolon]
          cases hfinish : finishAddressA1 .row addr with
          | none => exact ⟨_, rfl, fun h ↦ absurd rfl h⟩
          | some addr' => exact ⟨_, rfl, fun _ ↦ endsRow_finishAddressA1 hfinish _ _⟩
        · rw [if_neg hcolon, if_neg fun h ↦ absurd h.2 nofun]
          exact ⟨_, rfl, fun h ↦ absurd rfl h⟩

end Row

/-! ## Columns -/

section Column

variable {addr : Address}

/-- Letters make a number larger. -/
theorem le_lettersNumber {letters : List Char} (h : ∀ c ∈ letters, isLetter c = true)
    {n : Int} (hn : 0 ≤ n) : n ≤ lettersNumber n letters := by
  induction letters generalizing n with
  | nil => exact le_rfl
  | cons c cs ih =>
    obtain ⟨hpos, -⟩ := columnDigit_bounds (h c List.mem_cons_self)
    have hle := ih (fun d hd ↦ h d (List.mem_cons_of_mem c hd))
      (show 0 ≤ n * 26 + columnDigit c.toUpper by omega)
    exact le_trans (by omega) hle

/-- Letters never overflow: what is not above the upper bound leaves room for one more letter. -/
theorem parseAddressA1LoopInt32_letters (p : List Char) (hcolumn : 0 ≤ addr.column)
    (hbound : addr.column ≤ columnUpperBound) :
    (lettersNumber addr.column (p.takeWhile isLetter) ≤ columnUpperBound ∧
      parseAddressA1LoopInt32 .column addr p =
        parseAddressA1LoopInt32 .column
          { addr with column := lettersNumber addr.column (p.takeWhile isLetter) }
          (p.dropWhile isLetter)) ∨
    (columnUpperBound < lettersNumber addr.column (p.takeWhile isLetter) ∧
      ∃ r, parseAddressA1LoopInt32 .column addr p = some r ∧ r.result = .invalid) := by
  induction p generalizing addr with
  | nil => exact .inl ⟨hbound, rfl⟩
  | cons c cs ih =>
    by_cases hc : isLetter c = true
    · obtain ⟨hpos, hle⟩ := columnDigit_bounds hc
      have hbound' : addr.column ≤ 82595498 := hbound
      have hletters : ∀ d ∈ cs.takeWhile isLetter, isLetter d = true :=
        fun d hd ↦ List.mem_takeWhile_imp hd
      set column := addr.column * 26 + columnDigit c.toUpper with hcolumn'
      have hnonneg : 0 ≤ column := by omega
      have hint : int32 (addr.column * 26) = some (addr.column * 26) ∧
          int32 column = some column := by
        rw [int32_of_nonneg (by omega), int32_of_nonneg hnonneg, rcMax, if_pos (by omega),
          if_pos (by omega)]
        exact ⟨rfl, rfl⟩
      have hloop : parseAddressA1LoopInt32 .column addr (c :: cs) =
          if column > columnUpperBound then
            some ⟨.invalid, false, c :: cs, { addr with column }⟩
          else parseAddressA1LoopInt32 .column { addr with column } cs := by
        rw [parseAddressA1LoopInt32, if_pos (show c.toUpper.isUpper = true from hc),
          if_neg (by rintro ⟨⟩),
          hint.1]
        show (int32 column).bind _ = _
        rw [hint.2]
        rfl
      rw [List.takeWhile_cons_of_pos hc, List.dropWhile_cons_of_pos hc, hloop]
      by_cases hover : column > columnUpperBound
      · right
        rw [if_pos hover]
        exact ⟨hover.trans_le (le_lettersNumber hletters hnonneg), _, rfl, rfl⟩
      · rw [if_neg hover]
        exact @ih { addr with column } hnonneg (not_lt.mp hover)
    · left
      rw [List.takeWhile_cons_of_neg hc, List.dropWhile_cons_of_neg hc]
      exact ⟨hbound, rfl⟩

/-- Dollar signs in front of an address only mark its column. -/
theorem parseAddressA1LoopInt32_dollars (p : List Char) (haddr : addr.column = 0) :
    ∃ addr' : Address, addr'.row = addr.row ∧ addr'.column = 0 ∧
      parseAddressA1LoopInt32 .column addr p =
        parseAddressA1LoopInt32 .column addr' (afterDollars p) := by
  induction p generalizing addr with
  | nil => exact ⟨addr, rfl, haddr, rfl⟩
  | cons c cs ih =>
    by_cases hc : c = '$'
    · subst hc
      obtain ⟨addr', hrow, hcolumn, heq⟩ := @ih { addr with absColumn := true } haddr
      refine ⟨addr', hrow, hcolumn, ?_⟩
      rw [← show afterDollars cs = afterDollars ('$' :: cs) from rfl, ← heq,
        parseAddressA1LoopInt32, if_neg (by decide), if_neg (by decide), if_neg (by decide),
        if_pos ⟨rfl, rfl⟩, if_neg (not_not.mpr haddr)]
    · refine ⟨addr, rfl, haddr, ?_⟩
      rw [afterDollars, List.dropWhile_cons_of_neg (by simpa using hc)]

/-- Digits are scanned as a row without overflow exactly when their number fits, and what is
accepted is that number, less one, with the column before. -/
def ScansRow (scanned : Option (ParsedAddress (List Char))) (ds : List Char) (column : Int) :
    Prop :=
  ((digitsNumber ds : Int) ≤ rcMax ∧ ∃ r, scanned = some r ∧
    (r.result ≠ .invalid →
      r.addr.row = (if ds = [] then rowUnset else (digitsNumber ds : Int) - 1) ∧
        r.addr.column = if column ≠ 0 then column - 1 else columnUnset)) ∨
  (rcMax < (digitsNumber ds : Int) ∧ scanned = none)

theorem scansRow_row (hrow : addr.row = 0) (p : List Char) :
    ScansRow (parseAddressA1LoopInt32 .row addr p) (p.takeWhile Char.isDigit) addr.column := by
  rcases @parseAddressA1LoopInt32_row addr p 0 hrow (by decide) with
    ⟨hfits, r, hr, hres⟩ | ⟨hover, hnone⟩
  · refine .inl ⟨hfits, r, hr, fun h ↦ ?_⟩
    obtain ⟨hne, hrow', hcolumn⟩ := hres h
    refine ⟨?_, hcolumn⟩
    rw [hrow', if_neg fun hnil ↦ hne (by rw [hnil]; rfl)]
    rfl
  · exact .inr ⟨hover, hnone⟩

/-- Without digits, what is accepted is the column before. -/
theorem scansRow_nil {scanned : Option (ParsedAddress (List Char))}
    (h : ∃ r, scanned = some r ∧
      (r.result ≠ .invalid → finishAddressA1 .column addr = some r.addr)) :
    ScansRow scanned [] addr.column := by
  obtain ⟨r, hr, hres⟩ := h
  refine .inl ⟨by decide, r, hr, fun hvalid ↦ ?_⟩
  have hfinish := hres hvalid
  unfold finishAddressA1 at hfinish
  dsimp only at hfinish
  split at hfinish
  · exact absurd hfinish (Option.some_ne_none _).symm
  case isFalse hne =>
    rw [← Option.some_inj.mp hfinish]
    exact ⟨(if_pos rfl).symm, (if_pos hne).symm⟩

/-- After the letters, either a leading zero is rejected, or the digits are scanned as a row. -/
theorem parseAddressA1LoopInt32_afterLetters {q : List Char} (hrow : addr.row = 0)
    (hletter : ∀ c ∈ q.head?, isLetter c = false)
    (hdollar : addr.column = 0 → q.head? ≠ some '$') {ds : List Char}
    (hds : (if q.head? = some '$' then q.tail else q).takeWhile Char.isDigit = ds) :
    (q.head? = some '0' ∧
      ∃ r, parseAddressA1LoopInt32 .column addr q = some r ∧ r.result = .invalid) ∨
    q.head? ≠ some '0' ∧ ScansRow (parseAddressA1LoopInt32 .column addr q) ds addr.column := by
  cases q with
  | nil =>
    subst hds
    refine .inr ⟨by rintro ⟨⟩, scansRow_nil ?_⟩
    rw [parseAddressA1LoopInt32]
    cases finishAddressA1 .column addr with
    | none => exact ⟨_, rfl, fun h ↦ absurd rfl h⟩
    | some addr' => exact ⟨_, rfl, fun _ ↦ rfl⟩
  | cons c cs =>
    have hupper : ¬ c.toUpper.isUpper = true := by
      rw [Bool.not_eq_true]
      exact hletter c rfl
    by_cases hzero : c = '0'
    · subst hzero
      refine .inl ⟨rfl, ?_⟩
      rw [parseAddressA1LoopInt32, if_neg hupper, if_pos (by decide), if_pos ⟨rfl, rfl⟩]
      exact ⟨_, rfl, rfl⟩
    right
    refine ⟨fun h ↦ hzero (Option.some_inj.mp h), ?_⟩
    simp only [List.head?_cons, List.tail_cons, Option.some.injEq] at hds
    by_cases hdigit : c.isDigit = true
    · -- the first digit of a row
      have hc : c ≠ '$' := by
        rintro rfl
        cases hdigit
      have hmode : parseAddressA1LoopInt32 .column addr (c :: cs) =
          parseAddressA1LoopInt32 .row addr (c :: cs) := by
        rw [parseAddressA1LoopInt32, parseAddressA1LoopInt32, if_neg hupper, if_pos hdigit,
          if_neg fun h ↦ hzero h.2, if_neg hupper, if_pos hdigit, if_neg (by rintro ⟨⟨⟩, -⟩)]
      rw [if_neg hc] at hds
      rw [hmode, ← hds]
      exact scansRow_row hrow _
    by_cases hcolon : c = ':'
    · subst hcolon
      obtain rfl : [] = ds := hds
      refine scansRow_nil ?_
      rw [parseAddressA1LoopInt32, if_neg hupper, if_neg hdigit, if_pos rfl]
      cases finishAddressA1 .column addr with
      | none => exact ⟨_, rfl, fun h ↦ absurd rfl h⟩
      | some addr' => exact ⟨_, rfl, fun _ ↦ rfl⟩
    by_cases hc : c = '$'
    · subst hc
      have hset : addr.column ≠ 0 := fun h ↦ hdollar h rfl
      rw [if_pos rfl] at hds
      rw [parseAddressA1LoopInt32, if_neg hupper, if_neg hdigit, if_neg hcolon, if_pos ⟨rfl, rfl⟩,
        if_pos hset, ← hds]
      exact @scansRow_row { addr with absRow := true } hrow cs
    · rw [if_neg hc, List.takeWhile_cons_of_neg hdigit] at hds
      subst hds
      refine scansRow_nil ?_
      rw [parseAddressA1LoopInt32, if_neg hupper, if_neg hdigit, if_neg hcolon,
        if_neg fun h ↦ hc h.1]
      exact ⟨_, rfl, fun h ↦ absurd rfl h⟩

/-- A number is not zero if it is written with letters. -/
theorem lettersNumber_eq_zero_iff {letters : List Char} (h : ∀ c ∈ letters, isLetter c = true) :
    lettersNumber 0 letters = 0 ↔ letters = [] := by
  cases letters with
  | nil => exact iff_of_true rfl rfl
  | cons c cs =>
    refine iff_of_false ?_ nofun
    obtain ⟨hpos, -⟩ := columnDigit_bounds (h c List.mem_cons_self)
    have hle := le_lettersNumber (fun d hd ↦ h d (List.mem_cons_of_mem c hd))
      (show 0 ≤ (0 : Int) * 26 + columnDigit c.toUpper by omega)
    change (0 : Int) * 26 + columnDigit c.toUpper ≤ lettersNumber 0 (c :: cs) at hle
    omega

/-- An address in A1 syntax is read as it is written exactly when its letters are too large, its
row begins with a zero, or the number of its row fits. -/
theorem readsA1 {start : Address} (hclear : start.cleared = start) (p : List Char) :
    ReadsA1 p start ↔
      columnUpperBound < lettersNumber 0 (writtenLetters p) ∨ (afterLetters p).head? = some '0' ∨
        (digitsNumber (writtenDigits p) : Int) ≤ rcMax := by
  have hcolumn : start.column = 0 := (congrArg Address.column hclear).symm
  have hrow : start.row = 0 := (congrArg Address.row hclear).symm
  obtain ⟨addr, hrow', hcolumn', heq⟩ := parseAddressA1LoopInt32_dollars p hcolumn
  have hletters := parseAddressA1LoopInt32_letters (afterDollars p) hcolumn'.ge
    (hcolumn'.trans_le (by decide))
  rw [hcolumn'] at hletters
  rw [ReadsA1, parseAddressA1Int32, heq]
  rcases hletters with ⟨hbound, heq'⟩ | ⟨hover, r, hr, hinvalid⟩
  · set addr' : Address := { addr with column := lettersNumber 0 (writtenLetters p) } with haddr'
    have hpositive : lettersNumber 0 (writtenLetters p) = 0 ↔ writtenLetters p = [] :=
      lettersNumber_eq_zero_iff fun c hc ↦ List.mem_takeWhile_imp hc
    have hletter : ∀ c ∈ (afterLetters p).head?, isLetter c = false := by
      intro c hc
      have hnot := List.head?_dropWhile_not isLetter (afterDollars p)
      rw [show (afterDollars p).dropWhile isLetter = afterLetters p from rfl,
        Option.mem_def.mp hc] at hnot
      exact hnot
    have hdollar : addr'.column = 0 → (afterLetters p).head? ≠ some '$' := by
      intro hzero hhead
      -- without letters, the dollar signs have been skipped
      have hnil : (afterDollars p).takeWhile isLetter = [] := hpositive.mp hzero
      have hafter : (afterDollars p).takeWhile isLetter ++ afterLetters p = afterDollars p :=
        List.takeWhile_append_dropWhile
      rw [hnil, List.nil_append] at hafter
      have hnot := List.head?_dropWhile_not (fun c : Char ↦ decide (c = '$')) p
      rw [show p.dropWhile (fun c ↦ decide (c = '$')) = afterDollars p from rfl, ← hafter,
        hhead] at hnot
      exact absurd hnot (by decide)
    change parseAddressA1LoopInt32 .column addr (afterDollars p) =
      parseAddressA1LoopInt32 .column addr' (afterLetters p) at heq'
    rw [heq']
    rcases @parseAddressA1LoopInt32_afterLetters addr' _ (hrow'.trans hrow) hletter hdollar
      (writtenDigits p) rfl with
        ⟨hzero, r, hr, hinvalid⟩ | ⟨hzero, ⟨hfits, r, hr, hres⟩ | ⟨hover, hnone⟩⟩
    · exact iff_of_true ⟨r, hr, fun h ↦ absurd hinvalid h⟩ (.inr (.inl hzero))
    · refine iff_of_true ⟨r, hr, fun h ↦ ?_⟩ (.inr (.inr hfits))
      obtain ⟨hr', hc'⟩ := hres h
      refine ⟨hfits, le_trans hbound (by decide), hr', ?_⟩
      rw [hc']
      by_cases hnil : writtenLetters p = []
      · rw [if_pos hnil, if_neg (not_not.mpr (hpositive.mpr hnil))]
      · rw [if_neg hnil, if_pos fun h ↦ hnil (hpositive.mp h)]
    · refine iff_of_false ?_ ?_
      · rintro ⟨r, hr, -⟩
        exact absurd (hnone.symm.trans hr) nofun
      · rintro (h | h | h)
        · exact absurd hbound (not_le.mpr h)
        · exact hzero h
        · exact absurd h (not_le.mpr hover)
  · refine iff_of_true ⟨r, hr, fun h ↦ absurd hinvalid h⟩ (.inl hover)

end Column

/-- Up to an overflow, the scanner does what it does on unbounded integers. -/
theorem parseAddressA1LoopInt32_eq_some {mode : ResolverParseMode} {addr : Address} {p : List Char}
    {r : ParsedAddress (List Char)} (h : parseAddressA1LoopInt32 mode addr p = some r) :
    parseAddressA1Loop mode addr p = r := by
  have hint : ∀ {x y : Int}, int32 x = some y → y = x := by
    intro x y hxy
    rw [int32] at hxy
    split at hxy
    · exact (Option.some_inj.mp hxy).symm
    · exact absurd hxy nofun
  induction p generalizing mode addr with
  | nil =>
    rw [parseAddressA1LoopInt32] at h
    rw [parseAddressA1Loop]
    cases hfinish : finishAddressA1 mode addr with
    | none =>
      rw [hfinish] at h
      exact Option.some_inj.mp h
    | some addr' =>
      rw [hfinish] at h
      exact Option.some_inj.mp h
  | cons c cs ih =>
    rw [parseAddressA1LoopInt32] at h
    rw [parseAddressA1Loop]
    by_cases hupper : c.toUpper.isUpper = true
    · rw [if_pos hupper] at h ⊢
      by_cases hmode : mode = .row
      · rw [if_pos hmode] at h ⊢
        exact Option.some_inj.mp h
      · rw [if_neg hmode] at h ⊢
        obtain ⟨x, hx, h⟩ := Option.bind_eq_some_iff.mp h
        obtain ⟨y, hy, h⟩ := Option.bind_eq_some_iff.mp h
        rw [hint hx] at hy
        rw [hint hy] at h
        dsimp only at h ⊢
        split at h
        case isTrue hover =>
          rw [if_pos hover]
          exact Option.some_inj.mp h
        case isFalse hle =>
          rw [if_neg hle]
          exact ih h
    rw [if_neg hupper] at h ⊢
    by_cases hdigit : c.isDigit = true
    · rw [if_pos hdigit] at h ⊢
      by_cases hzero : mode = .column ∧ c = '0'
      · rw [if_pos hzero] at h ⊢
        exact Option.some_inj.mp h
      · rw [if_neg hzero] at h ⊢
        obtain ⟨x, hx, h⟩ := Option.bind_eq_some_iff.mp h
        obtain ⟨y, hy, h⟩ := Option.bind_eq_some_iff.mp h
        rw [hint hx] at hy
        rw [hint hy] at h
        exact ih h
    rw [if_neg hdigit] at h ⊢
    by_cases hcolon : c = ':'
    · rw [if_pos hcolon] at h ⊢
      cases hfinish : finishAddressA1 mode addr with
      | none =>
        rw [hfinish] at h
        exact Option.some_inj.mp h
      | some addr' =>
        rw [hfinish] at h
        exact Option.some_inj.mp h
    rw [if_neg hcolon] at h ⊢
    by_cases hdollar : c = '$' ∧ mode = .column
    · rw [if_pos hdollar] at h ⊢
      by_cases hset : addr.column ≠ 0
      · rw [if_pos hset] at h ⊢
        exact ih h
      · rw [if_neg hset] at h ⊢
        exact ih h
    · rw [if_neg hdollar] at h ⊢
      exact Option.some_inj.mp h

/-! ## Numbers in R1C1 syntax -/

/-- The digits of a number, after a sign if there is one. -/
def numberDigits (p : List Char) : List Char :=
  (if p.head? = some '+' ∨ p.head? = some '-' then p.tail else p).takeWhile Char.isDigit

/-- The number that is written. -/
def writtenNumber (p : List Char) : Int :=
  if p.head? = some '-' then -(digitsNumber (numberDigits p) : Int)
  else digitsNumber (numberDigits p)

/-- What is written after the letter of a row or column: an offset in brackets, a number that
starts from one, or nothing. -/
def coordinateR1C1 (p : List Char) : Int :=
  if p.head? = some '[' then writtenNumber p.tail
  else if p.head?.any Char.isDigit then writtenNumber p - 1 else 0

/-- A number is read without overflow, and is the one that is written. -/
def ReadsNumber (f : ℕ → Char) (p : Pointer) : Prop :=
  (parseNumberInt32 p).eval f = some (writtenNumber p.rest) ∧
    ((parseNumber p).eval f).1 = writtenNumber p.rest

/-- The letter is that of a row. -/
def isRowLetter (c : Char) : Prop := c = 'R' ∨ c = 'r'

/-- The letter is that of a column. -/
def isColumnLetter (c : Char) : Prop := c = 'C' ∨ c = 'c'

/-- A pointer is reached from another one by moving on. -/
def Pointer.Reaches (p q : Pointer) : Prop := ∃ n, Pointer.next^[n] p = q

/-- The row is what is written after its letter, and the column what is written after the letter
of a column that is found later. -/
structure WrittenR1C1 (f : ℕ → Char) (p : Pointer) (addr : Address) : Prop where
  row : isRowLetter (p.deref.eval f) ∧ addr.row = coordinateR1C1 p.next.rest ∨
    ¬ isRowLetter (p.deref.eval f) ∧ addr.row = rowUnset
  column : addr.column = columnUnset ∨ ∃ q, p.Reaches q ∧ isColumnLetter (q.deref.eval f) ∧
    addr.column = coordinateR1C1 q.next.rest

section Number

variable {f : ℕ → Char} {p : Pointer}

/-- The digits that are read after a sign. -/
theorem rest_afterSign (p : Pointer) (f : ℕ → Char) :
    ((if p.deref.eval f = '+' ∨ p.deref.eval f = '-' then p.next else p).rest).takeWhile
      Char.isDigit = numberDigits p.rest := by
  cases p with
  | inside c cs =>
    show ((if c = '+' ∨ c = '-' then Pointer.ofList cs else .inside c cs).rest).takeWhile
      Char.isDigit = numberDigits (c :: cs)
    simp only [numberDigits, List.head?_cons, List.tail_cons, Option.some.injEq]
    split
    · rw [Pointer.rest_ofList]
    · rfl
  | past k =>
    show ((if f k = '+' ∨ f k = '-' then Pointer.past (k + 1) else .past k).rest).takeWhile
      Char.isDigit = []
    split <;> rfl

/-- A number that is read has the sign that is written. -/
theorem sign_writtenNumber (p : Pointer) (f : ℕ → Char) :
    (if p.deref.eval f = '-' then -(digitsNumber (numberDigits p.rest) : Int)
      else digitsNumber (numberDigits p.rest)) = writtenNumber p.rest := by
  cases p with
  | inside c cs =>
    show (if c = '-' then _ else _) = writtenNumber (c :: cs)
    simp only [writtenNumber, List.head?_cons, Option.some.injEq]
    rfl
  | past k =>
    show (if f k = '-' then -(0 : Int) else 0) = 0
    split <;> rfl

theorem fst_parseNumber (p : Pointer) (f : ℕ → Char) :
    ((parseNumber p).eval f).1 = writtenNumber p.rest := by
  have hdigits := rest_afterSign p f
  rw [← sign_writtenNumber p f, parseNumber, Query.eval_bind, Query.eval_pure, digitsNumber,
    ← hdigits]
  dsimp only
  split
  · exact mul_neg_one _
  · rfl

/-- A number is read as it is written exactly when its digits fit. -/
theorem readsNumber (f : ℕ → Char) (p : Pointer) :
    ReadsNumber f p ↔ (digitsNumber (numberDigits p.rest) : Int) ≤ rcMax := by
  have hdigits := rest_afterSign p f
  have haccumulate := accumulateInt32_eq
    (if p.deref.eval f = '+' ∨ p.deref.eval f = '-' then p.next else p).rest 0 (by decide)
  rw [hdigits] at haccumulate
  have heval : (parseNumberInt32 p).eval f = (accumulateInt32 ((0 : ℕ) : Int)
      (if p.deref.eval f = '+' ∨ p.deref.eval f = '-' then p.next else p).rest).bind fun num ↦
        if p.deref.eval f = '-' then int32 (num * -1) else some num := by
    rw [parseNumberInt32, Query.eval_bind, Query.eval_pure]
    rfl
  rw [ReadsNumber, and_iff_left (fst_parseNumber p f), heval, haccumulate, ← sign_writtenNumber p f]
  change ((if (digitsNumber (numberDigits p.rest) : Int) ≤ rcMax then
    some (digitsNumber (numberDigits p.rest) : Int) else none).bind _ = _) ↔ _
  by_cases hfits : (digitsNumber (numberDigits p.rest) : Int) ≤ rcMax
  · refine iff_of_true ?_ hfits
    rw [if_pos hfits, Option.bind_some]
    split
    · have hnonneg : (0 : Int) ≤ digitsNumber (numberDigits p.rest) := Int.natCast_nonneg _
      rw [mul_neg_one, int32, if_pos]
      omega
    · rfl
  · refine iff_of_false ?_ hfits
    rw [if_neg hfits]
    exact nofun

end Number

/-! ## Addresses in R1C1 syntax -/

section R1C1

variable {f : ℕ → Char} {p q : Pointer} {addr : Address}

theorem Pointer.reaches_refl (p : Pointer) : p.Reaches p := ⟨0, rfl⟩

theorem Pointer.Reaches.next (h : p.Reaches q) : p.Reaches q.next := by
  obtain ⟨n, rfl⟩ := h
  exact ⟨n + 1, Function.iterate_succ_apply' Pointer.next n p⟩

theorem Pointer.Reaches.trans {r : Pointer} (h : p.Reaches q) (h' : q.Reaches r) : p.Reaches r := by
  obtain ⟨n, rfl⟩ := h
  obtain ⟨m, rfl⟩ := h'
  exact ⟨m + n, Function.iterate_add_apply Pointer.next m n p⟩

theorem reaches_dropWhile (l : List Char) :
    (Pointer.ofList l).Reaches (.ofList (l.dropWhile Char.isDigit)) := by
  induction l with
  | nil => exact Pointer.reaches_refl _
  | cons c cs ih =>
    by_cases hc : c.isDigit = true
    · rw [List.dropWhile_cons_of_pos hc]
      exact (Pointer.reaches_refl (.ofList (c :: cs))).next.trans ih
    · rw [List.dropWhile_cons_of_neg hc]
      exact Pointer.reaches_refl _

/-- Digits are skipped. -/
theorem reaches_digits (q : Pointer) :
    q.Reaches (match q with
      | .inside c cs => Pointer.ofList ((c :: cs).dropWhile Char.isDigit)
      | .past k => .past k) := by
  cases q with
  | inside c cs => exact reaches_dropWhile (c :: cs)
  | past k => exact Pointer.reaches_refl _

/-- A number is read by moving on. -/
theorem reaches_parseNumber (f : ℕ → Char) (p : Pointer) :
    p.Reaches ((parseNumber p).eval f).2 := by
  rw [parseNumber, Query.eval_bind, Query.eval_pure]
  refine Pointer.Reaches.trans ?_ (reaches_digits _)
  split
  · exact (Pointer.reaches_refl p).next
  · exact Pointer.reaches_refl p

/-- An offset is written in brackets. -/
theorem coordinateR1C1_bracket (h : p.deref.eval f = '[') :
    coordinateR1C1 p.rest = writtenNumber p.next.rest := by
  cases p with
  | inside c cs =>
    obtain rfl : c = '[' := h
    show writtenNumber cs = writtenNumber (Pointer.ofList cs).rest
    rw [Pointer.rest_ofList]
  | past k => rfl

/-- A number without brackets starts from one. -/
theorem coordinateR1C1_digit (h : (p.deref.eval f).isDigit = true)
    (hpos : 0 < writtenNumber p.rest) : coordinateR1C1 p.rest = writtenNumber p.rest - 1 := by
  cases p with
  | inside c cs =>
    change c.isDigit = true at h
    show coordinateR1C1 (c :: cs) = writtenNumber (c :: cs) - 1
    have hc : c ≠ '[' := by
      rintro rfl
      exact absurd h nofun
    simp only [coordinateR1C1, List.head?_cons, Option.some.injEq, hc, if_false, Option.any_some, h,
      if_true]
  | past k => exact absurd hpos (lt_irrefl 0)

/-- Nothing else is a number. -/
theorem coordinateR1C1_other (h : p.deref.eval f ≠ '[') (h' : (p.deref.eval f).isDigit = false) :
    coordinateR1C1 p.rest = 0 := by
  cases p with
  | inside c cs =>
    change c ≠ '[' at h
    change c.isDigit = false at h'
    show coordinateR1C1 (c :: cs) = 0
    simp only [coordinateR1C1, List.head?_cons, Option.some.injEq, h, if_false, Option.any_some, h',
      Bool.false_eq_true]
  | past k => rfl

theorem coordinateR1C1_of_isEnd (h : p.isEnd = true) : coordinateR1C1 p.rest = 0 := by
  cases p with
  | inside c cs => exact absurd h nofun
  | past k => rfl

theorem addr_parseSeparatorR1C1 : ((parseSeparatorR1C1 p addr).eval f).addr = addr := by
  rw [parseSeparatorR1C1, Query.eval_bind, Query.eval_ite]
  split <;> rfl

/-- What is accepted has kept the row, and its column is what is written. -/
theorem column_parseAfterColumnR1C1 (haddr : addr.column = 0)
    (h : ((parseAfterColumnR1C1 p addr).eval f).result ≠ .invalid) :
    ((parseAfterColumnR1C1 p addr).eval f).addr.row = addr.row ∧
      ((parseAfterColumnR1C1 p addr).eval f).addr.column = coordinateR1C1 p.rest := by
  rw [parseAfterColumnR1C1, Query.eval_ite] at h ⊢
  by_cases hend : p.isEnd = true
  · rw [if_pos hend, Query.eval_ite] at h ⊢
    rw [coordinateR1C1_of_isEnd hend]
    split
    · exact ⟨rfl, haddr⟩
    · exact ⟨rfl, haddr⟩
  rw [if_neg hend, Query.eval_bind, Query.eval_ite] at h ⊢
  by_cases hbracket : p.deref.eval f = '['
  · rw [if_pos hbracket] at h ⊢
    dsimp only at h ⊢
    rw [Query.eval_ite] at h ⊢
    by_cases hend' : p.next.isEnd = true
    · rw [if_pos hend'] at h
      exact absurd rfl h
    rw [if_neg hend', Query.eval_bind, Query.eval_ite] at h ⊢
    by_cases hdigit : (!(p.next.deref.eval f).isDigit) = true ∧ p.next.deref.eval f ≠ '-' ∧
        p.next.deref.eval f ≠ '+'
    · rw [if_pos hdigit] at h
      exact absurd rfl h
    rw [if_neg hdigit, Query.eval_bind, parseBracketR1C1, Query.eval_ite] at h ⊢
    have hwritten := (fst_parseNumber p.next f).trans (coordinateR1C1_bracket hbracket).symm
    split
    · rw [Query.eval_bind]
      exact ⟨rfl, hwritten⟩
    · rw [addr_parseSeparatorR1C1]
      exact ⟨rfl, hwritten⟩
  rw [if_neg hbracket, Query.eval_ite] at h ⊢
  by_cases hdigit : (p.deref.eval f).isDigit = true
  · rw [if_pos hdigit, Query.eval_bind] at h ⊢
    dsimp only at h ⊢
    rw [Query.eval_ite] at h ⊢
    by_cases hpos : ((parseNumber p).eval f).1 ≤ 0
    · rw [if_pos hpos] at h
      exact absurd rfl h
    rw [if_neg hpos, Query.eval_ite] at h ⊢
    have hfst := fst_parseNumber p f
    have hwritten : ((parseNumber p).eval f).1 - 1 = coordinateR1C1 p.rest := by
      rw [coordinateR1C1_digit hdigit (hfst ▸ not_le.mp hpos), hfst]
    split
    · exact ⟨rfl, hwritten⟩
    · rw [addr_parseSeparatorR1C1]
      exact ⟨rfl, hwritten⟩
  · rw [if_neg hdigit] at h ⊢
    rw [addr_parseSeparatorR1C1, coordinateR1C1_other hbracket (Bool.eq_false_iff.mpr hdigit)]
    exact ⟨rfl, haddr⟩

/-- What is accepted has kept the row, and its column is unset or what is written after the letter
of a column. -/
def WritesColumn (f : ℕ → Char) (p : Pointer) (row : Int) (r : ParsedAddress Pointer) : Prop :=
  r.result ≠ .invalid → r.addr.row = row ∧ (r.addr.column = columnUnset ∨
    ∃ q, p.Reaches q ∧ isColumnLetter (q.deref.eval f) ∧
      r.addr.column = coordinateR1C1 q.next.rest)

theorem writesColumn_parseColumnR1C1 (hreaches : p.Reaches q) (haddr : addr.column = columnUnset) :
    WritesColumn f p addr.row ((parseColumnR1C1 q addr).eval f) := by
  intro h
  rw [parseColumnR1C1, Query.eval_bind, Query.eval_ite] at h ⊢
  by_cases hletter : q.deref.eval f = 'C' ∨ q.deref.eval f = 'c'
  · rw [if_pos hletter] at h ⊢
    have hcolumn := @column_parseAfterColumnR1C1 f q.next
      { addr with column := 0, absColumn := false } rfl h
    exact ⟨hcolumn.1, .inr ⟨q, hreaches, hletter, hcolumn.2⟩⟩
  · rw [if_neg hletter, addr_parseSeparatorR1C1]
    exact ⟨rfl, .inl haddr⟩

/-- What is accepted has the row that is written. -/
theorem writesColumn_parseAfterRowR1C1 (hreaches : p.Reaches q) (hrow : addr.row = 0)
    (haddr : addr.column = columnUnset) :
    WritesColumn f p (coordinateR1C1 q.rest) ((parseAfterRowR1C1 q addr).eval f) := by
  rw [parseAfterRowR1C1, Query.eval_ite]
  by_cases hend : q.isEnd = true
  · rw [if_pos hend]
    exact fun h ↦ absurd rfl h
  rw [if_neg hend, Query.eval_bind, Query.eval_ite]
  by_cases hletter : q.deref.eval f = 'C' ∨ q.deref.eval f = 'c'
  · rw [if_pos hletter]
    have hother : coordinateR1C1 q.rest = addr.row := by
      rw [hrow]
      apply coordinateR1C1_other (f := f)
      · rcases hletter with h | h <;> rw [h] <;> decide
      · rcases hletter with h | h <;> rw [h] <;> decide
    rw [hother]
    exact writesColumn_parseColumnR1C1 hreaches haddr
  rw [if_neg hletter, Query.eval_ite]
  by_cases hbracket : q.deref.eval f = '['
  · rw [if_pos hbracket]
    dsimp only
    rw [Query.eval_bind, Query.eval_ite]
    split
    · exact fun h ↦ absurd rfl h
    have hwritten := (fst_parseNumber q.next f).trans (coordinateR1C1_bracket hbracket).symm
    rw [Query.eval_bind, parseBracketR1C1, Query.eval_ite, ← hwritten]
    have hreaches' := hreaches.next.trans (reaches_parseNumber f q.next)
    split
    · rw [Query.eval_bind]
      exact fun _ ↦ ⟨rfl, .inl haddr⟩
    · exact @writesColumn_parseColumnR1C1 f p _
        { addr with row := ((parseNumber q.next).eval f).1 } hreaches'.next haddr
  rw [if_neg hbracket, Query.eval_ite]
  by_cases hdigit : (q.deref.eval f).isDigit = true
  · rw [if_pos hdigit, Query.eval_bind]
    dsimp only
    rw [Query.eval_ite]
    by_cases hpos : ((parseNumber q).eval f).1 ≤ 0
    · rw [if_pos hpos]
      exact fun h ↦ absurd rfl h
    rw [if_neg hpos, Query.eval_ite]
    have hfst := fst_parseNumber q f
    have hwritten : ((parseNumber q).eval f).1 - 1 = coordinateR1C1 q.rest := by
      rw [coordinateR1C1_digit hdigit (hfst ▸ not_le.mp hpos), hfst]
    rw [← hwritten]
    split
    · exact fun _ ↦ ⟨rfl, .inl haddr⟩
    · exact @writesColumn_parseColumnR1C1 f p _
        { addr with row := ((parseNumber q).eval f).1 - 1, absRow := true }
        (hreaches.trans (reaches_parseNumber f q)) haddr
  · rw [if_neg hdigit, coordinateR1C1_other hbracket (Bool.eq_false_iff.mpr hdigit), ← hrow]
    exact @writesColumn_parseColumnR1C1 f p _ { addr with absRow := true } hreaches haddr

/-- What is accepted in R1C1 syntax is what is written. -/
theorem writtenR1C1 (h : ((parseAddressR1C1 p addr).eval f).result ≠ .invalid) :
    WrittenR1C1 f p ((parseAddressR1C1 p addr).eval f).addr := by
  rw [parseAddressR1C1, Query.eval_bind, Query.eval_ite] at h ⊢
  by_cases hletter : p.deref.eval f = 'R' ∨ p.deref.eval f = 'r'
  · rw [if_pos hletter] at h ⊢
    obtain ⟨hrow, hcolumn⟩ := @writesColumn_parseAfterRowR1C1 f p p.next
      { addr with row := 0, column := columnUnset, absRow := false }
      (Pointer.reaches_refl p).next rfl rfl h
    exact ⟨.inl ⟨hletter, hrow⟩, hcolumn⟩
  · rw [if_neg hletter] at h ⊢
    obtain ⟨hrow, hcolumn⟩ := @writesColumn_parseColumnR1C1 f p p
      { addr with row := rowUnset, column := columnUnset } (Pointer.reaches_refl p) rfl h
    exact ⟨.inr ⟨hletter, hrow⟩, hcolumn⟩

end R1C1

/-! ## Result -/

end Ixion
