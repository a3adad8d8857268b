import Mathlib.Data.Int.Log
import Mathlib.Data.Rat.Floor

/-!
# The default format of numbers

An output stream writes a number with a number of significant digits.  A number whose exponent is
below that many digits is written with a point, a larger one with an exponent after a letter; zeros
at the end of the fraction are left out.  Ties are rounded to even.
-/

namespace Ixion.Lib.Format

/-! ## Digits -/

/-- The nearest natural number, and the even one of two that are equally near. -/
def roundHalfEven (q : ℚ) : ℕ :=
  let n := ⌊q⌋₊
  let r := q - n
  if r < 1 / 2 then n else if 1 / 2 < r then n + 1 else if n % 2 = 0 then n else n + 1

/-- Without zeros at the end. -/
def stripZeros (ds : List Char) : List Char := (ds.reverse.dropWhile (· = '0')).reverse

/-- Digits with a fraction, unless that is zero. -/
def withFraction (int frac : List Char) : List Char :=
  if stripZeros frac = [] then int else int ++ '.' :: stripZeros frac

/-- An exponent of two digits or more. -/
def exponentText (e : ℤ) : List Char :=
  'e' :: (if e < 0 then '-' else '+') ::
    (if e.natAbs < 10 then '0' :: Nat.toDigits 10 e.natAbs else Nat.toDigits 10 e.natAbs)

variable (precision : ℕ)

/-- The significant digits of a positive number, and the exponent of the first one. -/
def significant (v : ℚ) : ℕ × ℤ :=
  let e := Int.log 10 v
  let m := roundHalfEven (v * (10 : ℚ) ^ ((precision : ℤ) - 1 - e))
  if m < 10 ^ precision then (m, e) else (m / 10, e + 1)

/-- A number that is not negative. -/
def formatUnsigned (v : ℚ) : List Char :=
  if v = 0 then ['0']
  else
    let (m, e) := significant precision v
    let ds := Nat.toDigits 10 m
    if e < -4 ∨ precision ≤ e then withFraction (ds.take 1) (ds.drop 1) ++ exponentText e
    else if 0 ≤ e then withFraction (ds.take (e.toNat + 1)) (ds.drop (e.toNat + 1))
    else withFraction ['0'] (List.replicate (e.natAbs - 1) '0' ++ ds)

/-- The default format of a number. -/
def format (v : ℚ) : List Char :=
  if v < 0 then '-' :: formatUnsigned precision (-v) else formatUnsigned precision v

example : format 6 (3 / 2) = ['1', '.', '5'] := by decide +kernel

/-! ## Natural numbers -/

theorem roundHalfEven_natCast (n : ℕ) : roundHalfEven n = n := by
  rw [roundHalfEven, Nat.floor_natCast, sub_self, if_pos one_half_pos]

theorem toDigits_mul_pow {n : ℕ} (hn : 0 < n) (k : ℕ) :
    Nat.toDigits 10 (n * 10 ^ k) = Nat.toDigits 10 n ++ List.replicate k '0' := by
  induction k with
  | zero => simp
  | succ k ih =>
    have hpos : 0 < n * 10 ^ k := Nat.mul_pos hn (Nat.pow_pos (by decide))
    rw [List.replicate_succ', ← List.append_assoc, ← ih]
    refine Eq.trans ?_ (Nat.toDigits_append_toDigits (by decide) hpos
      (show 0 < 10 by decide)).symm
    rw [pow_succ]
    congr 1
    ring

theorem stripZeros_replicate (k : ℕ) : stripZeros (List.replicate k '0') = [] := by
  rw [stripZeros, List.reverse_replicate, List.dropWhile_replicate]
  rfl

/-- The number of digits is one more than the exponent of the first one. -/
theorem length_toDigits {n : ℕ} (hn : 0 < n) : (Nat.toDigits 10 n).length = Nat.log 10 n + 1 := by
  have hle : (Nat.toDigits 10 n).length ≤ Nat.log 10 n + 1 :=
    (Nat.length_toDigits_le_iff (by decide) (Nat.succ_pos _)).mpr
      (Nat.lt_pow_succ_log_self (by decide) n)
  have hlt : ¬ (Nat.toDigits 10 n).length ≤ Nat.log 10 n := by
    intro h
    rcases Nat.eq_zero_or_pos (Nat.log 10 n) with hzero | hpos
    · rw [hzero] at h
      exact absurd Nat.length_toDigits_pos (not_lt.mpr h)
    · exact absurd (Nat.pow_log_le_self 10 hn.ne')
        (not_le.mpr ((Nat.length_toDigits_le_iff (by decide) hpos).mp h))
  omega

/-- A natural number that has not more digits than are significant is written as it is. -/
theorem format_natCast {n : ℕ} (h : n < 10 ^ precision) :
    format precision n = Nat.toDigits 10 n := by
  rw [format, if_neg (not_lt.mpr (Nat.cast_nonneg n)), formatUnsigned]
  rcases Nat.eq_zero_or_pos n with rfl | hn
  · rw [Nat.cast_zero, if_pos rfl, Nat.toDigits_zero]
  have hlog : Nat.log 10 n < precision := Nat.log_lt_of_lt_pow hn.ne' h
  have hscale : (n : ℚ) * (10 : ℚ) ^ ((precision : ℤ) - 1 - (Nat.log 10 n : ℤ)) =
      ((n * 10 ^ (precision - 1 - Nat.log 10 n) : ℕ) : ℚ) := by
    have hexp : (precision : ℤ) - 1 - (Nat.log 10 n : ℤ) =
        ((precision - 1 - Nat.log 10 n : ℕ) : ℤ) := by omega
    rw [hexp, zpow_natCast]
    push_cast
    rfl
  have hfits : n * 10 ^ (precision - 1 - Nat.log 10 n) < 10 ^ precision := by
    calc n * 10 ^ (precision - 1 - Nat.log 10 n)
        < 10 ^ (Nat.log 10 n + 1) * 10 ^ (precision - 1 - Nat.log 10 n) :=
          Nat.mul_lt_mul_of_pos_right (Nat.lt_pow_succ_log_self (by decide) n)
            (Nat.pow_pos (by decide))
      _ = 10 ^ precision := by
          rw [← pow_add]
          congr 1
          omega
  have hsignificant : significant precision n =
      (n * 10 ^ (precision - 1 - Nat.log 10 n), (Nat.log 10 n : ℤ)) := by
    rw [significant, Int.log_natCast, hscale, roundHalfEven_natCast, if_pos hfits]
  rw [if_neg (Nat.cast_ne_zero.mpr hn.ne'), hsignificant]
  dsimp only
  rw [if_neg (by omega), if_pos (Int.natCast_nonneg _), toDigits_mul_pow hn, Int.toNat_natCast,
    ← length_toDigits hn, List.take_left, List.drop_left, withFraction, stripZeros_replicate,
    if_pos rfl]

/-- A natural number that has more digits than are significant is written with an exponent. -/
theorem format_natCast_of_le {n : ℕ} (h : 10 ^ precision ≤ n) :
    ∃ d frac e, format precision n = d :: (frac ++ exponentText e) ∧ d.isDigit = true ∧
      (frac = [] ∨ ∃ ds, frac = '.' :: ds ∧ ∀ c ∈ ds, c.isDigit = true) := by
  have hn : 0 < n := (Nat.pow_pos (by decide)).trans_le h
  rw [format, if_neg (not_lt.mpr (Nat.cast_nonneg n)), formatUnsigned,
    if_neg (Nat.cast_ne_zero.mpr hn.ne')]
  have hlog : precision ≤ Nat.log 10 n := Nat.le_log_of_pow_le (by decide) h
  obtain ⟨m, e, hsignificant, he⟩ : ∃ m e, significant precision n = (m, e) ∧ precision ≤ e := by
    rw [significant, Int.log_natCast]
    split
    · exact ⟨_, _, rfl, by omega⟩
    · exact ⟨_, _, rfl, by omega⟩
  rw [hsignificant]
  dsimp only
  rw [if_pos (.inr he)]
  obtain ⟨d, ds, hds⟩ := List.exists_cons_of_ne_nil (@Nat.toDigits_ne_nil m 10)
  have hdigit : ∀ c ∈ d :: ds, c.isDigit = true := fun c hc ↦
    Nat.isDigit_of_mem_toDigits (by decide) (by decide) (hds ▸ hc)
  rw [hds, List.take_succ_cons, List.take_zero, List.drop_succ_cons, List.drop_zero, withFraction]
  split
  · exact ⟨d, [], e, rfl, hdigit d List.mem_cons_self, .inl rfl⟩
  · refine ⟨d, '.' :: stripZeros ds, e, rfl, hdigit d List.mem_cons_self, .inr ⟨_, rfl, ?_⟩⟩
    intro c hc
    rw [stripZeros, List.mem_reverse] at hc
    exact hdigit c (List.mem_cons_of_mem d
      (List.mem_reverse.mp ((List.dropWhile_sublist _).subset hc)))

end Ixion.Lib.Format
