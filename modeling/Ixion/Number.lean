import Mathlib.Data.Rat.Floor
import Ixion.Address

/-!
# Integers in the code

The integers of the code are as wide as their types.  An integer that is converted to
another type is reduced to the width of that type; a floating-point number that does not
fit the integer type it is converted to makes the behaviour undefined.
-/

namespace Ixion

/-- An integer as a `size_t`. -/
def toSize (n : Int) : Nat := (n % 2 ^ 64).toNat

/-- An integer as a `row_t`. -/
def toRow (n : Int) : Int := n.bmod (2 ^ 32)

theorem toSize_of_nonneg {n : Int} (h : 0 ≤ n) (h' : n ≤ rcMax) : toSize n = n.toNat := by
  rw [toSize, Int.emod_eq_of_lt h (Int.lt_of_le_of_lt h' (by decide))]

/-- A row survives being a `size_t`, also one before the first. -/
theorem toRow_toSize {n : Int} (h : -1 ≤ n) (h' : n ≤ rcMax) : toRow (toSize n) = n := by
  rw [toRow, toSize]
  unfold rcMax at h'
  have hmod : ((n % 2 ^ 64).toNat : Int) = n % 2 ^ 64 :=
    Int.toNat_of_nonneg (Int.emod_nonneg n (by decide))
  rw [hmod, Int.bmod_def]
  omega

/-- Whether an integer is an `int`. -/
def FitsInt (n : Int) : Prop := -2 ^ 31 ≤ n ∧ n < 2 ^ 31

instance (n : Int) : Decidable (FitsInt n) := by unfold FitsInt; infer_instance

/-- An integer as an `int`. -/
def asInt (n : Int) : Int := n.bmod (2 ^ 32)

theorem asInt_of_fitsInt {n : Int} (h : FitsInt n) : asInt n = n := by
  obtain ⟨hle, hlt⟩ := h
  rw [asInt, Int.bmod_def]
  omega

theorem toSize_of_fitsInt {n : Int} (h : 0 ≤ n) (h' : FitsInt n) : toSize n = n.toNat :=
  toSize_of_nonneg h (Int.le_of_lt_add_one h'.2)

/-- The integer part of a number. -/
def trunc (v : ℚ) : Int := if 0 ≤ v then v.floor else -(-v).floor

end Ixion
