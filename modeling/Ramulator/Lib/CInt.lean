/-
# Ramulator.Lib.CInt — signed integers of a width, with their overflows.

An operation on signed integers of `w` bits has a result if the exact result fits, and division and remainder
need a divisor that is not zero. Division rounds towards zero. A computation that has a result has not
overflowed at any of its steps; for numbers that are not negative its operations are those of the integers.
-/
import Mathlib.Algebra.Order.Ring.Int
import Mathlib.Tactic.Common

namespace Ramulator.Lib.CInt

/-- The numbers of `w` bits. -/
def Fits (w : Nat) (x : Int) : Prop := -2 ^ (w - 1) ≤ x ∧ x < 2 ^ (w - 1)

instance (w : Nat) (x : Int) : Decidable (Fits w x) := inferInstanceAs (Decidable (_ ∧ _))

/-- The exact result, if it fits. -/
def narrow (w : Nat) (x : Int) : Option Int := if Fits w x then some x else none

def add (w : Nat) (x y : Int) : Option Int := narrow w (x + y)

def mul (w : Nat) (x y : Int) : Option Int := narrow w (x * y)

def div (w : Nat) (x y : Int) : Option Int := if y = 0 then none else narrow w (x.tdiv y)

/-- The remainder has a result where the quotient has one. -/
def mod (w : Nat) (x y : Int) : Option Int := (div w x y).map fun _ => x.tmod y

variable {w : Nat} {x y : Int}

/-- What lies between zero and a number that fits. -/
theorem Fits.of_le (hy : Fits w y) (hx : 0 ≤ x) (hle : x ≤ y) : Fits w x :=
  ⟨Int.le_trans (Int.neg_nonpos_of_nonneg (Int.pow_nonneg (by decide))) hx, Int.lt_of_le_of_lt hle hy.2⟩

theorem fits_32 : Fits 32 x ↔ -2147483648 ≤ x ∧ x ≤ 2147483647 := by
  unfold Fits
  constructor
  · rintro ⟨hlow, hhigh⟩
    exact ⟨hlow, Int.le_of_lt_add_one hhigh⟩
  · rintro ⟨hlow, hhigh⟩
    exact ⟨hlow, Int.lt_add_one_of_le hhigh⟩

theorem fits_64 : Fits 64 x ↔ -9223372036854775808 ≤ x ∧ x < 9223372036854775808 := Iff.rfl

theorem narrow_eq (h : Fits w x) : narrow w x = some x := if_pos h

theorem add_eq (h : Fits w (x + y)) : add w x y = some (x + y) := narrow_eq h

theorem mul_eq (h : Fits w (x * y)) : mul w x y = some (x * y) := narrow_eq h

theorem div_eq (hx : 0 ≤ x) (hfits : Fits w x) (hy : 0 < y) : div w x y = some (x / y) := by
  unfold div
  rw [if_neg (Int.ne_of_gt hy), Int.tdiv_eq_ediv_of_nonneg hx]
  exact narrow_eq (hfits.of_le (Int.ediv_nonneg hx (Int.le_of_lt hy)) (Int.ediv_le_self y hx))

theorem mod_eq (hx : 0 ≤ x) (hfits : Fits w x) (hy : 0 < y) : mod w x y = some (x % y) := by
  unfold mod
  rw [div_eq hx hfits hy, Option.map_some, Int.tmod_eq_emod_of_nonneg hx]

end Ramulator.Lib.CInt
