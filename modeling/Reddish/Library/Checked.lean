import Mathlib

namespace Reddish
namespace Library

/-!
# Signed arithmetic without overflow

In the source language a signed operation whose result does not fit has no
meaning at all.  Here such an operation has no result; otherwise it agrees with
the operation that wraps around, and with the operation on integers.
-/

namespace Checked

/-- The number fits into 64 bits with a sign. -/
def Fits (n : Int) : Prop :=
  -2 ^ 63 ≤ n ∧ n < 2 ^ 63

instance decidableFits (n : Int) : Decidable (Fits n) :=
  inferInstanceAs (Decidable (_ ∧ _))

/-- The result of an operation, if it fits. -/
def guard (exact : Int) (wrapped : Int64) : Option Int64 :=
  if Fits exact then some wrapped else none

def add (a b : Int64) : Option Int64 :=
  guard (a.toInt + b.toInt) (a + b)

def sub (a b : Int64) : Option Int64 :=
  guard (a.toInt - b.toInt) (a - b)

def mul (a b : Int64) : Option Int64 :=
  guard (a.toInt * b.toInt) (a * b)

variable {a b c : Int64} {exact : Int}

theorem bounds (a : Int64) : -2 ^ 63 ≤ a.toInt ∧ a.toInt < 2 ^ 63 :=
  ⟨Int64.le_toInt a, Int64.toInt_lt a⟩

theorem bmod_of_fits (fits : Fits exact) : exact.bmod (2 ^ 64) = exact := by
  rcases fits with ⟨low, high⟩
  exact Int.bmod_eq_of_le (by omega) (by omega)

theorem toInt_add (fits : Fits (a.toInt + b.toInt)) : (a + b).toInt = a.toInt + b.toInt := by
  rw [Int64.toInt_add, bmod_of_fits fits]

theorem toInt_sub (fits : Fits (a.toInt - b.toInt)) : (a - b).toInt = a.toInt - b.toInt := by
  rw [Int64.toInt_sub, bmod_of_fits fits]

theorem toInt_mul (fits : Fits (a.toInt * b.toInt)) : (a * b).toInt = a.toInt * b.toInt := by
  rw [Int64.toInt_mul, bmod_of_fits fits]

theorem add_fits (fits : Fits (a.toInt + b.toInt)) : add a b = some (a + b) :=
  if_pos fits

theorem sub_fits (fits : Fits (a.toInt - b.toInt)) : sub a b = some (a - b) :=
  if_pos fits

theorem mul_fits (fits : Fits (a.toInt * b.toInt)) : mul a b = some (a * b) :=
  if_pos fits

/-- A difference of two numbers that are not negative always fits. -/
theorem fits_sub (left : 0 ≤ a.toInt) (right : 0 ≤ b.toInt) : Fits (a.toInt - b.toInt) := by
  have one := bounds a
  have two := bounds b
  exact ⟨by omega, by omega⟩

end Checked

end Library
end Reddish
