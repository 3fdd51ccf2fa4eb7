import Mathlib.Data.Rat.Defs
import Mathlib.Algebra.Order.Ring.Unbundled.Rat

/-!
# An interface for `float64`

The programs verified over this interface add, subtract, compare and test their
numbers for `NaN`; they never look at a bit pattern.  So the arithmetic is a
class, and every result is a result about every arithmetic that has the
operations --- the rounding one of the hardware included.

Comparisons are boolean and unrelated to one another: nothing says that `lt` and
`le` fit together, because in the presence of `NaN` they do not.  The only law is
that `NaN` is one value.  The payload of a `NaN` is not observable through the
operations below, so identifying all of them loses nothing.

Where a program hands its numbers to an encoder that knows no `NaN` and no infinity, it
asks for a `FiniteTest` on top.

`QFloat` is the exact model used to evaluate programs on concrete inputs:
rational numbers and a `NaN`, with no rounding and no infinities.
-/

namespace Numeric

/-- The operations on `float64` values. -/
class Float64 (F : Type) extends Add F, Sub F, Mul F, Div F where
  /-- The value of a literal or of an integer conversion. -/
  ofRat : ℚ → F
  /-- Absolute value. -/
  abs : F → F
  /-- Square root. -/
  sqrt : F → F
  /-- The comparison `<`. -/
  lt : F → F → Bool
  /-- The comparison `<=`. -/
  le : F → F → Bool
  /-- The comparison `==`. -/
  eq : F → F → Bool
  /-- Not a number. -/
  nan : F
  /-- The test for `NaN`. -/
  isNaN : F → Bool
  /-- There is one `NaN`. -/
  isNaN_iff : ∀ x, isNaN x = true ↔ x = nan

namespace Float64

variable {F : Type} [Float64 F]

@[simp] theorem isNaN_nan : isNaN (nan : F) = true :=
  (isNaN_iff nan).mpr rfl

theorem eq_nan_of_isNaN {x : F} (h : isNaN x = true) : x = nan :=
  (isNaN_iff x).mp h

end Float64

/-- The test for a number that is neither `NaN` nor an infinity. -/
class FiniteTest (F : Type) [Float64 F] where
  /-- Neither `NaN` nor an infinity. -/
  isFinite : F → Bool
  /-- `NaN` is not finite. -/
  isFinite_nan : isFinite Float64.nan = false

/-- Exact arithmetic with a `NaN`: what `float64` computes when nothing rounds
and nothing overflows.  Division by zero is a `NaN` here. -/
inductive QFloat where
  | nan : QFloat
  | num : ℚ → QFloat
  deriving DecidableEq

namespace QFloat

/-- Lift an operation on numbers; `NaN` absorbs. -/
def lift₂ (f : ℚ → ℚ → QFloat) : QFloat → QFloat → QFloat
  | .num x, .num y => f x y
  | _, _ => .nan

/-- Lift a comparison of numbers; a comparison with `NaN` is false. -/
def test (p : ℚ → ℚ → Bool) : QFloat → QFloat → Bool
  | .num x, .num y => p x y
  | _, _ => false

/-- The square root of a number whose numerator and denominator are squares; of
any other number, the root of the largest squares below them. -/
def sqrtRat (x : ℚ) : QFloat :=
  if x < 0 then .nan else .num ((Nat.sqrt x.num.toNat : ℚ) / (Nat.sqrt x.den : ℚ))

instance : Float64 QFloat where
  add := lift₂ fun x y => .num (x + y)
  sub := lift₂ fun x y => .num (x - y)
  mul := lift₂ fun x y => .num (x * y)
  div := lift₂ fun x y => if y = 0 then .nan else .num (x / y)
  ofRat := .num
  abs
    | .nan => .nan
    | .num x => .num (if x < 0 then -x else x)
  sqrt
    | .nan => .nan
    | .num x => sqrtRat x
  lt := test fun x y => decide (x < y)
  le := test fun x y => decide (x ≤ y)
  eq := test fun x y => decide (x = y)
  nan := .nan
  isNaN
    | .nan => true
    | .num _ => false
  isNaN_iff x := by cases x <;> simp

instance : FiniteTest QFloat where
  isFinite
    | .nan => false
    | .num _ => true
  isFinite_nan := rfl

end QFloat

end Numeric
