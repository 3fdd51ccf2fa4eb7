import Mathlib.Algebra.Order.Field.Basic
import Mathlib.Algebra.Order.Field.Rat
import OpenFalcon.Numeric.Float64

/-!
# The order of `float64`

`Float64` says nothing about how the comparisons fit together.  Programs that clamp a number or
guard a quotient rely on it: a number that is not `NaN` and not less than another is at least the
other, and a sum, product or quotient of numbers that are not negative is not negative either.
`FloatOrder` are these laws.  They hold for the `float64` of the hardware with its infinities, its
two zeros and its rounding, and for the exact `QFloat`.  An integer that is positive and has a place
in 64 bits is converted to a number that is positive and finite, so it may divide.
-/

namespace Numeric

/-- The laws of the comparisons of `float64`, and of signs. -/
class FloatOrder (F : Type) [Float64 F] : Prop where
  /-- A comparison with `NaN` is false. -/
  not_isNaN_of_le : ∀ {x y : F}, Float64.le x y = true →
    Float64.isNaN x = false ∧ Float64.isNaN y = false
  /-- A comparison with `NaN` is false. -/
  not_isNaN_of_lt : ∀ {x y : F}, Float64.lt x y = true →
    Float64.isNaN x = false ∧ Float64.isNaN y = false
  /-- Numbers are ordered. -/
  le_iff_not_lt : ∀ {x y : F}, Float64.isNaN x = false → Float64.isNaN y = false →
    (Float64.le x y = true ↔ Float64.lt y x = false)
  /-- A literal or an integer is a number. -/
  isNaN_ofRat : ∀ q : ℚ, Float64.isNaN (Float64.ofRat q : F) = false
  /-- Conversion keeps the order. -/
  le_ofRat : ∀ {p q : ℚ}, p ≤ q → Float64.le (Float64.ofRat p : F) (Float64.ofRat q) = true
  /-- A product with a positive integer is not negative. -/
  mul_nonneg : ∀ {x : F} {n : Int}, Float64.le (Float64.ofRat 0) x = true → 0 < n → n < 2 ^ 64 →
    Float64.le (Float64.ofRat 0) (x * Float64.ofRat n) = true
  /-- A quotient by a positive integer is not negative. -/
  div_nonneg : ∀ {x : F} {n : Int}, Float64.le (Float64.ofRat 0) x = true → 0 < n → n < 2 ^ 64 →
    Float64.le (Float64.ofRat 0) (x / Float64.ofRat n) = true
  /-- A quotient of `NaN` is `NaN`. -/
  nan_div : ∀ x : F, (Float64.nan : F) / x = Float64.nan

namespace FloatOrder

variable {F : Type} [Float64 F] [FloatOrder F] {x : F}

theorem not_lt_of_le {y : F} (h : Float64.le x y = true) : Float64.lt y x = false := by
  obtain ⟨hx, hy⟩ := not_isNaN_of_le h
  exact (le_iff_not_lt hx hy).mp h

theorem not_lt_of_isNaN (h : Float64.isNaN x = true) (y : F) : Float64.lt x y = false := by
  refine Bool.eq_false_iff.mpr fun hlt => ?_
  rw [(not_isNaN_of_lt hlt).1] at h
  cases h

end FloatOrder

namespace QFloat

instance : FloatOrder QFloat where
  not_isNaN_of_le := by
    rintro (_ | x) (_ | y) h
    · cases h
    · cases h
    · cases h
    · exact ⟨rfl, rfl⟩
  not_isNaN_of_lt := by
    rintro (_ | x) (_ | y) h
    · cases h
    · cases h
    · cases h
    · exact ⟨rfl, rfl⟩
  le_iff_not_lt := by
    rintro (_ | x) (_ | y) hx hy
    · cases hx
    · cases hx
    · cases hy
    · show decide (x ≤ y) = true ↔ decide (y < x) = false
      rw [decide_eq_true_iff, decide_eq_false_iff_not, not_lt]
  isNaN_ofRat _ := rfl
  le_ofRat h := decide_eq_true h
  mul_nonneg := by
    rintro (_ | x) n hx hn -
    · cases hx
    · have hx : 0 ≤ x := of_decide_eq_true hx
      have hn : (0 : ℚ) < n := by exact_mod_cast hn
      exact decide_eq_true (Rat.mul_nonneg hx hn.le)
  div_nonneg := by
    rintro (_ | x) n hx hn -
    · cases hx
    · have hx : 0 ≤ x := of_decide_eq_true hx
      have hn : (0 : ℚ) < n := by exact_mod_cast hn
      show Float64.le (num 0) (if (n : ℚ) = 0 then .nan else num (x / n)) = true
      rw [if_neg hn.ne']
      exact decide_eq_true (div_nonneg hx hn.le)
  nan_div _ := rfl

end QFloat

end Numeric
