import Mathlib.Algebra.Ring.Int.Defs
import Mathlib.Algebra.Ring.Nat

/-!
# Integers on 64 bits

Programs compute with 64 bits and are stated about with integers.  `wrap64` is what an operation
leaves of an exact result; it is the result itself exactly if that fits (`wrap64_eq_iff`).
-/

namespace Numeric

/-- The number has a place in 64 bits. -/
def Fits64 (x : Int) : Prop := -2 ^ 63 ≤ x ∧ x < 2 ^ 63

instance (x : Int) : Decidable (Fits64 x) := inferInstanceAs (Decidable (_ ∧ _))

/-- What 64 bits hold of a number, in two's complement.  It is irreducible, since a modulus of this
size must not be unfolded to a numeral. -/
@[irreducible] def wrap64 (x : Int) : Int := x.bmod (2 ^ 64)

theorem fits64_wrap64 (x : Int) : Fits64 (wrap64 x) := by
  unfold wrap64
  constructor
  · have hle := Int.le_bmod (x := x) (m := 2 ^ 64) (by decide)
    omega
  · have hlt := Int.bmod_lt (x := x) (m := 2 ^ 64) (by decide)
    omega

variable {x : Int}

/-- **A number survives exactly if it fits.** -/
theorem wrap64_eq_iff : wrap64 x = x ↔ Fits64 x := by
  constructor
  · intro h
    rw [← h]
    exact fits64_wrap64 x
  · intro h
    have hlo := h.1
    have hhi := h.2
    unfold wrap64
    exact Int.bmod_eq_of_le (by omega) (by omega)

/-- A positive number of 64 bits is positive again as a signed one exactly if it fits. -/
theorem wrap64_pos_iff (hpos : 0 < x) (hlt : x < 2 ^ 64) : 0 < wrap64 x ↔ x < 2 ^ 63 := by
  unfold wrap64
  rw [Int.bmod_eq_emod]
  split <;> omega

end Numeric
