import Mathlib.Algebra.Order.Floor.Div
import Mathlib.Data.List.Basic
import Mathlib.Data.List.Range

/-!
# Consecutive slices

A loop over a list takes `n` items in every round, and what is left in the last one.  After `k`
rounds it has taken `slices n l k`, which read the first `k * n` items of the list
(`flatten_slices`), and it stands at `min (k * n) l.length`.  It has another round to go as long as
`k` is less than the length divided by `n`, rounded up (`lt_ceilDiv_iff`).  So the slices of all
rounds are a partition of the list into consecutive groups (`sliced_slices`).
-/

namespace Order

variable {α : Type*} {n k : ℕ} {l : List α}

/-- The groups read the list in order; none is empty and none has more than `n` items. -/
structure Sliced (n : ℕ) (l : List α) (groups : List (List α)) : Prop where
  flatten : groups.flatten = l
  ne_nil : ∀ g ∈ groups, g ≠ []
  length_le : ∀ g ∈ groups, g.length ≤ n

/-- The first `k` slices of `n` items. -/
def slices (n : ℕ) (l : List α) (k : ℕ) : List (List α) :=
  (List.range k).map fun j => (l.drop (j * n)).take n

@[simp] theorem slices_zero : slices n l 0 = [] := rfl

theorem slices_succ (k : ℕ) : slices n l (k + 1) = slices n l k ++ [(l.drop (k * n)).take n] := by
  rw [slices, List.range_succ, List.map_append]
  rfl

/-- The first slice, and those of the rest. -/
theorem slices_succ' (k : ℕ) : slices n l (k + 1) = l.take n :: slices n (l.drop n) k := by
  rw [slices, List.range_succ_eq_map, List.map_cons, List.map_map, zero_mul, List.drop_zero, slices]
  refine congrArg (l.take n :: ·) (List.map_congr_left fun j _ => ?_)
  rw [Function.comp_apply, List.drop_drop, Nat.succ_mul, Nat.add_comm]

/-- **The first slices read the beginning of the list.** -/
theorem flatten_slices (k : ℕ) : (slices n l k).flatten = l.take (k * n) := by
  induction k with
  | zero => rw [zero_mul, List.take_zero, slices_zero, List.flatten_nil]
  | succ k ih =>
    rw [slices_succ, List.flatten_append, ih, List.flatten_singleton, Nat.succ_mul, List.take_add]

/-- There is another round as long as there are items left. -/
theorem lt_ceilDiv_iff (hn : 0 < n) : k < l.length ⌈/⌉ n ↔ k * n < l.length := by
  rw [← not_le, ceilDiv_le_iff_le_mul hn, not_le, mul_comm]

/-- **All slices are a partition of the list.** -/
theorem sliced_slices (hn : 0 < n) : Sliced n l (slices n l (l.length ⌈/⌉ n)) where
  flatten := by
    have hall : l.length ≤ l.length ⌈/⌉ n * n :=
      not_lt.mp (mt (lt_ceilDiv_iff hn).mpr (lt_irrefl _))
    rw [flatten_slices, List.take_of_length_le hall]
  ne_nil := by
    intro g hg
    obtain ⟨j, hj, rfl⟩ := List.mem_map.mp hg
    have hlt := (lt_ceilDiv_iff hn).mp (List.mem_range.mp hj)
    rw [← List.length_pos_iff, List.length_take, List.length_drop]
    omega
  length_le := by
    intro g hg
    obtain ⟨j, -, rfl⟩ := List.mem_map.mp hg
    exact List.length_take_le n _

/-- One round: what is taken, and where the loop stands after it. -/
theorem slice_round (hlt : k * n < l.length) :
    (l.drop (k * n)).take (min n (l.length - k * n)) = (l.drop (k * n)).take n ∧
      k * n + min n (l.length - k * n) = min ((k + 1) * n) l.length := by
  constructor
  · rw [← List.length_drop, ← List.take_eq_take_min]
  · rw [Nat.succ_mul]
    omega

end Order
