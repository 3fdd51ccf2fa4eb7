import Mathlib

/-!
# The extreme of a list by a running comparison

A loop that keeps the first value and replaces it whenever a later one is larger ends with the
largest value (`extreme`).  Programs compare with boolean `<` and `<=` that are linear only on
some values --- floating-point numbers have one that is not comparable --- so the order is asked
for on the values that occur (`LinearOn`).

What is closed upwards holds of the extreme exactly if it holds of some value
(`extreme_iff_exists`), what is closed downwards exactly if it holds of all
(`extreme_iff_forall`).  The smallest value is the extreme of the dual order (`LinearOn.dual`).
-/

namespace Order

variable {α : Type*}

/-- The comparisons are those of a linear order on the values of `S`, up to equality. -/
structure LinearOn (le lt : α → α → Bool) (S : α → Prop) : Prop where
  total : ∀ a b, S a → S b → le a b = true ∨ le b a = true
  trans : ∀ a b c, S a → S b → S c → le a b = true → le b c = true → le a c = true
  lt_iff : ∀ a b, S a → S b → (lt a b = true ↔ le b a = false)

variable {le lt : α → α → Bool} {S P : α → Prop} {vs : List α} {v a : α}

theorem LinearOn.dual (h : LinearOn le lt S) :
    LinearOn (fun a b => le b a) (fun a b => lt b a) S where
  total a b ha hb := h.total b a hb ha
  trans a b c ha hb hc hab hbc := h.trans c b a hc hb ha hbc hab
  lt_iff a b ha hb := h.lt_iff b a hb ha

theorem LinearOn.mono (h : LinearOn le lt S) {S' : α → Prop} (hS : ∀ a, S' a → S a) :
    LinearOn le lt S' where
  total a b ha hb := h.total a b (hS a ha) (hS b hb)
  trans a b c ha hb hc := h.trans a b c (hS a ha) (hS b hb) (hS c hc)
  lt_iff a b ha hb := h.lt_iff a b (hS a ha) (hS b hb)

theorem LinearOn.refl (h : LinearOn le lt S) (ha : S a) : le a a = true :=
  (h.total a a ha ha).elim id id

/-- Being above a value is closed upwards. -/
theorem LinearOn.lt_of_lt_of_le (h : LinearOn le lt S) {b c : α} (ha : S a) (hb : S b) (hc : S c)
    (hab : lt a b = true) (hbc : le b c = true) : lt a c = true := by
  rw [h.lt_iff a c ha hc, Bool.eq_false_iff]
  intro hca
  rw [h.lt_iff a b ha hb, Bool.eq_false_iff] at hab
  exact hab (h.trans b c a hb hc ha hbc hca)

/-- Keep the first value, and replace it by each later one that is larger. -/
def extreme (lt : α → α → Bool) (v : α) (vs : List α) : α :=
  vs.foldl (fun m x => if lt m x then x else m) v

theorem extreme_mem (v : α) (vs : List α) : extreme lt v vs ∈ v :: vs := by
  induction vs generalizing v with
  | nil => exact List.mem_singleton_self v
  | cons x vs ih =>
    have hmem := ih (if lt v x then x else v)
    rw [extreme, List.foldl_cons, ← extreme]
    split_ifs at hmem ⊢
    · exact List.mem_cons_of_mem v hmem
    · rcases List.mem_cons.mp hmem with heq | hmem
      · rw [heq]
        exact List.mem_cons_self
      · exact List.mem_cons_of_mem v (List.mem_cons_of_mem x hmem)

/-- **The extreme is the largest value.** -/
theorem le_extreme (h : LinearOn le lt S) (hS : ∀ x ∈ v :: vs, S x) :
    ∀ x ∈ v :: vs, le x (extreme lt v vs) = true := by
  induction vs generalizing v with
  | nil =>
    intro x hx
    obtain rfl := List.mem_singleton.mp hx
    exact h.refl (hS x hx)
  | cons y vs ih =>
    have hv : S v := hS v List.mem_cons_self
    have hy : S y := hS y (List.mem_cons_of_mem v List.mem_cons_self)
    have hvs : ∀ x ∈ vs, S x := fun x hx =>
      hS x (List.mem_cons_of_mem v (List.mem_cons_of_mem y hx))
    -- The value kept after `y` bounds both `v` and `y`.
    obtain ⟨m, hm, hSm, hvm, hym⟩ : ∃ m, m = (if lt v y then y else v) ∧ S m ∧
        le v m = true ∧ le y m = true := by
      refine ⟨_, rfl, ?_⟩
      split_ifs with hlt
      · refine ⟨hy, ?_, h.refl hy⟩
        rw [h.lt_iff v y hv hy] at hlt
        exact (h.total v y hv hy).resolve_right (by simp [hlt])
      · refine ⟨hv, h.refl hv, ?_⟩
        rw [h.lt_iff v y hv hy] at hlt
        simpa using hlt
    have hbound := ih (v := m) (List.forall_mem_cons.mpr ⟨hSm, hvs⟩)
    have hext : extreme lt v (y :: vs) = extreme lt m vs := by
      rw [extreme, List.foldl_cons, ← hm, ← extreme]
    have hSe : S (extreme lt m vs) :=
      (List.forall_mem_cons.mpr ⟨hSm, hvs⟩) _ (extreme_mem m vs)
    have hme := hbound m List.mem_cons_self
    rw [hext]
    refine List.forall_mem_cons.mpr ⟨?_, List.forall_mem_cons.mpr ⟨?_, fun x hx => ?_⟩⟩
    · exact h.trans v m _ hv hSm hSe hvm hme
    · exact h.trans y m _ hy hSm hSe hym hme
    · exact hbound x (List.mem_cons_of_mem m hx)

/-- **What is closed upwards** holds of the extreme if it holds of some value. -/
theorem extreme_iff_exists (h : LinearOn le lt S) (hS : ∀ x ∈ v :: vs, S x)
    (hP : ∀ x y, S x → S y → le x y = true → P x → P y) :
    P (extreme lt v vs) ↔ ∃ x ∈ v :: vs, P x := by
  constructor
  · exact fun hext => ⟨_, extreme_mem v vs, hext⟩
  · rintro ⟨x, hx, hPx⟩
    exact hP x _ (hS x hx) (hS _ (extreme_mem v vs)) (le_extreme h hS x hx) hPx

/-- **What is closed downwards** holds of the extreme if it holds of all values. -/
theorem extreme_iff_forall (h : LinearOn le lt S) (hS : ∀ x ∈ v :: vs, S x)
    (hP : ∀ x y, S x → S y → le x y = true → P y → P x) :
    P (extreme lt v vs) ↔ ∀ x ∈ v :: vs, P x := by
  constructor
  · exact fun hext x hx => hP x _ (hS x hx) (hS _ (extreme_mem v vs)) (le_extreme h hS x hx) hext
  · exact fun hall => hall _ (extreme_mem v vs)

end Order
