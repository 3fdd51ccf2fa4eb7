import OpenFalcon.Judge.Points
import OpenFalcon.Order.Extreme

/-!
# What `all`, `lookup`, `max` and `min` mean

The loops of `func.go` against what the functions are said to be.  With enough points,
`all(#n)` triggers if all of the `n` newest points do (`triggers_all_iff`), `lookup(#k,n)` if at
least `k` of them do (`triggers_lookup_iff`), and `max(#n)` and `min(#n)` if the largest or
smallest one does.  The four loops were written separately, with exits of their own, and agree
(`functions_consistent`); for `max` and `min` the values have to be comparable.
-/

namespace OpenFalcon.Judge

open Numeric Order

variable {F : Type} [Float64 F]

/-- The function triggers on the items. -/
def Function.Triggers (fn : Function F) (L : List (JudgeItem F)) : Prop :=
  ∃ c, fn.compute L = some c ∧ c.isTriggered = true

theorem exists_isEnough (fn : Function F) (L : List (JudgeItem F)) :
    ∃ c, fn.compute L = some c ∧
      (c.isEnough = true ↔ 1 ≤ fn.name.window ∧ fn.name.window ≤ (points L).length) := by
  obtain ⟨c, hc, -⟩ := exists_compute fn L
  refine ⟨c, hc, ?_⟩
  by_cases henough : 1 ≤ fn.name.window ∧ fn.name.window ≤ (points L).length
  · rw [compute_of_enough henough.1 henough.2] at hc
    obtain ⟨r, -, rfl⟩ := Option.map_eq_some_iff.mp hc
    exact iff_of_true rfl henough
  · rw [compute_of_short henough] at hc
    rw [← Option.some.inj hc]
    exact iff_of_false Bool.false_ne_true henough

variable {L : List (JudgeItem F)}

theorem triggers_iff {fn : Function F} (hpos : 1 ≤ fn.name.window) :
    fn.Triggers L ↔ fn.name.window ≤ (points L).length ∧
      ∃ left, fn.evaluate ((points L).take fn.name.window.toNat) = some (left, true) := by
  by_cases henough : fn.name.window ≤ (points L).length
  · rw [Function.Triggers, compute_of_enough hpos henough]
    constructor
    · rintro ⟨c, hc, htrig⟩
      obtain ⟨⟨left, _⟩, hr, rfl⟩ := Option.map_eq_some_iff.mp hc
      obtain rfl : _ = true := htrig
      exact ⟨henough, left, hr⟩
    · rintro ⟨-, left, hr⟩
      exact ⟨_, by rw [hr]; rfl, rfl⟩
  · constructor
    · rintro ⟨c, hc, htrig⟩
      rw [compute_of_short (fun h => henough h.2)] at hc
      rw [← Option.some.inj hc] at htrig
      cases htrig
    · exact fun h => absurd h.1 henough

/-! ## `all`, `lookup`, `max` and `min` -/

section

variable {first : HistoryData F} {rest : List (HistoryData F)} {n : ℕ}
  (hlength : (first :: rest).length = n) (operator : String) (r : F)

omit [Float64 F] in
include hlength in
theorem walks_from (lo : ℕ) : Walks (first :: rest) (indices lo n) ((first :: rest).drop lo) := by
  subst hlength
  have hwalk := walks_indices lo (le_refl ((first :: rest).length : Int))
  rwa [Int.toNat_natCast, List.take_length] at hwalk

include hlength

theorem evaluate_all : (⟨.all n, operator, r⟩ : Function F).evaluate (first :: rest) =
    some (first.value, (first :: rest).all fun p => checkIsTriggered p.value operator r) := by
  simp only [Function.evaluate]
  rw [allLoop_eq (walks_from hlength 0)]
  rfl

theorem evaluate_lookup {k : ℕ} (hk : 1 ≤ k) :
    (⟨.lookup k n, operator, r⟩ : Function F).evaluate (first :: rest) =
      some (first.value,
        decide (k ≤ (first :: rest).countP fun p => checkIsTriggered p.value operator r)) := by
  simp only [Function.evaluate]
  rw [lookupLoop_eq (walks_from hlength 0) (by omega)]
  simp

theorem evaluate_max : (⟨.max n, operator, r⟩ : Function F).evaluate (first :: rest) =
    some (extreme Float64.lt first.value (rest.map HistoryData.value),
      checkIsTriggered (extreme Float64.lt first.value (rest.map HistoryData.value))
        operator r) := by
  simp only [Function.evaluate]
  rw [List.getElem?_cons_zero, Option.bind_some, foldValues_eq (walks_from hlength 1)]
  rfl

theorem evaluate_min : (⟨.min n, operator, r⟩ : Function F).evaluate (first :: rest) =
    some (extreme (fun a b => Float64.lt b a) first.value (rest.map HistoryData.value),
      checkIsTriggered (extreme (fun a b => Float64.lt b a) first.value
        (rest.map HistoryData.value)) operator r) := by
  simp only [Function.evaluate]
  rw [List.getElem?_cons_zero, Option.bind_some, foldValues_eq (walks_from hlength 1)]
  rfl

end

section Simple

variable {n : ℕ} {operator : String} {r : F}

/-- A function that asks for `n` points is evaluated on the `n` newest, if there are so many. -/
theorem triggers_iff_of_window (name : FuncName) (hname : name.window = n) (hn : 1 ≤ n) {P : Prop}
    (heval : ∀ first rest, (points L).take n = first :: rest → (first :: rest).length = n →
      ((∃ left, (⟨name, operator, r⟩ : Function F).evaluate (first :: rest) = some (left, true)) ↔
        P)) : (⟨name, operator, r⟩ : Function F).Triggers L ↔ n ≤ (points L).length ∧ P := by
  rw [triggers_iff (by simp only [hname]; omega)]
  simp only [hname, Nat.cast_le, Int.toNat_natCast]
  refine and_congr_right fun henough => ?_
  have hlength : ((points L).take n).length = n := List.length_take_of_le henough
  obtain ⟨first, rest, heq⟩ := List.exists_cons_of_length_pos (l := (points L).take n) (by omega)
  rw [heq] at hlength ⊢
  exact heval first rest heq hlength

theorem triggers_all_iff (hn : 1 ≤ n) :
    (⟨.all n, operator, r⟩ : Function F).Triggers L ↔ n ≤ (points L).length ∧
      ∀ p ∈ (points L).take n, checkIsTriggered p.value operator r = true := by
  refine triggers_iff_of_window (.all n) rfl hn fun first rest heq hlength => ?_
  rw [evaluate_all hlength, heq]
  simp only [Option.some_inj, Prod.mk.injEq, exists_and_right, exists_eq', true_and,
    List.all_eq_true]

/-- **`lookup(#k,n)` counts.** -/
theorem triggers_lookup_iff (hn : 1 ≤ n) {k : ℕ} (hk : 1 ≤ k) :
    (⟨.lookup k n, operator, r⟩ : Function F).Triggers L ↔ n ≤ (points L).length ∧
      k ≤ ((points L).take n).countP fun p => checkIsTriggered p.value operator r := by
  refine triggers_iff_of_window (.lookup k n) rfl hn fun first rest heq hlength => ?_
  rw [evaluate_lookup hlength operator r hk, heq]
  simp only [Option.some_inj, Prod.mk.injEq, exists_and_right, exists_eq', true_and,
    decide_eq_true_eq]

theorem triggers_lookup_one_iff (hn : 1 ≤ n) :
    (⟨.lookup 1 n, operator, r⟩ : Function F).Triggers L ↔ n ≤ (points L).length ∧
      ∃ p ∈ (points L).take n, checkIsTriggered p.value operator r = true := by
  rw [← Nat.cast_one, triggers_lookup_iff hn (le_refl 1)]
  exact and_congr_right fun _ => List.one_le_countP_iff

/-- To count all `n` points is to test all of them. -/
theorem triggers_lookup_self_iff (hn : 1 ≤ n) :
    (⟨.lookup n n, operator, r⟩ : Function F).Triggers L ↔ n ≤ (points L).length ∧
      ∀ p ∈ (points L).take n, checkIsTriggered p.value operator r = true := by
  rw [triggers_lookup_iff hn hn]
  refine and_congr_right fun henough => ?_
  have hlength : ((points L).take n).length = n := List.length_take_of_le henough
  rw [← List.countP_eq_length, hlength]
  have hle := List.countP_le_length (l := (points L).take n)
    (p := fun p => checkIsTriggered p.value operator r)
  omega

/-- The values that `max(#n)` and `min(#n)` compare, and the threshold. -/
def Compared (L : List (JudgeItem F)) (n : ℕ) (r : F) (x : F) : Prop :=
  x = r ∨ ∃ p ∈ (points L).take n, p.value = x

theorem compared_of_take {first : HistoryData F} {rest : List (HistoryData F)}
    (heq : (points L).take n = first :: rest) :
    ∀ x ∈ first.value :: rest.map HistoryData.value, Compared L n r x := by
  intro x hx
  rw [← List.map_cons, List.mem_map, ← heq] at hx
  exact Or.inr hx

section Extreme

variable {le lt : F → F → Bool} (hlinear : LinearOn le lt (Compared L n r)) {name : FuncName}
  (hname : name.window = n) (hn : 1 ≤ n)
  (heval : ∀ first rest, (first :: rest).length = n →
    (⟨name, operator, r⟩ : Function F).evaluate (first :: rest) =
      some (extreme lt first.value (rest.map HistoryData.value),
        checkIsTriggered (extreme lt first.value (rest.map HistoryData.value)) operator r))
include hlinear hname hn heval

/-- With a comparison that is closed towards the extreme, it triggers if some point does. -/
theorem triggers_extreme_iff_lookup
    (hup : ∀ x y, Compared L n r x → Compared L n r y → le x y = true →
      checkIsTriggered x operator r = true → checkIsTriggered y operator r = true) :
    (⟨name, operator, r⟩ : Function F).Triggers L ↔
      (⟨.lookup 1 n, operator, r⟩ : Function F).Triggers L := by
  rw [triggers_lookup_one_iff hn]
  refine triggers_iff_of_window name hname hn fun first rest heq hlength => ?_
  rw [heval first rest hlength, heq]
  simp only [Option.some_inj, Prod.mk.injEq, exists_eq_left']
  rw [extreme_iff_exists hlinear (compared_of_take heq)
    (P := fun x => checkIsTriggered x operator r = true) hup, ← List.map_cons]
  simp

/-- With a comparison that is closed away from the extreme, it triggers if all points do. -/
theorem triggers_extreme_iff_all
    (hdown : ∀ x y, Compared L n r x → Compared L n r y → le x y = true →
      checkIsTriggered y operator r = true → checkIsTriggered x operator r = true) :
    (⟨name, operator, r⟩ : Function F).Triggers L ↔
      (⟨.all n, operator, r⟩ : Function F).Triggers L := by
  rw [triggers_all_iff hn]
  refine triggers_iff_of_window name hname hn fun first rest heq hlength => ?_
  rw [heval first rest hlength, heq]
  simp only [Option.some_inj, Prod.mk.injEq, exists_eq_left']
  rw [extreme_iff_forall hlinear (compared_of_take heq)
    (P := fun x => checkIsTriggered x operator r = true) hdown, ← List.map_cons]
  simp

end Extreme

end Simple

/-- **The alarm functions are consistent with each other.**  On any items, `all(#n)` is
`lookup(#n,n)` for every operator; `lookup(#k,n)` counts the points that satisfy the comparison, and
so triggers more easily for a smaller `k`; against a threshold that is exceeded, `max(#n)` is
`lookup(#1,n)` and `min(#n)` is `all(#n)`, and the other way round against one that is not reached;
and they have enough points together.  For `max` and `min` the values are compared in a linear
order. -/
theorem functions_consistent (L : List (JudgeItem F)) {n k : ℕ} (hk : 1 ≤ k) (hkn : k ≤ n) (r : F)
    (hlinear : LinearOn Float64.le Float64.lt (Compared L n r)) :
    (∀ operator, (⟨.all n, operator, r⟩ : Function F).Triggers L ↔
        (⟨.lookup n n, operator, r⟩ : Function F).Triggers L) ∧
      (∀ operator, (⟨.lookup k n, operator, r⟩ : Function F).Triggers L ↔
        n ≤ (points L).length ∧
          k ≤ ((points L).take n).countP fun p => checkIsTriggered p.value operator r) ∧
      (∀ operator (k' : ℕ), k ≤ k' → k' ≤ n →
        (⟨.lookup k' n, operator, r⟩ : Function F).Triggers L →
          (⟨.lookup k n, operator, r⟩ : Function F).Triggers L) ∧
      (∀ operator ∈ [">", ">="],
        ((⟨.max n, operator, r⟩ : Function F).Triggers L ↔
            (⟨.lookup 1 n, operator, r⟩ : Function F).Triggers L) ∧
          ((⟨.min n, operator, r⟩ : Function F).Triggers L ↔
            (⟨.all n, operator, r⟩ : Function F).Triggers L)) ∧
      (∀ operator ∈ ["<", "<="],
        ((⟨.max n, operator, r⟩ : Function F).Triggers L ↔
            (⟨.all n, operator, r⟩ : Function F).Triggers L) ∧
          ((⟨.min n, operator, r⟩ : Function F).Triggers L ↔
            (⟨.lookup 1 n, operator, r⟩ : Function F).Triggers L)) ∧
      ∀ name ∈ [FuncName.all n, .lookup k n, .lookup 1 n, .lookup n n, .max n, .min n],
        ∀ operator, ∃ c, (⟨name, operator, r⟩ : Function F).compute L = some c ∧
          (c.isEnough = true ↔ n ≤ (points L).length) := by
  have hn : 1 ≤ n := hk.trans hkn
  have hr : Compared L n r r := Or.inl rfl
  have hdual := hlinear.dual
  refine ⟨fun operator => ?_, fun operator => triggers_lookup_iff hn hk, ?_, ?_, ?_, ?_⟩
  · rw [triggers_all_iff hn, triggers_lookup_self_iff hn]
  · intro operator k' hk' _ htrig
    rw [triggers_lookup_iff hn (hk.trans hk')] at htrig
    exact (triggers_lookup_iff hn hk).mpr ⟨htrig.1, hk'.trans htrig.2⟩
  · intro operator hoperator
    simp only [List.mem_cons, List.not_mem_nil, or_false] at hoperator
    have hup : ∀ x y, Compared L n r x → Compared L n r y → Float64.le x y = true →
        checkIsTriggered x operator r = true → checkIsTriggered y operator r = true := by
      rcases hoperator with rfl | rfl
      · exact fun x y hx hy hxy h => hlinear.lt_of_lt_of_le hr hx hy h hxy
      · exact fun x y hx hy hxy h => hlinear.trans r x y hr hx hy h hxy
    exact ⟨triggers_extreme_iff_lookup hlinear rfl hn (fun _ _ h => evaluate_max h operator r) hup,
      triggers_extreme_iff_all hdual rfl hn (fun _ _ h => evaluate_min h operator r)
        fun x y hx hy hxy => hup y x hy hx hxy⟩
  · intro operator hoperator
    simp only [List.mem_cons, List.not_mem_nil, or_false] at hoperator
    have hdown : ∀ x y, Compared L n r x → Compared L n r y → Float64.le x y = true →
        checkIsTriggered y operator r = true → checkIsTriggered x operator r = true := by
      rcases hoperator with rfl | rfl
      · exact fun x y hx hy hxy h => hdual.lt_of_lt_of_le hr hy hx h hxy
      · exact fun x y hx hy hxy h => hlinear.trans x y r hx hy hr hxy h
    exact ⟨triggers_extreme_iff_all hlinear rfl hn (fun _ _ h => evaluate_max h operator r) hdown,
      triggers_extreme_iff_lookup hdual rfl hn (fun _ _ h => evaluate_min h operator r)
        fun x y hx hy hxy => hdown y x hy hx hxy⟩
  · intro name hname operator
    have hwindow : name.window = n := by
      simp only [List.mem_cons, List.not_mem_nil, or_false] at hname
      rcases hname with rfl | rfl | rfl | rfl | rfl | rfl <;> rfl
    obtain ⟨c, hc, henough⟩ := exists_isEnough (⟨name, operator, r⟩ : Function F) L
    refine ⟨c, hc, ?_⟩
    rw [henough]
    simp only [hwindow]
    omega

theorem linearOn_num : LinearOn Float64.le Float64.lt fun x : QFloat => x ≠ .nan where
  total := by
    rintro (_ | a) (_ | b) ha hb
    · exact absurd rfl ha
    · exact absurd rfl ha
    · exact absurd rfl hb
    · simpa [Float64.le, QFloat.test] using le_total a b
  trans := by
    rintro (_ | a) (_ | b) (_ | c) ha hb hc hab hbc
    any_goals first | exact absurd rfl ha | exact absurd rfl hb | exact absurd rfl hc
    simp only [Float64.le, QFloat.test, decide_eq_true_eq] at hab hbc ⊢
    exact hab.trans hbc
  lt_iff := by
    rintro (_ | a) (_ | b) ha hb
    · exact absurd rfl ha
    · exact absurd rfl ha
    · exact absurd rfl hb
    · simp [Float64.le, Float64.lt, QFloat.test]

/-- Two items of a gauge. -/
def twoItems (newer older : ℚ) : List (JudgeItem QFloat) :=
  [⟨"host", "load", .num newer, 120, .GAUGE, ∅⟩, ⟨"host", "load", .num older, 60, .GAUGE, ∅⟩]

theorem max_consistent_on_twoItems :
    (⟨.max (2 : ℕ), ">", .num 2⟩ : Function QFloat).Triggers (twoItems 3 1) ↔
      (⟨.lookup 1 (2 : ℕ), ">", .num 2⟩ : Function QFloat).Triggers (twoItems 3 1) := by
  have hlinear : LinearOn Float64.le Float64.lt (Compared (twoItems 3 1) 2 (.num 2)) := by
    refine linearOn_num.mono fun x hx => ?_
    rcases hx with rfl | ⟨p, hp, rfl⟩
    · simp
    · simp only [twoItems, points, if_true, List.map_cons, List.map_nil, ownPoint,
        List.take_succ_cons, List.take_zero, List.mem_cons, List.not_mem_nil, or_false] at hp
      rcases hp with rfl | rfl <;> simp
  exact ((functions_consistent (twoItems 3 1) (le_refl 1) (Nat.le_succ 1) (.num 2)
    hlinear).2.2.2.1 ">" (by simp)).1

end OpenFalcon.Judge
