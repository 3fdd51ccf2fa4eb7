import Mathlib.Data.Int.Basic
import Mathlib.Algebra.Order.Ring.Int
import Mathlib.Algebra.Ring.Divisibility.Basic
import Mathlib.Data.List.Basic
import Mathlib.Data.List.Chain
import Mathlib.Tactic.Positivity
import Mathlib.Tactic.Ring

/-!
# Stamped records laid along a timeline

`ticks a step n` is the progression `a, a + step, ...` of `n` times.  `walk` lays a
list of stamped records along such a progression: it goes through the ticks once,
holds a single position in the list, puts the record at that position on the tick
when the stamps agree and a blank otherwise.  The position never goes back, so a
record whose stamp has already passed, or lies between ticks, blocks everything
behind it.

`Climbs step t l` says that this does not happen: the stamps of `l` are ticks from
`t` on and increase.  Two results say what the walk does.

* `walk_of_climbs`: a climbing list is laid out exactly, every tick showing the
  record with its stamp if there is one.
* `mem_walk_iff`: in general a record is shown exactly when the list climbs up to
  and including it.
-/

namespace Order

/-! ## Ticks -/

/-- `n` times, `step` apart, from `a` on. -/
def ticks (a step : Int) : ℕ → List Int
  | 0 => []
  | n + 1 => a :: ticks (a + step) step n

@[simp] theorem ticks_zero (a step : Int) : ticks a step 0 = [] := rfl

theorem ticks_succ (a step : Int) (n : ℕ) :
    ticks a step (n + 1) = a :: ticks (a + step) step n := rfl

@[simp] theorem length_ticks (a step : Int) (n : ℕ) : (ticks a step n).length = n := by
  induction n generalizing a with
  | zero => rfl
  | succ n ih => rw [ticks_succ, List.length_cons, ih]

variable {n i : ℕ}

theorem getElem?_ticks (a step : Int) (h : i < n) : (ticks a step n)[i]? = some (a + i * step) := by
  induction n generalizing a i with
  | zero => exact absurd h (Nat.not_lt_zero i)
  | succ n ih =>
    cases i with
    | zero => simp [ticks_succ]
    | succ i =>
      rw [ticks_succ, List.getElem?_cons_succ, ih (a + step) (Nat.lt_of_succ_lt_succ h)]
      congr 1
      push_cast
      ring

variable {t a : Int}

theorem mem_ticks {step : Int} : t ∈ ticks a step n ↔ ∃ i : ℕ, i < n ∧ t = a + i * step := by
  rw [List.mem_iff_getElem?]
  constructor
  · rintro ⟨i, hi⟩
    have hlt : i < n := by
      have hlen := (List.getElem?_eq_some_iff.mp hi).1
      rwa [length_ticks] at hlen
    rw [getElem?_ticks a step hlt, Option.some.injEq] at hi
    exact ⟨i, hlt, hi.symm⟩
  · rintro ⟨i, hlt, rfl⟩
    exact ⟨i, getElem?_ticks a step hlt⟩

theorem bounds_of_mem_ticks {step : Int} (hstep : 0 < step) (h : t ∈ ticks a step n) :
    a ≤ t ∧ t < a + n * step := by
  obtain ⟨i, hi, rfl⟩ := mem_ticks.mp h
  have hnonneg : 0 ≤ (i : Int) * step := by positivity
  have hlt : (i : Int) * step < n * step := mul_lt_mul_of_pos_right (by omega) hstep
  omega

theorem nodup_ticks {step : Int} (hstep : 0 < step) (n : ℕ) : (ticks a step n).Nodup := by
  induction n generalizing a with
  | zero => exact List.nodup_nil
  | succ n ih =>
    rw [ticks_succ, List.nodup_cons]
    refine ⟨fun hmem => ?_, ih⟩
    have hle := (bounds_of_mem_ticks hstep hmem).1
    omega

/-- A time on the grid is a whole number of steps on. -/
theorem exists_eq_add_mul_of_dvd {step : Int} (hstep : 0 < step) (hle : a ≤ t)
    (hdvd : step ∣ t - a) : ∃ q : ℕ, t = a + q * step := by
  obtain ⟨q, hq⟩ := hdvd
  have hnonneg : 0 ≤ q := by
    by_contra hneg
    have hprod : step * q < 0 := mul_neg_of_pos_of_neg hstep (by omega)
    omega
  refine ⟨q.toNat, ?_⟩
  rw [Int.toNat_of_nonneg hnonneg, mul_comm]
  omega

theorem mem_ticks_of_dvd {step : Int} (hstep : 0 < step) (hle : a ≤ t) (hdvd : step ∣ t - a)
    (hlt : t < a + n * step) : t ∈ ticks a step n := by
  obtain ⟨q, rfl⟩ := exists_eq_add_mul_of_dvd hstep hle hdvd
  have hqn : (q : Int) < n := lt_of_mul_lt_mul_right (by omega) hstep.le
  exact mem_ticks.mpr ⟨q, by omega, rfl⟩

theorem ticks_append (a step : Int) (m n : ℕ) :
    ticks a step (m + n) = ticks a step m ++ ticks (a + m * step) step n := by
  induction m generalizing a with
  | zero => simp
  | succ m ih =>
    rw [show m + 1 + n = (m + n) + 1 by omega, ticks_succ, ticks_succ, ih (a + step),
      List.cons_append]
    congr 3
    push_cast
    ring

/-- **The ticks inside a window are ticks again**, from the later of the two
beginnings on, when the window begins on a tick. -/
theorem exists_ticks_filter {step lo hi : Int} (hstep : 0 < step) (n : ℕ) :
    ∀ a : Int, step ∣ lo - a →
      ∃ m, (ticks a step n).filter (fun t => lo ≤ t ∧ t ≤ hi) = ticks (max a lo) step m := by
  induction n with
  | zero => exact fun a _ => ⟨0, rfl⟩
  | succ n ih =>
    intro a hdvd
    have hdvd' : step ∣ lo - (a + step) := by
      rw [show lo - (a + step) = lo - a - step by ring]
      exact dvd_sub hdvd (dvd_refl step)
    obtain ⟨m, hm⟩ := ih (a + step) hdvd'
    rw [ticks_succ]
    by_cases hlo : lo ≤ a
    · by_cases hhi : a ≤ hi
      · refine ⟨m + 1, ?_⟩
        rw [List.filter_cons_of_pos (by simpa using ⟨hlo, hhi⟩), hm, max_eq_left hlo,
          max_eq_left (by omega), ticks_succ]
      · refine ⟨0, ?_⟩
        rw [ticks_zero, List.filter_eq_nil_iff]
        intro t ht
        have hle : a ≤ t := by
          rw [← ticks_succ] at ht
          exact (bounds_of_mem_ticks hstep ht).1
        simp only [decide_eq_true_eq, not_and]
        omega
    · have hle : step ≤ lo - a := Int.le_of_dvd (by omega) hdvd
      refine ⟨m, ?_⟩
      rw [List.filter_cons_of_neg (by simp only [decide_eq_true_eq]; omega), hm,
        max_eq_right (show a ≤ lo by omega), max_eq_right (show a + step ≤ lo by omega)]

/-! ## The walk -/

variable {β : Type*} (time : β → Int) (blank : Int → β) (step : Int)

/-- Lay the records along `n` ticks from `t` on. -/
def walk : ℕ → Int → List β → List β
  | 0, _, _ => []
  | n + 1, t, [] => blank t :: walk n (t + step) []
  | n + 1, t, b :: bs =>
    if t = time b then b :: walk n (t + step) bs else blank t :: walk n (t + step) (b :: bs)

/-- The stamps are ticks from `t` on, and increase. -/
def Climbs : Int → List β → Prop
  | _, [] => True
  | t, b :: bs => t ≤ time b ∧ step ∣ time b - t ∧ Climbs (time b + step) bs

/-- The first tick after the records, or the first tick of all. -/
def nextTick : Int → List β → Int
  | t, [] => t
  | _, b :: bs => nextTick (time b + step) bs

variable {time blank step}
variable {l : List β} {b x : β}
variable {l₁ l₂ : List β} {c : Int}

theorem climbs_append :
    Climbs time step t (l₁ ++ l₂) ↔
      Climbs time step t l₁ ∧ Climbs time step (nextTick time step t l₁) l₂ := by
  induction l₁ generalizing t with
  | nil => simp [Climbs, nextTick]
  | cons b l ih => simp only [List.cons_append, Climbs, nextTick, ih, and_assoc]

theorem nextTick_append :
    nextTick time step t (l₁ ++ l₂) = nextTick time step (nextTick time step t l₁) l₂ := by
  induction l₁ generalizing t with
  | nil => rfl
  | cons b l ih => exact ih

theorem nextTick_concat : nextTick time step t (l ++ [b]) = time b + step := by
  rw [nextTick_append]
  rfl

/-- One more record: its stamp is the next tick or a later one. -/
theorem climbs_concat :
    Climbs time step t (l ++ [b]) ↔
      Climbs time step t l ∧ nextTick time step t l ≤ time b ∧
        step ∣ time b - nextTick time step t l := by
  rw [climbs_append]
  simp [Climbs]

theorem climbs_of_increasing (ht : step ∣ t) (hinc : (l.map time).Pairwise (· < ·))
    (hgrid : ∀ x ∈ l.map time, step ∣ x) (hle : ∀ x ∈ l.map time, t ≤ x) :
    Climbs time step t l := by
  induction l generalizing t with
  | nil => trivial
  | cons b l ih =>
    rw [List.map_cons, List.pairwise_cons] at hinc
    have hb : step ∣ time b := hgrid _ List.mem_cons_self
    refine ⟨hle _ List.mem_cons_self, dvd_sub hb ht, ?_⟩
    refine ih (dvd_add hb (dvd_refl step)) hinc.2
      (fun x hx => hgrid x (List.mem_cons_of_mem _ hx)) ?_
    intro x hx
    have hgap : step ≤ x - time b :=
      Int.le_of_dvd (by have hlt := hinc.1 x hx; omega)
        (dvd_sub (hgrid x (List.mem_cons_of_mem _ hx)) hb)
    omega

theorem climbs_of_ticks (h : l.map time = ticks a step n) : Climbs time step a l := by
  induction n generalizing a l with
  | zero =>
    rw [List.map_eq_nil_iff.mp h]
    trivial
  | succ n ih =>
    obtain ⟨b, l, rfl, hb, hl⟩ := List.map_eq_cons_iff.mp h
    subst hb
    exact ⟨le_rfl, by simp, ih hl⟩

theorem nextTick_of_ticks (h : l.map time = ticks a step n) :
    nextTick time step a l = a + n * step := by
  induction n generalizing a l with
  | zero =>
    rw [List.map_eq_nil_iff.mp h]
    simp [nextTick]
  | succ n ih =>
    obtain ⟨b, l, rfl, hb, hl⟩ := List.map_eq_cons_iff.mp h
    subst hb
    rw [nextTick, ih hl]
    push_cast
    ring

theorem Climbs.le_time (hstep : 0 < step) (h : Climbs time step t l) (hb : b ∈ l) : t ≤ time b := by
  induction l generalizing t with
  | nil => simp at hb
  | cons c l ih =>
    rcases List.mem_cons.mp hb with rfl | hb
    · exact h.1
    · have hrest : time c + step ≤ time b := ih h.2.2 hb
      have hhead : t ≤ time c := h.1
      omega

theorem Climbs.dvd (h : Climbs time step t l) (hb : b ∈ l) : step ∣ time b - t := by
  induction l generalizing t with
  | nil => simp at hb
  | cons c l ih =>
    rcases List.mem_cons.mp hb with rfl | hb
    · exact h.2.1
    · have hrest : step ∣ time b - (time c + step) := ih h.2.2 hb
      rw [show time b - t = (time b - (time c + step)) + (time c - t) + step by ring]
      exact dvd_add (dvd_add hrest h.2.1) (dvd_refl step)

theorem Climbs.dvd_nextTick (h : Climbs time step t l) : step ∣ nextTick time step t l - t := by
  rcases List.eq_nil_or_concat l with rfl | ⟨init, b, rfl⟩
  · simp [nextTick]
  · rw [List.concat_eq_append, nextTick_concat,
      show time b + step - t = (time b - t) + step by ring]
    exact dvd_add (h.dvd (by simp)) (dvd_refl step)

/-- The next tick after stamps before a tick is that tick at the latest. -/
theorem Climbs.nextTick_le (h : Climbs time step t l) (htc : t ≤ c) (hdvd : step ∣ c - t)
    (hlt : ∀ b ∈ l, time b < c) : nextTick time step t l ≤ c := by
  rcases List.eq_nil_or_concat l with rfl | ⟨init, b, rfl⟩
  · exact htc
  · have hb : time b < c := hlt b (by simp)
    have hgap : step ∣ c - time b := by
      rw [show c - time b = (c - t) - (time b - t) by ring]
      exact dvd_sub hdvd (h.dvd (by simp))
    have hle : step ≤ c - time b := Int.le_of_dvd (by omega) hgap
    rw [List.concat_eq_append, nextTick_concat]
    omega

/-- A list that climbs from a tick climbs from every tick before it. -/
theorem Climbs.of_tick (hstep : 0 < step) (i : ℕ) (h : Climbs time step (t + i * step) l) :
    Climbs time step t l := by
  cases l with
  | nil => trivial
  | cons b l =>
    have hnonneg : 0 ≤ (i : Int) * step := by positivity
    have hle : t + i * step ≤ time b := h.1
    refine ⟨by omega, ?_, h.2.2⟩
    rw [show time b - t = (time b - (t + i * step)) + i * step by ring]
    exact dvd_add h.2.1 (Dvd.intro_left _ rfl)

/-- A climbing list that does not start at a tick climbs from the next one. -/
theorem Climbs.skip (h : Climbs time step t (b :: l)) (hne : t ≠ time b) :
    Climbs time step (t + step) (b :: l) := by
  obtain ⟨hle, hdvd, hrest⟩ := h
  have hgap : step ≤ time b - t := Int.le_of_dvd (by omega) hdvd
  refine ⟨by omega, ?_, hrest⟩
  rw [show time b - (t + step) = time b - t - step by ring]
  exact dvd_sub hdvd (dvd_refl step)

theorem map_time_walk (hblank : ∀ u, time (blank u) = u) (n : ℕ) (t : Int) (l : List β) :
    (walk time blank step n t l).map time = ticks t step n := by
  induction n generalizing t l with
  | zero => rfl
  | succ n ih =>
    cases l with
    | nil => rw [walk, List.map_cons, hblank, ih, ticks_succ]
    | cons b l =>
      rw [walk]
      split_ifs with hb
      · rw [List.map_cons, ih, ticks_succ, hb]
      · rw [List.map_cons, hblank, ih, ticks_succ]

theorem mem_or_blank_of_mem_walk (h : x ∈ walk time blank step n t l) :
    x ∈ l ∨ ∃ u, x = blank u := by
  induction n generalizing t l with
  | zero => exact absurd h List.not_mem_nil
  | succ n ih =>
    cases l with
    | nil =>
      rcases List.mem_cons.mp h with rfl | h
      · exact Or.inr ⟨t, rfl⟩
      · exact ih h
    | cons b l =>
      rw [walk] at h
      split_ifs at h with hb
      · rcases List.mem_cons.mp h with rfl | h
        · exact Or.inl List.mem_cons_self
        · exact (ih h).imp_left (List.mem_cons_of_mem _)
      · rcases List.mem_cons.mp h with rfl | h
        · exact Or.inr ⟨t, rfl⟩
        · exact ih h

/-- Stamps do not repeat, so a record is found by its stamp. -/
theorem Climbs.find?_eq (hstep : 0 < step) (h : Climbs time step t l) (hb : b ∈ l) :
    l.find? (fun c => time c = time b) = some b := by
  induction l generalizing t with
  | nil => simp at hb
  | cons c l ih =>
    rcases List.mem_cons.mp hb with rfl | hb
    · rw [List.find?_cons_of_pos (by simp)]
    · have hlt : time c + step ≤ time b := Climbs.le_time hstep h.2.2 hb
      rw [List.find?_cons_of_neg (by simp only [decide_eq_true_eq]; omega), ih h.2.2 hb]

/-- **A climbing list is laid out exactly.** -/
theorem walk_of_climbs (hstep : 0 < step) (h : Climbs time step t l) :
    walk time blank step n t l =
      (ticks t step n).map fun u => (l.find? fun b => time b = u).getD (blank u) := by
  induction n generalizing t l with
  | zero => rfl
  | succ n ih =>
    rw [ticks_succ, List.map_cons]
    cases l with
    | nil =>
      rw [walk, ih (show Climbs time step (t + step) [] from trivial)]
      rfl
    | cons b l =>
      by_cases hb : t = time b
      · have hrest : Climbs time step (t + step) l := hb ▸ h.2.2
        rw [walk, if_pos hb, ih hrest]
        refine congrArg₂ List.cons ?_ (List.map_congr_left ?_)
        · rw [List.find?_cons_of_pos (by simp [hb]), Option.getD_some]
        · intro u hu
          obtain ⟨i, -, rfl⟩ := mem_ticks.mp hu
          have hnonneg : 0 ≤ (i : Int) * step := by positivity
          rw [List.find?_cons_of_neg (by simp only [decide_eq_true_eq]; omega)]
      · rw [walk, if_neg hb, ih (h.skip hb)]
        refine congrArg₂ List.cons ?_ rfl
        have hnone : (b :: l).find? (fun c => time c = t) = none := by
          rw [List.find?_eq_none]
          intro c hc
          have hlt : t + step ≤ time c := Climbs.le_time hstep (h.skip hb) hc
          simp only [decide_eq_true_eq]
          omega
        rw [hnone, Option.getD_none]

/-- **A record is shown exactly when the list climbs up to and including it**, within
the ticks. -/
theorem mem_walk_iff (hstep : 0 < step) (hx : ∀ u, x ≠ blank u) :
    x ∈ walk time blank step n t l ↔
      ∃ l₁ l₂, l = l₁ ++ x :: l₂ ∧ Climbs time step t (l₁ ++ [x]) ∧
        time x < t + n * step := by
  induction n generalizing t l with
  | zero =>
    constructor
    · intro hmem
      simp [walk] at hmem
    · rintro ⟨l₁, l₂, -, hclimb, hlt⟩
      have hle : t ≤ time x := Climbs.le_time hstep hclimb (by simp)
      simp only [Nat.cast_zero, zero_mul, add_zero] at hlt
      omega
  | succ n ih =>
    have hlen : t + (n + 1 : ℕ) * step = t + step + n * step := by push_cast; ring
    rw [hlen]
    cases l with
    | nil =>
      constructor
      · intro hmem
        rw [walk, List.mem_cons] at hmem
        rcases hmem with hblank | hmem
        · exact absurd hblank (hx t)
        · obtain ⟨l₁, l₂, hsplit, -⟩ := ih.mp hmem
          simp at hsplit
      · rintro ⟨l₁, l₂, hsplit, -⟩
        simp at hsplit
    | cons b l =>
      by_cases hb : t = time b
      · rw [walk, if_pos hb, List.mem_cons, ih]
        constructor
        · rintro (rfl | ⟨l₁, l₂, rfl, hclimb, hlt⟩)
          · refine ⟨[], l, rfl, ⟨hb.le, by simp [hb], trivial⟩, ?_⟩
            have hnonneg : 0 ≤ (n : Int) * step := by positivity
            omega
          · refine ⟨b :: l₁, l₂, rfl, ⟨hb.le, by simp [hb], ?_⟩, hlt⟩
            rw [← hb]
            exact hclimb
        · rintro ⟨l₁, l₂, hsplit, hclimb, hlt⟩
          cases l₁ with
          | nil => exact Or.inl (List.cons.inj hsplit).1.symm
          | cons c l₁ =>
            obtain ⟨rfl, rfl⟩ := List.cons.inj hsplit
            have hrest : Climbs time step (time b + step) (l₁ ++ [x]) := hclimb.2.2
            rw [← hb] at hrest
            exact Or.inr ⟨l₁, l₂, rfl, hrest, hlt⟩
      · rw [walk, if_neg hb, List.mem_cons, ih]
        constructor
        · rintro (hblank | ⟨l₁, l₂, hsplit, hclimb, hlt⟩)
          · exact absurd hblank (hx t)
          · refine ⟨l₁, l₂, hsplit, ?_, hlt⟩
            refine Climbs.of_tick hstep 1 ?_
            simpa using hclimb
        · rintro ⟨l₁, l₂, hsplit, hclimb, hlt⟩
          refine Or.inr ⟨l₁, l₂, hsplit, ?_, hlt⟩
          cases l₁ with
          | nil =>
            obtain ⟨rfl, rfl⟩ := List.cons.inj hsplit
            exact hclimb.skip hb
          | cons c l₁ =>
            obtain ⟨rfl, rfl⟩ := List.cons.inj hsplit
            exact hclimb.skip hb

/-- The same by position. -/
theorem mem_walk_iff_getElem? (hstep : 0 < step) (hx : ∀ u, x ≠ blank u) :
    x ∈ walk time blank step n t l ↔
      ∃ p, l[p]? = some x ∧ Climbs time step t (l.take (p + 1)) ∧ time x < t + n * step := by
  rw [mem_walk_iff hstep hx]
  constructor
  · rintro ⟨l₁, l₂, rfl, hclimb, hlt⟩
    refine ⟨l₁.length, by simp, ?_, hlt⟩
    rwa [show (l₁ ++ x :: l₂).take (l₁.length + 1) = l₁ ++ [x] by simp [List.take_append]]
  · rintro ⟨p, hp, hclimb, hlt⟩
    obtain ⟨hlen, hget⟩ := List.getElem?_eq_some_iff.mp hp
    refine ⟨l.take p, l.drop (p + 1), ?_, ?_, hlt⟩
    · rw [← hget, List.cons_getElem_drop_succ, List.take_append_drop]
    · rwa [← hget, List.take_append_getElem hlen]

/-! ## Spaced records -/

variable (time step)

/-- A whole number of steps later, at least one. -/
def Apart (b c : β) : Prop := time b + step ≤ time c ∧ step ∣ time c - time b

/-- Stamps a whole number of steps apart. -/
def Spaced (l : List β) : Prop := l.Pairwise (Apart time step)

variable {time step}

theorem Apart.trans (hstep : 0 < step) {c d : β} (hbc : Apart time step b c)
    (hcd : Apart time step c d) : Apart time step b d := by
  obtain ⟨hle, hdvd⟩ := hbc
  obtain ⟨hle', hdvd'⟩ := hcd
  refine ⟨by omega, ?_⟩
  rw [show time d - time b = (time d - time c) + (time c - time b) by ring]
  exact dvd_add hdvd' hdvd

theorem spaced_of_isChain (hstep : 0 < step) (h : l.IsChain (Apart time step)) :
    Spaced time step l := by
  have htrans : Trans (Apart time step) (Apart time step) (Apart time step) :=
    ⟨fun hbc hcd => hbc.trans hstep hcd⟩
  exact List.isChain_iff_pairwise.mp h

/-- Spaced records climb as soon as the first of them is a tick. -/
theorem Spaced.climbs_iff (h : Spaced time step l) :
    Climbs time step t l ↔ ∀ b ∈ l.head?, t ≤ time b ∧ step ∣ time b - t := by
  induction l generalizing t with
  | nil => simp [Climbs]
  | cons b l ih =>
    rw [Spaced, List.pairwise_cons] at h
    have hrest : Climbs time step (time b + step) l := by
      refine (ih h.2).mpr fun c hc => ?_
      obtain ⟨hle, hdvd⟩ := h.1 c (List.mem_of_head? hc)
      refine ⟨hle, ?_⟩
      rw [show time c - (time b + step) = (time c - time b) - step by ring]
      exact dvd_sub hdvd (dvd_refl step)
    simp only [Climbs, hrest, and_true, List.head?_cons, Option.mem_some_iff, forall_eq']

/-- The record at a position is that many steps on, or later. -/
theorem Spaced.le_time (h : Spaced time step l) (hc : ∀ b ∈ l, c ≤ time b) (hb : l[i]? = some b) :
    c + i * step ≤ time b := by
  induction l generalizing c i with
  | nil => simp at hb
  | cons d l ih =>
    rw [Spaced, List.pairwise_cons] at h
    cases i with
    | zero =>
      rw [List.getElem?_cons_zero, Option.some_inj] at hb
      subst hb
      simpa using hc d List.mem_cons_self
    | succ i =>
      have hd : c ≤ time d := hc d List.mem_cons_self
      have hle : c + step + i * step ≤ time b := by
        refine ih h.2 (fun e he => ?_) (by simpa using hb)
        have hde := (h.1 e he).1
        omega
      push_cast [add_mul]
      omega

/-- Spaced records split at any time. -/
theorem Spaced.filter_append (hstep : 0 < step) (c : Int) (h : Spaced time step l) :
    l.filter (fun b => time b < c) ++ l.filter (fun b => c ≤ time b) = l := by
  induction l with
  | nil => rfl
  | cons b l ih =>
    rw [Spaced, List.pairwise_cons] at h
    by_cases hb : time b < c
    · rw [List.filter_cons_of_pos (by simpa using hb),
        List.filter_cons_of_neg (by simpa using hb), List.cons_append, ih h.2]
    · have hall : ∀ d ∈ l, c ≤ time d := by
        intro d hd
        have hbd := (h.1 d hd).1
        omega
      rw [List.filter_cons_of_neg (by simpa using hb),
        List.filter_cons_of_pos (by simpa using hb),
        List.filter_eq_nil_iff.mpr (by simpa using hall),
        List.filter_eq_self.mpr (by simpa using hall), List.nil_append]

end Order
