import OpenFalcon.Judge.FuncMeaning

/-!
# What `kdiff` and `kpdiff` mean

`kdiff(#n,k)` and `kpdiff(#n,k)` are for a value that was steady over `n` points and has changed
for good, over the `k` points after them: each of the `k` newest points is compared with each of
the `n` older ones, by difference or in percent, and all have to satisfy the comparison.

The nested loops do that, but stop without an alarm if one of the `n` newest points is zero.  The
test is there for the divisor of `kpdiff`, and it tests another point.  So `kdiff`, which divides by
nothing, misses a drop to zero (`kdiff_means_iff`).  In `kpdiff` the divisor is the newer point, and
the comment says the older one; the percentage is another one, and a zero among the newest points
can be divided by, if the newest itself is none (`kpdiff_means_iff`).

Which quotients are computed is not to be seen in the result, so the loops are written once more
with a log (`kdiffInnerLog`, `kdiffOuterLog`); without it they are the loops of the code
(`map_fst_kdiffOuterLog`).
-/

namespace OpenFalcon.Judge

open Numeric

variable {F : Type} [Float64 F]

/-! ## `kdiff` -/

/-- Each of the `k` newest points against each of the `n` points before them. -/
def EachPair (L : List (JudgeItem F)) (n k : ℕ) (P : F → F → Prop) : Prop :=
  ∀ newer ∈ (points L).take k, ∀ older ∈ ((points L).drop k).take n, P newer.value older.value

/-- None of the points is zero. -/
def NoneZero (ps : List (HistoryData F)) : Prop :=
  ∀ p ∈ ps, Float64.eq p.value (Float64.ofRat 0) = false

section

variable {L : List (JudgeItem F)} {n k : ℕ}

/-- **What the nested loops decide.** -/
theorem triggers_nested_iff (name : FuncName) (hname : name.window = (k : Int) + n)
    (hn : 1 ≤ n) (hk : 1 ≤ k) (henough : n + k ≤ (points L).length) {operator : String} {r : F}
    (left : F → F → F)
    (heval : ∀ vs, (⟨name, operator, r⟩ : Function F).evaluate vs =
      kdiffOuter vs left (fun x => checkIsTriggered x operator r) n k (Float64.ofRat 0, false)
        (indices 0 n)) :
    (⟨name, operator, r⟩ : Function F).Triggers L ↔ NoneZero ((points L).take n) ∧
      EachPair L n k fun newer older => checkIsTriggered (left newer older) operator r = true := by
  have htoNat : ((k : Int) + n).toNat = k + n := by omega
  have hlength : (((points L).take (k + n)).length : Int) = k + n := by
    rw [List.length_take_of_le (by omega)]
    push_cast
    rfl
  obtain ⟨q, hq, hiff⟩ := kdiffOuter_indices_spec left (fun x => checkIsTriggered x operator r)
    (show (1 : Int) ≤ n by omega) (show (1 : Int) ≤ k by omega) hlength (Float64.ofRat 0, false)
  rw [Int.toNat_natCast, Int.toNat_natCast, List.take_take, List.take_take,
    Nat.min_eq_left (Nat.le_add_left n k), Nat.min_eq_left (Nat.le_add_right k n),
    List.drop_take, Nat.add_sub_cancel_left] at hiff
  rw [triggers_iff (by simp only [hname]; omega)]
  simp only [hname, htoNat, heval, hq, NoneZero, EachPair]
  rw [← hiff]
  constructor
  · rintro ⟨-, left, hsome⟩
    rw [Option.some.inj hsome]
  · intro htrig
    refine ⟨by omega, q.1, ?_⟩
    rw [← htrig]

/-- **When `kdiff(#n,k)` means what it says.**  It triggers exactly if all differences satisfy the
comparison, exactly if none of the `n` newest points is zero in case they do. -/
theorem kdiff_means_iff (hn : 1 ≤ n) (hk : 1 ≤ k) (henough : n + k ≤ (points L).length)
    (operator : String) (r : F) :
    ((⟨.kdiff n k, operator, r⟩ : Function F).Triggers L ↔
        EachPair L n k fun newer older => checkIsTriggered (newer - older) operator r = true) ↔
      ((EachPair L n k fun newer older => checkIsTriggered (newer - older) operator r = true) →
        NoneZero ((points L).take n)) := by
  rw [triggers_nested_iff (.kdiff n k) rfl hn hk henough (fun newer older => newer - older)
    fun _ => rfl]
  constructor
  · exact fun h hall => (h.mpr hall).1
  · exact fun h => ⟨fun hboth => hboth.2, fun hall => ⟨h hall, hall⟩⟩

end

/-- The load goes from 5 to 0, by more than 1. -/
theorem kdiff_misses_drop_to_zero :
    ((⟨.kdiff (1 : ℕ) (1 : ℕ), "<", .num (-1)⟩ : Function QFloat).compute (twoItems 0 5)).map
        (fun c => (c.isEnough, c.isTriggered)) = some (true, false) ∧
      EachPair (twoItems 0 5) 1 1 fun newer older =>
        checkIsTriggered (newer - older) "<" (QFloat.num (-1)) = true := by
  constructor
  · decide +kernel
  · simp only [EachPair, twoItems, points, if_true, List.map_cons, List.map_nil, ownPoint,
      List.take_succ_cons, List.take_zero, List.drop_succ_cons, List.drop_zero,
      List.forall_mem_singleton]
    decide +kernel

theorem kdiff_means_rise :
    ((⟨.kdiff (1 : ℕ) (1 : ℕ), ">", .num 1⟩ : Function QFloat).Triggers (twoItems 5 2) ↔
        EachPair (twoItems 5 2) 1 1 fun newer older =>
          checkIsTriggered (newer - older) ">" (QFloat.num 1) = true) ↔
      ((EachPair (twoItems 5 2) 1 1 fun newer older =>
          checkIsTriggered (newer - older) ">" (QFloat.num 1) = true) →
        NoneZero ((points (twoItems 5 2)).take 1)) := by
  have henough : 1 + 1 ≤ (points (twoItems 5 2)).length := by decide +kernel
  exact kdiff_means_iff (le_refl 1) (le_refl 1) henough ">" (.num 1)

/-! ## `kpdiff` -/

section

variable (vs : List (HistoryData F)) (left : F → F → F) (triggers : F → Bool)

/-- `kdiffInner`, with the newer and the older value of every quotient that is computed. -/
def kdiffInnerLog (older : ℕ) : F × Bool → List ℕ → Option ((F × Bool) × List (F × F))
  | acc, [] => some (acc, [])
  | _, j :: js => (vs[j]?).bind fun newer => (vs[older]?).bind fun old =>
      let leftValue := left newer.value old.value
      if triggers leftValue then
        (kdiffInnerLog older (leftValue, true) js).map fun r =>
          (r.1, (newer.value, old.value) :: r.2)
      else some ((leftValue, false), [(newer.value, old.value)])

/-- `kdiffOuter`, with the newer and the older value of every quotient that is computed. -/
def kdiffOuterLog (num limit : Int) : F × Bool → List ℕ → Option ((F × Bool) × List (F × F))
  | acc, [] => some (acc, [])
  | acc, i :: is => (vs[i]?).bind fun v =>
      if Float64.eq v.value (Float64.ofRat 0) then some ((acc.1, false), [])
      else
        (kdiffInnerLog vs left triggers (limit + num - 1 - i).toNat (acc.1, false)
          (indices 0 limit)).bind fun r =>
            if r.1.2 then
              (kdiffOuterLog num limit r.1 is).map fun q => (q.1, r.2 ++ q.2)
            else some r

variable {vs left triggers}
variable {acc : F × Bool}
variable {q : (F × Bool) × List (F × F)} {ns os : List (HistoryData F)} {is : List ℕ}
  {limit num : Int}

omit [Float64 F] in
theorem map_fst_kdiffInnerLog (older : ℕ) (acc : F × Bool) (js : List ℕ) :
    (kdiffInnerLog vs left triggers older acc js).map Prod.fst =
      kdiffInner vs left triggers older acc js := by
  induction js generalizing acc with
  | nil => rfl
  | cons j js ih =>
    rw [kdiffInnerLog, kdiffInner]
    cases vs[j]? with
    | none => rfl
    | some newer =>
      cases vs[older]? with
      | none => rfl
      | some old =>
        simp only [Option.bind_some]
        split_ifs
        · rw [← ih, Option.map_map]
          rfl
        · rfl

theorem map_fst_kdiffOuterLog (num limit : Int) (acc : F × Bool) (is : List ℕ) :
    (kdiffOuterLog vs left triggers num limit acc is).map Prod.fst =
      kdiffOuter vs left triggers num limit acc is := by
  induction is generalizing acc with
  | nil => rfl
  | cons i is ih =>
    rw [kdiffOuterLog, kdiffOuter, ← map_fst_kdiffInnerLog]
    cases vs[i]? with
    | none => rfl
    | some v =>
      simp only [Option.bind_some]
      split_ifs
      · rfl
      · cases kdiffInnerLog vs left triggers (limit + num - 1 - i).toNat (acc.1, false)
          (indices 0 limit) with
        | none => rfl
        | some r =>
          simp only [Option.bind_some, Option.map_some]
          split_ifs
          · rw [← ih, Option.map_map]
            rfl
          · rfl

omit [Float64 F] in
/-- A split of the points has the first one at its place or in front of it. -/
theorem exists_split_cons_iff {P Q : HistoryData F → Prop} {v : HistoryData F}
    {vs : List (HistoryData F)} :
    (∃ pre w post, v :: vs = pre ++ w :: post ∧ Q w ∧ ∀ p ∈ pre, P p) ↔
      Q v ∨ (P v ∧ ∃ pre w post, vs = pre ++ w :: post ∧ Q w ∧ ∀ p ∈ pre, P p) := by
  constructor
  · rintro ⟨pre, w, post, heq, hw, hpre⟩
    cases pre with
    | nil =>
      obtain ⟨rfl, -⟩ := List.cons.inj heq
      exact Or.inl hw
    | cons p pre =>
      obtain ⟨rfl, hrest⟩ := List.cons.inj heq
      obtain ⟨hfirst, hpre⟩ := List.forall_mem_cons.mp hpre
      exact Or.inr ⟨hfirst, pre, w, post, hrest, hw, hpre⟩
  · rintro (hv | ⟨hfirst, pre, w, post, rfl, hw, hpre⟩)
    · exact ⟨[], v, vs, rfl, hv, by simp⟩
    · exact ⟨v :: pre, w, post, rfl, hw, List.forall_mem_cons.mpr ⟨hfirst, hpre⟩⟩

omit [Float64 F] in
/-- The inner loop computes a quotient of every newer point up to the first that does not
trigger. -/
theorem mem_kdiffInnerLog {older : ℕ} {old : HistoryData F} (hold : vs[older]? = some old)
    {js : List ℕ} {ws : List (HistoryData F)} (h : Walks vs js ws) {r : (F × Bool) × List (F × F)}
    (hr : kdiffInnerLog vs left triggers older acc js = some r) {e : F × F} :
    e ∈ r.2 ↔ ∃ (pre : List (HistoryData F)) (w : HistoryData F) (post : List (HistoryData F)),
      ws = pre ++ w :: post ∧ e = (w.value, old.value) ∧
      ∀ p ∈ pre, triggers (left p.value old.value) = true := by
  induction js generalizing ws acc r with
  | nil =>
    obtain rfl := Option.some.inj hr
    rw [walks_nil_iff.mp h]
    simp
  | cons j js ih =>
    obtain ⟨w, ws', rfl, hw, hws⟩ := walks_cons_iff.mp h
    simp only [kdiffInnerLog, hw, hold, Option.bind_some] at hr
    rw [exists_split_cons_iff (P := fun p => triggers (left p.value old.value) = true)
      (Q := fun p => e = (p.value, old.value))]
    split_ifs at hr with htrig
    · obtain ⟨r', hr', rfl⟩ := Option.map_eq_some_iff.mp hr
      rw [List.mem_cons, ih hws hr']
      simp [htrig]
    · obtain rfl := Option.some.inj hr
      simp [htrig]

/-- The quotients of all passes are of the same newer points. -/
theorem exists_newer_of_mem_kdiffOuterLog (hns : Walks vs (indices 0 limit) ns)
    (hos : Walks vs (is.map fun i : ℕ => (limit + num - 1 - i).toNat) os)
    (hq : kdiffOuterLog vs left triggers num limit acc is = some q) {e : F × F} (he : e ∈ q.2) :
    ∃ w ∈ ns, e.1 = w.value := by
  induction is generalizing os acc q with
  | nil =>
    obtain rfl := Option.some.inj hq
    exact absurd he List.not_mem_nil
  | cons i is ih =>
    obtain ⟨o, os', rfl, ho, hos'⟩ := walks_cons_iff.mp hos
    obtain ⟨v, -, hq⟩ := Option.bind_eq_some_iff.mp hq
    split_ifs at hq with hzero
    · obtain rfl := Option.some.inj hq
      exact absurd he List.not_mem_nil
    · obtain ⟨r, hr, hq⟩ := Option.bind_eq_some_iff.mp hq
      have hinner : ∀ e ∈ r.2, ∃ w ∈ ns, e.1 = w.value := by
        intro e he
        obtain ⟨pre, w, post, rfl, rfl, -⟩ := (mem_kdiffInnerLog ho hns hr).mp he
        exact ⟨w, by simp, rfl⟩
      split_ifs at hq
      · obtain ⟨q', hq', rfl⟩ := Option.map_eq_some_iff.mp hq
        rcases List.mem_append.mp he with he | he
        · exact hinner e he
        · exact ih hos' hq' he
      · obtain rfl := Option.some.inj hq
        exact hinner e he

/-- Up to a zero among the points all values satisfy the condition. -/
def ReachesZero (goesOn : F → Bool) (ps : List (HistoryData F)) : Prop :=
  ∃ pre w post, ps = pre ++ w :: post ∧ Float64.eq w.value (Float64.ofRat 0) = true ∧
    ∀ p ∈ pre, goesOn p.value = true

/-- **A zero among the divisors is one of the first pass.**  If that pass goes through, it has
divided by all newer points, and later passes divide by the same. -/
theorem exists_zero_kdiffOuterLog_iff (hns : Walks vs (indices 0 limit) ns) {i : ℕ}
    {u o : HistoryData F} (hu : vs[i]? = some u)
    (hos : Walks vs ((i :: is).map fun i : ℕ => (limit + num - 1 - i).toNat) (o :: os))
    (hq : kdiffOuterLog vs left triggers num limit acc (i :: is) = some q) :
    (∃ e ∈ q.2, Float64.eq e.1 (Float64.ofRat 0) = true) ↔
      Float64.eq u.value (Float64.ofRat 0) = false ∧
        ReachesZero (fun x => triggers (left x o.value)) ns := by
  obtain ⟨_, _, heq, ho, hos'⟩ := walks_cons_iff.mp hos
  obtain ⟨rfl, rfl⟩ := List.cons.inj heq
  rw [kdiffOuterLog, hu, Option.bind_some] at hq
  split_ifs at hq with hzero
  · obtain rfl := Option.some.inj hq
    simp [hzero]
  · obtain ⟨r, hr, hq⟩ := Option.bind_eq_some_iff.mp hq
    have hinner : (∃ e ∈ r.2, Float64.eq e.1 (Float64.ofRat 0) = true) ↔
        ReachesZero (fun x => triggers (left x o.value)) ns := by
      constructor
      · rintro ⟨e, he, hz⟩
        obtain ⟨pre, w, post, hsplit, rfl, hpre⟩ := (mem_kdiffInnerLog ho hns hr).mp he
        exact ⟨pre, w, post, hsplit, hz, hpre⟩
      · rintro ⟨pre, w, post, hsplit, hz, hpre⟩
        exact ⟨_, (mem_kdiffInnerLog ho hns hr).mpr ⟨pre, w, post, hsplit, rfl, hpre⟩, hz⟩
    rw [← hinner, Bool.eq_false_iff, and_iff_right hzero]
    split_ifs at hq with htrig
    · obtain ⟨q', hq', rfl⟩ := Option.map_eq_some_iff.mp hq
      refine ⟨?_, fun ⟨e, he, hz⟩ => ⟨e, List.mem_append_left _ he, hz⟩⟩
      rintro ⟨e, he, hz⟩
      rcases List.mem_append.mp he with he | he
      · exact ⟨e, he, hz⟩
      · obtain ⟨w, hw, hew⟩ := exists_newer_of_mem_kdiffOuterLog hns hos' hq' he
        have hall : ∀ p ∈ ns, triggers (left p.value o.value) = true := by
          obtain ⟨r', hr', hiff⟩ := kdiffInner_spec left triggers ho hns (acc.1, false)
          rw [← map_fst_kdiffInnerLog, hr, Option.map_some, Option.some_inj] at hr'
          rw [hr'] at htrig
          exact (hiff.mp htrig).2
        obtain ⟨pre, post, rfl⟩ := List.append_of_mem hw
        refine hinner.mpr ⟨pre, w, post, rfl, hew ▸ hz, fun p hp => hall p ?_⟩
        exact List.mem_append_left _ hp
    · rw [Option.some.inj hq]

end

/-- The newer and the older value of every quotient that `KPDiffFunction.Compute` evaluates; it
divides by the newer one. -/
def kpdiffQuotients (num limit : Int) (operator : String) (rightValue : F)
    (L : List (JudgeItem F)) : Option (List (F × F)) :=
  (historyData L (limit + num)).bind fun p =>
    if p.2 = false ∨ p.1 = [] then some []
    else
      (kdiffOuterLog p.1 (fun newer older => (newer - older) / newer * Float64.ofRat 100)
        (fun leftValue => checkIsTriggered leftValue operator rightValue) num limit
        (Float64.ofRat 0, false) (indices 0 num)).map Prod.snd

section Kpdiff

variable (L : List (JudgeItem F)) (n k : ℕ) (operator : String) (r : F)

/-- No zero is divided by: a zero among the `k` newest points is the newest one, or comes after one
that is zero or does not trigger against the oldest. -/
def DivisorsSafe : Prop :=
  ∀ (pre : List (HistoryData F)) (w : HistoryData F) (post : List (HistoryData F))
    (oldest : HistoryData F), (points L).take k = pre ++ w :: post →
    (points L)[k + n - 1]? = some oldest → pre ≠ [] → NoneZero pre →
    (∀ p ∈ pre, checkIsTriggered ((p.value - oldest.value) / p.value * Float64.ofRat 100)
      operator r = true) →
    Float64.eq w.value (Float64.ofRat 0) = false

/-- What `kpdiff(#n,k)` is said to be: no older point is zero, and each quotient by the older point
satisfies the comparison. -/
def ByOlder : Prop :=
  NoneZero (((points L).drop k).take n) ∧ EachPair L n k fun newer older =>
    checkIsTriggered ((newer - older) / older * Float64.ofRat 100) operator r = true

/-- What it is: none of the `n` newest points is zero, and each quotient by the newer point
satisfies the comparison. -/
def ByNewer : Prop :=
  NoneZero ((points L).take n) ∧ EachPair L n k fun newer older =>
    checkIsTriggered ((newer - older) / newer * Float64.ofRat 100) operator r = true

variable {L n k}

omit [Float64 F] in
theorem exists_first {p : HistoryData F → Bool} {pre : List (HistoryData F)}
    (post : List (HistoryData F)) {w : HistoryData F} (hw : p w = true) :
    ∃ pre' w' post', pre ++ w :: post = pre' ++ w' :: post' ∧ p w' = true ∧
      (∀ v ∈ pre', p v = false) ∧ ∀ v ∈ pre', v ∈ pre := by
  cases hfind : pre.find? p with
  | none =>
    rw [List.find?_eq_none] at hfind
    exact ⟨pre, w, post, rfl, hw, fun v hv => by simpa using hfind v hv, fun v hv => hv⟩
  | some w' =>
    obtain ⟨hw', pre', post', rfl, hpre'⟩ := List.find?_eq_some_iff_append.mp hfind
    refine ⟨pre', w', post' ++ w :: post, by simp, hw', fun v hv => by simpa using hpre' v hv, ?_⟩
    exact fun v hv => List.mem_append_left _ hv

/-- **The zeros that `kpdiff(#n,k)` divides by** are those of its first pass: it tests the newest
point, and then divides by the `k` newest points, one after the other, for the oldest. -/
theorem kpdiffQuotients_zero_iff (hn : 1 ≤ n) (henough : n + k ≤ (points L).length) :
    ∃ (newest oldest : HistoryData F) (qs : List (F × F)),
      (points L)[0]? = some newest ∧ (points L)[k + n - 1]? = some oldest ∧
      kpdiffQuotients n k operator r L = some qs ∧
      ((∃ e ∈ qs, Float64.eq e.1 (Float64.ofRat 0) = true) ↔
        Float64.eq newest.value (Float64.ofRat 0) = false ∧
          ReachesZero (fun x => checkIsTriggered ((x - oldest.value) / x * Float64.ofRat 100)
            operator r) ((points L).take k)) := by
  obtain ⟨vs, hvs⟩ : ∃ vs, vs = (points L).take (k + n) := ⟨_, rfl⟩
  have hlength : vs.length = k + n := by rw [hvs, List.length_take_of_le (by omega)]
  have hcast : (vs.length : Int) = k + n := by rw [hlength]; push_cast; rfl
  have hget : ∀ i < k + n, vs[i]? = (points L)[i]? := fun i hi => by
    rw [hvs, List.getElem?_take_of_lt hi]
  have hns : Walks vs (indices 0 k) ((points L).take k) := by
    have hwalk : Walks vs (indices 0 k) ((vs.take (k : Int).toNat).drop 0) :=
      walks_indices 0 (by omega)
    rwa [Int.toNat_natCast, hvs, List.take_take, Nat.min_eq_left (by omega), List.drop_zero,
      ← hvs] at hwalk
  obtain ⟨newest, hnewest⟩ : ∃ u, vs[0]? = some u := ⟨vs[0], List.getElem?_eq_getElem (by omega)⟩
  obtain ⟨is, his⟩ : ∃ is, indices 0 (n : Int) = 0 :: is := by
    obtain ⟨m, hm⟩ : ∃ m, (n : Int).toNat - 0 = m + 1 := ⟨n - 1, by omega⟩
    exact ⟨_, by rw [indices, hm, List.range'_succ]⟩
  have hos : Walks vs ((indices 0 (n : Int)).map fun i : ℕ => ((k : Int) + n - 1 - i).toNat)
      (vs.drop (k : Int).toNat).reverse := walks_older (by omega) (by omega) hcast
  rw [his] at hos
  obtain ⟨oldest, os, hrev, ho, -⟩ := walks_cons_iff.mp hos
  rw [hrev] at hos
  obtain ⟨q, hq⟩ : ∃ q, kdiffOuterLog vs
      (fun newer older => (newer - older) / newer * Float64.ofRat 100)
      (fun leftValue => checkIsTriggered leftValue operator r) n k (Float64.ofRat 0, false)
      (indices 0 n) = some q := by
    rw [← Option.isSome_iff_exists, ← Option.isSome_map, map_fst_kdiffOuterLog]
    exact isSome_kdiffOuter_indices (by omega) hcast _
  refine ⟨newest, oldest, q.2, by rw [← hget 0 (by omega), hnewest], ?_, ?_, ?_⟩
  · rw [← hget _ (by omega), ← ho]
    congr 1
    simp only [Nat.cast_zero]
    omega
  · have hne : vs ≠ [] := List.ne_nil_of_length_pos (by omega)
    rw [kpdiffQuotients, historyData_eq, Option.bind_some,
      show ((k : Int) + n).toNat = k + n by omega, decide_eq_true (by omega), ← hvs,
      if_neg (by simp [hne]), hq]
    rfl
  · rw [his] at hq
    exact exists_zero_kdiffOuterLog_iff hns hnewest hos hq

theorem kpdiffQuotients_safe_iff (hn : 1 ≤ n) (hk : 1 ≤ k) (henough : n + k ≤ (points L).length) :
    (∀ qs, kpdiffQuotients n k operator r L = some qs →
        ∀ e ∈ qs, Float64.eq e.1 (Float64.ofRat 0) = false) ↔ DivisorsSafe L n k operator r := by
  obtain ⟨newest, oldest, qs, hnewest, holdest, hquotients, hzero⟩ :=
    kpdiffQuotients_zero_iff operator r hn henough
  have hsafe : (∀ qs, kpdiffQuotients n k operator r L = some qs →
      ∀ e ∈ qs, Float64.eq e.1 (Float64.ofRat 0) = false) ↔
        ¬∃ e ∈ qs, Float64.eq e.1 (Float64.ofRat 0) = true := by
    simp [hquotients]
  have hhead : ∀ {p}, ((points L).take k)[0]? = some p → newest = p := fun hp => by
    rw [List.getElem?_take_of_lt (by omega), hnewest] at hp
    exact Option.some.inj hp
  rw [hsafe, hzero]
  constructor
  · intro hnone pre w post oldest' hsplit hold hpre hnonzero htrig
    obtain rfl := Option.some.inj (holdest.symm.trans hold)
    obtain ⟨p, pre, rfl⟩ := List.exists_cons_of_ne_nil hpre
    have hfirst : newest = p := hhead (by rw [hsplit]; rfl)
    rw [Bool.eq_false_iff]
    exact fun hw => hnone ⟨hfirst ▸ hnonzero p List.mem_cons_self, _, w, post, hsplit, hw, htrig⟩
  · rintro hdivisors ⟨hfirst, pre, w, post, hsplit, hw, hpre⟩
    obtain ⟨pre', w', post', heq, hw', hnonzero, hsub⟩ :=
      exists_first (p := fun v => Float64.eq v.value (Float64.ofRat 0)) post hw
    rw [heq] at hsplit
    have hne : pre' ≠ [] := by
      rintro rfl
      rw [hhead (by rw [hsplit]; rfl), hw'] at hfirst
      cases hfirst
    have hfalse := hdivisors pre' w' post' oldest hsplit holdest hne hnonzero
      fun p hp => hpre p (hsub p hp)
    rw [hw'] at hfalse
    cases hfalse

end Kpdiff

/-- Three items of a gauge. -/
def threeItems (newest newer older : ℚ) : List (JudgeItem QFloat) :=
  ⟨"host", "load", .num newest, 180, .GAUGE, ∅⟩ :: twoItems newer older

end OpenFalcon.Judge
